import NestedMachine.Proofs.Memory.Covers
import NestedMachine.Proofs.Memory.Flat

/-!
# Ranges that are checked first

A range is checked at both ends and, if these lie in different segments, segment by segment in
between.  In an ordered layout the segments are apart, so the walk over the segments finds what a
search of the addresses would find (`Layout.Ordered.checkFrom_eq`), and the check tells exactly
whether every address of the range permits the access (`Layout.Ordered.checkRange_eq`).  So a range
that may be written may be written in part, and nothing but a lack of frames can keep bytes out of
it (`Memory.Sound.fault_of_checked`).

Reading never changes what is seen.  An action that only looks leaves a memory that covers the one
it found (`Memory.Peeking`).
-/

namespace NestedMachine

set_option autoImplicit false

/-! ## Segments of an ordered layout -/

namespace Layout

variable {layout : Layout} {address size : Nat} {access : Access}

theorem holds_iff {segment : Segment} : layout.holds segment address = true ↔
    layout.start segment ≤ address ∧ address < layout.stop segment := by
  simp only [holds, Bool.and_eq_true, decide_eq_true_eq]

theorem holds_of_segmentOf? {segment : Segment} (found : layout.segmentOf? address = some segment) :
    layout.holds segment address = true :=
  List.find?_some (p := (layout.holds · address)) found

/-- Segments that are in order are apart. -/
theorem Ordered.segment_unique (ordered : layout.Ordered) {segment other : Segment}
    (held : layout.holds segment address = true) (held' : layout.holds other address = true) :
    segment = other := by
  obtain ⟨codeEnd_le, -, dataStart_le, dataEnd_le, heapStart_le, programBreak_le, -⟩ := ordered
  rw [holds_iff] at held held'
  cases segment <;> cases other <;> simp only [start, stop] at held held' <;> first | rfl | omega

theorem Ordered.segmentOf?_eq (ordered : layout.Ordered) {segment : Segment}
    (held : layout.holds segment address = true) : layout.segmentOf? address = some segment := by
  cases found : layout.segmentOf? address with
  | some other =>
      rw [ordered.segment_unique (holds_of_segmentOf? found) held]
  | none =>
      have member : segment ∈ [Segment.code, .data, .heap, .stack] := by cases segment <;> decide
      exact absurd held (List.find?_eq_none.mp found segment member)

theorem check_eq_ok_iff {segment : Segment} : layout.check address access = .ok segment ↔
    layout.segmentOf? address = some segment ∧ permits access segment = true := by
  unfold check
  cases layout.segmentOf? address with
  | none => simp
  | some found =>
      dsimp only
      split
      · rename_i permitted
        simp only [Except.ok.injEq, Option.some.injEq]
        constructor
        · rintro rfl
          exact ⟨rfl, permitted⟩
        · exact And.left
      · rename_i refused
        simp only [reduceCtorEq, Option.some.injEq, false_iff, not_and]
        rintro rfl
        exact refused

/-- Whether an access to an address is permitted. -/
def Permits (layout : Layout) (access : Access) (address : Nat) : Prop :=
  ∃ segment, layout.check address access = .ok segment

/-- A segment that permits an access to one address permits it up to its end. -/
theorem Ordered.permits_of_le (ordered : layout.Ordered) {segment : Segment} {place : Nat}
    (allowed : layout.check address access = .ok segment) (above : address ≤ place)
    (inside : place < layout.stop segment) : layout.Permits access place := by
  obtain ⟨found, permitted⟩ := check_eq_ok_iff.mp allowed
  have held := holds_of_segmentOf? found
  have start_le : layout.start segment ≤ place := (holds_iff.mp held).1.trans above
  exact ⟨segment, check_eq_ok_iff.mpr
    ⟨ordered.segmentOf?_eq (holds_iff.mpr ⟨start_le, inside⟩), permitted⟩⟩

/-! ## Verdicts on ranges -/

theorem grants_iff : layout.grants access address = true ↔
    ∃ segment, layout.holds segment address = true ∧ permits access segment = true := by
  simp only [grants, List.any_eq_true, Bool.and_eq_true]
  constructor
  · rintro ⟨segment, -, held, permitted⟩
    exact ⟨segment, held, permitted⟩
  · rintro ⟨segment, held, permitted⟩
    exact ⟨segment, by cases segment <;> decide, held, permitted⟩

theorem Ordered.grants_iff_permits (ordered : layout.Ordered) :
    layout.grants access address = true ↔ layout.Permits access address := by
  rw [grants_iff]
  constructor
  · rintro ⟨segment, held, permitted⟩
    exact ⟨segment, check_eq_ok_iff.mpr ⟨ordered.segmentOf?_eq held, permitted⟩⟩
  · rintro ⟨segment, allowed⟩
    obtain ⟨found, permitted⟩ := check_eq_ok_iff.mp allowed
    exact ⟨segment, holds_of_segmentOf? found, permitted⟩

theorem grantsAll_iff : layout.grantsAll access address size = true ↔
    ∀ place, address ≤ place → place < address + size → layout.grants access place = true := by
  simp only [grantsAll, List.all_eq_true, List.mem_range'_1, and_imp]

/-- Nothing lies past the top of an address space. -/
theorem Ordered.lt_of_grants (ordered : layout.Ordered)
    (granted : layout.grants access address = true) : address < addressSpaceSize := by
  obtain ⟨segment, held, -⟩ := grants_iff.mp granted
  obtain ⟨codeEnd_le, -, dataStart_le, dataEnd_le, heapStart_le, programBreak_le, stackLimit_le⟩ :=
    ordered
  have below := (holds_iff.mp held).2
  cases segment <;> simp only [stop] at below <;> omega

/-- A check of one address blames that address. -/
theorem Ordered.check_eq (ordered : layout.Ordered) (access : Access) (address : Nat) :
    (∃ segment, layout.check address access = .ok segment ∧
        layout.grants access address = true) ∨
      (layout.check address access = .error (.segmentation address) ∧
        layout.grants access address = false) := by
  cases verdict : layout.check address access with
  | ok segment => exact .inl ⟨segment, rfl, ordered.grants_iff_permits.mpr ⟨segment, verdict⟩⟩
  | error fault =>
      refine .inr ⟨?_, Bool.eq_false_iff.mpr fun granted => ?_⟩
      · unfold check at verdict
        split at verdict
        · split at verdict
          · cases verdict
          · exact verdict.symm
        · exact verdict.symm
      · obtain ⟨segment, allowed⟩ := ordered.grants_iff_permits.mp granted
        rw [verdict] at allowed
        cases allowed

/-- The first address of a range is blamed before any other. -/
theorem blamed_of_first (refused : layout.grants access address = false) :
    layout.blamed access address size = address := by
  unfold blamed
  split
  · rfl
  · dsimp only
    rw [List.find?_cons, refused]
    rfl

/-- The first address of a range that is not granted. -/
def refused? (layout : Layout) (access : Access) (address size : Nat) : Option Nat :=
  (List.range' address size).find? fun place => !layout.grants access place

theorem refused?_eq_none_iff :
    layout.refused? access address size = none ↔ layout.grantsAll access address size = true := by
  simp only [refused?, grantsAll, List.find?_eq_none, List.all_eq_true, Bool.not_eq_true',
    Bool.not_eq_false]

/-- The search for what is not granted may start behind what is. -/
theorem refused?_append {front : Nat} (granted : layout.grantsAll access address front = true) :
    layout.refused? access address (front + size) =
      layout.refused? access (address + front) size := by
  have none := refused?_eq_none_iff.mpr granted
  unfold refused? at none ⊢
  rw [← List.range'_append_1, List.find?_append, none]
  rfl

/-- The outcome of a search for what is not granted. -/
def verdict : Option Nat → Except Fault Unit
  | none => .ok ()
  | some place => .error (.segmentation place)

/-- A walk over the segments goes on behind a segment that permits the access. -/
theorem checkFrom_of_check_ok {cursor last : Nat} {segment : Segment} (inside : ¬last < cursor)
    (allowed : layout.check cursor access = .ok segment) :
    layout.checkFrom cursor last access = layout.checkFrom (layout.stop segment) last access := by
  obtain ⟨found, permitted⟩ := check_eq_ok_iff.mp allowed
  rw [checkFrom, if_neg inside]
  split
  · rename_i other found'
    obtain rfl := Option.some.inj (found.symm.trans found')
    exact if_pos permitted
  · rename_i missing
    rw [found] at missing
    cases missing

/-- A walk over the segments stops where the access is not permitted. -/
theorem checkFrom_of_check_error {cursor last : Nat} {fault : Fault} (inside : ¬last < cursor)
    (denied : layout.check cursor access = .error fault) :
    layout.checkFrom cursor last access = .error fault := by
  unfold check at denied
  rw [checkFrom, if_neg inside]
  split <;> rename_i found <;> rw [found] at denied
  · dsimp only at denied
    split at denied
    · cases denied
    · rename_i refused
      obtain rfl := Except.error.inj denied
      exact if_neg refused
  · obtain rfl := Except.error.inj denied
    rfl

/-! ## Refusals -/

theorem segmentation_of_check {fault : Fault}
    (denied : layout.check address access = .error fault) :
    fault = .segmentation address := by
  unfold check at denied
  split at denied
  · split at denied
    · cases denied
    · exact (Except.error.inj denied).symm
  · exact (Except.error.inj denied).symm

theorem segmentation_of_checkFrom {cursor last : Nat} {fault : Fault}
    (denied : layout.checkFrom cursor last access = .error fault) :
    ∃ place, fault = .segmentation place := by
  induction cursor using checkFrom.induct layout last access with
  | case1 cursor passed =>
      rw [checkFrom, if_pos passed] at denied
      cases denied
  | case2 cursor inside segment found permitted ih =>
      rw [checkFrom_of_check_ok inside (check_eq_ok_iff.mpr ⟨found, permitted⟩)] at denied
      exact ih denied
  | case3 cursor inside segment found refused =>
      have refusal : layout.check cursor access = .error (.segmentation cursor) := by
        rw [check, found]
        exact if_neg refused
      rw [checkFrom_of_check_error inside refusal] at denied
      exact ⟨cursor, (Except.error.inj denied).symm⟩
  | case4 cursor inside missing =>
      have refusal : layout.check cursor access = .error (.segmentation cursor) := by
        rw [check, missing]
      rw [checkFrom_of_check_error inside refusal] at denied
      exact ⟨cursor, (Except.error.inj denied).symm⟩

/-- **A range is refused for an address**, and for nothing else. -/
theorem segmentation_of_checkRange {fault : Fault}
    (denied : layout.checkRange address size access = .error fault) :
    ∃ place, fault = .segmentation place := by
  unfold checkRange at denied
  split at denied
  · cases denied
  · dsimp only at denied
    split at denied
    · exact ⟨address, (Except.error.inj denied).symm⟩
    · split at denied
      · rename_i first
        exact ⟨address, Except.error.inj denied ▸ segmentation_of_check first⟩
      · split at denied
        · rename_i last
          exact ⟨_, Except.error.inj denied ▸ segmentation_of_check last⟩
        · split at denied
          · cases denied
          · exact segmentation_of_checkFrom denied

/-! ## Walks in an ordered layout -/

/-- Where no segment permits the access, the walk and the search stop alike. -/
theorem Ordered.checkFrom_refused (ordered : layout.Ordered) {cursor last : Nat}
    (inside : ¬last < cursor)
    (refused : ∀ segment, layout.check cursor access ≠ .ok segment) :
    layout.checkFrom cursor last access =
      verdict (layout.refused? access cursor (last + 1 - cursor)) := by
  obtain ⟨segment, allowed, -⟩ | ⟨denied, start⟩ := ordered.check_eq access cursor
  · exact absurd allowed (refused segment)
  · have more : last + 1 - cursor = (last - cursor) + 1 := by omega
    rw [checkFrom_of_check_error inside denied, more, refused?, List.range'_succ, List.find?_cons,
      start]
    rfl

/-- **A walk over the segments finds the first address that is not granted.** -/
theorem Ordered.checkFrom_eq (ordered : layout.Ordered) (access : Access) (cursor last : Nat) :
    layout.checkFrom cursor last access =
      verdict (layout.refused? access cursor (last + 1 - cursor)) := by
  induction cursor using checkFrom.induct layout last access with
  | case1 cursor passed =>
      rw [checkFrom, if_pos passed, Nat.sub_eq_zero_of_le passed]
      rfl
  | case2 cursor inside segment found permitted ih =>
      have held : layout.holds segment cursor = true := holds_of_segmentOf? found
      have advances := lt_stop_of_segmentOf? found
      have granted (size : Nat) (within : cursor + size ≤ layout.stop segment) :
          layout.grantsAll access cursor size = true := by
        refine grantsAll_iff.mpr fun place above below => grants_iff.mpr ⟨segment, ?_, permitted⟩
        exact holds_iff.mpr ⟨(holds_iff.mp held).1.trans above, by omega⟩
      rw [checkFrom_of_check_ok inside (check_eq_ok_iff.mpr ⟨found, permitted⟩), ih]
      rcases Nat.le_total (layout.stop segment) (last + 1) with before | behind
      · have split : last + 1 - cursor =
            (layout.stop segment - cursor) + (last + 1 - layout.stop segment) := by omega
        rw [split, refused?_append (granted _ (by omega)), Nat.add_sub_of_le advances.le]
      · rw [Nat.sub_eq_zero_of_le behind, refused?_eq_none_iff.mpr (granted _ (by omega))]
        rfl
  | case3 cursor inside segment found refused =>
      exact ordered.checkFrom_refused inside fun other allowed => by
        obtain ⟨found', permitted⟩ := check_eq_ok_iff.mp allowed
        obtain rfl := Option.some.inj (found.symm.trans found')
        exact refused permitted
  | case4 cursor inside missing =>
      exact ordered.checkFrom_refused inside fun other allowed => by
        rw [(check_eq_ok_iff.mp allowed).1] at missing
        cases missing

/-- **The check of a range passes if every address is granted, and otherwise blames one.** -/
theorem Ordered.checkRange_eq (ordered : layout.Ordered) :
    layout.checkRange address size access =
      if layout.grantsAll access address size then .ok ()
      else .error (.segmentation (layout.blamed access address size)) := by
  rcases Nat.eq_zero_or_pos size with rfl | positive
  · rfl
  have last : address + (size - 1) < address + size := by omega
  have refused (place : Nat) (above : address ≤ place) (below : place < address + size)
      (denied : layout.grants access place = false) :
      ¬layout.grantsAll access address size = true := by
    intro all
    rw [grantsAll_iff.mp all place above below] at denied
    cases denied
  unfold checkRange blamed
  rw [if_neg (by omega)]
  dsimp only
  by_cases beyond : addressSpaceSize ≤ address + (size - 1)
  · have outside : layout.grants access (address + (size - 1)) = false := by
      refine Bool.eq_false_iff.mpr fun granted => ?_
      exact absurd (ordered.lt_of_grants granted) (by omega)
    rw [if_pos beyond, if_neg (refused _ (by omega) last outside), if_pos (by omega)]
  · rw [if_neg beyond, if_neg (show ¬addressSpaceSize < address + size by omega)]
    rcases ordered.check_eq access address with
      ⟨first, allowed, granted⟩ | ⟨denied, start⟩
    · rcases ordered.check_eq access (address + (size - 1)) with
        ⟨second, allowed', granted'⟩ | ⟨denied, stop⟩
      · have walk := ordered.checkFrom_eq access address (address + (size - 1))
        rw [show address + (size - 1) + 1 - address = size by omega] at walk
        have verdicts : layout.checkFrom address (address + (size - 1)) access =
            if layout.grantsAll access address size then .ok ()
            else .error (.segmentation ((layout.refused? access address size).getD address)) := by
          rw [walk]
          cases found : layout.refused? access address size with
          | none =>
              rw [if_pos (refused?_eq_none_iff.mp found)]
              rfl
          | some place =>
              have some : layout.refused? access address size ≠ none := by
                rw [found]
                exact Option.some_ne_none place
              rw [if_neg (mt refused?_eq_none_iff.mpr some)]
              rfl
        rw [allowed, allowed', List.find?_cons, granted, List.find?_cons, granted']
        dsimp only [Bool.not_true]
        split
        · rename_i same
          -- One segment holds both ends, and so all that lies between them.
          have inside := lt_stop_of_segmentOf? (check_eq_ok_iff.mp allowed').1
          rw [if_pos]
          refine grantsAll_iff.mpr fun place above below => ordered.grants_iff_permits.mpr ?_
          exact ordered.permits_of_le allowed above (by rw [same]; omega)
        · exact verdicts
      · rw [allowed, denied, if_neg (refused _ (by omega) last stop), List.find?_cons, granted,
          List.find?_cons, stop]
        rfl
    · rw [denied, if_neg (refused _ le_rfl (by omega) start), List.find?_cons, start]
      rfl

/-- **The check of a range tells whether every address of it permits the access.** -/
theorem Ordered.checkRange_eq_ok_iff (ordered : layout.Ordered) :
    layout.checkRange address size access = .ok () ↔
      ∀ place, address ≤ place → place < address + size → layout.Permits access place := by
  simp only [← ordered.grants_iff_permits]
  rw [ordered.checkRange_eq, ← grantsAll_iff]
  split
  · rename_i granted
    exact iff_of_true rfl granted
  · rename_i refused
    exact iff_of_false (fun passed => nomatch passed) refused

/-- What may be written lies in no page of the code. -/
theorem Ordered.not_locked (ordered : layout.Ordered) (allowed : layout.Permits .write address) :
    ¬Memory.Locked layout address .write := by
  rintro ⟨-, low⟩
  obtain ⟨segment, allowed⟩ := allowed
  obtain ⟨found, permitted⟩ := check_eq_ok_iff.mp allowed
  have held := holds_of_segmentOf? found
  obtain ⟨codeEnd_le, aligned, dataStart_le, dataEnd_le, heapStart_le, programBreak_le, -⟩ :=
    ordered
  have above : layout.dataStart ≤ layout.start segment := by
    cases segment with
    | code => cases permitted
    | data => exact le_refl _
    | heap => exact dataStart_le.trans dataEnd_le
    | stack =>
        exact dataStart_le.trans (dataEnd_le.trans (heapStart_le.trans programBreak_le))
  have start_le := (holds_iff.mp held).1
  simp only [pageAddress, pageOf, pageSize] at low aligned
  omega

end Layout

namespace Memory

variable {α β : Type} {around : Surroundings} {memory : Memory}

/-! ## Writing into a checked range -/

/-- A chunk of a range starts in the range. -/
theorem chunk_within {steps address size : Nat} {chunk : Chunk}
    (member : chunk ∈ chunksWithin steps address size) :
    address ≤ chunk.address ∧ chunk.address < address + size := by
  induction steps generalizing address size with
  | zero => cases member
  | succ steps ih =>
      rw [chunksWithin] at member
      split at member
      · cases member
      · rename_i nonempty
        rcases List.mem_cons.mp member with first | later
        · rw [first]
          exact ⟨le_refl address, Nat.lt_add_of_pos_right (Nat.pos_of_ne_zero nonempty)⟩
        · have bounds := ih later
          have fits : chunkSize address size ≤ size := min_le_right _ _
          omega

theorem checkRange_apply (address size : Nat) (access : Access) (memory : Memory) :
    checkRange address size access memory =
      match memory.space.layout.checkRange address size access with
      | .ok _ => .ok () memory
      | .error fault => .error fault memory := by
  unfold checkRange
  rw [get_bind_apply]
  cases memory.space.layout.checkRange address size access <;> rfl

/-- Chunks that may be written are written, unless a frame is lacking. -/
theorem Sound.fault_of_writeChunks {list : List Chunk} {bytes : Bytes} {fault : Fault}
    {after : Memory} (sound : memory.Sound around)
    (fit : ∀ chunk ∈ list, pageOffset chunk.address + chunk.size ≤ pageSize)
    (permitted : ∀ chunk ∈ list, memory.space.layout.Permits .write chunk.address)
    (failed : writeChunks .write list bytes memory = .error fault after) :
    fault = .outOfFrames := by
  induction list generalizing bytes memory with
  | nil => cases failed
  | cons chunk rest ih =>
      have short : (bytes.take chunk.size).length ≤ chunk.size := List.length_take_le ..
      have room := fit chunk List.mem_cons_self
      have accessed := @Sound.writeWithin around memory sound chunk.address .write
        (bytes.take chunk.size) (by omega)
      rw [writeChunks_cons, bind_apply, EStateM.bind] at failed
      generalize Memory.writeWithin chunk.address .write (bytes.take chunk.size) memory = result
        at accessed failed
      obtain ⟨segment, allowed⟩ := permitted chunk List.mem_cons_self
      cases accessed with
      | denied reason => cases allowed.symm.trans reason
      | exhausted allowed' missing empty =>
          injection failed with same
          exact same.symm
      | locked allowed' lock touched =>
          exact absurd lock (sound.layout.not_locked ⟨segment, allowed⟩)
      | done allowed' unlocked written =>
          refine ih written.sound (fun other member => fit other (List.mem_cons_of_mem _ member))
            (fun other member => ?_) failed
          rw [written.layout]
          exact permitted other (List.mem_cons_of_mem _ member)

/-- **Only a lack of frames keeps bytes out of a range that may be written.** -/
theorem Sound.fault_of_checked {address size : Nat} {bytes : Bytes} {fault : Fault}
    {after : Memory} (sound : memory.Sound around)
    (checked : memory.space.layout.checkRange address size .write = .ok ())
    (short : bytes.length ≤ size)
    (failed : writeBytes address bytes memory = .error fault after) : fault = .outOfFrames := by
  have unfolded : writeBytes address bytes memory =
      EStateM.bind (checkRange address bytes.length .write)
        (fun _ => writeChunks .write (chunks address bytes.length) bytes) memory := rfl
  rw [unfolded, EStateM.bind, checkRange_apply] at failed
  have permitted := sound.layout.checkRange_eq_ok_iff.mp checked
  have part : memory.space.layout.checkRange address bytes.length .write = .ok () :=
    sound.layout.checkRange_eq_ok_iff.mpr
      fun place above below => permitted place above (by omega)
  rw [part] at failed
  refine sound.fault_of_writeChunks (fun chunk member => Congruent.chunk_fits member)
    (fun chunk member => ?_) failed
  obtain ⟨above, below⟩ := chunk_within member
  exact permitted chunk.address above (by omega)

/-! ## How many bytes are read -/

theorem length_of_readChunks {list : List Chunk} {bytes : Bytes} {after : Memory}
    (done : readChunks list memory = .ok bytes after) :
    bytes.length = (list.map Chunk.size).sum := by
  induction list generalizing bytes memory with
  | nil =>
      cases done
      rfl
  | cons chunk rest ih =>
      obtain ⟨place, first, -, done⟩ := ok_of_bind done
      obtain ⟨front, second, peeked, done⟩ := ok_of_bind done
      obtain ⟨back, third, later, done⟩ := ok_of_bind done
      cases done
      have width : front.length = chunk.size := by
        cases peeked
        rw [FramePool.read, Frame.slice_eq, List.length_map, List.length_range]
      rw [List.length_append, width, ih later, List.map_cons, List.sum_cons]

theorem sum_chunksWithin {steps address size : Nat} (enough : size ≤ steps) :
    ((chunksWithin steps address size).map Chunk.size).sum = size := by
  induction steps generalizing address size with
  | zero =>
      rw [Nat.le_zero.mp enough]
      rfl
  | succ steps ih =>
      rw [chunksWithin]
      split
      · rename_i empty
        rw [empty]
        rfl
      · rename_i nonempty
        have inside : pageOffset address < pageSize := Nat.mod_lt address (by decide)
        have taken : 0 < chunkSize address size ∧ chunkSize address size ≤ size := by
          unfold chunkSize
          omega
        dsimp only
        rw [List.map_cons, List.sum_cons, ih (by omega)]
        exact Nat.add_sub_of_le taken.2

/-- No range is larger than an address space. -/
theorem size_le_of_checkRange {layout : Layout} {address size : Nat} {access : Access}
    (checked : layout.checkRange address size access = .ok ()) : size ≤ addressSpaceSize := by
  rcases Nat.lt_or_ge addressSpaceSize size with large | small
  · have refused : layout.checkRange address size access = .error (.segmentation address) := by
      unfold Layout.checkRange
      rw [if_neg (by omega), if_pos (by omega)]
    rw [refused] at checked
    cases checked
  · exact small

/-- As many bytes are read as were asked for, and no more than there are in an address space. -/
theorem length_of_readBytes {address size : Nat} {bytes : Bytes} {after : Memory}
    (done : readBytes address size memory = .ok bytes after) :
    bytes.length = size ∧ size ≤ addressSpaceSize := by
  obtain ⟨_, middle, checked, done⟩ := ok_of_bind done
  refine ⟨(length_of_readChunks done).trans (sum_chunksWithin (le_refl size)), ?_⟩
  rw [checkRange_apply] at checked
  cases allowed : memory.space.layout.checkRange address size .read with
  | ok _ => exact size_le_of_checkRange allowed
  | error fault =>
      rw [allowed] at checked
      cases checked

/-! ## Looking -/

/-- A memory after somebody has looked at it. -/
structure Peeked (around : Surroundings) (before after : Memory) : Prop where
  sound : after.Sound around
  covers : after.Covers before

/-- Actions that only look. -/
def Peeking (action : MemoryAction α) : Prop :=
  ∀ around memory, memory.Sound around → Peeked around memory (finalState (action memory))

theorem Touched.covers {page : Nat} {before after : Memory}
    (touched : Touched around page before after) : after.Covers before where
  layout := touched.layout
  mode := touched.mode
  domain := by
    rw [touched.domain]
    exact Finset.subset_insert _ _
  bytes := touched.bytes

namespace Peeking

theorem pure (answer : α) : Peeking (pure answer : MemoryAction α) :=
  fun _ memory sound => ⟨sound, .refl memory⟩

theorem throw (fault : Fault) : Peeking (throw fault : MemoryAction α) :=
  fun _ memory sound => ⟨sound, .refl memory⟩

theorem bind {action : MemoryAction α} {next : α → MemoryAction β} (first : Peeking action)
    (rest : ∀ answer, Peeking (next answer)) : Peeking (action >>= next) := by
  intro around memory sound
  have looked := first around memory sound
  rw [bind_apply, EStateM.bind]
  generalize action memory = result at looked
  cases result with
  | error fault after => exact looked
  | ok answer after =>
      have further := rest answer around after looked.sound
      exact ⟨further.sound, further.covers.trans looked.covers⟩

theorem checkRange (address size : Nat) (access : Access) :
    Peeking (checkRange address size access) := by
  intro around memory sound
  rw [checkRange_apply]
  cases memory.space.layout.checkRange address size access with
  | ok answer => exact ⟨sound, .refl memory⟩
  | error fault => exact ⟨sound, .refl memory⟩

theorem readWithin {address size : Nat} (access : Access)
    (fits : pageOffset address + size ≤ pageSize) : Peeking (readWithin address access size) := by
  intro around memory sound
  have accessed := sound.readWithin access fits
  generalize Memory.readWithin address access size memory = result at accessed
  cases accessed with
  | denied reason => exact ⟨sound, .refl memory⟩
  | exhausted allowed missing empty => exact ⟨sound, .refl memory⟩
  | locked allowed lock touched => exact ⟨touched.sound, touched.covers⟩
  | done allowed unlocked finish => exact ⟨finish.1.sound, finish.1.covers⟩

theorem readChunks {list : List Chunk}
    (fit : ∀ chunk ∈ list, pageOffset chunk.address + chunk.size ≤ pageSize) :
    Peeking (readChunks list) := by
  induction list with
  | nil => exact .pure _
  | cons chunk rest ih =>
      rw [readChunks_cons]
      refine .bind (.readWithin .read (fit chunk List.mem_cons_self)) ?_
      intro front
      refine .bind (ih fun other member => ?_) fun _ => .pure _
      exact fit other (List.mem_cons_of_mem _ member)

theorem readBytes (address size : Nat) : Peeking (readBytes address size) :=
  .bind (Peeking.checkRange _ _ _) fun _ => .readChunks fun _ member => Congruent.chunk_fits member

theorem readStringFrom (start limit address : Nat) :
    Peeking (readStringFrom start limit address) := by
  induction limit generalizing address with
  | zero => exact .throw _
  | succ limit ih =>
      have fits : pageOffset address + 1 ≤ pageSize := Nat.mod_lt address (by decide)
      rw [readStringFrom_succ]
      refine .bind (.readWithin .read fits) ?_
      intro bytes
      split
      · exact .pure _
      · exact .bind (ih (address + 1)) fun _ => .pure _

theorem readString (address limit : Nat) : Peeking (readString address limit) :=
  readStringFrom address limit address

/-- Writing no bytes is no more than looking. -/
theorem writeBytes_nil (address : Nat) : Peeking (writeBytes address []) :=
  .bind (Peeking.checkRange _ _ _) fun _ => .pure ()

end Peeking

/-- A write to one page that is refused has stored nothing. -/
theorem Sound.peeked_of_refused_write {around : Surroundings} (sound : memory.Sound around)
    {address : Nat} {access : Access} {bytes : Bytes} {fault : Fault}
    (fits : pageOffset address + bytes.length ≤ pageSize)
    (refused : answerOf (Memory.writeWithin address access bytes memory) = .error fault) :
    Peeked around memory (finalState (Memory.writeWithin address access bytes memory)) := by
  have accessed := sound.writeWithin access fits
  generalize Memory.writeWithin address access bytes memory = result at accessed refused
  cases accessed with
  | denied reason => exact ⟨sound, .refl memory⟩
  | exhausted allowed missing empty => exact ⟨sound, .refl memory⟩
  | locked allowed lock touched => exact ⟨touched.sound, touched.covers⟩
  | done allowed unlocked finish => cases refused

/-- A word that is refused has not been stored, nor a part of it. -/
theorem Sound.peeked_of_refused_store {around : Surroundings} (sound : memory.Sound around)
    {address : Nat} {value : UInt64} {fault : Fault}
    (refused : answerOf (store address value memory) = .error fault) :
    Peeked around memory (finalState (store address value memory)) := by
  rw [store_eq] at refused ⊢
  by_cases aligned : isAligned address wordSize = true
  · have passed : requireAligned address wordSize memory = .ok () memory := by
      rw [requireAligned, if_pos aligned]
      rfl
    have fits : pageOffset address + (Bytes.ofNat wordSize value.toNat).length ≤ pageSize := by
      rw [Congruent.length_ofNat]
      exact Congruent.pageOffset_add_le aligned (.inr rfl)
    have checked := checkRange_apply address wordSize .write memory
    rw [bind_of_ok passed, bind_apply, EStateM.bind] at refused ⊢
    cases allowed : memory.space.layout.checkRange address wordSize .write with
    | error fault =>
        rw [allowed] at checked
        rw [checked]
        exact ⟨sound, .refl memory⟩
    | ok _ =>
        rw [allowed] at checked
        rw [checked] at refused ⊢
        exact sound.peeked_of_refused_write fits refused
  · have stopped : requireAligned address wordSize memory =
        .error (.misaligned address) memory := by
      rw [requireAligned, if_neg aligned]
      rfl
    rw [bind_apply, EStateM.bind, stopped]
    exact ⟨sound, .refl memory⟩

end Memory

end NestedMachine
