import NestedMachine.Proofs.Memory.Congruence
import NestedMachine.Proofs.Memory.View

/-!
# Sound memories

All address spaces share one pool.  What one of them must know about the rest is which frames the
others hold and what is in them (`Surroundings`).  A memory is sound in its surroundings if the
frames that the pool has handed out are exactly those behind its own pages together with those of
the others, each once, and if the others' frames still hold what they held (`Memory.Sound`).

So soundness says at once that no frame is lost, that none is shared, and that nobody else is
touched.  Every primitive access keeps it, whether it succeeds or not, and is described here by
what it does to the bytes in view.
-/

namespace NestedMachine

set_option autoImplicit false

/-! ## Layouts in order -/

/-- The segments of a layout follow each other, and data starts on a page of its own. -/
structure Layout.Ordered (layout : Layout) : Prop where
  codeEnd_le : layout.codeEnd ≤ layout.dataStart
  dataStart_mod : layout.dataStart % pageSize = 0
  dataStart_le : layout.dataStart ≤ layout.dataEnd
  dataEnd_le : layout.dataEnd ≤ layout.heapStart
  heapStart_le : layout.heapStart ≤ layout.programBreak
  programBreak_le : layout.programBreak ≤ layout.stackLimit
  stackLimit_le : layout.stackLimit ≤ addressSpaceSize

theorem le_alignUp (value size : Nat) (positive : 0 < size) : value ≤ alignUp value size := by
  have split := Nat.div_add_mod (value + size - 1) size
  have small := Nat.mod_lt (value + size - 1) positive
  rw [Nat.mul_comm] at split
  unfold alignUp
  omega

theorem alignUp_mod (value size : Nat) : alignUp value size % size = 0 :=
  Nat.mul_mod_left ..

/-- How the layout of a program follows from the sizes of its parts. -/
structure Layout.Planned (code data stackSize : Nat) (layout : Layout) : Prop where
  codeEnd : layout.codeEnd = codeStart + code
  dataStart : layout.dataStart = alignUp layout.codeEnd pageSize
  dataEnd : layout.dataEnd = layout.dataStart + data
  heapStart : layout.heapStart = alignUp layout.dataEnd wordSize
  programBreak : layout.programBreak = layout.heapStart
  stackLimit : layout.stackLimit = addressSpaceSize - stackBytes stackSize
  stackBytes_lt : stackBytes stackSize < addressSpaceSize
  room : layout.heapStart ≤ layout.stackLimit

theorem Layout.planned_of_ofSizes {code data stackSize : Nat} {layout : Layout}
    (made : Layout.ofSizes code data stackSize = .ok layout) :
    layout.Planned code data stackSize := by
  unfold Layout.ofSizes at made
  dsimp only at made
  split at made
  · cases made
  · rename_i fits
    obtain rfl := Except.ok.inj made
    rw [not_or, not_lt, not_le] at fits
    exact ⟨rfl, rfl, rfl, rfl, rfl, rfl, fits.1, fits.2⟩

theorem Layout.ordered_of_ofSizes {code data stackSize : Nat} {layout : Layout}
    (made : Layout.ofSizes code data stackSize = .ok layout) : layout.Ordered := by
  have planned := Layout.planned_of_ofSizes made
  exact {
    codeEnd_le := planned.dataStart ▸ le_alignUp _ _ (by decide)
    dataStart_mod := planned.dataStart ▸ alignUp_mod ..
    dataStart_le := planned.dataEnd ▸ Nat.le_add_right ..
    dataEnd_le := planned.heapStart ▸ le_alignUp _ _ (by decide)
    heapStart_le := planned.programBreak.ge
    programBreak_le := planned.programBreak.trans_le planned.room
    stackLimit_le := planned.stackLimit ▸ Nat.sub_le .. }

/-! ## Soundness -/

/-- What lies around one address space: the frames of the others, what they hold, and the capacity
of the pool. -/
structure Surroundings where
  frames : Multiset FrameId
  contents : FrameId → Frame
  capacity : Nat

namespace Memory

/-- The pool has handed out exactly the frames of this address space and those of the others, and
the others' frames hold what they held. -/
structure Sound (around : Surroundings) (memory : Memory) : Prop where
  consistent : memory.pool.Consistent
  taken : memory.pool.taken = memory.space.table.frames + around.frames
  capacity : memory.pool.capacity = around.capacity
  contents : ∀ frame ∈ around.frames, memory.pool.contents frame = around.contents frame
  permission : ∀ (page : Nat) (entry : PageEntry), memory.space.table[page]? = some entry →
    entry.permission = memory.space.permissionOf page
  layout : memory.space.layout.Ordered

namespace Sound

variable {around : Surroundings} {memory : Memory}

/-- No frame is behind two pages, or behind a page and held by another. -/
theorem exclusive (sound : memory.Sound around) :
    memory.space.table.frames.Nodup ∧ around.frames.Nodup ∧
      Disjoint memory.space.table.frames around.frames := by
  have nodup := FramePool.nodup_taken memory.pool
  rw [sound.taken] at nodup
  exact Multiset.nodup_add.mp nodup

/-- The frame behind a page is handed out. -/
theorem isTaken (sound : memory.Sound around) {page : Nat} {entry : PageEntry}
    (found : memory.space.table[page]? = some entry) :
    memory.pool.isTaken entry.frame = true := by
  rw [← FramePool.mem_taken, sound.taken]
  exact Multiset.mem_add.mpr (.inl (PageTable.mem_frames.mpr ⟨page, entry, found, rfl⟩))

/-- The frame behind a page is held by nobody else. -/
theorem notMem_around (sound : memory.Sound around) {page : Nat} {entry : PageEntry}
    (found : memory.space.table[page]? = some entry) : entry.frame ∉ around.frames :=
  Multiset.disjoint_left.mp sound.exclusive.2.2 (PageTable.mem_frames.mpr ⟨page, entry, found, rfl⟩)

/-- **The frames in use are those behind the pages and those of the others.** -/
theorem inUse_eq (sound : memory.Sound around) :
    memory.pool.inUse = memory.space.table.domain.card + around.frames.card := by
  rw [sound.consistent.inUse, sound.taken, Multiset.card_add, PageTable.card_frames,
    PageTable.card_domain]

theorem card_le (sound : memory.Sound around) :
    memory.space.table.domain.card + around.frames.card ≤ around.capacity := by
  rw [← sound.inUse_eq, ← sound.capacity]
  exact sound.consistent.inUse_le

theorem available_eq (sound : memory.Sound around) :
    memory.pool.available =
      around.capacity - (memory.space.table.domain.card + around.frames.card) := by
  rw [FramePool.available, sound.capacity, sound.inUse_eq]

end Sound

/-! ## Touching a page -/

/-- A memory after a page was touched: the page is mapped, and nothing can be seen of it. -/
structure Touched (around : Surroundings) (page : Nat) (before after : Memory) : Prop where
  sound : after.Sound around
  layout : after.space.layout = before.space.layout
  mode : after.space.mode = before.space.mode
  mapped : ∃ entry : PageEntry, after.space.table[page]? = some entry
  others : ∀ other : Nat, other ≠ page → after.space.table[other]? = before.space.table[other]?
  bytes : ∀ address, after.byteAt address = before.byteAt address

theorem Touched.refl {around : Surroundings} {page : Nat} {memory : Memory}
    (sound : memory.Sound around) {entry : PageEntry}
    (found : memory.space.table[page]? = some entry) : Touched around page memory memory :=
  ⟨sound, rfl, rfl, ⟨entry, found⟩, fun _ _ => rfl, fun _ => rfl⟩

theorem Touched.domain {around : Surroundings} {page : Nat} {before after : Memory}
    (touched : Touched around page before after) :
    after.space.table.domain = insert page before.space.table.domain := by
  ext other
  rw [Finset.mem_insert, PageTable.mem_domain, PageTable.mem_domain]
  by_cases same : other = page
  · simp only [same, true_or, iff_true]
    exact touched.mapped
  · rw [touched.others other same]
    simp [same]

/-- What mapping a page does: the page gets an entry, or the pool has no frame for it. -/
inductive Mapping (around : Surroundings) (page : Nat) (memory : Memory) :
    EStateM.Result Fault Memory PageEntry → Prop where
  | mapped {entry : PageEntry} {after : Memory} (touched : Touched around page memory after)
      (found : after.space.table[page]? = some entry) : Mapping around page memory (.ok entry after)
  | exhausted (missing : memory.space.table[page]? = none)
      (empty : memory.pool.available = 0) : Mapping around page memory (.error .outOfFrames memory)

theorem Frame.byte_zero (offset : Nat) : Frame.zero.byte offset = 0 := by
  unfold Frame.byte Frame.zero
  rw [Vector.getElem?_replicate]
  split <;> rfl

/-- A page that was not mapped gets a frame of zeros. -/
theorem Sound.touched_of_granted {around : Surroundings} {space : AddressSpace}
    {pool after : FramePool} {journal journal' : Journal} {page : Nat} {frame : FrameId}
    (sound : Memory.Sound around ⟨space, pool, journal⟩) (missing : space.table[page]? = none)
    (grant : FramePool.Granted pool frame after) :
    Touched around page ⟨space, pool, journal⟩
      ⟨space.mapOnTouch page ⟨frame, space.permissionOf page⟩, after, journal'⟩ := by
  have fresh : frame ∉ pool.taken := FramePool.notMem_taken grant.fresh
  have entryOf (other : Nat) :
      (space.mapOnTouch page ⟨frame, space.permissionOf page⟩).table[other]? =
      if page = other then some ⟨frame, space.permissionOf page⟩ else space.table[other]? :=
    Table.getElem?_insert ..
  refine ⟨⟨grant.consistent, ?_, ?_, fun other member => ?_, fun other entry found => ?_,
    sound.layout⟩, rfl, rfl, ⟨_, (entryOf page).trans (if_pos rfl)⟩, fun other different => ?_,
    fun address => ?_⟩
  · show after.taken = PageTable.frames (space.table.insert page _) + around.frames
    rw [grant.taken, PageTable.frames_insert missing, Multiset.cons_add]
    exact congrArg _ sound.taken
  · exact grant.capacity.trans sound.capacity
  · have old : other ∈ pool.taken := sound.taken ▸ Multiset.mem_add.mpr (.inr member)
    exact (grant.kept other fun same => fresh (same ▸ old)).trans (sound.contents other member)
  · rw [entryOf] at found
    split at found
    · rename_i same
      rw [← Option.some.inj found, ← same]
      rfl
    · exact sound.permission other entry found
  · exact (entryOf other).trans (if_neg (Ne.symm different))
  · simp only [byteAt, entryOf]
    by_cases here : page = pageOf address
    · rw [if_pos here, ← here, missing]
      show (after.contents frame).byte (pageOffset address) = 0
      rw [grant.zero, Frame.byte_zero]
    · rw [if_neg here]
      cases found : space.table[pageOf address]? with
      | none => rfl
      | some entry =>
          have old : entry.frame ∈ pool.taken := FramePool.mem_taken.mpr (sound.isTaken found)
          simp only [FramePool.byte]
          rw [grant.kept _ fun same => fresh (same ▸ old)]

/-- **Mapping a page.** -/
theorem Sound.ensureMapped {around : Surroundings} {memory : Memory} (sound : memory.Sound around)
    (page : Nat) : Mapping around page memory (ensureMapped page memory) := by
  obtain ⟨space, pool, journal⟩ := memory
  rw [Memory.ensureMapped]
  cases found : space.table[page]? with
  | some entry => exact .mapped (.refl sound found) found
  | none =>
      have allocation := FramePool.Consistent.alloc sound.consistent
      generalize pool.alloc = result at allocation
      cases allocation with
      | granted grant =>
          exact .mapped (sound.touched_of_granted found grant)
            ((Table.getElem?_insert ..).trans (if_pos rfl))
      | refused empty => exact .exhausted found empty

/-! ## Accesses within a page -/

/-- Whether an access meets a page that does not permit it. -/
def Locked (layout : Layout) (address : Nat) (access : Access) : Prop :=
  access = .write ∧ pageAddress (pageOf address) < layout.codeEnd

/-- What an access to the page of an address does: the layout denies it, the pool has no frame for
the page, the page is locked, or it is done. -/
inductive Accessed {α : Type} (around : Surroundings) (address : Nat) (access : Access)
    (memory : Memory) (done : α → Memory → Prop) : EStateM.Result Fault Memory α → Prop where
  | denied {fault : Fault} (reason : memory.space.layout.check address access = .error fault) :
      Accessed around address access memory done (.error fault memory)
  | exhausted {segment : Segment} (allowed : memory.space.layout.check address access = .ok segment)
      (missing : memory.space.table[pageOf address]? = none) (empty : memory.pool.available = 0) :
      Accessed around address access memory done (.error .outOfFrames memory)
  | locked {segment : Segment} {after : Memory}
      (allowed : memory.space.layout.check address access = .ok segment)
      (lock : Locked memory.space.layout address access)
      (touched : Touched around (pageOf address) memory after) :
      Accessed around address access memory done (.error (.segmentation address) after)
  | done {segment : Segment} {answer : α} {after : Memory}
      (allowed : memory.space.layout.check address access = .ok segment)
      (unlocked : ¬Locked memory.space.layout address access) (finish : done answer after) :
      Accessed around address access memory done (.ok answer after)

theorem check_apply (address : Nat) (access : Access) (memory : Memory) :
    check address access memory =
      match memory.space.layout.check address access with
      | .ok _ => .ok () memory
      | .error fault => .error fault memory := by
  show (match memory.space.layout.check address access with
    | .ok _ => (pure () : MemoryAction Unit)
    | .error fault => throw fault) memory = _
  cases memory.space.layout.check address access <;> rfl

/-- **Translating an address.** -/
theorem Sound.translate {around : Surroundings} {memory : Memory} (sound : memory.Sound around)
    (address : Nat) (access : Access) :
    Accessed around address access memory
      (fun place after => Touched around (pageOf address) memory after ∧
        ∃ entry, after.space.table[pageOf address]? = some entry ∧
          place = ⟨entry.frame, pageOffset address⟩)
      (translate address access memory) := by
  show Accessed around address access memory _ (EStateM.bind (check address access) _ memory)
  rw [EStateM.bind, check_apply]
  cases allowed : memory.space.layout.check address access with
  | error fault => exact .denied allowed
  | ok segment =>
      have mapping := sound.ensureMapped (pageOf address)
      show Accessed around address access memory _
        (EStateM.bind (Memory.ensureMapped (pageOf address)) _ memory)
      rw [EStateM.bind]
      generalize Memory.ensureMapped (pageOf address) memory = result at mapping
      cases mapping with
      | exhausted missing empty => exact .exhausted allowed missing empty
      | @mapped entry after touched found =>
          have rights : entry.permission = .readOnly ↔
              pageAddress (pageOf address) < memory.space.layout.codeEnd := by
            rw [touched.sound.permission _ _ found, AddressSpace.permissionOf, touched.layout]
            split
            · rename_i low
              exact ⟨fun _ => low, fun _ => rfl⟩
            · rename_i high
              exact ⟨fun same => (nomatch same), fun low => absurd low high⟩
          by_cases lock : Locked memory.space.layout address access
          · have guard : access = .write ∧ entry.permission = .readOnly :=
              ⟨lock.1, rights.mpr lock.2⟩
            dsimp only
            rw [if_pos guard]
            exact .locked allowed lock touched
          · have guard : ¬(access = .write ∧ entry.permission = .readOnly) :=
              fun both => lock ⟨both.1, rights.mp both.2⟩
            dsimp only
            rw [if_neg guard]
            exact .done allowed lock ⟨touched, entry, found, rfl⟩

/-- The bytes of a frame behind a page are the bytes in view. -/
theorem read_eq_bytesAt {memory : Memory} {address size : Nat} {entry : PageEntry}
    (found : memory.space.table[pageOf address]? = some entry)
    (fits : pageOffset address + size ≤ pageSize) :
    memory.pool.read entry.frame (pageOffset address) size = memory.bytesAt address size := by
  rw [FramePool.read, Frame.slice_eq, bytesAt]
  apply List.map_congr_left
  intro place member
  have inside := List.mem_range.mp member
  rw [byteAt, pageOf_add fits inside, found, pageOffset_add fits inside]
  rfl

/-- **Reading within a page.** -/
theorem Sound.readWithin {around : Surroundings} {memory : Memory} (sound : memory.Sound around)
    {address size : Nat} (access : Access) (fits : pageOffset address + size ≤ pageSize) :
    Accessed around address access memory
      (fun bytes after => Touched around (pageOf address) memory after ∧
        bytes = memory.bytesAt address size)
      (readWithin address access size memory) := by
  have translation := sound.translate address access
  show Accessed around address access memory _
    (EStateM.bind (Memory.translate address access) _ memory)
  rw [EStateM.bind]
  generalize Memory.translate address access memory = result at translation
  cases translation with
  | denied reason => exact .denied reason
  | exhausted allowed missing empty => exact .exhausted allowed missing empty
  | locked allowed lock touched => exact .locked allowed lock touched
  | @done segment place after allowed unlocked finish =>
      obtain ⟨touched, entry, found, rfl⟩ := finish
      refine .done allowed unlocked ⟨touched, ?_⟩
      show after.pool.read entry.frame (pageOffset address) size = _
      rw [read_eq_bytesAt found fits]
      exact List.map_congr_left fun place _ => touched.bytes _

/-- A memory after bytes were written within the page of an address. -/
structure Written (around : Surroundings) (address : Nat) (bytes : Bytes)
    (before after : Memory) : Prop where
  sound : after.Sound around
  layout : after.space.layout = before.space.layout
  mode : after.space.mode = before.space.mode
  mapped : ∃ entry : PageEntry, after.space.table[pageOf address]? = some entry
  others : ∀ other : Nat, other ≠ pageOf address →
    after.space.table[other]? = before.space.table[other]?
  bytes : ∀ place, after.byteAt place =
    if address ≤ place ∧ place < address + bytes.length then bytes[place - address]?.getD 0
    else before.byteAt place

theorem Written.domain {around : Surroundings} {address : Nat} {bytes : Bytes}
    {before after : Memory} (written : Written around address bytes before after) :
    after.space.table.domain = insert (pageOf address) before.space.table.domain := by
  ext other
  rw [Finset.mem_insert, PageTable.mem_domain, PageTable.mem_domain]
  by_cases same : other = pageOf address
  · simp only [same, true_or, iff_true]
    exact written.mapped
  · rw [written.others other same]
    simp [same]

/-- Bytes that are written into the frame behind a page are written into view. -/
theorem Touched.write {around : Surroundings} {before after : Memory} {address : Nat}
    (touched : Touched around (pageOf address) before after) {entry : PageEntry}
    (found : after.space.table[pageOf address]? = some entry) {bytes : Bytes}
    (fits : pageOffset address + bytes.length ≤ pageSize) :
    Written around address bytes before
      { after with pool := after.pool.write entry.frame (pageOffset address) bytes } := by
  have sound := touched.sound
  have rewritten := sound.consistent.write entry.frame (pageOffset address) bytes
  refine ⟨⟨rewritten.consistent, ?_, ?_, fun frame member => ?_, sound.permission, sound.layout⟩,
    touched.layout, touched.mode, touched.mapped, touched.others, fun place => ?_⟩
  · exact rewritten.taken.trans sound.taken
  · exact rewritten.capacity.trans sound.capacity
  · rw [rewritten.kept frame fun same => sound.notMem_around found (same ▸ member)]
    exact sound.contents frame member
  · rw [← touched.bytes place]
    by_cases here : pageOf place = pageOf address
    · have offsets := eq_add_of_pageOf_eq here
      have written := FramePool.contents_write (sound.isTaken found) (pageOffset address) bytes
      simp only [byteAt, here, found, FramePool.byte]
      rw [written, Frame.byte_overwrite _ _ _ _ fits]
      by_cases inside : address ≤ place ∧ place < address + bytes.length
      · rw [if_pos inside, if_pos (by omega), show pageOffset place - pageOffset address =
          place - address by omega]
      · rw [if_neg inside, if_neg (by omega)]
    · rw [if_neg]
      · -- Frames of other pages are other frames.
        simp only [byteAt]
        cases other : after.space.table[pageOf place]? with
        | none => rfl
        | some entry' =>
            have different : entry'.frame ≠ entry.frame := fun same =>
              here (PageTable.page_eq_of_frame_eq sound.exclusive.1 other found same)
            simp only [FramePool.byte]
            rw [rewritten.kept _ different]
      · rintro ⟨low, high⟩
        refine here ?_
        rw [show place = address + (place - address) by omega]
        exact pageOf_add fits (by omega)

/-- **Writing within a page.** -/
theorem Sound.writeWithin {around : Surroundings} {memory : Memory} (sound : memory.Sound around)
    {address : Nat} (access : Access) {bytes : Bytes}
    (fits : pageOffset address + bytes.length ≤ pageSize) :
    Accessed around address access memory (fun _ after => Written around address bytes memory after)
      (writeWithin address access bytes memory) := by
  have translation := sound.translate address access
  show Accessed around address access memory _
    (EStateM.bind (Memory.translate address access) _ memory)
  rw [EStateM.bind]
  generalize Memory.translate address access memory = result at translation
  cases translation with
  | denied reason => exact .denied reason
  | exhausted allowed missing empty => exact .exhausted allowed missing empty
  | locked allowed lock touched => exact .locked allowed lock touched
  | @done segment place after allowed unlocked finish =>
      obtain ⟨touched, entry, found, rfl⟩ := finish
      exact .done allowed unlocked (touched.write found fits)

end Memory

end NestedMachine
