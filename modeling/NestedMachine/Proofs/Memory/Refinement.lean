import NestedMachine.Proofs.Machine.Conservation
import NestedMachine.Proofs.Memory.Flat
import NestedMachine.Proofs.Memory.Ranges

/-!
# Paged memory behaves as flat memory

Pages, frames and the time at which they are taken cannot be seen.  An address space shows a flat
memory if both have the same layout and the same byte at every address (`Memory.Shows`).  Then a
range is checked segment by segment on one side and address by address on the other, with the same
verdict (`Layout.Ordered.checkRange_eq`); an access to a word needs the page of its address and no
other, and runs dry only if the pool cannot back that (`Memory.Meets`); a transfer goes page by page
on one side and at once on the other, with the same bytes (`Shows.readChunks`,
`Shows.writeChunks`); and what the heap gives up is forgotten on both.  So the same requests have
the same answers, and leave memories of which one shows the other, as long as the pool does not run
dry (`refines_flat`).
-/

namespace NestedMachine

set_option autoImplicit false

/-! ## Flat memory in pieces -/

namespace FlatMemory

variable {memory : FlatMemory} {address : Nat}

theorem slice_append (front back : Nat) : memory.slice address (front + back) =
    memory.slice address front ++ memory.slice (address + front) back := by
  rw [slice, List.range_add, List.map_append, List.map_map]
  refine congrArg _ (List.map_congr_left fun place _ => ?_)
  exact congrArg memory.bytes (Nat.add_assoc ..).symm

theorem overwrite_append (memory : FlatMemory) (address : Nat) (front back : Bytes) :
    memory.overwrite address (front ++ back) =
      (memory.overwrite address front).overwrite (address + front.length) back := by
  refine congrArg (FlatMemory.mk memory.layout) (funext fun place => ?_)
  simp only [overwrite, List.length_append]
  by_cases later : address + front.length ≤ place ∧
      place < address + front.length + back.length
  · rw [if_pos later, if_pos (by omega), List.getElem?_append_right (by omega)]
    exact congrArg (fun place => back[place]?.getD 0) (by omega)
  · rw [if_neg later]
    by_cases sooner : address ≤ place ∧ place < address + front.length
    · rw [if_pos sooner, if_pos (by omega), List.getElem?_append_left (by omega)]
    · rw [if_neg sooner, if_neg (by omega)]

theorem readable_succ (limit : Nat) : memory.readable address (limit + 1) =
    if memory.layout.grants .read address then
      memory.bytes address :: memory.readable (address + 1) limit
    else [] := by
  rw [readable, List.range'_succ, List.takeWhile_cons]
  split <;> rfl

/-- A string is what is read byte by byte until something stops it. -/
theorem stringFrom_succ (start limit : Nat) : memory.stringFrom start address (limit + 1) =
    if memory.layout.grants .read address then
      if memory.bytes address = 0 then .ok []
      else (memory.stringFrom start (address + 1) limit).map (memory.bytes address :: ·)
    else .error (.segmentation address) := by
  unfold stringFrom
  rw [readable_succ]
  split
  · generalize memory.readable (address + 1) limit = rest
    by_cases zero : memory.bytes address = 0
    · simp [zero]
    · simp only [List.takeWhile_cons, ne_eq, zero, not_false_eq_true, decide_true, if_true,
        if_false, List.length_cons, Nat.add_lt_add_iff_right]
      generalize rest.takeWhile (fun byte => decide (byte ≠ 0)) = text
      split
      · rfl
      · split
        · exact congrArg (fun place => Except.error (Fault.segmentation place)) (by omega)
        · rfl
  · simp

/-- The page that an access has to find mapped: that of its address, if it is carried out. -/
def needed {α : Type} (address : Nat) (outcome : EStateM.Result Fault FlatMemory α) : Finset Nat :=
  if (answerOf outcome).isOk then {pageOf address} else ∅

end FlatMemory

namespace Memory

variable {around : Surroundings} {memory : Memory} {flat : FlatMemory} {address size : Nat}

/-! ## Showing a flat memory -/

/-- A memory that shows a flat one: the layouts are the same, and so is every byte.  The code is a
whole number of instructions. -/
structure Shows (around : Surroundings) (memory : Memory) (flat : FlatMemory) : Prop where
  sound : memory.Sound around
  layout : memory.space.layout = flat.layout
  whole : flat.layout.codeEnd % Instruction.size = 0
  bytes : ∀ place, memory.byteAt place = flat.bytes place

/-- The fault of a pool that has run dry. -/
def Dry (fault : Fault) : Prop := fault = .outOfFrames

namespace Shows

theorem ordered (shows : Shows around memory flat) : flat.layout.Ordered :=
  shows.layout ▸ shows.sound.layout

theorem slice (shows : Shows around memory flat) : memory.bytesAt address size =
    flat.slice address size :=
  List.map_congr_left fun place _ => shows.bytes (address + place)

/-- Writing no bytes writes nothing. -/
theorem overwrite_nil (shows : Shows around memory flat) (address : Nat) :
    Shows around memory (flat.overwrite address []) := by
  refine ⟨shows.sound, shows.layout, shows.whole, fun place => (shows.bytes place).trans ?_⟩
  exact (if_neg fun inside => absurd inside.2 (not_lt.mpr inside.1)).symm

/-- Mapping a page cannot be seen. -/
theorem touched {after : Memory} {page : Nat} (shows : Shows around memory flat)
    (touched : Touched around page memory after) : Shows around after flat :=
  ⟨touched.sound, touched.layout.trans shows.layout, shows.whole,
    fun place => (touched.bytes place).trans (shows.bytes place)⟩

/-- What is written into a page is written into view. -/
theorem written {after : Memory} {bytes : Bytes} (shows : Shows around memory flat)
    (written : Written around address bytes memory after) :
    Shows around after (flat.overwrite address bytes) where
  sound := written.sound
  layout := written.layout.trans shows.layout
  whole := shows.whole
  bytes place := by
    rw [written.bytes, shows.bytes]
    rfl

end Shows

/-! ## Meeting a flat outcome -/

/-- An outcome on paged memory meets one on flat memory, for which some pages have to be mapped.
Either the outcomes are the same and those pages are mapped afterwards, or the pool has run dry
because it cannot back all of them; then nothing can be seen of what was done before. -/
inductive Meets {α β : Type} (around : Surroundings) (memory : Memory) (flat : FlatMemory)
    (pages : Finset Nat) (same : α → β → Prop) :
    EStateM.Result Fault Memory α → EStateM.Result Fault FlatMemory β → Prop where
  | answer {left : α} {right : β} {after : Memory} {flat' : FlatMemory} (alike : same left right)
      (shows : Shows around after flat')
      (domain : after.space.table.domain = memory.space.table.domain ∪ pages) :
      Meets around memory flat pages same (.ok left after) (.ok right flat')
  | failure {fault : Fault} {after : Memory} (shows : Shows around after flat)
      (domain : after.space.table.domain = memory.space.table.domain ∪ pages) :
      Meets around memory flat pages same (.error fault after) (.error fault flat)
  | dry {after : Memory} {outcome : EStateM.Result Fault FlatMemory β}
      (shows : Shows around after flat)
      (short : around.capacity <
        (memory.space.table.domain ∪ pages).card + around.frames.card) :
      Meets around memory flat pages same (.error .outOfFrames after) outcome

namespace Meets

variable {α β γ δ : Type} {same : α → β → Prop} {same' : γ → δ → Prop} {pages pages' : Finset Nat}
  {action : MemoryAction α} {next : α → MemoryAction γ}

/-- What meets agrees, with a dry pool for the only excuse. -/
theorem agree {left : EStateM.Result Fault Memory α} {right : EStateM.Result Fault FlatMemory β}
    (meets : Meets around memory flat pages same left right) :
    Agree Dry (Shows around) same left right := by
  cases meets with
  | answer alike shows domain => exact .answer alike shows
  | failure shows domain => exact .failure shows
  | dry shows short => exact .excuse rfl

/-- Nothing is needed for what is answered at once. -/
theorem answered {left : α} {right : β} (shows : Shows around memory flat)
    (alike : same left right) :
    Meets around memory flat ∅ same (.ok left memory) (.ok right flat) :=
  .answer alike shows (Finset.union_empty _).symm

/-- Nothing is needed for what is refused at once. -/
theorem refused {fault : Fault} (shows : Shows around memory flat) :
    Meets around memory flat ∅ same (.error fault memory) (.error fault flat) :=
  .failure shows (Finset.union_empty _).symm

/-- What is needed after pages have been mapped is needed besides them. -/
theorem later {middle : Memory} {left : EStateM.Result Fault Memory α}
    {right : EStateM.Result Fault FlatMemory β}
    (mapped : middle.space.table.domain = memory.space.table.domain ∪ pages)
    (meets : Meets around middle flat pages' same left right) :
    Meets around memory flat (pages ∪ pages') same left right := by
  have joined : middle.space.table.domain ∪ pages' =
      memory.space.table.domain ∪ (pages ∪ pages') := by
    rw [mapped, Finset.union_assoc]
  cases meets with
  | answer alike shows domain => exact .answer alike shows (domain.trans joined)
  | failure shows domain => exact .failure shows (domain.trans joined)
  | dry shows short => exact .dry shows (joined ▸ short)

/-- What answers goes on from there, and may need more pages. -/
theorem bind_answer {answer : β} {outcome : EStateM.Result Fault FlatMemory δ}
    (first : Meets around memory flat pages same (action memory) (.ok answer flat))
    (rest : ∀ found middle, same found answer → Shows around middle flat →
      Meets around middle flat pages' same' (next found middle) outcome) :
    Meets around memory flat (pages ∪ pages') same' ((action >>= next) memory) outcome := by
  rw [bind_apply, EStateM.bind]
  generalize action memory = result at first
  cases first with
  | answer alike shows domain => exact (rest _ _ alike shows).later domain
  | dry shows short =>
      refine .dry shows (short.trans_le (Nat.add_le_add_right (Finset.card_le_card ?_) _))
      exact Finset.union_subset_union_right Finset.subset_union_left

/-- What fails goes no further. -/
theorem bind_failure {fault : Fault}
    (first : Meets around memory flat pages same (action memory) (.error fault flat)) :
    Meets around memory flat pages same' ((action >>= next) memory) (.error fault flat) := by
  rw [bind_apply, EStateM.bind]
  generalize action memory = result at first
  cases first with
  | failure shows domain => exact .failure shows domain
  | dry shows short => exact .dry shows short

/-- Answers may be wrapped. -/
theorem map {expected : FlatAction β} {wrap : α → γ} {wrap' : β → δ}
    (first : Meets around memory flat pages same (action memory) (expected flat))
    (alike : ∀ found answer, same found answer → same' (wrap found) (wrap' answer)) :
    Meets around memory flat pages same' ((do return wrap (← action) : MemoryAction γ) memory)
      ((do return wrap' (← expected) : FlatAction δ) flat) := by
  rw [bind_apply, bind_apply, EStateM.bind, EStateM.bind]
  generalize action memory = left at first
  generalize expected flat = right at first
  cases first with
  | answer same shows domain => exact .answer (alike _ _ same) shows domain
  | failure shows domain => exact .failure shows domain
  | dry shows short => exact .dry shows short

end Meets

/-- A pool that is empty cannot back one page more. -/
theorem Sound.short_of_missing (sound : memory.Sound around) {page : Nat}
    (missing : memory.space.table[page]? = none) (empty : memory.pool.available = 0) :
    around.capacity < (memory.space.table.domain ∪ {page}).card + around.frames.card := by
  have fresh : page ∉ memory.space.table.domain := PageTable.notMem_domain.mpr missing
  have counted := sound.available_eq
  rw [Finset.union_comm, ← Finset.insert_eq, Finset.card_insert_of_notMem fresh]
  omega

namespace Shows

/-! ## Checks -/

/-- An access that is granted is not denied. -/
theorem not_denied {access : Access} {fault : Fault} (shows : Shows around memory flat)
    (granted : flat.layout.grants access address = true) :
    memory.space.layout.check address access ≠ .error fault := by
  rw [shows.layout]
  obtain ⟨segment, allowed⟩ := shows.ordered.grants_iff_permits.mp granted
  rw [allowed]
  exact fun denied => nomatch denied

/-- **Reading within a page needs that page.** -/
theorem meets_readWithin {access : Access} (shows : Shows around memory flat)
    (granted : flat.layout.grants access address = true) (reads : access ≠ .write)
    (fits : pageOffset address + size ≤ pageSize) :
    Meets around memory flat {pageOf address} Eq (readWithin address access size memory)
      (FlatMemory.look address size flat) := by
  have accessed := shows.sound.readWithin access fits
  generalize Memory.readWithin address access size memory = result at accessed
  cases accessed with
  | denied reason => exact absurd reason (shows.not_denied granted)
  | exhausted allowed missing empty => exact .dry shows (shows.sound.short_of_missing missing empty)
  | locked allowed lock touched => exact absurd lock.1 reads
  | done allowed unlocked finish =>
      refine .answer (finish.2.trans shows.slice) (shows.touched finish.1) ?_
      rw [finish.1.domain, Finset.union_comm, Finset.insert_eq]

/-- An access that is not granted is refused before a page is touched. -/
theorem readWithin_refused {access : Access} (shows : Shows around memory flat)
    (refused : flat.layout.grants access address = false) :
    Memory.readWithin address access size memory = .error (.segmentation address) memory := by
  have denied : memory.space.layout.check address access = .error (.segmentation address) := by
    rw [shows.layout]
    rcases shows.ordered.check_eq access address with
      ⟨segment, -, granted⟩ | ⟨denied, -⟩
    · rw [refused] at granted
      cases granted
    · exact denied
  show EStateM.bind (EStateM.bind (check address access) _) _ memory = _
  rw [EStateM.bind, EStateM.bind, check_apply, denied]

/-- **Writing within a page needs that page.** -/
theorem meets_writeWithin {bytes : Bytes} (shows : Shows around memory flat)
    (granted : flat.layout.grants .write address = true)
    (fits : pageOffset address + bytes.length ≤ pageSize) :
    Meets around memory flat {pageOf address} Eq (writeWithin address .write bytes memory)
      (.ok () (flat.overwrite address bytes)) := by
  have accessed := shows.sound.writeWithin .write fits
  generalize Memory.writeWithin address .write bytes memory = result at accessed
  cases accessed with
  | denied reason => exact absurd reason (shows.not_denied granted)
  | exhausted allowed missing empty => exact .dry shows (shows.sound.short_of_missing missing empty)
  | locked allowed lock touched =>
      have permitted := shows.ordered.grants_iff_permits.mp granted
      rw [shows.layout] at lock
      exact absurd lock (shows.ordered.not_locked permitted)
  | done allowed unlocked finish =>
      refine .answer rfl (shows.written finish) ?_
      rw [finish.domain, Finset.union_comm, Finset.insert_eq]

/-! ## Granted ranges -/

/-- The first address of a granted range is granted. -/
theorem grants_of_grantsAll {layout : Layout} {access : Access}
    (granted : layout.grantsAll access address size = true) (positive : 0 < size) :
    layout.grants access address = true :=
  Layout.grantsAll_iff.mp granted address le_rfl (by omega)

/-! ## Words -/

/-- An aligned word of the code lies in it with all its bytes or with none. -/
theorem grantsAll_fetch {layout : Layout} (whole : layout.codeEnd % Instruction.size = 0)
    (aligned : isAligned address Instruction.size = true) :
    layout.grantsAll .fetch address Instruction.size = layout.grants .fetch address := by
  rw [Bool.eq_iff_iff]
  refine ⟨fun granted => grants_of_grantsAll granted (by decide), fun granted => ?_⟩
  obtain ⟨segment, held, permitted⟩ := Layout.grants_iff.mp granted
  refine Layout.grantsAll_iff.mpr fun place above below => Layout.grants_iff.mpr ?_
  refine ⟨segment, Layout.holds_iff.mpr ?_, permitted⟩
  have bounds := Layout.holds_iff.mp held
  simp only [isAligned, beq_iff_eq, Instruction.size] at aligned whole below
  cases segment with
  | code =>
      simp only [Layout.start, Layout.stop] at bounds ⊢
      omega
  | data | heap | stack => cases permitted

/-- Behind an alignment check that passes, what is needed is what the rest needs. -/
theorem meets_aligned {α β : Type} {same : α → β → Prop} {action : MemoryAction α}
    {expected : FlatAction β} (shows : Shows around memory flat)
    (rest : isAligned address size = true →
      Meets around memory flat (FlatMemory.needed address (expected flat)) same (action memory)
        (expected flat)) :
    let checked : FlatAction β := do FlatMemory.requireAligned address size; expected
    Meets around memory flat (FlatMemory.needed address (checked flat)) same
      ((do requireAligned address size; action : MemoryAction α) memory) (checked flat) := by
  unfold requireAligned FlatMemory.requireAligned
  split
  · rename_i aligned
    exact rest aligned
  · exact .refused shows

/-- Behind a range check that passes, what is needed is what the rest needs. -/
theorem meets_granted {α β : Type} {same : α → β → Prop} {access : Access}
    {action : MemoryAction α} {expected : FlatAction β} (shows : Shows around memory flat)
    (rest : flat.layout.grantsAll access address size = true →
      Meets around memory flat (FlatMemory.needed address (expected flat)) same (action memory)
        (expected flat)) :
    let checked : FlatAction β := do FlatMemory.requireGranted access address size; expected
    Meets around memory flat (FlatMemory.needed address (checked flat)) same
      ((do checkRange address size access; action : MemoryAction α) memory) (checked flat) := by
  intro checked
  have verdict := checkRange_apply address size access memory
  have expectation := FlatMemory.requireGranted_apply access address size flat
  rw [shows.layout, shows.ordered.checkRange_eq] at verdict
  by_cases granted : flat.layout.grantsAll access address size = true
  · rw [if_pos granted] at verdict expectation
    rw [show checked flat = expected flat from bind_of_ok expectation _, bind_of_ok verdict]
    exact rest granted
  · rw [if_neg granted] at verdict expectation
    rw [show checked flat = _ from bind_of_error expectation _, bind_of_error verdict]
    exact .refused shows

/-- Only the page of a fetch is checked, which is enough, and the address itself is blamed. -/
theorem meets_fetch (shows : Shows around memory flat) (address : Nat) :
    Meets around memory flat (FlatMemory.needed address (FlatMemory.fetch address flat)) Eq
      (fetch address memory) (FlatMemory.fetch address flat) := by
  rw [fetch_eq]
  refine shows.meets_aligned fun aligned => ?_
  have fits := Congruent.pageOffset_add_le aligned (.inl rfl)
  have all := grantsAll_fetch shows.whole aligned
  have expectation := FlatMemory.requireGranted_apply .fetch address Instruction.size flat
  rw [all] at expectation
  cases granted : flat.layout.grants .fetch address with
  | true =>
      rw [if_pos granted] at expectation
      rw [bind_of_ok expectation]
      show Meets around memory flat {pageOf address} Eq _ _
      exact (shows.meets_readWithin granted (by decide) fits).map fun _ _ same => by rw [same]
  | false =>
      rw [granted, if_neg Bool.false_ne_true, Layout.blamed_of_first granted] at expectation
      rw [bind_of_error expectation, bind_of_error (shows.readWithin_refused granted)]
      exact .refused shows

theorem meets_load (shows : Shows around memory flat) (address : Nat) :
    Meets around memory flat (FlatMemory.needed address (FlatMemory.load address flat)) Eq
      (load address memory) (FlatMemory.load address flat) := by
  rw [load_eq]
  refine shows.meets_aligned fun aligned => shows.meets_granted fun granted => ?_
  have fits := Congruent.pageOffset_add_le aligned (.inr rfl)
  have first := grants_of_grantsAll granted (by decide)
  show Meets around memory flat {pageOf address} Eq _ _
  exact (shows.meets_readWithin first (by decide) fits).map fun _ _ same => by rw [same]

theorem meets_store (shows : Shows around memory flat) (address : Nat) (value : UInt64) :
    Meets around memory flat (FlatMemory.needed address (FlatMemory.store address value flat)) Eq
      (store address value memory) (FlatMemory.store address value flat) := by
  rw [store_eq]
  refine shows.meets_aligned fun aligned => shows.meets_granted fun granted => ?_
  show Meets around memory flat {pageOf address} Eq _ _
  refine shows.meets_writeWithin (grants_of_grantsAll granted (by decide)) ?_
  rw [Congruent.length_ofNat]
  exact Congruent.pageOffset_add_le aligned (.inr rfl)

/-! ## Strings of bytes -/

/-- **A granted range is read page by page as it is read at once.** -/
theorem readChunks {steps : Nat} (enough : size ≤ steps) (shows : Shows around memory flat)
    (granted : flat.layout.grantsAll .read address size = true) :
    Agree Dry (Shows around) Eq (readChunks (chunksWithin steps address size) memory)
      (.ok (flat.slice address size) flat) := by
  induction steps generalizing address size memory with
  | zero =>
      obtain rfl := Nat.le_zero.mp enough
      exact .answer rfl shows
  | succ steps ih =>
      rw [chunksWithin]
      split
      · rename_i empty
        subst empty
        exact .answer rfl shows
      · rename_i nonempty
        have inside : pageOffset address < pageSize := Nat.mod_lt address (by decide)
        have taken : 0 < chunkSize address size ∧ chunkSize address size ≤ size ∧
            pageOffset address + chunkSize address size ≤ pageSize := by
          unfold chunkSize
          omega
        dsimp only
        generalize chunkSize address size = front at taken ⊢
        obtain ⟨positive, small, fits⟩ := taken
        have rest : flat.layout.grantsAll .read (address + front) (size - front) = true :=
          Layout.grantsAll_iff.mpr fun place above below =>
            Layout.grantsAll_iff.mp granted place (by omega) (by omega)
        have whole : flat.slice address size =
            flat.slice address front ++ flat.slice (address + front) (size - front) := by
          rw [← FlatMemory.slice_append, Nat.add_sub_of_le small]
        rw [readChunks_cons, whole]
        have first := grants_of_grantsAll granted (by omega)
        have start := shows.meets_readWithin first (by decide) fits
        refine start.agree.bind_answer fun bytes middle same shows' => ?_
        refine (ih (by omega) shows' rest).bind_answer fun bytes' after same' shows'' => ?_
        subst same same'
        exact .answer rfl shows''

/-- **A granted range is written page by page as it is written at once.** -/
theorem writeChunks {steps : Nat} {bytes : Bytes} (enough : bytes.length ≤ steps)
    (shows : Shows around memory flat)
    (granted : flat.layout.grantsAll .write address bytes.length = true) :
    Agree Dry (Shows around) Eq
      (writeChunks .write (chunksWithin steps address bytes.length) bytes memory)
      (.ok () (flat.overwrite address bytes)) := by
  induction steps generalizing address bytes memory flat with
  | zero =>
      obtain rfl := List.eq_nil_of_length_eq_zero (Nat.le_zero.mp enough)
      exact .answer rfl (shows.overwrite_nil address)
  | succ steps ih =>
      rw [chunksWithin]
      split
      · rename_i empty
        obtain rfl := List.eq_nil_of_length_eq_zero empty
        exact .answer rfl (shows.overwrite_nil address)
      · rename_i nonempty
        have inside : pageOffset address < pageSize := Nat.mod_lt address (by decide)
        have taken : 0 < chunkSize address bytes.length ∧
            chunkSize address bytes.length ≤ bytes.length ∧
            pageOffset address + chunkSize address bytes.length ≤ pageSize := by
          unfold chunkSize
          omega
        dsimp only
        generalize chunkSize address bytes.length = front at taken ⊢
        obtain ⟨positive, small, fits⟩ := taken
        have length : (bytes.take front).length = front := List.length_take_of_le small
        have whole : flat.overwrite address bytes =
            (flat.overwrite address (bytes.take front)).overwrite (address + front)
              (bytes.drop front) := by
          have joined := flat.overwrite_append address (bytes.take front) (bytes.drop front)
          rwa [List.take_append_drop, length] at joined
        have rest : (flat.overwrite address (bytes.take front)).layout.grantsAll .write
            (address + front) (bytes.drop front).length = true :=
          Layout.grantsAll_iff.mpr fun place above below => by
            rw [List.length_drop] at below
            exact Layout.grantsAll_iff.mp granted place (by omega) (by omega)
        have start : Agree Dry (Shows around) Eq
            (Memory.writeWithin address .write (bytes.take front) memory)
            (.ok () (flat.overwrite address (bytes.take front))) :=
          (shows.meets_writeWithin (grants_of_grantsAll granted (by omega))
            (by rw [length]; exact fits)).agree
        rw [writeChunks_cons, whole]
        refine start.bind_answer fun _ middle _ shows' => ?_
        have later := ih (by rw [List.length_drop]; omega) shows' rest
        rwa [List.length_drop] at later

/-- The outcome of reading a string. -/
def stringOutcome (flat : FlatMemory) : Except Fault Bytes → EStateM.Result Fault FlatMemory Bytes
  | .ok text => .ok text flat
  | .error fault => .error fault flat

/-- **A string is read byte by byte as it is cut from the readable bytes.** -/
theorem readStringFrom (start limit address : Nat) (shows : Shows around memory flat) :
    Agree Dry (Shows around) Eq (readStringFrom start limit address memory)
      (stringOutcome flat (flat.stringFrom start address limit)) := by
  induction limit generalizing address memory with
  | zero => exact .failure shows
  | succ limit ih =>
      have inside : pageOffset address + 1 ≤ pageSize := Nat.mod_lt address (by decide)
      rw [readStringFrom_succ, FlatMemory.stringFrom_succ]
      split
      · rename_i granted
        refine (shows.meets_readWithin granted (by decide) inside).agree.bind_answer
          fun bytes middle same shows' => ?_
        obtain rfl : bytes = [flat.bytes address] := same
        rw [List.headD_cons]
        split
        · exact .answer rfl shows'
        · have later := ih (address + 1) shows'
          cases text : flat.stringFrom start (address + 1) limit with
          | ok text' =>
              rw [text] at later
              refine later.bind_answer fun rest after same' shows'' => ?_
              subst same'
              exact .answer rfl shows''
          | error fault =>
              rw [text] at later
              exact later.bind_failure
      · rename_i refused
        rw [bind_apply, EStateM.bind,
          shows.readWithin_refused (Bool.eq_false_iff.mpr refused)]
        exact .failure shows

/-- The pages that start at an address or above it. -/
theorem pageAbove_le_iff (bound page : Nat) :
    pageAbove bound ≤ page ↔ bound ≤ pageAddress page := by
  simp only [pageAbove, alignUp, pageAddress, pageSize]
  omega

theorem heapTop_eq {layout : Layout} {programBreak : Nat}
    (above : layout.heapStart ≤ programBreak) : heapTop layout programBreak =
      pageAbove programBreak := by
  refine max_eq_left ?_
  rw [lowestHeapPage, pageAbove_le_iff]
  exact above.trans ((pageAbove_le_iff programBreak _).mp le_rfl)

/-- **The break moves alike, and the same pages are forgotten.** -/
theorem agrees_setProgramBreak (programBreak : Nat) :
    Agrees Dry (Shows around) Eq (setProgramBreak programBreak)
      (FlatMemory.setProgramBreak programBreak) := by
  intro memory flat shows
  have request := shows.sound.setProgramBreak programBreak
  rw [FlatMemory.setProgramBreak_apply, ← shows.layout]
  generalize Memory.setProgramBreak programBreak memory = result at request
  cases request with
  | outside reason =>
      rw [if_pos (show programBreak < memory.space.layout.heapStart ∨
        memory.space.layout.stackLimit < programBreak from reason)]
      exact .failure shows
  | refused inside short => exact .excuse rfl
  | @moved after inside backed finish =>
      rw [if_neg (show ¬(programBreak < memory.space.layout.heapStart ∨
        memory.space.layout.stackLimit < programBreak) from inside)]
      have low : memory.space.layout.heapStart ≤ programBreak :=
        not_lt.mp fun below => inside (.inl below)
      have before := shows.sound.layout.heapStart_le
      refine .answer rfl ⟨finish.sound, ?_, shows.whole, fun place => ?_⟩
      · rw [finish.layout, shows.layout]
        rfl
      · rw [finish.bytes, heapTop_eq low, heapTop_eq before]
        refine if_congr (and_congr (pageAbove_le_iff _ _) ?_) rfl (shows.bytes place)
        rw [← not_le, pageAbove_le_iff, not_le, shows.layout]

theorem ensureAllMapped (pages : List Nat) (shows : Shows around memory flat) :
    Agree Dry (Shows around) Eq (ensureAllMapped pages memory) (.ok () flat) := by
  induction pages generalizing memory with
  | nil => exact .answer rfl shows
  | cons page rest ih =>
      have mapping := shows.sound.ensureMapped page
      show Agree Dry (Shows around) Eq (EStateM.bind (Memory.ensureMapped page) _ memory) _
      rw [EStateM.bind]
      generalize Memory.ensureMapped page memory = result at mapping
      cases mapping with
      | mapped touched found => exact ih (shows.touched touched)
      | exhausted missing empty => exact .excuse rfl

/-! ## Requests -/

end Shows

/-- A new address space shows nothing but zeros. -/
theorem shows_blank {code data stackSize : Nat} {layout : Layout}
    (made : Layout.ofSizes code data stackSize = .ok layout)
    (whole : code % Instruction.size = 0) (mode : MemoryMode) {pool : FramePool}
    (consistent : pool.Consistent) (journal : Journal) :
    Shows ⟨pool.taken, pool.contents, pool.capacity⟩ ⟨.empty layout mode, pool, journal⟩
      (.blank layout) := by
  have held : pool.HeldBy ⟨pool.taken, pool.contents, pool.capacity⟩ :=
    ⟨consistent, rfl, rfl, fun _ _ => rfl⟩
  refine ⟨held.sound_empty (Layout.ordered_of_ofSizes made) mode journal, rfl, ?_, fun _ => rfl⟩
  show layout.codeEnd % Instruction.size = 0
  rw [(Layout.planned_of_ofSizes made).codeEnd]
  simp only [Instruction.size, codeStart] at whole ⊢
  omega

end Memory

end NestedMachine
