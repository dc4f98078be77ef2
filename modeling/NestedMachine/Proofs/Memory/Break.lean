import NestedMachine.Proofs.Memory.Sound

/-!
# Moving the program break

The pages that belong to the heap alone are those from the first whole page above the start of the
heap to the page that holds the program break.  When the break rises, a frame must be available for
every page that is added, although in demand mode none is taken; when it falls, the pages that are
left behind are unmapped and their frames go back.

The outcome is determined by the layout, the mode, the set of mapped pages, and how many frames the
others hold (`BreakMoved`).  Bytes in view change only where pages are unmapped: they read zero.
With this, all primitive accesses keep a memory sound (`respected_sound`), and so does every
congruent action, whether it succeeds or not (`Congruent.keeps_sound`).
-/

namespace NestedMachine.Memory

set_option autoImplicit false

variable {around : Surroundings} {memory : Memory}

/-! ## Mapping pages that there are frames for -/

/-- A memory after pages were mapped. -/
structure Filled (around : Surroundings) (pages : Finset Nat) (before after : Memory) : Prop where
  sound : after.Sound around
  layout : after.space.layout = before.space.layout
  mode : after.space.mode = before.space.mode
  domain : after.space.table.domain = before.space.table.domain ∪ pages
  bytes : ∀ address, after.byteAt address = before.byteAt address

/-- **Pages that there are frames for can all be mapped.** -/
theorem Sound.ensureAllMapped {pages : List Nat} (sound : memory.Sound around)
    (enough : (memory.space.table.domain ∪ pages.toFinset).card + around.frames.card ≤
      around.capacity) :
    ∃ after, ensureAllMapped pages memory = .ok () after ∧
      Filled around pages.toFinset memory after := by
  induction pages generalizing memory with
  | nil => exact ⟨memory, rfl, sound, rfl, rfl, by simp, fun _ => rfl⟩
  | cons page rest ih =>
      have mapping := sound.ensureMapped page
      cases result : Memory.ensureMapped page memory with
      | ok entry middle =>
          rw [result] at mapping
          cases mapping with
          | mapped touched found =>
              have pages : middle.space.table.domain ∪ rest.toFinset =
                  memory.space.table.domain ∪ (page :: rest).toFinset := by
                rw [touched.domain, List.toFinset_cons, Finset.insert_union, Finset.union_insert]
              obtain ⟨after, finish, filled⟩ := ih touched.sound (pages ▸ enough)
              refine ⟨after, ?_, filled.sound, filled.layout.trans touched.layout,
                filled.mode.trans touched.mode, filled.domain.trans pages, fun address => ?_⟩
              · show EStateM.bind (Memory.ensureMapped page) _ memory = _
                rw [EStateM.bind, result]
                exact finish
              · exact (filled.bytes address).trans (touched.bytes address)
      | error fault middle =>
          rw [result] at mapping
          cases mapping with
          | exhausted missing empty =>
              -- The page itself is one more than are mapped.
              have absent := PageTable.notMem_domain.mpr missing
              have more : memory.space.table.domain.card <
                  (memory.space.table.domain ∪ (page :: rest).toFinset).card :=
                Finset.card_lt_card ⟨Finset.subset_union_left, fun subset => absent
                  (subset (Finset.mem_union_right _ (by simp)))⟩
              rw [sound.available_eq] at empty
              omega

/-! ## Unmapping pages -/

/-- The memory without the pages of a range. -/
def withoutPages (start stop : Nat) (memory : Memory) : Memory :=
  { memory with
    space := { memory.space with table := (memory.space.table.unmapRange start stop).2 }
    pool := memory.pool.releaseAll
      ((memory.space.table.unmapRange start stop).1.map fun entry => entry.2.frame) }

theorem Sound.returned_unmapped (sound : memory.Sound around) (start stop : Nat) :
    FramePool.Returned memory.pool
      ((memory.space.table.unmapRange start stop).1.map fun entry => entry.2.frame : List FrameId)
      (memory.withoutPages start stop).pool := by
  have out := sound.taken
  rw [PageTable.frames_unmapRange memory.space.table start stop, add_assoc] at out
  exact sound.consistent.releaseAll out

theorem Sound.withoutPages (sound : memory.Sound around) (start stop : Nat) :
    (memory.withoutPages start stop).Sound around := by
  have returned := sound.returned_unmapped start stop
  refine ⟨returned.consistent, ?_, returned.capacity.trans sound.capacity, fun frame member => ?_,
    fun page entry found => ?_, sound.layout⟩
  · refine add_left_cancel (returned.taken.symm.trans ?_)
    rw [sound.taken, PageTable.frames_unmapRange memory.space.table start stop, add_assoc]
    rfl
  · exact (returned.kept frame).trans (sound.contents frame member)
  · have within := PageTable.getElem?_unmapRange memory.space.table start stop page
    rw [show (memory.withoutPages start stop).space.table[page]? = _ from within] at found
    split at found
    · cases found
    · exact sound.permission page entry found

theorem Sound.byteAt_withoutPages (sound : memory.Sound around) (start stop address : Nat) :
    (memory.withoutPages start stop).byteAt address =
      if start ≤ pageOf address ∧ pageOf address < stop then 0 else memory.byteAt address := by
  have found := PageTable.getElem?_unmapRange memory.space.table start stop (pageOf address)
  unfold byteAt
  rw [show (memory.withoutPages start stop).space.table[pageOf address]? = _ from found]
  by_cases inside : start ≤ pageOf address ∧ pageOf address < stop
  · rw [if_pos inside, if_pos inside]
  · rw [if_neg inside, if_neg inside]
    cases memory.space.table[pageOf address]? with
    | none => rfl
    | some entry =>
        simp only [FramePool.byte]
        rw [(sound.returned_unmapped start stop).kept]

/-! ## The program break -/

/-- The memory with another program break. -/
def withBreak (programBreak : Nat) (memory : Memory) : Memory :=
  { memory with
    space := { memory.space with layout := { memory.space.layout with programBreak } } }

/-- Whether a value is no place for the program break. -/
def BreakOutside (layout : Layout) (programBreak : Nat) : Prop :=
  programBreak < layout.heapStart ∨ layout.maxBreak < programBreak

theorem Sound.withBreak (sound : memory.Sound around) {programBreak : Nat}
    (inside : ¬BreakOutside memory.space.layout programBreak) :
    (memory.withBreak programBreak).Sound around := by
  obtain ⟨low, high⟩ := not_or.mp inside
  exact ⟨sound.consistent, sound.taken, sound.capacity, sound.contents, sound.permission,
    ⟨sound.layout.codeEnd_le, sound.layout.dataStart_mod, sound.layout.dataStart_le,
      sound.layout.dataEnd_le, not_lt.mp low, not_lt.mp high, sound.layout.stackLimit_le⟩⟩

/-- The pages that are mapped after the program break has moved. -/
def pagesAfter (layout : Layout) (mode : MemoryMode) (programBreak : Nat) (pages : Finset Nat) :
    Finset Nat :=
  let before := heapTop layout layout.programBreak
  let after := heapTop layout programBreak
  if before < after then
    if mode = .fullyMapped then pages ∪ Finset.Ico before after else pages
  else pages \ Finset.Ico after before

/-- A memory after the program break has moved. -/
structure BreakMoved (around : Surroundings) (programBreak : Nat) (before after : Memory) :
    Prop where
  sound : after.Sound around
  layout : after.space.layout = { before.space.layout with programBreak }
  mode : after.space.mode = before.space.mode
  domain : after.space.table.domain =
    pagesAfter before.space.layout before.space.mode programBreak before.space.table.domain
  bytes : ∀ address, after.byteAt address =
    if heapTop before.space.layout programBreak ≤ pageOf address ∧
        pageOf address < heapTop before.space.layout before.space.layout.programBreak then 0
    else before.byteAt address

/-- Whether the pool can back every page that a move of the program break adds. -/
def BreakBacked (around : Surroundings) (programBreak : Nat) (memory : Memory) : Prop :=
  let before := heapTop memory.space.layout memory.space.layout.programBreak
  let after := heapTop memory.space.layout programBreak
  before < after → (memory.space.table.domain ∪ Finset.Ico before after).card +
    around.frames.card ≤ around.capacity

/-- What a request to move the program break does. -/
inductive BreakRequest (around : Surroundings) (programBreak : Nat) (memory : Memory) :
    EStateM.Result Fault Memory Nat → Prop where
  | outside (reason : BreakOutside memory.space.layout programBreak) :
      BreakRequest around programBreak memory (.error (.segmentation programBreak) memory)
  | refused (inside : ¬BreakOutside memory.space.layout programBreak)
      (short : ¬BreakBacked around programBreak memory) :
      BreakRequest around programBreak memory (.error .outOfFrames memory)
  | moved {after : Memory} (inside : ¬BreakOutside memory.space.layout programBreak)
      (backed : BreakBacked around programBreak memory)
      (finish : BreakMoved around programBreak memory after) :
      BreakRequest around programBreak memory (.ok programBreak after)

/-- The pool has a frame for every page of a range that is not mapped. -/
theorem Sound.unmappedIn_le_available (sound : memory.Sound around) (start stop : Nat) :
    ¬memory.pool.available < memory.space.table.unmappedIn start stop ↔
      (memory.space.table.domain ∪ Finset.Ico start stop).card + around.frames.card ≤
        around.capacity := by
  have bound := sound.card_le
  have split := Finset.card_sdiff_add_card (Finset.Ico start stop) memory.space.table.domain
  rw [Finset.union_comm] at split
  rw [sound.available_eq, PageTable.unmappedIn_eq_card]
  omega

theorem setProgramBreak_outside {programBreak : Nat}
    (outside : BreakOutside memory.space.layout programBreak) :
    setProgramBreak programBreak memory = .error (.segmentation programBreak) memory := by
  show (if _ then _ else _ : MemoryAction Nat) memory = _
  rw [if_pos (show programBreak < memory.space.layout.heapStart ∨ _ from outside)]
  rfl

/-- **Moving the program break.** -/
theorem Sound.setProgramBreak (sound : memory.Sound around) (programBreak : Nat) :
    BreakRequest around programBreak memory (setProgramBreak programBreak memory) := by
  by_cases inside : BreakOutside memory.space.layout programBreak
  · rw [setProgramBreak_outside inside]
    exact .outside inside
  · have moved := sound.withBreak inside
    show BreakRequest around programBreak memory ((if _ then _ else _ : MemoryAction Nat) memory)
    rw [if_neg (show ¬(programBreak < memory.space.layout.heapStart ∨ _) from inside)]
    show BreakRequest around programBreak memory ((if _ then _ else _ : MemoryAction Nat) memory)
    split
    · rename_i rises
      have frames := sound.unmappedIn_le_available
        (heapTop memory.space.layout memory.space.layout.programBreak)
        (heapTop memory.space.layout programBreak)
      show BreakRequest around programBreak memory ((if _ then _ else _ : MemoryAction Nat) memory)
      split
      · rename_i short
        exact .refused inside fun backed => frames.mpr (backed rises) short
      · rename_i enough
        have backed : BreakBacked around programBreak memory := fun _ => frames.mp enough
        show BreakRequest around programBreak memory
          ((if _ then _ else _ : MemoryAction Nat) (memory.withBreak programBreak))
        have pages := frames.mp enough
        split
        · rename_i full
          have listed : (List.range' (heapTop memory.space.layout memory.space.layout.programBreak)
              (heapTop memory.space.layout programBreak -
                heapTop memory.space.layout memory.space.layout.programBreak)).toFinset =
              Finset.Ico (heapTop memory.space.layout memory.space.layout.programBreak)
                (heapTop memory.space.layout programBreak) := by
            ext page
            rw [List.mem_toFinset, List.mem_range'_1, Finset.mem_Ico]
            omega
          obtain ⟨after, finish, filled⟩ := moved.ensureAllMapped (listed ▸ pages)
          show BreakRequest around programBreak memory
            (EStateM.bind (Memory.ensureAllMapped _) _ (memory.withBreak programBreak))
          rw [EStateM.bind, finish]
          refine .moved inside backed ⟨filled.sound, filled.layout, filled.mode, ?_,
            fun address => ?_⟩
          · rw [filled.domain, listed, pagesAfter, if_pos rises, if_pos full]
            rfl
          · rw [filled.bytes, if_neg (by omega)]
            rfl
        · rename_i demand
          refine .moved inside backed ⟨moved, rfl, rfl, ?_, fun address => ?_⟩
          · rw [pagesAfter, if_pos rises, if_neg demand]
            rfl
          · rw [if_neg (by omega)]
            rfl
    · rename_i falls
      refine .moved inside (fun rises => absurd rises falls)
        ⟨moved.withoutPages _ _, rfl, rfl, ?_, fun address => ?_⟩
      · rw [pagesAfter, if_neg falls]
        exact PageTable.domain_unmapRange ..
      · exact moved.byteAt_withoutPages ..

/-! ## Every access keeps a memory sound -/

theorem Accessed.sound {α : Type} {address : Nat} {access : Access} {done : α → Memory → Prop}
    {result : EStateM.Result Fault Memory α} (sound : memory.Sound around)
    (accessed : Accessed around address access memory done result)
    (finish : ∀ answer after, done answer after → after.Sound around) :
    (finalState result).Sound around := by
  cases accessed with
  | denied reason => exact sound
  | exhausted allowed missing empty => exact sound
  | locked allowed lock touched => exact touched.sound
  | done allowed unlocked ended => exact finish _ _ ended

theorem Sound.touch (sound : memory.Sound around) (page : Nat) :
    (finalState (touch page memory)).Sound around := by
  have mapping := sound.ensureMapped page
  show (finalState (EStateM.bind (Memory.ensureMapped page) _ memory)).Sound around
  rw [EStateM.bind]
  generalize Memory.ensureMapped page memory = result at mapping
  cases mapping with
  | mapped touched found => exact touched.sound
  | exhausted missing empty => exact sound

theorem BreakRequest.sound {programBreak : Nat} {result : EStateM.Result Fault Memory Nat}
    (request : BreakRequest around programBreak memory result) (sound : memory.Sound around) :
    (finalState result).Sound around := by
  cases request with
  | outside reason => exact sound
  | refused inside short => exact sound
  | moved inside backed finish => exact finish.sound

/-- **The primitive accesses keep a memory sound.** -/
theorem respected_sound (around : Surroundings) :
    Respected (fun _ => False) (Diagonal (Sound around)) where
  layout states := congrArg (fun memory : Memory => memory.space.layout) states.1
  read _ access _ fits := .of_keeps fun _ sound =>
    (sound.readWithin access fits).sound sound fun _ _ finish => finish.1.sound
  write _ access _ fits := .of_keeps fun _ sound =>
    (sound.writeWithin access fits).sound sound fun _ _ finish => finish.sound
  touch page := .of_keeps fun _ sound => sound.touch page
  setProgramBreak programBreak := .of_keeps fun _ sound =>
    (sound.setProgramBreak programBreak).sound sound
  jot _ := .of_keeps fun _ sound =>
    ⟨sound.consistent, sound.taken, sound.capacity, sound.contents, sound.permission, sound.layout⟩

theorem Congruent.keeps_sound {α : Type} {action : MemoryAction α} (congruent : Congruent action)
    (sound : memory.Sound around) : (finalState (action memory)).Sound around :=
  (congruent.agrees (respected_sound around)).keeps sound

end NestedMachine.Memory
