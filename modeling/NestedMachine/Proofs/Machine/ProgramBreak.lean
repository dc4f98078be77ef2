import NestedMachine.Instruction.Encoding
import NestedMachine.Proofs.Machine.Settled

/-!
# The program break of a context

The check before the program break rises counts the pages of the heap that are not mapped.  In a
settled address space none of them is, because nothing is mapped between the heap and the stack;
so what is counted are simply the pages that are added (`unmappedIn_eq_pagesAdded`), and if the pool
has that many frames, none of them can be missing later (`ensureAllMapped_pagesAdded`).

What happens to the other pages is told page by page (`BreakSet`): those that lie wholly above the
new break are unmapped, and their frames come back (`BreakMoved.released`); all others stay on their
frames, also the page that the heap shares with data (`BreakMoved.kept`).  For every context that a
machine ever has, this is all that a request can do (`program_break_moves`).
-/

namespace NestedMachine

set_option autoImplicit false

open Memory.Shows (pageAbove_le_iff heapTop_eq)

/-- Frames that show the same bytes are the same. -/
theorem Frame.ext_byte {left right : Frame}
    (same : ∀ offset < pageSize, left.byte offset = right.byte offset) : left = right := by
  apply Vector.ext
  intro offset inside
  have alike := same offset inside
  rwa [Frame.byte, Frame.byte, Vector.getElem?_eq_getElem inside, Vector.getElem?_eq_getElem inside]
    at alike

namespace Memory

variable {around : Surroundings} {memory before after : Memory} {programBreak : Nat}

/-! ## Frames that stay -/

/-- A page with the same entry that shows the same bytes has the same contents. -/
theorem contents_eq_of_byteAt {page : Nat} {entry : PageEntry}
    (found : before.space.table[page]? = some entry)
    (found' : after.space.table[page]? = some entry)
    (same : ∀ address, pageOf address = page → after.byteAt address = before.byteAt address) :
    after.pool.contents entry.frame = before.pool.contents entry.frame := by
  apply Frame.ext_byte
  intro offset inside
  have page_eq : pageOf (pageAddress page + offset) = page := by
    simp only [pageOf, pageAddress, pageSize] at *
    omega
  have offset_eq : pageOffset (pageAddress page + offset) = offset := by
    simp only [pageOffset, pageAddress, pageSize] at *
    omega
  have bytes := same _ page_eq
  simp only [byteAt, page_eq, found, found', offset_eq] at bytes
  exact bytes

theorem entriesKept_of_ensureAllMapped {pages : List Nat}
    (run : ensureAllMapped pages before = .ok () after) : before.EntriesKept after := by
  have kept := (guarded_entriesKept before).ensureAllMapped pages before (.refl before)
  rwa [run] at kept

/-- A page that is mapped before and after the program break moves has the same entry. -/
theorem entry_of_setProgramBreak {answer : Nat}
    (moved : setProgramBreak programBreak before = .ok answer after) {page : Nat}
    {entry entry' : PageEntry} (found : before.space.table[page]? = some entry)
    (found' : after.space.table[page]? = some entry') : entry' = entry := by
  by_cases outside : BreakOutside before.space.layout programBreak
  · rw [setProgramBreak_outside outside] at moved
    cases moved
  · change (if _ then _ else _ : MemoryAction Nat) before = _ at moved
    rw [if_neg (show ¬(programBreak < before.space.layout.heapStart ∨ _) from outside)] at moved
    change (if _ then _ else _ : MemoryAction Nat) before = _ at moved
    split at moved
    · change (if _ then _ else _ : MemoryAction Nat) before = _ at moved
      split at moved
      · cases moved
      · change (if _ then _ else _ : MemoryAction Nat) (before.withBreak programBreak) = _ at moved
        split at moved
        · obtain ⟨_, middle, run, rest⟩ := ok_of_bind moved
          cases rest
          have kept := entriesKept_of_ensureAllMapped run page entry found
          exact Option.some.inj (found'.symm.trans kept)
        · cases moved
          exact Option.some.inj (found'.symm.trans found)
    · cases moved
      have left := (PageTable.getElem?_unmapRange before.space.table _ _ page).symm.trans found'
      split at left
      · cases left
      · exact Option.some.inj (left.symm.trans found)

/-! ## Pages that are added -/

/-- How many pages start between the program break and a new one. -/
def pagesAdded (layout : Layout) (programBreak : Nat) : Nat :=
  pageAbove programBreak - pageAbove layout.programBreak

/-- **All pages that are added are new.** -/
theorem unmappedIn_eq_pagesAdded (sound : memory.Sound around) (settled : memory.space.Settled)
    (inside : ¬BreakOutside memory.space.layout programBreak) :
    memory.space.table.unmappedIn (heapTop memory.space.layout memory.space.layout.programBreak)
      (heapTop memory.space.layout programBreak) =
        pagesAdded memory.space.layout programBreak := by
  have apart : Disjoint (Finset.Ico (heapTop memory.space.layout memory.space.layout.programBreak)
      (heapTop memory.space.layout programBreak)) memory.space.table.domain := by
    rw [Finset.disjoint_left]
    intro page between
    obtain ⟨above, below⟩ := Finset.mem_Ico.mp between
    exact PageTable.notMem_domain.mpr (settled.unmapped_above_heap sound.layout inside above below)
  rw [PageTable.unmappedIn_eq_card, Finset.sdiff_eq_self_of_disjoint apart, Nat.card_Ico,
    sound.layout.heapTop, heapTop_eq (not_lt.mp (not_or.mp inside).1), pagesAdded]

theorem breakBacked_iff (sound : memory.Sound around) (settled : memory.space.Settled)
    (inside : ¬BreakOutside memory.space.layout programBreak) :
    BreakBacked around programBreak memory ↔
      pagesAdded memory.space.layout programBreak ≤ memory.pool.available := by
  have added := unmappedIn_eq_pagesAdded sound settled inside
  have enough := sound.unmappedIn_le_available
    (heapTop memory.space.layout memory.space.layout.programBreak)
    (heapTop memory.space.layout programBreak)
  rw [added, not_lt] at enough
  rw [enough]
  constructor
  · intro backed
    by_cases rises : heapTop memory.space.layout memory.space.layout.programBreak <
        heapTop memory.space.layout programBreak
    · exact backed rises
    · rw [Finset.Ico_eq_empty rises, Finset.union_empty]
      exact sound.card_le
  · exact fun backed _ => backed

/-! ## The outcome -/

/-- A page that lies wholly at a new program break or above it, and below the top of the heap. -/
def LeftBehind (layout : Layout) (programBreak page : Nat) : Prop :=
  programBreak ≤ pageAddress page ∧ page < heapTop layout layout.programBreak

/-- What a move of the program break does to pages and frames. -/
structure BreakSet (programBreak : Nat) (before after : Memory) : Prop where
  layout : after.space.layout = { before.space.layout with programBreak }
  mode : after.space.mode = before.space.mode
  released : ∀ (page : Nat) (entry : PageEntry), before.space.table[page]? = some entry →
    LeftBehind before.space.layout programBreak page →
      after.space.table[page]? = none ∧ after.pool.isTaken entry.frame = false
  kept : ∀ (page : Nat) (entry : PageEntry), before.space.table[page]? = some entry →
    ¬LeftBehind before.space.layout programBreak page →
      after.space.table[page]? = some entry ∧ after.pool.isTaken entry.frame = true ∧
        after.pool.contents entry.frame = before.pool.contents entry.frame
  mapped : ∀ page : Nat, before.space.table[page]? = none →
    ((∃ entry, after.space.table[page]? = some entry) ↔
      before.space.mode = .fullyMapped ∧ pageAbove before.space.layout.programBreak ≤ page ∧
        page < pageAbove programBreak)

theorem leftBehind_iff {layout : Layout} (inside : ¬BreakOutside layout programBreak) {page : Nat} :
    LeftBehind layout programBreak page ↔
      heapTop layout programBreak ≤ page ∧ page < heapTop layout layout.programBreak := by
  rw [LeftBehind, heapTop_eq (not_lt.mp (not_or.mp inside).1), pageAbove_le_iff]

/-- A page is mapped after the program break has moved if it was and is not left behind, or if it is
added at once. -/
theorem mem_pagesAfter {layout : Layout} {mode : MemoryMode} {pages : Finset Nat}
    (inside : ¬BreakOutside layout programBreak) {page : Nat} :
    page ∈ pagesAfter layout mode programBreak pages ↔
      (page ∈ pages ∧ ¬LeftBehind layout programBreak page) ∨
        (mode = .fullyMapped ∧ heapTop layout layout.programBreak ≤ page ∧
          page < heapTop layout programBreak) := by
  rw [leftBehind_iff inside, pagesAfter]
  split
  · next rises =>
      have remains : ¬(heapTop layout programBreak ≤ page ∧
          page < heapTop layout layout.programBreak) := by omega
      split
      · next full => simp [remains, full]
      · next demand => simp [remains, demand]
  · next falls =>
      have nothing : ¬(heapTop layout layout.programBreak ≤ page ∧
          page < heapTop layout programBreak) := by omega
      simp [nothing]

namespace BreakMoved

variable {answer : Nat} {page : Nat} {entry : PageEntry}

theorem mem_domain (finish : BreakMoved around programBreak before after)
    (inside : ¬BreakOutside before.space.layout programBreak) :
    page ∈ after.space.table.domain ↔
      (page ∈ before.space.table.domain ∧ ¬LeftBehind before.space.layout programBreak page) ∨
        (before.space.mode = .fullyMapped ∧
          heapTop before.space.layout before.space.layout.programBreak ≤ page ∧
            page < heapTop before.space.layout programBreak) := by
  rw [finish.domain, mem_pagesAfter inside]

/-- **What is left behind is given back.** -/
theorem released (finish : BreakMoved around programBreak before after)
    (sound : before.Sound around) (inside : ¬BreakOutside before.space.layout programBreak)
    (moved : setProgramBreak programBreak before = .ok answer after)
    (found : before.space.table[page]? = some entry)
    (left : LeftBehind before.space.layout programBreak page) :
    after.space.table[page]? = none ∧ after.pool.isTaken entry.frame = false := by
  obtain ⟨above, below⟩ := (leftBehind_iff inside).mp left
  have unmapped : page ∉ after.space.table.domain := by
    rw [finish.mem_domain inside]
    rintro (⟨-, stays⟩ | ⟨-, added, -⟩)
    · exact stays left
    · exact absurd below (not_lt.mpr added)
  refine ⟨PageTable.notMem_domain.mp unmapped, ?_⟩
  rw [← Bool.not_eq_true, ← FramePool.mem_taken, finish.sound.taken, Multiset.mem_add]
  rintro (own | foreign)
  · -- A page with the frame would have been the page that is gone.
    obtain ⟨other, entry', found', same⟩ := PageTable.mem_frames.mp own
    have stays := PageTable.mem_domain.mpr ⟨entry', found'⟩
    obtain ⟨old, -⟩ | ⟨-, low, high⟩ := (finish.mem_domain inside).mp stays
    · obtain ⟨entry'', mapped⟩ := PageTable.mem_domain.mp old
      obtain rfl := entry_of_setProgramBreak moved mapped found'
      obtain rfl := PageTable.page_eq_of_frame_eq sound.exclusive.1 mapped found same
      exact unmapped stays
    · omega
  · exact sound.notMem_around found foreign

/-- **What is not left behind stays.** -/
theorem kept (finish : BreakMoved around programBreak before after)
    (inside : ¬BreakOutside before.space.layout programBreak)
    (moved : setProgramBreak programBreak before = .ok answer after)
    (found : before.space.table[page]? = some entry)
    (stays : ¬LeftBehind before.space.layout programBreak page) :
    after.space.table[page]? = some entry ∧ after.pool.isTaken entry.frame = true ∧
      after.pool.contents entry.frame = before.pool.contents entry.frame := by
  have mapped := (finish.mem_domain inside).mpr
    (.inl ⟨PageTable.mem_domain.mpr ⟨entry, found⟩, stays⟩)
  obtain ⟨entry', found'⟩ := PageTable.mem_domain.mp mapped
  obtain rfl := entry_of_setProgramBreak moved found found'
  refine ⟨found', finish.sound.isTaken found', contents_eq_of_byteAt found found' ?_⟩
  rintro address rfl
  rw [finish.bytes, if_neg]
  rwa [← leftBehind_iff inside]

theorem breakSet (finish : BreakMoved around programBreak before after)
    (sound : before.Sound around) (inside : ¬BreakOutside before.space.layout programBreak)
    (moved : setProgramBreak programBreak before = .ok answer after) :
    BreakSet programBreak before after where
  layout := finish.layout
  mode := finish.mode
  released _ _ found left := finish.released sound inside moved found left
  kept _ _ found stays := finish.kept inside moved found stays
  mapped page missing := by
    have unmapped := PageTable.notMem_domain.mpr missing
    rw [← PageTable.mem_domain, finish.mem_domain inside, sound.layout.heapTop,
      heapTop_eq (not_lt.mp (not_or.mp inside).1)]
    simp [unmapped]

end BreakMoved

/-- **Moving the program break of a settled address space.** -/
theorem setProgramBreak_eq (sound : memory.Sound around) (settled : memory.space.Settled)
    (programBreak : Nat) :
    (BreakOutside memory.space.layout programBreak →
      setProgramBreak programBreak memory = .error (.segmentation programBreak) memory) ∧
    (¬BreakOutside memory.space.layout programBreak →
      memory.pool.available < pagesAdded memory.space.layout programBreak →
        setProgramBreak programBreak memory = .error .outOfFrames memory) ∧
    (¬BreakOutside memory.space.layout programBreak →
      pagesAdded memory.space.layout programBreak ≤ memory.pool.available →
        ∃ after, setProgramBreak programBreak memory = .ok programBreak after ∧
          BreakSet programBreak memory after) := by
  have request := sound.setProgramBreak programBreak
  refine ⟨setProgramBreak_outside, fun inside short => ?_, fun inside enough => ?_⟩
  · have backed := breakBacked_iff sound settled inside
    generalize setProgramBreak programBreak memory = result at request
    cases request with
    | outside reason => exact absurd reason inside
    | refused => rfl
    | moved _ backed' => exact absurd (backed.mp backed') (not_le.mpr short)
  · have backed := (breakBacked_iff sound settled inside).mpr enough
    cases result : setProgramBreak programBreak memory with
    | error fault after =>
        rw [result] at request
        cases request with
        | outside reason => exact absurd reason inside
        | refused _ short => exact absurd backed short
    | ok answer after =>
        rw [result] at request
        cases request with
        | moved _ _ finish => exact ⟨after, rfl, finish.breakSet sound inside result⟩

/-- **The pool does not run dry while pages are added.** -/
theorem ensureAllMapped_pagesAdded (sound : memory.Sound around)
    (inside : ¬BreakOutside memory.space.layout programBreak)
    (enough : pagesAdded memory.space.layout programBreak ≤ memory.pool.available) :
    ∃ after, ensureAllMapped (List.range' (pageAbove memory.space.layout.programBreak)
      (pagesAdded memory.space.layout programBreak)) (memory.withBreak programBreak) =
        .ok () after := by
  generalize pageAbove memory.space.layout.programBreak = first
  generalize pagesAdded memory.space.layout programBreak = added at enough
  have few : memory.space.table.unmappedIn first (first + added) ≤ added := by
    rw [PageTable.unmappedIn_eq_card]
    refine (Finset.card_le_card Finset.sdiff_subset).trans_eq ?_
    rw [Nat.card_Ico, Nat.add_sub_cancel_left]
  have room := (sound.unmappedIn_le_available first (first + added)).mp
    (not_lt.mpr (few.trans enough))
  rw [← List.toFinset_range'_1] at room
  obtain ⟨after, finish, -⟩ := (sound.withBreak inside).ensureAllMapped room
  exact ⟨after, finish⟩

end Memory

/-! ## Contexts -/

namespace Interpreter

open Memory (BreakOutside pagesAdded BreakSet)

/-- **The program break of every context moves as a whole or not at all.**  Whatever a machine has
done, a request for a program break below the heap or in the stack is refused, and so is one that
adds more pages than there are frames available; then nothing has changed.  Any other request
succeeds.  It unmaps the pages that it leaves behind and gives back their frames, it leaves all
other pages on their frames with their contents, and it maps the pages that it adds if all pages are
to be mapped, for which the pool has frames until the last one is mapped. -/
theorem program_break_moves (frames : Nat) (tracing : Bool) (journal : Journal)
    (operations : List Operation) (id : ContextId) (context : Context) :
    let reached := stateAfter Operation.perform operations (.empty frames tracing journal)
    let memory := reached.memoryOf context
    let layout := context.space.layout
    reached.contexts[id]? = some context → ∀ programBreak,
      (programBreak < layout.heapStart ∨ layout.stackLimit < programBreak →
        Memory.setProgramBreak programBreak memory =
          .error (.segmentation programBreak) memory) ∧
      (layout.heapStart ≤ programBreak → programBreak ≤ layout.stackLimit →
        reached.pool.available < pagesAdded layout programBreak →
          Memory.setProgramBreak programBreak memory = .error .outOfFrames memory) ∧
      (layout.heapStart ≤ programBreak → programBreak ≤ layout.stackLimit →
        pagesAdded layout programBreak ≤ reached.pool.available →
          (∃ after, Memory.setProgramBreak programBreak memory = .ok programBreak after ∧
            BreakSet programBreak memory after) ∧
          ∃ after, Memory.ensureAllMapped (List.range' (pageAbove layout.programBreak)
            (pagesAdded layout programBreak)) (memory.withBreak programBreak) =
              .ok () after) := by
  intro reached memory layout found programBreak
  obtain ⟨sound, settled⟩ : reached.Sound frames ∧ AllSettled reached.contexts :=
    settled_stateAfter frames tracing journal operations
  clear_value reached
  have sound : memory.Sound (reached.around frames id) := sound.memory found reached.journal
  have settled : memory.space.Settled := settled.get found
  obtain ⟨outside, short, enough⟩ := Memory.setProgramBreak_eq sound settled programBreak
  have inside (low : layout.heapStart ≤ programBreak) (high : programBreak ≤ layout.stackLimit) :
      ¬BreakOutside layout programBreak :=
    not_or.mpr ⟨not_lt.mpr low, not_lt.mpr high⟩
  refine ⟨outside, ?_, ?_⟩
  · intro low high
    exact short (inside low high)
  · intro low high room
    have mapped := Memory.ensureAllMapped_pagesAdded sound (inside low high) room
    exact ⟨enough (inside low high) room, mapped⟩

/-- A program with all its pages on three of six frames: its break does not go below the heap, four
pages more are refused, and three pages more are mapped. -/
theorem program_break_moves_by_three_pages :
    let load := Operation.create (.ofWords [Instruction.encode .ecall] [0]) ⟨.fullyMapped, 4096, []⟩
    let reached := stateAfter Operation.perform [load] (.empty 6 false .silent)
    ∃ context, reached.contexts[1]? = some context ∧
      Memory.setProgramBreak 0x11000 (reached.memoryOf context) =
        .error (.segmentation 0x11000) (reached.memoryOf context) ∧
      Memory.setProgramBreak 0x15008 (reached.memoryOf context) =
        .error .outOfFrames (reached.memoryOf context) ∧
      ∃ after, Memory.setProgramBreak 0x15000 (reached.memoryOf context) = .ok 0x15000 after ∧
        BreakSet 0x15000 (reached.memoryOf context) after := by
  intro load reached
  have laidOut : (reached.contexts[1]?.map fun context => context.space.layout) =
      some ⟨0x10004, 0x11000, 0x11001, 0x11008, 0x11008, 0xFFFFF000⟩ := by
    decide +kernel
  have available : reached.pool.available = 3 := by decide +kernel
  obtain ⟨context, found, layout⟩ := Option.map_eq_some_iff.mp laidOut
  have moves := program_break_moves 6 false .silent [load] 1 context found
  refine ⟨context, found, ?_, ?_, ?_⟩
  · refine (moves 0x11000).1 (.inl ?_)
    rw [layout]
    decide
  · refine (moves 0x15008).2.1 ?_ ?_ ?_
    · rw [layout]
      decide
    · rw [layout]
      decide
    · rw [layout]
      exact available.trans_lt (by decide)
  · refine ((moves 0x15000).2.2 ?_ ?_ ?_).1
    · rw [layout]
      decide
    · rw [layout]
      decide
    · rw [layout]
      exact Nat.le_of_eq available.symm

end Interpreter

end NestedMachine
