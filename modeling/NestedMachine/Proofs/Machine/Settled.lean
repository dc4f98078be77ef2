import NestedMachine.Proofs.Machine.Code
import NestedMachine.Proofs.Memory.Refinement

/-!
# Where pages are mapped

An address space is settled if its segments follow each other without gaps that a page would fit
into (`Layout.Packed`), if only pages are mapped that belong to segments, and if the code is a whole
number of instructions (`AddressSpace.Settled`).  In such a layout the pages that are mapped all at
once are those that hold a byte of a segment (`Layout.mem_pages_iff_spans`), and what the layout
permits lies on them (`Layout.mem_pages_of_check`).

A property of address spaces lasts if it outlives the mapping of such pages, moves of the program
break, and copying (`AddressSpace.Lasting`), and then it is an heirloom.  To be settled lasts
(`AddressSpace.lasting_settled`), because moving the program break down unmaps what belongs to no
segment any more.  So every context that a machine ever has is settled
(`Interpreter.settled_stateAfter`): between its heap and its stack there are no pages, whatever it
has done.
-/

namespace NestedMachine

set_option autoImplicit false

open Memory.Shows (pageAbove_le_iff heapTop_eq)

/-! ## The pages of segments -/

namespace Layout

variable {layout : Layout} {address page : Nat} {access : Access}

/-- Segments that follow each other as closely as their alignment allows, and a stack that starts on
a page of its own. -/
structure Packed (layout : Layout) : Prop where
  codeStart_le : codeStart ≤ layout.codeEnd
  dataStart : layout.dataStart = alignUp layout.codeEnd pageSize
  heapStart : layout.heapStart = alignUp layout.dataEnd wordSize
  stackLimit : layout.stackLimit % pageSize = 0

theorem Planned.packed {code data stackSize : Nat} (planned : layout.Planned code data stackSize) :
    layout.Packed where
  codeStart_le := planned.codeEnd ▸ Nat.le_add_right _ _
  dataStart := planned.dataStart
  heapStart := planned.heapStart
  stackLimit := by
    have pages := alignUp_mod (max stackSize pageSize) pageSize
    rw [planned.stackLimit]
    simp only [stackBytes, addressSpaceSize, pageSize] at *
    omega

/-- A page that holds a byte of a segment. -/
def Spans (layout : Layout) (page : Nat) : Prop :=
  ∃ address, pageOf address = page ∧ (layout.segmentOf? address).isSome = true

/-- The page of an address below a bound is below the pages above the bound. -/
theorem pageOf_lt_pageAbove {bound : Nat} (below : address < bound) :
    pageOf address < pageAbove bound := by
  simp only [pageAbove, alignUp, pageOf, pageSize]
  omega

theorem pageAbove_mono {low high : Nat} (ordered : low ≤ high) : pageAbove low ≤ pageAbove high :=
  (pageAbove_le_iff low _).mpr
    (ordered.trans ((pageAbove_le_iff high _).mp le_rfl))

theorem pageAbove_stackLimit (packed : layout.Packed) :
    pageAbove layout.stackLimit = pageOf layout.stackLimit := by
  have aligned := packed.stackLimit
  simp only [pageAbove, alignUp, pageOf, pageSize] at *
  omega

theorem Ordered.heapTop (ordered : layout.Ordered) :
    Memory.heapTop layout layout.programBreak = pageAbove layout.programBreak :=
  heapTop_eq ordered.heapStart_le

theorem mem_pages_iff (ordered : layout.Ordered) : page ∈ layout.pages ↔
    pageOf codeStart ≤ page ∧ page < pageAbove layout.programBreak ∨
      pageOf layout.stackLimit ≤ page ∧ page < pageOf addressSpaceSize := by
  have data := ordered.dataEnd_le.trans ordered.heapStart_le
  have code := ordered.codeEnd_le.trans (ordered.dataStart_le.trans data)
  have top : max (max layout.programBreak layout.dataEnd) layout.codeEnd =
      layout.programBreak := by omega
  simp only [pages, pageRanges, top, List.flatMap_cons, List.flatMap_nil, List.append_nil,
    List.mem_append, List.mem_range'_1]
  omega

/-- **A segment lies on pages that are mapped all at once.** -/
theorem mem_pages_of_segmentOf? (ordered : layout.Ordered) (packed : layout.Packed)
    {segment : Segment} (found : layout.segmentOf? address = some segment) :
    pageOf address ∈ layout.pages := by
  obtain ⟨start_le, lt_stop⟩ := holds_iff.mp (holds_of_segmentOf? found)
  have code := packed.codeStart_le
  have inOrder := ordered
  obtain ⟨codeEnd_le, -, dataStart_le, dataEnd_le, heapStart_le, -⟩ := inOrder
  have low (above : codeStart ≤ address) (below : address < layout.programBreak) :
      pageOf address ∈ layout.pages :=
    (mem_pages_iff ordered).mpr (.inl ⟨Nat.div_le_div_right above, pageOf_lt_pageAbove below⟩)
  cases segment with
  | code => exact low start_le (by simp only [stop] at lt_stop; omega)
  | data =>
      simp only [start, stop] at start_le lt_stop
      exact low (by omega) (by omega)
  | heap => exact low (by simp only [start] at start_le; omega) lt_stop
  | stack =>
      refine (mem_pages_iff ordered).mpr (.inr ⟨Nat.div_le_div_right start_le, ?_⟩)
      simp only [stop, addressSpaceSize, pageOf, pageSize] at *
      omega

/-- **The pages that are mapped all at once hold bytes of segments**: their first ones. -/
theorem spans_of_mem_pages (ordered : layout.Ordered) (packed : layout.Packed)
    (member : page ∈ layout.pages) : layout.Spans page := by
  have first : pageOf (pageAddress page) = page := Nat.mul_div_cancel page (by decide)
  have held (segment : Segment) (above : layout.start segment ≤ pageAddress page)
      (below : pageAddress page < layout.stop segment) : layout.Spans page := by
    refine ⟨pageAddress page, first, ?_⟩
    rw [ordered.segmentOf?_eq (holds_iff.mpr ⟨above, below⟩)]
    rfl
  have dataStart := packed.dataStart
  have heapStart := packed.heapStart
  have aligned := packed.stackLimit
  simp only [alignUp, wordSize, pageSize] at dataStart heapStart aligned
  rcases (mem_pages_iff ordered).mp member with ⟨above, below⟩ | ⟨above, below⟩
  · rw [← not_le, pageAbove_le_iff, not_le] at below
    simp only [pageOf, pageAddress, pageSize, codeStart] at above below
    by_cases inCode : pageAddress page < layout.codeEnd
    · exact held .code (by simp only [start, pageAddress, pageSize, codeStart]; omega) inCode
    · by_cases inData : pageAddress page < layout.dataEnd
      · refine held .data ?_ inData
        simp only [start, pageAddress, pageSize] at *
        omega
      · refine held .heap ?_ below
        simp only [start, pageAddress, pageSize] at *
        omega
  · refine held .stack ?_ ?_ <;>
      simp only [start, stop, pageOf, pageAddress, addressSpaceSize, pageSize] at * <;> omega

theorem mem_pages_iff_spans (ordered : layout.Ordered) (packed : layout.Packed) :
    page ∈ layout.pages ↔ layout.Spans page := by
  refine ⟨spans_of_mem_pages ordered packed, ?_⟩
  rintro ⟨address, rfl, found⟩
  obtain ⟨segment, found⟩ := Option.isSome_iff_exists.mp found
  exact mem_pages_of_segmentOf? ordered packed found

theorem mem_pages_of_check (ordered : layout.Ordered) (packed : layout.Packed) {segment : Segment}
    (allowed : layout.check address access = .ok segment) : pageOf address ∈ layout.pages :=
  mem_pages_of_segmentOf? ordered packed (check_eq_ok_iff.mp allowed).1

end Layout

/-! ## What lasts -/

/-- A property of address spaces with packed segments that lasts: while pages of segments are
mapped, when the program break moves, and for copies. -/
structure AddressSpace.Lasting (holds : AddressSpace → Prop) : Prop where
  packed : ∀ {space}, holds space → space.layout.Packed
  insert : ∀ {before after : AddressSpace} {page : Nat}, page ∈ before.layout.pages →
    after.layout = before.layout → after.mode = before.mode →
    after.table.domain = insert page before.table.domain → holds before → holds after
  moved : ∀ {around programBreak} {before after : Memory}, before.Sound around →
    Memory.BreakMoved around programBreak before after → holds before.space → holds after.space
  copied : ∀ {around source after}, Memory.Copied around source after → holds source →
    holds after.space

namespace AddressSpace.Lasting

open Memory

variable {holds : AddressSpace → Prop} {around : Surroundings} {before after : Memory}

theorem touched (lasting : Lasting holds) {page : Nat} (touched : Touched around page before after)
    (member : page ∈ before.space.layout.pages) (held : holds before.space) : holds after.space :=
  lasting.insert member touched.layout touched.mode touched.domain held

/-- An access that is permitted is to a page of a segment. -/
theorem touched_allowed (lasting : Lasting holds) {address : Nat} {access : Access}
    {segment : Segment} (allowed : before.space.layout.check address access = .ok segment)
    (touched : Touched around (pageOf address) before after) (held : holds before.space) :
    holds after.space :=
  lasting.touched touched (Layout.mem_pages_of_check (touched.layout ▸ touched.sound.layout)
    (lasting.packed held) allowed) held

theorem written (lasting : Lasting holds) {address : Nat} {bytes : Bytes} {access : Access}
    {segment : Segment} (allowed : before.space.layout.check address access = .ok segment)
    (written : Written around address bytes before after) (held : holds before.space) :
    holds after.space :=
  lasting.insert (Layout.mem_pages_of_check (written.layout ▸ written.sound.layout)
    (lasting.packed held) allowed) written.layout written.mode written.domain held

theorem keeps_writeWithin (lasting : Lasting holds) (access : Access) (address : Nat)
    (bytes : Bytes) (fits : pageOffset address + bytes.length ≤ pageSize) :
    Keeps (fun memory => memory.Sound around ∧ holds memory.space)
      (writeWithin address access bytes) :=
  keeps_writeWithin_of_sound (fun _ _ _ allowed touched => lasting.touched_allowed allowed touched)
    (fun _ _ _ allowed _ written => lasting.written allowed written) fits

/-- **Accesses map pages of segments only.** -/
theorem checked (lasting : Lasting holds) (around : Surroundings) :
    Checked fun memory => memory.Sound around ∧ holds memory.space where
  read _ _ _ fits := keeps_readWithin_of_sound
    (fun _ _ _ allowed touched => lasting.touched_allowed allowed touched) fits
  write := lasting.keeps_writeWithin .write
  jot _ := keeps_jot_of_sound fun _ _ _ _ held => held

theorem keeps_ensureAllMapped (lasting : Lasting holds) {layout : Layout} {pages : List Nat}
    (members : ∀ page ∈ pages, page ∈ layout.pages) :
    Keeps (fun memory =>
        memory.Sound around ∧ memory.space.layout = layout ∧ holds memory.space)
      (ensureAllMapped pages) := by
  induction pages with
  | nil => exact .pure _
  | cons page rest ih =>
      obtain ⟨first, later⟩ := List.forall_mem_cons.mp members
      rw [ensureAllMapped_cons]
      refine Keeps.bind (keeps_touch_of_sound ?_) fun _ => ih later
      rintro before after touched ⟨rfl, held⟩
      exact ⟨touched.layout, lasting.touched touched first held⟩

theorem keeps_mapAll (lasting : Lasting holds) :
    Keeps (fun memory => memory.Sound around ∧ holds memory.space) mapAll := by
  rintro memory ⟨sound, held⟩
  have kept := lasting.keeps_ensureAllMapped (fun _ member => member) memory ⟨sound, rfl, held⟩
  exact kept.mono (fun _ _ given => ⟨given.1, given.2.2⟩) fun _ _ given => ⟨given.1, given.2.2⟩

theorem keeps_setProgramBreak (lasting : Lasting holds) (programBreak : Nat) :
    Keeps (fun memory => memory.Sound around ∧ holds memory.space)
      (setProgramBreak programBreak) := by
  rintro memory ⟨sound, held⟩
  have request := sound.setProgramBreak programBreak
  generalize setProgramBreak programBreak memory = result at request
  cases request with
  | outside reason => exact ⟨sound, held⟩
  | refused inside short => exact ⟨sound, held⟩
  | moved inside backed moved => exact ⟨moved.sound, lasting.moved sound moved held⟩

/-- **What lasts is an heirloom.** -/
theorem heirloom (lasting : Lasting holds) : Heirloom fun memory => holds memory.space where
  seen held _ := held
  checked := lasting.checked
  mapAll _ := lasting.keeps_mapAll
  setProgramBreak _ := lasting.keeps_setProgramBreak
  copied copied _ held := lasting.copied copied held

/-- Filling a new address space maps pages of segments only. -/
theorem keeps_fill (lasting : Lasting holds) (image : Image) (arguments : List String) :
    Keeps (fun memory => memory.Sound around ∧ holds memory.space)
      (Loading.fill image arguments) := by
  have preloads (address : Nat) (bytes : Bytes) :
      Keeps (fun memory => memory.Sound around ∧ holds memory.space) (preload address bytes) :=
    (keeps_checkRange _ _ _).bind fun _ =>
      keeps_writeChunks (lasting.keeps_writeWithin .read) bytes fun _ => Congruent.chunk_fits
  refine (preloads _ _).bind fun _ => .get_bind fun _ => (preloads _ _).bind fun _ => ?_
  exact Loading.keeps_buildStack (lasting.checked around) arguments

end AddressSpace.Lasting

/-! ## Settled address spaces -/

/-- The code is a whole number of instructions, segments are packed, and only their pages are
mapped. -/
structure AddressSpace.Settled (space : AddressSpace) : Prop where
  codeEnd : space.layout.codeEnd % Instruction.size = 0
  packed : space.layout.Packed
  pages : ∀ page ∈ space.table.domain, page ∈ space.layout.pages

namespace AddressSpace.Settled

variable {space : AddressSpace}

/-- **There is nothing between the heap and the stack.** -/
theorem unmapped_above_heap (settled : space.Settled) (ordered : space.layout.Ordered)
    {programBreak : Nat} (inside : ¬Memory.BreakOutside space.layout programBreak) {page : Nat}
    (above : Memory.heapTop space.layout space.layout.programBreak ≤ page)
    (below : page < Memory.heapTop space.layout programBreak) :
    space.table[page]? = none := by
  rw [← PageTable.notMem_domain]
  intro mapped
  obtain ⟨low, high⟩ := not_or.mp inside
  have top := Layout.pageAbove_mono (not_lt.mp high)
  rw [heapTop_eq (not_lt.mp low)] at below
  rw [ordered.heapTop] at above
  rcases (Layout.mem_pages_iff ordered).mp (settled.pages page mapped) with heap | stack
  · exact absurd heap.2 (not_lt.mpr above)
  · rw [Layout.maxBreak, Layout.pageAbove_stackLimit settled.packed] at top
    exact absurd (below.trans_le top) (not_lt.mpr stack.1)

/-- An address space without pages is settled if its layout is. -/
theorem of_unmapped (settled : space.Settled) {after : AddressSpace}
    (layout : after.layout = space.layout) (empty : after.table.domain = ∅) : after.Settled where
  codeEnd := layout ▸ settled.codeEnd
  packed := layout ▸ settled.packed
  pages page mapped := absurd (empty ▸ mapped) (Finset.notMem_empty page)

end AddressSpace.Settled

/-- **Which pages belong to segments after the program break has moved.** -/
theorem Memory.BreakMoved.mem_pages {around : Surroundings} {programBreak page : Nat}
    {before after : Memory} (moved : BreakMoved around programBreak before after)
    (ordered : before.space.layout.Ordered) (packed : before.space.layout.Packed) :
    let old := heapTop before.space.layout before.space.layout.programBreak
    let new := heapTop before.space.layout programBreak
    page ∈ after.space.layout.pages ↔
      page ∈ before.space.layout.pages ∧ ¬(new ≤ page ∧ page < old) ∨ old ≤ page ∧ page < new := by
  intro old new
  have orderedAfter := moved.sound.layout
  rw [moved.layout] at orderedAfter
  have oldTop : old = pageAbove before.space.layout.programBreak := ordered.heapTop
  have newTop : new = pageAbove programBreak := heapTop_eq orderedAfter.heapStart_le
  have stack := Layout.pageAbove_mono ordered.programBreak_le
  rw [Layout.pageAbove_stackLimit packed] at stack
  have bottom : pageOf codeStart ≤ pageAbove before.space.layout.programBreak := by
    have code := packed.codeStart_le
    have data := ordered.codeEnd_le.trans (ordered.dataStart_le.trans ordered.dataEnd_le)
    refine le_trans ?_ (Layout.pageAbove_mono
      (code.trans (data.trans ordered.heapStart_le)))
    decide
  rw [moved.layout, Layout.mem_pages_iff orderedAfter, Layout.mem_pages_iff ordered, oldTop, newTop]
  dsimp only
  omega

namespace Memory

variable {around : Surroundings} {programBreak : Nat} {before after : Memory}

theorem BreakMoved.packed (moved : BreakMoved around programBreak before after)
    (packed : before.space.layout.Packed) : after.space.layout.Packed := by
  rw [moved.layout]
  exact ⟨packed.codeStart_le, packed.dataStart, packed.heapStart, packed.stackLimit⟩

theorem BreakMoved.settled (moved : BreakMoved around programBreak before after)
    (sound : before.Sound around) (settled : before.space.Settled) : after.space.Settled where
  codeEnd := by
    rw [moved.layout]
    exact settled.codeEnd
  packed := moved.packed settled.packed
  pages page mapped := by
    refine (moved.mem_pages sound.layout settled.packed).mpr ?_
    rw [moved.domain, pagesAfter] at mapped
    split at mapped
    · next rises =>
        have kept (old : page ∈ before.space.table.domain) :
            page ∈ before.space.layout.pages ∧
              ¬(heapTop before.space.layout programBreak ≤ page ∧
                page < heapTop before.space.layout before.space.layout.programBreak) :=
          ⟨settled.pages page old, fun between => by omega⟩
        split at mapped
        · rcases Finset.mem_union.mp mapped with old | new
          · exact .inl (kept old)
          · exact .inr (Finset.mem_Ico.mp new)
        · exact .inl (kept mapped)
    · obtain ⟨old, kept⟩ := Finset.mem_sdiff.mp mapped
      rw [Finset.mem_Ico] at kept
      exact .inl ⟨settled.pages page old, kept⟩

end Memory

/-- **To be settled lasts.** -/
theorem AddressSpace.lasting_settled : Lasting Settled where
  packed settled := settled.packed
  insert member layout mode domain settled := by
    refine ⟨layout ▸ settled.codeEnd, layout ▸ settled.packed, fun page mapped => ?_⟩
    rw [layout]
    rw [domain, Finset.mem_insert] at mapped
    obtain rfl | old := mapped
    · exact member
    · exact settled.pages page old
  moved sound moved settled := moved.settled sound settled
  copied copied settled := by
    refine ⟨copied.layout ▸ settled.codeEnd, copied.layout ▸ settled.packed, ?_⟩
    rw [copied.domain, copied.layout]
    exact settled.pages

theorem Memory.settled_freed {memory : Memory} (settled : memory.space.Settled) :
    memory.freed.2.space.Settled :=
  settled.of_unmapped rfl rfl

/-! ## Loading -/

namespace Loading

open Memory

variable {around : Surroundings}

theorem keeps_settled_populate (image : Image) (arguments : List String) :
    Keeps (fun memory => memory.Sound around ∧ memory.space.Settled)
      (populate image arguments) := by
  have lasting := AddressSpace.lasting_settled
  rw [populate_eq]
  refine Keeps.bind ?_ fun _ => lasting.keeps_fill image arguments
  exact .get_bind fun _ => .ite lasting.keeps_mapAll (.pure _)

/-- The address space of a program that is about to be loaded. -/
theorem settled_empty {image : Image} {options : LoadOptions} {layout : Layout}
    (made : layoutOf image options = .ok layout) (mode : MemoryMode) :
    (AddressSpace.empty layout mode).Settled where
  codeEnd := by
    obtain ⟨whole, codeEnd⟩ := codeEnd_of_layoutOf made
    show layout.codeEnd % Instruction.size = 0
    rw [codeEnd]
    simp only [Image.codeEnd, codeStart, Instruction.size] at *
    omega
  packed := (Layout.planned_of_ofSizes (of_layoutOf made).2).packed
  pages page mapped := absurd mapped (Finset.notMem_empty page)

/-- **A program is loaded into a settled address space.** -/
theorem settled_of_load {pool pool' : FramePool} {journal journal' : Journal} {id : ContextId}
    {image : Image} {options : LoadOptions} {context : Context} (held : pool.HeldBy around)
    (loaded : load id image options pool journal = (.ok context, pool', journal')) :
    context.space.Settled := by
  unfold load at loaded
  split at loaded
  · cases loaded
  · next layout made =>
      have start := held.sound_empty (ordered_of_layoutOf made) options.mode journal
      have kept := keeps_settled_populate image options.arguments _
        ⟨start, settled_empty made options.mode⟩
      split at loaded
      · next stackPointer memory run =>
          rw [run] at kept
          obtain ⟨same, -, -⟩ : _ ∧ _ ∧ _ := by simpa only [Prod.mk.injEq] using loaded
          obtain rfl := Except.ok.inj same
          exact kept.2
      · cases loaded

end Loading

/-! ## Contexts -/

namespace Interpreter

open Std (TreeMap)

/-- All address spaces are settled. -/
def AllSettled (contexts : TreeMap ContextId Context) : Prop :=
  ∀ id space, spaceIn contexts id = some space → space.Settled

namespace AllSettled

variable {contexts : TreeMap ContextId Context}

theorem congr {contexts' : TreeMap ContextId Context} (settled : AllSettled contexts)
    (same : ∀ id, spaceIn contexts' id = spaceIn contexts id) : AllSettled contexts' :=
  fun id space found => settled id space (same id ▸ found)

theorem insert (settled : AllSettled contexts) (id : ContextId) {context : Context}
    (new : context.space.Settled) : AllSettled (contexts.insert id context) := by
  intro other space found
  rw [spaceIn, Table.getElem?_insert] at found
  split at found
  · cases found
    exact new
  · exact settled other space found

theorem erase (settled : AllSettled contexts) (id : ContextId) :
    AllSettled (contexts.erase id) := by
  intro other space found
  rw [spaceIn, Table.getElem?_erase] at found
  split at found
  · cases found
  · exact settled other space found

theorem get (settled : AllSettled contexts) {id : ContextId} {context : Context}
    (found : contexts[id]? = some context) : context.space.Settled :=
  settled id context.space (by rw [spaceIn, found]; rfl)

end AllSettled

variable {capacity : Nat} {machine : Interpreter}

/-- What supervisors do to a memory leaves address spaces settled. -/
theorem AllSettled.withMemory {α : Type} {action : MemoryAction α}
    (settled : AllSettled machine.contexts) (sound : machine.Sound capacity)
    (courteous : Memory.Courteous action) (id : ContextId) :
    AllSettled (machine.withMemory id action).2.contexts := by
  cases found : machine.contexts[id]? with
  | none =>
      rw [withMemory_of_none found]
      exact settled
  | some context =>
      have lasting := AddressSpace.lasting_settled
      have keeps := courteous _ (lasting.checked (machine.around capacity id)) lasting.keeps_mapAll
        lasting.keeps_setProgramBreak
      have kept := keeps.finalState ⟨sound.memory found machine.journal, settled.get found⟩
      rw [withMemory_of_some found]
      exact settled.insert id kept.2

/-- **Every operation leaves address spaces settled.** -/
theorem Operation.keeps_settled (operation : Operation) (sound : machine.Sound capacity)
    (settled : AllSettled machine.contexts) :
    AllSettled (finalState (operation.perform machine)).contexts := by
  cases operation with
  | create image options =>
      rw [Operation.perform, finalState_map]
      cases result : Loading.load machine.nextId image options machine.pool machine.journal with
      | mk answer left =>
          obtain ⟨pool, journal⟩ := left
          cases answer with
          | ok context =>
              rw [create_of_ok result]
              exact settled.insert _ (Loading.settled_of_load sound.heldBy result)
          | error error =>
              rw [create_of_error result]
              exact settled
  | fork parent =>
      rw [Operation.perform, finalState_map]
      have ends := forkEnds parent machine
      generalize Interpreter.fork parent machine = result at ends ⊢
      cases ends with
      | missing => exact settled
      | refused => exact settled
      | @copied source memory found copied =>
          have copy : (forkOf parent source memory.space).space.Settled :=
            AddressSpace.lasting_settled.copied (sound.copied found copied) (settled.get found)
          refine (settled.insert machine.nextId copy).congr (spaceIn_modify ?_)
          exact fun _ => rfl
  | destroy id =>
      rw [Operation.perform, finalState_map]
      cases found : machine.contexts[id]? with
      | none =>
          rw [destroy_of_none found]
          exact settled
      | some context =>
          rw [destroy_of_some found]
          exact (settled.erase id).congr (spaceIn_unlink _ id context)
  | release id =>
      rw [Operation.perform, finalState_map]
      cases found : machine.contexts[id]? with
      | none =>
          rw [release_of_none found]
          exact settled
      | some context =>
          rw [release_of_some found]
          have emptied : (machine.memoryOf context).freed.2.space.Settled :=
            Memory.settled_freed (settled.get found)
          exact settled.insert id emptied
  | switch id quantum =>
      rw [Operation.perform, finalState_map]
      have ran {context : Context} (found : machine.contexts[id]? = some context) :
          AllSettled (machine.keepRun id context (machine.runOf context quantum)).contexts :=
        settled.insert id (Hart.run_checked (AddressSpace.lasting_settled.checked _)
          machine.tracing quantum context.hart 0
          ⟨sound.memory found machine.journal, settled.get found⟩).2
      have ends := switchEnds id quantum machine
      generalize Interpreter.switch id quantum machine = result at ends ⊢
      cases ends with
      | missing => exact settled
      | exited => exact settled
      | trapped found _ _ => exact ran found
      | ranDry found _ _ => exact ran found
  | access id request => exact settled.withMemory sound request.courteous_perform id
  | alter id bookkeeping => exact settled.congr (spaceIn_modify bookkeeping.space)
  | note happening => exact settled

/-- **Whatever operations a machine has carried out**, no frame is lost or shared, and all address
spaces are settled. -/
theorem settled_stateAfter (frames : Nat) (tracing : Bool) (journal : Journal)
    (operations : List Operation) :
    let reached := stateAfter Operation.perform operations (.empty frames tracing journal)
    reached.Sound frames ∧ AllSettled reached.contexts := by
  have keeps (operation : Operation) (machine : Interpreter)
      (given : machine.Sound frames ∧ AllSettled machine.contexts) :
      (finalState (operation.perform machine)).Sound frames ∧
        AllSettled (finalState (operation.perform machine)).contexts :=
    ⟨operation.keeps_sound given.1, operation.keeps_settled given.1 given.2⟩
  have nobody : AllSettled (empty frames tracing journal).contexts := by
    intro id space found
    have missing : spaceIn (empty frames tracing journal).contexts id = none := by
      rw [spaceIn, show (empty frames tracing journal).contexts[id]? = none from
        TreeMap.getElem?_emptyc]
      rfl
    rw [missing] at found
    cases found
  exact stateAfter_keeps keeps operations ⟨sound_empty frames tracing journal, nobody⟩

end Interpreter

end NestedMachine
