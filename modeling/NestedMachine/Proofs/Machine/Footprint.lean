import NestedMachine.Proofs.Machine.Settled

/-!
# Address spaces that are mapped all at once

An address space is complete if it is settled and, where pages are mapped all at once, no page of a
segment is missing (`AddressSpace.Complete`).  A program is loaded into a complete address space
(`Interpreter.Sound.complete_of_create`), and it stays complete (`AddressSpace.lasting_complete`),
because the program break takes with it the pages that begin or cease to belong to the heap.

In a complete address space that is mapped all at once (`AddressSpace.Full`), accesses find every
page that they may touch.  So they leave it as it is and need no frames
(`AddressSpace.Full.sheltered`), and the same holds for runs (`Interpreter.Provided.switch`) and for
what supervisors ask for, apart from moving the program break
(`Interpreter.Provided.withMemory`).
-/

namespace NestedMachine

set_option autoImplicit false

open Memory

/-! ## Complete address spaces -/

/-- A settled address space without a gap: where pages are mapped all at once, those of all segments
are. -/
structure AddressSpace.Complete (space : AddressSpace) : Prop extends space.Settled where
  gapless : space.mode = .fullyMapped → ∀ page ∈ space.layout.pages, page ∈ space.table.domain

namespace AddressSpace

/-- **To be complete lasts.** -/
theorem lasting_complete : Lasting Complete where
  packed complete := complete.packed
  insert member layout mode domain complete := by
    refine ⟨lasting_settled.insert member layout mode domain complete.toSettled, ?_⟩
    intro eager page needed
    rw [layout] at needed
    rw [domain]
    exact Finset.mem_insert_of_mem (complete.gapless (mode.symm.trans eager) page needed)
  moved {around programBreak before after} sound moved complete := by
    refine ⟨lasting_settled.moved sound moved complete.toSettled, fun eager page needed => ?_⟩
    have eager := moved.mode.symm.trans eager
    rw [moved.domain, pagesAfter, if_pos eager]
    rcases (moved.mem_pages sound.layout complete.packed).mp needed with ⟨old, kept⟩ | new
    · have mapped := complete.gapless eager page old
      split
      · exact Finset.mem_union_left _ mapped
      · rw [Finset.mem_sdiff, Finset.mem_Ico]
        exact ⟨mapped, kept⟩
    · rw [if_pos (new.1.trans_lt new.2)]
      exact Finset.mem_union_right _ (Finset.mem_Ico.mpr new)
  copied copied complete := by
    refine ⟨lasting_settled.copied copied complete.toSettled, ?_⟩
    rw [copied.mode, copied.layout, copied.domain]
    exact complete.gapless

end AddressSpace

/-! ## Loading -/

namespace Memory

variable {around : Surroundings} {memory after : Memory}

/-- When pages have been mapped, they are mapped. -/
theorem Sound.filled_of_ensureAllMapped {pages : List Nat} (sound : memory.Sound around)
    (run : Memory.ensureAllMapped pages memory = .ok () after) :
    Filled around pages.toFinset memory after := by
  induction pages generalizing memory with
  | nil =>
      obtain ⟨-, rfl⟩ := EStateM.Result.ok.inj run
      exact ⟨sound, rfl, rfl, by simp, fun _ => rfl⟩
  | cons page rest ih =>
      obtain ⟨entry, middle, mapped, run⟩ := ok_of_bind run
      have mapping := sound.ensureMapped page
      rw [mapped] at mapping
      cases mapping with
      | mapped touched found =>
          have filled := ih touched.sound run
          refine ⟨filled.sound, filled.layout.trans touched.layout,
            filled.mode.trans touched.mode, ?_, fun address => ?_⟩
          · rw [filled.domain, touched.domain, List.toFinset_cons, Finset.insert_union,
              Finset.union_insert]
          · exact (filled.bytes address).trans (touched.bytes address)

/-- Mapping pages all at once leaves no gap. -/
theorem Sound.complete_of_mapEagerly (sound : memory.Sound around)
    (settled : memory.space.Settled) (run : mapEagerly memory = .ok () after) :
    after.Sound around ∧ after.space.Complete := by
  change (if memory.space.mode = .fullyMapped then mapAll else pure ()) memory = _ at run
  split at run
  · have kept := AddressSpace.lasting_settled.keeps_mapAll memory ⟨sound, settled⟩
    rw [run] at kept
    have filled := sound.filled_of_ensureAllMapped run
    refine ⟨kept.1, kept.2, fun _ page needed => ?_⟩
    rw [filled.layout] at needed
    rw [filled.domain]
    exact Finset.mem_union_right _ (List.mem_toFinset.mpr needed)
  · next lazy =>
      obtain ⟨-, rfl⟩ := EStateM.Result.ok.inj run
      exact ⟨sound, settled, fun eager => absurd eager lazy⟩

end Memory

/-- **A program is loaded into a complete address space.** -/
theorem Loading.complete_of_load {around : Surroundings} {pool pool' : FramePool}
    {journal journal' : Journal} {id : ContextId} {image : Image} {options : LoadOptions}
    {context : Context} (held : pool.HeldBy around)
    (loaded : load id image options pool journal = (.ok context, pool', journal')) :
    context.space.Complete := by
  unfold load at loaded
  split at loaded
  · cases loaded
  · next layout made =>
      have start := held.sound_empty (ordered_of_layoutOf made) options.mode journal
      split at loaded
      · next stackPointer memory run =>
          obtain ⟨same, -, -⟩ : _ ∧ _ ∧ _ := by simpa only [Prod.mk.injEq] using loaded
          obtain rfl := Except.ok.inj same
          rw [populate_eq] at run
          obtain ⟨_, mapped, eager, run⟩ := ok_of_bind run
          have begun := start.complete_of_mapEagerly (settled_empty made options.mode) eager
          have kept := AddressSpace.lasting_complete.keeps_fill image options.arguments mapped begun
          rw [run] at kept
          exact kept.2
      · cases loaded

theorem Interpreter.Sound.complete_of_create {capacity : Nat} {machine after : Interpreter}
    {id : ContextId} {image : Image} {options : LoadOptions} (sound : machine.Sound capacity)
    (created : Interpreter.create image options machine = .ok id after) :
    after.Has (fun memory => memory.space.Complete) id := by
  cases result : Loading.load machine.nextId image options machine.pool machine.journal with
  | mk answer left =>
      obtain ⟨pool, journal⟩ := left
      cases answer with
      | error error =>
          rw [create_of_error result] at created
          cases created
      | ok context =>
          rw [create_of_ok result] at created
          obtain ⟨rfl, rfl⟩ := EStateM.Result.ok.inj created
          exact ⟨context, (Table.getElem?_insert ..).trans (if_pos rfl),
            Loading.complete_of_load sound.heldBy result⟩

/-! ## Accesses to what is mapped -/

/-- An address space that is mapped all at once, and in which no page of a segment is missing. -/
structure AddressSpace.Full (space : AddressSpace) : Prop extends space.Complete where
  ordered : space.layout.Ordered
  eager : space.mode = .fullyMapped

/-- An action that needs no frames where no page is missing, and leaves such an address space as it
is. -/
def Memory.Frugal {α : Type} (action : MemoryAction α) : Prop :=
  ∀ space : AddressSpace, space.Full →
    Stays (· ≠ .outOfFrames) (fun memory => memory.space = space) action

namespace AddressSpace.Full

variable {space : AddressSpace}

theorem mem_domain (full : space.Full) {page : Nat} (needed : page ∈ space.layout.pages) :
    ∃ entry, space.table[page]? = some entry :=
  PageTable.mem_domain.mp (full.gapless full.eager page needed)

theorem stays_translate (full : space.Full) (address : Nat) (access : Access) :
    Stays (· ≠ .outOfFrames) (fun memory => memory.space = space)
      (Memory.translate address access) := by
  rintro memory rfl
  cases allowed : memory.space.layout.check address access with
  | error fault =>
      have denied : check address access memory = .error fault memory := by
        rw [check_apply, allowed]
      rw [Memory.translate, bind_of_error denied]
      obtain rfl := Layout.segmentation_of_check allowed
      exact ⟨by nofun, rfl⟩
  | ok segment =>
      have passed : check address access memory = .ok () memory := by
        rw [check_apply, allowed]
      obtain ⟨entry, found⟩ :=
        full.mem_domain (Layout.mem_pages_of_check full.ordered full.packed allowed)
      have mapped : ensureMapped (pageOf address) memory = .ok entry memory := by
        obtain ⟨space, pool, journal⟩ := memory
        rw [ensureMapped]
        simp only [show space.table[pageOf address]? = some entry from found]
      rw [Memory.translate, bind_of_ok passed, bind_of_ok mapped]
      split
      · exact ⟨by nofun, rfl⟩
      · exact rfl

/-- **Accesses leave what is mapped all at once as it is, and need no frames.** -/
theorem sheltered (full : space.Full) :
    Sheltered (· ≠ .outOfFrames) fun memory => memory.space = space where
  faults _ other := other
  read address access _ _ :=
    (full.stays_translate address access).bind fun _ _ same => same
  write address _ _ :=
    (full.stays_translate address .write).bind fun _ _ same => same
  jot _ _ same := same

theorem stays_mapAll (full : space.Full) :
    Stays (· ≠ .outOfFrames) (fun memory => memory.space = space) mapAll := by
  have mapped {pages : List Nat} (needed : ∀ page ∈ pages, page ∈ space.layout.pages) :
      Stays (· ≠ .outOfFrames) (fun memory => memory.space = space) (ensureAllMapped pages) := by
    induction pages with
    | nil => exact .pure ()
    | cons page rest ih =>
        obtain ⟨first, later⟩ := List.forall_mem_cons.mp needed
        refine Stays.bind ?_ fun _ => ih later
        rintro ⟨space, pool, journal⟩ rfl
        obtain ⟨entry, found⟩ := full.mem_domain first
        rw [ensureMapped]
        simp only [found]
        rfl
  rintro memory rfl
  exact mapped (fun _ member => member) memory rfl

end AddressSpace.Full

/-- **The requests of a supervisor need no frames where no page is missing**, apart from moving the
program break. -/
theorem MemoryRequest.frugal (request : MemoryRequest)
    (keeping : ∀ programBreak, request ≠ .setProgramBreak programBreak) :
    Memory.Frugal request.perform :=
  fun _ full => request.stays_perform full.sheltered full.stays_mapAll
    fun programBreak same => absurd same (keeping programBreak)

/-! ## Contexts that lack no page -/

/-- An error that does not say that the pool ran dry under a context. -/
def HostError.Clears (id : ContextId) (error : HostError) : Prop :=
  ∀ pc, error ≠ .memoryExhausted id pc

/-- The error of a load names the context that was to be loaded. -/
theorem Loading.clears_of_load {id number : ContextId} {image : Image} {options : LoadOptions}
    {pool pool' : FramePool} {journal journal' : Journal} {error : HostError} (other : id ≠ number)
    (failed : load number image options pool journal = (.error error, pool', journal')) :
    error.Clears id := by
  rintro pc rfl
  unfold load layoutOf at failed
  split at failed
  · next made =>
      obtain ⟨same, -⟩ := Prod.mk.inj failed
      obtain rfl := Except.error.inj same
      split at made
      · cases made
      · split at made <;> cases made
  · split at failed
    · cases failed
    · obtain ⟨same, -⟩ := Prod.mk.inj failed
      have named := Except.error.inj same
      unfold errorOf at named
      split at named
      · cases named
        exact other rfl
      · cases named

namespace Interpreter

variable {machine : Interpreter} {id : ContextId}

/-- The address space of a context, if it is there, lacks no page. -/
def Provided (id : ContextId) (machine : Interpreter) : Prop :=
  ∀ space, spaceIn machine.contexts id = some space → space.Full

/-- The address space of a context is as it was. -/
def Undisturbed (id : ContextId) (before after : Interpreter) : Prop :=
  spaceIn after.contexts id = spaceIn before.contexts id

/-- A context whose address space is put back is undisturbed. -/
theorem undisturbed_insert {after : Interpreter} {context context' : Context}
    (found : machine.contexts[id]? = some context)
    (contexts : after.contexts = machine.contexts.insert id context')
    (space : context'.space = context.space) : Undisturbed id machine after := by
  rw [Undisturbed, contexts, spaceIn, spaceIn, Table.getElem?_insert, if_pos rfl, found]
  exact congrArg some space

/-- The pool runs dry under the context that is loaded. -/
theorem clears_create (old : id ≠ machine.nextId) (image : Image) (options : LoadOptions) :
    Halts (fun error _ => error.Clears id) (fun _ _ => True) (create image options machine) := by
  cases result : Loading.load machine.nextId image options machine.pool machine.journal with
  | mk answer left =>
      obtain ⟨pool, journal⟩ := left
      cases answer with
      | ok context =>
          rw [create_of_ok result]
          trivial
      | error error =>
          rw [create_of_error result]
          exact Loading.clears_of_load old result

/-- The pool runs dry under the context that runs. -/
theorem clears_switch {other : ContextId} (different : other ≠ id) (machine : Interpreter)
    (quantum : Nat) :
    Halts (fun error _ => error.Clears id) (fun _ _ => True)
      (Interpreter.switch other quantum machine) := by
  have ends := switchEnds other quantum machine
  generalize Interpreter.switch other quantum machine = result at ends ⊢
  cases ends with
  | missing => exact nofun
  | exited => exact nofun
  | trapped => trivial
  | ranDry =>
      rintro pc named
      cases named
      exact different rfl

namespace Provided

theorem get (provided : machine.Provided id) {context : Context}
    (found : machine.contexts[id]? = some context) : context.space.Full :=
  provided context.space (by rw [spaceIn, found]; rfl)

theorem of_undisturbed {after : Interpreter} (provided : machine.Provided id)
    (same : Undisturbed id machine after) : after.Provided id :=
  fun space found => provided space (same.symm.trans found)

/-- **The runs of a context that lacks no page leave its address space as it is, and the pool does
not run dry under it.** -/
theorem switch (provided : machine.Provided id) (quantum : Nat) :
    Halts (fun error after => error.Clears id ∧ Undisturbed id machine after)
      (fun _ after => Undisturbed id machine after) (Interpreter.switch id quantum machine) := by
  have ran {context : Context} (found : machine.contexts[id]? = some context) :=
    Hart.run_sheltered (provided.get found).sheltered machine.tracing quantum context.hart 0
      (show (machine.memoryOf context).space = context.space from rfl)
  have ends := switchEnds id quantum machine
  generalize Interpreter.switch id quantum machine = result at ends ⊢
  cases ends with
  | missing => exact ⟨by nofun, rfl⟩
  | exited => exact ⟨by nofun, rfl⟩
  | trapped found _ _ => exact undisturbed_insert found rfl (ran found).1
  | ranDry found _ ended => exact absurd rfl ((ran found).2 ended)

/-- **What needs no frames leaves an address space that lacks no page as it is.** -/
theorem withMemory {α : Type} {action : MemoryAction α} (provided : machine.Provided id)
    (frugal : Memory.Frugal action) :
    (machine.withMemory id action).1 ≠ some (.error .outOfFrames) ∧
      Undisturbed id machine (machine.withMemory id action).2 := by
  cases found : machine.contexts[id]? with
  | none =>
      rw [withMemory_of_none found]
      exact ⟨nofun, rfl⟩
  | some context =>
      have stays := frugal context.space (provided.get found) (machine.memoryOf context) rfl
      rw [withMemory_of_some found]
      generalize action (machine.memoryOf context) = result at stays
      cases result with
      | ok answer after => exact ⟨nofun, undisturbed_insert found rfl stays⟩
      | error fault after =>
          refine ⟨fun same => stays.1 ?_, undisturbed_insert found rfl stays.2⟩
          exact Except.error.inj (Option.some.inj same)

end Provided

end Interpreter

end NestedMachine
