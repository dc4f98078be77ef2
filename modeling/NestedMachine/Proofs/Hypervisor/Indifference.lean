import NestedMachine.Proofs.Hypervisor.Levels

/-!
# Parts of the record that make no difference

A hypervisor keeps a record of its own, and few actions look at all of it.  If a part of the record
is set to something else, it makes no difference to an action that does not look at this part: it
answers the same and leaves the same, but for the part (`Indifferent`).  The primitive operations
that serve contexts look at hardly anything.
-/

namespace NestedMachine.Hypervisor

set_option autoImplicit false

variable {α : Type} {amend : Supervisor → Supervisor}

/-- A hypervisor whose record has been amended. -/
def amended (hypervisor : Hypervisor) (amend : Supervisor → Supervisor) : Hypervisor :=
  { hypervisor with own := amend hypervisor.own }

/-- What is amended makes no difference to an action. -/
def Indifferent (amend : Supervisor → Supervisor) (action : HypervisorAction α) : Prop :=
  Agrees (fun _ => False) (fun left right => right = left.amended amend) Eq action action

theorem indifferent_below (action : MachineAction α) : Indifferent amend (below action) := by
  rintro ⟨machine, own⟩ _ rfl
  unfold below amended
  dsimp only
  cases action machine with
  | ok answer after => exact .answer rfl rfl
  | error error after => exact .failure rfl

theorem indifferent_note (happening : Note) : Indifferent amend (note happening) :=
  .modify fun _ _ same => same ▸ rfl

theorem indifferent_modifyOwn {change : Supervisor → Supervisor}
    (blind : ∀ own, change (amend own) = amend (change own)) :
    Indifferent amend (modifyOwn change) := by
  refine .modify ?_
  rintro left _ rfl
  exact congrArg (Hypervisor.mk left.machine) (blind left.own)

theorem indifferent_contextOf (id : ContextId) : Indifferent amend (contextOf id) := by
  rintro left _ rfl
  rw [contextOf_apply, contextOf_apply, show (left.amended amend).machine = left.machine from rfl]
  cases left.machine.context? id with
  | none => exact .failure rfl
  | some context => exact .answer rfl rfl

theorem indifferent_modifyContext (id : ContextId) (change : Context → Context) :
    Indifferent amend (modifyContext id change) := by
  rintro left _ rfl
  rw [modifyContext_apply, modifyContext_apply,
    show (left.amended amend).machine = left.machine from rfl]
  cases left.machine.context? id with
  | none => exact .failure rfl
  | some context => exact .answer rfl rfl

theorem indifferent_onMemory (id : ContextId) (action : MemoryAction α) :
    Indifferent amend (onMemory id action) := by
  rintro ⟨machine, own⟩ _ rfl
  unfold onMemory amended
  dsimp only
  split
  · exact .answer rfl rfl
  · exact .failure rfl

theorem indifferent_onCallerMemory (id : ContextId) (call : Call) (action : MemoryAction α) :
    Indifferent amend (onCallerMemory id call action) := by
  refine (indifferent_onMemory id action : Indifferent amend _).bind ?_
  rintro answer _ rfl
  split
  · exact .throw _
  · exact .pure rfl

theorem indifferent_createContext (image : Image) (arguments : List String)
    (mode : ∀ own, (amend own).mode = own.mode)
    (stackSize : ∀ own, (amend own).stackSize = own.stackSize) :
    Indifferent amend (createContext image arguments) := by
  refine .get_bind ?_
  rintro left _ rfl
  have options : LoadOptions.mk (amend left.own).mode (amend left.own).stackSize arguments =
      ⟨left.own.mode, left.own.stackSize, arguments⟩ := by rw [mode, stackSize]
  show Agrees _ _ _ (below (Machine.create image _))
    (below (Machine.create image ⟨(amend left.own).mode, (amend left.own).stackSize, arguments⟩))
  rw [options]
  exact indifferent_below _

end NestedMachine.Hypervisor
