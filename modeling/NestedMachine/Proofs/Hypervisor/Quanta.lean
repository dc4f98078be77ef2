import NestedMachine.Proofs.Hypervisor.Indifference
import NestedMachine.Proofs.Machine.Matching

/-!
# Hypervisors that differ in their quanta

The quantum is looked at when a context gets its turn, and nowhere else.  To an action that does not
look at it, it makes no difference (`Timeless`), and this can be said of each primitive operation.
So if hypervisors are compared that keep the same record apart from the quantum, over machines that
differ only in their journals (`quanta`), then whatever they do for their contexts follows, and
programs are loaded alike (`respectsQueues_quanta`); so do system calls (`respectsCalls_quanta`).
What does not follow is a round of the scheduler.
-/

namespace NestedMachine

set_option autoImplicit false

theorem JournalView.levelBlind_any : JournalView.any.LevelBlind := fun _ _ _ => trivial

/-- The quantum is left alone by a clerical change, which does not look at it either. -/
theorem Supervisor.Clerical.change_quantum {change : Supervisor → Supervisor}
    (clerical : Clerical change) (own : Supervisor) (quantum : Nat) :
    change { own with quantum } = { change own with quantum } := by
  have changed := clerical own own.host own.recording own.mode quantum own.ready own.relay
  have same := congrArg (fun own : Supervisor => { own with quantum }) (clerical.same own)
  exact changed.trans same.symm

namespace Hypervisor

variable {α : Type} {view : JournalView} {quantum : Nat} {left right : Hypervisor}

/-! ## Actions that do not look at the quantum -/

/-- A hypervisor with another quantum. -/
def withQuantum (hypervisor : Hypervisor) (quantum : Nat) : Hypervisor :=
  { hypervisor with own := { hypervisor.own with quantum } }

/-- The quantum makes no difference to an action. -/
def Timeless (action : HypervisorAction α) : Prop :=
  ∀ quantum, Agrees (fun _ => False) (fun left right => right = left.withQuantum quantum) Eq action
    action

/-- An action is timeless to which no change of the quantum makes a difference. -/
theorem timeless_of_indifferent {action : HypervisorAction α}
    (indifferent : ∀ quantum, Indifferent (fun own => { own with quantum }) action) :
    Timeless action := indifferent

theorem timeless_below (action : MachineAction α) : Timeless (below action) :=
  timeless_of_indifferent fun _ => indifferent_below action

theorem timeless_note (happening : Note) : Timeless (note happening) :=
  timeless_of_indifferent fun _ => indifferent_note happening

theorem timeless_modifyOwn {change : Supervisor → Supervisor}
    (blind : ∀ own quantum, change { own with quantum } = { change own with quantum }) :
    Timeless (modifyOwn change) :=
  timeless_of_indifferent fun quantum => indifferent_modifyOwn (blind · quantum)

theorem timeless_modifyContext (id : ContextId) (change : Context → Context) :
    Timeless (modifyContext id change) :=
  timeless_of_indifferent fun _ => indifferent_modifyContext id change

theorem timeless_onMemory (id : ContextId) (action : MemoryAction α) :
    Timeless (onMemory id action) :=
  timeless_of_indifferent fun _ => indifferent_onMemory id action

theorem timeless_onCallerMemory (id : ContextId) (call : Call) (action : MemoryAction α) :
    Timeless (onCallerMemory id call action) :=
  timeless_of_indifferent fun _ => indifferent_onCallerMemory id call action

theorem timeless_askHost (request : Host → HostAnswer α) : Timeless (askHost request) := by
  rintro quantum ⟨machine, own⟩ _ rfl
  exact .answer rfl rfl

theorem timeless_createContext (image : Image) (arguments : List String) :
    Timeless (createContext image arguments) :=
  timeless_of_indifferent fun _ =>
    indifferent_createContext image arguments (by exact fun _ => rfl) (by exact fun _ => rfl)

/-! ## Hypervisors with different quanta -/

/-- Hypervisors that keep the same record, apart from the quantum, over machines that differ only in
their journals. -/
def quanta (view : JournalView) (quantum : Nat) : Pursuit HostError Hypervisor Hypervisor :=
  .evenly fun left right => SameAbove view (left.withQuantum quantum) right

/-- What follows over any number of levels follows with any quantum if it does not look at it. -/
theorem follows_quanta {action other : HypervisorAction α} (timeless : Timeless action)
    (follows : (levels view).Follows Eq action other) :
    (quanta view quantum).Follows Eq action other := by
  refine Pursuit.follows_evenly fun left right states => ?_
  refine (timeless quantum left _ rfl).trans (follows.agrees _ _ states) ?_
  rintro _ middle after rfl states
  exact states

theorem looks_of_quanta (states : SameAbove view (left.withQuantum quantum) right) :
    Alike left right := by
  refine ⟨?_, fun id => ?_⟩
  · unfold Supervisor.LooksLike
    rw [← states.own]
    rfl
  · rw [← states.context? id]
    exact (Alike.refl left).context id

/-- **The primitive operations that serve contexts do not look at the quantum.** -/
theorem respectsService_quanta (blind : view.LevelBlind) (quantum : Nat) :
    RespectsService (quanta view quantum) view.alike :=
  have respects := respects_levels blind
  { looks := fun _ _ states => looks_of_quanta states
    refl := respects.refl
    switched := fun left right id => respects.switched (left.withQuantum quantum) right id
    note := fun alike => follows_quanta (timeless_note _) (respects.note alike)
    modifyOwn := fun clerical =>
      follows_quanta (timeless_modifyOwn clerical.change_quantum) (respects.modifyOwn clerical)
    join := fun id => follows_quanta (timeless_modifyOwn fun _ _ => rfl) (respects.join id)
    dequeue := fun id => follows_quanta (timeless_modifyOwn fun _ _ => rfl) (respects.dequeue id)
    modifyContext := fun id _ spaceBlind =>
      follows_quanta (timeless_modifyContext id _) (respects.modifyContext id spaceBlind)
    destroy := fun id => follows_quanta (timeless_below _) (respects.destroy id)
    switch := fun id quantum => follows_quanta (timeless_below _) (respects.switch id quantum)
    release := fun id =>
      (follows_quanta (timeless_below _) (follows_below (fun _ uniform => uniform.release id)
        (Interpreter.agrees_release view id))).weaken fun _ _ same _ => same ▸ view.refl _
    fork := fun id =>
      (follows_quanta (timeless_below _) (follows_below (fun _ uniform => uniform.fork id)
        (Interpreter.agrees_fork view id))).unless
    requestBreak := fun id requested =>
      (follows_quanta (timeless_onMemory id _)
        (follows_onMemory (agrees_requestBreak requested) id)).unless
    callerMemory := fun id call _ congruent =>
      follows_quanta (timeless_onCallerMemory id call _) (respects.callerMemory id call congruent) }

/-- **Programs are loaded alike**, whatever the quantum. -/
theorem respectsQueues_quanta (blind : view.LevelBlind) (quantum : Nat) :
    RespectsQueues (quanta view quantum) view.alike :=
  have respects := respects_levels blind
  { respectsService_quanta blind quantum with
    queue := fun _ _ states => (congrArg Supervisor.ready states.own :)
    rearrange := fun change =>
      follows_quanta (timeless_modifyOwn fun _ _ => rfl) (respects.rearrange change)
    levelLoaded := fun left right id => respects.levelLoaded (left.withQuantum quantum) right id
    setMemoryMode := fun mode =>
      follows_quanta (timeless_modifyOwn fun _ _ => rfl) (respects.setMemoryMode mode)
    create := fun image arguments =>
      follows_quanta (timeless_createContext image arguments) (respects.create image arguments) }

/-- **System calls follow each other**, whatever the quantum. -/
theorem respectsCalls_quanta (blind : view.LevelBlind) (quantum : Nat) :
    RespectsCalls (quanta view quantum) view.alike :=
  have respects := respectsHosts_levels blind
  { respectsService_quanta blind quantum with
    recording := fun _ _ states => (congrArg Supervisor.recording states.own :)
    askHost := fun request => follows_quanta (timeless_askHost request) (respects.askHost request)
    changeRecording := fun change =>
      follows_quanta (timeless_modifyOwn fun _ _ => rfl) (respects.changeRecording change) }

/-- What follows itself with any quantum leaves the quantum alone. -/
theorem quantum_kept {action : HypervisorAction α} {origin : Hypervisor}
    (uniform : origin.machine.Uniform)
    (follows : (quanta .any origin.own.quantum).Follows Eq action action) :
    (finalState (action origin)).own.quantum = origin.own.quantum := by
  have itself : SameAbove .any (origin.withQuantum origin.own.quantum) origin :=
    ⟨rfl, .mk origin.machine.interpreter trivial, uniform, uniform⟩
  have states := (follows.agrees origin origin itself).outcome.2
  exact (congrArg Supervisor.quantum states.own).symm

end Hypervisor

end NestedMachine
