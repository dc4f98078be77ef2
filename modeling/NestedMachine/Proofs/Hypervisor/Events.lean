import NestedMachine.Debugger
import NestedMachine.Proofs.Ensures
import NestedMachine.Proofs.Hypervisor.Operations

/-!
# Everything that happens to a hypervisor

A hypervisor is driven from three sides.  Whoever owns it asks for operations; the level above, for
which it is a machine, sends requests about contexts of its own; and a debugger drives it one
instruction at a time.  A history of a hypervisor is a list of such events, in any order and with
any outcomes.

A request of the level above is refused at once, or it is a request to the machine below with a note
in the record (`halts_fromAbove`).  A debugger looks at the contexts to which the queue comes, steps
them and rotates the queue, so that what these keep, a debugger keeps (`Steered.resumeDebugger`,
`Sustained.resumeDebugger`).
-/

namespace NestedMachine.Hypervisor

set_option autoImplicit false

open Std (TreeSet)

/-- What the level above can ask for.  It may change a context that is hosted for it at will. -/
inductive Request where
  | create (image : Image) (options : LoadOptions)
  | fork (parent : ContextId)
  | destroy (id : ContextId)
  | release (id : ContextId)
  | switch (id : ContextId) (quantum : Nat)
  | access (id : ContextId) (request : MemoryRequest)
  | alter (id : ContextId) (change : Context → Context)

/-- Carry out a request of the level above. -/
def Request.perform : Request → HypervisorAction Interpreter.Answer
  | .create image options => return .context (← fromAbove (Machine.create image options))
  | .fork parent => return .copy (← fromAbove (Machine.fork parent))
  | .destroy id => do
      fromAbove (Machine.destroy id)
      return .done
  | .release id => return .released (← fromAbove (Machine.release id))
  | .switch id quantum => return .trap (← fromAbove (Machine.switch id quantum))
  | .access id request => fromAbove fun machine =>
      let (answer, machine) := machine.withMemory id request.perform
      .ok (.memory answer) machine
  | .alter id change => do
      fromAbove (modify fun machine => machine.modifyContext id change)
      return .done

/-- Let a debugger with the given stops go on, and take the hypervisor back. -/
def resumeDebugger (rounds : Nat) (breakpoints : TreeSet UInt64) (condition : Option Condition)
    (stoppedAt : Option (ContextId × UInt64)) : HypervisorAction (Option StopReason) :=
  fun hypervisor =>
    match Debugger.resume rounds ⟨hypervisor, breakpoints, condition, stoppedAt⟩ with
    | .ok reason debugger => .ok reason debugger.hypervisor
    | .error error debugger => .error error debugger.hypervisor

/-- What can happen to a hypervisor. -/
inductive Event where
  | operation (operation : Operation)
  | request (request : Request)
  | resume (rounds : Nat) (breakpoints : TreeSet UInt64) (condition : Option Condition)
      (stoppedAt : Option (ContextId × UInt64))

/-- Let an event happen. -/
def Event.perform : Event → HypervisorAction Unit
  | .operation asked => do let _ ← asked.perform
  | .request asked => do let _ ← asked.perform
  | .resume rounds breakpoints condition stoppedAt => do
      let _ ← resumeDebugger rounds breakpoints condition stoppedAt

/-! ## Requests of the level above -/

variable {α : Type} {origin : Hypervisor}

/-- Another record as a level. -/
def withRelay (hypervisor : Hypervisor) (relay : Relay) : Hypervisor :=
  { hypervisor with own := { hypervisor.own with relay } }

/-- A request of the level above is refused at once, or it is one to the machine below. -/
theorem halts_fromAbove {passage : Passage α} {request : InterpreterAction α}
    {failed : HostError → Hypervisor → Prop} {wanted : α → Hypervisor → Prop}
    (refused : ∀ error, passage.enter origin.own.relay = .error error → failed error origin)
    (admitted : ∀ entered, passage.enter origin.own.relay = .ok entered →
      Halts (fun error after => failed error (after.withRelay entered))
        (fun answer after => wanted answer (after.withRelay (passage.leave answer entered)))
        (below (Machine.pass passage request) origin)) :
    Halts failed wanted (fromAbove (Machine.pass passage request) origin) := by
  obtain ⟨⟨relays, interpreter⟩, own⟩ := origin
  simp only [fromAbove, asMachine, Machine.pass, Machine.descend]
  cases entry : passage.enter own.relay with
  | error error => exact refused error entry
  | ok entered =>
      have reached := admitted entered entry
      simp only [below, Machine.pass] at reached
      generalize Machine.descend passage request relays interpreter = outcome at reached ⊢
      obtain ⟨answer, relays, interpreter⟩ := outcome
      cases answer with
      | ok answer => exact reached
      | error error => exact reached

/-- A level asks for nothing but that a context is hosted. -/
theorem of_requireHosted {id : ContextId} {relay entered : Relay}
    (admitted : relay.requireHosted id = .ok entered) : id ∈ relay.hosted ∧ entered = relay := by
  unfold Relay.requireHosted at admitted
  split at admitted
  · rename_i hosted
    exact ⟨TreeSet.mem_iff_contains.mpr hosted, (Except.ok.inj admitted).symm⟩
  · cases admitted

/-- The memory of a context as the level above sees it. -/
theorem withMachine_withMemory (id : ContextId) (action : MemoryAction α) :
    origin.withMachine (Machine.withMemory id action origin.asMachine).2 =
      if origin.own.relay.hosts id = true then
        ⟨(origin.machine.withMemory id action).2, origin.own⟩
      else origin := by
  obtain ⟨⟨relays, interpreter⟩, own⟩ := origin
  cases hosted : own.relay.hosts id with
  | false => simp [asMachine, withMachine, Machine.withMemory, Machine.hosts, hosted]
  | true =>
      cases rest : relays.all (·.hosts id) <;>
        simp [asMachine, withMachine, Machine.withMemory, Machine.hosts, hosted, rest]

/-- A context that is changed by the level above. -/
theorem withMachine_modifyContext (id : ContextId) (change : Context → Context) :
    origin.withMachine (origin.asMachine.modifyContext id change) =
      if origin.own.relay.hosts id = true then
        ⟨origin.machine.modifyContext id change, origin.own⟩
      else origin := by
  obtain ⟨⟨relays, interpreter⟩, own⟩ := origin
  cases hosted : own.relay.hosts id with
  | false => simp [asMachine, withMachine, Machine.modifyContext, Machine.hosts, hosted]
  | true =>
      cases rest : relays.all (·.hosts id) <;>
        simp [asMachine, withMachine, Machine.modifyContext, Machine.hosts, hosted, rest]

variable {holds : Hypervisor → Prop} {id : ContextId}

/-- An access of the level above to the memory of a hosted context is one of the hypervisor, and any
other is none. -/
theorem kept_by_access {request : MemoryRequest} (given : holds origin)
    (memory : id ∈ origin.own.relay.hosted →
      holds (finalState (onMemory id request.perform origin))) :
    holds (finalState ((Request.access id request).perform origin)) := by
  show holds (origin.withMachine (Machine.withMemory id request.perform origin.asMachine).2)
  rw [withMachine_withMemory]
  split
  · rename_i hosted
    have kept := memory (TreeSet.mem_iff_contains.mpr hosted)
    unfold onMemory at kept
    dsimp only at kept
    split at kept
    all_goals
      rename_i same
      rw [same]
      exact kept
  · exact given

/-- The level above changes a context that is hosted for it, or none. -/
theorem kept_by_alter {change : Context → Context} (given : holds origin)
    (altered : id ∈ origin.own.relay.hosted →
      holds ⟨origin.machine.modifyContext id change, origin.own⟩) :
    holds (finalState ((Request.alter id change).perform origin)) := by
  show holds (origin.withMachine (origin.asMachine.modifyContext id change))
  rw [withMachine_modifyContext]
  split
  · rename_i hosted
    exact altered (TreeSet.mem_iff_contains.mpr hosted)
  · exact given

/-! ## The machine below -/

/-- The machine below does not turn to what the supervisor keeps itself. -/
theorem own_below (action : MachineAction α) (origin : Hypervisor) :
    (finalState (below action origin)).own = origin.own := by
  obtain ⟨machine, own⟩ := origin
  unfold below
  dsimp only
  cases action machine <;> rfl

/-- What holds whatever the machine below looks like, no request to it changes. -/
theorem keeps_below_of_own
    (apart : ∀ hypervisor machine, holds hypervisor → holds ⟨machine, hypervisor.own⟩)
    (action : MachineAction α) : Keeps holds (below action) := by
  intro origin given
  apply Halts.of_finalState
  have kept := apart origin (finalState (below action origin)).machine given
  rwa [← own_below action origin] at kept

/-! ## Looking -/

theorem keeps_requireOwned (id : ContextId) : Keeps holds (requireOwned id) :=
  .get_bind fun _ => .ite (.pure _) (.throw _)

theorem keeps_contextOf (id : ContextId) : Keeps holds (contextOf id) := by
  apply Keeps.get_bind
  intro look
  cases look.machine.context? id with
  | none => exact .throw _
  | some context => exact .pure context

/-! ## Debuggers -/

/-- Looking up a context keeps everything. -/
theorem keeps_pcOf (id : ContextId) : Keeps holds (pcOf id) :=
  (keeps_requireOwned id).bind fun _ => (keeps_contextOf id).bind fun _ => .pure _

/-- What debuggers rest on.  The contexts to which the queue comes are fit, and for a fit context a
property is kept when it is looked at, when it is stepped and when it is moved to the back of the
queue, with no errors but those that may happen. -/
structure Steered (fit : ContextId → Prop) (may : HostError → Prop) (holds : Hypervisor → Prop) :
    Prop where
  nextReady : ∀ origin, holds origin →
    Halts Never (fun next after => holds after ∧ ∀ id, next = some id → fit id) (nextReady origin)
  pcOf : ∀ {id}, fit id → Stays may holds (pcOf id)
  step : ∀ {id}, fit id → Stays may holds (step id)
  requeue : ∀ {id}, fit id → Stays may holds (requeue id)

variable {fit : ContextId → Prop} {may : HostError → Prop}

/-- A debugger keeps what holds of its hypervisor, with errors that may happen. -/
abbrev DebuggerStays (may : HostError → Prop) (holds : Hypervisor → Prop)
    (action : DebuggerAction α) : Prop :=
  Stays may (fun debugger => holds debugger.hypervisor) action

theorem debuggerStays_onHypervisor {action : HypervisorAction α} (stays : Stays may holds action) :
    DebuggerStays may holds (Debugger.onHypervisor action) := by
  rintro ⟨hypervisor, breakpoints, condition, stoppedAt⟩ given
  have reached := stays hypervisor given
  unfold Debugger.onHypervisor
  dsimp only
  generalize action hypervisor = result at reached
  cases result with
  | ok answer after => exact reached
  | error error after => exact reached

theorem debuggerStays_reasonBefore (id : ContextId) (pc : UInt64) :
    DebuggerStays may holds (Debugger.reasonBefore id pc) := by
  have remember : DebuggerStays may holds (Debugger.rememberStop (some (id, pc))) :=
    .modify fun _ given => given
  refine .get_bind fun look => .ite (remember.bind fun _ => .pure _) ?_
  refine Stays.bind ?_ fun _ => .ite (remember.bind fun _ => .pure _) (.pure none)
  rintro ⟨hypervisor, breakpoints, condition, stoppedAt⟩ given
  cases condition with
  | none => exact given
  | some condition => exact given

theorem debuggerStays_stateOf (id : ContextId) :
    DebuggerStays may holds (Debugger.stateOf? id) := by
  intro debugger given
  unfold Debugger.stateOf?
  cases snapshot id debugger.hypervisor with
  | ok answer after => exact given
  | error error after => exact given

namespace Steered

/-- The instruction of a turn, and what of the turn comes after it. -/
theorem instruction (steered : Steered fit may holds) (fits : fit id) {steps : Nat}
    {skip : Option (ContextId × UInt64)}
    (later : DebuggerStays may holds (Debugger.turn id steps skip)) :
    DebuggerStays may holds (do
      let _ ← Debugger.onHypervisor (Hypervisor.step id)
      match ← Debugger.stateOf? id with
      | some .ready => Debugger.turn id steps skip
      | some (.trapped fault pc) => return .stop (.trapped id fault pc)
      | _ => return .over skip) := by
  refine (debuggerStays_onHypervisor (steered.step fits)).bind fun _ => ?_
  refine (debuggerStays_stateOf id).bind fun state => ?_
  split
  · exact later
  · exact .pure _
  · exact .pure _

theorem turn (steered : Steered fit may holds) (fits : fit id) (steps : Nat)
    (skip : Option (ContextId × UInt64)) :
    DebuggerStays may holds (Debugger.turn id steps skip) := by
  induction steps generalizing skip with
  | zero => exact .pure _
  | succ steps ih =>
      refine (debuggerStays_onHypervisor (steered.pcOf fits)).bind fun pc => ?_
      refine .ite ?_ (steered.instruction fits (ih _))
      refine (debuggerStays_reasonBefore id pc).bind fun reason => ?_
      cases reason with
      | some reason => exact .pure _
      | none => exact steered.instruction fits (ih _)

theorem resumeFrom (steered : Steered fit may holds) (rounds : Nat)
    (skip : Option (ContextId × UInt64)) :
    DebuggerStays may holds (Debugger.resumeFrom rounds skip) := by
  induction rounds generalizing skip with
  | zero => exact .pure none
  | succ rounds ih =>
      intro debugger given
      -- The queue is the only one to tell which context comes next.
      have chosen : Halts Never
          (fun next debugger => holds debugger.hypervisor ∧ ∀ id, next = some id → fit id)
          (Debugger.onHypervisor Hypervisor.nextReady debugger) :=
        steered.nextReady debugger.hypervisor given
      refine (chosen.certain fun _ _ given => given).bind ?_
      rintro next debugger ⟨given, fits⟩
      cases next with
      | none => exact given
      | some id =>
          refine Stays.get_bind (fun look => ?_) debugger given
          refine (steered.turn (fits id rfl) _ skip).bind fun ended => ?_
          obtain reason | skip := ended
          · exact .pure _
          · have moved := debuggerStays_onHypervisor (steered.requeue (fits id rfl))
            exact moved.bind fun _ => ih skip

/-- **A debugger does nothing but look, step, drop from the front and rotate**, all that with the
contexts to which the queue comes. -/
theorem resumeDebugger (steered : Steered fit may holds) (rounds : Nat)
    (breakpoints : TreeSet UInt64) (condition : Option Condition)
    (stoppedAt : Option (ContextId × UInt64)) :
    Stays may holds (resumeDebugger rounds breakpoints condition stoppedAt) := by
  intro origin given
  have resumed : DebuggerStays may holds (Debugger.resume rounds) := by
    refine .get_bind fun look => Stays.bind ?_ fun _ => steered.resumeFrom rounds _
    exact .modify fun _ given => given
  have reached := resumed ⟨origin, breakpoints, condition, stoppedAt⟩ given
  unfold Hypervisor.resumeDebugger
  generalize Debugger.resume rounds ⟨origin, breakpoints, condition, stoppedAt⟩ = result at reached
  cases result with
  | ok reason after => exact reached
  | error error after => exact reached

end Steered

/-- A property that is kept by a step, and by dropping contexts from the front of the queue and
rotating it, whatever the context. -/
structure Sustained (holds : Hypervisor → Prop) : Prop where
  step : ∀ id, Keeps holds (step id)
  nextReady : Keeps holds nextReady
  requeue : ∀ id, Keeps holds (requeue id)

/-- What is kept whatever the context, debuggers keep. -/
theorem Sustained.resumeDebugger (sustained : Sustained holds) (rounds : Nat)
    (breakpoints : TreeSet UInt64) (condition : Option Condition)
    (stoppedAt : Option (ContextId × UInt64)) :
    Keeps holds (resumeDebugger rounds breakpoints condition stoppedAt) := by
  have steered : Steered (fun _ => True) (fun _ => True) holds := {
    nextReady := fun origin given => ⟨sustained.nextReady origin given, fun _ _ => trivial⟩
    pcOf := fun {id} _ => (keeps_pcOf id).stays
    step := fun {id} _ => (sustained.step id).stays
    requeue := fun {id} _ => (sustained.requeue id).stays }
  exact (steered.resumeDebugger rounds breakpoints condition stoppedAt).keeps

end NestedMachine.Hypervisor
