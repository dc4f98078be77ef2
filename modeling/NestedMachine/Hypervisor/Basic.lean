import NestedMachine.Configuration.Basic
import NestedMachine.Host.Basic
import NestedMachine.Machine.Relay
import NestedMachine.Trace.Replayer

/-!
# Hypervisors

A hypervisor supervises contexts of the machine below it: it owns the contexts
that it loaded and those that they forked, queues the ones that can run, and
serves their system calls through its host.  At the same time it is the top of a
machine for a level above, for which it hosts other contexts.  What it keeps
itself is apart from the machine below, so that every operation on that machine is
an operation of the hypervisor that leaves the rest alone.

Operations are actions that answer or fail, and what they did before they failed
stays done.
-/

namespace NestedMachine

set_option autoImplicit false

/-- What a hypervisor keeps itself. -/
structure Supervisor where
  /-- Its record as a level: the contexts that it hosts for a level above, and its counters. -/
  relay : Relay
  /-- The contexts waiting to run, the next one first. -/
  ready : List ContextId
  /-- The contexts that it supervises. -/
  owned : Std.TreeSet ContextId
  /-- The live contexts whose parent has ended. -/
  orphans : Std.TreeSet ContextId
  /-- How many instructions a context may carry out in a row. -/
  quantum : Nat
  mode : MemoryMode
  stackSize : Nat
  host : Host
  recording : Recording
  /-- Whether faults park a context instead of ending it. -/
  debugTraps : Bool

/-- A machine with a supervisor on top. -/
structure Hypervisor where
  machine : Machine
  own : Supervisor

/-- An action on a hypervisor that answers or fails. -/
abbrev HypervisorAction := EStateM HostError Hypervisor

namespace Hypervisor

variable {α : Type}

/-! ## Building a stack -/

/-- A supervisor that owns nothing. -/
def newSupervisor (configuration : Configuration) (host : Host) : Supervisor where
  relay := .empty
  ready := []
  owned := ∅
  orphans := ∅
  quantum := max configuration.quantum 1
  mode := configuration.mode
  stackSize := configuration.stackSize
  host
  recording := .off
  debugTraps := false

/-- The interpreter at the bottom of a stack. -/
def newInterpreter (configuration : Configuration) (journal : Journal) : Interpreter :=
  .empty configuration.frames configuration.traceInstructions journal

/-- A stack of `level` levels, of which only the top one talks to the host. -/
def nested (configuration : Configuration) (host : Host) (journal : Journal) (level : Nat) :
    Except HostError Hypervisor :=
  match level with
  | 0 => .error (.invalidLevel 0)
  | below + 1 =>
      let own := newSupervisor configuration host
      let machine := Machine.ofLevels below (newInterpreter configuration journal)
      .ok {
        machine := machine.note (.stackBuilt level configuration.frames own.quantum)
        own }

/-- The stack that a configuration asks for. -/
def build (configuration : Configuration) (host : Host) (journal : Journal) :
    Except HostError Hypervisor :=
  nested configuration host journal configuration.level

/-- The number of the hypervisor's level. -/
def level (hypervisor : Hypervisor) : Nat := hypervisor.machine.level + 1

/-! ## The machine below -/

/-- An action on the machine below. -/
def below (action : MachineAction α) : HypervisorAction α
  | ⟨machine, own⟩ =>
      match action machine with
      | .ok answer machine => .ok answer ⟨machine, own⟩
      | .error error machine => .error error ⟨machine, own⟩

/-- Change what the hypervisor keeps itself. -/
def modifyOwn (change : Supervisor → Supervisor) : HypervisorAction Unit :=
  modify fun hypervisor => { hypervisor with own := change hypervisor.own }

/-- Count something. -/
def count (change : Counters → Counters) : HypervisorAction Unit :=
  modifyOwn fun own => { own with relay := own.relay.count change }

/-- Note what happens. -/
def note (note : Note) : HypervisorAction Unit :=
  modify fun hypervisor => { hypervisor with machine := hypervisor.machine.note note }

/-- The context of a number. -/
def contextOf (id : ContextId) : HypervisorAction Context := do
  match (← get).machine.context? id with
  | some context => return context
  | none => throw (.unknownContext id)

/-- Change the context of a number. -/
def modifyContext (id : ContextId) (change : Context → Context) : HypervisorAction Unit := do
  let _ ← contextOf id
  modify fun hypervisor =>
    { hypervisor with machine := hypervisor.machine.modifyContext id change }

/-- Move a context into a state. -/
def setState (id : ContextId) (state : ContextState) : HypervisorAction Unit :=
  modifyContext id (·.withState state)

/-- Fail unless the hypervisor owns a context. -/
def requireOwned (id : ContextId) : HypervisorAction Unit := do
  unless (← get).own.owned.contains id do throw (.unknownContext id)

/-- Carry out an action on the memory of a context.  The answer can be the fault of the action. -/
def onMemory (id : ContextId) (action : MemoryAction α) : HypervisorAction (Except Fault α)
  | ⟨machine, own⟩ =>
      match machine.withMemory id action with
      | (some answer, machine) => .ok answer ⟨machine, own⟩
      | (none, machine) => .error (.unknownContext id) ⟨machine, own⟩

/-- Take a context out of the ready queue. -/
def dequeue (id : ContextId) : HypervisorAction Unit :=
  modifyOwn fun own => { own with ready := own.ready.filter (· != id) }

/-- Put a context at the back of the ready queue. -/
def enqueue (id : ContextId) : HypervisorAction Unit :=
  modifyOwn fun own => { own with ready := own.ready ++ [id] }

/-! ## Settings -/

/-- Set the memory mode of the contexts that are loaded from now on. -/
def setMemoryMode (mode : MemoryMode) : HypervisorAction Unit :=
  modifyOwn fun own => { own with mode }

/-- Set whether faults park a context instead of ending it. -/
def setDebugTraps (debugTraps : Bool) : HypervisorAction Unit :=
  modifyOwn fun own => { own with debugTraps }

/-- Record the system calls that are completed from now on. -/
def startRecording : HypervisorAction Unit :=
  modifyOwn fun own => { own with recording := .record .empty }

/-- Replay system calls from a trace. -/
def startReplay (trace : Trace) : HypervisorAction Unit :=
  modifyOwn fun own => { own with recording := .replay (.start trace) }

/-- Stop recording and hand out the trace; nothing happens unless calls are recorded. -/
def takeTrace : HypervisorAction (Option Trace) := do
  match (← get).own.recording with
  | .record trace =>
      modifyOwn fun own => { own with recording := .off }
      return some trace
  | _ => return none

/-! ## Looking at contexts -/

/-- What can be seen of a context. -/
structure Snapshot where
  id : ContextId
  registers : Registers
  pc : UInt64
  state : ContextState
  exitStatus : Option ExitStatus
  instructions : Nat
  mappedPages : Nat
  deriving DecidableEq, Repr

/-- What can be seen of an owned context. -/
def snapshot (id : ContextId) : HypervisorAction Snapshot := do
  requireOwned id
  let context ← contextOf id
  return {
    id
    registers := context.hart.registers
    pc := context.hart.pc
    state := context.state
    exitStatus := context.exitStatus
    instructions := context.instructions
    mappedPages := context.space.mappedPages }

/-- The program counter of an owned context. -/
def pcOf (id : ContextId) : HypervisorAction UInt64 := do
  requireOwned id
  return (← contextOf id).hart.pc

/-- How an owned context ended, if it has. -/
def exitStatusOf (id : ContextId) : HypervisorAction (Option ExitStatus) := do
  requireOwned id
  return (← contextOf id).exitStatus

/-- Carry out an action on the memory of an owned context. -/
def guestMemory (id : ContextId) (action : MemoryAction α) : HypervisorAction (Except Fault α) := do
  requireOwned id
  onMemory id action

/-! ## The hypervisor as a machine for the level above -/

/-- The machine that the level above sees. -/
def asMachine (hypervisor : Hypervisor) : Machine :=
  ⟨hypervisor.own.relay :: hypervisor.machine.relays, hypervisor.machine.interpreter⟩

/-- The hypervisor after its machine has changed. -/
def withMachine (hypervisor : Hypervisor) (machine : Machine) : Hypervisor where
  machine := ⟨machine.relays.tail, machine.interpreter⟩
  own := { hypervisor.own with relay := machine.relays.headD hypervisor.own.relay }

/-- An action of the level above. -/
def fromAbove (action : MachineAction α) : HypervisorAction α := fun hypervisor =>
  match action hypervisor.asMachine with
  | .ok answer machine => .ok answer (hypervisor.withMachine machine)
  | .error error machine => .error error (hypervisor.withMachine machine)

/-- What each level has counted, the highest first, with the number of the level. -/
def allCounters (hypervisor : Hypervisor) : List (Nat × Counters) :=
  hypervisor.asMachine.allCounters

end Hypervisor

end NestedMachine
