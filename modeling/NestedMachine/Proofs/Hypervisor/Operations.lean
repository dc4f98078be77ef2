import NestedMachine.Hypervisor.Scheduling
import NestedMachine.Proofs.Machine.Operations

/-!
# Operations of a hypervisor as data

Whoever drives a hypervisor loads and runs contexts, looks at them and at their memory, changes
settings, and records or replays system calls.  A sequence of such operations is a list, and what
they answer, each with the hypervisor after it, is the trail of the list.  An operation that fails
is followed by the next one, from where it failed.
-/

namespace NestedMachine.Hypervisor

set_option autoImplicit false

/-- What can be asked of a hypervisor. -/
inductive Operation where
  | load (image : Image) (arguments : List String)
  | run (rounds : Nat) (id : ContextId)
  | runAll (rounds : Nat)
  | scheduleOnce
  | slice (id : ContextId) (quantum : Nat)
  | step (id : ContextId)
  | kill (parent child : ContextId)
  | reap (id : ContextId)
  | finalizeTrapped (id : ContextId)
  | requeue (id : ContextId)
  | nextReady
  | snapshot (id : ContextId)
  | pcOf (id : ContextId)
  | exitStatusOf (id : ContextId)
  | access (id : ContextId) (request : MemoryRequest)
  | setMemoryMode (mode : MemoryMode)
  | setDebugTraps (debugTraps : Bool)
  | startRecording
  | startReplay (trace : Trace)
  | takeTrace

/-- The answer of a hypervisor. -/
inductive Answer where
  | done
  | context (id : ContextId)
  | ended (status : Option ExitStatus)
  | allEnded (statuses : Option (List (ContextId × ExitStatus)))
  | scheduled (id : Option ContextId)
  | trap (trap : Option Trap)
  | killed (alive : Bool)
  | snapshot (snapshot : Snapshot)
  | pc (pc : UInt64)
  | memory (answer : Except Fault MemoryAnswer)
  | trace (trace : Option Trace)

/-- Carry out an operation. -/
def Operation.perform : Operation → HypervisorAction Answer
  | .load image arguments => return .context (← Hypervisor.load image arguments)
  | .run rounds id => return .ended (← Hypervisor.run rounds id)
  | .runAll rounds => return .allEnded (← Hypervisor.runAll rounds)
  | .scheduleOnce => return .scheduled (← Hypervisor.scheduleOnce)
  | .slice id quantum => return .trap (some (← Hypervisor.slice id quantum))
  | .step id => return .trap (← Hypervisor.step id)
  | .kill parent child => return .killed (← Hypervisor.kill parent child)
  | .reap id => return .ended (← Hypervisor.reap id)
  | .finalizeTrapped id => return .ended (some (← Hypervisor.finalizeTrapped id))
  | .requeue id => do
      Hypervisor.requeue id
      return .done
  | .nextReady => return .scheduled (← Hypervisor.nextReady)
  | .snapshot id => return .snapshot (← Hypervisor.snapshot id)
  | .pcOf id => return .pc (← Hypervisor.pcOf id)
  | .exitStatusOf id => return .ended (← Hypervisor.exitStatusOf id)
  | .access id request => return .memory (← guestMemory id request.perform)
  | .setMemoryMode mode => do
      Hypervisor.setMemoryMode mode
      return .done
  | .setDebugTraps debugTraps => do
      Hypervisor.setDebugTraps debugTraps
      return .done
  | .startRecording => do
      Hypervisor.startRecording
      return .done
  | .startReplay trace => do
      Hypervisor.startReplay trace
      return .done
  | .takeTrace => return .trace (← Hypervisor.takeTrace)

/-- Whether an operation does nothing but drive contexts: it does not look at which pages are mapped
or at memory, and it does not turn to the recording. -/
def Operation.drives : Operation → Bool
  | .snapshot _ | .access .. | .startRecording | .startReplay _ | .takeTrace => false
  | _ => true

end NestedMachine.Hypervisor
