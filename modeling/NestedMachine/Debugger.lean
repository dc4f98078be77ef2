import NestedMachine.Hypervisor.Scheduling

/-!
# Debugging

A debugger drives a hypervisor one instruction at a time, in the order in which the
hypervisor itself would schedule.  It stops before an instruction whose address is
a breakpoint or whose context and address its predicate accepts, and after one that
a fault has parked.  Going on after a stop carries out the instruction stopped at
before anything is checked again, unless the caller has stepped by hand meanwhile.

The predicate is an automaton: it sees the contexts and addresses that it is asked
about, and may change with each question.
-/

namespace NestedMachine

set_option autoImplicit false

/-- Why a debugger has stopped. -/
inductive StopReason where
  /-- A context stands at a breakpoint. -/
  | breakpoint (id : ContextId) (pc : UInt64)
  /-- The predicate accepts the context and its program counter. -/
  | predicate (id : ContextId) (pc : UInt64)
  /-- A fault has parked a context. -/
  | trapped (id : ContextId) (fault : Fault) (pc : UInt64)
  /-- Nothing can run. -/
  | idle
  deriving DecidableEq, Repr

/-- The conditions that a debugger can ask about. -/
inductive Condition where
  /-- The program counter has this value. -/
  | pcIs (pc : UInt64)
  /-- The program counter has this value or a greater one. -/
  | pcFrom (pc : UInt64)
  /-- The context has this number. -/
  | contextIs (id : Nat)
  /-- Every question of this period is answered with yes; `asked` counts the questions. -/
  | every (period asked : Nat)
  /-- Any other rule, which may go by all questions so far, the last one first. -/
  | rule (accepts : List (ContextId × UInt64) → Bool) (asked : List (ContextId × UInt64))

/-- The answer of a condition, and the condition afterwards. -/
def Condition.ask (condition : Condition) (id : ContextId) (pc : UInt64) : Bool × Condition :=
  match condition with
  | .pcIs wanted => (pc == wanted, condition)
  | .pcFrom least => (decide (least ≤ pc), condition)
  | .contextIs wanted => (id == wanted, condition)
  | .every period asked => ((asked + 1) % period == 0, .every period (asked + 1))
  | .rule accepts asked => (accepts ((id, pc) :: asked), .rule accepts ((id, pc) :: asked))

/-- A hypervisor that is driven one instruction at a time. -/
structure Debugger where
  hypervisor : Hypervisor
  breakpoints : Std.TreeSet UInt64
  condition : Option Condition
  /-- Where the last stop was, if nothing was done since. -/
  stoppedAt : Option (ContextId × UInt64)

/-- An action on a debugger that answers or fails. -/
abbrev DebuggerAction := EStateM HostError Debugger

namespace Debugger

variable {α : Type}

/-- A debugger for a hypervisor, whose faults park contexts from now on. -/
def attach (hypervisor : Hypervisor) : Debugger where
  hypervisor := { hypervisor with own := { hypervisor.own with debugTraps := true } }
  breakpoints := ∅
  condition := none
  stoppedAt := none

/-- An action of the hypervisor. -/
def onHypervisor (action : HypervisorAction α) : DebuggerAction α
  | ⟨hypervisor, breakpoints, condition, stoppedAt⟩ =>
      match action hypervisor with
      | .ok answer hypervisor => .ok answer ⟨hypervisor, breakpoints, condition, stoppedAt⟩
      | .error error hypervisor => .error error ⟨hypervisor, breakpoints, condition, stoppedAt⟩

/-! ## Stops -/

/-- Set a breakpoint. -/
def addBreakpoint (pc : UInt64) : DebuggerAction Unit :=
  modify fun debugger => { debugger with breakpoints := debugger.breakpoints.insert pc }

/-- Remove a breakpoint; the answer is whether it was set. -/
def removeBreakpoint (pc : UInt64) : DebuggerAction Bool :=
  modifyGet fun debugger =>
    (debugger.breakpoints.contains pc,
      { debugger with breakpoints := debugger.breakpoints.erase pc })

/-- Set the predicate, or clear it. -/
def setCondition (condition : Option Condition) : DebuggerAction Unit :=
  modify fun debugger => { debugger with condition }

/-- Remember where the debugger stopped. -/
def rememberStop (stoppedAt : Option (ContextId × UInt64)) : DebuggerAction Unit :=
  modify fun debugger => { debugger with stoppedAt }

/-- Ask the predicate. -/
def askCondition (id : ContextId) (pc : UInt64) : DebuggerAction Bool :=
  modifyGet fun debugger =>
    match debugger.condition with
    | some condition =>
        let (answer, condition) := condition.ask id pc
        (answer, { debugger with condition := some condition })
    | none => (false, debugger)

/-- Why to stop before the next instruction of a context, if there is a reason. -/
def reasonBefore (id : ContextId) (pc : UInt64) : DebuggerAction (Option StopReason) := do
  if (← get).breakpoints.contains pc then
    rememberStop (some (id, pc))
    return some (.breakpoint id pc)
  else if ← askCondition id pc then
    rememberStop (some (id, pc))
    return some (.predicate id pc)
  else return none

/-! ## Steps and runs -/

/-- Carry out one instruction of a context. -/
def step (id : ContextId) : DebuggerAction (Option Trap) := do
  rememberStop none
  onHypervisor (Hypervisor.step id)

/-- What a turn of a context leaves: a stop, or the place that still has to be passed over. -/
inductive TurnEnd where
  | stop (reason : StopReason)
  | over (skip : Option (ContextId × UInt64))

/-- The state of an owned context, if it can be seen. -/
def stateOf? (id : ContextId) : DebuggerAction (Option ContextState) := fun debugger =>
  match Hypervisor.snapshot id debugger.hypervisor with
  | .ok snapshot _ => .ok (some snapshot.state) debugger
  | .error _ _ => .ok none debugger

/-- Step a context for at most the given number of instructions, as long as it stays ready.  The
place in `skip` is passed over once without a check. -/
def turn (id : ContextId) : Nat → Option (ContextId × UInt64) → DebuggerAction TurnEnd
  | 0, skip => return .over skip
  | steps + 1, skip => do
      let pc ← onHypervisor (Hypervisor.pcOf id)
      let skipped := skip == some (id, pc)
      if !skipped then
        if let some reason ← reasonBefore id pc then return .stop reason
      let skip := if skipped then none else skip
      let _ ← onHypervisor (Hypervisor.step id)
      match ← stateOf? id with
      | some .ready => turn id steps skip
      | some (.trapped fault pc) => return .stop (.trapped id fault pc)
      | _ => return .over skip

/-- Give contexts their turns until there is a reason to stop; no answer if the rounds did not
suffice. -/
def resumeFrom : Nat → Option (ContextId × UInt64) → DebuggerAction (Option StopReason)
  | 0, _ => return none
  | rounds + 1, skip => do
      match ← onHypervisor Hypervisor.nextReady with
      | none => return some .idle
      | some id =>
          match ← turn id (← get).hypervisor.own.quantum skip with
          | .stop reason => return some reason
          | .over skip =>
              onHypervisor (Hypervisor.requeue id)
              resumeFrom rounds skip

/-- Go on until there is a reason to stop. -/
def resume (rounds : Nat) : DebuggerAction (Option StopReason) := do
  let skip := (← get).stoppedAt
  rememberStop none
  resumeFrom rounds skip

/-! ## Looking -/

/-- The registers and the program counter of a context. -/
def hartOf (id : ContextId) : DebuggerAction Hart := do
  let snapshot ← onHypervisor (Hypervisor.snapshot id)
  return ⟨snapshot.registers, snapshot.pc⟩

/-- The line that shows the instruction at which a context stands. -/
def listing (id : ContextId) : DebuggerAction String := do
  let pc ← onHypervisor (Hypervisor.pcOf id)
  match ← onHypervisor (Hypervisor.guestMemory id (Memory.fetch pc.toNat)) with
  | .ok word => return word.listing pc.toNat
  | .error fault => return Numeral.paddedHex 8 pc.toNat ++ ": <" ++ fault.message ++ ">"

/-- The fault that has parked a context, if one has. -/
def trapOf (id : ContextId) : DebuggerAction (Option (Fault × UInt64)) := do
  match (← onHypervisor (Hypervisor.snapshot id)).state with
  | .trapped fault pc => return some (fault, pc)
  | _ => return none

/-- End a context that a fault has parked. -/
def terminate (id : ContextId) : DebuggerAction ExitStatus :=
  onHypervisor (Hypervisor.finalizeTrapped id)

end Debugger

end NestedMachine
