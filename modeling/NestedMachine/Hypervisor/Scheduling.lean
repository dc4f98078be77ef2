import NestedMachine.Hypervisor.Service

/-!
# Scheduling

The ready queue is served in turn: the context at its front runs for one quantum,
and the trap that ends its slice is handled before the next one runs.  The queue
may hold contexts that cannot run any more; they are dropped when they come to the
front.

Running until something has happened may never end, so such a run takes a number
of rounds, after which it gives no answer.
-/

namespace NestedMachine.Hypervisor

set_option autoImplicit false

/-! ## The queue -/

/-- Whether a context is there and ready. -/
def canRun (machine : Machine) (id : ContextId) : Bool :=
  match machine.context? id with
  | some context => context.state == .ready
  | none => false

/-- The next context that can run.  Contexts before it leave the queue. -/
def nextReady : HypervisorAction (Option ContextId) := do
  modify fun hypervisor =>
    let ready := hypervisor.own.ready.dropWhile fun id => !canRun hypervisor.machine id
    { hypervisor with own := { hypervisor.own with ready } }
  return (← get).own.ready.head?

/-- Move a context to the back of the queue if it can run, and out of it otherwise. -/
def requeue (id : ContextId) : HypervisorAction Unit := do
  dequeue id
  if canRun (← get).machine id then enqueue id

/-! ## Slices -/

/-- Handle the trap that ended a slice. -/
def handleTrap (id : ContextId) : Trap → HypervisorAction Unit
  | .timerInterrupt => do
      count fun counters => { counters with timerInterrupts := counters.timerInterrupts + 1 }
      makeReady id
  | .environmentCall => serviceCall id
  | .fault fault pc => handleFault id fault pc

/-- Run a ready context for at most `quantum` instructions and handle the trap. -/
def slice (id : ContextId) (quantum : Nat) : HypervisorAction Trap := do
  requireOwned id
  let context ← contextOf id
  if context.state ≠ .ready then
    throw (.schedulerInvariant id context.hart.pc (.scheduledIn context.state))
  setState id .running
  count fun counters => { counters with contextSwitches := counters.contextSwitches + 1 }
  note (.switched (← get).level id)
  let trap ← below (Machine.switch id quantum)
  handleTrap id trap
  return trap

/-- Run the next ready context for one quantum; the answer is which one it was. -/
def scheduleOnce : HypervisorAction (Option ContextId) := do
  match ← nextReady with
  | none => return none
  | some id =>
      modifyOwn fun own => { own with ready := own.ready.tail }
      let _ ← slice id (← get).own.quantum
      return some id

/-- Carry out one instruction of a context.  The answer is the trap, if there was one.  A context
that waits stays as it is. -/
def step (id : ContextId) : HypervisorAction (Option Trap) := do
  requireOwned id
  let context ← contextOf id
  match context.state with
  | .blocked _ => return none
  | .ready | .running =>
      setState id .running
      match ← below (Machine.switch id 1) with
      | .timerInterrupt =>
          makeReady id
          return none
      | trap =>
          handleTrap id trap
          return some trap
  | state => throw (.schedulerInvariant id context.hart.pc (.steppedIn state))

/-! ## Runs -/

/-- One round of a run that waits for the end of a context; the answer is how it ended, if it has.
A context that a fault has parked is ended. -/
def awaitOnce (id : ContextId) : HypervisorAction (Option ExitStatus) := do
  let context ← contextOf id
  match context.exitStatus, context.state with
  | some status, _ => return some status
  | none, .trapped _ _ => return some (← finalizeTrapped id)
  | none, _ =>
      if (← scheduleOnce).isNone then
        throw (.schedulerInvariant id context.hart.pc .nothingRunnable)
      return none

/-- Take rounds until a context has ended. -/
def await (id : ContextId) : Nat → HypervisorAction (Option ExitStatus)
  | 0 => return none
  | rounds + 1 => do
      match ← awaitOnce id with
      | some status => return some status
      | none => await id rounds

/-- Schedule all contexts until one has ended; the answer is how it ended. -/
def run (rounds : Nat) (id : ContextId) : HypervisorAction (Option ExitStatus) := do
  requireOwned id
  await id rounds

/-- Schedule until nothing can run any more; the answer is false if the rounds did not suffice. -/
def exhaust : Nat → HypervisorAction Bool
  | 0 => return false
  | rounds + 1 => do
      match ← scheduleOnce with
      | some _ => exhaust rounds
      | none => return true

/-- How each of some contexts ended, for those that have. -/
def endedAmong (machine : Machine) (ids : List ContextId) : List (ContextId × ExitStatus) :=
  ids.filterMap fun id =>
    ((machine.context? id).bind Context.exitStatus).map fun status => (id, status)

/-- Schedule until nothing can run any more; the answer is how the owned contexts ended. -/
def runAll (rounds : Nat) : HypervisorAction (Option (List (ContextId × ExitStatus))) := do
  if ← exhaust rounds then
    let hypervisor ← get
    return some (endedAmong hypervisor.machine hypervisor.own.owned.toList)
  else return none

end NestedMachine.Hypervisor
