import NestedMachine.Hypervisor.Basic

/-!
# How contexts begin and end

A loaded context is owned and queued.  A context ends by its own exit, by a fault
or by its parent's kill.  Its frames go back at once.  Its children lose their
parent: those that have ended are removed, since nobody can ask for them any more,
and those that live become orphans, which are removed when they end.  A context
that ended otherwise stays until its parent has asked for its exit status, and a
parent that waits for it is made ready to do so.
-/

namespace NestedMachine.Hypervisor

set_option autoImplicit false

/-! ## Readiness -/

/-- Make a context ready, and queue it unless it is queued already. -/
def makeReady (id : ContextId) : HypervisorAction Unit := do
  setState id .ready
  unless (← get).own.ready.contains id do enqueue id

/-- Load a program as a new context and queue it. -/
def load (image : Image) (arguments : List String) : HypervisorAction ContextId := do
  let own := (← get).own
  let options : LoadOptions := ⟨own.mode, own.stackSize, arguments⟩
  let id ← below (Machine.create image options)
  modifyOwn fun own => { own with owned := own.owned.insert id }
  enqueue id
  count fun counters => { counters with contextsCreated := counters.contextsCreated + 1 }
  note (.levelLoaded (← get).level id)
  return id

/-! ## Ends -/

/-- Remove a context altogether. -/
def discard (id : ContextId) : HypervisorAction Unit := do
  below (Machine.destroy id)
  modifyOwn fun own =>
    { own with owned := own.owned.erase id, orphans := own.orphans.erase id }
  dequeue id

/-- Whether the end of a child is what a context waits for. -/
def waitsFor (state : ContextState) (child : ContextId) : Bool :=
  match state with
  | .blocked (.wait none) => true
  | .blocked (.wait (some target)) => target == child
  | _ => false

/-- Make a parent ready if it waits for the child that has just ended. -/
def wakeParent (parent child : ContextId) : HypervisorAction Unit := do
  match (← get).machine.context? parent with
  | some context =>
      if waitsFor context.state child then
        note (.parentWoken child parent)
        makeReady parent
  | none => pure ()

/-- Cut the link from a child to its ending parent. -/
def disown (child : ContextId) : HypervisorAction Unit := do
  match (← get).machine.context? child with
  | some context =>
      modifyContext child fun context => { context with parent := none }
      if context.hasExited then discard child
      else modifyOwn fun own => { own with orphans := own.orphans.insert child }
  | none => pure ()

/-- Cut the links from children to their ending parent, in order. -/
def disownAll : List ContextId → HypervisorAction Unit
  | [] => pure ()
  | child :: rest => do
      disown child
      disownAll rest

/-- Nobody asks for an orphan, so it is removed; a parent may be waiting for any other context. -/
def settle (id : ContextId) (parent : Option ContextId) : HypervisorAction Unit := do
  if (← get).own.orphans.contains id then
    modifyOwn fun own => { own with orphans := own.orphans.erase id }
    discard id
  else
    match parent with
    | some parent => wakeParent parent id
    | none => pure ()

/-- End a context. -/
def terminate (id : ContextId) (status : ExitStatus) : HypervisorAction Unit := do
  let released ← below (Machine.release id)
  let context ← contextOf id
  modifyContext id fun context => { context.terminate status with children := ∅ }
  dequeue id
  count fun counters => { counters with exits := counters.exits + 1 }
  note (.terminated id status released)
  disownAll context.children.toList
  settle id context.parent

/-- A fault parks its context for inspection, if traps are debugged, and ends it otherwise. -/
def handleFault (id : ContextId) (fault : Fault) (pc : UInt64) : HypervisorAction Unit := do
  count fun counters => { counters with faults := counters.faults + 1 }
  note (.faulted id fault pc)
  if (← get).own.debugTraps then
    setState id (.trapped fault pc)
    dequeue id
  else terminate id (.faulted fault pc)

/-! ## Ends that others bring about -/

/-- End a child on behalf of its parent.  The answer is false, and nothing happens, unless it is a
live child of that parent. -/
def kill (parent child : ContextId) : HypervisorAction Bool := do
  if !(← get).own.owned.contains child then return false
  let context ← contextOf child
  if context.parent ≠ some parent ∨ context.hasExited then return false
  terminate child .killed
  return true

/-- Remove a context that has ended; the answer is how.  A context that has not ended stays. -/
def reap (id : ContextId) : HypervisorAction (Option ExitStatus) := do
  requireOwned id
  let status := (← contextOf id).exitStatus
  if status.isSome then discard id
  return status

/-- End a context that a fault has parked. -/
def finalizeTrapped (id : ContextId) : HypervisorAction ExitStatus := do
  requireOwned id
  let context ← contextOf id
  match context.state with
  | .trapped fault pc =>
      terminate id (.faulted fault pc)
      return .faulted fault pc
  | state => throw (.schedulerInvariant id context.hart.pc (.untrapped state))

end NestedMachine.Hypervisor
