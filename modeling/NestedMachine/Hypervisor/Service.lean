import NestedMachine.Hypervisor.Lifecycle

/-!
# System calls

A context asks for a system call by an environment call with the number of the
call in one register and its arguments in others.  What follows is one of four
things: an answer, which the context finds in the register of its first argument
when it goes on behind the call; its end; a wait, after which the call is made
again; or a fault.

A call that cannot be done answers minus one.  Only when the pool runs dry while a
call touches guest memory does the whole operation fail.

Calls that are answered or end the context are recorded, or compared with the
record, as the hypervisor's recording says.  During a replay the calls that reach
the host are not made: their answers and the bytes they deliver come from the
trace.
-/

namespace NestedMachine.Hypervisor

set_option autoImplicit false

variable {α : Type}

/-- What follows a system call. -/
inductive Outcome where
  | answer (value : Int64)
  | exit (code : Int64)
  | block (reason : BlockReason)
  | fault (fault : Fault)
  deriving DecidableEq, Repr

/-- The answer of a call that cannot be done. -/
def Outcome.failure : Outcome := .answer (-1)

/-- The value that a record keeps of an outcome, if it completes the call. -/
def Outcome.result? : Outcome → Option Int64
  | .answer value => some value
  | .exit code => some code
  | .block _ | .fault _ => none

/-- A system call as its registers give it. -/
structure Call where
  pc : UInt64
  number : UInt64
  first : UInt64
  second : UInt64
  third : UInt64
  deriving DecidableEq, Repr

/-- The call that a context stands on. -/
def Call.ofContext (context : Context) : Call where
  pc := context.hart.pc
  number := context.register Register.a7
  first := context.register Register.a0
  second := context.register Register.a1
  third := context.register Register.a2

/-- Carry out an action on the memory of the calling context.  Running out of frames fails the
whole operation, and any other fault is an answer. -/
def onCallerMemory (id : ContextId) (call : Call) (action : MemoryAction α) :
    HypervisorAction (Except Fault α) := do
  match ← onMemory id action with
  | .error .outOfFrames => throw (.memoryExhausted id call.pc)
  | answer => return answer

/-- Put a request to the host. -/
def askHost (request : Host → HostAnswer α) : HypervisorAction (Except HostRefusal α)
  | ⟨machine, own⟩ =>
      let answer := request own.host
      .ok answer.result ⟨machine.addEntries answer.entries, { own with host := answer.host }⟩

/-! ## Calls that reach the host -/

/-- Read from a descriptor into the caller's memory.  The whole buffer has to be writable, even if
fewer bytes come. -/
def serveRead (id : ContextId) (call : Call) : HypervisorAction (Outcome × Bytes) := do
  let descriptor := call.first.toNat
  let buffer := call.second.toNat
  let size := call.third.toNat
  if size = 0 then return (.answer 0, [])
  let .ok () ← onCallerMemory id call (Memory.checkRange buffer size .write)
    | return (.failure, [])
  match ← askHost (Host.read descriptor size) with
  | .error refusal =>
      note (.readFailed descriptor refusal)
      return (.failure, [])
  | .ok bytes =>
      let .ok () ← onCallerMemory id call (Memory.writeBytes buffer bytes)
        | return (.failure, [])
      return (.answer (Int64.ofNat bytes.length), bytes)

/-- Write the caller's bytes to a descriptor. -/
def serveWrite (id : ContextId) (call : Call) : HypervisorAction Outcome := do
  let descriptor := call.first.toNat
  let size := call.third.toNat
  if size = 0 then return .answer 0
  let .ok bytes ← onCallerMemory id call (Memory.readBytes call.second.toNat size)
    | return .failure
  match ← askHost (Host.write descriptor bytes) with
  | .ok written => return .answer (Int64.ofNat written)
  | .error refusal =>
      note (.writeFailed descriptor refusal)
      return .failure

/-- Open the file whose path lies in the caller's memory. -/
def serveOpen (id : ContextId) (call : Call) : HypervisorAction Outcome := do
  let .ok bytes ← onCallerMemory id call (Memory.readString call.second.toNat maxPathLength)
    | return .failure
  let some path := Bytes.toString? bytes | return .failure
  match ← askHost (Host.openFile path (.ofNumber call.third.toNat)) with
  | .ok descriptor => return .answer (Int64.ofNat descriptor)
  | .error refusal =>
      note (.openFailed path refusal)
      return .failure

/-! ## Calls within the machine -/

/-- The context that a word names, unless the word is too large for a number of a context. -/
def contextNamed? (word : UInt64) : Option ContextId :=
  if word.toNat < UInt32.size then some word.toNat else none

/-- End a child of the caller. -/
def serveKill (id : ContextId) (call : Call) : HypervisorAction Outcome := do
  let some target := contextNamed? call.first | return .failure
  return if ← kill id target then .answer 0 else .failure

/-- Tell the caller's program break, or move it first.  A break that is refused stays. -/
def serveBreak (id : ContextId) (call : Call) : HypervisorAction Outcome := do
  let requested := call.first.toNat
  let action : MemoryAction (Nat × Option Fault) := do
    let current := (← get).space.layout.programBreak
    if requested = 0 then return (current, none)
    try return (← Memory.setProgramBreak requested, none)
    catch fault => return (current, some fault)
  match ← onMemory id action with
  | .ok (programBreak, refused) =>
      if let some fault := refused then note (.breakRefused requested fault)
      return .answer (Int64.ofNat programBreak)
  | .error fault => return .fault fault

/-- Copy the caller.  The copy goes on behind the call with zero for an answer. -/
def serveFork (id : ContextId) : HypervisorAction Outcome := do
  match ← below (Machine.fork id) with
  | none =>
      note (.forkRefused id)
      return .failure
  | some child =>
      count fun counters => { counters with forks := counters.forks + 1 }
      modifyOwn fun own => { own with owned := own.owned.insert child }
      modifyContext child fun context =>
        (context.withRegister Register.a0 0).withPc (context.hart.pc + 4)
      makeReady child
      note (.forked id child)
      return .answer (Int64.ofNat child)

/-- Which children a call waits for: any, one, or none at all. -/
inductive WaitTarget where
  | any
  | child (id : ContextId)
  | nobody
  deriving DecidableEq, Repr

namespace WaitTarget

/-- The target that a word names: any child if all its bits are set. -/
def ofWord (word : UInt64) : WaitTarget :=
  if word = UInt64.ofInt (-1) then .any
  else
    match contextNamed? word with
    | some id => .child id
    | none => .nobody

/-- Whether a child is waited for. -/
def includes : WaitTarget → ContextId → Bool
  | .any, _ => true
  | .child id, candidate => id == candidate
  | .nobody, _ => false

/-- The reason for which a context waits. -/
def reason : WaitTarget → BlockReason
  | .child id => .wait (some id)
  | _ => .wait none

end WaitTarget

/-- The first of some contexts that has ended, and how. -/
def firstEnded (machine : Machine) (ids : List ContextId) : Option (ContextId × ExitStatus) :=
  ids.findSome? fun id =>
    ((machine.context? id).bind Context.exitStatus).map fun status => (id, status)

/-- Wait for a child.  When one has ended, its exit code is stored where the caller asks for it,
and only then is it removed. -/
def serveWait (id : ContextId) (call : Call) : HypervisorAction Outcome := do
  let target := WaitTarget.ofWord call.first
  let statusAddress := call.second.toNat
  let children := (← contextOf id).children.toList.filter target.includes
  if children.isEmpty then return .failure
  match firstEnded (← get).machine children with
  | none => return .block target.reason
  | some (child, status) =>
      if statusAddress ≠ 0 then
        let .ok () ← onCallerMemory id call (Memory.store statusAddress status.code.toUInt64)
          | return .failure
      let _ ← reap child
      return .answer (Int64.ofNat child)

/-! ## Recording and replaying -/

/-- Hand out the next record of the trace that is replayed. -/
def nextRecord (call : Call) (replayer : Replayer) : HypervisorAction (Nat × TraceRecord) := do
  match replayer.next call.pc call.number with
  | .ok answer replayer =>
      modifyOwn fun own => { own with recording := .replay replayer }
      return answer
  | .error error _ => throw error

/-- Record a completed call, or compare it with its record. -/
def noteCompleted (call : Call) (outcome : Outcome) (data : Bytes) : HypervisorAction Unit := do
  let some result := outcome.result? | return
  match (← get).own.recording with
  | .off => return
  | .record trace =>
      let trace := trace.push ⟨call.pc, call.number, result, data⟩
      modifyOwn fun own => { own with recording := .record trace }
  | .replay replayer =>
      let (index, record) ← nextRecord call replayer
      if record.result ≠ result then
        throw (.replayMismatch index call.number.toNat record.result result)

/-- Keep what the caller writes during a replay. -/
def captureWrite (id : ContextId) (call : Call) (size : Nat) : HypervisorAction Unit := do
  let .ok bytes ← onCallerMemory id call (Memory.readBytes call.second.toNat size) | return
  modifyOwn fun own =>
    match own.recording with
    | .replay replayer =>
        { own with recording := .replay (replayer.capture call.first.toNat bytes) }
    | _ => own

/-- Deliver the recorded bytes of a read to the caller. -/
def deliverRead (id : ContextId) (call : Call) (data : Bytes) : HypervisorAction Unit := do
  match ← onCallerMemory id call (Memory.writeBytes call.second.toNat data) with
  | .ok () => return
  | .error fault => note (.replayedReadFailed call.second.toNat fault)

/-- Answer a call that reaches the host from the trace. -/
def replayHostCall (id : ContextId) (call : Call) (kind : SystemCall) (replayer : Replayer) :
    HypervisorAction Outcome := do
  let (_, record) ← nextRecord call replayer
  match kind with
  | .read => unless record.data.isEmpty do deliverRead id call record.data
  | .write => if 0 < record.result then captureWrite id call record.result.toInt.toNat
  | _ => pure ()
  return .answer record.result

/-! ## Service -/

/-- Make a call; the bytes are those that a read delivered. -/
def serve (id : ContextId) (call : Call) : Option SystemCall → HypervisorAction (Outcome × Bytes)
  | some .read => serveRead id call
  | some .write => return (← serveWrite id call, [])
  | some .openFile => return (← serveOpen id call, [])
  | some .exit => return (.exit call.first.toInt64, [])
  | some .yield => return (.answer 0, [])
  | some .kill => return (← serveKill id call, [])
  | some .setBreak => return (← serveBreak id call, [])
  | some .fork => return (← serveFork id, [])
  | some .wait => return (← serveWait id call, [])
  | none => return (.fault (.unknownSystemCall call.number.toNat), [])

/-- Make the call that a context stands on, or replay it. -/
def dispatch (id : ContextId) : HypervisorAction Outcome := do
  let call := Call.ofContext (← contextOf id)
  count fun counters => { counters with systemCalls := counters.systemCalls + 1 }
  note (.called id call.number.toNat call.pc.toNat)
  let kind := SystemCall.ofNumber? call.number.toNat
  match (← get).own.recording, kind with
  | .replay replayer, some kind =>
      if kind.reachesHost then replayHostCall id call kind replayer
      else perform id call (some kind)
  | _, kind => perform id call kind
where
  /-- Make a call and note its completion. -/
  perform (id : ContextId) (call : Call) (kind : Option SystemCall) :
      HypervisorAction Outcome := do
    let (outcome, data) ← serve id call kind
    noteCompleted call outcome data
    return outcome

/-- Serve the environment call that a context stands on. -/
def serviceCall (id : ContextId) : HypervisorAction Unit := do
  setState id (.blocked .systemCall)
  let pc := (← contextOf id).hart.pc
  match ← dispatch id with
  | .answer value =>
      modifyContext id fun context =>
        (context.withRegister Register.a0 value.toUInt64).withPc (pc + 4)
      makeReady id
  | .exit code =>
      modifyContext id (·.withPc (pc + 4))
      terminate id (.exited code)
  | .block reason => setState id (.blocked reason)
  | .fault fault => handleFault id fault pc

end NestedMachine.Hypervisor
