import NestedMachine.Proofs.Hypervisor.Following

/-!
# System calls that follow each other

Two runs that stand on equal terms turn to the same host, and record or replay the same.  A pursuit
of such runs respects calls as well (`RespectsCalls`): related hypervisors hold the same recording,
and requests to the host and changes of the recording follow each other.

Then every system call follows, whether it is made, recorded or replayed (`follows_dispatch`).
Where queues are the same as well (`RespectsHosts`), so does every operation that does not look at
memory from outside (`follows_operation`).  A run and its replay do not stand on equal terms, so
that they are no case of this.
-/

namespace NestedMachine.Hypervisor

set_option autoImplicit false

variable {α β : Type} {pursuit : Pursuit HostError Hypervisor Hypervisor}
  {alike : Note → Note → Prop} {same : α → β → Prop}

/-- Change what is recorded or replayed. -/
def changeRecording (change : Recording → Recording) : HypervisorAction Unit :=
  modifyOwn fun own => { own with recording := change own.recording }

/-- What a replay keeps of the bytes that are written. -/
def captureIn (call : Call) (bytes : Bytes) : Recording → Recording
  | .replay replayer => .replay (replayer.capture call.first.toNat bytes)
  | other => other

theorem captureWrite_eq (id : ContextId) (call : Call) (size : Nat) :
    captureWrite id call size = (do
      let .ok bytes ← onCallerMemory id call (Memory.readBytes call.second.toNat size) | return
      changeRecording (captureIn call bytes)) := by
  refine congrArg (onCallerMemory id call _ >>= ·) (funext fun found => ?_)
  cases found with
  | error fault => rfl
  | ok bytes =>
      refine congrArg modifyOwn (funext fun own => ?_)
      obtain ⟨_, _, _, _, _, _, _, _, recording, _⟩ := own
      cases recording <;> rfl

/-- The primitive operations that serve the contexts of related hypervisors follow each other, and
so do steps of a replay. -/
structure RespectsReplays (pursuit : Pursuit HostError Hypervisor Hypervisor)
    (alike : Note → Note → Prop) : Prop extends RespectsService pursuit alike where
  goesOn : ∀ change, (∀ replayer, (change (.replay replayer)).isReplaying = true) →
    pursuit.Follows Eq (changeRecording change) (changeRecording change)

/-- The primitive operations that serve the contexts of related hypervisors follow each other, and
so do their requests to the host and what they do about recordings. -/
structure RespectsCalls (pursuit : Pursuit HostError Hypervisor Hypervisor)
    (alike : Note → Note → Prop) : Prop extends RespectsService pursuit alike where
  recording : ∀ left right, pursuit.related left right → left.own.recording = right.own.recording
  askHost : ∀ {α : Type} (request : Host → HostAnswer α),
    pursuit.Follows Eq (askHost request) (askHost request)
  changeRecording : ∀ change,
    pursuit.Follows Eq (changeRecording change) (changeRecording change)

/-- All primitive operations of related hypervisors follow each other, and so do their requests to
the host and what they do about recordings. -/
structure RespectsHosts (pursuit : Pursuit HostError Hypervisor Hypervisor)
    (alike : Note → Note → Prop) : Prop extends Respects pursuit alike, RespectsCalls pursuit alike

/-- Whether an operation keeps away from memory and from what is mapped: it drives contexts, or it
turns to the recording. -/
def Operation.keepsAway : Operation → Bool
  | .snapshot _ | .access .. => false
  | _ => true

/-- Compare the result of a call with its record. -/
def compareWithRecord (call : Call) (result : Int64) (replayer : Replayer) :
    HypervisorAction Unit := do
  let (index, record) ← nextRecord call replayer
  if record.result ≠ result then
    throw (.replayMismatch index call.number.toNat record.result result)

/-! ## Records that are replayed -/

namespace RespectsReplays

theorem follows_nextRecord (respects : RespectsReplays pursuit alike) (call : Call)
    (replayer : Replayer) :
    pursuit.Follows Eq (nextRecord call replayer) (nextRecord call replayer) := by
  unfold nextRecord
  cases replayer.next call.pc call.number with
  | ok answer after =>
      exact (respects.goesOn (fun _ => .replay after) fun _ => rfl).bind_eq fun _ => .pure rfl
  | error error after => exact .throw error

theorem follows_compare (respects : RespectsReplays pursuit alike) (call : Call) (result : Int64)
    (replayer : Replayer) : pursuit.Follows Eq (compareWithRecord call result replayer)
      (compareWithRecord call result replayer) :=
  (respects.follows_nextRecord call replayer).bind_eq fun _ =>
    .ite (fun _ => .throw _) fun _ => .pure rfl

theorem follows_captureWrite (respects : RespectsReplays pursuit alike) (id : ContextId)
    (call : Call) (size : Nat) :
    pursuit.Follows Eq (captureWrite id call size) (captureWrite id call size) := by
  rw [captureWrite_eq]
  refine (respects.callerMemory id call (.readBytes _ _)).bind_eq ?_
  intro found
  cases found with
  | error fault => exact .pure rfl
  | ok bytes => exact respects.goesOn (captureIn call bytes) fun _ => rfl

theorem follows_deliverRead (respects : RespectsReplays pursuit alike) (id : ContextId)
    (call : Call) (data : Bytes) :
    pursuit.Follows Eq (deliverRead id call data) (deliverRead id call data) := by
  refine (respects.callerMemory id call (.writeBytes _ _)).bind_eq ?_
  intro delivered
  cases delivered with
  | ok _ => exact .pure rfl
  | error fault => exact respects.note (respects.refl _)

/-- **Calls that reach the host follow each other if they are replayed.** -/
theorem follows_replayHostCall (respects : RespectsReplays pursuit alike) (id : ContextId)
    (call : Call) (kind : SystemCall) (replayer : Replayer) :
    pursuit.Follows Eq (replayHostCall id call kind replayer)
      (replayHostCall id call kind replayer) := by
  apply (respects.follows_nextRecord call replayer).bind_eq
  intro found
  obtain ⟨index, record⟩ := found
  cases kind with
  | read =>
      refine .ite (fun _ => .pure rfl) fun _ => ?_
      exact (respects.follows_deliverRead id call _).bind_eq fun _ => .pure rfl
  | write =>
      refine .ite (fun _ => ?_) fun _ => .pure rfl
      exact (respects.follows_captureWrite id call _).bind_eq fun _ => .pure rfl
  | _ => exact .pure rfl

end RespectsReplays

namespace RespectsCalls

theorem replays (respects : RespectsCalls pursuit alike) : RespectsReplays pursuit alike where
  toRespectsService := respects.toRespectsService
  goesOn change _ := respects.changeRecording change

/-- The recording may be looked at. -/
theorem recording_bind (respects : RespectsCalls pursuit alike)
    {next : Hypervisor → HypervisorAction α} {next' : Hypervisor → HypervisorAction β}
    (rest : ∀ left right, left.own.recording = right.own.recording →
      pursuit.Follows same (next left) (next' right)) :
    pursuit.Follows same (get >>= next) (get >>= next') := by
  refine .get_bind ?_ respects.recording rest
  exact fun _ => rfl

/-! ## Calls that reach the host -/

theorem follows_serveRead (respects : RespectsCalls pursuit alike) (id : ContextId) (call : Call) :
    pursuit.Follows Eq (serveRead id call) (serveRead id call) := by
  refine .ite (fun _ => .pure rfl) fun _ => ?_
  refine (respects.callerMemory id call (.checkRange _ _ _)).bind_eq ?_
  intro checked
  cases checked with
  | error fault => exact .pure rfl
  | ok _ =>
      refine (respects.askHost _).bind_eq ?_
      intro answer
      cases answer with
      | error refusal => exact (respects.note (respects.refl _)).bind_eq fun _ => .pure rfl
      | ok bytes =>
          refine (respects.callerMemory id call (.writeBytes _ _)).bind_eq ?_
          intro written
          cases written with
          | ok _ => exact .pure rfl
          | error fault => exact .pure rfl

theorem follows_serveWrite (respects : RespectsCalls pursuit alike) (id : ContextId)
    (call : Call) : pursuit.Follows Eq (serveWrite id call) (serveWrite id call) := by
  refine .ite (fun _ => .pure rfl) fun _ => ?_
  refine (respects.callerMemory id call (.readBytes _ _)).bind_eq ?_
  intro found
  cases found with
  | error fault => exact .pure rfl
  | ok bytes =>
      refine (respects.askHost _).bind_eq ?_
      intro answer
      cases answer with
      | ok written => exact .pure rfl
      | error refusal => exact (respects.note (respects.refl _)).bind_eq fun _ => .pure rfl

theorem follows_serveOpen (respects : RespectsCalls pursuit alike) (id : ContextId) (call : Call) :
    pursuit.Follows Eq (serveOpen id call) (serveOpen id call) := by
  refine (respects.callerMemory id call (.readString _ _)).bind_eq ?_
  intro found
  cases found with
  | error fault => exact .pure rfl
  | ok bytes =>
      dsimp only
      cases Bytes.toString? bytes with
      | none => exact .pure rfl
      | some path =>
          refine (respects.askHost _).bind_eq ?_
          intro answer
          cases answer with
          | ok descriptor => exact .pure rfl
          | error refusal => exact (respects.note (respects.refl _)).bind_eq fun _ => .pure rfl

theorem follows_serve (respects : RespectsCalls pursuit alike) (id : ContextId) (call : Call)
    (kind : Option SystemCall) :
    pursuit.Follows Eq (serve id call kind) (serve id call kind) := by
  cases kind with
  | none => exact .pure rfl
  | some kind =>
      cases kind with
      | read => exact respects.follows_serveRead id call
      | write => exact (respects.follows_serveWrite id call).bind_eq fun _ => .pure rfl
      | openFile => exact (respects.follows_serveOpen id call).bind_eq fun _ => .pure rfl
      | exit => exact .pure rfl
      | yield => exact .pure rfl
      | kill => exact (respects.serveKill id call).bind_eq fun _ => .pure rfl
      | setBreak => exact (respects.serveBreak id call).bind_eq fun _ => .pure rfl
      | fork => exact (respects.serveFork id).bind_eq fun _ => .pure rfl
      | wait => exact (respects.serveWait id call).bind_eq fun _ => .pure rfl

/-! ## Records -/

theorem follows_noteCompleted (respects : RespectsCalls pursuit alike) (call : Call)
    (outcome : Outcome) (data : Bytes) : pursuit.Follows Eq (noteCompleted call outcome data)
      (noteCompleted call outcome data) := by
  unfold noteCompleted
  cases outcome.result? with
  | none => exact .pure rfl
  | some result =>
      apply respects.recording_bind
      intro left right recording
      rw [recording]
      cases right.own.recording with
      | off => exact .pure rfl
      | record trace => exact respects.changeRecording fun _ => .record _
      | replay replayer => exact respects.replays.follows_compare call result replayer

theorem follows_takeTrace (respects : RespectsCalls pursuit alike) :
    pursuit.Follows Eq takeTrace takeTrace := by
  apply respects.recording_bind
  intro left right recording
  rw [recording]
  cases right.own.recording with
  | off => exact .pure rfl
  | record trace => exact (respects.changeRecording fun _ => .off).bind_eq fun _ => .pure rfl
  | replay replayer => exact .pure rfl

/-! ## Calls and operations -/

theorem follows_perform (respects : RespectsCalls pursuit alike) (id : ContextId) (call : Call)
    (kind : Option SystemCall) :
    pursuit.Follows Eq (dispatch.perform id call kind) (dispatch.perform id call kind) := by
  apply (respects.follows_serve id call kind).bind_eq
  intro served
  exact (respects.follows_noteCompleted call served.1 served.2).bind_eq fun _ => .pure rfl

/-- **System calls follow each other**, whether they are made, recorded or replayed. -/
theorem follows_dispatch (respects : RespectsCalls pursuit alike) (id : ContextId) :
    pursuit.Follows Eq (dispatch id) (dispatch id) := by
  apply respects.contextOf_bind id
  intro left right same
  have caller : Call.ofContext right = Call.ofContext left := by
    rw [same.eq]
    rfl
  rw [caller]
  refine (respects.count _).bind_eq fun _ => ?_
  refine (respects.note (respects.refl _)).bind_eq fun _ => ?_
  apply respects.recording_bind
  intro left' right' recording
  rw [recording]
  generalize SystemCall.ofNumber? (Call.ofContext left).number.toNat = kind
  cases right'.own.recording with
  | off => exact respects.follows_perform id _ _
  | record trace => exact respects.follows_perform id _ _
  | replay replayer =>
      cases kind with
      | none => exact respects.follows_perform id _ _
      | some kind =>
          refine .ite (fun _ => ?_) fun _ => respects.follows_perform id _ _
          exact respects.replays.follows_replayHostCall id _ kind replayer

end RespectsCalls

namespace RespectsHosts

/-- **Every operation follows that keeps away from memory.** -/
theorem follows_operation (respects : RespectsHosts pursuit alike) {operation : Operation}
    (away : operation.keepsAway = true) :
    pursuit.Follows Eq operation.perform operation.perform := by
  cases operation with
  | snapshot id => cases away
  | access id request => cases away
  | startRecording =>
      exact (respects.changeRecording fun _ => .record .empty).bind_eq fun _ => .pure rfl
  | startReplay trace =>
      exact (respects.changeRecording fun _ => .replay (.start trace)).bind_eq fun _ => .pure rfl
  | takeTrace => exact respects.follows_takeTrace.bind_eq fun _ => .pure rfl
  | _ => exact respects.operation respects.follows_dispatch rfl

end RespectsHosts

end NestedMachine.Hypervisor
