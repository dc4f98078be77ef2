import NestedMachine.Instruction.Encoding
import NestedMachine.Proofs.Hypervisor.HostCalls

/-!
# A replay is faithful

A run is recorded from the moment when its programs are loaded.  Its replay starts with the same
programs, takes the answers of the host from the record, and makes all other calls again.  The
replay shadows the recorded run (`Shadows`), and it is in step with it: what is recorded and what is
still to be replayed make up the whole record, and what the host was given is what the replay has
kept (`InStep`).

The record is known when the recorded run is over.  So the comparison is made as long as what was
recorded is a beginning of it (`BornOut`), which was so all the time if it is so in the end.  The
call that the recorded run makes next is then the next one of the record: within the machine it is
made again and its outcome is compared (`follows_noteCompleted_replaying`), and a call that reaches
the host has its effect without the host (`follow_hostCall`).

Whether a request was refused for lack of frames is told by the journal, if it is asked to tell
everything.  Since journals have no influence on a run, the condition can be put to the same run
with such a journal.  Hence the main result, `replay_faithful`.
-/

namespace NestedMachine.Hypervisor

set_option autoImplicit false

variable {α : Type} {capacity : Nat} {pairing : Pairing}

/-! ## Recordings in step -/

/-- While programs are loaded, the host stays as it is and nothing is recorded or replayed. -/
def loading (buffer : BufferHost) : Pairing where
  modes := .same
  paired host _ recording recording' :=
    host = .buffer buffer ∧ recording = .off ∧ recording' = .off
  intact _ := True
  forgiven _ := True
  exhausted _ _ := trivial

/-- A recording and a replay that have come equally far in a record, and a host that was given what
the replay has kept. -/
inductive InStep (records : List TraceRecord) (start : BufferHost) :
    Host → Recording → Recording → Prop where
  | mk {host : BufferHost} {trace : Trace} {replayer : Replayer}
      (complete : trace.records.toList ++ replayer.pending = records)
      (consumed : replayer.consumed = trace.size)
      (output : host.output = start.output ++ replayer.transcript 1)
      (errors : host.errors = start.errors ++ replayer.transcript 2) :
      InStep records start (.buffer host) (.record trace) (.replay replayer)

/-- In step, one side records and the other replays. -/
theorem InStep.recordings {records : List TraceRecord} {start : BufferHost} {host : Host}
    {recording recording' : Recording} (step : InStep records start host recording recording') :
    ∃ trace replayer, recording = .record trace ∧ recording' = .replay replayer := by
  cases step with
  | mk => exact ⟨_, _, rfl, rfl⟩

/-- What is recorded is a beginning of a record. -/
def BornOut (records : List TraceRecord) (recording : Recording) : Prop :=
  ∀ trace, recording = .record trace → trace.records.toList <+: records

/-- While calls are recorded and replayed, the two are in step. -/
def replaying (records : List TraceRecord) (start : BufferHost) : Pairing where
  modes := .same
  paired host _ := InStep records start host
  intact := BornOut records
  forgiven _ := True
  exhausted _ _ := trivial

/-! ## Nothing is lost again -/

theorem irreversible_onCallerMemory (id : ContextId) (call : Call) {action : MemoryAction α}
    (congruent : Memory.Congruent action) :
    (shadowing capacity pairing).Irreversible (onCallerMemory id call action) :=
  (respects_shadowing.callerMemory id call congruent).past

theorem irreversible_note (happening : Note) :
    (shadowing capacity pairing).Irreversible (note happening) :=
  (follows_note_shadowing happening happening).past

theorem irreversible_serveRead (id : ContextId) (call : Call) :
    (shadowing capacity pairing).Irreversible (serveRead id call) := by
  refine .ite (.pure _) ?_
  refine (irreversible_onCallerMemory id call (.checkRange _ _ _)).bind ?_
  intro checked
  cases checked with
  | error fault => exact .pure _
  | ok _ =>
      refine (irreversible_askHost _).bind ?_
      intro answer
      cases answer with
      | error refusal => exact (irreversible_note _).bind fun _ => .pure _
      | ok bytes =>
          refine (irreversible_onCallerMemory id call (.writeBytes _ _)).bind ?_
          intro written
          cases written with
          | ok _ => exact .pure _
          | error fault => exact .pure _

theorem irreversible_serveWrite (id : ContextId) (call : Call) :
    (shadowing capacity pairing).Irreversible (serveWrite id call) := by
  refine .ite (.pure _) ?_
  refine (irreversible_onCallerMemory id call (.readBytes _ _)).bind ?_
  intro found
  cases found with
  | error fault => exact .pure _
  | ok bytes =>
      refine (irreversible_askHost _).bind ?_
      intro answer
      cases answer with
      | ok written => exact .pure _
      | error refusal => exact (irreversible_note _).bind fun _ => .pure _

theorem irreversible_serveOpen (id : ContextId) (call : Call) :
    (shadowing capacity pairing).Irreversible (serveOpen id call) := by
  refine (irreversible_onCallerMemory id call (.readString _ _)).bind ?_
  intro found
  cases found with
  | error fault => exact .pure _
  | ok bytes =>
      dsimp only
      cases Bytes.toString? bytes with
      | none => exact .pure _
      | some path =>
          refine (irreversible_askHost _).bind ?_
          intro answer
          cases answer with
          | ok descriptor => exact .pure _
          | error refusal => exact (irreversible_note _).bind fun _ => .pure _

theorem irreversible_serve (id : ContextId) (call : Call) (kind : Option SystemCall) :
    (shadowing capacity pairing).Irreversible (serve id call kind) := by
  by_cases within : kind.all (!·.reachesHost) = true
  · exact (respects_shadowing.serve_within id call within).past
  · cases kind with
    | none => exact absurd rfl within
    | some kind =>
        cases kind with
        | read => exact irreversible_serveRead id call
        | write => exact (irreversible_serveWrite id call).bind fun _ => .pure _
        | openFile => exact (irreversible_serveOpen id call).bind fun _ => .pure _
        | _ => exact absurd rfl within

/-! ## Records that are written and read -/

/-- Reading a record changes nothing but the recording, and then it is a replay still. -/
theorem nextRecord_kept (call : Call) (replayer : Replayer) (hypervisor : Hypervisor) :
    (finalState (nextRecord call replayer hypervisor)).machine = hypervisor.machine := by
  unfold nextRecord
  cases replayer.next call.pc call.number <;> rfl

/-- A call takes the record that is its own. -/
theorem nextRecord_apply {call : Call} {replayer : Replayer} {result : Int64} {data : Bytes}
    {rest : List TraceRecord} (pending : replayer.pending = call.record result data :: rest)
    (hypervisor : Hypervisor) :
    nextRecord call replayer hypervisor = .ok (replayer.consumed, call.record result data)
      { hypervisor with own := { hypervisor.own with
        recording := .replay
          { replayer with consumed := replayer.consumed + 1, pending := rest } } } := by
  have found : replayer.next call.pc call.number =
      .ok (replayer.consumed, call.record result data)
        { replayer with consumed := replayer.consumed + 1, pending := rest } := by
    unfold Replayer.next
    rw [pending]
    exact if_pos ⟨rfl, rfl⟩
  unfold nextRecord
  rw [found]
  rfl

/-- A completed call is recorded. -/
theorem noteCompleted_recording {call : Call} {outcome : Outcome} {result : Int64}
    (completed : outcome.result? = some result) {hypervisor : Hypervisor} {trace : Trace}
    (recording : hypervisor.own.recording = .record trace) (data : Bytes) :
    noteCompleted call outcome data hypervisor =
      .ok () { hypervisor with own := { hypervisor.own with
        recording := .record (trace.push (call.record result data)) } } := by
  unfold noteCompleted
  rw [completed]
  dsimp only
  rw [get_bind_apply, recording]
  rfl

/-- A completed call is compared with its record. -/
theorem noteCompleted_replaying {call : Call} {outcome : Outcome} {result : Int64}
    (completed : outcome.result? = some result) {hypervisor : Hypervisor} {replayer : Replayer}
    (recording : hypervisor.own.recording = .replay replayer) {data : Bytes}
    {rest : List TraceRecord} (pending : replayer.pending = call.record result data :: rest) :
    noteCompleted call outcome data hypervisor =
      .ok () { hypervisor with own := { hypervisor.own with
        recording := .replay
          { replayer with consumed := replayer.consumed + 1, pending := rest } } } := by
  unfold noteCompleted
  rw [completed]
  dsimp only
  rw [get_bind_apply, recording]
  refine (bind_of_ok (nextRecord_apply pending hypervisor) _).trans ?_
  have same : ¬(call.record result data).result ≠ result := fun differ => differ rfl
  dsimp only
  rw [if_neg same]
  rfl

section Records

variable {records : List TraceRecord} {start : BufferHost}

/-- What is recorded next is what is replayed next, as long as the record bears it out. -/
theorem next_of_bornOut {trace : Trace} {pending : List TraceRecord} {record : TraceRecord}
    (complete : trace.records.toList ++ pending = records)
    (born : BornOut records (.record (trace.push record))) :
    ∃ rest, pending = record :: rest ∧ (trace.push record).records.toList ++ rest = records := by
  obtain ⟨rest, whole⟩ := born _ rfl
  have pushed : (trace.push record).records.toList = trace.records.toList ++ [record] :=
    Array.toList_push
  refine ⟨rest, ?_, whole⟩
  rw [← whole, pushed, List.append_assoc] at complete
  exact List.append_cancel_left complete

/-! ### What a replay does -/

/-- What happens apart from recordings, where it does not matter what is recorded. -/
theorem irreversible_nextRecord (call : Call) (replayer : Replayer) :
    (shadowing capacity (loading start)).Irreversible (nextRecord call replayer) := by
  intro hypervisor future
  obtain ⟨untroubled, -⟩ := future
  rw [nextRecord_kept] at untroubled
  exact ⟨untroubled, trivial⟩

theorem irreversible_replayEffect (id : ContextId) (call : Call) (kind : SystemCall)
    (record : TraceRecord) :
    (shadowing capacity (loading start)).Irreversible (replayEffect id call kind record) := by
  cases kind with
  | read =>
      refine .ite (.pure _) ?_
      refine (irreversible_onCallerMemory id call (.writeBytes _ _)).bind ?_
      intro delivered
      cases delivered with
      | ok _ => exact .pure _
      | error fault => exact irreversible_note _
  | write =>
      refine .ite ?_ (.pure _)
      refine (irreversible_onCallerMemory id call (.readBytes _ _)).bind ?_
      intro found
      cases found with
      | ok bytes => exact .modify fun _ future => ⟨future.1, trivial⟩
      | error fault => exact .pure _
  | _ => exact .pure _

theorem irreversible_replayHostCall (id : ContextId) (call : Call) (kind : SystemCall)
    (replayer : Replayer) :
    (shadowing capacity (loading start)).Irreversible (replayHostCall id call kind replayer) := by
  rw [replayHostCall_eq]
  apply (irreversible_nextRecord call replayer).bind
  intro found
  exact (irreversible_replayEffect id call kind found.2).bind fun _ => .pure _

/-- What is lost while nothing is recorded is not what was recorded. -/
theorem future_of_unrecorded {action : HypervisorAction α}
    (past : (shadowing capacity (loading start)).Irreversible action) {hypervisor : Hypervisor}
    (unrecorded : ∀ trace, hypervisor.own.recording ≠ .record trace)
    (future : (shadowing capacity (replaying records start)).future
      (finalState (action hypervisor))) :
    (shadowing capacity (replaying records start)).future hypervisor := by
  obtain ⟨untroubled, -⟩ := past hypervisor ⟨future.1, trivial⟩
  exact ⟨untroubled, fun trace same => absurd same (unrecorded trace)⟩

/-! ### Calls that are completed -/

theorem irreversible_noteCompleted_loading (call : Call) (outcome : Outcome) (data : Bytes) :
    (shadowing capacity (loading start)).Irreversible (noteCompleted call outcome data) := by
  unfold noteCompleted
  cases outcome.result? with
  | none => exact .pure _
  | some result =>
      refine .get_bind ?_
      intro hypervisor future
      cases recording : hypervisor.own.recording with
      | off =>
          rw [recording] at future
          exact future
      | record trace =>
          rw [recording] at future
          exact ⟨future.1, trivial⟩
      | replay replayer =>
          rw [recording] at future
          refine (irreversible_nextRecord call replayer).bind (fun found => ?_) hypervisor future
          exact .ite (.throw _) (.pure _)

/-- A record that a longer one is a beginning of was a beginning before. -/
theorem irreversible_noteCompleted (call : Call) (outcome : Outcome) (data : Bytes) :
    (shadowing capacity (replaying records start)).Irreversible
      (noteCompleted call outcome data) := by
  intro hypervisor future
  have past := @irreversible_noteCompleted_loading capacity start call outcome data
  cases recording : hypervisor.own.recording with
  | off => exact future_of_unrecorded past (fun _ same => nomatch recording.symm.trans same) future
  | replay _ =>
      exact future_of_unrecorded past (fun _ same => nomatch recording.symm.trans same) future
  | record trace =>
      cases completed : outcome.result? with
      | none =>
          unfold noteCompleted at future
          rw [completed] at future
          exact future
      | some result =>
          rw [noteCompleted_recording completed recording] at future
          obtain ⟨untroubled, born⟩ := future
          refine ⟨untroubled, ?_⟩
          intro other same
          rw [recording] at same
          cases same
          have pushed : (trace.push (call.record result data)).records.toList =
            trace.records.toList ++ [call.record result data] := Array.toList_push
          have shorter := pushed ▸ List.prefix_append trace.records.toList [call.record result data]
          exact shorter.trans (born _ rfl)

/-- **A completed call of a recorded run is the next one of the record.** -/
theorem follows_noteCompleted_replaying (call : Call) (outcome : Outcome) (data : Bytes) :
    (shadowing capacity (replaying records start)).Follows Eq (noteCompleted call outcome data)
      (noteCompleted call outcome data) := by
  refine ⟨irreversible_noteCompleted call outcome data, ?_⟩
  intro left right states
  obtain ⟨shadows, paired⟩ := states
  cases completed : outcome.result? with
  | none =>
      unfold noteCompleted
      rw [completed]
      exact .answer rfl ⟨shadows, paired⟩
  | some result =>
      generalize buffered : left.own.host = leftHost at paired
      generalize recording : left.own.recording = leftRecording at paired
      generalize recording' : right.own.recording = rightRecording at paired
      cases paired with
      | @mk host trace replayer complete consumed output errors =>
          rw [noteCompleted_recording completed recording]
          by_cases born : BornOut records (.record (trace.push (call.record result data)))
          · obtain ⟨rest, pending, complete'⟩ := next_of_bornOut complete born
            rw [noteCompleted_replaying completed recording' pending]
            refine .answer rfl ⟨shadows.equip _ _ _ _, ?_⟩
            dsimp only
            rw [buffered]
            refine .mk complete' ?_ output errors
            show replayer.consumed + 1 = (trace.records.push _).size
            rw [Array.size_push, consumed]
            rfl
          · exact .lost fun future => born future.2

/-! ### Calls that are made and calls that are not -/

theorem irreversible_perform (id : ContextId) (call : Call) (kind : Option SystemCall) :
    (shadowing capacity (replaying records start)).Irreversible
      (dispatch.perform id call kind) :=
  (irreversible_serve id call kind).bind fun served =>
    (irreversible_noteCompleted call served.1 served.2).bind fun _ => .pure _

/-- A call within the machine is made again. -/
theorem follows_perform_within (id : ContextId) (call : Call) {kind : Option SystemCall}
    (within : kind.all (!·.reachesHost) = true) :
    (shadowing capacity (replaying records start)).Follows Eq (dispatch.perform id call kind)
      (dispatch.perform id call kind) := by
  apply (respects_shadowing.serve_within id call within).bind_eq
  intro served
  exact (follows_noteCompleted_replaying call served.1 served.2).bind_eq fun _ => .pure rfl

/-- **A call that reaches the host has its effect without the host.** -/
theorem follow_hostCall (id : ContextId) (call : Call) {kind : SystemCall}
    (reaches : kind.reachesHost = true) {left right : Hypervisor}
    (states : (shadowing capacity (replaying records start)).related left right)
    {replayer : Replayer} (recording' : right.own.recording = .replay replayer) :
    (shadowing capacity (replaying records start)).Follow Eq
      (dispatch.perform id call (some kind) left) (replayHostCall id call kind replayer right) := by
  cases performed : dispatch.perform id call (some kind) left with
  | error error after => exact .excuse (.inl trivial)
  | ok outcome after =>
      obtain ⟨⟨made, data⟩, middle, served, completed⟩ := ok_of_bind performed
      obtain ⟨_, noted, completed, returned⟩ := ok_of_bind completed
      cases returned
      obtain ⟨shadows, paired⟩ := states
      generalize buffered : left.own.host = leftHost at paired
      generalize recording : left.own.recording = leftRecording at paired
      rw [recording'] at paired
      cases paired with
      | @mk host trace replayer complete consumed output errors =>
          -- What the call has done tells its record ...
          obtain ⟨value, _, rfl, _, replayed⟩ :=
            replays_serve reaches shadows buffered recording' served
          rw [noteCompleted_recording rfl (replayed.recording.trans recording)] at completed
          cases completed
          by_cases born : BornOut records (.record (trace.push (call.record value data)))
          · obtain ⟨rest, pending, complete'⟩ := next_of_bornOut complete born
            -- ... and what the record does comes after it has been taken.
            let taken : Replayer :=
              { replayer with consumed := replayer.consumed + 1, pending := rest }
            let advanced : Hypervisor :=
              { right with own := { right.own with recording := .replay taken } }
            have shadows' : Shadows .same capacity left advanced :=
              shadows.equip left.own.host left.own.recording right.own.host (.replay taken)
            obtain ⟨_, after', same, effect, replayed⟩ :=
              replays_serve reaches shadows' buffered rfl served
            cases same
            obtain ⟨host', replayer', buffered', recording'', tallies⟩ := replayed.tallies
            have done : replayHostCall id call kind replayer right =
                .ok (.answer value) after' := by
              rw [replayHostCall_eq]
              refine (bind_of_ok (nextRecord_apply pending right) _).trans ?_
              exact bind_of_ok effect _
            rw [done]
            refine .answer rfl ⟨?_, ?_⟩
            · exact replayed.shadows.equip middle.own.host _ after'.own.host after'.own.recording
            · dsimp only
              rw [buffered', recording'']
              obtain ⟨bytes, grown, kept⟩ := tallies.output
              obtain ⟨bytes', grown', kept'⟩ := tallies.errors
              refine .mk ?_ ?_ ?_ ?_
              · rw [tallies.pending]
                exact complete'
              · rw [tallies.consumed]
                show replayer.consumed + 1 = (trace.records.push _).size
                rw [Array.size_push, consumed]
                rfl
              · rw [grown, output, kept, List.append_assoc]
                rfl
              · rw [grown', errors, kept', List.append_assoc]
                rfl
          · exact .lost fun future => born future.2

/-- **Every call of a recorded run is followed by the replay.** -/
theorem follows_dispatch_replaying (id : ContextId) :
    (shadowing capacity (replaying records start)).Follows Eq (dispatch id) (dispatch id) := by
  apply respects_shadowing.contextOf_bind id
  intro left right same
  have caller : Call.ofContext right = Call.ofContext left := by
    rw [same.eq]
    rfl
  rw [caller]
  refine (respects_shadowing.count _).bind_eq fun _ => ?_
  refine (respects_shadowing.note trivial).bind_eq fun _ => ?_
  generalize Call.ofContext left = call
  generalize SystemCall.ofNumber? call.number.toNat = kind
  refine ⟨.get_bind fun hypervisor future => ?_, fun before before' states => ?_⟩
  · cases recording : hypervisor.own.recording with
    | off =>
        rw [recording] at future
        exact irreversible_perform id call kind hypervisor future
    | record trace =>
        rw [recording] at future
        exact irreversible_perform id call kind hypervisor future
    | replay replayer =>
        rw [recording] at future
        cases kind with
        | none => exact irreversible_perform id call none hypervisor future
        | some kind =>
            dsimp only at future
            split at future
            · exact future_of_unrecorded (irreversible_replayHostCall id call kind replayer)
                (fun _ same => nomatch recording.symm.trans same) future
            · exact irreversible_perform id call (some kind) hypervisor future
  · obtain ⟨trace, replayer, recording, recording'⟩ := states.2.recordings
    simp only [get_bind_apply]
    rw [recording, recording']
    cases kind with
    | none => exact (follows_perform_within id call rfl).follow before before' states
    | some kind =>
        dsimp only
        by_cases reaches : kind.reachesHost = true
        · rw [if_pos reaches]
          exact follow_hostCall id call reaches states recording'
        · rw [if_neg reaches]
          refine (follows_perform_within id call ?_).follow before before' states
          simp [reaches]

end Records

/-! ## Whole runs -/

/-- Programs are loaded, each with its arguments. -/
def loads (programs : List (Image × List String)) : List Operation :=
  programs.map fun program => .load program.1 program.2

/-- A run that is recorded once its programs are loaded. -/
def recordedRun (programs : List (Image × List String)) (calls : List Operation) :
    List Operation := loads programs ++ .startRecording :: calls

/-- The same run as a replay of a trace. -/
def replayedRun (programs : List (Image × List String)) (trace : Trace) (calls : List Operation) :
    List Operation := loads programs ++ .startReplay trace :: calls

theorem follows_loads (buffer : BufferHost) {programs : List (Image × List String)}
    {operation : Operation} (member : operation ∈ loads programs) :
    (shadowing capacity (loading buffer)).Follows Eq operation.perform operation.perform := by
  obtain ⟨program, -, rfl⟩ := List.mem_map.mp member
  exact (respects_shadowing.load program.1 program.2).bind_eq fun _ => .pure rfl

/-- When recording and replay start, they are in step. -/
theorem related_start {buffer : BufferHost} {left right : Hypervisor}
    (states : (shadowing capacity (loading buffer)).related left right) (trace : Trace) :
    (shadowing capacity (replaying trace.records.toList buffer)).related
      (finalState (Operation.startRecording.perform left))
      (finalState ((Operation.startReplay trace).perform right)) := by
  obtain ⟨shadows, buffered, -⟩ := states
  refine ⟨shadows.equip left.own.host _ right.own.host _, ?_⟩
  show InStep _ _ left.own.host (.record .empty) (.replay (.start trace))
  rw [buffered]
  exact .mk rfl rfl (List.append_nil _).symm (List.append_nil _).symm

/-- **A replay shadows the run that was recorded**, and it is in step with it in the end. -/
theorem replay_shadows {buffer : BufferHost} {trace : Trace}
    {programs : List (Image × List String)} {calls : List Operation}
    (drive : ∀ call ∈ calls, call.drives = true) {left right : Hypervisor}
    (states : (shadowing capacity (loading buffer)).related left right)
    (succeed : ∀ entry ∈ trail Operation.perform (recordedRun programs calls) left,
      entry.1.isOk = true)
    (future : (shadowing capacity (replaying trace.records.toList buffer)).future
      (stateAfter Operation.perform (recordedRun programs calls) left)) :
    List.Forall₂ (fun before after => before.1 = after.1 ∧ Shadows .same capacity before.2 after.2)
        (trail Operation.perform (recordedRun programs calls) left)
        (trail Operation.perform (replayedRun programs trace calls) right) ∧
      (shadowing capacity (replaying trace.records.toList buffer)).related
        (stateAfter Operation.perform (recordedRun programs calls) left)
        (stateAfter Operation.perform (replayedRun programs trace calls) right) := by
  have follows (call : Operation) (member : call ∈ calls) :
      (shadowing capacity (replaying trace.records.toList buffer)).Follows Eq call.perform
        call.perform :=
    respects_shadowing.operation follows_dispatch_replaying (drive call member)
  unfold recordedRun at succeed future ⊢
  unfold replayedRun
  rw [trail_append] at succeed
  rw [stateAfter_append] at future
  rw [trail_append, trail_append, stateAfter_append, stateAfter_append]
  obtain ⟨loaded, called⟩ := List.forall_mem_append.mp succeed
  have begun := Pursuit.future_of_stateAfter (fun call member => (follows call member).past) future
  obtain ⟨first, ready⟩ := Pursuit.trail_follows (fun operation => follows_loads buffer) states
    loaded ⟨begun.1, trivial⟩
  have begin := related_start ready trace
  obtain ⟨rest, final⟩ := Pursuit.trail_follows follows begin
    (fun entry member => called entry (List.mem_cons_of_mem _ member)) future
  refine ⟨List.rel_append (first.imp fun before after step => ⟨step.1, step.2.1⟩) ?_, final⟩
  refine .cons ⟨rfl, begin.1⟩ ?_
  exact rest.imp fun before after step => ⟨step.1, step.2.1⟩

/-! ## The main result -/

/-- What a recorded run and its replay have in common: everything that the hypervisor keeps, apart
from its host and its recording, and every context, up to which pages of its memory are mapped, with
every byte that its memory shows. -/
structure RunsAlike (recorded replayed : Hypervisor) : Prop where
  own : recorded.own.Alike replayed.own
  contexts : ∀ id, Option.Rel
    (ShowAlike recorded.machine.interpreter.pool replayed.machine.interpreter.pool)
    (recorded.machine.context? id) (replayed.machine.context? id)

/-- A hypervisor that differs from a recorded one in its journal only, and one that shadows it. -/
theorem SameAbove.runsAlike {view : JournalView} {recorded loud replayed : Hypervisor}
    (same : SameAbove view recorded loud) (shadows : Shadows .same capacity loud replayed) :
    RunsAlike recorded replayed := by
  refine ⟨?_, fun id => ?_⟩
  · rw [same.own]
    exact shadows.own.alike
  · rw [same.context? id, same.interpreter.pool, shadows.leftUniform.context?,
      shadows.rightUniform.context?]
    exact shadows.interpreter.showAlike id

/-- A run is recorded in a trace, and replayed from it by another hypervisor: all calls have the
same results and leave the same contexts, the whole record is used up, and what the replay has kept
is what the host was given. -/
structure Faithful (buffer : BufferHost) (programs : List (Image × List String))
    (calls : List Operation) (trace : Trace) (recorded replayed : Hypervisor) : Prop where
  answers : List.Forall₂ (fun before after => before.1 = after.1 ∧ RunsAlike before.2 after.2)
    (trail Operation.perform (recordedRun programs calls) recorded)
    (trail Operation.perform (replayedRun programs trace calls) replayed)
  recording : (stateAfter Operation.perform (recordedRun programs calls) recorded).own.recording =
    .record trace
  replay : ∃ host replayer,
    (stateAfter Operation.perform (recordedRun programs calls) recorded).own.host = .buffer host ∧
    (stateAfter Operation.perform (replayedRun programs trace calls) replayed).own.recording =
      .replay replayer ∧
    replayer.consumed = trace.size ∧ replayer.pending = [] ∧
    host.output = buffer.output ++ replayer.transcript 1 ∧
    host.errors = buffer.errors ++ replayer.transcript 2

/-- The trace that is being recorded. -/
def traceOf : Recording → Trace
  | .record trace => trace
  | _ => .empty

theorem bornOut_traceOf (recording : Recording) :
    BornOut (traceOf recording).records.toList recording := by
  intro trace same
  rw [same]
  exact List.prefix_refl _

/-- A run in step with its own record has come to the end of it. -/
theorem InStep.finished {start : BufferHost} {host : Host} {recording recording' : Recording}
    (step : InStep (traceOf recording).records.toList start host recording recording') :
    recording = .record (traceOf recording) ∧ ∃ buffer replayer, host = .buffer buffer ∧
      recording' = .replay replayer ∧ replayer.consumed = (traceOf recording).size ∧
      replayer.pending = [] ∧ buffer.output = start.output ++ replayer.transcript 1 ∧
      buffer.errors = start.errors ++ replayer.transcript 2 := by
  cases step with
  | mk complete consumed output errors =>
      refine ⟨rfl, _, _, rfl, rfl, consumed, ?_, output, errors⟩
      exact List.append_right_eq_self.mp complete

/-- **A recorded run is replayed call by call.**  Record a run over a buffer host in which every
operation succeeds, and no request is refused for lack of frames.  A stack of the same configuration
that loads the same programs and replays a trace that bears out what is recorded answers the same
calls alike.  All along it shadows the run, as it is with another journal, and in the end it is in
step with the record. -/
theorem replay_in_step {configuration : Configuration} {buffer : BufferHost} (other : Host)
    {journal : Journal} (journal' : Journal) {programs : List (Image × List String)}
    {calls : List Operation} (drive : ∀ call ∈ calls, call.drives = true) {start : Hypervisor}
    (built : build configuration (.buffer buffer) journal = .ok start)
    (succeed : ∀ entry ∈ trail Operation.perform (recordedRun programs calls) start,
      entry.1.isOk = true)
    (backed : ∀ loud,
      build configuration (.buffer buffer) (.withThreshold (some .debug)) = .ok loud →
        (stateAfter Operation.perform (recordedRun programs calls)
          loud).machine.interpreter.journal.tellsShortage = false)
    {trace : Trace} (begins : BornOut trace.records.toList
      (stateAfter Operation.perform (recordedRun programs calls) start).own.recording) :
    ∃ fresh, build configuration other journal' = .ok fresh ∧
      List.Forall₂ (fun before after => before.1 = after.1 ∧ ∃ loud : Hypervisor,
          SameAbove (.listening (some .debug)) before.2 loud ∧
            Shadows .same configuration.frames loud after.2)
        (trail Operation.perform (recordedRun programs calls) start)
        (trail Operation.perform (replayedRun programs trace calls) fresh) ∧
      InStep trace.records.toList buffer
        (stateAfter Operation.perform (recordedRun programs calls) start).own.host
        (stateAfter Operation.perform (recordedRun programs calls) start).own.recording
        (stateAfter Operation.perform (replayedRun programs trace calls) fresh).own.recording := by
  obtain ⟨loud, fresh, made, begun, trails, final, quiet⟩ := shadowing_nested (loading buffer)
    (show (loading buffer).modes.alike configuration.mode configuration.mode from rfl)
    (show (loading buffer).paired (.buffer buffer) other .off .off from ⟨rfl, rfl, rfl⟩) journal'
    built backed
  rw [final.own] at begins ⊢
  obtain ⟨answers, related⟩ :=
    replay_shadows drive begun (trails_succeed trails succeed) ⟨quiet, begins⟩
  refine ⟨fresh, made, ?_, related.2⟩
  refine trails_compose (fun _ loud _ recorded replayed => ?_) trails answers
  exact ⟨recorded.1.trans replayed.1, loud.2, recorded.2, replayed.2⟩

/-- **A replay is faithful.**  Record a run over a buffer host in which every operation succeeds,
and no request is refused for lack of frames, as the notes of the run would tell.  Any other
hypervisor of the same configuration, whatever its host, that loads the same programs and replays
the trace answers the same calls alike, and after each of them its contexts are the same to a guest.
No record is left, and the transcripts are the bytes that were written while recording. -/
theorem replay_faithful (configuration : Configuration) (buffer : BufferHost) (other : Host)
    (journal journal' : Journal) (programs : List (Image × List String)) (calls : List Operation)
    (drive : ∀ call ∈ calls, call.drives = true) {start : Hypervisor}
    (built : build configuration (.buffer buffer) journal = .ok start)
    (succeed : ∀ entry ∈ trail Operation.perform (recordedRun programs calls) start,
      entry.1.isOk = true)
    (backed : ∀ loud,
      build configuration (.buffer buffer) (.withThreshold (some .debug)) = .ok loud →
        (stateAfter Operation.perform (recordedRun programs calls)
          loud).machine.interpreter.journal.tellsShortage = false) :
    ∃ trace fresh, build configuration other journal' = .ok fresh ∧
      Faithful buffer programs calls trace start fresh := by
  obtain ⟨fresh, made, answers, step⟩ :=
    replay_in_step other journal' drive built succeed backed (bornOut_traceOf _)
  obtain ⟨recording, finished⟩ := step.finished
  obtain ⟨host, replayer, buffered, replay, consumed, pending, output, errors⟩ := finished
  refine ⟨_, fresh, made, ?_, recording, host, replayer, buffered, replay, consumed, pending,
    output, errors⟩
  apply answers.imp
  rintro before after ⟨same, loud, listens, shadows⟩
  exact ⟨same, listens.runsAlike shadows⟩

/-- A program that reads three bytes onto its stack and writes them back. -/
def echo : Image :=
  .ofWords ([.addi 11 2 (-16), .addi 12 0 3, .addi 17 0 63, .ecall, .addi 10 0 1, .addi 17 0 64,
    .ecall, .addi 17 0 93, .ecall].map Instruction.encode) []

/-- The replay of an echo writes what was read while recording, though its host has no input. -/
theorem echo_replayed :
    ∃ start, build { Configuration.standard with frames := 40 }
        (.buffer (.withInput [104, 105, 33])) .silent = .ok start ∧
      ∃ trace fresh, build { Configuration.standard with frames := 40 } .null .silent = .ok fresh ∧
        Faithful (.withInput [104, 105, 33]) [(echo, [])] [.runAll 4] trace start fresh ∧
        trace.size = 3 := by
  refine ⟨_, rfl, ?_⟩
  obtain ⟨trace, fresh, built, faithful⟩ :=
    @replay_faithful { Configuration.standard with frames := 40 } (.withInput [104, 105, 33]) .null
      .silent .silent [(echo, [])] [.runAll 4] (by decide) _ rfl (by decide +kernel)
      (by
        intro loud built
        obtain rfl := Except.ok.inj built
        decide +kernel)
  refine ⟨trace, fresh, built, faithful, ?_⟩
  have size : (traceOf (stateAfter Operation.perform (recordedRun [(echo, [])] [.runAll 4])
      _).own.recording).size = trace.size :=
    congrArg (fun recording => (traceOf recording).size) faithful.recording
  rw [← size]
  decide +kernel

end NestedMachine.Hypervisor
