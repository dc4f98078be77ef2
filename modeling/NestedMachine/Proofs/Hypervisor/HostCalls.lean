import NestedMachine.Proofs.Hypervisor.Shadows
import NestedMachine.Proofs.Hypervisor.Steadiness

/-!
# Calls that reach the host, and their replay

Reading, writing and opening files are the calls that a replay does not make.  It takes the answer
from the record, writes the bytes of a read to memory, and keeps the bytes of a write.  Here a call
that a hypervisor makes is compared with what its shadow does about the record of the call
(`replays_serve`).

A call that was answered has left its mark in two places at most: in the memory of the caller, if a
read delivered bytes, and in the output of the host.  Whatever it looked at besides, such as the
bytes of a path, goes unnoticed (`Shadows.peek`).  Bytes that are delivered while recording lie in a
range that was checked as a whole, so they get where they should, and then they do so in the shadow
as well.
-/

namespace NestedMachine

set_option autoImplicit false

variable {α : Type}

/-! ## The output of a buffer host -/

namespace BufferHost

/-- Hosts to which the same was written. -/
structure SameOutput (host after : BufferHost) : Prop where
  output : after.output = host.output
  errors : after.errors = host.errors

/-- A read delivers no more than was asked for and writes nothing. -/
theorem read_spec (number size : Nat) (host : BufferHost) :
    SameOutput host (finalState (host.read number size)) ∧
      ∀ bytes, answerOf (host.read number size) = .ok bytes → bytes.length ≤ size := by
  unfold read
  split
  · refine ⟨⟨rfl, rfl⟩, ?_⟩
    intro bytes found
    obtain rfl := Except.ok.inj found
    exact List.length_take_le ..
  · split
    · exact ⟨⟨rfl, rfl⟩, fun bytes found => nomatch found⟩
    · split
      · split
        · exact ⟨⟨rfl, rfl⟩, fun bytes found => nomatch found⟩
        · refine ⟨⟨rfl, rfl⟩, ?_⟩
          intro bytes found
          obtain rfl := Except.ok.inj found
          exact List.length_take_le ..
      · exact ⟨⟨rfl, rfl⟩, fun bytes found => nomatch found⟩

/-- Opening a file writes nothing to the streams. -/
theorem openFile_spec (path : String) (flags : OpenFlags) (host : BufferHost) :
    SameOutput host (finalState (host.openFile path flags)) := by
  unfold openFile
  split
  · exact ⟨rfl, rfl⟩
  · dsimp only [finalState]
    split
    · exact ⟨rfl, rfl⟩
    · exact ⟨rfl, rfl⟩

/-- The part of written bytes that goes to a stream. -/
def toStream (stream number : Nat) (bytes : Bytes) : Bytes := if number = stream then bytes else []

/-- A write takes all bytes, or is refused and writes nothing. -/
theorem write_spec (number : Nat) (bytes : Bytes) (host : BufferHost) :
    (∃ after, host.write number bytes = .ok bytes.length after ∧
      after.output = host.output ++ toStream 1 number bytes ∧
      after.errors = host.errors ++ toStream 2 number bytes) ∨
    ∃ refusal, host.write number bytes = .error refusal host := by
  unfold write
  by_cases first : number = 1
  · left
    rw [if_pos first]
    exact ⟨_, rfl, by simp [toStream, first], by simp [toStream, first]⟩
  · rw [if_neg first]
    by_cases second : number = 2
    · left
      rw [if_pos second]
      exact ⟨_, rfl, by simp [toStream, second], by simp [toStream, second]⟩
    · rw [if_neg second]
      split
      · exact .inr ⟨_, rfl⟩
      · split
        · left
          exact ⟨_, rfl, by simp [toStream, first, seek, addFile],
            by simp [toStream, second, seek, addFile]⟩
        · exact .inr ⟨_, rfl⟩

end BufferHost

/-! ## Transcripts -/

theorem Replayer.transcript_capture (replayer : Replayer) (number stream : Nat) (bytes : Bytes) :
    (replayer.capture number bytes).transcript stream =
      replayer.transcript stream ++ BufferHost.toStream stream number bytes := by
  unfold capture transcript BufferHost.toStream
  dsimp only
  rw [Table.getElem?_insert]
  by_cases same : number = stream
  · rw [if_pos same, if_pos same, same]
    rfl
  · rw [if_neg same, if_neg same, List.append_nil]

/-- The output of a host and the transcripts of a replayer have grown alike. -/
structure Tallies (host host' : BufferHost) (replayer replayer' : Replayer) : Prop where
  pending : replayer'.pending = replayer.pending
  consumed : replayer'.consumed = replayer.consumed
  output : ∃ bytes, host'.output = host.output ++ bytes ∧
    replayer'.transcript 1 = replayer.transcript 1 ++ bytes
  errors : ∃ bytes, host'.errors = host.errors ++ bytes ∧
    replayer'.transcript 2 = replayer.transcript 2 ++ bytes

theorem BufferHost.SameOutput.tallies {host host' : BufferHost} (same : SameOutput host host')
    (replayer : Replayer) : Tallies host host' replayer replayer where
  pending := rfl
  consumed := rfl
  output := ⟨[], by rw [same.output, List.append_nil], (List.append_nil _).symm⟩
  errors := ⟨[], by rw [same.errors, List.append_nil], (List.append_nil _).symm⟩

namespace Hypervisor

/-! ## Parts of a call -/

/-- What a replay does about the record of a call that reaches the host. -/
def replayEffect (id : ContextId) (call : Call) (kind : SystemCall) (record : TraceRecord) :
    HypervisorAction Unit :=
  match kind with
  | .read => if record.data.isEmpty then pure () else deliverRead id call record.data
  | .write => if 0 < record.result then captureWrite id call record.result.toInt.toNat else pure ()
  | _ => pure ()

theorem replayHostCall_eq (id : ContextId) (call : Call) (kind : SystemCall)
    (replayer : Replayer) :
    replayHostCall id call kind replayer = (do
      let (_, record) ← nextRecord call replayer
      replayEffect id call kind record
      return .answer record.result) := by
  unfold replayHostCall replayEffect
  refine congrArg (nextRecord call replayer >>= ·) (funext fun found => ?_)
  obtain ⟨index, record⟩ := found
  cases kind with
  | read => by_cases empty : record.data.isEmpty <;> simp [empty]
  | write => by_cases positive : 0 < record.result <;> simp [positive]
  | _ => rfl

theorem askHost_buffer {request : Host → HostAnswer α} {hypervisor : Hypervisor}
    {host : BufferHost} {result : EStateM.Result HostRefusal BufferHost α}
    (buffered : hypervisor.own.host = .buffer host)
    (answers : request (.buffer host) = Host.ofBuffer result) :
    askHost request hypervisor = .ok (answerOf result)
      { hypervisor with own := { hypervisor.own with host := .buffer (finalState result) } } := by
  obtain ⟨machine, own⟩ := hypervisor
  dsimp only at buffered
  simp only [askHost, buffered, answers]
  cases result <;> rfl

/-- An access on behalf of a call answers what the access answers. -/
theorem onMemory_of_onCallerMemory {id : ContextId} {call : Call} {action : MemoryAction α}
    {before after : Hypervisor} {answer : Except Fault α}
    (done : onCallerMemory id call action before = .ok answer after) :
    onMemory id action before = .ok answer after ∧ answer ≠ .error .outOfFrames := by
  obtain ⟨found, middle, accessed, done⟩ := ok_of_bind done
  split at done
  · cases done
  · rename_i other
    cases done
    exact ⟨accessed, other⟩

theorem onCallerMemory_of_onMemory {id : ContextId} {action : MemoryAction α}
    {before after : Hypervisor} {answer : Except Fault α}
    (done : onMemory id action before = .ok answer after) (sound : answer ≠ .error .outOfFrames)
    (call : Call) : onCallerMemory id call action before = .ok answer after := by
  unfold onCallerMemory
  rw [bind_of_ok done]
  split
  · exact absurd rfl sound
  · rfl

section Accesses

variable {capacity : Nat} {left right before after : Hypervisor} {id : ContextId} {call : Call}
  {action : MemoryAction α} {answer : Except Fault α}

theorem Shadows.steady (shadows : Shadows .same capacity left right) : Steady capacity left :=
  ⟨shadows.interpreter.leftSound, shadows.leftUniform⟩

/-- **What a call does to the memory of the caller is done in the shadow.** -/
theorem Shadows.callerMemory (shadows : Shadows .same capacity left right)
    (congruent : Memory.Congruent action)
    (done : onCallerMemory id call action left = .ok answer after) :
    ∃ after', onCallerMemory id call action right = .ok answer after' ∧
      Shadows .same capacity after after' ∧ after.own = left.own ∧ after'.own = right.own := by
  obtain ⟨accessed, served⟩ := onMemory_of_onCallerMemory done
  rcases shadows.onMemory congruent.coveredUnless id with
    ⟨answer', after', other, lacking⟩ | outcome
  · rw [accessed] at other
    cases other
    exact absurd lacking served
  · rw [accessed] at outcome
    generalize result : Hypervisor.onMemory id action right = outcome' at outcome
    cases outcome with
    | answer same states =>
        subst same
        exact ⟨_, onCallerMemory_of_onMemory result served call, states⟩

/-- An access was carried out on the memory of a context. -/
structure CarriedOut (id : ContextId) (action : MemoryAction α) (before : Hypervisor)
    (answer : Except Fault α) (after : Hypervisor) (context : Context) : Prop where
  found : before.machine.interpreter.contexts[id]? = some context
  answered : answerOf (action (before.machine.interpreter.memoryOf context)) = answer
  kept : after = ⟨⟨before.machine.relays, before.machine.interpreter.keepMemory id context
    (finalState (action (before.machine.interpreter.memoryOf context)))⟩, before.own⟩

theorem carriedOut (uniform : before.machine.Uniform)
    (done : onMemory id action before = .ok answer after) :
    ∃ context, CarriedOut id action before answer after context := by
  obtain ⟨machine, own⟩ := before
  simp only [Hypervisor.onMemory, Machine.Uniform.withMemory uniform] at done
  cases found : machine.interpreter.contexts[id]? with
  | none =>
      rw [Interpreter.withMemory_of_none found] at done
      cases done
  | some context =>
      rw [Interpreter.withMemory_of_some found] at done
      injection done with answered kept
      exact ⟨context, found, answered, kept.symm⟩

/-- As many bytes are read as were asked for, and no more than there are in an address space. -/
theorem CarriedOut.length_of_readBytes {address size : Nat} {bytes : Bytes} {context : Context}
    (carried : CarriedOut id (Memory.readBytes address size) before (.ok bytes) after context) :
    bytes.length = size ∧ size ≤ addressSpaceSize := by
  have answered := carried.answered
  cases result : Memory.readBytes address size (before.machine.interpreter.memoryOf context) with
  | error fault memory =>
      rw [result] at answered
      cases answered
  | ok found memory =>
      rw [result] at answered
      obtain rfl := Except.ok.inj answered
      exact Memory.length_of_readBytes result

/-- **What a call looks at goes unnoticed.** -/
theorem Shadows.peek (shadows : Shadows .same capacity left right) (peeking : Memory.Peeking action)
    (done : onCallerMemory id call action left = .ok answer after) :
    Shadows .same capacity after right ∧ after.own = left.own := by
  obtain ⟨accessed, -⟩ := onMemory_of_onCallerMemory done
  obtain ⟨context, carried⟩ := carriedOut shadows.leftUniform accessed
  have covers := shadows.interpreter.peek peeking id
  have kept := Machine.contains_withMemory left.machine.interpreter id action
  rw [Interpreter.withMemory_of_some carried.found] at covers kept
  rw [carried.kept]
  exact ⟨⟨shadows.own, covers, shadows.leftUniform.congr rfl kept, shadows.rightUniform⟩, rfl⟩

/-- A range that was found writable is writable. -/
theorem checked_of_check (uniform : before.machine.Uniform) {address size : Nat}
    (done : onCallerMemory id call (Memory.checkRange address size .write) before =
      .ok (.ok ()) after) : ∃ space, spaceOf after id = some space ∧
        space.layout.checkRange address size .write = .ok () := by
  obtain ⟨accessed, -⟩ := onMemory_of_onCallerMemory done
  obtain ⟨context, carried⟩ := carriedOut uniform accessed
  have answered := carried.answered
  have same := Memory.checkRange_apply address size .write
    (before.machine.interpreter.memoryOf context)
  cases checked : context.space.layout.checkRange address size .write with
  | error fault =>
      rw [show (before.machine.interpreter.memoryOf context).space.layout.checkRange address size
        .write = _ from checked] at same
      rw [same] at answered
      cases answered
  | ok answer =>
      rw [show (before.machine.interpreter.memoryOf context).space.layout.checkRange address size
        .write = _ from checked] at same
      refine ⟨context.space, ?_, checked⟩
      rw [carried.kept, same]
      show Option.map _ (before.machine.interpreter.contexts.insert id context)[id]? = _
      rw [Table.getElem?_insert, if_pos rfl]
      rfl

/-- **Bytes get into a range that is writable.** -/
theorem Steady.delivers (steady : Steady capacity before) {space : AddressSpace}
    (found : spaceOf before id = some space) {address size : Nat} {bytes : Bytes}
    (checked : space.layout.checkRange address size .write = .ok ()) (short : bytes.length ≤ size)
    {answer : Except Fault Unit}
    (done : onCallerMemory id call (Memory.writeBytes address bytes) before = .ok answer after) :
    answer = .ok () := by
  obtain ⟨accessed, served⟩ := onMemory_of_onCallerMemory done
  obtain ⟨context, carried⟩ := carriedOut steady.uniform accessed
  obtain ⟨context', here, rfl⟩ := Option.map_eq_some_iff.mp found
  obtain rfl := Option.some.inj (carried.found.symm.trans here)
  have sound := steady.sound.memory here before.machine.interpreter.journal
  have answered := carried.answered
  cases result : Memory.writeBytes address bytes (before.machine.interpreter.memoryOf context) with
  | ok answer' memory =>
      rw [result] at answered
      exact answered.symm
  | error fault memory =>
      rw [result] at answered
      rw [← answered, sound.fault_of_checked checked short result] at served
      exact absurd rfl served

end Accesses

/-! ## Calls and what their replay does -/

/-- Where a call that was answered and the effect of its record leave a hypervisor and its
shadow. -/
structure Replayed (capacity : Nat) (host : BufferHost) (replayer : Replayer)
    (before after after' : Hypervisor) : Prop where
  shadows : Shadows .same capacity after after'
  recording : after.own.recording = before.own.recording
  tallies : ∃ host' replayer', after.own.host = .buffer host' ∧
    after'.own.recording = .replay replayer' ∧ Tallies host host' replayer replayer'

/-- The record of a call. -/
def Call.record (call : Call) (result : Int64) (data : Bytes) : TraceRecord :=
  ⟨call.pc, call.number, result, data⟩

section HostCalls

variable {capacity : Nat} {left right after : Hypervisor} {host : BufferHost}
  {replayer : Replayer} {id : ContextId} {call : Call} {outcome : Outcome} {data : Bytes}

/-- Nothing is left to replay of a call that neither delivered nor wrote anything. -/
theorem Shadows.replayed (shadows : Shadows .same capacity after right)
    (replaying : right.own.recording = .replay replayer) {host' : BufferHost}
    (buffered : after.own.host = .buffer host') (same : host.SameOutput host')
    (recording : after.own.recording = left.own.recording) :
    Replayed capacity host replayer left after right :=
  ⟨shadows, recording, host', replayer, buffered, replaying, same.tallies replayer⟩

/-- Nothing is left to replay of a call that only looked at memory. -/
theorem Shadows.unnoticed (peeked : Shadows .same capacity after right ∧ after.own = left.own)
    (buffered : left.own.host = .buffer host)
    (replaying : right.own.recording = .replay replayer) :
    Replayed capacity host replayer left after right := by
  obtain ⟨shadows, own⟩ := peeked
  have unchanged : host.SameOutput host := ⟨rfl, rfl⟩
  refine shadows.replayed replaying ?_ unchanged ?_
  · rw [own, buffered]
  · rw [own]

/-- **The replay of a read.** -/
theorem replays_read (shadows : Shadows .same capacity left right)
    (buffered : left.own.host = .buffer host)
    (replaying : right.own.recording = .replay replayer)
    (served : serveRead id call left = .ok (outcome, data) after) :
    ∃ value after', outcome = .answer value ∧
      replayEffect id call .read (call.record value data) right = .ok () after' ∧
      Replayed capacity host replayer left after after' := by
  have unchanged : host.SameOutput host := ⟨rfl, rfl⟩
  unfold serveRead at served
  split at served
  · cases served
    exact ⟨0, right, rfl, rfl, shadows.replayed replaying buffered unchanged rfl⟩
  · obtain ⟨allowed, checked, check, served⟩ := ok_of_bind served
    have peeked := shadows.peek (.checkRange _ _ _) check
    cases allowed with
    | error fault =>
        cases served
        exact ⟨-1, right, rfl, rfl, Shadows.unnoticed peeked buffered replaying⟩
    | ok _ =>
        obtain ⟨space, found, writable⟩ := checked_of_check shadows.leftUniform check
        obtain ⟨answer, asked, ask, served⟩ := ok_of_bind served
        have reads := host.read_spec call.first.toNat call.third.toNat
        rw [askHost_buffer (by rw [peeked.2, buffered]) rfl] at ask
        injection ask with answers states
        have after_ask : Shadows .same capacity asked right := by
          rw [← states]
          exact peeked.1.equip _ checked.own.recording right.own.host right.own.recording
        have host_ask : asked.own.host =
            .buffer (finalState (host.read call.first.toNat call.third.toNat)) := by
          rw [← states]
        have recording_ask : asked.own.recording = left.own.recording := by
          rw [← states, ← peeked.2]
        cases answer with
        | error refusal =>
            obtain ⟨_, noted, note, served⟩ := ok_of_bind served
            cases served
            cases note
            exact ⟨-1, right, rfl, rfl, (after_ask.journals _ _).replayed replaying host_ask reads.1
              recording_ask⟩
        | ok bytes =>
            have short := reads.2 bytes answers
            obtain ⟨written, delivered, write, served⟩ := ok_of_bind served
            have inside : spaceOf asked id = some space := by
              rw [← states]
              exact found
            obtain rfl := after_ask.steady.delivers inside writable short write
            cases served
            refine ⟨Int64.ofNat data.length, ?_⟩
            by_cases empty : data.isEmpty = true
            · rw [List.isEmpty_iff.mp empty] at write ⊢
              have peeked' := after_ask.peek (.writeBytes_nil _) write
              refine ⟨right, rfl, rfl, peeked'.1.replayed replaying ?_ reads.1 ?_⟩
              · rw [peeked'.2, host_ask]
              · rw [peeked'.2, recording_ask]
            · obtain ⟨after', write', shadows', own, own'⟩ := after_ask.callerMemory
                (.writeBytes _ _) write
              refine ⟨after', rfl, ?_, shadows', by rw [own, recording_ask], _, replayer, ?_, ?_,
                reads.1.tallies replayer⟩
              · show (if data.isEmpty then _ else _ : HypervisorAction Unit) right = _
                rw [if_neg empty]
                unfold deliverRead
                exact bind_of_ok write' _
              · rw [own, host_ask]
              · rw [own', replaying]

/-- Keeping what was written during a replay. -/
theorem capture_apply {hypervisor : Hypervisor}
    (replaying : hypervisor.own.recording = .replay replayer) (call : Call) (bytes : Bytes) :
    modifyOwn (fun own =>
        match own.recording with
        | .replay replayer =>
            { own with recording := .replay (replayer.capture call.first.toNat bytes) }
        | _ => own) hypervisor =
      .ok () { hypervisor with own := { hypervisor.own with
        recording := .replay (replayer.capture call.first.toNat bytes) } } := by
  unfold modifyOwn
  show EStateM.Result.ok () _ = EStateM.Result.ok () _
  dsimp only
  rw [replaying]

/-- **The replay of a write.** -/
theorem replays_write (shadows : Shadows .same capacity left right)
    (buffered : left.own.host = .buffer host)
    (replaying : right.own.recording = .replay replayer)
    (served : serveWrite id call left = .ok outcome after) :
    ∃ value after', outcome = .answer value ∧
      replayEffect id call .write (call.record value []) right = .ok () after' ∧
      Replayed capacity host replayer left after after' := by
  have unchanged : host.SameOutput host := ⟨rfl, rfl⟩
  unfold serveWrite at served
  split at served
  · cases served
    exact ⟨0, right, rfl, rfl, shadows.replayed replaying buffered unchanged rfl⟩
  · rename_i nonempty
    obtain ⟨found, fetched, fetch, served⟩ := ok_of_bind served
    have peeked := shadows.peek (.readBytes _ _) fetch
    cases found with
    | error fault =>
        cases served
        exact ⟨-1, right, rfl, rfl, Shadows.unnoticed peeked buffered replaying⟩
    | ok bytes =>
        obtain ⟨context, carried⟩ := carriedOut shadows.leftUniform
          (onMemory_of_onCallerMemory fetch).1
        obtain ⟨length, bound⟩ := carried.length_of_readBytes
        obtain ⟨answer, asked, ask, served⟩ := ok_of_bind served
        rw [askHost_buffer (by rw [peeked.2, buffered]) rfl] at ask
        rcases host.write_spec call.first.toNat bytes with ⟨host', write, output⟩ | ⟨refusal, write⟩
        · rw [write] at ask
          cases ask
          cases served
          obtain ⟨after', fetch', shadows', own, own'⟩ :=
            shadows.callerMemory (.readBytes _ _) fetch
          have value : (Int64.ofNat bytes.length).toInt = bytes.length :=
            Int64.toInt_ofNat_of_lt (by
              unfold addressSpaceSize at bound
              omega)
          have positive : 0 < Int64.ofNat bytes.length := by
            rw [Int64.lt_iff_toInt_lt, value]
            show (0 : Int) < _
            omega
          have replaying' : after'.own.recording = .replay replayer := by rw [own', replaying]
          refine ⟨_, { after' with own := { after'.own with
            recording := .replay (replayer.capture call.first.toNat bytes) } }, rfl, ?_, ?_⟩
          · show (if 0 < Int64.ofNat bytes.length then _ else _ : HypervisorAction Unit) right = _
            rw [if_pos positive]
            show captureWrite id call (Int64.ofNat bytes.length).toInt.toNat right = _
            rw [value, Int.toNat_natCast, length]
            exact (bind_of_ok fetch' _).trans (capture_apply replaying' call bytes)
          · refine ⟨shadows'.equip _ fetched.own.recording after'.own.host _, ?_, host', _, rfl,
              rfl, rfl, rfl, ?_, ?_⟩
            · rw [← peeked.2]
            · exact ⟨_, output.1, replayer.transcript_capture _ _ _⟩
            · exact ⟨_, output.2, replayer.transcript_capture _ _ _⟩
        · rw [write] at ask
          cases ask
          obtain ⟨_, noted, note, served⟩ := ok_of_bind served
          cases served
          cases note
          have asked : Shadows .same capacity
              { fetched with own := { fetched.own with host := .buffer host } } right :=
            peeked.1.equip _ fetched.own.recording right.own.host right.own.recording
          refine ⟨-1, right, rfl, rfl, (asked.journals _ _).replayed replaying rfl unchanged ?_⟩
          rw [← peeked.2]

/-- Nothing is left to replay when a file was opened, or was not. -/
theorem replays_open (shadows : Shadows .same capacity left right)
    (buffered : left.own.host = .buffer host)
    (replaying : right.own.recording = .replay replayer)
    (served : serveOpen id call left = .ok outcome after) :
    ∃ value, outcome = .answer value ∧ Replayed capacity host replayer left after right := by
  unfold serveOpen at served
  obtain ⟨found, fetched, fetch, served⟩ := ok_of_bind served
  have peeked := shadows.peek (.readString _ _) fetch
  have untouched : Replayed capacity host replayer left fetched right :=
    Shadows.unnoticed peeked buffered replaying
  cases found with
  | error fault =>
      cases served
      exact ⟨-1, rfl, untouched⟩
  | ok bytes =>
      cases decoded : Bytes.toString? bytes with
      | none =>
          simp only [decoded] at served
          cases served
          exact ⟨-1, rfl, untouched⟩
      | some path =>
          simp only [decoded] at served
          obtain ⟨answer, asked, ask, served⟩ := ok_of_bind served
          rw [askHost_buffer (by rw [peeked.2, buffered]) rfl] at ask
          injection ask with answers states
          have same := host.openFile_spec path (.ofNumber call.third.toNat)
          have after_ask : Shadows .same capacity asked right := by
            rw [← states]
            exact peeked.1.equip _ fetched.own.recording right.own.host right.own.recording
          have recording : asked.own.recording = left.own.recording := by
            rw [← states, ← peeked.2]
          cases answer with
          | ok descriptor =>
              cases served
              refine ⟨_, rfl, after_ask.replayed replaying ?_ same recording⟩
              rw [← states]
          | error refusal =>
              obtain ⟨_, noted, note, served⟩ := ok_of_bind served
              cases served
              cases note
              refine ⟨-1, rfl, (after_ask.journals _ _).replayed replaying ?_ same recording⟩
              rw [← states]

/-- **Whatever a call that reaches the host did, its record brings about in the shadow.** -/
theorem replays_serve {kind : SystemCall} (reaches : kind.reachesHost = true)
    (shadows : Shadows .same capacity left right) (buffered : left.own.host = .buffer host)
    (replaying : right.own.recording = .replay replayer)
    (served : serve id call (some kind) left = .ok (outcome, data) after) :
    ∃ value after', outcome = .answer value ∧
      replayEffect id call kind (call.record value data) right = .ok () after' ∧
      Replayed capacity host replayer left after after' := by
  cases kind with
  | read => exact replays_read shadows buffered replaying served
  | write =>
      obtain ⟨found, middle, made, served⟩ := ok_of_bind served
      cases served
      exact replays_write shadows buffered replaying made
  | openFile =>
      obtain ⟨found, middle, made, served⟩ := ok_of_bind served
      cases served
      obtain ⟨value, same, replayed⟩ := replays_open shadows buffered replaying made
      exact ⟨value, right, same, rfl, replayed⟩
  | _ => cases reaches

end HostCalls

end Hypervisor

end NestedMachine
