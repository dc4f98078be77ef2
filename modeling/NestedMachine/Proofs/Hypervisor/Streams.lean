import NestedMachine.Proofs.Hypervisor.Atomicity
import NestedMachine.Proofs.Hypervisor.Wakeups
import NestedMachine.Proofs.Memory.Transfers

/-!
# Input and output are exact

A buffer host has one input, which all contexts share, and two outputs.  Of the calls that contexts
make, those count that were answered by anything but minus one: a read from the input has stored
bytes in the buffer of its caller (`ServedCall.taken`), and a write to an output has named a range
of bytes of its caller (`ServedCall.written`).

What a call does is told by what has passed between two moments of the host (`BufferHost.Exchange`).
A read that takes bytes from the host delivers them, since it has checked its buffer first, and a
write passes on what the range showed (`exchange_serveRead`, `exchange_serveWrite`).  No other call
turns to the streams, and nothing else that a hypervisor does turns to the host at all
(`abiding_connected`).  A turn makes at most one call (`Turn.servedCall?`), and a run of many rounds
consists of turns (`unrolled`); so by induction the streams hold what the calls have passed, in
their order and nothing more (`exact_streams`).
-/

namespace NestedMachine

set_option autoImplicit false

/-! ## The streams of a host -/

namespace BufferHost

/-- What has passed between two moments of a host: bytes that were taken from its input, and bytes
that have come to its outputs. -/
structure Exchange (taken output errors : Bytes) (before after : BufferHost) : Prop where
  input : before.input = taken ++ after.input
  output : after.output = before.output ++ output
  errors : after.errors = before.errors ++ errors

theorem Exchange.refl (host : BufferHost) : Exchange [] [] [] host host :=
  ⟨rfl, (List.append_nil _).symm, (List.append_nil _).symm⟩

/-- What passes later comes behind. -/
theorem Exchange.trans {taken taken' output output' errors errors' : Bytes}
    {before middle after : BufferHost} (first : Exchange taken output errors before middle)
    (second : Exchange taken' output' errors' middle after) :
    Exchange (taken ++ taken') (output ++ output') (errors ++ errors') before after where
  input := by rw [first.input, second.input, List.append_assoc]
  output := by rw [second.output, first.output, List.append_assoc]
  errors := by rw [second.errors, first.errors, List.append_assoc]

/-- A read takes from the input what it answers, or nothing if it is one from a file. -/
theorem exchange_read (number size : Nat) (host : BufferHost) :
    (∃ bytes after, host.read number size = .ok bytes after ∧
      Exchange (toStream 0 number bytes) [] [] host after) ∨
    ∃ refusal, host.read number size = .error refusal host := by
  unfold read toStream
  by_cases standard : number = 0
  · left
    rw [if_pos standard]
    refine ⟨_, _, rfl, ?_, (List.append_nil _).symm, (List.append_nil _).symm⟩
    rw [if_pos standard]
    exact (List.take_append_drop size host.input).symm
  · rw [if_neg standard]
    split
    · exact .inr ⟨_, rfl⟩
    · split
      · split
        · exact .inr ⟨_, rfl⟩
        · left
          exact ⟨_, _, rfl, rfl, (List.append_nil _).symm, (List.append_nil _).symm⟩
      · exact .inr ⟨_, rfl⟩

/-- A write adds all of its bytes to the stream of its number, or to a file. -/
theorem exchange_write (number : Nat) (bytes : Bytes) (host : BufferHost) :
    (∃ after, host.write number bytes = .ok bytes.length after ∧
      Exchange [] (toStream 1 number bytes) (toStream 2 number bytes) host after) ∨
    ∃ refusal, host.write number bytes = .error refusal host := by
  have untouched : (finalState (host.write number bytes)).input = host.input := by
    unfold write
    split
    · rfl
    · split
      · rfl
      · split
        · rfl
        · split <;> rfl
  refine (host.write_spec number bytes).imp_left ?_
  rintro ⟨after, done, output, errors⟩
  rw [done] at untouched
  exact ⟨after, done, untouched.symm, output, errors⟩

/-- Opening a file passes nothing. -/
theorem exchange_openFile (path : String) (flags : OpenFlags) (host : BufferHost) :
    Exchange [] [] [] host (finalState (host.openFile path flags)) := by
  have same := host.openFile_spec path flags
  refine ⟨?_, by rw [same.output, List.append_nil], by rw [same.errors, List.append_nil]⟩
  unfold openFile
  split
  · rfl
  · dsimp only [finalState]
    split <;> rfl

end BufferHost

/-! ## The memory of contexts -/

/-- The bytes that a context sees from an address on. -/
def Machine.shown (machine : Machine) (id : ContextId) (address size : Nat) : Bytes :=
  match machine.context? id with
  | some context =>
      Memory.bytesAt ⟨context.space, machine.interpreter.pool, .silent⟩ address size
  | none => []

/-- What a context finds in the register of the answer to its call. -/
def Machine.answerTo (machine : Machine) (id : ContextId) : UInt64 :=
  ((machine.context? id).map fun context => context.register Register.a0).getD 0

namespace Machine

theorem shown_zero (machine : Machine) (id : ContextId) (address : Nat) :
    machine.shown id address 0 = [] := by
  unfold shown
  split <;> rfl

/-- Changes that leave address spaces alone cannot be seen. -/
theorem shown_modifyContext (machine : Machine) (id other : ContextId)
    {change : Context → Context} (space : ∀ context, (change context).space = context.space) :
    (machine.modifyContext id change).shown other = machine.shown other := by
  funext address size
  unfold shown
  rw [Hypervisor.context?_modifyContext, Hypervisor.pool_modifyContext]
  by_cases same : id = other
  · rw [if_pos same]
    cases machine.context? other with
    | none => rfl
    | some context =>
        exact congrArg (fun space => Memory.bytesAt ⟨space, machine.interpreter.pool, .silent⟩
          address size) (space context)
  · rw [if_neg same]

end Machine

namespace Hypervisor

variable {α : Type} {capacity : Nat} {id : ContextId} {origin called middle after : Hypervisor}
  {host : BufferHost} {call : Call}

theorem CarriedOut.uniform {action : MemoryAction α} {answer : Except Fault α} {context : Context}
    (carried : CarriedOut id action origin answer after context)
    (uniform : origin.machine.Uniform) : after.machine.Uniform := by
  have kept := Machine.contains_withMemory origin.machine.interpreter id action
  rw [Interpreter.withMemory_of_some carried.found] at kept
  rw [carried.kept]
  exact uniform.congr rfl kept

/-- An access leaves the contexts as they are, apart from an address space. -/
theorem CarriedOut.context? {action : MemoryAction α} {answer : Except Fault α} {context : Context}
    (carried : CarriedOut id action origin answer after context) (uniform : origin.machine.Uniform)
    (other : ContextId) : after.machine.context? other =
      if id = other then some { context with
        space := (finalState (action (origin.machine.interpreter.memoryOf context))).space }
      else origin.machine.context? other := by
  rw [uniform.context?, (carried.uniform uniform).context?, Interpreter.context?, carried.kept]
  exact Table.getElem?_insert ..

/-- What a context sees before an access, and after it. -/
theorem CarriedOut.shown {action : MemoryAction α} {answer : Except Fault α} {context : Context}
    (carried : CarriedOut id action origin answer after context) (uniform : origin.machine.Uniform)
    (address size : Nat) :
    origin.machine.shown id address size =
        (origin.machine.interpreter.memoryOf context).bytesAt address size ∧
      after.machine.shown id address size =
        (finalState (action (origin.machine.interpreter.memoryOf context))).bytesAt address
          size := by
  unfold Machine.shown
  rw [carried.context? uniform, if_pos rfl, uniform.context?, Interpreter.context?, carried.found]
  refine ⟨rfl, ?_⟩
  rw [carried.kept]
  rfl

/-! ## Calls that pass bytes -/

/-- The answer to a call that cannot be done. -/
def declined : UInt64 := (-1 : Int64).toUInt64

namespace Call

/-- A call is of a kind and for a descriptor, and is answered as done. -/
structure Passes (call : Call) (kind : SystemCall) (descriptor : Nat) (answer : UInt64) : Prop where
  kind : SystemCall.ofNumber? call.number.toNat = some kind
  descriptor : call.first.toNat = descriptor
  done : answer ≠ declined

instance (kind : SystemCall) (descriptor : Nat) (answer : UInt64) :
    Decidable (call.Passes kind descriptor answer) :=
  decidable_of_iff (SystemCall.ofNumber? call.number.toNat = some kind ∧
      call.first.toNat = descriptor ∧ answer ≠ declined)
    ⟨fun ⟨kind, descriptor, done⟩ => ⟨kind, descriptor, done⟩,
      fun passes => ⟨passes.kind, passes.descriptor, passes.done⟩⟩

/-- The bytes that an answered read has taken from the input: as many as its answer says, in its
buffer. -/
def taken (call : Call) (answer : UInt64) (memory : Nat → Nat → Bytes) : Bytes :=
  if call.Passes .read 0 answer then memory call.second.toNat answer.toNat else []

/-- The bytes that an answered write has named for an output. -/
def written (stream : Nat) (call : Call) (answer : UInt64) (memory : Nat → Nat → Bytes) : Bytes :=
  if call.Passes .write stream answer then memory call.second.toNat call.third.toNat else []

end Call

/-- A supervisor that makes its calls to a buffer host. -/
structure Calling (host : BufferHost) (own : Supervisor) : Prop where
  buffered : own.host = .buffer host
  live : own.recording.isReplaying = false

/-- A steady hypervisor that makes its calls to a buffer host. -/
def Connected (capacity : Nat) (host : BufferHost) (hypervisor : Hypervisor) : Prop :=
  Steady capacity hypervisor ∧ Calling host hypervisor.own

/-- **Nothing turns to the host or to the recording but calls.** -/
theorem abiding_connected : Abiding (Connected capacity host) := by
  refine abiding_steady.record ?_ ?_ ?_
  · intro change clerical own given
    exact ⟨(clerical.host own).trans given.buffered, clerical.recording own ▸ given.live⟩
  · exact fun _ _ given => ⟨given.buffered, given.live⟩
  · exact fun _ _ given => ⟨given.buffered, given.live⟩

namespace Connected

variable {request : Host → HostAnswer α} {result : EStateM.Result HostRefusal BufferHost α}

/-- What a request to the host leaves. -/
theorem ask (connected : Connected capacity host origin)
    (answers : request (.buffer host) = Host.ofBuffer result)
    {answer : Except HostRefusal α} (asked : askHost request origin = .ok answer after) :
    answer = answerOf result ∧ Connected capacity (finalState result) after ∧
      after.machine = origin.machine := by
  obtain ⟨steady, ⟨buffered, live⟩⟩ := connected
  rw [askHost_buffer buffered answers] at asked
  cases asked
  exact ⟨rfl, ⟨⟨steady.sound, steady.uniform⟩, rfl, live⟩, rfl⟩

theorem kept {action : HypervisorAction α} {answer : α}
    (keeps : Keeps (Connected capacity host) action) (connected : Connected capacity host origin)
    (done : action origin = .ok answer after) : Connected capacity host after := by
  have kept := keeps origin connected
  rw [done] at kept
  exact kept

end Connected

/-- The word of a number that is no larger than an address space. -/
theorem toNat_answer {number : Nat} (small : number ≤ addressSpaceSize) :
    (Int64.ofNat number).toUInt64.toNat = number ∧
      (Int64.ofNat number).toUInt64 ≠ declined := by
  have word : (Int64.ofNat number).toUInt64.toNat = number % 2 ^ 64 := UInt64.toNat_ofNat'
  unfold addressSpaceSize at small
  refine ⟨by omega, fun same => ?_⟩
  have top : declined.toNat = 2 ^ 64 - 1 := by decide
  rw [same, top] at word
  omega

/-- Bytes that a call has fetched are those that the caller saw. -/
theorem Steady.shown_of_read (steady : Steady capacity origin) {address size : Nat} {bytes : Bytes}
    (done : onCallerMemory id call (Memory.readBytes address size) origin = .ok (.ok bytes) after) :
    origin.machine.shown id address size = bytes := by
  obtain ⟨context, carried⟩ := carriedOut steady.uniform (onMemory_of_onCallerMemory done).1
  have sound := steady.sound.memory carried.found origin.machine.interpreter.journal
  rw [(carried.shown steady.uniform address size).1]
  exact (sound.eq_of_readBytes (ok_of_answerOf carried.answered)).symm

/-- Bytes that a call has delivered are those that the caller sees. -/
theorem Steady.shown_of_written (steady : Steady capacity origin) {address : Nat} {bytes : Bytes}
    (done : onCallerMemory id call (Memory.writeBytes address bytes) origin = .ok (.ok ()) after) :
    after.machine.shown id address bytes.length = bytes := by
  obtain ⟨context, carried⟩ := carriedOut steady.uniform (onMemory_of_onCallerMemory done).1
  have sound := steady.sound.memory carried.found origin.machine.interpreter.journal
  rw [(carried.shown steady.uniform address bytes.length).2]
  exact sound.bytesAt_of_writeBytes (ok_of_answerOf carried.answered)

namespace Call

/-- What passes when a call is answered, between two views of the caller's memory: the bytes that
are in its buffer then, and those that it named before. -/
def Exchanges (call : Call) (answer : UInt64) (before later : Nat → Nat → Bytes) :
    BufferHost → BufferHost → Prop :=
  BufferHost.Exchange (call.taken answer later) (call.written 1 answer before)
    (call.written 2 answer before)

variable {answer : UInt64} {before later : Nat → Nat → Bytes} {host' : BufferHost} {bytes : Bytes}

/-- Nothing passes when a call does not turn to the streams, or is declined. -/
theorem exchanges_of_idle (reads : ¬call.Passes .read 0 answer)
    (writes : ∀ stream, ¬call.Passes .write stream answer)
    (exchange : BufferHost.Exchange [] [] [] host host') :
    call.Exchanges answer before later host host' := by
  unfold Exchanges taken written
  rwa [if_neg reads, if_neg (writes 1), if_neg (writes 2)]

theorem exchanges_of_declined (exchange : BufferHost.Exchange [] [] [] host host') :
    call.Exchanges declined before later host host' :=
  exchanges_of_idle (fun passes => passes.done rfl) (fun _ passes => passes.done rfl) exchange

/-- A read passes what it answers. -/
theorem exchanges_of_read (kind : SystemCall.ofNumber? call.number.toNat = some .read)
    (done : answer ≠ declined) (shown : later call.second.toNat answer.toNat = bytes)
    (exchange : BufferHost.Exchange (BufferHost.toStream 0 call.first.toNat bytes) [] [] host
      host') : call.Exchanges answer before later host host' := by
  have silent (stream : Nat) : ¬call.Passes .write stream answer := by
    intro passes
    cases kind.symm.trans passes.kind
  have same : call.taken answer later =
      BufferHost.toStream 0 call.first.toNat bytes := by
    unfold taken BufferHost.toStream
    rw [shown]
    by_cases standard : call.first.toNat = 0
    · rw [if_pos standard, if_pos ⟨kind, standard, done⟩]
    · rw [if_neg standard, if_neg fun passes => standard passes.descriptor]
  unfold Exchanges written
  rwa [same, if_neg (silent 1), if_neg (silent 2)]

/-- A write passes what it has named. -/
theorem exchanges_of_write (kind : SystemCall.ofNumber? call.number.toNat = some .write)
    (done : answer ≠ declined)
    (shown : before call.second.toNat call.third.toNat = bytes)
    (exchange : BufferHost.Exchange [] (BufferHost.toStream 1 call.first.toNat bytes)
      (BufferHost.toStream 2 call.first.toNat bytes) host host') :
    call.Exchanges answer before later host host' := by
  have silent : ¬call.Passes .read 0 answer := by
    intro passes
    cases kind.symm.trans passes.kind
  have same (stream : Nat) : call.written stream answer before =
      BufferHost.toStream stream call.first.toNat bytes := by
    unfold written BufferHost.toStream
    rw [shown]
    by_cases named : call.first.toNat = stream
    · rw [if_pos named, if_pos ⟨kind, named, done⟩]
    · rw [if_neg named, if_neg fun passes => named passes.descriptor]
  unfold Exchanges taken
  rwa [same, same, if_neg silent]

end Call

section Calls

variable {outcome : Outcome} {data : Bytes}

/-- **A read stores what it takes.** -/
theorem exchange_serveRead (kind : SystemCall.ofNumber? call.number.toNat = some .read)
    (connected : Connected capacity host origin)
    (served : serveRead id call origin = .ok (outcome, data) after) :
    ∃ value host', outcome = .answer value ∧ Connected capacity host' after ∧
      call.Exchanges value.toUInt64 (origin.machine.shown id) (after.machine.shown id) host
        host' := by
  unfold serveRead at served
  split at served
  · cases served
    refine ⟨0, host, rfl, connected, ?_⟩
    refine Call.exchanges_of_read kind (by decide) (Machine.shown_zero ..) ?_
    unfold BufferHost.toStream
    split <;> exact .refl host
  · obtain ⟨allowed, checked, check, served⟩ := ok_of_bind served
    have connected' := connected.kept (abiding_connected.callerMemory id call (.checkRange _ _ _))
      check
    cases allowed with
    | error fault =>
        cases served
        exact ⟨-1, host, rfl, connected', Call.exchanges_of_declined (.refl host)⟩
    | ok _ =>
        obtain ⟨space, found, writable⟩ := checked_of_check connected.1.uniform check
        obtain ⟨answer, asked, ask, served⟩ := ok_of_bind served
        obtain ⟨same, connected'', machine⟩ := connected'.ask rfl ask
        have short := (host.read_spec call.first.toNat call.third.toNat).2
        rcases host.exchange_read call.first.toNat call.third.toNat with
          ⟨bytes, host', read, exchange⟩ | ⟨refusal, read⟩
        · rw [read] at same connected'' short
          subst same
          obtain ⟨written, delivered, write, served⟩ := ok_of_bind served
          have inside : spaceOf asked id = some space := by
            unfold spaceOf
            rwa [machine]
          have short := short bytes rfl
          obtain rfl := connected''.1.delivers inside writable short write
          cases served
          have small := short.trans (Memory.size_le_of_checkRange writable)
          obtain ⟨word, done⟩ := toNat_answer small
          refine ⟨_, host', rfl, connected''.kept
            (abiding_connected.callerMemory id call (.writeBytes _ _)) write, ?_⟩
          refine Call.exchanges_of_read kind done ?_ exchange
          rw [word]
          exact connected''.1.shown_of_written write
        · rw [read] at same connected''
          subst same
          obtain ⟨_, noted, note, served⟩ := ok_of_bind served
          cases served
          exact ⟨-1, host, rfl, connected''.kept (abiding_connected.note _) note,
            Call.exchanges_of_declined (.refl host)⟩

/-- **A write passes on what it has named.** -/
theorem exchange_serveWrite (kind : SystemCall.ofNumber? call.number.toNat = some .write)
    (connected : Connected capacity host origin)
    (served : serveWrite id call origin = .ok outcome after) :
    ∃ value host', outcome = .answer value ∧ Connected capacity host' after ∧
      call.Exchanges value.toUInt64 (origin.machine.shown id) (after.machine.shown id) host
        host' := by
  unfold serveWrite at served
  split at served
  · rename_i empty
    cases served
    refine ⟨0, host, rfl, connected, ?_⟩
    have nothing : origin.machine.shown id call.second.toNat call.third.toNat = [] := by
      rw [empty]
      exact Machine.shown_zero ..
    refine Call.exchanges_of_write kind (by decide) nothing ?_
    unfold BufferHost.toStream
    split <;> split <;> exact .refl host
  · obtain ⟨found, fetched, fetch, served⟩ := ok_of_bind served
    have connected' := connected.kept (abiding_connected.callerMemory id call (.readBytes _ _))
      fetch
    cases found with
    | error fault =>
        cases served
        exact ⟨-1, host, rfl, connected', Call.exchanges_of_declined (.refl host)⟩
    | ok bytes =>
        obtain ⟨context, carried⟩ := carriedOut connected.1.uniform
          (onMemory_of_onCallerMemory fetch).1
        obtain ⟨length, bound⟩ := carried.length_of_readBytes
        obtain ⟨answer, asked, ask, served⟩ := ok_of_bind served
        obtain ⟨same, connected'', -⟩ := connected'.ask rfl ask
        rcases host.exchange_write call.first.toNat bytes with
          ⟨host', write, exchange⟩ | ⟨refusal, write⟩
        · rw [write] at same connected''
          subst same
          cases served
          obtain ⟨-, done⟩ := toNat_answer (length.trans_le bound)
          exact ⟨_, host', rfl, connected'',
            Call.exchanges_of_write kind done (connected.1.shown_of_read fetch) exchange⟩
        · rw [write] at same connected''
          subst same
          obtain ⟨_, noted, note, served⟩ := ok_of_bind served
          cases served
          exact ⟨-1, host, rfl, connected''.kept (abiding_connected.note _) note,
            Call.exchanges_of_declined (.refl host)⟩

/-- Opening a file passes nothing. -/
theorem exchange_serveOpen (connected : Connected capacity host origin)
    (served : serveOpen id call origin = .ok outcome after) :
    ∃ host', Connected capacity host' after ∧ BufferHost.Exchange [] [] [] host host' := by
  unfold serveOpen at served
  obtain ⟨found, fetched, fetch, served⟩ := ok_of_bind served
  have connected' := connected.kept (abiding_connected.callerMemory id call (.readString _ _)) fetch
  cases found with
  | error fault =>
      cases served
      exact ⟨host, connected', .refl host⟩
  | ok bytes =>
      cases decoded : Bytes.toString? bytes with
      | none =>
          simp only [decoded] at served
          cases served
          exact ⟨host, connected', .refl host⟩
      | some path =>
          simp only [decoded] at served
          obtain ⟨answer, asked, ask, served⟩ := ok_of_bind served
          obtain ⟨-, connected'', -⟩ := connected'.ask rfl ask
          have exchange := host.exchange_openFile path (.ofNumber call.third.toNat)
          cases answer with
          | ok descriptor =>
              cases served
              exact ⟨_, connected'', exchange⟩
          | error refusal =>
              obtain ⟨_, noted, note, served⟩ := ok_of_bind served
              cases served
              exact ⟨_, connected''.kept (abiding_connected.note _) note, exchange⟩

/-- What a call that has come to an outcome has passed.  Unless it was answered, it is none of those
that pass anything. -/
inductive Call.Settles (call : Call) (before later : Nat → Nat → Bytes)
    (host host' : BufferHost) : Outcome → Prop where
  | answered {value : Int64} (exchanges : call.Exchanges value.toUInt64 before later host host') :
      Settles call before later host host' (.answer value)
  | idle {outcome : Outcome}
      (exchanges : ∀ answer view view', call.Exchanges answer view view' host host') :
      Settles call before later host host' outcome

/-- **What a call passes.** -/
theorem settles_serve (connected : Connected capacity host origin)
    (served : serve id call (SystemCall.ofNumber? call.number.toNat) origin =
      .ok (outcome, data) after) : ∃ host', Connected capacity host' after ∧
        call.Settles (origin.machine.shown id) (after.machine.shown id) host host' outcome := by
  have respects := (abiding_connected : Abiding (Connected capacity host)).respects
  have aside {kind : Option SystemCall} {host' : BufferHost}
      (same : SystemCall.ofNumber? call.number.toNat = kind) (reads : kind ≠ some .read)
      (writes : kind ≠ some .write) (exchange : BufferHost.Exchange [] [] [] host host') :
      call.Settles (origin.machine.shown id) (after.machine.shown id) host host' outcome := by
    subst same
    refine .idle fun answer before later => Call.exchanges_of_idle ?_ ?_ exchange
    · exact fun passes => reads passes.kind
    · exact fun stream passes => writes passes.kind
  have wrapped {action : HypervisorAction Outcome}
      (keeps : Keeps (Connected capacity host) action)
      (done : (do return (← action, ([] : Bytes))) origin = .ok (outcome, data) after) :
      Connected capacity host after :=
    connected.kept (keeps.bind fun _ => .pure _) done
  cases kind : SystemCall.ofNumber? call.number.toNat with
  | none =>
      rw [kind] at served
      cases served
      exact ⟨host, connected, aside kind nofun nofun (.refl host)⟩
  | some made =>
      rw [kind] at served
      cases made with
      | read =>
          obtain ⟨value, host', rfl, connected', exchanges⟩ :=
            exchange_serveRead kind connected served
          exact ⟨host', connected', .answered exchanges⟩
      | write =>
          obtain ⟨_, _, write, served⟩ := ok_of_bind served
          cases served
          obtain ⟨value, host', rfl, connected', exchanges⟩ :=
            exchange_serveWrite kind connected write
          exact ⟨host', connected', .answered exchanges⟩
      | openFile =>
          obtain ⟨_, _, opened, served⟩ := ok_of_bind served
          cases served
          obtain ⟨host', connected', exchange⟩ := exchange_serveOpen connected opened
          exact ⟨host', connected', aside kind nofun nofun exchange⟩
      | exit | yield =>
          cases served
          exact ⟨host, connected, aside kind nofun nofun (.refl host)⟩
      | kill =>
          have kept := wrapped (abiding_connected.keeps (respects.serveKill id call)) served
          exact ⟨host, kept, aside kind nofun nofun (.refl host)⟩
      | setBreak =>
          have kept := wrapped (abiding_connected.keeps (respects.serveBreak id call)) served
          exact ⟨host, kept, aside kind nofun nofun (.refl host)⟩
      | fork =>
          have kept := wrapped (abiding_connected.keeps (respects.serveFork id)) served
          exact ⟨host, kept, aside kind nofun nofun (.refl host)⟩
      | wait =>
          have kept := wrapped (abiding_connected.keeps (respects.serveWait id call)) served
          exact ⟨host, kept, aside kind nofun nofun (.refl host)⟩

/-- The completion of a call is noted, and nothing else. -/
theorem Connected.noted (connected : Connected capacity host origin)
    (done : noteCompleted call outcome data origin = .ok () after) :
    Connected capacity host after ∧ after.machine = origin.machine := by
  unfold noteCompleted at done
  cases result : outcome.result? with
  | none =>
      simp only [result] at done
      cases done
      exact ⟨connected, rfl⟩
  | some value =>
      simp only [result] at done
      rw [get_bind_apply] at done
      obtain ⟨steady, ⟨buffered, live⟩⟩ := connected
      cases recording : origin.own.recording with
      | off =>
          simp only [recording] at done
          cases done
          exact ⟨⟨steady, buffered, live⟩, rfl⟩
      | record trace =>
          simp only [recording] at done
          cases done
          exact ⟨⟨⟨steady.sound, steady.uniform⟩, buffered, rfl⟩, rfl⟩
      | replay replayer =>
          rw [recording] at live
          cases live

theorem settles_dispatch (connected : Connected capacity host origin) {context : Context}
    (found : origin.machine.context? id = some context)
    (done : dispatch id origin = .ok outcome after) :
    ∃ host', Connected capacity host' after ∧
      (Call.ofContext context).Settles (origin.machine.shown id) (after.machine.shown id) host
        host' outcome := by
  obtain ⟨data, served, serve, record⟩ := performed_of_dispatch found (.inl connected.2.live) done
  have heeded : Connected capacity host (heeding id (Call.ofContext context) origin) :=
    ⟨⟨connected.1.sound.congr rfl (fun _ => rfl) le_rfl,
        connected.1.uniform.congr rfl fun _ => rfl⟩,
      connected.2.buffered, connected.2.live⟩
  obtain ⟨host', connected', settles⟩ := settles_serve heeded serve
  obtain ⟨connected'', same⟩ := connected'.noted record
  refine ⟨host', connected'', ?_⟩
  rw [same]
  exact settles

end Calls

/-! ## Turns -/

/-- An answer leaves address spaces alone. -/
theorem Steady.answering (steady : Steady capacity middle) {pc : UInt64} {value : Int64} :
    Steady capacity (middle.answering id pc value) := by
  have moved : Steady capacity { middle with
      machine := middle.machine.modifyContext id fun context =>
        (context.withRegister Register.a0 value.toUInt64).withPc (pc + 4) } :=
    steady.modifyContext id fun _ => rfl
  have readied : Steady capacity { middle with
      machine := (middle.answering id pc value).machine } := moved.modifyContext id fun _ => rfl
  exact ⟨readied.sound, readied.uniform⟩

/-- The answer to a call is what its caller finds. -/
theorem answerTo_answering {pc : UInt64} {value : Int64} {context : Context}
    (found : middle.machine.context? id = some context) :
    (middle.answering id pc value).machine.answerTo id = value.toUInt64 := by
  unfold Machine.answerTo
  rw [context?_answering, if_pos rfl, found]
  exact register_answer ..

theorem shown_calling (other : ContextId) :
    (called.calling id).machine.shown other = called.machine.shown other :=
  Machine.shown_modifyContext _ _ _ fun _ => rfl

theorem shown_answering {pc : UInt64} {value : Int64} (other : ContextId) :
    (middle.answering id pc value).machine.shown other = middle.machine.shown other := by
  unfold answering
  rw [Machine.shown_modifyContext, Machine.shown_modifyContext] <;> exact fun _ => rfl

/-- **What the service of a call passes.** -/
theorem exchange_serviceCall (connected : Connected capacity host called) {context : Context}
    (found : called.machine.context? id = some context)
    (served : serviceCall id called = .ok () after) :
    ∃ host', Connected capacity host' after ∧
      (Call.ofContext context).Exchanges (after.machine.answerTo id)
        (called.machine.shown id) (after.machine.shown id) host host' := by
  have calling : Connected capacity host (called.calling id) :=
    ⟨connected.1.modifyContext id fun _ => rfl, connected.2⟩
  obtain ⟨outcome, dispatched, dispatch, concludes⟩ := concluded_of_serviceCall found served
  have there := context?_calling_self found
  obtain ⟨host', connected', settles⟩ := settles_dispatch calling there dispatch
  have respects' := (abiding_connected : Abiding (Connected capacity host')).respects
  rw [shown_calling] at settles
  refine ⟨host', ?_, ?_⟩
  · cases concludes with
    | answered _ same =>
        subst same
        exact ⟨connected'.1.answering, connected'.2.buffered, connected'.2.live⟩
    | exited moves ends =>
        have moved := connected'.kept (abiding_connected.modifyContext id fun _ _ => rfl) moves
        exact moved.kept (abiding_connected.keeps (respects'.terminate id _)) ends
    | blocked waits =>
        exact connected'.kept (abiding_connected.keeps (respects'.setState id _)) waits
    | faulted faults =>
        exact connected'.kept (abiding_connected.keeps (respects'.handleFault id _ _)) faults
  · cases settles with
    | idle exchanges => exact exchanges _ _ _
    | @answered value exchanges =>
        obtain ⟨⟨resumed, found'⟩, rfl⟩ := concludes
        rw [answerTo_answering found', shown_answering]
        exact exchanges

/-- An environment call that a turn has served: who made it, what was asked for, and the machine at
the call and after the turn. -/
structure ServedCall where
  caller : ContextId
  call : Call
  called : Machine
  after : Machine

namespace ServedCall

/-- The answer that the caller finds. -/
def answer (served : ServedCall) : UInt64 := served.after.answerTo served.caller

/-- The bytes that lie in the buffer of a read from the input, as many as it was answered. -/
def taken (served : ServedCall) : Bytes :=
  served.call.taken served.answer (served.after.shown served.caller)

/-- The bytes that a write to an output named, as they were at the call. -/
def written (stream : Nat) (served : ServedCall) : Bytes :=
  served.call.written stream served.answer (served.called.shown served.caller)

end ServedCall

/-- The call that a turn serves, if it ends in one. -/
def Turn.servedCall? (turn : Turn) (origin : Hypervisor) : Option ServedCall :=
  match turn.toTrap origin with
  | .ok (some (id, .environmentCall)) called =>
      (called.machine.context? id).map fun caller =>
        ⟨id, .ofContext caller, called.machine,
          (finalState (turn.operation.perform origin)).machine⟩
  | _ => none

/-- A turn that ends in a call serves it. -/
theorem Turn.servedCall?_of_call {turn : Turn} {context : Context} {answer : Answer}
    (reached : turn.toTrap origin = .ok (some (id, .environmentCall)) called)
    (found : called.machine.context? id = some context)
    (done : turn.operation.perform origin = .ok answer after) :
    turn.servedCall? origin = some ⟨id, .ofContext context, called.machine, after.machine⟩ := by
  unfold servedCall?
  simp only [reached, found, done, Option.map_some]
  rfl

/-- A turn that ends otherwise serves none. -/
theorem Turn.servedCall?_of_silent {turn : Turn} {trapped : Option (ContextId × Trap)}
    (reached : turn.toTrap origin = .ok trapped called)
    (silent : ∀ id, trapped ≠ some (id, .environmentCall)) : turn.servedCall? origin = none := by
  unfold servedCall?
  rw [reached]
  split
  · rename_i id called' same
    cases same
    exact absurd rfl (silent id)
  · rfl

/-- What has passed between two moments of a host is what calls have passed, in their order. -/
def Relayed (calls : List ServedCall) : BufferHost → BufferHost → Prop :=
  BufferHost.Exchange (calls.flatMap ServedCall.taken) (calls.flatMap (ServedCall.written 1))
    (calls.flatMap (ServedCall.written 2))

theorem Relayed.append {calls later : List ServedCall} {host middle host' : BufferHost}
    (first : Relayed calls host middle) (second : Relayed later middle host') :
    Relayed (calls ++ later) host host' := by
  unfold Relayed
  rw [List.flatMap_append, List.flatMap_append, List.flatMap_append]
  exact BufferHost.Exchange.trans first second

/-- What is left of a turn after any trap but a call does not turn to the host. -/
theorem Connected.handled {trap : Trap} (connected : Connected capacity host called)
    (other : trap ≠ .environmentCall) (handled : Handled (some (id, trap)) called after) :
    Connected capacity host after := by
  have respects := (abiding_connected : Abiding (Connected capacity host)).respects
  rcases handled with handle | ⟨-, ready⟩
  · cases trap with
    | environmentCall => exact absurd rfl other
    | timerInterrupt =>
        refine connected.kept (Keeps.bind ?_ fun _ => ?_) handle
        · exact abiding_connected.keeps (respects.count _)
        · exact abiding_connected.keeps (respects.makeReady id)
    | fault fault pc =>
        exact connected.kept (abiding_connected.keeps (respects.handleFault id fault pc)) handle
  · exact connected.kept (abiding_connected.keeps (respects.makeReady id)) ready

/-- **A turn passes what its call passes.** -/
theorem relayed_turn {turn : Turn} {answer : Answer} (connected : Connected capacity host origin)
    (done : turn.operation.perform origin = .ok answer after) :
    ∃ host', Connected capacity host' after ∧
      Relayed (turn.servedCall? origin).toList host host' := by
  obtain ⟨trapped, called, reached, handled⟩ := Turn.handled_of_turn done
  have connected' := connected.kept (abiding_connected.toTrap turn) reached
  cases trapped with
  | none =>
      obtain rfl : after = called := handled
      rw [Turn.servedCall?_of_silent reached nofun]
      exact ⟨host, connected', .refl host⟩
  | some trapped =>
      obtain ⟨id, trap⟩ := trapped
      by_cases made : trap = .environmentCall
      · subst made
        have served := Turn.serviceCall_of_turn reached done
        obtain ⟨_, _, block, -⟩ := ok_of_bind served
        obtain ⟨context, found⟩ := found_of_modifyContext block
        obtain ⟨host', connected'', exchanges⟩ := exchange_serviceCall connected' found served
        refine ⟨host', connected'', ?_⟩
        rw [Turn.servedCall?_of_call reached found done, Option.toList_some]
        unfold Relayed
        simp only [List.flatMap_cons, List.flatMap_nil, List.append_nil]
        exact exchanges
      · rw [Turn.servedCall?_of_silent reached fun id same =>
          made (Prod.mk.inj (Option.some.inj same)).2]
        exact ⟨host, connected'.handled made handled, .refl host⟩

/-! ## Operations -/

/-- The turn that an operation is, if it is one. -/
def Operation.turn? : Operation → Option Turn
  | .slice id quantum => some (.slice id quantum)
  | .scheduleOnce => some .scheduleOnce
  | .step id => some (.step id)
  | _ => none

/-- The calls that single operations have served, one after the other. -/
def servedCalls : List Operation → Hypervisor → List ServedCall
  | [], _ => []
  | operation :: rest, origin =>
      (operation.turn?.bind fun turn => turn.servedCall? origin).toList ++
        servedCalls rest (finalState (operation.perform origin))

/-- Whether an operation leaves it alone how calls are recorded or replayed. -/
def Operation.aloof : Operation → Bool
  | .startRecording | .startReplay _ | .takeTrace => false
  | _ => true

/-- **What the primitive operations keep, an operation keeps that lets no context run** and leaves
it alone how calls are recorded. -/
theorem Abiding.still {holds : Hypervisor → Prop} (abiding : Abiding holds) {operation : Operation}
    (single : operation.single = true) (still : operation.turn? = none)
    (aloof : operation.aloof = true) : Keeps holds operation.perform := by
  have respects := abiding.respects
  cases operation with
  | load image arguments =>
      exact (abiding.keeps (respects.load image arguments)).bind fun _ => .pure _
  | run rounds id => cases single
  | runAll rounds => cases single
  | scheduleOnce => cases still
  | slice id quantum => cases still
  | step id => cases still
  | kill parent child =>
      exact (abiding.keeps (respects.kill parent child)).bind fun _ => .pure _
  | reap id => exact (abiding.keeps (respects.reap id)).bind fun _ => .pure _
  | finalizeTrapped id =>
      exact (abiding.keeps (respects.finalizeTrapped id)).bind fun _ => .pure _
  | requeue id => exact (abiding.keeps (respects.requeue id)).bind fun _ => .pure _
  | nextReady => exact (abiding.keeps respects.nextReady).bind fun _ => .pure _
  | snapshot id =>
      refine Keeps.bind ((keeps_requireOwned id).bind fun _ => ?_) fun _ => .pure _
      exact (keeps_contextOf id).bind fun _ => .pure _
  | pcOf id => exact (keeps_pcOf id).bind fun _ => .pure _
  | exitStatusOf id =>
      refine Keeps.bind ((keeps_requireOwned id).bind fun _ => ?_) fun _ => .pure _
      exact (keeps_contextOf id).bind fun _ => .pure _
  | access id request =>
      refine Keeps.bind ((keeps_requireOwned id).bind fun _ => ?_) fun _ => .pure _
      exact abiding.onMemory id request.congruent_perform.careful
  | setMemoryMode mode => exact (abiding.setMemoryMode mode).bind fun _ => .pure _
  | setDebugTraps debugTraps =>
      exact (abiding.modifyOwn fun _ _ _ _ _ _ _ => rfl).bind fun _ => .pure _
  | startRecording => cases aloof
  | startReplay trace => cases aloof
  | takeTrace => cases aloof

/-- An operation that neither lets a context run nor replays does not turn to the host. -/
theorem keeps_connected_of_still {operation : Operation} (single : operation.single = true)
    (still : operation.turn? = none) (live : ∀ trace, operation ≠ .startReplay trace) :
    Keeps (Connected capacity host) operation.perform := by
  have changes (recording : Recording) (live : recording.isReplaying = false) :
      Keeps (Connected capacity host) (modifyOwn fun own => { own with recording }) :=
    .modify fun origin connected =>
      ⟨⟨connected.1.sound, connected.1.uniform⟩, connected.2.buffered, live⟩
  cases operation with
  | startRecording => exact (changes (.record .empty) rfl).bind fun _ => .pure _
  | startReplay trace => exact absurd rfl (live trace)
  | takeTrace =>
      refine Keeps.bind (.get_bind fun look => ?_) fun _ => .pure _
      cases look.own.recording with
      | off => exact .pure _
      | record trace => exact (changes .off rfl).bind fun _ => .pure _
      | replay replayer => exact .pure _
  | _ => exact abiding_connected.still single still rfl

/-- **A single operation passes what its call passes.** -/
theorem relayed_single {operation : Operation} {answer : Answer}
    (single : operation.single = true) (live : ∀ trace, operation ≠ .startReplay trace)
    (connected : Connected capacity host origin)
    (done : operation.perform origin = .ok answer after) :
    ∃ host', Connected capacity host' after ∧
      Relayed (operation.turn?.bind fun turn => turn.servedCall? origin).toList host host' := by
  cases still : operation.turn? with
  | none =>
      have kept := connected.kept (keeps_connected_of_still single still live) done
      exact ⟨host, kept, .refl host⟩
  | some turn =>
      have same : operation = turn.operation := by
        cases operation <;> cases still <;> rfl
      subst same
      exact relayed_turn connected done

/-- **Single operations pass what their calls pass.** -/
theorem relayed_servedCalls {operations : List Operation}
    (single : ∀ operation ∈ operations, operation.single = true)
    (live : ∀ trace, .startReplay trace ∉ operations)
    (fine : ∀ outcome ∈ trail Operation.perform operations origin, outcome.1.isOk = true)
    (connected : Connected capacity host origin) :
    ∃ host', Connected capacity host' (stateAfter Operation.perform operations origin) ∧
      Relayed (servedCalls operations origin) host host' := by
  induction operations generalizing origin host with
  | nil => exact ⟨host, connected, .refl host⟩
  | cons operation rest ih =>
      obtain ⟨here, later⟩ := List.forall_mem_cons.mp single
      obtain ⟨answered, fine⟩ := List.forall_mem_cons.mp fine
      obtain ⟨answer, done⟩ := ok_of_isOk answered
      obtain ⟨middle, connected', relayed⟩ := relayed_single here
        (fun trace same => live trace (same ▸ List.mem_cons_self)) connected done
      obtain ⟨host', reached, relayed'⟩ := ih later
        (fun trace member => live trace (List.mem_cons_of_mem _ member)) fine connected'
      exact ⟨host', reached, relayed.append relayed'⟩

/-! ## Runs of many rounds -/

/-- The rounds of a run that waits for the end of a context. -/
def awaitRounds (id : ContextId) : Nat → Hypervisor → List Operation
  | 0, _ => []
  | rounds + 1, origin =>
      match origin.machine.context? id with
      | none => []
      | some context =>
          match context.exitStatus, context.state with
          | some _, _ => []
          | none, .trapped _ _ => [.finalizeTrapped id]
          | none, _ => .scheduleOnce :: awaitRounds id rounds (finalState (scheduleOnce origin))

/-- The rounds of a run that goes on until nothing can run. -/
def exhaustRounds : Nat → Hypervisor → List Operation
  | 0, _ => []
  | rounds + 1, origin =>
      .scheduleOnce ::
        match scheduleOnce origin with
        | .ok (some _) after => exhaustRounds rounds after
        | _ => []

/-- The single operations of which an operation consists. -/
def Operation.rounds : Operation → Hypervisor → List Operation
  | .run rounds id, origin => awaitRounds id rounds origin
  | .runAll rounds, origin => exhaustRounds rounds origin
  | operation, _ => [operation]

/-- Operations, with the rounds of runs in place of the runs. -/
def unrolled : List Operation → Hypervisor → List Operation
  | [], _ => []
  | operation :: rest, origin =>
      operation.rounds origin ++ unrolled rest (finalState (operation.perform origin))

/-- Rounds that all succeed, from one hypervisor to another. -/
structure Unrolls (rounds : List Operation) (origin after : Hypervisor) : Prop where
  given : ∀ round ∈ rounds, round.IsRound
  fine : ∀ outcome ∈ trail Operation.perform rounds origin, outcome.1.isOk = true
  reached : stateAfter Operation.perform rounds origin = after

namespace Unrolls

theorem nil (hypervisor : Hypervisor) : Unrolls [] hypervisor hypervisor :=
  ⟨fun _ member => (nomatch member), fun _ member => (nomatch member), rfl⟩

theorem cons {round : Operation} {rest : List Operation} {answer : Answer} (here : round.IsRound)
    (done : round.perform origin = .ok answer middle) (later : Unrolls rest middle after) :
    Unrolls (round :: rest) origin after := by
  refine ⟨List.forall_mem_cons.mpr ⟨here, later.given⟩, ?_, ?_⟩
  · unfold trail
    rw [done]
    exact List.forall_mem_cons.mpr ⟨rfl, later.fine⟩
  · show stateAfter Operation.perform rest (finalState (round.perform origin)) = after
    rw [done]
    exact later.reached

end Unrolls

/-- The rounds of a run that waits lead where the run leads. -/
theorem unrolls_await {rounds : Nat} {answer : Option ExitStatus}
    (done : await id rounds origin = .ok answer after) :
    Unrolls (awaitRounds id rounds origin) origin after := by
  induction rounds generalizing origin with
  | zero =>
      cases done
      exact .nil _
  | succ rounds ih =>
      obtain ⟨ended, middle, once, rest⟩ := ok_of_bind done
      obtain ⟨context, found, once⟩ := found_of_contextOf once
      unfold awaitRounds
      rw [found]
      have scheduled (once : (do
            if (← scheduleOnce).isNone then
              throw (.schedulerInvariant id context.hart.pc .nothingRunnable)
            return none : HypervisorAction (Option ExitStatus)) origin = .ok ended middle) :
          Unrolls (.scheduleOnce :: awaitRounds id rounds (finalState (scheduleOnce origin))) origin
            after := by
        obtain ⟨ran, sliced, schedule, once⟩ := ok_of_bind once
        rw [schedule]
        split at once
        · cases once
        · cases once
          exact .cons (.inl rfl) (bind_of_ok schedule _) (ih rest)
      cases status : context.exitStatus with
      | some status =>
          simp only [status] at once ⊢
          cases once
          cases rest
          exact .nil _
      | none =>
          cases state : context.state with
          | trapped fault pc =>
              simp only [status, state] at once ⊢
              obtain ⟨status, finalized, finalize, once⟩ := ok_of_bind once
              cases once
              cases rest
              exact .cons (.inr ⟨id, rfl⟩) (bind_of_ok finalize _) (.nil _)
          | _ =>
              simp only [status, state] at once ⊢
              exact scheduled once

/-- The rounds of a run that goes on until nothing can run lead where the run leads. -/
theorem unrolls_exhaust {rounds : Nat} {answer : Bool}
    (done : exhaust rounds origin = .ok answer after) :
    Unrolls (exhaustRounds rounds origin) origin after := by
  induction rounds generalizing origin with
  | zero =>
      cases done
      exact .nil _
  | succ rounds ih =>
      obtain ⟨ran, middle, schedule, rest⟩ := ok_of_bind done
      unfold exhaustRounds
      rw [schedule]
      cases ran with
      | none =>
          cases rest
          exact .cons (.inl rfl) (bind_of_ok schedule _) (.nil _)
      | some id => exact .cons (.inl rfl) (bind_of_ok schedule _) (ih rest)

/-- **A run that succeeds consists of its rounds.** -/
theorem unrolls_rounds {operation : Operation} (many : operation.single = false) {answer : Answer}
    (done : operation.perform origin = .ok answer after) :
    Unrolls (operation.rounds origin) origin after := by
  cases operation with
  | run rounds id =>
      obtain ⟨ended, finished, run, done⟩ := ok_of_bind done
      cases done
      obtain ⟨_, owned, own, run⟩ := ok_of_bind run
      rw [requireOwned_apply] at own
      split at own <;> cases own
      exact unrolls_await run
  | runAll rounds =>
      obtain ⟨ended, finished, run, done⟩ := ok_of_bind done
      cases done
      unfold Hypervisor.runAll at run
      obtain ⟨exhausted, stopped, run, done⟩ := ok_of_bind run
      have unrolls := unrolls_exhaust run
      cases exhausted with
      | true =>
          cases done
          exact unrolls
      | false =>
          cases done
          exact unrolls
  | _ => cases many

/-- **Operations that succeed consist of single operations that succeed**, and that are rounds of
runs, if they are not among the operations themselves. -/
theorem unrolled_spec {operations : List Operation}
    (fine : ∀ outcome ∈ trail Operation.perform operations origin, outcome.1.isOk = true) :
    (∀ operation ∈ unrolled operations origin, operation.single = true ∧
      (operation ∈ operations ∨ operation.IsRound)) ∧
    (∀ outcome ∈ trail Operation.perform (unrolled operations origin) origin,
      outcome.1.isOk = true) ∧
    stateAfter Operation.perform (unrolled operations origin) origin =
      stateAfter Operation.perform operations origin := by
  induction operations generalizing origin with
  | nil => exact ⟨fun _ member => (nomatch member), fun _ member => (nomatch member), rfl⟩
  | cons operation rest ih =>
      obtain ⟨answered, fine⟩ := List.forall_mem_cons.mp fine
      obtain ⟨answer, done⟩ := ok_of_isOk answered
      obtain ⟨given, fine', reached⟩ := ih fine
      have first : (∀ round ∈ operation.rounds origin, round.single = true ∧
            (round = operation ∨ round.IsRound)) ∧
          (∀ outcome ∈ trail Operation.perform (operation.rounds origin) origin,
            outcome.1.isOk = true) ∧
          stateAfter Operation.perform (operation.rounds origin) origin =
            finalState (operation.perform origin) := by
        cases single : operation.single with
        | false =>
            have unrolls := unrolls_rounds single done
            refine ⟨fun round member => ?_, unrolls.fine, unrolls.reached⟩
            exact ⟨(unrolls.given round member).single, .inr (unrolls.given round member)⟩
        | true =>
            have alone : operation.rounds origin = [operation] := by
              cases operation <;> first | rfl | cases single
            rw [alone]
            refine ⟨fun round member => ?_, ?_, rfl⟩
            · rw [List.mem_singleton.mp member]
              exact ⟨single, .inl rfl⟩
            · intro outcome member
              rw [List.mem_singleton.mp member]
              exact answered
      unfold unrolled
      rw [stateAfter_append, trail_append, first.2.2]
      refine ⟨fun round member => ?_, fun outcome member => ?_, reached⟩
      · rcases List.mem_append.mp member with member | member
        · refine (first.1 round member).imp_right (Or.imp_left ?_)
          rintro rfl
          exact List.mem_cons_self
        · exact (given round member).imp_right (Or.imp_left (List.mem_cons_of_mem _))
      · exact (List.mem_append.mp member).elim (first.2.1 outcome) (fine' outcome)

/-- **Input and output are exact.**  Operations that all succeed, none of which replays, are those
of a run over a buffer host, in which any number of contexts take turns: the runs among them consist
of rounds that succeed and lead to the same end.  What is gone from the input is what successful
reads of the input have stored in the buffers of their callers, one after the other, and what has
come to an output is what successful writes to it have named in the memory of their callers, as it
was at the calls. -/
theorem exact_streams {configuration : Configuration} {host : BufferHost} {journal : Journal}
    {level : Nat} {start : Hypervisor}
    (built : nested configuration (.buffer host) journal level = .ok start)
    {operations : List Operation} (live : ∀ trace, .startReplay trace ∉ operations)
    (fine : ∀ outcome ∈ trail Operation.perform operations start, outcome.1.isOk = true) :
    let steps := unrolled operations start
    let calls := servedCalls steps start
    (∀ outcome ∈ trail Operation.perform steps start, outcome.1.isOk = true) ∧
    stateAfter Operation.perform steps start = stateAfter Operation.perform operations start ∧
    ∃ final, (stateAfter Operation.perform operations start).own.host = .buffer final ∧
      host.input = calls.flatMap ServedCall.taken ++ final.input ∧
      final.output = host.output ++ calls.flatMap (ServedCall.written 1) ∧
      final.errors = host.errors ++ calls.flatMap (ServedCall.written 2) := by
  intro steps calls
  obtain ⟨given, fine', reached⟩ := unrolled_spec fine
  have connected : Connected configuration.frames host start := by
    refine ⟨steady_of_nested built, ?_⟩
    cases level with
    | zero => cases built
    | succ below =>
        cases built
        exact ⟨rfl, rfl⟩
  have live' (trace : Trace) : .startReplay trace ∉ steps := by
    intro member
    rcases (given _ member).2 with among | round
    · exact live trace among
    · rcases round with same | ⟨id, same⟩ <;> cases same
  obtain ⟨final, connected', relayed⟩ := relayed_servedCalls
    (fun operation member => (given operation member).1) live' fine' connected
  rw [reached] at connected'
  exact ⟨fine', reached, final, connected'.2.buffered, relayed.input, relayed.output,
    relayed.errors⟩

/-- A program that forks.  Parent and child read two bytes each, to a buffer that lies on two
pages, and write what they got. -/
def sharedEcho : Image :=
  .ofWords ([.addi 17 0 220, .ecall, .addi 11 2 (-2041), .addi 11 11 (-2041), .addi 12 0 2,
    .addi 10 0 0, .addi 17 0 63, .ecall, .addi 12 10 0, .addi 10 0 1, .addi 17 0 64, .ecall,
    .addi 17 0 93, .ecall].map Instruction.encode) []

/-- The program is run until both have ended. -/
def untilEchoed : List Operation := [.load sharedEcho [], .runAll 40]

/-- Two contexts that take turns share an input of three bytes and echo it; so the reads have stored
these bytes, and the writes have named them. -/
theorem shared_input_echoed :
    ∃ start final, nested { Configuration.standard with frames := 60, quantum := 3 }
        (.buffer (.withInput [1, 2, 3])) .silent 1 = .ok start ∧
      (∀ outcome ∈ trail Operation.perform untilEchoed start, outcome.1.isOk = true) ∧
      (stateAfter Operation.perform untilEchoed start).own.host = .buffer final ∧
      (final.input, final.output) = ([], [1, 2, 3]) ∧
      let calls := servedCalls (unrolled untilEchoed start) start
      calls.flatMap ServedCall.taken = [1, 2, 3] ∧
      calls.flatMap (ServedCall.written 1) = [1, 2, 3] := by
  obtain ⟨start, built⟩ : ∃ start, nested
      { Configuration.standard with frames := 60, quantum := 3 }
      (.buffer (.withInput [1, 2, 3])) .silent 1 = .ok start := ⟨_, rfl⟩
  have evaluated : (nested { Configuration.standard with frames := 60, quantum := 3 }
      (.buffer (.withInput [1, 2, 3])) .silent 1).map (fun start =>
        ((trail Operation.perform untilEchoed start).all fun outcome => outcome.1.isOk,
          (stateAfter Operation.perform untilEchoed start).own.host.buffer?.map fun host =>
            (host.input, host.output))) =
      .ok (true, some ([], [1, 2, 3])) := by
    decide +kernel
  rw [built] at evaluated
  simp only [Except.map, Except.ok.injEq, Prod.mk.injEq, List.all_eq_true] at evaluated
  obtain ⟨succeeds, streams⟩ := evaluated
  have live (trace : Trace) : .startReplay trace ∉ untilEchoed := by simp [untilEchoed]
  obtain ⟨-, -, final, buffered, input, output, -⟩ := exact_streams built live succeeds
  rw [buffered] at streams
  have ends : (final.input, final.output) = ([], [1, 2, 3]) := Option.some.inj streams
  obtain ⟨consumed, echoed⟩ := Prod.mk.inj ends
  refine ⟨start, final, built, succeeds, buffered, ends, ?_, ?_⟩
  · rw [consumed, List.append_nil] at input
    exact input.symm
  · exact output.symm.trans echoed

end Hypervisor

end NestedMachine
