import NestedMachine.Proofs.Hypervisor.HostCalls

/-!
# Calls that are declined

A call that cannot be done answers minus one, and a program break that is refused stays.  There are
many ways to get there, some of them behind work that was done already: a range was checked, bytes
were fetched, a child that has ended was found.  All of them come to the same: the call has looked
at memory and at nothing else (`Looked`).  Pages may have been mapped by looking, and they show
zeros, as they did before.

The argument goes call by call.  Where something would have to be undone, it was not begun: bytes
are taken from a host only for a range that was found writable, so that they get there; a file is
opened only under a path that was read; a child is removed only after its status was stored; and
whether there are frames enough for a copy or for more heap is settled before any is taken.
-/

namespace NestedMachine

set_option autoImplicit false

variable {α : Type}

/-! ## Hosts that keep to themselves -/

namespace BufferHost

theorem host_of_refused_read {number size : Nat} {host after : BufferHost} {refusal : HostRefusal}
    (refused : host.read number size = .error refusal after) : after = host := by
  unfold read at refused
  split at refused
  · cases refused
  · split at refused
    · cases refused
      rfl
    · split at refused
      · split at refused
        · cases refused
          rfl
        · cases refused
      · cases refused
        rfl

theorem host_of_refused_write {number : Nat} {bytes : Bytes} {host after : BufferHost}
    {refusal : HostRefusal} (refused : host.write number bytes = .error refusal after) :
    after = host := by
  rcases host.write_spec number bytes with ⟨written, done, -⟩ | ⟨refusal', same⟩
  · rw [done] at refused
    cases refused
  · rw [same] at refused
    cases refused
    rfl

theorem host_of_refused_open {path : String} {flags : OpenFlags} {host after : BufferHost}
    {refusal : HostRefusal} (refused : host.openFile path flags = .error refusal after) :
    after = host := by
  unfold openFile at refused
  split at refused
  · cases refused
    rfl
  · cases refused

/-- A file that is opened gets the next descriptor. -/
theorem descriptor_of_open {path : String} {flags : OpenFlags} {host after : BufferHost}
    {descriptor : Nat} (opened : host.openFile path flags = .ok descriptor after) :
    descriptor = host.nextDescriptor := by
  unfold openFile at opened
  split at opened
  · cases opened
  · injection opened with same
    rw [← same]
    split <;> rfl

end BufferHost

namespace Host

/-- A host that works on nothing outside the machine. -/
def Contained : Host → Prop
  | .console _ => False
  | _ => True

instance : DecidablePred Contained
  | .console _ => .isFalse id
  | .buffer _ | .null => .isTrue trivial

/-- A request that a contained host refuses without a trace. -/
def Timid (request : Host → HostAnswer α) : Prop :=
  ∀ host, host.Contained → ∀ refusal, (request host).result = .error refusal →
    (request host).host = host ∧ (request host).entries = []

/-- A request is timid if a buffer host that refuses it stays as it is. -/
theorem timid_of_buffer {request : Host → HostAnswer α} {action : BufferAction α}
    (buffer : ∀ host, request (.buffer host) = ofBuffer (action host))
    (null : request .null = refuse)
    (stays : ∀ host refusal after, action host = .error refusal after → after = host) :
    Timid request := by
  intro host contained refusal refused
  cases host with
  | console host => exact contained.elim
  | null =>
      rw [null]
      exact ⟨rfl, rfl⟩
  | buffer host =>
      rw [buffer] at refused ⊢
      cases result : action host with
      | ok answer after =>
          rw [result] at refused
          cases refused
      | error refusal after =>
          rw [stays host refusal after result]
          exact ⟨rfl, rfl⟩

theorem timid_read (descriptor size : Nat) : Timid (read descriptor size) :=
  timid_of_buffer (fun _ => rfl) rfl fun _ _ _ => BufferHost.host_of_refused_read

theorem timid_write (descriptor : Nat) (bytes : Bytes) : Timid (write descriptor bytes) :=
  timid_of_buffer (fun _ => rfl) rfl fun _ _ _ => BufferHost.host_of_refused_write

theorem timid_openFile (path : String) (flags : OpenFlags) : Timid (openFile path flags) :=
  timid_of_buffer (fun _ => rfl) rfl fun _ _ _ => BufferHost.host_of_refused_open

variable {host : Host}

theorem length_of_read (contained : host.Contained) {descriptor size : Nat} {bytes : Bytes}
    (delivered : (read descriptor size host).result = .ok bytes) : bytes.length ≤ size := by
  cases host with
  | console host => exact contained.elim
  | null => cases delivered
  | buffer host =>
      have spec := (host.read_spec descriptor size).2 bytes
      unfold read at delivered
      dsimp only at delivered
      generalize host.read descriptor size = result at delivered spec
      cases result with
      | ok answer after => exact spec delivered
      | error refusal after => cases delivered

theorem written_of_write (contained : host.Contained) {descriptor written : Nat} {bytes : Bytes}
    (taken : (write descriptor bytes host).result = .ok written) : written = bytes.length := by
  cases host with
  | console host => exact contained.elim
  | null => cases taken
  | buffer host =>
      unfold write at taken
      dsimp only at taken
      rcases host.write_spec descriptor bytes with ⟨after, done, -⟩ | ⟨refusal, refused⟩
      · rw [done] at taken
        exact (Except.ok.inj taken).symm
      · rw [refused] at taken
        cases taken

theorem descriptor_of_openFile (contained : host.Contained) {path : String} {flags : OpenFlags}
    {descriptor : Nat} (opened : (openFile path flags host).result = .ok descriptor) :
    ∃ buffer, host = .buffer buffer ∧ descriptor = buffer.nextDescriptor := by
  cases host with
  | console host => exact contained.elim
  | null => cases opened
  | buffer host =>
      refine ⟨host, rfl, ?_⟩
      unfold openFile at opened
      dsimp only at opened
      cases result : host.openFile path flags with
      | ok answer after =>
          rw [result] at opened
          obtain rfl := Except.ok.inj opened
          exact BufferHost.descriptor_of_open result
      | error refusal after =>
          rw [result] at opened
          cases opened

end Host

namespace Hypervisor

/-! ## Looking about -/

/-- A hypervisor that has only looked at the memory of a context since, apart from counting and
making notes. -/
structure Looked (capacity : Nat) (id : ContextId) (origin after : Hypervisor) : Prop where
  covers : Interpreter.Covers .same capacity after.machine.interpreter origin.machine.interpreter
  uniform : after.machine.Uniform
  relays : after.machine.relays = origin.machine.relays
  others : ∀ other, other ≠ id →
    after.machine.interpreter.contexts[other]? = origin.machine.interpreter.contexts[other]?
  own : ∃ counters, after.own =
    { origin.own with relay := { origin.own.relay with counters } }

/-- The numbers of the next context and of the next descriptor fit the registers that would hold
them. -/
structure NumbersFit (hypervisor : Hypervisor) : Prop where
  context : hypervisor.machine.interpreter.nextId < 2 ^ 32
  descriptor : ∀ host ∈ hypervisor.own.host.buffer?, host.nextDescriptor < 2 ^ 64 - 1

/-- A call is declined by minus one.  A request to move the program break is declined by any break
but the one that was asked for. -/
def Call.DeclinedBy (call : Call) (value : Int64) : Prop :=
  value = -1 ∨ SystemCall.ofNumber? call.number.toNat = some .setBreak ∧
    value ≠ Int64.ofNat call.first.toNat

/-- Another record, if calls are recorded. -/
def Recording.noting (record : TraceRecord) : Recording → Recording
  | .record trace => .record (trace.push record)
  | other => other

/-- A hypervisor that has recorded a call, if it records calls. -/
def noting (hypervisor : Hypervisor) (record : TraceRecord) : Hypervisor :=
  { hypervisor with own := { hypervisor.own with
    recording := Recording.noting record hypervisor.own.recording } }

section Calls

variable {capacity : Nat} {id : ContextId} {call : Call} {origin middle after : Hypervisor}

theorem Steady.looked (steady : Steady capacity origin) (id : ContextId) :
    Looked capacity id origin origin :=
  ⟨.refl .same steady.sound, steady.uniform, rfl, fun _ _ => rfl, origin.own.relay.counters, rfl⟩

namespace Looked

theorem steady (looked : Looked capacity id origin middle) : Steady capacity middle :=
  ⟨looked.covers.leftSound, looked.uniform⟩

theorem host (looked : Looked capacity id origin middle) :
    middle.own.host = origin.own.host := by
  obtain ⟨counters, own⟩ := looked.own
  rw [own]

theorem recording (looked : Looked capacity id origin middle) :
    middle.own.recording = origin.own.recording := by
  obtain ⟨counters, own⟩ := looked.own
  rw [own]

theorem fits (looked : Looked capacity id origin middle) (fits : origin.NumbersFit) :
    middle.NumbersFit := by
  refine ⟨?_, ?_⟩
  · rw [looked.covers.nextId]
    exact fits.context
  · rw [looked.host]
    exact fits.descriptor

theorem note (looked : Looked capacity id origin middle) {happening : Note}
    (done : note happening middle = .ok () after) : Looked capacity id origin after := by
  cases done
  exact ⟨looked.covers.journals _ origin.machine.interpreter.journal,
    looked.uniform.congr rfl fun _ => rfl, looked.relays, looked.others, looked.own⟩

theorem count (looked : Looked capacity id origin middle) {change : Counters → Counters}
    (done : count change middle = .ok () after) : Looked capacity id origin after := by
  cases done
  obtain ⟨counters, own⟩ := looked.own
  refine ⟨looked.covers, looked.uniform, looked.relays, looked.others, change counters, ?_⟩
  show { middle.own with relay := middle.own.relay.count change } = _
  rw [own]
  rfl

/-- An access that has only looked. -/
theorem accessed (looked : Looked capacity id origin middle) {action : MemoryAction α}
    {answer : Except Fault α} (done : onMemory id action middle = .ok answer after)
    (looks : ∀ around memory, memory.Sound around → answerOf (action memory) = answer →
      Memory.Peeked around memory (finalState (action memory))) :
    Looked capacity id origin after := by
  obtain ⟨context, carried⟩ := carriedOut looked.uniform done
  have looking : ∀ context', middle.machine.interpreter.contexts[id]? = some context' →
      Memory.Peeked (middle.machine.interpreter.around capacity id)
        (middle.machine.interpreter.memoryOf context')
        (finalState (action (middle.machine.interpreter.memoryOf context'))) := by
    intro context' found
    obtain rfl := Option.some.inj (found.symm.trans carried.found)
    exact looks _ _ (looked.steady.sound.memory found _) carried.answered
  have covers := looked.covers.peeked id looking
  have kept := Machine.contains_withMemory middle.machine.interpreter id action
  rw [Interpreter.withMemory_of_some carried.found] at covers kept
  rw [carried.kept]
  refine ⟨covers, looked.uniform.congr rfl kept, looked.relays, fun other different => ?_,
    looked.own⟩
  rw [← looked.others other different]
  exact (Table.getElem?_insert ..).trans (if_neg (Ne.symm different))

theorem peeked (looked : Looked capacity id origin middle) {action : MemoryAction α}
    (peeking : Memory.Peeking action) {answer : Except Fault α}
    (done : onCallerMemory id call action middle = .ok answer after) :
    Looked capacity id origin after :=
  looked.accessed (onMemory_of_onCallerMemory done).1 fun around memory sound _ =>
    peeking around memory sound

/-- A request that the host refuses. -/
theorem refused (looked : Looked capacity id origin middle) (contained : middle.own.host.Contained)
    {request : Host → HostAnswer α} (timid : Host.Timid request) {refusal : HostRefusal}
    (asked : askHost request middle = .ok (.error refusal) after) :
    Looked capacity id origin after := by
  obtain ⟨⟨relays, interpreter⟩, own⟩ := middle
  injection asked with result state
  obtain ⟨same, silent⟩ := timid own.host contained refusal result
  rw [same, silent] at state
  rw [← state]
  exact looked

end Looked

theorem zero_ne_failure : Outcome.answer 0 ≠ .failure := by decide

theorem answer_ne_failure {number : Nat} (small : number < 2 ^ 64 - 1) :
    Outcome.answer (Int64.ofNat number) ≠ .failure := by
  intro same
  have word := congrArg (fun value => value.toUInt64.toNat) (Outcome.answer.inj same)
  rw [show (Int64.ofNat number).toUInt64.toNat = number % 2 ^ 64 from UInt64.toNat_ofNat',
    show ((-1 : Int64)).toUInt64.toNat = 2 ^ 64 - 1 by decide] at word
  omega


/-- A context that was looked up is there, and nothing else has happened. -/
theorem found_of_contextOf {β : Type} {next : Context → HypervisorAction β} {answer : β}
    (done : (contextOf id >>= next) middle = .ok answer after) :
    ∃ context, middle.machine.context? id = some context ∧
      next context middle = .ok answer after := by
  obtain ⟨context, looked, find, rest⟩ := ok_of_bind done
  rw [contextOf_apply] at find
  cases found : middle.machine.context? id with
  | none =>
      rw [found] at find
      cases find
  | some _ =>
      rw [found] at find
      cases find
      exact ⟨context, rfl, rest⟩

/-- A request that is answered was answered by the interpreter, and levels that take no note of the
answer stay as they are. -/
theorem answered_of_below {passage : Passage α} {request : InterpreterAction α} {answer : α}
    (done : below (Machine.pass passage request) middle = .ok answer after) :
    request middle.machine.interpreter = .ok answer after.machine.interpreter ∧
      ((∀ relay entered, passage.enter relay = .ok entered →
          passage.leave answer entered = relay) →
        after = ⟨⟨middle.machine.relays, after.machine.interpreter⟩, middle.own⟩) := by
  obtain ⟨⟨relays, interpreter⟩, own⟩ := middle
  simp only [below, Machine.pass] at done
  generalize descent : Machine.descend passage request relays interpreter = result at done
  obtain ⟨outcome, relays', interpreter'⟩ := result
  cases outcome with
  | error error => cases done
  | ok found =>
      cases done
      obtain ⟨reached, unmarked⟩ := Machine.answered_of_descend descent
      exact ⟨reached, fun blank => by rw [unmarked blank]⟩

/-- Whoever has ended has a number that is in use. -/
theorem lt_nextId_of_firstEnded (steady : Steady capacity middle) {ids : List ContextId}
    {child : ContextId} {status : ExitStatus}
    (ended : firstEnded middle.machine ids = some (child, status)) :
    child < middle.machine.interpreter.nextId := by
  obtain ⟨other, -, told⟩ := List.exists_of_findSome?_eq_some ended
  obtain ⟨status', known, same⟩ := Option.map_eq_some_iff.mp told
  obtain ⟨rfl, rfl⟩ := Prod.mk.inj same
  obtain ⟨context, found, -⟩ := Option.bind_eq_some_iff.mp known
  rw [steady.uniform.context?] at found
  exact steady.sound.young other context.space (congrArg (Option.map Context.space) found)

/-! ## Calls that reach the host -/

/-- **A read that is declined has only looked.**  Bytes that the host delivers get where they
should, since the whole range was found writable before. -/
theorem looked_serveRead (looked : Looked capacity id origin middle)
    (contained : middle.own.host.Contained) {data : Bytes}
    (served : serveRead id call middle = .ok (.failure, data) after) :
    Looked capacity id origin after ∧ data = [] := by
  unfold serveRead at served
  split at served
  · injection served with same
    exact absurd (congrArg Prod.fst same) zero_ne_failure
  · obtain ⟨allowed, checked, check, served⟩ := ok_of_bind served
    have looked_check := looked.peeked (.checkRange _ _ _) check
    cases allowed with
    | error fault =>
        cases served
        exact ⟨looked_check, rfl⟩
    | ok _ =>
        have contained : checked.own.host.Contained := by
          rw [looked_check.host, ← looked.host]
          exact contained
        obtain ⟨answer, asked, ask, served⟩ := ok_of_bind served
        cases answer with
        | error refusal =>
            obtain ⟨_, noted, note, served⟩ := ok_of_bind served
            cases served
            exact ⟨(looked_check.refused contained (Host.timid_read _ _) ask).note note, rfl⟩
        | ok bytes =>
            obtain ⟨space, found, writable⟩ := checked_of_check looked.uniform check
            have short : bytes.length ≤ call.third.toNat := by
              obtain ⟨machine, own⟩ := checked
              injection ask with result
              exact Host.length_of_read contained result
            have steady : Steady capacity asked := by
              have kept := (discreet_askHost id (Host.read call.first.toNat
                call.third.toNat)).keeps_steady checked looked_check.steady
              rw [ask] at kept
              exact kept
            have inside : spaceOf asked id = some space := by
              obtain ⟨machine, own⟩ := checked
              injection ask with _ state
              rw [← state]
              exact found
            obtain ⟨written, delivered, write, served⟩ := ok_of_bind served
            obtain rfl := steady.delivers inside writable short write
            injection served with same
            have bound := Memory.size_le_of_checkRange writable
            refine absurd (congrArg Prod.fst same) (answer_ne_failure ?_)
            unfold addressSpaceSize at bound
            omega

/-- **A write that is declined has only looked**: nothing goes to the host until the last byte was
read. -/
theorem looked_serveWrite (looked : Looked capacity id origin middle)
    (contained : middle.own.host.Contained)
    (served : serveWrite id call middle = .ok .failure after) :
    Looked capacity id origin after := by
  unfold serveWrite at served
  split at served
  · injection served with same
    exact absurd same zero_ne_failure
  · obtain ⟨found, fetched, fetch, served⟩ := ok_of_bind served
    have looked_fetch := looked.peeked (.readBytes _ _) fetch
    cases found with
    | error fault =>
        cases served
        exact looked_fetch
    | ok bytes =>
        have contained : fetched.own.host.Contained := by
          rw [looked_fetch.host, ← looked.host]
          exact contained
        obtain ⟨context, carried⟩ := carriedOut looked.uniform
          (onMemory_of_onCallerMemory fetch).1
        obtain ⟨length, bound⟩ := carried.length_of_readBytes
        obtain ⟨answer, asked, ask, served⟩ := ok_of_bind served
        cases answer with
        | error refusal =>
            obtain ⟨_, noted, note, served⟩ := ok_of_bind served
            cases served
            exact (looked_fetch.refused contained (Host.timid_write _ _) ask).note note
        | ok written =>
            have all : written = bytes.length := by
              obtain ⟨machine, own⟩ := fetched
              injection ask with result
              exact Host.written_of_write contained result
            injection served with same
            refine absurd same (answer_ne_failure ?_)
            unfold addressSpaceSize at bound
            omega

/-- **A file that cannot be opened leaves no trace.** -/
theorem looked_serveOpen (looked : Looked capacity id origin middle)
    (contained : middle.own.host.Contained) (fits : middle.NumbersFit)
    (served : serveOpen id call middle = .ok .failure after) :
    Looked capacity id origin after := by
  unfold serveOpen at served
  obtain ⟨found, fetched, fetch, served⟩ := ok_of_bind served
  have looked_fetch := looked.peeked (.readString _ _) fetch
  cases found with
  | error fault =>
      cases served
      exact looked_fetch
  | ok bytes =>
      cases decoded : Bytes.toString? bytes with
      | none =>
          simp only [decoded] at served
          cases served
          exact looked_fetch
      | some path =>
          simp only [decoded] at served
          have same : fetched.own.host = middle.own.host := by
            rw [looked_fetch.host, looked.host]
          obtain ⟨answer, asked, ask, served⟩ := ok_of_bind served
          cases answer with
          | error refusal =>
              obtain ⟨_, noted, note, served⟩ := ok_of_bind served
              cases served
              exact (looked_fetch.refused (same ▸ contained) (Host.timid_openFile _ _) ask).note
                note
          | ok descriptor =>
              have next : ∃ buffer, middle.own.host = .buffer buffer ∧
                  descriptor = buffer.nextDescriptor := by
                obtain ⟨machine, own⟩ := fetched
                injection ask with result
                rw [show own.host = _ from same] at result
                exact Host.descriptor_of_openFile contained result
              obtain ⟨buffer, buffered, rfl⟩ := next
              injection served with same
              refine absurd same (answer_ne_failure (fits.descriptor buffer ?_))
              rw [buffered]
              rfl

/-! ## Calls within the machine -/

/-- **Nobody is ended by a kill that is declined.** -/
theorem looked_serveKill (looked : Looked capacity id origin middle)
    (served : serveKill id call middle = .ok .failure after) :
    Looked capacity id origin after := by
  unfold serveKill at served
  cases named : contextNamed? call.first with
  | none =>
      simp only [named] at served
      cases served
      exact looked
  | some target =>
      simp only [named] at served
      obtain ⟨ended, killed, kill, served⟩ := ok_of_bind served
      cases ended with
      | true =>
          injection served with same
          exact absurd same zero_ne_failure
      | false =>
          cases served
          unfold Hypervisor.kill at kill
          rw [get_bind_apply] at kill
          split at kill
          · cases kill
            exact looked
          · obtain ⟨context, -, kill⟩ := found_of_contextOf kill
            split at kill
            · cases kill
              exact looked
            · obtain ⟨_, terminated, terminate, kill⟩ := ok_of_bind kill
              cases kill

/-- **A copy that there are no frames for has not been begun.** -/
theorem looked_serveFork (looked : Looked capacity id origin middle) (fits : middle.NumbersFit)
    (served : serveFork id middle = .ok .failure after) : Looked capacity id origin after := by
  unfold serveFork at served
  obtain ⟨answer, forked, fork, served⟩ := ok_of_bind served
  obtain ⟨copied, unmarked⟩ := answered_of_below fork
  cases answer with
  | none =>
      obtain ⟨_, noted, note, served⟩ := ok_of_bind served
      cases served
      have same : forked = middle := by
        have relays := unmarked fun relay entered entry => by
          unfold Passage.fork Relay.requireHosted at entry
          dsimp only at entry
          split at entry
          · exact (Except.ok.inj entry).symm
          · cases entry
        rw [relays, looked.steady.sound.fork_refused copied]
      rw [same] at note
      exact looked.note note
  | some child =>
      obtain ⟨_, counted, count, served⟩ := ok_of_bind served
      obtain ⟨_, owned, own, served⟩ := ok_of_bind served
      obtain ⟨_, begun, begin, served⟩ := ok_of_bind served
      obtain ⟨_, queued, queue, served⟩ := ok_of_bind served
      obtain ⟨_, noted, note, served⟩ := ok_of_bind served
      injection served with same
      have small : child < 2 ^ 64 - 1 := by
        rw [Interpreter.number_of_fork copied]
        exact fits.context.trans (by decide)
      exact absurd same (answer_ne_failure small)

/-- **A wait that is declined has reaped nobody**: the status is stored before the child is
removed. -/
theorem looked_serveWait (looked : Looked capacity id origin middle) (fits : middle.NumbersFit)
    (served : serveWait id call middle = .ok .failure after) : Looked capacity id origin after := by
  unfold serveWait at served
  obtain ⟨context, -, served⟩ := found_of_contextOf served
  dsimp only at served
  generalize context.children.toList.filter (WaitTarget.ofWord call.first).includes = children
    at served
  by_cases none : children.isEmpty = true
  · rw [if_pos none] at served
    cases served
    exact looked
  · rw [if_neg none, get_bind_apply] at served
    cases ended : firstEnded middle.machine children with
    | none =>
        simp only [ended] at served
        cases served
    | some first =>
        obtain ⟨child, status⟩ := first
        simp only [ended] at served
        have small : child < 2 ^ 64 - 1 :=
          (lt_nextId_of_firstEnded looked.steady ended).trans (fits.context.trans (by decide))
        have reaped {start : Hypervisor}
            (reaping : (do
              let _ ← reap child
              return Outcome.answer (Int64.ofNat child)) start = .ok .failure after) : False := by
          obtain ⟨_, gone, reap, reaping⟩ := ok_of_bind reaping
          injection reaping with same
          exact answer_ne_failure small same
        split at served
        · obtain ⟨stored, middle, store, served⟩ := ok_of_bind served
          cases stored with
          | ok _ => exact (reaped served).elim
          | error fault =>
              cases served
              exact looked.accessed (onMemory_of_onCallerMemory store).1
                fun around memory sound refused => sound.peeked_of_refused_store refused
        · exact (reaped served).elim

/-- No program break lies past the top of an address space. -/
theorem le_of_requestBreak {around : Surroundings} {memory : Memory} {requested programBreak : Nat}
    {refused : Option Fault} (sound : memory.Sound around)
    (told : answerOf (requestBreak requested memory) = .ok (programBreak, refused)) :
    programBreak ≤ addressSpaceSize := by
  obtain ⟨-, -, -, -, -, programBreak_le, stackLimit_le⟩ := sound.layout
  have before : memory.space.layout.programBreak ≤ addressSpaceSize :=
    programBreak_le.trans stackLimit_le
  have request := sound.setProgramBreak requested
  unfold requestBreak at told
  split at told
  · cases told
    exact before
  · generalize Memory.setProgramBreak requested memory = result at request told
    cases request with
    | outside reason =>
        cases told
        exact before
    | refused inside short =>
        cases told
        exact before
    | moved inside backed finish =>
        cases told
        exact (not_lt.mp (not_or.mp inside).2).trans stackLimit_le

/-- A request that does not end at the break that was asked for has changed nothing. -/
theorem peeked_of_requestBreak {around : Surroundings} {memory : Memory}
    {requested programBreak : Nat} {refused : Option Fault} (sound : memory.Sound around)
    (told : answerOf (requestBreak requested memory) = .ok (programBreak, refused))
    (other : programBreak ≠ requested) :
    Memory.Peeked around memory (finalState (requestBreak requested memory)) := by
  have request := sound.setProgramBreak requested
  unfold requestBreak at told ⊢
  split at told
  · rw [if_pos ‹_›]
    exact ⟨sound, .refl memory⟩
  · rw [if_neg ‹_›]
    generalize Memory.setProgramBreak requested memory = result at request told
    cases request with
    | outside reason => exact ⟨sound, .refl memory⟩
    | refused inside short => exact ⟨sound, .refl memory⟩
    | moved inside backed finish =>
        cases told
        exact absurd rfl other

/-- **A program break that is not moved to where it should be stays.** -/
theorem looked_serveBreak (looked : Looked capacity id origin middle) {value : Int64}
    (declined : value = -1 ∨ value ≠ Int64.ofNat call.first.toNat)
    (served : serveBreak id call middle = .ok (.answer value) after) :
    Looked capacity id origin after := by
  rw [serveBreak_eq] at served
  obtain ⟨answer, requested, request, served⟩ := ok_of_bind served
  cases answer with
  | error fault => cases served
  | ok told =>
      obtain ⟨programBreak, refused⟩ := told
      have sound := looked.steady.sound
      have other : value = Int64.ofNat programBreak → programBreak ≠ call.first.toNat := by
        obtain ⟨context, carried⟩ := carriedOut looked.uniform request
        have bound := le_of_requestBreak (sound.memory carried.found _) carried.answered
        unfold addressSpaceSize at bound
        rintro rfl same
        rcases declined with declined | declined
        · exact answer_ne_failure (by omega) (congrArg Outcome.answer declined)
        · exact declined (congrArg Int64.ofNat same)
      have stays (answered : value = Int64.ofNat programBreak) :
          Looked capacity id origin requested :=
        looked.accessed request fun around memory sound told =>
          peeked_of_requestBreak sound told (other answered)
      cases refused with
      | none =>
          cases served
          exact stays rfl
      | some fault =>
          obtain ⟨_, noted, note, served⟩ := ok_of_bind served
          cases served
          exact (stays rfl).note note

/-! ## Any call -/

/-- **A call that is declined has only looked.** -/
theorem looked_serve (looked : Looked capacity id origin middle)
    (contained : middle.own.host.Contained) (fits : middle.NumbersFit) {value : Int64}
    {data : Bytes} (declined : call.DeclinedBy value)
    (served : serve id call (SystemCall.ofNumber? call.number.toNat) middle =
      .ok (.answer value, data) after) : Looked capacity id origin after ∧ data = [] := by
  unfold Call.DeclinedBy at declined
  generalize SystemCall.ofNumber? call.number.toNat = kind at declined served
  have refused (other : kind ≠ some .setBreak) : value = -1 :=
    declined.resolve_right fun moved => other moved.1
  cases kind with
  | none => cases served
  | some kind =>
      cases kind with
      | exit => cases served
      | yield =>
          cases served
          exact absurd (congrArg Outcome.answer (refused (by nofun))) zero_ne_failure
      | read =>
          obtain rfl := refused (by nofun)
          exact looked_serveRead looked contained served
      | write =>
          obtain rfl := refused (by nofun)
          obtain ⟨outcome, written, write, served⟩ := ok_of_bind served
          cases served
          exact ⟨looked_serveWrite looked contained write, rfl⟩
      | openFile =>
          obtain rfl := refused (by nofun)
          obtain ⟨outcome, opened, opening, served⟩ := ok_of_bind served
          cases served
          exact ⟨looked_serveOpen looked contained fits opening, rfl⟩
      | kill =>
          obtain rfl := refused (by nofun)
          obtain ⟨outcome, killed, kill, served⟩ := ok_of_bind served
          cases served
          exact ⟨looked_serveKill looked kill, rfl⟩
      | fork =>
          obtain rfl := refused (by nofun)
          obtain ⟨outcome, forked, fork, served⟩ := ok_of_bind served
          cases served
          exact ⟨looked_serveFork looked fits fork, rfl⟩
      | wait =>
          obtain rfl := refused (by nofun)
          obtain ⟨outcome, waited, wait, served⟩ := ok_of_bind served
          cases served
          exact ⟨looked_serveWait looked fits wait, rfl⟩
      | setBreak =>
          obtain ⟨outcome, moved, move, served⟩ := ok_of_bind served
          cases served
          exact ⟨looked_serveBreak looked (declined.imp_right And.right) move, rfl⟩

/-- A completed call is recorded, unless it is replayed. -/
theorem noted_of_noteCompleted {value : Int64} {data : Bytes}
    (live : middle.own.recording.isReplaying = false)
    (done : noteCompleted call (.answer value) data middle = .ok () after) :
    after = middle.noting (call.record value data) := by
  unfold noteCompleted at done
  dsimp only [Outcome.result?] at done
  rw [get_bind_apply] at done
  unfold noting Recording.noting
  cases recording : middle.own.recording with
  | replay replayer =>
      rw [recording] at live
      cases live
  | off =>
      simp only [recording] at done ⊢
      cases done
      rw [← recording]
  | record trace =>
      simp only [recording] at done
      cases done
      rfl

/-- A hypervisor that has counted and noted a call, before it makes the call. -/
def heeding (id : ContextId) (call : Call) (hypervisor : Hypervisor) : Hypervisor where
  machine := hypervisor.machine.note (.called id call.number.toNat call.pc.toNat)
  own := { hypervisor.own with
    relay := hypervisor.own.relay.count fun counters =>
      { counters with systemCalls := counters.systemCalls + 1 } }

/-- **A call that is not answered from the trace is made, and its completion is noted.** -/
theorem performed_of_dispatch {context : Context}
    (found : origin.machine.context? id = some context)
    (made : origin.own.recording.isReplaying = false ∨
      (SystemCall.ofNumber? (Call.ofContext context).number.toNat).all (!·.reachesHost) = true)
    {outcome : Outcome} (done : dispatch id origin = .ok outcome after) :
    let call := Call.ofContext context
    ∃ data served, serve id call (SystemCall.ofNumber? call.number.toNat)
        (heeding id call origin) = .ok (outcome, data) served ∧
      noteCompleted call outcome data served = .ok () after := by
  intro call
  unfold dispatch at done
  obtain ⟨context', found', rest⟩ := found_of_contextOf done
  obtain rfl := Option.some.inj (found'.symm.trans found)
  have performed : dispatch.perform id call (SystemCall.ofNumber? call.number.toNat)
      (heeding id call origin) = .ok outcome after := by
    obtain ⟨_, counted, count, rest⟩ := ok_of_bind rest
    obtain ⟨_, noted, note, rest⟩ := ok_of_bind rest
    obtain rfl : heeding id call origin = noted := by
      cases count
      cases note
      rfl
    rw [get_bind_apply] at rest
    cases recording : (heeding id call origin).own.recording with
    | off =>
        simp only [recording] at rest
        exact rest
    | record trace =>
        simp only [recording] at rest
        exact rest
    | replay replayer =>
        have replaying : origin.own.recording.isReplaying = true := by
          rw [show origin.own.recording = _ from recording]
          rfl
        have inside := made.resolve_left fun live => nomatch replaying.symm.trans live
        change (SystemCall.ofNumber? call.number.toNat).all (!·.reachesHost) = true at inside
        simp only [recording] at rest
        generalize SystemCall.ofNumber? call.number.toNat = kind at inside rest
        cases kind with
        | none => exact rest
        | some kind =>
            have within : kind.reachesHost = false := by simpa using inside
            simp only [within] at rest
            exact rest
  obtain ⟨⟨outcome', data⟩, served, serve, rest⟩ := ok_of_bind performed
  obtain ⟨_, recorded, record, rest⟩ := ok_of_bind rest
  cases rest
  exact ⟨data, served, serve, record⟩

/-- **A call that is declined leaves no mark but its record.** -/
theorem looked_dispatch (steady : Steady capacity origin)
    (contained : origin.own.host.Contained) (fits : origin.NumbersFit)
    (live : origin.own.recording.isReplaying = false) {context : Context}
    (found : origin.machine.context? id = some context) {value : Int64}
    (declined : (Call.ofContext context).DeclinedBy value)
    (done : dispatch id origin = .ok (.answer value) after) :
    ∃ middle, Looked capacity id origin middle ∧
      after = middle.noting ((Call.ofContext context).record value []) := by
  obtain ⟨data, served, serve, record⟩ := performed_of_dispatch found (.inl live) done
  have looked : Looked capacity id origin (heeding id (Call.ofContext context) origin) :=
    ((steady.looked id).count rfl).note rfl
  obtain ⟨looked', rfl⟩ := looked_serve looked (looked.host ▸ contained) (looked.fits fits)
    declined serve
  exact ⟨served, looked', noted_of_noteCompleted (looked'.recording ▸ live) record⟩

end Calls

end Hypervisor

end NestedMachine
