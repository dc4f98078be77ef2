import NestedMachine.Proofs.Hypervisor.Fronts
import NestedMachine.Proofs.Hypervisor.HostCalls
import NestedMachine.Proofs.Hypervisor.Offline
import NestedMachine.Proofs.Hypervisor.Streams

/-!
# Records are handed out to calls

While calls are replayed, the records of a trace are handed out one after the other, each to a call
of its address and number (`HandsOut`).  A call that reaches the host asks for its record before
anything else (`halts_replayHostCall`).  A call within the machine is made first, and asks for its
record when it is completed (`halts_noteCompleted`).  If the next record is of another call, or
there is none, the call is turned away and everything stays as it is (`halts_nextRecord`).

So what a call has got is told by how it comes out: exactly its record if it is completed, none if
it waits or faults (`Settles`), and at most one if it fails (`Fails`).  The service of a call leaves
the caller behind the call with the result of the record, or ended with it (`Attempted`).  On the
way the transcripts of the replayer may grow, and nothing in them is changed (`Replayer.Grown`).
-/

namespace NestedMachine

set_option autoImplicit false

/-! ## Replayers -/

/-- Whatever was written stands in the transcripts still. -/
def Replayer.Grown (before after : Replayer) : Prop :=
  ∀ descriptor, before.transcript descriptor <+: after.transcript descriptor

namespace Replayer.Grown

theorem refl (replayer : Replayer) : Grown replayer replayer := fun _ => List.prefix_rfl

theorem trans {before middle after : Replayer} (first : Grown before middle)
    (second : Grown middle after) : Grown before after :=
  fun descriptor => (first descriptor).trans (second descriptor)

theorem of_same {before after : Replayer} (same : after.transcripts = before.transcripts) :
    Grown before after := by
  intro descriptor
  unfold transcript
  rw [same]

theorem capture (replayer : Replayer) (descriptor : Nat) (bytes : Bytes) :
    Grown replayer (replayer.capture descriptor bytes) := by
  intro stream
  rw [replayer.transcript_capture]
  exact List.prefix_append _ _

end Replayer.Grown

/-- No record is handed out. -/
structure Replayer.Rests (before after : Replayer) : Prop where
  pending : after.pending = before.pending
  consumed : after.consumed = before.consumed

/-- The next record belongs to another call, or there is none. -/
def HostError.TurnsAway : HostError → Prop
  | .replayExhausted .. | .replayDivergence .. => True
  | _ => False

namespace Hypervisor

variable {α : Type} {capacity : Nat} {id : ContextId} {call : Call} {replayer later : Replayer}
  {origin after : Hypervisor} {loaded : ContextId → Prop}

/-- A record is that of a call. -/
structure Call.Owns (call : Call) (record : TraceRecord) : Prop where
  pc : record.pc = call.pc
  number : record.number = call.number

/-- A known call gets the next record, which is its own. -/
structure HandsOut (before : Replayer) (call : Call) (record : TraceRecord) (after : Replayer) :
    Prop where
  next : before.pending = record :: after.pending
  counted : after.consumed = before.consumed + 1
  own : call.Owns record
  known : (SystemCall.ofNumber? call.number.toNat).isSome = true

theorem HandsOut.rests {before middle after : Replayer} {record : TraceRecord}
    (handed : HandsOut before call record middle) (rests : middle.Rests after) :
    HandsOut before call record after where
  next := rests.pending ▸ handed.next
  counted := rests.consumed.trans handed.counted
  own := handed.own
  known := handed.known

/-- A call that fails gets a record or none, and none if there is none for it. -/
def Fails (before : Replayer) (call : Call) (error : HostError) (after : Replayer) : Prop :=
  after = before ∨ (∃ record, HandsOut before call record after) ∧ ¬error.TurnsAway

/-- A call that is completed gets a record with its result, and another one gets none. -/
def Settles (before : Replayer) (call : Call) (outcome : Outcome) (after : Replayer) : Prop :=
  match outcome.result? with
  | some value => ∃ record, HandsOut before call record after ∧ record.result = value
  | none => after = before

/-- Calls are replayed on, with a replayer that has moved as told. -/
def GoesOn (capacity : Nat) (before : Replayer) (moved : Replayer → Prop) (after : Hypervisor) :
    Prop :=
  ∃ later, Recorded capacity (· = .replay later) after ∧ before.Grown later ∧ moved later

namespace GoesOn

variable {moved moved' : Replayer → Prop}

theorem stays (given : Recorded capacity (· = .replay replayer) origin) (holds : moved replayer) :
    GoesOn capacity replayer moved origin := ⟨replayer, given, .refl replayer, holds⟩

theorem mono (goesOn : GoesOn capacity replayer moved origin)
    (weak : ∀ later, moved later → moved' later) : GoesOn capacity replayer moved' origin := by
  obtain ⟨later, given, grown, reached⟩ := goesOn
  exact ⟨later, given, grown, weak later reached⟩

theorem after_grown {before : Replayer} (goesOn : GoesOn capacity replayer moved origin)
    (grown : before.Grown replayer) : GoesOn capacity before moved origin := by
  obtain ⟨later, given, grown', reached⟩ := goesOn
  exact ⟨later, given, grown.trans grown', reached⟩

end GoesOn

/-! ## Records -/

/-- Whoever is turned away leaves everything as it is. -/
theorem halts_nextRecord (given : Recorded capacity (· = .replay replayer) origin)
    (known : (SystemCall.ofNumber? call.number.toNat).isSome = true) :
    Halts (fun error after => error.TurnsAway ∧ after = origin)
      (fun found => GoesOn capacity replayer (HandsOut replayer call found.2))
      (nextRecord call replayer origin) := by
  unfold nextRecord Replayer.next
  cases pending : replayer.pending with
  | nil => exact ⟨trivial, rfl⟩
  | cons record rest =>
      by_cases own : record.pc = call.pc ∧ record.number = call.number
      · simp only [if_pos own]
        exact ⟨_, ⟨⟨given.1.sound, given.1.uniform⟩, rfl⟩, .of_same rfl, pending, rfl,
          ⟨own.1, own.2⟩, known⟩
      · simp only [if_neg own]
        exact ⟨trivial, rfl⟩

/-- Running out of frames is not what turns a call away. -/
theorem halts_callerMemory {told : Recording → Prop} (given : Recorded capacity told origin)
    {action : MemoryAction α} (congruent : Memory.Congruent action) :
    Halts (fun error after => Recorded capacity told after ∧ ¬error.TurnsAway)
      (fun _ => Recorded capacity told) (onCallerMemory id call action origin) := by
  have kept := (abiding_recorded told).callerMemory id call congruent origin given
  have accessed : Halts (fun error _ => ¬error.TurnsAway) (fun _ _ => True)
      (onMemory id action origin) := by
    obtain ⟨machine, own⟩ := origin
    unfold onMemory
    dsimp only
    split
    · trivial
    · exact fun turned => turned
  have fails : Halts (fun error _ => ¬error.TurnsAway) (fun _ _ => True)
      (onCallerMemory id call action origin) := by
    refine accessed.bind fun answer middle _ => ?_
    split
    · exact fun turned => turned
    · trivial
  exact (kept.both fails).mono (fun _ _ given => given.1) fun _ _ failed => failed

/-- What is done about the record of a call that reaches the host hands out no other one. -/
theorem halts_replayEffect (given : Recorded capacity (· = .replay replayer) origin)
    (kind : SystemCall) (record : TraceRecord) :
    Halts (fun error after => GoesOn capacity replayer replayer.Rests after ∧ ¬error.TurnsAway)
      (fun _ => GoesOn capacity replayer replayer.Rests)
      (replayEffect id call kind record origin) := by
  have stays {middle : Hypervisor} (given : Recorded capacity (· = .replay replayer) middle) :
      GoesOn capacity replayer replayer.Rests middle := .stays given ⟨rfl, rfl⟩
  have idle : Halts (fun error after => GoesOn capacity replayer replayer.Rests after ∧
      ¬error.TurnsAway) (fun _ => GoesOn capacity replayer replayer.Rests)
      ((pure () : HypervisorAction Unit) origin) := stays given
  cases kind with
  | read =>
      by_cases empty : record.data.isEmpty = true
      · simp only [replayEffect, if_pos empty]
        exact idle
      · simp only [replayEffect, if_neg empty]
        refine Halts.bind ((halts_callerMemory given (.writeBytes _ _)).mono (fun _ _ kept => kept)
          fun _ _ failed => ⟨stays failed.1, failed.2⟩) fun found middle kept => ?_
        cases found with
        | ok _ => exact stays kept
        | error fault =>
            have noted := ((abiding_recorded (· = .replay replayer)).note
              (.replayedReadFailed call.second.toNat fault)).finalState kept
            exact stays noted
  | write =>
      by_cases positive : 0 < record.result
      · simp only [replayEffect, if_pos positive, captureWrite_eq]
        refine Halts.bind ((halts_callerMemory given (.readBytes _ _)).mono (fun _ _ kept => kept)
          fun _ _ failed => ⟨stays failed.1, failed.2⟩) fun found middle kept => ?_
        cases found with
        | ok bytes =>
            refine ⟨replayer.capture call.first.toNat bytes, ⟨⟨kept.1.sound, kept.1.uniform⟩, ?_⟩,
              Replayer.Grown.capture replayer _ bytes, rfl, rfl⟩
            show captureIn call bytes middle.own.recording = _
            rw [kept.2]
            rfl
        | error fault => exact stays kept
      · simp only [replayEffect, if_neg positive]
        exact idle
  | _ => exact idle

/-! ## Calls -/

/-- **A call that reaches the host gets its answer from its record.** -/
theorem halts_replayHostCall (given : Recorded capacity (· = .replay replayer) origin)
    {kind : SystemCall} (known : SystemCall.ofNumber? call.number.toNat = some kind) :
    Halts (fun error => GoesOn capacity replayer (Fails replayer call error))
      (fun outcome => GoesOn capacity replayer (Settles replayer call outcome))
      (replayHostCall id call kind replayer origin) := by
  rw [replayHostCall_eq]
  refine Halts.bind ((halts_nextRecord given (Option.isSome_of_eq_some known)).mono
    (fun _ _ kept => kept) fun error after failed => ?_) ?_
  · exact failed.2 ▸ .stays given (.inl rfl)
  · rintro ⟨index, record⟩ middle ⟨next, given, grown, handed⟩
    refine Halts.bind ((halts_replayEffect given kind record).mono (fun _ _ kept => kept)
      fun error after failed => ?_) fun _ after kept => ?_
    · exact (failed.1.mono fun later rests => .inr ⟨⟨record, handed.rests rests⟩, failed.2⟩)
        |>.after_grown grown
    · exact (kept.mono fun later rests => ⟨record, handed.rests rests, rfl⟩).after_grown grown

/-- **A call within the machine is compared with its record when it is completed.** -/
theorem halts_noteCompleted (given : Recorded capacity (· = .replay replayer) origin)
    (known : (SystemCall.ofNumber? call.number.toNat).isSome = true) (outcome : Outcome)
    (data : Bytes) :
    Halts (fun error => GoesOn capacity replayer (Fails replayer call error))
      (fun _ => GoesOn capacity replayer (Settles replayer call outcome))
      (noteCompleted call outcome data origin) := by
  unfold noteCompleted Settles
  cases outcome.result? with
  | none => exact .stays given rfl
  | some result =>
      apply Halts.get_bind
      simp only [given.2]
      refine Halts.bind ((halts_nextRecord given known).mono (fun _ _ kept => kept)
        fun error after failed => ?_) ?_
      · exact failed.2 ▸ .stays given (.inl rfl)
      · rintro ⟨index, record⟩ middle handed
        split
        · exact handed.mono fun later handed => .inr ⟨⟨record, handed⟩, fun turned => turned⟩
        · rename_i same
          exact handed.mono fun later handed => ⟨record, handed, not_not.mp same⟩

/-- **A call gets at most one record**: its own, if it is completed. -/
theorem halts_dispatch (given : Recorded capacity (· = .replay replayer) origin)
    {context : Context} (found : origin.machine.context? id = some context) :
    Halts (fun error => GoesOn capacity replayer (Fails replayer (Call.ofContext context) error))
      (fun outcome => GoesOn capacity replayer (Settles replayer (Call.ofContext context) outcome))
      (dispatch id origin) := by
  have abiding : Abiding (Recorded capacity (· = .replay replayer)) := abiding_recorded _
  have looked : contextOf id origin = .ok context origin := by
    rw [contextOf_apply, found]
  unfold dispatch
  rw [bind_of_ok looked]
  dsimp only
  generalize Call.ofContext context = call
  have heeded : Recorded capacity (· = .replay replayer) (heeding id call origin) :=
    ⟨⟨given.1.sound.congr rfl (fun _ => rfl) le_rfl, given.1.uniform.congr rfl fun _ => rfl⟩,
      given.2⟩
  let counted : Hypervisor := { origin with own := (heeding id call origin).own }
  have counts : count (fun counters => { counters with systemCalls := counters.systemCalls + 1 })
      origin = .ok () counted := rfl
  have notes : note (.called id call.number.toNat call.pc.toNat) counted =
      .ok () (heeding id call origin) := rfl
  rw [bind_of_ok counts, bind_of_ok notes]
  apply Halts.get_bind
  rw [heeded.2]
  cases known : SystemCall.ofNumber? call.number.toNat with
  | none => exact .stays heeded rfl
  | some kind =>
      dsimp only
      split
      · exact halts_replayHostCall heeded known
      · rename_i inside
        have serves : Keeps (Recorded capacity (· = .replay replayer))
            (serve id call (some kind)) :=
          abiding.keeps (abiding.respects.serve_within id call (by simpa using inside))
        refine Halts.bind ((serves _ heeded).mono (fun _ _ kept => kept)
          fun _ _ kept => .stays kept (.inl rfl)) ?_
        rintro ⟨outcome, data⟩ served kept
        exact (halts_noteCompleted kept (Option.isSome_of_eq_some known) outcome data).bind
          fun _ _ settled => settled

/-! ## The service of calls -/

/-- What a call that has been served leaves of its caller and of the replayer.  The caller goes on
behind the call with the result of the record in its register, or it has ended with that; or it
waits or has faulted, and no record has been handed out. -/
inductive Attempted (id : ContextId) (call : Call) (before later : Replayer)
    (after : Hypervisor) : Prop
  | answered {record : TraceRecord} {context : Context} (handed : HandsOut before call record later)
      (found : after.machine.context? id = some context) (ready : context.state = .ready)
      (behind : context.hart.pc = call.pc + 4)
      (answer : context.register Register.a0 = record.result.toUInt64)
  | ended {record : TraceRecord} (handed : HandsOut before call record later)
      (status : ∀ context, after.machine.context? id = some context →
        context.exitStatus = some (.exited record.result))
  | waits {context : Context} {target : Option ContextId} (same : later = before)
      (found : after.machine.context? id = some context)
      (waiting : context.state = .blocked (.wait target))
  | faults {fault : Fault} (same : later = before)
      (faulted : ∀ context, after.machine.context? id = some context →
        context.state = .trapped fault call.pc ∨
          context.exitStatus = some (.faulted fault call.pc))

/-- A context that is served and ends has ended so. -/
theorem ended_of_terminate (kinship : Kinship loaded origin) (serving : origin.Serving id)
    (status : ExitStatus) :
    Halts Never (fun _ after => ∀ kin, after.kin id = some kin → kin.exitStatus = some status)
      (terminate id status origin) := by
  obtain ⟨kin, there, -⟩ := serving
  refine (halts_terminate kinship there status).mono (fun _ after ends kin found => ?_)
    fun _ _ never => never
  obtain ⟨-, rfl⟩ := ends.self found
  rfl

/-- A context that is served and faults is parked by the fault, or has ended so. -/
theorem faulted_of_handleFault (kinship : Kinship loaded origin) (serving : origin.Serving id)
    (fault : Fault) (pc : UInt64) :
    Halts (fun _ _ => True)
      (fun _ after => ∀ kin, after.kin id = some kin →
        kin.state = .trapped fault pc ∨ kin.exitStatus = some (.faulted fault pc))
      (handleFault id fault pc origin) := by
  refine Halts.bind ((discreet_count id _ origin kinship.uniform).mono (fun _ _ given => given)
    fun _ _ _ => trivial) fun _ counted ⟨hushed, _⟩ => ?_
  replace kinship := kinship.of_hushed hushed
  replace serving := serving.of_hushed hushed
  refine Halts.bind ((discreet_note id _ counted kinship.uniform).mono (fun _ _ given => given)
    fun _ _ _ => trivial) fun _ noted ⟨hushed, _⟩ => ?_
  replace kinship := kinship.of_hushed hushed
  replace serving := serving.of_hushed hushed
  apply Halts.get_bind
  split
  · obtain ⟨kin, found, -⟩ := serving
    refine Halts.bind ((halts_setState kinship.uniform found (.trapped fault pc)).mono
      (fun _ _ given => given) fun _ _ never => never.elim) fun _ parked ⟨altered, _⟩ => ?_
    intro kin found
    obtain ⟨before, -, rfl⟩ := altered.of_found found
    rw [if_pos rfl]
    exact .inl rfl
  · exact (ended_of_terminate kinship serving (.faulted fault pc)).mono
      (fun _ _ ends kin found => .inr (ends kin found)) fun _ _ _ => trivial

/-! ### What becomes of the caller -/

section Callers

variable {record : TraceRecord}

theorem context_of_serving (given : Recorded capacity (· = .replay replayer) origin)
    (serving : origin.Serving id) : ∃ context, origin.machine.context? id = some context := by
  obtain ⟨_, there, -⟩ := serving
  obtain ⟨context, found, -⟩ := exists_context? given.1.uniform there
  exact ⟨context, found⟩

/-- A change of a context that is served concerns nothing else. -/
theorem served_modifyContext (given : Recorded capacity (· = .replay replayer) origin)
    (serving : origin.Serving id) {change : Context → Context}
    (kin : ∀ context, (change context).kin = context.kin) (blind : Context.SpaceBlind change) :
    Halts Never (fun _ after => Hushed id origin after ∧
        after.machine = origin.machine.modifyContext id change ∧
        Recorded capacity (· = .replay replayer) after) (modifyContext id change origin) := by
  obtain ⟨context, found⟩ := context_of_serving given serving
  have abiding : Abiding (Recorded capacity (· = .replay replayer)) := abiding_recorded _
  have hushed := discreet_modifyContext id id kin blind.space origin given.1.uniform
  have kept := abiding.modifyContext id blind origin given
  rw [modifyContext_apply, found] at hushed kept ⊢
  exact ⟨hushed.1, rfl, kept⟩

/-- The caller of an answered call goes on behind it with the result of the record. -/
theorem attempted_answer (given : Recorded capacity (· = .replay later) origin)
    (serving : origin.Serving id) (handed : HandsOut replayer call record later) :
    Halts Never (fun _ after => Recorded capacity (· = .replay later) after ∧
        Attempted id call replayer later after)
      ((do
        modifyContext id fun context =>
          (context.withRegister Register.a0 record.result.toUInt64).withPc (call.pc + 4)
        makeReady id : HypervisorAction Unit) origin) := by
  obtain ⟨context, found⟩ := context_of_serving given serving
  refine Halts.bind (served_modifyContext given serving ?_ ?_) ?_
  · exact fun _ => rfl
  · exact fun _ _ => rfl
  rintro _ answered ⟨-, machine, kept⟩
  have there : answered.machine.context? id = some ((context.withRegister Register.a0
      record.result.toUInt64).withPc (call.pc + 4)) := by
    rw [machine, context?_modifyContext, if_pos rfl, found]
    rfl
  have abiding : Abiding (Recorded capacity (· = .replay later)) := abiding_recorded _
  have readied := abiding.keeps (abiding.respects.makeReady id) answered kept
  rw [makeReady_of_found there] at readied ⊢
  refine ⟨readied, .answered handed (context?_withState kept.1.uniform there .ready) rfl rfl ?_⟩
  exact register_answer ..

/-- The caller of a call that ends it has ended with the result of the record. -/
theorem attempted_exit (given : Recorded capacity (· = .replay later) origin)
    (kinship : Kinship loaded origin) (serving : origin.Serving id)
    (handed : HandsOut replayer call record later) (pc : UInt64) :
    Halts Never (fun _ after => Recorded capacity (· = .replay later) after ∧
        Attempted id call replayer later after)
      ((do
        modifyContext id (·.withPc pc)
        terminate id (.exited record.result) : HypervisorAction Unit) origin) := by
  refine Halts.bind (served_modifyContext given serving ?_ ?_) ?_
  · exact fun _ => rfl
  · exact fun _ _ => rfl
  rintro _ behind ⟨hushed, -, kept⟩
  have abiding : Abiding (Recorded capacity (· = .replay later)) := abiding_recorded _
  have ends := ended_of_terminate (kinship.of_hushed hushed) (serving.of_hushed hushed)
    (.exited record.result)
  have left := abiding.keeps (abiding.respects.terminate id (.exited record.result)) behind kept
  refine (ends.both left).mono ?_ fun _ _ never => never.1.elim
  rintro _ after ⟨ended, kept⟩
  exact ⟨kept, .ended handed fun context found => ended _ (kin_of_context? kept.1.uniform found)⟩

/-- The caller of a call that blocks waits. -/
theorem attempted_block (given : Recorded capacity (· = .replay replayer) origin)
    (serving : origin.Serving id) (target : Option ContextId) :
    Halts Never (fun _ after => Recorded capacity (· = .replay replayer) after ∧
        Attempted id call replayer replayer after)
      (setState id (.blocked (.wait target)) origin) := by
  obtain ⟨context, found⟩ := context_of_serving given serving
  have abiding : Abiding (Recorded capacity (· = .replay replayer)) := abiding_recorded _
  have waits := abiding.keeps (abiding.respects.setState id (.blocked (.wait target))) origin given
  have blocked := context?_withState given.1.uniform found (.blocked (.wait target))
  rw [setState_of_found found] at waits ⊢
  exact ⟨waits, .waits rfl blocked rfl⟩

/-- The caller of a call that faults is parked by the fault, or has ended so. -/
theorem attempted_fault (given : Recorded capacity (· = .replay replayer) origin)
    (kinship : Kinship loaded origin) (serving : origin.Serving id) (call : Call) (fault : Fault) :
    Halts (fun _ => Recorded capacity (· = .replay replayer))
      (fun _ after => Recorded capacity (· = .replay replayer) after ∧
        Attempted id call replayer replayer after)
      (handleFault id fault call.pc origin) := by
  have abiding : Abiding (Recorded capacity (· = .replay replayer)) := abiding_recorded _
  have kept := abiding.keeps (abiding.respects.handleFault id fault call.pc) origin given
  have faults := faulted_of_handleFault kinship serving fault call.pc
  refine (faults.both kept).mono ?_ fun _ _ failed => failed.2
  rintro _ after ⟨faulted, kept⟩
  have told (ended : Context) (found : after.machine.context? id = some ended) :
      ended.state = .trapped fault call.pc ∨ ended.exitStatus = some (.faulted fault call.pc) :=
    faulted ended.kin (kin_of_context? kept.1.uniform found)
  exact ⟨kept, .faults rfl told⟩

end Callers

/-- **A completed call has got exactly its record**, and its caller gets the result of that; a call
that waits or faults has got none, and one that fails has got one at most. -/
theorem attempted_serviceCall (given : Recorded capacity (· = .replay replayer) origin)
    (kinship : Kinship loaded origin) (serving : origin.Serving id) {context : Context}
    (found : origin.machine.context? id = some context) :
    Halts (fun error => GoesOn capacity replayer (Fails replayer (Call.ofContext context) error))
      (fun _ after => GoesOn capacity replayer
        (fun later => Attempted id (Call.ofContext context) replayer later after) after)
      (serviceCall id origin) := by
  have abiding (replayer : Replayer) : Abiding (Recorded capacity (· = .replay replayer)) :=
    abiding_recorded _
  obtain ⟨kin, there, lives, idle⟩ := serving
  have calling : ¬Waiting (.blocked .systemCall) := not_waiting_of_ne fun _ same => nomatch same
  have fit : Fit origin kin (.blocked .systemCall) := .of_idle nofun calling
  have calls := within_setState kinship.uniform there lives idle fit
  have kept := (abiding replayer).keeps ((abiding replayer).respects.setState id
    (.blocked .systemCall)) origin given
  have called := setState_of_found found (.blocked .systemCall)
  have found' := context?_withState kinship.uniform found (.blocked .systemCall)
  generalize origin.withState id (.blocked .systemCall) = started at called found'
  unfold Within at calls
  rw [called] at calls kept
  obtain ⟨calm, self, -⟩ := calls
  have kinship' := calm.kinship kinship
  have looked : contextOf id started = .ok (context.withState (.blocked .systemCall)) started := by
    rw [contextOf_apply, found']
  unfold serviceCall
  rw [bind_of_ok called, bind_of_ok looked]
  have dispatches := (halts_dispatch kept found').both
    (within_dispatch kinship' ⟨_, self, lives, calling⟩)
  refine Halts.bind (dispatches.mono (fun _ _ given => given) fun _ _ failed => failed.1) ?_
  rintro outcome served ⟨⟨later, recorded, grown, settled⟩, course, told⟩
  have kinship'' := course.kinship kinship'
  cases outcome with
  | answer value =>
      obtain ⟨record, handed, rfl⟩ := settled
      exact (attempted_answer recorded told.serving handed).certain
        fun _ _ ⟨kept, attempted⟩ => ⟨later, kept, grown, attempted⟩
  | exit code =>
      obtain ⟨record, handed, rfl⟩ := settled
      exact (attempted_exit recorded kinship'' told.serving handed _).certain
        fun _ _ ⟨kept, attempted⟩ => ⟨later, kept, grown, attempted⟩
  | block reason =>
      obtain ⟨target, rfl⟩ := told.waits reason rfl
      obtain rfl : later = replayer := settled
      exact (attempted_block recorded told.serving target).certain
        fun _ _ ⟨kept, attempted⟩ => ⟨later, kept, grown, attempted⟩
  | fault fault =>
      obtain rfl : later = replayer := settled
      exact (attempted_fault recorded kinship'' told.serving (.ofContext context) fault).mono
        (fun _ _ ⟨kept, attempted⟩ => ⟨later, kept, grown, attempted⟩)
        fun _ _ kept => .stays kept (.inl rfl)

end Hypervisor

end NestedMachine
