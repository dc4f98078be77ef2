import NestedMachine.Proofs.Hypervisor.Handouts
import NestedMachine.Proofs.Hypervisor.Traps

/-!
# Replays consume traces in order

What a replay consumes of its trace is what the calls of its contexts consume.  A turn leaves a
context in a trap, in which it is served (`Turn.Leads.tended`); unless the trap is a call, nothing
turns to the replayer any more (`playsOn_turn`).  So a single operation consumes what its call
consumes (`Operation.PlaysOn`), whether it succeeds or fails.

Operations consist of single ones, with rounds in place of runs (`exists_refines`).  By induction
the records that they have consumed are the next ones of the trace, and each was of a call that was
served, one after the other (`dealt_servedCalls`).  Together with what is known about hosts, this is
what a replay comes to, from any trace (`replay_in_order`).
-/

namespace NestedMachine

set_option autoImplicit false

/-- Calls are replayed on, with a replayer that has moved as told; the transcripts have grown. -/
def Recording.PlaysOn (recording : Recording) (before : Replayer) (moved : Replayer → Prop) :
    Prop :=
  ∃ later, recording = .replay later ∧ before.Grown later ∧ moved later

namespace Hypervisor

variable {α : Type} {capacity quantum : Nat} {id : ContextId} {replayer : Replayer}
  {origin after : Hypervisor} {loaded : ContextId → Prop}

theorem GoesOn.playsOn {moved : Replayer → Prop} (goesOn : GoesOn capacity replayer moved origin) :
    origin.own.recording.PlaysOn replayer moved := by
  obtain ⟨later, given, reached⟩ := goesOn
  exact ⟨later, given.2, reached⟩

/-! ## Operations -/

/-- What a single operation does to a replay.  Without a call it leaves the replayer as it is; a
call that it serves gets records as it should, whether the operation succeeds or fails. -/
def Operation.PlaysOn (operation : Operation) (replayer : Replayer) (origin : Hypervisor) : Prop :=
  match operation.turn?.bind fun turn => turn.servedCall? origin with
  | none => (finalState (operation.perform origin)).own.recording = .replay replayer
  | some served =>
      Halts (fun error after => after.own.recording.PlaysOn replayer
          (Fails replayer served.call error))
        (fun _ after => after.own.recording.PlaysOn replayer fun later =>
          Attempted served.caller served.call replayer later after)
        (operation.perform origin)

/-- **A turn consumes what its call consumes.** -/
theorem playsOn_turn (turn : Turn) (given : Recorded capacity (· = .replay replayer) origin)
    (kinship : Kinship loaded origin) : turn.operation.PlaysOn replayer origin := by
  have abiding : Abiding (Recorded capacity (· = .replay replayer)) := abiding_recorded _
  have trapped := abiding.toTrap turn origin given
  have same : turn.operation.turn? = some turn := by cases turn <;> rfl
  unfold Operation.PlaysOn
  rw [same, Option.bind_some, turn.perform_eq]
  unfold Turn.servedCall?
  cases reached : turn.toTrap origin with
  | error error called =>
      rw [reached] at trapped
      dsimp only
      rw [bind_of_error reached]
      exact trapped.2
  | ok trapped' called =>
      rw [reached] at trapped
      rw [bind_of_ok reached]
      have aside (keeps : Keeps (Recorded capacity (· = .replay replayer))
          (turn.finish trapped')) :
          (finalState (turn.finish trapped' called)).own.recording = .replay replayer :=
        (keeps.finalState trapped).2
      have settles {id : ContextId} {trap : Trap} (other : trap ≠ .environmentCall) :
          Keeps (Recorded capacity (· = .replay replayer)) (turn.finish (some (id, trap))) :=
        (abiding.settle turn other).bind fun _ => .pure _
      cases trapped' with
      | none => exact aside (.pure _)
      | some trapped' =>
          obtain ⟨id, trap⟩ := trapped'
          cases trap with
          | environmentCall =>
              obtain ⟨kinship, serving⟩ := (leads_of_toTrap kinship.uniform reached).tended kinship
              have ⟨kin, there, _⟩ := serving
              obtain ⟨context, found, -⟩ := exists_context? kinship.uniform there
              simp only [found, Option.map_some]
              have served := attempted_serviceCall trapped kinship serving found
              rw [turn.finish_environmentCall]
              exact (served.mono (fun _ _ moved => moved.playsOn)
                fun _ _ failed => failed.playsOn).bind fun _ _ moved => moved
          | timerInterrupt => exact aside (settles nofun)
          | fault fault pc => exact aside (settles nofun)

/-- **Every single operation that goes on replaying consumes what its call consumes.** -/
theorem playsOn_single {operation : Operation} (single : operation.single = true)
    (goesOn : operation.goesOn = true) (given : Recorded capacity (· = .replay replayer) origin)
    (kinship : Kinship loaded origin) : operation.PlaysOn replayer origin := by
  have abiding : Abiding (Recorded capacity (· = .replay replayer)) := abiding_recorded _
  cases still : operation.turn? with
  | some turn =>
      obtain rfl : operation = turn.operation := by
        cases operation <;> cases still <;> rfl
      exact playsOn_turn turn given kinship
  | none =>
      unfold Operation.PlaysOn
      rw [still, Option.bind_none]
      cases aloof : operation.aloof with
      | true => exact ((abiding.still single still aloof).finalState given).2
      | false =>
          cases operation with
          | startRecording => cases goesOn
          | startReplay trace => cases goesOn
          | takeTrace =>
              have taken : takeTrace origin = .ok none origin := by
                unfold takeTrace
                rw [get_bind_apply, given.2]
                rfl
              show (finalState ((do return Answer.trace (← takeTrace)) origin)).own.recording = _
              rw [bind_of_ok taken]
              exact given.2
          | _ => cases aloof

/-! ## Records and their calls -/

/-- Between two moments of a replayer, records have been handed out to some of the calls in their
order, each to a call that it is of. -/
structure Dealt (calls : List Call) (taken : List TraceRecord) (before after : Replayer) :
    Prop where
  grown : before.Grown after
  next : before.pending = taken ++ after.pending
  counted : after.consumed = before.consumed + taken.length
  owned : ∃ owners, owners.Sublist calls ∧ List.Forall₂ Call.Owns owners taken

namespace Dealt

variable {calls later : List Call} {taken taken' : List TraceRecord} {before middle last : Replayer}

theorem none (grown : before.Grown last) (rests : before.Rests last) (calls : List Call) :
    Dealt calls [] before last :=
  ⟨grown, rests.pending.symm, rests.consumed, [], List.nil_sublist _, .nil⟩

theorem one {call : Call} {record : TraceRecord} (grown : before.Grown last)
    (handed : HandsOut before call record last) : Dealt [call] [record] before last :=
  ⟨grown, handed.next, handed.counted, [call], .refl _, .cons handed.own .nil⟩

theorem append (first : Dealt calls taken before middle)
    (second : Dealt later taken' middle last) :
    Dealt (calls ++ later) (taken ++ taken') before last := by
  obtain ⟨owners, among, owns⟩ := first.owned
  obtain ⟨owners', among', owns'⟩ := second.owned
  refine ⟨first.grown.trans second.grown, ?_, ?_, owners ++ owners', among.append among',
    List.rel_append owns owns'⟩
  · rw [first.next, second.next, List.append_assoc]
  · rw [second.counted, first.counted, List.length_append, Nat.add_assoc]

end Dealt

/-- A single operation hands out records to the call that it serves. -/
theorem Operation.PlaysOn.dealt {operation : Operation}
    (plays : operation.PlaysOn replayer origin) :
    ∃ later taken, (finalState (operation.perform origin)).own.recording = .replay later ∧
      Dealt ((operation.turn?.bind fun turn => turn.servedCall? origin).toList.map ServedCall.call)
        taken replayer later := by
  unfold Operation.PlaysOn at plays
  generalize operation.turn?.bind _ = served at plays
  cases served with
  | none => exact ⟨replayer, [], plays, .none (.refl replayer) ⟨rfl, rfl⟩ _⟩
  | some served =>
      generalize operation.perform origin = result at plays
      cases result with
      | error error after =>
          obtain ⟨later, recording, grown, same | ⟨⟨record, handed⟩, -⟩⟩ := plays
          · exact ⟨later, [], recording, .none grown (same ▸ ⟨rfl, rfl⟩) _⟩
          · exact ⟨later, [record], recording, .one grown handed⟩
      | ok answer after =>
          obtain ⟨later, recording, grown, attempted⟩ := plays
          cases attempted with
          | answered handed => exact ⟨later, [_], recording, .one grown handed⟩
          | ended handed => exact ⟨later, [_], recording, .one grown handed⟩
          | waits same => exact ⟨later, [], recording, .none grown (same ▸ ⟨rfl, rfl⟩) _⟩
          | faults same => exact ⟨later, [], recording, .none grown (same ▸ ⟨rfl, rfl⟩) _⟩

/-- **Records are handed out in order**, to the calls that are served one after the other. -/
theorem dealt_servedCalls {operations : List Operation}
    (single : ∀ operation ∈ operations, operation.single = true)
    (goOn : ∀ operation ∈ operations, operation.goesOn = true)
    (given : Recorded capacity (· = .replay replayer) origin) (kinship : Kinship loaded origin) :
    ∃ later taken, (stateAfter Operation.perform operations origin).own.recording = .replay later ∧
      Dealt ((servedCalls operations origin).map ServedCall.call) taken replayer later := by
  induction operations generalizing origin replayer loaded with
  | nil => exact ⟨replayer, [], given.2, .none (.refl replayer) ⟨rfl, rfl⟩ _⟩
  | cons operation rest ih =>
      obtain ⟨alone, single⟩ := List.forall_mem_cons.mp single
      obtain ⟨goesOn, goOn⟩ := List.forall_mem_cons.mp goOn
      obtain ⟨middle, taken, recording, dealt⟩ := (playsOn_single alone goesOn given kinship).dealt
      have steady := operation.keeps_steady.finalState given.1
      have passed : Passed False _ origin (finalState (operation.perform origin)) :=
        passed_perform kinship operation fun never => never.elim
      obtain ⟨later, taken', reached, dealt'⟩ := ih single goOn ⟨steady, recording⟩
        (passed.kinship _ kinship)
      refine ⟨later, taken ++ taken', reached, ?_⟩
      unfold servedCalls
      rw [List.map_append]
      exact dealt.append dealt'

/-! ## Replays -/

/-- Single operations that lead where operations lead: those themselves, with rounds in place of
runs. -/
structure Refines (steps operations : List Operation) (origin : Hypervisor) : Prop where
  single : ∀ step ∈ steps, step.single = true
  among : ∀ step ∈ steps, step ∈ operations ∨ step.IsRound
  reached : stateAfter Operation.perform steps origin =
    stateAfter Operation.perform operations origin

/-- **No operations lead elsewhere than single ones**, whether they succeed or fail. -/
theorem exists_refines (operations : List Operation) (origin : Hypervisor) :
    ∃ steps, Refines steps operations origin := by
  induction operations generalizing origin with
  | nil => exact ⟨[], nofun, nofun, rfl⟩
  | cons operation rest ih =>
      obtain ⟨later, refines⟩ := ih (finalState (operation.perform origin))
      obtain ⟨steps, alone, given, reached⟩ : ∃ steps : List Operation,
          (∀ step ∈ steps, step.single = true) ∧
          (∀ step ∈ steps, step = operation ∨ step.IsRound) ∧
          stateAfter Operation.perform steps origin = finalState (operation.perform origin) := by
        cases single : operation.single with
        | true => exact ⟨[operation], by simpa using single, by simp, rfl⟩
        | false =>
            obtain ⟨⟨rounds, given, driven⟩, -⟩ := driven_of_many single origin
            exact ⟨rounds, fun round member => (given round member).single,
              fun round member => .inr (given round member), driven.symm⟩
      refine ⟨steps ++ later, fun step member => ?_, fun step member => ?_, ?_⟩
      · exact (List.mem_append.mp member).elim (alone step) (refines.single step)
      · rcases List.mem_append.mp member with member | member
        · refine (given step member).imp_left ?_
          rintro rfl
          exact List.mem_cons_self
        · exact (refines.among step member).imp_left (List.mem_cons_of_mem _)
      · rw [stateAfter_append, reached]
        exact refines.reached

/-- What operations hand out of a trace goes to the calls of the single operations that they are
made of. -/
theorem dealt_operations {operations : List Operation}
    (goOn : ∀ operation ∈ operations, operation.goesOn = true)
    (given : Recorded capacity (· = .replay replayer) origin) (kinship : Kinship loaded origin) :
    ∃ steps later taken, Refines steps operations origin ∧
      (stateAfter Operation.perform operations origin).own.recording = .replay later ∧
      Dealt ((servedCalls steps origin).map ServedCall.call) taken replayer later := by
  obtain ⟨steps, refines⟩ := exists_refines operations origin
  have goOn' (step : Operation) (member : step ∈ steps) : step.goesOn = true := by
    rcases refines.among step member with among | rfl | ⟨id, rfl⟩
    · exact goOn step among
    · rfl
    · rfl
  obtain ⟨later, taken, reached, dealt⟩ := dealt_servedCalls refines.single goOn' given kinship
  exact ⟨steps, later, taken, refines, refines.reached ▸ reached, dealt⟩

/-- **A replay needs no host and consumes its trace in order.**  Whatever programs were loaded, and
whatever the trace, operations that go on replaying have the same trail for every host, which they
leave as it is, whether they succeed or fail.  The records that have been consumed are the first
ones of the trace; each has gone to a call with its address and number, in the order in which calls
were served.  What is written to a descriptor only grows.  And from wherever the replay has got to,
a single operation consumes at most the next record, as its call comes out (`Operation.PlaysOn`). -/
theorem replay_in_order {configuration : Configuration} {host : Host} {journal : Journal}
    {level : Nat} {start : Hypervisor} (built : nested configuration host journal level = .ok start)
    (history : List Operation) (trace : Trace) {operations : List Operation}
    (goOn : ∀ operation ∈ operations, operation.goesOn = true) :
    let started := stateAfter Operation.perform (history ++ [.startReplay trace]) start
    let reached := stateAfter Operation.perform operations started
    (∀ other, trail Operation.perform operations (started.withHost other) =
      (trail Operation.perform operations started).map fun outcome =>
        (outcome.1, outcome.2.withHost other)) ∧
    reached.own.host = started.own.host ∧
    ∃ replayer, reached.own.recording = .replay replayer ∧
      replayer.consumed ≤ trace.records.size ∧
      replayer.pending = trace.records.toList.drop replayer.consumed ∧
      (∃ steps owners, Refines steps operations started ∧
        owners.Sublist ((servedCalls steps started).map ServedCall.call) ∧
        List.Forall₂ Call.Owns owners (trace.records.toList.take replayer.consumed)) ∧
      (∀ more : List Operation, (∀ operation ∈ more, operation.goesOn = true) →
        (stateAfter Operation.perform more reached).own.recording.PlaysOn replayer fun later =>
          replayer.consumed ≤ later.consumed) ∧
      ∀ operation : Operation, operation.single = true → operation.goesOn = true →
        operation.PlaysOn replayer reached := by
  intro started reached
  have steady (operations : List Operation) {origin : Hypervisor}
      (given : Steady configuration.frames origin) :
      Steady configuration.frames (stateAfter Operation.perform operations origin) :=
    stateAfter_keeps (fun operation _ => operation.keeps_steady.finalState) operations given
  have begun : Recorded configuration.frames (· = .replay (.start trace)) started := by
    refine ⟨steady _ (steady_of_nested built), ?_⟩
    show (stateAfter _ (history ++ [_]) start).own.recording = _
    rw [stateAfter_append]
    rfl
  have replaying : Recorded configuration.frames Recording.Replays started :=
    ⟨begun.1, _, begun.2⟩
  have kinship := kinship_stateAfter built (history ++ [.startReplay trace])
  obtain ⟨steps, replayer, taken, refines, recording, dealt⟩ :=
    dealt_operations goOn begun kinship
  have records : trace.records.toList = taken ++ replayer.pending := dealt.next
  have consumed : replayer.consumed = taken.length := dealt.counted.trans (Nat.zero_add _)
  have kinship' := kinship_stateAfter built ((history ++ [.startReplay trace]) ++ operations)
  rw [stateAfter_append] at kinship'
  have given : Recorded configuration.frames (· = .replay replayer) reached :=
    ⟨steady operations begun.1, recording⟩
  refine ⟨fun other => trail_offline other goOn replaying, host_stateAfter goOn replaying, replayer,
    recording, ?_, ?_, ?_, fun more goOn => ?_, fun operation single goesOn =>
      playsOn_single single goesOn given kinship'⟩
  · rw [consumed, ← Array.length_toList, records, List.length_append]
    exact Nat.le_add_right _ _
  · rw [consumed, records, List.drop_left]
  · obtain ⟨owners, among, owns⟩ := dealt.owned
    refine ⟨steps, owners, refines, among, ?_⟩
    rwa [consumed, records, List.take_left]
  · obtain ⟨_, later, _, _, reached, further⟩ := dealt_operations goOn given kinship'
    exact ⟨later, reached, further.grown, Nat.le.intro further.counted.symm⟩

/-- A program that writes two bytes of its stack and ends with what the write answers. -/
def writeAndExit : Image :=
  .ofWords ([.addi 11 2 (-16), .addi 12 0 2, .addi 10 0 1, .addi 17 0 64, .ecall, .addi 17 0 93,
    .ecall].map Instruction.encode) []

/-- A trace whose first record is of the write, and whose second one is not of the exit. -/
def strayingTrace : Trace := ⟨#[⟨65552, 64, 2, []⟩, ⟨65560, 94, 2, []⟩]⟩

/-- A replay that diverges has consumed the first of two records, has kept two bytes for the output
and has written none to the host. -/
theorem straying_replay_stops :
    ∃ start, nested { Configuration.standard with frames := 40 } (.buffer (.withInput [1])) .silent
        2 = .ok start ∧
      let started := stateAfter Operation.perform
        ([.load writeAndExit []] ++ [.startReplay strayingTrace]) start
      let operations := [Operation.runAll 4, .scheduleOnce]
      let reached := stateAfter Operation.perform operations started
      (trail Operation.perform operations started).map (fun outcome => outcome.1.isOk) =
        [false, true] ∧
      reached.own.host.buffer?.map BufferHost.output = some [] ∧
      ∃ replayer, reached.own.recording = .replay replayer ∧ replayer.consumed = 1 ∧
        (replayer.transcript 1).length = 2 ∧ replayer.pending = [⟨65560, 94, 2, []⟩] := by
  obtain ⟨start, built⟩ : ∃ start, nested { Configuration.standard with frames := 40 }
      (.buffer (.withInput [1])) .silent 2 = .ok start := ⟨_, rfl⟩
  refine ⟨start, built, ?_⟩
  intro started operations reached
  have evaluated : (nested { Configuration.standard with frames := 40 }
      (.buffer (.withInput [1])) .silent 2).map (fun start =>
        let started := stateAfter Operation.perform
          ([.load writeAndExit []] ++ [.startReplay strayingTrace]) start
        let operations := [Operation.runAll 4, .scheduleOnce]
        let reached := stateAfter Operation.perform operations started
        ((trail Operation.perform operations started).map fun outcome => outcome.1.isOk,
          started.own.host.buffer?.map BufferHost.output,
          reached.own.recording.replayer?.map fun replayer =>
            (replayer.consumed, (replayer.transcript 1).length))) =
      .ok ([false, true], some [], some (1, 2)) := by
    decide +kernel
  rw [built] at evaluated
  simp only [Except.map, Except.ok.injEq, Prod.mk.injEq] at evaluated
  obtain ⟨answers, unwritten, reads⟩ := evaluated
  have goOn : ∀ operation ∈ operations, operation.goesOn = true := by decide
  obtain ⟨-, host, replayer, recording, -, pending, -⟩ :=
    replay_in_order built [.load writeAndExit []] strayingTrace goOn
  change reached.own.host = started.own.host at host
  change reached.own.recording = .replay replayer at recording
  rw [show (stateAfter Operation.perform _ _).own.recording = _ from recording] at reads
  obtain ⟨consumed, kept⟩ := Prod.mk.inj (Option.some.inj reads)
  refine ⟨answers, ?_, replayer, recording, consumed, kept, ?_⟩
  · rw [host]
    exact unwritten
  · rw [pending, consumed]
    rfl

end Hypervisor

end NestedMachine
