import NestedMachine.Proofs.Hypervisor.Fairness
import NestedMachine.Proofs.Hypervisor.Turns

/-!
# Debuggers that never stop

A debugger without breakpoints and without a condition lets the contexts have their turns one after
the other, as the hypervisor does that runs all of them.  The hypervisor takes a context from the
queue and lets it run for a slice; the debugger leaves it in the queue, steps it as often as the
quantum allows, and moves it to the back.

A slice ends with a system call, whether the context can go on afterwards or not.  A debugger goes
on with whoever is still ready.  So the two part ways where a call is answered before the quantum is
used up, and nowhere else: if no turn ends in this way, in a fault or in an error (`turnsUsedUp`),
a debugger comes through the same states as a run of all contexts (`debugger_transparent`).  A call
that is answered earlier is enough for another order of what is written and recorded
(`writes_out_of_turn`).
-/

namespace NestedMachine.Hypervisor

set_option autoImplicit false

variable {origin left middle after : Hypervisor} {debugger : Debugger} {id : ContextId}
  {context : Context}

/-! ## Turns that are used up -/

/-- After its turn, a context is not parked by a fault, and if it is ready, it has carried out as
many instructions as the quantum allows. -/
def usedUp (id : ContextId) (before after : Hypervisor) : Bool :=
  match before.machine.context? id, after.machine.context? id with
  | some context, some later =>
      match later.state with
      | .ready => decide (context.instructions + before.own.quantum ≤ later.instructions)
      | .trapped _ _ => false
      | _ => true
  | _, _ => true

/-- Of so many turns, as long as there are any, each succeeds and is used up. -/
def turnsUsedUp : Nat → Hypervisor → Bool
  | 0, _ => true
  | rounds + 1, hypervisor =>
      match scheduleOnce hypervisor with
      | .ok (some id) after => usedUp id hypervisor after && turnsUsedUp rounds after
      | .ok none _ => true
      | .error _ _ => false

/-- What a turn leaves of its context, if so many instructions are used up. -/
structure Spent (id : ContextId) (instructions : Nat) (hypervisor : Hypervisor) : Prop where
  free : ∀ context, hypervisor.machine.context? id = some context →
    ∀ fault pc, context.state ≠ .trapped fault pc
  spent : ∀ context, hypervisor.machine.context? id = some context → context.state = .ready →
    instructions ≤ context.instructions

theorem Spent.matches {queues : QueueView} {instructions : Nat} (spent : Spent id instructions left)
    (states : Matched queues left after) : Spent id instructions after where
  free context found := spent.free context ((states.context? id).trans found)
  spent context found := spent.spent context ((states.context? id).trans found)

theorem spent_of_usedUp (used : usedUp id origin after = true)
    (found : origin.machine.context? id = some context) :
    Spent id (context.instructions + origin.own.quantum) after := by
  unfold usedUp at used
  rw [found] at used
  constructor
  · intro later there fault pc parked
    rw [there] at used
    dsimp only at used
    rw [parked] at used
    cases used
  · intro later there ready
    rw [there] at used
    dsimp only at used
    rw [ready] at used
    exact of_decide_eq_true used

/-! ## A debugger that does not stop -/

/-- A debugger that has no reason to stop before an instruction. -/
structure NonStop (debugger : Debugger) : Prop where
  breakpoints : ∀ pc, debugger.breakpoints.contains pc = false
  condition : debugger.condition = none

/-- A debugger of another hypervisor. -/
def withHypervisor (debugger : Debugger) (hypervisor : Hypervisor) : Debugger :=
  { debugger with hypervisor }

theorem onHypervisor_of_ok {α : Type} {action : HypervisorAction α} {answer : α}
    (run : action debugger.hypervisor = .ok answer after) :
    Debugger.onHypervisor action debugger = .ok answer (withHypervisor debugger after) := by
  unfold Debugger.onHypervisor
  dsimp only
  rw [run]
  rfl

theorem reasonBefore_of_nonStop (nonStop : NonStop debugger) (pc : UInt64) :
    Debugger.reasonBefore id pc debugger = .ok none debugger := by
  obtain ⟨hypervisor, breakpoints, condition, stoppedAt⟩ := debugger
  obtain rfl : condition = none := nonStop.condition
  show (if breakpoints.contains pc = true then _ else _ : DebuggerAction (Option StopReason)) _ = _
  rw [nonStop.breakpoints pc]
  rfl

/-- The state of a context, as far as a debugger can see it. -/
theorem stateOf?_apply (id : ContextId) (debugger : Debugger) :
    Debugger.stateOf? id debugger =
      .ok (if debugger.hypervisor.own.owned.contains id = true then
        (debugger.hypervisor.machine.context? id).map Context.state else none) debugger := by
  unfold Debugger.stateOf? snapshot
  rw [bind_apply, EStateM.bind, requireOwned_apply]
  by_cases owned : debugger.hypervisor.own.owned.contains id = true
  · rw [if_pos owned, if_pos owned]
    dsimp only
    rw [bind_apply, EStateM.bind, contextOf_apply]
    cases debugger.hypervisor.machine.context? id <;> rfl
  · rw [if_neg owned, if_neg owned]

/-- What of a turn comes after an instruction. -/
def afterInstruction (id : ContextId) (steps : Nat) (skip : Option (ContextId × UInt64)) :
    DebuggerAction Debugger.TurnEnd := do
  match ← Debugger.stateOf? id with
  | some .ready => Debugger.turn id steps skip
  | some (.trapped fault pc) => return .stop (.trapped id fault pc)
  | _ => return .over skip

theorem afterInstruction_of_ready (runnable : Runnable id context debugger.hypervisor)
    (steps : Nat) (skip : Option (ContextId × UInt64)) :
    afterInstruction id steps skip debugger = Debugger.turn id steps skip debugger := by
  unfold afterInstruction
  rw [bind_of_ok (stateOf?_apply id debugger), if_pos runnable.owned, runnable.found,
    Option.map_some, runnable.ready]

/-- A turn is over with an instruction that ends in a trap, if it is used up. -/
theorem afterInstruction_of_trap {most total steps : Nat}
    (tallied : Tallied (most + 1) total id debugger.hypervisor)
    (spent : Spent id (most + (steps + 1)) debugger.hypervisor)
    (skip : Option (ContextId × UInt64)) :
    afterInstruction id steps skip debugger = .ok (.over skip) debugger := by
  unfold afterInstruction
  rw [bind_of_ok (stateOf?_apply id debugger)]
  split
  · cases found : debugger.hypervisor.machine.context? id with
    | none => rfl
    | some context =>
        rw [Option.map_some]
        cases state : context.state with
        | ready =>
            have told := (tallied.uniform.context? id).symm.trans found
            have most := tallied.most _ (congrArg (Option.map Context.instructions) told)
            have least := (spent.spent context found state).trans most
            obtain rfl : steps = 0 := by omega
            rfl
        | trapped fault pc => exact absurd state (spent.free context found fault pc)
        | running => rfl
        | blocked reason => rfl
        | exited => rfl
  · rfl

/-- The first instruction of a turn. -/
theorem turn_succ (nonStop : NonStop debugger) (runnable : Runnable id context debugger.hypervisor)
    {answer : Option Trap} (stepped : step id debugger.hypervisor = .ok answer after) (steps : Nat)
    (skip : Option (ContextId × UInt64)) :
    ∃ skip', Debugger.turn id (steps + 1) skip debugger =
      afterInstruction id steps skip' (withHypervisor debugger after) := by
  have looked : pcOf id debugger.hypervisor = .ok context.hart.pc debugger.hypervisor := by
    unfold pcOf
    rw [bind_of_ok runnable.requireOwned, bind_of_ok runnable.contextOf]
    rfl
  have stands : Debugger.onHypervisor (pcOf id) debugger = .ok context.hart.pc debugger :=
    onHypervisor_of_ok looked
  have goes (skip' : Option (ContextId × UInt64)) :
      (Debugger.onHypervisor (step id) >>= fun _ => afterInstruction id steps skip') debugger =
        afterInstruction id steps skip' (withHypervisor debugger after) :=
    bind_of_ok (onHypervisor_of_ok stepped) _
  rw [Debugger.turn, bind_of_ok stands]
  by_cases skipped : (skip == some (id, context.hart.pc)) = true
  · refine ⟨none, ?_⟩
    rw [skipped]
    exact goes none
  · refine ⟨skip, ?_⟩
    rw [Bool.eq_false_iff.mpr skipped]
    exact (bind_of_ok (reasonBefore_of_nonStop nonStop _) _).trans (goes skip)

/-! ## Turns -/

/-- **A turn under a debugger leaves what a slice leaves**, if it is used up; by induction on the
instructions that are left. -/
theorem turn_of_slice (nonStop : NonStop debugger) {quantum most total : Nat} {trap : Trap}
    (tallied : Tallied most total id debugger.hypervisor)
    (run : slice id quantum debugger.hypervisor = .ok trap after)
    (spent : Spent id (most + quantum) after) (skip : Option (ContextId × UInt64)) :
    ∃ skip' final, Debugger.turn id quantum skip debugger =
        .ok (.over skip') (withHypervisor debugger final) ∧
      Matched (.apartFrom id) after final := by
  induction quantum generalizing debugger most total skip after with
  | zero =>
      obtain ⟨context, runnable⟩ := Runnable.of_slice tallied.uniform run
      obtain ⟨idle, done, states⟩ := slice_zero runnable
      cases done.symm.trans run
      exact ⟨skip, debugger.hypervisor, rfl, states.symm⟩
  | succ quantum ih =>
      obtain ⟨context, runnable⟩ := Runnable.of_slice tallied.uniform run
      have agree := agree_slice_succ runnable quantum
      rw [run] at agree
      obtain ⟨final, both, states⟩ := agree.ok
      obtain ⟨answer, stepped, first, rest⟩ := ok_of_bind both
      obtain ⟨skip', unfolded⟩ := turn_succ nonStop runnable first quantum skip
      have tallied' : Tallied (most + 1) (total + 1) id stepped := by
        have told := tallied_step tallied
        rwa [first] at told
      have spent' := spent.matches states
      rw [unfolded]
      cases answer with
      | some trap =>
          cases rest
          exact ⟨skip', final, afterInstruction_of_trap tallied' spent' skip', states⟩
      | none =>
          obtain ⟨later, runnable'⟩ := Runnable.of_slice tallied'.uniform rest
          rw [Nat.add_comm quantum 1, ← Nat.add_assoc] at spent'
          obtain ⟨skip'', final', turned, states'⟩ :=
            @ih _ (withHypervisor debugger stepped) ⟨nonStop.breakpoints, nonStop.condition⟩ _ _
              tallied' rest spent' skip'
          refine ⟨skip'', final', ?_, states.trans states'⟩
          rw [afterInstruction_of_ready runnable', turned]
          rfl

/-! ## Rounds -/

/-- Where nobody has the next turn, all are dropped. -/
theorem idle_of_scheduleOnce (turn : scheduleOnce origin = .ok none after) :
    origin.own.ready.dropWhile (fun id => !canRun origin.machine id) = [] ∧
      after = origin.withReady [] := by
  cases front : origin.own.ready.dropWhile (fun id => !canRun origin.machine id) with
  | nil =>
      cases (scheduleOnce_of_idle front).symm.trans turn
      exact ⟨rfl, rfl⟩
  | cons other rest =>
      obtain ⟨trap, sliced, run, told⟩ := ok_of_bind ((scheduleOnce_of_front front).symm.trans turn)
      cases told

/-- Those that match have the same context next. -/
theorem Matched.nextReady (states : Matched .equal left after) {front : List ContextId}
    (dropped : left.own.ready.dropWhile (fun id => !canRun left.machine id) = front) :
    nextReady after = .ok front.head? (after.withReady front) := by
  rw [nextReady_apply, ← show left.own.ready = after.own.ready from states.queues,
    ← show canRun left.machine = canRun after.machine from funext states.alike.canRun, dropped]

/-- Whatever queues are put in the place of those that compared. -/
theorem Matched.withReady {queues other : QueueView} (states : Matched queues left after)
    {first second : List ContextId} (same : other.same first second) :
    Matched other (left.withReady first) (after.withReady second) where
  own := congrArg (fun own : Supervisor => { own with ready := second }) states.own
  queues := same
  interpreter := states.interpreter
  leftUniform := states.leftUniform
  rightUniform := states.rightUniform

/-- A context is moved to the back of the queue if it can run. -/
def rotated (id : ContextId) (hypervisor : Hypervisor) : Hypervisor :=
  hypervisor.withReady (hypervisor.own.ready.filter (· != id) ++
    if canRun hypervisor.machine id then [id] else [])

theorem requeue_apply (id : ContextId) (origin : Hypervisor) :
    requeue id origin = .ok () (origin.rotated id) := by
  show (if canRun origin.machine id = true then enqueue id else pure () : HypervisorAction Unit)
    (origin.withReady (origin.own.ready.filter (· != id))) = _
  unfold rotated
  split
  · rfl
  · rw [List.append_nil]
    rfl

/-- Who stands at the back of one queue is moved to the back of the other. -/
theorem AtBack.rotated (back : AtBack id left) (states : Matched (.apartFrom id) left after) :
    Matched .equal left (after.rotated id) := by
  refine @Matched.withReady left after (.apartFrom id) .equal states left.own.ready _ ?_
  refine Eq.trans back ?_
  rw [show left.own.ready.filter (· != id) = after.own.ready.filter (· != id) from states.queues,
    states.alike.canRun id]

/-- A context that one hypervisor takes from the queue stands at its front in the other. -/
theorem Matched.atFront (states : Matched .equal left after) (id : ContextId)
    (rest : List ContextId) :
    Matched (.apartFrom id) (left.withReady rest) (after.withReady (id :: rest)) := by
  apply states.withReady
  show rest.filter (· != id) = (id :: rest).filter (· != id)
  rw [List.filter_cons_of_neg (by simp)]

/-- **A round of a debugger leaves what a turn leaves.** -/
theorem round_agrees (states : Matched .equal left debugger.hypervisor)
    (lined : Lined Nobody left) (nonStop : NonStop debugger)
    (turn : scheduleOnce left = .ok (some id) after) (used : usedUp id left after = true)
    (rounds : Nat) (skip : Option (ContextId × UInt64)) :
    ∃ skip' final, Debugger.resumeFrom (rounds + 1) skip debugger =
        Debugger.resumeFrom rounds skip' (withHypervisor debugger final) ∧
      Matched .equal after final := by
  obtain ⟨rest, trap, front, run⟩ := front_of_scheduleOnce turn
  have agree := ((respectsService_matching (.apartFrom id)).slice
    (respectsCalls_matching (.apartFrom id)).follows_dispatch id left.own.quantum).agrees
      _ _ (states.atFront id rest)
  rw [run] at agree
  obtain ⟨sliced, run', states'⟩ := agree.ok
  obtain ⟨context, runnable⟩ : ∃ context,
      Runnable id context (debugger.hypervisor.withReady (id :: rest)) :=
    Runnable.of_slice states.rightUniform run'
  have found := (states.context? id).trans runnable.found
  have there := lined.young id _ (kin_of_context? lined.uniform found)
  -- The context stands in the debugger's queue all the time, in that of the run at the end only.
  have absent : id ∉ rest := by
    have distinct := lined.distinct.sublist
      (List.dropWhile_sublist fun id => !canRun left.machine id)
    rw [front] at distinct
    exact (List.nodup_cons.mp distinct).1
  have back : AtBack id after := by
    have told := @atBack_slice (left.withReady rest) id ⟨lined.uniform, lined.young, there⟩ absent
      left.own.quantum
    rwa [run] at told
  have tallied := Tallied.of_found runnable.uniform (there.trans_eq states.interpreter.nextId)
    runnable.found
  obtain ⟨skip', final, turned, states''⟩ :=
    @turn_of_slice _ (withHypervisor debugger (debugger.hypervisor.withReady (id :: rest))) id
      ⟨nonStop.breakpoints, nonStop.condition⟩ _ _ _ _ tallied run'
      ((spent_of_usedUp used found).matches states') skip
  refine ⟨skip', final.rotated id, ?_, back.rotated (states'.trans states'')⟩
  rw [← states.quantum] at turned
  rw [Debugger.resumeFrom, bind_of_ok (onHypervisor_of_ok (states.nextReady front))]
  refine (bind_of_ok turned _).trans ?_
  exact bind_of_ok (onHypervisor_of_ok (requeue_apply id final)) _

/-! ## Runs -/

/-- Whatever is left by a run of all contexts and by a debugger, apart from what levels have counted
and from notes. -/
structure SameState (left right : Hypervisor) : Prop where
  own : right.own = { left.own with relay := right.own.relay }
  contexts : ∀ id, right.machine.context? id = left.machine.context? id
  pool : right.machine.interpreter.pool = left.machine.interpreter.pool

theorem Matched.sameState (states : Matched .equal left after) : SameState left after where
  own := states.own.trans (by rw [← show left.own.ready = after.own.ready from states.queues])
  contexts id := (states.context? id).symm
  pool := states.interpreter.pool.symm

/-- **Round after round**, a debugger comes through the states of a run of all contexts. -/
theorem resumeFrom_of_exhaust (states : Matched .equal left debugger.hypervisor)
    (lined : Lined Nobody left) (nonStop : NonStop debugger) {rounds : Nat}
    (used : turnsUsedUp rounds left = true) (skip : Option (ContextId × UInt64)) :
    ∃ finished after final, exhaust rounds left = .ok finished after ∧
      Debugger.resumeFrom rounds skip debugger =
        .ok (if finished = true then some .idle else none) (withHypervisor debugger final) ∧
      Matched .equal after final := by
  induction rounds generalizing left debugger skip with
  | zero => exact ⟨false, left, debugger.hypervisor, rfl, rfl, states⟩
  | succ rounds ih =>
      unfold turnsUsedUp at used
      have kept := keepsLine_scheduleOnce left lined
      cases turn : scheduleOnce left with
      | error error after =>
          rw [turn] at used
          cases used
      | ok next after =>
          rw [turn] at used kept
          cases next with
          | none =>
              obtain ⟨front, rfl⟩ := idle_of_scheduleOnce turn
              refine ⟨true, left.withReady [], debugger.hypervisor.withReady [], ?_, ?_,
                states.withReady rfl⟩
              · rw [exhaust, bind_of_ok turn]
                rfl
              · rw [Debugger.resumeFrom, bind_of_ok (onHypervisor_of_ok (states.nextReady front))]
                rfl
          | some id =>
              obtain ⟨here, later⟩ := Bool.and_eq_true_iff.mp used
              obtain ⟨skip', final, round, states'⟩ :=
                round_agrees states lined nonStop turn here rounds skip
              obtain ⟨finished, after', final', run, resumed, states''⟩ :=
                @ih _ (withHypervisor debugger final) states' kept
                  ⟨nonStop.breakpoints, nonStop.condition⟩ later skip'
              refine ⟨finished, after', final', ?_, round.trans resumed, states''⟩
              rw [exhaust, bind_of_ok turn]
              exact run

/-- **A debugger that never stops is transparent**, as long as turns are used up.  Let it go on
after any history: then it goes on until nothing can run, if a run of all contexts does so in as
many rounds, and it leaves the same contexts, frames, files, output and record. -/
theorem debugger_transparent {configuration : Configuration} {host : Host} {journal : Journal}
    {level : Nat} {start : Hypervisor} (built : nested configuration host journal level = .ok start)
    (history : List Event)
    (reached : debugger.hypervisor = stateAfter Event.perform history start)
    (nonStop : NonStop debugger) {rounds : Nat}
    (used : turnsUsedUp rounds debugger.hypervisor = true) :
    ∃ ended after later, runAll rounds debugger.hypervisor = .ok ended after ∧
      Debugger.resume rounds debugger = .ok (ended.map fun _ => .idle) later ∧
      SameState after later.hypervisor := by
  have lined : Lined Nobody debugger.hypervisor :=
    reached ▸ stateAfter_keeps (fun event _ lined => event.keepsLine.finalState lined) history
      (lined_of_nested built)
  obtain ⟨finished, after, final, run, resumed, states⟩ :=
    @resumeFrom_of_exhaust _ { debugger with stoppedAt := none } (.refl .equal lined.uniform) lined
      ⟨nonStop.breakpoints, nonStop.condition⟩ rounds used debugger.stoppedAt
  cases finished with
  | true => exact ⟨_, after, _, bind_of_ok run _, resumed, states.sameState⟩
  | false => exact ⟨_, after, _, bind_of_ok run _, resumed, states.sameState⟩

/-! ## Calls that are answered early -/

/-- A program that writes a byte twice, by one call right after the other. -/
def twice (byte : UInt8) : Image :=
  .ofWords ([.addi 17 0 64, .addi 10 0 1, .lui 11 0x11000, .addi 12 0 1, .ecall, .ecall,
    .addi 17 0 93, .addi 10 0 0, .ecall].map Instruction.encode) [byte]

/-- Two programs that write different bytes are loaded, and their calls are to be recorded. -/
def twoWriters : List Event :=
  [.operation (.load (twice 97) []), .operation (.load (twice 98) []), .operation .startRecording]

/-- What was written to the standard output, and where the recorded calls were made. -/
def writtenAndCalled (hypervisor : Hypervisor) : Option Bytes × List UInt64 :=
  (hypervisor.own.host.buffer?.map BufferHost.output,
    match hypervisor.own.recording with
    | .record trace => trace.records.toList.map TraceRecord.pc
    | _ => [])

/-- One instruction at a time, the two programs write in turn, under a debugger as well. -/
theorem writers_in_turn :
    ∃ start,
      nested { Configuration.standard with frames := 8, quantum := 1 } (.buffer (.withInput []))
        .silent 1 = .ok start ∧
      let debugger := Debugger.attach (stateAfter Event.perform twoWriters start)
      turnsUsedUp 20 debugger.hypervisor = true ∧
      ∃ ended after later, runAll 20 debugger.hypervisor = .ok ended after ∧
        Debugger.resume 20 debugger = .ok (ended.map fun _ => .idle) later ∧
        SameState after later.hypervisor := by
  obtain ⟨start, built⟩ : ∃ start,
      nested { Configuration.standard with frames := 8, quantum := 1 } (.buffer (.withInput []))
        .silent 1 = .ok start := ⟨_, rfl⟩
  have evaluated : (nested { Configuration.standard with frames := 8, quantum := 1 }
      (.buffer (.withInput [])) .silent 1).map (fun start => turnsUsedUp 20
        (Debugger.attach (stateAfter Event.perform twoWriters start)).hypervisor) = .ok true := by
    decide +kernel
  rw [built] at evaluated
  have used := Except.ok.inj evaluated
  have reached : (Debugger.attach (stateAfter Event.perform twoWriters start)).hypervisor =
      stateAfter Event.perform (twoWriters ++ [.operation (.setDebugTraps true)]) start := by
    rw [stateAfter_append]
    rfl
  exact ⟨start, built, used, debugger_transparent built _ reached
    ⟨fun _ => Std.TreeSet.contains_emptyc, rfl⟩ used⟩

set_option synthInstance.maxSize 512 in
/-- With a quantum that is not used up, the two programs write in turn where all contexts are run,
and one after the other under a debugger. -/
theorem writes_out_of_turn :
    ∃ start,
      nested { Configuration.standard with frames := 8 } (.buffer (.withInput [])) .silent 1 =
        .ok start ∧
      let debugger := Debugger.attach (stateAfter Event.perform twoWriters start)
      ∃ after later,
        runAll 10 debugger.hypervisor = .ok (some [(1, .exited 0), (2, .exited 0)]) after ∧
        Debugger.resume 10 debugger = .ok (some .idle) later ∧
        writtenAndCalled after =
          (some [97, 98, 97, 98], [0x10010, 0x10010, 0x10014, 0x10014, 0x10020, 0x10020]) ∧
        writtenAndCalled later.hypervisor =
          (some [97, 97, 98, 98], [0x10010, 0x10014, 0x10020, 0x10010, 0x10014, 0x10020]) := by
  obtain ⟨start, built⟩ : ∃ start,
      nested { Configuration.standard with frames := 8 } (.buffer (.withInput [])) .silent 1 =
        .ok start := ⟨_, rfl⟩
  have ran : (nested { Configuration.standard with frames := 8 } (.buffer (.withInput []))
      .silent 1).map (fun start =>
        let outcome := runAll 10
          (Debugger.attach (stateAfter Event.perform twoWriters start)).hypervisor
        (answerOf outcome, writtenAndCalled (finalState outcome))) =
      .ok (.ok (some [(1, .exited 0), (2, .exited 0)]),
        some [97, 98, 97, 98], [0x10010, 0x10010, 0x10014, 0x10014, 0x10020, 0x10020]) := by
    decide +kernel
  have resumed : (nested { Configuration.standard with frames := 8 } (.buffer (.withInput []))
      .silent 1).map (fun start =>
        let outcome := Debugger.resume 10
          (Debugger.attach (stateAfter Event.perform twoWriters start))
        (answerOf outcome, writtenAndCalled (finalState outcome).hypervisor)) =
      .ok (.ok (some .idle),
        some [97, 97, 98, 98], [0x10010, 0x10014, 0x10020, 0x10010, 0x10014, 0x10020]) := by
    decide +kernel
  rw [built] at ran resumed
  obtain ⟨ended, written⟩ := Prod.mk.inj (Except.ok.inj ran)
  obtain ⟨stopped, written'⟩ := Prod.mk.inj (Except.ok.inj resumed)
  exact ⟨start, built, _, _, ok_of_answerOf ended, ok_of_answerOf stopped, written, written'⟩

end NestedMachine.Hypervisor
