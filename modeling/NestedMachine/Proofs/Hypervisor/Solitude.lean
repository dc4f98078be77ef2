import Mathlib.Data.List.TakeWhile
import NestedMachine.Proofs.Hypervisor.Fairness
import NestedMachine.Proofs.Hypervisor.Quanta
import NestedMachine.Proofs.Hypervisor.States
import NestedMachine.Proofs.Hypervisor.Stepping

/-!
# Contexts that are alone

The quantum decides whose turn is next.  Where there is only one context, the turn is always its
own (`Lone.round`), and a turn is worth a number of steps.  So a run that waits for the end of the
context and whoever takes step after step come to the same (`steps_of_rounds`, `rounds_of_steps`),
and since a step does not look at the quantum, so do runs with different quanta
(`quantum_independent`).

What the same means is told by `EndAlike`: everything but the quantum, the queue, what levels have
counted and notes.  A context stays alone as long as no fork succeeds.  Numbers are given to
contexts in order and never again, and a fork that is refused takes none; so that no fork has
succeeded can be seen from the next number (`Unforked`).
-/

namespace NestedMachine.Hypervisor

set_option autoImplicit false

variable {α : Type} {origin left middle right after : Hypervisor} {id : ContextId}
  {context : Context} {kin : Kin}

/-! ## A single context -/

/-- A context is the only one; it is ready and stands at the back of the queue, or it has ended.
Faults end contexts, and a turn has at least one instruction. -/
structure Lone (id : ContextId) (hypervisor : Hypervisor) : Prop where
  kinship : Kinship (· = id) hypervisor
  alone : ∀ other kin, hypervisor.kin other = some kin → other = id
  there : ∃ kin, hypervisor.kin id = some kin
  rested : hypervisor.Rested id
  ends : hypervisor.own.debugTraps = false
  back : AtBack id hypervisor
  lasts : 0 < hypervisor.own.quantum

namespace Lone

/-- A single context has no child to wait for, so that it is ready if it has not ended. -/
theorem ready (lone : Lone id origin) (found : origin.kin id = some kin)
    (live : kin.exitStatus = none) : kin.state = .ready := by
  obtain ⟨settled, parked⟩ := lone.rested kin found
  cases state : kin.state with
  | ready => rfl
  | running =>
      rw [state] at settled
      exact settled.elim
  | blocked reason =>
      cases reason with
      | systemCall =>
          rw [state] at settled
          exact settled.elim
      | wait target =>
          obtain ⟨child, member, _⟩ := lone.kinship.waits id kin found ⟨target, state⟩
          obtain ⟨link, known, parent⟩ := (lone.kinship.linked id kin found child).mp member
          obtain rfl := lone.alone child link known
          exact absurd (lone.kinship.parents child link child known parent).1 (Nat.lt_irrefl child)
  | trapped fault pc => cases lone.ends.symm.trans (parked fault pc state)
  | exited => exact absurd state ((lone.kinship.exited id kin found).mp live)

theorem owned (lone : Lone id origin) : origin.own.owned.contains id = true :=
  Std.TreeSet.mem_iff_contains.mp ((lone.kinship.owned id).mpr lone.there)

theorem runnable (lone : Lone id origin) (found : origin.machine.context? id = some context)
    (live : context.exitStatus = none) : Runnable id context origin :=
  ⟨lone.kinship.uniform, lone.owned, found,
    lone.ready (kin_of_context? lone.kinship.uniform found) live⟩

theorem canRun (lone : Lone id origin) (runnable : Runnable id context origin) :
    Hypervisor.canRun origin.machine id = true :=
  (canRun_iff lone.kinship.uniform).mpr
    ⟨_, kin_of_context? runnable.uniform runnable.found, runnable.ready⟩

/-- Nobody else in the queue can run. -/
theorem front (lone : Lone id origin) (runnable : Runnable id context origin) :
    origin.own.ready.dropWhile (fun id => !Hypervisor.canRun origin.machine id) = [id] := by
  have runs := lone.canRun runnable
  have stuck : (origin.own.ready.filter (· != id)).dropWhile
      (fun id => !Hypervisor.canRun origin.machine id) = [] := by
    apply List.dropWhile_eq_nil_iff.mpr
    intro other member
    rw [Bool.not_eq_true', ← Bool.not_eq_true, canRun_iff lone.kinship.uniform]
    rintro ⟨kin, known, _⟩
    exact bne_iff_ne.mp (List.mem_filter.mp member).2 (lone.alone other kin known)
  rw [lone.back, runs, if_pos rfl, dropWhile_before runs, stuck]
  rfl

/-- **The turn of a single context is always the next one.** -/
theorem round (lone : Lone id origin) (runnable : Runnable id context origin) :
    awaitOnce id origin = (do
      let _ ← slice id origin.own.quantum
      return none) (origin.withReady []) := by
  have turn := scheduleOnce_of_front (lone.front runnable)
  unfold awaitOnce
  rw [bind_of_ok runnable.contextOf, runnable.live lone.kinship, runnable.ready]
  dsimp only
  rw [bind_apply, EStateM.bind, turn, bind_apply, EStateM.bind, bind_apply, EStateM.bind]
  cases slice id origin.own.quantum (origin.withReady []) <;> rfl

/-- What has ended is not run or stepped any more. -/
theorem ended (lone : Lone id origin) (found : origin.machine.context? id = some context)
    {status : ExitStatus} (ended : context.exitStatus = some status) :
    awaitOnce id origin = .ok (some status) origin ∧
      stepOnce id origin = .ok (some status) origin := by
  constructor
  · have looked : contextOf id origin = .ok context origin := by
      rw [contextOf_apply, found]
    rw [awaitOnce, bind_of_ok looked, ended]
    rfl
  · rw [stepOnce_apply, if_pos lone.owned, found]
    dsimp only
    rw [ended]

/-- **A context stays alone after its turn**, if no fork has succeeded in it. -/
theorem slice (lone : Lone id origin) (runnable : Runnable id context origin) {trap : Trap}
    (run : Hypervisor.slice id origin.own.quantum (origin.withReady []) = .ok trap after)
    (unforked : after.machine.interpreter.nextId ≤ origin.machine.interpreter.nextId) :
    Lone id after := by
  have there := kin_of_context? runnable.uniform runnable.found
  have turn : scheduleOnce origin = .ok (some id) after := by
    rw [scheduleOnce_of_front (lone.front runnable), bind_of_ok run]
    rfl
  have round := within_scheduleOnce lone.kinship
  unfold Within at round
  rw [turn] at round
  obtain ⟨-, course, -, rested⟩ := round
  have heir : Heir False origin after := course.heir
  have kinship := course.kinship lone.kinship
  have live : origin.Live id := ⟨_, there, runnable.live lone.kinship⟩
  refine ⟨kinship, fun other kin found => ?_, course.remains_loaded lone.kinship rfl live, rested,
    ?_, ?_, ?_⟩
  · obtain ⟨before, known⟩ :=
      heir.older other kin found ((kinship.young other kin found).trans_le unforked)
    exact lone.alone other before known
  · have kept := (firm_debugTraps false).scheduleOnce origin lone.ends
    rwa [turn] at kept
  · have known : Known id (origin.withReady []) :=
      ⟨lone.kinship.uniform, lone.kinship.young, lone.kinship.young id _ there⟩
    have back := atBack_slice known List.not_mem_nil origin.own.quantum
    rwa [run] at back
  · have blind := JournalView.levelBlind_any
    have kept := @quantum_kept _ _ (origin.withReady []) lone.kinship.uniform
      ((respectsService_quanta blind _).slice (respectsCalls_quanta blind _).follows_dispatch id
        origin.own.quantum)
    rw [run] at kept
    rw [show after.own.quantum = origin.own.quantum from kept]
    exact lone.lasts

end Lone

/-! ## Rounds and steps -/

theorem heir_awaitOnce {loaded : ContextId → Prop} {neat : Prop}
    (kinship : Kinship loaded origin) : Heir neat origin (finalState (awaitOnce id origin)) := by
  have drives : Drives (awaitOnce id) origin := drives_awaitOnce
  unfold Drives at drives
  cases result : awaitOnce id origin with
  | error error after =>
      rw [result] at drives
      exact (Rounds.driven drives).heir kinship
  | ok answer after =>
      rw [result] at drives
      exact (Rounds.driven drives).heir kinship

/-- No number has been given to a context since. -/
def Unforked (origin after : Hypervisor) : Prop :=
  after.machine.interpreter.nextId = origin.machine.interpreter.nextId

/-- What the next round of a run comes to that waits for the end of a single context: it has ended,
so that neither rounds nor steps are left; or its turn is worth a number of steps, after which it is
alone as before if nothing has failed and no fork has succeeded. -/
inductive NextRound (id : ContextId) (origin : Hypervisor) : Prop where
  | ended {status : ExitStatus} (waited : awaitOnce id origin = .ok (some status) origin)
      (stepped : stepOnce id origin = .ok (some status) origin)
  | failed {error : HostError} {after : Hypervisor} {steps : Nat}
      (waited : awaitOnce id origin = .error error after)
      (agree : ∀ more, Agree (fun _ => False) (Matched .any) Eq
        (.error error after : EStateM.Result HostError Hypervisor (Option ExitStatus))
        (persist (stepOnce id) (steps + more) origin))
  | turn {after : Hypervisor} {steps : Nat} (waited : awaitOnce id origin = .ok none after)
      (positive : 0 < steps)
      (agree : ∀ more, Agree (fun _ => False) (Matched .any) Eq
        (persist (stepOnce id) more after) (persist (stepOnce id) (steps + more) origin))
      (heir : Heir False origin after) (lone : Unforked origin after → Lone id after)

/-- **The turn of a single context is worth a number of steps.** -/
theorem Lone.nextRound (lone : Lone id origin) : NextRound id origin := by
  obtain ⟨kin, there⟩ := lone.there
  obtain ⟨context, found, rfl⟩ := exists_context? lone.kinship.uniform there
  cases live : context.exitStatus with
  | some status =>
      obtain ⟨waited, stepped⟩ := lone.ended found live
      exact .ended waited stepped
  | none =>
      have runnable := lone.runnable found live
      have round := lone.round runnable
      have runnable' : Runnable id context (origin.withReady []) :=
        ⟨runnable.uniform, runnable.owned, found, runnable.ready⟩
      have kinship : Kinship (· = id) (origin.withReady []) :=
        lone.kinship.congr lone.kinship.uniform (fun _ => rfl) le_rfl rfl rfl
      have queues : Matched .any (origin.withReady []) origin :=
        ⟨rfl, trivial, .refl _, runnable.uniform, runnable.uniform⟩
      obtain ⟨steps, positive, sliced⟩ := agree_slice_steps runnable' kinship origin.own.quantum
      have agree (more : Nat) := (sliced more).trans (agree_steps queues id (steps + more))
        Matched.trans
      cases run : Hypervisor.slice id origin.own.quantum (origin.withReady []) with
      | error error after =>
          refine @NextRound.failed id origin error after steps ?_ fun more => ?_
          · rw [round, bind_of_error run]
          · have last := agree more
            rwa [bind_of_error run] at last
      | ok trap after =>
          have waited : awaitOnce id origin = .ok none after := by
            rw [round, bind_of_ok run]
            rfl
          have heir : Heir False origin (finalState (awaitOnce id origin)) :=
            heir_awaitOnce lone.kinship
          rw [waited] at heir
          refine @NextRound.turn id origin after steps waited (positive lone.lasts) (fun more => ?_)
            heir fun unforked => lone.slice runnable run unforked.le
          have onward := agree more
          rwa [bind_of_ok run] at onward

/-- **Rounds that wait for the end of a single context come to what steps come to**; by induction on
the rounds. -/
theorem steps_of_rounds (lone : Lone id origin) {rounds : Nat}
    (stopped : answerOf (persist (awaitOnce id) rounds origin) ≠ .ok none)
    (unforked : Unforked origin (finalState (persist (awaitOnce id) rounds origin))) :
    ∃ steps, Agree (fun _ => False) (Matched .any) Eq (persist (awaitOnce id) rounds origin)
      (persist (stepOnce id) steps origin) := by
  induction rounds generalizing origin with
  | zero => exact absurd rfl stopped
  | succ rounds ih =>
      cases lone.nextRound with
      | ended waited stepped =>
          refine ⟨1, ?_⟩
          rw [persist_of_some waited, persist_of_some stepped]
          exact .answer rfl (.refl .any lone.kinship.uniform)
      | @failed error after steps waited agree =>
          refine ⟨steps + 0, ?_⟩
          rw [persist_of_error waited]
          exact agree 0
      | @turn after steps waited _ agree heir lone' =>
          rw [persist_of_none waited] at stopped unforked ⊢
          have later : Heir False after (finalState (persist (awaitOnce id) rounds after)) :=
            heir_persist heir_awaitOnce (heir.kinship _ lone.kinship) rounds
          have same : Unforked origin after :=
            (heir.nextId.antisymm (later.nextId.trans_eq unforked)).symm
          obtain ⟨rest, agree'⟩ := ih (lone' same) stopped (unforked.trans same.symm)
          exact ⟨steps + rest, agree'.trans (agree rest) Matched.trans⟩

/-- **Steps of a single context come to what rounds come to**; by induction on the steps, of which
each round takes some. -/
theorem rounds_of_steps (lone : Lone id origin) {steps : Nat}
    (stopped : answerOf (persist (stepOnce id) steps origin) ≠ .ok none)
    (unforked : Unforked origin (finalState (persist (stepOnce id) steps origin))) :
    ∃ rounds, Agree (fun _ => False) (Matched .any) Eq (persist (awaitOnce id) rounds origin)
      (persist (stepOnce id) steps origin) := by
  induction steps using Nat.strong_induction_on generalizing origin with
  | _ steps ih =>
  cases lone.nextRound with
  | ended waited stepped =>
      refine ⟨1, ?_⟩
      cases steps with
      | zero => exact absurd rfl stopped
      | succ steps =>
          rw [persist_of_some waited, persist_of_some stepped]
          exact .answer rfl (.refl .any lone.kinship.uniform)
  | @failed error after needed waited agree =>
      refine ⟨1, ?_⟩
      have last := agree steps
      rw [Nat.add_comm, persist_enough stopped] at last
      rw [persist_of_error waited]
      exact last
  | @turn after needed waited positive agree heir lone' =>
      by_cases fewer : steps < needed
      · -- Before its turn was over the context cannot have ended.
        obtain ⟨more, rfl⟩ := Nat.exists_eq_add_of_le fewer.le
        have none := (agree 0).outcome.1
        rw [Nat.add_zero, persist_enough stopped] at none
        exact absurd none.symm stopped
      · obtain ⟨rest, rfl⟩ := Nat.exists_eq_add_of_le (Nat.le_of_not_lt fewer)
        obtain ⟨same, states⟩ := (agree rest).outcome
        have later : Heir False after (finalState (persist (stepOnce id) rest after)) :=
          heir_persist heir_stepOnce (heir.kinship _ lone.kinship) rest
        have final : Unforked origin (finalState (persist (stepOnce id) rest after)) :=
          states.interpreter.nextId.trans unforked
        have unmoved : Unforked origin after :=
          (heir.nextId.antisymm (later.nextId.trans_eq final)).symm
        obtain ⟨rounds, agree'⟩ := ih rest (Nat.lt_add_of_pos_left positive) (lone' unmoved)
          (same ▸ stopped) (final.trans unmoved.symm)
        refine ⟨rounds + 1, ?_⟩
        rw [persist_of_none waited]
        exact agree'.trans (agree rest) Matched.trans

/-! ## Runs that end alike -/

/-- Two runs have the same answer, or fail with the same error, and what they leave is the same:
contexts with their registers and counts of instructions, frames, files, streams and the record of
calls; everything but the quantum, the queue, what levels have counted and notes. -/
structure EndAlike (first second : EStateM.Result HostError Hypervisor α) : Prop where
  answer : answerOf second = answerOf first
  own : (finalState second).own = { (finalState first).own with
    quantum := (finalState second).own.quantum
    ready := (finalState second).own.ready
    relay := (finalState second).own.relay }
  contexts : ∀ id, (finalState second).machine.context? id = (finalState first).machine.context? id
  pool : (finalState second).machine.interpreter.pool = (finalState first).machine.interpreter.pool
  nextId : (finalState second).machine.interpreter.nextId =
    (finalState first).machine.interpreter.nextId

namespace EndAlike

variable {first second third : EStateM.Result HostError Hypervisor α}

theorem trans (here : EndAlike first second) (there : EndAlike second third) :
    EndAlike first third where
  answer := there.answer.trans here.answer
  own := there.own.trans (by rw [here.own])
  contexts id := (there.contexts id).trans (here.contexts id)
  pool := there.pool.trans here.pool
  nextId := there.nextId.trans here.nextId

theorem of_matched (agree : Agree (fun _ => False) (Matched .any) Eq first second) :
    EndAlike first second := by
  obtain ⟨answer, states⟩ := agree.outcome
  refine ⟨answer.symm, states.own.trans ?_, fun id => (states.context? id).symm,
    states.interpreter.pool.symm, states.interpreter.nextId.symm⟩
  rw [states.quantum]

theorem of_quanta {quantum : Nat}
    (agree : Agree (fun _ => False)
      (fun left right => SameAbove .any (left.withQuantum quantum) right) Eq first second) :
    EndAlike first second := by
  obtain ⟨answer, states⟩ := agree.outcome
  refine ⟨answer.symm, ?_, fun id => (states.context? id).symm, states.interpreter.pool.symm, ?_⟩
  · rw [← states.own]
    rfl
  · exact states.interpreter.nextId.symm

end EndAlike

/-! ## The first context -/

/-- There are no contexts, and none is queued. -/
structure Vacant (hypervisor : Hypervisor) : Prop where
  kinship : Kinship (fun _ => False) hypervisor
  nobody : ∀ id, hypervisor.kin id = none
  idle : hypervisor.own.ready = []
  ends : hypervisor.own.debugTraps = false
  lasts : 0 < hypervisor.own.quantum

theorem vacant_of_nested {configuration : Configuration} {host : Host} {journal : Journal}
    {level : Nat} (built : nested configuration host journal level = .ok origin) :
    Vacant origin := by
  obtain ⟨_, nobody, own⟩ := empty_of_nested built
  refine ⟨kinship_of_nested built, nobody, ?_, ?_, ?_⟩
  · rw [own]
    rfl
  · rw [own]
    rfl
  · rw [own]
    exact Nat.lt_of_lt_of_le Nat.one_pos (Nat.le_max_right ..)

/-- What is recorded does not matter. -/
theorem Vacant.recorded (vacant : Vacant origin) (recording : Recording) :
    Vacant { origin with own := { origin.own with recording } } where
  kinship := vacant.kinship.congr vacant.kinship.uniform (fun _ => rfl) le_rfl rfl rfl
  nobody := vacant.nobody
  idle := vacant.idle
  ends := vacant.ends
  lasts := vacant.lasts

/-- **What is loaded first is alone.** -/
theorem Vacant.lone_of_load (vacant : Vacant origin) {image : Image} {arguments : List String}
    (loads : load image arguments origin = .ok id after) :
    Lone id after ∧ after.machine.interpreter.nextId = origin.machine.interpreter.nextId + 1 := by
  have kinship : Kinship (· = id) after := by
    have loaded : Halts (fun _ after => Heir False origin after ∧ Heeded origin after) _
        (load image arguments origin) := halts_load vacant.kinship image arguments
    rw [loads] at loaded
    have kept := loaded.1.kinship _ vacant.kinship
    rwa [show (fun other => False ∨ other = id) = (· = id) from
      funext fun _ => propext (or_iff_right not_false)] at kept
  obtain ⟨_, _, got, loads⟩ := ok_of_bind loads
  cases got
  obtain ⟨id, created, creates, loads⟩ := ok_of_bind loads
  have begun := halts_create vacant.kinship.uniform image
    ⟨origin.own.mode, origin.own.stackSize, arguments⟩
  rw [creates] at begun
  obtain ⟨born, -⟩ := begun
  have own := born.own
  cases loads
  refine ⟨⟨kinship, fun other kin found => ?_, ⟨_, born.self⟩, fun kin found => ?_, ?_, ?_, ?_⟩, ?_⟩
  · rcases born.new_or_old found with ⟨same, _⟩ | ⟨_, before, there, _⟩
    · exact same.symm
    · cases (vacant.nobody other).symm.trans there
  · obtain rfl := Option.some.inj (born.self.symm.trans found)
    exact ⟨trivial, fun _ _ => nofun⟩
  · exact (congrArg Supervisor.debugTraps own).trans vacant.ends
  · have queue : created.own.ready ++ [id] = [id] := by
      rw [own, vacant.idle]
      rfl
    unfold AtBack
    rw [(canRun_iff kinship.uniform).mpr ⟨_, born.self, rfl⟩, if_pos rfl]
    show created.own.ready ++ [id] = (created.own.ready ++ [id]).filter (· != id) ++ [id]
    rw [queue, List.filter_singleton, bne_self_eq_false]
    rfl
  · exact vacant.lasts.trans_eq (congrArg Supervisor.quantum own).symm
  · exact born.nextId.trans (congrArg (· + 1) born.next)

/-! ## Quanta make no difference -/

/-- Load a program, with its calls recorded or not. -/
def loadFirst (recorded : Bool) (image : Image) (arguments : List String) :
    HypervisorAction ContextId := do
  if recorded then startRecording
  load image arguments

theorem Vacant.lone_of_loadFirst (vacant : Vacant origin) {recorded : Bool} {image : Image}
    {arguments : List String} (loads : loadFirst recorded image arguments origin = .ok id after) :
    Lone id after ∧ after.machine.interpreter.nextId = origin.machine.interpreter.nextId + 1 := by
  cases recorded with
  | false => exact vacant.lone_of_load loads
  | true => exact (vacant.recorded (.record .empty)).lone_of_load loads

theorem follows_loadFirst (quantum : Nat) (recorded : Bool) (image : Image)
    (arguments : List String) :
    (quanta .any quantum).Follows Eq (loadFirst recorded image arguments)
      (loadFirst recorded image arguments) := by
  have load := (respectsQueues_quanta JournalView.levelBlind_any quantum).load image arguments
  cases recorded with
  | false => exact load
  | true =>
      have records : (quanta .any quantum).Follows Eq startRecording startRecording :=
        follows_quanta (timeless_modifyOwn fun _ _ => rfl) (follows_modifyOwn _)
      exact records.bind_eq fun _ => load

/-- A run for the end of a single context comes to rounds. -/
theorem Lone.run_apply (lone : Lone id origin) (rounds : Nat) :
    run rounds id origin = persist (awaitOnce id) rounds origin :=
  run_of_owned lone.owned rounds

/-- Rounds with one quantum come to what steps come to, which do not look at it, and these come to
what rounds with another quantum come to. -/
theorem Lone.end_alike {quantum : Nat} (lone : Lone id left) (lone' : Lone id right)
    (states : SameAbove .any (left.withQuantum quantum) right) {rounds : Nat}
    (stopped : answerOf (run rounds id left) ≠ .ok none)
    (unforked : Unforked left (finalState (run rounds id left))) :
    ∃ enough, ∀ more ≥ enough, EndAlike (run rounds id left) (run more id right) ∧
      EndAlike (run rounds id left) (persist (stepOnce id) more right) := by
  rw [lone.run_apply] at stopped unforked ⊢
  obtain ⟨steps, agree⟩ := steps_of_rounds lone stopped unforked
  have blind := JournalView.levelBlind_any
  have follows := (respectsService_quanta blind quantum).stepOnce
    (respectsCalls_quanta blind quantum).follows_dispatch id
  have stepped : EndAlike (persist (awaitOnce id) rounds left)
      (persist (stepOnce id) steps right) :=
    (EndAlike.of_matched agree).trans
      (.of_quanta ((follows_persist follows steps).agrees left right states))
  have stopped' : answerOf (persist (stepOnce id) steps right) ≠ .ok none :=
    stepped.answer ▸ stopped
  have unforked' : Unforked right (finalState (persist (stepOnce id) steps right)) :=
    (stepped.nextId.trans unforked).trans states.interpreter.nextId
  obtain ⟨rounds', agree'⟩ := rounds_of_steps lone' stopped' unforked'
  have ran : EndAlike (persist (awaitOnce id) rounds left)
      (persist (awaitOnce id) rounds' right) :=
    stepped.trans (.of_matched (agree'.symm Matched.symm))
  have stopped'' : answerOf (persist (awaitOnce id) rounds' right) ≠ .ok none :=
    ran.answer ▸ stopped
  refine ⟨max rounds' steps, fun more enough => ⟨?_, ?_⟩⟩
  · obtain ⟨further, rfl⟩ := Nat.exists_eq_add_of_le ((Nat.le_max_left ..).trans enough)
    rw [lone'.run_apply, persist_enough stopped'']
    exact ran
  · obtain ⟨further, rfl⟩ := Nat.exists_eq_add_of_le ((Nat.le_max_right ..).trans enough)
    rw [persist_enough stopped']
    exact stepped

/-- Stacks that are built alike, but for the quantum. -/
theorem sameAbove_withQuantum {configuration : Configuration} {host : Host} {journal : Journal}
    {level first second : Nat} {start start' : Hypervisor}
    (built : nested { configuration with quantum := first } host journal level = .ok start)
    (built' : nested { configuration with quantum := second } host journal level = .ok start') :
    SameAbove .any (start.withQuantum start'.own.quantum) start' := by
  obtain ⟨uniform, -, own⟩ := empty_of_nested built
  obtain ⟨uniform', -, own'⟩ := empty_of_nested built'
  cases level with
  | zero => cases built
  | succ below =>
      cases built
      cases built'
      exact ⟨rfl, .mk (newInterpreter configuration journal) trivial, uniform, uniform'⟩

/-- Load a program and let it run until it has ended, for so many rounds at most. -/
def loadAndRun (recorded : Bool) (image : Image) (arguments : List String) (rounds : Nat) :
    HypervisorAction (Option ExitStatus) :=
  loadFirst recorded image arguments >>= run rounds

/-- Load a program and step it until it has ended, so often at most. -/
def loadAndStep (recorded : Bool) (image : Image) (arguments : List String) (steps : Nat) :
    HypervisorAction (Option ExitStatus) :=
  loadFirst recorded image arguments >>= fun id => persist (stepOnce id) steps

/-- **The quantum makes no difference to a context that is alone.**  A program is loaded on a fresh
stack, its calls are recorded or not, and a run waits for its end.  If the run is over after some
rounds, with an answer or an error, and no fork has succeeded, so that the load alone has taken a
number, then a run with any other quantum ends alike, if it may take rounds enough; and so does
whoever steps the context until it has ended. -/
theorem quantum_independent {configuration : Configuration} {host : Host} {journal : Journal}
    {level first second : Nat} {start start' : Hypervisor}
    (built : nested { configuration with quantum := first } host journal level = .ok start)
    (built' : nested { configuration with quantum := second } host journal level = .ok start')
    (recorded : Bool) (image : Image) (arguments : List String) {rounds : Nat}
    (stopped : answerOf (loadAndRun recorded image arguments rounds start) ≠ .ok none)
    (unforked :
      (finalState (loadAndRun recorded image arguments rounds start)).machine.interpreter.nextId =
        start.machine.interpreter.nextId + 1) :
    ∃ enough, ∀ more ≥ enough,
      EndAlike (loadAndRun recorded image arguments rounds start)
        (loadAndRun recorded image arguments more start') ∧
      EndAlike (loadAndRun recorded image arguments rounds start)
        (loadAndStep recorded image arguments more start') := by
  have loads := (follows_loadFirst start'.own.quantum recorded image arguments).agrees start start'
    (sameAbove_withQuantum built built')
  unfold loadAndRun loadAndStep at *
  cases loaded : loadFirst recorded image arguments start with
  | error error after =>
      -- Nothing is driven at all.
      rw [loaded] at loads
      obtain ⟨after', failed, states⟩ := loads.error
      refine ⟨0, fun more _ => ?_⟩
      simp only [bind_of_error loaded, bind_of_error failed]
      exact ⟨.of_quanta (.failure states), .of_quanta (.failure states)⟩
  | ok id after =>
      rw [loaded] at loads
      obtain ⟨after', loaded', states⟩ := loads.ok
      obtain ⟨lone, next⟩ := (vacant_of_nested built).lone_of_loadFirst loaded
      obtain ⟨lone', -⟩ := (vacant_of_nested built').lone_of_loadFirst loaded'
      simp only [bind_of_ok loaded, bind_of_ok loaded'] at stopped unforked ⊢
      exact lone.end_alike lone' states stopped (unforked.trans next.symm)

/-- A program that reads a byte, writes it, and then reads where nothing is. -/
def echoAndFault : Image :=
  .ofWords ([.addi 17 0 63, .addi 10 0 0, .lui 11 0x11000, .addi 12 0 1, .ecall, .addi 17 0 64,
    .addi 10 0 1, .ecall, .ld 5 0 0].map Instruction.encode) [0]

/-- The echo and the fault are the same whether there is a slice for each instruction or a slice
for four, the first of which ends right before a call. -/
theorem echo_at_any_pace :
    ∃ start start',
      nested { Configuration.standard with frames := 8, quantum := 1 }
        (.buffer (.withInput [7])) .silent 1 = .ok start ∧
      nested { Configuration.standard with frames := 8, quantum := 4 }
        (.buffer (.withInput [7])) .silent 1 = .ok start' ∧
      let outcome := loadAndRun true echoAndFault [] 20 start
      answerOf outcome = .ok (some (.faulted (.segmentation 0) 65568)) ∧
      (finalState outcome).own.host.buffer?.map BufferHost.output = some [7] ∧
      ∃ enough, ∀ more ≥ enough,
        EndAlike outcome (loadAndRun true echoAndFault [] more start') ∧
        EndAlike outcome (loadAndStep true echoAndFault [] more start') := by
  obtain ⟨start, built⟩ : ∃ start,
      nested { Configuration.standard with frames := 8, quantum := 1 }
        (.buffer (.withInput [7])) .silent 1 = .ok start := ⟨_, rfl⟩
  obtain ⟨start', built'⟩ : ∃ start',
      nested { Configuration.standard with frames := 8, quantum := 4 }
        (.buffer (.withInput [7])) .silent 1 = .ok start' := ⟨_, rfl⟩
  have evaluated : (nested { Configuration.standard with frames := 8, quantum := 1 }
      (.buffer (.withInput [7])) .silent 1).map (fun start =>
        let outcome := loadAndRun true echoAndFault [] 20 start
        (answerOf outcome, (finalState outcome).own.host.buffer?.map BufferHost.output,
          (finalState outcome).machine.interpreter.nextId ==
            start.machine.interpreter.nextId + 1)) =
      .ok (.ok (some (.faulted (.segmentation 0) 65568)), some [7], true) := by
    decide +kernel
  rw [built] at evaluated
  simp only [Except.map, Except.ok.injEq, Prod.mk.injEq, beq_iff_eq] at evaluated
  obtain ⟨faulted, echoed, unforked⟩ := evaluated
  refine ⟨start, start', built, built', faulted, echoed, ?_⟩
  have stopped : answerOf (loadAndRun true echoAndFault [] 20 start) ≠ .ok none := by
    rw [faulted]
    nofun
  exact @quantum_independent { Configuration.standard with frames := 8 } _ _ _ _ _ _ _ built built'
    true echoAndFault [] 20 stopped unforked

end NestedMachine.Hypervisor
