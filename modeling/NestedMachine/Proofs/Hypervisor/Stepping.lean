import NestedMachine.Proofs.Hypervisor.Turns
import NestedMachine.Proofs.Hypervisor.Wakeups

/-!
# Slices as steps

A run that waits for the end of a context takes rounds until it has an answer, and whoever drives a
context by single steps takes steps until it has one (`stepOnce`).  Both carry out an action as
often as they have to (`persist`): with a limit that suffices, every greater limit leads to the same
(`persist_enough`).

A context that gets a slice goes through the states that it goes through when it is stepped.  So a
slice is worth a number of steps: to step the context as often as one likes afterwards is to step it
that much more often from the beginning (`agree_slice_steps`).  The number is at least one, unless
the slice has no instructions at all.
-/

namespace NestedMachine.Hypervisor

set_option autoImplicit false

variable {α : Type} {origin after : Hypervisor} {id : ContextId} {context : Context}
  {loaded : ContextId → Prop}

/-! ## Carrying out an action until it has an answer -/

/-- Carry out an action until it has an answer, at most so often. -/
def persist (once : HypervisorAction (Option α)) : Nat → HypervisorAction (Option α)
  | 0 => return none
  | times + 1 => do
      match ← once with
      | some answer => return some answer
      | none => persist once times

theorem await_eq_persist (id : ContextId) (rounds : Nat) :
    await id rounds = persist (awaitOnce id) rounds := by
  induction rounds with
  | zero => rfl
  | succ rounds ih =>
      rw [await, persist]
      refine congrArg (awaitOnce id >>= ·) (funext fun ended => ?_)
      cases ended with
      | some status => rfl
      | none => exact ih

/-- A run for the end of an owned context comes to rounds. -/
theorem run_of_owned (owned : origin.own.owned.contains id = true) (rounds : Nat) :
    run rounds id origin = persist (awaitOnce id) rounds origin := by
  have looked : requireOwned id origin = .ok () origin := by
    rw [requireOwned_apply, if_pos owned]
  rw [run, bind_of_ok looked, await_eq_persist]

section Persist

variable {once : HypervisorAction (Option α)} {answer : α} {error : HostError}

theorem persist_of_none (done : once origin = .ok none after) (times : Nat) :
    persist once (times + 1) origin = persist once times after := bind_of_ok done _

theorem persist_of_some (done : once origin = .ok (some answer) after) (times : Nat) :
    persist once (times + 1) origin = .ok (some answer) after := bind_of_ok done _

theorem persist_of_error (failed : once origin = .error error after) (times : Nat) :
    persist once (times + 1) origin = .error error after := bind_of_error failed _

/-- **What is over after some times is no different after more.** -/
theorem persist_enough {times : Nat} (stopped : answerOf (persist once times origin) ≠ .ok none)
    (more : Nat) : persist once (times + more) origin = persist once times origin := by
  induction times generalizing origin with
  | zero => exact absurd rfl stopped
  | succ times ih =>
      rw [Nat.add_right_comm]
      cases result : once origin with
      | error error after => rw [persist_of_error result, persist_of_error result]
      | ok found after =>
          cases found with
          | some answer => rw [persist_of_some result, persist_of_some result]
          | none =>
              rw [persist_of_none result] at stopped ⊢
              rw [persist_of_none result]
              exact ih stopped

theorem follows_persist {pursuit : Pursuit HostError Hypervisor Hypervisor}
    (follows : pursuit.Follows Eq once once) (times : Nat) :
    pursuit.Follows Eq (persist once times) (persist once times) := by
  induction times with
  | zero => exact .pure rfl
  | succ times ih =>
      apply follows.bind_eq
      intro found
      cases found with
      | some answer => exact .pure rfl
      | none => exact ih

/-- What each time hands on, all times do. -/
theorem heir_persist {neat : Prop}
    (heir : ∀ {origin}, Kinship loaded origin → Heir neat origin (finalState (once origin)))
    (kinship : Kinship loaded origin) (times : Nat) :
    Heir neat origin (finalState (persist once times origin)) := by
  induction times generalizing origin with
  | zero => exact .refl origin
  | succ times ih =>
      have first := heir kinship
      cases result : once origin with
      | error error after =>
          rw [persist_of_error result]
          rwa [result] at first
      | ok found after =>
          rw [result] at first
          cases found with
          | some answer =>
              rw [persist_of_some result]
              exact first
          | none =>
              rw [persist_of_none result]
              exact first.trans (ih (first.kinship loaded kinship))

end Persist

/-! ## Steps -/

/-- Tell how a context has ended, or step it if it has not. -/
def stepOnce (id : ContextId) : HypervisorAction (Option ExitStatus) := do
  match ← exitStatusOf id with
  | some status => return some status
  | none =>
      let _ ← step id
      return none

theorem exitStatusOf_apply (id : ContextId) (origin : Hypervisor) :
    exitStatusOf id origin =
      if origin.own.owned.contains id = true then
        match origin.machine.context? id with
        | some context => .ok context.exitStatus origin
        | none => .error (.unknownContext id) origin
      else .error (.unknownContext id) origin := by
  rw [exitStatusOf, bind_apply, EStateM.bind, requireOwned_apply]
  by_cases owned : origin.own.owned.contains id = true
  · rw [if_pos owned, if_pos owned]
    dsimp only
    rw [bind_apply, EStateM.bind, contextOf_apply]
    cases origin.machine.context? id <;> rfl
  · rw [if_neg owned, if_neg owned]

theorem stepOnce_apply (id : ContextId) (origin : Hypervisor) :
    stepOnce id origin =
      if origin.own.owned.contains id = true then
        match origin.machine.context? id with
        | some context =>
            match context.exitStatus with
            | some status => .ok (some status) origin
            | none => (do
                let _ ← step id
                return none) origin
        | none => .error (.unknownContext id) origin
      else .error (.unknownContext id) origin := by
  rw [stepOnce, bind_apply, EStateM.bind, exitStatusOf_apply]
  by_cases owned : origin.own.owned.contains id = true
  · rw [if_pos owned, if_pos owned]
    cases origin.machine.context? id with
    | none => rfl
    | some context =>
        dsimp only
        cases context.exitStatus <;> rfl
  · rw [if_neg owned, if_neg owned]

theorem heir_step {neat : Prop} (kinship : Kinship loaded origin) :
    Heir neat origin (finalState (step id origin)) := by
  have passed : Passed neat _ origin (finalState ((Operation.step id).perform origin)) :=
    passed_perform kinship (.step id) fun _ _ _ same => nomatch same
  have same : finalState ((Operation.step id).perform origin) = finalState (step id origin) :=
    finalState_map (step id) Answer.trap origin
  rw [same] at passed
  exact passed.heir (answerOf_ne_context fun _ _ same => nomatch same)

theorem heir_stepOnce {neat : Prop} (kinship : Kinship loaded origin) :
    Heir neat origin (finalState (stepOnce id origin)) := by
  rw [stepOnce_apply]
  split
  · split
    · split
      · exact .refl origin
      · rw [finalState_map (step id) fun _ => none]
        exact heir_step kinship
    · exact .refl origin
  · exact .refl origin

theorem RespectsService.stepOnce {pursuit : Pursuit HostError Hypervisor Hypervisor}
    {alike : Note → Note → Prop} (respects : RespectsService pursuit alike)
    (calls : ∀ id, pursuit.Follows Eq (dispatch id) (dispatch id)) (id : ContextId) :
    pursuit.Follows Eq (stepOnce id) (stepOnce id) := by
  apply (respects.exitStatusOf id).bind_eq
  intro ended
  cases ended with
  | some status => exact .pure rfl
  | none => exact (respects.step calls id).bind_eq fun _ => .pure rfl

/-- Stepping a context as often as one likes follows itself where queues compare in any way. -/
theorem agree_steps {queues : QueueView} {left right : Hypervisor}
    (states : Matched queues left right) (id : ContextId) (steps : Nat) :
    Agree (fun _ => False) (Matched queues) Eq (persist (stepOnce id) steps left)
      (persist (stepOnce id) steps right) :=
  (follows_persist ((respectsService_matching queues).stepOnce
    (respectsCalls_matching queues).follows_dispatch id) steps).agrees left right states

/-! ## Slices -/

namespace Runnable

/-- Whoever has been made ready can run. -/
theorem of_makeReady (uniform : origin.machine.Uniform)
    (owned : origin.own.owned.contains id = true) {answer : Unit}
    (readied : makeReady id origin = .ok answer after) : ∃ later, Runnable id later after := by
  cases found : origin.machine.context? id with
  | none =>
      rw [makeReady_eq, setState, bind_apply, EStateM.bind, modifyContext_apply, found] at readied
      cases readied
  | some context =>
      cases (makeReady_of_found found).symm.trans readied
      exact ⟨context.withState .ready, uniform_withState uniform found .ready, owned,
        context?_withState uniform found .ready, rfl⟩

/-- Whoever can run can do so after a step without a trap. -/
theorem of_step (runnable : Runnable id context origin)
    (stepped : step id origin = .ok none after) : ∃ later, Runnable id later after := by
  rw [runnable.step_apply] at stepped
  obtain ⟨trap, stopped, run, rest⟩ := ok_of_bind stepped
  have running := uniform_withState runnable.uniform runnable.found .running
  obtain ⟨uniform, own⟩ := uniform_of_below (running.switch id 1) run
  have owned : stopped.own.owned.contains id = true := by
    rw [own]
    exact runnable.owned
  cases trap with
  | timerInterrupt =>
      obtain ⟨_, _, readied, told⟩ := ok_of_bind rest
      cases told
      exact of_makeReady uniform owned readied
  | environmentCall =>
      obtain ⟨_, _, _, told⟩ := ok_of_bind rest
      cases told
  | fault fault pc =>
      obtain ⟨_, _, _, told⟩ := ok_of_bind rest
      cases told

/-- Whoever can run has not ended. -/
theorem live (runnable : Runnable id context origin) (kinship : Kinship loaded origin) :
    context.exitStatus = none := by
  apply (kinship.exited id _ (kin_of_context? runnable.uniform runnable.found)).mpr
  show context.state ≠ .exited
  rw [runnable.ready]
  nofun

/-- Whoever can run is stepped. -/
theorem stepOnce_apply (runnable : Runnable id context origin) (kinship : Kinship loaded origin) :
    stepOnce id origin = (do
      let _ ← step id
      return none) origin := by
  rw [Hypervisor.stepOnce_apply, if_pos runnable.owned, runnable.found]
  dsimp only
  rw [runnable.live kinship]

end Runnable

/-- A step before a slice is worth one step more than the slice; and if it ends in a trap or fails,
that is all there is. -/
theorem agree_stepThenSlice_steps (runnable : Runnable id context origin)
    (kinship : Kinship loaded origin) {quantum : Nat}
    (rest : ∀ after, step id origin = .ok none after → ∃ steps, ∀ more,
      Agree (fun _ => False) (Matched .any) Eq
        ((slice id quantum >>= fun _ => persist (stepOnce id) more) after)
        (persist (stepOnce id) (steps + more) after)) :
    ∃ steps, ∀ more,
      Agree (fun _ => False) (Matched .any) Eq
        ((stepThenSlice id quantum >>= fun _ => persist (stepOnce id) more) origin)
        (persist (stepOnce id) (steps + more + 1) origin) := by
  have first := runnable.stepOnce_apply kinship
  have itself (steps : Nat) := agree_steps (.refl .any runnable.uniform) id steps
  cases stepped : step id origin with
  | error error after =>
      have once : stepOnce id origin = .error error after := by
        rw [first, bind_of_error stepped]
      refine ⟨0, fun more => ?_⟩
      have same := itself (more + 1)
      rw [persist_of_error once] at same
      rw [persist_of_error once, bind_of_error (stepThenSlice_of_error stepped quantum)]
      exact same
  | ok answer after =>
      have once : stepOnce id origin = .ok none after := by
        rw [first, bind_of_ok stepped]
        rfl
      cases answer with
      | some trap =>
          refine ⟨0, fun more => ?_⟩
          have same := itself (more + 1)
          rw [persist_of_none once] at same
          rw [Nat.zero_add, persist_of_none once,
            bind_of_ok (stepThenSlice_of_trap stepped quantum)]
          exact same
      | none =>
          obtain ⟨steps, agree⟩ := rest after stepped
          refine ⟨steps, fun more => ?_⟩
          rw [persist_of_none once, bind_apply, EStateM.bind, stepThenSlice_of_none stepped]
          exact agree more

/-- **A slice is worth a number of steps**; by induction on its instructions. -/
theorem agree_slice_steps (runnable : Runnable id context origin) (kinship : Kinship loaded origin)
    (quantum : Nat) :
    ∃ steps, (0 < quantum → 0 < steps) ∧ ∀ more,
      Agree (fun _ => False) (Matched .any) Eq
        ((slice id quantum >>= fun _ => persist (stepOnce id) more) origin)
        (persist (stepOnce id) (steps + more) origin) := by
  induction quantum generalizing origin context with
  | zero =>
      obtain ⟨idle, done, states⟩ := slice_zero runnable
      refine ⟨0, fun positive => absurd positive (Nat.lt_irrefl 0), fun more => ?_⟩
      rw [bind_of_ok done, Nat.zero_add]
      exact agree_steps states.symm.any id more
  | succ quantum ih =>
      obtain ⟨steps, agree⟩ : ∃ steps, ∀ more, Agree (fun _ => False) (Matched .any) Eq
          ((stepThenSlice id quantum >>= fun _ => persist (stepOnce id) more) origin)
          (persist (stepOnce id) (steps + more + 1) origin) := by
        refine agree_stepThenSlice_steps runnable kinship fun after stepped => ?_
        have heir : Heir False origin (finalState (step id origin)) := heir_step kinship
        rw [stepped] at heir
        obtain ⟨later, runnable'⟩ := runnable.of_step stepped
        obtain ⟨steps, _, agree⟩ := ih runnable' (heir.kinship loaded kinship)
        exact ⟨steps, agree⟩
      refine ⟨steps + 1, fun _ => Nat.succ_pos steps, fun more => ?_⟩
      have split : Agree (fun _ => False) (Matched (.apartFrom id)) Eq
          ((slice id (quantum + 1) >>= fun _ => persist (stepOnce id) more) origin)
          ((stepThenSlice id quantum >>= fun _ => persist (stepOnce id) more) origin) :=
        (agree_slice_succ runnable quantum).bind fun _ _ _ _ _ states =>
          agree_steps states id more
      rw [Nat.add_right_comm]
      exact split.trans (agree more) fun states states' => states.any.trans states'

end NestedMachine.Hypervisor
