import NestedMachine.Proofs.Hypervisor.Atomicity
import NestedMachine.Proofs.Hypervisor.Fairness
import NestedMachine.Proofs.Hypervisor.Fronts

/-!
# How a turn gets to its trap

Whatever lets a context run does the same with it: the context was there, ready or running, it is
moved into the running state, and then it runs (`Turn.Leads`).  Slices, rounds of the scheduler and
steps differ only in who has the turn and for how many instructions, and in queues, counters and
notes (`Aside`).  A turn in which nobody runs changes nothing else either (`aside_of_toTrap`).

Whoever is in a trap at the end of its slice is served: it is live and does not wait, in a
hypervisor whose families agree (`Turn.Leads.tended`).
-/

namespace NestedMachine.Hypervisor

set_option autoImplicit false

variable {α : Type} {id : ContextId} {origin middle called after : Hypervisor}
  {loaded : ContextId → Prop} {turn : Turn} {trap : Trap}

/-! ## Queues, counters and notes -/

/-- Nothing has changed but queues, counters and notes. -/
structure Aside (origin after : Hypervisor) : Prop where
  uniform : after.machine.Uniform
  contexts : after.machine.interpreter.contexts = origin.machine.interpreter.contexts
  pool : after.machine.interpreter.pool = origin.machine.interpreter.pool
  nextId : after.machine.interpreter.nextId = origin.machine.interpreter.nextId
  owned : after.own.owned = origin.own.owned
  orphans : after.own.orphans = origin.own.orphans

namespace Aside

theorem refl (uniform : origin.machine.Uniform) : Aside origin origin :=
  ⟨uniform, rfl, rfl, rfl, rfl, rfl⟩

theorem trans (first : Aside origin middle) (second : Aside middle after) : Aside origin after :=
  ⟨second.uniform, second.contexts.trans first.contexts, second.pool.trans first.pool,
    second.nextId.trans first.nextId, second.owned.trans first.owned,
    second.orphans.trans first.orphans⟩

theorem note (uniform : origin.machine.Uniform) {happening : Note}
    (done : note happening origin = .ok () after) : Aside origin after := by
  cases done
  exact ⟨uniform.congr rfl fun _ => rfl, rfl, rfl, rfl, rfl, rfl⟩

theorem count (uniform : origin.machine.Uniform) {change : Counters → Counters}
    (done : count change origin = .ok () after) : Aside origin after := by
  cases done
  exact ⟨uniform, rfl, rfl, rfl, rfl, rfl⟩

theorem withReady (uniform : origin.machine.Uniform) (ready : List ContextId) :
    Aside origin (origin.withReady ready) :=
  ⟨uniform, rfl, rfl, rfl, rfl, rfl⟩

theorem kin (aside : Aside origin after) (id : ContextId) : after.kin id = origin.kin id := by
  unfold Hypervisor.kin
  rw [aside.contexts]

theorem kinship (aside : Aside origin after) (kinship : Kinship loaded origin) :
    Kinship loaded after :=
  kinship.congr aside.uniform aside.kin aside.nextId.ge aside.owned aside.orphans

theorem serving (aside : Aside origin after) (serving : origin.Serving id) : after.Serving id := by
  obtain ⟨kin, there, given⟩ := serving
  exact ⟨kin, (aside.kin id).trans there, given⟩

end Aside

/-! ## Turns -/

/-- A turn has led a context to a trap.  The context was ready or running and was moved into the
running state; then it has run, for at least one instruction unless none was asked for. -/
inductive Turn.Leads (turn : Turn) (id : ContextId) (trap : Trap) (origin called : Hypervisor) :
    Prop
  | ran {context : Context} {quantum : Nat} {running : Hypervisor}
      (found : origin.machine.context? id = some context)
      (lively : context.state = .ready ∨ context.state = .running)
      (started : Aside (origin.withState id .running) running)
      (ran : below (Machine.switch id quantum) running = .ok trap called)
      (positive : turn ≠ .slice id 0 → 0 < origin.own.quantum → 0 < quantum)

/-- A slice leads a context to its trap. -/
theorem ran_of_runSlice {quantum : Nat} (uniform : origin.machine.Uniform)
    (done : runSlice id quantum origin = .ok trap after) :
    ∃ context running, origin.machine.context? id = some context ∧ context.state = .ready ∧
      Aside (origin.withState id .running) running ∧
      below (Machine.switch id quantum) running = .ok trap after := by
  obtain ⟨_, _, own, done⟩ := ok_of_bind done
  rw [requireOwned_apply] at own
  split at own <;> cases own
  obtain ⟨context, found, done⟩ := found_of_contextOf done
  split at done
  · cases done
  · rename_i ready
    dsimp only at done
    rw [bind_of_ok (setState_of_found found .running)] at done
    obtain ⟨_, counted, count, done⟩ := ok_of_bind done
    rw [get_bind_apply] at done
    obtain ⟨_, noted, note, done⟩ := ok_of_bind done
    have counts := Aside.count (uniform_withState uniform found .running) count
    exact ⟨context, noted, found, not_not.mp ready, counts.trans (.note counts.uniform note), done⟩

/-- **What leads to a trap**, by the way in which a context is let run. -/
theorem leads_of_toTrap (uniform : origin.machine.Uniform)
    (done : turn.toTrap origin = .ok (some (id, trap)) called) :
    turn.Leads id trap origin called := by
  cases turn with
  | slice runner quantum =>
      obtain ⟨_, _, run, done⟩ := ok_of_bind done
      cases done
      obtain ⟨context, running, found, ready, started, ran⟩ := ran_of_runSlice uniform run
      refine .ran found (.inl ready) started ran fun some _ => Nat.pos_of_ne_zero ?_
      rintro rfl
      exact some rfl
  | scheduleOnce =>
      obtain ⟨next, chosen, choose, done⟩ := ok_of_bind done
      rw [nextReady_apply] at choose
      injection choose with first queue
      subst queue
      cases next with
      | none => cases done
      | some runner =>
          obtain ⟨_, popped, pop, done⟩ := ok_of_bind done
          rw [get_bind_apply] at done
          obtain ⟨_, _, run, done⟩ := ok_of_bind done
          cases done
          obtain ⟨context, running, found, ready, started, ran⟩ :=
            ran_of_runSlice (by cases pop; exact uniform) run
          cases pop
          refine .ran found (.inl ready) ?_ ran fun _ positive => positive
          exact ⟨started.uniform, started.contexts, started.pool, started.nextId, started.owned,
            started.orphans⟩
  | step runner =>
      obtain ⟨_, _, own, done⟩ := ok_of_bind done
      rw [requireOwned_apply] at own
      split at own <;> cases own
      obtain ⟨context, found, done⟩ := found_of_contextOf done
      have live (lively : context.state = .ready ∨ context.state = .running) (done : (do
          setState runner .running
          return some (runner, ← below (Machine.switch runner 1)) :
            HypervisorAction (Option (ContextId × Trap))) origin = .ok (some (id, trap)) called) :
          (Turn.step runner).Leads id trap origin called := by
        rw [bind_of_ok (setState_of_found found .running)] at done
        obtain ⟨_, _, run, done⟩ := ok_of_bind done
        cases done
        refine .ran found lively (.refl ?_) run fun _ _ => Nat.one_pos
        exact uniform_withState uniform found .running
      cases state : context.state with
      | ready =>
          rw [state] at done
          exact live (.inl state) done
      | running =>
          rw [state] at done
          exact live (.inr state) done
      | blocked reason =>
          rw [state] at done
          cases done
      | trapped fault pc =>
          rw [state] at done
          cases done
      | exited =>
          rw [state] at done
          cases done

/-- A turn in which nobody runs changes nothing. -/
theorem aside_of_toTrap (uniform : origin.machine.Uniform)
    (done : turn.toTrap origin = .ok none called) : Aside origin called := by
  cases turn with
  | slice runner quantum =>
      obtain ⟨_, _, run, done⟩ := ok_of_bind done
      cases done
  | scheduleOnce =>
      obtain ⟨next, chosen, choose, done⟩ := ok_of_bind done
      rw [nextReady_apply] at choose
      injection choose with first queue
      subst queue
      cases next with
      | none =>
          cases done
          exact .withReady uniform _
      | some runner =>
          obtain ⟨_, popped, pop, done⟩ := ok_of_bind done
          rw [get_bind_apply] at done
          obtain ⟨_, _, run, done⟩ := ok_of_bind done
          cases done
  | step runner =>
      obtain ⟨_, _, own, done⟩ := ok_of_bind done
      rw [requireOwned_apply] at own
      split at own <;> cases own
      obtain ⟨context, found, done⟩ := found_of_contextOf done
      cases state : context.state with
      | blocked reason =>
          rw [state] at done
          cases done
          exact .refl uniform
      | ready | running =>
          rw [state] at done
          obtain ⟨_, _, _, done⟩ := ok_of_bind done
          obtain ⟨_, _, _, done⟩ := ok_of_bind done
          cases done
      | trapped fault pc =>
          rw [state] at done
          cases done
      | exited =>
          rw [state] at done
          cases done

/-! ## Contexts in their traps -/

/-- A context is served by a hypervisor whose families agree. -/
structure Tended (loaded : ContextId → Prop) (id : ContextId) (hypervisor : Hypervisor) : Prop where
  kinship : Kinship loaded hypervisor
  serving : hypervisor.Serving id

/-- Discreet actions go on with whoever is served. -/
theorem Tended.discreet (tended : Tended loaded id origin) {told : α → Prop}
    {action : HypervisorAction α} (discreet : Discreet id told action) {answer : α}
    (done : action origin = .ok answer after) : Tended loaded id after := by
  have outcome := discreet origin tended.kinship.uniform
  rw [done] at outcome
  exact ⟨tended.kinship.of_hushed outcome.1, tended.serving.of_hushed outcome.1⟩

/-- **Whoever is in a trap at the end of its slice is served.** -/
theorem Turn.Leads.tended (leads : turn.Leads id trap origin called)
    (kinship : Kinship loaded origin) : Tended loaded id called := by
  obtain ⟨found, lively, started, ran, -⟩ := leads
  have there := kin_of_context? kinship.uniform found
  have serving : origin.Serving id := by
    rcases lively with ready | running
    · exact kinship.serving there ready nofun nofun
    · exact kinship.serving there running nofun nofun
  have starts := within_start kinship serving
  unfold Within at starts
  rw [setState_of_found found .running] at starts
  have tended : Tended loaded id _ :=
    ⟨started.kinship starts.2.1, started.serving starts.2.2⟩
  exact tended.discreet (discreet_switch id _) ran

end NestedMachine.Hypervisor
