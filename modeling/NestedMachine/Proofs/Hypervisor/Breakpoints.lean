import NestedMachine.Proofs.Hypervisor.Debugging
import NestedMachine.Proofs.Hypervisor.Fronts
import NestedMachine.Proofs.Hypervisor.Watching

/-!
# Breakpoints

A debugger keeps in mind the context and the address that it has stopped at.  The next resume passes
over this place once, and only there.  That this one check hits the instruction stopped at, and no
other, rests on the queue: the context has stood at its front since the stop, whatever the debugger
was asked meanwhile, so its turn is the first of the resume (`StandsAt`, `halts_resume`).

A resume is watched (`Watched.resume`), and two conditions are carried from instruction to
instruction (`halts_instruct`), through a turn (`halts_turn`) and from turn to turn
(`halts_resumeFrom`).  There was no reason to stop before an instruction that is put down, but for
the first one after a stop (`Logged`).  And no fault has parked anyone while the resume goes on,
while the one that parks a context ends the resume at once (`Going`, `Felled`).

A session is a list of calls.  What it answers tells where the debugger has stopped (`lastStop`),
and this is what the debugger itself keeps in mind (`stoppedAt_session`).  So after any session the
next resume gives an account of the instructions that it carries out (`resume_accounts`): where it
stops, where it goes on, and whom a fault has parked.
-/

namespace NestedMachine.Watched

set_option autoImplicit false

open Std (TreeSet)
open Debugger (TurnEnd)
open Hypervisor

variable {loaded : ContextId → Prop} {origin debugger : Debugger} {log : List Executed}
  {after : Hypervisor} {id : ContextId} {pc : UInt64} {spared : Option (ContextId × UInt64)}
  {state : Debugger × List Executed} {executed : Executed}

/-! ## What is put down during a resume -/

/-- Who may carry out an instruction: the first one if it is where the debugger has stopped, and any
other one if there is no reason to stop at it. -/
def Permitted (breakpoints : TreeSet UInt64) (spared : Option (ContextId × UInt64)) (index : Nat)
    (executed : Executed) (pc : UInt64) : Prop :=
  match index, spared with
  | 0, some place => place = (executed.id, pc)
  | _, _ => executed.RefusedAt breakpoints pc

/-- The instructions that a resume has carried out, and where they have led. -/
structure Logged (loaded : ContextId → Prop) (origin : Debugger)
    (spared : Option (ContextId × UInt64)) (state : Debugger × List Executed) : Prop where
  kinship : Kinship loaded state.1.hypervisor
  breakpoints : state.1.breakpoints = origin.breakpoints
  accounts : Accounts origin.hypervisor.machine state.2 state.1.hypervisor.machine
  due : ∀ executed ∈ state.2, Kinship loaded executed.before.hypervisor ∧
    ∃ pc, StandsAt executed.id pc executed.before.hypervisor
  permitted : ∀ index executed, state.2[index]? = some executed → ∀ pc,
    StandsAt executed.id pc executed.before.hypervisor →
      Permitted origin.breakpoints spared index executed pc

/-- No fault has parked anyone. -/
def Unfaulted (log : List Executed) : Prop :=
  ∀ executed ∈ log, ∀ fault pc, ¬executed.Parks fault pc

/-- A resume goes on, and the place that is to be passed over is behind. -/
structure Going (loaded : ContextId → Prop) (origin : Debugger)
    (spared : Option (ContextId × UInt64)) (state : Debugger × List Executed) : Prop extends
    Logged loaded origin spared state where
  nowhere : state.1.stoppedAt = none
  unfaulted : Unfaulted state.2
  entered : spared = none ∨ state.2 ≠ []

/-- A resume has stopped before an instruction. -/
structure Halted (loaded : ContextId → Prop) (origin : Debugger)
    (spared : Option (ContextId × UInt64)) (id : ContextId) (pc : UInt64)
    (state : Debugger × List Executed) : Prop extends Logged loaded origin spared state where
  place : state.1.stoppedAt = some (id, pc)
  stands : StandsAt id pc state.1.hypervisor
  unfaulted : Unfaulted state.2
  entered : spared = none ∨ state.2 ≠ []

/-- A resume has stopped after an instruction whose context a fault has parked. -/
structure Felled (loaded : ContextId → Prop) (origin : Debugger)
    (spared : Option (ContextId × UInt64)) (id : ContextId) (fault : Fault) (pc : UInt64)
    (state : Debugger × List Executed) : Prop extends Logged loaded origin spared state where
  nowhere : state.1.stoppedAt = none
  parked : ∃ earlier executed, state.2 = earlier ++ [executed] ∧ Unfaulted earlier ∧
    executed.id = id ∧ executed.Parks fault pc

/-- Why a resume has stopped. -/
def Stopped (loaded : ContextId → Prop) (origin : Debugger)
    (spared : Option (ContextId × UInt64)) :
    StopReason → Debugger × List Executed → Prop
  | .breakpoint id pc => Halted loaded origin spared id pc
  | .predicate id pc => Halted loaded origin spared id pc
  | .trapped id fault pc => Felled loaded origin spared id fault pc
  | .idle => Going loaded origin spared

/-- What a turn leaves of a resume. -/
def Turned (loaded : ContextId → Prop) (origin : Debugger) (spared : Option (ContextId × UInt64)) :
    TurnEnd → Debugger × List Executed → Prop
  | .stop reason => Stopped loaded origin spared reason
  | .over skip => fun state => skip = none ∧ Going loaded origin spared state

/-- What a resume leaves. -/
def Resumed (loaded : ContextId → Prop) (origin : Debugger)
    (spared : Option (ContextId × UInt64)) :
    Option StopReason → Debugger × List Executed → Prop
  | some reason => Stopped loaded origin spared reason
  | none => Going loaded origin spared

/-! ## Instructions -/

theorem onHypervisor_of_error {α : Type} {action : HypervisorAction α} {error : HostError}
    (run : action debugger.hypervisor = .error error after) :
    Debugger.onHypervisor action debugger = .error error (withHypervisor debugger after) := by
  unfold Debugger.onHypervisor
  dsimp only
  rw [run]
  rfl

theorem Logged.append (logged : Logged loaded origin spared (debugger, log))
    (stands : StandsAt executed.id pc debugger.hypervisor)
    (same : executed.before.hypervisor = debugger.hypervisor)
    (permitted : Permitted origin.breakpoints spared log.length executed pc) :
    Logged loaded origin spared
      (withHypervisor debugger (finalState (step executed.id debugger.hypervisor)),
        log ++ [executed]) := by
  have heir : Heir False debugger.hypervisor (finalState (step executed.id debugger.hypervisor)) :=
    heir_step logged.kinship
  have accounts : Accounts origin.hypervisor.machine (log ++ [executed])
      executed.left.machine := logged.accounts.append (congrArg machine same)
  rw [Executed.left, same] at accounts
  refine ⟨heir.kinship loaded logged.kinship, logged.breakpoints, accounts, ?_, ?_⟩
  · intro earlier member
    rcases List.mem_append.mp member with old | new
    · exact logged.due earlier old
    · obtain rfl := List.mem_singleton.mp new
      exact ⟨same ▸ logged.kinship, pc, same ▸ stands⟩
  · intro index entry found pc' stands'
    rcases Nat.lt_or_ge index log.length with old | new
    · rw [List.getElem?_append_left old] at found
      exact logged.permitted index entry found pc' stands'
    · rw [List.getElem?_append_right new, List.getElem?_singleton] at found
      split at found
      · rename_i last
        obtain rfl : index = log.length := Nat.le_antisymm (Nat.sub_eq_zero_iff_le.mp last) new
        cases found
        have again : StandsAt executed.id pc' debugger.hypervisor := same ▸ stands'
        rwa [stands.unique again]
      · cases found

/-- An instruction that has parked nobody is put down, and the resume goes on. -/
theorem Logged.going (logged : Logged loaded origin spared (debugger, log ++ [executed]))
    (nowhere : debugger.stoppedAt = none) (unfaulted : Unfaulted log)
    (unparked : ∀ fault pc, ¬executed.Parks fault pc) :
    Going loaded origin spared (debugger, log ++ [executed]) := by
  refine ⟨logged, nowhere, fun earlier member => ?_, .inr (List.concat_ne_nil _ _)⟩
  rcases List.mem_append.mp member with old | new
  · exact unfaulted earlier old
  · obtain rfl := List.mem_singleton.mp new
    exact unparked

/-- What becomes of a resume when the debugger looks at the context that it has stepped. -/
theorem halts_look (logged : Logged loaded origin spared (debugger, log ++ [executed]))
    (nowhere : debugger.stoppedAt = none) (unfaulted : Unfaulted log)
    (left : executed.left = debugger.hypervisor)
    (again : ∀ context, debugger.hypervisor.machine.context? executed.id = some context →
      context.state = .ready → ∃ pc, StandsAt executed.id pc debugger.hypervisor)
    {later : WatchedAction TurnEnd}
    (rest : ∀ state pc, Going loaded origin spared state →
      StandsAt executed.id pc state.1.hypervisor →
        Halts (fun _ => Going loaded origin spared) (Turned loaded origin spared) (later state)) :
    Halts (fun _ => Going loaded origin spared) (Turned loaded origin spared) ((do
      match ← unseen (Debugger.stateOf? executed.id) with
      | some .ready => later
      | some (.trapped fault pc) => return .stop (.trapped executed.id fault pc)
      | _ => return .over none) (debugger, log ++ [executed])) := by
  have going := logged.going nowhere unfaulted
  have kinship := logged.kinship
  rw [bind_of_ok (unseen_of_ok (stateOf?_apply executed.id _))]
  cases found : debugger.hypervisor.machine.context? executed.id with
  | none =>
      have unparked (fault : Fault) (pc : UInt64) : ¬executed.Parks fault pc := by
        rintro ⟨context, there, -⟩
        rw [left] at there
        cases found.symm.trans there
      rw [Option.map_none, ite_self]
      exact ⟨rfl, going unparked⟩
  | some context =>
      have owned : debugger.hypervisor.own.owned.contains executed.id = true :=
        TreeSet.mem_iff_contains.mp
          ((kinship.owned executed.id).mpr ⟨_, kin_of_context? kinship.uniform found⟩)
      have parks (fault : Fault) (pc : UInt64) (parked : executed.Parks fault pc) :
          context.state = .trapped fault pc := by
        obtain ⟨context', there, parked⟩ := parked
        rw [left] at there
        cases found.symm.trans there
        exact parked
      rw [if_pos owned, Option.map_some]
      cases state : context.state with
      | ready =>
          obtain ⟨pc, stands⟩ := again context found state
          refine rest _ pc (going fun fault pc parked => ?_) stands
          cases state.symm.trans (parks fault pc parked)
      | trapped fault pc =>
          refine ⟨logged, nowhere, log, executed, rfl, unfaulted, rfl, context, ?_, state⟩
          rw [left]
          exact found
      | running | blocked | exited =>
          refine ⟨rfl, going fun fault pc parked => ?_⟩
          cases state.symm.trans (parks fault pc parked)

/-- **An instruction is put down, and the resume goes on** if its context is ready. -/
theorem halts_instruct (logged : Logged loaded origin spared (debugger, log))
    (nowhere : debugger.stoppedAt = none) (unfaulted : Unfaulted log)
    (stands : StandsAt executed.id pc debugger.hypervisor)
    (same : executed.before.hypervisor = debugger.hypervisor)
    (permitted : Permitted origin.breakpoints spared log.length executed pc)
    {later : WatchedAction TurnEnd}
    (rest : ∀ state pc, Going loaded origin spared state →
      StandsAt executed.id pc state.1.hypervisor →
        Halts (fun _ => Going loaded origin spared) (Turned loaded origin spared) (later state)) :
    Halts (fun _ => Going loaded origin spared) (Turned loaded origin spared)
      (Watched.instruct executed none later (debugger, log)) := by
  obtain ⟨context, runnable, -⟩ := stands.stands
  have aftermath := aftermath_step logged.kinship runnable stands.front
  have logged' := logged.append stands same permitted
  have left : executed.left = finalState (step executed.id debugger.hypervisor) := by
    rw [Executed.left, same]
  show Halts _ _ ((do
    let _ ← Watched.unseen (Debugger.onHypervisor (step executed.id))
    match ← Watched.unseen (Debugger.stateOf? executed.id) with
    | some .ready => later
    | some (.trapped fault pc) => return .stop (.trapped executed.id fault pc)
    | _ => return .over none) (debugger, log ++ [executed]))
  cases stepped : step executed.id debugger.hypervisor with
  | error error after =>
      rw [stepped] at aftermath left logged'
      rw [bind_of_error (unseen_of_error (onHypervisor_of_error stepped))]
      refine logged'.going nowhere unfaulted ?_
      rintro fault pc' ⟨found, there, parked⟩
      rw [left] at there
      exact aftermath _ (kin_of_context? logged'.kinship.uniform there) fault pc' parked
  | ok answer after =>
      have again (found : Context) := @StandsAt.again _ after executed.id found loaded pc stands
        logged.kinship answer stepped
      rw [stepped] at left logged'
      rw [bind_of_ok (unseen_of_ok (onHypervisor_of_ok stepped))]
      exact halts_look logged' nowhere unfaulted left
        (fun found there ready => ⟨_, again found there ready⟩) rest

/-! ## Turns -/

/-- What a debugger finds before an instruction: no reason to stop, or one, and then it keeps the
place in mind. -/
theorem halts_reasonBefore (debugger : Debugger) (id : ContextId) (pc : UInt64) :
    Halts Never (fun reason after => match reason with
      | none => (∃ condition, after = { debugger with condition }) ∧
          Executed.RefusedAt debugger.breakpoints ⟨debugger, id⟩ pc
      | some reason => (reason = .breakpoint id pc ∨ reason = .predicate id pc) ∧
          ∃ condition, after = { debugger with condition, stoppedAt := some (id, pc) })
      (Debugger.reasonBefore id pc debugger) := by
  obtain ⟨hypervisor, breakpoints, condition, stoppedAt⟩ := debugger
  show Halts _ _ ((if breakpoints.contains pc = true then _ else _ :
    DebuggerAction (Option StopReason)) _)
  cases set : breakpoints.contains pc with
  | true => exact ⟨.inl rfl, condition, rfl⟩
  | false =>
      cases condition with
      | none => exact ⟨⟨none, rfl⟩, set, nofun⟩
      | some condition =>
          have asked : Debugger.askCondition id pc
              ⟨hypervisor, breakpoints, some condition, stoppedAt⟩ = .ok (condition.ask id pc).1
              ⟨hypervisor, breakpoints, some (condition.ask id pc).2, stoppedAt⟩ := rfl
          rw [if_neg Bool.false_ne_true, bind_of_ok asked]
          cases accepts : (condition.ask id pc).1 with
          | true => exact ⟨.inr rfl, _, rfl⟩
          | false =>
              refine ⟨⟨_, rfl⟩, set, ?_⟩
              rintro _ ⟨⟩
              exact accepts

/-- Nothing of the record has changed but the condition. -/
theorem Logged.of_condition (logged : Logged loaded origin spared (debugger, log))
    (condition : Option Condition) (stoppedAt : Option (ContextId × UInt64)) :
    Logged loaded origin spared ({ debugger with condition, stoppedAt }, log) :=
  ⟨logged.kinship, logged.breakpoints, logged.accounts, logged.due, logged.permitted⟩

/-- Once the place that is to be passed over is behind, instructions may be carried out that are
refused. -/
theorem permitted_of_refused {breakpoints : TreeSet UInt64} (entered : spared = none ∨ log ≠ [])
    (refused : executed.RefusedAt breakpoints pc) :
    Permitted breakpoints spared log.length executed pc := by
  cases log with
  | nil =>
      obtain rfl := entered.resolve_right fun some => some rfl
      exact refused
  | cons earlier rest => exact refused

/-- How the turn of a context begins that stands at an instruction. -/
theorem turn_of_standsAt (stands : StandsAt id pc debugger.hypervisor) (steps : Nat)
    (skip : Option (ContextId × UInt64)) :
    Watched.turn id (steps + 1) skip (debugger, log) =
      (if skip == some (id, pc) then
          Watched.instruct ⟨debugger, id⟩ none (Watched.turn id steps none)
        else do
          match ← unseen (Debugger.reasonBefore id pc) with
          | some reason => return .stop reason
          | none => Watched.instruct ⟨debugger, id⟩ skip (Watched.turn id steps skip))
        (debugger, log) := by
  have looked : unseen (Debugger.onHypervisor (pcOf id)) (debugger, log) = .ok pc (debugger, log) :=
    unseen_of_ok (onHypervisor_of_ok stands.pcOf)
  exact bind_of_ok looked _

/-- **A turn stops before breakpoints and accepted instructions**; by induction on the instructions
that are left. -/
theorem halts_turn (steps : Nat) (going : Going loaded origin spared state)
    (stands : StandsAt id pc state.1.hypervisor) :
    Halts (fun _ => Going loaded origin spared) (Turned loaded origin spared)
      (Watched.turn id steps none state) := by
  induction steps generalizing state pc with
  | zero => exact ⟨rfl, going⟩
  | succ steps ih =>
      obtain ⟨debugger, log⟩ := state
      rw [turn_of_standsAt stands, if_neg (by simp)]
      have asked := halts_reasonBefore debugger id pc
      cases answer : Debugger.reasonBefore id pc debugger with
      | error error after =>
          rw [answer] at asked
          exact asked.elim
      | ok reason after =>
          rw [answer] at asked
          rw [bind_of_ok (unseen_of_ok answer)]
          cases reason with
          | none =>
              obtain ⟨⟨condition, rfl⟩, refused⟩ := asked
              rw [show debugger.breakpoints = origin.breakpoints from going.breakpoints] at refused
              exact halts_instruct (going.toLogged.of_condition condition debugger.stoppedAt)
                going.nowhere going.unfaulted stands rfl
                (permitted_of_refused going.entered refused) fun _ _ => ih
          | some reason =>
              obtain ⟨why, condition, rfl⟩ := asked
              have halted : Halted loaded origin spared id pc
                  ({ debugger with condition, stoppedAt := some (id, pc) }, log) :=
                ⟨going.toLogged.of_condition _ _, rfl, stands, going.unfaulted, going.entered⟩
              rcases why with rfl | rfl
              · exact halted
              · exact halted

/-! ## Rounds -/

theorem Going.withReady (going : Going loaded origin spared (debugger, log))
    (ready : List ContextId) :
    Going loaded origin spared
      (withHypervisor debugger (debugger.hypervisor.withReady ready), log) where
  kinship := going.kinship.congr going.kinship.uniform (fun _ => rfl) le_rfl rfl rfl
  breakpoints := going.breakpoints
  accounts := going.accounts
  due := going.due
  permitted := going.permitted
  nowhere := going.nowhere
  unfaulted := going.unfaulted
  entered := going.entered

/-- After a turn there is a reason to stop, or the next round. -/
theorem round_of_turn {rounds : Nat} {turn : WatchedAction TurnEnd}
    (turns : Halts (fun _ => Going loaded origin spared) (Turned loaded origin spared) (turn state))
    (rest : ∀ {state}, Going loaded origin spared state →
      Halts (fun _ => Going loaded origin spared) (Resumed loaded origin spared)
        (Watched.resumeFrom rounds none state)) :
    Halts (fun _ => Going loaded origin spared) (Resumed loaded origin spared) ((do
      match ← turn with
      | .stop reason => return some reason
      | .over skip =>
          unseen (Debugger.onHypervisor (requeue id))
          Watched.resumeFrom rounds skip) state) := by
  apply turns.bind
  rintro ended ⟨debugger, log⟩ told
  rcases ended with reason | skip
  · exact told
  · obtain ⟨rfl, going⟩ := told
    have moved := @unseen_of_ok _ _ _ log _ _
      (onHypervisor_of_ok (requeue_apply id debugger.hypervisor))
    show Halts _ _ ((do
      unseen (Debugger.onHypervisor (requeue id))
      Watched.resumeFrom rounds none) (debugger, log))
    rw [bind_of_ok moved]
    exact rest (going.withReady _)

/-- **Round after round**, a resume stops before breakpoints and accepted instructions. -/
theorem halts_resumeFrom (rounds : Nat) (going : Going loaded origin spared state) :
    Halts (fun _ => Going loaded origin spared) (Resumed loaded origin spared)
      (Watched.resumeFrom rounds none state) := by
  induction rounds generalizing state with
  | zero => exact going
  | succ rounds ih =>
      obtain ⟨debugger, log⟩ := state
      have looked := @unseen_of_ok _ _ _ log _ _
        (onHypervisor_of_ok (nextReady_apply debugger.hypervisor))
      rw [Watched.resumeFrom, bind_of_ok looked]
      generalize dropped : debugger.hypervisor.own.ready.dropWhile
        (fun id => !canRun debugger.hypervisor.machine id) = front
      have going' := going.withReady front
      cases first : front.head? with
      | none => exact going'
      | some id =>
          have turns : Halts (fun _ => Going loaded origin spared) (Turned loaded origin spared)
              (Watched.turn id debugger.hypervisor.own.quantum none
                (withHypervisor debugger (debugger.hypervisor.withReady front), log)) := by
            cases quantum : debugger.hypervisor.own.quantum with
            | zero => exact ⟨rfl, going'⟩
            | succ steps =>
                obtain ⟨pc, stands⟩ := StandsAt.of_front going.kinship
                  (quantum ▸ Nat.succ_pos steps) dropped first
                exact halts_turn _ going' stands
          exact round_of_turn turns ih

/-! ## Resumes -/

/-- The families of the contexts agree, and who has been stopped at an instruction stands there. -/
structure Poised (loaded : ContextId → Prop) (stop : Option (ContextId × UInt64))
    (hypervisor : Hypervisor) : Prop where
  kinship : Kinship loaded hypervisor
  place : ∀ id pc, stop = some (id, pc) → StandsAt id pc hypervisor

/-- The place that a resume of so many rounds passes over. -/
def passedOver (debugger : Debugger) : Nat → Option (ContextId × UInt64)
  | 0 => none
  | _ + 1 => debugger.stoppedAt

theorem Poised.start (poised : Poised loaded debugger.stoppedAt debugger.hypervisor)
    (spared : Option (ContextId × UInt64)) :
    Logged loaded debugger spared ({ debugger with stoppedAt := none }, []) where
  kinship := poised.kinship
  breakpoints := rfl
  accounts := rfl
  due _ member := absurd member List.not_mem_nil
  permitted _ _ found := nomatch List.getElem?_nil.symm.trans found

/-- **A resume passes over the place where the debugger has stopped**, and stops at every other
instruction at which there is a reason to. -/
theorem halts_resume (poised : Poised loaded debugger.stoppedAt debugger.hypervisor)
    (rounds : Nat) :
    Halts (fun _ => Going loaded debugger (passedOver debugger rounds))
      (Resumed loaded debugger (passedOver debugger rounds))
      (Watched.resume rounds (debugger, [])) := by
  have start := poised.start
  have unfaulted : Unfaulted [] := fun _ member => absurd member List.not_mem_nil
  show Halts _ _ (Watched.resumeFrom rounds debugger.stoppedAt
    ({ debugger with stoppedAt := none }, []))
  cases rounds with
  | zero => exact ⟨start none, rfl, unfaulted, .inl rfl⟩
  | succ rounds =>
      cases place : debugger.stoppedAt with
      | none =>
          rw [passedOver, place]
          exact halts_resumeFrom _ ⟨start none, rfl, unfaulted, .inl rfl⟩
      | some place' =>
          obtain ⟨id, pc⟩ := place'
          have stands := poised.place id pc place
          obtain ⟨steps, quantum⟩ := Nat.exists_eq_succ_of_ne_zero stands.lasts.ne'
          let freed : Debugger := { debugger with stoppedAt := none }
          have first := @unseen_of_ok _ freed _ [] _ _ (onHypervisor_of_ok stands.nextReady)
          have turns : Halts (fun _ => Going loaded debugger (some (id, pc)))
              (Turned loaded debugger (some (id, pc)))
              (Watched.turn id debugger.hypervisor.own.quantum (some (id, pc)) (freed, [])) := by
            have stands' : StandsAt id pc freed.hypervisor := stands
            rw [quantum, turn_of_standsAt stands', if_pos (beq_self_eq_true _)]
            have permitted : Permitted debugger.breakpoints (some (id, pc)) 0 ⟨freed, id⟩ pc := rfl
            exact halts_instruct (start _) rfl unfaulted stands' rfl permitted
              fun _ _ going stands => halts_turn steps going stands
          rw [passedOver, place, Watched.resumeFrom, bind_of_ok first]
          exact round_of_turn turns fun going => halts_resumeFrom rounds going

end NestedMachine.Watched

namespace NestedMachine.Hypervisor

open Watched

variable {loaded : ContextId → Prop} {debugger : Debugger} {stop : Option (ContextId × UInt64)}

/-! ## Sessions -/

/-- What can be asked of a debugger. -/
inductive DebuggerCall where
  | step (id : ContextId)
  | resume (rounds : Nat)
  | addBreakpoint (pc : UInt64)
  | removeBreakpoint (pc : UInt64)
  | setCondition (condition : Option Condition)
  | hartOf (id : ContextId)
  | listing (id : ContextId)
  | trapOf (id : ContextId)
  | terminate (id : ContextId)

namespace DebuggerCall

/-- Carry out a call; the answer is why it has stopped, if it is a resume that has. -/
def perform : DebuggerCall → DebuggerAction (Option StopReason)
  | .step id => do
      let _ ← Debugger.step id
      return none
  | .resume rounds => Debugger.resume rounds
  | .addBreakpoint pc => do
      Debugger.addBreakpoint pc
      return none
  | .removeBreakpoint pc => do
      let _ ← Debugger.removeBreakpoint pc
      return none
  | .setCondition condition => do
      Debugger.setCondition condition
      return none
  | .hartOf id => do
      let _ ← Debugger.hartOf id
      return none
  | .listing id => do
      let _ ← Debugger.listing id
      return none
  | .trapOf id => do
      let _ ← Debugger.trapOf id
      return none
  | .terminate id => do
      let _ ← Debugger.terminate id
      return none

/-- The stop that a call leaves: a resume leaves the one that it answers, if that is before an
instruction, and none otherwise; a step leaves none; and other calls leave the one before. -/
def leaves (call : DebuggerCall) (answer : Except HostError (Option StopReason))
    (stop : Option (ContextId × UInt64)) : Option (ContextId × UInt64) :=
  match call, answer with
  | .resume _, .ok (some (.breakpoint id pc)) => some (id, pc)
  | .resume _, .ok (some (.predicate id pc)) => some (id, pc)
  | .resume _, _ => none
  | .step _, _ => none
  | _, _ => stop

end DebuggerCall

/-- The stop that a session leaves: the last one that a resume has answered, unless there was a step
or another resume since. -/
def lastStop : List DebuggerCall → Debugger → Option (ContextId × UInt64) →
    Option (ContextId × UInt64)
  | [], _, stop => stop
  | call :: rest, debugger, stop =>
      let outcome := call.perform debugger
      lastStop rest (finalState outcome) (call.leaves (answerOf outcome) stop)

/-- A debugger that has stopped where it is said to have, with its contexts poised. -/
structure StoppedAt (loaded : ContextId → Prop) (stop : Option (ContextId × UInt64))
    (debugger : Debugger) : Prop extends Poised loaded stop debugger.hypervisor where
  stoppedAt : debugger.stoppedAt = stop

theorem keeps_onHypervisor {α : Type} {action : HypervisorAction α}
    (keeps : Keeps (Poised loaded stop) action) :
    Keeps (StoppedAt loaded stop) (Debugger.onHypervisor action) := by
  rintro ⟨hypervisor, breakpoints, condition, stoppedAt⟩ stopped
  have kept := keeps hypervisor stopped.toPoised
  unfold Debugger.onHypervisor
  dsimp only
  generalize action hypervisor = result at kept ⊢
  cases result with
  | ok answer after => exact ⟨kept, stopped.stoppedAt⟩
  | error error after => exact ⟨kept, stopped.stoppedAt⟩

theorem keeps_snapshot {holds : Hypervisor → Prop} (id : ContextId) : Keeps holds (snapshot id) :=
  (keeps_requireOwned id).bind fun _ => (keeps_contextOf id).bind fun _ => .pure _

/-- Looking into a memory leaves the debugger stopped where it is. -/
theorem keeps_looking {α : Type} (id : ContextId) {action : MemoryAction α}
    (careful : Memory.Careful action) : Keeps (Poised loaded stop) (guestMemory id action) := by
  refine (keeps_requireOwned id).bind fun _ origin poised => Halts.of_finalState ?_
  refine ⟨poised.kinship.of_hushed (hushed_onMemory poised.kinship.uniform id careful), ?_⟩
  exact fun other pc place => (poised.place other pc place).onMemory poised.kinship id careful

theorem keeps_listing (id : ContextId) : Keeps (StoppedAt loaded stop) (Debugger.listing id) := by
  refine (keeps_onHypervisor (keeps_pcOf id)).bind fun pc => ?_
  have careful := (Memory.Congruent.fetch pc.toNat).careful
  refine (keeps_onHypervisor (keeps_looking id careful)).bind fun found => ?_
  cases found with
  | ok word => exact .pure _
  | error fault => exact .pure _

theorem keeps_terminate (id : ContextId) :
    Keeps (StoppedAt loaded stop) (Debugger.terminate id) := by
  refine keeps_onHypervisor fun origin poised => Halts.of_finalState ?_
  refine ⟨poised.kinship.finalizeTrapped id, fun other pc place => ?_⟩
  exact (poised.place other pc place).finalizeTrapped poised.kinship id

theorem keeps_trapOf (id : ContextId) : Keeps (StoppedAt loaded stop) (Debugger.trapOf id) := by
  refine (keeps_onHypervisor (keeps_snapshot id)).bind fun found => ?_
  split
  · exact .pure _
  · exact .pure _

/-- What a resume leaves, as far as it concerns where the debugger has stopped. -/
theorem stoppedAt_resume (stopped : StoppedAt loaded debugger.stoppedAt debugger) (rounds : Nat) :
    StoppedAt loaded
      ((DebuggerCall.resume rounds).leaves (answerOf (Debugger.resume rounds debugger))
        debugger.stoppedAt)
      (finalState (Debugger.resume rounds debugger)) := by
  have resumed := halts_resume stopped.toPoised rounds
  obtain ⟨answer, left⟩ := resume_erased rounds debugger
  rw [answer, ← left]
  have nowhere {state : Debugger × List Executed} {spared : Option (ContextId × UInt64)}
      (logged : Logged loaded debugger spared state) (nowhere : state.1.stoppedAt = none) :
      StoppedAt loaded none state.1 := ⟨⟨logged.kinship, nofun⟩, nowhere⟩
  have halted {state : Debugger × List Executed} {spared : Option (ContextId × UInt64)}
      {id : ContextId} {pc : UInt64} (halted : Halted loaded debugger spared id pc state) :
      StoppedAt loaded (some (id, pc)) state.1 := by
    refine ⟨⟨halted.kinship, ?_⟩, halted.place⟩
    rintro _ _ ⟨⟩
    exact halted.stands
  generalize Watched.resume rounds (debugger, []) = result at resumed
  cases result with
  | error error state => exact nowhere resumed.toLogged resumed.nowhere
  | ok reason state =>
      cases reason with
      | none => exact nowhere resumed.toLogged resumed.nowhere
      | some reason =>
          cases reason with
          | breakpoint id pc => exact halted resumed
          | predicate id pc => exact halted resumed
          | trapped id fault pc => exact nowhere resumed.toLogged resumed.nowhere
          | idle => exact nowhere resumed.toLogged resumed.nowhere

/-- **Every call leaves the debugger stopped where its answers say.** -/
theorem stoppedAt_perform (stopped : StoppedAt loaded stop debugger) (call : DebuggerCall) :
    StoppedAt loaded (call.leaves (answerOf (call.perform debugger)) stop)
      (finalState (call.perform debugger)) := by
  obtain rfl := stopped.stoppedAt
  have looks {α : Type} {action : DebuggerAction α}
      (keeps : Keeps (StoppedAt loaded debugger.stoppedAt) action) :
      StoppedAt loaded debugger.stoppedAt
        (finalState ((do
          let _ ← action
          return none : DebuggerAction (Option StopReason)) debugger)) :=
    (keeps.bind fun _ => .pure none).finalState stopped
  cases call with
  | step id =>
      have steps : Keeps (StoppedAt loaded none) (Debugger.onHypervisor (Hypervisor.step id)) := by
        refine keeps_onHypervisor fun origin poised => Halts.of_finalState ⟨?_, nofun⟩
        exact (heir_step poised.kinship : Heir False _ _).kinship loaded poised.kinship
      have freed : StoppedAt loaded none { debugger with stoppedAt := none } :=
        ⟨⟨stopped.kinship, nofun⟩, rfl⟩
      exact (steps.bind fun _ => .pure (none : Option StopReason)).finalState freed
  | resume rounds => exact stoppedAt_resume stopped rounds
  | addBreakpoint pc => exact ⟨stopped.toPoised, rfl⟩
  | removeBreakpoint pc => exact ⟨stopped.toPoised, rfl⟩
  | setCondition condition => exact ⟨stopped.toPoised, rfl⟩
  | hartOf id =>
      exact looks ((keeps_onHypervisor (keeps_snapshot id)).bind fun _ => .pure _)
  | listing id => exact looks (keeps_listing id)
  | trapOf id => exact looks (keeps_trapOf id)
  | terminate id => exact looks (keeps_terminate id)

theorem stoppedAt_session (stopped : StoppedAt loaded stop debugger) (calls : List DebuggerCall) :
    StoppedAt loaded (lastStop calls debugger stop)
      (stateAfter DebuggerCall.perform calls debugger) := by
  induction calls generalizing debugger stop with
  | nil => exact stopped
  | cons call rest ih => exact ih (stoppedAt_perform stopped call)

/-- A debugger of a stack on which operations have been carried out has not stopped yet. -/
theorem stoppedAt_attach {configuration : Configuration} {host : Host} {journal : Journal}
    {level : Nat} {start : Hypervisor} (built : nested configuration host journal level = .ok start)
    (operations : List Operation) :
    StoppedAt (loadedBy operations start) none
      (Debugger.attach (stateAfter Operation.perform operations start)) := by
  have kinship := kinship_stateAfter built operations
  exact ⟨⟨kinship.congr kinship.uniform (fun _ => rfl) le_rfl rfl rfl, nofun⟩, rfl⟩

/-! ## What a resume carries out -/

theorem StandsAt.at {executed : Executed} {pc : UInt64}
    (stands : StandsAt executed.id pc executed.before.hypervisor) : executed.At pc := by
  obtain ⟨context, runnable, rfl⟩ := stands.stands
  exact ⟨context, runnable.found, runnable.ready, rfl⟩

/-- What is known of a resume from the instructions that it has carried out, if the debugger has
stopped at some place before. -/
structure Account (debugger : Debugger) (stop : Option (ContextId × UInt64)) (rounds : Nat) :
    Prop where
  /-- Nothing else has been carried out. -/
  accounts : Accounts debugger.hypervisor.machine (executed rounds debugger)
    (finalState (Debugger.resume rounds debugger)).hypervisor.machine
  /-- There was no reason to stop, except at the place where the debugger had stopped. -/
  refused : ∀ index first, (executed rounds debugger)[index]? = some first → ∃ pc, first.At pc ∧
    (first.RefusedAt debugger.breakpoints pc ∨ index = 0 ∧ stop = some (first.id, pc))
  /-- Who is stopped before an instruction stands ready at it. -/
  halted : ∀ id pc,
    answerOf (Debugger.resume rounds debugger) = .ok (some (.breakpoint id pc)) ∨
      answerOf (Debugger.resume rounds debugger) = .ok (some (.predicate id pc)) →
    id ∈ (finalState (Debugger.resume rounds debugger)).hypervisor.own.owned ∧
      ∃ context, (finalState (Debugger.resume rounds debugger)).hypervisor.machine.context? id =
          some context ∧
        context.state = .ready ∧ context.hart.pc = pc
  /-- The instruction at which the debugger had stopped comes first. -/
  continues : ∀ id pc, stop = some (id, pc) → 0 < rounds →
    ∃ first, (executed rounds debugger).head? = some first ∧ first.id = id ∧ first.At pc
  /-- The debugger stops after whoever has just been parked by a fault. -/
  trapped : ∀ id fault pc,
    answerOf (Debugger.resume rounds debugger) = .ok (some (.trapped id fault pc)) ↔
      ∃ last, (executed rounds debugger).getLast? = some last ∧ last.id = id ∧
        last.Parks fault pc
  /-- Nobody has been parked before. -/
  last : Unfaulted (executed rounds debugger).dropLast
  /-- Whoever is parked stands where it stood, and the fault says so. -/
  unmoved : ∀ parked ∈ executed rounds debugger, ∀ fault pc, parked.Parks fault pc →
    parked.At pc ∧ ∃ context later,
      parked.before.hypervisor.machine.context? parked.id = some context ∧
      parked.left.machine.context? parked.id = some later ∧ later.hart = context.hart

section Account

variable {origin : Debugger} {spared : Option (ContextId × UInt64)}
  {result : EStateM.Result HostError (Debugger × List Executed) (Option StopReason)}
  (resumed : Halts (fun _ => Going loaded origin spared) (Resumed loaded origin spared) result)
include resumed

theorem logged_of_resumed : Logged loaded origin spared (finalState result) ∧
    (spared = none ∨ (finalState result).2 ≠ []) := by
  cases result with
  | error error state => exact ⟨resumed.toLogged, resumed.entered⟩
  | ok reason state =>
      cases reason with
      | none => exact ⟨resumed.toLogged, resumed.entered⟩
      | some reason =>
          cases reason with
          | breakpoint id pc => exact ⟨resumed.toLogged, resumed.entered⟩
          | predicate id pc => exact ⟨resumed.toLogged, resumed.entered⟩
          | idle => exact ⟨resumed.toLogged, resumed.entered⟩
          | trapped id fault pc =>
              obtain ⟨earlier, executed, log, -⟩ := resumed.parked
              refine ⟨resumed.toLogged, .inr ?_⟩
              show state.2 ≠ []
              rw [log]
              exact List.concat_ne_nil _ _

/-- Either nobody has been parked, and the resume does not answer so, or the last one has. -/
theorem parked_of_resumed :
    (Unfaulted (finalState result).2 ∧
        ∀ id fault pc, answerOf result ≠ .ok (some (.trapped id fault pc))) ∨
      ∃ earlier last fault pc, (finalState result).2 = earlier ++ [last] ∧ Unfaulted earlier ∧
        last.Parks fault pc ∧ answerOf result = .ok (some (.trapped last.id fault pc)) := by
  cases result with
  | error error state => exact .inl ⟨resumed.unfaulted, fun _ _ _ same => nomatch same⟩
  | ok reason state =>
      cases reason with
      | none => exact .inl ⟨resumed.unfaulted, fun _ _ _ same => nomatch same⟩
      | some reason =>
          cases reason with
          | breakpoint id pc => exact .inl ⟨resumed.unfaulted, fun _ _ _ same => nomatch same⟩
          | predicate id pc => exact .inl ⟨resumed.unfaulted, fun _ _ _ same => nomatch same⟩
          | idle => exact .inl ⟨resumed.unfaulted, fun _ _ _ same => nomatch same⟩
          | trapped id fault pc =>
              obtain ⟨earlier, last, log, unfaulted, rfl, parks⟩ := resumed.parked
              exact .inr ⟨earlier, last, fault, pc, log, unfaulted, parks, rfl⟩

/-- A resume that stops before an instruction has halted there. -/
theorem stands_of_resumed {id : ContextId} {pc : UInt64}
    (answers : answerOf result = .ok (some (.breakpoint id pc)) ∨
      answerOf result = .ok (some (.predicate id pc))) :
    StandsAt id pc (finalState result).1.hypervisor := by
  rcases answers with answers | answers
  all_goals
    rw [ok_of_answerOf answers] at resumed
    exact resumed.stands

end Account

theorem permitted_cases {breakpoints : Std.TreeSet UInt64} {spared : Option (ContextId × UInt64)}
    {index : Nat} {executed : Executed} {pc : UInt64}
    (permitted : Permitted breakpoints spared index executed pc) :
    executed.RefusedAt breakpoints pc ∨ index = 0 ∧ spared = some (executed.id, pc) := by
  cases index with
  | succ index => exact .inl permitted
  | zero =>
      cases spared with
      | none => exact .inl permitted
      | some place => exact .inr ⟨rfl, congrArg some permitted⟩

theorem stoppedAt_of_passedOver {rounds : Nat} {place : ContextId × UInt64}
    (passed : passedOver debugger rounds = some place) : debugger.stoppedAt = some place := by
  cases rounds with
  | zero => cases passed
  | succ rounds => exact passed

/-- A fault parks a context in one way only. -/
theorem Parks.unique {executed : Executed} {fault fault' : Fault} {pc pc' : UInt64}
    (parks : executed.Parks fault pc) (again : executed.Parks fault' pc') :
    fault = fault' ∧ pc = pc' := by
  obtain ⟨context, found, parked⟩ := parks
  obtain ⟨context', found', parked'⟩ := again
  obtain rfl := Option.some.inj (found.symm.trans found')
  exact ContextState.trapped.inj (parked.symm.trans parked')

/-- Whoever a fault parks has not moved. -/
theorem unmoved_of_parks {executed : Executed} {fault : Fault} {pc pc' : UInt64}
    (kinship : Kinship loaded executed.before.hypervisor)
    (stands : StandsAt executed.id pc' executed.before.hypervisor)
    (parks : executed.Parks fault pc) :
    executed.At pc ∧ ∃ context later,
      executed.before.hypervisor.machine.context? executed.id = some context ∧
      executed.left.machine.context? executed.id = some later ∧ later.hart = context.hart := by
  obtain ⟨context, runnable, -⟩ := stands.stands
  obtain ⟨later, found, parked⟩ := parks
  have aftermath := aftermath_step kinship runnable stands.front
  have kinship' : Kinship loaded executed.left :=
    (heir_step kinship : Heir False _ _).kinship loaded kinship
  have stays : later.hart = context.hart ∧ pc = context.hart.pc := by
    unfold Executed.left at found kinship'
    generalize Hypervisor.step executed.id executed.before.hypervisor = result at *
    cases result with
    | error error after =>
        exact absurd parked (aftermath _ (kin_of_context? kinship'.uniform found) fault pc)
    | ok answer after => exact aftermath.parked later fault pc found parked
  obtain ⟨stays, rfl⟩ := stays
  have at' : executed.At context.hart.pc := ⟨context, runnable.found, runnable.ready, rfl⟩
  exact ⟨at', context, later, runnable.found, found, stays⟩

/-- **A debugger that has stopped gives an account of what comes next.** -/
theorem StoppedAt.account (stopped : StoppedAt loaded stop debugger) (rounds : Nat) :
    Account debugger stop rounds := by
  obtain rfl := stopped.stoppedAt
  have resumed := halts_resume stopped.toPoised rounds
  obtain ⟨answers, left⟩ := resume_erased rounds debugger
  obtain ⟨logged, entered⟩ := logged_of_resumed resumed
  have told := parked_of_resumed resumed
  have due (entry : Executed) (member : entry ∈ executed rounds debugger) :=
    logged.due entry member
  refine ⟨?_, ?_, ?_, ?_, ?_, ?_, ?_⟩
  · rw [← left]
    exact logged.accounts
  · intro index first found
    obtain ⟨kinship, pc, stands⟩ := due first (List.mem_of_getElem? found)
    refine ⟨pc, stands.at, ?_⟩
    refine (permitted_cases (logged.permitted index first found pc stands)).imp_right ?_
    exact fun ⟨first, place⟩ => ⟨first, stoppedAt_of_passedOver place⟩
  · intro id pc stops
    rw [answers] at stops
    rw [← left]
    have stands := stands_of_resumed resumed stops
    obtain ⟨context, runnable, rfl⟩ := stands.stands
    refine ⟨Std.TreeSet.mem_iff_contains.mpr runnable.owned, context, runnable.found,
      runnable.ready, rfl⟩
  · intro id pc place positive
    obtain ⟨rounds, rfl⟩ := Nat.exists_eq_succ_of_ne_zero positive.ne'
    have nonempty := entered.resolve_left fun nowhere => nomatch place.symm.trans nowhere
    obtain ⟨first, rest, log⟩ := List.exists_cons_of_ne_nil nonempty
    replace log : executed (rounds + 1) debugger = first :: rest := log
    have found : (executed (rounds + 1) debugger)[0]? = some first := by rw [log]; rfl
    obtain ⟨kinship, pc', stands⟩ := due first (List.mem_of_getElem? found)
    have permitted := logged.permitted 0 first found pc' stands
    rw [passedOver, place] at permitted
    cases (permitted : (id, pc) = (first.id, pc'))
    exact ⟨first, by rw [log]; rfl, rfl, stands.at⟩
  · intro id fault pc
    rw [answers]
    rcases told with ⟨unfaulted, never⟩ | ⟨earlier, last, fault', pc', log, -, parks, answer⟩
    · refine iff_of_false (never id fault pc) ?_
      rintro ⟨last, found, -, parks⟩
      exact unfaulted last (List.mem_of_getLast? found) fault pc parks
    · replace log : executed rounds debugger = earlier ++ [last] := log
      rw [answer, log, List.getLast?_concat]
      constructor
      · rintro ⟨⟩
        exact ⟨last, rfl, rfl, parks⟩
      · rintro ⟨_, ⟨⟩, rfl, again⟩
        obtain ⟨rfl, rfl⟩ := Parks.unique parks again
        rfl
  · rcases told with ⟨unfaulted, -⟩ | ⟨earlier, last, fault', pc', log, unfaulted, -⟩
    · exact fun entry member => unfaulted entry (List.mem_of_mem_dropLast member)
    · replace log : executed rounds debugger = earlier ++ [last] := log
      rwa [log, List.dropLast_concat]
  · intro parked member fault pc parks
    obtain ⟨kinship, pc', stands⟩ := due parked member
    exact unmoved_of_parks kinship stands parks

/-- **A resume stops exactly where it should**, after any operations of the stack and any calls of
the debugger: it accounts for each instruction that it carries out. -/
theorem resume_accounts {configuration : Configuration} {host : Host} {journal : Journal}
    {level : Nat} {start : Hypervisor} (built : nested configuration host journal level = .ok start)
    (operations : List Operation) (calls : List DebuggerCall) (rounds : Nat) :
    let attached := Debugger.attach (stateAfter Operation.perform operations start)
    Account (stateAfter DebuggerCall.perform calls attached) (lastStop calls attached none)
      rounds :=
  (stoppedAt_session (stoppedAt_attach built operations) calls).account rounds

/-- Two contexts run the same program; the second one stops at a breakpoint that it shares with the
first, a look into it does not matter, and the next resume starts with it. -/
theorem second_of_two_continues :
    ∃ start, nested { Configuration.standard with frames := 24 } .null .silent 2 = .ok start ∧
      let attached := Debugger.attach
        (stateAfter Operation.perform [.load (twice 97) [], .load (twice 97) []] start)
      let calls : List DebuggerCall :=
        [.addBreakpoint 0x10004, .resume 9, .resume 9, .listing 2]
      lastStop calls attached none = some (2, 0x10004) ∧
      ∃ first, (executed 9 (stateAfter DebuggerCall.perform calls attached)).head? = some first ∧
        first.id = 2 ∧ first.At 0x10004 := by
  obtain ⟨start, built⟩ : ∃ start,
      nested { Configuration.standard with frames := 24 } .null .silent 2 = .ok start := ⟨_, rfl⟩
  refine ⟨start, built, ?_⟩
  intro attached calls
  have evaluated : (nested { Configuration.standard with frames := 24 } .null .silent 2).map
      (fun start => lastStop
        [.addBreakpoint 0x10004, .resume 9, .resume 9, .listing 2]
        (Debugger.attach
          (stateAfter Operation.perform [.load (twice 97) [], .load (twice 97) []] start)) none) =
      .ok (some (2, 0x10004)) := by
    decide +kernel
  rw [built] at evaluated
  have stopped : lastStop calls attached none = some (2, 0x10004) := Except.ok.inj evaluated
  refine ⟨stopped, ?_⟩
  exact (resume_accounts built [.load (twice 97) [], .load (twice 97) []] calls 9).continues 2
    0x10004 stopped (by decide)

end NestedMachine.Hypervisor
