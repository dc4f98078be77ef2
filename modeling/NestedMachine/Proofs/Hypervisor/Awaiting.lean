import NestedMachine.Proofs.Hypervisor.Liveness
import NestedMachine.Proofs.Hypervisor.States
import NestedMachine.Proofs.Hypervisor.Stepping
import NestedMachine.Proofs.Hypervisor.Unknowns

/-!
# What is said of a context that is waited for

A run that waits for the end of a context looks at it before each turn.  Until the context has
ended, or is parked, that is all that it does (`awaited`), and then it says how (`endOf?`).

What it can say depends on what the last turn has left (`Course.fate`).  A context that ends in its
own turn, or is killed in another one, keeps its record with the way it has ended, since its parent
may ask for it.  But an orphan is removed when it ends, in the same turn.  A run that waits for it
looks for it in vain, and fails because the context is unknown.  Nobody else is called unknown: in a
turn that fails because it does not know a context, the context has been removed
(`truthful_scheduleOnce`), and only orphans are.

So a run reports how a context has ended, whatever the others do meanwhile, if it is no orphan when
it ends (`run_reports`).
-/

namespace NestedMachine.Hypervisor

set_option autoImplicit false

variable {origin before middle after : Hypervisor} {loaded : ContextId → Prop}
  {id caller : ContextId} {context : Context} {status : ExitStatus}

/-! ## The fate of a context in a course -/

/-- While no context ends, the orphans among the live contexts are the same. -/
theorem Quiet.orphan_iff (quiet : Quiet caller origin after) (lives : origin.Live id) :
    id ∈ after.own.orphans ↔ id ∈ origin.own.orphans := by
  cases quiet with
  | hushed _ hushed => rw [hushed.orphans]
  | queued _ _ same => rw [same]
  | set _ _ _ _ altered => rw [altered.own]
  | begun _ _ _ same => rw [same]
  | @removed gone kin removed ended =>
      have different : gone ≠ id := by
        rintro rfl
        exact ended ((live_iff removed.there).mp lives)
      rw [removed.orphans, Std.TreeSet.mem_erase, Ne, compare_eq_iff_eq, and_iff_right different]

theorem Calm.orphan_iff (calm : Calm caller origin after) (lives : origin.Live id) :
    id ∈ after.own.orphans ↔ id ∈ origin.own.orphans := by
  induction calm with
  | refl => rfl
  | @tail middle _ before quiet ih => exact (quiet.orphan_iff (Calm.live before lives)).trans ih

/-- **What becomes of a live context in a course**: it is live still, or it has ended; then it is
there if it was no orphan, and gone if it was one. -/
theorem Course.fate (course : Course caller origin after) (kinship : Kinship loaded origin)
    (lives : origin.Live id) : after.Live id ∨
      (id ∉ origin.own.orphans ∧ ∃ kin, after.kin id = some kin ∧ kin.exitStatus ≠ none) ∨
      (id ∈ origin.own.orphans ∧ after.kin id = none) := by
  cases course with
  | calm calm => exact .inl (calm.live lives)
  | @ends middle last ended gone status before idle ends _ own rest =>
      by_cases here : ended = id
      · subst here
        have orphan := before.orphan_iff lives
        have left := ends.kin ended
        rw [if_pos rfl] at left
        have young := (before.kinship kinship).young ended gone ends.there
        have older : ended < last.machine.interpreter.nextId := young.trans_eq ends.nextId.symm
        by_cases parentless : ended ∈ middle.own.orphans
        · refine .inr (.inr ⟨orphan.mp parentless, ?_⟩)
          rw [if_pos parentless] at left
          cases found : after.kin ended with
          | none => rfl
          | some kin =>
              obtain ⟨_, there, _⟩ := rest.calm.stays older found
              cases left.symm.trans there
        · rw [if_neg parentless] at left
          obtain ⟨kin, found⟩ := rest.there ended _ left
          obtain ⟨_, there, same, _⟩ := rest.calm.stays older found
          obtain rfl := Option.some.inj (left.symm.trans there)
          refine .inr (.inl ⟨fun member => parentless (orphan.mpr member), kin, found, ?_⟩)
          rw [same]
          exact Option.some_ne_none status
      · exact .inl (rest.calm.live (ends.live here (before.live lives)))

/-! ## Contexts that are under way -/

/-- How a context has ended; if a fault has parked it, it is about to end by the fault. -/
def endOf? (hypervisor : Hypervisor) (id : ContextId) : Option ExitStatus :=
  (hypervisor.machine.context? id).bind fun context =>
    match context.exitStatus, context.state with
    | some status, _ => some status
    | none, .trapped fault pc => some (.faulted fault pc)
    | none, _ => none

/-- Whether a context is there and has not ended, nor is about to. -/
def underway (hypervisor : Hypervisor) (id : ContextId) : Bool :=
  (hypervisor.machine.context? id).isSome && (hypervisor.endOf? id).isNone

/-- The state after so many turns, if a context is under way before each of them. -/
def awaited (id : ContextId) : Nat → Hypervisor → Option Hypervisor
  | 0, hypervisor => some hypervisor
  | turns + 1, hypervisor =>
      if hypervisor.underway id then
        match scheduleOnce hypervisor with
        | .ok (some _) after => awaited id turns after
        | _ => none
      else none

theorem awaited_add (turns more : Nat) (origin : Hypervisor) :
    awaited id (turns + more) origin = (awaited id turns origin).bind (awaited id more) := by
  induction turns generalizing origin with
  | zero => rw [Nat.zero_add, awaited, Option.bind_some]
  | succ turns ih =>
      rw [Nat.succ_add, awaited, awaited]
      split
      · split
        · exact ih _
        · rfl
      · rfl

/-- The last of some turns. -/
theorem awaited_succ {turns : Nat} : awaited id (turns + 1) origin = some after ↔
    ∃ before turn, awaited id turns origin = some before ∧ before.underway id = true ∧
      scheduleOnce before = .ok (some turn) after := by
  rw [awaited_add, Option.bind_eq_some_iff]
  constructor
  · rintro ⟨before, waited, last⟩
    rw [awaited] at last
    split at last
    · rename_i under
      split at last
      · rename_i turn middle taken
        obtain rfl := Option.some.inj last
        exact ⟨before, turn, waited, under, taken⟩
      · cases last
    · cases last
  · rintro ⟨before, turn, waited, under, taken⟩
    refine ⟨before, waited, ?_⟩
    rw [awaited, if_pos under, taken]
    rfl

/-! ## Looks at a context that is waited for -/

theorem underway_iff : origin.underway id = true ↔
    ∃ context, origin.machine.context? id = some context ∧ origin.endOf? id = none := by
  unfold underway
  cases origin.machine.context? id <;> simp

theorem endOf?_of_found (found : origin.machine.context? id = some context) :
    origin.endOf? id = match context.exitStatus, context.state with
      | some status, _ => some status
      | none, .trapped fault pc => some (.faulted fault pc)
      | none, _ => none := by
  rw [endOf?, found]
  rfl

/-- A context that is under way has not ended. -/
theorem unended_of_underway (under : origin.underway id = true) :
    ∃ context, origin.machine.context? id = some context ∧ context.exitStatus = none ∧
      ∀ fault pc, context.state ≠ .trapped fault pc := by
  obtain ⟨context, found, unended⟩ := underway_iff.mp under
  rw [endOf?_of_found found] at unended
  refine ⟨context, found, ?_⟩
  split at unended
  · cases unended
  · cases unended
  · rename_i none other
    exact ⟨none, fun fault pc same => other fault pc same⟩

/-- A look at a context that is under way is followed by a turn. -/
theorem awaitOnce_of_underway (under : origin.underway id = true) :
    ∃ pc, awaitOnce id origin = match scheduleOnce origin with
      | .ok (some _) after => .ok none after
      | .ok none after => .error (.schedulerInvariant id pc .nothingRunnable) after
      | .error error after => .error error after := by
  obtain ⟨context, found, unended, unparked⟩ := unended_of_underway under
  refine ⟨context.hart.pc, ?_⟩
  have looked : contextOf id origin = .ok context origin := by
    rw [contextOf_apply, found]
  rw [awaitOnce, bind_of_ok looked, unended]
  have turn : (do
      if (← scheduleOnce).isNone then
        throw (HostError.schedulerInvariant id context.hart.pc .nothingRunnable)
      return none : HypervisorAction (Option ExitStatus)) origin = match scheduleOnce origin with
        | .ok (some _) after => .ok none after
        | .ok none after => .error (.schedulerInvariant id context.hart.pc .nothingRunnable) after
        | .error error after => .error error after := by
    rw [bind_apply, EStateM.bind]
    generalize scheduleOnce origin = result
    cases result with
    | error error after => rfl
    | ok turn after => cases turn <;> rfl
  cases state : context.state with
  | trapped fault pc => exact absurd state (unparked fault pc)
  | _ => exact turn

theorem awaitOnce_of_missing (missing : origin.machine.context? id = none) :
    awaitOnce id origin = .error (.unknownContext id) origin := by
  have looked : contextOf id origin = .error (.unknownContext id) origin := by
    rw [contextOf_apply, missing]
  rw [awaitOnce, bind_of_error looked]

/-- **A look at a context that has ended, or is parked, tells how**; what is parked has ended
then. -/
theorem awaitOnce_of_end (kinship : Kinship loaded origin) (ends : origin.endOf? id = some status) :
    ∃ final, awaitOnce id origin = .ok (some status) final := by
  obtain ⟨context, found, told⟩ := Option.bind_eq_some_iff.mp ends
  have there := kin_of_context? kinship.uniform found
  have looked : contextOf id origin = .ok context origin := by
    rw [contextOf_apply, found]
  rw [awaitOnce, bind_of_ok looked]
  split at told
  · rename_i same
    obtain rfl := Option.some.inj told
    exact ⟨origin, by rw [same]; rfl⟩
  · rename_i fault pc unended parked
    obtain rfl := Option.some.inj told
    have mine : requireOwned id origin = .ok () origin := by
      rw [requireOwned_apply, if_pos]
      exact Std.TreeSet.mem_iff_contains.mp ((kinship.owned id).mpr ⟨_, there⟩)
    have ended := halts_terminate kinship there (.faulted fault pc)
    rw [unended, parked]
    dsimp only
    cases result : terminate id (.faulted fault pc) origin with
    | error error final =>
        rw [result] at ended
        exact ended.elim
    | ok _ final =>
        refine ⟨final, ?_⟩
        rw [finalizeTrapped, bind_apply, EStateM.bind, bind_of_ok mine, bind_of_ok looked, parked]
        dsimp only
        rw [bind_of_ok result]
        rfl
  · cases told

/-- Whoever is waited for is missing, has ended or is about to, or is under way. -/
theorem look_cases (hypervisor : Hypervisor) (id : ContextId) :
    hypervisor.machine.context? id = none ∨ (∃ status, hypervisor.endOf? id = some status) ∨
      hypervisor.underway id = true := by
  cases found : hypervisor.machine.context? id with
  | none => exact .inl rfl
  | some context =>
      cases ends : hypervisor.endOf? id with
      | some status => exact .inr (.inl ⟨status, rfl⟩)
      | none => exact .inr (.inr (underway_iff.mpr ⟨context, found, ends⟩))

/-- After a look that tells nothing, a context that is under way has taken a turn. -/
theorem underway_of_awaitOnce (kinship : Kinship loaded origin)
    (looked : awaitOnce id origin = .ok none after) :
    origin.underway id = true ∧ ∃ turn, scheduleOnce origin = .ok (some turn) after := by
  rcases look_cases origin id with missing | ⟨status, ends⟩ | under
  · cases (awaitOnce_of_missing missing).symm.trans looked
  · obtain ⟨final, told⟩ := awaitOnce_of_end kinship ends
    cases told.symm.trans looked
  · obtain ⟨pc, told⟩ := awaitOnce_of_underway under
    rw [looked] at told
    refine ⟨under, ?_⟩
    split at told
    · rename_i turn middle taken
      cases told
      exact ⟨turn, taken⟩
    · cases told
    · cases told

/-! ## Turns that are waited through -/

section Turns

variable {turns : Nat}

theorem kinship_of_awaited (kinship : Kinship loaded origin)
    (waited : awaited id turns origin = some after) : Kinship loaded after := by
  induction turns generalizing after with
  | zero =>
      obtain rfl := Option.some.inj waited
      exact kinship
  | succ turns ih =>
      obtain ⟨before, turn, earlier, _, taken⟩ := awaited_succ.mp waited
      have kinship' := ih earlier
      obtain ⟨_, course⟩ := (within_scheduleOnce kinship').finalState
      rw [taken] at course
      exact course.kinship kinship'

/-- As long as a context is under way, a run that waits for it takes turns. -/
theorem persist_awaited (waited : awaited id turns origin = some after) (more : Nat) :
    persist (awaitOnce id) (turns + more) origin = persist (awaitOnce id) more after := by
  induction turns generalizing after more with
  | zero =>
      obtain rfl := Option.some.inj waited
      rw [Nat.zero_add]
  | succ turns ih =>
      obtain ⟨before, turn, earlier, under, taken⟩ := awaited_succ.mp waited
      obtain ⟨pc, looked⟩ := awaitOnce_of_underway under
      rw [taken] at looked
      rw [Nat.add_right_comm, Nat.add_assoc, ih earlier, persist_of_none looked]

/-- A run that comes to something has looked at the context after some turns, and the look came to
it. -/
theorem awaited_of_persist (kinship : Kinship loaded origin)
    (stopped : answerOf (persist (awaitOnce id) turns origin) ≠ .ok none) :
    ∃ earlier before, awaited id earlier origin = some before ∧
      persist (awaitOnce id) turns origin = awaitOnce id before := by
  induction turns generalizing origin with
  | zero => exact absurd rfl stopped
  | succ turns ih =>
      cases result : awaitOnce id origin with
      | error error after => exact ⟨0, origin, rfl, (persist_of_error result _).trans result.symm⟩
      | ok told after =>
          cases told with
          | some status => exact ⟨0, origin, rfl, (persist_of_some result _).trans result.symm⟩
          | none =>
              obtain ⟨under, turn, taken⟩ := underway_of_awaitOnce kinship result
              have first : awaited id 1 origin = some after :=
                awaited_succ.mpr ⟨origin, turn, rfl, under, taken⟩
              rw [persist_of_none result] at stopped ⊢
              obtain ⟨earlier, before, waited, same⟩ :=
                ih (kinship_of_awaited kinship first) stopped
              refine ⟨1 + earlier, before, ?_, same⟩
              rw [awaited_add, first, Option.bind_some, waited]

end Turns

/-! ## What a turn leaves -/

/-- **What becomes of a context that is under way in a turn**, whether the turn fails or not. -/
theorem fate_of_underway (kinship : Kinship loaded origin) (under : origin.underway id = true)
    (turn : after = finalState (scheduleOnce origin)) :
    (∃ context, after.machine.context? id = some context ∧
      (context.exitStatus = none ∨ id ∉ origin.own.orphans)) ∨
    (id ∈ origin.own.orphans ∧ after.machine.context? id = none) := by
  obtain ⟨context, found, unended, _⟩ := unended_of_underway under
  obtain ⟨caller, course⟩ := (within_scheduleOnce kinship).finalState
  rw [← turn] at course
  have uniform := (course.kinship kinship).uniform
  have lives : origin.Live id := ⟨_, kin_of_context? kinship.uniform found, unended⟩
  rcases course.fate kinship lives with ⟨kin, known, unended⟩ | ⟨claimed, kin, known, _⟩ |
    ⟨orphan, gone⟩
  · obtain ⟨context, found, rfl⟩ := exists_context? uniform known
    exact .inl ⟨context, found, .inl unended⟩
  · obtain ⟨context, found, rfl⟩ := exists_context? uniform known
    exact .inl ⟨context, found, .inr claimed⟩
  · refine .inr ⟨orphan, ?_⟩
    cases found : after.machine.context? id with
    | none => rfl
    | some context => cases gone.symm.trans (kin_of_context? uniform found)

/-- A look that fails, fails because the context has been removed in the turn before, or as the turn
fails that follows it. -/
theorem error_of_awaitOnce {turns : Nat} {error : HostError} (kinship : Kinship loaded origin)
    (there : (origin.machine.context? id).isSome = true)
    (waited : awaited id turns origin = some before)
    (failed : awaitOnce id before = .error error after) :
    ∃ turns last, awaited id turns origin = some last ∧ last.underway id = true ∧
      after = finalState (scheduleOnce last) ∧
      (error = .unknownContext id ∧ after.machine.context? id = none ∨
        error ≠ .unknownContext id ∧ (scheduleOnce last = .error error after ∨
          scheduleOnce last = .ok none after ∧
            ∃ pc, error = .schedulerInvariant id pc .nothingRunnable)) := by
  have kinship' := kinship_of_awaited kinship waited
  rcases look_cases before id with missing | ⟨status, ends⟩ | under
  · cases (awaitOnce_of_missing missing).symm.trans failed
    cases turns with
    | zero =>
        obtain rfl := Option.some.inj waited
        rw [missing] at there
        cases there
    | succ turns =>
        obtain ⟨last, turn, earlier, under, taken⟩ := awaited_succ.mp waited
        exact ⟨turns, last, earlier, under, by rw [taken]; rfl, .inl ⟨rfl, missing⟩⟩
  · obtain ⟨final, told⟩ := awaitOnce_of_end kinship' ends
    cases told.symm.trans failed
  · obtain ⟨pc, told⟩ := awaitOnce_of_underway under
    rw [failed] at told
    refine ⟨turns, before, waited, under, ?_⟩
    have truthful := truthful_scheduleOnce before
    have course := (within_scheduleOnce kinship').finalState
    cases result : scheduleOnce before with
    | ok turn final =>
        rw [result] at told
        cases turn with
        | some turn => cases told
        | none =>
            cases told
            exact ⟨rfl, .inr ⟨nofun, .inr ⟨rfl, pc, rfl⟩⟩⟩
    | error failure final =>
        rw [result] at told truthful course
        cases told
        refine ⟨rfl, ?_⟩
        by_cases unknown : error = .unknownContext id
        · refine .inl ⟨unknown, ?_⟩
          obtain ⟨caller, course⟩ := course
          have kinship'' := course.kinship kinship'
          cases found : after.machine.context? id with
          | none => rfl
          | some context =>
              have known := kin_of_context? kinship''.uniform found
              obtain ⟨_, missing | ⟨foreign, _⟩⟩ := truthful id unknown
              · exact found.symm.trans missing
              · exact absurd ((kinship''.owned id).mpr ⟨_, known⟩) foreign
        · exact .inr ⟨unknown, .inl rfl⟩

/-- A look that tells an end tells that of the record. -/
theorem endOf?_of_awaitOnce (kinship : Kinship loaded origin)
    (told : answerOf (awaitOnce id origin) = .ok (some status)) :
    origin.endOf? id = some status := by
  rcases look_cases origin id with missing | ⟨status', ends⟩ | under
  · rw [awaitOnce_of_missing missing] at told
    cases told
  · obtain ⟨final, told'⟩ := awaitOnce_of_end kinship ends
    rw [told'] at told
    cases told
    exact ends
  · obtain ⟨pc, told'⟩ := awaitOnce_of_underway under
    rw [told'] at told
    split at told <;> cases told

/-- Orphans are the live contexts without a parent, apart from those that were loaded. -/
theorem Kinship.orphan_iff (kinship : Kinship loaded origin) (under : origin.underway id = true) :
    id ∈ origin.own.orphans ↔
      (origin.machine.context? id).bind Context.parent = none ∧ ¬loaded id := by
  obtain ⟨context, found, unended, _⟩ := unended_of_underway under
  have known := kin_of_context? kinship.uniform found
  rw [kinship.orphans id, known, found, Option.bind_some]
  constructor
  · rintro ⟨kin, same, _, parentless, forked⟩
    obtain rfl := Option.some.inj same
    exact ⟨parentless, forked⟩
  · rintro ⟨parentless, forked⟩
    exact ⟨context.kin, rfl, unended, parentless, forked⟩

/-- A turn leaves a context its record unless the context is an orphan. -/
theorem recorded_after_turn (kinship : Kinship loaded origin) (under : origin.underway id = true)
    (claimed : id ∉ origin.own.orphans) :
    ((finalState (scheduleOnce origin)).machine.context? id).isSome = true := by
  rcases fate_of_underway kinship under rfl with ⟨context, left, _⟩ | ⟨orphan, _⟩
  · rw [left]
    rfl
  · exact absurd orphan claimed

/-- An orphan has no record that tells an end. -/
theorem unrecorded_after_turn (kinship : Kinship loaded origin) (under : origin.underway id = true)
    (orphan : id ∈ origin.own.orphans) :
    ((finalState (scheduleOnce origin)).machine.context? id).bind Context.exitStatus = none := by
  rcases fate_of_underway kinship under rfl with ⟨context, left, unended | claimed⟩ | ⟨_, gone⟩
  · rw [left]
    exact unended
  · exact absurd orphan claimed
  · rw [gone]
    rfl

/-! ## Runs that wait for a context -/

section Runs

variable {turns rounds : Nat}

/-- The end that a record tells is answered. -/
theorem run_of_endOf? (kinship : Kinship loaded origin) (mine : id ∈ origin.own.owned)
    (waited : awaited id turns origin = some after) (ends : after.endOf? id = some status)
    (more : Nat) : answerOf (run (turns + more + 1) id origin) = .ok (some status) := by
  have owned := Std.TreeSet.mem_iff_contains.mp mine
  obtain ⟨final, told⟩ := awaitOnce_of_end (kinship_of_awaited kinship waited) ends
  rw [run_of_owned owned, Nat.add_assoc, persist_awaited waited, persist_of_some told]
  rfl

/-- Where there is no record any more, the context is unknown. -/
theorem run_of_missing (mine : id ∈ origin.own.owned) (waited : awaited id turns origin = some after)
    (missing : after.machine.context? id = none) (more : Nat) :
    run (turns + more + 1) id origin = .error (.unknownContext id) after := by
  have owned := Std.TreeSet.mem_iff_contains.mp mine
  rw [run_of_owned owned, Nat.add_assoc, persist_awaited waited,
    persist_of_error (awaitOnce_of_missing missing)]

/-- A run that does not go on waiting ends with a look after some of its turns. -/
theorem awaited_of_run (kinship : Kinship loaded origin) (mine : id ∈ origin.own.owned)
    (stopped : answerOf (run rounds id origin) ≠ .ok none) :
    ∃ turns before, awaited id turns origin = some before ∧
      run rounds id origin = awaitOnce id before := by
  rw [run_of_owned (Std.TreeSet.mem_iff_contains.mp mine)] at stopped ⊢
  exact awaited_of_persist kinship stopped

/-- An end that is answered is one that the record tells. -/
theorem endOf?_of_run (kinship : Kinship loaded origin) (mine : id ∈ origin.own.owned)
    (told : answerOf (run rounds id origin) = .ok (some status)) :
    ∃ turns after, awaited id turns origin = some after ∧ after.endOf? id = some status := by
  obtain ⟨turns, before, waited, same⟩ :=
    awaited_of_run kinship mine (show answerOf (run rounds id origin) ≠ _ by rw [told]; nofun)
  rw [same] at told
  exact ⟨turns, before, waited, endOf?_of_awaitOnce (kinship_of_awaited kinship waited) told⟩

/-- **Why a run fails**: the context was an orphan and has gone in the last turn, or that turn fails
for another reason, or nothing can run. -/
theorem cause_of_run {error : HostError} {final : Hypervisor} (kinship : Kinship loaded origin)
    (mine : id ∈ origin.own.owned) (failed : run rounds id origin = .error error final) :
    ∃ turns before, awaited id turns origin = some before ∧ before.underway id = true ∧
      final = finalState (scheduleOnce before) ∧
      (error = .unknownContext id ∧ id ∈ before.own.orphans ∧
          final.machine.context? id = none ∨
        error ≠ .unknownContext id ∧ (scheduleOnce before = .error error final ∨
          scheduleOnce before = .ok none final ∧
            ∃ pc, error = .schedulerInvariant id pc .nothingRunnable)) := by
  obtain ⟨kin, known⟩ := (kinship.owned id).mp mine
  obtain ⟨context, found, -⟩ := exists_context? kinship.uniform known
  have there : (origin.machine.context? id).isSome = true := by
    rw [found]
    rfl
  obtain ⟨turns, before, waited, same⟩ := awaited_of_run kinship mine (by rw [failed]; nofun)
  obtain ⟨turns, last, waited, under, left, cause⟩ :=
    error_of_awaitOnce kinship there waited (same.symm.trans failed)
  refine ⟨turns, last, waited, under, left, cause.imp_left ?_⟩
  rintro ⟨unknown, gone⟩
  rcases fate_of_underway (kinship_of_awaited kinship waited) under left with
    ⟨context, found, _⟩ | ⟨orphan, _⟩
  · cases gone.symm.trans found
  · exact ⟨unknown, orphan, gone⟩

end Runs

/-- **A run reports how a context has ended, whatever the others do meanwhile, unless the context is
an orphan when it ends.**  After any operations, let a run wait for a context that is owned.  A turn
leaves the context its record if it is no orphan, which is to say that it was loaded or its parent
lives; an orphan has no record once it has ended.  As soon as the record tells an end, the run
answers that end, and it never answers another one; if there is no record any more, it fails because
the context is unknown.  That error has no other cause: the run fails otherwise only as one of its
turns does, or because nothing can run. -/
theorem run_reports {configuration : Configuration} {host : Host} {journal : Journal} {level : Nat}
    {start : Hypervisor} (built : nested configuration host journal level = .ok start)
    (operations : List Operation) :
    let reached := stateAfter Operation.perform operations start
    ∀ id ∈ reached.own.owned,
      (∀ turns before, awaited id turns reached = some before → before.underway id = true →
        let after := finalState (scheduleOnce before)
        (id ∈ before.own.orphans ↔
          (before.machine.context? id).bind Context.parent = none ∧ ¬loadedBy operations start id) ∧
        (id ∉ before.own.orphans → (after.machine.context? id).isSome = true) ∧
        (id ∈ before.own.orphans → (after.machine.context? id).bind Context.exitStatus = none)) ∧
      (∀ turns after, awaited id turns reached = some after → ∀ more,
        (∀ status, after.endOf? id = some status →
          answerOf (run (turns + more + 1) id reached) = .ok (some status)) ∧
        (after.machine.context? id = none →
          run (turns + more + 1) id reached = .error (.unknownContext id) after)) ∧
      (∀ rounds status, answerOf (run rounds id reached) = .ok (some status) →
        ∃ turns after, awaited id turns reached = some after ∧ after.endOf? id = some status) ∧
      ∀ rounds error final, run rounds id reached = .error error final →
        ∃ turns before, awaited id turns reached = some before ∧ before.underway id = true ∧
          final = finalState (scheduleOnce before) ∧
          (error = .unknownContext id ∧ id ∈ before.own.orphans ∧
              final.machine.context? id = none ∨
            error ≠ .unknownContext id ∧ (scheduleOnce before = .error error final ∨
              scheduleOnce before = .ok none final ∧
                ∃ pc, error = .schedulerInvariant id pc .nothingRunnable)) := by
  intro reached id mine
  have kinship : Kinship (loadedBy operations start) reached := kinship_stateAfter built operations
  refine ⟨fun turns before waited under => ?_,
    fun turns after waited more => ⟨fun status ends => ?_, fun missing => ?_⟩,
    fun rounds status told => ?_, fun rounds error final failed => ?_⟩
  · have kinship' := kinship_of_awaited kinship waited
    exact ⟨kinship'.orphan_iff under, recorded_after_turn kinship' under,
      unrecorded_after_turn kinship' under⟩
  · exact run_of_endOf? kinship mine waited ends more
  · exact run_of_missing mine waited missing more
  · exact endOf?_of_run kinship mine told
  · exact cause_of_run kinship mine failed

/-- A child that ends while its parent lives is reported: the parent waits for it, and the child
yields first. -/
theorem child_of_waiting_parent_reported :
    ∃ start, nested { Configuration.standard with frames := 40 } .null .silent 2 = .ok start ∧
      let reached := stateAfter Operation.perform [.load forkAndWait [], .scheduleOnce] start
      2 ∈ reached.own.owned ∧ reached.endOf? 2 = none ∧
      ∀ more, answerOf (run (3 + more + 1) 2 reached) = .ok (some (.exited 0)) := by
  obtain ⟨start, built⟩ : ∃ start,
      nested { Configuration.standard with frames := 40 } .null .silent 2 = .ok start := ⟨_, rfl⟩
  refine ⟨start, built, ?_⟩
  intro reached
  have evaluated : (nested { Configuration.standard with frames := 40 } .null .silent 2).map
      (fun start =>
        let reached := stateAfter Operation.perform [.load forkAndWait [], .scheduleOnce] start
        (reached.own.owned.contains 2, reached.endOf? 2,
          (awaited 2 3 reached).map fun after => after.endOf? 2)) =
      .ok (true, none, some (some (.exited 0))) := by
    decide +kernel
  rw [built] at evaluated
  obtain ⟨owned, rest⟩ := Prod.mk.inj (Except.ok.inj evaluated)
  obtain ⟨unended, ended⟩ := Prod.mk.inj rest
  obtain ⟨after, waited, ends⟩ := Option.map_eq_some_iff.mp ended
  have mine : 2 ∈ reached.own.owned := Std.TreeSet.mem_iff_contains.mpr owned
  refine ⟨mine, unended, fun more => ?_⟩
  exact ((run_reports built [.load forkAndWait [], .scheduleOnce] 2 mine).2.1 3 after waited
    more).1 (.exited 0) ends

/-- A program that forks; the parent ends, and after that the child ends with another code. -/
def leaveChild : Image :=
  .ofWords ([.addi 17 0 220, .ecall, .beq 10 0 16, .addi 10 0 1, .addi 17 0 93, .ecall,
    .addi 17 0 124, .ecall, .addi 10 0 2, .addi 17 0 93, .ecall].map Instruction.encode) []

/-- The child is owned and has not ended, and in a run that waits for it both end; but its parent
has ended first, and the run fails because the child is unknown. -/
theorem orphan_unreported :
    ∃ start, nested { Configuration.standard with frames := 8 } .null .silent 1 = .ok start ∧
      let reached := stateAfter Operation.perform [.load leaveChild [], .scheduleOnce] start
      let after := finalState (run 4 2 reached)
      reached.own.owned.contains 2 = true ∧
      (reached.machine.context? 2).map Context.exitStatus = some none ∧
      reached.own.relay.counters.exits = 0 ∧ after.own.relay.counters.exits = 2 ∧
      answerOf (run 4 2 reached) = .error (.unknownContext 2) := by
  refine ⟨_, rfl, ?_⟩
  decide +kernel

end NestedMachine.Hypervisor
