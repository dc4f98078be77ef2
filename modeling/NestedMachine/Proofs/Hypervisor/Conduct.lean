import NestedMachine.Proofs.Hypervisor.Courses
import NestedMachine.Proofs.Hypervisor.Terminations

/-!
# Every operation is a course

A run of an action stays within a relation to where it began, also if it fails (`Within`).  Quiet
changes follow quiet changes, and at most one end of a context comes between them, so the parts of
an operation are put together by three rules (`Within.calm_bind`, `Within.bind_course`,
`Within.bind_still`).  What is carried along is that the context that is served is there, live and
not waiting.

A system call that blocks its caller has found children to wait for, all of them live, and nothing
has ended by then; a call that ends its caller or faults has ended nobody else before
(`within_dispatch`).  So a slice of a context is a course (`within_slice`), and likewise everything
else that is asked of a hypervisor.
-/

namespace NestedMachine.Hypervisor

set_option autoImplicit false

open Std (TreeSet)

variable {α β : Type} {origin middle after : Hypervisor} {loaded : ContextId → Prop}
  {id other parent child caller holder : ContextId} {gone kin : Kin} {status : ExitStatus}

/-! ## Runs within a relation -/

/-- A run stays within a relation to where it began, also if it fails, and answers as told. -/
def Within (relation : Hypervisor → Hypervisor → Prop) (told : α → Hypervisor → Prop)
    (action : HypervisorAction α) (origin : Hypervisor) : Prop :=
  Halts (fun _ after => relation origin after)
    (fun answer after => relation origin after ∧ told answer after) (action origin)

/-- Any answer, anywhere. -/
def Whatever (_ : α) (_ : Hypervisor) : Prop := True

namespace Within

variable {first whole : Hypervisor → Hypervisor → Prop} {told : α → Hypervisor → Prop}
  {final : β → Hypervisor → Prop} {action : HypervisorAction α} {next : α → HypervisorAction β}

theorem bind (run : Within first told action origin)
    (starts : ∀ after, first origin after → whole origin after)
    (then_ : ∀ answer middle, first origin middle → told answer middle →
      Within (fun _ => whole origin) final (next answer) middle) :
    Within whole final (action >>= next) origin := by
  apply Halts.bind (run.mono (fun _ _ given => given) fun _ after => starts after)
  exact fun answer middle given => then_ answer middle given.1 given.2

theorem mono {wanted : α → Hypervisor → Prop} (run : Within first told action origin)
    (weaker : ∀ after, first origin after → whole origin after)
    (weak : ∀ answer after, first origin after → told answer after → wanted answer after) :
    Within whole wanted action origin :=
  Halts.mono run
    (fun answer after given => ⟨weaker after given.1, weak answer after given.1 given.2⟩)
    fun _ after given => weaker after given

/-- Only the relation is another one. -/
theorem through (run : Within first told action origin)
    (weaker : ∀ after, first origin after → whole origin after) :
    Within whole told action origin :=
  run.mono weaker fun _ _ _ said => said

/-- Quiet changes follow quiet changes. -/
theorem calm_bind (run : Within (Calm caller) told action origin)
    (then_ : ∀ answer middle, Calm caller origin middle → told answer middle →
      Within (Calm caller) final (next answer) middle) :
    Within (Calm caller) final (action >>= next) origin :=
  run.bind (fun _ calm => calm) fun answer middle before said =>
    (then_ answer middle before said).through fun _ calm => before.trans calm

/-- A course follows quiet changes. -/
theorem bind_course (run : Within (Calm caller) told action origin)
    (then_ : ∀ answer middle, Calm caller origin middle → told answer middle →
      Within (Course caller) final (next answer) middle) :
    Within (Course caller) final (action >>= next) origin :=
  run.bind (fun _ calm => .calm calm) fun answer middle before said =>
    (then_ answer middle before said).through fun _ course => .after_calm before course

/-- Quiet changes in which nobody is removed follow a course. -/
theorem bind_still (run : Within (Course caller) told action origin)
    (then_ : ∀ answer middle, Course caller origin middle → told answer middle →
      Within (Still caller) final (next answer) middle) :
    Within (Course caller) final (action >>= next) origin :=
  run.bind (fun _ course => course) fun answer middle before said =>
    (then_ answer middle before said).through fun _ still => before.then_still still

/-- The answer may not matter. -/
theorem whatever (run : Within first told action origin)
    (weaker : ∀ after, first origin after → whole origin after) :
    Within whole Whatever action origin :=
  run.mono weaker fun _ _ _ _ => trivial

/-- An answer may be put in other words. -/
theorem answering (run : Within first told action origin) (answer : α → β) :
    Within first Whatever (action >>= fun given => pure (answer given)) origin :=
  run.bind (fun _ reached => reached) fun _ _ reached _ => ⟨reached, trivial⟩

/-- What is left, also if the run fails. -/
theorem finalState (run : Within first told action origin) :
    first origin (finalState (action origin)) := by
  unfold Within at run
  generalize action origin = result at run
  cases result with
  | ok answer after => exact run.1
  | error error after => exact run

/-- A context that is there may be looked at. -/
theorem contextOf_bind (uniform : origin.machine.Uniform) (there : origin.kin id = some kin)
    {next : Context → HypervisorAction β}
    (then_ : ∀ context, context.kin = kin → Within whole final (next context) origin) :
    Within whole final (contextOf id >>= next) origin := by
  obtain ⟨context, found, same⟩ := Option.map_eq_some_iff.mp there
  have looked : contextOf id origin = .ok context origin := by
    rw [contextOf_apply, uniform.context?, Interpreter.context?, found]
  unfold Within
  rw [bind_of_ok looked]
  exact then_ context same

/-- Whether a context is owned may be looked up; if it is, it is there. -/
theorem requireOwned_bind (kinship : Kinship loaded origin) {action : HypervisorAction β}
    (stays : whole origin origin)
    (then_ : ∀ kin, origin.kin id = some kin → Within whole final action origin) :
    Within whole final (requireOwned id >>= fun _ => action) origin := by
  unfold Within
  by_cases owned : origin.own.owned.contains id = true
  · obtain ⟨kin, there⟩ := (kinship.owned id).mp (TreeSet.mem_iff_contains.mpr owned)
    have passes : requireOwned id origin = .ok () origin := by
      rw [requireOwned_apply, if_pos owned]
    rw [bind_of_ok passes]
    exact then_ kin there
  · have fails : requireOwned id origin = .error (.unknownContext id) origin := by
      rw [requireOwned_apply, if_neg owned]
    rw [bind_apply, EStateM.bind, fails]
    exact stays

end Within

/-! ## The context that is served -/

theorem Serving.live (serving : origin.Serving id) : origin.Live id := by
  obtain ⟨kin, there, live, _⟩ := serving
  exact ⟨kin, there, live⟩

theorem Serving.idle (serving : origin.Serving id) (kin : Kin) (found : origin.kin id = some kin) :
    ¬Waiting kin.state := by
  obtain ⟨kin', there, _, idle⟩ := serving
  obtain rfl := Option.some.inj (there.symm.trans found)
  exact idle

theorem Serving.of_hushed (serving : origin.Serving id) (hushed : Hushed holder origin after) :
    after.Serving id := by
  obtain ⟨kin, there, given⟩ := serving
  exact ⟨kin, (hushed.kin id).trans there, given⟩

/-- What a discreet action does is quiet, and nobody is removed. -/
theorem Discreet.still {told : α → Prop} {action : HypervisorAction α}
    (discreet : Discreet holder told action) (uniform : origin.machine.Uniform)
    (live : origin.Live holder) :
    Within (Still caller) (fun answer after => Hushed holder origin after ∧ told answer) action
      origin := by
  apply (discreet origin uniform).mono
  · exact fun _ _ given => ⟨.of_hushed live given.1, given⟩
  · exact fun _ _ given => .of_hushed live given.1

/-- What a discreet action does is quiet. -/
theorem Discreet.within {told : α → Prop} {action : HypervisorAction α}
    (discreet : Discreet holder told action) (uniform : origin.machine.Uniform)
    (live : origin.Live holder) :
    Within (Calm caller) (fun answer after => Hushed holder origin after ∧ told answer) action
      origin :=
  (discreet.still uniform live).through fun _ still => still.calm

theorem not_waiting_of_ne {state : ContextState}
    (different : ∀ target, state ≠ .blocked (.wait target)) : ¬Waiting state := by
  rintro ⟨target, same⟩
  exact different target same

/-- The context that is served moves into a fit state. -/
theorem within_setState (uniform : origin.machine.Uniform) (found : origin.kin caller = some kin)
    (live : kin.exitStatus = none) (idle : ¬Waiting kin.state) {state : ContextState}
    (fit : Fit origin kin state) :
    Within (Calm caller)
      (fun _ after => after.kin caller = some { kin with state } ∧ after.own = origin.own)
      (setState caller state) origin := by
  apply (halts_setState uniform found state).certain
  rintro _ after ⟨altered, confined⟩
  refine ⟨.single (.set found live idle fit altered confined), ?_, altered.own⟩
  show after.kin caller = _
  rw [altered.kin, if_pos rfl, found]
  rfl

/-- The context that is served is made ready. -/
theorem within_makeReady (uniform : origin.machine.Uniform) (serving : origin.Serving caller) :
    Within (Still caller) (fun _ after => after.Rested caller) (makeReady caller) origin := by
  obtain ⟨kin, found, live, idle⟩ := serving
  apply (halts_makeReady uniform found).certain
  rintro _ _ ⟨middle, ready, altered, confined, rfl, _, stays⟩
  have fit : Fit origin kin .ready :=
    .of_idle (fun exited => nomatch exited) (not_waiting_of_ne fun _ same => nomatch same)
  refine ⟨⟨.tail (.single (.set found live idle fit altered confined)) ?_,
    fun other kin there => ?_⟩, fun kin there => ?_⟩
  · refine .queued rfl rfl rfl fun other _ _ _ _ place => ?_
    exact stays other (altered.own ▸ place)
  · show ∃ kin, middle.kin other = some kin
    rw [altered.kin, there]
    split <;> exact ⟨_, rfl⟩
  · obtain ⟨_, _, rfl⟩ := altered.of_found there
    rw [if_pos rfl]
    exact ⟨trivial, fun _ _ same => nomatch same⟩

/-- A context that is ready already is only queued. -/
theorem within_makeReady_of_ready (uniform : origin.machine.Uniform)
    (found : origin.kin id = some kin) (ready : kin.state = .ready) (live : kin.exitStatus = none) :
    Within (Calm caller) (fun _ after => ∀ other, after.kin other = origin.kin other) (makeReady id)
      origin := by
  apply (halts_makeReady uniform found).certain
  rintro _ _ ⟨middle, ready', altered, confined, rfl, _, stays⟩
  have same (other : ContextId) : middle.kin other = origin.kin other := by
    rw [altered.kin]
    split
    · rename_i here
      rw [← here, found, ← ready]
      rfl
    · rfl
  have hushed : Hushed id origin middle := by
    refine ⟨⟨altered.uniform, same, altered.nextId, ?_, ?_, ?_, ?_, ?_⟩, confined id⟩
    all_goals rw [altered.own]
  refine ⟨.tail (.single (.hushed ⟨kin, found, live⟩ hushed)) ?_, same⟩
  refine .queued rfl rfl rfl fun other _ _ _ _ place => ?_
  exact stays other (altered.own ▸ place)

/-! ## Ends -/

/-- What is left of a context that has ended is settled. -/
theorem Terminated.rested (ends : Terminated id gone status origin after) : after.Rested id := by
  intro kin found
  obtain ⟨_, rfl⟩ := ends.self found
  exact ⟨trivial, fun _ _ same => nomatch same⟩

/-- The context that is served ends. -/
theorem within_terminate (kinship : Kinship loaded origin) (serving : origin.Serving caller)
    (status : ExitStatus) :
    Within (Course caller) (fun _ after => after.Rested caller) (terminate caller status)
      origin := by
  obtain ⟨kin, there, live, _⟩ := id serving
  apply (halts_terminate kinship there status).certain
  exact fun _ _ ends => ⟨.ends .refl serving.idle ends live (.inl rfl) .refl, ends.rested⟩

theorem within_handleFault (kinship : Kinship loaded origin) (serving : origin.Serving caller)
    (fault : Fault) (pc : UInt64) :
    Within (Course caller) (fun _ after => after.Rested caller) (handleFault caller fault pc)
      origin := by
  apply ((discreet_count caller _).within kinship.uniform serving.live).bind_course
  rintro _ counted calm ⟨hushed, _⟩
  replace serving := serving.of_hushed hushed
  apply ((discreet_note caller _).within hushed.uniform serving.live).bind_course
  rintro _ noted calm' ⟨hushed', _⟩
  replace serving := serving.of_hushed hushed'
  have kinship' := Calm.kinship (calm.trans calm') kinship
  obtain ⟨kin, found, live, idle⟩ := id serving
  show Within (Course caller) (fun _ after => after.Rested caller)
    (if noted.own.debugTraps = true then _ else _) noted
  split
  · rename_i parks
    have fit : Fit noted kin (.trapped fault pc) :=
      .of_idle (fun exited => nomatch exited) (not_waiting_of_ne fun _ same => nomatch same)
    apply (within_setState kinship'.uniform found live idle fit).bind_course
    rintro _ trapped _ ⟨self, own⟩
    refine ⟨.calm (.single (.queued rfl rfl rfl fun other _ _ _ different place => ?_)), ?_⟩
    · exact List.mem_filter.mpr ⟨place, by simpa using different⟩
    · intro kin there
      obtain rfl := Option.some.inj (self.symm.trans there)
      exact ⟨trivial, fun _ _ _ => (congrArg Supervisor.debugTraps own).trans parks⟩
  · exact within_terminate kinship' serving _

/-- The end of another context leaves the one that is served. -/
theorem Terminated.serving (ends : Terminated id gone status origin after) (different : id ≠ other)
    (serving : origin.Serving other) : after.Serving other := by
  obtain ⟨kin, there, live, idle⟩ := serving
  obtain ⟨kin', found, lives⟩ := ends.live different ⟨kin, there, live⟩
  refine ⟨kin', found, lives, ?_⟩
  obtain ⟨before, there', _, _, _, state⟩ := ends.of_found different found
  obtain rfl := Option.some.inj (there.symm.trans there')
  rcases state with same | woken
  · exact same.1 ▸ idle
  · exact woken.1 ▸ not_waiting_of_ne fun _ same => nomatch same

/-- A live child of the parent ends, or nothing happens. -/
theorem halts_kill (kinship : Kinship loaded origin) (parent child : ContextId) :
    Halts Never (fun _ after => after = origin ∨ ∃ gone, gone.parent = some parent ∧
        gone.exitStatus = none ∧ Terminated child gone .killed origin after)
      (kill parent child origin) := by
  apply Halts.get_bind
  split
  · exact .inl rfl
  · rename_i owned
    rw [Bool.not_eq_true', Bool.not_eq_false] at owned
    obtain ⟨kin, there⟩ := (kinship.owned child).mp (TreeSet.mem_iff_contains.mpr owned)
    apply Halts.bind (halts_of_there there (halts_contextOf kinship.uniform child))
    rintro context _ ⟨rfl, found⟩
    split
    · exact .inl rfl
    · rename_i alive
      obtain ⟨link, lives⟩ := not_or.mp alive
      apply (halts_terminate kinship (congrArg (Option.map Context.kin) found) .killed).bind
      refine fun _ after ends => .inr ⟨_, not_not.mp link, ?_, ends⟩
      exact Option.not_isSome_iff_eq_none.mp lives

/-- A context that a fault has parked ends, or nothing happens. -/
theorem within_finalizeTrapped (kinship : Kinship loaded origin) (id : ContextId) :
    Within (fun origin after => after = origin ∨ ∃ gone fault pc, gone.state = .trapped fault pc ∧
        gone.exitStatus = none ∧ Terminated id gone (.faulted fault pc) origin after) Whatever
      (finalizeTrapped id) origin := by
  apply Within.requireOwned_bind kinship (.inl rfl)
  intro kin there
  apply Within.contextOf_bind kinship.uniform there
  rintro context rfl
  split
  · rename_i fault pc trapped
    have live : context.kin.exitStatus = none := by
      apply (kinship.exited id _ there).mpr
      rw [show context.kin.state = _ from trapped]
      exact fun exited => nomatch exited
    apply Halts.bind ((halts_terminate kinship there (.faulted fault pc)).certain
      fun _ _ ends => ends)
    exact fun _ _ ends => ⟨.inr ⟨context.kin, fault, pc, trapped, live, ends⟩, trivial⟩
  · exact .inl rfl

/-- A context that has ended may be removed. -/
theorem within_reap (kinship : Kinship loaded origin) (id : ContextId) :
    Within (Calm caller) (fun _ after => ∀ other, origin.Serving other → after.Serving other)
      (reap id) origin := by
  apply Within.requireOwned_bind kinship .refl
  intro kin there
  apply Within.contextOf_bind kinship.uniform there
  rintro context rfl
  by_cases ended : context.exitStatus.isSome = true
  · rw [if_pos ended]
    have dead : context.kin.exitStatus ≠ none := Option.isSome_iff_ne_none.mp ended
    have removes : Within (Calm caller)
        (fun _ after => ∀ other, origin.Serving other → after.Serving other)
        (discard id) origin := by
      apply (halts_discard kinship.uniform there).certain
      rintro _ _ ⟨middle, removed, confined, rfl⟩
      refine ⟨.tail (.single (.removed removed dead confined)) ?_, ?_⟩
      · refine .queued rfl rfl rfl fun other kin found _ _ place => ?_
        have different := (removed.of_found found).1
        exact List.mem_filter.mpr ⟨place, by simpa using different.symm⟩
      · rintro other ⟨kin, found, live, idle⟩
        have different : id ≠ other := by
          rintro rfl
          obtain rfl := Option.some.inj (there.symm.trans found)
          exact dead live
        exact ⟨_, removed.keeps different found, live, idle⟩
    exact removes.calm_bind fun _ _ _ kept => ⟨.refl, kept⟩
  · rw [if_neg ended]
    exact ⟨.refl, fun _ serving => serving⟩

/-! ## System calls -/

/-- The caller has its answer. -/
def Outcome.Answered (outcome : Outcome) : Prop := ∃ value, outcome = .answer value

/-- What a system call leaves: the caller is there; if it has not got an answer, no context has
ended; and if it is to wait, it may wait. -/
structure Served (caller : ContextId) (origin : Hypervisor) (outcome : Outcome)
    (after : Hypervisor) : Prop where
  serving : after.Serving caller
  calm : ¬outcome.Answered → Calm caller origin after
  fit : ∀ reason, outcome = .block reason →
    ∃ kin, after.kin caller = some kin ∧ Fit after kin (.blocked reason)
  waits : ∀ reason, outcome = .block reason → ∃ target, reason = .wait target

namespace Served

variable {outcome : Outcome}

theorem of_calm (serving : after.Serving caller) (calm : Calm caller origin after)
    (prompt : outcome.Prompt) : Served caller origin outcome after := by
  refine ⟨serving, fun _ => calm, ?_, ?_⟩
  all_goals
    rintro reason rfl
    exact prompt.elim

theorem of_answered (serving : after.Serving caller) (answered : outcome.Answered) :
    Served caller origin outcome after := by
  refine ⟨serving, fun unanswered => absurd answered unanswered, ?_, ?_⟩
  all_goals
    rintro reason rfl
    obtain ⟨value, same⟩ := answered
    cases same

theorem after_calm (served : Served caller middle outcome after)
    (calm : Calm caller origin middle) : Served caller origin outcome after :=
  ⟨served.serving, fun unanswered => calm.trans (served.calm unanswered), served.fit, served.waits⟩

/-- What is served stays so where nothing changes that matters. -/
theorem of_hushed (served : Served caller origin outcome middle)
    (hushed : Hushed caller middle after) : Served caller origin outcome after := by
  refine ⟨served.serving.of_hushed hushed, fun unanswered => ?_, fun reason same => ?_,
    served.waits⟩
  · exact .tail (served.calm unanswered) (.hushed served.serving.live hushed)
  · obtain ⟨kin, found, fit⟩ := served.fit reason same
    refine ⟨kin, (hushed.kin caller).trans found, fit.unended, fit.waits, ?_⟩
    exact fun child member waits => hushed.toKindred.live (fit.hopes child member waits)

end Served

/-- A discreet call is quiet. -/
theorem Discreet.served {action : HypervisorAction Outcome}
    (discreet : Discreet caller Outcome.Prompt action) (uniform : origin.machine.Uniform)
    (serving : origin.Serving caller) :
    Within (Calm caller) (Served caller origin) action origin :=
  (discreet.within uniform serving.live).mono (fun _ calm => calm)
    fun _ _ calm told => .of_calm (serving.of_hushed told.1) calm told.2

theorem within_serveKill (kinship : Kinship loaded origin) (serving : origin.Serving caller)
    (call : Call) :
    Within (Course caller) (Served caller origin) (serveKill caller call) origin := by
  unfold serveKill
  cases contextNamed? call.first with
  | none => exact ⟨.calm .refl, .of_calm serving .refl trivial⟩
  | some target =>
      have kills : Within (Course caller) (fun _ after => after.Serving caller)
          (kill caller target) origin := by
        apply (halts_kill kinship caller target).certain
        rintro _ after (rfl | ⟨gone, link, live, ends⟩)
        · exact ⟨.calm .refl, serving⟩
        · have younger := (kinship.parents target gone caller ends.there link).1
          refine ⟨.ends .refl serving.idle ends live (.inr ⟨link, rfl⟩) .refl, ?_⟩
          exact ends.serving (Nat.ne_of_lt younger).symm serving
      apply kills.bind_still
      intro killed after _ serving
      refine ⟨.refl, .of_answered serving ?_⟩
      split <;> exact ⟨_, rfl⟩

/-- The beginning of a context leaves the one that is served. -/
theorem Born.serving {parent : Option ContextId} (born : Born parent child origin after)
    (kinship : Kinship loaded origin) (serving : origin.Serving other) : after.Serving other := by
  obtain ⟨kin, found, live, idle⟩ := serving
  obtain ⟨kin', found', _, status, state⟩ := born.keeps (kinship.young other kin found) found
  exact ⟨kin', found', status.trans live, state ▸ idle⟩

/-- A copy that has begun goes on behind the call, and is queued. -/
theorem within_startCopy (kinship : Kinship loaded origin) (serving : origin.Serving caller)
    (self : origin.kin child = some kin) (ready : kin.state = .ready)
    (live : kin.exitStatus = none) :
    Within (Calm caller) (Served caller origin) (do
      modifyContext child fun context =>
        (context.withRegister Register.a0 0).withPc (context.hart.pc + 4)
      makeReady child
      note (.forked caller child)
      return .answer (Int64.ofNat child)) origin := by
  have moves : Discreet child Anything (modifyContext child fun context =>
      (context.withRegister Register.a0 0).withPc (context.hart.pc + 4)) :=
    discreet_modifyContext child child (fun _ => rfl) fun _ => rfl
  apply (moves.within kinship.uniform ⟨kin, self, live⟩).calm_bind
  rintro _ moved calm ⟨hushed, _⟩
  have self' : moved.kin child = some kin := (hushed.kin child).trans self
  apply (within_makeReady_of_ready hushed.uniform self' ready live).calm_bind
  intro _ queued calm' same
  have serving' : queued.Serving caller := by
    obtain ⟨kin, found, given⟩ := serving.of_hushed hushed
    exact ⟨kin, (same caller).trans found, given⟩
  have answers : Discreet caller Outcome.Prompt
      (note (.forked caller child) >>= fun _ => pure (.answer (Int64.ofNat child))) :=
    (discreet_note caller _).bind fun _ _ => .pure trivial
  have before := calm.trans calm'
  exact (answers.served (Calm.kinship before kinship).uniform serving').mono
    (fun _ later => later) fun _ _ _ served => served.after_calm before

/-- A copy of the caller begins, and is queued. -/
theorem within_serveFork (kinship : Kinship loaded origin) (serving : origin.Serving caller) :
    Within (Calm caller) (Served caller origin) (serveFork caller) origin := by
  obtain ⟨kin, found, _⟩ := id serving
  apply Halts.bind
    (halts_of_there found (halts_fork kinship.uniform caller (kinship.young caller)))
  intro answer forked given
  cases answer with
  | none =>
      have hushed := given caller
      have calm : Calm caller origin forked := .single (.hushed serving.live hushed)
      have rest : Discreet caller Outcome.Prompt
          (note (.forkRefused caller) >>= fun _ => pure .failure) :=
        (discreet_note caller _).bind fun _ _ => .pure trivial
      apply (rest.served hushed.uniform (serving.of_hushed hushed)).mono
      · exact fun _ later => calm.trans later
      · exact fun _ _ _ served => served.after_calm calm
  | some child =>
      obtain ⟨born, confined⟩ := given
      let relay := forked.own.relay.count fun counters =>
        { counters with forks := counters.forks + 1 }
      let begun : Hypervisor := { forked with own := { forked.own with
        relay, owned := forked.own.owned.insert child } }
      have begins : Calm caller origin begun := by
        have born' : Born (some caller) child origin { begun with own := origin.own } :=
          ⟨born.uniform, born.next, born.nextId, born.kin, rfl⟩
        refine .single (.begun serving born' ?_ ?_ ?_
          (confined.trans (.of_same rfl (fun _ => rfl) le_rfl)))
        · show forked.own.owned.insert child = _
          rw [born.own]
        · show forked.own.orphans = _
          rw [born.own]
        · show forked.own.ready = _
          rw [born.own]
      have self : begun.kin child = some ⟨.ready, none, some caller, ∅⟩ :=
        (born.kin child).trans (if_pos rfl)
      have serving' : begun.Serving caller := born.serving kinship serving
      have starts : Within (fun _ => Calm caller origin) (Served caller origin) _ begun :=
        (within_startCopy (Calm.kinship begins kinship) serving' self rfl rfl).mono
          (fun _ later => begins.trans later) fun _ _ _ served => served.after_calm begins
      exact starts

/-- Whoever waits for a child among some has named it, unless there are none. -/
theorem includes_of_waitsFor {target : WaitTarget} (somebody : target ≠ .nobody)
    (waits : waitsFor (.blocked target.reason) child = true) : target.includes child = true := by
  cases target with
  | any => rfl
  | child id => exact waits
  | nobody => exact absurd rfl somebody

/-- **A context may wait for children that it has, if none of them has ended.** -/
theorem fit_of_unended (kinship : Kinship loaded origin) {context : Context}
    (there : origin.kin caller = some context.kin) {target : WaitTarget}
    (some : (context.children.toList.filter target.includes).isEmpty ≠ true)
    (unended : firstEnded origin.machine (context.children.toList.filter target.includes) = none) :
    Fit origin context.kin (.blocked target.reason) := by
  obtain ⟨child, listed⟩ := List.exists_mem_of_ne_nil _ (List.isEmpty_eq_false_iff.mp
    (Bool.eq_false_iff.mpr some))
  obtain ⟨member, included⟩ := List.mem_filter.mp listed
  have somebody : target ≠ .nobody := by
    rintro rfl
    cases included
  refine ⟨(fun exited => nomatch exited), fun _ => ?_, fun child member waits => ?_⟩
  · exact ⟨child, TreeSet.mem_toList.mp member, waitsFor_of_includes included⟩
  · have listed := List.mem_filter.mpr
      ⟨TreeSet.mem_toList.mpr member, includes_of_waitsFor somebody waits⟩
    obtain ⟨kin, known, _⟩ := (kinship.linked caller _ there child).mp member
    exact live_of_unended kinship.uniform unended listed known

theorem within_serveWait (kinship : Kinship loaded origin) (serving : origin.Serving caller)
    (call : Call) :
    Within (Calm caller) (Served caller origin) (serveWait caller call) origin := by
  obtain ⟨kin, there, _⟩ := id serving
  apply Within.contextOf_bind kinship.uniform there
  rintro context rfl
  dsimp only
  by_cases childless : (context.children.toList.filter
      (WaitTarget.ofWord call.first).includes).isEmpty = true
  · rw [if_pos childless]
    exact ⟨.refl, .of_calm serving .refl trivial⟩
  rw [if_neg childless]
  apply Halts.get_bind
  cases ended : firstEnded origin.machine (context.children.toList.filter
      (WaitTarget.ofWord call.first).includes) with
  | none =>
      refine ⟨.refl, serving, fun _ => .refl, ?_, ?_⟩
      · rintro _ ⟨⟩
        exact ⟨context.kin, there, fit_of_unended kinship there childless ended⟩
      · rintro _ ⟨⟩
        cases WaitTarget.ofWord call.first <;> exact ⟨_, rfl⟩
  | some first =>
      obtain ⟨child, status⟩ := first
      have reaps {middle : Hypervisor} (kinship : Kinship loaded middle)
          (serving : middle.Serving caller) (calm : Calm caller origin middle) :
          Within (Calm caller) (Served caller origin)
            (reap child >>= fun _ => pure (.answer (Int64.ofNat child))) middle := by
        apply (within_reap kinship child).calm_bind
        intro _ reaped calm' kept
        exact ⟨.refl, .of_answered (kept caller serving) ⟨_, rfl⟩⟩
      dsimp only
      split
      · apply ((discreet_onCallerMemory caller call (.store _ _)).within kinship.uniform
          serving.live).calm_bind
        rintro stored middle calm ⟨hushed, _⟩
        have serving' := serving.of_hushed hushed
        cases stored with
        | error fault => exact ⟨.refl, .of_calm serving' calm trivial⟩
        | ok _ => exact reaps (Calm.kinship calm kinship) serving' calm
      · exact reaps kinship serving .refl

theorem within_serve (kinship : Kinship loaded origin) (serving : origin.Serving caller)
    (call : Call) (kind : Option SystemCall) :
    Within (Course caller) (fun served after => Served caller origin served.1 after)
      (serve caller call kind) origin := by
  have wrapped {relation : Hypervisor → Hypervisor → Prop} {action : HypervisorAction Outcome}
      (run : Within relation (Served caller origin) action origin)
      (course : ∀ after, relation origin after → Course caller origin after) :
      Within (Course caller) (fun served after => Served caller origin served.1 after)
        (action >>= fun outcome => pure (outcome, ([] : Bytes))) origin :=
    (run.through course).bind_still fun _ _ _ served => ⟨.refl, served⟩
  have calm (after : Hypervisor) (calm : Calm caller origin after) : Course caller origin after :=
    .calm calm
  have quiet {outcome : Outcome} (prompt : outcome.Prompt) :
      Within (Course caller) (fun served after => Served caller origin served.1 after)
        (pure (outcome, ([] : Bytes))) origin :=
    ⟨.calm .refl, .of_calm serving .refl prompt⟩
  cases kind with
  | none => exact quiet trivial
  | some kind =>
      cases kind with
      | read =>
          apply ((discreet_serveRead caller call).within kinship.uniform serving.live).mono calm
          exact fun _ _ calm told => .of_calm (serving.of_hushed told.1) calm told.2
      | write =>
          exact wrapped ((discreet_serveWrite caller call).served kinship.uniform serving) calm
      | openFile =>
          exact wrapped ((discreet_serveOpen caller call).served kinship.uniform serving) calm
      | exit => exact quiet trivial
      | yield => exact quiet trivial
      | kill => exact wrapped (within_serveKill kinship serving call) fun _ course => course
      | setBreak =>
          exact wrapped ((discreet_serveBreak caller call).served kinship.uniform serving) calm
      | fork => exact wrapped (within_serveFork kinship serving) calm
      | wait => exact wrapped (within_serveWait kinship serving call) calm

theorem within_perform (kinship : Kinship loaded origin) (serving : origin.Serving caller)
    (call : Call) (kind : Option SystemCall) :
    Within (Course caller) (Served caller origin) (dispatch.perform caller call kind) origin := by
  apply (within_serve kinship serving call kind).bind (fun _ course => course)
  rintro ⟨outcome, data⟩ middle course served
  have notes : Within (Still caller) (Served caller origin)
      (noteCompleted call outcome data >>= fun _ => pure outcome) middle := by
    apply ((discreet_noteCompleted caller call outcome data).still
      (course.kinship kinship).uniform served.serving.live).bind (fun _ still => still)
    exact fun _ _ still noted => ⟨still, served.of_hushed noted.1⟩
  exact notes.through fun _ still => course.then_still still

/-- **A system call is a course**, in which nobody has ended unless the caller has its answer. -/
theorem within_dispatch (kinship : Kinship loaded origin) (serving : origin.Serving caller) :
    Within (Course caller) (Served caller origin) (dispatch caller) origin := by
  obtain ⟨kin, there, _⟩ := id serving
  apply Within.contextOf_bind kinship.uniform there
  rintro context rfl
  apply ((discreet_count caller _).within kinship.uniform serving.live).bind_course
  rintro _ counted calm ⟨hushed, _⟩
  apply ((discreet_note caller _).within hushed.uniform
    (serving.of_hushed hushed).live).bind_course
  rintro _ noted calm' ⟨hushed', _⟩
  have serving' := (serving.of_hushed hushed).of_hushed hushed'
  have before := calm.trans calm'
  have kinship' := Calm.kinship before kinship
  have performs (kind : Option SystemCall) :
      Within (Course caller) (Served caller origin)
        (dispatch.perform caller (Call.ofContext context) kind) noted :=
    (within_perform kinship' serving' _ kind).mono (fun _ course => course)
      fun _ _ _ served => served.after_calm before
  apply Halts.get_bind
  generalize SystemCall.ofNumber? (Call.ofContext context).number.toNat = kind
  cases noted.own.recording with
  | off => exact performs kind
  | record trace => exact performs kind
  | replay replayer =>
      cases kind with
      | none => exact performs none
      | some kind =>
          dsimp only
          split
          · have replays := (discreet_replayHostCall caller (Call.ofContext context) kind
              replayer).served kinship'.uniform serving'
            exact replays.mono (fun _ calm => .calm calm)
              fun _ _ _ served => served.after_calm before
          · exact performs (some kind)

/-- The service of a system call is a course. -/
theorem within_serviceCall (kinship : Kinship loaded origin) (serving : origin.Serving caller) :
    Within (Course caller) (fun _ after => after.Rested caller) (serviceCall caller) origin := by
  obtain ⟨kin, there, live, idle⟩ := id serving
  have calling : ¬Waiting (.blocked .systemCall) := not_waiting_of_ne fun _ same => nomatch same
  have fit : Fit origin kin (.blocked .systemCall) :=
    .of_idle (fun exited => nomatch exited) calling
  apply (within_setState kinship.uniform there live idle fit).bind_course
  rintro _ called calm ⟨found, _⟩
  have kinship' := Calm.kinship calm kinship
  apply Within.contextOf_bind kinship'.uniform found
  intro context _
  have serving' : called.Serving caller := ⟨_, found, live, calling⟩
  apply (within_dispatch kinship' serving').bind (fun _ course => course)
  intro outcome served course told
  have kinship'' := course.kinship kinship'
  cases outcome with
  | answer value =>
      have moves : Discreet caller Anything (modifyContext caller fun found =>
          (found.withRegister Register.a0 value.toUInt64).withPc (context.hart.pc + 4)) :=
        discreet_modifyContext caller caller (fun _ => rfl) fun _ => rfl
      have answers := (moves.still kinship''.uniform told.serving.live).bind (fun _ still => still)
        fun _ moved still given =>
          (within_makeReady given.1.uniform (told.serving.of_hushed given.1)).through
            fun _ later => still.trans later
      exact answers.through fun _ still => course.then_still still
  | exit code =>
      have before := told.calm fun ⟨_, same⟩ => nomatch same
      have moves : Discreet caller Anything
          (modifyContext caller fun found => found.withPc (context.hart.pc + 4)) :=
        discreet_modifyContext caller caller (fun _ => rfl) fun _ => rfl
      have ends : Within (Course caller) (fun _ after => after.Rested caller) (do
          modifyContext caller (·.withPc (context.hart.pc + 4))
          terminate caller (.exited code)) served := by
        apply (moves.within kinship''.uniform told.serving.live).bind_course
        rintro _ moved calm ⟨hushed, _⟩
        exact within_terminate (Calm.kinship calm kinship'') (told.serving.of_hushed hushed) _
      exact ends.through fun _ course => .after_calm before course
  | block reason =>
      have before := told.calm fun ⟨_, same⟩ => nomatch same
      obtain ⟨kin, found, fit⟩ := told.fit reason rfl
      obtain ⟨kin', found', live, idle⟩ := told.serving
      obtain rfl := Option.some.inj (found.symm.trans found')
      apply (within_setState kinship''.uniform found live idle fit).mono
      · exact fun _ calm => .calm (before.trans calm)
      · rintro _ after _ ⟨self, _⟩ kin there
        obtain rfl := Option.some.inj (self.symm.trans there)
        obtain ⟨target, rfl⟩ := told.waits reason rfl
        exact ⟨trivial, fun _ _ same => nomatch same⟩
  | fault fault =>
      have before := told.calm fun ⟨_, same⟩ => nomatch same
      exact (within_handleFault kinship'' told.serving fault _).through
        fun _ course => .after_calm before course

/-- **However a slice ends, what follows is a course.** -/
theorem within_handleTrap (kinship : Kinship loaded origin) (serving : origin.Serving caller)
    (trap : Trap) :
    Within (Course caller) (fun _ after => after.Rested caller) (handleTrap caller trap)
      origin := by
  cases trap with
  | timerInterrupt =>
      apply ((discreet_count caller _).within kinship.uniform serving.live).bind_course
      rintro _ counted _ ⟨hushed, _⟩
      exact (within_makeReady hushed.uniform (serving.of_hushed hushed)).through
        fun _ still => .calm still.calm
  | environmentCall => exact within_serviceCall kinship serving
  | fault fault pc => exact within_handleFault kinship serving fault pc

/-! ## Slices -/

/-- A context that can go on is carried on with, and the trap it ends in is handled. -/
theorem within_resume {next : Trap → HypervisorAction β} {told : β → Hypervisor → Prop}
    (kinship : Kinship loaded origin) (serving : origin.Serving caller) (quantum : Nat)
    (handles : ∀ trap middle, Kinship loaded middle → middle.Serving caller →
      Within (Course caller) told (next trap) middle) :
    Within (Course caller) told (below (Machine.switch caller quantum) >>= next) origin := by
  apply ((discreet_switch caller quantum).within kinship.uniform serving.live).bind_course
  intro trap switched calm told
  exact handles trap switched (Calm.kinship calm kinship) (serving.of_hushed told.1)

/-- A live context that does not wait begins to run. -/
theorem within_start (kinship : Kinship loaded origin) (serving : origin.Serving caller) :
    Within (Calm caller) (fun _ after => Kinship loaded after ∧ after.Serving caller)
      (setState caller .running) origin := by
  obtain ⟨kin, found, live, idle⟩ := serving
  have running : ¬Waiting .running := not_waiting_of_ne fun _ same => nomatch same
  have fit : Fit origin kin .running := .of_idle (fun exited => nomatch exited) running
  apply (within_setState kinship.uniform found live idle fit).mono (fun _ calm => calm)
  exact fun _ after calm given => ⟨Calm.kinship calm kinship, _, given.1, live, running⟩

/-- A context in a state in which it neither waits nor has ended. -/
theorem Kinship.serving (kinship : Kinship loaded origin) (there : origin.kin id = some kin)
    {state : ContextState} (same : kin.state = state) (unended : state ≠ .exited)
    (idle : ∀ target, state ≠ .blocked (.wait target)) : origin.Serving id := by
  subst same
  exact ⟨kin, there, (kinship.exited id kin there).mpr unended, not_waiting_of_ne idle⟩

/-- **A slice of a context is a course**, from a context that is ready to one that is settled. -/
theorem within_slice (kinship : Kinship loaded origin) (quantum : Nat) :
    Within (Course caller)
      (fun _ after => (∃ kin, origin.kin caller = some kin ∧ kin.state = .ready) ∧
        after.Rested caller)
      (slice caller quantum) origin := by
  apply Within.requireOwned_bind kinship (.calm .refl)
  intro kin there
  apply Within.contextOf_bind kinship.uniform there
  rintro context rfl
  by_cases ready : context.state ≠ .ready
  · rw [if_pos ready]
    exact .calm .refl
  rw [if_neg ready]
  rw [not_not] at ready
  have serving : origin.Serving caller :=
    kinship.serving there ready (fun exited => nomatch exited) fun _ same => nomatch same
  apply (within_start kinship serving).bind_course
  rintro _ started _ ⟨kinship, serving⟩
  apply ((discreet_count caller _).within kinship.uniform serving.live).bind_course
  rintro _ counted calm ⟨hushed, _⟩
  apply Halts.get_bind
  apply ((discreet_note caller _).within hushed.uniform (serving.of_hushed hushed).live).bind_course
  rintro _ noted calm' ⟨hushed', _⟩
  have kinship' := Calm.kinship (calm.trans calm') kinship
  apply within_resume kinship' ((serving.of_hushed hushed).of_hushed hushed')
  intro trap switched kinship serving
  apply (within_handleTrap kinship serving trap).bind_still
  exact fun _ _ _ rested => ⟨.refl, ⟨_, there, ready⟩, rested⟩

/-- Carrying out one instruction of a context is a course: nothing happens, or it leads from a
context that can go on to one that is settled. -/
theorem within_step (kinship : Kinship loaded origin) :
    Within (Course caller)
      (fun _ after => after = origin ∨
        (∃ kin, origin.kin caller = some kin ∧ (kin.state = .ready ∨ kin.state = .running)) ∧
          after.Rested caller)
      (step caller) origin := by
  apply Within.requireOwned_bind kinship (.calm .refl)
  intro kin there
  apply Within.contextOf_bind kinship.uniform there
  rintro context rfl
  have goesOn (serving : origin.Serving caller) :
      Within (Course caller) (fun _ after => after.Rested caller) (stepLive caller) origin := by
    apply (within_start kinship serving).bind_course
    rintro _ started _ ⟨kinship, serving⟩
    apply within_resume kinship serving
    intro trap switched kinship serving
    cases trap with
    | timerInterrupt =>
        have ready : Within (Course caller) (fun _ after => after.Rested caller)
            (makeReady caller) switched :=
          (within_makeReady kinship.uniform serving).through fun _ still => .calm still.calm
        exact ready.bind_still fun _ _ _ rested => ⟨.refl, rested⟩
    | _ =>
        exact (within_handleTrap kinship serving _).bind_still fun _ _ _ rested => ⟨.refl, rested⟩
  cases state : context.state with
  | blocked reason => exact ⟨.calm .refl, .inl rfl⟩
  | ready =>
      have serving : origin.Serving caller :=
        kinship.serving there state (fun exited => nomatch exited) fun _ same => nomatch same
      exact (goesOn serving).mono (fun _ course => course)
        fun _ _ _ rested => .inr ⟨⟨_, there, .inl state⟩, rested⟩
  | running =>
      have serving : origin.Serving caller :=
        kinship.serving there state (fun exited => nomatch exited) fun _ same => nomatch same
      exact (goesOn serving).mono (fun _ course => course)
        fun _ _ _ rested => .inr ⟨⟨_, there, .inr state⟩, rested⟩
  | trapped fault pc => exact .calm .refl
  | exited => exact .calm .refl

/-! ## Scheduling -/

/-- Contexts that cannot run leave the queue. -/
theorem within_nextReady (uniform : origin.machine.Uniform) :
    Within (fun origin after => ∀ caller, Quiet caller origin after)
      (fun answer after => answer = after.own.ready.head? ∧ after.machine = origin.machine)
      nextReady origin := by
  refine ⟨fun caller => .queued rfl rfl rfl fun id kin found ready _ place => ?_, rfl, rfl⟩
  exact mem_dropWhile_of_canRun ((canRun_iff uniform).mpr ⟨kin, found, ready⟩) place

/-- What a round of the scheduler comes to: nobody has had a turn, or a context that was ready has
and is settled. -/
def RoundTaken (origin : Hypervisor) (turn : Option ContextId) (after : Hypervisor) : Prop :=
  match turn with
  | none => after.machine = origin.machine
  | some caller => Course caller origin after ∧
      (∃ kin, origin.kin caller = some kin ∧ kin.state = .ready) ∧ after.Rested caller

/-- **A round of the scheduler is a course**, on behalf of the context whose turn it is. -/
theorem within_scheduleOnce (kinship : Kinship loaded origin) :
    Within (fun origin after => ∃ caller, Course caller origin after) (RoundTaken origin)
      scheduleOnce origin := by
  apply (within_nextReady kinship.uniform).bind
  · exact fun _ quiet => ⟨0, .calm (.single (quiet 0))⟩
  rintro next dropped quiet ⟨front, machine⟩
  cases next with
  | none => exact ⟨⟨0, .calm (.single (quiet 0))⟩, machine⟩
  | some caller =>
      have taken : Within (Calm caller) (fun _ after => after.machine = dropped.machine)
          (modifyOwn fun own => { own with ready := own.ready.tail }) dropped := by
        refine ⟨.single (.queued rfl rfl rfl fun id kin _ _ different place => ?_), rfl⟩
        obtain ⟨rest, queue⟩ := List.head?_eq_some_iff.mp front.symm
        rw [queue] at place
        show id ∈ dropped.own.ready.tail
        rw [queue]
        exact (List.mem_cons.mp place).resolve_left different
      have kinship' := Calm.kinship (.single (quiet caller)) kinship
      have turn : Within (Course caller)
          (fun turn after => turn = some caller ∧
            (∃ kin, origin.kin caller = some kin ∧ kin.state = .ready) ∧ after.Rested caller) (do
          modifyOwn fun own => { own with ready := own.ready.tail }
          let _ ← slice caller (← get).own.quantum
          return some caller) dropped := by
        apply taken.bind_course
        intro _ middle calm same
        apply Halts.get_bind
        apply (within_slice (Calm.kinship calm kinship') _).bind_still
        rintro _ after _ ⟨⟨kin, found, ready⟩, rested⟩
        refine ⟨.refl, rfl, ⟨kin, ?_, ready⟩, rested⟩
        rw [Hypervisor.kin, same, machine] at found
        exact found
      apply turn.mono
      · exact fun _ course => ⟨caller, .after_calm (.single (quiet caller)) course⟩
      · rintro _ after course ⟨rfl, ready, rested⟩
        exact ⟨.after_calm (.single (quiet caller)) course, ready, rested⟩

end NestedMachine.Hypervisor
