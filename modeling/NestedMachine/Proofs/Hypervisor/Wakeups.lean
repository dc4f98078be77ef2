import NestedMachine.Proofs.Hypervisor.Conduct
import NestedMachine.Proofs.Hypervisor.Liveness

/-!
# No wakeup is lost

What a request leaves, also if it fails, is told in two parts.  What holds of the whole holds on,
with the context that has been loaded if one has (`Passed`).  And no child has ended unheard: a
parent that has waited for it is ready and queued (`Heeded`).  Every request but a run of many
rounds passes in both parts (`passes_single`).  A run of many rounds leads nowhere but single rounds
lead (`driven_of_many`), so what holds of the whole holds after it too, though by then a parent that
was woken may have gone on long ago.

By induction over the operations, then, the families agree wherever a hypervisor gets
(`passed_stateAfter`), and that is what a parent that waits relies on: it has a child to wait for,
none that it waits for has ended, and the operation in which one ends makes it ready
(`no_wakeup_lost`).
-/

namespace NestedMachine.Hypervisor

set_option autoImplicit false

open Std (TreeMap TreeSet)

variable {α β : Type} {origin middle after : Hypervisor} {loaded : ContextId → Prop} {neat : Prop}
  {id other parent child caller holder : ContextId} {gone kin : Kin} {status : ExitStatus}

/-! ## What every request leaves -/

/-- Whoever has waited for a child that has ended is ready and queued. -/
def Heeded (origin after : Hypervisor) : Prop :=
  ∀ parent child, origin.Awaits parent child → after.Live child ∨ after.Queued parent

theorem Heeded.of_live (lives : ∀ id, origin.Live id → after.Live id) : Heeded origin after :=
  fun _ child ⟨_, _, _, _, live⟩ => .inl (lives child live)

/-- What holds of the whole holds on, if contexts are loaded or not. -/
structure Passed (neat : Prop) (loads : ContextId → Prop) (origin after : Hypervisor) : Prop where
  kinship : ∀ loaded, Kinship loaded origin → Kinship (fun id => loaded id ∨ loads id) after
  sound : ∀ capacity, origin.machine.interpreter.Sound capacity →
    after.machine.interpreter.Sound capacity
  nextId : origin.machine.interpreter.nextId ≤ after.machine.interpreter.nextId
  older : ∀ id kin, after.kin id = some kin → id < origin.machine.interpreter.nextId →
    ∃ kin, origin.kin id = some kin
  tidy : neat → origin.Tidy → after.Tidy

variable {loads : ContextId → Prop}

theorem Heir.passed (heir : Heir neat origin after) (nothing : ∀ id, ¬loads id) :
    Passed neat loads origin after := by
  refine ⟨fun loaded kinship => ?_, heir.sound, heir.nextId, heir.older, heir.tidy⟩
  rw [show (fun id => loaded id ∨ loads id) = loaded from
    funext fun id => propext (or_iff_left (nothing id))]
  exact heir.kinship loaded kinship

theorem Passed.heir (passed : Passed neat loads origin after) (nothing : ∀ id, ¬loads id) :
    Heir neat origin after := by
  refine ⟨fun loaded kinship => ?_, passed.sound, passed.nextId, passed.older, passed.tidy⟩
  have kept := passed.kinship loaded kinship
  rwa [show (fun id => loaded id ∨ loads id) = loaded from
    funext fun id => propext (or_iff_left (nothing id))] at kept

theorem Passed.trans {later whole : ContextId → Prop} (first : Passed neat loads origin middle)
    (second : Passed neat later middle after) (all : ∀ id, whole id ↔ loads id ∨ later id) :
    Passed neat whole origin after where
  kinship loaded kinship := by
    have kept := second.kinship _ (first.kinship loaded kinship)
    rwa [show (fun id => (loaded id ∨ loads id) ∨ later id) = fun id => loaded id ∨ whole id from
      funext fun id => propext (by rw [all, or_assoc])] at kept
  sound capacity sound := second.sound capacity (first.sound capacity sound)
  nextId := first.nextId.trans second.nextId
  older id kin found young := by
    obtain ⟨kin', found'⟩ := second.older id kin found (young.trans_le first.nextId)
    exact first.older id kin' found' young
  tidy clean tidy := second.tidy clean (first.tidy clean tidy)

/-- What a request leaves, also if it fails, holds on, and no child has ended unheard. -/
def Passes (neat : Prop) (action : HypervisorAction Answer) (origin : Hypervisor) : Prop :=
  let outcome := action origin
  Passed neat (fun id => answerOf outcome = .ok (.context id)) origin (finalState outcome) ∧
    Heeded origin (finalState outcome)

/-- A request whose answers are of another kind has not loaded a context. -/
theorem answerOf_ne_context {action : HypervisorAction α} {answer : α → Answer}
    (plain : ∀ given id, answer given ≠ .context id) (id : ContextId) :
    answerOf ((action >>= fun given => pure (answer given)) origin) ≠ .ok (.context id) := by
  rw [bind_apply, EStateM.bind]
  cases action origin with
  | error error after => exact fun same => nomatch same
  | ok given after => exact fun same => plain given id (Except.ok.inj same)

/-- A request that loads nothing passes if what it leaves is an heir. -/
theorem passes_of_within {action : HypervisorAction α} {answer : α → Answer}
    (run : Within (fun origin after => Heir neat origin after ∧ Heeded origin after) Whatever action
      origin) (plain : ∀ given id, answer given ≠ .context id) :
    Passes neat (action >>= fun given => pure (answer given)) origin := by
  obtain ⟨heir, heeded⟩ := (run.answering answer).finalState
  exact ⟨heir.passed (answerOf_ne_context plain), heeded⟩

theorem Course.heeded (course : Course caller origin after) (kinship : Kinship loaded origin) :
    Heeded origin after :=
  fun _ _ awaits => course.heeds kinship awaits

/-- A request whose run is a course passes. -/
theorem passes_of_course {action : HypervisorAction α} {answer : α → Answer}
    {told : α → Hypervisor → Prop} (kinship : Kinship loaded origin)
    (run : Within (fun origin after => ∃ caller, Course caller origin after) told action origin)
    (plain : ∀ given id, answer given ≠ .context id) :
    Passes neat (action >>= fun given => pure (answer given)) origin := by
  apply passes_of_within _ plain
  apply run.whatever
  rintro after ⟨caller, course⟩
  exact ⟨course.heir, course.heeded kinship⟩

/-- A request whose run is a course on behalf of one context passes. -/
theorem passes_of_turn {action : HypervisorAction α} {answer : α → Answer}
    {told : α → Hypervisor → Prop} (kinship : Kinship loaded origin)
    (run : Within (Course caller) told action origin)
    (plain : ∀ given id, answer given ≠ .context id) :
    Passes neat (action >>= fun given => pure (answer given)) origin :=
  passes_of_course kinship (run.through fun _ course => ⟨caller, course⟩) plain

/-- The machine is the same, and so is whom the supervisor owns. -/
structure Resting (origin after : Hypervisor) : Prop where
  machine : after.machine = origin.machine
  owned : after.own.owned = origin.own.owned
  orphans : after.own.orphans = origin.own.orphans

/-- A request that leaves the machine as it is passes. -/
theorem passes_of_resting {action : HypervisorAction α} {answer : α → Answer}
    (run : Within Resting Whatever action origin) (plain : ∀ given id, answer given ≠ .context id) :
    Passes neat (action >>= fun given => pure (answer given)) origin := by
  apply passes_of_within _ plain
  apply run.through
  rintro after ⟨machine, owned, orphans⟩
  refine ⟨.of_machine machine owned orphans, .of_live fun id live => ?_⟩
  rw [Live, Hypervisor.kin, machine]
  exact live

theorem within_modifyOwn {change : Supervisor → Supervisor}
    (owned : ∀ own, (change own).owned = own.owned)
    (orphans : ∀ own, (change own).orphans = own.orphans) :
    Within Resting Whatever (modifyOwn change) origin :=
  ⟨⟨rfl, owned _, orphans _⟩, trivial⟩

/-! ## Loading -/

/-- A number that is used up concerns nobody. -/
theorem Skipped.heir (skipped : Skipped origin after) : Heir neat origin after where
  kinship _ kinship := by
    refine kinship.congr skipped.uniform skipped.kin ?_ ?_ ?_
    · rw [skipped.nextId]
      exact Nat.le_succ _
    all_goals rw [skipped.own]
  sound := (skipped.confined 0).sound
  nextId := by
    rw [skipped.nextId]
    exact Nat.le_succ _
  older id kin found _ := ⟨kin, (skipped.kin id).symm.trans found⟩
  tidy _ tidy id kin found dead :=
    (tidy id kin ((skipped.kin id).symm.trans found) dead).of_confined skipped.confined

/-- A context that is loaded begins without a parent, and is owned. -/
theorem Born.passed (born : Born none id origin { after with own := origin.own })
    (confined : Confined id origin after)
    (owned : after.own.owned = origin.own.owned.insert id)
    (orphans : after.own.orphans = origin.own.orphans) :
    Passed neat (fun other => other = id) origin after where
  kinship _ kinship := by
    refine kinship.begun born owned orphans (fun _ none => nomatch none) fun other => ?_
    simp
  sound := confined.sound
  nextId := born.nextId_le
  older _ _ found young := born.older found young
  tidy _ := born.tidy ⟨confined.sound, confined.spaces⟩

theorem halts_load (kinship : Kinship loaded origin) (image : Image) (arguments : List String) :
    Halts (fun _ after => Heir neat origin after ∧ Heeded origin after)
      (fun id after => Passed neat (fun other => other = id) origin after ∧ Heeded origin after)
      (load image arguments origin) := by
  apply Halts.get_bind
  apply ((halts_create kinship.uniform image _).mono (fun _ _ given => given) ?_).bind
  · rintro id created ⟨born, confined⟩
    let begun : Hypervisor := { created with own := { created.own with
      relay := created.own.relay.count fun counters =>
        { counters with contextsCreated := counters.contextsCreated + 1 }
      ready := created.own.ready ++ [id]
      owned := created.own.owned.insert id } }
    have born' : Born none id origin { begun with own := origin.own } :=
      ⟨born.uniform, born.next, born.nextId, born.kin, rfl⟩
    have passed : Passed neat (fun other => other = id) origin begun := by
      refine born'.passed (confined.trans (.of_same rfl (fun _ => rfl) le_rfl)) ?_ ?_
      · show created.own.owned.insert id = _
        rw [born.own]
      · show created.own.orphans = _
        rw [born.own]
    have self : begun.kin id = some ⟨.ready, none, none, ∅⟩ := (born.kin id).trans (if_pos rfl)
    have uniform : begun.machine.Uniform := (passed.kinship loaded kinship).uniform
    show Halts _ _ ((note (.levelLoaded begun.level id) >>= fun _ => pure id) begun)
    apply ((halts_note uniform (.levelLoaded begun.level id)).certain fun _ _ given => given).bind
    intro _ noted hushed
    have heir : Heir neat begun noted := by
      refine .of_hushed (hushed id) fun _ kin found => ?_
      obtain rfl := Option.some.inj (self.symm.trans found)
      rfl
    refine ⟨passed.trans (heir.passed fun _ nothing => nothing) ?_, .of_live ?_⟩
    · exact fun other => (or_iff_left fun nothing => nothing).symm
    · exact fun other live => (hushed id).toKindred.live (born.live live)
  · rintro _ after ⟨skipped, _⟩
    refine ⟨skipped.heir, .of_live fun id live => ?_⟩
    rw [Live, skipped.kin]
    exact live

theorem passes_load (kinship : Kinship loaded origin) (image : Image) (arguments : List String) :
    Passes neat (Operation.load image arguments).perform origin := by
  have loads : Halts (fun _ after => Heir neat origin after ∧ Heeded origin after)
      (fun id after => Passed neat (fun other => other = id) origin after ∧ Heeded origin after)
      (load image arguments origin) := halts_load kinship image arguments
  show Passes neat (load image arguments >>= fun id => pure (.context id)) origin
  unfold Passes
  rw [bind_apply, EStateM.bind]
  generalize load image arguments origin = result at loads
  cases result with
  | error error after => exact ⟨loads.1.passed fun _ same => (nomatch same), loads.2⟩
  | ok id after =>
      refine ⟨?_, loads.2⟩
      have same (other : ContextId) :
          (Except.ok (Answer.context id) : Except HostError Answer) = .ok (.context other) ↔
            other = id := by
        rw [Except.ok.injEq, Answer.context.injEq, eq_comm]
      simp only [answerOf, pure, EStateM.pure, same]
      exact loads.1

/-! ## Every request -/

/-- The end of a context, or nothing, passes. -/
theorem passes_of_terminated {action : HypervisorAction α} {answer : α → Answer}
    (kinship : Kinship loaded origin)
    (run : Within (fun origin after => after = origin ∨ ∃ id gone status, gone.exitStatus = none ∧
      Terminated id gone status origin after) Whatever action origin)
    (plain : ∀ given id, answer given ≠ .context id) :
    Passes neat (action >>= fun given => pure (answer given)) origin := by
  apply passes_of_within _ plain
  apply run.through
  rintro after (rfl | ⟨id, gone, status, live, ends⟩)
  · exact ⟨.refl _, .of_live fun _ lives => lives⟩
  · exact ⟨ends.heir live, fun _ _ awaits => ends.heeds kinship awaits⟩

/-- Looking at an owned context changes nothing. -/
theorem within_look (kinship : Kinship loaded origin) (view : Context → α) :
    Within Resting Whatever (do
      requireOwned id
      return view (← contextOf id)) origin := by
  apply Within.requireOwned_bind kinship ⟨rfl, rfl, rfl⟩
  intro kin there
  apply Within.contextOf_bind kinship.uniform there
  exact fun context _ => ⟨⟨rfl, rfl, rfl⟩, trivial⟩

/-- A context only changes its place in the queue. -/
theorem within_requeue : Within Resting Whatever (requeue id) origin := by
  unfold Within
  show Halts _ _ ((if canRun origin.machine id = true then enqueue id else pure ())
    (origin.withReady (origin.own.ready.filter (· != id))))
  split <;> exact ⟨⟨rfl, rfl, rfl⟩, trivial⟩

theorem within_takeTrace : Within Resting Whatever takeTrace origin := by
  apply Halts.get_bind
  cases origin.own.recording with
  | record trace => exact ⟨⟨rfl, rfl, rfl⟩, trivial⟩
  | _ => exact ⟨⟨rfl, rfl, rfl⟩, trivial⟩

theorem within_guestMemory (kinship : Kinship loaded origin) (request : MemoryRequest) :
    Within (fun origin after => after = origin ∨ Hushed id origin after) Whatever
      (guestMemory id request.perform) origin := by
  apply Within.requireOwned_bind kinship (.inl rfl)
  intro kin there
  apply (discreet_onMemory id request.congruent_perform.careful origin kinship.uniform).mono
  · exact fun _ _ given => ⟨.inr given.1, trivial⟩
  · exact fun _ _ given => .inr given.1

/-- Whether an operation is not a run of many rounds. -/
def Operation.single : Operation → Bool
  | .run .. | .runAll _ => false
  | _ => true

/-- **What any operation leaves but a run of many rounds**, also if it fails, holds on, and no child
has ended unheard. -/
theorem passes_single (kinship : Kinship loaded origin) {operation : Operation}
    (single : operation.single = true)
    (live : neat → ∀ id request, operation = .access id request →
      ∀ kin, origin.kin id = some kin → kin.exitStatus = none) :
    Passes neat operation.perform origin := by
  cases operation with
  | load image arguments => exact passes_load kinship image arguments
  | run rounds id => cases single
  | runAll rounds => cases single
  | scheduleOnce =>
      exact passes_of_course kinship (within_scheduleOnce kinship) fun _ _ same => nomatch same
  | slice id quantum =>
      exact passes_of_turn kinship (within_slice kinship quantum) fun _ _ same => nomatch same
  | step id => exact passes_of_turn kinship (within_step kinship) fun _ _ same => nomatch same
  | kill parent child =>
      refine passes_of_terminated kinship ?_ fun _ _ same => nomatch same
      apply (halts_kill kinship parent child).certain
      rintro _ after given
      refine ⟨given.imp_right ?_, trivial⟩
      exact fun ⟨gone, _, live, ends⟩ => ⟨child, gone, .killed, live, ends⟩
  | reap id =>
      have run : Within (Course 0) _ (Hypervisor.reap id) origin :=
        (within_reap kinship id).through fun _ calm => .calm calm
      exact passes_of_turn kinship run fun _ _ same => nomatch same
  | finalizeTrapped id =>
      refine passes_of_terminated kinship ?_ fun _ _ same => nomatch same
      exact (within_finalizeTrapped kinship id).through fun _ given =>
        given.imp_right fun ⟨gone, fault, pc, _, live, ends⟩ =>
          ⟨id, gone, .faulted fault pc, live, ends⟩
  | requeue id => exact passes_of_resting within_requeue fun _ _ same => nomatch same
  | nextReady =>
      refine passes_of_resting ?_ fun _ _ same => nomatch same
      exact ⟨⟨rfl, rfl, rfl⟩, trivial⟩
  | snapshot id => exact passes_of_resting (within_look kinship _) fun _ _ same => nomatch same
  | pcOf id => exact passes_of_resting (within_look kinship _) fun _ _ same => nomatch same
  | exitStatusOf id => exact passes_of_resting (within_look kinship _) fun _ _ same => nomatch same
  | access id request =>
      refine passes_of_within ?_ fun _ _ same => nomatch same
      apply (within_guestMemory kinship request).through
      rintro after (rfl | hushed)
      · exact ⟨.refl _, .of_live fun _ lives => lives⟩
      · refine ⟨.of_hushed hushed fun clean => live clean id request rfl, .of_live fun _ => ?_⟩
        exact hushed.toKindred.live
  | setMemoryMode mode =>
      refine passes_of_resting (within_modifyOwn ?_ ?_) fun _ _ same => nomatch same <;>
        exact fun _ => rfl
  | setDebugTraps debugTraps =>
      refine passes_of_resting (within_modifyOwn ?_ ?_) fun _ _ same => nomatch same <;>
        exact fun _ => rfl
  | startRecording =>
      refine passes_of_resting (within_modifyOwn ?_ ?_) fun _ _ same => nomatch same <;>
        exact fun _ => rfl
  | startReplay trace =>
      refine passes_of_resting (within_modifyOwn ?_ ?_) fun _ _ same => nomatch same <;>
        exact fun _ => rfl
  | takeTrace => exact passes_of_resting within_takeTrace fun _ _ same => nomatch same

/-! ## Runs of many rounds -/

/-- The operations of which a run of many rounds consists. -/
def Operation.IsRound (operation : Operation) : Prop :=
  operation = .scheduleOnce ∨ ∃ id, operation = .finalizeTrapped id

theorem Operation.IsRound.single {operation : Operation} (round : operation.IsRound) :
    operation.single = true := by
  rcases round with rfl | ⟨id, rfl⟩ <;> rfl

/-- A round does not load a context. -/
theorem Operation.IsRound.plain {operation : Operation} (round : operation.IsRound)
    (id : ContextId) : answerOf (operation.perform origin) ≠ .ok (.context id) := by
  rcases round with rfl | ⟨other, rfl⟩ <;> refine answerOf_ne_context ?_ id <;>
    exact fun _ _ same => nomatch same

/-- What rounds lead to, each of them answered if a condition holds. -/
def Rounds (fine : Prop) (origin after : Hypervisor) : Prop :=
  ∃ rounds : List Operation, (∀ operation ∈ rounds, operation.IsRound) ∧
    (fine → ∀ outcome ∈ trail Operation.perform rounds origin, outcome.1.isOk = true) ∧
    after = stateAfter Operation.perform rounds origin

/-- What rounds lead to. -/
def Driven (origin after : Hypervisor) : Prop :=
  ∃ rounds : List Operation, (∀ operation ∈ rounds, operation.IsRound) ∧
    after = stateAfter Operation.perform rounds origin

namespace Rounds

variable {fine : Prop}

theorem refl (hypervisor : Hypervisor) : Rounds fine hypervisor hypervisor :=
  ⟨[], fun _ member => (nomatch member), fun _ _ member => (nomatch member), rfl⟩

theorem trans (first : Rounds fine origin middle) (second : Rounds fine middle after) :
    Rounds fine origin after := by
  obtain ⟨rounds, given, answered, rfl⟩ := first
  obtain ⟨later, given', answered', rfl⟩ := second
  refine ⟨rounds ++ later, fun operation member => ?_, fun holds outcome member => ?_,
    (stateAfter_append _ _ _ _).symm⟩
  · exact (List.mem_append.mp member).elim (given operation) (given' operation)
  · rw [trail_append] at member
    exact (List.mem_append.mp member).elim (answered holds outcome) (answered' holds outcome)

theorem mono {wider : Prop} (rounds : Rounds fine origin after) (narrower : wider → fine) :
    Rounds wider origin after := by
  obtain ⟨rounds, given, answered, same⟩ := rounds
  exact ⟨rounds, given, fun holds => answered (narrower holds), same⟩

theorem driven (rounds : Rounds fine origin after) : Driven origin after := by
  obtain ⟨rounds, given, _, same⟩ := rounds
  exact ⟨rounds, given, same⟩

end Rounds

/-- A run consists of rounds, each of them answered if the run is. -/
def Drives (action : HypervisorAction α) (origin : Hypervisor) : Prop :=
  Halts (fun _ after => Rounds False origin after) (fun _ after => Rounds True origin after)
    (action origin)

/-- Rounds follow rounds. -/
theorem Drives.bind {action : HypervisorAction α} {next : α → HypervisorAction β}
    (first : Drives action origin) (then_ : ∀ answer middle, Drives (next answer) middle) :
    Drives (action >>= next) origin := by
  apply Halts.bind first
  intro answer middle before
  apply (then_ answer middle).mono
  · exact fun _ _ rounds => before.trans rounds
  · exact fun _ _ rounds => (before.mono fun never => never.elim).trans rounds

theorem drives_pure (answer : α) : Drives (pure answer : HypervisorAction α) origin := .refl origin

theorem drives_throw (error : HostError) :
    Drives (throw error : HypervisorAction α) origin := .refl origin

/-- A round is one of its own. -/
theorem drives_of_round {operation : Operation} (round : operation.IsRound)
    {action : HypervisorAction α} {answer : α → Answer}
    (same : operation.perform = action >>= fun given => pure (answer given)) :
    Drives action origin := by
  have rounds : Rounds ((answerOf (operation.perform origin)).isOk = true) origin
      (finalState (operation.perform origin)) := by
    refine ⟨[operation], fun _ member => List.mem_singleton.mp member ▸ round, ?_, rfl⟩
    intro answered outcome member
    exact List.mem_singleton.mp member ▸ answered
  rw [same, bind_apply, EStateM.bind] at rounds
  unfold Drives
  generalize action origin = result at rounds
  cases result with
  | error error after => exact rounds.mono fun never => never.elim
  | ok given after => exact rounds.mono fun _ => rfl

theorem drives_scheduleOnce : Drives scheduleOnce origin := drives_of_round (.inl rfl) rfl

theorem drives_finalizeTrapped : Drives (finalizeTrapped id) origin :=
  drives_of_round (.inr ⟨id, rfl⟩) rfl

theorem drives_contextOf : Drives (contextOf id) origin := by
  unfold Drives
  rw [contextOf_apply]
  split <;> exact .refl origin

theorem drives_requireOwned : Drives (requireOwned id) origin := by
  unfold Drives
  rw [requireOwned_apply]
  split <;> exact .refl origin

theorem drives_awaitOnce : Drives (awaitOnce id) origin := by
  apply drives_contextOf.bind
  intro context middle
  dsimp only
  split
  · exact drives_pure _
  · exact drives_finalizeTrapped.bind fun _ _ => drives_pure _
  · apply drives_scheduleOnce.bind
    intro scheduled middle
    split
    · exact drives_throw _
    · exact drives_pure _

theorem drives_await (rounds : Nat) : Drives (await id rounds) origin := by
  induction rounds generalizing origin with
  | zero => exact drives_pure _
  | succ rounds ih =>
      apply drives_awaitOnce.bind
      intro ended middle
      cases ended with
      | some status => exact drives_pure _
      | none => exact ih

theorem drives_exhaust (rounds : Nat) : Drives (exhaust rounds) origin := by
  induction rounds generalizing origin with
  | zero => exact drives_pure _
  | succ rounds ih =>
      apply drives_scheduleOnce.bind
      intro scheduled middle
      cases scheduled with
      | some id => exact ih
      | none => exact drives_pure _

/-- **A run of many rounds consists of single rounds**, each of them answered if the run is. -/
theorem rounds_of_many {operation : Operation} (many : operation.single = false)
    (origin : Hypervisor) :
    Rounds ((answerOf (operation.perform origin)).isOk = true) origin
        (finalState (operation.perform origin)) ∧
      ∀ id, answerOf (operation.perform origin) ≠ .ok (.context id) := by
  have drives {α : Type} {action : HypervisorAction α} (answer : α → Answer)
      (run : Drives action origin) (plain : ∀ given id, answer given ≠ .context id) :
      Rounds ((answerOf ((action >>= fun given => pure (answer given)) origin)).isOk = true) origin
          (finalState ((action >>= fun given => pure (answer given)) origin)) ∧
        ∀ id, answerOf ((action >>= fun given => pure (answer given)) origin) ≠
          .ok (.context id) := by
    refine ⟨?_, answerOf_ne_context plain⟩
    unfold Drives at run
    rw [bind_apply, EStateM.bind]
    generalize action origin = result at run
    cases result with
    | error error after => exact Rounds.mono run fun answered => Bool.false_ne_true answered
    | ok given after => exact Rounds.mono run fun _ => trivial
  cases operation with
  | run rounds id =>
      refine drives _ ?_ fun _ _ same => nomatch same
      exact drives_requireOwned.bind fun _ _ => drives_await rounds
  | runAll rounds =>
      refine drives _ ?_ fun _ _ same => nomatch same
      apply (drives_exhaust rounds).bind
      intro finished middle
      split
      · exact .refl middle
      · exact drives_pure _
  | _ => cases many

/-- **A run of many rounds leads nowhere but single rounds lead.** -/
theorem driven_of_many {operation : Operation} (many : operation.single = false)
    (origin : Hypervisor) : Driven origin (finalState (operation.perform origin)) ∧
      ∀ id, answerOf (operation.perform origin) ≠ .ok (.context id) :=
  (rounds_of_many many origin).imp_left Rounds.driven

/-- Rounds hand on what holds of the whole. -/
theorem Driven.heir (kinship : Kinship loaded origin) (driven : Driven origin after) :
    Heir neat origin after := by
  obtain ⟨rounds, given, rfl⟩ := driven
  induction rounds generalizing origin with
  | nil => exact .refl origin
  | cons round rest ih =>
      obtain ⟨here, later⟩ := List.forall_mem_cons.mp given
      have passes : Passes neat round.perform origin := by
        refine passes_single kinship here.single fun _ id request same => ?_
        rcases here with rfl | ⟨_, rfl⟩ <;> cases same
      have heir := passes.1.heir here.plain
      exact heir.trans (ih (heir.kinship loaded kinship) later)

/-! ## Sequences of operations -/

/-- **What any operation leaves**, also if it fails, holds on. -/
theorem passed_perform (kinship : Kinship loaded origin) (operation : Operation)
    (live : neat → ∀ id request, operation = .access id request →
      ∀ kin, origin.kin id = some kin → kin.exitStatus = none) :
    Passed neat (fun id => answerOf (operation.perform origin) = .ok (.context id)) origin
      (finalState (operation.perform origin)) := by
  cases single : operation.single with
  | true => exact (passes_single kinship single live).1
  | false =>
      obtain ⟨driven, plain⟩ := driven_of_many single origin
      exact (driven.heir kinship).passed plain

/-- **Families agree after any operation**, with what it may have loaded. -/
theorem Kinship.perform (kinship : Kinship loaded origin) (operation : Operation) :
    Kinship (fun id => loaded id ∨ answerOf (operation.perform origin) = .ok (.context id))
      (finalState (operation.perform origin)) := by
  have passed : Passed False (fun id => answerOf (operation.perform origin) = .ok (.context id))
      origin (finalState (operation.perform origin)) :=
    passed_perform kinship operation fun never => never.elim
  exact passed.kinship _ kinship

/-- The contexts that operations have loaded. -/
def loadedBy (operations : List Operation) (start : Hypervisor) (id : ContextId) : Prop :=
  ∃ entry ∈ trail Operation.perform operations start, entry.1 = .ok (.context id)

theorem loadedBy_cons {operation : Operation} {rest : List Operation} :
    loadedBy (operation :: rest) origin id ↔
      answerOf (operation.perform origin) = .ok (.context id) ∨
        loadedBy rest (finalState (operation.perform origin)) id := by
  simp [loadedBy, trail]

/-- **What any operations leave holds on.** -/
theorem passed_stateAfter (kinship : Kinship loaded origin) (operations : List Operation)
    (live : neat → ∀ earlier id request later, operations = earlier ++ .access id request :: later →
      ∀ kin, (stateAfter Operation.perform earlier origin).kin id = some kin →
        kin.exitStatus = none) :
    Passed neat (loadedBy operations origin) origin
      (stateAfter Operation.perform operations origin) := by
  induction operations generalizing loaded origin with
  | nil => exact (Heir.refl origin).passed fun _ ⟨_, member, _⟩ => nomatch member
  | cons operation rest ih =>
      have first := passed_perform kinship operation fun clean id request same =>
        live clean [] id request rest (congrArg (· :: rest) same)
      refine first.trans (ih (first.kinship loaded kinship) ?_) fun _ => loadedBy_cons
      intro clean earlier id request later same
      exact live clean (operation :: earlier) id request later (congrArg (operation :: ·) same)

/-- A stack without contexts. -/
theorem kinship_of_nested {configuration : Configuration} {host : Host} {journal : Journal}
    {level : Nat} (built : nested configuration host journal level = .ok origin) :
    Kinship (fun _ => False) origin := by
  obtain ⟨uniform, missing, own⟩ := empty_of_nested built
  have absent (id : ContextId) (kin : Kin) (found : origin.kin id = some kin) : False := by
    rw [missing] at found
    cases found
  exact {
    uniform
    owned := fun id => by
      rw [own, missing]
      exact iff_of_false TreeSet.not_mem_emptyc (by simp)
    young := fun id kin found => (absent id kin found).elim
    known := fun _ loads => loads.elim
    linked := fun id kin found => (absent id kin found).elim
    parents := fun id kin _ found => (absent id kin found).elim
    rooted := fun id kin found => (absent id kin found).elim
    exited := fun id kin found => (absent id kin found).elim
    orphans := fun id => by
      rw [own, missing]
      exact iff_of_false TreeSet.not_mem_emptyc (by simp)
    kept := fun id kin found => (absent id kin found).elim
    waits := fun id kin found => (absent id kin found).elim
    hopes := fun id kin found => (absent id kin found).elim }

/-- **After any operations the families agree**, whether the operations have failed or not. -/
theorem kinship_stateAfter {configuration : Configuration} {host : Host} {journal : Journal}
    {level : Nat} {start : Hypervisor} (built : nested configuration host journal level = .ok start)
    (operations : List Operation) :
    Kinship (loadedBy operations start) (stateAfter Operation.perform operations start) := by
  have passed : Passed False (loadedBy operations start) start
      (stateAfter Operation.perform operations start) :=
    passed_stateAfter (kinship_of_nested built) operations fun never => never.elim
  simpa only [false_or] using passed.kinship _ (kinship_of_nested built)

/-! ## Waiting parents -/

/-- A child is among those that a wait is for: the one that is named, or any if none is. -/
def Matches (target : Option ContextId) (child : ContextId) : Prop :=
  ∀ named, target = some named → named = child

theorem waitsFor_iff {target : Option ContextId} :
    waitsFor (.blocked (.wait target)) child = true ↔ Matches target child := by
  cases target with
  | none => exact iff_of_true rfl fun _ same => nomatch same
  | some named => simp [waitsFor, Matches]

/-- A context that is blocked in a wait waits for each child that it names, and each is live. -/
theorem Kinship.awaits (kinship : Kinship loaded origin) {context : Context}
    {target : Option ContextId} (found : origin.machine.context? parent = some context)
    (waiting : context.state = .blocked (.wait target)) (member : child ∈ context.children)
    (named : Matches target child) : origin.Awaits parent child := by
  have there := kin_of_context? kinship.uniform found
  have waits : waitsFor context.kin.state child = true := by
    rw [show context.kin.state = _ from waiting]
    exact waitsFor_iff.mpr named
  exact ⟨_, there, member, waits, kinship.hopes parent _ there child member waits⟩

/-- A child is there, and has a number of its own. -/
theorem Kinship.child_there (kinship : Kinship loaded origin) {context : Context}
    (found : origin.machine.context? id = some context) (member : child ∈ context.children) :
    child ≠ id ∧ ∃ kept, origin.machine.context? child = some kept ∧ kept.parent = some id := by
  obtain ⟨kin, there, link⟩ := (kinship.linked id context.kin
    (kin_of_context? kinship.uniform found) child).mp member
  obtain ⟨kept, found', rfl⟩ := exists_context? kinship.uniform there
  exact ⟨(Nat.ne_of_lt (kinship.parents child _ id there link).1).symm, kept, found', link⟩

theorem Queued.exists_ready (queued : origin.Queued id) (uniform : origin.machine.Uniform) :
    ∃ context, origin.machine.context? id = some context ∧ context.state = .ready ∧
      id ∈ origin.own.ready := by
  obtain ⟨⟨kin, known, ready⟩, place⟩ := queued
  obtain ⟨context, found, rfl⟩ := exists_context? uniform known
  exact ⟨context, found, ready, place⟩

/-- **The operation in which an awaited child ends makes the parent ready.** -/
theorem Kinship.wakes (kinship : Kinship loaded origin) {operation : Operation}
    (single : operation.single = true) {context : Context} {target : Option ContextId}
    (found : origin.machine.context? parent = some context)
    (waiting : context.state = .blocked (.wait target)) (member : child ∈ context.children)
    (named : Matches target child) :
    let after := finalState (operation.perform origin)
    (∀ other, after.machine.context? child = some other → other.exitStatus ≠ none) →
    ∃ context, after.machine.context? parent = some context ∧ context.state = .ready ∧
      parent ∈ after.own.ready := by
  intro after ended
  have passes : Passes False operation.perform origin :=
    passes_single kinship single fun never => never.elim
  have uniform : after.machine.Uniform := (passes.1.kinship _ kinship).uniform
  rcases passes.2 parent child (kinship.awaits found waiting member named) with lives | queued
  · obtain ⟨kin, known, lives⟩ := lives
    obtain ⟨other, found', rfl⟩ := exists_context? uniform known
    exact absurd lives (ended other found')
  · exact queued.exists_ready uniform

end NestedMachine.Hypervisor
