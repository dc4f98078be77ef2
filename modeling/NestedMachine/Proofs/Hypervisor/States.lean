import NestedMachine.Proofs.Hypervisor.Services
import NestedMachine.Proofs.Hypervisor.Wakeups

/-!
# The states of a context

While an operation is under way, the context that it serves runs and is blocked by its own system
call.  When the operation has succeeded, nobody is left like that: each context is ready, waits for
a child, is parked by a fault, or has ended (`AtRest`).

A context that is not the one that is served goes on from its state in two ways only
(`Course.bystander`): it has waited for a child that has ended (`Woken`), or the one that is served
is its parent and has killed it (`Killed`).  The system call of a context cannot end that context or
wake it, because links lead from older to younger contexts.  The context that is served was ready
before, and so the others account for all other changes (`moves_single`), along any operations that
succeed (`states_lawful`).
-/

namespace NestedMachine.Hypervisor

set_option autoImplicit false

open Std (TreeSet)

variable {α : Type} {origin middle after : Hypervisor} {loaded : ContextId → Prop}
  {id other parent child caller : ContextId} {gone kin kin' : Kin} {status : ExitStatus}

/-! ## How a context goes on -/

/-- A context stays where it was: its state and its exit status are the same, and it has got no
child. -/
structure Stays (before now : Kin) : Prop where
  state : now.state = before.state
  exitStatus : now.exitStatus = before.exitStatus
  children : ∀ child ∈ now.children, child ∈ before.children

namespace Stays

theorem refl (kin : Kin) : Stays kin kin := ⟨rfl, rfl, fun _ member => member⟩

theorem trans {first second third : Kin} (left : Stays first second) (right : Stays second third) :
    Stays first third :=
  ⟨right.state.trans left.state, right.exitStatus.trans left.exitStatus,
    fun child member => left.children child (right.children child member)⟩

end Stays

/-- A context has waited for a child that has ended, and is ready. -/
structure Woken (origin after : Hypervisor) (before now : Kin) : Prop where
  state : now.state = .ready
  exitStatus : now.exitStatus = before.exitStatus
  ended : ∃ child ∈ before.children, waitsFor before.state child = true ∧ origin.Live child ∧
    ¬after.Live child

/-- A context has been killed. -/
structure Killed (before now : Kin) : Prop where
  live : before.exitStatus = none
  state : now.state = .exited
  exitStatus : now.exitStatus = some .killed

/-! ## Quiet changes -/

/-- A context that is there after a quiet change, and is not new, was there before.  It has ended
if it had, and stays where it was unless it is the one that is served. -/
theorem Quiet.stays (quiet : Quiet caller origin after)
    (older : other < origin.machine.interpreter.nextId) (found : after.kin other = some kin') :
    ∃ kin, origin.kin other = some kin ∧ kin'.exitStatus = kin.exitStatus ∧
      (other ≠ caller → Stays kin kin') := by
  cases quiet with
  | hushed _ hushed =>
      exact ⟨kin', (hushed.kin other).symm.trans found, rfl, fun _ => .refl kin'⟩
  | queued machine =>
      rw [Hypervisor.kin, machine] at found
      exact ⟨kin', found, rfl, fun _ => .refl kin'⟩
  | set _ _ _ _ altered =>
      obtain ⟨kin, there, rfl⟩ := altered.of_found found
      refine ⟨kin, there, by split <;> rfl, fun different => ?_⟩
      rw [if_neg different.symm]
      exact .refl kin
  | begun _ born =>
      obtain ⟨_, kin, there, state, exitStatus, _, children⟩ :=
        (born.new_or_old found).resolve_left fun new => born.fresh older new.1
      refine ⟨kin, there, exitStatus, fun different => ⟨state, exitStatus, fun child member => ?_⟩⟩
      exact ((children child).mp member).resolve_left fun new =>
        different (Option.some.inj new.2).symm
  | removed removed =>
      obtain ⟨_, kin, there, rfl⟩ := removed.of_found found
      exact ⟨kin, there, rfl, fun _ => ⟨rfl, rfl, fun _ member =>
        (Removed.mem_children.mp member).1⟩⟩

theorem Calm.stays (calm : Calm caller origin after)
    (older : other < origin.machine.interpreter.nextId) (found : after.kin other = some kin') :
    ∃ kin, origin.kin other = some kin ∧ kin'.exitStatus = kin.exitStatus ∧
      (other ≠ caller → Stays kin kin') := by
  induction calm generalizing kin' with
  | refl => exact ⟨kin', found, rfl, fun _ => .refl kin'⟩
  | @tail middle _ before quiet ih =>
      have heir : Heir False origin middle := Calm.heir before
      obtain ⟨kin, there, same, stays⟩ := quiet.stays (older.trans_le heir.nextId) found
      obtain ⟨kin', there', same', stays'⟩ := ih there
      exact ⟨kin', there', same.trans same', fun different =>
        (stays' different).trans (stays different)⟩

/-! ## The end of a context -/

/-- The end of another context wakes a parent that has waited for it, and that is all. -/
theorem Terminated.outlived (ends : Terminated id gone status origin after)
    (kinship : Kinship loaded origin) (live : gone.exitStatus = none) (different : id ≠ other)
    (found : after.kin other = some kin') :
    ∃ kin, origin.kin other = some kin ∧ (Stays kin kin' ∨ Woken origin after kin kin') := by
  obtain ⟨kin, there, exitStatus, children, _, same | ⟨ready, waits, parent⟩⟩ :=
    ends.of_found different found
  · exact ⟨kin, there, .inl ⟨same.1, exitStatus, fun _ member => children ▸ member⟩⟩
  · refine ⟨kin, there, .inr ⟨ready, exitStatus, id, ?_, waits, ⟨gone, ends.there, live⟩, ?_⟩⟩
    · exact (kinship.linked other kin there id).mpr ⟨gone, ends.there, parent⟩
    · rintro ⟨left, self, lives⟩
      obtain ⟨_, rfl⟩ := ends.self self
      cases lives

/-! ## Courses -/

namespace Course

/-- **Whoever is not served stays where it was**, unless it is woken by the end of a child or
killed by its parent. -/
theorem bystander (course : Course caller origin after) (kinship : Kinship loaded origin)
    (different : other ≠ caller) (there : origin.kin other = some kin)
    (found : after.kin other = some kin') :
    Stays kin kin' ∨ Woken origin after kin kin' ∨ Killed kin kin' := by
  have older := kinship.young other kin there
  cases course with
  | calm calm =>
      obtain ⟨_, there', _, stays⟩ := calm.stays older found
      obtain rfl := Option.some.inj (there.symm.trans there')
      exact .inl (stays different)
  | @ends middle last id gone status before idle ends live own rest =>
      have kinship' := before.kinship kinship
      have heir : Heir False origin middle := before.heir
      have nextId : origin.machine.interpreter.nextId ≤ last.machine.interpreter.nextId :=
        heir.nextId.trans_eq ends.nextId.symm
      obtain ⟨ended, found', _, kept⟩ := rest.calm.stays (older.trans_le nextId) found
      have later := kept different
      by_cases here : id = other
      · subst here
        obtain ⟨_, rfl⟩ := own.resolve_left different
        obtain ⟨_, rfl⟩ := ends.self found'
        obtain ⟨_, there', same, _⟩ := before.stays older ends.there
        obtain rfl := Option.some.inj (there.symm.trans there')
        exact .inr (.inr ⟨same.symm.trans live, later.state, later.exitStatus⟩)
      obtain ⟨between, known, outlived⟩ := ends.outlived kinship' live here found'
      obtain ⟨_, there', _, kept'⟩ := before.stays older known
      obtain rfl := Option.some.inj (there.symm.trans there')
      have earlier := kept' different
      rcases outlived with stays | woken
      · exact .inl (earlier.trans (stays.trans later))
      · obtain ⟨child, member, waits, ⟨link, known', lives⟩, dead⟩ := woken.ended
        have member' := earlier.children child member
        obtain ⟨young, known'', _⟩ := (kinship.linked other kin there child).mp member'
        have childOlder := kinship.young child young known''
        refine .inr (.inl ⟨later.state.trans woken.state, ?_, child, member', ?_, ?_, ?_⟩)
        · exact later.exitStatus.trans (woken.exitStatus.trans earlier.exitStatus)
        · rw [← earlier.state]
          exact waits
        · obtain ⟨_, there'', same, _⟩ := before.stays childOlder known'
          exact ⟨_, there'', same.symm.trans lives⟩
        · rintro ⟨left, found'', lives'⟩
          obtain ⟨_, there'', same, _⟩ :=
            rest.calm.stays (childOlder.trans_le nextId) found''
          exact dead ⟨_, there'', same.symm.trans lives'⟩

/-- Whoever is live is not removed, unless it is an orphan when it ends. -/
theorem there_of_live (course : Course caller origin after) (live : origin.Live other)
    (claimed : ∀ middle gone, Calm caller origin middle → middle.kin other = some gone →
      (other = caller ∨ gone.parent = some caller) → other ∉ middle.own.orphans) :
    ∃ kin, after.kin other = some kin := by
  cases course with
  | calm calm =>
      obtain ⟨kin, found, _⟩ := calm.live live
      exact ⟨kin, found⟩
  | @ends middle last id gone status before idle ends _ own rest =>
      have there : ∃ kin, last.kin other = some kin := by
        by_cases here : id = other
        · subst here
          rw [ends.kin, if_pos rfl,
            if_neg (claimed middle gone before ends.there (own.imp_right And.left))]
          exact ⟨_, rfl⟩
        · obtain ⟨kin, found, _⟩ := ends.live here (before.live live)
          exact ⟨kin, found⟩
      obtain ⟨kin, found⟩ := there
      exact rest.there other kin found

/-- Whoever is not served and is live is not removed. -/
theorem remains (course : Course caller origin after) (kinship : Kinship loaded origin)
    (different : other ≠ caller) (live : origin.Live other) :
    ∃ kin, after.kin other = some kin := by
  apply course.there_of_live live
  intro middle gone before there own member
  -- Who is killed has a parent, and so it is no orphan.
  obtain ⟨_, there', _, none, _⟩ := ((before.kinship kinship).orphans other).mp member
  obtain rfl := Option.some.inj (there.symm.trans there')
  cases (own.resolve_left different).symm.trans none

/-- Whoever is loaded and is live is not removed. -/
theorem remains_loaded (course : Course caller origin after) (kinship : Kinship loaded origin)
    (loads : loaded other) (live : origin.Live other) : ∃ kin, after.kin other = some kin := by
  apply course.there_of_live live
  intro middle gone before _ _ member
  obtain ⟨_, _, _, _, forked⟩ := ((before.kinship kinship).orphans other).mp member
  exact forked loads

end Course

/-! ## Contexts at rest -/

/-- A context, if it is there, neither runs nor is in a system call. -/
def AtRest (hypervisor : Hypervisor) (id : ContextId) : Prop :=
  ∀ kin, hypervisor.kin id = some kin → Settled kin.state

theorem AtRest.of_stays (rest : origin.AtRest other) (there : origin.kin other = some kin)
    (stays : Stays kin kin') : Settled kin'.state := by
  rw [stays.state]
  exact rest kin there

/-- A quiet change leaves everyone at rest but the context that is served. -/
theorem Quiet.atRest (quiet : Quiet caller origin after) (kinship : Kinship loaded origin)
    (rest : ∀ other, other ≠ caller → origin.AtRest other) (different : other ≠ caller) :
    after.AtRest other := by
  intro kin' found
  by_cases older : other < origin.machine.interpreter.nextId
  · obtain ⟨kin, there, _, stays⟩ := quiet.stays older found
    exact (rest other different).of_stays there (stays different)
  have new (kin : Kin) : origin.kin other ≠ some kin := fun there =>
    older (kinship.young other kin there)
  cases quiet with
  | hushed _ hushed => exact absurd ((hushed.kin other).symm.trans found) (new kin')
  | queued machine =>
      rw [Hypervisor.kin, machine] at found
      exact absurd found (new kin')
  | set _ _ _ _ altered =>
      obtain ⟨kin, there, _⟩ := altered.of_found found
      exact absurd there (new kin)
  | begun _ born =>
      rcases born.new_or_old found with ⟨_, rfl⟩ | ⟨_, kin, there, _⟩
      · trivial
      · exact absurd there (new kin)
  | removed removed =>
      obtain ⟨_, kin, there, _⟩ := removed.of_found found
      exact absurd there (new kin)

theorem Calm.atRest (calm : Calm caller origin after) (kinship : Kinship loaded origin)
    (rest : ∀ other, other ≠ caller → origin.AtRest other) (different : other ≠ caller) :
    after.AtRest other := by
  induction calm generalizing other with
  | refl => exact rest other different
  | @tail middle _ before quiet ih =>
      exact quiet.atRest (Calm.kinship before kinship) (fun _ apart => ih apart) different

/-- The end of a context leaves everyone at rest who was. -/
theorem Terminated.atRest (ends : Terminated id gone status origin after)
    (kinship : Kinship loaded origin) (live : gone.exitStatus = none) (rest : origin.AtRest other) :
    after.AtRest other := by
  intro kin' found
  by_cases here : id = other
  · subst here
    obtain ⟨_, rfl⟩ := ends.self found
    trivial
  · obtain ⟨kin, there, stays | woken⟩ := ends.outlived kinship live here found
    · exact rest.of_stays there stays
    · rw [woken.state]
      trivial

/-- A course leaves everyone at rest but the context that is served. -/
theorem Course.atRest (course : Course caller origin after) (kinship : Kinship loaded origin)
    (rest : ∀ other, other ≠ caller → origin.AtRest other) (different : other ≠ caller) :
    after.AtRest other := by
  cases course with
  | calm calm => exact calm.atRest kinship rest different
  | ends before _ ends live _ later =>
      have kinship' := before.kinship kinship
      apply later.calm.atRest (kinship'.terminated ends live) (fun apart distinct => ?_) different
      exact ends.atRest kinship' live (before.atRest kinship rest distinct)

/-! ## What faults do -/

/-- Whether faults park contexts is a setting that only its own operation changes. -/
theorem stolid_debugTraps (debugTraps : Bool) :
    Stolid fun hypervisor => hypervisor.own.debugTraps = debugTraps where
  note _ := .modify fun _ given => given
  own housekeeping := .modify fun _ given => (housekeeping _).2.trans given
  host _ _ given := given
  change _ _ _ hypervisor given := by
    rw [modifyContext_apply]
    split <;> exact given
  destroy _ := keeps_below_of_own (fun _ _ given => given) _

theorem firm_debugTraps (debugTraps : Bool) :
    Firm Anyone fun hypervisor => hypervisor.own.debugTraps = debugTraps := by
  have machine {α : Type} (action : MachineAction α) :
      Keeps (fun hypervisor => hypervisor.own.debugTraps = debugTraps) (below action) :=
    keeps_below_of_own (fun _ _ given => given) action
  have stolid := stolid_debugTraps debugTraps
  have terminate (id : ContextId) (status : ExitStatus) :
      Keeps (fun hypervisor => hypervisor.own.debugTraps = debugTraps)
        (Hypervisor.terminate id status) :=
    stolid.sturdy.terminate trivial (machine _) status
  exact {
    toSturdy := stolid.sturdy
    memory := fun {id} _ _ action _ => by
      rintro ⟨machine, own⟩ given
      unfold onMemory
      dsimp only
      split <;> exact given
    terminate := fun {id} _ => terminate id
    load := stolid.load fun _ _ => machine _
    fork := fun _ => stolid.serveFork (machine _)
    switch := fun _ _ => machine _ }

/-! ## Every operation -/

/-- How a context goes on that is there before and after an operation. -/
inductive Moves (finalized : Prop) (origin after : Hypervisor) (id : ContextId) (before now : Kin) :
    Prop where
  | stays (stays : Stays before now)
  | turn (ready : before.state = .ready) (rested : after.Rested id)
      (unset : after.own.debugTraps = origin.own.debugTraps)
  | woken (woken : Woken origin after before now)
  | killed (killed : Killed before now)
  | ended {fault : Fault} {pc : UInt64} (finalized : finalized)
      (parked : before.state = .trapped fault pc) (state : now.state = .exited)
      (exitStatus : now.exitStatus = some (.faulted fault pc))

/-- What an operation that has succeeded has done to the states of all contexts. -/
structure Moved (finalized : ContextId → Prop) (origin after : Hypervisor) : Prop where
  moves : ∀ id before now, origin.kin id = some before → after.kin id = some now →
    Moves (finalized id) origin after id before now
  remains : ∀ id before, origin.kin id = some before → before.exitStatus = none →
    before.state ≠ .ready → ¬finalized id → ∃ now, after.kin id = some now
  atRest : ∀ id, after.AtRest id

namespace Moved

variable {finalized : ContextId → Prop}

/-- What families look like has not changed. -/
theorem of_same (rest : ∀ id, origin.AtRest id) (same : ∀ id, after.kin id = origin.kin id) :
    Moved finalized origin after where
  moves id before now there found := by
    obtain rfl := Option.some.inj (found.symm.trans ((same id).trans there))
    exact .stays (.refl now)
  remains id before there _ _ _ := ⟨before, (same id).trans there⟩
  atRest id kin found := rest id kin ((same id).symm.trans found)

theorem of_machine (rest : ∀ id, origin.AtRest id) (same : after.machine = origin.machine) :
    Moved finalized origin after :=
  of_same rest fun id => by rw [kin, same]; rfl

/-- A context has had a turn. -/
theorem of_course (kinship : Kinship loaded origin) (rest : ∀ id, origin.AtRest id)
    (course : Course caller origin after)
    (ready : ∃ kin, origin.kin caller = some kin ∧ kin.state = .ready)
    (rested : after.Rested caller) (unset : after.own.debugTraps = origin.own.debugTraps) :
    Moved finalized origin after where
  moves id before now there found := by
    by_cases here : id = caller
    · subst here
      obtain ⟨kin, there', ready⟩ := ready
      obtain rfl := Option.some.inj (there.symm.trans there')
      exact .turn ready rested unset
    · rcases course.bystander kinship here there found with stays | woken | killed
      · exact .stays stays
      · exact .woken woken
      · exact .killed killed
  remains id before there live unready _ := by
    apply course.remains kinship _ ⟨before, there, live⟩
    rintro rfl
    obtain ⟨kin, there', ready⟩ := ready
    obtain rfl := Option.some.inj (there.symm.trans there')
    exact unready ready
  atRest id := by
    by_cases here : id = caller
    · exact fun kin found => (rested kin (here ▸ found)).1
    · exact course.atRest kinship (fun other _ => rest other) here

/-- Nothing but quiet changes have happened, on nobody's behalf. -/
theorem of_calm (kinship : Kinship loaded origin) (rest : ∀ id, origin.AtRest id)
    (calm : ∀ caller, Calm caller origin after) : Moved finalized origin after where
  moves id before now there found := by
    obtain ⟨kin, there', _, stays⟩ := (calm (id + 1)).stays (kinship.young id before there) found
    obtain rfl := Option.some.inj (there.symm.trans there')
    exact .stays (stays (Nat.succ_ne_self id).symm)
  remains id before there live _ _ := by
    obtain ⟨kin, found, _⟩ := (calm id).live ⟨before, there, live⟩
    exact ⟨kin, found⟩
  atRest id :=
    (calm (id + 1)).atRest kinship (fun other _ => rest other) (Nat.succ_ne_self id).symm

/-- A context has ended. -/
theorem of_terminated (kinship : Kinship loaded origin) (rest : ∀ id, origin.AtRest id)
    (ends : Terminated id gone status origin after) (live : gone.exitStatus = none)
    (moves : ∀ now : Kin, now.state = .exited → now.exitStatus = some status →
      Moves (finalized id) origin after id gone now)
    (remains : gone.parent = none → finalized id) : Moved finalized origin after where
  moves other before now there found := by
    by_cases here : id = other
    · subst here
      obtain rfl := Option.some.inj (there.symm.trans ends.there)
      obtain ⟨_, rfl⟩ := ends.self found
      exact moves _ rfl rfl
    · obtain ⟨kin, there', outlived⟩ := ends.outlived kinship live here found
      obtain rfl := Option.some.inj (there.symm.trans there')
      exact outlived.elim .stays .woken
  remains other before there lives _ unfinalized := by
    by_cases here : id = other
    · subst here
      have claimed : id ∉ origin.own.orphans := by
        intro member
        obtain ⟨_, there', _, none, _⟩ := (kinship.orphans id).mp member
        obtain rfl := Option.some.inj (there'.symm.trans ends.there)
        exact unfinalized (remains none)
      rw [ends.kin, if_pos rfl, if_neg claimed]
      exact ⟨_, rfl⟩
    · obtain ⟨kin, found, _⟩ := ends.live here ⟨before, there, lives⟩
      exact ⟨kin, found⟩
  atRest other := ends.atRest kinship live (rest other)

/-- A context has begun. -/
theorem of_born (kinship : Kinship loaded origin) (rest : ∀ id, origin.AtRest id)
    (born : Born none child origin middle) (same : ∀ id, after.kin id = middle.kin id) :
    Moved finalized origin after where
  moves id before now there found := by
    rw [same] at found
    obtain ⟨_, kin, there', state, exitStatus, _, children⟩ :=
      (born.new_or_old found).resolve_left fun new =>
        born.fresh (kinship.young id before there) new.1
    obtain rfl := Option.some.inj (there.symm.trans there')
    refine .stays ⟨state, exitStatus, fun child member => ?_⟩
    exact ((children child).mp member).resolve_left fun new => nomatch new.2
  remains id before there _ _ _ := by
    obtain ⟨kin, found, _⟩ := born.keeps (kinship.young id before there) there
    exact ⟨kin, (same id).trans found⟩
  atRest id kin found := by
    rw [same] at found
    rcases born.new_or_old found with ⟨_, rfl⟩ | ⟨_, before, there, state, _⟩
    · trivial
    · rw [state]
      exact rest id before there

end Moved

/-- What is known of a run, and of its answer if it succeeds. -/
theorem Within.of_ok {relation : Hypervisor → Hypervisor → Prop} {told : α → Hypervisor → Prop}
    {action : HypervisorAction α} {answer : α → Answer} {given : Answer}
    (run : Within relation told action origin)
    (ok : (action >>= fun found => pure (answer found)) origin = .ok given after) :
    relation origin after ∧ ∃ found, told found after := by
  obtain ⟨found, middle, done, rest⟩ := ok_of_bind ok
  cases rest
  unfold Within at run
  rw [done] at run
  exact ⟨run.1, found, run.2⟩

/-- What a load leaves is the machine with the new context. -/
theorem within_load (uniform : origin.machine.Uniform) (image : Image) (arguments : List String) :
    Within (fun _ _ => True) (fun id after => ∃ middle, Born none id origin middle ∧
      ∀ other, after.kin other = middle.kin other) (load image arguments) origin := by
  apply Halts.get_bind
  apply ((halts_create uniform image _).mono (fun _ _ given => given) fun _ _ _ => trivial).bind
  rintro id created ⟨born, _⟩
  exact ⟨trivial, created, born, fun _ => rfl⟩

/-- **What every operation that succeeds does to the states of contexts**, but a run of many
rounds. -/
theorem moved_single (kinship : Kinship loaded origin) (rest : ∀ id, origin.AtRest id)
    {operation : Operation} (single : operation.single = true) {answer : Answer}
    (ok : operation.perform origin = .ok answer after) :
    Moved (fun id => operation = .finalizeTrapped id) origin after := by
  have resting {α : Type} {action : HypervisorAction α} {tells : α → Answer}
      (run : Within Resting Whatever action origin)
      (ok : (action >>= fun found => pure (tells found)) origin = .ok answer after) :
      Moved (fun id => operation = .finalizeTrapped id) origin after :=
    .of_machine rest (run.of_ok ok).1.machine
  have unset (other : ∀ debugTraps, operation ≠ .setDebugTraps debugTraps) :
      after.own.debugTraps = origin.own.debugTraps := by
    have kept := ((firm_debugTraps origin.own.debugTraps).operation
      (fun debugTraps same => absurd same (other debugTraps))
      fun id _ => (stolid_debugTraps _).requeue id).finalState rfl
    rw [ok] at kept
    exact kept
  have changes {change : Supervisor → Supervisor}
      (ok : (modifyOwn change >>= fun _ => pure Answer.done) origin = .ok answer after) :
      Moved (fun id => operation = .finalizeTrapped id) origin after := by
    cases ok
    exact .of_machine rest rfl
  cases operation with
  | load image arguments =>
      obtain ⟨_, id, middle, born, same⟩ := (within_load kinship.uniform image arguments).of_ok ok
      exact .of_born kinship rest born same
  | run rounds id => cases single
  | runAll rounds => cases single
  | scheduleOnce =>
      obtain ⟨_, turn, taken⟩ := (within_scheduleOnce kinship).of_ok ok
      cases turn with
      | none => exact .of_machine rest taken
      | some caller =>
          exact .of_course kinship rest taken.1 taken.2.1 taken.2.2 (unset fun _ => by nofun)
  | slice id quantum =>
      obtain ⟨course, _, ready, rested⟩ := (within_slice kinship quantum).of_ok ok
      exact .of_course kinship rest course ready rested (unset fun _ => by nofun)
  | step id =>
      obtain ⟨course, _, rfl | ⟨⟨kin, found, ready | running⟩, rested⟩⟩ :=
        (within_step kinship).of_ok ok
      · exact .of_machine rest rfl
      · exact .of_course kinship rest course ⟨kin, found, ready⟩ rested (unset fun _ => by nofun)
      · have settled := rest id kin found
        rw [running] at settled
        exact settled.elim
  | kill parent child =>
      have run : Within (fun origin after => after = origin ∨ ∃ gone, gone.parent = some parent ∧
          gone.exitStatus = none ∧ Terminated child gone .killed origin after) Whatever
          (kill parent child) origin :=
        (halts_kill kinship parent child).certain fun _ _ given => ⟨given, trivial⟩
      obtain ⟨rfl | ⟨gone, link, live, ends⟩, _⟩ := run.of_ok ok
      · exact .of_machine rest rfl
      · apply Moved.of_terminated kinship rest ends live
        · exact fun now state exitStatus => .killed ⟨live, state, exitStatus⟩
        · intro none
          cases link.symm.trans none
  | reap id =>
      exact .of_calm kinship rest fun caller => ((within_reap kinship id).of_ok ok).1
  | finalizeTrapped id =>
      obtain ⟨rfl | ⟨gone, fault, pc, parked, live, ends⟩, _⟩ :=
        (within_finalizeTrapped kinship id).of_ok ok
      · exact .of_machine rest rfl
      · apply Moved.of_terminated kinship rest ends live
        · exact fun now state exitStatus => .ended rfl parked state exitStatus
        · exact fun _ => rfl
  | requeue id => exact resting within_requeue ok
  | nextReady =>
      cases ok
      exact .of_machine rest rfl
  | snapshot id => exact resting (within_look kinship _) ok
  | pcOf id => exact resting (within_look kinship _) ok
  | exitStatusOf id => exact resting (within_look kinship _) ok
  | access id request =>
      obtain ⟨rfl | hushed, _⟩ := (within_guestMemory kinship request).of_ok ok
      · exact .of_machine rest rfl
      · exact .of_same rest hushed.kin
  | setMemoryMode mode => exact changes ok
  | setDebugTraps debugTraps => exact changes ok
  | startRecording => exact changes ok
  | startReplay trace => exact changes ok
  | takeTrace => exact resting within_takeTrace ok

/-! ## Sequences of operations -/

/-- The families agree, and everyone is at rest. -/
structure Reposed (hypervisor : Hypervisor) : Prop where
  kinship : ∃ loaded, Kinship loaded hypervisor
  atRest : ∀ id, hypervisor.AtRest id

/-- Errors of any kind. -/
def AnyError (_ : HostError) : Prop := True

theorem ensures_reposed_single {operation : Operation} (single : operation.single = true) :
    Ensures AnyError Reposed operation.perform fun _ => Reposed := by
  rintro origin ⟨⟨loaded, kinship⟩, rest⟩
  have passed : Passed False _ origin (finalState (operation.perform origin)) :=
    passed_perform kinship operation fun never => never.elim
  cases ok : operation.perform origin with
  | error error after => trivial
  | ok answer after =>
      rw [ok] at passed
      exact ⟨⟨_, passed.kinship _ kinship⟩, (moved_single kinship rest single ok).atRest⟩

/-- **Every operation that succeeds leaves everyone at rest.** -/
theorem ensures_reposed (operation : Operation) :
    Ensures AnyError Reposed operation.perform fun _ => Reposed := by
  cases single : operation.single with
  | true => exact ensures_reposed_single single
  | false =>
      intro origin reposed
      obtain ⟨⟨rounds, given, fine, reached⟩, _⟩ := rounds_of_many single origin
      cases ok : operation.perform origin with
      | error error after => trivial
      | ok answer after =>
          rw [ok] at fine reached
          have kept := Ensures.stateAfter
            (fun round member => ensures_reposed_single (given round member).single) (fine rfl)
            reposed
          rw [← reached] at kept
          exact kept

theorem reposed_of_nested {configuration : Configuration} {host : Host} {journal : Journal}
    {level : Nat} (built : nested configuration host journal level = .ok origin) :
    Reposed origin := by
  refine ⟨⟨_, kinship_of_nested built⟩, fun id kin found => ?_⟩
  rw [(empty_of_nested built).2.1] at found
  cases found

/-- How a context may go on from its state in the course of one operation: an end is for good, it
is parked only when its turn comes and faults park contexts, from there it goes on only to its end,
which is brought about from outside, and where it waits it goes on when a child that it waits for
has ended, or is killed. -/
structure Lawful (operation : Operation) (origin after : Hypervisor) (id : ContextId)
    (before now : Context) : Prop where
  exited : ∀ status, before.exitStatus = some status →
    now.exitStatus = some status ∧ now.state = .exited
  parks : ∀ fault pc, now.state = .trapped fault pc →
    before.state = .trapped fault pc ∨ before.state = .ready ∧ origin.own.debugTraps = true
  parked : ∀ fault pc, before.state = .trapped fault pc → now.state = before.state ∨
    now.state = .exited ∧ (now.exitStatus = some .killed ∨
      operation = .finalizeTrapped id ∧ now.exitStatus = some (.faulted fault pc))
  waits : ∀ target, before.state = .blocked (.wait target) → now.state = before.state ∨
    now.state = .exited ∧ now.exitStatus = some .killed ∨
    now.state = .ready ∧ ∃ child ∈ before.children, Matches target child ∧ origin.Live child ∧
      ¬after.Live child

/-- Whatever the ways in which contexts go on, they are lawful. -/
theorem Moves.lawful {operation : Operation} {before now : Context}
    (moves : Moves (operation = .finalizeTrapped id) origin after id before.kin now.kin)
    (there : after.kin id = some now.kin)
    (exited : before.exitStatus = none ↔ before.state ≠ .exited) :
    Lawful operation origin after id before now := by
  have ended {status : ExitStatus} (same : before.exitStatus = some status) :
      before.state = .exited := by
    by_contra lives
    cases same.symm.trans (exited.mpr lives)
  have unended {state : ContextState} {status : ExitStatus} (same : before.state = state)
      (lives : state ≠ .exited) (given : before.exitStatus = some status) : False :=
    lives (same.symm.trans (ended given))
  cases moves with
  | stays stays =>
      have state : now.state = before.state := stays.state
      refine ⟨fun status given => ?_, fun fault pc same => ?_, fun _ _ _ => .inl state,
        fun _ _ => .inl state⟩
      · exact ⟨stays.exitStatus.trans given, state.trans (ended given)⟩
      · exact .inl (state.symm.trans same)
  | turn ready rested unset =>
      have ready : before.state = .ready := ready
      refine ⟨fun status given => ?_, fun fault pc same => ?_, fun _ _ same => ?_, fun _ same => ?_⟩
      · exact (unended ready (fun same => nomatch same) given).elim
      · exact .inr ⟨ready, unset.symm.trans ((rested _ there).2 fault pc same)⟩
      · cases ready.symm.trans same
      · cases ready.symm.trans same
  | woken woken =>
      have state : now.state = .ready := woken.state
      obtain ⟨child, member, waits, lives, dead⟩ := woken.ended
      obtain ⟨target, waiting⟩ := waiting_of_waitsFor waits
      have waiting : before.state = .blocked (.wait target) := waiting
      refine ⟨fun status given => ?_, fun fault pc same => ?_, fun _ _ same => ?_,
        fun target same => ?_⟩
      · exact (unended waiting (fun same => nomatch same) given).elim
      · cases state.symm.trans same
      · cases waiting.symm.trans same
      · have waits : waitsFor before.state child = true := waits
        rw [same] at waits
        exact .inr (.inr ⟨state, child, member, waitsFor_iff.mp waits, lives, dead⟩)
  | killed killed =>
      have state : now.state = .exited := killed.state
      have exitStatus : now.exitStatus = some .killed := killed.exitStatus
      refine ⟨fun status given => ?_, fun fault pc same => ?_, fun _ _ _ => ?_, fun _ _ => ?_⟩
      · cases killed.live.symm.trans given
      · cases state.symm.trans same
      · exact .inr ⟨state, .inl exitStatus⟩
      · exact .inr (.inl ⟨state, exitStatus⟩)
  | @ended fault pc finalized parked state exitStatus =>
      have parked : before.state = .trapped fault pc := parked
      have state : now.state = .exited := state
      refine ⟨fun status given => ?_, fun _ _ same => ?_, fun _ _ same => ?_, fun _ same => ?_⟩
      · exact (unended parked (fun same => nomatch same) given).elim
      · cases state.symm.trans same
      · cases parked.symm.trans same
        exact .inr ⟨state, .inr ⟨finalized, exitStatus⟩⟩
      · cases parked.symm.trans same

namespace Reposed

/-- Where everyone is at rest, each owned context is in a settled state, and it has ended exactly if
it has an exit status. -/
theorem settled (reposed : Reposed origin) (mine : id ∈ origin.own.owned) :
    ∃ context, origin.machine.context? id = some context ∧ Settled context.state ∧
      (context.state = .exited ↔ context.exitStatus ≠ none) := by
  obtain ⟨⟨loaded, kinship⟩, rest⟩ := reposed
  obtain ⟨kin, there⟩ := (kinship.owned id).mp mine
  obtain ⟨context, found, rfl⟩ := exists_context? kinship.uniform there
  refine ⟨context, found, rest id _ there, ?_⟩
  have exited : context.exitStatus = none ↔ context.state ≠ .exited :=
    kinship.exited id _ there
  rw [Ne, exited, not_not]

/-- **An operation that succeeds moves a context lawfully on**, and removes one that has not ended
only if it was ready or is finalized. -/
theorem lawful (reposed : Reposed origin) {operation : Operation} {answer : Answer}
    {before : Context} (single : operation.single = true)
    (ok : operation.perform origin = .ok answer after)
    (found : origin.machine.context? id = some before) :
    (∀ now, after.machine.context? id = some now → Lawful operation origin after id before now) ∧
      (before.exitStatus = none → before.state ≠ .ready → operation ≠ .finalizeTrapped id →
        ∃ now, after.machine.context? id = some now) := by
  obtain ⟨⟨loaded, kinship⟩, rest⟩ := reposed
  have there := kin_of_context? kinship.uniform found
  have moved := moved_single kinship rest single ok
  have passed : Passed False _ origin (finalState (operation.perform origin)) :=
    passed_perform kinship operation fun never => never.elim
  rw [ok] at passed
  have uniform : after.machine.Uniform := (passed.kinship _ kinship).uniform
  refine ⟨fun now found' => ?_, fun live unready unfinalized => ?_⟩
  · have there' := kin_of_context? uniform found'
    exact (moved.moves id _ _ there there').lawful there' (kinship.exited id _ there)
  · obtain ⟨kin, there'⟩ := moved.remains id _ there live unready unfinalized
    obtain ⟨now, found', _⟩ := exists_context? uniform there'
    exact ⟨now, found'⟩

end Reposed

/-- **Contexts keep to the laws of their states.**  After any operations that have succeeded, each
owned context is ready, waits for a child, is parked by a fault or has ended, and it has ended
exactly if it has an exit status.  From there, each operation that succeeds moves a context lawfully
on, and removes one that has not ended only if it was ready or is finalized.  A run of many rounds
that succeeds is a sequence of rounds that succeed, each of them such an operation. -/
theorem states_lawful {configuration : Configuration} {host : Host} {journal : Journal}
    {level : Nat} {start : Hypervisor} (built : nested configuration host journal level = .ok start)
    {operations : List Operation}
    (fine : ∀ outcome ∈ trail Operation.perform operations start, outcome.1.isOk = true) :
    let reached := stateAfter Operation.perform operations start
    (∀ id ∈ reached.own.owned, ∃ context, reached.machine.context? id = some context ∧
      Settled context.state ∧ (context.state = .exited ↔ context.exitStatus ≠ none)) ∧
    (∀ operation : Operation, operation.single = true → ∀ answer after,
      operation.perform reached = .ok answer after →
      ∀ id before, reached.machine.context? id = some before →
        (∀ now, after.machine.context? id = some now →
          Lawful operation reached after id before now) ∧
        (before.exitStatus = none → before.state ≠ .ready → operation ≠ .finalizeTrapped id →
          ∃ now, after.machine.context? id = some now)) ∧
    ∀ operation : Operation, operation.single = false → ∀ answer after,
      operation.perform reached = .ok answer after →
      ∃ rounds : List Operation, (∀ round ∈ rounds, round.IsRound) ∧
        (∀ outcome ∈ trail Operation.perform rounds reached, outcome.1.isOk = true) ∧
        after = stateAfter Operation.perform rounds reached := by
  intro reached
  have reposed : Reposed reached :=
    Ensures.stateAfter (fun operation _ => ensures_reposed operation) fine
      (reposed_of_nested built)
  refine ⟨fun id mine => reposed.settled mine,
    fun operation single answer after ok id before found => reposed.lawful single ok found,
    fun operation many answer after ok => ?_⟩
  · obtain ⟨⟨rounds, given, answered, same⟩, _⟩ := rounds_of_many many reached
    rw [ok] at answered same
    exact ⟨rounds, given, answered rfl, same⟩

/-- A program that forks; the parent waits, and the child reads where nothing is. -/
def forkAndFault : Image :=
  .ofWords ([.addi 17 0 220, .ecall, .beq 10 0 20, .addi 10 0 (-1), .addi 11 0 0, .addi 17 0 260,
    .ecall, .ld 5 0 0].map Instruction.encode) []

/-- Operations after which the parent waits and its child is parked. -/
def untilParked : List Operation :=
  [.setDebugTraps true, .load forkAndFault [], .scheduleOnce, .scheduleOnce, .scheduleOnce]

/-- When a parked child is finalized it has ended, and the parent that waits for it is ready; both
are lawful. -/
theorem parked_child_ends :
    ∃ start, nested { Configuration.standard with frames := 40 } .null .silent 2 = .ok start ∧
      (∀ outcome ∈ trail Operation.perform untilParked start, outcome.1.isOk = true) ∧
      let reached := stateAfter Operation.perform untilParked start
      let after := finalState ((Operation.finalizeTrapped 2).perform reached)
      ∃ parent child parent' child', reached.machine.context? 1 = some parent ∧
        reached.machine.context? 2 = some child ∧ after.machine.context? 1 = some parent' ∧
        after.machine.context? 2 = some child' ∧
        (parent.state, child.state, parent'.state, child'.exitStatus) =
          (.blocked (.wait none), .trapped (.segmentation 0) 65564, .ready,
            some (.faulted (.segmentation 0) 65564)) ∧
        Lawful (.finalizeTrapped 2) reached after 1 parent parent' ∧
        Lawful (.finalizeTrapped 2) reached after 2 child child' := by
  obtain ⟨start, built⟩ : ∃ start,
      nested { Configuration.standard with frames := 40 } .null .silent 2 = .ok start := ⟨_, rfl⟩
  have succeeds : (nested { Configuration.standard with frames := 40 } .null .silent 2).map
      (fun start =>
        let reached := stateAfter Operation.perform untilParked start
        ((trail Operation.perform untilParked start).all fun outcome => outcome.1.isOk,
          (answerOf ((Operation.finalizeTrapped 2).perform reached)).isOk)) =
      .ok (true, true) := by
    decide +kernel
  have waiting : (nested { Configuration.standard with frames := 40 } .null .silent 2).map
      (fun start =>
        let reached := stateAfter Operation.perform untilParked start
        ((reached.machine.context? 1).map Context.state,
          (reached.machine.context? 2).map Context.state)) =
      .ok (some (.blocked (.wait none)), some (.trapped (.segmentation 0) 65564)) := by
    decide +kernel
  have goneOn : (nested { Configuration.standard with frames := 40 } .null .silent 2).map
      (fun start =>
        let reached := stateAfter Operation.perform untilParked start
        let after := finalState ((Operation.finalizeTrapped 2).perform reached)
        ((after.machine.context? 1).map Context.state,
          (after.machine.context? 2).map Context.exitStatus)) =
      .ok (some .ready, some (some (.faulted (.segmentation 0) 65564))) := by
    decide +kernel
  rw [built] at succeeds waiting goneOn
  simp only [Except.map, Except.ok.injEq, Prod.mk.injEq, List.all_eq_true,
    Option.map_eq_some_iff] at succeeds waiting goneOn
  obtain ⟨fine, answered⟩ := succeeds
  obtain ⟨⟨parent, found, waits⟩, child, found', parked⟩ := waiting
  obtain ⟨⟨parent', left, ready⟩, child', left', ended⟩ := goneOn
  obtain ⟨answer, ok⟩ := ok_of_isOk answered
  have laws := (states_lawful built fine).2.1 (.finalizeTrapped 2) rfl answer _ ok
  refine ⟨start, built, fine, parent, child, parent', child', found, found', left, left', ?_,
    (laws 1 parent found).1 parent' left, (laws 2 child found').1 child' left'⟩
  rw [waits, parked, ready, ended]

end NestedMachine.Hypervisor
