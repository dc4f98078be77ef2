import NestedMachine.Proofs.Hypervisor.Kinship

/-!
# The end of a context, told as a whole

Ending a context is a long program: it gives back the frames, cuts off the children one by one, and
removes the context or wakes its parent.  Where the families agree, none of its parts can fail, so
that nobody ever sees it half done.  The parts are told in turn: a removal (`halts_discard`), a
context that is made ready (`halts_makeReady`), the children that are cut off
(`halts_disownAll`), and what happens to the context itself (`halts_settle`).  Together they are the
change that `Terminated` describes (`halts_terminate`).
-/

namespace NestedMachine.Hypervisor

set_option autoImplicit false

open Std (TreeMap TreeSet)

variable {α : Type} {origin middle after : Hypervisor} {loaded : ContextId → Prop}
  {id other parent child holder : ContextId} {gone kin : Kin} {status : ExitStatus}

/-- Another ready queue. -/
def withReady (hypervisor : Hypervisor) (ready : List ContextId) : Hypervisor :=
  { hypervisor with own := { hypervisor.own with ready } }

/-- Another set of orphans. -/
def withOrphans (hypervisor : Hypervisor) (orphans : TreeSet ContextId) : Hypervisor :=
  { hypervisor with own := { hypervisor.own with orphans } }

theorem confined_withReady (ready : List ContextId) :
    Confined holder origin (origin.withReady ready) :=
  .of_same rfl (fun _ => rfl) le_rfl

theorem confined_withOrphans (orphans : TreeSet ContextId) :
    Confined holder origin (origin.withOrphans orphans) :=
  .of_same rfl (fun _ => rfl) le_rfl

/-- A request that names a context that is there is not refused. -/
theorem halts_of_there {failed : HostError → Hypervisor → Prop} {wanted : α → Hypervisor → Prop}
    {result : EStateM.Result HostError Hypervisor α} (there : origin.kin id = some kin)
    (halts : Halts (Refused id origin) wanted result) : Halts failed wanted result := by
  refine halts.mono (fun _ _ given => given) fun _ _ refused => ?_
  rw [refused.missing] at there
  cases there

/-- A context that is there may be changed. -/
theorem halts_alter (uniform : origin.machine.Uniform) (there : origin.kin id = some kin)
    {change : Context → Context} (change' : Kin → Kin)
    (tells : ∀ context, (change context).kin = change' context.kin)
    (space : ∀ context, (change context).space = context.space) :
    Halts Never (fun _ after => Altered id change' origin after ∧
      ∀ holder, Confined holder origin after) (modifyContext id change origin) :=
  halts_of_there there (halts_modifyContext uniform id change' tells space)

/-- A context that is there may be moved into a state. -/
theorem halts_setState (uniform : origin.machine.Uniform) (there : origin.kin id = some kin)
    (state : ContextState) :
    Halts Never (fun _ after => Altered id (fun kin => { kin with state }) origin after ∧
      ∀ holder, Confined holder origin after) (setState id state origin) := by
  refine halts_alter uniform there _ (fun _ => rfl) ?_
  exact fun _ => rfl

theorem halts_note (uniform : origin.machine.Uniform) (happening : Note) :
    Halts Never (fun _ after => ∀ holder, Hushed holder origin after) (note happening origin) :=
  fun holder => (discreet_note holder happening origin uniform).1

theorem halts_count (uniform : origin.machine.Uniform) (change : Counters → Counters) :
    Halts Never (fun _ after => ∀ holder, Hushed holder origin after) (count change origin) :=
  fun holder => (discreet_count holder change origin uniform).1

/-! ## Readiness -/

/-- A context that is there is made ready and queued, and the others stay queued. -/
theorem halts_makeReady (uniform : origin.machine.Uniform) (there : origin.kin id = some kin) :
    Halts Never
      (fun _ after => ∃ middle ready,
        Altered id (fun kin => { kin with state := .ready }) origin middle ∧
          (∀ holder, Confined holder origin middle) ∧ after = middle.withReady ready ∧
          id ∈ ready ∧ ∀ other ∈ origin.own.ready, other ∈ ready)
      (makeReady id origin) := by
  apply (halts_setState uniform there .ready).bind
  rintro _ middle ⟨altered, confined⟩
  apply Halts.get_bind
  split
  · rename_i queued
    refine ⟨middle, middle.own.ready, altered, confined, rfl, ?_, ?_⟩
    · exact List.contains_iff_mem.mp queued
    · rw [altered.own]
      exact fun other member => member
  · refine ⟨middle, _, altered, confined, rfl, List.mem_append_right _ List.mem_cons_self, ?_⟩
    rw [altered.own]
    exact fun other member => List.mem_append_left _ member

theorem halts_dequeue (id : ContextId) :
    Halts Never (fun _ after => after = origin.withReady (origin.own.ready.filter (· != id)))
      (dequeue id origin) := rfl

/-! ## Removals -/

theorem halts_discard (uniform : origin.machine.Uniform) (there : origin.kin id = some gone) :
    Halts Never
      (fun _ after => ∃ middle, Removed id gone origin middle ∧
        (∀ holder, Confined holder origin middle) ∧
          after = middle.withReady (middle.own.ready.filter (· != id)))
      (discard id origin) := by
  apply Halts.bind (halts_of_there there (halts_destroy uniform id))
  rintro _ middle ⟨⟨gone', removed⟩, confined⟩
  obtain rfl := Option.some.inj (removed.there.symm.trans there)
  refine ⟨_, removed, fun holder => ?_, rfl⟩
  exact (confined holder).trans (.of_same rfl (fun _ => rfl) le_rfl)

/-! ## Children that are cut off -/

theorem nodup_toList (children : TreeSet ContextId) : children.toList.Nodup :=
  children.distinct_toList.imp fun different same => different (compare_eq_iff_eq.mpr same)

/-- Children have been cut off: those that had ended are gone, and the others are orphans. -/
structure CutOff (children : List ContextId) (origin after : Hypervisor) : Prop where
  uniform : after.machine.Uniform
  nextId : after.machine.interpreter.nextId = origin.machine.interpreter.nextId
  kin : ∀ other, after.kin other =
    if other ∈ children then (origin.kin other).bind Kin.cutOff else origin.kin other
  owned : ∀ other, other ∈ after.own.owned ↔
    other ∈ origin.own.owned ∧ (other ∈ children → origin.Live other)
  orphans : ∀ other, other ∈ after.own.orphans ↔
    other ∈ children ∧ origin.Live other ∨ other ∉ children ∧ other ∈ origin.own.orphans
  confined : ∀ holder, Confined holder origin after

theorem CutOff.refl (uniform : origin.machine.Uniform) : CutOff [] origin origin where
  uniform := uniform
  nextId := rfl
  kin _ := (if_neg List.not_mem_nil).symm
  owned _ := (and_iff_left fun member => absurd member List.not_mem_nil).symm
  orphans _ := by simp
  confined holder := .refl holder origin

/-- Children may be cut off one after the other. -/
theorem CutOff.cons {children : List ContextId} (first : CutOff [child] origin middle)
    (rest : CutOff children middle after) (once : child ∉ children) :
    CutOff (child :: children) origin after := by
  have live {other : ContextId} (different : other ≠ child) :
      middle.Live other ↔ origin.Live other := by
    unfold Live
    rw [first.kin, if_neg (by simpa using different)]
  refine ⟨rest.uniform, rest.nextId.trans first.nextId, fun other => ?_, fun other => ?_,
    fun other => ?_, fun holder => (first.confined holder).trans (rest.confined holder)⟩
  · rw [rest.kin, first.kin]
    by_cases here : other = child
    · subst here
      simp [once]
    · simp [here]
  · rw [rest.owned, first.owned]
    by_cases here : other = child
    · subst here
      simp [once]
    · simp [here, live here]
  · rw [rest.orphans, first.orphans]
    by_cases here : other = child
    · subst here
      simp [once]
    · simp [here, live here]

/-- A child that had ended is cut off and removed. -/
theorem CutOff.of_removed (there : origin.kin child = some kin) (ended : kin.exitStatus ≠ none)
    (childless : ∀ grandchild, grandchild ∉ kin.children)
    (altered : Altered child (fun kin => { kin with parent := none }) origin middle)
    (removed : Removed child { kin with parent := none } middle after)
    (confined : ∀ holder, Confined holder origin after) (ready : List ContextId) :
    CutOff [child] origin (after.withReady ready) := by
  have dead : ¬origin.Live child := fun live => ended ((live_iff there).mp live)
  have single {other : ContextId} : other ∈ [child] ↔ child = other := by
    rw [List.mem_singleton, eq_comm]
  refine ⟨removed.uniform, removed.nextId.trans altered.nextId, fun other => ?_, fun other => ?_,
    fun other => ?_, fun holder => (confined holder).trans (confined_withReady _)⟩
  · refine (removed.kin other).trans ?_
    rw [altered.kin]
    by_cases here : child = other
    · subst here
      rw [if_pos rfl, if_pos (single.mpr rfl), there, Option.bind_some, Kin.cutOff, if_neg ended]
    · rw [if_neg here, if_neg here, if_neg fun member => here (single.mp member)]
      cases origin.kin other with
      | none => rfl
      | some kin' =>
          have apart := childless other
          simp [Kin.without, apart]
  · refine (Iff.of_eq (congrArg (other ∈ ·) removed.owned)).trans ?_
    rw [altered.own, TreeSet.mem_erase, Ne, compare_eq_iff_eq, single]
    by_cases here : child = other
    · subst here
      simp [dead]
    · simp [here]
  · refine (Iff.of_eq (congrArg (other ∈ ·) removed.orphans)).trans ?_
    rw [altered.own, TreeSet.mem_erase, Ne, compare_eq_iff_eq, single]
    by_cases here : child = other
    · subst here
      simp [dead]
    · simp [here]

/-- A live child is cut off and becomes an orphan. -/
theorem CutOff.of_altered (there : origin.kin child = some kin) (lives : kin.exitStatus = none)
    (altered : Altered child (fun kin => { kin with parent := none }) origin middle)
    (confined : ∀ holder, Confined holder origin middle) :
    CutOff [child] origin (middle.withOrphans (middle.own.orphans.insert child)) := by
  have live : origin.Live child := ⟨kin, there, lives⟩
  have single {other : ContextId} : other ∈ [child] ↔ child = other := by
    rw [List.mem_singleton, eq_comm]
  refine ⟨altered.uniform, altered.nextId, fun other => ?_, fun other => ?_, fun other => ?_,
    fun holder => (confined holder).trans (confined_withOrphans _)⟩
  · refine (altered.kin other).trans ?_
    by_cases here : child = other
    · subst here
      rw [if_pos rfl, if_pos (single.mpr rfl), there, Option.bind_some, Kin.cutOff, if_pos lives]
      rfl
    · rw [if_neg here, if_neg fun member => here (single.mp member)]
  · refine (Iff.of_eq (congrArg (fun own : Supervisor => other ∈ own.owned) altered.own)).trans ?_
    refine (and_iff_left fun member => ?_).symm
    exact single.mp member ▸ live
  · show other ∈ middle.own.orphans.insert child ↔ _
    rw [altered.own, TreeSet.mem_insert, compare_eq_iff_eq, single]
    by_cases here : child = other
    · subst here
      simp [live]
    · simp [here]

theorem halts_disown (uniform : origin.machine.Uniform) (there : origin.kin child = some kin)
    (childless : kin.exitStatus ≠ none → ∀ grandchild, grandchild ∉ kin.children) :
    Halts Never (fun _ after => CutOff [child] origin after) (disown child origin) := by
  obtain ⟨context, found, rfl⟩ := Option.map_eq_some_iff.mp there
  apply Halts.get_bind
  rw [uniform.context?, Interpreter.context?, found]
  have cut : Halts Never
      (fun _ after => Altered child (fun kin => { kin with parent := none }) origin after ∧
        ∀ holder, Confined holder origin after)
      (modifyContext child (fun context => { context with parent := none }) origin) := by
    refine halts_alter uniform there _ (fun _ => rfl) ?_
    exact fun _ => rfl
  apply cut.bind
  rintro _ middle ⟨altered, confined⟩
  cases status : context.exitStatus with
  | some status' =>
      have ended : context.kin.exitStatus ≠ none := by
        rw [Context.kin, status]
        exact Option.some_ne_none _
      have self : middle.kin child = some { context.kin with parent := none } := by
        rw [altered.kin, if_pos rfl, there]
        rfl
      rw [Context.hasExited, status]
      apply (halts_discard altered.uniform self).certain
      rintro _ _ ⟨last, removed, confined', rfl⟩
      refine .of_removed there ended (childless ended) altered removed (fun holder => ?_) _
      exact (confined holder).trans (confined' holder)
  | none =>
      rw [Context.hasExited, status]
      exact CutOff.of_altered there status altered confined

theorem halts_disownAll {children : List ContextId} (uniform : origin.machine.Uniform)
    (once : children.Nodup)
    (known : ∀ child ∈ children, ∃ kin, origin.kin child = some kin ∧
      (kin.exitStatus ≠ none → ∀ grandchild, grandchild ∉ kin.children)) :
    Halts Never (fun _ after => CutOff children origin after) (disownAll children origin) := by
  induction children generalizing origin with
  | nil => exact .pure (.refl uniform)
  | cons child rest ih =>
      obtain ⟨fresh, once⟩ := List.nodup_cons.mp once
      obtain ⟨kin, there, childless⟩ := known child List.mem_cons_self
      apply (halts_disown uniform there childless).bind
      intro _ middle first
      apply (ih first.uniform once ?_).certain
      exact fun _ _ later => first.cons later fresh
      · intro other member
        have different : other ≠ child := fun same => fresh (same ▸ member)
        rw [first.kin, if_neg (by simpa using different)]
        exact known other (List.mem_cons_of_mem _ member)

/-! ## The context itself -/

/-- A context has ended and its children have been cut off, but nobody has been told yet. -/
structure Dying (id : ContextId) (gone : Kin) (status : ExitStatus) (origin after : Hypervisor) :
    Prop extends Confined id origin after where
  uniform : after.machine.Uniform
  nextId : after.machine.interpreter.nextId = origin.machine.interpreter.nextId
  kin : ∀ other, after.kin other =
    if id = other then some ⟨.exited, some status, gone.parent, ∅⟩
    else (origin.kin other).bind fun kin =>
      if kin.parent = some id then kin.cutOff else some kin
  owned : ∀ other, other ∈ after.own.owned ↔
    other ∈ origin.own.owned ∧ ∃ kin, after.kin other = some kin
  orphans : ∀ other, other ∈ after.own.orphans ↔ other ∈ origin.own.orphans ∨
    ∃ kin, origin.kin other = some kin ∧ kin.parent = some id ∧ kin.exitStatus = none
  emptied : after.Emptied id

theorem Emptied.of_confined (emptied : origin.Emptied id)
    (confined : ∀ holder, Confined holder origin after) : after.Emptied id := by
  intro space found
  exact emptied space ((confined (id + 1)).spaces id space (Nat.lt_succ_self id).ne found)

/-- A parent has been told that a child has ended, and goes on if it waits for this one. -/
structure Told (parent child : ContextId) (origin after : Hypervisor) : Prop where
  uniform : after.machine.Uniform
  nextId : after.machine.interpreter.nextId = origin.machine.interpreter.nextId
  kin : ∀ other, after.kin other = (origin.kin other).map fun kin =>
    if parent = other ∧ waitsFor kin.state child = true then { kin with state := .ready } else kin
  owned : after.own.owned = origin.own.owned
  orphans : after.own.orphans = origin.own.orphans
  woken : ∀ kin, origin.kin parent = some kin → waitsFor kin.state child = true →
    parent ∈ after.own.ready
  confined : ∀ holder, Confined holder origin after

theorem halts_wakeParent (uniform : origin.machine.Uniform)
    (there : origin.kin parent = some kin) :
    Halts Never (fun _ after => Told parent child origin after)
      (wakeParent parent child origin) := by
  obtain ⟨context, found, rfl⟩ := Option.map_eq_some_iff.mp there
  apply Halts.get_bind
  rw [uniform.context?, Interpreter.context?, found]
  dsimp only
  split
  · rename_i waits
    have waits' : waitsFor context.kin.state child = true := waits
    apply (halts_note uniform _).bind
    intro _ noted hushed
    have there' : noted.kin parent = some context.kin := ((hushed 0).kin parent).trans there
    apply (halts_makeReady (hushed 0).uniform there').certain
    rintro _ _ ⟨middle, ready, altered, confined, rfl, member, _⟩
    refine ⟨altered.uniform, altered.nextId.trans (hushed 0).nextId, fun other => ?_, ?_, ?_,
      fun _ _ _ => member, fun holder => ?_⟩
    · refine (altered.kin other).trans ?_
      rw [(hushed 0).kin]
      by_cases here : parent = other
      · subst here
        simp [there, waits']
      · simp [here]
    · exact (congrArg Supervisor.owned altered.own).trans (hushed 0).owned
    · exact (congrArg Supervisor.orphans altered.own).trans (hushed 0).orphans
    · exact ((hushed holder).toConfined.trans (confined holder)).trans (confined_withReady _)
  · rename_i sleeps
    have sleeps' : ¬waitsFor context.kin.state child = true := sleeps
    refine ⟨uniform, rfl, fun other => ?_, rfl, rfl, ?_, fun holder => .refl holder origin⟩
    · by_cases here : parent = other
      · subst here
        simp [there, sleeps']
      · simp [here]
    · intro kin there' waits
      obtain rfl := Option.some.inj (there.symm.trans there')
      exact absurd waits sleeps'

namespace Dying

/-- Once its children are cut off, only the context itself is left. -/
theorem of_cutOff (kinship : Kinship loaded origin) (there : origin.kin id = some gone)
    (around : ∀ other, middle.kin other =
      if id = other then some ⟨.exited, some status, gone.parent, ∅⟩ else origin.kin other)
    (owned : middle.own.owned = origin.own.owned)
    (orphans : middle.own.orphans = origin.own.orphans)
    (nextId : middle.machine.interpreter.nextId = origin.machine.interpreter.nextId)
    (confined : Confined id origin middle) (emptied : middle.Emptied id)
    (cutOff : CutOff gone.children.toList middle after) :
    Dying id gone status origin after := by
  have linked (other : ContextId) : other ∈ gone.children.toList ↔
      ∃ kin, origin.kin other = some kin ∧ kin.parent = some id := by
    rw [TreeSet.mem_toList]
    exact kinship.linked id gone there other
  have apart : id ∉ gone.children.toList := by
    intro member
    obtain ⟨kin, known, link⟩ := (linked id).mp member
    exact Nat.lt_irrefl _ (kinship.parents id kin id known link).1
  have live {other : ContextId} (different : id ≠ other) :
      middle.Live other ↔ origin.Live other := by
    unfold Live
    rw [around, if_neg different]
  have kin (other : ContextId) : after.kin other =
      if id = other then some ⟨.exited, some status, gone.parent, ∅⟩
      else (origin.kin other).bind fun kin =>
        if kin.parent = some id then kin.cutOff else some kin := by
    rw [cutOff.kin, around]
    by_cases here : id = other
    · subst here
      rw [if_neg apart, if_pos rfl, if_pos rfl]
    · rw [if_neg here, if_neg here]
      cases known : origin.kin other with
      | none => exact ite_self none
      | some kin =>
          have child : other ∈ gone.children.toList ↔ kin.parent = some id := by
            rw [linked, known]
            simp
          simp only [child, Option.bind_some]
  refine ⟨confined.trans (cutOff.confined id), cutOff.uniform, cutOff.nextId.trans nextId, kin,
    fun other => ?_, fun other => ?_, emptied.of_confined cutOff.confined⟩
  · rw [cutOff.owned, owned]
    refine and_congr_right fun member => ?_
    obtain ⟨kin', known⟩ := (kinship.owned other).mp member
    rw [kin]
    by_cases here : id = other
    · subst here
      simp [apart]
    · rw [if_neg here, live here, live_iff known, known, linked, known]
      by_cases child : kin'.parent = some id
      · by_cases lives : kin'.exitStatus = none <;> simp [child, lives, Kin.cutOff]
      · simp [child]
  · rw [cutOff.orphans, orphans]
    by_cases here : id = other
    · subst here
      refine ⟨fun given => ?_, fun given => .inr ⟨apart, ?_⟩⟩
      · exact .inl (given.resolve_left fun child => apart child.1).2
      · refine given.resolve_right ?_
        rintro ⟨kin', known, child, _⟩
        exact apart ((linked id).mpr ⟨kin', known, child⟩)
    · rw [live here, linked]
      constructor
      · rintro (⟨⟨kin', known, child⟩, lives⟩ | given)
        · exact .inr ⟨kin', known, child, (live_iff known).mp lives⟩
        · exact .inl given.2
      · rintro (member | ⟨kin', known, child, lives⟩)
        · obtain ⟨kin', known, lives, root, _⟩ := (kinship.orphans other).mp member
          refine .inr ⟨?_, member⟩
          rintro ⟨kin, known', child⟩
          obtain rfl := Option.some.inj (known.symm.trans known')
          rw [root] at child
          cases child
        · exact .inl ⟨⟨kin', known, child⟩, (live_iff known).mpr lives⟩

/-- An orphan has no parent to be told, and is removed. -/
theorem discarded (kinship : Kinship loaded origin) (there : origin.kin id = some gone)
    (dying : Dying id gone status origin middle) (orphan : id ∈ origin.own.orphans)
    (removed : Removed id ⟨.exited, some status, none, ∅⟩
      (middle.withOrphans (middle.own.orphans.erase id)) after)
    (confined : ∀ holder, Confined holder middle after) (ready : List ContextId) :
    Terminated id gone status origin (after.withReady ready) := by
  have root : gone.parent = none := by
    obtain ⟨kin, found, _, none, _⟩ := (kinship.orphans id).mp orphan
    obtain rfl := Option.some.inj (found.symm.trans there)
    exact none
  have owned : after.own.owned = middle.own.owned.erase id := removed.owned
  have orphans : after.own.orphans = (middle.own.orphans.erase id).erase id := removed.orphans
  have left (other : ContextId) : after.kin other =
      if id = other then none else middle.kin other := by
    refine (removed.kin other).trans (ite_congr rfl (fun _ => rfl) fun _ => ?_)
    show (middle.kin other).map _ = middle.kin other
    simp [Kin.without]
  refine ⟨dying.toConfined.trans ((confined id).trans (confined_withReady _)), removed.uniform,
    there, removed.nextId.trans dying.nextId, fun other => ?_, fun other => ?_, fun other => ?_,
    ?_, ?_⟩
  · refine (left other).trans ?_
    rw [if_pos orphan]
    refine ite_congr rfl (fun _ => rfl) fun different => ?_
    rw [dying.kin, if_neg different]
    refine congrArg _ (funext fun kin => ?_)
    simp [Kin.outliving, root]
  · show other ∈ after.own.owned ↔ _ ∧ ∃ kin, after.kin other = some kin
    rw [owned, TreeSet.mem_erase, Ne, compare_eq_iff_eq, dying.owned, left]
    by_cases here : id = other <;> simp [here]
  · show other ∈ after.own.orphans ↔ _
    rw [orphans, TreeSet.mem_erase, TreeSet.mem_erase, Ne, compare_eq_iff_eq, dying.orphans,
      eq_comm]
    exact ⟨fun given => given.2, fun given => ⟨given.1, given⟩⟩
  · intro parent kin link
    rw [root] at link
    cases link
  · exact (dying.emptied.of_confined confined).of_confined fun holder => confined_withReady _

/-- A context that is not an orphan stays, and its parent is told if it has one. -/
theorem settled (kinship : Kinship loaded origin) (there : origin.kin id = some gone)
    (dying : Dying id gone status origin middle) (claimed : id ∉ origin.own.orphans)
    (uniform : after.machine.Uniform)
    (nextId : after.machine.interpreter.nextId = middle.machine.interpreter.nextId)
    (kin : ∀ other, after.kin other = (middle.kin other).map fun kin =>
      if gone.parent = some other ∧ waitsFor kin.state id = true then { kin with state := .ready }
      else kin)
    (owned : after.own.owned = middle.own.owned) (orphans : after.own.orphans = middle.own.orphans)
    (woken : ∀ parent kin, gone.parent = some parent → middle.kin parent = some kin →
      waitsFor kin.state id = true → parent ∈ after.own.ready)
    (confined : ∀ holder, Confined holder middle after) :
    Terminated id gone status origin after := by
  -- A child of the context is too young to be its parent.
  have apart {other : ContextId} {kin : Kin} (found : origin.kin other = some kin)
      (child : kin.parent = some id) : gone.parent ≠ some other := by
    intro parent
    have up := (kinship.parents id gone other there parent).1
    have down := (kinship.parents other kin id found child).1
    exact absurd up (Nat.lt_asymm down)
  have alone (other : ContextId) (parent : gone.parent = some other) : id ≠ other :=
    (Nat.ne_of_lt (kinship.parents id gone other there parent).1).symm
  refine ⟨dying.toConfined.trans (confined id), uniform, there, nextId.trans dying.nextId,
    fun other => ?_, fun other => ?_, fun other => ?_, ?_, dying.emptied.of_confined confined⟩
  · rw [kin, dying.kin]
    by_cases here : id = other
    · subst here
      rw [if_pos rfl, if_pos rfl, if_neg claimed, Option.map_some]
      exact congrArg some (if_neg fun wakes => alone id wakes.1 rfl)
    · rw [if_neg here, if_neg here]
      cases found : origin.kin other with
      | none => rfl
      | some kin =>
          rw [Option.bind_some, Option.bind_some, Kin.outliving]
          by_cases child : kin.parent = some id
          · rw [if_pos child, if_pos child]
            simp [apart found child]
          · rw [if_neg child, if_neg child, Option.map_some, apply_ite some]
  · rw [owned, dying.owned, kin]
    cases middle.kin other <;> simp
  · rw [orphans, dying.orphans]
    refine ⟨fun orphan => ⟨?_, orphan⟩, fun orphan => orphan.2⟩
    rintro rfl
    rcases orphan with member | ⟨kin, found, child, _⟩
    · exact claimed member
    · exact Nat.lt_irrefl _ (kinship.parents other kin other found child).1
  · intro parent kin' link found waits
    refine woken parent kin' link ?_ waits
    rw [dying.kin, if_neg (alone parent link), found, Option.bind_some,
      if_neg fun child => apart found child link]

end Dying

/-- **An orphan is removed when it has ended, and a parent that waits is told.** -/
theorem halts_settle (kinship : Kinship loaded origin) (there : origin.kin id = some gone)
    (dying : Dying id gone status origin middle) :
    Halts Never (fun _ after => Terminated id gone status origin after)
      (settle id gone.parent middle) := by
  have own : id ∈ middle.own.orphans ↔ id ∈ origin.own.orphans := by
    rw [dying.orphans]
    refine or_iff_left ?_
    rintro ⟨kin, found, link, _⟩
    exact Nat.lt_irrefl _ (kinship.parents id kin id found link).1
  have self : middle.kin id = some ⟨.exited, some status, gone.parent, ∅⟩ := by
    rw [dying.kin, if_pos rfl]
  apply Halts.get_bind
  split
  · rename_i contains
    have orphan := own.mp (TreeSet.mem_iff_contains.mpr contains)
    obtain ⟨kin, found, _, root, _⟩ := (kinship.orphans id).mp orphan
    obtain rfl := Option.some.inj (found.symm.trans there)
    have forgotten : (middle.withOrphans (middle.own.orphans.erase id)).kin id =
        some ⟨.exited, some status, none, ∅⟩ := root ▸ self
    have uniform : (middle.withOrphans (middle.own.orphans.erase id)).machine.Uniform :=
      dying.uniform
    show Halts Never _ (discard id (middle.withOrphans (middle.own.orphans.erase id)))
    apply (halts_discard uniform forgotten).certain
    rintro _ _ ⟨last, removed, confined, rfl⟩
    refine dying.discarded kinship there orphan removed (fun holder => ?_) _
    exact (confined_withOrphans _).trans (confined holder)
  · rename_i missing
    have claimed : id ∉ origin.own.orphans := fun member =>
      missing (TreeSet.mem_iff_contains.mp (own.mpr member))
    cases link : gone.parent with
    | none =>
        refine dying.settled kinship there claimed dying.uniform rfl (fun other => ?_) rfl rfl
          (fun parent _ root => ?_) fun holder => .refl holder middle
        · simp [link]
        · rw [link] at root
          cases root
    | some parent =>
        obtain ⟨younger, kin, known, _⟩ := kinship.parents id gone parent there link
        have different : id ≠ parent := (Nat.ne_of_lt younger).symm
        have child : kin.parent ≠ some id := by
          intro child
          exact absurd (kinship.parents parent kin id known child).1 (Nat.lt_asymm younger)
        have known' : middle.kin parent = some kin := by
          rw [dying.kin, if_neg different, known, Option.bind_some, if_neg child]
        apply (halts_wakeParent dying.uniform known').certain
        intro _ after told
        refine dying.settled kinship there claimed told.uniform told.nextId (fun other => ?_)
          told.owned told.orphans ?_ told.confined
        · rw [told.kin, link]
          simp only [Option.some.injEq]
        · intro parent' kin' link' found waits
          obtain rfl := Option.some.inj (link.symm.trans link')
          exact told.woken kin' found waits

/-- **Where the families agree, a context can be ended, and all that follows happens at once.** -/
theorem halts_terminate (kinship : Kinship loaded origin) (there : origin.kin id = some gone)
    (status : ExitStatus) :
    Halts Never (fun _ after => Terminated id gone status origin after)
      (terminate id status origin) := by
  apply Halts.bind (halts_of_there there (halts_release kinship.uniform id))
  rintro released freed ⟨hushed, emptied⟩
  have there' : freed.kin id = some gone := (hushed.kin id).trans there
  apply Halts.bind (halts_of_there there' (halts_contextOf hushed.uniform id))
  rintro context freed ⟨rfl, found⟩
  obtain rfl : context.kin = gone := by
    rw [Hypervisor.kin, kinIn, found] at there'
    exact Option.some.inj there'
  apply (halts_of_there there' (halts_markEnded hushed.uniform id status)).bind
  rintro _ closed ⟨altered, confined⟩
  apply (halts_dequeue id).bind
  rintro _ _ rfl
  have levels : (closed.withReady (closed.own.ready.filter (· != id))).machine.Uniform :=
    altered.uniform
  apply (halts_count levels _).bind
  intro _ counted quiet
  apply (halts_note (quiet 0).uniform _).bind
  intro _ noted quiet'
  have around (other : ContextId) : noted.kin other =
      if id = other then some ⟨.exited, some status, context.parent, ∅⟩
      else origin.kin other := by
    refine ((quiet' 0).kin other).trans (((quiet 0).kin other).trans
      ((altered.kin other).trans ?_))
    by_cases here : id = other
    · subst here
      rw [if_pos rfl, if_pos rfl, there']
      rfl
    · rw [if_neg here, if_neg here, hushed.kin]
  have owned : noted.own.owned = origin.own.owned :=
    (quiet' 0).owned.trans ((quiet 0).owned.trans
      ((congrArg Supervisor.owned altered.own).trans hushed.owned))
  have orphans : noted.own.orphans = origin.own.orphans :=
    (quiet' 0).orphans.trans ((quiet 0).orphans.trans
      ((congrArg Supervisor.orphans altered.own).trans hushed.orphans))
  have nextId : noted.machine.interpreter.nextId = origin.machine.interpreter.nextId :=
    (quiet' 0).nextId.trans ((quiet 0).nextId.trans (altered.nextId.trans hushed.nextId))
  have later (holder : ContextId) : Confined holder freed noted :=
    ((confined holder).trans (confined_withReady _)).trans
      ((quiet holder).toConfined.trans (quiet' holder).toConfined)
  apply (halts_disownAll (quiet' 0).uniform (nodup_toList _) ?_).bind
  · intro _ cut cutOff
    apply halts_settle kinship there
    exact .of_cutOff kinship there around owned orphans nextId
      (hushed.toConfined.trans (later id)) (emptied.of_confined later) cutOff
  · intro child member
    obtain ⟨kin, known, link⟩ := (kinship.linked id _ there child).mp (TreeSet.mem_toList.mp member)
    have different : id ≠ child := (Nat.ne_of_lt (kinship.parents child kin id known link).1)
    rw [around, if_neg different]
    exact ⟨kin, known, kinship.childless known⟩

end NestedMachine.Hypervisor
