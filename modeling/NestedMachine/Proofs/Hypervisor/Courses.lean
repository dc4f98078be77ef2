import Mathlib.Logic.Relation
import NestedMachine.Proofs.Hypervisor.Kinship

/-!
# What happens in the course of an operation

An operation on behalf of a context is a course of small changes.  Most of them are quiet
(`Quiet`): memory and counters change, the queue changes, the context itself moves from state to
state, it gets a child, or one that has ended is removed.  At most once in the course of an
operation a context ends (`Course`).

Each change, and so each course, hands on what holds of the whole (`Heir`): the families agree, no
frame is lost, numbers are not used again, and contexts that have ended hold no pages.  And no child
ends unheard: while nothing but quiet changes happens, whoever waits for a live child goes on
waiting for it (`Calm.awaits`), and when the child ends the parent is ready and queued, and stays so
(`Course.heeds`).
-/

namespace NestedMachine.Hypervisor

set_option autoImplicit false

variable {hypervisor origin middle after : Hypervisor} {loaded : ContextId → Prop} {neat : Prop}
  {id other parent child caller holder : ContextId} {gone kin : Kin} {status : ExitStatus}

/-! ## What is handed on -/

/-- No context that has ended holds a page. -/
def Tidy (hypervisor : Hypervisor) : Prop :=
  ∀ id kin, hypervisor.kin id = some kin → kin.exitStatus ≠ none → hypervisor.Emptied id

theorem Tidy.of_confined (tidy : origin.Tidy) (confined : Confined holder origin after)
    (ended : ∀ id kin, after.kin id = some kin → kin.exitStatus ≠ none →
      id ≠ holder ∧ ∃ kin', origin.kin id = some kin' ∧ kin'.exitStatus ≠ none) :
    after.Tidy := by
  intro id kin found dead space left
  obtain ⟨different, kin', found', dead'⟩ := ended id kin found dead
  exact tidy id kin' found' dead' space (confined.spaces id space different left)

/-- What holds of the whole holds on; that contexts that have ended hold no pages only where nobody
touches their memory. -/
structure Heir (neat : Prop) (origin after : Hypervisor) : Prop where
  kinship : ∀ loaded, Kinship loaded origin → Kinship loaded after
  sound : ∀ capacity, origin.machine.interpreter.Sound capacity →
    after.machine.interpreter.Sound capacity
  nextId : origin.machine.interpreter.nextId ≤ after.machine.interpreter.nextId
  older : ∀ id kin, after.kin id = some kin → id < origin.machine.interpreter.nextId →
    ∃ kin, origin.kin id = some kin
  tidy : neat → origin.Tidy → after.Tidy

namespace Heir

theorem refl (hypervisor : Hypervisor) : Heir neat hypervisor hypervisor :=
  ⟨fun _ kinship => kinship, fun _ sound => sound, le_rfl, fun _ kin found _ => ⟨kin, found⟩,
    fun _ tidy => tidy⟩

theorem trans (first : Heir neat origin middle) (second : Heir neat middle after) :
    Heir neat origin after where
  kinship loaded kinship := second.kinship loaded (first.kinship loaded kinship)
  sound capacity sound := second.sound capacity (first.sound capacity sound)
  nextId := first.nextId.trans second.nextId
  older id kin found young := by
    obtain ⟨kin', found'⟩ := second.older id kin found (young.trans_le first.nextId)
    exact first.older id kin' found' young
  tidy clean tidy := second.tidy clean (first.tidy clean tidy)

/-- Where nothing changes that matters, all is handed on, unless it is the memory of a context that
has ended. -/
theorem of_hushed (hushed : Hushed holder origin after)
    (live : neat → ∀ kin, origin.kin holder = some kin → kin.exitStatus = none) :
    Heir neat origin after where
  kinship _ kinship :=
    kinship.congr hushed.uniform hushed.kin hushed.nextId.ge hushed.owned hushed.orphans
  sound := hushed.sound
  nextId := hushed.nextId.ge
  older id kin found _ := ⟨kin, (hushed.kin id).symm.trans found⟩
  tidy clean tidy := by
    apply tidy.of_confined hushed.toConfined
    intro id kin found dead
    rw [hushed.kin] at found
    refine ⟨?_, kin, found, dead⟩
    rintro rfl
    exact dead (live clean kin found)

/-- The machine is the same. -/
theorem of_machine (machine : after.machine = origin.machine)
    (owned : after.own.owned = origin.own.owned)
    (orphans : after.own.orphans = origin.own.orphans) : Heir neat origin after := by
  obtain ⟨_, own⟩ := after
  obtain rfl := machine
  refine ⟨fun _ kinship => ?_, fun _ sound => sound, le_rfl, fun _ kin found _ => ⟨kin, found⟩,
    fun _ tidy => tidy⟩
  exact kinship.congr kinship.uniform (fun _ => rfl) le_rfl owned orphans

end Heir

namespace Born

variable {forker : Option ContextId}

theorem older (born : Born forker child origin after) {kin : Kin}
    (found : after.kin id = some kin) (young : id < origin.machine.interpreter.nextId) :
    ∃ kin, origin.kin id = some kin := by
  rcases born.new_or_old found with ⟨rfl, _⟩ | ⟨_, before, there, _⟩
  · exact absurd rfl (born.fresh young)
  · exact ⟨before, there⟩

/-- A context that begins may have pages, but it has not ended. -/
theorem tidy (born : Born forker child origin after) (confined : Confined child origin after)
    (tidy : origin.Tidy) : after.Tidy := by
  apply tidy.of_confined confined
  intro id kin there dead
  rcases born.new_or_old there with ⟨rfl, rfl⟩ | ⟨here, kin', there', _, status, _⟩
  · exact absurd rfl dead
  · exact ⟨Ne.symm here, kin', there', status ▸ dead⟩

end Born

/-! ## Who waits and who is ready -/

/-- A context waits for a live child. -/
def Awaits (hypervisor : Hypervisor) (parent child : ContextId) : Prop :=
  ∃ kin, hypervisor.kin parent = some kin ∧ child ∈ kin.children ∧
    waitsFor kin.state child = true ∧ hypervisor.Live child

/-- A context is ready and queued. -/
def Queued (hypervisor : Hypervisor) (id : ContextId) : Prop :=
  (∃ kin, hypervisor.kin id = some kin ∧ kin.state = .ready) ∧ id ∈ hypervisor.own.ready

/-- A state in which a context may be left when an operation has succeeded: it does not run, and no
system call of it is being served. -/
def Settled : ContextState → Prop
  | .ready | .blocked (.wait _) | .trapped .. | .exited => True
  | .running | .blocked .systemCall => False

/-- A context, if it is there, is left in such a state, and it is parked only if faults park
contexts. -/
def Rested (hypervisor : Hypervisor) (id : ContextId) : Prop :=
  ∀ kin, hypervisor.kin id = some kin → Settled kin.state ∧
    ∀ fault pc, kin.state = .trapped fault pc → hypervisor.own.debugTraps = true

/-! ## Quiet changes -/

/-- A change on behalf of a context in which no context ends. -/
inductive Quiet (caller : ContextId) (origin after : Hypervisor) : Prop where
  | hushed {holder : ContextId} (live : origin.Live holder) (hushed : Hushed holder origin after)
  | queued (machine : after.machine = origin.machine)
      (owned : after.own.owned = origin.own.owned)
      (orphans : after.own.orphans = origin.own.orphans)
      (ready : ∀ id kin, origin.kin id = some kin → kin.state = .ready → id ≠ caller →
        id ∈ origin.own.ready → id ∈ after.own.ready)
  | set {kin : Kin} {state : ContextState} (found : origin.kin caller = some kin)
      (live : kin.exitStatus = none) (idle : ¬Waiting kin.state) (fit : Fit origin kin state)
      (altered : Altered caller (fun kin => { kin with state }) origin after)
      (confined : ∀ holder, Confined holder origin after)
  | begun {child : ContextId} (serving : origin.Serving caller)
      (born : Born (some caller) child origin { after with own := origin.own })
      (owned : after.own.owned = origin.own.owned.insert child)
      (orphans : after.own.orphans = origin.own.orphans)
      (ready : after.own.ready = origin.own.ready) (confined : Confined child origin after)
  | removed {id : ContextId} {gone : Kin} (removed : Removed id gone origin after)
      (ended : gone.exitStatus ≠ none) (confined : ∀ holder, Confined holder origin after)

namespace Quiet

theorem heir (quiet : Quiet caller origin after) : Heir neat origin after := by
  cases quiet with
  | hushed live hushed => exact .of_hushed hushed fun _ kin found => (live_iff found).mp live
  | queued machine owned orphans ready => exact .of_machine machine owned orphans
  | set found live idle fit altered confined =>
      refine ⟨fun loaded kinship => kinship.set altered found live fit, (confined 0).sound,
        altered.nextId.ge, fun id kin there _ => ?_, fun _ tidy => ?_⟩
      · obtain ⟨kin', there', _⟩ := altered.of_found there
        exact ⟨kin', there'⟩
      · apply tidy.of_confined (confined caller)
        intro id kin there dead
        obtain ⟨kin', there', rfl⟩ := altered.of_found there
        refine ⟨?_, kin', there', ?_⟩
        · rintro rfl
          obtain rfl := Option.some.inj (found.symm.trans there')
          rw [if_pos rfl] at dead
          exact dead live
        · split at dead <;> exact dead
  | begun serving born owned orphans ready confined =>
      have within : Confined _ origin { after with own := origin.own } :=
        ⟨confined.sound, confined.spaces⟩
      refine ⟨fun loaded kinship => ?_, confined.sound, born.nextId_le, fun id kin => born.older,
        fun _ => born.tidy within⟩
      refine kinship.begun born owned orphans ?_ fun id => ?_
      · rintro _ ⟨⟩
        exact serving
      · simp
  | removed removed ended confined =>
      refine ⟨fun loaded kinship => kinship.removed removed ended, (confined 0).sound,
        removed.nextId.ge, fun id kin there _ => ?_, fun _ tidy => ?_⟩
      · obtain ⟨_, kin', there', _⟩ := removed.of_found there
        exact ⟨kin', there'⟩
      · apply tidy.of_confined (confined _)
        intro id kin there dead
        obtain ⟨different, kin', there', rfl⟩ := removed.of_found there
        exact ⟨different.symm, kin', there', dead⟩

theorem live (quiet : Quiet caller origin after) (lives : origin.Live other) :
    after.Live other := by
  obtain ⟨kin, found, lives⟩ := lives
  cases quiet with
  | hushed _ hushed => exact ⟨kin, (hushed.kin other).trans found, lives⟩
  | queued machine =>
      refine ⟨kin, ?_, lives⟩
      rw [Hypervisor.kin, machine]
      exact found
  | set _ _ _ _ altered => exact (altered.live_iff fun _ => rfl).mpr ⟨kin, found, lives⟩
  | begun _ born => exact born.live ⟨kin, found, lives⟩
  | removed removed ended =>
      refine ⟨_, removed.keeps ?_ found, lives⟩
      rintro rfl
      obtain rfl := Option.some.inj (removed.there.symm.trans found)
      exact ended lives

/-- A live context that is not served, or that waits, keeps its state and its live children. -/
theorem bystander (quiet : Quiet caller origin after) (kinship : Kinship loaded origin)
    (found : origin.kin other = some kin) (live : kin.exitStatus = none)
    (idle : other = caller → Waiting kin.state) :
    ∃ kin', after.kin other = some kin' ∧ kin'.state = kin.state ∧
      ∀ child ∈ kin.children, origin.Live child → child ∈ kin'.children := by
  cases quiet with
  | hushed _ hushed =>
      exact ⟨kin, (hushed.kin other).trans found, rfl, fun _ member _ => member⟩
  | queued machine =>
      refine ⟨kin, ?_, rfl, fun _ member _ => member⟩
      rw [Hypervisor.kin, machine]
      exact found
  | set there _ sleepless _ altered =>
      have different : caller ≠ other := by
        rintro rfl
        obtain rfl := Option.some.inj (there.symm.trans found)
        exact sleepless (idle rfl)
      refine ⟨kin, ?_, rfl, fun _ member _ => member⟩
      rw [altered.kin, if_neg different, found]
  | @begun child serving born =>
      have different : caller ≠ other := by
        rintro rfl
        obtain ⟨kin', there, _, sleepless⟩ := serving
        obtain rfl := Option.some.inj (there.symm.trans found)
        exact sleepless (idle rfl)
      have older := born.fresh (kinship.young other kin found)
      refine ⟨kin, (born.kin other).trans ?_, rfl, fun _ member _ => member⟩
      rw [if_neg older, found, Option.map_some,
        if_neg fun same => different (Option.some.inj same)]
  | @removed id gone removed ended =>
      have dead : ¬origin.Live id := fun lives => ended ((live_iff removed.there).mp lives)
      have different : id ≠ other := by
        rintro rfl
        exact dead ⟨kin, found, live⟩
      refine ⟨_, removed.keeps different found, rfl, fun child member lives => ?_⟩
      refine Removed.mem_children.mpr ⟨member, fun _ same => ?_⟩
      exact dead (same ▸ lives)

/-- Whoever waits for a live child goes on waiting. -/
theorem awaits (quiet : Quiet caller origin after) (kinship : Kinship loaded origin)
    (awaits : origin.Awaits parent child) : after.Awaits parent child := by
  obtain ⟨kin, found, member, waits, lives⟩ := awaits
  have waiting := waiting_of_waitsFor waits
  obtain ⟨kin', found', same, children⟩ :=
    quiet.bystander kinship found (kinship.live_of_waiting found waiting) fun _ => waiting
  exact ⟨kin', found', children child member lives, same ▸ waits, quiet.live lives⟩

/-- Whoever is ready and queued stays so, apart from the context that is served. -/
theorem queued_of_ne (quiet : Quiet caller origin after) (kinship : Kinship loaded origin)
    (different : other ≠ caller) (queued : origin.Queued other) : after.Queued other := by
  obtain ⟨⟨kin, found, ready⟩, place⟩ := queued
  have live : kin.exitStatus = none := by
    apply (kinship.exited other kin found).mpr
    rw [ready]
    exact fun exited => nomatch exited
  obtain ⟨kin', found', same, _⟩ :=
    quiet.bystander kinship found live fun here => absurd here different
  refine ⟨⟨kin', found', same.trans ready⟩, ?_⟩
  cases quiet with
  | hushed _ hushed => exact hushed.ready ▸ place
  | queued _ _ _ stays => exact stays other kin found ready different place
  | set _ _ _ _ altered => exact altered.own ▸ place
  | begun _ _ _ _ same => exact same ▸ place
  | removed removed => exact removed.ready ▸ place

end Quiet

/-- Any number of quiet changes. -/
abbrev Calm (caller : ContextId) : Hypervisor → Hypervisor → Prop :=
  Relation.ReflTransGen (Quiet caller)

namespace Calm

theorem heir (calm : Calm caller origin after) : Heir neat origin after := by
  induction calm with
  | refl => exact .refl origin
  | tail _ quiet ih => exact ih.trans quiet.heir

theorem kinship (calm : Calm caller origin after) (kinship : Kinship loaded origin) :
    Kinship loaded after :=
  (heir calm : Heir True _ _).kinship loaded kinship

theorem live (calm : Calm caller origin after) (lives : origin.Live other) : after.Live other := by
  induction calm with
  | refl => exact lives
  | tail _ quiet ih => exact quiet.live ih

/-- **While no context ends, whoever waits for a live child goes on waiting.** -/
theorem awaits (calm : Calm caller origin after) (kinship : Kinship loaded origin)
    (awaits : origin.Awaits parent child) : after.Awaits parent child := by
  induction calm with
  | refl => exact awaits
  | @tail middle _ before quiet ih =>
      exact quiet.awaits (Calm.kinship before kinship) ih

theorem queued (calm : Calm caller origin after) (kinship : Kinship loaded origin)
    (different : other ≠ caller) (queued : origin.Queued other) : after.Queued other := by
  induction calm with
  | refl => exact queued
  | @tail middle _ before quiet ih =>
      exact quiet.queued_of_ne (Calm.kinship before kinship) different ih

end Calm

/-- Any number of quiet changes in which no context is removed. -/
structure Still (caller : ContextId) (origin after : Hypervisor) : Prop where
  calm : Calm caller origin after
  there : ∀ id kin, origin.kin id = some kin → ∃ kin, after.kin id = some kin

namespace Still

theorem refl : Still caller origin origin := ⟨.refl, fun _ kin found => ⟨kin, found⟩⟩

theorem trans (first : Still caller origin middle) (second : Still caller middle after) :
    Still caller origin after := by
  refine ⟨first.calm.trans second.calm, fun id kin found => ?_⟩
  obtain ⟨kin', found'⟩ := first.there id kin found
  exact second.there id kin' found'

theorem of_hushed (live : origin.Live holder) (hushed : Hushed holder origin after) :
    Still caller origin after :=
  ⟨.single (.hushed live hushed), fun id kin found => ⟨kin, (hushed.kin id).trans found⟩⟩

end Still

/-! ## The end of a context -/

theorem Terminated.heir (ends : Terminated id gone status origin after)
    (live : gone.exitStatus = none) : Heir neat origin after where
  kinship _ kinship := kinship.terminated ends live
  sound := ends.sound
  nextId := ends.nextId.ge
  older other kin found _ := by
    by_cases here : id = other
    · exact ⟨gone, here ▸ ends.there⟩
    · obtain ⟨kin', there, _⟩ := ends.of_found here found
      exact ⟨kin', there⟩
  tidy _ tidy other kin found dead := by
    by_cases here : id = other
    · exact here ▸ ends.emptied
    · obtain ⟨kin', there, same, _⟩ := ends.of_found here found
      intro space left
      exact tidy other kin' there (same ▸ dead) space (ends.spaces other space (Ne.symm here) left)

/-- **When a child ends, the parent that waits for it is ready and queued.** -/
theorem Terminated.heeds (ends : Terminated id gone status origin after)
    (kinship : Kinship loaded origin) (awaits : origin.Awaits parent child) :
    after.Live child ∨ after.Queued parent := by
  obtain ⟨kin, found, member, waits, lives⟩ := awaits
  by_cases here : id = child
  · subst here
    obtain ⟨kin', there, link⟩ := (kinship.linked parent kin found id).mp member
    obtain rfl := Option.some.inj (ends.there.symm.trans there)
    obtain ⟨younger, _⟩ := kinship.parents id gone parent there link
    have child : kin.parent ≠ some id := fun child =>
      Nat.lt_asymm younger (kinship.parents parent kin id found child).1
    refine .inr ⟨⟨{ kin with state := .ready }, ?_, rfl⟩, ends.woken parent kin link found waits⟩
    rw [ends.kin, if_neg (Nat.ne_of_lt younger).symm, found, Option.bind_some, Kin.outliving,
      if_neg child, if_pos ⟨link, waits⟩]
  · exact .inl (ends.live here lives)

/-! ## Courses -/

/-- The course of an operation on behalf of a context: quiet changes, and among them at most one end
of a context, while the caller does not wait itself.  If it is not the caller that ends, the caller
has killed a child.  Nobody is removed after that. -/
inductive Course (caller : ContextId) (origin after : Hypervisor) : Prop where
  | calm (calm : Calm caller origin after)
  | ends {middle last : Hypervisor} {id : ContextId} {gone : Kin} {status : ExitStatus}
      (before : Calm caller origin middle)
      (idle : ∀ kin, middle.kin caller = some kin → ¬Waiting kin.state)
      (ends : Terminated id gone status middle last) (live : gone.exitStatus = none)
      (own : id = caller ∨ gone.parent = some caller ∧ status = .killed)
      (rest : Still caller last after)

namespace Course

theorem heir (course : Course caller origin after) : Heir neat origin after := by
  cases course with
  | calm calm => exact calm.heir
  | ends before _ ends live _ rest =>
      exact before.heir.trans ((ends.heir live).trans rest.calm.heir)

theorem kinship (course : Course caller origin after) (kinship : Kinship loaded origin) :
    Kinship loaded after :=
  (course.heir : Heir True _ _).kinship loaded kinship

theorem after_calm (calm : Calm caller origin middle) (course : Course caller middle after) :
    Course caller origin after := by
  cases course with
  | calm later => exact .calm (calm.trans later)
  | ends before idle ends live own rest => exact .ends (calm.trans before) idle ends live own rest

theorem then_still (course : Course caller origin middle) (still : Still caller middle after) :
    Course caller origin after := by
  cases course with
  | calm before => exact .calm (before.trans still.calm)
  | ends before idle ends live own rest => exact .ends before idle ends live own (rest.trans still)

/-- **No child ends unheard**: when a child ends in the course of an operation, the parent that has
waited for it is ready and queued in the end. -/
theorem heeds (course : Course caller origin after) (kinship : Kinship loaded origin)
    (awaits : origin.Awaits parent child) : after.Live child ∨ after.Queued parent := by
  cases course with
  | calm calm =>
      obtain ⟨_, _, _, _, lives⟩ := awaits
      exact .inl (calm.live lives)
  | @ends middle last id gone status before idle ends live _ rest =>
      have kinship' := before.kinship kinship
      have awaits' := before.awaits kinship awaits
      have different : parent ≠ caller := by
        rintro rfl
        obtain ⟨kin, found, _, waits, _⟩ := awaits'
        exact idle kin found (waiting_of_waitsFor waits)
      refine (ends.heeds kinship' awaits').imp rest.calm.live fun queued => ?_
      exact rest.calm.queued (kinship'.terminated ends live) different queued

end Course

end NestedMachine.Hypervisor
