import NestedMachine.Proofs.Hypervisor.Discretion

/-!
# Families in agreement

The links of families are kept twice, at the parent and at the child, the supervisor keeps apart
which contexts it owns and which are orphans, and who waits for whom is a matter of states.  All
this has to agree (`Kinship`): owned are the contexts that are there; a context is a child of its
parent, which is older and live; orphans are the live contexts without a parent that were not
loaded; a context that has ended is kept only for a live parent to ask for it, or because it was
loaded; and a context that waits has a child to wait for, and each such child is live.

There are five ways in which what matters to families changes: the state of a context
(`Kinship.set`), the beginning of one (`Kinship.begun`), the removal of one that has ended
(`Kinship.removed`), the end of one (`Kinship.terminated`), and a number that is used up
(`Kinship.congr`).  Each keeps the families in agreement.  A new state and a removal both leave of
the families what `Thinned` says.  The end of a context is the change that concerns everyone around
it, and is told as a whole (`Terminated`).
-/

namespace NestedMachine

set_option autoImplicit false

open Std (TreeSet)

/-- A state in which a context waits for children. -/
def Waiting (state : ContextState) : Prop := ∃ target, state = .blocked (.wait target)

/-- What is left of a child that is cut off from its parent: nothing if it has ended. -/
def Kin.cutOff (kin : Kin) : Option Kin :=
  if kin.exitStatus = none then some { kin with parent := none } else none

/-- What the end of a context leaves of another one: a child is cut off, and a parent that waits for
this child goes on. -/
def Kin.outliving (kin : Kin) (id : ContextId) (gone : Kin) (self : ContextId) : Option Kin :=
  if kin.parent = some id then kin.cutOff
  else if gone.parent = some self ∧ Hypervisor.waitsFor kin.state id = true then
    some { kin with state := .ready }
  else some kin

namespace Hypervisor

variable {hypervisor origin middle after : Hypervisor} {loaded : ContextId → Prop}
  {id other parent child : ContextId} {gone : Kin} {status : ExitStatus}

theorem waiting_of_waitsFor {state : ContextState} (waits : waitsFor state child = true) :
    Waiting state := by
  unfold waitsFor at waits
  split at waits
  · exact ⟨none, rfl⟩
  · exact ⟨some _, rfl⟩
  · cases waits

/-- The families of all contexts agree with what the supervisor keeps. -/
structure Kinship (loaded : ContextId → Prop) (hypervisor : Hypervisor) : Prop where
  uniform : hypervisor.machine.Uniform
  owned : ∀ id, id ∈ hypervisor.own.owned ↔ ∃ kin, hypervisor.kin id = some kin
  young : ∀ id kin, hypervisor.kin id = some kin → id < hypervisor.machine.interpreter.nextId
  known : ∀ id, loaded id → id < hypervisor.machine.interpreter.nextId
  linked : ∀ id kin, hypervisor.kin id = some kin → ∀ child, child ∈ kin.children ↔
    ∃ kin', hypervisor.kin child = some kin' ∧ kin'.parent = some id
  parents : ∀ id kin parent, hypervisor.kin id = some kin → kin.parent = some parent →
    parent < id ∧ hypervisor.Live parent
  rooted : ∀ id kin, hypervisor.kin id = some kin → loaded id → kin.parent = none
  exited : ∀ id kin, hypervisor.kin id = some kin →
    (kin.exitStatus = none ↔ kin.state ≠ .exited)
  orphans : ∀ id, id ∈ hypervisor.own.orphans ↔ ∃ kin, hypervisor.kin id = some kin ∧
    kin.exitStatus = none ∧ kin.parent = none ∧ ¬loaded id
  kept : ∀ id kin, hypervisor.kin id = some kin → kin.exitStatus ≠ none →
    loaded id ∨ kin.parent ≠ none
  waits : ∀ id kin, hypervisor.kin id = some kin → Waiting kin.state →
    ∃ child ∈ kin.children, waitsFor kin.state child = true
  hopes : ∀ id kin, hypervisor.kin id = some kin → ∀ child ∈ kin.children,
    waitsFor kin.state child = true → hypervisor.Live child

/-! ## What follows for single contexts -/

theorem live_iff {kin : Kin} (found : hypervisor.kin id = some kin) :
    hypervisor.Live id ↔ kin.exitStatus = none := by
  constructor
  · rintro ⟨kin', found', lives⟩
    obtain rfl := Option.some.inj (found.symm.trans found')
    exact lives
  · exact fun lives => ⟨kin, found, lives⟩

namespace Kinship

/-- A context that has ended has no children. -/
theorem childless (kinship : Kinship loaded hypervisor) {kin : Kin}
    (found : hypervisor.kin id = some kin) (ended : kin.exitStatus ≠ none) (child : ContextId) :
    child ∉ kin.children := by
  intro member
  obtain ⟨kin', found', link⟩ := (kinship.linked id kin found child).mp member
  exact ended ((live_iff found).mp (kinship.parents child kin' id found' link).2)

/-- A context that waits is live. -/
theorem live_of_waiting (kinship : Kinship loaded hypervisor) {kin : Kin}
    (found : hypervisor.kin id = some kin) (waiting : Waiting kin.state) :
    kin.exitStatus = none := by
  apply (kinship.exited id kin found).mpr
  obtain ⟨target, same⟩ := waiting
  rw [same]
  exact fun exited => nomatch exited

/-! ## Changes that do not concern families -/

theorem congr (kinship : Kinship loaded origin) (uniform : after.machine.Uniform)
    (kin : ∀ id, after.kin id = origin.kin id)
    (nextId : origin.machine.interpreter.nextId ≤ after.machine.interpreter.nextId)
    (owned : after.own.owned = origin.own.owned)
    (orphans : after.own.orphans = origin.own.orphans) : Kinship loaded after := by
  have same : after.kin = origin.kin := funext kin
  have live : after.Live = origin.Live := by
    funext id
    rw [Live, same, ← Live]
  exact {
    uniform
    owned := by rw [owned, same]; exact kinship.owned
    young := by
      rw [same]
      exact fun id kin found => (kinship.young id kin found).trans_le nextId
    known := fun id loads => (kinship.known id loads).trans_le nextId
    linked := by rw [same]; exact kinship.linked
    parents := by rw [same, live]; exact kinship.parents
    rooted := by rw [same]; exact kinship.rooted
    exited := by rw [same]; exact kinship.exited
    orphans := by rw [orphans, same]; exact kinship.orphans
    kept := by rw [same]; exact kinship.kept
    waits := by rw [same]; exact kinship.waits
    hopes := by rw [same, live]; exact kinship.hopes }

end Kinship

/-! ## Fit states -/

/-- A context may be moved into a state: it does not end, and if it is to wait, it has children to
wait for, each of them live. -/
structure Fit (hypervisor : Hypervisor) (kin : Kin) (state : ContextState) : Prop where
  unended : state ≠ .exited
  waits : Waiting state → ∃ child ∈ kin.children, waitsFor state child = true
  hopes : ∀ child ∈ kin.children, waitsFor state child = true → hypervisor.Live child

/-- A context may be moved into any state in which it does not wait. -/
theorem Fit.of_idle {kin : Kin} {state : ContextState} (unended : state ≠ .exited)
    (idle : ¬Waiting state) : Fit hypervisor kin state :=
  ⟨unended, fun waiting => absurd waiting idle,
    fun _ _ waits => absurd (waiting_of_waitsFor waits) idle⟩

theorem Altered.live_iff {change : Kin → Kin} (altered : Altered id change origin after)
    (same : ∀ kin, (change kin).exitStatus = kin.exitStatus) :
    after.Live other ↔ origin.Live other := by
  unfold Live
  rw [altered.kin]
  split
  · cases origin.kin other with
    | none => simp
    | some kin => simp [same]
  · exact Iff.rfl

/-! ## What is left of families -/

/-- Some contexts that had ended are gone.  Of each other one all is left but the links to those that
are gone, and its state if it has been moved into a fit one. -/
structure Thinned (gone : ContextId → Prop) (origin after : Hypervisor) : Prop where
  uniform : after.machine.Uniform
  nextId : after.machine.interpreter.nextId = origin.machine.interpreter.nextId
  owned : ∀ other, other ∈ after.own.owned ↔ other ∈ origin.own.owned ∧ ¬gone other
  orphans : ∀ other, other ∈ after.own.orphans ↔ other ∈ origin.own.orphans ∧ ¬gone other
  dead : ∀ other, gone other → ¬origin.Live other
  left : ∀ {other kin}, origin.kin other = some kin → ¬gone other →
    ∃ kin', after.kin other = some kin' ∧ kin'.exitStatus = kin.exitStatus ∧
      kin'.parent = kin.parent
  before : ∀ {other kin'}, after.kin other = some kin' → ¬gone other ∧
    ∃ kin, origin.kin other = some kin ∧ kin'.exitStatus = kin.exitStatus ∧
      kin'.parent = kin.parent ∧
      (∀ child, child ∈ kin'.children ↔ child ∈ kin.children ∧ ¬gone child) ∧
      (kin'.state = kin.state ∨ kin.exitStatus = none ∧ Fit origin kin kin'.state)

namespace Thinned

variable {gone : ContextId → Prop}

theorem live (thinned : Thinned gone origin after) (lives : origin.Live other) :
    after.Live other := by
  have stays : ¬gone other := fun gone => thinned.dead other gone lives
  obtain ⟨kin, there, lives⟩ := lives
  obtain ⟨kin', found, same, _⟩ := thinned.left there stays
  exact ⟨kin', found, same.trans lives⟩

end Thinned

/-- Whoever waits, in the state it was in or in a fit one, has children to wait for, each of them
live. -/
theorem Kinship.waits_in (kinship : Kinship loaded origin) {kin : Kin} {state : ContextState}
    (there : origin.kin other = some kin)
    (same : state = kin.state ∨ kin.exitStatus = none ∧ Fit origin kin state) :
    (Waiting state → ∃ child ∈ kin.children, waitsFor state child = true) ∧
      ∀ child ∈ kin.children, waitsFor state child = true → origin.Live child := by
  rcases same with rfl | ⟨_, fit⟩
  · exact ⟨kinship.waits other kin there, kinship.hopes other kin there⟩
  · exact ⟨fit.waits, fit.hopes⟩

/-- **What is left when some contexts that had ended are gone stays in agreement.** -/
theorem Kinship.thinned (kinship : Kinship loaded origin) {gone : ContextId → Prop}
    (thinned : Thinned gone origin after) : Kinship loaded after where
  uniform := thinned.uniform
  owned := by
    intro other
    rw [thinned.owned, kinship.owned]
    constructor
    · rintro ⟨⟨kin, there⟩, stays⟩
      exact (thinned.left there stays).imp fun _ given => given.1
    · rintro ⟨kin', found⟩
      obtain ⟨stays, kin, there, _⟩ := thinned.before found
      exact ⟨⟨kin, there⟩, stays⟩
  young := by
    intro other kin' found
    obtain ⟨_, kin, there, _⟩ := thinned.before found
    rw [thinned.nextId]
    exact kinship.young other kin there
  known := by
    rw [thinned.nextId]
    exact kinship.known
  linked := by
    intro other kin' found child
    obtain ⟨_, kin, there, _, _, children, _⟩ := thinned.before found
    rw [children, kinship.linked other kin there child]
    constructor
    · rintro ⟨⟨link, known, parent⟩, stays⟩
      obtain ⟨link', known', _, parent'⟩ := thinned.left known stays
      exact ⟨link', known', parent'.trans parent⟩
    · rintro ⟨link', known', parent⟩
      obtain ⟨stays, link, known, _, parent', _⟩ := thinned.before known'
      exact ⟨⟨link, known, parent'.symm.trans parent⟩, stays⟩
  parents := by
    intro other kin' parent found link
    obtain ⟨_, kin, there, _, same, _⟩ := thinned.before found
    obtain ⟨younger, live⟩ := kinship.parents other kin parent there (same.symm.trans link)
    exact ⟨younger, thinned.live live⟩
  rooted := by
    intro other kin' found loads
    obtain ⟨_, kin, there, _, same, _⟩ := thinned.before found
    exact same.trans (kinship.rooted other kin there loads)
  exited := by
    intro other kin' found
    obtain ⟨_, kin, there, status, _, _, same | ⟨live, fit⟩⟩ := thinned.before found
    · rw [status, same]
      exact kinship.exited other kin there
    · exact iff_of_true (status.trans live) fit.unended
  orphans := by
    intro other
    rw [thinned.orphans, kinship.orphans]
    constructor
    · rintro ⟨⟨kin, there, live, none, forked⟩, stays⟩
      obtain ⟨kin', found, same, parent⟩ := thinned.left there stays
      exact ⟨kin', found, same.trans live, parent.trans none, forked⟩
    · rintro ⟨kin', found, live, none, forked⟩
      obtain ⟨stays, kin, there, same, parent, _⟩ := thinned.before found
      exact ⟨⟨kin, there, same.symm.trans live, parent.symm.trans none, forked⟩, stays⟩
  kept := by
    intro other kin' found ended
    obtain ⟨_, kin, there, same, parent, _⟩ := thinned.before found
    rw [parent]
    exact kinship.kept other kin there (same ▸ ended)
  waits := by
    intro other kin' found waiting
    obtain ⟨_, kin, there, _, _, children, state⟩ := thinned.before found
    obtain ⟨awaited, hopes⟩ := kinship.waits_in there state
    obtain ⟨child, member, waits⟩ := awaited waiting
    -- A child that is waited for is live, so that it is not among those that are gone.
    have stays : ¬gone child := fun gone => thinned.dead child gone (hopes child member waits)
    exact ⟨child, (children child).mpr ⟨member, stays⟩, waits⟩
  hopes := by
    intro other kin' found child member waits
    obtain ⟨_, kin, there, _, _, children, state⟩ := thinned.before found
    have member' := ((children child).mp member).1
    exact thinned.live ((kinship.waits_in there state).2 child member' waits)

/-- **A context that is moved into a fit state stays in agreement.** -/
theorem Kinship.set (kinship : Kinship loaded origin) {state : ContextState}
    (altered : Altered id (fun kin => { kin with state }) origin after) {kin : Kin}
    (found : origin.kin id = some kin) (live : kin.exitStatus = none)
    (fit : Fit origin kin state) : Kinship loaded after := by
  suffices thinned : Thinned (fun _ => False) origin after from kinship.thinned thinned
  exact {
    uniform := altered.uniform
    nextId := altered.nextId
    owned := fun other => by rw [altered.own, and_iff_left not_false]
    orphans := fun other => by rw [altered.own, and_iff_left not_false]
    dead := fun other never => never.elim
    left := by
      intro other kin there _
      rw [altered.kin, there]
      split <;> exact ⟨_, rfl, rfl, rfl⟩
    before := by
      intro other kin' found'
      obtain ⟨before, there, rfl⟩ := altered.of_found found'
      refine ⟨not_false, before, there, ?_⟩
      split
      · rename_i here
        subst here
        obtain rfl := Option.some.inj (found.symm.trans there)
        exact ⟨rfl, rfl, fun child => (and_iff_left not_false).symm, .inr ⟨live, fit⟩⟩
      · exact ⟨rfl, rfl, fun child => (and_iff_left not_false).symm, .inl rfl⟩ }

/-! ## Beginnings -/

/-- A context that is there and live, and does not wait. -/
def Serving (hypervisor : Hypervisor) (id : ContextId) : Prop :=
  ∃ kin, hypervisor.kin id = some kin ∧ kin.exitStatus = none ∧ ¬Waiting kin.state

namespace Born

variable {forker : Option ContextId} {kin : Kin}

theorem live (born : Born forker child origin after) (lives : origin.Live other) :
    after.Live other := by
  obtain ⟨kin, found, lives⟩ := lives
  rw [Live, born.kin]
  by_cases here : child = other
  · rw [if_pos here]
    exact ⟨_, rfl, rfl⟩
  · rw [if_neg here, found]
    refine ⟨_, rfl, ?_⟩
    dsimp only
    split <;> exact lives

/-- Nobody has a parent that is only about to begin. -/
theorem unclaimed (born : Born forker child origin after) (kinship : Kinship loaded origin)
    (lives : ∀ parent, forker = some parent → origin.Live parent)
    (found : after.kin other = some kin) : kin.parent ≠ some child := by
  intro link
  have live : origin.Live child := by
    rcases born.new_or_old found with ⟨rfl, rfl⟩ | ⟨_, before, there, _, _, same, _⟩
    · exact lives child link
    · exact (kinship.parents other before child there (same.symm.trans link)).2
  obtain ⟨before, there, _⟩ := live
  exact born.fresh (kinship.young child before there) rfl

/-- The new context is a child of the one that has forked it, and nobody else's links change. -/
theorem linked (born : Born forker child origin after) (kinship : Kinship loaded origin)
    (lives : ∀ parent, forker = some parent → origin.Live parent)
    (found : after.kin id = some kin) (other : ContextId) :
    other ∈ kin.children ↔ ∃ kin', after.kin other = some kin' ∧ kin'.parent = some id := by
  rcases born.new_or_old found with ⟨rfl, rfl⟩ | ⟨_, before, there, _, _, _, children⟩
  · refine ⟨fun member => absurd member TreeSet.not_mem_emptyc, ?_⟩
    rintro ⟨kin', known, link⟩
    exact absurd link (born.unclaimed kinship lives known)
  · rw [children, kinship.linked id before there other]
    constructor
    · rintro (⟨rfl, mine⟩ | ⟨kin', known, link⟩)
      · exact ⟨_, born.self, mine⟩
      · obtain ⟨kin'', known', link', _⟩ := born.keeps (kinship.young other kin' known) known
        exact ⟨kin'', known', link'.trans link⟩
    · rintro ⟨kin', known, link⟩
      rcases born.new_or_old known with ⟨rfl, rfl⟩ | ⟨_, before', known', _, _, same, _⟩
      · exact .inl ⟨rfl, link⟩
      · exact .inr ⟨before', known', same.symm.trans link⟩

/-- A context that was there is there still, with its exit status and its parent. -/
theorem kept (born : Born forker child origin after) (kinship : Kinship loaded origin)
    (there : origin.kin other = some kin) : ∃ kin', after.kin other = some kin' ∧
      kin'.exitStatus = kin.exitStatus ∧ kin'.parent = kin.parent := by
  obtain ⟨kin', found, link, status, _⟩ := born.keeps (kinship.young other kin there) there
  exact ⟨kin', found, status, link⟩

/-- The orphans are those that there were: a new context without a parent is loaded. -/
theorem orphans_iff (born : Born forker child origin after) (kinship : Kinship loaded origin)
    {loaded' : ContextId → Prop}
    (loads : ∀ id, loaded' id ↔ loaded id ∨ forker = none ∧ id = child) (other : ContextId) :
    other ∈ origin.own.orphans ↔ ∃ kin, after.kin other = some kin ∧ kin.exitStatus = none ∧
      kin.parent = none ∧ ¬loaded' other := by
  rw [kinship.orphans]
  constructor
  · rintro ⟨kin, there, live, none, forked⟩
    obtain ⟨kin', found, same, parent⟩ := born.kept kinship there
    refine ⟨kin', found, same.trans live, parent.trans none, fun loads' => ?_⟩
    rcases (loads other).mp loads' with old | ⟨_, rfl⟩
    · exact forked old
    · exact born.fresh (kinship.young other kin there) rfl
  · rintro ⟨kin', found, live, none, forked⟩
    rcases born.new_or_old found with ⟨rfl, rfl⟩ | ⟨_, kin, there, _, status, same, _⟩
    · exact absurd ((loads child).mpr (.inr ⟨none, rfl⟩)) forked
    · exact ⟨kin, there, status.symm.trans live, same.symm.trans none,
        fun old => forked ((loads other).mpr (.inl old))⟩

/-- Whoever waits for a child waits for a live one: the parent of a new context is at work, so that
it waits for nobody. -/
theorem hopes (born : Born forker child origin after) (kinship : Kinship loaded origin)
    (serving : ∀ parent, forker = some parent → origin.Serving parent)
    (found : after.kin other = some kin) {awaited : ContextId} (member : awaited ∈ kin.children)
    (waits : waitsFor kin.state awaited = true) : after.Live awaited := by
  rcases born.new_or_old found with ⟨rfl, rfl⟩ | ⟨_, before, there, state, _, _, children⟩
  · exact absurd member TreeSet.not_mem_emptyc
  · rw [state] at waits
    rcases (children awaited).mp member with ⟨_, mine⟩ | member
    · obtain ⟨kin', there', _, idle⟩ := serving other mine
      obtain rfl := Option.some.inj (there.symm.trans there')
      exact absurd (waiting_of_waitsFor waits) idle
    · exact born.live (kinship.hopes other before there awaited member waits)

end Born

/-- **A context that begins is in agreement with its parent, or is loaded.** -/
theorem Kinship.begun (kinship : Kinship loaded origin) {loaded' : ContextId → Prop}
    {parent : Option ContextId} (born : Born parent child origin { after with own := origin.own })
    (owned : after.own.owned = origin.own.owned.insert child)
    (orphans : after.own.orphans = origin.own.orphans)
    (serving : ∀ forker, parent = some forker → origin.Serving forker)
    (loads : ∀ id, loaded' id ↔ loaded id ∨ parent = none ∧ id = child) :
    Kinship loaded' after := by
  have parentLive (forker : ContextId) (same : parent = some forker) : origin.Live forker := by
    obtain ⟨kin, there, live, _⟩ := serving forker same
    exact ⟨kin, there, live⟩
  have lives {other : ContextId} (live : origin.Live other) : after.Live other := born.live live
  have next : after.machine.interpreter.nextId = child + 1 := born.nextId
  have young {other : ContextId} (early : other < origin.machine.interpreter.nextId) :
      other < child := by
    rw [born.next]
    exact early
  have new_or_old := fun {other kin} (found : after.kin other = some kin) => born.new_or_old found
  exact {
    uniform := born.uniform
    owned := by
      intro other
      rw [owned, TreeSet.mem_insert, compare_eq_iff_eq, kinship.owned]
      constructor
      · rintro (rfl | ⟨kin, there⟩)
        · exact ⟨_, born.self⟩
        · obtain ⟨kin', found, _⟩ := born.kept kinship there
          exact ⟨kin', found⟩
      · rintro ⟨kin', found⟩
        rcases new_or_old found with ⟨here, _⟩ | ⟨_, kin, there, _⟩
        · exact .inl here
        · exact .inr ⟨kin, there⟩
    young := by
      intro other kin' found
      rw [next]
      rcases new_or_old found with ⟨rfl, _⟩ | ⟨_, kin, there, _⟩
      · exact Nat.lt_succ_self _
      · exact (young (kinship.young other kin there)).trans (Nat.lt_succ_self _)
    known := by
      intro other loads'
      rw [next]
      rcases (loads other).mp loads' with old | ⟨_, rfl⟩
      · exact (young (kinship.known other old)).trans (Nat.lt_succ_self _)
      · exact Nat.lt_succ_self _
    linked := fun id kin found => born.linked kinship parentLive found
    parents := by
      intro other kin' forker found link
      rcases new_or_old found with ⟨rfl, rfl⟩ | ⟨_, kin, there, _, _, same, _⟩
      · obtain ⟨kin, there, live⟩ := parentLive forker link
        exact ⟨young (kinship.young forker kin there), lives ⟨kin, there, live⟩⟩
      · obtain ⟨younger, live⟩ := kinship.parents other kin forker there (same.symm.trans link)
        exact ⟨younger, lives live⟩
    rooted := by
      intro other kin' found loads'
      rcases new_or_old found with ⟨rfl, rfl⟩ | ⟨different, kin, there, _, _, same, _⟩
      · rcases (loads child).mp loads' with old | ⟨root, _⟩
        · exact absurd (young (kinship.known child old)) (Nat.lt_irrefl child)
        · exact root
      · rcases (loads other).mp loads' with old | ⟨_, here⟩
        · exact same.trans (kinship.rooted other kin there old)
        · exact absurd here.symm different
    exited := by
      intro other kin' found
      rcases new_or_old found with ⟨rfl, rfl⟩ | ⟨_, kin, there, state, status, _⟩
      · simp
      · rw [status, state]
        exact kinship.exited other kin there
    orphans := by
      intro other
      rw [orphans]
      exact born.orphans_iff kinship loads other
    kept := by
      intro other kin' found ended
      rcases new_or_old found with ⟨rfl, rfl⟩ | ⟨_, kin, there, _, status, same, _⟩
      · exact absurd rfl ended
      · rw [status] at ended
        rw [same]
        exact (kinship.kept other kin there ended).imp_left fun old => (loads other).mpr (.inl old)
    waits := by
      intro other kin' found waiting
      rcases new_or_old found with ⟨rfl, rfl⟩ | ⟨_, kin, there, state, _, _, children⟩
      · obtain ⟨target, same⟩ := waiting
        cases same
      · rw [state] at waiting ⊢
        obtain ⟨child', member, waits⟩ := kinship.waits other kin there waiting
        exact ⟨child', (children child').mpr (.inr member), waits⟩
    hopes := fun _ _ found _ member waits => born.hopes kinship serving found member waits }

/-! ## Removals -/

/-- **A context that has ended can be removed.** -/
theorem Kinship.removed (kinship : Kinship loaded origin) (removed : Removed id gone origin after)
    (ended : gone.exitStatus ≠ none) : Kinship loaded after := by
  have childless := kinship.childless removed.there ended
  suffices thinned : Thinned (· = id) origin after from kinship.thinned thinned
  exact {
    uniform := removed.uniform
    nextId := removed.nextId
    owned := by
      intro other
      rw [removed.owned, TreeSet.mem_erase, Ne, compare_eq_iff_eq, and_comm, eq_comm]
    orphans := by
      intro other
      rw [removed.orphans, TreeSet.mem_erase, Ne, compare_eq_iff_eq, and_comm, eq_comm]
    dead := by
      rintro _ rfl live
      exact ended ((live_iff removed.there).mp live)
    left := by
      -- Nobody's parent changes, since a context that has ended is nobody's parent.
      intro other kin there different
      exact ⟨_, removed.keeps (Ne.symm different) there, rfl, if_neg (childless other)⟩
    before := by
      intro other kin' found
      obtain ⟨different, kin, there, rfl⟩ := removed.of_found found
      refine ⟨Ne.symm different, kin, there, rfl, if_neg (childless other), fun child => ?_,
        .inl rfl⟩
      -- Whoever has the context for a child is its parent.
      rw [Removed.mem_children]
      refine and_congr_right fun member => ⟨fun left same => ?_, fun left _ => left⟩
      subst same
      obtain ⟨link, known, parent⟩ := (kinship.linked other kin there child).mp member
      obtain rfl := Option.some.inj (removed.there.symm.trans known)
      exact left parent rfl }

/-! ## Ends -/

/-- A context has ended: its frames are given back, its children are cut off, of which those that
had ended go and the others become orphans, and it goes itself if it was an orphan; otherwise its
parent goes on if it waits for this child. -/
structure Terminated (id : ContextId) (gone : Kin) (status : ExitStatus)
    (origin after : Hypervisor) : Prop extends Confined id origin after where
  uniform : after.machine.Uniform
  there : origin.kin id = some gone
  nextId : after.machine.interpreter.nextId = origin.machine.interpreter.nextId
  kin : ∀ other, after.kin other =
    if id = other then
      if id ∈ origin.own.orphans then none else some ⟨.exited, some status, gone.parent, ∅⟩
    else (origin.kin other).bind fun kin => kin.outliving id gone other
  owned : ∀ other, other ∈ after.own.owned ↔
    other ∈ origin.own.owned ∧ ∃ kin, after.kin other = some kin
  orphans : ∀ other, other ∈ after.own.orphans ↔ other ≠ id ∧ (other ∈ origin.own.orphans ∨
    ∃ kin, origin.kin other = some kin ∧ kin.parent = some id ∧ kin.exitStatus = none)
  woken : ∀ parent kin, gone.parent = some parent → origin.kin parent = some kin →
    waitsFor kin.state id = true → parent ∈ after.own.ready
  emptied : after.Emptied id

namespace Terminated

/-- Another context that is left has its exit status and its children, and its parent unless that
has ended. -/
theorem of_found (ends : Terminated id gone status origin after) {kin' : Kin}
    (different : id ≠ other) (found : after.kin other = some kin') :
    ∃ kin, origin.kin other = some kin ∧ kin'.exitStatus = kin.exitStatus ∧
      kin'.children = kin.children ∧
      (kin.parent ≠ some id ∧ kin'.parent = kin.parent ∨
        kin.parent = some id ∧ kin.exitStatus = none ∧ kin'.parent = none) ∧
      (kin'.state = kin.state ∧ (gone.parent = some other → waitsFor kin.state id = false ∨
          kin.parent = some id) ∨
        kin'.state = .ready ∧ waitsFor kin.state id = true ∧ gone.parent = some other) := by
  rw [ends.kin, if_neg different] at found
  obtain ⟨kin, there, left⟩ := Option.bind_eq_some_iff.mp found
  refine ⟨kin, there, ?_⟩
  unfold Kin.outliving at left
  split at left
  · rename_i child
    unfold Kin.cutOff at left
    split at left
    · rename_i live
      obtain rfl := Option.some.inj left
      exact ⟨rfl, rfl, .inr ⟨child, live, rfl⟩, .inl ⟨rfl, fun _ => .inr child⟩⟩
    · cases left
  · rename_i child
    split at left
    · rename_i wakes
      obtain rfl := Option.some.inj left
      exact ⟨rfl, rfl, .inl ⟨child, rfl⟩, .inr ⟨rfl, wakes.2, wakes.1⟩⟩
    · rename_i sleeps
      obtain rfl := Option.some.inj left
      refine ⟨rfl, rfl, .inl ⟨child, rfl⟩, .inl ⟨rfl, fun parent => .inl ?_⟩⟩
      exact Bool.eq_false_iff.mpr fun waits => sleeps ⟨parent, waits⟩

/-- Another context is left unless it is a child that had ended. -/
theorem keeps (ends : Terminated id gone status origin after) {kin : Kin} (different : id ≠ other)
    (there : origin.kin other = some kin) (stays : kin.parent = some id → kin.exitStatus = none) :
    ∃ kin', after.kin other = some kin' ∧ kin'.exitStatus = kin.exitStatus ∧
      kin'.parent = if kin.parent = some id then none else kin.parent := by
  rw [ends.kin, if_neg different, there, Option.bind_some]
  unfold Kin.outliving
  split
  · rename_i child
    rw [Kin.cutOff, if_pos (stays child)]
    exact ⟨_, rfl, rfl, rfl⟩
  · split <;> exact ⟨_, rfl, rfl, rfl⟩

/-- Nobody else ends. -/
theorem live (ends : Terminated id gone status origin after) (different : id ≠ other)
    (lives : origin.Live other) : after.Live other := by
  obtain ⟨kin, there, lives⟩ := lives
  obtain ⟨kin', found, same, _⟩ := ends.keeps different there fun _ => lives
  exact ⟨kin', found, same.trans lives⟩

/-- What is left of the context itself, unless it was an orphan. -/
theorem self (ends : Terminated id gone status origin after) {kin : Kin}
    (found : after.kin id = some kin) :
    id ∉ origin.own.orphans ∧ kin = ⟨.exited, some status, gone.parent, ∅⟩ := by
  rw [ends.kin, if_pos rfl] at found
  split at found
  · cases found
  · rename_i claimed
    exact ⟨claimed, (Option.some.inj found).symm⟩

theorem older (ends : Terminated id gone status origin after) (kinship : Kinship loaded origin)
    (link : gone.parent = some parent) : id ≠ parent :=
  (Nat.ne_of_lt (kinship.parents id gone parent ends.there link).1).symm

/-- The links of families are kept at both ends. -/
theorem linked (ends : Terminated id gone status origin after) (kinship : Kinship loaded origin)
    {kin' : Kin} (found : after.kin other = some kin') (child : ContextId) :
    child ∈ kin'.children ↔ ∃ link, after.kin child = some link ∧ link.parent = some other := by
  by_cases here : id = other
  · subst here
    obtain ⟨_, rfl⟩ := ends.self found
    refine ⟨fun member => absurd member TreeSet.not_mem_emptyc, ?_⟩
    rintro ⟨link', known', parent⟩
    by_cases there : id = child
    · subst there
      obtain ⟨_, rfl⟩ := ends.self known'
      exact absurd rfl (ends.older kinship parent)
    · obtain ⟨link, _, _, _, same | cut, _⟩ := ends.of_found there known'
      · exact absurd (same.2.symm.trans parent) same.1
      · rw [cut.2.2] at parent
        cases parent
  obtain ⟨kin, there, _, children, _⟩ := ends.of_found here found
  rw [children, kinship.linked other kin there child]
  have apart : some other ≠ some id := fun same => here (Option.some.inj same).symm
  constructor
  · rintro ⟨link, known, parent⟩
    by_cases there' : id = child
    · subst there'
      obtain rfl := Option.some.inj (known.symm.trans ends.there)
      have claimed : id ∉ origin.own.orphans := by
        intro member
        obtain ⟨_, known', _, none, _⟩ := (kinship.orphans id).mp member
        obtain rfl := Option.some.inj (known'.symm.trans ends.there)
        cases none.symm.trans parent
      rw [ends.kin, if_pos rfl, if_neg claimed]
      exact ⟨_, rfl, parent⟩
    · obtain ⟨link', known', _, parent'⟩ := ends.keeps there' known fun same =>
        absurd (parent.symm.trans same) apart
      rw [parent, if_neg apart] at parent'
      exact ⟨link', known', parent'⟩
  · rintro ⟨link', known', parent⟩
    by_cases there' : id = child
    · subst there'
      obtain ⟨_, rfl⟩ := ends.self known'
      exact ⟨gone, ends.there, parent⟩
    · obtain ⟨link, known, _, _, same | cut, _⟩ := ends.of_found there' known'
      · exact ⟨link, known, same.2.symm.trans parent⟩
      · rw [cut.2.2] at parent
        cases parent

/-- The live children of the context are orphans now, unless they were loaded, which no child is. -/
theorem orphans_iff (ends : Terminated id gone status origin after)
    (kinship : Kinship loaded origin) (other : ContextId) :
    other ∈ after.own.orphans ↔ ∃ kin, after.kin other = some kin ∧ kin.exitStatus = none ∧
      kin.parent = none ∧ ¬loaded other := by
  rw [ends.orphans]
  constructor
  · rintro ⟨different, member | ⟨kin, there, child, live⟩⟩
    · obtain ⟨kin, there, live, none, forked⟩ := (kinship.orphans other).mp member
      obtain ⟨kin', found, same, parent⟩ := ends.keeps different.symm there fun _ => live
      rw [none] at parent
      exact ⟨kin', found, same.trans live, parent.trans (if_neg (by simp)), forked⟩
    · obtain ⟨kin', found, same, parent⟩ := ends.keeps different.symm there fun _ => live
      refine ⟨kin', found, same.trans live, parent.trans (if_pos child), fun loads => ?_⟩
      rw [kinship.rooted other kin there loads] at child
      cases child
  · rintro ⟨kin', found, live', none, forked⟩
    have different : id ≠ other := by
      rintro rfl
      obtain ⟨_, rfl⟩ := ends.self found
      cases live'
    refine ⟨different.symm, ?_⟩
    obtain ⟨kin, there, status', _, same | cut, _⟩ := ends.of_found different found
    · refine .inl ((kinship.orphans other).mpr ⟨kin, there, ?_, ?_, forked⟩)
      · exact status'.symm.trans live'
      · exact same.2.symm.trans none
    · exact .inr ⟨kin, there, cut.1, cut.2.1⟩

/-- Whoever still waits for a child waits for a live one: a parent that has waited for the context
that ends does not wait any longer. -/
theorem hopes (ends : Terminated id gone status origin after) (kinship : Kinship loaded origin)
    {kin' : Kin} (found : after.kin other = some kin') (member : child ∈ kin'.children)
    (waits : waitsFor kin'.state child = true) : after.Live child := by
  by_cases here : id = other
  · subst here
    obtain ⟨_, rfl⟩ := ends.self found
    exact absurd member TreeSet.not_mem_emptyc
  obtain ⟨kin, there, _, children, _, same | woken⟩ := ends.of_found here found
  · rw [same.1] at waits
    rw [children] at member
    refine ends.live ?_ (kinship.hopes other kin there child member waits)
    rintro rfl
    obtain ⟨_, known, link⟩ := (kinship.linked other kin there id).mp member
    obtain rfl := Option.some.inj (known.symm.trans ends.there)
    rcases same.2 link with idle | grandchild
    · rw [idle] at waits
      cases waits
    · have up := (kinship.parents other kin id there grandchild).1
      have down := (kinship.parents id _ other ends.there link).1
      exact absurd up (Nat.lt_asymm down)
  · rw [woken.1] at waits
    cases waits

end Terminated

/-- **The end of a context leaves all families in agreement.** -/
theorem Kinship.terminated (kinship : Kinship loaded origin)
    (ends : Terminated id gone status origin after) (live : gone.exitStatus = none) :
    Kinship loaded after := by
  exact {
    uniform := ends.uniform
    owned := by
      intro other
      rw [ends.owned, kinship.owned]
      refine and_iff_right_of_imp ?_
      rintro ⟨kin', found⟩
      by_cases here : id = other
      · exact ⟨gone, here ▸ ends.there⟩
      · obtain ⟨kin, there, _⟩ := ends.of_found here found
        exact ⟨kin, there⟩
    young := by
      intro other kin' found
      rw [ends.nextId]
      by_cases here : id = other
      · exact here ▸ kinship.young id gone ends.there
      · obtain ⟨kin, there, _⟩ := ends.of_found here found
        exact kinship.young other kin there
    known := by
      rw [ends.nextId]
      exact kinship.known
    linked := fun _ _ found => ends.linked kinship found
    parents := by
      intro other kin' parent found link
      by_cases here : id = other
      · subst here
        obtain ⟨_, rfl⟩ := ends.self found
        obtain ⟨younger, lives⟩ := kinship.parents id gone parent ends.there link
        exact ⟨younger, ends.live (ends.older kinship link) lives⟩
      · obtain ⟨kin, there, _, _, same | cut, _⟩ := ends.of_found here found
        · have link' := same.2.symm.trans link
          obtain ⟨younger, lives⟩ := kinship.parents other kin parent there link'
          exact ⟨younger, ends.live (fun this => same.1 (this ▸ link')) lives⟩
        · rw [cut.2.2] at link
          cases link
    rooted := by
      intro other kin' found loads
      by_cases here : id = other
      · subst here
        obtain ⟨_, rfl⟩ := ends.self found
        exact kinship.rooted id gone ends.there loads
      · obtain ⟨kin, there, _, _, same | cut, _⟩ := ends.of_found here found
        · exact same.2.trans (kinship.rooted other kin there loads)
        · exact cut.2.2
    exited := by
      intro other kin' found
      by_cases here : id = other
      · subst here
        obtain ⟨_, rfl⟩ := ends.self found
        simp
      · obtain ⟨kin, there, status', _, _, same | woken⟩ := ends.of_found here found
        · rw [status', same.1]
          exact kinship.exited other kin there
        · rw [status', woken.1]
          have live := kinship.live_of_waiting there (waiting_of_waitsFor woken.2.1)
          simp [live]
    orphans := ends.orphans_iff kinship
    kept := by
      intro other kin' found ended
      by_cases here : id = other
      · subst here
        obtain ⟨claimed, rfl⟩ := ends.self found
        by_contra lost
        rw [not_or, not_not] at lost
        exact claimed ((kinship.orphans id).mpr ⟨gone, ends.there, live, lost.2, lost.1⟩)
      · obtain ⟨kin, there, status', _, same | cut, _⟩ := ends.of_found here found
        · rw [same.2]
          exact kinship.kept other kin there (status' ▸ ended)
        · exact absurd (status'.trans cut.2.1) ended
    waits := by
      intro other kin' found waiting
      by_cases here : id = other
      · subst here
        obtain ⟨_, rfl⟩ := ends.self found
        obtain ⟨target, same⟩ := waiting
        cases same
      · obtain ⟨kin, there, _, children, _, same | woken⟩ := ends.of_found here found
        · rw [same.1] at waiting ⊢
          rw [children]
          exact kinship.waits other kin there waiting
        · obtain ⟨target, same⟩ := waiting
          cases woken.1.symm.trans same
    hopes := fun _ _ found _ member waits => ends.hopes kinship found member waits }

end Hypervisor

end NestedMachine
