import NestedMachine.Hypervisor.Scheduling
import NestedMachine.Proofs.Ensures
import NestedMachine.Proofs.Machine.Uniform

/-!
# Families in order

Whether a context can go on depends on the states, the exit statuses and the family links of all
contexts (`Kin`), and on the ready queue.  A hypervisor is in order (`Orderly`) if every live
context is hopeful: it is ready and queued, or it waits for a child that is live.  Links lead from a
parent to a child with a greater number, and numbers are bounded; so a live context leads, over the
children that are waited for, to one that can run (`Orderly.exists_ready`).

While the hypervisor serves a context, that context is neither queued nor waiting: it is busy.
While a context ends, its parent may still wait for it: it is dying.  The lemmas here say what a
change of one context, the beginning of one and the removal of one do to the order.
-/

namespace NestedMachine

set_option autoImplicit false

open Std (TreeMap TreeSet)

/-! ## Kin -/

/-- What of a context matters to the scheduling of all. -/
structure Kin where
  state : ContextState
  exitStatus : Option ExitStatus
  parent : Option ContextId
  children : TreeSet ContextId

/-- What of a context matters to the scheduling of all. -/
def Context.kin (context : Context) : Kin :=
  ⟨context.state, context.exitStatus, context.parent, context.children⟩

/-- The kin in a table of contexts. -/
def kinIn (contexts : TreeMap ContextId Context) (id : ContextId) : Option Kin :=
  contexts[id]?.map Context.kin

variable {contexts : TreeMap ContextId Context} {id other : ContextId}

theorem kinIn_insert (context : Context) :
    kinIn (contexts.insert id context) other =
      if id = other then some context.kin else kinIn contexts other := by
  unfold kinIn
  rw [Table.getElem?_insert]
  split <;> rfl

theorem kinIn_insert_of_found {context changed : Context} (found : contexts[id]? = some context)
    (same : changed.kin = context.kin) :
    kinIn (contexts.insert id changed) other = kinIn contexts other := by
  rw [kinIn_insert]
  split
  · rename_i here
    rw [← here, kinIn, found, same]
    rfl
  · rfl

theorem kinIn_modify {change : Context → Context} {change' : Kin → Kin}
    (tells : ∀ context, (change context).kin = change' context.kin) :
    kinIn (contexts.modify id change) other =
      if id = other then (kinIn contexts other).map change' else kinIn contexts other := by
  unfold kinIn
  rw [Table.getElem?_modify]
  split
  · cases contexts[other]? with
    | none => rfl
    | some context => exact congrArg some (tells context)
  · rfl

/-- Kin after a context of the given kin was removed: it is nobody's child and nobody's parent. -/
def Kin.without (kin : Kin) (id : ContextId) (gone : Kin) (self : ContextId) : Kin where
  state := kin.state
  exitStatus := kin.exitStatus
  parent := if self ∈ gone.children then none else kin.parent
  children := if gone.parent = some self then kin.children.erase id else kin.children

theorem kinIn_orphaned (children : List ContextId) :
    kinIn (children.foldl (fun table child =>
        table.modify child fun found => { found with parent := none }) contexts) other =
      if other ∈ children then (kinIn contexts other).map fun kin => { kin with parent := none }
      else kinIn contexts other := by
  induction children generalizing contexts with
  | nil => simp
  | cons child rest ih =>
      have cut : kinIn (contexts.modify child fun found => { found with parent := none }) other =
          if child = other then (kinIn contexts other).map fun kin => { kin with parent := none }
          else kinIn contexts other := kinIn_modify fun _ => rfl
      rw [List.foldl_cons, ih, cut]
      by_cases here : child = other
      · subst here
        cases kinIn contexts child <;> simp
      · simp [here, Ne.symm here]

theorem kinIn_unlink (context : Context) :
    kinIn (Interpreter.unlink (contexts.erase id) id context) other =
      if id = other then none
      else (kinIn contexts other).map fun kin => kin.without id context.kin other := by
  have erased : kinIn (contexts.erase id) other =
      if id = other then none else kinIn contexts other := by
    unfold kinIn
    rw [Table.getElem?_erase]
    split <;> rfl
  have parted (parent : ContextId) :
      kinIn ((contexts.erase id).modify parent fun parent =>
          { parent with children := parent.children.erase id }) other =
        if parent = other then
          (kinIn (contexts.erase id) other).map fun kin =>
            { kin with children := kin.children.erase id }
        else kinIn (contexts.erase id) other := kinIn_modify fun _ => rfl
  unfold Interpreter.unlink
  refine (kinIn_orphaned _).trans ?_
  by_cases child : other ∈ context.children <;> cases parent : context.parent with
  | none =>
      dsimp only
      rw [erased]
      by_cases here : id = other <;> simp [here, child, parent, Kin.without, Context.kin]
  | some parent' =>
      dsimp only
      rw [parted, erased]
      cases kinIn contexts other <;> by_cases here : id = other <;>
        by_cases there : parent' = other <;>
        simp [here, there, child, parent, Kin.without, Context.kin]

namespace Hypervisor

variable {hypervisor origin after : Hypervisor} {busy dying : ContextId → Prop}

/-- What of a context matters to the scheduling of all. -/
def kin (hypervisor : Hypervisor) (id : ContextId) : Option Kin :=
  kinIn hypervisor.machine.interpreter.contexts id

/-- A context is there and has not ended. -/
def Live (hypervisor : Hypervisor) (id : ContextId) : Prop :=
  ∃ kin, hypervisor.kin id = some kin ∧ kin.exitStatus = none

/-- A context is there unless it has ended, or has ended. -/
def Ended (hypervisor : Hypervisor) (id : ContextId) : Prop :=
  ∀ kin, hypervisor.kin id = some kin → kin.exitStatus ≠ none

theorem kin_of_context? (uniform : hypervisor.machine.Uniform) {context : Context}
    (found : hypervisor.machine.context? id = some context) :
    hypervisor.kin id = some context.kin := by
  rw [uniform.context?] at found
  exact congrArg (Option.map Context.kin) found

theorem exists_context? (uniform : hypervisor.machine.Uniform) {kin : Kin}
    (found : hypervisor.kin id = some kin) :
    ∃ context, hypervisor.machine.context? id = some context ∧ context.kin = kin := by
  rw [uniform.context?]
  exact Option.map_eq_some_iff.mp found

theorem kin_of_none (uniform : hypervisor.machine.Uniform)
    (missing : hypervisor.machine.context? id = none) : hypervisor.kin id = none := by
  rw [uniform.context?] at missing
  exact congrArg (Option.map Context.kin) missing

theorem canRun_iff (uniform : hypervisor.machine.Uniform) :
    canRun hypervisor.machine id = true ↔
      ∃ kin, hypervisor.kin id = some kin ∧ kin.state = .ready := by
  rw [canRun, uniform.context?, Interpreter.context?, kin, kinIn]
  cases hypervisor.machine.interpreter.contexts[id]? with
  | none => simp
  | some context => simp [Context.kin]

/-- Dropping those that cannot run from the front of a queue leaves those that can. -/
theorem mem_dropWhile_of_canRun {machine : Machine} {queue : List ContextId}
    (runs : canRun machine id = true) (place : id ∈ queue) :
    id ∈ queue.dropWhile fun id => !canRun machine id := by
  rw [← List.takeWhile_append_dropWhile (l := queue) (p := fun id => !canRun machine id)] at place
  apply (List.mem_append.mp place).resolve_left
  intro taken
  have stuck := List.all_eq_true.mp List.all_takeWhile id taken
  rw [runs] at stuck
  cases stuck

/-- Where none of some contexts has ended, those that are there are live. -/
theorem live_of_unended (uniform : hypervisor.machine.Uniform) {ids : List ContextId}
    (unended : firstEnded hypervisor.machine ids = none) (listed : id ∈ ids) {kin : Kin}
    (known : hypervisor.kin id = some kin) : hypervisor.Live id := by
  refine ⟨kin, known, ?_⟩
  have none := List.findSome?_eq_none_iff.mp unended id listed
  obtain ⟨context, found, rfl⟩ := Option.map_eq_some_iff.mp known
  rw [uniform.context?, Interpreter.context?, found] at none
  exact Option.map_eq_none_iff.mp none

/-- Whoever waits for some children waits for each of them. -/
theorem waitsFor_of_includes {target : WaitTarget} {child : ContextId}
    (included : target.includes child = true) :
    waitsFor (.blocked target.reason) child = true := by
  cases target with
  | any => rfl
  | child id => exact included
  | nobody => cases included

/-- A stack is built without contexts. -/
theorem empty_of_nested {configuration : Configuration} {host : Host} {journal : Journal}
    {level : Nat} (built : nested configuration host journal level = .ok hypervisor) :
    hypervisor.machine.Uniform ∧ (∀ id, hypervisor.kin id = none) ∧
      hypervisor.own = newSupervisor configuration host := by
  cases level with
  | zero => cases built
  | succ below =>
      obtain rfl := Except.ok.inj built
      refine ⟨(Machine.uniform_ofLevels below rfl).congr rfl fun _ => rfl, fun id => ?_, rfl⟩
      show kinIn ∅ id = none
      rw [kinIn, TreeMap.getElem?_emptyc]
      rfl

/-! ## Order -/

/-- A context is ready and queued, or it waits for a child that is live or dying. -/
def Hopeful (dying : ContextId → Prop) (hypervisor : Hypervisor) (id : ContextId) (kin : Kin) :
    Prop :=
  kin.state = .ready ∧ id ∈ hypervisor.own.ready ∨
    ∃ child ∈ kin.children, waitsFor kin.state child = true ∧
      (dying child ∨ hypervisor.Live child)

/-- Nobody. -/
def Nobody (_ : ContextId) : Prop := False

theorem not_nobody (id : ContextId) : ¬Nobody id := fun nobody => nobody

/-- Everyone is where the scheduler finds them, apart from contexts that are busy. -/
structure Orderly (busy dying : ContextId → Prop) (hypervisor : Hypervisor) : Prop where
  uniform : hypervisor.machine.Uniform
  ending : hypervisor.own.debugTraps = false
  owned : ∀ id ∈ hypervisor.own.owned, ∃ kin, hypervisor.kin id = some kin
  orphaned : ∀ id ∈ hypervisor.own.orphans,
    ∃ kin, hypervisor.kin id = some kin ∧ kin.parent = none
  young : ∀ id kin, hypervisor.kin id = some kin → id < hypervisor.machine.interpreter.nextId
  family : ∀ id kin, hypervisor.kin id = some kin → ∀ child ∈ kin.children,
    ∃ other, hypervisor.kin child = some other ∧ other.parent = some id ∧ id < child
  hopeful : ∀ id kin, hypervisor.kin id = some kin → kin.exitStatus = none → ¬busy id →
    Hopeful dying hypervisor id kin

/-- **Where a context is live, one can run.**  The numbers of the contexts that wait for each other
ascend, and all numbers are below the next one. -/
theorem Orderly.exists_ready (orderly : Orderly Nobody Nobody hypervisor) {kin : Kin}
    (found : hypervisor.kin id = some kin) (live : kin.exitStatus = none) :
    ∃ other ∈ hypervisor.own.ready, ∃ kin, hypervisor.kin other = some kin ∧
      kin.state = .ready := by
  induction distance : hypervisor.machine.interpreter.nextId - id using Nat.strong_induction_on
    generalizing id kin with
  | _ steps ih =>
      rcases orderly.hopeful id kin found live (not_nobody id) with ⟨ready, queued⟩ | hope
      · exact ⟨id, queued, kin, found, ready⟩
      · obtain ⟨child, member, _, dying | ⟨other, there, lives⟩⟩ := hope
        · exact dying.elim
        · obtain ⟨_, _, _, younger⟩ := orderly.family id kin found child member
          have bounded := orderly.young child other there
          have nearer := Nat.sub_lt_sub_left (Nat.lt_trans younger bounded) younger
          exact ih _ (distance ▸ nearer) there lives rfl

/-- Hope is kept where a context keeps its state, its place in the queue and a child to wait for. -/
theorem Hopeful.imp {dying' : ContextId → Prop} {kin kin' : Kin}
    (hope : Hopeful dying origin id kin) (state : kin'.state = kin.state)
    (queued : kin.state = .ready → id ∈ origin.own.ready → id ∈ after.own.ready)
    (children : ∀ child ∈ kin.children, waitsFor kin.state child = true →
      dying child ∨ origin.Live child →
        child ∈ kin'.children ∧ (dying' child ∨ after.Live child)) :
    Hopeful dying' after id kin' := by
  rcases hope with ⟨ready, place⟩ | ⟨child, member, waits, lives⟩
  · exact .inl ⟨state.trans ready, queued ready place⟩
  · obtain ⟨member', lives'⟩ := children child member waits lives
    refine .inr ⟨child, member', ?_, lives'⟩
    rw [state]
    exact waits

/-- More contexts may be busy. -/
theorem Orderly.mono {busy' : ContextId → Prop} (orderly : Orderly busy dying hypervisor)
    (wider : ∀ id, busy id → busy' id) : Orderly busy' dying hypervisor :=
  { orderly with
    hopeful := fun id kin found live idle =>
      orderly.hopeful id kin found live fun busy => idle (wider id busy) }

/-- A context that is ready and queued is not busy. -/
theorem Orderly.idle (orderly : Orderly busy dying hypervisor)
    (place : ∀ kin, hypervisor.kin id = some kin →
      kin.state = .ready ∧ id ∈ hypervisor.own.ready) :
    Orderly (fun other => busy other ∧ other ≠ id) dying hypervisor := by
  refine { orderly with hopeful := fun other kin found live idle => ?_ }
  by_cases here : other = id
  · exact .inl (here ▸ place kin (here ▸ found))
  · exact orderly.hopeful other kin found live fun busy => idle ⟨busy, here⟩

/-- A context that died matters no longer once nobody waits for it. -/
theorem Orderly.settled (orderly : Orderly busy dying hypervisor)
    (forgotten : ∀ id kin, hypervisor.kin id = some kin → kin.exitStatus = none → ¬busy id →
      ∀ child ∈ kin.children, waitsFor kin.state child = true → ¬dying child) :
    Orderly busy Nobody hypervisor := by
  refine { orderly with hopeful := fun id kin found live idle => ?_ }
  refine (orderly.hopeful id kin found live idle).imp rfl (fun _ place => place) ?_
  intro child member waits lives
  rcases lives with dies | lives
  · exact absurd dies (forgotten id kin found live idle child member waits)
  · exact ⟨member, .inr lives⟩

/-! ## Changes that do not matter -/

/-- Nothing that matters to the scheduling has changed. -/
structure Kindred (origin after : Hypervisor) : Prop where
  uniform : after.machine.Uniform
  kin : ∀ id, after.kin id = origin.kin id
  nextId : after.machine.interpreter.nextId = origin.machine.interpreter.nextId
  ready : after.own.ready = origin.own.ready
  owned : after.own.owned = origin.own.owned
  orphans : after.own.orphans = origin.own.orphans
  debugTraps : after.own.debugTraps = origin.own.debugTraps
  hosted : after.own.relay.hosted = origin.own.relay.hosted

namespace Kindred

theorem refl (uniform : hypervisor.machine.Uniform) : Kindred hypervisor hypervisor :=
  ⟨uniform, fun _ => rfl, rfl, rfl, rfl, rfl, rfl, rfl⟩

theorem trans {middle : Hypervisor} (first : Kindred origin middle)
    (second : Kindred middle after) : Kindred origin after :=
  ⟨second.uniform, fun id => (second.kin id).trans (first.kin id),
    second.nextId.trans first.nextId, second.ready.trans first.ready,
    second.owned.trans first.owned, second.orphans.trans first.orphans,
    second.debugTraps.trans first.debugTraps, second.hosted.trans first.hosted⟩

theorem live (kindred : Kindred origin after) (lives : origin.Live id) : after.Live id := by
  obtain ⟨kin, found, lives⟩ := lives
  exact ⟨kin, (kindred.kin id).trans found, lives⟩

/-- Order depends only on what matters to the scheduling. -/
theorem orderly (kindred : Kindred origin after) (orderly : Orderly busy dying origin) :
    Orderly busy dying after where
  uniform := kindred.uniform
  ending := kindred.debugTraps.trans orderly.ending
  owned := by
    intro id member
    rw [kindred.owned] at member
    rw [kindred.kin]
    exact orderly.owned id member
  orphaned := by
    intro id member
    rw [kindred.orphans] at member
    rw [kindred.kin]
    exact orderly.orphaned id member
  young := by
    intro id kin found
    rw [kindred.kin] at found
    rw [kindred.nextId]
    exact orderly.young id kin found
  family := by
    intro id kin found child member
    rw [kindred.kin] at found
    rw [kindred.kin]
    exact orderly.family id kin found child member
  hopeful := by
    intro id kin found live idle
    rw [kindred.kin] at found
    refine (orderly.hopeful id kin found live idle).imp rfl (fun _ place => ?_) ?_
    · rw [kindred.ready]
      exact place
    · intro child member _ lives
      exact ⟨member, lives.imp_right kindred.live⟩

end Kindred

/-! ## Changes of the record -/

/-- Queues may change as long as contexts that are ready stay queued. -/
theorem Orderly.withOwn {busy' : ContextId → Prop} {own : Supervisor}
    (orderly : Orderly busy dying hypervisor)
    (ending : own.debugTraps = hypervisor.own.debugTraps)
    (owned : ∀ id ∈ own.owned, id ∈ hypervisor.own.owned ∨ ∃ kin, hypervisor.kin id = some kin)
    (orphaned : ∀ id ∈ own.orphans, id ∈ hypervisor.own.orphans ∨
      ∃ kin, hypervisor.kin id = some kin ∧ kin.parent = none)
    (queued : ∀ id kin, hypervisor.kin id = some kin → kin.exitStatus = none → ¬busy' id →
      ¬busy id ∧ (kin.state = .ready → id ∈ hypervisor.own.ready → id ∈ own.ready) ∨
        kin.state = .ready ∧ id ∈ own.ready) :
    Orderly busy' dying { hypervisor with own } where
  uniform := orderly.uniform
  ending := ending.trans orderly.ending
  owned id member := (owned id member).elim (orderly.owned id) fun found => found
  orphaned id member := (orphaned id member).elim (orderly.orphaned id) fun found => found
  young := orderly.young
  family := orderly.family
  hopeful := by
    intro id kin found live idle
    rcases queued id kin found live idle with ⟨idle', place⟩ | ready
    · apply (orderly.hopeful id kin found live idle').imp rfl place
      intro child member _ lives
      exact ⟨member, lives⟩
    · exact .inl ready

/-! ## Changes of one context -/

/-- The kin of one context has changed. -/
structure Altered (id : ContextId) (change : Kin → Kin) (origin after : Hypervisor) : Prop where
  uniform : after.machine.Uniform
  kin : ∀ other, after.kin other =
    if id = other then (origin.kin other).map change else origin.kin other
  nextId : after.machine.interpreter.nextId = origin.machine.interpreter.nextId
  own : after.own = origin.own

/-- No context has the given one for a child. -/
def Unclaimed (hypervisor : Hypervisor) (id : ContextId) : Prop :=
  ∀ other kin, hypervisor.kin other = some kin → id ∉ kin.children

namespace Altered

variable {change : Kin → Kin}

theorem of_found (altered : Altered id change origin after) {kin : Kin}
    (found : after.kin other = some kin) : ∃ before, origin.kin other = some before ∧
      kin = if id = other then change before else before := by
  rw [altered.kin] at found
  by_cases here : id = other
  · rw [if_pos here] at found
    obtain ⟨before, found', rfl⟩ := Option.map_eq_some_iff.mp found
    exact ⟨before, found', (if_pos here).symm⟩
  · rw [if_neg here] at found
    exact ⟨kin, found, (if_neg here).symm⟩

theorem live {dying' : ContextId → Prop} (altered : Altered id change origin after)
    (ends : ∀ kin, kin.exitStatus = none → (change kin).exitStatus = none ∨ dying' id)
    (lives : origin.Live other) : dying' other ∨ after.Live other := by
  obtain ⟨kin, found, lives⟩ := lives
  by_cases here : id = other
  · refine (ends kin lives).symm.imp (fun dies => here ▸ dies) fun lives => ⟨change kin, ?_, lives⟩
    rw [altered.kin, if_pos here, found]
    rfl
  · refine .inr ⟨kin, ?_, lives⟩
    rw [altered.kin, if_neg here, found]

/-- **What a change of one context does to the order.**  The context may lose children, and its
parent if nobody claims it; if it ends it is dying; and it has to be hopeful itself. -/
theorem orderly {busy' dying' : ContextId → Prop} (altered : Altered id change origin after)
    (orderly : Orderly busy dying origin)
    (children : ∀ kin, ∀ child ∈ (change kin).children, child ∈ kin.children)
    (parent : (∀ kin, (change kin).parent = kin.parent) ∨
      (∀ kin, (change kin).parent = none) ∧ origin.Unclaimed id)
    (ends : ∀ kin, kin.exitStatus = none → (change kin).exitStatus = none ∨ dying' id)
    (dies : ∀ other, dying other → dying' other)
    (wider : ∀ other, id ≠ other → busy other → busy' other)
    (hope : ∀ kin, origin.kin id = some kin → (change kin).exitStatus = none → ¬busy' id →
      Hopeful dying' after id (change kin)) :
    Orderly busy' dying' after where
  uniform := altered.uniform
  ending := by
    rw [altered.own]
    exact orderly.ending
  owned := by
    intro other member
    rw [altered.own] at member
    obtain ⟨kin, found⟩ := orderly.owned other member
    rw [altered.kin, found]
    split
    · exact ⟨_, rfl⟩
    · exact ⟨_, rfl⟩
  orphaned := by
    intro other member
    rw [altered.own] at member
    obtain ⟨kin, found, none⟩ := orderly.orphaned other member
    rw [altered.kin, found]
    split
    · refine ⟨_, rfl, ?_⟩
      rcases parent with same | ⟨cut, _⟩
      · rw [same, none]
      · rw [cut]
    · exact ⟨_, rfl, none⟩
  young := by
    intro other kin found
    obtain ⟨before, found', _⟩ := altered.of_found found
    rw [altered.nextId]
    exact orderly.young other before found'
  family := by
    intro other kin found child member
    obtain ⟨before, found', rfl⟩ := altered.of_found found
    have member' : child ∈ before.children := by
      split at member
      · exact children before child member
      · exact member
    obtain ⟨kin, there, link, younger⟩ := orderly.family other before found' child member'
    rw [altered.kin, there]
    split
    · rename_i here
      rcases parent with same | ⟨_, unclaimed⟩
      · refine ⟨_, rfl, ?_, younger⟩
        rw [same, link]
      · exact absurd (here ▸ member') (unclaimed other before found')
    · exact ⟨kin, rfl, link, younger⟩
  hopeful := by
    intro other kin found live idle
    obtain ⟨before, found', rfl⟩ := altered.of_found found
    by_cases here : id = other
    · subst here
      rw [if_pos rfl] at live ⊢
      exact hope before found' live idle
    · rw [if_neg here] at live ⊢
      have idle' : ¬busy other := fun busy => idle (wider other here busy)
      refine (orderly.hopeful other before found' live idle').imp rfl (fun _ place => ?_) ?_
      · rw [altered.own]
        exact place
      · intro child member _ lives
        exact ⟨member, lives.elim (fun dead => .inl (dies child dead)) (altered.live ends)⟩

end Altered

/-! ## Beginnings -/

/-- A context has begun, as the child of another one or of none. -/
structure Born (parent : Option ContextId) (child : ContextId) (origin after : Hypervisor) :
    Prop where
  uniform : after.machine.Uniform
  next : child = origin.machine.interpreter.nextId
  nextId : after.machine.interpreter.nextId = child + 1
  kin : ∀ other, after.kin other =
    if child = other then some ⟨.ready, none, parent, ∅⟩
    else (origin.kin other).map fun kin =>
      if parent = some other then { kin with children := kin.children.insert child } else kin
  own : after.own = origin.own

namespace Born

variable {parent : Option ContextId} {child : ContextId}

theorem self (born : Born parent child origin after) :
    after.kin child = some ⟨.ready, none, parent, ∅⟩ := by
  rw [born.kin, if_pos rfl]

theorem nextId_le (born : Born parent child origin after) :
    origin.machine.interpreter.nextId ≤ after.machine.interpreter.nextId :=
  (Nat.le_succ _).trans_eq (born.next ▸ born.nextId.symm)

/-- A context that is there is the new one, or was there before; then it has the new one for a child
if it is the parent, and is the same otherwise. -/
theorem new_or_old (born : Born parent child origin after) {kin : Kin}
    (found : after.kin other = some kin) :
    child = other ∧ kin = ⟨.ready, none, parent, ∅⟩ ∨
    child ≠ other ∧ ∃ before, origin.kin other = some before ∧ kin.state = before.state ∧
      kin.exitStatus = before.exitStatus ∧ kin.parent = before.parent ∧
      ∀ id, id ∈ kin.children ↔ child = id ∧ parent = some other ∨ id ∈ before.children := by
  by_cases here : child = other
  · subst here
    exact .inl ⟨rfl, Option.some.inj (found.symm.trans born.self)⟩
  · rw [born.kin, if_neg here] at found
    obtain ⟨before, there, rfl⟩ := Option.map_eq_some_iff.mp found
    refine .inr ⟨here, before, there, ?_⟩
    split
    · rename_i mine
      refine ⟨rfl, rfl, rfl, fun id => ?_⟩
      rw [TreeSet.mem_insert, compare_eq_iff_eq, and_iff_left mine]
    · rename_i apart
      refine ⟨rfl, rfl, rfl, fun id => (or_iff_right fun claimed => apart claimed.2).symm⟩

/-- A number that is in use is another one. -/
theorem fresh (born : Born parent child origin after)
    (older : other < origin.machine.interpreter.nextId) : child ≠ other := by
  rw [born.next]
  exact (Nat.ne_of_lt older).symm

/-- What was there is still there, with the same links to parents. -/
theorem keeps (born : Born parent child origin after) {kin : Kin}
    (older : other < origin.machine.interpreter.nextId) (found : origin.kin other = some kin) :
    ∃ kin', after.kin other = some kin' ∧ kin'.parent = kin.parent ∧
      kin'.exitStatus = kin.exitStatus ∧ kin'.state = kin.state := by
  rw [born.kin, if_neg (born.fresh older), found]
  refine ⟨_, rfl, ?_⟩
  dsimp only
  split <;> exact ⟨rfl, rfl, rfl⟩

/-- **What a beginning does to the order**: the new context is busy until it is queued. -/
theorem orderly (born : Born parent child origin after) (orderly : Orderly busy dying origin) :
    Orderly (fun id => busy id ∨ id = child) dying after where
  uniform := born.uniform
  ending := by
    rw [born.own]
    exact orderly.ending
  owned := by
    intro id member
    rw [born.own] at member
    obtain ⟨kin, found⟩ := orderly.owned id member
    obtain ⟨kin', found', _⟩ := born.keeps (orderly.young _ _ found) found
    exact ⟨kin', found'⟩
  orphaned := by
    intro id member
    rw [born.own] at member
    obtain ⟨kin, found, none⟩ := orderly.orphaned id member
    obtain ⟨kin', found', link, _⟩ := born.keeps (orderly.young _ _ found) found
    exact ⟨kin', found', link.trans none⟩
  young := by
    intro id kin found
    rw [born.nextId]
    rcases born.new_or_old found with ⟨rfl, _⟩ | ⟨_, before, there, _⟩
    · exact Nat.lt_succ_self child
    · have older := orderly.young id before there
      rw [← born.next] at older
      exact Nat.lt_succ_of_lt older
  family := by
    intro id kin found other member
    rcases born.new_or_old found with ⟨rfl, rfl⟩ | ⟨_, before, there, _, _, _, children⟩
    · exact absurd member TreeSet.not_mem_emptyc
    · rcases (children other).mp member with ⟨rfl, mine⟩ | member
      · exact ⟨_, born.self, mine, born.next ▸ orderly.young id before there⟩
      · obtain ⟨kin, there, link, younger⟩ := orderly.family id before there other member
        obtain ⟨kin', there', link', _⟩ := born.keeps (orderly.young _ _ there) there
        exact ⟨kin', there', link'.trans link, younger⟩
  hopeful := by
    intro id kin found live idle
    rcases born.new_or_old found with ⟨rfl, _⟩ | ⟨_, before, there, state, status, _, children⟩
    · exact absurd (.inr rfl) idle
    · have idle' : ¬busy id := fun busy => idle (.inl busy)
      refine (orderly.hopeful id before there (status ▸ live) idle').imp state
        (fun _ place => ?_) ?_
      · rw [born.own]
        exact place
      · intro other member _ lives
        refine ⟨(children other).mpr (.inr member), lives.imp_right fun lives => ?_⟩
        obtain ⟨kin, there, lives⟩ := lives
        obtain ⟨kin', there', _, same, _⟩ := born.keeps (orderly.young _ _ there) there
        exact ⟨kin', there', same.trans lives⟩

/-- A context that has begun is ready, but not queued. -/
theorem known (born : Born parent child origin after) (orderly : Orderly busy dying origin) :
    Orderly (fun id => busy id ∨ id = child) dying after ∧
      ∃ kin, after.kin child = some kin ∧ kin.state = .ready :=
  ⟨born.orderly orderly, _, born.self, rfl⟩

end Born

/-! ## Removals -/

/-- A context has been removed, from its family and from the record. -/
structure Removed (id : ContextId) (gone : Kin) (origin after : Hypervisor) : Prop where
  uniform : after.machine.Uniform
  there : origin.kin id = some gone
  kin : ∀ other, after.kin other =
    if id = other then none else (origin.kin other).map fun kin => kin.without id gone other
  nextId : after.machine.interpreter.nextId = origin.machine.interpreter.nextId
  ready : after.own.ready = origin.own.ready
  owned : after.own.owned = origin.own.owned.erase id
  orphans : after.own.orphans = origin.own.orphans.erase id
  debugTraps : after.own.debugTraps = origin.own.debugTraps

namespace Removed

variable {gone : Kin}

theorem of_found (removed : Removed id gone origin after) {kin : Kin}
    (found : after.kin other = some kin) : id ≠ other ∧
      ∃ before, origin.kin other = some before ∧ kin = before.without id gone other := by
  rw [removed.kin] at found
  by_cases here : id = other
  · rw [if_pos here] at found
    cases found
  · rw [if_neg here] at found
    obtain ⟨before, found', rfl⟩ := Option.map_eq_some_iff.mp found
    exact ⟨here, before, found', rfl⟩

theorem keeps (removed : Removed id gone origin after) {kin : Kin} (different : id ≠ other)
    (found : origin.kin other = some kin) :
    after.kin other = some (kin.without id gone other) := by
  rw [removed.kin, if_neg different, found]
  rfl

theorem mem_children {kin : Kin} {child : ContextId} :
    child ∈ (kin.without id gone other).children ↔
      child ∈ kin.children ∧ (gone.parent = some other → child ≠ id) := by
  unfold Kin.without
  dsimp only
  split
  · rename_i parent
    rw [TreeSet.mem_erase, Ne, compare_eq_iff_eq, eq_comm]
    simp [parent, and_comm]
  · rename_i parent
    simp [parent]

/-- **What a removal does to the order**: nothing, if the context has ended. -/
theorem orderly (removed : Removed id gone origin after) (orderly : Orderly busy dying origin)
    (ended : gone.exitStatus ≠ none) (settled : ¬dying id) : Orderly busy dying after where
  uniform := removed.uniform
  ending := removed.debugTraps.trans orderly.ending
  owned := by
    intro other member
    rw [removed.owned, TreeSet.mem_erase, Ne, compare_eq_iff_eq] at member
    obtain ⟨kin, found⟩ := orderly.owned other member.2
    exact ⟨_, removed.keeps member.1 found⟩
  orphaned := by
    intro other member
    rw [removed.orphans, TreeSet.mem_erase, Ne, compare_eq_iff_eq] at member
    obtain ⟨kin, found, none⟩ := orderly.orphaned other member.2
    refine ⟨_, removed.keeps member.1 found, ?_⟩
    unfold Kin.without
    dsimp only
    rw [none]
    exact ite_self _
  young := by
    intro other kin found
    obtain ⟨_, before, found', _⟩ := removed.of_found found
    rw [removed.nextId]
    exact orderly.young other before found'
  family := by
    intro other kin found child member
    obtain ⟨different, before, found', rfl⟩ := removed.of_found found
    obtain ⟨member', kept⟩ := mem_children.mp member
    obtain ⟨kin, there, link, younger⟩ := orderly.family other before found' child member'
    have left : id ≠ child := by
      rintro rfl
      obtain rfl := Option.some.inj (removed.there.symm.trans there)
      exact kept link rfl
    refine ⟨_, removed.keeps left there, ?_, younger⟩
    -- A child of the removed context has it for a parent, and so no other.
    have apart : child ∉ gone.children := by
      intro member
      obtain ⟨kin', there', link', _⟩ := orderly.family id gone removed.there child member
      obtain rfl := Option.some.inj (there.symm.trans there')
      exact different (Option.some.inj (link'.symm.trans link))
    unfold Kin.without
    rw [if_neg apart]
    exact link
  hopeful := by
    intro other kin found live idle
    obtain ⟨_, before, found', rfl⟩ := removed.of_found found
    refine (orderly.hopeful other before found' live idle).imp rfl (fun _ place => ?_) ?_
    · rw [removed.ready]
      exact place
    · intro child member _ lives
      have left : id ≠ child := by
        rintro rfl
        rcases lives with dies | ⟨kin, there, lives⟩
        · exact settled dies
        · obtain rfl := Option.some.inj (removed.there.symm.trans there)
          exact ended lives
      refine ⟨mem_children.mpr ⟨member, fun _ same => left same.symm⟩, lives.imp_right ?_⟩
      rintro ⟨kin, there, lives⟩
      exact ⟨_, removed.keeps left there, lives⟩

end Removed

/-! ## Families that only get smaller -/

/-- No context has begun, ended or got a child. -/
def Shrunk (origin after : Hypervisor) : Prop :=
  ∀ id kin, after.kin id = some kin → ∃ before, origin.kin id = some before ∧
    kin.exitStatus = before.exitStatus ∧ ∀ child ∈ kin.children, child ∈ before.children

namespace Shrunk

variable {start : Hypervisor}

theorem refl (hypervisor : Hypervisor) : Shrunk hypervisor hypervisor :=
  fun _ kin found => ⟨kin, found, rfl, fun _ member => member⟩

theorem trans (first : Shrunk start origin) (second : Shrunk origin after) :
    Shrunk start after := by
  intro id kin found
  obtain ⟨middle, found', same, fewer⟩ := second id kin found
  obtain ⟨before, found'', same', fewer'⟩ := first id middle found'
  exact ⟨before, found'', same.trans same', fun child member => fewer' child (fewer child member)⟩

theorem of_kindred (kindred : Kindred origin after) : Shrunk origin after := by
  intro id kin found
  rw [kindred.kin] at found
  exact ⟨kin, found, rfl, fun _ member => member⟩

theorem of_altered {change : Kin → Kin} (altered : Altered id change origin after)
    (same : ∀ kin, (change kin).exitStatus = kin.exitStatus)
    (fewer : ∀ kin, ∀ child ∈ (change kin).children, child ∈ kin.children) :
    Shrunk origin after := by
  intro other kin found
  obtain ⟨before, found', rfl⟩ := altered.of_found found
  refine ⟨before, found', ?_⟩
  split
  · exact ⟨same before, fewer before⟩
  · exact ⟨rfl, fun _ member => member⟩

theorem of_removed {gone : Kin} (removed : Removed id gone origin after) :
    Shrunk origin after := by
  intro other kin found
  obtain ⟨_, before, found', rfl⟩ := removed.of_found found
  exact ⟨before, found', rfl, fun child member => (Removed.mem_children.mp member).1⟩

theorem unclaimed (shrunk : Shrunk origin after) (unclaimed : origin.Unclaimed id) :
    after.Unclaimed id := by
  intro other kin found member
  obtain ⟨before, found', _, fewer⟩ := shrunk other kin found
  exact unclaimed other before found' (fewer id member)

theorem ended (shrunk : Shrunk origin after) (ended : origin.Ended id) : after.Ended id := by
  intro kin found
  obtain ⟨before, found', same, _⟩ := shrunk id kin found
  rw [same]
  exact ended before found'

end Shrunk

end Hypervisor

end NestedMachine
