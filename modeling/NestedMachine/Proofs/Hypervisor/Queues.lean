import NestedMachine.Proofs.Hypervisor.Conduct
import NestedMachine.Proofs.Hypervisor.Services

/-!
# The ready queue

Queue and states are kept apart and change one after the other.  They agree (`Lined`) if no number
is queued twice and every owned context that is ready is queued.  A context that is about to run or
about to be queued is busy, and may be missing for the moment.

Every operation leaves contexts in line, also where it fails half way (`Operation.keepsLine`): a
context is busy only between two changes that cannot fail, or until it is running.  Numbers are
never used again, so that what begins is not queued yet.
-/

namespace NestedMachine.Hypervisor

set_option autoImplicit false

open Std (TreeSet)

variable {α : Type} {hypervisor origin middle after : Hypervisor} {busy : ContextId → Prop}
  {id other child : ContextId} {gone kin : Kin}

/-- No number is queued twice, and every owned context that is ready is queued, apart from those
that are busy.  Numbers that are in use are below the next one, and no context is both owned and
hosted for the level above. -/
structure Lined (busy : ContextId → Prop) (hypervisor : Hypervisor) : Prop where
  uniform : hypervisor.machine.Uniform
  young : ∀ id kin, hypervisor.kin id = some kin → id < hypervisor.machine.interpreter.nextId
  queued : ∀ id ∈ hypervisor.own.ready, id < hypervisor.machine.interpreter.nextId
  owned : ∀ id ∈ hypervisor.own.owned, id < hypervisor.machine.interpreter.nextId
  hosted : ∀ id ∈ hypervisor.own.relay.hosted, id < hypervisor.machine.interpreter.nextId
  apart : ∀ id ∈ hypervisor.own.owned, id ∉ hypervisor.own.relay.hosted
  distinct : hypervisor.own.ready.Nodup
  placed : ∀ id ∈ hypervisor.own.owned, ∀ kin, hypervisor.kin id = some kin →
    kin.state = .ready → ¬busy id → id ∈ hypervisor.own.ready

/-- A context is not ready, or not there. -/
def Unready (hypervisor : Hypervisor) (id : ContextId) : Prop :=
  ∀ kin, hypervisor.kin id = some kin → kin.state ≠ .ready

theorem unready_of_found {kin : Kin} (found : hypervisor.kin id = some kin)
    (never : kin.state ≠ .ready) : hypervisor.Unready id := by
  intro kin' found'
  obtain rfl := Option.some.inj (found.symm.trans found')
  exact never

theorem unready_of_missing (missing : hypervisor.kin id = none) : hypervisor.Unready id := by
  intro kin found
  cases missing.symm.trans found

/-! ## What keeps contexts in line -/

namespace Lined

/-- A context need not be busy if it is not owned, not ready, or queued. -/
theorem narrow (lined : Lined busy hypervisor) {busy' : ContextId → Prop}
    (settled : ∀ id ∈ hypervisor.own.owned, busy id → ¬busy' id →
      hypervisor.Unready id ∨ id ∈ hypervisor.own.ready) : Lined busy' hypervisor := by
  refine { lined with placed := fun id member kin found ready idle => ?_ }
  by_cases busied : busy id
  · rcases settled id member busied idle with unready | place
    · exact absurd ready (unready kin found)
    · exact place
  · exact lined.placed id member kin found ready busied

theorem mono (lined : Lined Nobody hypervisor) : Lined busy hypervisor :=
  lined.narrow fun _ _ nobody => nobody.elim

/-- A context that is not ready need not be busy. -/
theorem of_unready (lined : Lined (fun other => busy other ∨ other = id) hypervisor)
    (unready : hypervisor.Unready id) : Lined busy hypervisor := by
  refine lined.narrow fun other _ busied idle => .inl ?_
  obtain rfl := busied.resolve_left idle
  exact unready

/-- Nothing has changed that matters to the scheduling. -/
theorem of_kindred (lined : Lined busy origin) (kindred : Kindred origin after) :
    Lined busy after where
  uniform := kindred.uniform
  young id kin := by
    rw [kindred.kin, kindred.nextId]
    exact lined.young id kin
  queued := by
    rw [kindred.ready, kindred.nextId]
    exact lined.queued
  owned := by
    rw [kindred.owned, kindred.nextId]
    exact lined.owned
  hosted := by
    rw [kindred.hosted, kindred.nextId]
    exact lined.hosted
  apart := by
    rw [kindred.owned, kindred.hosted]
    exact lined.apart
  distinct := by
    rw [kindred.ready]
    exact lined.distinct
  placed := by
    rw [kindred.owned, kindred.ready]
    intro id member kin found
    rw [kindred.kin] at found
    exact lined.placed id member kin found

/-- The machine below has changed: a context that is owned and ready was so before, or is busy
now. -/
theorem of_machine (lined : Lined busy origin) {busy' : ContextId → Prop}
    (own : after.own = origin.own) (uniform : after.machine.Uniform)
    (nextId : origin.machine.interpreter.nextId ≤ after.machine.interpreter.nextId)
    (young : ∀ id kin, after.kin id = some kin → id < after.machine.interpreter.nextId)
    (ready : ∀ id ∈ origin.own.owned, ∀ kin, after.kin id = some kin → kin.state = .ready →
      ¬busy' id → ¬busy id ∧ ∃ kin, origin.kin id = some kin ∧ kin.state = .ready) :
    Lined busy' after where
  uniform := uniform
  young := young
  queued id member := (lined.queued id (own ▸ member)).trans_le nextId
  owned id member := (lined.owned id (own ▸ member)).trans_le nextId
  hosted id member := (lined.hosted id (own ▸ member)).trans_le nextId
  apart := by
    rw [own]
    exact lined.apart
  distinct := by
    rw [own]
    exact lined.distinct
  placed := by
    rw [own]
    intro id member kin found ready' idle
    obtain ⟨idle', kin', found', same⟩ := ready id member kin found ready' idle
    exact lined.placed id member kin' found' same idle'

/-- The record has changed. -/
theorem of_own (lined : Lined busy hypervisor) {busy' : ContextId → Prop} {own : Supervisor}
    (queued : ∀ id ∈ own.ready, id < hypervisor.machine.interpreter.nextId)
    (owned : ∀ id ∈ own.owned, id < hypervisor.machine.interpreter.nextId)
    (hosted : ∀ id ∈ own.relay.hosted, id < hypervisor.machine.interpreter.nextId)
    (apart : ∀ id ∈ own.owned, id ∉ own.relay.hosted) (distinct : own.ready.Nodup)
    (placed : ∀ id ∈ own.owned, ¬busy' id → id ∈ hypervisor.own.owned ∧ ¬busy id ∧
      (¬hypervisor.Unready id → id ∈ hypervisor.own.ready → id ∈ own.ready)) :
    Lined busy' { hypervisor with own } where
  uniform := lined.uniform
  young := lined.young
  queued := queued
  owned := owned
  hosted := hosted
  apart := apart
  distinct := distinct
  placed id member kin found ready idle := by
    obtain ⟨member', idle', place⟩ := placed id member idle
    refine place (fun unready => unready kin found ready) ?_
    exact lined.placed id member' kin found ready idle'

/-- The record has changed, but neither the queue nor what is hosted, and nothing new is owned. -/
theorem of_record (lined : Lined busy hypervisor) {own : Supervisor}
    (ready : own.ready = hypervisor.own.ready)
    (owned : ∀ id ∈ own.owned, id ∈ hypervisor.own.owned)
    (hosted : own.relay.hosted = hypervisor.own.relay.hosted) :
    Lined busy { hypervisor with own } := by
  refine lined.of_own (ready ▸ lined.queued) (fun id member => lined.owned id (owned id member))
    (hosted ▸ lined.hosted) (fun id member => ?_) (ready ▸ lined.distinct)
    fun id member idle => ⟨owned id member, idle, fun _ place => ready ▸ place⟩
  rw [hosted]
  exact lined.apart id (owned id member)

end Lined

/-! ## Changes of contexts -/

theorem Altered.lined {change : Kin → Kin} (altered : Altered id change origin after)
    (lined : Lined busy origin) {busy' : ContextId → Prop}
    (same : ∀ kin, (change kin).state = .ready → ¬busy' id → kin.state = .ready)
    (wider : ∀ other, busy other → busy' other) : Lined busy' after := by
  refine lined.of_machine altered.own altered.uniform altered.nextId.ge (fun other kin found => ?_)
    fun other member kin found ready idle => ⟨fun busied => idle (wider other busied), ?_⟩
  · obtain ⟨before, there, _⟩ := altered.of_found found
    rw [altered.nextId]
    exact lined.young other before there
  · obtain ⟨before, there, rfl⟩ := altered.of_found found
    refine ⟨before, there, ?_⟩
    split at ready
    · rename_i here
      exact same before ready (here ▸ idle)
    · exact ready

/-- What begins is in line, because nobody owns it yet. -/
theorem Born.lined {forker : Option ContextId} (born : Born forker child origin after)
    (lined : Lined busy origin) : Lined busy after := by
  have later := born.nextId_le
  refine lined.of_machine born.own born.uniform later (fun other kin found => ?_)
    fun other member kin found ready idle => ⟨idle, ?_⟩
  · rcases born.new_or_old found with ⟨rfl, _⟩ | ⟨_, before, there, _⟩
    · rw [born.nextId]
      exact Nat.lt_succ_self child
    · exact (lined.young other before there).trans_le later
  · rcases born.new_or_old found with ⟨rfl, _⟩ | ⟨_, before, there, state, _⟩
    · exact absurd rfl (born.fresh (lined.owned child member))
    · exact ⟨before, there, state ▸ ready⟩

theorem Removed.lined {record : Supervisor}
    (removed : Removed id gone origin { after with own := record })
    (own : after.own = origin.own) (lined : Lined busy origin) : Lined busy after := by
  refine lined.of_machine own removed.uniform removed.nextId.ge (fun other kin found => ?_)
    fun other member kin found ready idle => ⟨idle, ?_⟩
  · obtain ⟨_, before, there, _⟩ := removed.of_found found
    exact (lined.young other before there).trans_eq removed.nextId.symm
  · obtain ⟨_, before, there, rfl⟩ := removed.of_found found
    exact ⟨before, there, ready⟩

/-! ## Changes of the record -/

theorem lined_dequeue (lined : Lined busy origin) (id : ContextId) :
    Lined (fun other => busy other ∨ other = id)
      (origin.withReady (origin.own.ready.filter (· != id))) := by
  refine lined.of_own (fun other member => lined.queued other (List.mem_of_mem_filter member))
    lined.owned lined.hosted lined.apart (lined.distinct.filter _) fun other member idle => ?_
  rw [not_or] at idle
  refine ⟨member, idle.1, fun _ place => List.mem_filter.mpr ⟨place, ?_⟩⟩
  exact bne_iff_ne.mpr idle.2

/-- A context that is there and not queued may be queued. -/
theorem lined_enqueue (lined : Lined (fun other => busy other ∨ other = id) origin)
    (found : origin.kin id = some kin) (absent : id ∉ origin.own.ready) :
    Lined busy (origin.withReady (origin.own.ready ++ [id])) := by
  have queued : Lined (fun other => busy other ∨ other = id)
      (origin.withReady (origin.own.ready ++ [id])) := by
    refine lined.of_own (fun other member => ?_) lined.owned lined.hosted lined.apart
      (lined.distinct.append (List.nodup_singleton id) ?_) fun other member idle =>
        ⟨member, idle, fun _ place => List.mem_append_left _ place⟩
    · rcases List.mem_append.mp member with old | new
      · exact lined.queued other old
      · exact List.mem_singleton.mp new ▸ lined.young id kin found
    · rw [List.disjoint_singleton]
      exact absent
  refine queued.narrow fun other _ busied idle => .inr ?_
  obtain rfl := busied.resolve_left idle
  exact List.mem_append_right _ List.mem_cons_self

/-! ## Programs that keep contexts in line -/

/-- Everyone is in line before, and so they are after, whether the action answers or fails. -/
abbrev KeepsLine (action : HypervisorAction α) : Prop := Keeps (Lined Nobody) action

theorem Discreet.keepsLine {holder : ContextId} {told : α → Prop} {action : HypervisorAction α}
    (discreet : Discreet holder told action) : KeepsLine action :=
  fun origin lined => (discreet origin lined.uniform).mono
    (fun _ _ given => lined.of_kindred given.1.toKindred)
    fun _ _ given => lined.of_kindred given.1.toKindred

theorem keepsLine_note (happening : Note) : KeepsLine (note happening) :=
  (discreet_note 0 happening).keepsLine

theorem keepsLine_count (change : Counters → Counters) : KeepsLine (count change) :=
  (discreet_count 0 change).keepsLine

theorem keepsLine_requireOwned (id : ContextId) : KeepsLine (requireOwned id) :=
  (discreet_requireOwned 0 id).keepsLine

theorem keepsLine_contextOf (id : ContextId) : KeepsLine (contextOf id) :=
  (discreet_contextOf 0 id).keepsLine

/-- Whatever else of the record changes does not matter. -/
theorem keepsLine_modifyOwn {change : Supervisor → Supervisor}
    (ready : ∀ own, (change own).ready = own.ready)
    (owned : ∀ own, ∀ id ∈ (change own).owned, id ∈ own.owned)
    (hosted : ∀ own, (change own).relay.hosted = own.relay.hosted) :
    KeepsLine (modifyOwn change) :=
  .modify fun _ lined => lined.of_record (ready _) (owned _) (hosted _)

/-- A context may be changed as long as nobody becomes ready who is not busy. -/
theorem lined_modifyContext (lined : Lined busy origin) (id : ContextId)
    (change : Context → Context) (change' : Kin → Kin) (busy' : ContextId → Prop)
    (tells : ∀ context, (change context).kin = change' context.kin)
    (space : ∀ context, (change context).space = context.space)
    (same : ∀ kin, (change' kin).state = .ready → ¬busy' id → kin.state = .ready)
    (wider : ∀ other, busy other → busy' other) :
    Halts (fun _ after => Lined busy after ∧ after.kin id = none)
      (fun _ after => Lined busy' after ∧ ∃ kin, after.kin id = some (change' kin))
      (modifyContext id change origin) := by
  cases there : origin.kin id with
  | none =>
      have missing := Option.map_eq_none_iff.mp there
      rw [modifyContext_apply, lined.uniform.context?, Interpreter.context?, missing]
      exact ⟨lined, there⟩
  | some kin =>
      apply (halts_alter lined.uniform there change' tells space).certain
      rintro _ after ⟨altered, _⟩
      refine ⟨altered.lined lined same wider, kin, ?_⟩
      rw [altered.kin, if_pos rfl, there]
      rfl

theorem keepsLine_modifyContext (id : ContextId) (change : Context → Context)
    (change' : Kin → Kin) (tells : ∀ context, (change context).kin = change' context.kin)
    (space : ∀ context, (change context).space = context.space)
    (same : ∀ kin, (change' kin).state = .ready → kin.state = .ready) :
    KeepsLine (modifyContext id change) :=
  fun _ lined => (lined_modifyContext lined id change change' Nobody tells space
    (fun kin ready _ => same kin ready) fun _ nobody => nobody).mono
      (fun _ _ given => given.1) fun _ _ given => given.1

/-- A context that is moved into another state is not ready. -/
theorem lined_setState (lined : Lined busy origin) (id : ContextId) {state : ContextState}
    (never : state ≠ .ready) :
    Halts (fun _ after => Lined busy after ∧ after.Unready id)
      (fun _ after => Lined busy after ∧ after.Unready id) (setState id state origin) := by
  apply (lined_modifyContext lined id (·.withState state) (fun kin => { kin with state }) busy
    (fun _ => rfl) (fun _ => rfl) (fun _ ready _ => absurd ready never) fun _ busied => busied).mono
  · rintro _ after ⟨lined, kin, found⟩
    exact ⟨lined, unready_of_found found never⟩
  · rintro _ after ⟨lined, missing⟩
    exact ⟨lined, unready_of_missing missing⟩

theorem keepsLine_setState (id : ContextId) {state : ContextState} (never : state ≠ .ready) :
    KeepsLine (setState id state) :=
  fun _ lined => (lined_setState lined id never).mono (fun _ _ given => given.1)
    fun _ _ given => given.1

/-! ## Readiness -/

/-- **A context that is made ready is queued once.** -/
theorem lined_makeReady (lined : Lined (fun other => busy other ∨ other = id) origin) :
    Halts (fun _ => Lined busy) (fun _ => Lined busy) (makeReady id origin) := by
  apply Halts.bind ((lined_modifyContext lined id (·.withState .ready)
    (fun kin => { kin with state := .ready }) (fun other => busy other ∨ other = id)
    (fun _ => rfl) (fun _ => rfl) (fun _ _ idle => absurd (.inr rfl) idle) fun _ same => same).mono
      (fun _ _ given => given) fun _ after given => given.1.of_unready (unready_of_missing given.2))
  rintro _ middle ⟨lined, kin, found⟩
  apply Halts.get_bind
  split
  · rename_i queued
    refine lined.narrow fun other _ busied idle => .inr ?_
    obtain rfl := busied.resolve_left idle
    exact List.contains_iff_mem.mp queued
  · rename_i absent
    exact lined_enqueue lined found fun place => absent (List.contains_iff_mem.mpr place)

theorem keepsLine_makeReady (id : ContextId) : KeepsLine (makeReady id) :=
  fun _ lined => lined_makeReady lined.mono

/-! ## How contexts begin -/

/-- The machine below leaves the record alone. -/
theorem halts_same_own {failed : HostError → Hypervisor → Prop} {wanted : α → Hypervisor → Prop}
    {action : MachineAction α} (halts : Halts failed wanted (below action origin)) :
    Halts (fun error after => failed error after ∧ after.own = origin.own)
      (fun answer after => wanted answer after ∧ after.own = origin.own) (below action origin) := by
  obtain ⟨machine, own⟩ := origin
  simp only [below] at halts ⊢
  cases result : action machine with
  | ok answer machine =>
      rw [result] at halts
      exact ⟨halts, rfl⟩
  | error error machine =>
      rw [result] at halts
      exact ⟨halts, rfl⟩

/-- A context has just begun: it is neither queued nor owned nor hosted for the level above. -/
structure Fresh (id : ContextId) (hypervisor : Hypervisor) : Prop where
  there : ∃ kin, hypervisor.kin id = some kin
  unqueued : id ∉ hypervisor.own.ready
  unowned : id ∉ hypervisor.own.owned
  unhosted : id ∉ hypervisor.own.relay.hosted

theorem Fresh.of_kindred (fresh : Fresh id origin) (kindred : Kindred origin after) :
    Fresh id after where
  there := by
    rw [kindred.kin]
    exact fresh.there
  unqueued := by
    rw [kindred.ready]
    exact fresh.unqueued
  unowned := by
    rw [kindred.owned]
    exact fresh.unowned
  unhosted := by
    rw [kindred.hosted]
    exact fresh.unhosted

theorem Born.fresh_context {forker : Option ContextId} (born : Born forker child origin after)
    (lined : Lined busy origin) : Fresh child after where
  there := ⟨_, born.self⟩
  unqueued member := born.fresh (lined.queued child (born.own ▸ member)) rfl
  unowned member := born.fresh (lined.owned child (born.own ▸ member)) rfl
  unhosted member := born.fresh (lined.hosted child (born.own ▸ member)) rfl

theorem Skipped.lined (skipped : Skipped origin after) (lined : Lined busy origin) :
    Lined busy after := by
  refine lined.of_machine skipped.own skipped.uniform (skipped.nextId ▸ Nat.le_succ _)
    (fun other kin found => ?_) fun other member kin found ready idle => ⟨idle, kin, ?_, ready⟩
  · rw [skipped.kin] at found
    rw [skipped.nextId]
    exact Nat.lt_succ_of_lt (lined.young other kin found)
  · exact (skipped.kin other).symm.trans found

theorem lined_create (lined : Lined Nobody origin) (image : Image) (options : LoadOptions) :
    Halts (fun _ => Lined Nobody) (fun id after => Lined Nobody after ∧ Fresh id after)
      (below (Machine.create image options) origin) :=
  (halts_create lined.uniform image options).mono
    (fun _ _ given => ⟨given.1.lined lined, given.1.fresh_context lined⟩)
    fun _ _ given => given.1.lined lined

theorem lined_fork (lined : Lined Nobody origin) (id : ContextId) :
    Halts (fun _ => Lined Nobody)
      (fun answer after => Lined Nobody after ∧ ∀ child, answer = some child → Fresh child after)
      (below (Machine.fork id) origin) := by
  apply (halts_fork lined.uniform id fun kin found => lined.young id kin found).mono
  · intro answer after given
    cases answer with
    | none => exact ⟨lined.of_kindred (given 0).toKindred, fun _ none => nomatch none⟩
    | some child =>
        refine ⟨given.1.lined lined, ?_⟩
        rintro _ ⟨⟩
        exact given.1.fresh_context lined
  · exact fun _ after refused => lined.of_kindred (refused.hushed 0).toKindred

/-- A new context that is owned is busy until it is queued. -/
theorem Fresh.owned (fresh : Fresh id origin) (lined : Lined Nobody origin) :
    Lined (fun other => Nobody other ∨ other = id)
      { origin with own := { origin.own with owned := origin.own.owned.insert id } } := by
  have inserted (other : ContextId) :
      other ∈ origin.own.owned.insert id ↔ id = other ∨ other ∈ origin.own.owned := by
    rw [TreeSet.mem_insert, compare_eq_iff_eq]
  refine lined.of_own lined.queued (fun other member => ?_) lined.hosted (fun other member => ?_)
    lined.distinct fun other member idle => ?_
  · rcases (inserted other).mp member with rfl | member
    · obtain ⟨kin, found⟩ := fresh.there
      exact lined.young id kin found
    · exact lined.owned other member
  · rcases (inserted other).mp member with rfl | member
    · exact fresh.unhosted
    · exact lined.apart other member
  · rw [not_or] at idle
    refine ⟨?_, idle.1, fun _ place => place⟩
    exact ((inserted other).mp member).resolve_left fun same => idle.2 same.symm

theorem Fresh.halts_own (fresh : Fresh id origin) (lined : Lined Nobody origin) :
    Halts (fun _ => Lined Nobody) (fun _ => Lined fun other => Nobody other ∨ other = id)
      (modifyOwn (fun own => { own with owned := own.owned.insert id }) origin) :=
  fresh.owned lined

theorem Fresh.halts_count (fresh : Fresh id origin) (lined : Lined Nobody origin)
    (change : Counters → Counters) :
    Halts (fun _ => Lined Nobody) (fun _ after => Lined Nobody after ∧ Fresh id after)
      (count change origin) :=
  (Hypervisor.halts_count lined.uniform change).certain fun _ _ hushed =>
    ⟨lined.of_kindred (hushed 0).toKindred, fresh.of_kindred (hushed 0).toKindred⟩

theorem keepsLine_load (image : Image) (arguments : List String) :
    KeepsLine (load image arguments) := by
  refine .get_bind fun look origin lined => ?_
  apply Halts.bind (lined_create lined image _)
  rintro id middle ⟨lined, fresh⟩
  obtain ⟨kin, found⟩ := fresh.there
  have queued := lined_enqueue (fresh.owned lined) found fresh.unqueued
  have rest : KeepsLine (do
      count fun counters => { counters with contextsCreated := counters.contextsCreated + 1 }
      note (.levelLoaded (← get).level id)
      return id) := by
    refine (keepsLine_count _).bind fun _ => .get_bind fun look => ?_
    exact (keepsLine_note _).bind fun _ => .pure id
  exact rest _ queued

/-! ## How contexts end -/

theorem lined_destroy (lined : Lined busy origin) (id : ContextId) :
    Halts (fun _ => Lined busy) (fun _ => Lined busy) (below (Machine.destroy id) origin) := by
  apply (halts_same_own (halts_destroy lined.uniform id)).mono
  · rintro _ after ⟨⟨⟨gone, removed⟩, _⟩, own⟩
    exact removed.lined own lined
  · rintro _ after ⟨refused, _⟩
    exact lined.of_kindred (refused.hushed 0).toKindred

/-- A context may leave the queue if it is not owned or not ready. -/
theorem lined_without (lined : Lined Nobody origin)
    (settled : id ∈ origin.own.owned → origin.Unready id) :
    Halts (fun _ => Lined Nobody) (fun _ => Lined Nobody) (dequeue id origin) := by
  refine (lined_dequeue lined id).narrow fun other member busied _ => .inl ?_
  obtain rfl := busied.resolve_left (not_nobody other)
  exact settled member

theorem keepsLine_discard (id : ContextId) : KeepsLine (discard id) := by
  intro origin lined
  apply Halts.bind (lined_destroy lined id)
  intro _ middle lined
  have fewer : ∀ other ∈ middle.own.owned.erase id, other ∈ middle.own.owned :=
    fun _ => TreeSet.mem_of_mem_erase
  refine lined_without (lined.of_record rfl fewer rfl) fun member => ?_
  rw [TreeSet.mem_erase] at member
  exact absurd Std.ReflCmp.compare_self member.1

theorem keepsLine_wakeParent (parent child : ContextId) : KeepsLine (wakeParent parent child) := by
  apply Keeps.get_bind
  intro look
  split
  · refine .ite ?_ (.pure ())
    exact (keepsLine_note _).bind fun _ => keepsLine_makeReady parent
  · exact .pure ()

theorem keepsLine_disown (child : ContextId) : KeepsLine (disown child) := by
  apply Keeps.get_bind
  intro look
  split
  · refine (keepsLine_modifyContext child (fun context => { context with parent := none })
      (fun kin => { kin with parent := none }) (fun _ => rfl) (fun _ => rfl)
      fun _ ready => ready).bind fun _ => ?_
    refine .ite (keepsLine_discard child) ?_
    exact keepsLine_modifyOwn (fun _ => rfl) (fun _ _ member => member) fun _ => rfl
  · exact .pure ()

theorem keepsLine_disownAll (children : List ContextId) : KeepsLine (disownAll children) := by
  induction children with
  | nil => exact .pure ()
  | cons child rest ih => exact (keepsLine_disown child).bind fun _ => ih

theorem keepsLine_settle (id : ContextId) (parent : Option ContextId) :
    KeepsLine (settle id parent) := by
  apply Keeps.get_bind
  intro look
  refine .ite ?_ ?_
  · refine Keeps.bind ?_ fun _ => keepsLine_discard id
    exact keepsLine_modifyOwn (fun _ => rfl) (fun _ _ member => member) fun _ => rfl
  · cases parent with
    | none => exact .pure ()
    | some parent => exact keepsLine_wakeParent parent id

theorem lined_release (lined : Lined busy origin) (id : ContextId) :
    Halts (fun _ => Lined busy) (fun _ => Lined busy) (below (Machine.release id) origin) :=
  (halts_release lined.uniform id).mono (fun _ _ given => lined.of_kindred given.1.toKindred)
    fun _ _ refused => lined.of_kindred (refused.hushed 0).toKindred

/-- **A context that ends leaves the queue.** -/
theorem keepsLine_terminate (id : ContextId) (status : ExitStatus) :
    KeepsLine (terminate id status) := by
  intro origin lined
  apply Halts.bind (lined_release lined id)
  intro released middle lined
  apply Halts.bind (keepsLine_contextOf id middle lined)
  intro context middle lined
  apply Halts.bind ((lined_modifyContext lined id
    (fun context => { context.terminate status with children := ∅ })
    (fun kin => ⟨.exited, some status, kin.parent, ∅⟩) Nobody (fun _ => rfl) (fun _ => rfl)
    (fun _ ready => nomatch ready) fun _ nobody => nobody).mono
      (fun _ _ given => given) fun _ _ given => given.1)
  rintro _ middle ⟨lined, kin, found⟩
  have unready : middle.Unready id := unready_of_found found fun exited => nomatch exited
  apply Halts.bind (lined_without lined fun _ => unready)
  intro _ middle lined
  have rest : KeepsLine (do
      count fun counters => { counters with exits := counters.exits + 1 }
      note (.terminated id status released)
      disownAll context.children.toList
      settle id context.parent) := by
    refine (keepsLine_count _).bind fun _ => (keepsLine_note _).bind fun _ => ?_
    exact (keepsLine_disownAll _).bind fun _ => keepsLine_settle id _
  exact rest middle lined

theorem keepsLine_park (id : ContextId) (fault : Fault) (pc : UInt64) :
    KeepsLine (do
      setState id (.trapped fault pc)
      dequeue id) := by
  intro origin lined
  have parked : ContextState.trapped fault pc ≠ .ready := fun ready => nomatch ready
  apply Halts.bind ((lined_setState lined id parked).mono (fun _ _ given => given)
    fun _ _ given => given.1)
  rintro _ middle ⟨lined, unready⟩
  exact lined_without lined fun _ => unready

theorem keepsLine_reap (id : ContextId) : KeepsLine (reap id) := by
  refine (keepsLine_requireOwned id).bind fun _ => (keepsLine_contextOf id).bind fun context => ?_
  exact .ite ((keepsLine_discard id).bind fun _ => .pure _) (.pure _)

theorem keepsLine_finalizeTrapped (id : ContextId) : KeepsLine (finalizeTrapped id) := by
  refine (keepsLine_requireOwned id).bind fun _ => (keepsLine_contextOf id).bind fun context => ?_
  split
  · exact (keepsLine_terminate id _).bind fun _ => .pure _
  · exact .throw _

/-! ## System calls -/

theorem keepsLine_serveFork (id : ContextId) : KeepsLine (serveFork id) := by
  intro origin lined
  apply Halts.bind (lined_fork lined id)
  rintro answer middle ⟨lined, fresh⟩
  cases answer with
  | none => exact ((keepsLine_note _).bind fun _ => .pure _) middle lined
  | some child =>
      apply Halts.bind ((fresh child rfl).halts_count lined _)
      rintro _ counted ⟨lined, fresh⟩
      apply Halts.bind (fresh.halts_own lined)
      intro _ owned lined
      apply Halts.bind ((lined_modifyContext lined child
        (fun context => (context.withRegister Register.a0 0).withPc (context.hart.pc + 4))
        (fun kin => kin) _ (fun _ => rfl) (fun _ => rfl) (fun _ ready _ => ready)
        fun _ busied => busied).mono (fun _ _ given => given.1)
          fun _ _ given => given.1.of_unready (unready_of_missing given.2))
      intro _ begun lined
      apply Halts.bind (lined_makeReady lined)
      intro _ queued lined
      exact ((keepsLine_note _).bind fun _ => .pure _) queued lined

/-- **Whatever is done on behalf of a context keeps contexts in line.** -/
theorem upheld_lined (id : ContextId) : Upheld id (Lined Nobody) :=
  .of_discreet (fun discreet => discreet.keepsLine)
    (.of_discreet (fun discreet => discreet.keepsLine)
      (fun child => keeps_kill fun _ _ _ => keepsLine_terminate child _) keepsLine_reap
      (keepsLine_serveFork id))
    (keepsLine_setState id) (keepsLine_makeReady id) (keepsLine_park id) (keepsLine_terminate id)

/-! ## Scheduling -/

theorem keepsLine_switch (id : ContextId) (quantum : Nat) :
    KeepsLine (below (Machine.switch id quantum)) :=
  (discreet_switch id quantum).keepsLine

/-- **A context that is about to run may have left the queue**: it is running before anything can
fail. -/
theorem lined_slice (lined : Lined (fun other => Nobody other ∨ other = id) origin)
    (quantum : Nat) :
    Halts (fun _ => Lined Nobody) (fun _ => Lined Nobody) (slice id quantum origin) := by
  have owned : Halts (fun _ => Lined Nobody) (fun _ after => after = origin)
      (requireOwned id origin) := by
    rw [requireOwned_apply]
    split
    · exact rfl
    · rename_i stranger
      refine lined.narrow fun other member busied idle => absurd member ?_
      obtain rfl := busied.resolve_left idle
      exact fun member => stranger (TreeSet.contains_iff_mem.mpr member)
  apply owned.bind
  rintro _ _ rfl
  apply Halts.bind ((halts_contextOf lined.uniform id).mono (fun _ _ given => given)
    fun _ _ refused => (lined.of_kindred (refused.hushed 0).toKindred).of_unready
      (unready_of_missing (((refused.hushed 0).kin id).trans refused.missing)))
  rintro context after ⟨rfl, found⟩
  split
  · rename_i never
    have there : after.kin id = some context.kin := congrArg (Option.map Context.kin) found
    exact lined.of_unready (unready_of_found there never)
  · apply Halts.bind ((lined_setState lined id (by nofun)).mono (fun _ _ given => given)
      fun _ _ given => given.1.of_unready given.2)
    rintro _ running ⟨lined, unready⟩
    exact (upheld_lined id).restOfSlice (keepsLine_switch id) quantum running
      (lined.of_unready unready)

theorem keepsLine_slice (id : ContextId) (quantum : Nat) : KeepsLine (slice id quantum) :=
  fun _ lined => lined_slice lined.mono quantum

/-- Only contexts that cannot run are dropped. -/
theorem lined_nextReady (lined : Lined busy origin) :
    Halts Never (fun answer after => Lined busy after ∧ answer = after.own.ready.head?)
      (nextReady origin) := by
  refine ⟨?_, rfl⟩
  have dropped := List.dropWhile_sublist (l := origin.own.ready)
    fun id => !canRun origin.machine id
  refine lined.of_own (fun id member => lined.queued id (dropped.subset member)) lined.owned
    lined.hosted lined.apart (lined.distinct.sublist dropped) fun id member idle => ?_
  refine ⟨member, idle, fun runs place => mem_dropWhile_of_canRun ?_ place⟩
  rw [canRun_iff lined.uniform]
  by_contra none
  exact runs fun kin found ready => none ⟨kin, found, ready⟩

theorem keepsLine_nextReady : KeepsLine nextReady :=
  fun _ lined => (lined_nextReady lined).certain fun _ _ given => given.1

theorem keepsLine_requeue (id : ContextId) : KeepsLine (requeue id) := by
  intro origin lined
  have left := lined_dequeue lined id
  apply Halts.bind ((halts_dequeue id).certain fun _ _ same => same)
  rintro _ _ rfl
  apply Halts.get_bind
  split
  · rename_i runs
    obtain ⟨kin, found, _⟩ := (canRun_iff left.uniform).mp runs
    exact lined_enqueue left found fun place => bne_iff_ne.mp (List.mem_filter.mp place).2 rfl
  · rename_i stuck
    refine left.of_unready fun kin found ready => stuck ?_
    exact (canRun_iff left.uniform).mpr ⟨kin, found, ready⟩

/-- A context that is taken from the front of the queue is busy. -/
theorem lined_tail {rest : List ContextId} (lined : Lined Nobody origin)
    (queue : origin.own.ready = id :: rest) :
    Lined (fun other => Nobody other ∨ other = id) (origin.withReady origin.own.ready.tail) := by
  have behind : origin.own.ready.tail.Sublist origin.own.ready := List.tail_sublist _
  refine lined.of_own (fun other member => lined.queued other (behind.subset member)) lined.owned
    lined.hosted lined.apart (lined.distinct.sublist behind) fun other member idle => ?_
  rw [not_or] at idle
  refine ⟨member, idle.1, fun _ place => ?_⟩
  rw [queue] at place ⊢
  exact (List.mem_cons.mp place).resolve_left idle.2

theorem keepsLine_scheduleOnce : KeepsLine scheduleOnce := by
  intro origin lined
  apply Halts.bind ((lined_nextReady lined).certain fun _ _ given => given)
  rintro next middle ⟨lined, front⟩
  cases next with
  | none => exact lined
  | some id =>
      obtain ⟨rest, queue⟩ := List.head?_eq_some_iff.mp front.symm
      have taken : Halts Never (fun _ => Lined fun other => Nobody other ∨ other = id)
          (modifyOwn (fun own => { own with ready := own.ready.tail }) middle) :=
        lined_tail lined queue
      apply Halts.bind (taken.certain fun _ _ given => given)
      intro _ taken lined
      apply Halts.get_bind
      exact (lined_slice lined _).bind fun _ _ lined => lined

theorem keepsLine_step (id : ContextId) : KeepsLine (step id) :=
  (upheld_lined id).step (keepsLine_switch id)

/-! ## Runs -/

theorem keepsLine_awaitOnce (id : ContextId) : KeepsLine (awaitOnce id) := by
  refine (keepsLine_contextOf id).bind fun context => ?_
  split
  · exact .pure _
  · exact (keepsLine_finalizeTrapped id).bind fun _ => .pure _
  · exact keepsLine_scheduleOnce.bind fun _ => .ite (.throw _) (.pure none)

theorem keepsLine_await (id : ContextId) (rounds : Nat) : KeepsLine (await id rounds) := by
  induction rounds with
  | zero => exact .pure none
  | succ rounds ih =>
      refine (keepsLine_awaitOnce id).bind fun ended => ?_
      cases ended with
      | some status => exact .pure _
      | none => exact ih

theorem keepsLine_exhaust (rounds : Nat) : KeepsLine (exhaust rounds) := by
  induction rounds with
  | zero => exact .pure false
  | succ rounds ih =>
      refine keepsLine_scheduleOnce.bind fun scheduled => ?_
      cases scheduled with
      | some id => exact ih
      | none => exact .pure true

/-- **Every operation keeps contexts in line**, also if it fails. -/
theorem Operation.keepsLine (operation : Operation) : KeepsLine operation.perform := by
  have look {α : Type} (id : ContextId) (view : Context → α) :
      KeepsLine (do
        requireOwned id
        return view (← contextOf id)) :=
    (keepsLine_requireOwned id).bind fun _ => (keepsLine_contextOf id).bind fun _ => .pure _
  have set {α : Type} (change : Supervisor → Supervisor) (answer : α)
      (ready : ∀ own, (change own).ready = own.ready)
      (owned : ∀ own, (change own).owned = own.owned)
      (hosted : ∀ own, (change own).relay.hosted = own.relay.hosted) :
      KeepsLine (do
        modifyOwn change
        return answer) :=
    (keepsLine_modifyOwn ready (fun own _ member => owned own ▸ member) hosted).bind
      fun _ => .pure answer
  cases operation with
  | load image arguments => exact (keepsLine_load image arguments).bind fun _ => .pure _
  | run rounds id =>
      refine Keeps.bind ?_ fun _ => .pure _
      exact (keepsLine_requireOwned id).bind fun _ => keepsLine_await id rounds
  | runAll rounds =>
      refine Keeps.bind ((keepsLine_exhaust rounds).bind fun finished => ?_) fun _ => .pure _
      exact .ite (.get_bind fun _ => .pure _) (.pure none)
  | scheduleOnce => exact keepsLine_scheduleOnce.bind fun _ => .pure _
  | slice id quantum => exact (keepsLine_slice id quantum).bind fun _ => .pure _
  | step id => exact (keepsLine_step id).bind fun _ => .pure _
  | kill parent child => exact ((upheld_lined parent).kill child).bind fun _ => .pure _
  | reap id => exact (keepsLine_reap id).bind fun _ => .pure _
  | finalizeTrapped id => exact (keepsLine_finalizeTrapped id).bind fun _ => .pure _
  | requeue id => exact (keepsLine_requeue id).bind fun _ => .pure _
  | nextReady => exact keepsLine_nextReady.bind fun _ => .pure _
  | snapshot id => exact (look id _).bind fun _ => .pure _
  | pcOf id => exact (look id _).bind fun _ => .pure _
  | exitStatusOf id => exact (look id _).bind fun _ => .pure _
  | access id request =>
      refine Keeps.bind ?_ fun _ => .pure _
      exact (keepsLine_requireOwned id).bind fun _ =>
        (discreet_onMemory id request.congruent_perform.careful).keepsLine
  | setMemoryMode mode => exact set _ _ (fun _ => rfl) (fun _ => rfl) fun _ => rfl
  | setDebugTraps debugTraps => exact set _ _ (fun _ => rfl) (fun _ => rfl) fun _ => rfl
  | startRecording => exact set _ _ (fun _ => rfl) (fun _ => rfl) fun _ => rfl
  | startReplay trace => exact set _ _ (fun _ => rfl) (fun _ => rfl) fun _ => rfl
  | takeTrace =>
      refine Keeps.bind (.get_bind fun look => ?_) fun _ => .pure _
      split
      · exact set _ _ (fun _ => rfl) (fun _ => rfl) fun _ => rfl
      · exact .pure none

end NestedMachine.Hypervisor
