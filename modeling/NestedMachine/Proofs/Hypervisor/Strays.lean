import NestedMachine.Proofs.Hypervisor.Histories
import NestedMachine.Proofs.Hypervisor.Sides
import NestedMachine.Proofs.Hypervisor.Unknowns

/-!
# Strays in the queue

The queue is meant for the contexts that a supervisor owns.  A context that it hosts for the level
above is a guest: it is scheduled there, and a slice of it is refused here.  Guests stay out of the
queue by themselves (`AtHome`): only a context that is there is queued, whoever is there is a guest
or owned, and no link leads from an owned context to a guest, so that neither the end of a child nor
a copy makes a guest ready.  All this is firm (`firm_atHome`), and the level above cannot change it
either, however it links the contexts that are hosted for it (`Request.keeps_allAtHome`).

There is one exception.  A context is moved to the back of the queue without a question who owns it,
and a guest that is ready is queued by that though it never was (`Event.Misplaces`).  Such a stray
is found out when it comes to the front: the round fails because the stray is unknown
(`guest_queued`).  No other guest is ever blamed in that way (`BlamesStrays`), because a guest is
always there, and is no child of an owned context that a wait could ask for.
-/

namespace NestedMachine.Hypervisor

set_option autoImplicit false

open Std (TreeMap TreeSet)

variable {α : Type} {guests : TreeSet ContextId} {strays : ContextId → Prop}
  {origin after : Hypervisor} {id other child : ContextId} {gone : Kin}

/-- The supervisor hosts its guests for the level above and owns all other contexts, whose links
lead to no guest.  Queued is only who is owned, apart from strays. -/
structure AtHome (guests : TreeSet ContextId) (strays : ContextId → Prop)
    (hypervisor : Hypervisor) : Prop where
  uniform : hypervisor.machine.Uniform
  young : ∀ id kin, hypervisor.kin id = some kin → id < hypervisor.machine.interpreter.nextId
  hosted : hypervisor.own.relay.hosted = guests
  known : ∀ id ∈ guests, ∃ kin, hypervisor.kin id = some kin
  owned : ∀ id ∈ hypervisor.own.owned,
    id < hypervisor.machine.interpreter.nextId ∧ id ∉ guests
  placed : ∀ id kin, hypervisor.kin id = some kin → id ∉ guests → id ∈ hypervisor.own.owned
  inside : ∀ id kin other, hypervisor.kin id = some kin → kin.Links other → id ∉ guests →
    other < hypervisor.machine.interpreter.nextId ∧ other ∉ guests
  queued : ∀ id ∈ hypervisor.own.ready, id ∈ hypervisor.own.owned ∨ strays id

namespace AtHome

theorem mono {strays' : ContextId → Prop} (home : AtHome guests strays origin)
    (wider : ∀ id, strays id → strays' id) : AtHome guests strays' origin :=
  { home with queued := fun id place => (home.queued id place).imp_right (wider id) }

/-- A number that has not been given away is not a guest's. -/
theorem young_of_guest (home : AtHome guests strays origin) (guest : id ∈ guests) :
    id < origin.machine.interpreter.nextId := by
  obtain ⟨kin, found⟩ := home.known id guest
  exact home.young id kin found

/-- Nobody new is there or queued, and owned contexts have no new links. -/
theorem of_less (home : AtHome guests strays origin) (uniform : after.machine.Uniform)
    (nextId : origin.machine.interpreter.nextId ≤ after.machine.interpreter.nextId)
    (owned : after.own.owned = origin.own.owned)
    (hosted : after.own.relay.hosted = origin.own.relay.hosted)
    (ready : after.own.ready ⊆ origin.own.ready)
    (known : ∀ id ∈ guests, ∀ kin, origin.kin id = some kin → ∃ kin, after.kin id = some kin)
    (less : ∀ id kin, after.kin id = some kin → ∃ before, origin.kin id = some before ∧
      (id ∉ guests → ∀ other, kin.Links other → before.Links other)) :
    AtHome guests strays after where
  uniform := uniform
  young id kin found := by
    obtain ⟨before, there, -⟩ := less id kin found
    exact (home.young id before there).trans_le nextId
  hosted := hosted.trans home.hosted
  known id guest := by
    obtain ⟨kin, found⟩ := home.known id guest
    exact known id guest kin found
  owned id member := by
    obtain ⟨younger, apart⟩ := home.owned id (owned ▸ member)
    exact ⟨younger.trans_le nextId, apart⟩
  placed id kin found apart := by
    obtain ⟨before, there, -⟩ := less id kin found
    rw [owned]
    exact home.placed id before there apart
  inside id kin other found link apart := by
    obtain ⟨before, there, fewer⟩ := less id kin found
    obtain ⟨younger, stays⟩ := home.inside id before other there (fewer apart other link) apart
    exact ⟨younger.trans_le nextId, stays⟩
  queued id place := by
    rw [owned]
    exact home.queued id (ready place)

theorem of_kindred (home : AtHome guests strays origin) (kindred : Kindred origin after) :
    AtHome guests strays after := by
  refine home.of_less kindred.uniform kindred.nextId.ge kindred.owned kindred.hosted
    (fun id place => kindred.ready ▸ place) (fun id _ kin found => ⟨kin, ?_⟩) fun id kin found => ?_
  · rw [kindred.kin, found]
  · rw [kindred.kin] at found
    exact ⟨kin, found, fun _ _ link => link⟩

theorem of_skipped (home : AtHome guests strays origin) (skipped : Skipped origin after) :
    AtHome guests strays after := by
  have own := skipped.own
  refine home.of_less skipped.uniform (skipped.nextId ▸ Nat.le_succ _) (congrArg _ own)
    (congrArg (·.relay.hosted) own) (fun id place => own ▸ place)
    (fun id _ kin found => ⟨kin, ?_⟩) fun id kin found => ?_
  · rw [skipped.kin, found]
  · rw [skipped.kin] at found
    exact ⟨kin, found, fun _ _ link => link⟩

/-- The record has changed, and nobody is queued who was not. -/
theorem of_record (home : AtHome guests strays origin) {own : Supervisor}
    (owned : own.owned = origin.own.owned) (hosted : own.relay.hosted = origin.own.relay.hosted)
    (ready : own.ready ⊆ origin.own.ready) : AtHome guests strays { origin with own } :=
  home.of_less home.uniform le_rfl owned hosted ready (fun _ _ kin found => ⟨kin, found⟩)
    fun _ kin found => ⟨kin, found, fun _ _ link => link⟩

/-- A context that is changed gets no links, unless it is a guest. -/
theorem alter (home : AtHome guests strays origin) (id : ContextId) {change : Context → Context}
    (links : id ∉ guests → ∀ context other, (change context).kin.Links other →
      context.kin.Links other) :
    AtHome guests strays ⟨origin.machine.modifyContext id change, origin.own⟩ := by
  unfold Machine.modifyContext
  split
  · have entry (other : ContextId) :=
      kinIn_modifyContext origin.machine.interpreter id other change
    refine home.of_less (home.uniform.congr rfl fun _ => TreeMap.contains_modify) le_rfl rfl rfl
      (fun _ place => place) (fun other _ kin found => ?_) fun other kin found => ?_
    · obtain ⟨context, there, -⟩ := Option.map_eq_some_iff.mp found
      exact ⟨_, (entry other).trans (congrArg (Option.map _) there)⟩
    · obtain ⟨context, there, rfl⟩ := Option.map_eq_some_iff.mp ((entry other).symm.trans found)
      refine ⟨context.kin, congrArg (Option.map Context.kin) there, fun apart self link => ?_⟩
      split at link
      · rename_i here
        exact links (here ▸ apart) context self link
      · exact link
  · exact home

/-- **A context begins on the side of whoever is copied**, and everything else stays. -/
theorem of_born (home : AtHome guests strays origin) {forker : Option ContextId}
    (born : Born forker child origin after) {arrived : TreeSet ContextId} {own : Supervisor}
    (hosted : own.relay.hosted = arrived)
    (members : ∀ id, id ∈ arrived ↔ id ∈ guests ∨ child = id ∧ child ∈ arrived)
    (owned : ∀ id, id ∈ own.owned ↔ id ∈ origin.own.owned ∨ child = id ∧ child ∉ arrived)
    (above : ∀ source, forker = some source →
      source < origin.machine.interpreter.nextId ∧ (source ∈ guests ↔ child ∈ arrived))
    (ready : ∀ id ∈ own.ready, id ∈ origin.own.ready ∨ id = child ∧ child ∉ arrived) :
    AtHome arrived strays { after with own } := by
  have later := born.nextId_le
  have newest : child < after.machine.interpreter.nextId := born.nextId ▸ Nat.lt_succ_self child
  have old {id : ContextId} (younger : id < origin.machine.interpreter.nextId) :
      id ∈ arrived ↔ id ∈ guests := by
    rw [members, or_iff_left fun here => born.fresh younger here.1]
  have outside {id : ContextId}
      (stays : id < origin.machine.interpreter.nextId ∧ id ∉ guests) :
      id < after.machine.interpreter.nextId ∧ id ∉ arrived :=
    ⟨stays.1.trans_le later, mt (old stays.1).mp stays.2⟩
  exact {
    uniform := born.uniform
    young := fun id kin found => by
      rcases born.new_or_old found with ⟨rfl, -⟩ | ⟨-, before, there, -⟩
      · exact newest
      · exact (home.young id before there).trans_le later
    hosted := hosted
    known := fun id guest => by
      rcases (members id).mp guest with guest | ⟨rfl, -⟩
      · obtain ⟨kin, found⟩ := home.known id guest
        obtain ⟨kin', found', -⟩ := born.keeps (home.young id kin found) found
        exact ⟨kin', found'⟩
      · exact ⟨_, born.self⟩
    owned := fun id member => by
      rcases (owned id).mp member with member | ⟨rfl, apart⟩
      · exact outside (home.owned id member)
      · exact ⟨newest, apart⟩
    placed := fun id kin found apart => by
      rcases born.new_or_old found with ⟨rfl, -⟩ | ⟨-, before, there, -⟩
      · exact (owned child).mpr (.inr ⟨rfl, apart⟩)
      · have stranger := mt (old (home.young id before there)).mpr apart
        exact (owned id).mpr (.inl (home.placed id before there stranger))
    inside := fun id kin other found link apart => by
      rcases born.new_or_old found with ⟨rfl, rfl⟩ | ⟨-, before, there, -, -, same, children⟩
      · rcases link with link | member
        · obtain ⟨younger, side⟩ := above other link
          exact outside ⟨younger, mt side.mp apart⟩
        · exact absurd member TreeSet.not_mem_emptyc
      · have stranger := mt (old (home.young id before there)).mpr apart
        rcases link with link | member
        · exact outside (home.inside id before other there (.inl (same ▸ link)) stranger)
        · rcases (children other).mp member with ⟨rfl, forks⟩ | member
          · exact ⟨newest, mt (above id forks).2.mpr stranger⟩
          · exact outside (home.inside id before other there (.inr member) stranger)
    queued := fun id place => by
      rcases ready id place with place | ⟨rfl, apart⟩
      · exact (home.queued id place).imp_left fun member => (owned id).mpr (.inl member)
      · exact .inl ((owned id).mpr (.inr ⟨rfl, apart⟩)) }

/-- **A context begins as an owned one** if whoever is copied is. -/
theorem of_enrolled (home : AtHome guests strays origin) {forker : Option ContextId}
    (born : Born forker child origin after)
    (above : ∀ source, forker = some source →
      source < origin.machine.interpreter.nextId ∧ source ∉ guests)
    {own : Supervisor} (owned : own.owned = origin.own.owned.insert child)
    (hosted : own.relay.hosted = origin.own.relay.hosted)
    (ready : ∀ id ∈ own.ready, id ∈ origin.own.ready ∨ id = child) :
    AtHome guests strays { after with own } := by
  have fresh : child ∉ guests := fun guest => born.fresh (home.young_of_guest guest) rfl
  refine home.of_born born (hosted.trans home.hosted) (fun id => ?_) (fun id => ?_)
    (fun source forks => ?_) fun id place => ?_
  · rw [or_iff_left fun here => fresh here.2]
  · rw [owned, TreeSet.mem_insert, compare_eq_iff_eq, or_comm, and_iff_left fresh]
  · obtain ⟨younger, apart⟩ := above source forks
    exact ⟨younger, iff_of_false apart fresh⟩
  · exact (ready id place).imp_right fun same => ⟨same, fresh⟩

/-- What is left of a family after a removal was there before. -/
theorem links_of_removed {record : Supervisor}
    (removed : Removed id gone origin { after with own := record }) {kin : Kin}
    (found : after.kin other = some kin) : id ≠ other ∧ ∃ before, origin.kin other = some before ∧
      ∀ self, kin.Links self → before.Links self := by
  obtain ⟨different, before, there, rfl⟩ := removed.of_found found
  exact ⟨different, before, there, fun _ => Kin.links_of_without⟩

/-- **A context that is removed is neither owned nor a guest any more**, nor is it queued if it was
owned. -/
theorem of_removed (home : AtHome guests strays origin) {record : Supervisor}
    (removed : Removed id gone origin { after with own := record }) {left : TreeSet ContextId}
    {own : Supervisor} (hosted : own.relay.hosted = left)
    (members : ∀ other, other ∈ left ↔ id ≠ other ∧ other ∈ guests)
    (owned : ∀ other, other ∈ own.owned ↔ id ≠ other ∧ other ∈ origin.own.owned)
    (ready : ∀ other ∈ own.ready,
      other ∈ origin.own.ready ∧ (other ∈ origin.own.owned → id ≠ other)) :
    AtHome left strays { after with own } := by
  have nextId : after.machine.interpreter.nextId = origin.machine.interpreter.nextId :=
    removed.nextId
  have outside {other : ContextId}
      (stays : other < origin.machine.interpreter.nextId ∧ other ∉ guests) :
      other < after.machine.interpreter.nextId ∧ other ∉ left :=
    ⟨stays.1.trans_eq nextId.symm, fun guest => stays.2 ((members other).mp guest).2⟩
  have stranger {other : ContextId} (different : id ≠ other) (apart : other ∉ left) :
      other ∉ guests := fun guest => apart ((members other).mpr ⟨different, guest⟩)
  exact {
    uniform := removed.uniform
    young := fun other kin found => by
      obtain ⟨-, before, there, -⟩ := links_of_removed removed found
      exact (home.young other before there).trans_eq nextId.symm
    hosted := hosted
    known := fun other guest => by
      obtain ⟨different, guest⟩ := (members other).mp guest
      obtain ⟨kin, found⟩ := home.known other guest
      exact ⟨_, removed.keeps different found⟩
    owned := fun other member => outside (home.owned other ((owned other).mp member).2)
    placed := fun other kin found apart => by
      obtain ⟨different, before, there, -⟩ := links_of_removed removed found
      have member := home.placed other before there (stranger different apart)
      exact (owned other).mpr ⟨different, member⟩
    inside := fun other kin self found link apart => by
      obtain ⟨different, before, there, fewer⟩ := links_of_removed removed found
      exact outside (home.inside other before self there (fewer self link)
        (stranger different apart))
    queued := fun other place => by
      obtain ⟨place, different⟩ := ready other place
      exact (home.queued other place).imp_left fun member =>
        (owned other).mpr ⟨different member, member⟩ }

end AtHome

/-! ## What a supervisor does itself -/

theorem Discreet.keeps_atHome {told : α → Prop} {action : HypervisorAction α}
    (discreet : Discreet id told action) : Keeps (AtHome guests strays) action :=
  fun origin home => (discreet origin home.uniform).mono
    (fun _ _ given => home.of_kindred given.1.toKindred)
    fun _ _ given => home.of_kindred given.1.toKindred

/-- A supervisor changes a context, which is there then. -/
theorem AtHome.halts_change (home : AtHome guests strays origin) (id : ContextId)
    {change : Context → Context} (tending : Tending change) :
    Halts (fun _ => AtHome guests strays)
      (fun _ after => AtHome guests strays after ∧ ∃ kin, after.kin id = some kin)
      (modifyContext id change origin) := by
  rw [modifyContext_apply]
  cases found : origin.machine.context? id with
  | none => exact home
  | some context =>
      refine ⟨home.alter id fun _ context other link => ?_, ?_⟩
      · exact link.imp (tending.parent context other) (tending.children context other)
      · rw [home.uniform.context?] at found
        rw [home.uniform.modifyContext found]
        have changed := kinIn_modifyContext origin.machine.interpreter id id change
        exact ⟨_, changed.trans (congrArg (Option.map _) found)⟩

theorem keeps_atHome_change (id : ContextId) {change : Context → Context}
    (tending : Tending change) : Keeps (AtHome guests strays) (modifyContext id change) :=
  fun _ home => (home.halts_change id tending).mono (fun _ _ given => given.1)
    fun _ _ given => given

theorem keeps_atHome_own {change : Supervisor → Supervisor} (quiet : QueuesNobody change) :
    Keeps (AtHome guests strays) (modifyOwn change) :=
  .modify fun origin home => home.of_record (quiet.1.2 origin.own) (quiet.1.1 origin.own).1
    (quiet.2 origin.own)

/-- Whoever is there may be queued, unless it is a guest that is no stray. -/
theorem AtHome.enqueue (home : AtHome guests strays origin) {kin : Kin}
    (found : origin.kin id = some kin) (fits : id ∈ guests → strays id) :
    AtHome guests strays (origin.withReady (origin.own.ready ++ [id])) := by
  refine { home with queued := fun other place => ?_ }
  rcases List.mem_append.mp place with old | new
  · exact home.queued other old
  · obtain rfl := List.mem_singleton.mp new
    by_cases guest : other ∈ guests
    · exact .inr (fits guest)
    · exact .inl (home.placed other kin found guest)

/-- **A context that is made ready is owned.** -/
theorem keeps_atHome_makeReady (apart : id ∉ guests) :
    Keeps (AtHome guests strays) (makeReady id) := by
  intro origin home
  refine (home.halts_change id (tending_withState .ready)).bind ?_
  rintro _ middle ⟨home, kin, found⟩
  apply Halts.get_bind
  split
  · exact home
  · exact home.enqueue found fun guest => absurd guest apart

theorem keeps_atHome_discard (apart : id ∉ guests) :
    Keeps (AtHome guests strays) (discard id) := by
  intro origin home
  refine ((halts_same_own (halts_destroy home.uniform id)).mono (fun _ _ given => given)
    fun _ _ refused => home.of_kindred (refused.1.hushed 0).toKindred).bind ?_
  rintro _ destroyed ⟨⟨⟨gone, removed⟩, -⟩, own⟩
  have left : AtHome guests strays { destroyed with own := { destroyed.own with
      owned := destroyed.own.owned.erase id
      orphans := destroyed.own.orphans.erase id
      ready := destroyed.own.ready.filter (· != id) } } := by
    refine home.of_removed removed ((congrArg (·.relay.hosted) own).trans home.hosted)
      (fun other => ?_) (fun other => ?_) fun other place => ?_
    · exact ⟨fun guest => ⟨fun same => apart (same ▸ guest), guest⟩, And.right⟩
    · rw [own, TreeSet.mem_erase, Ne, compare_eq_iff_eq]
    · rw [own] at place
      obtain ⟨place, different⟩ := List.mem_filter.mp place
      exact ⟨place, fun _ same => bne_iff_ne.mp different same.symm⟩
  exact left

theorem sturdy_atHome : Sturdy (· ∉ guests) (AtHome guests strays) where
  owned _ home id member := (home.owned id member).2
  family hypervisor home id context apart found := by
    have known := kin_of_context? home.uniform found
    exact ⟨fun child member => (home.inside id _ child known (.inr member) apart).2,
      fun parent link => (home.inside id _ parent known (.inl link) apart).2⟩
  note happening := (discreet_note 0 happening).keeps_atHome
  own := keeps_atHome_own
  host request := (discreet_askHost 0 request).keeps_atHome
  change {id} _ _ := keeps_atHome_change id
  makeReady := keeps_atHome_makeReady
  discard := keeps_atHome_discard

/-! ## Beginnings -/

theorem keeps_atHome_load (image : Image) (arguments : List String) :
    Keeps (AtHome guests strays) (load image arguments) := by
  have rest (id : ContextId) : Keeps (AtHome guests strays) (do
      count fun counters => { counters with contextsCreated := counters.contextsCreated + 1 }
      note (.levelLoaded (← get).level id)
      return id) := by
    refine (sturdy_atHome.count _).bind fun _ => .get_bind fun _ => ?_
    exact (sturdy_atHome.note _).bind fun _ => .pure id
  refine .get_bind fun look origin home => ?_
  refine ((halts_create home.uniform image _).mono (fun _ _ given => given)
    fun _ _ skipped => home.of_skipped skipped.1).bind ?_
  rintro id created ⟨born, -⟩
  have queued : AtHome guests strays { created with own := { created.own with
      owned := created.own.owned.insert id, ready := created.own.ready ++ [id] } } := by
    refine home.of_enrolled born nofun (congrArg (·.owned.insert id) born.own)
      (congrArg (·.relay.hosted) born.own) fun other place => ?_
    rw [← born.own]
    exact (List.mem_append.mp place).imp_right List.mem_singleton.mp
  exact rest id _ queued

theorem keeps_atHome_serveFork (apart : id ∉ guests) :
    Keeps (AtHome guests strays) (serveFork id) := by
  have rest (child : ContextId) (apart : child ∉ guests) : Keeps (AtHome guests strays) (do
      modifyContext child fun context =>
        (context.withRegister Register.a0 0).withPc (context.hart.pc + 4)
      makeReady child
      note (.forked id child)
      return (Outcome.answer (Int64.ofNat child))) := by
    refine (keeps_atHome_change child (tending_answer _ _ _)).bind fun _ => ?_
    refine (keeps_atHome_makeReady apart).bind fun _ => ?_
    exact (sturdy_atHome.note _).bind fun _ => .pure _
  intro origin home
  cases known : origin.kin id with
  | none =>
      refine ((halts_fork_of_missing home.uniform known).mono (fun _ _ given => given)
        fun _ _ refused => home.of_kindred (refused.hushed 0).toKindred).bind ?_
      exact fun _ _ never => never.elim
  | some kin =>
      refine ((halts_fork home.uniform id fun kin found => home.young id kin found).mono
        (fun _ _ given => given)
        fun _ _ refused => home.of_kindred (refused.hushed 0).toKindred).bind ?_
      intro answer forked outcome
      cases answer with
      | none =>
          exact ((sturdy_atHome.note _).bind fun _ => .pure _) forked
            (home.of_kindred (outcome 0).toKindred)
      | some child =>
          obtain ⟨born, -⟩ := outcome
          have owned : AtHome guests strays { forked with
              own := { forked.own with
                relay := forked.own.relay.count fun counters =>
                  { counters with forks := counters.forks + 1 }
                owned := forked.own.owned.insert child } } := by
            refine home.of_enrolled born ?_ (congrArg (·.owned.insert child) born.own)
              (congrArg (·.relay.hosted) born.own) fun other place => .inl (born.own ▸ place)
            rintro _ ⟨⟩
            exact ⟨home.young id kin known, apart⟩
          have fresh : child ∉ guests := fun guest => born.fresh (home.young_of_guest guest) rfl
          exact rest child fresh _ owned

theorem keeps_atHome_release (id : ContextId) :
    Keeps (AtHome guests strays) (below (Machine.release id)) :=
  fun _ home => (halts_release home.uniform id).mono
    (fun _ _ given => home.of_kindred given.1.toKindred)
    fun _ _ refused => home.of_kindred (refused.hushed 0).toKindred

/-- **Whatever a supervisor does itself keeps its guests out of the queue**, apart from requeuing
them. -/
theorem firm_atHome : Firm (· ∉ guests) (AtHome guests strays) where
  toSturdy := sturdy_atHome
  memory {id} _ _ _ courteous :=
    (discreet_onMemory id fun _ _ => courteous.keeps_sound).keeps_atHome
  terminate {id} apart := sturdy_atHome.terminate apart (keeps_atHome_release id)
  load := keeps_atHome_load
  fork := keeps_atHome_serveFork
  switch {id} _ quantum := (discreet_switch id quantum).keeps_atHome

/-! ## Turns -/

/-- An error calls a guest unknown only if it is a stray. -/
def BlamesStrays (guests : TreeSet ContextId) (strays : ContextId → Prop) (error : HostError) :
    Prop :=
  ∀ id ∈ guests, error = .unknownContext id → strays id

/-- Guests are there, and no guest is a child of another context. -/
theorem AtHome.not_guest (home : AtHome guests strays origin) (apart : id ∉ guests)
    (unknown : Unknown id origin other) : other ∉ guests := by
  intro guest
  rcases unknown with missing | ⟨-, rfl | ⟨context, found, member⟩⟩
  · obtain ⟨kin, known⟩ := home.known other guest
    obtain ⟨context, found, -⟩ := exists_context? home.uniform known
    cases missing.symm.trans found
  · exact apart guest
  · have known := kin_of_context? home.uniform found
    exact (home.inside id _ other known (.inr member) apart).2 guest

/-- What asks first whether a context is owned blames the context if it is a guest, and no guest
otherwise. -/
theorem stays_of_requireOwned {action : HypervisorAction α} (fits : id ∈ guests → strays id)
    (keeps : Keeps (AtHome guests strays) (requireOwned id >>= fun _ => action))
    (truthful : Truthful id (requireOwned id >>= fun _ => action)) :
    Stays (BlamesStrays guests strays) (AtHome guests strays)
      (requireOwned id >>= fun _ => action) := by
  intro origin home
  -- A guest does not get past the question; and nobody else can come to blame one.
  by_cases guest : id ∈ guests
  · have stranger : ¬origin.own.owned.contains id = true := fun member =>
      (home.owned id (TreeSet.contains_iff_mem.mp member)).2 guest
    rw [bind_apply, EStateM.bind, requireOwned_apply, if_neg stranger]
    refine ⟨?_, home⟩
    rintro _ - ⟨⟩
    exact fits guest
  · refine ((keeps origin home).both (truthful origin)).mono (fun _ _ given => given.1) ?_
    rintro error after ⟨home, unknown⟩
    refine ⟨fun other hosted named => ?_, home⟩
    exact absurd hosted (home.not_guest guest (unknown other named))

theorem stays_atHome_slice (fits : id ∈ guests → strays id) (quantum : Nat) :
    Stays (BlamesStrays guests strays) (AtHome guests strays) (slice id quantum) :=
  stays_of_requireOwned fits (firm_atHome.slice id quantum) (truthful_slice id quantum)

/-- The contexts to which the queue comes are owned or strays. -/
theorem AtHome.halts_nextReady (home : AtHome guests strays origin) :
    Halts Never (fun next after => AtHome guests strays after ∧
      ∀ id, next = some id → id ∈ guests → strays id) (nextReady origin) := by
  have dropped := List.dropWhile_sublist (l := origin.own.ready)
    fun id => !canRun origin.machine id
  refine ⟨home.of_record rfl rfl dropped.subset, fun id front guest => ?_⟩
  have place := dropped.subset (List.mem_of_mem_head? front)
  exact (home.queued id place).resolve_left fun member => (home.owned id member).2 guest

theorem stays_atHome_scheduleOnce :
    Stays (BlamesStrays guests strays) (AtHome guests strays) scheduleOnce := by
  intro origin home
  refine (home.halts_nextReady.certain fun _ _ given => given).bind ?_
  rintro next middle ⟨home, fits⟩
  cases next with
  | none => exact home
  | some id =>
      have taken : Stays (BlamesStrays guests strays) (AtHome guests strays)
          (modifyOwn fun own => { own with ready := own.ready.tail }) :=
        .modify fun _ home => home.of_record rfl rfl (List.tail_subset _)
      have turn : Stays (BlamesStrays guests strays) (AtHome guests strays) (do
          modifyOwn fun own => { own with ready := own.ready.tail }
          let _ ← slice id (← get).own.quantum
          return some id) :=
        taken.bind fun _ => .get_bind fun look =>
          (stays_atHome_slice (fits id rfl) _).bind fun _ => .pure _
      exact turn middle home

theorem stays_atHome_exhaust (rounds : Nat) :
    Stays (BlamesStrays guests strays) (AtHome guests strays) (exhaust rounds) := by
  induction rounds with
  | zero => exact .pure false
  | succ rounds ih =>
      refine stays_atHome_scheduleOnce.bind fun scheduled => ?_
      cases scheduled with
      | some id => exact ih
      | none => exact .pure true

/-- **Only a guest can be queued by mistake.** -/
theorem stays_atHome_requeue (fits : id ∈ guests → strays id) :
    Stays (BlamesStrays guests strays) (AtHome guests strays) (requeue id) := by
  have left : Stays (BlamesStrays guests strays) (AtHome guests strays) (dequeue id) :=
    .modify fun _ home => home.of_record rfl rfl (List.filter_subset_self _)
  refine left.bind fun _ origin home => Halts.get_bind ?_
  split
  · rename_i runs
    obtain ⟨kin, found, -⟩ := (canRun_iff home.uniform).mp runs
    exact home.enqueue found fits
  · exact home

theorem steered_atHome : Steered (fun id => id ∈ guests → strays id)
    (BlamesStrays guests strays) (AtHome guests strays) where
  nextReady _ home := home.halts_nextReady
  pcOf {id} fits := stays_of_requireOwned fits (keeps_pcOf id) (truthful_pcOf id)
  step {id} fits := stays_of_requireOwned fits (firm_atHome.step id) (truthful_step id)
  requeue := stays_atHome_requeue

/-- An event in which the queue says who comes next. -/
def Event.Schedules : Event → Prop
  | .operation .scheduleOnce => True
  | .operation (.runAll _) => True
  | .resume .. => True
  | _ => False

/-- **Where the queue says who comes next, nobody is called unknown but strays.** -/
theorem Event.Schedules.stays_atHome {event : Event} (schedules : event.Schedules) :
    Stays (BlamesStrays guests strays) (AtHome guests strays) event.perform := by
  cases event with
  | operation asked =>
      cases asked with
      | scheduleOnce =>
          exact (stays_atHome_scheduleOnce.bind fun _ => .pure _).bind fun _ => .pure _
      | runAll rounds =>
          refine Stays.bind (Stays.bind ?_ fun _ => .pure _) fun _ => .pure _
          refine (stays_atHome_exhaust rounds).bind fun finished => ?_
          exact .ite (.get_bind fun _ => .pure _) (.pure none)
      | _ => cases schedules
  | resume rounds breakpoints condition stoppedAt =>
      exact (steered_atHome.resumeDebugger rounds breakpoints condition stoppedAt).bind
        fun _ => .pure _
  | request asked => cases schedules

/-! ## Requests of the level above -/

/-- All contexts that are hosted for the level above are guests. -/
def AllAtHome (strays : ContextId → Prop) (hypervisor : Hypervisor) : Prop :=
  AtHome hypervisor.own.relay.hosted strays hypervisor

theorem AtHome.all (home : AtHome guests strays origin) : AllAtHome strays origin := by
  rw [AllAtHome, home.hosted]
  exact home

theorem AtHome.withRelay (home : AtHome guests strays origin) {relay : Relay}
    (same : relay.hosted = guests) : AtHome guests strays (origin.withRelay relay) :=
  home.of_record rfl (same.trans home.hosted.symm) (List.Subset.refl _)

/-- A context begins as a guest. -/
theorem AtHome.of_arrival (home : AtHome guests strays origin) {forker : Option ContextId}
    (born : Born forker child origin after)
    (above : ∀ source, forker = some source → source ∈ guests) {relay : Relay}
    (hosted : relay.hosted = guests.insert child) :
    AtHome (guests.insert child) strays (after.withRelay relay) := by
  have own := born.own
  have guest : child ∈ guests.insert child := TreeSet.mem_insert_self
  refine home.of_born born hosted (fun id => ?_) (fun id => ?_) (fun source forks => ?_)
    fun id place => .inl (own ▸ place)
  · rw [TreeSet.mem_insert, compare_eq_iff_eq, or_comm, and_iff_left guest]
  · show id ∈ after.own.owned ↔ _
    rw [own, or_iff_left fun here => here.2 guest]
  · have member := above source forks
    exact ⟨home.young_of_guest member, iff_of_true member guest⟩

/-- A guest leaves. -/
theorem AtHome.of_departure (home : AtHome guests strays origin) (guest : id ∈ guests)
    {record : Supervisor} (removed : Removed id gone origin { after with own := record })
    (own : after.own = origin.own) {relay : Relay} (hosted : relay.hosted = guests.erase id) :
    AtHome (guests.erase id) strays (after.withRelay relay) := by
  have different {other : ContextId} (member : other ∈ origin.own.owned) : id ≠ other :=
    fun same => (home.owned other member).2 (same ▸ guest)
  refine home.of_removed removed hosted (fun other => ?_) (fun other => ?_) fun other place => ?_
  · rw [TreeSet.mem_erase, Ne, compare_eq_iff_eq]
  · show other ∈ after.own.owned ↔ _
    rw [own]
    exact ⟨fun member => ⟨different member, member⟩, And.right⟩
  · exact ⟨own ▸ place, different⟩

/-- What the machine below does is as good if the level above asks for it, as long as nobody begins
or ceases to be hosted. -/
theorem keeps_allAtHome_fromAbove {passage : Passage α} {request : InterpreterAction α}
    (enters : ∀ relay entered, passage.enter relay = .ok entered → entered.hosted = relay.hosted)
    (leaves : ∀ answer relay, (passage.leave answer relay).hosted = relay.hosted)
    (keeps : ∀ guests, Keeps (AtHome guests strays) (below (Machine.pass passage request))) :
    Keeps (AllAtHome strays) (fromAbove (Machine.pass passage request)) := by
  intro origin home
  apply halts_fromAbove fun _ _ => home
  intro entered entry
  have same := enters _ entered entry
  exact (keeps _ origin home).mono
    (fun answer _ home => (home.withRelay ((leaves answer entered).trans same)).all)
    fun _ _ home => (home.withRelay same).all

/-- **The level above queues nobody**, and links its contexts as it likes. -/
theorem Request.keeps_allAtHome (request : Request) :
    Keeps (AllAtHome strays) request.perform := by
  cases request with
  | create image options =>
      refine Keeps.bind (fun origin home => ?_) fun _ => .pure _
      apply halts_fromAbove fun _ _ => home
      rintro _ ⟨⟩
      refine (halts_create (AtHome.uniform home) image options).mono ?_ ?_
      · rintro id after ⟨born, -⟩
        exact (AtHome.of_arrival home born nofun rfl).all
      · rintro error after ⟨skipped, -⟩
        exact ((AtHome.of_skipped home skipped).withRelay rfl).all
  | fork parent =>
      refine Keeps.bind (fun origin home => ?_) fun _ => .pure _
      apply halts_fromAbove fun _ _ => home
      intro entered entry
      obtain ⟨guest, rfl⟩ := of_requireHosted entry
      refine (halts_fork (AtHome.uniform home) parent fun kin found =>
        AtHome.young home parent kin found).mono ?_ ?_
      · intro answer after outcome
        cases answer with
        | none => exact ((AtHome.of_kindred home (outcome 0).toKindred).withRelay rfl).all
        | some child =>
            refine (AtHome.of_arrival home outcome.1 ?_ rfl).all
            rintro _ ⟨⟩
            exact guest
      · exact fun _ _ refused =>
          ((AtHome.of_kindred home (refused.hushed 0).toKindred).withRelay rfl).all
  | destroy id =>
      refine Keeps.bind (fun origin home => ?_) fun _ => .pure _
      apply halts_fromAbove fun _ _ => home
      intro entered entry
      obtain ⟨guest, rfl⟩ := of_requireHosted entry
      refine (halts_same_own (halts_destroy (AtHome.uniform home) id)).mono ?_ ?_
      · rintro _ after ⟨⟨⟨gone, removed⟩, -⟩, own⟩
        exact (AtHome.of_departure home guest removed own rfl).all
      · exact fun _ _ refused =>
          ((AtHome.of_kindred home (refused.1.hushed 0).toKindred).withRelay rfl).all
  | release id =>
      refine (keeps_allAtHome_fromAbove (fun _ _ entry => ?_) (fun _ _ => rfl) fun _ =>
        keeps_atHome_release id).bind fun _ => .pure _
      exact hosted_of_requireHosted entry
  | switch id quantum =>
      refine (keeps_allAtHome_fromAbove (fun relay entered entry => ?_) (fun _ _ => rfl) fun _ =>
        (discreet_switch id quantum).keeps_atHome).bind fun _ => .pure _
      unfold Passage.switch at entry
      dsimp only at entry
      split at entry
      · rename_i same
        rw [← Except.ok.inj entry, ← hosted_of_requireHosted same]
        rfl
      · cases entry
  | access id request =>
      intro origin home
      refine .of_finalState (kept_by_access home fun _ => ?_)
      have discreet := discreet_onMemory id request.congruent_perform.careful
      exact (discreet.keeps_atHome.finalState home).all
  | alter id change =>
      intro origin home
      refine .of_finalState (kept_by_alter home fun guest => ?_)
      exact (AtHome.alter home id fun apart => absurd guest apart).all

/-! ## Histories -/

/-- A guest is moved to the back of the queue. -/
def Event.Misplaces (event : Event) (id : ContextId) (before : Hypervisor) : Prop :=
  event = .operation (.requeue id) ∧ id ∈ before.own.relay.hosted

/-- **Whatever happens keeps guests out of the queue**, apart from requeuing one. -/
theorem Event.allAtHome (event : Event) (home : AllAtHome strays origin) :
    AllAtHome (fun id => strays id ∨ event.Misplaces id origin)
      (finalState (event.perform origin)) := by
  have wider : AtHome origin.own.relay.hosted
      (fun id => strays id ∨ event.Misplaces id origin) origin :=
    AtHome.mono home fun _ => .inl
  cases event with
  | operation asked =>
      refine (Keeps.finalState (Keeps.bind ?_ fun _ => .pure _) wider).all
      refine firm_atHome.operation (fun debugTraps _ => ?_) fun id same => ?_
      · exact .modify fun _ home => home.of_record rfl rfl (List.Subset.refl _)
      · exact (stays_atHome_requeue fun guest => .inr ⟨congrArg _ same, guest⟩).keeps
  | request asked =>
      exact Keeps.finalState (asked.keeps_allAtHome.bind fun _ => .pure _) wider
  | resume rounds breakpoints condition stoppedAt =>
      have scheduling : (Event.resume rounds breakpoints condition stoppedAt).Schedules := trivial
      exact (scheduling.stays_atHome.keeps.finalState wider).all

theorem allAtHome_of_nested {configuration : Configuration} {host : Host} {journal : Journal}
    {level : Nat} {start : Hypervisor}
    (built : nested configuration host journal level = .ok start) : AllAtHome strays start := by
  have lined := lined_of_nested built
  obtain ⟨-, missing, own⟩ := empty_of_nested built
  have absent {id : ContextId} {kin : Kin} (found : start.kin id = some kin) : False := by
    rw [missing] at found
    cases found
  have guestless (id : ContextId) : id ∉ start.own.relay.hosted := by
    rw [own]
    exact TreeSet.not_mem_emptyc
  have unqueued : start.own.ready = [] := congrArg Supervisor.ready own
  exact {
    uniform := lined.uniform
    young := lined.young
    hosted := rfl
    known := fun id guest => absurd guest (guestless id)
    owned := fun id member => ⟨lined.owned id member, guestless id⟩
    placed := fun id kin found => (absent found).elim
    inside := fun id kin other found => (absent found).elim
    queued := fun id place => nomatch (unqueued ▸ place : id ∈ []) }

/-- A context was moved to the back of the queue while it was hosted for the level above. -/
def Misplaced (start : Hypervisor) (history : List Event) (id : ContextId) : Prop :=
  ∃ earlier event later, history = earlier ++ event :: later ∧
    event.Misplaces id (stateAfter Event.perform earlier start)

/-- **In every history guests are queued only if they have been requeued.** -/
theorem allAtHome_stateAfter {configuration : Configuration} {host : Host} {journal : Journal}
    {level : Nat} {start : Hypervisor}
    (built : nested configuration host journal level = .ok start) (history : List Event) :
    AllAtHome (Misplaced start history) (stateAfter Event.perform history start) := by
  induction history using List.reverseRecOn with
  | nil => exact allAtHome_of_nested built
  | append_singleton history event ih =>
      rw [stateAfter_append]
      -- A stray of the last state was one before, or is one by the last event.
      refine AtHome.mono (event.allAtHome ih) fun id stray => ?_
      rcases stray with ⟨earlier, other, later, rfl, misplaces⟩ | misplaces
      · exact ⟨earlier, other, later ++ [event], by simp, misplaces⟩
      · exact ⟨history, event, [], rfl, misplaces⟩

/-- **Whoever is queued is owned, unless it was requeued by mistake.**  In any history, whatever of
it has failed, let a context be queued that is not owned: then it was moved to the back of the queue
while it was hosted for the level above.  Nothing else puts a hosted context into the queue; and
where the queue says who comes next, no hosted context is called unknown but one that was requeued
in this way. -/
theorem queued_by_mistake {configuration : Configuration} {host : Host} {journal : Journal}
    {level : Nat} {start : Hypervisor} (built : nested configuration host journal level = .ok start)
    (history : List Event) :
    let reached := stateAfter Event.perform history start
    (∀ id ∈ reached.own.ready, id ∈ reached.own.owned ∨ Misplaced start history id) ∧
      ∀ event : Event, event.Schedules → ∀ id ∈ reached.own.relay.hosted, ∀ after,
        event.perform reached = .error (.unknownContext id) after → Misplaced start history id := by
  intro reached
  have home : AllAtHome (Misplaced start history) reached := allAtHome_stateAfter built history
  refine ⟨AtHome.queued home, fun event schedules id guest after failed => ?_⟩
  have outcome := schedules.stays_atHome reached home
  rw [failed] at outcome
  exact outcome.1 id guest rfl

/-- A context begins for the level above, behind a loaded one, and is requeued. -/
def guestRequeued : List Event :=
  [.operation (.load forkAndWait []), .request (.create forkAndWait ⟨.demand, 4096, []⟩),
    .operation (.requeue 2)]

/-- The loaded context is queued, and the other one is misplaced behind it. -/
theorem guest_behind_loaded :
    ∃ start, nested { Configuration.standard with frames := 40 } .null .silent 2 = .ok start ∧
      let reached := stateAfter Event.perform guestRequeued start
      reached.own.ready = [1, 2] ∧ reached.own.owned.toList = [1] ∧
      Misplaced start guestRequeued 2 := by
  obtain ⟨start, built⟩ : ∃ start,
      nested { Configuration.standard with frames := 40 } .null .silent 2 = .ok start := ⟨_, rfl⟩
  have evaluated : (nested { Configuration.standard with frames := 40 } .null .silent 2).map
      (fun start =>
        let reached := stateAfter Event.perform guestRequeued start
        (reached.own.ready, reached.own.owned.toList, reached.own.owned.contains 2)) =
      .ok ([1, 2], [1], false) := by
    decide +kernel
  rw [built] at evaluated
  obtain ⟨ready, rest⟩ := Prod.mk.inj (Except.ok.inj evaluated)
  obtain ⟨owned, foreign⟩ := Prod.mk.inj rest
  refine ⟨start, built, ready, owned, ?_⟩
  have queued := (queued_by_mistake built guestRequeued).1 2 (by rw [ready]; decide)
  refine queued.resolve_left fun member => ?_
  exact Bool.false_ne_true (foreign.symm.trans (TreeSet.mem_iff_contains.mp member))

/-- A hosted context is queued after it was requeued, though nobody owns it, and it is the reason
for which the next round fails. -/
theorem guest_queued :
    ∃ start, nested { Configuration.standard with frames := 8 } .null .silent 1 = .ok start ∧
      let reached := stateAfter Event.perform
        [.request (.create forkAndWait ⟨.demand, 4096, []⟩), .operation (.requeue 1)] start
      reached.own.ready = [1] ∧ reached.own.owned.toList = [] ∧
      reached.own.relay.hosted.toList = [1] ∧
      answerOf (scheduleOnce reached) = .error (.unknownContext 1) ∧
      answerOf (runAll 1 reached) = .error (.unknownContext 1) ∧
      answerOf (resumeDebugger 1 ∅ none none reached) = .error (.unknownContext 1) := by
  refine ⟨_, rfl, ?_⟩
  decide +kernel

end NestedMachine.Hypervisor
