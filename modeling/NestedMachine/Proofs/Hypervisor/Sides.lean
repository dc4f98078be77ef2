import NestedMachine.Proofs.Hypervisor.Custody
import NestedMachine.Proofs.Machine.Strangers

/-!
# The two sides of a supervisor

A supervisor owns contexts, and it hosts others for the level above; all of them are in one table of
the interpreter.  The two sets are kept apart (`Parted`): no context is on both sides, every context
is on one of them, and no link of a family leads from one side to the other.  The links are what
makes this more than bookkeeping: whoever is removed is cut off from its family, and whoever ends is
noticed by parent and children.

Whatever is done to a context of one side leaves those of the other side as they are (`Apart`): they
stay on their side, and neither their records nor the bytes that they see change.  There is one
lemma for each request to the machine below, good for both sides; after a beginning or a removal the
supervisor has to bring its record up to date, and until then the sides do not match
(`halts_create_apart`, `halts_fork_apart`, `halts_destroy_apart`).

For the supervisor's own operations the other side are the hosted contexts, and everything that it
does leaves them alone (`firm_apart`): it starts from a context that it owns, and what it follows
from there, the links, stays on its side.
-/

namespace NestedMachine

set_option autoImplicit false

open Std (TreeSet)

/-- A context has another one for parent or child. -/
def Kin.Links (kin : Kin) (other : ContextId) : Prop :=
  kin.parent = some other ∨ other ∈ kin.children

/-- What links are left after a removal were there before. -/
theorem Kin.links_of_without {kin gone : Kin} {id holder other : ContextId}
    (link : (kin.without id gone holder).Links other) : kin.Links other := by
  rcases link with link | child
  · dsimp only [Kin.without] at link
    split at link
    · cases link
    · exact .inl link
  · exact .inr (Hypervisor.Removed.mem_children.mp child).1

/-- On which side of a supervisor a context is. -/
inductive Side where
  | owned
  | hosted

/-- The other side. -/
def Side.opposite : Side → Side
  | .owned => .hosted
  | .hosted => .owned

theorem Side.opposite_opposite (side : Side) : side.opposite.opposite = side := by
  cases side <;> rfl

theorem Side.eq_or_eq_opposite (side other : Side) : other = side ∨ other = side.opposite := by
  cases side <;> cases other <;> simp [Side.opposite]

/-- The contexts on a side. -/
def Supervisor.members (own : Supervisor) : Side → TreeSet ContextId
  | .owned => own.owned
  | .hosted => own.relay.hosted

theorem Supervisor.members_congr {own own' : Supervisor} (owned : own'.owned = own.owned)
    (hosted : own'.relay.hosted = own.relay.hosted) (side : Side) :
    own'.members side = own.members side := by
  cases side
  · exact owned
  · exact hosted

namespace Hypervisor

variable {α : Type} {capacity : Nat} {side : Side} {base origin after : Hypervisor}
  {id other holder : ContextId}

/-! ## Two sides -/

/-- Every context is on one side, and all its links stay there. -/
structure Parted (capacity : Nat) (hypervisor : Hypervisor) : Prop extends
    Steady capacity hypervisor where
  disjoint : ∀ side, ∀ id ∈ hypervisor.own.members side,
    id ∉ hypervisor.own.members side.opposite
  known : ∀ id, (∃ side, id ∈ hypervisor.own.members side) ↔ ∃ kin, hypervisor.kin id = some kin
  older : ∀ id kin other, hypervisor.kin id = some kin → kin.Links other →
    other < hypervisor.machine.interpreter.nextId
  inside : ∀ side id kin other, hypervisor.kin id = some kin → kin.Links other →
    id ∈ hypervisor.own.members side → other ∉ hypervisor.own.members side.opposite

namespace Parted

theorem young_of_member (parted : Parted capacity origin)
    (member : id ∈ origin.own.members side) : id < origin.machine.interpreter.nextId := by
  obtain ⟨kin, found⟩ := (parted.known id).mp ⟨side, member⟩
  exact parted.toSteady.young found

/-- A context that is not on one side is on the other one. -/
theorem on_side (parted : Parted capacity origin) {kin : Kin} (found : origin.kin id = some kin)
    (elsewhere : id ∉ origin.own.members side.opposite) : id ∈ origin.own.members side := by
  obtain ⟨place, member⟩ := (parted.known id).mpr ⟨kin, found⟩
  rcases side.eq_or_eq_opposite place with rfl | rfl
  · exact member
  · exact absurd member elsewhere

/-- **The sides stay apart** if who was there stays on its side, and every link is an old one or one
within a side. -/
theorem of_step (parted : Parted capacity origin) (steady : Steady capacity after)
    (nextId : origin.machine.interpreter.nextId ≤ after.machine.interpreter.nextId)
    (disjoint : ∀ side, ∀ id ∈ after.own.members side, id ∉ after.own.members side.opposite)
    (known : ∀ id, (∃ side, id ∈ after.own.members side) ↔ ∃ kin, after.kin id = some kin)
    (stays : ∀ side, ∀ id < origin.machine.interpreter.nextId, id ∈ after.own.members side →
      id ∈ origin.own.members side)
    (links : ∀ id kin other, after.kin id = some kin → kin.Links other →
      (∃ before, origin.kin id = some before ∧ before.Links other) ∨
        ∃ side, id ∈ after.own.members side ∧ other ∈ after.own.members side) :
    Parted capacity after where
  toSteady := steady
  disjoint := disjoint
  known := known
  older id kin other found link := by
    rcases links id kin other found link with ⟨before, there, old⟩ | ⟨side, -, member⟩
    · exact (parted.older id before other there old).trans_le nextId
    · obtain ⟨kin', found'⟩ := (known other).mp ⟨side, member⟩
      exact steady.young found'
  inside side id kin other found link member across := by
    rcases links id kin other found link with ⟨before, there, old⟩ | ⟨place, mine, its⟩
    · have young := parted.toSteady.young there
      exact parted.inside side id before other there old (stays side id young member)
        (stays _ other (parted.older id before other there old) across)
    · rcases side.eq_or_eq_opposite place with rfl | rfl
      · exact disjoint place other its across
      · exact disjoint side id member mine

/-- **The sides stay apart** where contexts and links are lost at most. -/
theorem of_less (parted : Parted capacity origin) (steady : Steady capacity after)
    (nextId : origin.machine.interpreter.nextId ≤ after.machine.interpreter.nextId)
    (stays : ∀ side, ∀ id ∈ after.own.members side, id ∈ origin.own.members side)
    (known : ∀ id, (∃ side, id ∈ after.own.members side) ↔ ∃ kin, after.kin id = some kin)
    (links : ∀ id kin, after.kin id = some kin →
      ∃ before, origin.kin id = some before ∧ ∀ other, kin.Links other → before.Links other) :
    Parted capacity after := by
  refine parted.of_step steady nextId (fun side id member across => ?_) known
    (fun side id _ => stays side id) fun id kin other found link => .inl ?_
  · exact parted.disjoint side id (stays side id member) (stays _ id across)
  · obtain ⟨before, there, less⟩ := links id kin found
    exact ⟨before, there, less other link⟩

/-- Where families and sides are the same, the sides stay apart. -/
theorem of_same (parted : Parted capacity origin) (steady : Steady capacity after)
    (nextId : origin.machine.interpreter.nextId ≤ after.machine.interpreter.nextId)
    (members : ∀ side, after.own.members side = origin.own.members side)
    (kin : ∀ id, after.kin id = origin.kin id) : Parted capacity after := by
  refine parted.of_less steady nextId (fun side id member => members side ▸ member)
    (fun id => ?_) fun id kin' found => ?_
  · simp only [members, kin]
    exact parted.known id
  · rw [kin] at found
    exact ⟨kin', found, fun _ link => link⟩

/-- **A context begins on the side of its parent.** -/
theorem of_born (parted : Parted capacity origin) (steady : Steady capacity after)
    {parent : Option ContextId} (born : Born parent id origin { after with own := origin.own })
    (member : after.own.members side = (origin.own.members side).insert id)
    (opposite : after.own.members side.opposite = origin.own.members side.opposite)
    (above : ∀ source, parent = some source → source ∈ origin.own.members side) :
    Parted capacity after := by
  have kin (other : ContextId) : after.kin other = ({ after with own := origin.own } :
    Hypervisor).kin other := rfl
  have mem_side (other : ContextId) :
      other ∈ after.own.members side ↔ id = other ∨ other ∈ origin.own.members side := by
    rw [member, TreeSet.mem_insert, compare_eq_iff_eq]
  have fresh (side : Side) (other : ContextId) (old : other ∈ origin.own.members side) :
      id ≠ other := born.fresh (parted.young_of_member old)
  have anywhere (other : ContextId) : (∃ side, other ∈ after.own.members side) ↔
      id = other ∨ ∃ side, other ∈ origin.own.members side := by
    constructor
    · rintro ⟨place, found⟩
      rcases side.eq_or_eq_opposite place with rfl | rfl
      · exact ((mem_side other).mp found).imp_right fun old => ⟨_, old⟩
      · exact .inr ⟨_, opposite ▸ found⟩
    · rintro (here | ⟨place, old⟩)
      · exact ⟨side, (mem_side other).mpr (.inl here)⟩
      · rcases side.eq_or_eq_opposite place with rfl | rfl
        · exact ⟨_, (mem_side other).mpr (.inr old)⟩
        · exact ⟨_, opposite ▸ old⟩
  -- On the opposite side nothing is new.
  have apart (other : ContextId) (mine : other ∈ after.own.members side)
      (across : other ∈ after.own.members side.opposite) : False := by
    rw [opposite] at across
    rcases (mem_side other).mp mine with here | old
    · exact fresh _ other across here
    · exact parted.disjoint side other old across
  refine parted.of_step steady born.nextId_le ?_ (fun other => ?_) ?_ ?_
  · intro place other found across
    rcases side.eq_or_eq_opposite place with rfl | rfl
    · exact apart other found across
    · rw [side.opposite_opposite] at across
      exact apart other across found
  · rw [anywhere, parted.known, kin]
    constructor
    · rintro (rfl | ⟨before, found⟩)
      · exact ⟨_, born.self⟩
      · obtain ⟨kin', found', -⟩ := born.keeps (parted.toSteady.young found) found
        exact ⟨kin', found'⟩
    · rintro ⟨kin', found⟩
      rcases born.new_or_old found with ⟨rfl, -⟩ | ⟨-, before, there, -⟩
      · exact .inl rfl
      · exact .inr ⟨before, there⟩
  · intro place other young found
    rcases side.eq_or_eq_opposite place with rfl | rfl
    · exact ((mem_side other).mp found).resolve_left (born.fresh young)
    · exact opposite ▸ found
  · intro self kin' other found link
    rcases born.new_or_old ((kin self).symm.trans found) with
      ⟨rfl, rfl⟩ | ⟨-, before, there, -, -, same, children⟩
    · rcases link with link | child
      · exact .inr ⟨side, (mem_side _).mpr (.inl rfl), (mem_side _).mpr (.inr (above other link))⟩
      · exact absurd child TreeSet.not_mem_emptyc
    · rcases link with link | child
      · exact .inl ⟨before, there, .inl (same.symm.trans link)⟩
      · rcases (children other).mp child with ⟨rfl, mine⟩ | child
        · exact .inr ⟨side, (mem_side _).mpr (.inr (above self mine)), (mem_side _).mpr (.inl rfl)⟩
        · exact .inl ⟨before, there, .inr child⟩

/-- **A context that is removed leaves its side.** -/
theorem of_removed (parted : Parted capacity origin) (steady : Steady capacity after) {gone : Kin}
    {own : Supervisor} (removed : Removed id gone origin { after with own })
    (member : after.own.members side = (origin.own.members side).erase id)
    (opposite : after.own.members side.opposite = origin.own.members side.opposite)
    (mine : id ∈ origin.own.members side) : Parted capacity after := by
  have mem_side (other : ContextId) :
      other ∈ after.own.members side ↔ id ≠ other ∧ other ∈ origin.own.members side := by
    rw [member, TreeSet.mem_erase, Ne, compare_eq_iff_eq]
  refine parted.of_less steady removed.nextId.ge (fun place other found => ?_) (fun other => ?_) ?_
  · rcases side.eq_or_eq_opposite place with rfl | rfl
    · exact ((mem_side other).mp found).2
    · exact opposite ▸ found
  · constructor
    · rintro ⟨place, found⟩
      have there : id ≠ other ∧ ∃ side, other ∈ origin.own.members side := by
        rcases side.eq_or_eq_opposite place with rfl | rfl
        · exact ((mem_side other).mp found).imp_right fun old => ⟨_, old⟩
        · refine ⟨?_, _, opposite ▸ found⟩
          rintro rfl
          exact parted.disjoint side id mine (opposite ▸ found)
      obtain ⟨kin, known⟩ := (parted.known other).mp there.2
      exact ⟨_, removed.keeps there.1 known⟩
    · rintro ⟨kin, found⟩
      obtain ⟨different, before, there, -⟩ := removed.of_found found
      obtain ⟨place, old⟩ := (parted.known other).mpr ⟨before, there⟩
      rcases side.eq_or_eq_opposite place with rfl | rfl
      · exact ⟨_, (mem_side other).mpr ⟨different, old⟩⟩
      · exact ⟨_, opposite ▸ old⟩
  · intro self kin found
    obtain ⟨-, before, there, rfl⟩ := removed.of_found found
    exact ⟨before, there, fun _ => Kin.links_of_without⟩

end Parted

/-! ## One side left alone -/

/-- The contexts on a side have the records and see the bytes that they had and saw. -/
def SideKept (side : Side) (origin after : Hypervisor) : Prop :=
  ∀ id ∈ origin.own.members side,
    Interpreter.Untouched id origin.machine.interpreter after.machine.interpreter

theorem SideKept.refl (side : Side) (hypervisor : Hypervisor) :
    SideKept side hypervisor hypervisor :=
  fun id _ => .refl id hypervisor.machine.interpreter

/-- The sides are apart, and one of them is as it was. -/
structure Apart (side : Side) (capacity : Nat) (base hypervisor : Hypervisor) : Prop extends
    Parted capacity hypervisor where
  same : hypervisor.own.members side = base.own.members side
  kept : SideKept side base hypervisor

namespace Apart

theorem refl (parted : Parted capacity origin) : Apart side capacity origin origin :=
  ⟨parted, rfl, .refl side origin⟩

theorem trans (apart : Apart side capacity base origin) (later : Apart side capacity origin after) :
    Apart side capacity base after where
  toParted := later.toParted
  same := later.same.trans apart.same
  kept id member :=
    (apart.kept id member).trans (later.kept id (apart.same ▸ member))

/-- Families and sides are the same, and the side is untouched. -/
theorem of_same (parted : Parted capacity origin) (steady : Steady capacity after)
    (nextId : origin.machine.interpreter.nextId ≤ after.machine.interpreter.nextId)
    (members : ∀ side, after.own.members side = origin.own.members side)
    (kin : ∀ id, after.kin id = origin.kin id)
    (kept : SideKept side origin after) :
    Apart side capacity origin after :=
  ⟨parted.of_same steady nextId members kin, members side, kept⟩

/-- What the supervisor keeps apart from the sides does not matter. -/
theorem withOwn (apart : Apart side capacity base origin) {own : Supervisor}
    (members : ∀ side, own.members side = origin.own.members side) :
    Apart side capacity base { origin with own } :=
  apart.trans (of_same apart.toParted ⟨apart.sound, apart.uniform⟩ le_rfl members (fun _ => rfl)
    (.refl side origin))

end Apart

theorem Hushed.apart (hushed : Hushed holder origin after) (parted : Parted capacity origin)
    (kept : SideKept side origin after) :
    Apart side capacity origin after :=
  .of_same parted ⟨hushed.sound capacity parted.sound, hushed.uniform⟩ hushed.nextId.ge
    (Supervisor.members_congr hushed.owned hushed.hosted) hushed.kin kept

theorem Skipped.apart (skipped : Skipped origin after) (parted : Parted capacity origin)
    (kept : SideKept side origin after) :
    Apart side capacity origin after := by
  refine .of_same parted ⟨(skipped.confined 0).sound capacity parted.sound, skipped.uniform⟩
    ((Nat.le_succ _).trans_eq skipped.nextId.symm) (fun side => ?_) skipped.kin kept
  rw [skipped.own]

/-- What is left alone at every step is left alone. -/
theorem keeps_apart_of_step {action : HypervisorAction α}
    (step : ∀ origin : Hypervisor, Parted capacity origin →
      origin.own.members side = base.own.members side →
        Halts (fun _ => Apart side capacity origin) (fun _ => Apart side capacity origin)
          (action origin)) :
    Keeps (Apart side capacity base) action :=
  fun origin apart => (step origin apart.toParted apart.same).mono
    (fun _ _ later => apart.trans later) fun _ _ later => apart.trans later

/-- Discreet actions leave a side alone if they touch nobody there. -/
theorem keeps_apart_of_discreet {told : α → Prop} {action : HypervisorAction α}
    (discreet : Discreet holder told action)
    (untouched : ∀ origin : Hypervisor, Steady capacity origin → ∀ id ∈ base.own.members side,
      Interpreter.Untouched id origin.machine.interpreter
        (finalState (action origin)).machine.interpreter) :
    Keeps (Apart side capacity base) action := by
  apply keeps_apart_of_step
  intro origin parted same
  have kept : SideKept side origin (finalState (action origin)) :=
    fun id member => untouched origin parted.toSteady id (same ▸ member)
  exact ((discreet origin parted.uniform).both (.of_finalState kept)).mono
    (fun _ _ given => given.1.1.apart parted given.2)
    fun _ _ given => given.1.1.apart parted given.2

/-! ## Requests about one context -/

theorem ne_of_notMem {members : TreeSet ContextId} (apart : id ∉ members)
    (member : other ∈ members) : id ≠ other := by
  rintro rfl
  exact apart member

theorem keeps_apart_switch (apart : id ∉ base.own.members side) (quantum : Nat) :
    Keeps (Apart side capacity base) (below (Machine.switch id quantum)) := by
  refine keeps_apart_of_discreet (discreet_switch id quantum) fun origin steady other member => ?_
  rw [finalState_below (steady.uniform.switch id quantum)]
  exact steady.sound.untouched_switch (ne_of_notMem apart member) quantum

theorem keeps_apart_onMemory (apart : id ∉ base.own.members side) {action : MemoryAction α}
    (careful : Memory.Careful action) :
    Keeps (Apart side capacity base) (onMemory id action) := by
  refine keeps_apart_of_discreet (discreet_onMemory id careful) fun origin steady other member => ?_
  have kept := steady.sound.untouched_withMemory careful (ne_of_notMem apart member)
  obtain ⟨machine, own⟩ := origin
  simp only [onMemory, steady.uniform.withMemory]
  generalize machine.interpreter.withMemory id action = result at kept
  obtain ⟨answer, interpreter⟩ := result
  cases answer <;> exact kept

theorem keeps_apart_release (apart : id ∉ base.own.members side) :
    Keeps (Apart side capacity base) (below (Machine.release id)) := by
  apply keeps_apart_of_step
  intro origin parted same
  have kept : SideKept side origin
      (finalState (below (Machine.release id) origin)) := by
    intro other member
    rw [finalState_below (parted.uniform.release id)]
    exact parted.sound.untouched_release (ne_of_notMem (same ▸ apart) member)
  exact ((halts_release parted.uniform id).both (.of_finalState kept)).mono
    (fun _ _ given => given.1.1.apart parted given.2)
    fun _ _ given => (given.1.hushed 0).apart parted given.2

theorem kinIn_modifyContext (interpreter : Interpreter) (id other : ContextId)
    (change : Context → Context) :
    kinIn (interpreter.modifyContext id change).contexts other =
      (interpreter.contexts[other]?).map fun context =>
        if id = other then (change context).kin else context.kin := by
  rw [kinIn, Interpreter.modifyContext, Table.getElem?_modify]
  split
  · rw [Option.map_map]
    rfl
  · rfl

/-- A change of a context leaves the other side alone if it leaves the address space alone and links
the context to nobody there. -/
theorem Parted.alter (parted : Parted capacity origin) (apart : id ∉ origin.own.members side)
    {context : Context} (found : origin.machine.interpreter.contexts[id]? = some context)
    {change : Context → Context} (space : ∀ context, (change context).space = context.space)
    (links : ∀ other, (change context).kin.Links other →
      context.kin.Links other ∨ other ∈ origin.own.members side.opposite) :
    Apart side capacity origin ⟨origin.machine.modifyContext id change, origin.own⟩ := by
  have steady := parted.toSteady.modifyContext id space
  rw [parted.uniform.modifyContext found] at steady ⊢
  have entry (other : ContextId) :=
    kinIn_modifyContext origin.machine.interpreter id other change
  have mine : id ∈ origin.own.members side.opposite := by
    have known : origin.kin id = some context.kin := congrArg (Option.map Context.kin) found
    apply parted.on_side known
    rw [side.opposite_opposite]
    exact apart
  refine ⟨parted.of_step steady le_rfl parted.disjoint (fun other => ?_)
    (fun _ _ _ member => member) ?_, rfl, ?_⟩
  · rw [parted.known other]
    show _ ↔ ∃ kin, kinIn _ other = some kin
    rw [entry, kin, kinIn]
    cases origin.machine.interpreter.contexts[other]? <;> simp
  · intro self kin other there link
    obtain ⟨before, present, rfl⟩ := Option.map_eq_some_iff.mp ((entry self).symm.trans there)
    have known : origin.kin self = some before.kin := congrArg (Option.map Context.kin) present
    by_cases here : id = self
    · subst here
      obtain rfl := Option.some.inj (found.symm.trans present)
      rw [if_pos rfl] at link
      exact (links other link).imp (fun old => ⟨_, known, old⟩) fun beside => ⟨_, mine, beside⟩
    · rw [if_neg here] at link
      exact .inl ⟨_, known, link⟩
  · intro other member
    exact Interpreter.untouched_modifyContext (ne_of_notMem apart member) change

/-- A change of a context by its supervisor. -/
theorem keeps_apart_modifyContext (apart : id ∉ base.own.members side)
    {change : Context → Context} (tending : Tending change) :
    Keeps (Apart side capacity base) (modifyContext id change) := by
  apply keeps_apart_of_step
  intro origin parted same
  rw [modifyContext_apply]
  cases found : origin.machine.context? id with
  | none => exact .refl parted
  | some context =>
      rw [parted.uniform.context?] at found
      refine parted.alter (same ▸ apart) found tending.space fun other link => .inl ?_
      exact link.imp (tending.parent context other) (tending.children context other)

/-! ## Requests about the table of contexts -/

/-- The supervisor has taken note of a context that is new on a side. -/
structure Enrolled (side : Side) (id : ContextId) (before own : Supervisor) : Prop where
  members : own.members side = (before.members side).insert id
  opposite : own.members side.opposite = before.members side.opposite

/-- The supervisor has taken note of the removal of a context. -/
structure Struck (side : Side) (id : ContextId) (before own : Supervisor) : Prop where
  members : own.members side = (before.members side).erase id
  opposite : own.members side.opposite = before.members side.opposite

/-- A new context, of which the supervisor has taken note, leaves the other side alone. -/
theorem Born.apart (parted : Parted capacity origin) (steady : Steady capacity after)
    {parent : Option ContextId} (born : Born parent id origin after)
    (above : ∀ source, parent = some source → source ∈ origin.own.members side)
    (kept : SideKept side.opposite origin after) {own : Supervisor}
    (enrolled : Enrolled side id after.own own) :
    Apart side.opposite capacity origin { after with own } := by
  rw [born.own] at enrolled
  refine ⟨?_, enrolled.opposite, kept⟩
  exact parted.of_born ⟨steady.sound, steady.uniform⟩
    ⟨born.uniform, born.next, born.nextId, born.kin, rfl⟩ enrolled.members enrolled.opposite above

theorem halts_create_apart (parted : Parted capacity origin) (side : Side) (image : Image)
    (options : LoadOptions) :
    Halts (fun _ after => Apart side.opposite capacity origin after)
      (fun id after => ∀ own, Enrolled side id after.own own →
        Apart side.opposite capacity origin { after with own })
      (below (Machine.create image options) origin) := by
  have kept : SideKept side.opposite origin
      (finalState (below (Machine.create image options) origin)) := by
    intro other _
    rw [finalState_below (parted.uniform.create image options)]
    exact parted.sound.untouched_create image options
  apply ((keeps_steady_create image options origin parted.toSteady).both
    ((halts_create parted.uniform image options).both (.of_finalState kept))).mono
  · rintro id after ⟨steady, ⟨born, -⟩, kept⟩ own enrolled
    exact born.apart parted steady (fun _ link => nomatch link) kept enrolled
  · rintro error after ⟨-, ⟨skipped, -⟩, kept⟩
    exact skipped.apart parted kept

/-- A context that is not there is not copied. -/
theorem halts_fork_of_missing (uniform : origin.machine.Uniform) (missing : origin.kin id = none) :
    Halts (Refused id origin) (fun _ _ => False) (below (Machine.fork id) origin) := by
  apply halts_below (uniform.fork id)
  have missing := Option.map_eq_none_iff.mp missing
  rw [Interpreter.fork_of_none missing]
  exact fun relays uniform => refused_of_missing uniform missing

theorem halts_fork_apart (parted : Parted capacity origin) (side : Side)
    (apart : id ∉ origin.own.members side.opposite) :
    Halts (fun _ after => Apart side.opposite capacity origin after)
      (fun answer after =>
        match answer with
        | none => Apart side.opposite capacity origin after
        | some child => origin.machine.interpreter.nextId ≤ child ∧
            ∀ own, Enrolled side child after.own own →
              Apart side.opposite capacity origin { after with own })
      (below (Machine.fork id) origin) := by
  have kept : SideKept side.opposite origin
      (finalState (below (Machine.fork id) origin)) := by
    intro other member
    rw [finalState_below (parted.uniform.fork id)]
    exact parted.sound.untouched_fork (ne_of_notMem apart member)
  cases known : origin.kin id with
  | none =>
      have refusal := halts_fork_of_missing parted.uniform known
      exact (refusal.both (.of_finalState kept)).mono (fun _ _ never => never.1.elim)
        fun _ _ refused => (refused.1.hushed 0).apart parted refused.2
  | some kin =>
      apply ((keeps_steady_fork id origin parted.toSteady).both ((halts_fork parted.uniform id
        fun _ found => parted.toSteady.young found).both (.of_finalState kept))).mono
      · rintro answer after ⟨steady, forked, kept⟩
        cases answer with
        | none => exact (forked 0).apart parted kept
        | some child =>
            obtain ⟨born, -⟩ := forked
            refine ⟨born.next.ge, fun own enrolled => ?_⟩
            refine born.apart parted steady (fun source same => ?_) kept enrolled
            obtain rfl := Option.some.inj same
            exact parted.on_side known apart
      · rintro error after ⟨-, refused, kept⟩
        exact (refused.hushed 0).apart parted kept

theorem halts_destroy_apart (parted : Parted capacity origin) (side : Side)
    (apart : id ∉ origin.own.members side.opposite) :
    Halts (fun _ after => Apart side.opposite capacity origin after)
      (fun _ after => ∀ own, Struck side id after.own own →
        Apart side.opposite capacity origin { after with own })
      (below (Machine.destroy id) origin) := by
  have kept : SideKept side.opposite origin
      (finalState (below (Machine.destroy id) origin)) := by
    intro other member
    rw [finalState_below (parted.uniform.destroy id)]
    apply parted.sound.untouched_destroy (ne_of_notMem apart member)
    -- Whoever is on the other side is no relative.
    intro context found
    have known : origin.kin id = some context.kin := congrArg (Option.map Context.kin) found
    have stranger (link : context.kin.Links other) : False :=
      parted.inside side id context.kin other known link (parted.on_side known apart) member
    exact ⟨fun parent => stranger (.inl parent), fun child => stranger (.inr child)⟩
  have recorded : Halts (fun _ after => after.own = origin.own)
      (fun _ after => after.own = origin.own) (below (Machine.destroy id) origin) := by
    apply Halts.of_finalState
    exact own_below _ _
  apply ((keeps_steady_destroy id origin parted.toSteady).both
    ((halts_destroy parted.uniform id).both
      (recorded.both (.of_finalState kept)))).mono
  · rintro _ after ⟨steady, ⟨⟨gone, removed⟩, -⟩, same, kept⟩ own struck
    rw [same] at struck
    exact ⟨parted.of_removed ⟨steady.sound, steady.uniform⟩ removed struck.members struck.opposite
      (parted.on_side removed.there apart), struck.opposite, kept⟩
  · rintro error after ⟨-, refused, -, kept⟩
    exact (refused.hushed 0).apart parted kept

/-! ## Everything that a supervisor does itself -/

/-- A supervisor that changes neither side leaves both alone. -/
theorem keeps_apart_modifyOwn {change : Supervisor → Supervisor} (routine : Routine change) :
    Keeps (Apart side capacity base) (modifyOwn change) :=
  .modify fun origin apart => apart.withOwn
    (Supervisor.members_congr (routine.2 origin.own) (routine.1 origin.own).1)

theorem keeps_apart_requeue (id : ContextId) : Keeps (Apart side capacity base) (requeue id) :=
  keeps_requeue keeps_apart_modifyOwn id

theorem keeps_apart_note (happening : Note) :
    Keeps (Apart side capacity base) (note happening) := by
  refine keeps_apart_of_discreet (discreet_note 0 happening) fun origin _ other _ => ?_
  exact Interpreter.Untouched.of_pool rfl fun _ found => found

theorem keeps_apart_askHost (request : Host → HostAnswer α) :
    Keeps (Apart side capacity base) (askHost request) := by
  refine keeps_apart_of_discreet (discreet_askHost 0 request) fun origin _ other _ => ?_
  exact Interpreter.Untouched.of_pool rfl fun _ found => found

/-- A context that is not hosted. -/
def Foreign (base : Hypervisor) (id : ContextId) : Prop := id ∉ base.own.members .hosted

/-- A context that a supervisor removes is not a hosted one. -/
theorem keeps_apart_discard (foreign : base.Foreign id) :
    Keeps (Apart .hosted capacity base) (discard id) := by
  apply keeps_apart_of_step
  intro origin parted same
  have apart : id ∉ origin.own.members .hosted := same ▸ foreign
  exact (halts_destroy_apart parted .owned apart).bind
    fun _ destroyed struck => struck _ ⟨rfl, rfl⟩

theorem sturdy_apart : Sturdy base.Foreign (Apart .hosted capacity base) where
  owned hypervisor apart id member := by
    have elsewhere := apart.disjoint .owned id member
    rw [Side.opposite, apart.same] at elsewhere
    exact elsewhere
  family hypervisor apart id context foreign found := by
    have known : hypervisor.kin id = some context.kin := kin_of_context? apart.uniform found
    have mine : id ∈ hypervisor.own.members .owned :=
      apart.on_side known (apart.same ▸ foreign)
    have stays (other : ContextId) (link : context.kin.Links other) : base.Foreign other := by
      have elsewhere := apart.inside .owned id context.kin other known link mine
      rw [Side.opposite, apart.same] at elsewhere
      exact elsewhere
    exact ⟨fun child member => stays child (.inr member),
      fun parent same => stays parent (.inl same)⟩
  note := keeps_apart_note
  own quiet := keeps_apart_modifyOwn quiet.1
  host := keeps_apart_askHost
  change foreign := keeps_apart_modifyContext foreign
  makeReady foreign := keeps_makeReady (keeps_apart_modifyContext foreign (tending_withState _))
    (keeps_enqueue keeps_apart_modifyOwn _)
  discard := keeps_apart_discard

theorem keeps_apart_load (image : Image) (arguments : List String) :
    Keeps (Apart .hosted capacity base) (load image arguments) := by
  have rest (id : ContextId) : Keeps (Apart .hosted capacity base) (do
      enqueue id
      count fun counters => { counters with contextsCreated := counters.contextsCreated + 1 }
      note (.levelLoaded (← get).level id)
      return id) := by
    refine (keeps_enqueue keeps_apart_modifyOwn id).bind fun _ => ?_
    refine (sturdy_apart.count _).bind fun _ => ?_
    exact .get_bind fun _ => (keeps_apart_note _).bind fun _ => .pure id
  refine .get_bind fun look origin apart => ?_
  refine ((halts_create_apart apart.toParted .owned image _).mono (fun _ _ given => given)
    fun _ _ later => apart.trans later).bind fun id created enrolled => ?_
  have owned : Apart .hosted capacity base { created with
      own := { created.own with owned := created.own.owned.insert id } } :=
    apart.trans (enrolled _ ⟨rfl, rfl⟩)
  exact rest id _ owned

theorem keeps_apart_serveFork (foreign : base.Foreign id) :
    Keeps (Apart .hosted capacity base) (serveFork id) := by
  have rest (child : ContextId) (foreign : base.Foreign child) :
      Keeps (Apart .hosted capacity base) (do
        modifyContext child fun context =>
          (context.withRegister Register.a0 0).withPc (context.hart.pc + 4)
        makeReady child
        note (.forked id child)
        return (Outcome.answer (Int64.ofNat child))) := by
    refine (keeps_apart_modifyContext foreign (tending_answer _ _ _)).bind fun _ => ?_
    refine (sturdy_apart.makeReady foreign).bind fun _ => ?_
    exact (keeps_apart_note _).bind fun _ => .pure _
  intro origin apart
  refine ((halts_fork_apart apart.toParted .owned (apart.same ▸ foreign)).mono
    (fun _ _ given => given) fun _ _ later => apart.trans later).bind ?_
  intro answer forked outcome
  cases answer with
  | none => exact ((keeps_apart_note _).bind fun _ => .pure _) forked (apart.trans outcome)
  | some child =>
      obtain ⟨newer, enrolled⟩ := outcome
      have owned : Apart .hosted capacity base { forked with
          own := { forked.own with
            relay := forked.own.relay.count fun counters =>
              { counters with forks := counters.forks + 1 }
            owned := forked.own.owned.insert child } } :=
        apart.trans (enrolled _ ⟨rfl, rfl⟩)
      have foreign : base.Foreign child := by
        intro hosted
        rw [← apart.same] at hosted
        exact absurd (apart.young_of_member hosted) (Nat.not_lt.mpr newer)
      exact rest child foreign _ owned

/-- **Whatever a supervisor does itself leaves the contexts alone that it hosts.** -/
theorem firm_apart : Firm base.Foreign (Apart .hosted capacity base) where
  toSturdy := sturdy_apart
  memory foreign _ _ courteous := keeps_apart_onMemory foreign fun _ _ => courteous.keeps_sound
  terminate foreign status := sturdy_apart.terminate foreign (keeps_apart_release foreign) status
  load := keeps_apart_load
  fork := keeps_apart_serveFork
  switch foreign := keeps_apart_switch foreign

end Hypervisor

end NestedMachine
