import NestedMachine.Proofs.Hypervisor.Traps

/-!
# Children, counted

What becomes of the children of a context is counted over everything that happens to a hypervisor
(`Balanced`): the children that the context had and those that were born to it are those that it was
told of, those that were reaped for it, and those that it still has.  Such accounts are closed one
after the other (`Balanced.trans`).  They say nothing of a context that has ended, whose children
are cut off.

A beginning enters the new child (`Born.balanced`), and the removal of a context that has ended
strikes it off at its parent (`Removed.balanced`).  All else leaves children alone (`Steadfast`):
states, answers and records, also the end of a context, whose parent goes on to have it
(`Terminated.steadfast`).
-/

namespace NestedMachine.Hypervisor

set_option autoImplicit false

open Std (TreeSet)

variable {α : Type} {hypervisor origin middle after : Hypervisor} {loaded : ContextId → Prop}
  {id caller parent child other : ContextId} {gone : Kin} {status : ExitStatus}

/-! ## Children -/

/-- The children of a context. -/
def childrenOf (hypervisor : Hypervisor) (id : ContextId) : List ContextId :=
  ((hypervisor.kin id).map fun kin => kin.children.toList).getD []

theorem childrenOf_of_kin {kin : Kin} (found : hypervisor.kin id = some kin) :
    hypervisor.childrenOf id = kin.children.toList := by
  rw [childrenOf, found]
  rfl

theorem childrenOf_of_missing (missing : hypervisor.kin id = none) :
    hypervisor.childrenOf id = [] := by
  rw [childrenOf, missing]
  rfl

/-- A child is counted once. -/
theorem count_toList (children : TreeSet ContextId) (child : ContextId) :
    children.toList.count child = if child ∈ children then 1 else 0 := by
  rw [(nodup_toList children).count]
  simp only [TreeSet.mem_toList]

/-- A number that nobody has got yet. -/
structure Unborn (hypervisor : Hypervisor) (id : ContextId) : Prop where
  missing : hypervisor.kin id = none
  next : hypervisor.machine.interpreter.nextId ≤ id

theorem Kinship.unborn (kinship : Kinship loaded hypervisor)
    (next : hypervisor.machine.interpreter.nextId ≤ id) : hypervisor.Unborn id := by
  refine ⟨?_, next⟩
  by_contra there
  obtain ⟨kin, found⟩ := Option.ne_none_iff_exists'.mp there
  exact absurd (kinship.young id kin found) (not_lt.mpr next)

theorem Kinship.not_unborn (kinship : Kinship loaded hypervisor) (lives : hypervisor.Live id) :
    id < hypervisor.machine.interpreter.nextId := by
  obtain ⟨kin, found, -⟩ := lives
  exact kinship.young id kin found

/-! ## Accounts -/

/-- What has become of the children of a context, if it lives in the end.  The children that it had
and those that were born to it are those that it was told of, those that were reaped for it, and
those that it has. -/
structure Balanced (parent : ContextId) (born told reaped : List ContextId)
    (origin after : Hypervisor) : Prop where
  nextId : origin.machine.interpreter.nextId ≤ after.machine.interpreter.nextId
  fresh : ∀ child ∈ born, origin.machine.interpreter.nextId ≤ child ∧
    child < after.machine.interpreter.nextId
  distinct : born.Nodup
  known : after.machine.interpreter.nextId ≤ parent → born = [] ∧ told = [] ∧ reaped = []
  lived : after.Live parent → origin.Live parent ∨ origin.Unborn parent
  balance : after.Live parent → ∀ child,
    (origin.childrenOf parent).count child + born.count child =
      told.count child + reaped.count child + (after.childrenOf parent).count child

/-- **One account follows the other.** -/
theorem Balanced.trans {born born' told told' reaped reaped' : List ContextId}
    (kinship : Kinship loaded origin) (first : Balanced parent born told reaped origin middle)
    (second : Balanced parent born' told' reaped' middle after) :
    Balanced parent (born ++ born') (told ++ told') (reaped ++ reaped') origin after where
  nextId := first.nextId.trans second.nextId
  fresh child member := by
    rcases List.mem_append.mp member with early | late
    · exact ⟨(first.fresh child early).1, (first.fresh child early).2.trans_le second.nextId⟩
    · exact ⟨first.nextId.trans (second.fresh child late).1, (second.fresh child late).2⟩
  distinct := by
    refine List.nodup_append.mpr ⟨first.distinct, second.distinct, ?_⟩
    rintro child early _ late rfl
    exact absurd (first.fresh child early).2 (not_lt.mpr (second.fresh child late).1)
  known next := by
    obtain ⟨rfl, rfl, rfl⟩ := first.known (second.nextId.trans next)
    obtain ⟨rfl, rfl, rfl⟩ := second.known next
    exact ⟨rfl, rfl, rfl⟩
  lived lives := by
    rcases second.lived lives with lived | unborn
    · exact first.lived lived
    · exact .inr (kinship.unborn (first.nextId.trans unborn.next))
  balance lives child := by
    simp only [List.count_append]
    have later := second.balance lives child
    rcases second.lived lives with lived | unborn
    · have earlier := first.balance lived child
      omega
    · -- Nothing is entered for a context before it begins.
      obtain ⟨rfl, rfl, rfl⟩ := first.known unborn.next
      rw [childrenOf_of_missing unborn.missing] at later
      rw [childrenOf_of_missing (kinship.unborn (first.nextId.trans unborn.next)).missing]
      simp only [List.count_nil] at later ⊢
      omega

/-- **The children of a context that began without any** are those that it was told of, those that
were reaped for it, and those that it has. -/
theorem Balanced.perm {born told reaped : List ContextId}
    (account : Balanced parent born told reaped origin after) (lives : after.Live parent)
    (childless : origin.childrenOf parent = []) :
    born.Perm (told ++ reaped ++ after.childrenOf parent) := by
  refine List.perm_iff_count.mpr fun child => ?_
  have balance := account.balance lives child
  rw [childless, List.count_nil, Nat.zero_add] at balance
  rw [balance, List.count_append, List.count_append]

/-! ## Where children stay -/

/-- Whoever lives has lived before, and has the same children. -/
structure Steadfast (origin after : Hypervisor) : Prop where
  nextId : origin.machine.interpreter.nextId ≤ after.machine.interpreter.nextId
  kept : ∀ id kin, after.kin id = some kin → kin.exitStatus = none →
    ∃ before, origin.kin id = some before ∧ before.exitStatus = none ∧
      before.children = kin.children

namespace Steadfast

theorem of_kin (nextId : origin.machine.interpreter.nextId ≤ after.machine.interpreter.nextId)
    (same : ∀ id, after.kin id = origin.kin id) : Steadfast origin after :=
  ⟨nextId, fun id kin found lives => ⟨kin, (same id).symm.trans found, lives, rfl⟩⟩

theorem of_hushed {holder : ContextId} (hushed : Hushed holder origin after) :
    Steadfast origin after :=
  .of_kin hushed.nextId.ge hushed.kin

theorem of_aside (aside : Aside origin after) : Steadfast origin after :=
  .of_kin aside.nextId.ge aside.kin

theorem of_machine (same : after.machine = origin.machine) : Steadfast origin after :=
  .of_kin (same ▸ le_rfl) fun _ => by rw [kin, same]; rfl

theorem refl (hypervisor : Hypervisor) : Steadfast hypervisor hypervisor :=
  .of_kin le_rfl fun _ => rfl

theorem trans (first : Steadfast origin middle) (second : Steadfast middle after) :
    Steadfast origin after := by
  refine ⟨first.nextId.trans second.nextId, fun id kin found lives => ?_⟩
  obtain ⟨between, there, lived, same⟩ := second.kept id kin found lives
  obtain ⟨before, there', lived', same'⟩ := first.kept id between there lived
  exact ⟨before, there', lived', same'.trans same⟩

/-- A change of one context that ends nobody and leaves children alone. -/
theorem modifyContext {machine : Machine} {own own' : Supervisor} {change : Context → Context}
    (status : ∀ context, (change context).exitStatus = context.exitStatus)
    (children : ∀ context, (change context).children = context.children) :
    Steadfast ⟨machine, own⟩ ⟨machine.modifyContext id change, own'⟩ := by
  refine ⟨(nextId_modifyContext ..).ge, fun other kin found lives => ?_⟩
  unfold Hypervisor.kin Machine.modifyContext at found
  dsimp only at found
  split at found
  · change kinIn (machine.interpreter.contexts.modify id change) other = some kin at found
    obtain ⟨changed, there, rfl⟩ := Option.map_eq_some_iff.mp found
    rw [Table.getElem?_modify] at there
    split at there
    · obtain ⟨before, place, rfl⟩ := Option.map_eq_some_iff.mp there
      exact ⟨before.kin, congrArg (Option.map Context.kin) place, (status before).symm.trans lives,
        (children before).symm⟩
    · exact ⟨changed.kin, congrArg (Option.map Context.kin) there, lives, rfl⟩
  · exact ⟨kin, found, lives, rfl⟩

theorem setState {state : ContextState} (done : setState id state origin = .ok () after) :
    Steadfast origin after := by
  obtain rfl := state_of_modifyContext done
  exact modifyContext (fun _ => rfl) fun _ => rfl

theorem makeReady (done : makeReady id origin = .ok () after) : Steadfast origin after := by
  obtain rfl := state_of_makeReady done
  exact modifyContext (fun _ => rfl) fun _ => rfl

theorem answering {pc : UInt64} {value : Int64} :
    Steadfast origin (origin.answering id pc value) := by
  have moved : Steadfast origin ⟨origin.machine.modifyContext id fun context =>
      (context.withRegister Register.a0 value.toUInt64).withPc (pc + 4), origin.own⟩ :=
    modifyContext (fun _ => rfl) fun _ => rfl
  refine moved.trans (modifyContext ?_ ?_)
  · exact fun _ => rfl
  · exact fun _ => rfl

/-- **Where children stay there is nothing to enter.** -/
theorem balanced (steadfast : Steadfast origin after) : Balanced parent [] [] [] origin after where
  nextId := steadfast.nextId
  fresh _ member := nomatch member
  distinct := .nil
  known _ := ⟨rfl, rfl, rfl⟩
  lived := by
    rintro ⟨kin, found, lives⟩
    obtain ⟨before, there, lived, -⟩ := steadfast.kept parent kin found lives
    exact .inl ⟨before, there, lived⟩
  balance := by
    rintro ⟨kin, found, lives⟩ child
    obtain ⟨before, there, -, same⟩ := steadfast.kept parent kin found lives
    rw [childrenOf_of_kin found, childrenOf_of_kin there, same]
    simp

end Steadfast

section Steadfast

variable {born told reaped : List ContextId}

theorem Steadfast.then_balanced (first : Steadfast origin middle) (kinship : Kinship loaded origin)
    (second : Balanced parent born told reaped middle after) :
    Balanced parent born told reaped origin after :=
  first.balanced.trans kinship second

theorem Balanced.then_steadfast (first : Balanced parent born told reaped origin middle)
    (kinship : Kinship loaded origin) (second : Steadfast middle after) :
    Balanced parent born told reaped origin after := by
  simpa using first.trans kinship second.balanced

end Steadfast

/-- **Whoever ends stays a child of its parent**, if that lives. -/
theorem Terminated.steadfast (ends : Terminated id gone status origin after) :
    Steadfast origin after := by
  refine ⟨ends.nextId.ge, fun other kin found lives => ?_⟩
  by_cases here : id = other
  · subst here
    obtain ⟨-, rfl⟩ := ends.self found
    cases lives
  · obtain ⟨before, there, status, children, -⟩ := ends.of_found here found
    exact ⟨before, there, status.symm.trans lives, children.symm⟩

/-! ## Births and removals -/

/-- **A child that begins is entered at its parent.** -/
theorem Born.balanced {forker : Option ContextId} (born : Born forker child origin after)
    (kinship : Kinship loaded origin)
    (lives : ∀ source, forker = some source → origin.Live source) :
    Balanced parent (if forker = some parent then [child] else []) [] [] origin after where
  nextId := born.nextId_le
  fresh other member := by
    split at member
    · obtain rfl := List.mem_singleton.mp member
      exact ⟨born.next.ge, born.nextId ▸ Nat.lt_succ_self _⟩
    · cases member
  distinct := by
    split
    · exact List.nodup_singleton _
    · exact .nil
  known next := by
    refine ⟨if_neg fun mine => ?_, rfl, rfl⟩
    have older := kinship.not_unborn (lives parent mine)
    exact absurd (older.trans_le born.nextId_le) (not_lt.mpr next)
  lived := by
    rintro ⟨kin, found, live⟩
    rcases born.new_or_old found with ⟨rfl, -⟩ | ⟨-, before, there, -, status, -⟩
    · exact .inr (kinship.unborn born.next.ge)
    · exact .inl ⟨before, there, status.symm.trans live⟩
  balance := by
    rintro ⟨kin, found, -⟩ other
    have fresh (mine : forker = some parent) : child ≠ parent :=
      born.fresh (kinship.not_unborn (lives parent mine))
    rw [childrenOf_of_kin found, List.count_nil, Nat.zero_add, count_toList]
    rcases born.new_or_old found with ⟨rfl, rfl⟩ | ⟨-, before, there, -, -, -, children⟩
    · rw [if_neg fun mine => fresh mine rfl, if_neg TreeSet.not_mem_emptyc,
        childrenOf_of_missing (kinship.unborn born.next.ge).missing]
      rfl
    · have apart : child ∉ before.children := by
        intro member
        obtain ⟨kin', known, -⟩ := (kinship.linked parent before there child).mp member
        exact born.fresh (kinship.young child kin' known) rfl
      rw [childrenOf_of_kin there, count_toList]
      simp only [children]
      by_cases mine : forker = some parent
      · by_cases same : child = other
        · subst same
          simp [mine, apart]
        · simp [mine, same]
      · simp [mine]

/-- **A child that is removed is struck off at its parent**, whether the parent is told of it or it
was reaped. -/
theorem Removed.balanced (removed : Removed id gone origin after) (kinship : Kinship loaded origin)
    {told reaped : List ContextId}
    (struck : told ++ reaped = if gone.parent = some parent then [id] else []) :
    Balanced parent [] told reaped origin after where
  nextId := removed.nextId.ge
  fresh _ member := nomatch member
  distinct := .nil
  known next := by
    rw [if_neg fun mine => ?_] at struck
    · obtain ⟨rfl, rfl⟩ := List.append_eq_nil_iff.mp struck
      exact ⟨rfl, rfl, rfl⟩
    · have older := kinship.not_unborn (kinship.parents id gone parent removed.there mine).2
      exact absurd (removed.nextId ▸ older) (not_lt.mpr next)
  lived := by
    rintro ⟨kin, found, lives⟩
    obtain ⟨-, before, there, rfl⟩ := removed.of_found found
    exact .inl ⟨before, there, lives⟩
  balance := by
    rintro ⟨kin, found, lives⟩ child
    obtain ⟨-, before, there, rfl⟩ := removed.of_found found
    have counted := congrArg (List.count child) struck
    have linked := kinship.linked parent before there id
    rw [List.count_append] at counted
    rw [childrenOf_of_kin found, childrenOf_of_kin there, counted, count_toList, count_toList,
      List.count_nil, Nat.add_zero]
    simp only [Removed.mem_children]
    by_cases mine : gone.parent = some parent
    · have member : id ∈ before.children := linked.mpr ⟨gone, removed.there, mine⟩
      by_cases same : child = id
      · subst same
        simp [mine, member]
      · simp [mine, same, Ne.symm same]
    · simp [mine]

end NestedMachine.Hypervisor
