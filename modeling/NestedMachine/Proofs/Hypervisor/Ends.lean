import NestedMachine.Proofs.Hypervisor.Discretion

/-!
# Contexts begin and end in order

Most of what a hypervisor does is silent: it concerns registers, memory, counters, notes, the host
and the trace, and nothing that matters to the scheduling (`Silent`).  What remains concerns one
context at a time.  It is queued when it is made ready (`ensures_makeReady`), it is busy while it is
served, and when it ends, its children are cut off and the parent that waits for it is made ready
(`ensures_terminate`).  All this leaves everyone in order.
-/

namespace NestedMachine.Hypervisor

set_option autoImplicit false

open Std (TreeMap TreeSet)

variable {α β : Type} {hypervisor origin after : Hypervisor} {busy dying : ContextId → Prop}

/-- A fact that depends only on what matters to the scheduling. -/
structure Stable (fact : Hypervisor → Prop) : Prop where
  uniform : ∀ hypervisor, fact hypervisor → hypervisor.machine.Uniform
  kindred : ∀ origin after, Kindred origin after → fact origin → fact after

/-- An action that changes nothing that matters to the scheduling. -/
def Silent (action : HypervisorAction α) : Prop :=
  ∀ origin, Ensures NotStuck (Kindred origin) action fun _ => Kindred origin

namespace Silent

theorem keeps {action : HypervisorAction α} {fact : Hypervisor → Prop} (silent : Silent action)
    (stable : Stable fact) : Ensures NotStuck fact action fun _ => fact := by
  apply Ensures.at_state
  intro state given
  apply (silent state).weaken
  · rintro _ rfl
    exact .refl (stable.uniform _ given)
  · exact fun _ after kindred => stable.kindred state after kindred given

theorem pure (answer : α) : Silent (pure answer) :=
  fun _ => .pure fun _ given => given

theorem bind {action : HypervisorAction α} {next : α → HypervisorAction β}
    (first : Silent action) (rest : ∀ answer, Silent (next answer)) : Silent (action >>= next) :=
  fun origin => (first origin).bind fun answer => rest answer origin

theorem get_bind {next : Hypervisor → HypervisorAction β} (rest : ∀ look, Silent (next look)) :
    Silent (get >>= next) :=
  fun origin => .get_bind fun look _ => (rest look origin).pre fun _ given => given.1

end Silent

/-- Discreet actions are silent. -/
theorem Discreet.silent {holder : ContextId} {told : α → Prop} {action : HypervisorAction α}
    (discreet : Discreet holder told action) : Silent action := by
  intro origin state kindred
  apply ends_iff_halts.mpr
  apply (discreet state kindred.uniform).mono
  · exact fun _ _ given => kindred.trans given.1.toKindred
  · exact fun _ _ given => given.2

/-- A context may be looked at. -/
theorem contextOf_bind {before : Hypervisor → Prop} {final : β → Hypervisor → Prop}
    (id : ContextId) {next : Context → HypervisorAction β}
    (rest : ∀ context, Ensures NotStuck
      (fun hypervisor => before hypervisor ∧ hypervisor.machine.context? id = some context)
      (next context) final) : Ensures NotStuck before (contextOf id >>= next) final := by
  have looks : Ensures NotStuck before (contextOf id) fun context hypervisor =>
      before hypervisor ∧ hypervisor.machine.context? id = some context := by
    intro hypervisor given
    rw [contextOf_apply]
    cases found : hypervisor.machine.context? id with
    | none => exact trivial
    | some context => exact ⟨given, found⟩
  exact looks.bind rest

end NestedMachine.Hypervisor
