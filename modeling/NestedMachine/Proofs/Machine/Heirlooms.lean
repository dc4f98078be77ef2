import NestedMachine.Proofs.Machine.Guests
import NestedMachine.Proofs.Machine.Isolation

/-!
# What contexts keep and hand on

Much of what is known of a context concerns its memory alone, that is its address space and the
bytes that are seen in it.  Such a property is an heirloom if the accesses of guests and of their
supervisors keep it, and if a copy of a memory has it too (`Memory.Heirloom`).

A context that has it (`Interpreter.Has`) keeps it then, whatever is done to the context itself
(`Interpreter.Sound.has_switch`, `Interpreter.Sound.has_withMemory`) or to others
(`Interpreter.Has.of_spares`), and hands it on to its copies (`Interpreter.Sound.has_of_fork`).  It
loses it only with its memory.
-/

namespace NestedMachine

set_option autoImplicit false

open Memory (Checked Copied)

variable {holds : Memory → Prop}

/-- A property of what is seen of a memory, which guests, supervisors and copies keep. -/
structure Memory.Heirloom (holds : Memory → Prop) : Prop where
  seen : ∀ {space pool pool' journal journal'}, holds ⟨space, pool, journal⟩ →
    (∀ address, Memory.byteAt ⟨space, pool', journal'⟩ address =
      Memory.byteAt ⟨space, pool, journal⟩ address) → holds ⟨space, pool', journal'⟩
  checked : ∀ around, Checked fun memory => memory.Sound around ∧ holds memory
  mapAll : ∀ around, Keeps (fun memory => memory.Sound around ∧ holds memory) mapAll
  setProgramBreak : ∀ around programBreak,
    Keeps (fun memory => memory.Sound around ∧ holds memory) (setProgramBreak programBreak)
  copied : ∀ {around source after pool journal}, Copied around source after →
    (∀ frame ∈ source.table.frames, around.contents frame = pool.contents frame) →
    holds ⟨source, pool, journal⟩ → holds after

namespace Interpreter

variable {capacity : Nat} {machine after : Interpreter} {id other : ContextId}

/-- A context is there, and its memory has a property. -/
def Has (holds : Memory → Prop) (id : ContextId) (machine : Interpreter) : Prop :=
  ∃ context, machine.contexts[id]? = some context ∧ holds (machine.memoryOf context)

/-- Whoever is spared keeps what it has. -/
theorem Has.of_spares (has : machine.Has holds other) (heirloom : Memory.Heirloom holds)
    (spares : Spares other machine after) : after.Has holds other := by
  obtain ⟨context, found, held⟩ := has
  obtain ⟨context', found', same, bytes⟩ := spares context found
  have shown : holds ⟨context'.space, after.pool, after.journal⟩ := by
    have shows (address : Nat) : Memory.byteAt ⟨context.space, after.pool, after.journal⟩ address =
        (machine.memoryOf context).byteAt address := by
      rw [← same.space]
      exact bytes address
    rw [same.space]
    exact heirloom.seen held shows
  exact ⟨context', found', shown⟩

/-- Nothing matters but the pool and the address space. -/
theorem Has.congr (has : machine.Has holds other) (heirloom : Memory.Heirloom holds)
    (pool : after.pool = machine.pool)
    (spaces : spaceIn after.contexts other = spaceIn machine.contexts other) :
    after.Has holds other := by
  obtain ⟨context, found, held⟩ := has
  have placed : spaceIn after.contexts other = some context.space := by
    rw [spaces, spaceIn, found]
    rfl
  obtain ⟨context', found', same⟩ := Option.map_eq_some_iff.mp placed
  have shown : holds ⟨context'.space, after.pool, after.journal⟩ := by
    rw [same, pool]
    exact heirloom.seen held fun _ => rfl
  exact ⟨context', found', shown⟩

theorem has_keepMemory (heirloom : Memory.Heirloom holds) {memory : Memory} (context : Context)
    (held : holds memory) : (machine.keepMemory id context memory).Has holds id :=
  ⟨{ context with space := memory.space }, (Table.getElem?_insert ..).trans (if_pos rfl),
    heirloom.seen held fun _ => rfl⟩

namespace Sound

/-- **A run leaves to everyone what they have.** -/
theorem has_switch (sound : machine.Sound capacity) (heirloom : Memory.Heirloom holds)
    (has : machine.Has holds other) (id : ContextId) (quantum : Nat) :
    (finalState (Interpreter.switch id quantum machine)).Has holds other := by
  by_cases different : id = other
  · subst different
    have kept {context : Context} (found : machine.contexts[id]? = some context) :
        (machine.keepRun id context (machine.runOf context quantum)).Has holds id := by
      obtain ⟨_, there, held⟩ := has
      obtain rfl := Option.some.inj (found.symm.trans there)
      have ran := Hart.run_checked (heirloom.checked _) machine.tracing quantum context.hart 0
        ⟨sound.memory found machine.journal, held⟩
      exact ⟨_, (Table.getElem?_insert ..).trans (if_pos rfl), heirloom.seen ran.2 fun _ => rfl⟩
    have ends := switchEnds id quantum machine
    generalize Interpreter.switch id quantum machine = result at ends ⊢
    cases ends with
    | missing => exact has
    | exited => exact has
    | trapped found _ _ => exact kept found
    | ranDry found _ _ => exact kept found
  · exact has.of_spares heirloom (sound.spares_switch different quantum)

/-- **What supervisors do to a memory leaves to everyone what they have.** -/
theorem has_withMemory {α : Type} {action : MemoryAction α} (sound : machine.Sound capacity)
    (heirloom : Memory.Heirloom holds) (has : machine.Has holds other)
    (courteous : Memory.Courteous action) (id : ContextId) :
    (machine.withMemory id action).2.Has holds other := by
  by_cases different : id = other
  · subst different
    obtain ⟨context, found, held⟩ := has
    have keeps := courteous _ (heirloom.checked (machine.around capacity id)) (heirloom.mapAll _)
      (heirloom.setProgramBreak _)
    have kept := keeps.finalState ⟨sound.memory found machine.journal, held⟩
    rw [withMemory_of_some found]
    exact has_keepMemory heirloom context kept.2
  · cases found : machine.contexts[id]? with
    | none =>
        rw [withMemory_of_none found]
        exact has
    | some context =>
        rw [withMemory_of_some found]
        exact has.of_spares heirloom (spares_keepMemory
          (courteous.keeps_sound (sound.memory found machine.journal)) different)

/-- **A copy of a context has what the context has.** -/
theorem has_of_fork (sound : machine.Sound capacity) (heirloom : Memory.Heirloom holds)
    {child : ContextId} (forked : Interpreter.fork id machine = .ok (some child) after)
    (has : machine.Has holds id) : after.Has holds child := by
  have ends := forkEnds id machine
  rw [forked] at ends
  cases ends with
  | @copied source memory found copied =>
      obtain ⟨_, there, held⟩ := has
      obtain rfl := Option.some.inj (found.symm.trans there)
      have held' : holds memory :=
        heirloom.copied (sound.copied found copied) (fun _ _ => rfl) held
      have begun : Has holds machine.nextId
          (adopt { machine with pool := memory.pool, journal := memory.journal }
            (forkOf id source memory.space)) :=
        ⟨_, (Table.getElem?_insert ..).trans (if_pos rfl), heirloom.seen held' fun _ => rfl⟩
      refine begun.congr heirloom rfl (spaceIn_modify ?_ _)
      exact fun _ => rfl

end Sound

end Interpreter

end NestedMachine
