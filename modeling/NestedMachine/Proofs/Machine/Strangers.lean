import NestedMachine.Proofs.Machine.Isolation

/-!
# Strangers are left as they are

An operation of the interpreter spares the contexts that it is not addressed to (`Spares`), but it
may cut their links, if they belong to the family of one that is removed.  A context that is not of
this family comes out of the operation with its links as well: it is untouched (`Untouched`), in its
whole record and in every byte that it sees.

There is one lemma for each operation, which says to whom the context has to be a stranger: to
nobody when a context is created, to the addressee when it runs, is copied, changed or gives back
its memory, and to the addressee and its family when it is removed.
-/

namespace NestedMachine.Interpreter

set_option autoImplicit false

open Std (TreeMap)

variable {capacity : Nat} {machine after : Interpreter} {id other : ContextId}

/-- A context that is there stays there as it was, and it sees the bytes that it saw. -/
def Untouched (other : ContextId) (before after : Interpreter) : Prop :=
  ∀ context, before.contexts[other]? = some context →
    after.contexts[other]? = some context ∧
      ∀ address, (after.memoryOf context).byteAt address =
        (before.memoryOf context).byteAt address

namespace Untouched

theorem trans {first second third : Interpreter} (left : Untouched other first second)
    (right : Untouched other second third) : Untouched other first third := by
  intro context found
  obtain ⟨found', bytes⟩ := left context found
  obtain ⟨found'', bytes'⟩ := right context found'
  exact ⟨found'', fun address => (bytes' address).trans (bytes address)⟩

/-- Who is spared is untouched if the entry in the table of contexts is. -/
theorem of_spares (spares : Spares other machine after)
    (kept : ∀ context, machine.contexts[other]? = some context →
      after.contexts[other]? = some context) : Untouched other machine after := by
  intro context found
  obtain ⟨context', found', -, bytes⟩ := spares context found
  obtain rfl := Option.some.inj ((kept context found).symm.trans found')
  exact ⟨found', bytes⟩

/-- Where frames are the same, whoever stays as it was is untouched. -/
theorem of_pool (pool : after.pool = machine.pool)
    (kept : ∀ context, machine.contexts[other]? = some context →
      after.contexts[other]? = some context) : Untouched other machine after := by
  apply of_spares ?_ kept
  exact spares_of_pool (fun context found => ⟨context, kept context found, .refl context⟩) pool

theorem refl (other : ContextId) (machine : Interpreter) : Untouched other machine machine :=
  of_pool rfl fun _ found => found

end Untouched

/-- A context that is neither parent nor child of another one does not see it removed. -/
theorem getElem?_unlink {contexts : TreeMap ContextId Context} {context : Context}
    (parent : context.parent ≠ some other) (child : other ∉ context.children) :
    (unlink contexts id context)[other]? = contexts[other]? := by
  have orphaned (children : List ContextId) (apart : other ∉ children)
      (table : TreeMap ContextId Context) :
      (children.foldl (fun table child =>
        table.modify child fun found => { found with parent := none }) table)[other]? =
        table[other]? := by
    induction children generalizing table with
    | nil => rfl
    | cons first rest ih =>
        rw [List.foldl_cons, ih fun member => apart (.tail _ member), Table.getElem?_modify, if_neg]
        rintro rfl
        exact apart (.head _)
  unfold unlink
  refine (orphaned _ (fun member => child (Std.TreeSet.mem_toList.mp member)) _).trans ?_
  split
  · rename_i above same
    rw [Table.getElem?_modify, if_neg]
    rintro rfl
    exact parent same
  · rfl

/-! ## Operations -/

namespace Sound

theorem untouched_keepMemory {context : Context} {memory : Memory}
    (kept : Memory.Sound (machine.around capacity id) memory) (different : id ≠ other) :
    Untouched other machine (machine.keepMemory id context memory) := by
  apply Untouched.of_spares (spares_keepMemory kept different)
  intro found there
  exact (Table.getElem?_insert ..).trans ((if_neg different).trans there)

theorem untouched_create (sound : machine.Sound capacity) (image : Image) (options : LoadOptions) :
    Untouched other machine (finalState (Interpreter.create image options machine)) := by
  apply Untouched.of_spares (sound.spares_create image options)
  intro context found
  cases result : Loading.load machine.nextId image options machine.pool machine.journal with
  | mk answer left =>
      obtain ⟨pool, journal⟩ := left
      cases answer with
      | error error =>
          rw [create_of_error result]
          exact found
      | ok begun =>
          rw [create_of_ok result]
          refine (Table.getElem?_insert ..).trans ((if_neg ?_).trans found)
          rintro rfl
          rw [sound.unused] at found
          cases found

theorem untouched_fork (sound : machine.Sound capacity) (different : id ≠ other) :
    Untouched other machine (finalState (Interpreter.fork id machine)) := by
  apply Untouched.of_spares sound.spares_fork
  intro context there
  have ends := forkEnds id machine
  generalize Interpreter.fork id machine = result at ends ⊢
  cases ends with
  | missing => exact there
  | refused => exact there
  | copied =>
      refine (Table.getElem?_modify ..).trans ((if_neg different).trans ?_)
      refine (Table.getElem?_insert ..).trans ((if_neg ?_).trans there)
      rintro rfl
      rw [sound.unused] at there
      cases there

theorem untouched_destroy (sound : machine.Sound capacity) (different : id ≠ other)
    (stranger : ∀ context, machine.contexts[id]? = some context →
      context.parent ≠ some other ∧ other ∉ context.children) :
    Untouched other machine (finalState (Interpreter.destroy id machine)) := by
  apply Untouched.of_spares (sound.spares_destroy different)
  intro context there
  cases found : machine.contexts[id]? with
  | none =>
      rw [destroy_of_none found]
      exact there
  | some gone =>
      rw [destroy_of_some found]
      obtain ⟨parent, child⟩ := stranger gone found
      refine (getElem?_unlink parent child).trans ?_
      rw [Table.getElem?_erase, if_neg different]
      exact there

theorem untouched_release (sound : machine.Sound capacity) (different : id ≠ other) :
    Untouched other machine (finalState (Interpreter.release id machine)) := by
  apply Untouched.of_spares (sound.spares_release different)
  intro context there
  cases found : machine.contexts[id]? with
  | none =>
      rw [release_of_none found]
      exact there
  | some context =>
      rw [release_of_some found]
      exact (Table.getElem?_insert ..).trans ((if_neg different).trans there)

theorem untouched_switch (sound : machine.Sound capacity) (different : id ≠ other)
    (quantum : Nat) :
    Untouched other machine (finalState (Interpreter.switch id quantum machine)) := by
  apply Untouched.of_spares (sound.spares_switch different quantum)
  intro context there
  have kept (runner : Context) :
      (machine.keepRun id runner (machine.runOf runner quantum)).contexts[other]? = some context :=
    (Table.getElem?_insert ..).trans ((if_neg different).trans there)
  have ends := switchEnds id quantum machine
  generalize Interpreter.switch id quantum machine = result at ends ⊢
  cases ends with
  | missing => exact there
  | exited => exact there
  | trapped => exact kept _
  | ranDry => exact kept _

theorem untouched_withMemory {α : Type} {action : MemoryAction α} (sound : machine.Sound capacity)
    (careful : ∀ around memory, Memory.Sound around memory →
      Memory.Sound around (finalState (action memory))) (different : id ≠ other) :
    Untouched other machine (machine.withMemory id action).2 := by
  cases found : machine.contexts[id]? with
  | none =>
      rw [withMemory_of_none found]
      exact .refl other machine
  | some context =>
      rw [withMemory_of_some found]
      exact untouched_keepMemory (careful _ _ (sound.memory found machine.journal)) different

end Sound

theorem untouched_modifyContext (different : id ≠ other) (change : Context → Context) :
    Untouched other machine (machine.modifyContext id change) := by
  refine Untouched.of_pool rfl fun context there => ?_
  exact (Table.getElem?_modify ..).trans ((if_neg different).trans there)

end NestedMachine.Interpreter
