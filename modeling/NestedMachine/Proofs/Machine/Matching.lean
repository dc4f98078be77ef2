import NestedMachine.Proofs.Machine.Journals

/-!
# Counters and journals do not matter

Interpreters match if they have the same frames and the same contexts, whatever they have counted
and noted (`Interpreter.Matches`).  Nothing that is done to a context depends on a counter or on the
journal, so that it has the same outcome on both sides, errors included, and leaves interpreters
that match.
-/

namespace NestedMachine

set_option autoImplicit false

open Std (TreeMap)

variable {α : Type}

/-- Journals that need have nothing in common. -/
def JournalView.any : JournalView where
  alike _ _ := True
  same _ _ := True
  refl _ := trivial
  add _ _ := trivial
  guest _ same := same

/-- Memories over the same frames with the same pages. -/
theorem Memory.sameBut_any {left right : Memory} (space : left.space = right.space)
    (pool : left.pool = right.pool) : Memory.SameBut .any left right :=
  ⟨space, pool, trivial⟩

namespace Interpreter

variable {left middle right machine : Interpreter} {id : ContextId}

/-! ## Interpreters that match -/

/-- Interpreters with the same frames and the same contexts. -/
structure Matches (left right : Interpreter) : Prop where
  pool : left.pool = right.pool
  nextId : left.nextId = right.nextId
  tracing : left.tracing = right.tracing
  contexts : ∀ id : ContextId, left.contexts[id]? = right.contexts[id]?

namespace Matches

theorem refl (machine : Interpreter) : Matches machine machine :=
  ⟨rfl, rfl, rfl, fun _ => rfl⟩

theorem symm (states : Matches left right) : Matches right left :=
  ⟨states.pool.symm, states.nextId.symm, states.tracing.symm, fun id => (states.contexts id).symm⟩

theorem trans (first : Matches left middle) (second : Matches middle right) : Matches left right :=
  ⟨first.pool.trans second.pool, first.nextId.trans second.nextId,
    first.tracing.trans second.tracing, fun id => (first.contexts id).trans (second.contexts id)⟩

theorem modifyContext (states : Matches left right) (id : ContextId)
    (change : Context → Context) :
    Matches (left.modifyContext id change) (right.modifyContext id change) := by
  refine ⟨states.pool, states.nextId, states.tracing, fun other => ?_⟩
  show (left.contexts.modify id change)[other]? = (right.contexts.modify id change)[other]?
  rw [Table.getElem?_modify, Table.getElem?_modify, states.contexts]

/-- A context that is changed twice, and is then as it was before. -/
theorem changed_back {context : Context} (found : machine.contexts[id]? = some context)
    {change back : Context → Context} (same : back (change context) = context) :
    Matches machine ((machine.modifyContext id change).modifyContext id back) := by
  refine ⟨rfl, rfl, rfl, fun other => ?_⟩
  show _ = ((machine.contexts.modify id change).modify id back)[other]?
  rw [Table.getElem?_modify, Table.getElem?_modify]
  split
  · rename_i here
    rw [← here, found, Option.map_some, Option.map_some, same]
  · rfl

/-- Journals do not matter. -/
theorem journals (states : Matches left right) (journal journal' : Journal) :
    Matches { left with journal } { right with journal := journal' } :=
  ⟨states.pool, states.nextId, states.tracing, states.contexts⟩

/-- The memories of a context on both sides. -/
theorem memory (states : Matches left right) (context : Context) :
    Memory.SameBut .any (left.memoryOf context) (right.memoryOf context) :=
  Memory.sameBut_any rfl states.pool

/-- The same context is put in the same place. -/
theorem put (states : Matches left right) (id : ContextId) (context : Context)
    (other : ContextId) :
    (left.contexts.insert id context)[other]? = (right.contexts.insert id context)[other]? := by
  rw [Table.getElem?_insert, Table.getElem?_insert, states.contexts]

theorem keepMemory (states : Matches left right) (id : ContextId) (context : Context)
    {memory memory' : Memory} (same : Memory.SameBut .any memory memory') :
    Matches (left.keepMemory id context memory) (right.keepMemory id context memory') := by
  refine ⟨same.pool, states.nextId, states.tracing, fun other => ?_⟩
  unfold Interpreter.keepMemory
  rw [same.space]
  exact states.put id _ other

theorem adopt (states : Matches left right) (context : Context) {pool : FramePool}
    (journal journal' : Journal) :
    Matches (Interpreter.adopt { left with pool, journal } context)
      (Interpreter.adopt { right with pool, journal := journal' } context) := by
  refine ⟨rfl, congrArg (· + 1) states.nextId, states.tracing, fun other => ?_⟩
  unfold Interpreter.adopt
  dsimp only
  rw [← states.nextId]
  exact states.put _ context other

end Matches

/-- The same links are cut in tables with the same contexts. -/
theorem unlink_congr {contexts contexts' : TreeMap ContextId Context}
    (same : ∀ id : ContextId, contexts[id]? = contexts'[id]?) (id : ContextId) (context : Context)
    (other : ContextId) :
    (unlink contexts id context)[other]? = (unlink contexts' id context)[other]? := by
  have changed (key : ContextId) (change : Context → Context)
      {first second : TreeMap ContextId Context}
      (same : ∀ id : ContextId, first[id]? = second[id]?) (id : ContextId) :
      (first.modify key change)[id]? = (second.modify key change)[id]? := by
    rw [Table.getElem?_modify, Table.getElem?_modify, same]
  have orphaned (children : List ContextId) (first second : TreeMap ContextId Context)
      (same : ∀ id : ContextId, first[id]? = second[id]?) (id : ContextId) :
      (children.foldl (fun contexts child =>
          contexts.modify child fun child => { child with parent := none }) first)[id]? =
        (children.foldl (fun contexts child =>
          contexts.modify child fun child => { child with parent := none }) second)[id]? := by
    induction children generalizing first second with
    | nil => exact same id
    | cons child rest ih => exact ih _ _ (changed child _ same)
  unfold unlink
  refine orphaned _ _ _ (fun id => ?_) other
  split
  · exact changed _ _ same id
  · exact same id

/-! ## Operations on contexts -/

theorem agrees_fork_matching (parent : ContextId) :
    Agrees (fun _ => False) Matches Eq (fork parent) (fork parent) := by
  intro left right states
  cases found : left.contexts[parent]? with
  | none =>
      rw [fork_of_none found, fork_of_none ((states.contexts parent).symm.trans found)]
      exact .failure states
  | some source =>
      have found' := (states.contexts parent).symm.trans found
      have copies := Memory.agrees_copyFrom .any source.space (left.blankCopy source)
        (right.blankCopy source) (Memory.sameBut_any rfl states.pool)
      generalize first : Memory.copyFrom source.space (left.blankCopy source) = copied at copies
      generalize second : Memory.copyFrom source.space (right.blankCopy source) = copied' at copies
      cases copies with
      | @answer _ _ memory memory' alike same =>
          have adopted := @Matches.adopt _ _ states (forkOf parent source memory'.space)
            memory'.pool memory.journal memory'.journal
          have linked := adopted.modifyContext parent fun context =>
            { context with children := context.children.insert right.nextId }
          rw [fork_of_ok found first, fork_of_ok found' second, same.space, same.pool]
          refine .answer (congrArg some states.nextId) ?_
          simpa only [addChild, states.nextId] using linked
      | failure same =>
          rw [fork_of_error found first, fork_of_error found' second]
          exact .answer rfl ⟨same.pool, states.nextId, states.tracing, states.contexts⟩
      | excuse reason => exact reason.elim

theorem agrees_release_matching (id : ContextId) :
    Agrees (fun _ => False) Matches Eq (release id) (release id) := by
  intro left right states
  cases found : left.contexts[id]? with
  | none =>
      rw [release_of_none found, release_of_none ((states.contexts id).symm.trans found)]
      exact .failure states
  | some context =>
      have freed := Memory.sameBut_freed .any (states.memory context)
      rw [release_of_some found, release_of_some ((states.contexts id).symm.trans found)]
      exact .answer freed.1 (states.keepMemory id context freed.2)

theorem agrees_destroy_matching (id : ContextId) :
    Agrees (fun _ => False) Matches Eq (destroy id) (destroy id) := by
  intro left right states
  cases found : left.contexts[id]? with
  | none =>
      rw [destroy_of_none found, destroy_of_none ((states.contexts id).symm.trans found)]
      exact .failure states
  | some context =>
      have freed := Memory.sameBut_freed .any (states.memory context)
      rw [destroy_of_some found, destroy_of_some ((states.contexts id).symm.trans found)]
      refine .answer rfl ⟨freed.2.pool, states.nextId, states.tracing,
        unlink_congr (fun other => ?_) id context⟩
      rw [Table.getElem?_erase, Table.getElem?_erase, states.contexts]

/-- Two switches have the same outcome if the runs end alike, with the same context after them. -/
theorem agree_switch (nextId : left.nextId = right.nextId) (tracing : left.tracing = right.tracing)
    (others : ∀ other, id ≠ other → left.contexts[other]? = right.contexts[other]?)
    {context context' : Context} {quantum quantum' : Nat}
    (found : left.contexts[id]? = some context) (found' : right.contexts[id]? = some context')
    (live : context.state ≠ .exited) (live' : context'.state ≠ .exited)
    (ending : (left.runOf context quantum).ending = (right.runOf context' quantum').ending)
    (pool : (left.runOf context quantum).memory.pool = (right.runOf context' quantum').memory.pool)
    (after : afterRun context (left.runOf context quantum) =
      afterRun context' (right.runOf context' quantum')) :
    Agree (fun _ => False) Matches Eq (switch id quantum left) (switch id quantum' right) := by
  have kept (other : ContextId) :
      (left.contexts.insert id (afterRun context (left.runOf context quantum)))[other]? =
        (right.contexts.insert id (afterRun context' (right.runOf context' quantum')))[other]? := by
    rw [Table.getElem?_insert, Table.getElem?_insert, after]
    split
    · rfl
    · exact others other ‹_›
  cases ended : (left.runOf context quantum).ending with
  | trap trap =>
      rw [switch_of_trap found live ended, switch_of_trap found' live' (ending.symm.trans ended)]
      exact .answer rfl ⟨pool, nextId, tracing, kept⟩
  | outOfFrames =>
      have hart : (left.runOf context quantum).hart = (right.runOf context' quantum').hart :=
        congrArg Context.hart after
      rw [switch_of_outOfFrames found live ended,
        switch_of_outOfFrames found' live' (ending.symm.trans ended), hart]
      exact .failure ⟨pool, nextId, tracing, kept⟩

theorem agrees_switch_matching (id : ContextId) (quantum : Nat) :
    Agrees (fun _ => False) Matches Eq (switch id quantum) (switch id quantum) := by
  intro left right states
  cases found : left.contexts[id]? with
  | none =>
      rw [switch_of_none found, switch_of_none ((states.contexts id).symm.trans found)]
      exact .failure states
  | some context =>
      have found' := (states.contexts id).symm.trans found
      by_cases exited : context.state = .exited
      · rw [switch_of_exited found exited, switch_of_exited found' exited]
        exact .failure states
      · have runs : Hart.RunsAgree (fun _ => False) (Memory.SameBut .any)
            (left.runOf context quantum) (right.runOf context quantum) := by
          unfold runOf
          rw [states.tracing]
          exact Hart.run_agrees (Memory.respected_sameBut .any) right.tracing quantum context.hart 0
            (states.memory context)
        have agree := @agree_switch left right id states.nextId states.tracing
          (fun other _ => states.contexts other) context context quantum quantum found found' exited
          exited
        generalize left.runOf context quantum = result at runs agree
        generalize right.runOf context quantum = result' at runs agree
        cases runs with
        | same same =>
            refine agree rfl same.pool ?_
            unfold afterRun
            rw [same.space]
        | excuse reason => exact reason.elim

/-- A context that has been switched to is there, in the state that it was in. -/
theorem state_of_switch {quantum : Nat} {trap : Trap}
    (run : switch id quantum machine = .ok trap middle) :
    ∃ context later, machine.contexts[id]? = some context ∧ middle.contexts[id]? = some later ∧
      later.state = context.state := by
  have ends := switchEnds id quantum machine
  rw [run] at ends
  cases ends with
  | trapped found _ _ =>
      exact ⟨_, _, found, (Table.getElem?_insert ..).trans (if_pos rfl), rfl⟩

/-- A context that is switched to for no instruction stays as it is. -/
theorem switch_zero {context : Context} (found : machine.contexts[id]? = some context)
    (live : context.state ≠ .exited) :
    ∃ after, switch id 0 machine = .ok .timerInterrupt after ∧ Matches machine after := by
  refine ⟨_, switch_of_trap found live rfl, rfl, rfl, rfl, fun other => ?_⟩
  refine Eq.trans ?_ (Table.getElem?_insert ..).symm
  split
  · rename_i same
    rw [← same, found]
    rfl
  · rfl

/-- **An access to memory has the same answer.** -/
theorem withMemory_matching {action : MemoryAction α}
    (agrees : Agrees (fun _ => False) (Memory.SameBut .any) Eq action action) (id : ContextId)
    (states : Matches left right) :
    (left.withMemory id action).1 = (right.withMemory id action).1 ∧
      Matches (left.withMemory id action).2 (right.withMemory id action).2 := by
  cases found : left.contexts[id]? with
  | none =>
      rw [withMemory_of_none found, withMemory_of_none ((states.contexts id).symm.trans found)]
      exact ⟨rfl, states⟩
  | some context =>
      rw [withMemory_of_some found, withMemory_of_some ((states.contexts id).symm.trans found)]
      have outcomes := agrees _ _ (states.memory context)
      generalize action (left.memoryOf context) = first at outcomes
      generalize action (right.memoryOf context) = second at outcomes
      cases outcomes with
      | answer alike same => exact ⟨by rw [alike]; rfl, states.keepMemory id context same⟩
      | failure same => exact ⟨rfl, states.keepMemory id context same⟩
      | excuse reason => exact reason.elim

end Interpreter

end NestedMachine
