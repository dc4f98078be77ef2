import NestedMachine.Machine.Interpreter
import NestedMachine.Proofs.Action
import NestedMachine.Proofs.Table

/-!
# What the interpreter does

One equation for each way in which an operation of the interpreter can end.  An operation on a
context that is not there changes nothing; any other is told by what happened to the memory of the
context.  For the two operations that can end in many ways, a fork and a switch, the ways are listed
as well (`ForkEnds`, `SwitchEnds`).  Whoever reasons about the interpreter uses these and not the
definitions.
-/

namespace NestedMachine

set_option autoImplicit false

/-! ## Contexts apart from their address spaces -/

/-- Contexts that differ only in their address spaces. -/
def Context.Alike (left right : Context) : Prop := right = { left with space := right.space }

theorem Context.Alike.refl (context : Context) : Context.Alike context context := rfl

theorem Context.Alike.eq {left right : Context} (alike : left.Alike right) :
    right = { left with space := right.space } := alike

theorem Context.Alike.symm {left right : Context} (alike : left.Alike right) :
    right.Alike left := by
  rw [alike.eq]
  exact .refl left

theorem Context.Alike.trans {first second third : Context} (left : first.Alike second)
    (right : second.Alike third) : first.Alike third := by
  rw [right.eq, left.eq]
  exact rfl

theorem Context.Alike.state {left right : Context} (alike : left.Alike right) :
    right.state = left.state := by
  rw [alike.eq]

theorem Context.Alike.hart {left right : Context} (alike : left.Alike right) :
    right.hart = left.hart := by
  rw [alike.eq]

/-- A change of a context that neither looks at its address space nor changes it. -/
def Context.SpaceBlind (change : Context → Context) : Prop :=
  ∀ context space, change { context with space } = { change context with space }

theorem Context.SpaceBlind.space {change : Context → Context} (blind : SpaceBlind change)
    (context : Context) : (change context).space = context.space := by
  have kept := congrArg Context.space (blind context context.space)
  exact kept

theorem Context.Alike.change {left right : Context} (alike : left.Alike right)
    {change : Context → Context} (blind : SpaceBlind change) :
    (change left).Alike (change right) := by
  have changed := blind left right.space
  rw [← alike.eq] at changed
  have space : (change right).space = right.space := blind.space right
  show change right = _
  rw [space]
  exact changed

namespace Interpreter

open Std (TreeMap)

variable {machine : Interpreter} {id : ContextId} {context : Context}

/-! ## Changing one context -/

/-- The machine after the memory of a context has changed, and the context with it. -/
def keepMemory (machine : Interpreter) (id : ContextId) (context : Context) (memory : Memory) :
    Interpreter :=
  { machine with
    pool := memory.pool
    contexts := machine.contexts.insert id { context with space := memory.space }
    journal := memory.journal }

/-- The memory of a context. -/
def memoryOf (machine : Interpreter) (context : Context) : Memory :=
  ⟨context.space, machine.pool, machine.journal⟩

theorem withMemory_of_none {α : Type} {action : MemoryAction α}
    (missing : machine.contexts[id]? = none) : machine.withMemory id action = (none, machine) := by
  cases machine
  dsimp only at missing
  simp only [withMemory, missing]

theorem withMemory_of_some {α : Type} {action : MemoryAction α}
    (found : machine.contexts[id]? = some context) :
    machine.withMemory id action =
      (some (answerOf (action (machine.memoryOf context))),
        machine.keepMemory id context (finalState (action (machine.memoryOf context)))) := by
  cases machine
  dsimp only at found
  simp only [withMemory, found, memoryOf, keepMemory]
  split <;> rename_i result <;> rw [result] <;> rfl

/-! ## Creating and removing contexts -/

theorem create_of_ok {image : Image} {options : LoadOptions} {pool : FramePool}
    {journal : Journal} (loaded : Loading.load machine.nextId image options machine.pool
      machine.journal = (.ok context, pool, journal)) :
    create image options machine =
      .ok machine.nextId (adopt { machine with pool, journal } context) := by
  cases machine
  dsimp only at loaded
  simp only [create, loaded]

theorem create_of_error {image : Image} {options : LoadOptions} {pool : FramePool}
    {journal : Journal} {error : HostError} (failed : Loading.load machine.nextId image options
      machine.pool machine.journal = (.error error, pool, journal)) :
    create image options machine =
      .error error { machine with pool, journal, nextId := machine.nextId + 1 } := by
  cases machine
  dsimp only at failed
  simp only [create, failed]

theorem fork_of_none (missing : machine.contexts[id]? = none) :
    fork id machine = .error (.unknownContext id) machine := by
  cases machine
  dsimp only at missing
  simp only [fork, missing]

/-- The memory in which a copy of a context begins. -/
def blankCopy (machine : Interpreter) (context : Context) : Memory :=
  ⟨context.space.emptyCopy, machine.pool, machine.journal⟩

theorem fork_of_ok {memory : Memory} (found : machine.contexts[id]? = some context)
    (copied : Memory.copyFrom context.space (machine.blankCopy context) = .ok () memory) :
    fork id machine = .ok (some machine.nextId)
      ((adopt { machine with pool := memory.pool, journal := memory.journal }
        (forkOf id context memory.space)).addChild id machine.nextId) := by
  cases machine
  dsimp only [blankCopy] at found copied
  simp only [fork, found, copied]

theorem fork_of_error {memory : Memory} {fault : Fault}
    (found : machine.contexts[id]? = some context)
    (refused : Memory.copyFrom context.space (machine.blankCopy context) = .error fault memory) :
    fork id machine =
      .ok none { machine with pool := memory.pool, journal := memory.journal } := by
  cases machine
  dsimp only [blankCopy] at found refused
  simp only [fork, found, refused]

/-- The ways in which a fork ends, each with what has led there. -/
inductive ForkEnds (id : ContextId) (machine : Interpreter) :
    EStateM.Result HostError Interpreter (Option ContextId) → Prop where
  /-- There is no context to copy. -/
  | missing (missing : machine.contexts[id]? = none) :
      ForkEnds id machine (.error (.unknownContext id) machine)
  /-- The memory is copied. -/
  | copied {context : Context} {memory : Memory} (found : machine.contexts[id]? = some context)
      (copied : Memory.copyFrom context.space (machine.blankCopy context) = .ok () memory) :
      ForkEnds id machine (.ok (some machine.nextId)
        ((adopt { machine with pool := memory.pool, journal := memory.journal }
          (forkOf id context memory.space)).addChild id machine.nextId))
  /-- The memory cannot be copied. -/
  | refused {context : Context} {memory : Memory} {fault : Fault}
      (found : machine.contexts[id]? = some context)
      (refused : Memory.copyFrom context.space (machine.blankCopy context) =
        .error fault memory) :
      ForkEnds id machine
        (.ok none { machine with pool := memory.pool, journal := memory.journal })

theorem forkEnds (id : ContextId) (machine : Interpreter) :
    ForkEnds id machine (fork id machine) := by
  cases found : machine.contexts[id]? with
  | none =>
      rw [fork_of_none found]
      exact .missing found
  | some context =>
      cases copied : Memory.copyFrom context.space (machine.blankCopy context) with
      | ok _ memory =>
          rw [fork_of_ok found copied]
          exact .copied found copied
      | error fault memory =>
          rw [fork_of_error found copied]
          exact .refused found copied

theorem release_of_none (missing : machine.contexts[id]? = none) :
    release id machine = .error (.unknownContext id) machine := by
  cases machine
  dsimp only at missing
  simp only [release, missing]

theorem release_of_some (found : machine.contexts[id]? = some context) :
    release id machine = .ok (machine.memoryOf context).freed.1
      (machine.keepMemory id context (machine.memoryOf context).freed.2) := by
  cases machine
  dsimp only at found
  simp only [release, found, memoryOf, keepMemory]

theorem destroy_of_none (missing : machine.contexts[id]? = none) :
    destroy id machine = .error (.unknownContext id) machine := by
  cases machine
  dsimp only at missing
  simp only [destroy, missing]

theorem destroy_of_some (found : machine.contexts[id]? = some context) :
    destroy id machine = .ok () { machine with
      pool := (machine.memoryOf context).freed.2.pool
      contexts := unlink (machine.contexts.erase id) id context } := by
  cases machine
  dsimp only at found
  simp only [destroy, found, memoryOf]
  rfl

/-! ## Running -/

theorem switch_of_none {quantum : Nat} (missing : machine.contexts[id]? = none) :
    switch id quantum machine = .error (.unknownContext id) machine := by
  cases machine
  dsimp only at missing
  simp only [switch, missing]

theorem switch_of_exited {quantum : Nat} (found : machine.contexts[id]? = some context)
    (exited : context.state = .exited) :
    switch id quantum machine =
      .error (.schedulerInvariant id context.hart.pc .switchedToExited) machine := by
  cases machine
  dsimp only at found
  simp only [switch, found, if_pos exited]

/-- The run of a context for at most `quantum` instructions. -/
def runOf (machine : Interpreter) (context : Context) (quantum : Nat) : Hart.RunResult :=
  context.hart.run machine.tracing quantum 0 (machine.memoryOf context)

/-- The machine after a context has run. -/
def keepRun (machine : Interpreter) (id : ContextId) (context : Context)
    (result : Hart.RunResult) : Interpreter :=
  { machine with
    pool := result.memory.pool
    contexts := machine.contexts.insert id (afterRun context result)
    journal := result.memory.journal }

/-- The machine after a context has run into a trap, which is counted. -/
def keepTrap (machine : Interpreter) (id : ContextId) (context : Context)
    (result : Hart.RunResult) : Interpreter :=
  { machine.keepRun id context result with
    counters := countRun machine.counters result.retired
      (result.memory.space.pageFaults - context.space.pageFaults) result.memory.pool.peak }

theorem switch_of_trap {quantum : Nat} {trap : Trap}
    (found : machine.contexts[id]? = some context) (live : context.state ≠ .exited)
    (ended : (machine.runOf context quantum).ending = .trap trap) :
    switch id quantum machine =
      .ok trap (machine.keepTrap id context (machine.runOf context quantum)) := by
  cases machine
  dsimp only [runOf, memoryOf] at found ended
  simp only [switch, found, if_neg live, ended, runOf, memoryOf, keepTrap, keepRun]

theorem switch_of_outOfFrames {quantum : Nat} (found : machine.contexts[id]? = some context)
    (live : context.state ≠ .exited)
    (ended : (machine.runOf context quantum).ending = .outOfFrames) :
    switch id quantum machine =
      .error (.memoryExhausted id (machine.runOf context quantum).hart.pc)
        (machine.keepRun id context (machine.runOf context quantum)) := by
  cases machine
  dsimp only [runOf, memoryOf] at found ended
  simp only [switch, found, if_neg live, ended, runOf, memoryOf, keepRun]

/-- The ways in which a switch to a context ends, each with what has led there. -/
inductive SwitchEnds (id : ContextId) (quantum : Nat) (machine : Interpreter) :
    EStateM.Result HostError Interpreter Trap → Prop where
  /-- There is no context to run. -/
  | missing (missing : machine.contexts[id]? = none) :
      SwitchEnds id quantum machine (.error (.unknownContext id) machine)
  /-- The context has ended before. -/
  | exited {context : Context} (found : machine.contexts[id]? = some context)
      (exited : context.state = .exited) :
      SwitchEnds id quantum machine
        (.error (.schedulerInvariant id context.hart.pc .switchedToExited) machine)
  /-- The context runs into a trap. -/
  | trapped {context : Context} {trap : Trap} (found : machine.contexts[id]? = some context)
      (live : context.state ≠ .exited)
      (ended : (machine.runOf context quantum).ending = .trap trap) :
      SwitchEnds id quantum machine
        (.ok trap (machine.keepTrap id context (machine.runOf context quantum)))
  /-- The pool runs dry under the context. -/
  | ranDry {context : Context} (found : machine.contexts[id]? = some context)
      (live : context.state ≠ .exited)
      (ended : (machine.runOf context quantum).ending = .outOfFrames) :
      SwitchEnds id quantum machine
        (.error (.memoryExhausted id (machine.runOf context quantum).hart.pc)
          (machine.keepRun id context (machine.runOf context quantum)))

theorem switchEnds (id : ContextId) (quantum : Nat) (machine : Interpreter) :
    SwitchEnds id quantum machine (switch id quantum machine) := by
  cases found : machine.contexts[id]? with
  | none =>
      rw [switch_of_none found]
      exact .missing found
  | some context =>
      by_cases exited : context.state = .exited
      · rw [switch_of_exited found exited]
        exact .exited found exited
      · cases ended : (machine.runOf context quantum).ending with
        | trap trap =>
            rw [switch_of_trap found exited ended]
            exact .trapped found exited ended
        | outOfFrames =>
            rw [switch_of_outOfFrames found exited ended]
            exact .ranDry found exited ended

/-! ## Address spaces by number -/

/-- The address space of a context. -/
def spaceIn (contexts : TreeMap ContextId Context) (id : ContextId) : Option AddressSpace :=
  contexts[id]?.map Context.space

theorem map_modify {β : Type} {view : Context → β} {contexts : TreeMap ContextId Context}
    {id : ContextId} {change : Context → Context}
    (blind : ∀ context, view (change context) = view context) (other : ContextId) :
    (contexts.modify id change)[other]?.map view = contexts[other]?.map view := by
  rw [Table.getElem?_modify]
  split
  · cases contexts[other]? with
    | none => rfl
    | some context => exact congrArg some (blind context)
  · rfl

theorem spaceIn_modify {contexts : TreeMap ContextId Context} {id : ContextId}
    {change : Context → Context} (space : ∀ context, (change context).space = context.space)
    (other : ContextId) : spaceIn (contexts.modify id change) other = spaceIn contexts other :=
  map_modify space other

/-- Cutting the links of a family concerns nothing but families. -/
theorem map_unlink {β : Type} {view : Context → β}
    (blind : ∀ context parent children, view { context with parent, children } = view context)
    (contexts : TreeMap ContextId Context) (id : ContextId) (context : Context)
    (other : ContextId) :
    (unlink contexts id context)[other]?.map view = contexts[other]?.map view := by
  have orphaned (children : List ContextId) (table : TreeMap ContextId Context) :
      (children.foldl (fun table child =>
        table.modify child fun found => { found with parent := none }) table)[other]?.map view =
        table[other]?.map view := by
    induction children generalizing table with
    | nil => rfl
    | cons child rest ih => exact (ih _).trans (map_modify (fun found => blind found none _) other)
  unfold unlink
  refine (orphaned _ _).trans ?_
  split
  · exact map_modify (fun found => blind found _ _) other
  · rfl

theorem spaceIn_unlink (contexts : TreeMap ContextId Context) (id : ContextId)
    (context : Context) (other : ContextId) :
    spaceIn (unlink contexts id context) other = spaceIn contexts other := by
  apply map_unlink
  exact fun _ _ _ => rfl

/-- A context is there if its address space is. -/
theorem contains_eq_spaceIn (contexts : TreeMap ContextId Context) (id : ContextId) :
    contexts.contains id = (spaceIn contexts id).isSome := by
  rw [Table.contains_eq_isSome, spaceIn, Option.isSome_map]

end Interpreter

end NestedMachine
