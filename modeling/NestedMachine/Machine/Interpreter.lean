import NestedMachine.Program.Loading

/-!
# The interpreter

The interpreter is the machine at the bottom: it owns the frame pool and every
context, and it carries out instructions.  It creates, copies, runs and removes
contexts for whoever is above it, and it keeps the journal that all levels write.

Every operation is an action that answers or fails.  A failed operation keeps what
it has done so far: a load that fails has used up its number, and a run that finds
the pool dry keeps the instructions carried out before, although the counters of
the machine are brought up to date only by a run that ends in a trap.
-/

namespace NestedMachine

set_option autoImplicit false

/-- What one level counts. -/
structure Counters where
  instructions : Nat
  systemCalls : Nat
  timerInterrupts : Nat
  contextSwitches : Nat
  pageFaults : Nat
  forks : Nat
  exits : Nat
  faults : Nat
  contextsCreated : Nat
  framesPeak : Nat
  deriving DecidableEq, Repr

/-- Nothing has been counted. -/
def Counters.zero : Counters := ⟨0, 0, 0, 0, 0, 0, 0, 0, 0, 0⟩

/-- The machine that carries out instructions. -/
structure Interpreter where
  pool : FramePool
  contexts : Std.TreeMap ContextId Context
  /-- The number of the next context. -/
  nextId : ContextId
  /-- Whether every fetched instruction is noted. -/
  tracing : Bool
  counters : Counters
  journal : Journal

/-- An action on the interpreter that answers or fails. -/
abbrev InterpreterAction := EStateM HostError Interpreter

namespace Interpreter

/-- An interpreter without contexts. -/
def empty (frames : Nat) (tracing : Bool) (journal : Journal) : Interpreter where
  pool := .empty frames
  contexts := ∅
  nextId := 1
  tracing
  counters := .zero
  journal

/-- The context of a number. -/
def context? (machine : Interpreter) (id : ContextId) : Option Context := machine.contexts[id]?

/-- Change the context of a number, if there is one. -/
def modifyContext (machine : Interpreter) (id : ContextId) (change : Context → Context) :
    Interpreter :=
  { machine with contexts := machine.contexts.modify id change }

/-- Note what happens. -/
def note (machine : Interpreter) (note : Note) : Interpreter :=
  { machine with journal := machine.journal.add note }

/-! ## Creating and removing contexts -/

/-- Keep a new context under the next number. -/
def adopt (machine : Interpreter) (context : Context) : Interpreter :=
  { machine with
    contexts := machine.contexts.insert machine.nextId context
    nextId := machine.nextId + 1
    counters := { machine.counters with contextsCreated := machine.counters.contextsCreated + 1 } }

/-- Load a program as a new context. -/
def create (image : Image) (options : LoadOptions) : InterpreterAction ContextId
  | ⟨pool, contexts, id, tracing, counters, journal⟩ =>
      match Loading.load id image options pool journal with
      | (.ok context, pool, journal) =>
          .ok id (adopt ⟨pool, contexts, id, tracing, counters, journal⟩ context)
      | (.error error, pool, journal) =>
          .error error ⟨pool, contexts, id + 1, tracing, counters, journal⟩

/-- The copy of a context that a fork makes: it shares the hart, and nothing else. -/
def forkOf (parent : ContextId) (source : Context) (space : AddressSpace) : Context :=
  { Context.start space source.hart with parent := some parent }

/-- Link a parent to a child. -/
def addChild (machine : Interpreter) (parent child : ContextId) : Interpreter :=
  machine.modifyContext parent fun context =>
    { context with children := context.children.insert child }

/-- Copy a context.  There is no answer, and nothing changes, when the pool cannot back the copy. -/
def fork (parent : ContextId) : InterpreterAction (Option ContextId)
  | ⟨pool, contexts, id, tracing, counters, journal⟩ =>
      match contexts[parent]? with
      | none =>
          .error (.unknownContext parent) ⟨pool, contexts, id, tracing, counters, journal⟩
      | some source =>
          match Memory.copyFrom source.space ⟨source.space.emptyCopy, pool, journal⟩ with
          | .ok () memory =>
              let machine : Interpreter :=
                ⟨memory.pool, contexts, id, tracing, counters, memory.journal⟩
              .ok (some id) ((machine.adopt (forkOf parent source memory.space)).addChild parent id)
          | .error _ memory =>
              .ok none ⟨memory.pool, contexts, id, tracing, counters, memory.journal⟩

/-- Give back all frames of a context; the answer is how many there were. -/
def release (id : ContextId) : InterpreterAction Nat
  | ⟨pool, contexts, nextId, tracing, counters, journal⟩ =>
      match contexts[id]? with
      | none => .error (.unknownContext id) ⟨pool, contexts, nextId, tracing, counters, journal⟩
      | some context =>
          let (released, memory) := Memory.freed ⟨context.space, pool, journal⟩
          let contexts := contexts.insert id { context with space := memory.space }
          .ok released ⟨memory.pool, contexts, nextId, tracing, counters, memory.journal⟩

/-- Cut the links between a context and its family. -/
def unlink (contexts : Std.TreeMap ContextId Context) (id : ContextId) (context : Context) :
    Std.TreeMap ContextId Context :=
  let contexts :=
    match context.parent with
    | some parent =>
        contexts.modify parent fun parent => { parent with children := parent.children.erase id }
    | none => contexts
  context.children.toList.foldl
    (fun contexts child => contexts.modify child fun child => { child with parent := none })
    contexts

/-- Remove a context and give back its frames. -/
def destroy (id : ContextId) : InterpreterAction Unit
  | ⟨pool, contexts, nextId, tracing, counters, journal⟩ =>
      match contexts[id]? with
      | none => .error (.unknownContext id) ⟨pool, contexts, nextId, tracing, counters, journal⟩
      | some context =>
          let memory := (Memory.freed ⟨context.space, pool, journal⟩).2
          let contexts := unlink (contexts.erase id) id context
          .ok () ⟨memory.pool, contexts, nextId, tracing, counters, memory.journal⟩

/-! ## Running -/

/-- Count a run that ended in a trap. -/
def countRun (counters : Counters) (retired pageFaults peak : Nat) : Counters :=
  { counters with
    instructions := counters.instructions + retired
    pageFaults := counters.pageFaults + pageFaults
    framesPeak := peak }

/-- A context after a run. -/
def afterRun (context : Context) (result : Hart.RunResult) : Context :=
  { context with
    hart := result.hart
    space := result.memory.space
    instructions := context.instructions + result.retired }

/-- Run a context for at most `quantum` instructions. -/
def switch (id : ContextId) (quantum : Nat) : InterpreterAction Trap
  | ⟨pool, contexts, nextId, tracing, counters, journal⟩ =>
      match contexts[id]? with
      | none => .error (.unknownContext id) ⟨pool, contexts, nextId, tracing, counters, journal⟩
      | some context =>
          if context.state = .exited then
            .error (.schedulerInvariant id context.hart.pc .switchedToExited)
              ⟨pool, contexts, nextId, tracing, counters, journal⟩
          else
            let result := context.hart.run tracing quantum 0 ⟨context.space, pool, journal⟩
            let memory := result.memory
            let contexts := contexts.insert id (afterRun context result)
            match result.ending with
            | .trap trap =>
                let faults := memory.space.pageFaults - context.space.pageFaults
                let counters := countRun counters result.retired faults memory.pool.peak
                .ok trap ⟨memory.pool, contexts, nextId, tracing, counters, memory.journal⟩
            | .outOfFrames =>
                .error (.memoryExhausted id result.hart.pc)
                  ⟨memory.pool, contexts, nextId, tracing, counters, memory.journal⟩

/-! ## Guest memory -/

/-- Carry out an action on the memory of a context, if there is one. -/
def withMemory {α : Type} (id : ContextId) (action : MemoryAction α) :
    Interpreter → Option (Except Fault α) × Interpreter
  | ⟨pool, contexts, nextId, tracing, counters, journal⟩ =>
      match contexts[id]? with
      | none => (none, ⟨pool, contexts, nextId, tracing, counters, journal⟩)
      | some context =>
          let keep (memory : Memory) : Interpreter :=
            ⟨memory.pool, contexts.insert id { context with space := memory.space }, nextId,
              tracing, counters, memory.journal⟩
          match action ⟨context.space, pool, journal⟩ with
          | .ok answer memory => (some (.ok answer), keep memory)
          | .error fault memory => (some (.error fault), keep memory)

end Interpreter

end NestedMachine
