import NestedMachine.Machine.Interpreter

/-!
# Levels between a hypervisor and the interpreter

A level that passes requests on keeps a record: which contexts it hosts for the
level above, and what it has counted.  Every request passes a level in the same
way.  On the way down the record may refuse it, because it names a context that
the level does not host; on the way up, if the level below has answered, the
record takes note of the answer.

So a stack of levels is a list of records over one interpreter, and what a level
does with a request is data: what to check on the way down, and what to note on
the way up.
-/

namespace NestedMachine

set_option autoImplicit false

/-- The record of one level. -/
structure Relay where
  hosted : Std.TreeSet ContextId
  counters : Counters

namespace Relay

/-- The record of a level that hosts nothing. -/
def empty : Relay := ⟨∅, .zero⟩

/-- Whether a level hosts a context. -/
def hosts (relay : Relay) (id : ContextId) : Bool := relay.hosted.contains id

/-- Change what a level has counted. -/
def count (relay : Relay) (change : Counters → Counters) : Relay :=
  { relay with counters := change relay.counters }

/-- Host one more context. -/
def host (relay : Relay) (id : ContextId) : Relay :=
  { relay with hosted := relay.hosted.insert id }

/-- Refuse a request about a context that the level does not host. -/
def requireHosted (relay : Relay) (id : ContextId) : Except HostError Relay :=
  if relay.hosts id then .ok relay else .error (.unknownContext id)

end Relay

/-! ## Requests -/

/-- How a request with an answer passes a level. -/
structure Passage (α : Type) where
  /-- On the way down. -/
  enter : Relay → Except HostError Relay
  /-- On the way up. -/
  leave : α → Relay → Relay

namespace Passage

/-- Creating a context makes every level host it. -/
def create : Passage ContextId where
  enter relay := .ok relay
  leave id relay := (relay.host id).count fun counters =>
    { counters with contextsCreated := counters.contextsCreated + 1 }

/-- A fork is counted only if there is a copy. -/
def fork (parent : ContextId) : Passage (Option ContextId) where
  enter relay := relay.requireHosted parent
  leave answer relay :=
    match answer with
    | some child => (relay.host child).count fun counters =>
        { counters with forks := counters.forks + 1 }
    | none => relay

/-- A context that is removed is hosted no longer. -/
def destroy (id : ContextId) : Passage Unit where
  enter relay := relay.requireHosted id
  leave _ relay := { relay with hosted := relay.hosted.erase id }

/-- Giving back frames leaves no trace. -/
def release (id : ContextId) : Passage Nat where
  enter relay := relay.requireHosted id
  leave _ relay := relay

/-- Count how a run ended. -/
def countTrap (trap : Trap) (counters : Counters) : Counters :=
  match trap with
  | .timerInterrupt => { counters with timerInterrupts := counters.timerInterrupts + 1 }
  | .environmentCall => { counters with systemCalls := counters.systemCalls + 1 }
  | .fault .. => { counters with faults := counters.faults + 1 }

/-- A run is counted on the way down, and how it ended on the way up. -/
def switch (id : ContextId) : Passage Trap where
  enter relay :=
    match relay.requireHosted id with
    | .ok relay => .ok (relay.count fun counters =>
        { counters with contextSwitches := counters.contextSwitches + 1 })
    | .error error => .error error
  leave trap relay := relay.count (countTrap trap)

end Passage

/-! ## Machines -/

/-- The levels between a hypervisor and the interpreter, the highest first. -/
structure Machine where
  relays : List Relay
  interpreter : Interpreter

/-- An action on a machine that answers or fails. -/
abbrev MachineAction := EStateM HostError Machine

namespace Machine

variable {α : Type}

/-- How many levels lie above the interpreter. -/
def level (machine : Machine) : Nat := machine.relays.length

/-- Pass a request down the given levels to the interpreter. -/
def descend (passage : Passage α) (request : InterpreterAction α) :
    List Relay → Interpreter → Except HostError α × List Relay × Interpreter
  | [], interpreter =>
      match request interpreter with
      | .ok answer interpreter => (.ok answer, [], interpreter)
      | .error error interpreter => (.error error, [], interpreter)
  | relay :: rest, interpreter =>
      match passage.enter relay with
      | .error error => (.error error, relay :: rest, interpreter)
      | .ok entered =>
          match descend passage request rest interpreter with
          | (.ok answer, rest, interpreter) =>
              (.ok answer, passage.leave answer entered :: rest, interpreter)
          | (.error error, rest, interpreter) => (.error error, entered :: rest, interpreter)

/-- Pass a request down to the interpreter. -/
def pass (passage : Passage α) (request : InterpreterAction α) : MachineAction α
  | ⟨relays, interpreter⟩ =>
      match descend passage request relays interpreter with
      | (.ok answer, relays, interpreter) => .ok answer ⟨relays, interpreter⟩
      | (.error error, relays, interpreter) => .error error ⟨relays, interpreter⟩

/-- Load a program as a new context. -/
def create (image : Image) (options : LoadOptions) : MachineAction ContextId :=
  pass .create (Interpreter.create image options)

/-- Copy a context, unless the pool cannot back the copy. -/
def fork (parent : ContextId) : MachineAction (Option ContextId) :=
  pass (.fork parent) (Interpreter.fork parent)

/-- Remove a context. -/
def destroy (id : ContextId) : MachineAction Unit := pass (.destroy id) (Interpreter.destroy id)

/-- Give back all frames of a context. -/
def release (id : ContextId) : MachineAction Nat := pass (.release id) (Interpreter.release id)

/-- Run a context for at most `quantum` instructions. -/
def switch (id : ContextId) (quantum : Nat) : MachineAction Trap :=
  pass (.switch id) (Interpreter.switch id quantum)

/-- Whether every level hosts a context. -/
def hosts (machine : Machine) (id : ContextId) : Bool := machine.relays.all (·.hosts id)

/-- The context of a number, if every level hosts it. -/
def context? (machine : Machine) (id : ContextId) : Option Context :=
  if machine.hosts id then machine.interpreter.context? id else none

/-- Change the context of a number, if every level hosts it. -/
def modifyContext (machine : Machine) (id : ContextId) (change : Context → Context) : Machine :=
  if machine.hosts id then
    { machine with interpreter := machine.interpreter.modifyContext id change }
  else machine

/-- Carry out an action on the memory of a context, if every level hosts it. -/
def withMemory (id : ContextId) (action : MemoryAction α) (machine : Machine) :
    Option (Except Fault α) × Machine :=
  if machine.hosts id then
    match machine with
    | ⟨relays, interpreter⟩ =>
        let (answer, interpreter) := interpreter.withMemory id action
        (answer, ⟨relays, interpreter⟩)
  else (none, machine)

/-- Note what happens. -/
def note (machine : Machine) (note : Note) : Machine :=
  { machine with interpreter := machine.interpreter.note note }

/-- Keep entries of the journal. -/
def addEntries (machine : Machine) (entries : List JournalEntry) : Machine :=
  let journal := entries.foldl Journal.addEntry machine.interpreter.journal
  { machine with interpreter := { machine.interpreter with journal } }

/-- The records of levels, each with the number of its level. -/
def numbered : List Relay → List (Nat × Relay)
  | [] => []
  | relay :: rest => (rest.length + 1, relay) :: numbered rest

/-- What each level has counted, the highest first and the interpreter last, with the number of the
level. -/
def allCounters (machine : Machine) : List (Nat × Counters) :=
  (numbered machine.relays).map (fun entry => (entry.1, entry.2.counters))
    ++ [(0, machine.interpreter.counters)]

/-- An interpreter below the given number of levels that pass requests on. -/
def ofLevels (levels : Nat) (interpreter : Interpreter) : Machine :=
  ⟨List.replicate levels .empty, interpreter⟩

end Machine

end NestedMachine
