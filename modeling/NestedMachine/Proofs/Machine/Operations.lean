import NestedMachine.Machine.Interpreter
import NestedMachine.Proofs.Machine.Execution

/-!
# Operations as data

Statements about every sequence of operations quantify over lists.  A memory request is one access
to the memory of a context, as guests and supervisors make it; an operation of the interpreter is
one of its requests, a memory request, or a change of a context that leaves its address space
alone.
-/

namespace NestedMachine

set_option autoImplicit false

/-! ## Memory requests -/

/-- An access to the memory of a context. -/
inductive MemoryRequest where
  | fetch (address : Nat)
  | load (address : Nat)
  | store (address : Nat) (value : UInt64)
  | readBytes (address size : Nat)
  | writeBytes (address : Nat) (bytes : Bytes)
  | readString (address limit : Nat)
  | checkRange (address size : Nat) (access : Access)
  | setProgramBreak (programBreak : Nat)
  | mapAll

/-- The answer to a memory request. -/
inductive MemoryAnswer where
  | done
  | word (word : Word)
  | value (value : UInt64)
  | bytes (bytes : Bytes)
  | programBreak (programBreak : Nat)
  deriving DecidableEq

namespace MemoryRequest

/-- Carry out a memory request. -/
def perform : MemoryRequest → MemoryAction MemoryAnswer
  | .fetch address => return .word (← Memory.fetch address)
  | .load address => return .value (← Memory.load address)
  | .store address value => do
      Memory.store address value
      return .done
  | .readBytes address size => return .bytes (← Memory.readBytes address size)
  | .writeBytes address bytes => do
      Memory.writeBytes address bytes
      return .done
  | .readString address limit => return .bytes (← Memory.readString address limit)
  | .checkRange address size access => do
      Memory.checkRange address size access
      return .done
  | .setProgramBreak programBreak =>
      return .programBreak (← Memory.setProgramBreak programBreak)
  | .mapAll => do
      Memory.mapAll
      return .done

theorem congruent_perform (request : MemoryRequest) : Memory.Congruent request.perform := by
  cases request with
  | fetch address => exact .bind (.fetch _) fun _ => .pure _
  | load address => exact .bind (.load _) fun _ => .pure _
  | store address value => exact .bind (.store _ _) fun _ => .pure _
  | readBytes address size => exact .bind (.readBytes _ _) fun _ => .pure _
  | writeBytes address bytes => exact .bind (.writeBytes _ _) fun _ => .pure _
  | readString address limit => exact .bind (.readString _ _) fun _ => .pure _
  | checkRange address size access => exact .bind (.checkRange _ _ _) fun _ => .pure _
  | setProgramBreak programBreak => exact .bind (.setProgramBreak _) fun _ => .pure _
  | mapAll => exact .bind .mapAll fun _ => .pure _

end MemoryRequest

/-! ## Operations of the interpreter -/

namespace Interpreter

/-- A change of a context that leaves its address space alone. -/
structure Bookkeeping where
  change : Context → Context
  space : ∀ context, (change context).space = context.space

/-- What can be asked of an interpreter. -/
inductive Operation where
  | create (image : Image) (options : LoadOptions)
  | fork (parent : ContextId)
  | destroy (id : ContextId)
  | release (id : ContextId)
  | switch (id : ContextId) (quantum : Nat)
  | access (id : ContextId) (request : MemoryRequest)
  | alter (id : ContextId) (bookkeeping : Bookkeeping)
  | note (happening : Note)

/-- The answer of an interpreter. -/
inductive Answer where
  | done
  | context (id : ContextId)
  | copy (id : Option ContextId)
  | released (frames : Nat)
  | trap (trap : Trap)
  | memory (answer : Option (Except Fault MemoryAnswer))

/-- Carry out an operation. -/
def Operation.perform : Operation → InterpreterAction Answer
  | .create image options => return .context (← Interpreter.create image options)
  | .fork parent => return .copy (← Interpreter.fork parent)
  | .destroy id => do
      Interpreter.destroy id
      return .done
  | .release id => return .released (← Interpreter.release id)
  | .switch id quantum => return .trap (← Interpreter.switch id quantum)
  | .access id request => fun machine =>
      let (answer, machine) := machine.withMemory id request.perform
      .ok (.memory answer) machine
  | .alter id bookkeeping => do
      modify fun machine => machine.modifyContext id bookkeeping.change
      return .done
  | .note happening => do
      modify fun machine => machine.note happening
      return .done

end Interpreter

end NestedMachine
