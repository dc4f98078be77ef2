import Std.Data.TreeSet
import NestedMachine.Machine.Execution

/-!
# Contexts

A context is one guest: its hart, its address space, whether it may run, how it
ended, and its links to the contexts that it forked and the one it was forked
from.
-/

namespace NestedMachine

set_option autoImplicit false

/-- One guest. -/
structure Context where
  hart : Hart
  space : AddressSpace
  state : ContextState
  exitStatus : Option ExitStatus
  parent : Option ContextId
  children : Std.TreeSet ContextId
  /-- How many instructions it has carried out. -/
  instructions : Nat

namespace Context

/-- A context about to start. -/
def start (space : AddressSpace) (hart : Hart) : Context where
  hart
  space
  state := .ready
  exitStatus := none
  parent := none
  children := ∅
  instructions := 0

/-- Whether a context has ended. -/
def hasExited (context : Context) : Bool := context.exitStatus.isSome

/-- End a context. -/
def terminate (context : Context) (status : ExitStatus) : Context :=
  { context with exitStatus := some status, state := .exited }

/-- Move a context into a state. -/
def withState (context : Context) (state : ContextState) : Context := { context with state }

/-- Move the program counter of a context. -/
def withPc (context : Context) (pc : UInt64) : Context :=
  { context with hart := { context.hart with pc } }

/-- Give a register of a context a value. -/
def withRegister (context : Context) (register : Nat) (value : UInt64) : Context :=
  { context with
    hart := { context.hart with registers := context.hart.registers.write register value } }

/-- The value of a register of a context. -/
def register (context : Context) (register : Nat) : UInt64 :=
  context.hart.registers.read register

end Context

end NestedMachine
