import NestedMachine.Instruction.Word

/-!
# Faults, traps and the states of a context

A fault is what a guest can do wrong.  A trap ends the run of a context: its
quantum is used up, it asks for a system call, or it faulted.  An exit status is
how a context ended; each has a code, which is what a waiting parent is told.

A context is known by a number, and its state says whether it may run.  The
inspection texts of faults and states are part of error messages.
-/

namespace NestedMachine

set_option autoImplicit false

/-! ## Faults -/

/-- What a guest can do wrong. -/
inductive Fault where
  /-- The word is no instruction of the subset. -/
  | illegalInstruction (word : Word)
  /-- An address is no multiple of the size of the access. -/
  | misaligned (address : Nat)
  /-- An address lies in no segment that permits the access. -/
  | segmentation (address : Nat)
  /-- A division by zero. -/
  | divisionByZero
  /-- No frame is left to back a page. -/
  | outOfFrames
  /-- The number of a system call that is not served. -/
  | unknownSystemCall (number : Nat)
  deriving DecidableEq, Repr

namespace Fault

/-- The kind of a fault. -/
def kind : Fault → String
  | .illegalInstruction _ => "IllegalInstruction"
  | .misaligned _ => "MisalignedAccess"
  | .segmentation _ => "SegmentationFault"
  | .divisionByZero => "DivisionByZero"
  | .outOfFrames => "PageTableExhausted"
  | .unknownSystemCall _ => "SyscallArgumentInvalid"

/-- The number that a fault carries, if any. -/
def payload? : Fault → Option Nat
  | .illegalInstruction word => some word.toNat
  | .misaligned address | .segmentation address => some address
  | .divisionByZero | .outOfFrames => none
  | .unknownSystemCall number => some number

/-- The message of a fault. -/
def message : Fault → String
  | .illegalInstruction word => "illegal instruction " ++ Numeral.paddedHex 8 word.toNat
  | .misaligned address => "misaligned access at " ++ Numeral.hex address
  | .segmentation address => "segmentation fault at " ++ Numeral.hex address
  | .divisionByZero => "division by zero"
  | .outOfFrames => "page table exhausted: no free physical frame"
  | .unknownSystemCall number => "invalid syscall " ++ toString number

/-- The kind of a fault followed by what it carries, in decimal. -/
def inspect (fault : Fault) : String :=
  match fault.payload? with
  | some number => fault.kind ++ "(" ++ toString number ++ ")"
  | none => fault.kind

/-- The exit code of a context that the fault ended. -/
def exitCode : Fault → Int64
  | .segmentation _ => 6
  | .outOfFrames => 7
  | .divisionByZero => 8
  | .illegalInstruction _ => 9
  | .unknownSystemCall _ => 10
  | .misaligned _ => 11

end Fault

/-! ## Traps and exit statuses -/

/-- A fault with the place where it happened. -/
def Fault.messageAt (fault : Fault) (pc : UInt64) : String :=
  fault.message ++ " at pc " ++ Numeral.hex pc.toNat

/-- Why a context stopped running. -/
inductive Trap where
  | timerInterrupt
  | environmentCall
  | fault (fault : Fault) (pc : UInt64)
  deriving DecidableEq, Repr

/-- The message of a trap. -/
def Trap.message : Trap → String
  | .timerInterrupt => "timer interrupt"
  | .environmentCall => "environment call"
  | .fault cause pc => cause.messageAt pc

/-- How a context ended. -/
inductive ExitStatus where
  | exited (code : Int64)
  | faulted (fault : Fault) (pc : UInt64)
  | killed
  deriving DecidableEq, Repr

namespace ExitStatus

/-- The code that stands for an exit status. -/
def code : ExitStatus → Int64
  | .exited code => code
  | .faulted fault _ => fault.exitCode
  | .killed => 137

/-- The message of an exit status. -/
def message : ExitStatus → String
  | .exited code => "exited with code " ++ toString code
  | .faulted fault pc => "terminated by " ++ fault.messageAt pc
  | .killed => "killed"

end ExitStatus

/-! ## Contexts by number, and their states -/

/-- The number of a context. -/
abbrev ContextId := Nat

/-- A context as messages name it. -/
def ContextId.label (id : ContextId) : String := "#" ++ toString id

/-- What a blocked context waits for. -/
inductive BlockReason where
  /-- The end of its own system call. -/
  | systemCall
  /-- The end of one child, or of any. -/
  | wait (child : Option ContextId)
  deriving DecidableEq, Repr

/-- Whether a context may run. -/
inductive ContextState where
  | ready
  | running
  | blocked (reason : BlockReason)
  /-- Parked by a fault, for inspection. -/
  | trapped (fault : Fault) (pc : UInt64)
  | exited
  deriving DecidableEq, Repr

/-- The inspection text of a block reason. -/
def BlockReason.inspect : BlockReason → String
  | .systemCall => "Syscall"
  | .wait none => "Wait(None)"
  | .wait (some child) => "Wait(Some(ContextId(" ++ toString child ++ ")))"

/-- The inspection text of a state. -/
def ContextState.inspect : ContextState → String
  | .ready => "Ready"
  | .running => "Running"
  | .blocked reason => "Blocked(" ++ reason.inspect ++ ")"
  | .trapped fault pc =>
      "Trapped \x7b fault: " ++ fault.inspect ++ ", pc: " ++ toString pc.toNat ++ " \x7d"
  | .exited => "Exited"

end NestedMachine
