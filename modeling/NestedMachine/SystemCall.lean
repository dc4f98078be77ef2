/-!
# The numbers of the calling convention

System calls are numbered, and a number that the convention does not know is
still shown, as `unknown`.  Opening a file takes a set of flag bits, of which the
two lowest tell whether it is read, written or both.
-/

namespace NestedMachine

set_option autoImplicit false

/-- The system calls that the hypervisor serves. -/
inductive SystemCall where
  | openFile
  | read
  | write
  | exit
  | yield
  | kill
  | setBreak
  | fork
  | wait
  deriving DecidableEq, Repr

namespace SystemCall

/-- The system call of a number. -/
def ofNumber? (number : Nat) : Option SystemCall :=
  match number with
  | 56 => some .openFile
  | 63 => some .read
  | 64 => some .write
  | 93 => some .exit
  | 124 => some .yield
  | 129 => some .kill
  | 214 => some .setBreak
  | 220 => some .fork
  | 260 => some .wait
  | _ => none

/-- The name of a system call. -/
def name : SystemCall → String
  | .openFile => "openat"
  | .read => "read"
  | .write => "write"
  | .exit => "exit"
  | .yield => "sched_yield"
  | .kill => "kill"
  | .setBreak => "brk"
  | .fork => "fork"
  | .wait => "wait"

/-- The name that goes with a number. -/
def nameOfNumber (number : Nat) : String :=
  match ofNumber? number with
  | some call => call.name
  | none => "unknown"

/-- The calls that reach outside the machine. -/
def reachesHost : SystemCall → Bool
  | .openFile | .read | .write => true
  | _ => false

end SystemCall

/-- The longest path that can be opened, including the closing zero byte. -/
def maxPathLength : Nat := 4096

/-- How a file is opened, read from the flag bits of the call. -/
structure OpenFlags where
  /-- The two lowest bits: 0 reads, 1 writes, 2 does both, and 3 is left to each host. -/
  access : Nat
  /-- A missing file is created. -/
  create : Bool
  /-- An existing file is emptied. -/
  truncate : Bool
  /-- Every write goes to the end. -/
  append : Bool
  deriving DecidableEq, Repr

namespace OpenFlags

/-- The flags that a number stands for; all other bits are ignored. -/
def ofNumber (number : Nat) : OpenFlags where
  access := number % 4
  create := number.testBit 6
  truncate := number.testBit 9
  append := number.testBit 10

/-- Whether the access bits let the file be written. -/
def writes (flags : OpenFlags) : Bool := flags.access == 1 || flags.access == 2

/-- Whether the access bits let the file be read. -/
def reads (flags : OpenFlags) : Bool := flags.access != 1

end OpenFlags

end NestedMachine
