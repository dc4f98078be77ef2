import NestedMachine.HostError
import NestedMachine.Memory.Bytes

/-!
# Traces of system calls

A trace is the list of the system calls that guests completed, in the order of
their completion.  A record says where a call was made, which one it was, what it
returned, and, for a read, the bytes that it delivered.
-/

namespace NestedMachine

set_option autoImplicit false

/-- One completed system call. -/
structure TraceRecord where
  /-- The address of the call. -/
  pc : UInt64
  /-- The number of the call. -/
  number : UInt64
  /-- The value returned, or the exit code. -/
  result : Int64
  /-- The bytes delivered by a read. -/
  data : Bytes
  deriving DecidableEq, Repr

/-- The completed calls, in order. -/
structure Trace where
  records : Array TraceRecord
  deriving DecidableEq, Repr

namespace Trace

/-- The version of the stored form. -/
def version : Nat := 1

/-- The trace without records. -/
def empty : Trace := ⟨#[]⟩

/-- How many calls were completed. -/
def size (trace : Trace) : Nat := trace.records.size

/-- Add the record of a call. -/
def push (trace : Trace) (record : TraceRecord) : Trace := ⟨trace.records.push record⟩

end Trace

end NestedMachine
