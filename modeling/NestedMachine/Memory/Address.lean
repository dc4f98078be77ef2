import NestedMachine.Text.Numeral

/-!
# Addresses and pages

An address is a number of bytes from the start of an address space.  Addresses
are natural numbers, so no sum of them wraps; the sixty-four-bit words of the
machine enter by their value.  The address space is cut into pages of 4096 bytes
and the physical memory into frames of the same size, so that an address splits
into the number of its page and the offset in it.
-/

namespace NestedMachine

set_option autoImplicit false

/-- The size of a page and of a frame in bytes. -/
def pageSize : Nat := 4096

/-- The size of a machine word in bytes. -/
def wordSize : Nat := 8

/-- The size of every address space in bytes. -/
def addressSpaceSize : Nat := 4294967296

/-- Where the code segment of every program starts. -/
def codeStart : Nat := 0x10000

/-- The number of the page that holds an address. -/
def pageOf (address : Nat) : Nat := address / pageSize

/-- The place of an address in its page. -/
def pageOffset (address : Nat) : Nat := address % pageSize

/-- The address of the first byte of a page. -/
def pageAddress (page : Nat) : Nat := page * pageSize

/-- Whether an address is a multiple of a size. -/
def isAligned (address size : Nat) : Bool := address % size == 0

/-- The least multiple of a size that is no less than a value. -/
def alignUp (value size : Nat) : Nat := (value + size - 1) / size * size

/-- The number of the first page that starts at an address or above it. -/
def pageAbove (address : Nat) : Nat := alignUp address pageSize / pageSize

/-- A byte of physical memory: the number of a frame and the place in it. -/
structure PhysicalAddress where
  frame : Nat
  offset : Nat
  deriving DecidableEq, Repr

namespace PhysicalAddress

/-- The place of an offset in a frame, as one number of sixty-four bits holds it: the offset keeps
its twelve low bits and the frame its fifty-two. -/
def ofFrame (frame offset : Nat) : PhysicalAddress :=
  ⟨frame % (UInt64.size / pageSize), offset % pageSize⟩

/-- The physical address as a number. -/
def toNat (address : PhysicalAddress) : Nat := address.frame * pageSize + address.offset

end PhysicalAddress

end NestedMachine
