import NestedMachine.Memory.Address
import NestedMachine.HostError

/-!
# The layout of an address space

An address space has four segments.  Code starts at a fixed address; data starts
on the next page; the heap follows the data and ends at the program break; the
stack lies at the very top.  The first three are laid out once, from the sizes of
the program, and only the program break moves.

An access is checked against the segments before any page is touched: code can be
fetched and read, the other segments read and written, and nothing else exists.
A range of addresses is checked at both ends, and segment by segment when the
ends lie in different ones.
-/

namespace NestedMachine

set_option autoImplicit false

/-- What an access does. -/
inductive Access where
  | fetch
  | read
  | write
  deriving DecidableEq, Repr

/-- The parts of an address space. -/
inductive Segment where
  | code
  | data
  | heap
  | stack
  deriving DecidableEq, Repr

/-- The name of a segment. -/
def Segment.name : Segment → String
  | .code => "Code"
  | .data => "Data"
  | .heap => "Heap"
  | .stack => "Stack"

/-- When pages get their frames: on first touch, or all at once. -/
inductive MemoryMode where
  | demand
  | fullyMapped
  deriving DecidableEq, Repr, Inhabited

/-- The name of a memory mode. -/
def MemoryMode.name : MemoryMode → String
  | .demand => "Demand"
  | .fullyMapped => "FullyMapped"

/-- The bounds of the segments; each segment ends before its second bound. -/
structure Layout where
  codeEnd : Nat
  dataStart : Nat
  dataEnd : Nat
  heapStart : Nat
  programBreak : Nat
  stackLimit : Nat
  deriving DecidableEq, Repr

namespace Layout

/-! ## Laying out a program -/

/-- The stack takes whole pages, and at least one. -/
def stackBytes (stackSize : Nat) : Nat := alignUp (max stackSize pageSize) pageSize

/-- The layout of a program, unless its segments leave no room for the stack. -/
def ofSizes (code data stackSize : Nat) : Except LoadDefect Layout :=
  let stack := stackBytes stackSize
  let codeEnd := codeStart + code
  let dataStart := alignUp codeEnd pageSize
  let dataEnd := dataStart + data
  let heapStart := alignUp dataEnd wordSize
  if addressSpaceSize ≤ stack ∨ addressSpaceSize - stack < heapStart then
    .error (.doesNotFit code data stack)
  else
    .ok {
      codeEnd, dataStart, dataEnd, heapStart
      programBreak := heapStart
      stackLimit := addressSpaceSize - stack }

/-! ## Segments -/

/-- Where a segment starts. -/
def start (layout : Layout) : Segment → Nat
  | .code => codeStart
  | .data => layout.dataStart
  | .heap => layout.heapStart
  | .stack => layout.stackLimit

/-- Where a segment ends. -/
def stop (layout : Layout) : Segment → Nat
  | .code => layout.codeEnd
  | .data => layout.dataEnd
  | .heap => layout.programBreak
  | .stack => addressSpaceSize

/-- Whether a segment holds an address. -/
def holds (layout : Layout) (segment : Segment) (address : Nat) : Bool :=
  layout.start segment ≤ address && address < layout.stop segment

/-- The segment that holds an address. -/
def segmentOf? (layout : Layout) (address : Nat) : Option Segment :=
  [Segment.code, .data, .heap, .stack].find? (layout.holds · address)

/-- An address lies before the end of its segment. -/
theorem lt_stop_of_segmentOf? {layout : Layout} {address : Nat} {segment : Segment}
    (found : layout.segmentOf? address = some segment) : address < layout.stop segment := by
  have held := List.find?_some found
  simp only [holds, Bool.and_eq_true, decide_eq_true_eq] at held
  exact held.2

/-- The highest address that the program break can take. -/
def maxBreak (layout : Layout) : Nat := layout.stackLimit

/-! ## Access -/

/-- Whether a segment permits an access. -/
def permits : Access → Segment → Bool
  | .fetch, .code => true
  | .fetch, _ => false
  | .read, _ => true
  | .write, .code => false
  | .write, _ => true

/-- The segment of an access that is permitted. -/
def check (layout : Layout) (address : Nat) (access : Access) : Except Fault Segment :=
  match layout.segmentOf? address with
  | some segment => if permits access segment then .ok segment else .error (.segmentation address)
  | none => .error (.segmentation address)

/-- Check a range from `cursor` to `last`, one segment after the other. -/
def checkFrom (layout : Layout) (cursor last : Nat) (access : Access) : Except Fault Unit :=
  if last < cursor then .ok ()
  else
    match _found : layout.segmentOf? cursor with
    | some segment =>
        if permits access segment then layout.checkFrom (layout.stop segment) last access
        else .error (.segmentation cursor)
    | none => .error (.segmentation cursor)
termination_by last + 1 - cursor
decreasing_by
  have advances := lt_stop_of_segmentOf? _found
  omega

/-- Check an access to `size` bytes.  A range that passes the top of the address space is refused
as a whole; after that the first address that is not permitted is named, the end of the range
before what lies between. -/
def checkRange (layout : Layout) (address size : Nat) (access : Access) : Except Fault Unit :=
  if size = 0 then .ok ()
  else
    let last := address + (size - 1)
    if addressSpaceSize ≤ last then .error (.segmentation address)
    else
      match layout.check address access with
      | .error fault => .error fault
      | .ok first =>
          match layout.check last access with
          | .error fault => .error fault
          | .ok second => if first = second then .ok () else layout.checkFrom address last access

/-! ## Pages -/

/-- The pages that the segments occupy: those from the code to the program break, and the stack's.
Each pair is the first page and the page after the last. -/
def pageRanges (layout : Layout) : List (Nat × Nat) :=
  [(pageOf codeStart, pageAbove (max (max layout.programBreak layout.dataEnd) layout.codeEnd)),
   (pageOf layout.stackLimit, pageOf addressSpaceSize)]

/-- Every page that the segments occupy, in ascending order. -/
def pages (layout : Layout) : List Nat :=
  layout.pageRanges.flatMap fun range => List.range' range.1 (range.2 - range.1)

end Layout

end NestedMachine
