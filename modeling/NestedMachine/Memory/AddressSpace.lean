import NestedMachine.Memory.Bytes
import NestedMachine.Memory.Layout
import NestedMachine.Memory.PageTable
import NestedMachine.Journal

/-!
# Address spaces and their memory

An address space is a layout with a page table.  Its memory is the address space
together with the pool that backs its pages: what a guest sees is the layout and
the bytes, while frames are given to pages when they are first touched.

Every operation here is an action on memory that answers or faults.  What an
action did before it faulted stays done: pages that it mapped stay mapped.  An
access is checked against the layout first, and only then is its page touched.
-/

namespace NestedMachine

set_option autoImplicit false

/-- A layout with the pages that are mapped. -/
structure AddressSpace where
  table : PageTable
  layout : Layout
  mode : MemoryMode
  /-- How many pages were mapped by touching them. -/
  pageFaults : Nat

namespace AddressSpace

/-- An address space without pages. -/
def empty (layout : Layout) (mode : MemoryMode) : AddressSpace := ⟨∅, layout, mode, 0⟩

/-- An address space without pages, of the same layout and mode. -/
def emptyCopy (space : AddressSpace) : AddressSpace := empty space.layout space.mode

/-- How many pages are mapped. -/
def mappedPages (space : AddressSpace) : Nat := space.table.size

/-- Pages that start before the end of the code cannot be written. -/
def permissionOf (space : AddressSpace) (page : Nat) : Permission :=
  if pageAddress page < space.layout.codeEnd then .readOnly else .readWrite

/-- Map a page that was touched. -/
def mapOnTouch (space : AddressSpace) (page : Nat) (entry : PageEntry) : AddressSpace :=
  { space with
    table := space.table.insert page entry
    pageFaults := space.pageFaults + 1 }

/-- Map a page without counting it as touched. -/
def mapCopied (space : AddressSpace) (page : Nat) (entry : PageEntry) : AddressSpace :=
  { space with table := space.table.insert page entry }

end AddressSpace

/-- An address space, the pool that backs it, and the journal. -/
structure Memory where
  space : AddressSpace
  pool : FramePool
  journal : Journal

/-- An action on memory that answers or faults. -/
abbrev MemoryAction := EStateM Fault Memory

namespace Memory

/-! ## Pages -/

/-- The entry of a page, which is mapped now if it was not. -/
def ensureMapped (page : Nat) : MemoryAction PageEntry
  | ⟨space, pool, journal⟩ =>
      match space.table[page]? with
      | some entry => .ok entry ⟨space, pool, journal⟩
      | none =>
          match pool.alloc with
          | (some frame, pool) =>
              let entry : PageEntry := ⟨frame, space.permissionOf page⟩
              let journal := journal.add (.pageMapped (pageAddress page) frame)
              .ok entry ⟨space.mapOnTouch page entry, pool, journal⟩
          | (none, pool) => .error .outOfFrames ⟨space, pool, journal⟩

/-- Map pages in order, until the pool runs dry. -/
def ensureAllMapped : List Nat → MemoryAction Unit
  | [] => pure ()
  | page :: rest => do
      let _ ← ensureMapped page
      ensureAllMapped rest

/-- Map every page that the segments occupy. -/
def mapAll : MemoryAction Unit := do
  ensureAllMapped (← get).space.layout.pages

/-- Check an access to one address. -/
def check (address : Nat) (access : Access) : MemoryAction Unit := do
  match (← get).space.layout.check address access with
  | .ok _ => pure ()
  | .error fault => throw fault

/-- Check an access to a range of addresses. -/
def checkRange (address size : Nat) (access : Access) : MemoryAction Unit := do
  match (← get).space.layout.checkRange address size access with
  | .ok () => pure ()
  | .error fault => throw fault

/-- The byte of physical memory behind an address.  The page is mapped before its permission is
looked at, so that a refused write can leave a page behind. -/
def translate (address : Nat) (access : Access) : MemoryAction PhysicalAddress := do
  check address access
  let entry ← ensureMapped (pageOf address)
  if access = .write ∧ entry.permission = .readOnly then throw (.segmentation address)
  return ⟨entry.frame, pageOffset address⟩

/-! ## Bytes of one page -/

/-- Read bytes of one frame. -/
def peek (place : PhysicalAddress) (size : Nat) : MemoryAction Bytes := do
  return (← get).pool.read place.frame place.offset size

/-- Write bytes of one frame. -/
def poke (place : PhysicalAddress) (bytes : Bytes) : MemoryAction Unit :=
  modify fun memory => { memory with pool := memory.pool.write place.frame place.offset bytes }

/-- Fault unless an address is a multiple of a size. -/
def requireAligned (address size : Nat) : MemoryAction Unit :=
  if isAligned address size then pure () else throw (.misaligned address)

/-! ## Words -/

/-- Fetch the instruction word at an address. -/
def fetch (address : Nat) : MemoryAction Word := do
  requireAligned address Instruction.size
  let place ← translate address .fetch
  return BitVec.ofNat 32 (Bytes.toNat (← peek place Instruction.size))

/-- Load the machine word at an address. -/
def load (address : Nat) : MemoryAction UInt64 := do
  requireAligned address wordSize
  checkRange address wordSize .read
  let place ← translate address .read
  return UInt64.ofNat (Bytes.toNat (← peek place wordSize))

/-- Store a machine word at an address. -/
def store (address : Nat) (value : UInt64) : MemoryAction Unit := do
  requireAligned address wordSize
  checkRange address wordSize .write
  let place ← translate address .write
  poke place (Bytes.ofNat wordSize value.toNat)

/-! ## Strings of bytes

A string of bytes is cut at the page bounds into chunks, and each chunk is
transferred by itself, after the whole range has been checked. -/

/-- A run of addresses within one page. -/
structure Chunk where
  address : Nat
  size : Nat
  deriving DecidableEq, Repr

/-- How many of `size` bytes from an address on lie in the page of that address. -/
def chunkSize (address size : Nat) : Nat := min (pageSize - pageOffset address) size

/-- Cut a range at the page bounds.  Each chunk takes at least one byte, so as many steps as there
are bytes suffice. -/
def chunksWithin : Nat → Nat → Nat → List Chunk
  | 0, _, _ => []
  | steps + 1, address, size =>
      if size = 0 then []
      else
        let taken := chunkSize address size
        ⟨address, taken⟩ :: chunksWithin steps (address + taken) (size - taken)

/-- The chunks of a range, in ascending order. -/
def chunks (address size : Nat) : List Chunk := chunksWithin size address size

/-- Read the bytes of chunks. -/
def readChunks : List Chunk → MemoryAction Bytes
  | [] => pure []
  | chunk :: rest => do
      let place ← translate chunk.address .read
      let front ← peek place chunk.size
      let back ← readChunks rest
      return front ++ back

/-- Write bytes into chunks, under the given access. -/
def writeChunks (access : Access) : List Chunk → Bytes → MemoryAction Unit
  | [], _ => pure ()
  | chunk :: rest, bytes => do
      let place ← translate chunk.address access
      poke place (bytes.take chunk.size)
      writeChunks access rest (bytes.drop chunk.size)

/-- Read a range of bytes. -/
def readBytes (address size : Nat) : MemoryAction Bytes := do
  checkRange address size .read
  readChunks (chunks address size)

/-- Write bytes from an address on. -/
def writeBytes (address : Nat) (bytes : Bytes) : MemoryAction Unit := do
  checkRange address bytes.length .write
  writeChunks .write (chunks address bytes.length) bytes

/-- Write bytes from an address on, into code as well.  Only a loader may. -/
def preload (address : Nat) (bytes : Bytes) : MemoryAction Unit := do
  checkRange address bytes.length .read
  writeChunks .read (chunks address bytes.length) bytes

/-- Read the bytes before the first zero, looking at no more than `limit` bytes. -/
def readStringFrom (start : Nat) : Nat → Nat → MemoryAction Bytes
  | 0, _ => throw (.segmentation start)
  | limit + 1, address => do
      let place ← translate address .read
      let byte := (← get).pool.byte place.frame place.offset
      if byte = 0 then return []
      return byte :: (← readStringFrom start limit (address + 1))

/-- Read the bytes before the first zero of a string.  A string that does not end within `limit`
bytes faults at its start. -/
def readString (address limit : Nat) : MemoryAction Bytes := readStringFrom address limit address

/-! ## The program break -/

/-- The first page that belongs to the heap alone; the page before it can also hold data. -/
def lowestHeapPage (layout : Layout) : Nat := pageAbove layout.heapStart

/-- The page after the last one that belongs to a heap with the given program break. -/
def heapTop (layout : Layout) (programBreak : Nat) : Nat :=
  max (pageAbove programBreak) (lowestHeapPage layout)

/-- Move the program break without touching pages. -/
def setBreakOnly (programBreak : Nat) : MemoryAction Unit :=
  modify fun memory =>
    { memory with
      space := { memory.space with layout := { memory.space.layout with programBreak } } }

/-- Unmap the pages of a range and give their frames back. -/
def unmapPages (start stop : Nat) : MemoryAction Unit :=
  modify fun memory =>
    let unmapped := memory.space.table.unmapRange start stop
    { memory with
      space := { memory.space with table := unmapped.2 }
      pool := memory.pool.releaseAll (unmapped.1.map fun entry => entry.2.frame) }

/-- Move the program break.  It stays between the start of the heap and the stack.  It rises only if
the pool has a frame for every page that is added, although only a fully mapped address space takes
them at once; when it falls, the pages that lie wholly above it are unmapped. -/
def setProgramBreak (programBreak : Nat) : MemoryAction Nat := do
  let memory ← get
  let layout := memory.space.layout
  if programBreak < layout.heapStart ∨ layout.maxBreak < programBreak then
    throw (.segmentation programBreak)
  let before := heapTop layout layout.programBreak
  let after := heapTop layout programBreak
  if before < after then
    if memory.pool.available < memory.space.table.unmappedIn before after then
      throw .outOfFrames
    setBreakOnly programBreak
    if memory.space.mode = .fullyMapped then
      ensureAllMapped (List.range' before (after - before))
  else
    setBreakOnly programBreak
    unmapPages after before
  return programBreak

/-! ## Whole address spaces -/

/-- The memory with every page unmapped and its frame given back, and how many pages there were. -/
def freed : Memory → Nat × Memory
  | ⟨space, pool, journal⟩ =>
      let entries := space.table.toList
      (entries.length, {
        space := { space with table := ∅ }
        pool := pool.releaseAll (entries.map fun entry => entry.2.frame)
        journal })

/-- Unmap every page and give the frames back; the answer is how many there were. -/
def releaseAll : MemoryAction Nat := fun memory =>
  let (count, memory) := memory.freed
  .ok count memory

/-- Give a copy of a page its own frame with the same contents. -/
def copyPage (page : Nat) (entry : PageEntry) : MemoryAction Unit
  | ⟨space, pool, journal⟩ =>
      match pool.alloc with
      | (some frame, pool) =>
          .ok () ⟨space.mapCopied page ⟨frame, entry.permission⟩,
            pool.copyFrame entry.frame frame, journal⟩
      | (none, pool) => .error .outOfFrames ⟨space, pool, journal⟩

/-- Copy pages in order. -/
def copyPages : List (Nat × PageEntry) → MemoryAction Unit
  | [] => pure ()
  | (page, entry) :: rest => do
      copyPage page entry
      copyPages rest

/-- Make this address space a copy of another, page by page.  Nothing happens unless the pool has a
frame for every page, and should it run dry all the same, every frame goes back. -/
def copyFrom (source : AddressSpace) : MemoryAction Unit := do
  if (← get).pool.available < source.table.size then throw .outOfFrames
  try copyPages source.table.toList
  catch fault =>
    let _ ← releaseAll
    throw fault
  modify fun memory =>
    { memory with space := { memory.space with layout := source.layout, mode := source.mode } }

end Memory

end NestedMachine
