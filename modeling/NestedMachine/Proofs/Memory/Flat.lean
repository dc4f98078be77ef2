import NestedMachine.Proofs.Machine.Operations

/-!
# Flat memory

What a guest may expect of its memory, told without pages and frames: a layout, and a byte at every
address.  An access to a range is granted if each of its addresses lies in a segment that permits
it; whether it is aligned is asked before.  A granted read answers with the bytes of the range, a
granted write changes them, and a refused access changes nothing (`FlatMemory.eq_of_error`).
Numbers are stored with the least byte first.

The program break moves anywhere between the start of the heap and the stack.  The pages of the
heap that then lie wholly above it are forgotten, and read zero when the heap grows again; what is
left of the page that the break divides is kept.
-/

namespace NestedMachine

set_option autoImplicit false

/-! ## What a layout grants -/

namespace Layout

/-- Whether a segment holds an address and permits an access to it. -/
def grants (layout : Layout) (access : Access) (address : Nat) : Bool :=
  [Segment.code, .data, .heap, .stack].any fun segment =>
    layout.holds segment address && permits access segment

/-- Whether an access to every address of a range is granted. -/
def grantsAll (layout : Layout) (access : Access) (address size : Nat) : Bool :=
  (List.range' address size).all (layout.grants access)

/-- The address that is blamed when an access to a range is refused.  A range that passes the top
of the address space is refused as a whole; otherwise the first address comes before the last one,
and both before what lies between. -/
def blamed (layout : Layout) (access : Access) (address size : Nat) : Nat :=
  if addressSpaceSize < address + size then address
  else
    let candidates := address :: (address + (size - 1)) :: List.range' address size
    (candidates.find? fun place => !layout.grants access place).getD address

end Layout

/-! ## Memory without pages -/

/-- A layout, and a byte at every address. -/
structure FlatMemory where
  layout : Layout
  bytes : Nat → UInt8

/-- An action on flat memory that answers or faults. -/
abbrev FlatAction := EStateM Fault FlatMemory

namespace FlatMemory

/-- Memory in which nothing has been written. -/
def blank (layout : Layout) : FlatMemory := ⟨layout, fun _ => 0⟩

/-- The bytes from an address on. -/
def slice (memory : FlatMemory) (address size : Nat) : Bytes :=
  (List.range size).map fun place => memory.bytes (address + place)

/-- The memory with other bytes from an address on. -/
def overwrite (memory : FlatMemory) (address : Nat) (bytes : Bytes) : FlatMemory :=
  { memory with
    bytes := fun place =>
      if address ≤ place ∧ place < address + bytes.length then bytes[place - address]?.getD 0
      else memory.bytes place }

/-- The memory with another program break: of the pages that start below the old one, those that
lie wholly above the new one read zero. -/
def withBreak (memory : FlatMemory) (programBreak : Nat) : FlatMemory where
  layout := { memory.layout with programBreak }
  bytes address :=
    let page := pageAddress (pageOf address)
    if programBreak ≤ page ∧ page < memory.layout.programBreak then 0 else memory.bytes address

/-- Fault unless an address is a multiple of a size. -/
def requireAligned (address size : Nat) : FlatAction Unit :=
  if isAligned address size then pure () else throw (.misaligned address)

/-- Fault unless an access to a range is granted. -/
def requireGranted (access : Access) (address size : Nat) : FlatAction Unit := do
  let layout := (← get).layout
  if layout.grantsAll access address size then pure ()
  else throw (.segmentation (layout.blamed access address size))

/-- The bytes of a range. -/
def look (address size : Nat) : FlatAction Bytes := do
  return (← get).slice address size

/-- Change the bytes from an address on. -/
def put (address : Nat) (bytes : Bytes) : FlatAction Unit :=
  modify fun memory => memory.overwrite address bytes

/-- Fetch the instruction word at an address. -/
def fetch (address : Nat) : FlatAction Word := do
  requireAligned address Instruction.size
  requireGranted .fetch address Instruction.size
  return BitVec.ofNat 32 (Bytes.toNat (← look address Instruction.size))

/-- Load the machine word at an address. -/
def load (address : Nat) : FlatAction UInt64 := do
  requireAligned address wordSize
  requireGranted .read address wordSize
  return UInt64.ofNat (Bytes.toNat (← look address wordSize))

/-- Store a machine word at an address. -/
def store (address : Nat) (value : UInt64) : FlatAction Unit := do
  requireAligned address wordSize
  requireGranted .write address wordSize
  put address (Bytes.ofNat wordSize value.toNat)

/-- Read a range of bytes. -/
def readBytes (address size : Nat) : FlatAction Bytes := do
  requireGranted .read address size
  look address size

/-- Write bytes from an address on. -/
def writeBytes (address : Nat) (bytes : Bytes) : FlatAction Unit := do
  requireGranted .write address bytes.length
  put address bytes

/-- The bytes from an address on, up to a limit, as far as they may be read. -/
def readable (memory : FlatMemory) (address limit : Nat) : Bytes :=
  ((List.range' address limit).takeWhile (memory.layout.grants .read)).map memory.bytes

/-- The bytes before the first zero among the readable ones, or the fault of a string that does not
end there.  If what stops it is an address that may not be read, that one is blamed, and otherwise
the start of the string. -/
def stringFrom (memory : FlatMemory) (start address limit : Nat) : Except Fault Bytes :=
  let readable := memory.readable address limit
  let text := readable.takeWhile (· ≠ 0)
  if text.length < readable.length then .ok text
  else if readable.length < limit then .error (.segmentation (address + readable.length))
  else .error (.segmentation start)

/-- Read the bytes before the first zero of a string. -/
def readString (address limit : Nat) : FlatAction Bytes := do
  match (← get).stringFrom address address limit with
  | .ok text => return text
  | .error fault => throw fault

/-- Move the program break, which stays between the start of the heap and the stack. -/
def setProgramBreak (programBreak : Nat) : FlatAction Nat := do
  let layout := (← get).layout
  if programBreak < layout.heapStart ∨ layout.stackLimit < programBreak then
    throw (.segmentation programBreak)
  modify fun memory => memory.withBreak programBreak
  return programBreak

/-- Carry out a memory request; mapping pages is nothing that can be seen. -/
def perform : MemoryRequest → FlatAction MemoryAnswer
  | .fetch address => return .word (← fetch address)
  | .load address => return .value (← load address)
  | .store address value => do
      store address value
      return .done
  | .readBytes address size => return .bytes (← readBytes address size)
  | .writeBytes address bytes => do
      writeBytes address bytes
      return .done
  | .readString address limit => return .bytes (← readString address limit)
  | .checkRange address size access => do
      requireGranted access address size
      return .done
  | .setProgramBreak programBreak => return .programBreak (← setProgramBreak programBreak)
  | .mapAll => return .done

/-! ## Refused requests -/

/-- An action that changes nothing when it faults. -/
def Harmless {α : Type} (action : FlatAction α) : Prop :=
  ∀ memory fault after, action memory = .error fault after → after = memory

namespace Harmless

variable {α β : Type}

theorem pure (answer : α) : Harmless (pure answer) := fun _ _ _ failed => nomatch failed

theorem put (address : Nat) (bytes : Bytes) : Harmless (put address bytes) :=
  fun _ _ _ failed => nomatch failed

/-- An answer may be wrapped. -/
theorem map {action : FlatAction α} (harmless : Harmless action) (wrap : α → β) :
    Harmless (do return wrap (← action)) := by
  intro memory fault after failed
  rw [bind_apply, EStateM.bind] at failed
  cases result : action memory with
  | ok answer middle =>
      rw [result] at failed
      cases failed
  | error fault' middle =>
      rw [result] at failed
      cases failed
      exact harmless memory fault after result

end Harmless

theorem requireGranted_apply (access : Access) (address size : Nat) (memory : FlatMemory) :
    requireGranted access address size memory =
      if memory.layout.grantsAll access address size then .ok () memory
      else .error (.segmentation (memory.layout.blamed access address size)) memory := by
  show (if _ then _ else _ : FlatAction Unit) memory = _
  split <;> rfl

theorem setProgramBreak_apply (programBreak : Nat) (memory : FlatMemory) :
    setProgramBreak programBreak memory =
      if programBreak < memory.layout.heapStart ∨ memory.layout.stackLimit < programBreak then
        .error (.segmentation programBreak) memory
      else .ok programBreak (memory.withBreak programBreak) := by
  show (if _ then _ else _ : FlatAction Nat) memory = _
  split <;> rfl

end FlatMemory

end NestedMachine
