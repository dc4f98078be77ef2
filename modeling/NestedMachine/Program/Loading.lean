import NestedMachine.Machine.Context
import NestedMachine.Program.Image

/-!
# Loading a program

A program is loaded into an address space of its own: its code and data are
copied, and the stack is built from the top down.  First come the argument
strings, each closed by a zero byte and each below the one before; below them,
at a multiple of eight, lies an array of words: the number of arguments, a pointer
to each, and a closing zero.  The stack pointer is left at the start of the array.

If anything fails, every frame that was taken goes back to the pool.
-/

namespace NestedMachine

set_option autoImplicit false

/-- How a program is loaded. -/
structure LoadOptions where
  mode : MemoryMode
  stackSize : Nat
  arguments : List String
  deriving DecidableEq, Repr

namespace Loading

/-- Move down from `top` by `size` bytes; the stack must not pass its limit. -/
def reserve (top size : Nat) : MemoryAction Nat := do
  if top < (← get).space.layout.stackLimit + size then throw (.segmentation top)
  return top - size

/-- Put the argument strings below `top`.  The answer is where the last one starts, and where each
one starts. -/
def pushArguments : List String → Nat → MemoryAction (Nat × List Nat)
  | [], top => return (top, [])
  | argument :: rest, top => do
      let text := Bytes.ofString argument ++ [0]
      let start ← reserve top text.length
      Memory.writeBytes start text
      let (bottom, starts) ← pushArguments rest start
      return (bottom, start :: starts)

/-- Store words one after the other. -/
def storeWords : Nat → List Nat → MemoryAction Unit
  | _, [] => pure ()
  | address, word :: rest => do
      Memory.store address (UInt64.ofNat word)
      storeWords (address + wordSize) rest

/-- Build the stack; the answer is the stack pointer. -/
def buildStack (arguments : List String) : MemoryAction Nat := do
  let (bottom, starts) ← pushArguments arguments addressSpaceSize
  let aligned := bottom / wordSize * wordSize
  let stackPointer ← reserve aligned ((arguments.length + 2) * wordSize)
  storeWords stackPointer (arguments.length :: (starts ++ [0]))
  return stackPointer

/-- Fill a new address space; the answer is the stack pointer. -/
def populate (image : Image) (arguments : List String) : MemoryAction Nat := do
  if (← get).space.mode = .fullyMapped then Memory.mapAll
  Memory.preload codeStart image.code
  Memory.preload (← get).space.layout.dataStart image.data
  buildStack arguments

/-- The error of a load that a fault ended. -/
def errorOf (id : ContextId) (image : Image) (fault : Fault) : HostError :=
  if fault = .outOfFrames then .memoryExhausted id (UInt64.ofNat image.entry)
  else .loadFailed (.fault fault)

/-- The hart of a program about to start. -/
def firstHart (image : Image) (stackPointer : Nat) : Hart where
  registers := Registers.zero.write Register.sp (UInt64.ofNat stackPointer)
  pc := UInt64.ofNat image.entry

/-- The note that a program was loaded. -/
def loadedNote (id : ContextId) (image : Image) (options : LoadOptions) : Note :=
  .contextLoaded id image.code.length image.data.length image.entry options.arguments.length

/-- The layout that a program gets. -/
def layoutOf (image : Image) (options : LoadOptions) : Except HostError Layout :=
  match image.validate with
  | .error defect => .error (.invalidImage defect)
  | .ok () =>
      match Layout.ofSizes image.code.length image.data.length options.stackSize with
      | .error defect => .error (.loadFailed defect)
      | .ok layout => .ok layout

/-- Load a program as the context of the given number. -/
def load (id : ContextId) (image : Image) (options : LoadOptions) (pool : FramePool)
    (journal : Journal) : Except HostError Context × FramePool × Journal :=
  match layoutOf image options with
  | .error error => (.error error, pool, journal)
  | .ok layout =>
      match populate image options.arguments ⟨.empty layout options.mode, pool, journal⟩ with
      | .ok stackPointer memory =>
          (.ok (.start memory.space (firstHart image stackPointer)), memory.pool,
            memory.journal.add (loadedNote id image options))
      | .error fault memory =>
          let memory := memory.freed.2
          (.error (errorOf id image fault), memory.pool, memory.journal)

end Loading

end NestedMachine
