import NestedMachine.Memory.Address

/-!
# Frames and the frame pool

A frame holds 4096 bytes.  The pool hands out frames up to its capacity: a frame
that came back is handed out again before a new one is made, the last to come
back first, and every frame that is handed out reads zero.  A frame that is not
handed out cannot come back.
-/

namespace NestedMachine

set_option autoImplicit false

/-! ## Frames -/

/-- The contents of one frame. -/
abbrev Frame := Vector UInt8 4096

namespace Frame

/-- The frame of zeros. -/
def zero : Frame := Vector.replicate 4096 0

/-- The byte at an offset; there is nothing but zero past the end. -/
def byte (frame : Frame) (offset : Nat) : UInt8 := frame[offset]?.getD 0

/-- The bytes from an offset on. -/
def slice (frame : Frame) (offset : Nat) : Nat → List UInt8
  | 0 => []
  | size + 1 => frame.byte offset :: frame.slice (offset + 1) size

/-- The frame with bytes written from an offset on. -/
def overwrite (frame : Frame) (offset : Nat) : List UInt8 → Frame
  | [] => frame
  | byte :: rest => Frame.overwrite (frame.setIfInBounds offset byte) (offset + 1) rest

end Frame

/-! ## The pool -/

/-- The number of a frame. -/
abbrev FrameId := Nat

/-- One frame of the pool, and whether it is handed out. -/
structure Slot where
  contents : Frame
  taken : Bool

/-- The frames made so far, of which the free ones wait to be handed out again. -/
structure FramePool where
  slots : Array Slot
  /-- The frames that came back, the last one first. -/
  free : List FrameId
  /-- How many frames there can be. -/
  capacity : Nat
  /-- How many frames are handed out. -/
  inUse : Nat
  /-- The most frames that were ever handed out at once. -/
  peak : Nat

namespace FramePool

/-- A pool that has made no frame yet. -/
def empty (capacity : Nat) : FramePool := ⟨#[], [], capacity, 0, 0⟩

/-- How many frames can still be handed out. -/
def available (pool : FramePool) : Nat := pool.capacity - pool.inUse

/-- Count one more frame as handed out. -/
def countTaken (pool : FramePool) : FramePool :=
  { pool with inUse := pool.inUse + 1, peak := max pool.peak (pool.inUse + 1) }

/-- Hand out a frame of zeros, if one is left.  Otherwise the pool stays as it is. -/
def alloc : FramePool → Option FrameId × FramePool
  | ⟨slots, frame :: free, capacity, inUse, peak⟩ =>
      let slots := slots.modify frame fun _ => ⟨Frame.zero, true⟩
      (some frame, countTaken ⟨slots, free, capacity, inUse, peak⟩)
  | ⟨slots, [], capacity, inUse, peak⟩ =>
      if slots.size < capacity then
        (some slots.size, countTaken ⟨slots.push ⟨Frame.zero, true⟩, [], capacity, inUse, peak⟩)
      else (none, ⟨slots, [], capacity, inUse, peak⟩)

/-- Whether a frame is handed out. -/
def isTaken (pool : FramePool) (frame : FrameId) : Bool :=
  match pool.slots[frame]? with
  | some slot => slot.taken
  | none => false

/-- Take a frame back; a frame that is not handed out is ignored. -/
def release (pool : FramePool) (frame : FrameId) : FramePool :=
  if pool.isTaken frame then
    { pool with
      slots := pool.slots.modify frame fun slot => { slot with taken := false }
      free := frame :: pool.free
      inUse := pool.inUse - 1 }
  else pool

/-- Take frames back, in order. -/
def releaseAll (pool : FramePool) (frames : List FrameId) : FramePool :=
  frames.foldl release pool

/-- The contents of a frame; a frame that was never made reads zero. -/
def contents (pool : FramePool) (frame : FrameId) : Frame :=
  match pool.slots[frame]? with
  | some slot => slot.contents
  | none => Frame.zero

/-- The byte at an offset of a frame. -/
def byte (pool : FramePool) (frame : FrameId) (offset : Nat) : UInt8 :=
  (pool.contents frame).byte offset

/-- The bytes of a frame from an offset on. -/
def read (pool : FramePool) (frame : FrameId) (offset size : Nat) : List UInt8 :=
  (pool.contents frame).slice offset size

/-- Write bytes into a frame from an offset on. -/
def write (pool : FramePool) (frame : FrameId) (offset : Nat) (bytes : List UInt8) : FramePool :=
  { pool with
    slots := pool.slots.modify frame fun slot =>
      { slot with contents := Frame.overwrite slot.contents offset bytes } }

/-- Give one frame the contents of another. -/
def copyFrame (pool : FramePool) (source target : FrameId) : FramePool :=
  let copied := pool.contents source
  { pool with slots := pool.slots.modify target fun slot => { slot with contents := copied } }

end FramePool

end NestedMachine
