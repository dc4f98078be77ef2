import Std.Data.TreeMap
import NestedMachine.Host.Refusal
import NestedMachine.Memory.Bytes
import NestedMachine.SystemCall

/-!
# The buffer host

A buffer host keeps everything in memory: standard input is a fixed string of
bytes that is read from the front, the two output streams are collected, and
files are named strings of bytes.  Two guests that meet the same buffer host see
exactly the same world.

A descriptor has a position, which reads and writes move forward.  A read past
the end of a file gives nothing; a write past it fills the gap with zeros.
-/

namespace NestedMachine

set_option autoImplicit false

/-- A descriptor of a buffer host. -/
structure BufferDescriptor where
  path : String
  position : Nat
  readable : Bool
  writable : Bool
  append : Bool
  deriving DecidableEq, Repr

/-- A host that keeps everything in memory. -/
structure BufferHost where
  /-- What is left of standard input. -/
  input : Bytes
  output : Bytes
  errors : Bytes
  files : Std.TreeMap String Bytes
  descriptors : Std.TreeMap Nat BufferDescriptor
  nextDescriptor : Nat

/-- An action on a buffer host that answers or is refused. -/
abbrev BufferAction := EStateM HostRefusal BufferHost

namespace BufferHost

/-- A host with the given standard input and no files. -/
def withInput (input : Bytes) : BufferHost where
  input
  output := []
  errors := []
  files := ∅
  descriptors := ∅
  nextDescriptor := 3

/-- Add a file, or replace it. -/
def addFile (host : BufferHost) (path : String) (contents : Bytes) : BufferHost :=
  { host with files := host.files.insert path contents }

/-- The contents of a file. -/
def file? (host : BufferHost) (path : String) : Option Bytes := host.files[path]?

/-- The part of a file that a read delivers. -/
def window (contents : Bytes) (position size : Nat) : Bytes := (contents.drop position).take size

/-- A file after bytes have been written at a position, with zeros in any gap before it. -/
def overwritten (contents : Bytes) (position : Nat) (bytes : Bytes) : Bytes :=
  contents.take position ++ List.replicate (position - contents.length) 0 ++ bytes
    ++ contents.drop (position + bytes.length)

/-- Move the position of a descriptor. -/
def seek (host : BufferHost) (number : Nat) (descriptor : BufferDescriptor) (position : Nat) :
    BufferHost :=
  { host with descriptors := host.descriptors.insert number { descriptor with position } }

/-- Read at most `size` bytes. -/
def read (number size : Nat) : BufferAction Bytes := fun host =>
  if number = 0 then
    .ok (host.input.take size) { host with input := host.input.drop size }
  else
    match host.descriptors[number]? with
    | none => .error (.badDescriptor number) host
    | some descriptor =>
        if descriptor.readable then
          match host.files[descriptor.path]? with
          | none => .error .missing host
          | some contents =>
              let start := min descriptor.position contents.length
              let bytes := window contents start size
              .ok bytes (host.seek number descriptor (start + bytes.length))
        else .error (.badDescriptor number) host

/-- Write bytes; the answer is how many there were. -/
def write (number : Nat) (bytes : Bytes) : BufferAction Nat := fun host =>
  if number = 1 then .ok bytes.length { host with output := host.output ++ bytes }
  else if number = 2 then .ok bytes.length { host with errors := host.errors ++ bytes }
  else
    match host.descriptors[number]? with
    | none => .error (.badDescriptor number) host
    | some descriptor =>
        if descriptor.writable then
          let contents := host.files[descriptor.path]?.getD []
          let position := if descriptor.append then contents.length else descriptor.position
          let host := host.addFile descriptor.path (overwritten contents position bytes)
          .ok bytes.length (host.seek number descriptor (position + bytes.length))
        else .error (.badDescriptor number) host

/-- The descriptor of a file that was just opened. -/
def opened (path : String) (flags : OpenFlags) : BufferDescriptor where
  path
  position := 0
  readable := flags.reads
  writable := flags.writes
  append := flags.append

/-- Open a file.  A missing file is created if the flags say so, whatever the access; only a file
that is opened for writing is emptied. -/
def openFile (path : String) (flags : OpenFlags) : BufferAction Nat := fun host =>
  if !host.files.contains path && !flags.create then .error .missing host
  else
    let emptied := flags.writes && flags.truncate
    let host :=
      if emptied || !host.files.contains path then host.addFile path [] else host
    .ok host.nextDescriptor
      { host with
        descriptors := host.descriptors.insert host.nextDescriptor (opened path flags)
        nextDescriptor := host.nextDescriptor + 1 }

end BufferHost

end NestedMachine
