import Std.Data.TreeMap
import NestedMachine.Memory.FramePool

/-!
# Page tables

A page table gives pages their frames, with the permission to write or without.
Pages are kept in ascending order, which is the order in which they are listed,
unmapped and given back.
-/

namespace NestedMachine

set_option autoImplicit false

/-- Whether a page can be written. -/
inductive Permission where
  | readOnly
  | readWrite
  deriving DecidableEq, Repr

/-- The name of a permission. -/
def Permission.name : Permission → String
  | .readOnly => "ReadOnly"
  | .readWrite => "ReadWrite"

/-- The frame of a page. -/
structure PageEntry where
  frame : FrameId
  permission : Permission
  deriving DecidableEq, Repr

/-- The frames of the pages that are mapped. -/
abbrev PageTable := Std.TreeMap Nat PageEntry

namespace PageTable

/-- The mapped pages of a range, in ascending order. -/
def entriesIn (table : PageTable) (start stop : Nat) : List (Nat × PageEntry) :=
  table.toList.filter fun entry => start ≤ entry.1 && entry.1 < stop

/-- Unmap the given pages. -/
def eraseAll (table : PageTable) (entries : List (Nat × PageEntry)) : PageTable :=
  entries.foldl (fun rest entry => Std.TreeMap.erase rest entry.1) table

/-- Unmap the pages of a range; the answer lists them in ascending order. -/
def unmapRange (table : PageTable) (start stop : Nat) : List (Nat × PageEntry) × PageTable :=
  let entries := table.entriesIn start stop
  (entries, table.eraseAll entries)

/-- How many pages of a range are not mapped. -/
def unmappedIn (table : PageTable) (start stop : Nat) : Nat :=
  (List.range' start (stop - start)).countP fun page => !table.contains page

end PageTable

end NestedMachine
