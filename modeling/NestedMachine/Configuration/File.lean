import NestedMachine.Configuration.Basic
import NestedMachine.Toml.Document

/-!
# Stored configurations

A configuration is stored as a document of four tables, in which everything can be
left out.  Names that mean nothing here are skipped.  A table can also be written
as a list of its values in their order, of which the last ones can be left out and
those too many are skipped, and a mode as a table whose only name is the mode.  A
date or a time in place of a table says nothing, like a name that means nothing.
-/

namespace NestedMachine

set_option autoImplicit false

namespace Configuration

/-! ## Values -/

/-- The truth value that a value is. -/
def bool? : Toml → Option Bool
  | .bool value => some value
  | _ => none

/-- The text that a value is. -/
def text? : Toml → Option String
  | .string value => some value
  | _ => none

/-- The natural number below a bound that a value is. -/
def naturalBelow? (bound : Nat) : Toml → Option Nat
  | .integer value => if 0 ≤ value ∧ value < bound then some value.toNat else none
  | _ => none

/-- The word that a value is, by itself or as the only name of a table, which then leads to a table
without content. -/
def word? : Toml → Option String
  | .string value => some value
  | .table [(name, .table [])] => some name
  | _ => none

/-- The memory mode that a value is. -/
def memoryMode? (value : Toml) : Option MemoryMode :=
  match word? value with
  | some "demand" => some .demand
  | some "fully_mapped" => some .fullyMapped
  | _ => none

/-- The replay mode that a value is. -/
def replayMode? (value : Toml) : Option ReplayMode :=
  match word? value with
  | some "off" => some .off
  | some "record" => some .record
  | some "replay" => some .replay
  | _ => none

/-! ## Tables -/

/-- The value of a name in a table, or at the place of that name in a list; `none` stands for a
value that is left out. -/
def fieldOf (names : List String) (name : String) : Toml → Option Toml
  | .table members => Toml.member? members name
  | .array items => (names.idxOf? name).bind fun place => items[place]?
  | _ => none

/-- Whether a value can stand for a table. -/
def isTableLike : Toml → Bool
  | .table _ | .array _ | .moment => true
  | _ => false

/-- Read the field of a name, or take what stands for it when it is left out. -/
def read? {α : Type} (names : List String) (table : Toml) (name : String)
    (convert : Toml → Option α) (otherwise : α) : Option α :=
  match fieldOf names name table with
  | some value => convert value
  | none => some otherwise

/-- The table of a name, which can be left out. -/
def tableOf? (members : List (String × Toml)) (name : String) : Option Toml :=
  match Toml.member? members name with
  | none => some (.table [])
  | some table => if isTableLike table then some table else none

/-- The names in the table `general`, in order. -/
def generalNames : List String := ["trace_instructions", "log_level"]

/-- The names in the table `memory`, in order. -/
def memoryNames : List String := ["frames", "mode", "stack_size"]

/-- The names in the table `scheduler`, in order. -/
def schedulerNames : List String := ["quantum", "virtualization_level"]

/-- The names in the table `replay`, in order. -/
def replayNames : List String := ["mode", "trace_file"]

/-- Read the four tables. -/
def ofMembers? (members : List (String × Toml)) : Option Configuration := do
  let general ← tableOf? members "general"
  let memory ← tableOf? members "memory"
  let scheduler ← tableOf? members "scheduler"
  let replay ← tableOf? members "replay"
  return {
    traceInstructions :=
      ← read? generalNames general "trace_instructions" bool? standard.traceInstructions
    logLevel := ← read? generalNames general "log_level" text? standard.logLevel
    frames := ← read? memoryNames memory "frames" (naturalBelow? UInt64.size) standard.frames
    mode := ← read? memoryNames memory "mode" memoryMode? standard.mode
    stackSize :=
      ← read? memoryNames memory "stack_size" (naturalBelow? UInt64.size) standard.stackSize
    quantum :=
      ← read? schedulerNames scheduler "quantum" (naturalBelow? UInt64.size) standard.quantum
    level :=
      ← read? schedulerNames scheduler "virtualization_level" (naturalBelow? UInt32.size)
        standard.level
    replayMode := ← read? replayNames replay "mode" replayMode? standard.replayMode
    traceFile :=
      ← read? replayNames replay "trace_file" (fun value => (text? value).map some)
        standard.traceFile }

/-- Read and check a stored configuration. -/
def ofText (text : String) : Except HostError Configuration :=
  match (Toml.ofText? text).bind ofMembers? with
  | none => .error .malformedConfiguration
  | some configuration =>
      match configuration.validate with
      | .ok () => .ok configuration
      | .error error => .error error

end Configuration

end NestedMachine
