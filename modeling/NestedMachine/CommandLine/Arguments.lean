import NestedMachine.Text.Numeral

/-!
# Command line arguments

A switch has a long name behind two dashes, and some have a letter behind one.
The value of a switch follows as the next argument, or in the same one: behind an
equals sign, or directly behind the letter.  A next argument that starts with a
dash is no value, unless it is a single dash.  No switch is given twice.  What
follows two dashes is passed on to the guest; nothing else stands by itself.
-/

namespace NestedMachine.CommandLine

set_option autoImplicit false

/-! ## Switches -/

/-- What can be set on the command line. -/
inductive Switch where
  | configuration
  | program
  | level
  | record
  | replay
  | statistics
  deriving DecidableEq, Repr

namespace Switch

/-- The switch of a long name. -/
def ofName? (name : String) : Option Switch :=
  match name with
  | "config" => some .configuration
  | "file" => some .program
  | "level" => some .level
  | "record" => some .record
  | "replay" => some .replay
  | "stats" => some .statistics
  | _ => none

/-- The switch of a letter. -/
def ofLetter? (letter : Char) : Option Switch :=
  match letter with
  | 'c' => some .configuration
  | 'f' => some .program
  | 'l' => some .level
  | _ => none

/-- Whether a switch takes a value. -/
def takesValue : Switch → Bool
  | .statistics => false
  | _ => true

end Switch

/-! ## Single arguments -/

/-- An argument that is no value. -/
inductive Token where
  /-- A switch, with its value if the same argument holds one. -/
  | switch (switch : Switch) (value : Option String)
  /-- Two dashes. -/
  | separator
  deriving DecidableEq, Repr

/-- A text cut at its first equals sign. -/
def cutAtEquals (text : List Char) : List Char × Option (List Char) :=
  let isName (char : Char) : Bool := char != '='
  match text.dropWhile isName with
  | _ :: value => (text.takeWhile isName, some value)
  | [] => (text, none)

/-- What an argument is that is no value; nothing if there is no such switch. -/
def token? (argument : String) : Option Token :=
  match argument.toList with
  | ['-', '-'] => some .separator
  | '-' :: '-' :: text =>
      let (name, value) := cutAtEquals text
      (Switch.ofName? (String.ofList name)).map (.switch · (value.map String.ofList))
  | '-' :: letter :: text =>
      let value :=
        match text with
        | [] => none
        | '=' :: value => some (String.ofList value)
        | value => some (String.ofList value)
      (Switch.ofLetter? letter).map (.switch · value)
  | _ => none

/-- Whether an argument can be the value of the switch before it. -/
def isValue (argument : String) : Bool := argument = "-" || !argument.startsWith "-"

/-! ## Whole command lines -/

/-- The switches of a command line with their values, and what is passed on to the guest. -/
structure Settings where
  values : List (Switch × String)
  guest : List String
  deriving DecidableEq, Repr

/-- Put a switch in front of settings. -/
def Settings.add (settings : Settings) (switch : Switch) (value : String) : Settings :=
  { settings with values := (switch, value) :: settings.values }

/-- Read the arguments one after the other. -/
def settings? : List String → Option Settings
  | [] => some ⟨[], []⟩
  | argument :: rest =>
      match token? argument with
      | none => none
      | some .separator => some ⟨[], rest⟩
      | some (.switch switch (some value)) =>
          if switch.takesValue then (settings? rest).map (·.add switch value) else none
      | some (.switch switch none) =>
          if switch.takesValue then
            match rest with
            | value :: rest =>
                if isValue value then (settings? rest).map (·.add switch value) else none
            | [] => none
          else (settings? rest).map (·.add switch "")

/-- What the command line asks for. -/
structure Arguments where
  configuration : Option String
  program : String
  level : Option Nat
  record : Option String
  replay : Option String
  statistics : Bool
  guest : List String
  deriving DecidableEq, Repr

/-- Whether no switch is given twice. -/
def allDifferent : List (Switch × String) → Bool
  | [] => true
  | (switch, _) :: rest => (rest.lookup switch).isNone && allDifferent rest

/-- The number of a level: a decimal numeral of at most thirty-two bits, perhaps with a sign. -/
def level? (text : String) : Option Nat := do
  let value ← Numeral.signed? text.toList
  if 0 ≤ value ∧ value < UInt32.size then some value.toNat else none

/-- What a command line asks for.  The program has to be named, and calls cannot be recorded and
replayed at once. -/
def ofList? (arguments : List String) : Option Arguments := do
  let settings ← settings? arguments
  if !allDifferent settings.values then none
  let value (switch : Switch) : Option String := settings.values.lookup switch
  let program ← value .program
  if (value .record).isSome && (value .replay).isSome then none
  let level ←
    match value .level with
    | some text => (level? text).map some
    | none => some none
  return {
    configuration := value .configuration
    program
    level
    record := value .record
    replay := value .replay
    statistics := (value .statistics).isSome
    guest := settings.guest }

end NestedMachine.CommandLine
