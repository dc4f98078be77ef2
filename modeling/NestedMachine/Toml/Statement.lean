import NestedMachine.Toml.Scalar

/-!
# TOML statements

A document is a list of statements, one to a line: the heading of a table, the
heading of an item of an array of tables, or an assignment of a value to a key.  A
key is a path of names.  The tables between braces are put together here; the
tables that headings and keys build up belong to the document.

Nothing nests too deeply: there is one limit for the brackets and braces around a
value, and for the names of a key.
-/

namespace NestedMachine.Toml

set_option autoImplicit false

/-! ## Keys -/

/-- Whether a character can stand in a name without quotes. -/
def isBare (char : Char) : Bool :=
  ('a' ≤ char && char ≤ 'z') || ('A' ≤ char && char ≤ 'Z') || ('0' ≤ char && char ≤ '9')
    || char = '-' || char = '_'

/-- One name of a key. -/
def name? (text : List Char) : Read String :=
  match text with
  | '"' :: _ => lineString? text
  | '\'' :: _ => lineString? text
  | _ =>
      let bare := text.takeWhile isBare
      if bare.isEmpty then none else some (String.ofList bare, text.dropWhile isBare)

/-- How many levels a key or a value may have; there have to be fewer. -/
def nestingLimit : Nat := 128

/-- Names with points between them and blanks around each. -/
def names? : Nat → List Char → Option (List String × List Char)
  | 0, _ => none
  | steps + 1, text => do
      let (name, rest) ← name? (skipBlanks text)
      match skipBlanks rest with
      | '.' :: rest =>
          let (names, rest) ← names? steps rest
          return (name :: names, rest)
      | rest => return ([name], rest)

/-- A key. -/
def key? (text : List Char) : Read (List String) :=
  (names? (text.length + 1) text).filter fun key => key.1.length < nestingLimit

/-! ## Tables between braces -/

/-- Assign a value to a key of a table between braces.  The tables on the way are made as needed,
and no name is given a second value. -/
def assign? (value : Toml) : List String → List (String × Toml) → Option (List (String × Toml))
  | [], _ => none
  | [name], members =>
      if (member? members name).isSome then none else some (members ++ [(name, value)])
  | name :: rest, members =>
      match member? members name with
      | none => (assign? value rest []).map fun inner => members ++ [(name, .table inner)]
      | some (.table inner) =>
          (assign? value rest inner).map fun inner =>
            members.map fun field => if field.1 == name then (name, .table inner) else field
      | some _ => none

/-- Assign values to keys, in order. -/
def assignAll? (members : List (String × Toml)) :
    List (List String × Toml) → Option (List (String × Toml))
  | [] => some members
  | (key, value) :: rest =>
      match assign? value key members with
      | some members => assignAll? members rest
      | none => none

/-! ## Values -/

mutual

/-- A value, around whose parts there can be `room` more brackets and braces. -/
def value? : Nat → Nat → List Char → Option (Toml × List Char)
  | 0, _, _ => none
  | steps + 1, room, text =>
      match text, room with
      | '"' :: _, _ => (string? text).map fun (value, rest) => (.string value, rest)
      | '\'' :: _, _ => (string? text).map fun (value, rest) => (.string value, rest)
      | 't' :: rest, _ => (afterWord? ['r', 'u', 'e'] rest).map (.bool true, ·)
      | 'f' :: rest, _ => (afterWord? ['a', 'l', 's', 'e'] rest).map (.bool false, ·)
      | '[' :: _, 0 => none
      | '[' :: rest, room + 1 =>
          (items? steps room rest).map fun (items, rest) => (.array items, rest)
      | '\x7b' :: _, 0 => none
      | '\x7b' :: rest, room + 1 =>
          match skipBlanks rest with
          | '\x7d' :: rest => some (.table [], rest)
          | rest => do
              let (fields, rest) ← fields? steps room rest
              return (.table (← assignAll? [] fields), rest)
      | text, _ => numberOrMoment? text

/-- The items of an array, with commas between and perhaps behind them, and the closing bracket.
Comments and line ends can stand around each item. -/
def items? : Nat → Nat → List Char → Option (List Toml × List Char)
  | 0, _, _ => none
  | steps + 1, room, text =>
      match skipLines (text.length + 1) text with
      | ']' :: rest => some ([], rest)
      | text => do
          let (item, rest) ← value? steps room text
          match skipLines (rest.length + 1) rest with
          | ']' :: rest => return ([item], rest)
          | ',' :: rest =>
              let (items, rest) ← items? steps room rest
              return (item :: items, rest)
          | _ => none

/-- The fields of a table between braces, of which there is at least one, and the closing brace. -/
def fields? : Nat → Nat → List Char → Option (List (List String × Toml) × List Char)
  | 0, _, _ => none
  | steps + 1, room, text => do
      let (field, rest) ← field steps room text
      match skipBlanks rest with
      | '\x7d' :: rest => return ([field], rest)
      | ',' :: rest =>
          let (fields, rest) ← fields? steps room rest
          return (field :: fields, rest)
      | _ => none

/-- A key, an equals sign and a value. -/
def field : Nat → Nat → List Char → Option ((List String × Toml) × List Char)
  | 0, _, _ => none
  | steps + 1, room, text => do
      let (key, rest) ← key? text
      let rest ← after? '=' rest
      let (value, rest) ← value? steps room (skipBlanks rest)
      return ((key, value), rest)

end

/-! ## Statements -/

/-- One statement of a document. -/
inductive Statement where
  /-- What follows belongs to the table of this key. -/
  | heading (key : List String)
  /-- What follows belongs to a new item of the array of tables of this key. -/
  | itemHeading (key : List String)
  | assignment (key : List String) (value : Toml)
  deriving Repr

/-- The text after the end of a statement's line: blanks, a comment, and a line end or the end of
the document. -/
def afterLine? (text : List Char) : Option (List Char) :=
  match skipComment (skipBlanks text) with
  | [] => some []
  | rest => afterLineEnd? rest

/-- The closing brackets of a heading. -/
def afterBrackets? : Nat → List Char → Option (List Char)
  | 0, text => some text
  | count + 1, text => (after? ']' text).bind (afterBrackets? count)

/-- The statement at the front of a text. -/
def statement? (text : List Char) : Option (Statement × List Char) :=
  match text with
  | '[' :: '[' :: rest => do
      let (key, rest) ← key? rest
      return (.itemHeading key, ← afterBrackets? 2 rest)
  | '[' :: rest => do
      let (key, rest) ← key? rest
      return (.heading key, ← afterBrackets? 1 rest)
  | text => do
      let ((key, value), rest) ← field (2 * text.length + 2) (nestingLimit - 1) text
      return (.assignment key value, rest)

/-- The statements of a text, each on a line of its own. -/
def statements? : Nat → List Char → Option (List Statement)
  | 0, _ => none
  | steps + 1, text =>
      match skipLines (text.length + 1) text with
      | [] => some []
      | text => do
          let (statement, rest) ← statement? text
          let statements ← statements? steps (← afterLine? rest)
          return statement :: statements

/-- The statements of a document, in front of which a byte order mark can stand. -/
def statementsOf? (text : String) : Option (List Statement) :=
  let chars :=
    match text.toList with
    | '\ufeff' :: rest => rest
    | chars => chars
  statements? (chars.length + 1) chars

end NestedMachine.Toml
