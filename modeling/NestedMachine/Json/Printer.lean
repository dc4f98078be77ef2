import NestedMachine.Json.Value

/-!
# Writing JSON

A value is written over several lines: every item and member on a line of its own,
two blanks further in than its list, and an empty list without a line end.
-/

namespace NestedMachine.Json

set_option autoImplicit false

/-- The blanks in front of a line at a depth. -/
def indentation (depth : Nat) : List Char := List.replicate (2 * depth) ' '

/-- A line end and the blanks that follow it. -/
def newLine (depth : Nat) : List Char := '\n' :: indentation depth

/-- One character of a text. -/
def charText (char : Char) : List Char :=
  match char with
  | '"' => ['\\', '"']
  | '\\' => ['\\', '\\']
  | '\n' => ['\\', 'n']
  | '\r' => ['\\', 'r']
  | '\t' => ['\\', 't']
  | '\x08' => ['\\', 'b']
  | '\x0c' => ['\\', 'f']
  | char =>
      if char.toNat < 0x20 then
        ['\\', 'u', '0', '0', Nat.digitChar (char.toNat / 16), Nat.digitChar (char.toNat % 16)]
      else [char]

/-- A text in quotes.  One that spells nothing is written as half a surrogate pair. -/
def quoted : Option String → List Char
  | some text => '"' :: (text.toList.flatMap charText ++ ['"'])
  | none => ['"', '\\', 'u', 'd', '8', '0', '0', '"']

mutual

/-- A value whose first line is at a depth. -/
def chars (depth : Nat) : Json → List Char
  | .null => ['n', 'u', 'l', 'l']
  | .bool true => ['t', 'r', 'u', 'e']
  | .bool false => ['f', 'a', 'l', 's', 'e']
  | .integer value => (toString value).toList
  | .decimal numeral => numeral.toList
  | .string value => quoted value
  | .array [] => ['[', ']']
  | .array (item :: rest) =>
      '[' :: (newLine (depth + 1) ++ chars (depth + 1) item ++ itemChars (depth + 1) rest
        ++ newLine depth ++ [']'])
  | .object [] => ['\x7b', '\x7d']
  | .object ((name, value) :: rest) =>
      '\x7b' :: (newLine (depth + 1) ++ quoted name ++ [':', ' '] ++ chars (depth + 1) value
        ++ memberChars (depth + 1) rest ++ newLine depth ++ ['\x7d'])

/-- The items after the first. -/
def itemChars (depth : Nat) : List Json → List Char
  | [] => []
  | item :: rest => ',' :: (newLine depth ++ chars depth item ++ itemChars depth rest)

/-- The members after the first. -/
def memberChars (depth : Nat) : List (Option String × Json) → List Char
  | [] => []
  | (name, value) :: rest =>
      ',' :: (newLine depth ++ quoted name ++ [':', ' '] ++ chars depth value
        ++ memberChars depth rest)

end

/-- The text of a value. -/
def toText (value : Json) : String := String.ofList (chars 0 value)

end NestedMachine.Json
