import NestedMachine.Json.Value
import NestedMachine.Text.Numeral

/-!
# Reading JSON

The reader takes exactly the standard grammar: blanks are the space, the tab and
the two line ends, numerals have no leading zeros, control characters do not stand
in texts, and nothing but blanks may follow the value.

Each piece is read from the front of a list of characters and leaves the rest.
Values nest, so the reader carries a number of steps that bounds the nesting and
the length of lists; twice the length of the text is always enough, because of two
steps one takes a character.
-/

namespace NestedMachine.Json

set_option autoImplicit false

/-- What was read, and the characters after it. -/
abbrev Read (α : Type) := Option (α × List Char)

/-- Whether a character is blank. -/
def isBlank (char : Char) : Bool :=
  char = ' ' || char = '\t' || char = '\n' || char = '\r'

/-- The text after its leading blanks. -/
def skipBlanks (text : List Char) : List Char := text.dropWhile isBlank

/-- The text after a word that has to stand at its front. -/
def afterWord? : List Char → List Char → Option (List Char)
  | [], text => some text
  | expected :: word, char :: text => if expected = char then afterWord? word text else none
  | _ :: _, [] => none

/-! ## Texts -/

/-- One sixteen-bit unit, written as four hexadecimal digits. -/
def unit? : List Char → Read Nat
  | a :: b :: c :: d :: rest => (Numeral.value? 16 [a, b, c, d]).map (·, rest)
  | _ => none

/-- Whether a unit is the first half of a surrogate pair. -/
def isLeading (unit : Nat) : Bool := 0xd800 ≤ unit && unit < 0xdc00

/-- Whether a unit is the second half of a surrogate pair. -/
def isTrailing (unit : Nat) : Bool := 0xdc00 ≤ unit && unit < 0xe000

/-- The character of a surrogate pair. -/
def pairChar (leading trailing : Nat) : Char :=
  Char.ofNat (0x10000 + (leading - 0xd800) * 0x400 + (trailing - 0xdc00))

/-- The character that a letter after a backslash stands for. -/
def escaped? (letter : Char) : Option Char :=
  match letter with
  | '"' => some '"'
  | '\\' => some '\\'
  | '/' => some '/'
  | 'b' => some '\x08'
  | 'f' => some '\x0c'
  | 'n' => some '\n'
  | 'r' => some '\r'
  | 't' => some '\t'
  | _ => none

/-- One part of a text: a character, or half of a surrogate pair. -/
abbrev TextPart := Option Char

/-- The character that a unit and what follows it spell. -/
def unitPart (unit : Nat) (rest : List Char) : TextPart × List Char :=
  if isLeading unit then
    match rest with
    | '\\' :: 'u' :: more =>
        match unit? more with
        | some (trailing, after) =>
            if isTrailing trailing then (some (pairChar unit trailing), after) else (none, rest)
        | none => (none, rest)
    | _ => (none, rest)
  else if isTrailing unit then (none, rest)
  else (some (Char.ofNat unit), rest)

/-- One part of a text, at its front. -/
def textPart? : List Char → Read TextPart
  | '\\' :: 'u' :: rest => (unit? rest).map fun (unit, rest) => unitPart unit rest
  | '\\' :: letter :: rest => (escaped? letter).map fun char => (some char, rest)
  | '\\' :: [] => none
  | char :: rest => if char.toNat < 0x20 then none else some (some char, rest)
  | [] => none

/-- The parts of a text up to the closing quote. -/
def textParts? : Nat → List Char → Option (List TextPart × List Char)
  | 0, _ => none
  | _ + 1, '"' :: rest => some ([], rest)
  | steps + 1, text => do
      let (part, rest) ← textPart? text
      let (parts, rest) ← textParts? steps rest
      return (part :: parts, rest)

/-- The text that parts spell, if no half pair is among them. -/
def spelled? (parts : List TextPart) : Option String :=
  (parts.mapM id).map String.ofList

/-- A text after its opening quote. -/
def text? (steps : Nat) (text : List Char) : Read (Option String) :=
  (textParts? steps text).map fun (parts, rest) => (spelled? parts, rest)

/-! ## Numbers -/

/-- The digits at the front of a text. -/
def digits (text : List Char) : List Char × List Char :=
  (text.takeWhile Char.isDigit, text.dropWhile Char.isDigit)

/-- The digits of a whole number: a single zero, or digits that do not start with one. -/
def wholeDigits? (text : List Char) : Read (List Char) :=
  match digits text with
  | ([], _) => none
  | ('0' :: _ :: _, _) => none
  | (whole, rest) => some (whole, rest)

/-- The fraction at the front of a text, which may be absent. -/
def fraction? : List Char → Read (List Char)
  | '.' :: rest =>
      match digits rest with
      | ([], _) => none
      | (places, rest) => some ('.' :: places, rest)
  | text => some ([], text)

/-- The exponent at the front of a text, which may be absent. -/
def exponent? : List Char → Read (List Char)
  | letter :: rest =>
      if letter = 'e' ∨ letter = 'E' then
        let (sign, rest) :=
          match rest with
          | '+' :: rest => (['+'], rest)
          | '-' :: rest => (['-'], rest)
          | _ => ([], rest)
        match digits rest with
        | ([], _) => none
        | (places, rest) => some (letter :: (sign ++ places), rest)
      else some ([], letter :: rest)
  | [] => some ([], [])

/-- The number of a numeral. -/
def numberOf (negative : Bool) (whole fraction exponent : List Char) : Json :=
  let sign := if negative then ['-'] else []
  let numeral := String.ofList (sign ++ whole ++ fraction ++ exponent)
  match fraction, exponent, Numeral.value? 10 whole with
  | [], [], some magnitude =>
      if negative then
        if magnitude = 0 then .decimal numeral else .integer (-(magnitude : Int))
      else .integer magnitude
  | _, _, _ => .decimal numeral

/-- A number without its sign. -/
def unsigned? (negative : Bool) (text : List Char) : Option (Json × List Char) := do
  let (whole, rest) ← wholeDigits? text
  let (fraction, rest) ← fraction? rest
  let (exponent, rest) ← exponent? rest
  return (numberOf negative whole fraction exponent, rest)

/-- A number. -/
def number? : List Char → Read Json
  | '-' :: rest => unsigned? true rest
  | text => unsigned? false text

/-! ## Values -/

mutual

/-- A value, after leading blanks. -/
def value? : Nat → List Char → Read Json
  | 0, _ => none
  | steps + 1, text =>
      match skipBlanks text with
      | 'n' :: rest => (afterWord? ['u', 'l', 'l'] rest).map (.null, ·)
      | 't' :: rest => (afterWord? ['r', 'u', 'e'] rest).map (.bool true, ·)
      | 'f' :: rest => (afterWord? ['a', 'l', 's', 'e'] rest).map (.bool false, ·)
      | '"' :: rest => (text? steps rest).map fun (value, rest) => (.string value, rest)
      | '[' :: rest =>
          match skipBlanks rest with
          | ']' :: rest => some (.array [], rest)
          | rest => (items? steps rest).map fun (items, rest) => (.array items, rest)
      | '\x7b' :: rest =>
          match skipBlanks rest with
          | '\x7d' :: rest => some (.object [], rest)
          | rest => (members? steps rest).map fun (members, rest) => (.object members, rest)
      | rest => number? rest

/-- The items of an array, of which there is at least one, and its closing bracket. -/
def items? : Nat → List Char → Option (List Json × List Char)
  | 0, _ => none
  | steps + 1, text => do
      let (item, rest) ← value? steps text
      match skipBlanks rest with
      | ',' :: rest =>
          let (items, rest) ← items? steps rest
          return (item :: items, rest)
      | ']' :: rest => return ([item], rest)
      | _ => none

/-- The members of an object, of which there is at least one, and its closing brace. -/
def members? : Nat → List Char → Option (List (Option String × Json) × List Char)
  | 0, _ => none
  | steps + 1, text => do
      let .cons '"' rest := skipBlanks text | none
      let (name, rest) ← text? steps rest
      let .cons ':' rest := skipBlanks rest | none
      let (value, rest) ← value? steps rest
      match skipBlanks rest with
      | ',' :: rest =>
          let (members, rest) ← members? steps rest
          return ((name, value) :: members, rest)
      | '\x7d' :: rest => return ([(name, value)], rest)
      | _ => none

end

/-- The value that a text holds. -/
def ofText? (text : String) : Option Json :=
  let chars := text.toList
  match value? (2 * chars.length + 2) chars with
  | some (value, rest) => if (skipBlanks rest).isEmpty then some value else none
  | none => none

end NestedMachine.Json
