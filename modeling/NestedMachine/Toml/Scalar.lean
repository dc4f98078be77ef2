import NestedMachine.Text.Numeral
import NestedMachine.Toml.Value

/-!
# TOML scalars

The pieces of a document that hold no other values: blanks and line ends, strings
of four kinds, numbers, dates and times.  Each reader takes its piece from the front
of a list of characters and leaves the rest, or refuses.
-/

namespace NestedMachine.Toml

set_option autoImplicit false

/-- What was read, and the characters after it. -/
abbrev Read (α : Type) := Option (α × List Char)

/-! ## Blanks -/

/-- Whether a character is blank within a line. -/
def isBlank (char : Char) : Bool := char = ' ' || char = '\t'

/-- The text after its leading blanks. -/
def skipBlanks (text : List Char) : List Char := text.dropWhile isBlank

/-- The text after a line end. -/
def afterLineEnd? : List Char → Option (List Char)
  | '\n' :: rest => some rest
  | '\r' :: '\n' :: rest => some rest
  | _ => none

/-- Whether a character can stand in a line: no control character except the tab. -/
def isPrintable (char : Char) : Bool :=
  char = '\t' || (0x20 ≤ char.toNat && char.toNat != 0x7f)

/-- The text after a comment, which runs up to the line end, if one starts here. -/
def skipComment : List Char → List Char
  | '#' :: rest => rest.dropWhile isPrintable
  | text => text

/-- The text after blanks, comments and line ends; the steps bound how many there are. -/
def skipLines : Nat → List Char → List Char
  | 0, text => text
  | steps + 1, text =>
      let text := skipComment (skipBlanks text)
      match afterLineEnd? text with
      | some rest => skipLines steps rest
      | none => text

/-! ## Strings -/

/-- The character of a run of hexadecimal digits, unless it is half of a surrogate pair or too
large. -/
def charOfDigits? (digits : List Char) : Option Char := do
  let code ← Numeral.value? 16 digits
  if code.isValidChar then some (Char.ofNat code) else none

/-- The character that a backslash and what follows it stand for. -/
def escape? : List Char → Read Char
  | 'b' :: rest => some ('\x08', rest)
  | 't' :: rest => some ('\t', rest)
  | 'n' :: rest => some ('\n', rest)
  | 'f' :: rest => some ('\x0c', rest)
  | 'r' :: rest => some ('\r', rest)
  | '"' :: rest => some ('"', rest)
  | '\\' :: rest => some ('\\', rest)
  | 'u' :: a :: b :: c :: d :: rest => (charOfDigits? [a, b, c, d]).map (·, rest)
  | 'U' :: a :: b :: c :: d :: e :: f :: g :: h :: rest =>
      (charOfDigits? [a, b, c, d, e, f, g, h]).map (·, rest)
  | _ => none

/-- The characters of a string in double quotes, up to the closing one. -/
def quotedChars? : Nat → List Char → Option (List Char × List Char)
  | 0, _ => none
  | _ + 1, '"' :: rest => some ([], rest)
  | steps + 1, '\\' :: rest => do
      let (char, rest) ← escape? rest
      let (chars, rest) ← quotedChars? steps rest
      return (char :: chars, rest)
  | steps + 1, char :: rest =>
      if isPrintable char then do
        let (chars, rest) ← quotedChars? steps rest
        return (char :: chars, rest)
      else none
  | _ + 1, [] => none

/-- The characters of a string in single quotes, which knows no escapes. -/
def literalChars? (text : List Char) : Read (List Char) :=
  let isInside (char : Char) : Bool := isPrintable char && char != '\''
  match text.dropWhile isInside with
  | '\'' :: rest => some (text.takeWhile isInside, rest)
  | _ => none

/-- The text after blanks and line ends. -/
def skipWhite (text : List Char) : List Char :=
  text.dropWhile fun char => isBlank char || char = '\n' || char = '\r'

/-- Whether every carriage return in a text belongs to a line end. -/
def wholeLineEnds : List Char → Bool
  | '\r' :: '\n' :: rest => wholeLineEnds rest
  | '\r' :: _ => false
  | _ :: rest => wholeLineEnds rest
  | [] => true

/-- The text after a line break that a backslash hides, with all blanks and line ends behind it. -/
def afterHiddenBreak? (text : List Char) : Option (List Char) :=
  match afterLineEnd? (skipBlanks text) with
  | none => none
  | some rest =>
      let white := rest.takeWhile fun char => isBlank char || char = '\n' || char = '\r'
      if wholeLineEnds white then some (skipWhite rest) else none

/-- The quotes at the front of a text. -/
def quoteRun (quote : Char) (text : List Char) : List Char := text.takeWhile (· == quote)

/-- The characters of a string between tripled quotes.  Up to two quotes can stand before the three
that close it, and a single line end is read for any. -/
def blockChars? (quote : Char) : Nat → List Char → Option (List Char × List Char)
  | 0, _ => none
  | steps + 1, text =>
      let quotes := quoteRun quote text
      let after := text.dropWhile (· == quote)
      if 3 ≤ quotes.length then
        some (quotes.take (min 2 (quotes.length - 3)),
          quotes.drop (3 + min 2 (quotes.length - 3)) ++ after)
      else if quotes ≠ [] then do
        let (chars, rest) ← blockChars? quote steps after
        return (quotes ++ chars, rest)
      else
        match afterLineEnd? text with
        | some rest => do
            let (chars, rest) ← blockChars? quote steps rest
            return ('\n' :: chars, rest)
        | none =>
            match text with
            | [] => none
            | char :: rest =>
                if char = '\\' ∧ quote = '"' then
                  match afterHiddenBreak? rest with
                  | some rest => blockChars? quote steps rest
                  | none => do
                      let (char, rest) ← escape? rest
                      let (chars, rest) ← blockChars? quote steps rest
                      return (char :: chars, rest)
                else if isPrintable char then do
                  let (chars, rest) ← blockChars? quote steps rest
                  return (char :: chars, rest)
                else none

/-- The text after the line end that may follow opening quotes. -/
def skipFirstLineEnd (text : List Char) : List Char := (afterLineEnd? text).getD text

/-- A string on one line. -/
def lineString? (text : List Char) : Read String :=
  match text with
  | '"' :: rest => (quotedChars? (rest.length + 1) rest).map fun (chars, rest) =>
      (String.ofList chars, rest)
  | '\'' :: rest => (literalChars? rest).map fun (chars, rest) => (String.ofList chars, rest)
  | _ => none

/-- A string of any kind. -/
def string? (text : List Char) : Read String :=
  match text with
  | '"' :: '"' :: '"' :: rest => block '"' (skipFirstLineEnd rest)
  | '\'' :: '\'' :: '\'' :: rest => block '\'' (skipFirstLineEnd rest)
  | text => lineString? text
where
  /-- A string between tripled quotes, after the opening ones. -/
  block (quote : Char) (text : List Char) : Read String :=
    (blockChars? quote (text.length + 1) text).map fun (chars, rest) => (String.ofList chars, rest)

/-! ## Numbers -/

/-- Whether a character is a digit of the given base. -/
def isDigitOf (base : Nat) (char : Char) : Bool := (Numeral.digitValue? base char).isSome

/-- Digits of a base with single underscores between them. -/
def digitsFrom (base : Nat) : List Char → List Char × List Char
  | '_' :: digit :: rest =>
      if isDigitOf base digit then
        let (digits, rest) := digitsFrom base rest
        (digit :: digits, rest)
      else ([], '_' :: digit :: rest)
  | digit :: rest =>
      if isDigitOf base digit then
        let (digits, rest) := digitsFrom base rest
        (digit :: digits, rest)
      else ([], digit :: rest)
  | [] => ([], [])

/-- At least one digit of a base, with single underscores between digits. -/
def digits? (base : Nat) : List Char → Read (List Char)
  | digit :: rest =>
      if isDigitOf base digit then
        let (digits, rest) := digitsFrom base rest
        some (digit :: digits, rest)
      else none
  | [] => none

/-- The digits of a whole decimal number: a single zero, or digits that do not start with one. -/
def wholeDigits? : List Char → Read (List Char)
  | '0' :: rest => some (['0'], rest)
  | text => digits? 10 text

/-- The sign in front of a number: whether it is negative, and the text after it. -/
def sign : List Char → Bool × List Char
  | '-' :: rest => (true, rest)
  | '+' :: rest => (false, rest)
  | text => (false, text)

/-- The least and the greatest integer that a document can hold. -/
def inRange (value : Int) : Bool :=
  Int64.minValue.toInt ≤ value && value ≤ Int64.maxValue.toInt

/-- The integer of the given digits. -/
def integerOf? (base : Nat) (negative : Bool) (digits rest : List Char) :
    Option (Toml × List Char) := do
  let magnitude ← Numeral.value? base digits
  let value : Int := if negative then -(magnitude : Int) else magnitude
  if inRange value then some (.integer value, rest) else none

/-- A decimal integer, or one of another base behind its mark, which takes no sign. -/
def integer? (text : List Char) : Read Toml :=
  match text with
  | '0' :: 'x' :: rest => based 16 rest
  | '0' :: 'o' :: rest => based 8 rest
  | '0' :: 'b' :: rest => based 2 rest
  | text =>
      let (negative, rest) := sign text
      (wholeDigits? rest).bind fun (digits, rest) => integerOf? 10 negative digits rest
where
  /-- An integer of another base, after the mark. -/
  based (base : Nat) (text : List Char) : Read Toml :=
    (digits? base text).bind fun (digits, rest) => integerOf? base false digits rest

/-- The fraction at the front of a text, if there is one. -/
def fraction? : List Char → Read (List Char)
  | '.' :: rest => digits? 10 rest
  | _ => none

/-- The exponent at the front of a text, if there is one; leading zeros do not matter. -/
def exponent? : List Char → Read Int
  | letter :: rest =>
      if letter = 'e' ∨ letter = 'E' then
        let (negative, rest) := sign rest
        (digits? 10 rest).bind fun (digits, rest) =>
          (Numeral.value? 10 digits).map fun magnitude =>
            (if negative then -(magnitude : Int) else magnitude, rest)
      else none
  | [] => none

/-- Whether a decimal number is too large for a floating-point number of sixty-four bits: whether
it lies at or above the midpoint after the greatest one. -/
def overflows (magnitude : Nat) (exponent : Int) : Bool :=
  let places : Int := (Nat.toDigits 10 magnitude).length + exponent
  if magnitude = 0 ∨ places < 300 then false
  else if 400 < places then true
  else
    let limit := Nat.pow 2 1024 - Nat.pow 2 970
    if exponent < 0 then limit * Nat.pow 10 exponent.natAbs ≤ magnitude
    else limit ≤ magnitude * Nat.pow 10 exponent.natAbs

/-- A number with a fraction, an exponent or both.  One that is too large is refused. -/
def floating? (text : List Char) : Option (Toml × List Char) := do
  let (negative, rest) := sign text
  let (whole, rest) ← wholeDigits? rest
  let (places, rest, found) :=
    match fraction? rest with
    | some (places, rest) => (places, rest, true)
    | none => ([], rest, false)
  let (exponent, rest, found) :=
    match exponent? rest with
    | some (exponent, rest) => (exponent, rest, true)
    | none => (0, rest, found)
  if !found then none
  let magnitude ← Numeral.value? 10 (whole ++ places)
  if !negative && overflows magnitude (exponent - places.length) then none
  return (.fraction, rest)

/-- An infinity or no number, with or without a sign. -/
def special? (text : List Char) : Read Toml :=
  match (sign text).2 with
  | 'i' :: 'n' :: 'f' :: rest => some (.fraction, rest)
  | 'n' :: 'a' :: 'n' :: rest => some (.fraction, rest)
  | _ => none

/-! ## Dates and times -/

/-- Exactly `count` digits with a value between two bounds. -/
def field? (count least most : Nat) (text : List Char) : Option (List Char) := do
  let digits := text.take count
  if digits.length ≠ count then none
  let value ← Numeral.value? 10 digits
  if digits.all Char.isDigit && least ≤ value && value ≤ most then some (text.drop count) else none

/-- The text after a character that has to stand at its front. -/
def after? (expected : Char) : List Char → Option (List Char)
  | char :: rest => if char = expected then some rest else none
  | [] => none

/-- The text after a date. -/
def afterDate? (text : List Char) : Option (List Char) := do
  let rest ← after? '-' (← field? 4 0 9999 text)
  let rest ← after? '-' (← field? 2 1 12 rest)
  field? 2 1 31 rest

/-- The text after a time of day, which can have a fraction of a second. -/
def afterTime? (text : List Char) : Option (List Char) := do
  let rest ← after? ':' (← field? 2 0 23 text)
  let rest ← after? ':' (← field? 2 0 59 rest)
  let rest ← field? 2 0 60 rest
  match rest with
  | '.' :: digit :: more => return if digit.isDigit then more.dropWhile Char.isDigit else rest
  | _ => return rest

/-- The text after the offset from universal time that a time of day can have. -/
def skipOffset (text : List Char) : List Char :=
  match text with
  | 'Z' :: rest => rest
  | 'z' :: rest => rest
  | sign :: rest =>
      if sign = '+' ∨ sign = '-' then
        (do field? 2 0 59 (← after? ':' (← field? 2 0 23 rest))).getD text
      else text
  | [] => text

/-- Whether a character can stand between a date and a time of day. -/
def isTimeDelimiter (char : Char) : Bool := char = 'T' || char = 't' || char = ' '

/-- The text after the time of day that can follow a date. -/
def skipTime (text : List Char) : List Char :=
  match text with
  | delimiter :: rest =>
      if isTimeDelimiter delimiter then
        match afterTime? rest with
        | some rest => skipOffset rest
        | none => text
      else text
  | [] => []

/-- A date, a time of day, or both. -/
def moment? (text : List Char) : Read Toml :=
  match afterDate? text with
  | some rest => some (.moment, skipTime rest)
  | none => (afterTime? text).map (.moment, ·)

/-- A number, a date or a time. -/
def numberOrMoment? (text : List Char) : Read Toml :=
  (moment? text).or ((floating? text).or ((special? text).or (integer? text)))

/-- The text after a word that has to stand at its front. -/
def afterWord? : List Char → List Char → Option (List Char)
  | [], text => some text
  | expected :: word, char :: text => if expected = char then afterWord? word text else none
  | _ :: _, [] => none

end NestedMachine.Toml
