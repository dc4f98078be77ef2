/-!
# Numerals

Every number the library shows is written in one of three ways: in decimal, in
hexadecimal with the mark `0x` and no leading zeros, or in hexadecimal filled up
with zeros to a fixed number of digits.  Hexadecimal digits are lower case.  In
the other direction a decimal numeral is a nonempty run of digits, of any value:
each reader bounds the value by itself.
-/

namespace NestedMachine.Numeral

set_option autoImplicit false

/-! ## Writing -/

/-- The hexadecimal digits of a number, without a mark. -/
def hexDigits (number : Nat) : List Char := Nat.toDigits 16 number

/-- Fill a run of digits with zeros on the left up to `width`. -/
def fillZeros (width : Nat) (digits : List Char) : List Char :=
  List.replicate (width - digits.length) '0' ++ digits

/-- Hexadecimal with the mark `0x` and no leading zeros. -/
def hex (number : Nat) : String := "0x" ++ String.ofList (hexDigits number)

/-- Hexadecimal of at least `width` digits, without a mark. -/
def bareHex (width number : Nat) : String := String.ofList (fillZeros width (hexDigits number))

/-- Hexadecimal of at least `width` digits behind the mark `0x`. -/
def paddedHex (width number : Nat) : String := "0x" ++ bareHex width number

/-- Fill a text with blanks on the right up to `width` characters. -/
def padRight (width : Nat) (text : String) : String :=
  text ++ String.ofList (List.replicate (width - text.length) ' ')

/-! ## Reading -/

/-- The value of one digit of the given base, which is at most sixteen. -/
def digitValue? (base : Nat) (digit : Char) : Option Nat :=
  let value? :=
    if '0' ≤ digit ∧ digit ≤ '9' then some (digit.toNat - '0'.toNat)
    else if 'a' ≤ digit ∧ digit ≤ 'f' then some (digit.toNat - 'a'.toNat + 10)
    else if 'A' ≤ digit ∧ digit ≤ 'F' then some (digit.toNat - 'A'.toNat + 10)
    else none
  value?.filter (· < base)

/-- The value of a run of digits that continues the number `front`. -/
def valueFrom? (base : Nat) : Nat → List Char → Option Nat
  | front, [] => some front
  | front, digit :: rest =>
      match digitValue? base digit with
      | some value => valueFrom? base (front * base + value) rest
      | none => none

/-- The value of a nonempty run of digits. -/
def value? (base : Nat) : List Char → Option Nat
  | [] => none
  | digits => valueFrom? base 0 digits

/-- The value of a nonempty run of digits that a plus sign may precede. -/
def unsigned? : List Char → Option Nat
  | '+' :: digits => value? 10 digits
  | digits => value? 10 digits

/-- The value of a nonempty run of digits that a sign may precede. -/
def signed? : List Char → Option Int
  | '-' :: digits => (value? 10 digits).map fun magnitude => -(magnitude : Int)
  | digits => (unsigned? digits).map Int.ofNat

end NestedMachine.Numeral
