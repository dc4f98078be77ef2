import NestedMachine.Text.Numeral

/-!
# Register names

The thirty-two registers carry the names of the calling convention.  A register
can be named by that name, by `fp` for the frame pointer, or by its number behind
the letter `x`.
-/

namespace NestedMachine.Register

set_option autoImplicit false

/-- How many registers there are. -/
def count : Nat := 32

/-- The names of the calling convention, by register number. -/
def names : List String :=
  ["zero", "ra", "sp", "gp", "tp", "t0", "t1", "t2", "s0", "s1", "a0", "a1", "a2", "a3", "a4", "a5",
   "a6", "a7", "s2", "s3", "s4", "s5", "s6", "s7", "s8", "s9", "s10", "s11", "t3", "t4", "t5", "t6"]

/-- The stack pointer. -/
def sp : Nat := 2
/-- The frame pointer. -/
def s0 : Nat := 8
/-- The first argument, and the result of a call. -/
def a0 : Nat := 10
/-- The second argument. -/
def a1 : Nat := 11
/-- The third argument. -/
def a2 : Nat := 12
/-- The fourth argument. -/
def a3 : Nat := 13
/-- The number of a system call. -/
def a7 : Nat := 17

/-- The name of a register, and a question mark for a number that is none. -/
def name (register : Nat) : String := names[register]?.getD "?"

/-- The number behind the letter `x`: a decimal numeral, which may carry a plus sign. -/
def numbered? : List Char → Option Nat
  | 'x' :: digits => (Numeral.unsigned? digits).filter (· < count)
  | _ => none

/-- The register that a text names. -/
def ofName? (text : String) : Option Nat :=
  match names.idxOf? text with
  | some register => some register
  | none => if text = "fp" then some s0 else numbered? text.toList

end NestedMachine.Register
