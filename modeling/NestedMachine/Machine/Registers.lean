import NestedMachine.Register
import NestedMachine.Memory.Layout

/-!
# The register file and the arithmetic on it

There are thirty-two registers of sixty-four bits.  Register zero reads as zero
whatever is written to it.  Arithmetic wraps; only a division by zero faults.
-/

namespace NestedMachine

set_option autoImplicit false

/-! ## The register file -/

/-- The values of the registers. -/
structure Registers where
  values : Vector UInt64 32
  deriving DecidableEq, Repr

namespace Registers

/-- All registers zero. -/
def zero : Registers := ⟨Vector.replicate 32 0⟩

/-- The value of a register. -/
def read (registers : Registers) (register : Nat) : UInt64 :=
  if register = 0 then 0 else registers.values[register]?.getD 0

/-- Give a register a value. -/
def write (registers : Registers) (register : Nat) (value : UInt64) : Registers :=
  if register = 0 then registers else ⟨registers.values.setIfInBounds register value⟩

/-- A register that was written reads as what was written, and every other one as before. -/
theorem read_write {rd : Nat} {registers : Registers} (rd_lt : rd < Register.count)
    (value : UInt64) (register : Nat) : (registers.write rd value).read register =
      if register = rd ∧ register ≠ 0 then value else registers.read register := by
  unfold read write
  by_cases zero : rd = 0
  · subst zero
    simp
  · by_cases same : register = rd
    · subst same
      simp [zero, show register < 32 from rd_lt]
    · simp [zero, same, Vector.getElem?_setIfInBounds_ne (Ne.symm same)]

/-- There is nothing in registers that are zero. -/
theorem read_zero (register : Nat) : zero.read register = 0 := by
  simp only [read, zero, Vector.getElem?_replicate]
  split
  · rfl
  · split <;> rfl

/-- The values of all registers, in order. -/
def toList (registers : Registers) : List UInt64 := (List.range 32).map registers.read

/-- One register as a dump shows it. -/
def cell (registers : Registers) (register : Nat) : String :=
  "x" ++ Numeral.padRight 2 (toString register) ++ " "
    ++ Numeral.padRight 4 (Register.name register) ++ "="
    ++ Numeral.paddedHex 16 (registers.read register).toNat

/-- All registers, two to a line. -/
def dump (registers : Registers) : String :=
  String.join ((List.range 16).map fun row =>
    registers.cell (2 * row) ++ "  " ++ registers.cell (2 * row + 1) ++ "\n")

end Registers

/-! ## Arithmetic -/

/-- The operations on two registers. -/
inductive Arithmetic where
  | add
  | sub
  | mul
  | divu
  | remu
  | sltu
  deriving DecidableEq, Repr

/-- The result of an operation. -/
def Arithmetic.apply (operation : Arithmetic) (left right : UInt64) : Except Fault UInt64 :=
  match operation with
  | .add => .ok (left + right)
  | .sub => .ok (left - right)
  | .mul => .ok (left * right)
  | .divu => if right = 0 then .error .divisionByZero else .ok (left / right)
  | .remu => if right = 0 then .error .divisionByZero else .ok (left % right)
  | .sltu => .ok (if left < right then 1 else 0)

/-- The address of a load or store, which has to be a multiple of the word size. -/
def effectiveAddress (base : UInt64) (offset : Int) : Except Fault UInt64 :=
  let address := base + UInt64.ofInt offset
  if isAligned address.toNat wordSize then .ok address else .error (.misaligned address.toNat)

end NestedMachine
