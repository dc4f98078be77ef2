import NestedMachine.Text.Numeral

/-!
# Instruction words

An instruction is stored in one word of thirty-two bits.  This module names the
fields of a word and reads the five immediates that can be scattered over it:
each is the concatenation of bit ranges, and its value is the signed reading of
that concatenation.  It also fixes the codes that tell the instructions of the
subset apart.
-/

namespace NestedMachine

set_option autoImplicit false

/-- One instruction word. -/
abbrev Word := BitVec 32

namespace Word

/-! ## Fields -/

/-- Bits 0 to 6. -/
def opcode (word : Word) : BitVec 7 := word.extractLsb' 0 7

/-- The destination register, bits 7 to 11. -/
def rd (word : Word) : Nat := (word.extractLsb' 7 5).toNat

/-- Bits 12 to 14. -/
def funct3 (word : Word) : BitVec 3 := word.extractLsb' 12 3

/-- The first source register, bits 15 to 19. -/
def rs1 (word : Word) : Nat := (word.extractLsb' 15 5).toNat

/-- The second source register, bits 20 to 24. -/
def rs2 (word : Word) : Nat := (word.extractLsb' 20 5).toNat

/-- Bits 25 to 31. -/
def funct7 (word : Word) : BitVec 7 := word.extractLsb' 25 7

/-! ## Immediates -/

/-- The immediate of loads, additions and indirect jumps: bits 20 to 31. -/
def immediateI (word : Word) : Int := (word.extractLsb' 20 12).toInt

/-- The immediate of stores: seven high bits above the five of the `rd` field. -/
def immediateS (word : Word) : Int := (word.extractLsb' 25 7 ++ word.extractLsb' 7 5).toInt

/-- The immediate of branches, an even number of thirteen bits. -/
def immediateB (word : Word) : Int :=
  (word.extractLsb' 31 1 ++ word.extractLsb' 7 1 ++ word.extractLsb' 25 6
    ++ word.extractLsb' 8 4 ++ 0#1).toInt

/-- The upper immediate: the word itself with its twelve low bits cleared. -/
def immediateU (word : Word) : Int := (word.extractLsb' 12 20 ++ 0#12).toInt

/-- The immediate of direct jumps, an even number of twenty-one bits. -/
def immediateJ (word : Word) : Int :=
  (word.extractLsb' 31 1 ++ word.extractLsb' 12 8 ++ word.extractLsb' 20 1
    ++ word.extractLsb' 21 10 ++ 0#1).toInt

end Word

/-! ## Codes of the subset -/

namespace Opcode

/-- Load the upper immediate. -/
def upper : BitVec 7 := 0x37#7
/-- Register-immediate arithmetic. -/
def immediate : BitVec 7 := 0x13#7
/-- Loads. -/
def load : BitVec 7 := 0x03#7
/-- Stores. -/
def store : BitVec 7 := 0x23#7
/-- Register-register arithmetic. -/
def arithmetic : BitVec 7 := 0x33#7
/-- Branches. -/
def branch : BitVec 7 := 0x63#7
/-- Direct jumps. -/
def jump : BitVec 7 := 0x6f#7
/-- Indirect jumps. -/
def jumpRegister : BitVec 7 := 0x67#7
/-- System instructions. -/
def system : BitVec 7 := 0x73#7

end Opcode

/-- The only system instruction of the subset. -/
def Word.environmentCall : Word := 0x00000073#32

/-- The version of the instruction encoding, stored in every program image. -/
def encodingVersion : Nat := 1

end NestedMachine
