import NestedMachine.Instruction.Decoding
import NestedMachine.Register

/-!
# Assembly text

An instruction is shown as its mnemonic and operands, with registers by name and
immediates in decimal; only `lui` shows the twenty bits that it loads, in
hexadecimal.  A word outside the subset is shown as data.
-/

namespace NestedMachine

set_option autoImplicit false

namespace Instruction

/-- An address operand: the offset, then the base register in parentheses. -/
def indirect (base : Nat) (offset : Int) : String :=
  toString offset ++ "(" ++ Register.name base ++ ")"

/-- The operands of an instruction, in the order in which they are shown. -/
def operands : Instruction → List String
  | .lui rd imm => [Register.name rd, Numeral.hex ((BitVec.ofInt 32 imm).extractLsb' 12 20).toNat]
  | .addi rd rs1 imm => [Register.name rd, Register.name rs1, toString imm]
  | .sd rs1 rs2 imm => [Register.name rs2, indirect rs1 imm]
  | .ld rd rs1 imm | .jalr rd rs1 imm => [Register.name rd, indirect rs1 imm]
  | .add rd rs1 rs2 | .sub rd rs1 rs2 | .mul rd rs1 rs2 | .divu rd rs1 rs2 | .remu rd rs1 rs2
  | .sltu rd rs1 rs2 => [Register.name rd, Register.name rs1, Register.name rs2]
  | .beq rs1 rs2 imm => [Register.name rs1, Register.name rs2, toString imm]
  | .jal rd imm => [Register.name rd, toString imm]
  | .ecall => []

/-- The assembly text of an instruction: its mnemonic, then its operands with commas between. -/
def text (instruction : Instruction) : String :=
  match instruction.operands with
  | [] => instruction.mnemonic
  | operands => instruction.mnemonic ++ " " ++ ", ".intercalate operands

end Instruction

/-- The assembly text of a word, which is data when the word holds no instruction. -/
def Word.disassemble (word : Word) : String :=
  match word.instruction? with
  | some instruction => instruction.text
  | none => ".word " ++ Numeral.paddedHex 8 word.toNat

/-- One line of a listing: the address, the word and its assembly text. -/
def Word.listing (address : Nat) (word : Word) : String :=
  Numeral.paddedHex 8 address ++ ": " ++ Numeral.bareHex 8 word.toNat ++ "  " ++ word.disassemble

end NestedMachine
