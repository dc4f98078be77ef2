import NestedMachine.Instruction.Word

/-!
# Instructions

The fourteen instructions of the subset.  Registers are numbers; a word holds
registers below thirty-two only, but an instruction that is yet to be encoded may
carry any number.  Immediates are the integers they stand for: an address offset
for loads, stores, branches and jumps, and for `lui` the value that it loads,
already shifted.
-/

namespace NestedMachine

set_option autoImplicit false

/-- One instruction of the subset. -/
inductive Instruction where
  | lui (rd : Nat) (imm : Int)
  | addi (rd rs1 : Nat) (imm : Int)
  | ld (rd rs1 : Nat) (imm : Int)
  | sd (rs1 rs2 : Nat) (imm : Int)
  | add (rd rs1 rs2 : Nat)
  | sub (rd rs1 rs2 : Nat)
  | mul (rd rs1 rs2 : Nat)
  | divu (rd rs1 rs2 : Nat)
  | remu (rd rs1 rs2 : Nat)
  | sltu (rd rs1 rs2 : Nat)
  | beq (rs1 rs2 : Nat) (imm : Int)
  | jal (rd : Nat) (imm : Int)
  | jalr (rd rs1 : Nat) (imm : Int)
  | ecall
  deriving DecidableEq, Repr, Inhabited

namespace Instruction

/-- The size of an instruction word in bytes. -/
def size : Nat := 4

/-! ## Parts -/

/-- The mnemonic of an instruction. -/
def mnemonic : Instruction → String
  | .lui .. => "lui"
  | .addi .. => "addi"
  | .ld .. => "ld"
  | .sd .. => "sd"
  | .add .. => "add"
  | .sub .. => "sub"
  | .mul .. => "mul"
  | .divu .. => "divu"
  | .remu .. => "remu"
  | .sltu .. => "sltu"
  | .beq .. => "beq"
  | .jal .. => "jal"
  | .jalr .. => "jalr"
  | .ecall => "ecall"

/-- The register that an instruction writes, if its word names one. -/
def rd? : Instruction → Option Nat
  | .lui rd _ | .addi rd _ _ | .ld rd _ _ | .add rd _ _ | .sub rd _ _ | .mul rd _ _ | .divu rd _ _
  | .remu rd _ _ | .sltu rd _ _ | .jal rd _ | .jalr rd _ _ => some rd
  | .sd .. | .beq .. | .ecall => none

/-- The first register that an instruction reads, if there is one. -/
def rs1? : Instruction → Option Nat
  | .addi _ rs1 _ | .ld _ rs1 _ | .sd rs1 _ _ | .add _ rs1 _ | .sub _ rs1 _ | .mul _ rs1 _
  | .divu _ rs1 _ | .remu _ rs1 _ | .sltu _ rs1 _ | .beq rs1 _ _ | .jalr _ rs1 _ => some rs1
  | .lui .. | .jal .. | .ecall => none

/-- The second register that an instruction reads, if there is one. -/
def rs2? : Instruction → Option Nat
  | .sd _ rs2 _ | .add _ _ rs2 | .sub _ _ rs2 | .mul _ _ rs2 | .divu _ _ rs2 | .remu _ _ rs2
  | .sltu _ _ rs2 | .beq _ rs2 _ => some rs2
  | .lui .. | .addi .. | .ld .. | .jal .. | .jalr .. | .ecall => none

/-- The immediate of an instruction, if there is one. -/
def imm? : Instruction → Option Int
  | .lui _ imm | .addi _ _ imm | .ld _ _ imm | .sd _ _ imm | .beq _ _ imm | .jal _ imm
  | .jalr _ _ imm => some imm
  | .add .. | .sub .. | .mul .. | .divu .. | .remu .. | .sltu .. | .ecall => none

/-- The instruction of a mnemonic.  It takes those of the given parts that it has. -/
def ofMnemonic? (mnemonic : String) (rd rs1 rs2 : Nat) (imm : Int) : Option Instruction :=
  match mnemonic with
  | "lui" => some (.lui rd imm)
  | "addi" => some (.addi rd rs1 imm)
  | "ld" => some (.ld rd rs1 imm)
  | "sd" => some (.sd rs1 rs2 imm)
  | "add" => some (.add rd rs1 rs2)
  | "sub" => some (.sub rd rs1 rs2)
  | "mul" => some (.mul rd rs1 rs2)
  | "divu" => some (.divu rd rs1 rs2)
  | "remu" => some (.remu rd rs1 rs2)
  | "sltu" => some (.sltu rd rs1 rs2)
  | "beq" => some (.beq rs1 rs2 imm)
  | "jal" => some (.jal rd imm)
  | "jalr" => some (.jalr rd rs1 imm)
  | "ecall" => some .ecall
  | _ => none

end Instruction

end NestedMachine
