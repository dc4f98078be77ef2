import NestedMachine.Instruction.Basic

/-!
# Encoding

Every instruction has one word.  The word is the union of its parts, each moved
to its place: an immediate is first cut down to its field, while a register
number is placed as it stands, so that a number of more than five bits spills
over its neighbours.

Constants of thirty-two bits are loaded by one or two instructions: the upper
part rounded to the nearest multiple of 4096, then the signed rest.
-/

namespace NestedMachine.Instruction

set_option autoImplicit false

/-! ## Parts of a word -/

/-- A part of a word, moved to the bit where it starts. -/
def place {width : Nat} (start : Nat) (part : BitVec width) : Word :=
  part.setWidth 32 <<< start

/-- A register number, moved to the bit where its field starts. -/
def placeRegister (start register : Nat) : Word := BitVec.ofNat 32 register <<< start

/-- Register-register arithmetic. -/
def formatR (funct7 : BitVec 7) (funct3 : BitVec 3) (rd rs1 rs2 : Nat) (opcode : BitVec 7) : Word :=
  place 25 funct7 ||| placeRegister 20 rs2 ||| placeRegister 15 rs1 ||| place 12 funct3
    ||| placeRegister 7 rd ||| place 0 opcode

/-- Arithmetic, loads and jumps with a twelve-bit immediate. -/
def formatI (imm : Int) (funct3 : BitVec 3) (rd rs1 : Nat) (opcode : BitVec 7) : Word :=
  place 20 (BitVec.ofInt 12 imm) ||| placeRegister 15 rs1 ||| place 12 funct3
    ||| placeRegister 7 rd ||| place 0 opcode

/-- Stores. -/
def formatS (imm : Int) (funct3 : BitVec 3) (rs1 rs2 : Nat) (opcode : BitVec 7) : Word :=
  let bits := BitVec.ofInt 12 imm
  place 25 (bits.extractLsb' 5 7) ||| placeRegister 20 rs2 ||| placeRegister 15 rs1
    ||| place 12 funct3 ||| place 7 (bits.extractLsb' 0 5) ||| place 0 opcode

/-- Branches. -/
def formatB (imm : Int) (funct3 : BitVec 3) (rs1 rs2 : Nat) (opcode : BitVec 7) : Word :=
  let bits := BitVec.ofInt 13 imm
  place 31 (bits.extractLsb' 12 1) ||| place 25 (bits.extractLsb' 5 6) ||| placeRegister 20 rs2
    ||| placeRegister 15 rs1 ||| place 12 funct3 ||| place 8 (bits.extractLsb' 1 4)
    ||| place 7 (bits.extractLsb' 11 1) ||| place 0 opcode

/-- Upper immediates. -/
def formatU (imm : Int) (rd : Nat) (opcode : BitVec 7) : Word :=
  place 12 ((BitVec.ofInt 32 imm).extractLsb' 12 20) ||| placeRegister 7 rd ||| place 0 opcode

/-- Direct jumps. -/
def formatJ (imm : Int) (rd : Nat) (opcode : BitVec 7) : Word :=
  let bits := BitVec.ofInt 21 imm
  place 31 (bits.extractLsb' 20 1) ||| place 21 (bits.extractLsb' 1 10)
    ||| place 20 (bits.extractLsb' 11 1) ||| place 12 (bits.extractLsb' 12 8)
    ||| placeRegister 7 rd ||| place 0 opcode

/-! ## The word of an instruction -/

/-- The word of an instruction. -/
def encode : Instruction → Word
  | .lui rd imm => formatU imm rd Opcode.upper
  | .addi rd rs1 imm => formatI imm 0b000#3 rd rs1 Opcode.immediate
  | .ld rd rs1 imm => formatI imm 0b011#3 rd rs1 Opcode.load
  | .sd rs1 rs2 imm => formatS imm 0b011#3 rs1 rs2 Opcode.store
  | .add rd rs1 rs2 => formatR 0x00#7 0b000#3 rd rs1 rs2 Opcode.arithmetic
  | .sub rd rs1 rs2 => formatR 0x20#7 0b000#3 rd rs1 rs2 Opcode.arithmetic
  | .mul rd rs1 rs2 => formatR 0x01#7 0b000#3 rd rs1 rs2 Opcode.arithmetic
  | .divu rd rs1 rs2 => formatR 0x01#7 0b101#3 rd rs1 rs2 Opcode.arithmetic
  | .remu rd rs1 rs2 => formatR 0x01#7 0b111#3 rd rs1 rs2 Opcode.arithmetic
  | .sltu rd rs1 rs2 => formatR 0x00#7 0b011#3 rd rs1 rs2 Opcode.arithmetic
  | .beq rs1 rs2 imm => formatB imm 0b000#3 rs1 rs2 Opcode.branch
  | .jal rd imm => formatJ imm rd Opcode.jump
  | .jalr rd rs1 imm => formatI imm 0b000#3 rd rs1 Opcode.jumpRegister
  | .ecall => Word.environmentCall

/-- The `lui` that loads the twenty bits `upper` above twelve zeros. -/
def luiUpper (rd : Nat) (upper : Int) : Instruction := .lui rd (upper * 4096)

/-- Load a signed constant of thirty-two bits.  A constant of twelve signed bits takes one
addition; any other takes its upper part, rounded to the nearest multiple of 4096, and an addition
of what the rounding left, if anything. -/
def loadImmediate (rd : Nat) (value : Int) : List Instruction :=
  if -2048 ≤ value ∧ value < 2048 then [.addi rd 0 value]
  else
    let upper := (value + 2048) / 4096
    let lower := value - upper * 4096
    if lower = 0 then [luiUpper rd upper] else [luiUpper rd upper, .addi rd rd lower]

end NestedMachine.Instruction
