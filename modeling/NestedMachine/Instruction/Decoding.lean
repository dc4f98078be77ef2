import NestedMachine.Instruction.Basic

/-!
# Decoding

A word is read by its opcode, then by the codes `funct3` and `funct7` where the
opcode leaves a choice.  A word outside the subset has no instruction; the one
word of the system opcode is `ecall` itself.
-/

namespace NestedMachine.Word

set_option autoImplicit false

/-- Register-register arithmetic is told apart by `funct3` and `funct7`. -/
def arithmetic? (word : Word) : Option (Nat → Nat → Nat → Instruction) :=
  let funct3 := word.funct3
  let funct7 := word.funct7
  if funct7 = 0x00#7 then
    if funct3 = 0b000#3 then some .add
    else if funct3 = 0b011#3 then some .sltu
    else none
  else if funct7 = 0x20#7 then
    if funct3 = 0b000#3 then some .sub else none
  else if funct7 = 0x01#7 then
    if funct3 = 0b000#3 then some .mul
    else if funct3 = 0b101#3 then some .divu
    else if funct3 = 0b111#3 then some .remu
    else none
  else none

/-- The instruction that a word holds, if it belongs to the subset. -/
def instruction? (word : Word) : Option Instruction :=
  let opcode := word.opcode
  let funct3 := word.funct3
  if opcode = Opcode.immediate then
    if funct3 = 0b000#3 then some (.addi word.rd word.rs1 word.immediateI) else none
  else if opcode = Opcode.arithmetic then
    word.arithmetic?.map fun combine => combine word.rd word.rs1 word.rs2
  else if opcode = Opcode.load then
    if funct3 = 0b011#3 then some (.ld word.rd word.rs1 word.immediateI) else none
  else if opcode = Opcode.store then
    if funct3 = 0b011#3 then some (.sd word.rs1 word.rs2 word.immediateS) else none
  else if opcode = Opcode.branch then
    if funct3 = 0b000#3 then some (.beq word.rs1 word.rs2 word.immediateB) else none
  else if opcode = Opcode.jump then some (.jal word.rd word.immediateJ)
  else if opcode = Opcode.jumpRegister then
    if funct3 = 0b000#3 then some (.jalr word.rd word.rs1 word.immediateI) else none
  else if opcode = Opcode.upper then some (.lui word.rd word.immediateU)
  else if word = Word.environmentCall then some .ecall
  else none

end NestedMachine.Word
