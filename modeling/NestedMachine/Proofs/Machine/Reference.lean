import NestedMachine.Proofs.Memory.Refinement

/-!
# The reference machine

What the fourteen instructions mean, told without pages and without the way registers are kept.
There are thirty-two registers, of which the first one is zero by its type (`RegisterFile`), a
program counter, and flat memory.  A step fetches the word at the program counter, reads it and
carries it out (`ReferenceHart.step`); what faults first ends it.  Register numbers count modulo
thirty-two, which words cannot tell, since they hold no others.
-/

namespace NestedMachine

set_option autoImplicit false

/-! ## Registers -/

/-- The values of thirty-two registers, the first of which is zero. -/
@[ext]
structure RegisterFile where
  value : Fin 32 → BitVec 64
  zero : value 0 = 0

/-- Give a register a value; register zero stays as it is. -/
def RegisterFile.set (file : RegisterFile) (register : Fin 32) (value : BitVec 64) :
    RegisterFile where
  value other := if other = register ∧ other ≠ 0 then value else file.value other
  zero := (if_neg fun changed => changed.2 rfl).trans file.zero

/-- The registers and the program counter of the reference machine. -/
structure ReferenceHart where
  registers : RegisterFile
  pc : BitVec 64

namespace ReferenceHart

variable (hart : ReferenceHart)

/-- The value of a register. -/
def read (register : Nat) : BitVec 64 := hart.registers.value (Fin.ofNat 32 register)

/-- The address of the instruction after this one. -/
def following : BitVec 64 := hart.pc + 4

/-- The address at an offset from this instruction. -/
def target (offset : Int) : BitVec 64 := hart.pc + .ofInt 64 offset

/-- The address at an offset from the one that a register holds. -/
def address (base : Nat) (offset : Int) : BitVec 64 := hart.read base + .ofInt 64 offset

/-- The hart with another value in a register, at another instruction. -/
def moved (rd : Nat) (value pc : BitVec 64) : ReferenceHart :=
  ⟨hart.registers.set (Fin.ofNat 32 rd) value, pc⟩

/-! ## Steps -/

/-- Give a register a value and go on. -/
def finish (rd : Nat) (value : BitVec 64) : ReferenceHart × Flow :=
  (hart.moved rd value hart.following, .next)

/-- Give a register the result of an operation on two registers and go on. -/
def combine (rd rs1 rs2 : Nat) (operation : BitVec 64 → BitVec 64 → BitVec 64) :
    ReferenceHart × Flow :=
  hart.finish rd (operation (hart.read rs1) (hart.read rs2))

/-- Give a register the result of a division and go on; a division by zero faults. -/
def divide (rd rs1 rs2 : Nat) (operation : BitVec 64 → BitVec 64 → BitVec 64) :
    FlatAction (ReferenceHart × Flow) :=
  if hart.read rs2 = 0 then throw .divisionByZero else return hart.combine rd rs1 rs2 operation

/-- Carry out an instruction.  A jump through a register goes to where the register pointed before
it is linked. -/
def execute : Instruction → FlatAction (ReferenceHart × Flow)
  | .lui rd imm => return hart.finish rd (.ofInt 64 imm)
  | .addi rd rs1 imm => return hart.finish rd (hart.read rs1 + .ofInt 64 imm)
  | .ld rd rs1 imm => do
      let value ← FlatMemory.load (hart.address rs1 imm).toNat
      return hart.finish rd value.toBitVec
  | .sd rs1 rs2 imm => do
      FlatMemory.store (hart.address rs1 imm).toNat (.ofBitVec (hart.read rs2))
      return ({ hart with pc := hart.following }, .next)
  | .add rd rs1 rs2 => return hart.combine rd rs1 rs2 (· + ·)
  | .sub rd rs1 rs2 => return hart.combine rd rs1 rs2 (· - ·)
  | .mul rd rs1 rs2 => return hart.combine rd rs1 rs2 (· * ·)
  | .divu rd rs1 rs2 => hart.divide rd rs1 rs2 (· / ·)
  | .remu rd rs1 rs2 => hart.divide rd rs1 rs2 (· % ·)
  | .sltu rd rs1 rs2 =>
      return hart.combine rd rs1 rs2 fun left right => if left < right then 1 else 0
  | .beq rs1 rs2 imm =>
      let equal := hart.read rs1 = hart.read rs2
      return ({ hart with pc := if equal then hart.target imm else hart.following }, .next)
  | .jal rd imm => return (hart.moved rd hart.following (hart.target imm), .next)
  | .jalr rd rs1 imm =>
      return (hart.moved rd hart.following (hart.address rs1 imm &&& ~~~1), .next)
  | .ecall => return (hart, .environmentCall)

/-- Carry out the instruction at the program counter. -/
def step : FlatAction (ReferenceHart × Flow) := do
  let word ← FlatMemory.fetch hart.pc.toNat
  match word.instruction? with
  | some instruction => hart.execute instruction
  | none => throw (.illegalInstruction word)

/-- What a run leaves. -/
structure Run where
  hart : ReferenceHart
  /-- How many instructions were carried out. -/
  retired : Nat
  memory : FlatMemory
  ending : Hart.Ending

/-- Take at most `quantum` steps; `retired` counts those taken before. -/
def run : Nat → ReferenceHart → Nat → FlatMemory → Run
  | 0, hart, retired, memory => ⟨hart, retired, memory, .trap .timerInterrupt⟩
  | quantum + 1, hart, retired, memory =>
      match hart.step memory with
      | .ok (hart, .next) memory => run quantum hart (retired + 1) memory
      | .ok (hart, .environmentCall) memory =>
          ⟨hart, retired + 1, memory, .trap .environmentCall⟩
      | .error fault memory => ⟨hart, retired, memory, Hart.endingOf fault (.ofBitVec hart.pc)⟩

/-! ## Pages -/

/-- The page that an instruction needs, if it is a load or a store that is carried out. -/
def executionDemands (memory : FlatMemory) : Instruction → Finset Nat
  | .ld _ rs1 imm =>
      let address := (hart.address rs1 imm).toNat
      FlatMemory.needed address (FlatMemory.load address memory)
  | .sd rs1 rs2 imm =>
      let address := (hart.address rs1 imm).toNat
      FlatMemory.needed address (FlatMemory.store address (.ofBitVec (hart.read rs2)) memory)
  | _ => ∅

/-- The pages that a step needs: that of the program counter, if a word can be fetched there, and
that of the instruction. -/
def demands (memory : FlatMemory) : Finset Nat :=
  match answerOf (FlatMemory.fetch hart.pc.toNat memory) with
  | .ok word =>
      {pageOf hart.pc.toNat} ∪ word.instruction?.elim ∅ (hart.executionDemands memory)
  | .error _ => ∅

variable {hart} {memory after : FlatMemory}

theorem demands_of_fetched {word : Word}
    (fetched : FlatMemory.fetch hart.pc.toNat memory = .ok word after) : hart.demands memory =
      {pageOf hart.pc.toNat} ∪ word.instruction?.elim ∅ (hart.executionDemands memory) := by
  rw [demands, fetched]
  rfl

theorem demands_of_refused {fault : Fault}
    (refused : FlatMemory.fetch hart.pc.toNat memory = .error fault after) :
    hart.demands memory = ∅ := by
  rw [demands, refused]
  rfl

end ReferenceHart

end NestedMachine
