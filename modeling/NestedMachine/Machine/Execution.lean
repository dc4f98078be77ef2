import NestedMachine.Machine.Registers
import NestedMachine.Memory.AddressSpace

/-!
# Executing instructions

A hart is the part of a context that instructions work on: its registers and its
program counter.  One step fetches the word at the program counter, reads it and
carries it out.  A step that faults leaves the hart as it was; only pages may have
been mapped.  An environment call is left to whoever supervises the guest, so the
program counter stays on it, but it counts as carried out.

A run takes steps until its quantum is used up or a step does not simply go on.
-/

namespace NestedMachine

set_option autoImplicit false

/-- The registers and the program counter. -/
structure Hart where
  registers : Registers
  pc : UInt64
  deriving DecidableEq, Repr

/-- What follows a step. -/
inductive Flow where
  /-- The next instruction. -/
  | next
  /-- A system call. -/
  | environmentCall
  deriving DecidableEq, Repr

namespace Hart

/-- The address of the instruction after this one. -/
def following (hart : Hart) : UInt64 := hart.pc + 4

/-- The address at an offset from this instruction. -/
def target (hart : Hart) (offset : Int) : UInt64 := hart.pc + UInt64.ofInt offset

/-- Write a register and go on. -/
def advance (hart : Hart) (rd : Nat) (value : UInt64) : Hart :=
  ⟨hart.registers.write rd value, hart.following⟩

end Hart

/-- Turn an answer into one that faults as an action. -/
def orFault {α : Type} : Except Fault α → MemoryAction α
  | .ok answer => pure answer
  | .error fault => throw fault

namespace Instruction

/-- Carry out arithmetic on two registers. -/
def executeArithmetic (operation : Arithmetic) (hart : Hart) (rd rs1 rs2 : Nat) :
    MemoryAction (Hart × Flow) := do
  let value ← orFault (operation.apply (hart.registers.read rs1) (hart.registers.read rs2))
  return (hart.advance rd value, .next)

/-- Carry out an instruction. -/
def execute (hart : Hart) : Instruction → MemoryAction (Hart × Flow)
  | .add rd rs1 rs2 => executeArithmetic .add hart rd rs1 rs2
  | .sub rd rs1 rs2 => executeArithmetic .sub hart rd rs1 rs2
  | .mul rd rs1 rs2 => executeArithmetic .mul hart rd rs1 rs2
  | .divu rd rs1 rs2 => executeArithmetic .divu hart rd rs1 rs2
  | .remu rd rs1 rs2 => executeArithmetic .remu hart rd rs1 rs2
  | .sltu rd rs1 rs2 => executeArithmetic .sltu hart rd rs1 rs2
  | .lui rd imm => return (hart.advance rd (UInt64.ofInt imm), .next)
  | .addi rd rs1 imm =>
      return (hart.advance rd (hart.registers.read rs1 + UInt64.ofInt imm), .next)
  | .ld rd rs1 imm => do
      let address ← orFault (effectiveAddress (hart.registers.read rs1) imm)
      return (hart.advance rd (← Memory.load address.toNat), .next)
  | .sd rs1 rs2 imm => do
      let address ← orFault (effectiveAddress (hart.registers.read rs1) imm)
      Memory.store address.toNat (hart.registers.read rs2)
      return ({ hart with pc := hart.following }, .next)
  | .beq rs1 rs2 imm =>
      let taken := hart.registers.read rs1 = hart.registers.read rs2
      return ({ hart with pc := if taken then hart.target imm else hart.following }, .next)
  | .jal rd imm => return (⟨hart.registers.write rd hart.following, hart.target imm⟩, .next)
  | .jalr rd rs1 imm =>
      let target := (hart.registers.read rs1 + UInt64.ofInt imm) &&& ~~~1
      return (⟨hart.registers.write rd hart.following, target⟩, .next)
  | .ecall => return (hart, .environmentCall)

end Instruction

namespace Hart

/-- Fetch the word at the program counter, noting it when instructions are traced. -/
def fetch (tracing : Bool) (hart : Hart) : MemoryAction Word := do
  let word ← Memory.fetch hart.pc.toNat
  if tracing then
    modify fun memory => { memory with journal := memory.journal.add (.fetched hart.pc word) }
  return word

/-- Carry out the instruction at the program counter. -/
def step (tracing : Bool) (hart : Hart) : MemoryAction (Hart × Flow) := do
  let word ← hart.fetch tracing
  match word.instruction? with
  | some instruction => instruction.execute hart
  | none => throw (.illegalInstruction word)

/-- How a run ended. -/
inductive Ending where
  | trap (trap : Trap)
  /-- The pool ran dry under the run. -/
  | outOfFrames
  deriving DecidableEq, Repr

/-- What a run leaves. -/
structure RunResult where
  hart : Hart
  /-- How many instructions were carried out. -/
  retired : Nat
  memory : Memory
  ending : Ending

/-- The ending of a run whose step faulted. -/
def endingOf (fault : Fault) (pc : UInt64) : Ending :=
  if fault = .outOfFrames then .outOfFrames else .trap (.fault fault pc)

/-- Take at most `quantum` steps; `retired` counts those taken before. -/
def run (tracing : Bool) : Nat → Hart → Nat → Memory → RunResult
  | 0, hart, retired, memory => ⟨hart, retired, memory, .trap .timerInterrupt⟩
  | quantum + 1, hart, retired, memory =>
      match hart.step tracing memory with
      | .ok (hart, .next) memory => run tracing quantum hart (retired + 1) memory
      | .ok (hart, .environmentCall) memory =>
          ⟨hart, retired + 1, memory, .trap .environmentCall⟩
      | .error fault memory => ⟨hart, retired, memory, endingOf fault hart.pc⟩

end Hart

end NestedMachine
