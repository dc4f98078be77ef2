import NestedMachine.Machine.Execution
import NestedMachine.Proofs.Action
import NestedMachine.Proofs.Instruction.Fields

/-!
# Encoding and decoding

A word holds an instruction if the instruction names existing registers only, its immediate fits
the field for it, and the word is the one it is encoded in (`instruction?_eq_some_iff`).  So
decoding and encoding are inverse to one another between such instructions and the words that are
accepted.  An immediate that does not fit is not refused: the word of the instruction holds what
its field keeps of the immediate (`instruction?_encode`).  Every word that encodes no such
instruction faults as soon as it is fetched (`step_of_illegal`).  The three are put together in
`codec_exact`.
-/

namespace NestedMachine

set_option autoImplicit false

namespace Instruction

/-! ## Instructions that a word can hold -/

/-- All registers that an instruction names exist. -/
structure Named (instruction : Instruction) : Prop where
  rd : ∀ register ∈ instruction.rd?, register < Register.count
  rs1 : ∀ register ∈ instruction.rs1?, register < Register.count
  rs2 : ∀ register ∈ instruction.rs2?, register < Register.count

/-- The instruction with what the field of its word keeps of the immediate. -/
def fitted : Instruction → Instruction
  | .lui rd imm => .lui rd (ImmediateField.upper.fit imm)
  | .addi rd rs1 imm => .addi rd rs1 (ImmediateField.short.fit imm)
  | .ld rd rs1 imm => .ld rd rs1 (ImmediateField.short.fit imm)
  | .sd rs1 rs2 imm => .sd rs1 rs2 (ImmediateField.short.fit imm)
  | .beq rs1 rs2 imm => .beq rs1 rs2 (ImmediateField.branch.fit imm)
  | .jal rd imm => .jal rd (ImmediateField.jump.fit imm)
  | .jalr rd rs1 imm => .jalr rd rs1 (ImmediateField.short.fit imm)
  | instruction => instruction

/-- The word of an instruction can hold its immediate. -/
def Representable : Instruction → Prop
  | .lui _ imm => ImmediateField.upper.Holds imm
  | .addi _ _ imm | .ld _ _ imm | .sd _ _ imm | .jalr _ _ imm => ImmediateField.short.Holds imm
  | .beq _ _ imm => ImmediateField.branch.Holds imm
  | .jal _ imm => ImmediateField.jump.Holds imm
  | .add .. | .sub .. | .mul .. | .divu .. | .remu .. | .sltu .. | .ecall => True

theorem fitted_eq_self_iff (instruction : Instruction) :
    instruction.fitted = instruction ↔ instruction.Representable := by
  cases instruction <;> simp [fitted, Representable, ImmediateField.fit_eq_self_iff]

/-! ## Decoding by the opcode -/

section Opcodes

variable {word : Word}

theorem instruction?_of_upper (code : word.opcode = Opcode.upper) :
    word.instruction? = some (.lui word.rd word.immediateU) := by
  rw [Word.instruction?, code]
  rfl

theorem instruction?_of_immediate (code : word.opcode = Opcode.immediate)
    (choice : word.funct3 = 0b000#3) :
    word.instruction? = some (.addi word.rd word.rs1 word.immediateI) := by
  rw [Word.instruction?, code, choice]
  rfl

theorem instruction?_of_load (code : word.opcode = Opcode.load) (choice : word.funct3 = 0b011#3) :
    word.instruction? = some (.ld word.rd word.rs1 word.immediateI) := by
  rw [Word.instruction?, code, choice]
  rfl

theorem instruction?_of_store (code : word.opcode = Opcode.store)
    (choice : word.funct3 = 0b011#3) :
    word.instruction? = some (.sd word.rs1 word.rs2 word.immediateS) := by
  rw [Word.instruction?, code, choice]
  rfl

theorem instruction?_of_branch (code : word.opcode = Opcode.branch)
    (choice : word.funct3 = 0b000#3) :
    word.instruction? = some (.beq word.rs1 word.rs2 word.immediateB) := by
  rw [Word.instruction?, code, choice]
  rfl

theorem instruction?_of_jump (code : word.opcode = Opcode.jump) :
    word.instruction? = some (.jal word.rd word.immediateJ) := by
  rw [Word.instruction?, code]
  rfl

theorem instruction?_of_jumpRegister (code : word.opcode = Opcode.jumpRegister)
    (choice : word.funct3 = 0b000#3) :
    word.instruction? = some (.jalr word.rd word.rs1 word.immediateI) := by
  rw [Word.instruction?, code, choice]
  rfl

theorem instruction?_of_arithmetic (code : word.opcode = Opcode.arithmetic) :
    word.instruction? =
      word.arithmetic?.map fun combine => combine word.rd word.rs1 word.rs2 := by
  rw [Word.instruction?, code]
  rfl

end Opcodes

/-! ## Decoding what was encoded -/

theorem instruction?_formatR {funct7 : BitVec 7} {funct3 : BitVec 3}
    {combine : Nat → Nat → Nat → Instruction}
    (listed : ∀ word : Word, word.funct7 = funct7 → word.funct3 = funct3 →
      word.arithmetic? = some combine) (rd rs1 rs2 : BitVec 5) :
    (formatR funct7 funct3 rd.toNat rs1.toNat rs2.toNat Opcode.arithmetic).instruction? =
      some (combine rd.toNat rs1.toNat rs2.toNat) := by
  obtain ⟨code, choice, choice', first, second, third⟩ :=
    fields_formatR funct7 funct3 rd rs1 rs2 Opcode.arithmetic
  rw [instruction?_of_arithmetic code, listed _ choice' choice, Option.map_some, first, second,
    third]

/-- **The word of an instruction holds the instruction**, with what the field keeps of its
immediate. -/
theorem instruction?_encode {instruction : Instruction} (named : instruction.Named) :
    instruction.encode.instruction? = some instruction.fitted := by
  cases instruction with
  | lui rd imm =>
      obtain ⟨rd, rfl⟩ := exists_toNat_eq (named.rd rd rfl)
      obtain ⟨code, first, held⟩ := fields_formatU rd Opcode.upper imm
      rw [encode, instruction?_of_upper code, first, held, fitted]
  | addi rd rs1 imm =>
      obtain ⟨rd, rfl⟩ := exists_toNat_eq (named.rd rd rfl)
      obtain ⟨rs1, rfl⟩ := exists_toNat_eq (named.rs1 rs1 rfl)
      obtain ⟨code, choice, first, second, held⟩ :=
        fields_formatI 0b000#3 rd rs1 Opcode.immediate imm
      rw [encode, instruction?_of_immediate code choice, first, second, held, fitted]
  | ld rd rs1 imm =>
      obtain ⟨rd, rfl⟩ := exists_toNat_eq (named.rd rd rfl)
      obtain ⟨rs1, rfl⟩ := exists_toNat_eq (named.rs1 rs1 rfl)
      obtain ⟨code, choice, first, second, held⟩ := fields_formatI 0b011#3 rd rs1 Opcode.load imm
      rw [encode, instruction?_of_load code choice, first, second, held, fitted]
  | sd rs1 rs2 imm =>
      obtain ⟨rs1, rfl⟩ := exists_toNat_eq (named.rs1 rs1 rfl)
      obtain ⟨rs2, rfl⟩ := exists_toNat_eq (named.rs2 rs2 rfl)
      obtain ⟨code, choice, first, second, held⟩ :=
        fields_formatS 0b011#3 rs1 rs2 Opcode.store imm
      rw [encode, instruction?_of_store code choice, first, second, held, fitted]
  | add rd rs1 rs2 | sub rd rs1 rs2 | mul rd rs1 rs2 | divu rd rs1 rs2 | remu rd rs1 rs2
  | sltu rd rs1 rs2 =>
      obtain ⟨rd, rfl⟩ := exists_toNat_eq (named.rd rd rfl)
      obtain ⟨rs1, rfl⟩ := exists_toNat_eq (named.rs1 rs1 rfl)
      obtain ⟨rs2, rfl⟩ := exists_toNat_eq (named.rs2 rs2 rfl)
      refine instruction?_formatR ?_ rd rs1 rs2
      intro word choice' choice
      rw [Word.arithmetic?, choice', choice]
      rfl
  | beq rs1 rs2 imm =>
      obtain ⟨rs1, rfl⟩ := exists_toNat_eq (named.rs1 rs1 rfl)
      obtain ⟨rs2, rfl⟩ := exists_toNat_eq (named.rs2 rs2 rfl)
      obtain ⟨code, choice, first, second, held⟩ :=
        fields_formatB 0b000#3 rs1 rs2 Opcode.branch imm
      rw [encode, instruction?_of_branch code choice, first, second, held, fitted]
  | jal rd imm =>
      obtain ⟨rd, rfl⟩ := exists_toNat_eq (named.rd rd rfl)
      obtain ⟨code, first, held⟩ := fields_formatJ rd Opcode.jump imm
      rw [encode, instruction?_of_jump code, first, held, fitted]
  | jalr rd rs1 imm =>
      obtain ⟨rd, rfl⟩ := exists_toNat_eq (named.rd rd rfl)
      obtain ⟨rs1, rfl⟩ := exists_toNat_eq (named.rs1 rs1 rfl)
      obtain ⟨code, choice, first, second, held⟩ :=
        fields_formatI 0b000#3 rd rs1 Opcode.jumpRegister imm
      rw [encode, instruction?_of_jumpRegister code choice, first, second, held, fitted]
  | ecall => rfl

/-! ## Encoding what was decoded -/

/-- How a word is read: the codes that it has, and the instruction that they stand for. -/
inductive Reads (word : Word) : Instruction → Prop where
  | lui (code : word.opcode = Opcode.upper) : Reads word (.lui word.rd word.immediateU)
  | addi (code : word.opcode = Opcode.immediate) (choice : word.funct3 = 0b000#3) :
      Reads word (.addi word.rd word.rs1 word.immediateI)
  | ld (code : word.opcode = Opcode.load) (choice : word.funct3 = 0b011#3) :
      Reads word (.ld word.rd word.rs1 word.immediateI)
  | sd (code : word.opcode = Opcode.store) (choice : word.funct3 = 0b011#3) :
      Reads word (.sd word.rs1 word.rs2 word.immediateS)
  | arithmetic (code : word.opcode = Opcode.arithmetic)
      {combine : Nat → Nat → Nat → Instruction} (found : word.arithmetic? = some combine) :
      Reads word (combine word.rd word.rs1 word.rs2)
  | beq (code : word.opcode = Opcode.branch) (choice : word.funct3 = 0b000#3) :
      Reads word (.beq word.rs1 word.rs2 word.immediateB)
  | jal (code : word.opcode = Opcode.jump) : Reads word (.jal word.rd word.immediateJ)
  | jalr (code : word.opcode = Opcode.jumpRegister) (choice : word.funct3 = 0b000#3) :
      Reads word (.jalr word.rd word.rs1 word.immediateI)
  | ecall (same : word = Word.environmentCall) : Reads word .ecall

theorem reads_of_instruction? {word : Word} {instruction : Instruction}
    (found : word.instruction? = some instruction) : Reads word instruction := by
  simp only [Word.instruction?] at found
  split_ifs at found with immediate choice arithmetic load choice store choice branch choice jump
    jumpRegister choice upper same
  · cases found
    exact .addi immediate choice
  · obtain ⟨combine, listed, rfl⟩ := Option.map_eq_some_iff.mp found
    exact .arithmetic arithmetic listed
  · cases found
    exact .ld load choice
  · cases found
    exact .sd store choice
  · cases found
    exact .beq branch choice
  · cases found
    exact .jal jump
  · cases found
    exact .jalr jumpRegister choice
  · cases found
    exact .lui upper
  · cases found
    exact .ecall same

theorem encode_of_arithmetic? {word : Word} {combine : Nat → Nat → Nat → Instruction}
    (code : word.opcode = Opcode.arithmetic) (found : word.arithmetic? = some combine) :
    (combine word.rd word.rs1 word.rs2).encode = word := by
  have whole := formatR_fields word
  simp only [Word.arithmetic?] at found
  split_ifs at found with choice' choice choice choice' choice choice' choice choice choice
  all_goals
    cases found
    rw [choice', choice, code] at whole
    exact whole

/-- The registers of an instruction that was read are fields of the word. -/
theorem Reads.named {word : Word} {instruction : Instruction} (reads : Reads word instruction) :
    instruction.Named := by
  have small (start : Nat) : (word.extractLsb' start 5).toNat < Register.count := BitVec.isLt _
  have named {instruction : Instruction} (rd : ∀ register ∈ instruction.rd?, register = word.rd)
      (rs1 : ∀ register ∈ instruction.rs1?, register = word.rs1)
      (rs2 : ∀ register ∈ instruction.rs2?, register = word.rs2) : instruction.Named :=
    ⟨fun _ listed => rd _ listed ▸ small 7, fun _ listed => rs1 _ listed ▸ small 15,
      fun _ listed => rs2 _ listed ▸ small 20⟩
  cases reads with
  | arithmetic code found =>
      simp only [Word.arithmetic?] at found
      split_ifs at found
      all_goals
        cases found
        refine named ?_ ?_ ?_ <;> rintro _ ⟨⟩ <;> rfl
  | _ => refine named ?_ ?_ ?_ <;> rintro _ ⟨⟩ <;> rfl

/-- A word that holds an instruction is the word of the instruction. -/
theorem Reads.encode {word : Word} {instruction : Instruction} (reads : Reads word instruction) :
    instruction.encode = word := by
  cases reads with
  | lui code =>
      have whole := formatU_fields word
      rwa [code] at whole
  | addi code choice | ld code choice | jalr code choice =>
      have whole := formatI_fields word
      rwa [choice, code] at whole
  | sd code choice =>
      have whole := formatS_fields word
      rwa [choice, code] at whole
  | arithmetic code found => exact encode_of_arithmetic? code found
  | beq code choice =>
      have whole := formatB_fields word
      rwa [choice, code] at whole
  | jal code =>
      have whole := formatJ_fields word
      rwa [code] at whole
  | ecall same => exact same.symm

/-- **The words that hold an instruction** are the words of the instructions that name existing
registers and have an immediate that fits. -/
theorem instruction?_eq_some_iff {word : Word} {instruction : Instruction} :
    word.instruction? = some instruction ↔
      instruction.Named ∧ instruction.Representable ∧ instruction.encode = word := by
  constructor
  · intro found
    have reads := reads_of_instruction? found
    -- What is read back from the word of the instruction is both the instruction and what the
    -- field keeps of it.
    have again := instruction?_encode reads.named
    rw [reads.encode, found, Option.some.injEq] at again
    exact ⟨reads.named, (fitted_eq_self_iff instruction).mp again.symm, reads.encode⟩
  · rintro ⟨named, representable, rfl⟩
    rw [instruction?_encode named, (fitted_eq_self_iff instruction).mpr representable]

/-! ## Words that hold no instruction -/

/-- A word that holds no instruction faults once it is fetched. -/
theorem step_of_illegal {tracing : Bool} {hart : Hart} {memory after : Memory} {word : Word}
    (fetched : hart.fetch tracing memory = .ok word after) (none : word.instruction? = none) :
    hart.step tracing memory = .error (.illegalInstruction word) after := by
  rw [Hart.step, bind_of_ok fetched, none]
  rfl

/-- **Instructions and the words that are accepted correspond exactly.**  The word of an
instruction that names existing registers holds it, with what the field keeps of its immediate,
which is the immediate itself where it fits.  A word that holds an instruction is the word of
that instruction.  Every word that is not the word of such an instruction, with an immediate that
fits, holds none, and faults as an illegal instruction wherever it is fetched. -/
theorem codec_exact :
    (∀ instruction : Instruction, instruction.Named →
      instruction.encode.instruction? = some instruction.fitted ∧
        (instruction.Representable → instruction.encode.instruction? = some instruction)) ∧
    (∀ (word : Word) (instruction : Instruction), word.instruction? = some instruction ↔
      instruction.Named ∧ instruction.Representable ∧ instruction.encode = word) ∧
    (∀ word : Word, (∀ instruction : Instruction, instruction.Named → instruction.Representable →
        instruction.encode ≠ word) →
      word.instruction? = none ∧
        ∀ (tracing : Bool) (hart : Hart) (memory after : Memory),
          hart.fetch tracing memory = .ok word after →
            hart.step tracing memory = .error (.illegalInstruction word) after) := by
  refine ⟨?_, ?_, ?_⟩
  · intro instruction named
    refine ⟨instruction?_encode named, ?_⟩
    intro representable
    exact instruction?_eq_some_iff.mpr ⟨named, representable, rfl⟩
  · intro word instruction
    exact instruction?_eq_some_iff
  · intro word other
    have illegal : word.instruction? = none := by
      rw [Option.eq_none_iff_forall_ne_some]
      intro instruction found
      obtain ⟨named, representable, same⟩ := instruction?_eq_some_iff.mp found
      exact other instruction named representable same
    exact ⟨illegal, fun _ _ _ _ fetched => step_of_illegal fetched illegal⟩

/-- A branch that is too far keeps the lower bits of its offset, one that fits is read back, and the
word of zeros is the word of no instruction. -/
theorem codec_exact_branches :
    (beq 31 1 (-4098)).encode.instruction? = some (beq 31 1 4094) ∧
      (beq 31 1 (-4096)).encode.instruction? = some (beq 31 1 (-4096)) ∧
      Word.instruction? 0#32 = none := by
  have named (imm : Int) : (beq 31 1 imm).Named :=
    ⟨by rintro _ ⟨⟩, by rintro _ ⟨⟩; decide, by rintro _ ⟨⟩; decide⟩
  refine ⟨?_, ?_, ?_⟩
  · exact (codec_exact.1 (beq 31 1 (-4098)) (named _)).1
  · exact (codec_exact.1 (beq 31 1 (-4096)) (named _)).2 ⟨by decide, by decide, by decide⟩
  · refine (codec_exact.2.2 0#32 ?_).1
    intro instruction named representable same
    have found := (codec_exact.2.1 0#32 instruction).mpr ⟨named, representable, same⟩
    have nothing : Word.instruction? 0#32 = none := by decide
    rw [nothing] at found
    cases found

end Instruction

end NestedMachine
