import NestedMachine.Machine.Execution
import NestedMachine.Proofs.Instruction.Codec

/-!
# Loading constants

The words of `loadImmediate` are decoded and carried out one after the other (`Hart.obeyAll`), as
the steps of a run do with the words they fetch (`Hart.step_eq_obey`).  Each of them gives a value
to one register and goes on to the word after it (`Hart.Gives`), so what a list of them does is
found word by word.

A constant is cut into its upper part, which is rounded to the nearest multiple of 4096, and a rest
of twelve signed bits.  Rounding can carry the upper part out of the range of `lui`: from
`0x7ffff800` on it is rounded to `0x80000000`, which is read with its sign.  That is the only way
to miss the constant, and it misses it by 2 ^ 32 (`fit_rounded`).
-/

namespace NestedMachine

set_option autoImplicit false

/-! ## Carrying out words -/

namespace Hart

/-- Decode a word and carry out the instruction that it holds. -/
def obey (hart : Hart) (word : Word) : MemoryAction (Hart × Flow) :=
  match word.instruction? with
  | some instruction => instruction.execute hart
  | none => throw (.illegalInstruction word)

/-- A step obeys the word that it fetches. -/
theorem step_eq_obey (tracing : Bool) (hart : Hart) :
    hart.step tracing = hart.fetch tracing >>= hart.obey := rfl

/-- Obey words in order, as long as each of them goes on to the next. -/
def obeyAll (hart : Hart) : List Word → MemoryAction (Hart × Flow)
  | [] => pure (hart, .next)
  | word :: rest => do
      match ← hart.obey word with
      | (hart, .next) => hart.obeyAll rest
      | (hart, .environmentCall) => return (hart, .environmentCall)

theorem obeyAll_cons {hart next : Hart} {word : Word} (goesOn : hart.obey word = pure (next, .next))
    (rest : List Word) : hart.obeyAll (word :: rest) = next.obeyAll rest := by
  rw [obeyAll, goesOn]
  rfl

/-- What words that give one register a value leave: the value in the register, everything else in
the register file, and the program counter after the last of them. -/
structure Gives (rd : Nat) (value : UInt64) (words : Nat) (before after : Hart) : Prop where
  given : after.registers.read rd = value
  others : ∀ register, register ≠ rd →
    after.registers.read register = before.registers.read register
  pc : after.pc = before.pc + 4 * UInt64.ofNat words

variable {rd : Nat} {before between after : Hart} {first value : UInt64} {words : Nat}

theorem gives_advance (positive : rd ≠ 0) (rd_lt : rd < Register.count) (hart : Hart)
    (value : UInt64) : Gives rd value 1 hart (hart.advance rd value) := by
  refine ⟨?_, ?_, rfl⟩
  · rw [advance, Registers.read_write rd_lt, if_pos ⟨rfl, positive⟩]
  · intro register other
    rw [advance, Registers.read_write rd_lt, if_neg fun same => other same.1]

/-- The last value is the one that stays. -/
theorem Gives.then (start : Gives rd first 1 before between)
    (rest : Gives rd value words between after) : Gives rd value (words + 1) before after := by
  refine ⟨rest.given, ?_, ?_⟩
  · intro register other
    rw [rest.others register other, start.others register other]
  · rw [rest.pc, start.pc, UInt64.ofNat_add, UInt64.mul_add, UInt64.add_assoc,
      UInt64.add_comm (4 * UInt64.ofNat words)]

theorem obey_encode {instruction : Instruction} (named : instruction.Named) (hart : Hart) :
    hart.obey instruction.encode = instruction.fitted.execute hart := by
  rw [obey, Instruction.instruction?_encode named]

theorem obey_lui (rd_lt : rd < Register.count) (imm : Int) (hart : Hart) :
    hart.obey (Instruction.lui rd imm).encode =
      pure (hart.advance rd (UInt64.ofInt (ImmediateField.upper.fit imm)), .next) :=
  obey_encode ⟨by rintro _ ⟨⟩; exact rd_lt, by rintro _ ⟨⟩, by rintro _ ⟨⟩⟩ hart

theorem obey_addi {rs1 : Nat} (rd_lt : rd < Register.count) (rs1_lt : rs1 < Register.count)
    {imm : Int} (fits : ImmediateField.short.Holds imm) (hart : Hart) :
    hart.obey (Instruction.addi rd rs1 imm).encode =
      pure (hart.advance rd (hart.registers.read rs1 + UInt64.ofInt imm), .next) := by
  rw [obey_encode ⟨by rintro _ ⟨⟩; exact rd_lt, by rintro _ ⟨⟩; exact rs1_lt, by rintro _ ⟨⟩⟩ hart,
    Instruction.fitted, ImmediateField.fit_of_holds fits]
  rfl

end Hart

/-! ## The parts of a constant -/

namespace Instruction

/-- A constant of thirty-two bits as its words load it: where rounding carries the upper part out of
its range, it is read with its sign. -/
def loaded (value : Int) : Int := if value ≤ 0x7ffff7ff then value else value - 2 ^ 32

variable {rd : Nat} {value : Int}

/-- What `lui` keeps of the upper part of a constant. -/
theorem fit_rounded (low : -2 ^ 31 ≤ value) (high : value < 2 ^ 31) :
    ImmediateField.upper.fit ((value + 2048) / 4096 * 4096) + (value - (value + 2048) / 4096 * 4096)
      = loaded value := by
  unfold loaded
  split_ifs with small
  · have holds : ImmediateField.upper.Holds ((value + 2048) / 4096 * 4096) := by
      refine ⟨?_, ?_, ?_⟩ <;> simp only [ImmediateField.upper] <;> omega
    rw [ImmediateField.fit_of_holds holds]
    omega
  · have carried : (value + 2048) / 4096 * 4096 = 2 ^ 31 := by omega
    rw [carried, show ImmediateField.upper.fit (2 ^ 31) = -2 ^ 31 by decide]
    omega

/-- **A constant is loaded by one or two words.**  Decoded and carried out in order, from any
registers and any program counter, they leave the constant in its register, with its sign extended,
up to `0x7ffff7ff`, and the constant less 2 ^ 32 above that.  No other register is changed, memory
is not touched, and the program counter has moved past the words.  There is one word exactly if the
constant has twelve signed bits or its twelve low bits are zero. -/
theorem constant_loaded (positive : 1 ≤ rd) (named : rd ≤ 31) (low : -2 ^ 31 ≤ value)
    (high : value < 2 ^ 31) (hart : Hart) (memory : Memory) :
    let words := (loadImmediate rd value).map encode
    (∃ after : Hart, hart.obeyAll words memory = .ok (after, .next) memory ∧
      hart.Gives rd (UInt64.ofInt (loaded value)) words.length after) ∧
    words.length = if (-2048 ≤ value ∧ value < 2048) ∨ value % 4096 = 0 then 1 else 2 := by
  intro words
  have rd_lt : rd < Register.count := Nat.lt_succ_of_le named
  have nonzero : rd ≠ 0 := by omega
  have parts := fit_rounded low high
  set upper := (value + 2048) / 4096 * 4096 with upper_eq
  by_cases short : -2048 ≤ value ∧ value < 2048
  · -- The constant is added to register zero.
    have alone : words = [(addi rd 0 value).encode] := by
      simp [words, loadImmediate, short]
    have fits : ImmediateField.short.Holds value := by
      refine ⟨?_, ?_, ?_⟩ <;> simp only [ImmediateField.short] <;> omega
    have same : loaded value = value := if_pos (by omega)
    rw [alone, same, if_pos (.inl short)]
    refine ⟨⟨hart.advance rd (UInt64.ofInt value), ?_, Hart.gives_advance nonzero rd_lt ..⟩, rfl⟩
    rw [Hart.obeyAll_cons (Hart.obey_addi rd_lt (by decide) fits hart), Registers.read, if_pos rfl,
      UInt64.zero_add]
    rfl
  · by_cases whole : value % 4096 = 0
    · have alone : words = [(lui rd upper).encode] := by
        have rest : value - (value + 2048) / 4096 * 4096 = 0 := by omega
        simp [words, loadImmediate, short, rest, luiUpper, upper_eq]
      have rest : ImmediateField.upper.fit upper = loaded value := by omega
      rw [alone, if_pos (.inr whole), ← rest]
      refine ⟨⟨_, ?_, Hart.gives_advance nonzero rd_lt ..⟩, rfl⟩
      rw [Hart.obeyAll_cons (Hart.obey_lui rd_lt upper hart)]
      rfl
    · have both : words = [(lui rd upper).encode, (addi rd rd (value - upper)).encode] := by
        have rest : value - (value + 2048) / 4096 * 4096 ≠ 0 := by omega
        simp [words, loadImmediate, short, rest, luiUpper, upper_eq]
      have fits : ImmediateField.short.Holds (value - upper) := by
        refine ⟨?_, ?_, ?_⟩ <;> simp only [ImmediateField.short] <;> omega
      have start := Hart.gives_advance nonzero rd_lt hart
        (UInt64.ofInt (ImmediateField.upper.fit upper))
      rw [both, if_neg (by tauto), ← parts, UInt64.ofInt_add, ← start.given]
      refine ⟨⟨_, ?_, start.then (Hart.gives_advance nonzero rd_lt ..)⟩, rfl⟩
      rw [Hart.obeyAll_cons (Hart.obey_lui rd_lt upper hart),
        Hart.obeyAll_cons (Hart.obey_addi rd_lt rd_lt fits _)]
      rfl

/-- The last constant that is loaded as it stands, and the first that is not. -/
theorem constant_loaded_or_missed :
    let hart : Hart := ⟨.zero, 0x10000⟩
    let memory : Memory :=
      ⟨.empty ⟨0x10008, 0x11000, 0x11000, 0x11000, 0x11000, 0xfffff000⟩ .demand, .empty 1, .silent⟩
    (∃ after : Hart,
      hart.obeyAll ((loadImmediate 5 0x7ffff7ff).map encode) memory = .ok (after, .next) memory ∧
        after.registers.read 5 = 0x7ffff7ff ∧ after.pc = 0x10008) ∧
    (∃ after : Hart,
      hart.obeyAll ((loadImmediate 5 0x7ffff800).map encode) memory = .ok (after, .next) memory ∧
        after.registers.read 5 = 0xffffffff7ffff800 ∧ after.pc = 0x10008) := by
  intro hart memory
  constructor
  · obtain ⟨⟨after, obeyed, gives⟩, -⟩ :=
      @constant_loaded 5 0x7ffff7ff (by decide) (by decide) (by decide)
        (by decide) hart memory
    exact ⟨after, obeyed, gives.given.trans (by decide), gives.pc.trans (by decide)⟩
  · obtain ⟨⟨after, obeyed, gives⟩, -⟩ :=
      @constant_loaded 5 0x7ffff800 (by decide) (by decide) (by decide)
        (by decide) hart memory
    exact ⟨after, obeyed, gives.given.trans (by decide), gives.pc.trans (by decide)⟩

end Instruction

end NestedMachine
