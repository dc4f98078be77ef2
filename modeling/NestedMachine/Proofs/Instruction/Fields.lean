import Mathlib.Tactic.Positivity
import Mathlib.Tactic.Linarith
import Mathlib.Algebra.Order.Ring.Int
import NestedMachine.Instruction.Decoding
import NestedMachine.Instruction.Encoding

/-!
# Fields of instruction words

The word of an instruction is the union of parts, each in a place of its own.  So a part can be
read back from its place (`extractLsb'_place`), and the parts in other places do not show there
(`extractLsb'_place_apart`).  The other way round, a word is the union of its own parts, as long as
they leave no bit out: every format gives back the word whose fields it is given
(`formatR_fields` and the theorems after it).

The parts of an immediate come in an order of their own.  Joined again, they are the immediate with
its lowest bits cleared, cut down to the bits of its field (`ImmediateField.fit`).  What a field can
hold is what is left as it is by that (`ImmediateField.fit_eq_self_iff`).
-/

namespace NestedMachine

set_option autoImplicit false

/-! ## Immediates -/

/-- A field for immediates: how many bits a signed immediate has, and how many of the lowest are
zero and left out of the word. -/
structure ImmediateField where
  bits : Nat
  zeros : Nat
  zeros_lt : zeros < bits

namespace ImmediateField

/-- Loads, stores, additions and indirect jumps. -/
def short : ImmediateField := ⟨12, 0, by decide⟩

/-- Branches, to even offsets. -/
def branch : ImmediateField := ⟨13, 1, by decide⟩

/-- Direct jumps, to even offsets. -/
def jump : ImmediateField := ⟨21, 1, by decide⟩

/-- Upper immediates. -/
def upper : ImmediateField := ⟨32, 12, by decide⟩

/-- What a field keeps of a number: its lowest bits are cleared, and the rest is cut down to the
bits of the field and read with its sign. -/
def fit (field : ImmediateField) (imm : Int) : Int :=
  (imm - imm % 2 ^ field.zeros).bmod (2 ^ field.bits)

/-- The numbers that a field can hold. -/
structure Holds (field : ImmediateField) (imm : Int) : Prop where
  multiple : imm % 2 ^ field.zeros = 0
  low : -2 ^ (field.bits - 1) ≤ imm
  high : imm < 2 ^ (field.bits - 1)

variable {field : ImmediateField} {imm : Int}

theorem two_pow_bits (field : ImmediateField) : 2 ^ field.bits = 2 * 2 ^ (field.bits - 1) := by
  have positive := field.zeros_lt
  rw [← Nat.pow_succ', Nat.succ_eq_add_one, Nat.sub_add_cancel (by omega)]

theorem fit_of_holds (holds : field.Holds imm) : field.fit imm = imm := by
  have range := field.two_pow_bits
  obtain ⟨multiple, low, high⟩ := holds
  rw [fit, multiple, Int.sub_zero]
  apply Int.bmod_eq_of_le
  · rw [range]
    push_cast
    omega
  · rw [range]
    push_cast
    omega

theorem holds_fit (field : ImmediateField) (imm : Int) : field.Holds (field.fit imm) := by
  have range := field.two_pow_bits
  have positive : 0 < 2 ^ field.bits := Nat.two_pow_pos _
  have low := Int.le_bmod (x := imm - imm % 2 ^ field.zeros) positive
  have high := Int.bmod_lt (x := imm - imm % 2 ^ field.zeros) positive
  refine ⟨?_, ?_, ?_⟩
  · -- The range is a multiple of the scale, so cutting down keeps multiples.
    have scale : (2 ^ field.zeros : Int) ∣ ((2 ^ field.bits : Nat) : Int) := by
      push_cast
      exact pow_dvd_pow 2 field.zeros_lt.le
    apply Int.emod_eq_zero_of_dvd
    have whole := scale.trans (Int.dvd_bmod_sub_self (x := imm - imm % 2 ^ field.zeros))
    exact (Int.dvd_iff_dvd_of_dvd_sub whole).mpr Int.dvd_self_sub_emod
  · unfold fit
    rw [range] at low ⊢
    push_cast at low ⊢
    omega
  · unfold fit
    rw [range] at high ⊢
    push_cast at high ⊢
    omega

/-- **A field keeps exactly the numbers that it can hold.** -/
theorem fit_eq_self_iff : field.fit imm = imm ↔ field.Holds imm :=
  ⟨fun same => same ▸ field.holds_fit imm, fit_of_holds⟩

end ImmediateField

/-- The lowest bits of a number can be cleared before or after it is cut down. -/
theorem sub_emod_emod {imm scale range : Int} (divides : scale ∣ range) (positive : 0 < scale)
    (wide : 0 < range) : (imm - imm % scale) % range = scale * (imm % range / scale) := by
  have whole := Int.mul_ediv_add_emod imm range
  have rest := Int.mul_ediv_add_emod (imm % range) scale
  have bound := Int.emod_lt_of_pos imm wide
  have nonneg := Int.emod_nonneg imm wide.ne'
  have small := Int.emod_nonneg (imm % range) positive.ne'
  have quotient := Int.mul_nonneg positive.le (Int.ediv_nonneg nonneg positive.le)
  rw [Int.emod_emod_of_dvd imm divides] at rest small
  have split : imm - imm % scale = scale * (imm % range / scale) + range * (imm / range) := by
    omega
  rw [split, Int.add_mul_emod_self_left]
  exact Int.emod_eq_of_lt quotient (by omega)

/-- The upper bits of an immediate, with zeros for the others. -/
theorem extractLsb'_append_zeros (zeros width : Nat) (imm : Int) :
    (BitVec.ofInt (width + zeros) imm).extractLsb' zeros width ++ 0#(zeros) =
      BitVec.ofInt (width + zeros) (imm - imm % 2 ^ zeros) := by
  have scale : (2 ^ zeros : Int) ∣ 2 ^ (width + zeros) := pow_dvd_pow 2 (Nat.le_add_left ..)
  have wide : (0 : Int) < 2 ^ (width + zeros) := by positivity
  apply BitVec.eq_of_toNat_eq
  rw [BitVec.toNat_append, BitVec.extractLsb'_toNat, BitVec.toNat_ofInt, BitVec.toNat_ofInt]
  push_cast
  rw [sub_emod_emod scale (by positivity) wide]
  have bound := Int.emod_lt_of_pos imm wide
  obtain ⟨value, same⟩ := Int.eq_ofNat_of_zero_le (Int.emod_nonneg imm wide.ne')
  rw [same] at bound ⊢
  have small : value / 2 ^ zeros < 2 ^ width := by
    refine Nat.div_lt_of_lt_mul ?_
    rw [← Nat.pow_add, Nat.add_comm]
    exact_mod_cast bound
  rw [Int.toNat_natCast, BitVec.toNat_zero, Nat.or_zero, Nat.shiftRight_eq_div_pow,
    Nat.mod_eq_of_lt small, Nat.shiftLeft_eq, Nat.mul_comm]
  rfl

/-- The upper bits of an immediate, with zeros for the others, are what its field keeps. -/
theorem toInt_append_zeros (zeros width : Nat) (positive : zeros < width + zeros) (imm : Int) :
    ((BitVec.ofInt (width + zeros) imm).extractLsb' zeros width ++ 0#(zeros)).toInt =
      ImmediateField.fit ⟨width + zeros, zeros, positive⟩ imm := by
  rw [extractLsb'_append_zeros, BitVec.toInt_ofInt]
  rfl

namespace Instruction

variable {width start : Nat}

/-! ## Parts in their places -/

theorem getLsbD_place (part : BitVec width) (start index : Nat) :
    (place start part).getLsbD index =
      (decide (index < 32 ∧ start ≤ index) && part.getLsbD (index - start)) := by
  rw [place, BitVec.getLsbD_shiftLeft, BitVec.getLsbD_setWidth]
  by_cases below : index < 32
  · have low : index - start < 32 := by omega
    by_cases above : start ≤ index
    · simp [below, above, low]
    · simp [above, not_le.mp above]
  · simp [below]

/-- A part is read back from its place. -/
@[simp]
theorem extractLsb'_place (part : BitVec width) (fits : start + width ≤ 32) :
    (place start part).extractLsb' start width = part := by
  apply BitVec.eq_of_getLsbD_eq
  intro index inside
  have low : start + index < 32 := by omega
  rw [BitVec.getLsbD_extractLsb', getLsbD_place, Nat.add_sub_cancel_left]
  simp [inside, low]

/-- A part does not show outside its place. -/
@[simp]
theorem extractLsb'_place_apart {start' width' : Nat} (part : BitVec width)
    (apart : start' + width' ≤ start ∨ start + width ≤ start') :
    (place start part).extractLsb' start' width' = 0#(width') := by
  apply BitVec.eq_of_getLsbD_eq
  intro index inside
  rw [BitVec.getLsbD_extractLsb', getLsbD_place, BitVec.getLsbD_zero]
  rcases apart with below | above
  · have outside : ¬start ≤ start' + index := by omega
    simp [outside]
  · have outside : width ≤ start' + index - start := by omega
    simp [BitVec.getLsbD_of_ge _ _ outside]

/-- A part of a word, left in its place. -/
theorem getLsbD_place_extractLsb' (word : Word) (start width : Nat) {index : Nat}
    (inside : index < 32) :
    (place start (word.extractLsb' start width)).getLsbD index =
      (decide (start ≤ index ∧ index < start + width) && word.getLsbD index) := by
  rw [getLsbD_place, BitVec.getLsbD_extractLsb']
  by_cases above : start ≤ index
  · have within : index - start < width ↔ index < start + width := by omega
    simp [inside, above, within]
  · simp [above]

/-- A register number below thirty-two fills its field and no more. -/
@[simp]
theorem placeRegister_toNat (start : Nat) (register : BitVec 5) :
    placeRegister start register.toNat = place start register := by
  rw [placeRegister, place, BitVec.ofNat_toNat]

theorem exists_toNat_eq {register : Nat} (small : register < 32) :
    ∃ field : BitVec 5, field.toNat = register :=
  ⟨BitVec.ofNat 5 register, (BitVec.toNat_ofNat ..).trans (Nat.mod_eq_of_lt small)⟩

/-! ## Immediates in pieces -/

/-- The four pieces of a word that end with given low bits. -/
structure Joined {total : Nat} {p q r s : Nat} (low : Nat) (first : BitVec p) (second : BitVec q)
    (third : BitVec r) (fourth : BitVec s) (whole : BitVec total) : Prop where
  first : whole.extractLsb' (low + s + r + q) p = first
  second : whole.extractLsb' (low + s + r) q = second
  third : whole.extractLsb' (low + s) r = third
  fourth : whole.extractLsb' low s = fourth

theorem joined_append {p q r s t : Nat} (first : BitVec p) (second : BitVec q) (third : BitVec r)
    (fourth : BitVec s) (low : BitVec t) :
    Joined t first second third fourth (first ++ second ++ third ++ fourth ++ low) := by
  refine ⟨?_, ?_, ?_, ?_⟩
  · rw [BitVec.extractLsb'_append_eq_of_le (by omega),
      BitVec.extractLsb'_append_eq_of_le (by omega),
      BitVec.extractLsb'_append_eq_of_le (by omega), show t + s + r + q - t - s - r = q by omega,
      BitVec.extractLsb'_append_eq_left]
  · rw [BitVec.extractLsb'_append_eq_of_le (by omega),
      BitVec.extractLsb'_append_eq_of_le (by omega),
      BitVec.extractLsb'_append_eq_of_le (by omega), show t + s + r - t - s - r = 0 by omega,
      BitVec.extractLsb'_append_eq_right]
  · rw [BitVec.extractLsb'_append_eq_of_le (by omega),
      BitVec.extractLsb'_append_eq_of_le (by omega), show t + s - t - s = 0 by omega,
      BitVec.extractLsb'_append_eq_right]
  · rw [BitVec.extractLsb'_append_eq_of_le (by omega), show t - t = 0 by omega,
      BitVec.extractLsb'_append_eq_right]

/-- The pieces of the upper bits of a word, joined in order. -/
theorem append_pieces {total p q r s : Nat} (low : Nat) (whole : BitVec total) :
    whole.extractLsb' (low + s + r + q) p ++ whole.extractLsb' (low + s + r) q
        ++ whole.extractLsb' (low + s) r ++ whole.extractLsb' low s =
      whole.extractLsb' low (p + q + r + s) := by
  rw [BitVec.extractLsb'_append_extractLsb'_eq_extractLsb' rfl,
    BitVec.extractLsb'_append_extractLsb'_eq_extractLsb' rfl,
    BitVec.extractLsb'_append_extractLsb'_eq_extractLsb' rfl]

theorem joined_immediateB (word : Word) :
    Joined 1 (word.extractLsb' 31 1) (word.extractLsb' 7 1) (word.extractLsb' 25 6)
      (word.extractLsb' 8 4) (BitVec.ofInt 13 word.immediateB) := by
  rw [Word.immediateB, BitVec.ofInt_toInt]
  exact joined_append ..

theorem joined_immediateJ (word : Word) :
    Joined 1 (word.extractLsb' 31 1) (word.extractLsb' 12 8) (word.extractLsb' 20 1)
      (word.extractLsb' 21 10) (BitVec.ofInt 21 word.immediateJ) := by
  rw [Word.immediateJ, BitVec.ofInt_toInt]
  exact joined_append ..

/-! ## Fields of a format -/

section Formats

variable (funct7 : BitVec 7) (funct3 : BitVec 3) (rd rs1 rs2 : BitVec 5) (opcode : BitVec 7)
  (imm : Int)

theorem fields_formatR :
    let word := formatR funct7 funct3 rd.toNat rs1.toNat rs2.toNat opcode
    word.opcode = opcode ∧ word.funct3 = funct3 ∧ word.funct7 = funct7 ∧ word.rd = rd.toNat ∧
      word.rs1 = rs1.toNat ∧ word.rs2 = rs2.toNat := by
  simp [formatR, Word.opcode, Word.funct3, Word.funct7, Word.rd, Word.rs1, Word.rs2,
    BitVec.extractLsb'_or]

theorem fields_formatI :
    let word := formatI imm funct3 rd.toNat rs1.toNat opcode
    word.opcode = opcode ∧ word.funct3 = funct3 ∧ word.rd = rd.toNat ∧ word.rs1 = rs1.toNat ∧
      word.immediateI = ImmediateField.short.fit imm := by
  simp [formatI, Word.opcode, Word.funct3, Word.rd, Word.rs1, Word.immediateI, ImmediateField.fit,
    ImmediateField.short, BitVec.extractLsb'_or]

theorem fields_formatS :
    let word := formatS imm funct3 rs1.toNat rs2.toNat opcode
    word.opcode = opcode ∧ word.funct3 = funct3 ∧ word.rs1 = rs1.toNat ∧ word.rs2 = rs2.toNat ∧
      word.immediateS = ImmediateField.short.fit imm := by
  intro word
  refine ⟨?_, ?_, ?_, ?_, ?_⟩
  · simp [word, formatS, Word.opcode, BitVec.extractLsb'_or]
  · simp [word, formatS, Word.funct3, BitVec.extractLsb'_or]
  · simp [word, formatS, Word.rs1, BitVec.extractLsb'_or]
  · simp [word, formatS, Word.rs2, BitVec.extractLsb'_or]
  · have high : word.extractLsb' 25 7 = (BitVec.ofInt 12 imm).extractLsb' 5 7 := by
      simp [word, formatS, BitVec.extractLsb'_or]
    have low : word.extractLsb' 7 5 = (BitVec.ofInt 12 imm).extractLsb' 0 5 := by
      simp [word, formatS, BitVec.extractLsb'_or]
    have whole : (BitVec.ofInt 12 imm).extractLsb' 5 7 ++ (BitVec.ofInt 12 imm).extractLsb' 0 5 =
        (BitVec.ofInt 12 imm).extractLsb' 0 12 :=
      BitVec.extractLsb'_append_extractLsb'_eq_extractLsb' rfl
    rw [Word.immediateS, high, low, whole]
    simp [ImmediateField.fit, ImmediateField.short]

theorem fields_formatB :
    let word := formatB imm funct3 rs1.toNat rs2.toNat opcode
    word.opcode = opcode ∧ word.funct3 = funct3 ∧ word.rs1 = rs1.toNat ∧ word.rs2 = rs2.toNat ∧
      word.immediateB = ImmediateField.branch.fit imm := by
  intro word
  refine ⟨?_, ?_, ?_, ?_, ?_⟩
  · simp [word, formatB, Word.opcode, BitVec.extractLsb'_or]
  · simp [word, formatB, Word.funct3, BitVec.extractLsb'_or]
  · simp [word, formatB, Word.rs1, BitVec.extractLsb'_or]
  · simp [word, formatB, Word.rs2, BitVec.extractLsb'_or]
  · have first : word.extractLsb' 31 1 = (BitVec.ofInt 13 imm).extractLsb' 12 1 := by
      simp [word, formatB, BitVec.extractLsb'_or]
    have second : word.extractLsb' 7 1 = (BitVec.ofInt 13 imm).extractLsb' 11 1 := by
      simp [word, formatB, BitVec.extractLsb'_or]
    have third : word.extractLsb' 25 6 = (BitVec.ofInt 13 imm).extractLsb' 5 6 := by
      simp [word, formatB, BitVec.extractLsb'_or]
    have fourth : word.extractLsb' 8 4 = (BitVec.ofInt 13 imm).extractLsb' 1 4 := by
      simp [word, formatB, BitVec.extractLsb'_or]
    rw [Word.immediateB, first, second, third, fourth]
    have pieces := append_pieces (p := 1) (q := 1) (r := 6) (s := 4) 1 (BitVec.ofInt 13 imm)
    exact (congrArg (fun upper => (upper ++ 0#1).toInt) pieces).trans
      (toInt_append_zeros 1 12 (by decide) imm)

theorem fields_formatU :
    let word := formatU imm rd.toNat opcode
    word.opcode = opcode ∧ word.rd = rd.toNat ∧
      word.immediateU = ImmediateField.upper.fit imm := by
  intro word
  refine ⟨?_, ?_, ?_⟩
  · simp [word, formatU, Word.opcode, BitVec.extractLsb'_or]
  · simp [word, formatU, Word.rd, BitVec.extractLsb'_or]
  · have upper : word.extractLsb' 12 20 = (BitVec.ofInt 32 imm).extractLsb' 12 20 := by
      simp [word, formatU, BitVec.extractLsb'_or]
    rw [Word.immediateU, upper]
    exact toInt_append_zeros 12 20 (by decide) imm

theorem fields_formatJ :
    let word := formatJ imm rd.toNat opcode
    word.opcode = opcode ∧ word.rd = rd.toNat ∧
      word.immediateJ = ImmediateField.jump.fit imm := by
  intro word
  refine ⟨?_, ?_, ?_⟩
  · simp [word, formatJ, Word.opcode, BitVec.extractLsb'_or]
  · simp [word, formatJ, Word.rd, BitVec.extractLsb'_or]
  · have first : word.extractLsb' 31 1 = (BitVec.ofInt 21 imm).extractLsb' 20 1 := by
      simp [word, formatJ, BitVec.extractLsb'_or]
    have second : word.extractLsb' 12 8 = (BitVec.ofInt 21 imm).extractLsb' 12 8 := by
      simp [word, formatJ, BitVec.extractLsb'_or]
    have third : word.extractLsb' 20 1 = (BitVec.ofInt 21 imm).extractLsb' 11 1 := by
      simp [word, formatJ, BitVec.extractLsb'_or]
    have fourth : word.extractLsb' 21 10 = (BitVec.ofInt 21 imm).extractLsb' 1 10 := by
      simp [word, formatJ, BitVec.extractLsb'_or]
    rw [Word.immediateJ, first, second, third, fourth]
    have pieces := append_pieces (p := 1) (q := 8) (r := 1) (s := 10) 1 (BitVec.ofInt 21 imm)
    exact (congrArg (fun upper => (upper ++ 0#1).toInt) pieces).trans
      (toInt_append_zeros 1 20 (by decide) imm)

end Formats

/-! ## Words from their fields -/

/-- The union of some parts of a word, each given by its first bit and its width. -/
def union (word : Word) : List (Nat × Nat) → Word
  | [] => 0#32
  | (start, width) :: rest => place start (word.extractLsb' start width) ||| union word rest

theorem getLsbD_union (word : Word) (parts : List (Nat × Nat)) {index : Nat}
    (inside : index < 32) : (union word parts).getLsbD index =
      (parts.any (fun part => part.1 ≤ index ∧ index < part.1 + part.2) && word.getLsbD index) := by
  induction parts with
  | nil => simp [union]
  | cons part rest ih =>
      rw [union, BitVec.getLsbD_or, getLsbD_place_extractLsb' word _ _ inside, ih, List.any_cons,
        Bool.and_or_distrib_right]

/-- **A word is the union of its parts, if they leave no bit out.** -/
theorem union_eq (word : Word) (parts : List (Nat × Nat))
    (cover : ∀ index < 32, parts.any fun part => part.1 ≤ index ∧ index < part.1 + part.2) :
    union word parts = word := by
  apply BitVec.eq_of_getLsbD_eq
  intro index inside
  rw [getLsbD_union word parts inside, cover index inside, Bool.true_and]

variable (word : Word)

theorem formatR_fields : formatR word.funct7 word.funct3 word.rd word.rs1 word.rs2 word.opcode =
    word := by
  have whole := union_eq word [(25, 7), (20, 5), (15, 5), (12, 3), (7, 5), (0, 7)]
    (by decide)
  simp only [union, BitVec.or_zero, ← BitVec.or_assoc] at whole
  simp only [formatR, Word.rd, Word.rs1, Word.rs2, placeRegister_toNat]
  exact whole

theorem formatI_fields : formatI word.immediateI word.funct3 word.rd word.rs1 word.opcode =
    word := by
  have whole := union_eq word [(20, 12), (15, 5), (12, 3), (7, 5), (0, 7)] (by decide)
  simp only [union, BitVec.or_zero, ← BitVec.or_assoc] at whole
  simp only [formatI, Word.immediateI, BitVec.ofInt_toInt, Word.rd, Word.rs1, placeRegister_toNat]
  exact whole

theorem formatS_fields : formatS word.immediateS word.funct3 word.rs1 word.rs2 word.opcode =
    word := by
  have bits : BitVec.ofInt 12 word.immediateS = word.extractLsb' 25 7 ++ word.extractLsb' 7 5 :=
    BitVec.ofInt_toInt
  have high : (BitVec.ofInt 12 word.immediateS).extractLsb' 5 7 = word.extractLsb' 25 7 := by
    rw [bits]
    exact BitVec.extractLsb'_append_eq_left
  have low : (BitVec.ofInt 12 word.immediateS).extractLsb' 0 5 = word.extractLsb' 7 5 := by
    rw [bits]
    exact BitVec.extractLsb'_append_eq_right
  have whole := union_eq word [(25, 7), (20, 5), (15, 5), (12, 3), (7, 5), (0, 7)]
    (by decide)
  simp only [union, BitVec.or_zero, ← BitVec.or_assoc] at whole
  simp only [formatS, high, low, Word.rs1, Word.rs2, placeRegister_toNat]
  exact whole

theorem formatB_fields : formatB word.immediateB word.funct3 word.rs1 word.rs2 word.opcode =
    word := by
  obtain ⟨first, second, third, fourth⟩ := joined_immediateB word
  have whole := union_eq word
    [(31, 1), (25, 6), (20, 5), (15, 5), (12, 3), (8, 4), (7, 1), (0, 7)] (by decide)
  simp only [union, BitVec.or_zero, ← BitVec.or_assoc] at whole
  simp only [formatB, first, second, third, fourth, Word.rs1, Word.rs2, placeRegister_toNat]
  exact whole

theorem formatU_fields : formatU word.immediateU word.rd word.opcode = word := by
  have bits : BitVec.ofInt 32 word.immediateU = word.extractLsb' 12 20 ++ 0#12 :=
    BitVec.ofInt_toInt
  have upper : (BitVec.ofInt 32 word.immediateU).extractLsb' 12 20 = word.extractLsb' 12 20 := by
    rw [bits]
    exact BitVec.extractLsb'_append_eq_left
  have whole := union_eq word [(12, 20), (7, 5), (0, 7)] (by decide)
  simp only [union, BitVec.or_zero, ← BitVec.or_assoc] at whole
  simp only [formatU, upper, Word.rd, placeRegister_toNat]
  exact whole

theorem formatJ_fields : formatJ word.immediateJ word.rd word.opcode = word := by
  obtain ⟨first, second, third, fourth⟩ := joined_immediateJ word
  have whole := union_eq word [(31, 1), (21, 10), (20, 1), (12, 8), (7, 5), (0, 7)]
    (by decide)
  simp only [union, BitVec.or_zero, ← BitVec.or_assoc] at whole
  simp only [formatJ, first, second, third, fourth, Word.rd, placeRegister_toNat]
  exact whole

end Instruction

end NestedMachine
