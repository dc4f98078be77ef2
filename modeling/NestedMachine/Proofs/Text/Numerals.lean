import Mathlib.Data.Nat.Digits.Defs
import Mathlib.Tactic.IntervalCases
import NestedMachine.Text.Numeral
import Std.Data.String.ToInt

/-!
# Numerals that are written and read

A number is read back from the digits that it is written in (`value?_toDigits`), so numbers that
are written alike are the same, in decimal and in hexadecimal (`toString_inj`, `hex_inj`,
`paddedHex_inj`).

The decimal reader takes more than what is written.  It does not mind zeros in front of a number,
and an unsigned number may carry a plus sign.  That is all: what reads as a number is the decimal
numeral of the number behind any run of zeros (`value?_eq_some_iff`), and behind a plus sign where
one is taken (`unsigned?_eq_some_iff`).
-/

namespace NestedMachine.Numeral

set_option autoImplicit false

/-! ## Reading what was written -/

section Base

variable {base : Nat}

theorem valueFrom?_append (front : Nat) (digits rest : List Char) :
    valueFrom? base front (digits ++ rest) =
      (valueFrom? base front digits).bind fun value => valueFrom? base value rest := by
  induction digits generalizing front with
  | nil => rfl
  | cons digit digits ih =>
      rw [List.cons_append, valueFrom?, valueFrom?]
      cases digitValue? base digit with
      | none => rfl
      | some value => exact ih _

theorem digitValue?_digitChar {digit : Nat} (few : base ≤ 16) (small : digit < base) :
    digitValue? base digit.digitChar = some digit := by
  have bound : digit < 16 := Nat.lt_of_lt_of_le small few
  refine Option.filter_eq_some_iff.mpr ⟨?_, decide_eq_true small⟩
  clear small
  interval_cases digit <;> decide

theorem valueFrom?_digitChar {digit : Nat} (few : base ≤ 16) (front : Nat) (small : digit < base) :
    valueFrom? base front [digit.digitChar] = some (front * base + digit) := by
  simp only [valueFrom?, digitValue?_digitChar few small]

theorem valueFrom?_toDigits (many : 1 < base) (few : base ≤ 16) (number : Nat) :
    valueFrom? base 0 (Nat.toDigits base number) = some number := by
  induction number using Nat.strong_induction_on with
  | _ number ih =>
      by_cases small : number < base
      · rw [Nat.toDigits_of_lt_base small, valueFrom?_digitChar few 0 small, Nat.zero_mul,
          Nat.zero_add]
      · have last : number % base < base := Nat.mod_lt _ (by omega)
        have front : number / base < number := Nat.div_lt_self (by omega) many
        rw [Nat.toDigits_of_base_le many (Nat.le_of_not_lt small), valueFrom?_append, ih _ front,
          Option.bind_some, valueFrom?_digitChar few _ last, Nat.div_add_mod']

/-- A numeral stands for the number that it was written for. -/
theorem value?_toDigits (many : 1 < base) (few : base ≤ 16) (number : Nat) :
    value? base (Nat.toDigits base number) = some number := by
  have read := valueFrom?_toDigits many few number
  cases digits : Nat.toDigits base number with
  | nil => exact absurd digits Nat.toDigits_ne_nil
  | cons digit rest => rwa [digits] at read

theorem toDigits_inj (many : 1 < base) (few : base ≤ 16) {left right : Nat} :
    Nat.toDigits base left = Nat.toDigits base right ↔ left = right := by
  refine ⟨fun same => Option.some.inj ?_, congrArg _⟩
  rw [← value?_toDigits many few left, same, value?_toDigits many few]

/-- Zeros in front of a numeral do not count. -/
theorem value?_zeros (many : 1 < base) (few : base ≤ 16) (zeros number : Nat) :
    value? base (List.replicate zeros '0' ++ Nat.toDigits base number) = some number := by
  induction zeros with
  | zero => exact value?_toDigits many few number
  | succ zeros ih =>
      have zero : digitValue? base (Nat.digitChar 0) = some 0 :=
        digitValue?_digitChar few (by omega)
      have skipped : valueFrom? base 0 (List.replicate zeros '0' ++ Nat.toDigits base number) =
          some number := by
        cases written : List.replicate zeros '0' ++ Nat.toDigits base number with
        | nil => exact absurd (List.append_eq_nil_iff.mp written).2 Nat.toDigits_ne_nil
        | cons digit rest => rwa [written] at ih
      show valueFrom? base 0
        (Nat.digitChar 0 :: (List.replicate zeros '0' ++ Nat.toDigits base number)) = _
      simp only [valueFrom?, zero, Nat.zero_mul, Nat.zero_add, skipped]

/-- Numerals that are filled up with zeros are those of the same number. -/
theorem eq_of_zeros (many : 1 < base) (few : base ≤ 16) {zeros zeros' left right : Nat}
    (same : List.replicate zeros '0' ++ Nat.toDigits base left =
      List.replicate zeros' '0' ++ Nat.toDigits base right) : left = right := by
  apply Option.some.inj
  rw [← value?_zeros many few zeros left, same, value?_zeros many few]

end Base

/-! ## How numerals start -/

theorem toList_toString_ofNat (number : Nat) :
    (toString (Int.ofNat number)).toList = Nat.toDigits 10 number :=
  String.toList_ofList

theorem toList_toString_negSucc (number : Nat) :
    (toString (Int.negSucc number)).toList = '-' :: Nat.toDigits 10 (number + 1) := by
  show ("-" ++ (number + 1).repr).toList = _
  simp [Nat.repr]

/-- A numeral has digits only. -/
theorem notMem_toDigits {base : Nat} (many : 1 < base) (few : base ≤ 16) {char : Char}
    (other : digitValue? base char = none) (number : Nat) : char ∉ Nat.toDigits base number := by
  intro member
  obtain ⟨before, after, split⟩ := List.append_of_mem member
  have read := valueFrom?_toDigits many few number
  rw [split, valueFrom?_append] at read
  obtain ⟨front, -, rest⟩ := Option.bind_eq_some_iff.mp read
  rw [valueFrom?, other] at rest
  cases rest

/-- The numeral of an integer has digits only, apart from its sign. -/
theorem notMem_toString {char : Char} (sign : char ≠ '-') (other : digitValue? 10 char = none)
    (value : Int) : char ∉ (toString value).toList := by
  have digits := notMem_toDigits (by decide) (by decide) other
  cases value with
  | ofNat number => exact toList_toString_ofNat number ▸ digits number
  | negSucc number =>
      rw [toList_toString_negSucc, List.mem_cons, not_or]
      exact ⟨sign, digits _⟩

/-! ## Numerals tell numbers apart -/

theorem toString_inj {left right : Int} : toString left = toString right ↔ left = right :=
  Int.repr_inj

theorem hex_inj {left right : Nat} : hex left = hex right ↔ left = right := by
  refine ⟨fun same => ?_, congrArg _⟩
  have digits : hexDigits left = hexDigits right := by
    simpa only [hex, String.append_right_inj, String.ofList_inj] using same
  exact (toDigits_inj (by decide) (by decide)).mp digits

theorem paddedHex_inj {width left right : Nat} :
    paddedHex width left = paddedHex width right ↔ left = right := by
  refine ⟨fun same => ?_, congrArg _⟩
  have digits : fillZeros width (hexDigits left) = fillZeros width (hexDigits right) := by
    simpa only [paddedHex, bareHex, String.append_right_inj, String.ofList_inj] using same
  exact eq_of_zeros (by decide) (by decide) digits

/-! ## What reads as a number -/

theorem eq_digitChar_of_digitValue? {char : Char} {value : Nat}
    (read : digitValue? 10 char = some value) : value < 10 ∧ char = value.digitChar := by
  obtain ⟨found, small⟩ := Option.filter_eq_some_iff.mp read
  have small : value < 10 := of_decide_eq_true small
  refine ⟨small, ?_⟩
  -- Only the decimal digits stand for so little.
  have listed : '0' ≤ char ∧ char ≤ '9' := by
    by_contra other
    rw [if_neg other] at found
    split_ifs at found <;> simp only [Option.some.injEq] at found <;> omega
  rw [if_pos listed, Option.some.injEq] at found
  apply Char.toNat_inj.mp
  have zero : '0'.toNat = 48 := rfl
  have least : '0'.toNat ≤ char.toNat := listed.1
  rw [Nat.toNat_digitChar_of_lt_ten small]
  omega

/-- A number that is read on starts with a digit. -/
theorem digit_of_valueFrom? {front number : Nat} {char : Char} {rest : List Char}
    (read : valueFrom? 10 front (char :: rest) = some number) :
    ∃ value, value < 10 ∧ char = value.digitChar ∧
      valueFrom? 10 (front * 10 + value) rest = some number := by
  rw [valueFrom?] at read
  cases found : digitValue? 10 char with
  | none =>
      rw [found] at read
      cases read
  | some value =>
      rw [found] at read
      obtain ⟨small, same⟩ := eq_digitChar_of_digitValue? found
      exact ⟨value, small, same, read⟩

/-- What continues a positive number is the rest of its numeral. -/
theorem toDigits_append_of_valueFrom? {front number : Nat} {digits : List Char}
    (positive : 0 < front) (read : valueFrom? 10 front digits = some number) :
    Nat.toDigits 10 front ++ digits = Nat.toDigits 10 number := by
  induction digits generalizing front with
  | nil => rw [List.append_nil, Option.some.inj read]
  | cons digit rest ih =>
      obtain ⟨value, small, rfl, later⟩ := digit_of_valueFrom? read
      have longer := Nat.toDigits_append_toDigits (by decide) positive small
      rw [Nat.toDigits_of_lt_base small, Nat.mul_comm] at longer
      rw [← ih (by omega) later, ← longer, List.append_assoc, List.singleton_append]

/-- **What reads as a number** is its numeral, behind any run of zeros. -/
theorem value?_eq_some_iff {digits : List Char} {number : Nat} :
    value? 10 digits = some number ↔
      ∃ zeros, digits = List.replicate zeros '0' ++ Nat.toDigits 10 number := by
  constructor
  · intro read
    induction digits with
    | nil => cases read
    | cons digit rest ih =>
        have start : valueFrom? 10 0 (digit :: rest) = some number := read
        obtain ⟨value, small, rfl, later⟩ := digit_of_valueFrom? start
        rw [Nat.zero_mul, Nat.zero_add] at later
        cases value with
        | succ value =>
            -- The first digit that is no zero begins the numeral.
            have numeral := toDigits_append_of_valueFrom? (Nat.succ_pos value) later
            rw [Nat.toDigits_of_lt_base small] at numeral
            exact ⟨0, numeral⟩
        | zero =>
            cases rest with
            | nil =>
                obtain rfl := Option.some.inj later
                exact ⟨0, rfl⟩
            | cons next rest =>
                obtain ⟨zeros, same⟩ := ih later
                exact ⟨zeros + 1, by rw [same]; rfl⟩
  · rintro ⟨zeros, rfl⟩
    exact value?_zeros (by decide) (by decide) zeros number

/-- **What reads as an unsigned number** may have a plus sign in front as well. -/
theorem unsigned?_eq_some_iff {text : List Char} {number : Nat} :
    unsigned? text = some number ↔ ∃ sign ∈ [[], ['+']], ∃ zeros,
      text = sign ++ List.replicate zeros '0' ++ Nat.toDigits 10 number := by
  have plain : '+' ∉ Nat.toDigits 10 number := fun member =>
    absurd (Nat.isDigit_of_mem_toDigits (by decide) (by decide) member) (by decide)
  simp only [List.mem_cons, List.not_mem_nil, or_false, exists_eq_or_imp, exists_eq_left,
    List.nil_append, List.append_assoc, List.singleton_append]
  unfold unsigned?
  split
  · rename_i digits
    simp only [value?_eq_some_iff, List.cons.injEq, true_and]
    refine ⟨.inr, ?_⟩
    rintro (⟨zeros, same⟩ | found)
    · have member : '+' ∈ List.replicate zeros '0' ++ Nat.toDigits 10 number :=
        same ▸ List.mem_cons_self
      rcases List.mem_append.mp member with zero | digit
      · exact absurd (List.eq_of_mem_replicate zero) (by decide)
      · exact absurd digit plain
    · exact found
  · rename_i other
    simp only [value?_eq_some_iff]
    refine ⟨.inl, ?_⟩
    rintro (found | ⟨zeros, same⟩)
    · exact found
    · exact absurd same (other _)

end NestedMachine.Numeral
