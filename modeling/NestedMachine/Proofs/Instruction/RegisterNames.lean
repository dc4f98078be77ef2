import Mathlib.Data.List.Nodup
import NestedMachine.Proofs.Text.Numerals
import NestedMachine.Register

/-!
# Names of registers

No two registers share a name of the calling convention (`name_inj`), and no such name, nor `fp`,
can be mistaken for a number behind the letter `x` (`numbered?_of_mem`).  So the three ways to name
a register do not overlap, and what is accepted is told by all three together (`named_exactly`).

The number behind the `x` is read as an unsigned number, which takes more than the plain numeral:
zeros in front of it, and a plus sign in front of those.  So a text such as `x+5` names a register
although the number of no register is written in that way (`plus_sign_named`).
-/

namespace NestedMachine.Register

set_option autoImplicit false

/-! ## The names of the calling convention -/

theorem nodup_names : names.Nodup := by decide

theorem idxOf?_names_eq_some_iff {text : String} {register : Nat} :
    names.idxOf? text = some register ↔ names[register]? = some text := by
  rw [List.idxOf?_eq_some_iff, List.getElem?_eq_some_iff]
  constructor
  · rintro ⟨inside, same, -⟩
    exact ⟨inside, same⟩
  · rintro ⟨inside, rfl⟩
    refine ⟨inside, rfl, fun earlier before same => ?_⟩
    exact before.ne ((List.Nodup.getElem_inj_iff nodup_names).mp same)

theorem getElem?_names {register : Nat} (small : register < count) :
    names[register]? = some (name register) := by
  have inside : register < names.length := small
  rw [name, List.getElem?_eq_getElem inside, Option.getD_some]

theorem name_mem_names {register : Nat} (small : register < count) : name register ∈ names :=
  List.mem_of_getElem? (getElem?_names small)

/-- Two registers do not share a name. -/
theorem name_inj {left right : Nat} (small : left < count) (small' : right < count) :
    name left = name right ↔ left = right := by
  refine ⟨fun same => Option.some.inj ?_, congrArg name⟩
  rw [← idxOf?_names_eq_some_iff.mpr (getElem?_names small), same,
    idxOf?_names_eq_some_iff.mpr (getElem?_names small')]

/-! ## Numbers behind the letter -/

theorem numbered?_eq_some_iff {text : List Char} {register : Nat} :
    numbered? text = some register ↔ register < count ∧ ∃ sign ∈ [[], ['+']], ∃ zeros,
      text = 'x' :: (sign ++ List.replicate zeros '0' ++ Nat.toDigits 10 register) := by
  unfold numbered?
  split
  · rw [Option.filter_eq_some_iff, Numeral.unsigned?_eq_some_iff, decide_eq_true_iff, and_comm]
    simp only [List.cons.injEq, true_and]
  · rename_i other
    refine ⟨nofun, ?_⟩
    rintro ⟨-, sign, -, zeros, same⟩
    exact absurd same (other _)

/-- A name of the calling convention is no number behind an `x`. -/
theorem numbered?_of_mem {text : String} (listed : text ∈ names) :
    numbered? text.toList = none := by
  revert text
  decide

/-- **What names a register**: its name in the calling convention, `fp` for the frame pointer, or
the letter `x` and the number of the register, in decimal, with any zeros in front and possibly a
plus sign in front of those.  Nothing else does. -/
theorem named_exactly (text : String) (register : Nat) :
    ofName? text = some register ↔
      names[register]? = some text ∨ (text = "fp" ∧ register = s0) ∨
        (register < count ∧ ∃ sign ∈ ["", "+"], ∃ zeros,
          text = "x" ++ sign ++ String.ofList (List.replicate zeros '0') ++ toString register) := by
  have numeral : numbered? text.toList = some register ↔
      register < count ∧ ∃ sign ∈ ["", "+"], ∃ zeros,
        text = "x" ++ sign ++ String.ofList (List.replicate zeros '0') ++ toString register := by
    rw [numbered?_eq_some_iff]
    simp only [List.mem_cons, List.not_mem_nil, or_false, exists_eq_or_imp, exists_eq_left]
    simp only [String.ext_iff, String.toList_append, Nat.toString_eq_ofList_toDigits,
      String.toList_ofList, List.append_assoc]
    rfl
  have frame : "fp" ∉ names := by decide
  rw [← numeral, ofName?]
  cases listed : names.idxOf? text with
  | some other =>
      have found := idxOf?_names_eq_some_iff.mp listed
      have member : text ∈ names := List.mem_of_getElem? found
      have notFrame : text ≠ "fp" := fun same => frame (same ▸ member)
      rw [numbered?_of_mem member, ← idxOf?_names_eq_some_iff, listed]
      simp [notFrame]
  | none =>
      have unlisted : names[register]? ≠ some text := by
        rw [Ne, ← idxOf?_names_eq_some_iff, listed]
        nofun
      by_cases same : text = "fp"
      · subst same
        rw [show numbered? "fp".toList = none from rfl]
        simp only [unlisted, if_true, true_and, false_or, reduceCtorEq, or_false, Option.some.injEq,
          eq_comm]
      · simp [unlisted, same]

/-- A text names a register although it is neither a name of the calling convention, nor `fp`, nor
the letter `x` and the plain numeral of a register. -/
theorem plus_sign_named : ¬∀ (text : String) (register : Nat),
    ofName? text = some register ↔
      names[register]? = some text ∨ (text = "fp" ∧ register = s0) ∨
        (register < count ∧ text = "x" ++ toString register) := by
  intro claim
  have named : ofName? "x+5" = some 5 := by decide
  rcases (claim "x+5" 5).mp named with listed | ⟨frame, -⟩ | ⟨-, numeral⟩
  · exact absurd listed (by decide)
  · exact absurd frame (by decide)
  · exact absurd numeral (by decide)

end NestedMachine.Register
