import NestedMachine.Instruction.Assembly
import NestedMachine.Proofs.Instruction.Codec
import NestedMachine.Proofs.Instruction.RegisterNames

/-!
# Assembly text tells words apart

A word can be told from its assembly text (`disassemble_inj`).

The text of an instruction is cut at its marks: no mnemonic has a blank, no operand a comma, and no
offset a parenthesis, so the text gives back the mnemonic and the list of operands
(`parts_of_text`), and an address operand its base and its offset (`indirect_inj`).  Names of
registers and numerals tell registers and numbers apart, and the twenty bits that `lui` shows are
all that its word keeps of the immediate.  So two instructions with the same text are encoded alike
(`encode_eq_of_text`), and a word is what its instruction is encoded in.  A word outside the subset
is shown by its number, behind a mark that begins no mnemonic.
-/

namespace NestedMachine

set_option autoImplicit false

/-! ## Cutting texts -/

section Cutting

variable {α : Type} {mark : α}

/-- What is in front of the first mark, and what is behind it. -/
theorem cut_inj {left right rest rest' : List α} (clean : mark ∉ left) (clean' : mark ∉ right)
    (same : left ++ mark :: rest = right ++ mark :: rest') : left = right ∧ rest = rest' := by
  rcases List.append_eq_append_iff.mp same with ⟨more, longer, tail⟩ | ⟨more, longer, tail⟩
  · cases more with
    | nil => exact ⟨by rw [longer, List.append_nil], (List.cons.inj tail).2⟩
    | cons char more =>
        rw [longer, ← (List.cons.inj tail).1] at clean'
        exact absurd (List.mem_append_right left List.mem_cons_self) clean'
  · cases more with
    | nil => exact ⟨by rw [longer, List.append_nil], (List.cons.inj tail).2.symm⟩
    | cons char more =>
        rw [longer, ← (List.cons.inj tail).1] at clean
        exact absurd (List.mem_append_right right List.mem_cons_self) clean

/-- Items without marks are told from the list with a mark behind each but the last. -/
theorem intercalate_inj {gap : List α} {left right : List (List α)}
    (clean : ∀ item ∈ left, mark ∉ item) (clean' : ∀ item ∈ right, mark ∉ item) (some : left ≠ [])
    (some' : right ≠ [])
    (same : (mark :: gap).intercalate left = (mark :: gap).intercalate right) : left = right := by
  induction left generalizing right with
  | nil => exact absurd rfl some
  | cons item rest ih =>
      obtain ⟨item', rest', rfl⟩ := List.exists_cons_of_ne_nil some'
      have first : mark ∉ item := clean item List.mem_cons_self
      have first' : mark ∉ item' := clean' item' List.mem_cons_self
      have inside (before after : List α) : mark ∈ before ++ (mark :: gap) ++ after := by simp
      cases rest with
      | nil =>
          cases rest' with
          | nil => simpa using same
          | cons next' rest' =>
              rw [List.intercalate_singleton, List.intercalate_cons_cons] at same
              exact absurd (same ▸ inside _ _) first
      | cons next rest =>
          cases rest' with
          | nil =>
              rw [List.intercalate_singleton, List.intercalate_cons_cons] at same
              exact absurd (same ▸ inside _ _) first'
          | cons next' rest' =>
              rw [List.intercalate_cons_cons, List.intercalate_cons_cons, List.append_assoc,
                List.append_assoc, List.cons_append, List.cons_append] at same
              obtain ⟨rfl, tail⟩ := cut_inj first first' same
              have later := ih (fun item member => clean item (List.mem_cons_of_mem _ member))
                (fun item member => clean' item (List.mem_cons_of_mem _ member)) (by simp) (by simp)
                (List.append_cancel_left tail)
              rw [later]

end Cutting

namespace Instruction

/-! ## Operands -/

section Operands

theorem comma_notMem_name {register : Nat} (small : register < Register.count) :
    ',' ∉ (Register.name register).toList := by
  have absent : ∀ name ∈ Register.names, ',' ∉ name.toList := by decide
  exact absent _ (Register.name_mem_names small)

theorem comma_notMem_numeral (imm : Int) : ',' ∉ (toString imm).toList :=
  Numeral.notMem_toString (by decide) (by decide) imm

theorem comma_notMem_hex (number : Nat) : ',' ∉ (Numeral.hex number).toList := by
  have digits : ',' ∉ Numeral.hexDigits number :=
    Numeral.notMem_toDigits (by decide) (by decide) (by decide) number
  simpa [Numeral.hex] using digits

theorem comma_notMem_indirect {base : Nat} (small : base < Register.count) (offset : Int) :
    ',' ∉ (indirect base offset).toList := by
  have name := comma_notMem_name small
  have numeral := comma_notMem_numeral offset
  simp only [indirect, String.toList_append, List.mem_append, not_or]
  exact ⟨⟨⟨numeral, by decide⟩, name⟩, by decide⟩

/-- No operand has a comma. -/
theorem comma_notMem_operands {instruction : Instruction} (named : instruction.Named) :
    ∀ operand ∈ instruction.operands, ',' ∉ operand.toList := by
  obtain ⟨rd, rs1, rs2⟩ := named
  cases instruction <;>
    simp only [rd?, rs1?, rs2?, Option.mem_def, Option.some.injEq, forall_eq'] at rd rs1 rs2 <;>
    simp only [operands, List.forall_mem_cons, List.not_mem_nil, false_imp_iff, implies_true,
      comma_notMem_name, comma_notMem_numeral, comma_notMem_hex, comma_notMem_indirect, rd, rs1,
      rs2, not_false_eq_true, and_self]

/-- An address operand gives back its base and its offset. -/
theorem indirect_inj {base base' : Nat} {offset offset' : Int} (small : base < Register.count)
    (small' : base' < Register.count) :
    indirect base offset = indirect base' offset' ↔ base = base' ∧ offset = offset' := by
  refine ⟨fun same => ?_, fun ⟨bases, offsets⟩ => bases ▸ offsets ▸ rfl⟩
  have clean (imm : Int) : '(' ∉ (toString imm).toList :=
    Numeral.notMem_toString (by decide) (by decide) imm
  have chars : (toString offset).toList ++ '(' :: ((Register.name base).toList ++ [')']) =
      (toString offset').toList ++ '(' :: ((Register.name base').toList ++ [')']) := by
    simpa [indirect] using congrArg String.toList same
  obtain ⟨numeral, rest⟩ := cut_inj (clean offset) (clean offset') chars
  have name := List.append_cancel_right rest
  rw [String.toList_inj] at numeral name
  exact ⟨(Register.name_inj small small').mp name, Numeral.toString_inj.mp numeral⟩

end Operands

/-! ## Texts of instructions -/

/-- No mnemonic has a blank, or begins like the mark of a word outside the subset. -/
theorem mnemonic_clean (instruction : Instruction) :
    ' ' ∉ instruction.mnemonic.toList ∧ instruction.mnemonic.toList.head? ≠ some '.' ∧
      instruction.mnemonic.toList ≠ [] := by
  cases instruction <;> simp only [mnemonic] <;> decide

theorem text_of_no_operands {instruction : Instruction} (bare : instruction.operands = []) :
    instruction.text.toList = instruction.mnemonic.toList := by
  rw [text, bare]

theorem text_of_operands {instruction : Instruction} (shown : instruction.operands ≠ []) :
    instruction.text.toList = instruction.mnemonic.toList ++
      ' ' :: [',', ' '].intercalate (instruction.operands.map String.toList) := by
  obtain ⟨first, rest, operands⟩ := List.exists_cons_of_ne_nil shown
  rw [text, operands]
  simp [String.toList_intercalate]

theorem mnemonic_begins_text (instruction : Instruction) :
    instruction.mnemonic.toList <+: instruction.text.toList := by
  by_cases bare : instruction.operands = []
  · exact text_of_no_operands bare ▸ List.prefix_refl _
  · exact text_of_operands bare ▸ List.prefix_append ..

/-- **The text of an instruction gives back its mnemonic and its operands.** -/
theorem parts_of_text {left right : Instruction} (named : left.Named) (named' : right.Named)
    (same : left.text = right.text) :
    left.mnemonic = right.mnemonic ∧ left.operands = right.operands := by
  have clean := left.mnemonic_clean.1
  have clean' := right.mnemonic_clean.1
  rw [← String.toList_inj] at same
  by_cases bare : left.operands = [] <;> by_cases bare' : right.operands = []
  · rw [text_of_no_operands bare, text_of_no_operands bare', String.toList_inj] at same
    exact ⟨same, bare.trans bare'.symm⟩
  · rw [text_of_no_operands bare, text_of_operands bare'] at same
    exact absurd (same ▸ List.mem_append_right _ List.mem_cons_self) clean
  · rw [text_of_operands bare, text_of_no_operands bare'] at same
    exact absurd (same ▸ List.mem_append_right _ List.mem_cons_self) clean'
  · rw [text_of_operands bare, text_of_operands bare'] at same
    obtain ⟨mnemonic, rest⟩ := cut_inj clean clean' same
    have operands := intercalate_inj
      (List.forall_mem_map.mpr (comma_notMem_operands named))
      (List.forall_mem_map.mpr (comma_notMem_operands named')) (by simpa using bare)
      (by simpa using bare') rest
    exact ⟨String.toList_inj.mp mnemonic,
      List.map_injective_iff.mpr (fun _ _ => String.toList_inj.mp) operands⟩

/-! ## Words -/

/-- **Instructions that are shown alike are encoded alike.** -/
theorem encode_eq_of_parts {left right : Instruction} (named : left.Named) (named' : right.Named)
    (mnemonic : left.mnemonic = right.mnemonic) (operands : left.operands = right.operands) :
    left.encode = right.encode := by
  obtain ⟨rd, rs1, rs2⟩ := named
  obtain ⟨rd', rs1', rs2'⟩ := named'
  -- Different instructions have different mnemonics, so the cases of one instruction are left.
  cases left <;> cases right <;>
    first
    | exact absurd mnemonic (by simp only [Instruction.mnemonic]; decide)
    | skip
  all_goals
    simp only [rd?, rs1?, rs2?, Option.mem_def, Option.some.injEq, forall_eq']
      at rd rs1 rs2 rd' rs1' rs2'
    simp only [Instruction.operands, List.cons.injEq, and_true, Register.name_inj,
      Numeral.toString_inj, Numeral.hex_inj, BitVec.toNat_inj, indirect_inj, rd, rs1, rs2, rd',
      rs1', rs2'] at operands
  -- `lui` shows less than its immediate, but all that its word keeps of it.
  all_goals simp only [encode, formatU, operands]

theorem encode_eq_of_text {left right : Instruction} (named : left.Named) (named' : right.Named)
    (same : left.text = right.text) : left.encode = right.encode := by
  obtain ⟨mnemonic, operands⟩ := parts_of_text named named' same
  exact encode_eq_of_parts named named' mnemonic operands

/-- No instruction is shown like a word outside the subset. -/
theorem text_ne_number (instruction : Instruction) (number : String) :
    instruction.text ≠ ".word " ++ number := by
  obtain ⟨-, other, shown⟩ := instruction.mnemonic_clean
  obtain ⟨first, rest, chars⟩ := List.exists_cons_of_ne_nil shown
  obtain ⟨tail, split⟩ := instruction.mnemonic_begins_text
  intro same
  rw [same, chars, List.cons_append, String.toList_append] at split
  rw [chars, List.head?_cons, Ne, Option.some.injEq] at other
  exact other (List.cons.inj split).1

end Instruction

namespace Word

/-- **Words are told apart by their assembly text**, whether they hold instructions or not: the text
of a word determines the word, and so the mnemonic, the registers and the immediate of the
instruction that it holds. -/
theorem disassemble_inj (left right : Word) :
    left.disassemble = right.disassemble ↔ left = right := by
  refine ⟨fun same => ?_, congrArg disassemble⟩
  unfold disassemble at same
  cases held : left.instruction? with
  | some instruction =>
      obtain ⟨named, -, encoded⟩ := Instruction.instruction?_eq_some_iff.mp held
      cases held' : right.instruction? with
      | some instruction' =>
          obtain ⟨named', -, encoded'⟩ := Instruction.instruction?_eq_some_iff.mp held'
          rw [held, held'] at same
          rw [← encoded, ← encoded', Instruction.encode_eq_of_text named named' same]
      | none =>
          rw [held, held'] at same
          exact absurd same (instruction.text_ne_number _)
  | none =>
      cases held' : right.instruction? with
      | some instruction' =>
          rw [held, held'] at same
          exact absurd same.symm (instruction'.text_ne_number _)
      | none =>
          rw [held, held'] at same
          have number := (String.append_right_inj _).mp same
          exact BitVec.toNat_inj.mp (Numeral.paddedHex_inj.mp number)

end Word

end NestedMachine
