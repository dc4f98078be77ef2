import Mathlib.Algebra.GroupWithZero.Nat
import Mathlib.Data.Multiset.AddSub
import Mathlib.Data.Multiset.Bind
import Mathlib.Data.Multiset.MapFold
import Std.Data.TreeMap

/-!
# Tables by number

Page tables and the table of contexts map numbers to entries.  What is counted over a table is
counted over the multiset of its entries, which has each entry once (`nodup_entries`).  Writing,
removing or changing one entry changes the multiset by that entry only, so that a sum over a
table splits into one entry and the rest.
-/

namespace NestedMachine.Table

set_option autoImplicit false

open Std (TreeMap)

variable {β γ : Type}

/-! ## Looking up -/

theorem getElem?_insert (table : TreeMap Nat β) (key other : Nat) (value : β) :
    (table.insert key value)[other]? = if key = other then some value else table[other]? := by
  rw [TreeMap.getElem?_insert]
  simp only [compare_eq_iff_eq]

theorem getElem?_erase (table : TreeMap Nat β) (key other : Nat) :
    (table.erase key)[other]? = if key = other then none else table[other]? := by
  rw [TreeMap.getElem?_erase]
  simp only [compare_eq_iff_eq]

theorem getElem?_modify (table : TreeMap Nat β) (key other : Nat) (change : β → β) :
    (table.modify key change)[other]? =
      if key = other then table[other]?.map change else table[other]? := by
  rw [TreeMap.getElem?_modify]
  simp only [compare_eq_iff_eq]
  split
  · rename_i same
    rw [same]
  · rfl

theorem contains_eq_isSome (table : TreeMap Nat β) (key : Nat) :
    table.contains key = table[key]?.isSome := by
  rw [TreeMap.contains_eq_isSome_getElem?]

/-! ## Entries -/

/-- The entries of a table. -/
def entries (table : TreeMap Nat β) : Multiset (Nat × β) := table.toList

theorem mem_entries {table : TreeMap Nat β} {key : Nat} {value : β} :
    (key, value) ∈ entries table ↔ table[key]? = some value := by
  rw [entries, Multiset.mem_coe]
  exact TreeMap.mem_toList_iff_getElem?_eq_some

theorem nodup_entries (table : TreeMap Nat β) : (entries table).Nodup := by
  rw [entries, Multiset.coe_nodup]
  refine (TreeMap.distinct_keys_toList (t := table)).imp fun different same => ?_
  exact different (by rw [same, compare_eq_iff_eq])

theorem nodup_keys (table : TreeMap Nat β) : ((entries table).map Prod.fst).Nodup := by
  refine Multiset.Nodup.map_on ?_ (nodup_entries table)
  rintro ⟨key, value⟩ member ⟨_, value'⟩ member' rfl
  rw [mem_entries] at member member'
  rw [Option.some.inj (member.symm.trans member')]

theorem mem_map_entries {table : TreeMap Nat β} {key : Nat} {seen : γ} (view : β → γ) :
    (key, seen) ∈ (entries table).map (fun entry => (entry.1, view entry.2)) ↔
      table[key]?.map view = some seen := by
  rw [Multiset.mem_map, Option.map_eq_some_iff]
  constructor
  · rintro ⟨⟨_, value⟩, member, equal⟩
    obtain ⟨rfl, rfl⟩ := Prod.mk.inj equal
    exact ⟨value, mem_entries.mp member, rfl⟩
  · rintro ⟨value, found, rfl⟩
    exact ⟨(key, value), mem_entries.mpr found, rfl⟩

theorem nodup_map_entries (table : TreeMap Nat β) (view : β → γ) :
    ((entries table).map fun entry => (entry.1, view entry.2)).Nodup := by
  refine Multiset.Nodup.of_map Prod.fst ?_
  rw [Multiset.map_map]
  exact nodup_keys table

/-- Tables that look the same have entries that look the same. -/
theorem map_entries_congr {first second : TreeMap Nat β} {view : β → γ}
    (same : ∀ key : Nat, first[key]?.map view = second[key]?.map view) :
    (entries first).map (fun entry => (entry.1, view entry.2)) =
      (entries second).map (fun entry => (entry.1, view entry.2)) := by
  refine (Multiset.Nodup.ext (nodup_map_entries _ view) (nodup_map_entries _ view)).mpr ?_
  rintro ⟨key, seen⟩
  rw [mem_map_entries, mem_map_entries, same]

theorem card_entries (table : TreeMap Nat β) : (entries table).card = table.size := by
  rw [entries, Multiset.coe_card, TreeMap.length_toList]

/-- A table with one more entry, or with another value for a key. -/
theorem entries_insert (table : TreeMap Nat β) (key : Nat) (value : β) :
    entries (table.insert key value) = (key, value) ::ₘ entries (table.erase key) := by
  refine (Multiset.Nodup.ext (nodup_entries _) ?_).mpr ?_
  · refine Multiset.nodup_cons.mpr ⟨fun member => ?_, nodup_entries _⟩
    rw [mem_entries, getElem?_erase, if_pos rfl] at member
    cases member
  · rintro ⟨other, found⟩
    rw [mem_entries, Multiset.mem_cons, mem_entries, getElem?_insert, getElem?_erase]
    by_cases same : key = other
    · simp [same, eq_comm]
    · simp [same, Ne.symm same]

/-- An entry and the rest of its table. -/
theorem entries_eq_cons {table : TreeMap Nat β} {key : Nat} {value : β}
    (found : table[key]? = some value) :
    entries table = (key, value) ::ₘ entries (table.erase key) := by
  rw [← entries_insert]
  refine (Multiset.Nodup.ext (nodup_entries _) (nodup_entries _)).mpr ?_
  rintro ⟨other, entry⟩
  rw [mem_entries, mem_entries, getElem?_insert]
  by_cases same : key = other
  · rw [if_pos same, ← same, found]
  · rw [if_neg same]

theorem entries_erase_of_none {table : TreeMap Nat β} {key : Nat} (missing : table[key]? = none) :
    entries (table.erase key) = entries table := by
  refine (Multiset.Nodup.ext (nodup_entries _) (nodup_entries _)).mpr ?_
  rintro ⟨other, entry⟩
  rw [mem_entries, mem_entries, getElem?_erase]
  by_cases same : key = other
  · rw [if_pos same, ← same, missing]
  · rw [if_neg same]

/-! ## Sums -/

/-- The sum of what the entries of a table count for. -/
def total (count : β → Nat) (table : TreeMap Nat β) : Nat :=
  ((entries table).map fun entry => count entry.2).sum

/-- What the entry for a key counts for. -/
def share (count : β → Nat) (table : TreeMap Nat β) (key : Nat) : Nat :=
  (table[key]?.map count).getD 0

variable {count : β → Nat} {before after : TreeMap Nat β} {key : Nat}

theorem total_congr (same : ∀ key : Nat, after[key]?.map count = before[key]?.map count) :
    total count after = total count before := by
  have sums := congrArg (fun seen => (Multiset.map Prod.snd seen).sum) (map_entries_congr same)
  simpa only [total, Multiset.map_map, Function.comp_apply] using sums

theorem total_eq_add (table : TreeMap Nat β) (key : Nat) :
    total count table = share count table key + total count (table.erase key) := by
  rw [total, share]
  cases found : table[key]? with
  | none => rw [total, entries_erase_of_none found, Option.map_none, Option.getD_none, Nat.zero_add]
  | some value => rw [entries_eq_cons found, Multiset.map_cons, Multiset.sum_cons]; rfl

/-- **Where two tables differ in one entry, their sums differ by what it counts for.** -/
theorem total_update (others : ∀ other : Nat, key ≠ other →
      after[other]?.map count = before[other]?.map count) :
    total count after + share count before key = total count before + share count after key := by
  have rest : total count (after.erase key) = total count (before.erase key) := by
    refine total_congr fun other => ?_
    rw [getElem?_erase, getElem?_erase]
    split
    · rfl
    · rename_i different
      exact others other different
  rw [total_eq_add after key, total_eq_add before key, rest]
  omega

end NestedMachine.Table
