import Mathlib.Data.Finset.Card
import Mathlib.Order.Interval.Finset.Nat
import NestedMachine.Memory.AddressSpace
import NestedMachine.Proofs.Memory.Frames
import NestedMachine.Proofs.Table

/-!
# The bytes that a guest sees

An address space shows a byte at every address: the byte of the frame behind the page, and zero
where no page is mapped (`Memory.byteAt`).  Pages and frames themselves cannot be seen.

Reads and writes within one page are slices of one frame, so they read and change the bytes in
view (`slice_eq`, `byte_overwrite`).  The frames that a page table holds form a multiset, which
mapping and unmapping change by the frames of the pages concerned.
-/

namespace NestedMachine

set_option autoImplicit false

/-! ## Bytes of a frame -/

namespace Frame

theorem slice_eq (frame : Frame) (offset size : Nat) :
    frame.slice offset size = (List.range size).map fun place => frame.byte (offset + place) := by
  induction size generalizing offset with
  | zero => rfl
  | succ size ih =>
      rw [slice, ih, List.range_succ_eq_map, List.map_cons, List.map_map]
      refine congrArg₂ List.cons rfl (List.map_congr_left fun place _ => ?_)
      exact congrArg frame.byte (by omega)

theorem byte_setIfInBounds (frame : Frame) (offset : Nat) (value : UInt8) (place : Nat)
    (inside : offset < pageSize) :
    byte (frame.setIfInBounds offset value) place =
      if offset = place then value else frame.byte place := by
  unfold byte
  rw [Vector.getElem?_setIfInBounds]
  split
  · rw [if_pos (show offset < 4096 from inside)]
    rfl
  · rfl

theorem byte_overwrite (frame : Frame) (offset : Nat) (bytes : List UInt8) (place : Nat)
    (fits : offset + bytes.length ≤ pageSize) :
    (frame.overwrite offset bytes).byte place =
      if offset ≤ place ∧ place < offset + bytes.length then bytes[place - offset]?.getD 0
      else frame.byte place := by
  induction bytes generalizing frame offset with
  | nil =>
      rw [overwrite, if_neg]
      simp only [List.length_nil]
      omega
  | cons first rest ih =>
      simp only [List.length_cons] at fits ⊢
      rw [overwrite, ih _ _ (by omega), byte_setIfInBounds _ _ _ _ (by omega)]
      by_cases here : offset = place
      · subst here
        simp
      · by_cases behind : offset + 1 ≤ place ∧ place < offset + 1 + rest.length
        · have next : place - offset = place - (offset + 1) + 1 := by omega
          rw [if_pos behind, if_pos (by omega), next, List.getElem?_cons_succ]
        · rw [if_neg behind, if_neg here, if_neg (by omega)]

end Frame

/-! ## Addresses within one page -/

theorem pageOf_add {address place size : Nat} (fits : pageOffset address + size ≤ pageSize)
    (inside : place < size) : pageOf (address + place) = pageOf address := by
  simp only [pageOf, pageOffset, pageSize] at *
  omega

theorem pageOffset_add {address place size : Nat} (fits : pageOffset address + size ≤ pageSize)
    (inside : place < size) : pageOffset (address + place) = pageOffset address + place := by
  simp only [pageOffset, pageSize] at *
  omega

/-- The addresses of a page are told apart by their offsets. -/
theorem eq_add_of_pageOf_eq {address other : Nat} (same : pageOf other = pageOf address) :
    other + pageOffset address = address + pageOffset other := by
  simp only [pageOf, pageOffset, pageSize] at *
  omega

/-! ## Frames of a page table -/

namespace PageTable

/-- The frames behind the mapped pages. -/
def frames (table : PageTable) : Multiset FrameId :=
  (Table.entries table).map fun entry => entry.2.frame

theorem card_frames (table : PageTable) : table.frames.card = table.size := by
  rw [frames, Multiset.card_map, Table.card_entries]

theorem mem_frames {table : PageTable} {frame : FrameId} :
    frame ∈ table.frames ↔ ∃ (page : Nat) (entry : PageEntry), table[page]? = some entry ∧
      entry.frame = frame := by
  rw [frames, Multiset.mem_map]
  constructor
  · rintro ⟨⟨page, entry⟩, member, same⟩
    exact ⟨page, entry, Table.mem_entries.mp member, same⟩
  · rintro ⟨page, entry, found, same⟩
    exact ⟨(page, entry), Table.mem_entries.mpr found, same⟩

/-- The pages that are mapped. -/
def domain (table : PageTable) : Finset Nat := ((Table.entries table).map Prod.fst).toFinset

theorem mem_domain {table : PageTable} {page : Nat} :
    page ∈ table.domain ↔ ∃ entry : PageEntry, table[page]? = some entry := by
  rw [domain, Multiset.mem_toFinset, Multiset.mem_map]
  constructor
  · rintro ⟨⟨_, entry⟩, member, rfl⟩
    exact ⟨entry, Table.mem_entries.mp member⟩
  · rintro ⟨entry, found⟩
    exact ⟨(page, entry), Table.mem_entries.mpr found, rfl⟩

theorem notMem_domain {table : PageTable} {page : Nat} :
    page ∉ table.domain ↔ table[page]? = none := by
  rw [mem_domain, ← Option.ne_none_iff_exists', not_ne_iff]

theorem card_domain (table : PageTable) : table.domain.card = table.size := by
  rw [domain, Multiset.toFinset_card_of_nodup (Table.nodup_keys table), Multiset.card_map,
    Table.card_entries]

/-- A page that is mapped adds its frame. -/
theorem frames_insert {table : PageTable} {page : Nat} (missing : table[page]? = none)
    (entry : PageEntry) : frames (table.insert page entry) = entry.frame ::ₘ table.frames := by
  rw [frames, Table.entries_insert, Multiset.map_cons, Table.entries_erase_of_none missing]
  rfl

/-- If no frame is behind two pages, equal frames are behind one page. -/
theorem page_eq_of_frame_eq {table : PageTable} (exclusive : table.frames.Nodup)
    {page other : Nat} {entry entry' : PageEntry} (found : table[page]? = some entry)
    (found' : table[other]? = some entry') (same : entry.frame = entry'.frame) : page = other := by
  have pair := Multiset.inj_on_of_nodup_map exclusive _ (Table.mem_entries.mpr found) _
    (Table.mem_entries.mpr found') same
  exact congrArg Prod.fst pair

/-! ## Unmapping -/

theorem mem_entriesIn {table : PageTable} {start stop page : Nat} {entry : PageEntry} :
    (page, entry) ∈ table.entriesIn start stop ↔
      table[page]? = some entry ∧ start ≤ page ∧ page < stop := by
  rw [entriesIn, List.mem_filter, Std.TreeMap.mem_toList_iff_getElem?_eq_some]
  simp

theorem getElem?_eraseAll (table : PageTable) (entries : List (Nat × PageEntry)) (page : Nat) :
    (table.eraseAll entries)[page]? =
      if page ∈ entries.map Prod.fst then none else table[page]? := by
  unfold eraseAll
  induction entries generalizing table with
  | nil => rw [List.foldl_nil, List.map_nil, if_neg List.not_mem_nil]
  | cons first rest ih =>
      rw [List.foldl_cons, ih, Table.getElem?_erase, List.map_cons]
      by_cases later : page ∈ rest.map Prod.fst
      · rw [if_pos later, if_pos (List.mem_cons_of_mem _ later)]
      · rw [if_neg later]
        by_cases here : first.1 = page
        · rw [if_pos here, if_pos (here ▸ List.mem_cons_self)]
        · rw [if_neg here, if_neg fun member => (List.mem_cons.mp member).elim (Ne.symm here) later]

/-- Unmapping a range leaves the pages outside it. -/
theorem getElem?_unmapRange (table : PageTable) (start stop page : Nat) :
    (table.unmapRange start stop).2[page]? =
      if start ≤ page ∧ page < stop then none else table[page]? := by
  rw [unmapRange, getElem?_eraseAll]
  by_cases inside : start ≤ page ∧ page < stop
  · rw [if_pos inside]
    split
    · rfl
    · rename_i absent
      cases found : table[page]? with
      | none => rfl
      | some entry =>
          have listed := mem_entriesIn.mpr ⟨found, inside⟩
          exact absurd (List.mem_map_of_mem (f := Prod.fst) listed) absent
  · rw [if_neg inside, if_neg]
    intro member
    obtain ⟨⟨_, entry⟩, listed, rfl⟩ := List.mem_map.mp member
    exact inside (mem_entriesIn.mp listed).2

theorem domain_unmapRange (table : PageTable) (start stop : Nat) :
    domain (table.unmapRange start stop).2 = table.domain \ Finset.Ico start stop := by
  ext page
  rw [Finset.mem_sdiff, Finset.mem_Ico, mem_domain, mem_domain]
  simp only [getElem?_unmapRange]
  by_cases inside : start ≤ page ∧ page < stop
  · simp [inside]
  · simp [inside]

/-- How many pages of a range are not mapped. -/
theorem unmappedIn_eq_card (table : PageTable) (start stop : Nat) :
    table.unmappedIn start stop = (Finset.Ico start stop \ table.domain).card := by
  have list : (List.range' start (stop - start)).filter (fun page => !table.contains page) =
      (List.range' start (stop - start)).filter (fun page => page ∉ table.domain) := by
    apply List.filter_congr
    intro page _
    rw [Table.contains_eq_isSome]
    cases found : table[page]? with
    | none => simp [notMem_domain.mpr found]
    | some entry => simp [mem_domain.mpr ⟨entry, found⟩]
  have finset : (Finset.Ico start stop \ table.domain) =
      ((List.range' start (stop - start)).filter (fun page => page ∉ table.domain)).toFinset := by
    ext page
    rw [List.mem_toFinset, List.mem_filter, List.mem_range'_1, Finset.mem_sdiff, Finset.mem_Ico]
    simp only [decide_eq_true_eq]
    constructor
    · rintro ⟨⟨low, high⟩, missing⟩
      exact ⟨⟨low, by omega⟩, missing⟩
    · rintro ⟨⟨low, high⟩, missing⟩
      exact ⟨⟨low, by omega⟩, missing⟩
  rw [finset, List.toFinset_card_of_nodup (List.Nodup.filter _ List.nodup_range'), unmappedIn,
    List.countP_eq_length_filter, list]

/-- The frames of the pages that are unmapped, and those of the rest. -/
theorem frames_unmapRange (table : PageTable) (start stop : Nat) :
    table.frames =
      (((table.unmapRange start stop).1.map fun entry => entry.2.frame : List FrameId) :
        Multiset FrameId) + (table.unmapRange start stop).2.frames := by
  have inside : (Table.entries table).filter (fun entry => start ≤ entry.1 ∧ entry.1 < stop) =
      (table.entriesIn start stop : Multiset _) := by
    rw [Table.entries, Multiset.filter_coe, entriesIn]
    simp only [Bool.decide_and]
  have split : Table.entries table =
      (table.entriesIn start stop : Multiset _) +
        Table.entries (table.unmapRange start stop).2 := by
    rw [← Multiset.filter_add_not (fun entry => start ≤ entry.1 ∧ entry.1 < stop)
      (Table.entries table)]
    refine congrArg₂ (· + ·) inside ?_
    refine (Multiset.Nodup.ext (Multiset.Nodup.filter _ (Table.nodup_entries table))
      (Table.nodup_entries _)).mpr ?_
    rintro ⟨page, entry⟩
    rw [Multiset.mem_filter, Table.mem_entries, Table.mem_entries, getElem?_unmapRange]
    by_cases within : start ≤ page ∧ page < stop
    · simp [within]
    · simp [within]
  rw [frames, split, Multiset.map_add, Multiset.map_coe]
  rfl

end PageTable

/-! ## Bytes in view -/

namespace Memory

/-- The byte that an address space shows at an address; there is nothing but zero where no page is
mapped. -/
def byteAt (memory : Memory) (address : Nat) : UInt8 :=
  match memory.space.table[pageOf address]? with
  | some entry => memory.pool.byte entry.frame (pageOffset address)
  | none => 0

/-- The bytes that an address space shows from an address on. -/
def bytesAt (memory : Memory) (address size : Nat) : Bytes :=
  (List.range size).map fun place => memory.byteAt (address + place)

end Memory

end NestedMachine
