import NestedMachine.Proofs.Memory.Ranges

/-!
# What the check of a range decides

The check of a range looks at its two ends and, if these lie in different segments, hops from the
end of one segment to the next.  A walk says so step by step, with the number of its hops
(`Layout.Walk`).  Every hop leaves one segment behind for good, so a walk from anywhere is over
after four of them, whatever the layout (`Layout.walk_checkFrom`).

The layouts of programs have more to them.  Their segments are in order wherever the program break
stands between the heap and the stack (`Layout.Ordered.withBreak`), and all of them start at a
multiple of the word size (`Layout.start_mod_of_ofSizes`).  So a gap or a border between two
segments never lies inside an aligned word, and a word that passes belongs to one segment
(`Layout.Ordered.segment_of_word`).  The main result is `Layout.range_checked_exactly`.
-/

namespace NestedMachine

set_option autoImplicit false

namespace Layout

variable {layout : Layout} {address size : Nat} {access : Access}

/-! ## The walk over the segments -/

/-- A walk over the segments up to `last`: where it stands, how many hops it takes, and what it
finds. -/
inductive Walk (layout : Layout) (access : Access) (last : Nat) :
    Nat → Nat → Except Fault Unit → Prop
  | passed {cursor : Nat} (beyond : last < cursor) : Walk layout access last cursor 0 (.ok ())
  | refused {cursor : Nat} {fault : Fault} (within : cursor ≤ last)
      (denied : layout.check cursor access = .error fault) :
      Walk layout access last cursor 0 (.error fault)
  | hop {cursor hops : Nat} {segment : Segment} {found : Except Fault Unit} (within : cursor ≤ last)
      (allowed : layout.check cursor access = .ok segment)
      (rest : Walk layout access last (layout.stop segment) hops found) :
      Walk layout access last cursor (hops + 1) found

/-- How many segments end behind an address. -/
def ahead (layout : Layout) (address : Nat) : Nat :=
  [Segment.code, .data, .heap, .stack].countP fun segment => address < layout.stop segment

theorem ahead_le (layout : Layout) (address : Nat) : layout.ahead address ≤ 4 :=
  List.countP_le_length

/-- A hop leaves the segment behind that it crosses, and no segment comes back. -/
theorem ahead_stop_lt {segment : Segment} (before : address < layout.stop segment) :
    layout.ahead (layout.stop segment) < layout.ahead address := by
  have kept (other : Segment) :
      (if layout.stop segment < layout.stop other then 1 else 0) ≤
        if address < layout.stop other then 1 else 0 := by
    split_ifs <;> omega
  have code := kept .code
  have data := kept .data
  have heap := kept .heap
  have stack := kept .stack
  simp only [ahead, List.countP_cons, List.countP_nil, decide_eq_true_eq]
  cases segment <;> simp only [before, lt_irrefl, if_true, if_false] at code data heap stack ⊢ <;>
    omega

/-- **A walk ends, with what the check of a range finds, after at most one hop for every segment
that ends behind its start.** -/
theorem walk_checkFrom (layout : Layout) (access : Access) (cursor last : Nat) :
    ∃ hops ≤ layout.ahead cursor,
      layout.Walk access last cursor hops (layout.checkFrom cursor last access) := by
  induction cursor using checkFrom.induct layout last access with
  | case1 cursor beyond =>
      rw [checkFrom, if_pos beyond]
      exact ⟨0, Nat.zero_le _, .passed beyond⟩
  | case2 cursor inside segment found permitted ih =>
      obtain ⟨hops, few, walk⟩ := ih
      have fewer := ahead_stop_lt (lt_stop_of_segmentOf? found)
      have allowed := check_eq_ok_iff.mpr ⟨found, permitted⟩
      rw [checkFrom_of_check_ok inside allowed]
      exact ⟨hops + 1, by omega, .hop (not_lt.mp inside) allowed walk⟩
  | case3 cursor inside segment found refused =>
      have denied : layout.check cursor access = .error (.segmentation cursor) := by
        rw [check, found]
        exact if_neg refused
      rw [checkFrom_of_check_error inside denied]
      exact ⟨0, Nat.zero_le _, .refused (not_lt.mp inside) denied⟩
  | case4 cursor inside missing =>
      have denied : layout.check cursor access = .error (.segmentation cursor) := by
        rw [check, missing]
      rw [checkFrom_of_check_error inside denied]
      exact ⟨0, Nat.zero_le _, .refused (not_lt.mp inside) denied⟩

/-! ## The layouts of programs -/

/-- The segments stay in order wherever the program break stands between heap and stack. -/
theorem Ordered.withBreak (ordered : layout.Ordered) {programBreak : Nat}
    (low : layout.heapStart ≤ programBreak) (high : programBreak ≤ layout.stackLimit) :
    Ordered { layout with programBreak } :=
  { ordered with heapStart_le := low, programBreak_le := high }

/-- Every segment of a program starts at a multiple of the word size. -/
theorem start_mod_of_ofSizes {code data stackSize : Nat}
    (made : Layout.ofSizes code data stackSize = .ok layout) (segment : Segment) :
    layout.start segment % wordSize = 0 := by
  have planned := planned_of_ofSizes made
  -- A multiple of the page size is one of the word size.
  have pages (value : Nat) : alignUp value pageSize % wordSize = 0 := by
    simp only [alignUp, pageSize, wordSize]
    omega
  cases segment with
  | code => exact (by decide : codeStart % wordSize = 0)
  | data =>
      rw [start, planned.dataStart]
      exact pages _
  | heap =>
      rw [start, planned.heapStart]
      exact alignUp_mod _ _
  | stack =>
      have stack := pages (max stackSize pageSize)
      rw [start, planned.stackLimit]
      simp only [stackBytes, addressSpaceSize, wordSize] at stack ⊢
      omega

/-- **A word of segments that start at words lies in one of them, if all of it lies in any.** -/
theorem Ordered.segment_of_word (ordered : layout.Ordered)
    (starts : ∀ segment, layout.start segment % wordSize = 0) (aligned : address % wordSize = 0)
    (passed : ∀ place, address ≤ place → place < address + wordSize →
      layout.Permits access place) :
    ∃ segment, ∀ place, address ≤ place → place < address + wordSize →
      layout.segmentOf? place = some segment := by
  obtain ⟨segment, allowed⟩ := passed address le_rfl (by simp only [wordSize]; omega)
  have held := holds_of_segmentOf? (check_eq_ok_iff.mp allowed).1
  obtain ⟨start_le, lt_stop⟩ := holds_iff.mp held
  suffices whole : address + wordSize ≤ layout.stop segment by
    refine ⟨segment, fun place above below => ordered.segmentOf?_eq (holds_iff.mpr ⟨?_, ?_⟩)⟩
    · exact start_le.trans above
    · exact below.trans_le whole
  -- Otherwise another segment would start in the middle of the word.
  by_contra cut
  obtain ⟨next, allowed'⟩ := passed (layout.stop segment) lt_stop.le (not_le.mp cut)
  have held' := holds_of_segmentOf? (check_eq_ok_iff.mp allowed').1
  obtain ⟨start_le', lt_stop'⟩ := holds_iff.mp held'
  have apart : address < layout.start next := by
    by_contra before
    have both : layout.holds next address = true :=
      holds_iff.mpr ⟨not_lt.mp before, lt_stop.trans lt_stop'⟩
    obtain rfl := ordered.segment_unique held both
    exact lt_irrefl _ lt_stop'
  have start := starts next
  simp only [wordSize] at start aligned cut
  omega

/-! ## The check of a range -/

/-- Nothing that may be accessed lies past the top of the address space. -/
theorem Ordered.le_top_of_permits (ordered : layout.Ordered) (positive : size ≠ 0)
    (passed : ∀ place, address ≤ place → place < address + size → layout.Permits access place) :
    address + size ≤ addressSpaceSize := by
  have last := passed (address + (size - 1)) (by omega) (by omega)
  have below := ordered.lt_of_grants (ordered.grants_iff_permits.mpr last)
  omega

/-- **The check of a range decides what the checks of all its bytes decide.**  In every layout of a
program, wherever the program break stands between the heap and the stack: a range passes exactly if
it is empty or ends no later than the address space, and each of its bytes passes; from wherever and
up to wherever, the walk over the segments is over after four hops at most; and an aligned word that
passes lies in one segment. -/
theorem range_checked_exactly {code data stackSize : Nat} {fresh : Layout}
    (made : Layout.ofSizes code data stackSize = .ok fresh) (programBreak : Nat)
    (low : fresh.heapStart ≤ programBreak) (high : programBreak ≤ fresh.stackLimit)
    (access : Access) :
    let layout : Layout := { fresh with programBreak }
    (∀ address size, layout.checkRange address size access = .ok () ↔
      (size = 0 ∨ address + size ≤ addressSpaceSize) ∧
        ∀ place, address ≤ place → place < address + size →
          ∃ segment, layout.check place access = .ok segment) ∧
    (∀ cursor last, ∃ hops ≤ 4,
      layout.Walk access last cursor hops (layout.checkFrom cursor last access)) ∧
    (∀ address, address % wordSize = 0 → layout.checkRange address wordSize access = .ok () →
      ∃ segment, ∀ place, address ≤ place → place < address + wordSize →
        layout.segmentOf? place = some segment) := by
  intro layout
  have ordered : layout.Ordered := (ordered_of_ofSizes made).withBreak low high
  have starts : ∀ segment, layout.start segment % wordSize = 0 := fun segment => by
    have start := start_mod_of_ofSizes made segment
    cases segment <;> exact start
  refine ⟨fun address size => ?_, fun cursor last => ?_, fun address aligned passed => ?_⟩
  · rw [ordered.checkRange_eq_ok_iff]
    refine ⟨fun passed => ⟨?_, passed⟩, And.right⟩
    exact (eq_or_ne size 0).imp_right fun positive => ordered.le_top_of_permits positive passed
  · obtain ⟨hops, few, walk⟩ := layout.walk_checkFrom access cursor last
    exact ⟨hops, few.trans (layout.ahead_le cursor), walk⟩
  · exact ordered.segment_of_word starts aligned (ordered.checkRange_eq_ok_iff.mp passed)

/-- Sixteen bytes of data, and a heap of sixteen bytes right behind them: eight bytes across the
border may be written.  The code ends before its page does, so eight bytes across its end may not
even be read. -/
theorem range_checked_across_borders :
    let layout : Layout := ⟨0x10008, 0x11000, 0x11010, 0x11010, 0x11020, 0xFFFFF000⟩
    Layout.ofSizes 8 16 4096 = .ok { layout with programBreak := 0x11010 } ∧
      layout.checkRange 0x1100C 8 .write = .ok () ∧ layout.checkRange 0x10004 8 .read ≠ .ok () := by
  intro layout
  have made : Layout.ofSizes 8 16 4096 = .ok { layout with programBreak := 0x11010 } := rfl
  have decides (access : Access) :=
    (range_checked_exactly made 0x11020 (by decide) (by decide) access).1
  refine ⟨made, (decides .write 0x1100C 8).mpr ⟨.inr (by decide), fun place above below => ?_⟩, ?_⟩
  · have ordered : layout.Ordered := (ordered_of_ofSizes made).withBreak (by decide) (by decide)
    have data (inside : place < 0x11010) : layout.holds .data place = true :=
      holds_iff.mpr ⟨(by decide : 0x11000 ≤ 0x1100C).trans above, inside⟩
    have heap (inside : 0x11010 ≤ place) : layout.holds .heap place = true :=
      holds_iff.mpr ⟨inside, below.trans_le (by decide)⟩
    obtain before | behind := Nat.lt_or_ge place 0x11010
    · exact ⟨.data, check_eq_ok_iff.mpr ⟨ordered.segmentOf?_eq (data before), rfl⟩⟩
    · exact ⟨.heap, check_eq_ok_iff.mpr ⟨ordered.segmentOf?_eq (heap behind), rfl⟩⟩
  · intro passed
    obtain ⟨segment, allowed⟩ := ((decides .read 0x10004 8).mp passed).2 0x10008 (by decide)
      (by decide)
    cases segment <;> cases allowed

end Layout

end NestedMachine
