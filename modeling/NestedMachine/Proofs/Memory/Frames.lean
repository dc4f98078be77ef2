import Mathlib.Data.Multiset.AddSub
import Mathlib.Data.Multiset.Filter
import NestedMachine.Memory.FramePool

/-!
# What a frame pool hands out

The frames that are handed out form a multiset without repetitions (`FramePool.taken`).  A pool
is consistent if its free list holds exactly the other frames that were made, once each, and if
its counters are right.  Then handing out adds one frame that was not handed out before and that
reads zero (`Granted`), taking back removes frames, and nothing else changes the multiset.  The
pool refuses only when its capacity is used up.
-/

namespace NestedMachine.FramePool

set_option autoImplicit false

/-! ## Frames handed out -/

/-- The frames that are handed out. -/
def taken (pool : FramePool) : Multiset FrameId := (List.range pool.slots.size).filter pool.isTaken

theorem lt_size_of_isTaken {pool : FramePool} {frame : FrameId} (out : pool.isTaken frame = true) :
    frame < pool.slots.size := by
  by_contra outside
  rw [isTaken, Array.getElem?_eq_none (not_lt.mp outside)] at out
  cases out

theorem mem_taken {pool : FramePool} {frame : FrameId} :
    frame ∈ pool.taken ↔ pool.isTaken frame = true := by
  rw [taken, Multiset.mem_coe, List.mem_filter, List.mem_range]
  exact ⟨And.right, fun out => ⟨lt_size_of_isTaken out, out⟩⟩

theorem notMem_taken {pool : FramePool} {frame : FrameId} (free : pool.isTaken frame = false) :
    frame ∉ pool.taken := fun out => by
  cases free.symm.trans (mem_taken.mp out)

theorem nodup_taken (pool : FramePool) : pool.taken.Nodup :=
  Multiset.coe_nodup.mpr (List.nodup_range.filter _)

/-- Pools that hand out the same frames have the same multiset of them. -/
theorem taken_congr {first second : FramePool}
    (same : ∀ frame, first.isTaken frame = second.isTaken frame) : first.taken = second.taken := by
  refine (Multiset.Nodup.ext (nodup_taken _) (nodup_taken _)).mpr ?_
  intro frame
  rw [mem_taken, mem_taken, same]

/-- A pool that hands out one frame more. -/
theorem taken_eq_cons {pool after : FramePool} {frame : FrameId}
    (fresh : pool.isTaken frame = false) (out : after.isTaken frame = true)
    (same : ∀ other, other ≠ frame → after.isTaken other = pool.isTaken other) :
    after.taken = frame ::ₘ pool.taken := by
  refine (Multiset.Nodup.ext (nodup_taken _) ?_).mpr fun other => ?_
  · exact Multiset.nodup_cons.mpr ⟨notMem_taken fresh, nodup_taken _⟩
  · rw [Multiset.mem_cons, mem_taken, mem_taken]
    by_cases equal : other = frame
    · rw [equal, out]
      simp
    · rw [same other equal]
      simp [equal]

/-! ## Consistent pools -/

/-- The free list and the counters of a pool are right. -/
structure Consistent (pool : FramePool) : Prop where
  free_nodup : pool.free.Nodup
  mem_free : ∀ frame, frame ∈ pool.free ↔ frame < pool.slots.size ∧ pool.isTaken frame = false
  inUse : pool.inUse = pool.taken.card
  made : pool.slots.size ≤ pool.capacity

theorem consistent_empty (capacity : Nat) : (empty capacity).Consistent where
  free_nodup := .nil
  mem_free frame := by simp [empty]
  inUse := rfl
  made := Nat.zero_le _

/-- No more frames are handed out than were made. -/
theorem card_taken_le (pool : FramePool) : pool.taken.card ≤ pool.slots.size := by
  rw [taken, Multiset.coe_card]
  exact (List.length_filter_le ..).trans_eq List.length_range

theorem Consistent.inUse_le {pool : FramePool} (consistent : pool.Consistent) :
    pool.inUse ≤ pool.capacity := by
  rw [consistent.inUse]
  exact (card_taken_le pool).trans consistent.made

/-! ## Handing out -/

/-- A pool after it has handed out a frame. -/
structure Granted (pool : FramePool) (frame : FrameId) (after : FramePool) : Prop where
  consistent : after.Consistent
  fresh : pool.isTaken frame = false
  taken : after.taken = frame ::ₘ pool.taken
  capacity : after.capacity = pool.capacity
  zero : after.contents frame = Frame.zero
  kept : ∀ other, other ≠ frame → after.contents other = pool.contents other

/-- One slot of a pool has changed, and nothing else in the array of slots. -/
structure SlotChanged (pool : FramePool) (frame : FrameId) (change : Slot → Slot)
    (after : FramePool) : Prop where
  slots : after.slots = pool.slots.modify frame change

namespace SlotChanged

variable {pool after : FramePool} {frame : FrameId} {change : Slot → Slot}

theorem size (changed : SlotChanged pool frame change after) :
    after.slots.size = pool.slots.size := by
  rw [changed.slots, Array.size_modify]

theorem isTaken_of_ne (changed : SlotChanged pool frame change after) {other : FrameId}
    (different : other ≠ frame) : after.isTaken other = pool.isTaken other := by
  unfold isTaken
  rw [changed.slots, Array.getElem?_modify, if_neg (Ne.symm different)]

theorem contents_of_ne (changed : SlotChanged pool frame change after) {other : FrameId}
    (different : other ≠ frame) : after.contents other = pool.contents other := by
  unfold contents
  rw [changed.slots, Array.getElem?_modify, if_neg (Ne.symm different)]

theorem slot (changed : SlotChanged pool frame change after) (made : frame < pool.slots.size) :
    after.slots[frame]? = some (change pool.slots[frame]) := by
  rw [changed.slots, Array.getElem?_modify, if_pos rfl, Array.getElem?_eq_getElem made]
  rfl

theorem isTaken_self (changed : SlotChanged pool frame change after)
    (made : frame < pool.slots.size) :
    after.isTaken frame = (change pool.slots[frame]).taken := by
  unfold isTaken
  rw [changed.slot made]

theorem contents_self (changed : SlotChanged pool frame change after)
    (made : frame < pool.slots.size) :
    after.contents frame = (change pool.slots[frame]).contents := by
  unfold contents
  rw [changed.slot made]

/-- A change that leaves the mark of a slot leaves the frames handed out. -/
theorem isTaken_of_mark (changed : SlotChanged pool frame change after)
    (mark : ∀ slot, (change slot).taken = slot.taken) (other : FrameId) :
    after.isTaken other = pool.isTaken other := by
  by_cases same : other = frame
  · rw [same]
    by_cases made : frame < pool.slots.size
    · rw [changed.isTaken_self made, mark]
      unfold isTaken
      rw [Array.getElem?_eq_getElem made]
    · unfold isTaken
      rw [Array.getElem?_eq_none (changed.size ▸ not_lt.mp made),
        Array.getElem?_eq_none (not_lt.mp made)]
  · exact changed.isTaken_of_ne same

end SlotChanged

/-- A free frame is handed out again. -/
theorem Consistent.granted_again {pool : FramePool} (consistent : pool.Consistent)
    {frame : FrameId} {rest : List FrameId} (free : pool.free = frame :: rest) :
    Granted pool frame
      (countTaken { pool with
        slots := pool.slots.modify frame fun _ => ⟨Frame.zero, true⟩
        free := rest }) := by
  have isFree : frame < pool.slots.size ∧ pool.isTaken frame = false :=
    (consistent.mem_free frame).mp (free ▸ List.mem_cons_self)
  obtain ⟨made, fresh⟩ := isFree
  have nodup : frame ∉ rest ∧ rest.Nodup := List.nodup_cons.mp (free ▸ consistent.free_nodup)
  generalize result : countTaken { pool with
    slots := pool.slots.modify frame fun _ => ⟨Frame.zero, true⟩
    free := rest } = after
  have changed : SlotChanged pool frame (fun _ => ⟨Frame.zero, true⟩) after := ⟨result ▸ rfl⟩
  have taken : after.taken = frame ::ₘ pool.taken :=
    taken_eq_cons fresh (changed.isTaken_self made) fun other => changed.isTaken_of_ne
  refine ⟨⟨?_, fun other => ?_, ?_, ?_⟩, fresh, taken, result ▸ rfl, changed.contents_self made,
    fun other => changed.contents_of_ne⟩
  · rw [← result]
    exact nodup.2
  · have waiting : other ∈ after.free ↔ other ∈ rest := by rw [← result]; rfl
    rw [waiting, changed.size]
    by_cases same : other = frame
    · rw [same, changed.isTaken_self made]
      simp [nodup.1]
    · rw [changed.isTaken_of_ne same, ← consistent.mem_free, free]
      simp [same]
  · rw [taken, Multiset.card_cons, ← consistent.inUse, ← result]
    rfl
  · rw [changed.size, ← result]
    exact consistent.made

/-- A new frame is made and handed out. -/
theorem Consistent.granted_new {pool : FramePool} (consistent : pool.Consistent)
    (free : pool.free = []) (room : pool.slots.size < pool.capacity) :
    Granted pool pool.slots.size
      (countTaken { pool with slots := pool.slots.push ⟨Frame.zero, true⟩, free := [] }) := by
  have fresh : pool.isTaken pool.slots.size = false := by
    by_contra out
    exact absurd (lt_size_of_isTaken (Bool.not_eq_false _ ▸ out)) (lt_irrefl _)
  generalize result :
    countTaken { pool with slots := pool.slots.push ⟨Frame.zero, true⟩, free := [] } = after
  have slots : after.slots = pool.slots.push ⟨Frame.zero, true⟩ := result ▸ rfl
  have new : after.slots[pool.slots.size]? = some ⟨Frame.zero, true⟩ := by
    rw [slots, Array.getElem?_push, if_pos rfl]
  have old (other : FrameId) (different : other ≠ pool.slots.size) :
      after.slots[other]? = pool.slots[other]? := by
    rw [slots, Array.getElem?_push, if_neg different]
  have same (other : FrameId) (different : other ≠ pool.slots.size) :
      after.isTaken other = pool.isTaken other := by
    unfold isTaken
    rw [old other different]
  have out : after.isTaken pool.slots.size = true := by
    unfold isTaken
    rw [new]
  have taken : after.taken = pool.slots.size ::ₘ pool.taken := taken_eq_cons fresh out same
  refine ⟨⟨?_, fun other => ?_, ?_, ?_⟩, fresh, taken, result ▸ rfl, ?_, fun other different => ?_⟩
  · rw [← result]
    exact .nil
  · have waiting : other ∈ after.free ↔ other ∈ pool.free := by rw [← result, free]; rfl
    rw [waiting, consistent.mem_free, slots, Array.size_push]
    by_cases equal : other = pool.slots.size
    · rw [equal, out]
      simp
    · rw [same other equal]
      constructor
      · exact fun ⟨made, unused⟩ => ⟨Nat.lt_succ_of_lt made, unused⟩
      · exact fun ⟨made, unused⟩ => ⟨Nat.lt_of_le_of_ne (Nat.lt_succ_iff.mp made) equal, unused⟩
  · rw [taken, Multiset.card_cons, ← consistent.inUse, ← result]
    rfl
  · rw [slots, Array.size_push, ← result]
    exact room
  · unfold contents
    rw [new]
  · unfold contents
    rw [old other different]

/-- What a pool does when it is asked for a frame: it grants one, or it stays as it is, because
its capacity is used up. -/
inductive Allocation (pool : FramePool) : Option FrameId × FramePool → Prop where
  | granted {frame : FrameId} {after : FramePool} (grant : Granted pool frame after) :
      Allocation pool (some frame, after)
  | refused (exhausted : pool.available = 0) : Allocation pool (none, pool)

/-- **Asking a consistent pool for a frame.** -/
theorem Consistent.alloc {pool : FramePool} (consistent : pool.Consistent) :
    Allocation pool pool.alloc := by
  obtain ⟨slots, free, capacity, inUse, peak⟩ := pool
  cases free with
  | cons frame rest => exact .granted (consistent.granted_again rfl)
  | nil =>
      rw [FramePool.alloc]
      split
      · rename_i room
        exact .granted (consistent.granted_new rfl room)
      · rename_i full
        refine .refused ?_
        -- A pool without free frames hands out all that it has made.
        have all (frame : FrameId) (made : frame < slots.size) :
            isTaken ⟨slots, [], capacity, inUse, peak⟩ frame = true := by
          by_contra unused
          have free := (consistent.mem_free frame).mpr ⟨made, Bool.not_eq_true _ ▸ unused⟩
          exact List.not_mem_nil free
        have count : inUse = slots.size := by
          rw [show inUse = _ from consistent.inUse, taken, Multiset.coe_card,
            List.filter_eq_self.mpr fun frame member => all frame (List.mem_range.mp member),
            List.length_range]
        rw [available, count]
        exact Nat.sub_eq_zero_of_le (not_lt.mp full)

/-! ## Taking back -/

/-- A pool after it has taken frames back. -/
structure Returned (pool : FramePool) (frames : Multiset FrameId) (after : FramePool) : Prop where
  consistent : after.Consistent
  taken : pool.taken = frames + after.taken
  capacity : after.capacity = pool.capacity
  kept : ∀ frame, after.contents frame = pool.contents frame

/-- **A frame that is handed out can come back.** -/
theorem Consistent.release {pool : FramePool} (consistent : pool.Consistent) {frame : FrameId}
    (out : pool.isTaken frame = true) : Returned pool {frame} (pool.release frame) := by
  have made : frame < pool.slots.size := lt_size_of_isTaken out
  generalize result : pool.release frame = after
  rw [FramePool.release, if_pos out] at result
  have changed : SlotChanged pool frame (fun slot => { slot with taken := false }) after :=
    ⟨result ▸ rfl⟩
  have free : after.free = frame :: pool.free := result ▸ rfl
  have taken : pool.taken = frame ::ₘ after.taken :=
    taken_eq_cons (changed.isTaken_self made) out fun other different =>
      (changed.isTaken_of_ne different).symm
  refine ⟨⟨?_, fun other => ?_, ?_, ?_⟩, taken, result ▸ rfl, fun other => ?_⟩
  · refine free ▸ List.nodup_cons.mpr ⟨fun member => ?_, consistent.free_nodup⟩
    have unused := ((consistent.mem_free frame).mp member).2
    rw [out] at unused
    cases unused
  · rw [free, List.mem_cons, changed.size]
    by_cases same : other = frame
    · rw [same, changed.isTaken_self made]
      simp [made]
    · rw [changed.isTaken_of_ne same, ← consistent.mem_free]
      simp [same]
  · have count : pool.inUse = after.taken.card + 1 := by
      rw [consistent.inUse, taken, Multiset.card_cons]
    have less : after.inUse = pool.inUse - 1 := result ▸ rfl
    omega
  · rw [changed.size, ← result]
    exact consistent.made
  · by_cases same : other = frame
    · rw [same, changed.contents_self made]
      unfold contents
      rw [Array.getElem?_eq_getElem made]
    · exact changed.contents_of_ne same

/-- **Frames that are handed out can all come back.** -/
theorem Consistent.releaseAll {pool : FramePool} (consistent : pool.Consistent)
    {frames : List FrameId} {rest : Multiset FrameId}
    (out : pool.taken = (frames : Multiset _) + rest) :
    Returned pool frames (pool.releaseAll frames) := by
  induction frames generalizing pool rest with
  | nil => exact ⟨consistent, (Multiset.zero_add _).symm, rfl, fun _ => rfl⟩
  | cons frame frames ih =>
      have first : pool.isTaken frame = true := by
        rw [← mem_taken, out]
        simp
      have returned := consistent.release first
      have left : (pool.release frame).taken = (frames : Multiset _) + rest := by
        have split := returned.taken.symm.trans out
        rwa [← Multiset.cons_coe, Multiset.cons_add, Multiset.singleton_add,
          Multiset.cons_inj_right] at split
      have later := ih returned.consistent left
      refine ⟨later.consistent, ?_, later.capacity.trans returned.capacity, fun other => ?_⟩
      · rw [returned.taken, later.taken, ← Multiset.cons_coe, Multiset.cons_add,
          Multiset.singleton_add]
        rfl
      · exact (later.kept other).trans (returned.kept other)

/-! ## Changing contents -/

/-- A pool after the contents of one frame have changed. -/
structure Rewritten (pool : FramePool) (frame : FrameId) (after : FramePool) : Prop where
  consistent : after.Consistent
  taken : after.taken = pool.taken
  capacity : after.capacity = pool.capacity
  kept : ∀ other, other ≠ frame → after.contents other = pool.contents other

/-- A change of contents leaves the bookkeeping of a pool. -/
theorem Consistent.rewritten {pool after : FramePool} (consistent : pool.Consistent)
    {frame : FrameId} {change : Slot → Slot} (changed : SlotChanged pool frame change after)
    (mark : ∀ slot, (change slot).taken = slot.taken)
    (rest : after.free = pool.free ∧ after.inUse = pool.inUse ∧ after.capacity = pool.capacity) :
    Rewritten pool frame after := by
  have taken : after.taken = pool.taken := taken_congr (changed.isTaken_of_mark mark)
  refine ⟨⟨?_, fun other => ?_, ?_, ?_⟩, taken, rest.2.2, fun other => changed.contents_of_ne⟩
  · rw [rest.1]
    exact consistent.free_nodup
  · rw [rest.1, changed.size, changed.isTaken_of_mark mark]
    exact consistent.mem_free other
  · rw [rest.2.1, taken]
    exact consistent.inUse
  · rw [changed.size, rest.2.2]
    exact consistent.made

theorem slotChanged_write (pool : FramePool) (frame : FrameId) (offset : Nat)
    (bytes : List UInt8) :
    SlotChanged pool frame
      (fun slot => { slot with contents := Frame.overwrite slot.contents offset bytes })
      (pool.write frame offset bytes) := ⟨rfl⟩

theorem slotChanged_copyFrame (pool : FramePool) (source target : FrameId) :
    SlotChanged pool target (fun slot => { slot with contents := pool.contents source })
      (pool.copyFrame source target) := ⟨rfl⟩

theorem Consistent.write {pool : FramePool} (consistent : pool.Consistent) (frame : FrameId)
    (offset : Nat) (bytes : List UInt8) : Rewritten pool frame (pool.write frame offset bytes) :=
  consistent.rewritten (slotChanged_write ..) (fun _ => rfl) ⟨rfl, rfl, rfl⟩

theorem Consistent.copyFrame {pool : FramePool} (consistent : pool.Consistent)
    (source target : FrameId) : Rewritten pool target (pool.copyFrame source target) :=
  consistent.rewritten (slotChanged_copyFrame ..) (fun _ => rfl) ⟨rfl, rfl, rfl⟩

theorem contents_write {pool : FramePool} {frame : FrameId} (out : pool.isTaken frame = true)
    (offset : Nat) (bytes : List UInt8) :
    (pool.write frame offset bytes).contents frame =
      Frame.overwrite (pool.contents frame) offset bytes := by
  have made : frame < pool.slots.size := lt_size_of_isTaken out
  rw [(slotChanged_write pool frame offset bytes).contents_self made]
  simp only [contents, Array.getElem?_eq_getElem made]

theorem contents_copyFrame {pool : FramePool} {source target : FrameId}
    (out : pool.isTaken target = true) :
    (pool.copyFrame source target).contents target = pool.contents source :=
  (slotChanged_copyFrame pool source target).contents_self (lt_size_of_isTaken out)

end NestedMachine.FramePool
