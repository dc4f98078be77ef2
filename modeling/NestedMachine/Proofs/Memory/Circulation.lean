import Mathlib.Data.List.Induction
import Mathlib.Data.Multiset.Range
import Mathlib.Order.Bounds.Defs
import NestedMachine.Fault
import NestedMachine.Proofs.Action
import NestedMachine.Proofs.Memory.Frames

/-!
# How frames circulate

Frames go out of the pool and come back, any number of times.  Which of them are out can be told
without looking into the pool, from the requests and their answers: a frame is held from when it is
handed out until it is given back (`heldAfter`).  The pool keeps records of its own: a mark on every
frame, the list of the free ones, how many are out, and how many were ever out at once.

What one request does is told once (`Effect`).  It follows that the records agree with what is held
after every sequence of requests, sensible or not (`frames_circulate`): frames may be given back
twice or without ever having been handed out, and may be written while they are free.
-/

namespace NestedMachine.FramePool

set_option autoImplicit false

/-! ## Requests -/

/-- What can be asked of a frame pool. -/
inductive Request where
  | alloc
  | release (frame : FrameId)
  | write (frame : FrameId) (offset : Nat) (bytes : List UInt8)
  | copyFrame (source target : FrameId)

namespace Request

/-- Make a request.  The answer is the frame that was handed out, if one was asked for. -/
def perform : Request → EStateM Fault FramePool (Option FrameId)
  | .alloc => fun pool =>
      match pool.alloc with
      | (some frame, after) => .ok (some frame) after
      | (none, after) => .error .outOfFrames after
  | .release frame => do
      modify (FramePool.release · frame)
      return none
  | .write frame offset bytes => do
      modify (FramePool.write · frame offset bytes)
      return none
  | .copyFrame source target => do
      modify (FramePool.copyFrame · source target)
      return none

/-- The pool that is left is the same whether a frame was left to hand out or not. -/
theorem finalState_alloc (pool : FramePool) :
    finalState (Request.alloc.perform pool) = pool.alloc.2 := by
  unfold perform
  dsimp only
  rcases pool.alloc with ⟨answer, after⟩
  cases answer <;> rfl

/-- The frame that a request changes the contents of. -/
def target : Request → Option FrameId
  | .write frame _ _ => some frame
  | .copyFrame _ target => some target
  | _ => none

/-- What is held after a request that was answered: a frame is held from when it is handed out until
it is given back. -/
def settle (held : Multiset FrameId) : Request → Except Fault (Option FrameId) → Multiset FrameId
  | .alloc, .ok (some frame) => frame ::ₘ held
  | .release frame, _ => held.erase frame
  | _, _ => held

end Request

/-- The frames that are held after requests of a pool, if some were held before. -/
def heldAfter : List Request → FramePool → Multiset FrameId → Multiset FrameId
  | [], _, held => held
  | request :: rest, pool, held =>
      let outcome := request.perform pool
      heldAfter rest (finalState outcome) (request.settle held (answerOf outcome))

variable {pool : FramePool} {request : Request}

/-! ## What one request does -/

/-- What a request does to a pool, and what is answered. -/
inductive Effect (pool : FramePool) :
    Request → EStateM.Result Fault FramePool (Option FrameId) → Prop where
  | granted {frame : FrameId} {after : FramePool} (grant : Granted pool frame after) :
      Effect pool .alloc (.ok (some frame) after)
  | refused (exhausted : pool.available = 0) : Effect pool .alloc (.error .outOfFrames pool)
  | returned {frame : FrameId} {after : FramePool} (back : Returned pool {frame} after) :
      Effect pool (.release frame) (.ok none after)
  /-- Nothing happens to a frame that is not out. -/
  | ignored {frame : FrameId} (free : pool.isTaken frame = false) :
      Effect pool (.release frame) (.ok none pool)
  | rewritten {request : Request} {frame : FrameId} {after : FramePool}
      (target : request.target = some frame) (change : Rewritten pool frame after) :
      Effect pool request (.ok none after)

/-- **The effect of a request.** -/
theorem Consistent.effect (consistent : pool.Consistent) (request : Request) :
    Effect pool request (request.perform pool) := by
  cases request with
  | alloc =>
      have allocation := consistent.alloc
      unfold Request.perform
      dsimp only
      generalize pool.alloc = outcome at allocation
      cases allocation with
      | granted grant => exact .granted grant
      | refused exhausted => exact .refused exhausted
  | release frame =>
      by_cases out : pool.isTaken frame = true
      · exact .returned (consistent.release out)
      · have free : pool.release frame = pool := if_neg out
        show Effect pool (.release frame) (.ok none (pool.release frame))
        rw [free]
        exact .ignored (Bool.not_eq_true _ ▸ out)
  | write frame offset bytes => exact .rewritten rfl (consistent.write frame offset bytes)
  | copyFrame source target => exact .rewritten rfl (consistent.copyFrame source target)

/-- Nothing is held or given back by a request that changes contents. -/
theorem Request.settle_of_target {frame : FrameId} (target : request.target = some frame)
    (held : Multiset FrameId) (answer : Except Fault (Option FrameId)) :
    request.settle held answer = held := by
  cases request with
  | alloc | release => cases target
  | write | copyFrame => rfl

namespace Effect

variable {outcome : EStateM.Result Fault FramePool (Option FrameId)}

theorem consistent (effect : Effect pool request outcome) (consistent : pool.Consistent) :
    (finalState outcome).Consistent := by
  cases effect with
  | granted grant => exact grant.consistent
  | refused | ignored => exact consistent
  | returned back => exact back.consistent
  | rewritten target change => exact change.consistent

theorem capacity (effect : Effect pool request outcome) :
    (finalState outcome).capacity = pool.capacity := by
  cases effect with
  | granted grant => exact grant.capacity
  | refused | ignored => rfl
  | returned back => exact back.capacity
  | rewritten target change => exact change.capacity

/-- **The frames that are marked as handed out are those that are held.** -/
theorem taken (effect : Effect pool request outcome) :
    (finalState outcome).taken = request.settle pool.taken (answerOf outcome) := by
  cases effect with
  | granted grant => exact grant.taken
  | refused => rfl
  | @returned frame after back =>
      show after.taken = pool.taken.erase frame
      rw [back.taken, Multiset.singleton_add, Multiset.erase_cons_head]
  | ignored free => exact (Multiset.erase_of_notMem (notMem_taken free)).symm
  | rewritten target change =>
      rw [Request.settle_of_target target]
      exact change.taken

/-- **A frame that is out keeps its contents**, unless they are what the request is to change. -/
theorem contents (effect : Effect pool request outcome) {frame : FrameId}
    (out : frame ∈ pool.taken) (other : request.target ≠ some frame) :
    (finalState outcome).contents frame = pool.contents frame := by
  cases effect with
  | granted grant =>
      refine grant.kept frame ?_
      rintro rfl
      exact notMem_taken grant.fresh out
  | refused | ignored => rfl
  | returned back => exact back.kept frame
  | rewritten target change =>
      refine change.kept frame ?_
      rintro rfl
      exact other target

end Effect

/-! ## The counters -/

theorem peak_alloc (bounded : pool.inUse ≤ pool.peak) :
    pool.alloc.2.peak = max pool.peak pool.alloc.2.inUse := by
  obtain ⟨slots, free, capacity, inUse, peak⟩ := pool
  cases free with
  | cons frame rest => rfl
  | nil =>
      unfold alloc
      dsimp only
      split
      · rfl
      · exact (Nat.max_eq_left bounded).symm

theorem peak_release (frame : FrameId) (bounded : pool.inUse ≤ pool.peak) :
    (pool.release frame).peak = max pool.peak (pool.release frame).inUse := by
  unfold release
  split
  · exact (Nat.max_eq_left ((Nat.sub_le ..).trans bounded)).symm
  · exact (Nat.max_eq_left bounded).symm

/-- **The peak is raised when more frames are out than ever**, and never lowered. -/
theorem peak_perform (request : Request) (bounded : pool.inUse ≤ pool.peak) :
    (finalState (request.perform pool)).peak =
      max pool.peak (finalState (request.perform pool)).inUse := by
  cases request with
  | alloc =>
      rw [Request.finalState_alloc]
      exact peak_alloc bounded
  | release frame => exact peak_release frame bounded
  | write | copyFrame => exact (Nat.max_eq_left bounded).symm

/-! ## Free frames and frames that are out -/

/-- **Every frame that was made is free or out**, and is so once. -/
theorem Consistent.partition (consistent : pool.Consistent) :
    (pool.free : Multiset FrameId) + pool.taken = Multiset.range pool.slots.size := by
  have apart : Disjoint (pool.free : Multiset FrameId) pool.taken := by
    refine Multiset.disjoint_left.mpr ?_
    intro frame free
    exact notMem_taken ((consistent.mem_free frame).mp (Multiset.mem_coe.mp free)).2
  refine (Multiset.Nodup.ext ?_ (Multiset.nodup_range _)).mpr fun frame => ?_
  · exact Multiset.nodup_add.mpr
      ⟨Multiset.coe_nodup.mpr consistent.free_nodup, nodup_taken pool, apart⟩
  · rw [Multiset.mem_add, Multiset.mem_coe, mem_taken, Multiset.mem_range, consistent.mem_free]
    constructor
    · rintro (free | out)
      · exact free.1
      · exact lt_size_of_isTaken out
    · intro made
      cases out : pool.isTaken frame with
      | true => exact .inr rfl
      | false => exact .inl ⟨made, rfl⟩

/-- **A pool refuses a frame exactly if all are out.** -/
theorem Consistent.alloc_eq_none_iff (consistent : pool.Consistent) :
    pool.alloc.1 = none ↔ pool.inUse = pool.capacity := by
  have enough := consistent.inUse_le
  have allocation := consistent.alloc
  generalize pool.alloc = outcome at allocation
  cases allocation with
  | @granted frame after grant =>
      -- With one more frame out there are still no more than the capacity.
      have more := grant.consistent.inUse_le
      rw [grant.consistent.inUse, grant.taken, Multiset.card_cons, ← consistent.inUse,
        grant.capacity] at more
      constructor
      · intro refused
        cases refused
      · omega
  | refused exhausted =>
      rw [available] at exhausted
      constructor
      · omega
      · exact fun _ => rfl

/-- **A frame that is handed out was not out, and reads zero.** -/
theorem Consistent.granted_of_alloc (consistent : pool.Consistent) {frame : FrameId}
    (answer : pool.alloc.1 = some frame) : Granted pool frame pool.alloc.2 := by
  have allocation := consistent.alloc
  generalize pool.alloc = outcome at allocation answer
  cases allocation with
  | granted grant =>
      cases answer
      exact grant
  | refused => cases answer

/-! ## Sequences of requests -/

/-- What holds of a pool of a given capacity of which some frames are held. -/
structure InOrder (capacity : Nat) (pool : FramePool) (held : Multiset FrameId) : Prop where
  /-- The frames made so far are those on the free list and those that are held, each of them
  once. -/
  partition : (pool.free : Multiset FrameId) + held = Multiset.range pool.slots.size
  marked : ∀ frame, pool.isTaken frame = true ↔ frame ∈ held
  inUse : pool.inUse = held.card
  available : pool.available + pool.inUse = capacity
  refused : pool.alloc.1 = none ↔ pool.inUse = capacity
  /-- A frame that is handed out was not held and reads zero. -/
  granted : ∀ frame, pool.alloc.1 = some frame →
    frame ∉ held ∧ pool.alloc.2.contents frame = Frame.zero
  /-- Held frames keep their contents, but for the one that a request is to change. -/
  kept : ∀ request : Request, ∀ frame ∈ held, request.target ≠ some frame →
    (finalState (request.perform pool)).contents frame = pool.contents frame

theorem Consistent.inOrder (consistent : pool.Consistent) :
    InOrder pool.capacity pool pool.taken where
  partition := consistent.partition
  marked _ := mem_taken.symm
  inUse := consistent.inUse
  available := Nat.sub_add_cancel consistent.inUse_le
  refused := consistent.alloc_eq_none_iff
  granted _ answer :=
    have grant := consistent.granted_of_alloc answer
    ⟨notMem_taken grant.fresh, grant.zero⟩
  kept request _ out other := (consistent.effect request).contents out other

/-- Requests leave a pool consistent and its capacity as it was. -/
theorem consistent_stateAfter (consistent : pool.Consistent) (requests : List Request) :
    (stateAfter Request.perform requests pool).Consistent ∧
      (stateAfter Request.perform requests pool).capacity = pool.capacity := by
  have keeps (request : Request) (before : FramePool)
      (holds : before.Consistent ∧ before.capacity = pool.capacity) :
      (finalState (request.perform before)).Consistent ∧
        (finalState (request.perform before)).capacity = pool.capacity := by
    have effect := holds.1.effect request
    exact ⟨effect.consistent holds.1, effect.capacity.trans holds.2⟩
  exact stateAfter_keeps keeps requests ⟨consistent, rfl⟩

/-- **What is marked as handed out is what is held.** -/
theorem taken_stateAfter (consistent : pool.Consistent) (requests : List Request) :
    (stateAfter Request.perform requests pool).taken = heldAfter requests pool pool.taken := by
  induction requests generalizing pool with
  | nil => rfl
  | cons request rest ih =>
      have effect := consistent.effect request
      rw [heldAfter, ← effect.taken]
      exact ih (effect.consistent consistent)

/-- The numbers of frames that were out at some time in a sequence of requests. -/
def InUseDuring (requests : List Request) (pool : FramePool) : Set Nat :=
  { count | ∃ earlier, earlier <+: requests ∧
    count = (stateAfter Request.perform earlier pool).inUse }

/-- **The peak is the most that were ever out at once.** -/
theorem peak_stateAfter (requests : List Request) (start : pool.peak = pool.inUse) :
    IsGreatest (InUseDuring requests pool) (stateAfter Request.perform requests pool).peak := by
  -- By induction on the last request: what came earlier than a longer sequence is either all of it
  -- or came earlier than the shorter one.
  induction requests using List.reverseRecOn with
  | nil =>
      refine ⟨⟨[], List.prefix_rfl, start⟩, ?_⟩
      rintro _ ⟨earlier, prior, rfl⟩
      rw [List.prefix_nil.mp prior]
      exact start.ge
  | append_singleton requests request ih =>
      have now : (stateAfter Request.perform requests pool).inUse ∈ InUseDuring requests pool :=
        ⟨requests, List.prefix_rfl, rfl⟩
      have raised := peak_perform request (ih.2 now)
      have last : stateAfter Request.perform (requests ++ [request]) pool =
          finalState (request.perform (stateAfter Request.perform requests pool)) :=
        stateAfter_append ..
      rw [← last] at raised
      constructor
      · rcases max_choice (stateAfter Request.perform requests pool).peak
          (stateAfter Request.perform (requests ++ [request]) pool).inUse with old | new
        · obtain ⟨earlier, prior, reached⟩ := ih.1
          exact ⟨earlier, prior.trans (List.prefix_append ..), (raised.trans old).trans reached⟩
        · exact ⟨requests ++ [request], List.prefix_rfl, raised.trans new⟩
      · rintro _ ⟨earlier, prior, rfl⟩
        rw [raised]
        rcases List.prefix_concat_iff.mp prior with rfl | before
        · exact le_max_right ..
        · exact (ih.2 ⟨earlier, before, rfl⟩).trans (le_max_left ..)

/-- **Frames circulate in order**, whatever is asked of a pool. -/
theorem frames_circulate (capacity : Nat) (requests : List Request) :
    let pool := stateAfter Request.perform requests (empty capacity)
    InOrder capacity pool (heldAfter requests (empty capacity) 0) ∧
      IsGreatest (InUseDuring requests (empty capacity)) pool.peak := by
  intro pool
  obtain ⟨consistent, unchanged⟩ := consistent_stateAfter (consistent_empty capacity) requests
  have held : pool.taken = heldAfter requests (empty capacity) 0 :=
    taken_stateAfter (consistent_empty capacity) requests
  have order := consistent.inOrder
  rw [unchanged] at order
  rw [← held]
  exact ⟨order, peak_stateAfter requests rfl⟩

/-- A frame is given back twice, and written afterwards; it waits on the free list, and when it is
handed out again it reads zero. -/
theorem frame_comes_back_clean :
    let requests : List Request := [.alloc, .alloc, .alloc, .write 0 0 [170], .release 0,
      .release 0, .release 7, .copyFrame 0 1, .write 0 3 [1]]
    let pool := stateAfter Request.perform requests (empty 2)
    let held := heldAfter requests (empty 2) 0
    (InOrder 2 pool held ∧ IsGreatest (InUseDuring requests (empty 2)) pool.peak) ∧
      held = {1} ∧ pool.free = [0] ∧ pool.peak = 2 ∧ pool.read 0 0 4 = [170, 0, 0, 1] ∧
      pool.alloc.1 = some 0 ∧ pool.alloc.2.read 0 0 4 = [0, 0, 0, 0] ∧
      pool.alloc.2.read 1 0 4 = [170, 0, 0, 0] := by
  intro requests pool held
  refine ⟨frames_circulate 2 requests, ?_⟩
  decide +kernel

end NestedMachine.FramePool
