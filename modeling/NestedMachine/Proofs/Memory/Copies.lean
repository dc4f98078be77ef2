import NestedMachine.Proofs.Memory.Sound

/-!
# Freeing and copying address spaces

Freeing an address space gives back exactly the frames behind its pages (`Sound.freed`).  Copying
one takes a frame for every page, fills it with what the page shows, and leaves everybody else
alone (`Sound.copyFrom`).  Whether there are enough frames is settled before the first page is
copied, so a copy that is refused has changed nothing, and one that has begun cannot run dry.
-/

namespace NestedMachine.Memory

set_option autoImplicit false

variable {around : Surroundings} {memory : Memory}

/-! ## Freeing -/

/-- **All frames of an address space can go back.** -/
theorem Sound.freed (sound : memory.Sound around) :
    FramePool.Returned memory.pool memory.space.table.frames memory.freed.2.pool :=
  sound.consistent.releaseAll sound.taken

/-- Only the frames of the others are left. -/
theorem Sound.taken_freed (sound : memory.Sound around) :
    memory.freed.2.pool.taken = around.frames :=
  add_left_cancel (sound.freed.taken.symm.trans sound.taken)

/-! ## Copying pages -/

/-- A memory after pages were copied into it. -/
structure PagesCopied (around : Surroundings) (pages : List (Nat × PageEntry))
    (before after : Memory) : Prop where
  sound : after.Sound around
  layout : after.space.layout = before.space.layout
  mode : after.space.mode = before.space.mode
  journal : after.journal = before.journal
  copies : ∀ page entry, (page, entry) ∈ pages → ∃ frame,
    after.space.table[page]? = some ⟨frame, entry.permission⟩ ∧
      after.pool.contents frame = around.contents entry.frame
  others : ∀ page, page ∉ pages.map Prod.fst →
    after.space.table[page]? = before.space.table[page]?
  kept : ∀ frame, before.pool.isTaken frame = true →
    after.pool.contents frame = before.pool.contents frame

/-- Pages that can be copied into a memory: they are not mapped there, what is behind them belongs
to others, and their permissions are those that they would get. -/
structure Copyable (around : Surroundings) (memory : Memory) (pages : List (Nat × PageEntry)) :
    Prop where
  distinct : (pages.map Prod.fst).Nodup
  unmapped : ∀ page ∈ pages.map Prod.fst, memory.space.table[page]? = none
  foreign : ∀ page entry, (page, entry) ∈ pages → entry.frame ∈ around.frames
  permission : ∀ page entry, (page, entry) ∈ pages →
    entry.permission = memory.space.permissionOf page

/-- **Copying one page that there is a frame for.** -/
theorem Sound.copyPage {page : Nat} {entry : PageEntry} (sound : memory.Sound around)
    (missing : memory.space.table[page]? = none) (foreign : entry.frame ∈ around.frames)
    (permission : entry.permission = memory.space.permissionOf page)
    (enough : 0 < memory.pool.available) :
    ∃ after, copyPage page entry memory = .ok () after ∧
      PagesCopied around [(page, entry)] memory after := by
  obtain ⟨space, pool, journal⟩ := memory
  have allocation := FramePool.Consistent.alloc sound.consistent
  rw [Memory.copyPage]
  generalize pool.alloc = result at allocation
  cases allocation with
  | refused exhausted => exact absurd exhausted (Nat.ne_of_gt enough)
  | @granted frame middle grant =>
      refine ⟨_, rfl, ?_⟩
      have fresh : frame ∉ pool.taken := FramePool.notMem_taken grant.fresh
      have rewritten := grant.consistent.copyFrame entry.frame frame
      have out : middle.isTaken frame = true := by
        rw [← FramePool.mem_taken, grant.taken]
        exact Multiset.mem_cons_self ..
      have different (other : FrameId) (member : other ∈ pool.taken) : other ≠ frame :=
        fun same => fresh (same ▸ member)
      have kept (other : FrameId) (member : other ∈ pool.taken) :
          (middle.copyFrame entry.frame frame).contents other = pool.contents other :=
        (rewritten.kept other (different other member)).trans
          (grant.kept other (different other member))
      have held (other : FrameId) (member : other ∈ around.frames) : other ∈ pool.taken :=
        sound.taken ▸ Multiset.mem_add.mpr (.inr member)
      have entryOf (other : Nat) :
          (space.mapCopied page ⟨frame, entry.permission⟩).table[other]? =
            if page = other then some ⟨frame, entry.permission⟩ else space.table[other]? :=
        Table.getElem?_insert ..
      refine ⟨⟨rewritten.consistent, ?_, ?_, fun other member => ?_, fun other mapped found => ?_,
        sound.layout⟩, rfl, rfl, rfl, fun other copied member => ?_, fun other absent => ?_,
        fun other taken => kept other (FramePool.mem_taken.mpr taken)⟩
      · show (middle.copyFrame entry.frame frame).taken =
          PageTable.frames (space.table.insert page _) + around.frames
        rw [rewritten.taken, grant.taken, PageTable.frames_insert missing, Multiset.cons_add]
        exact congrArg _ sound.taken
      · exact (rewritten.capacity.trans grant.capacity).trans sound.capacity
      · exact (kept other (held other member)).trans (sound.contents other member)
      · rw [entryOf] at found
        split at found
        · rename_i same
          rw [← Option.some.inj found, ← same]
          exact permission
        · exact sound.permission other mapped found
      · obtain ⟨rfl, rfl⟩ := Prod.mk.inj (List.mem_singleton.mp member)
        refine ⟨frame, (entryOf other).trans (if_pos rfl), ?_⟩
        show (middle.copyFrame copied.frame frame).contents frame = _
        rw [FramePool.contents_copyFrame out,
          grant.kept _ (different _ (held _ foreign)), sound.contents _ foreign]
      · refine (entryOf other).trans (if_neg fun same => absent ?_)
        exact List.mem_singleton.mpr same.symm

section First

variable {page : Nat} {entry : PageEntry} {rest : List (Nat × PageEntry)} {middle after : Memory}

/-- The first page is there when it has been copied, and no other page besides. -/
theorem PagesCopied.domain_single (one : PagesCopied around [(page, entry)] memory middle) :
    middle.space.table.domain = insert page memory.space.table.domain := by
  ext other
  rw [Finset.mem_insert, PageTable.mem_domain, PageTable.mem_domain]
  by_cases same : other = page
  · obtain ⟨frame, found, -⟩ := one.copies page entry List.mem_cons_self
    simp only [same, true_or, iff_true]
    exact ⟨_, found⟩
  · rw [one.others other fun member => same (List.mem_singleton.mp member)]
    simp [same]

/-- The rest can be copied when the first page has been. -/
theorem Copyable.tail (copyable : Copyable around memory ((page, entry) :: rest))
    (one : PagesCopied around [(page, entry)] memory middle) : Copyable around middle rest := by
  have absent : page ∉ rest.map Prod.fst := (List.nodup_cons.mp copyable.distinct).1
  refine ⟨(List.nodup_cons.mp copyable.distinct).2, fun other member => ?_,
    fun other found member => copyable.foreign other found (List.mem_cons_of_mem _ member),
    fun other found member => ?_⟩
  · refine (one.others other fun member' => ?_).trans
      (copyable.unmapped other (List.mem_cons_of_mem page member))
    have same : other = page := List.mem_singleton.mp member'
    exact absent (same ▸ member)
  · rw [copyable.permission other found (List.mem_cons_of_mem _ member)]
    unfold AddressSpace.permissionOf
    rw [one.layout]

/-- One frame fewer is available for the rest. -/
theorem PagesCopied.available (sound : memory.Sound around)
    (one : PagesCopied around [(page, entry)] memory middle)
    (unmapped : memory.space.table[page]? = none) {wanted : Nat}
    (enough : wanted + 1 ≤ memory.pool.available) : wanted ≤ middle.pool.available := by
  have here : page ∉ memory.space.table.domain := PageTable.notMem_domain.mpr unmapped
  rw [sound.available_eq] at enough
  rw [one.sound.available_eq, one.domain_single, Finset.card_insert_of_notMem here]
  omega

/-- A frame that was taken before the first page was copied is taken after it. -/
theorem PagesCopied.isTaken (sound : memory.Sound around)
    (one : PagesCopied around [(page, entry)] memory middle)
    (unmapped : memory.space.table[page]? = none) {frame : FrameId}
    (taken : memory.pool.isTaken frame = true) : middle.pool.isTaken frame = true := by
  rw [← FramePool.mem_taken, one.sound.taken]
  rw [← FramePool.mem_taken, sound.taken] at taken
  refine (Multiset.mem_add.mp taken).elim (fun mine => ?_) fun others =>
    Multiset.mem_add.mpr (.inr others)
  obtain ⟨mapped, found, behind, same⟩ := PageTable.mem_frames.mp mine
  refine Multiset.mem_add.mpr (.inl (PageTable.mem_frames.mpr ⟨mapped, found, ?_, same⟩))
  refine (one.others mapped fun member => ?_).trans behind
  rw [List.mem_singleton.mp member, unmapped] at behind
  cases behind

/-- **The rest follow the first page**, which stays as it was copied meanwhile. -/
theorem PagesCopied.cons (sound : memory.Sound around)
    (copyable : Copyable around memory ((page, entry) :: rest))
    (one : PagesCopied around [(page, entry)] memory middle)
    (copied : PagesCopied around rest middle after) :
    PagesCopied around ((page, entry) :: rest) memory after := by
  have absent : page ∉ rest.map Prod.fst := (List.nodup_cons.mp copyable.distinct).1
  have unmapped := copyable.unmapped page List.mem_cons_self
  refine ⟨copied.sound, copied.layout.trans one.layout, copied.mode.trans one.mode,
    copied.journal.trans one.journal, fun other found member => ?_, fun other foreign => ?_,
    fun frame taken => (copied.kept frame (one.isTaken sound unmapped taken)).trans
      (one.kept frame taken)⟩
  · rcases List.mem_cons.mp member with same | later
    · obtain ⟨rfl, rfl⟩ := Prod.mk.inj same
      obtain ⟨frame, mapped, contents⟩ := one.copies other found List.mem_cons_self
      refine ⟨frame, (copied.others other absent).trans mapped, ?_⟩
      exact (copied.kept frame (one.sound.isTaken mapped)).trans contents
    · exact copied.copies other found later
  · have apart : other ∉ rest.map Prod.fst := fun member =>
      foreign (List.mem_cons_of_mem _ member)
    refine (copied.others other apart).trans (one.others other fun member => ?_)
    exact foreign (List.mem_singleton.mp member ▸ List.mem_cons_self)

end First

/-- **Copying pages that there are frames for.** -/
theorem Sound.copyPages {pages : List (Nat × PageEntry)} (sound : memory.Sound around)
    (copyable : Copyable around memory pages)
    (enough : pages.length ≤ memory.pool.available) :
    ∃ after, copyPages pages memory = .ok () after ∧ PagesCopied around pages memory after := by
  induction pages generalizing memory with
  | nil =>
      refine ⟨memory, rfl, sound, rfl, rfl, rfl, fun _ _ member => ?_, fun _ _ => rfl,
        fun _ _ => rfl⟩
      cases member
  | cons first rest ih =>
      obtain ⟨page, entry⟩ := first
      rw [List.length_cons] at enough
      have unmapped := copyable.unmapped page List.mem_cons_self
      obtain ⟨middle, start, one⟩ := sound.copyPage unmapped
        (copyable.foreign page entry List.mem_cons_self)
        (copyable.permission page entry List.mem_cons_self) (by omega)
      obtain ⟨after, finish, copied⟩ :=
        ih one.sound (copyable.tail one) (one.available sound unmapped enough)
      refine ⟨after, ?_, one.cons sound copyable copied⟩
      show EStateM.bind (Memory.copyPage page entry) _ memory = _
      rw [EStateM.bind, start]
      exact finish

/-- A copy of an address space: the same pages, each with a frame of its own that shows the same. -/
structure Copied (around : Surroundings) (source : AddressSpace) (after : Memory) : Prop where
  sound : after.Sound around
  layout : after.space.layout = source.layout
  mode : after.space.mode = source.mode
  copies : ∀ (page : Nat) (entry : PageEntry), source.table[page]? = some entry → ∃ frame,
    after.space.table[page]? = some ⟨frame, entry.permission⟩ ∧
      after.pool.contents frame = around.contents entry.frame
  unmapped : ∀ page : Nat, source.table[page]? = none → after.space.table[page]? = none

theorem Copied.domain {source : AddressSpace} {after : Memory}
    (copied : Copied around source after) : after.space.table.domain = source.table.domain := by
  ext page
  cases found : source.table[page]? with
  | none =>
      have absent := PageTable.notMem_domain.mpr (copied.unmapped page found)
      simp only [absent, PageTable.notMem_domain.mpr found]
  | some entry =>
      obtain ⟨frame, mapped, -⟩ := copied.copies page entry found
      simp only [PageTable.mem_domain.mpr ⟨_, mapped⟩, PageTable.mem_domain.mpr ⟨_, found⟩]

/-- A copy shows what its source shows. -/
theorem Copied.bytes {source : AddressSpace} {pool : FramePool} {journal : Journal}
    {after : Memory} (copied : Copied around source after)
    (contents : ∀ frame ∈ source.table.frames, around.contents frame = pool.contents frame)
    (address : Nat) : after.byteAt address = byteAt ⟨source, pool, journal⟩ address := by
  unfold byteAt
  cases found : source.table[pageOf address]? with
  | none => rw [copied.unmapped _ found]
  | some entry =>
      obtain ⟨frame, mapped, same⟩ := copied.copies _ entry found
      rw [mapped]
      simp only [FramePool.byte]
      rw [same, contents _ (PageTable.mem_frames.mpr ⟨_, entry, found, rfl⟩)]

/-- What copying an address space does: it is refused at once, or there is a copy. -/
inductive Copying (around : Surroundings) (source : AddressSpace) (memory : Memory) :
    EStateM.Result Fault Memory Unit → Prop where
  | refused (short : around.capacity < source.table.domain.card + around.frames.card) :
      Copying around source memory (.error .outOfFrames memory)
  | copied {after : Memory}
      (enough : source.table.domain.card + around.frames.card ≤ around.capacity)
      (finish : Copied around source after) (journal : after.journal = memory.journal) :
      Copying around source memory (.ok () after)

/-- **Copying an address space whose frames are among those of the others.** -/
theorem Sound.copyFrom {source : AddressSpace} {pool : FramePool} {journal : Journal}
    (sound : Memory.Sound around ⟨source.emptyCopy, pool, journal⟩)
    (foreign : ∀ frame ∈ source.table.frames, frame ∈ around.frames)
    (permission : ∀ (page : Nat) (entry : PageEntry), source.table[page]? = some entry →
      entry.permission = source.permissionOf page) :
    Copying around source ⟨source.emptyCopy, pool, journal⟩
      (copyFrom source ⟨source.emptyCopy, pool, journal⟩) := by
  have available : pool.available = around.capacity - around.frames.card := by
    rw [show pool.available = _ from sound.available_eq]
    show around.capacity - ((PageTable.domain ∅).card + _) = _
    rw [show PageTable.domain ∅ = ∅ from rfl, Finset.card_empty, Nat.zero_add]
  have bound := sound.card_le
  have pages := PageTable.card_domain source.table
  by_cases short : pool.available < source.table.size
  · have result : Memory.copyFrom source ⟨source.emptyCopy, pool, journal⟩ =
        .error .outOfFrames ⟨source.emptyCopy, pool, journal⟩ := by
      show ((if pool.available < source.table.size then _ else _ : MemoryAction Unit) _) = _
      rw [if_pos short]
      rfl
    rw [result]
    exact .refused (by omega)
  · have room : source.table.toList.length ≤ pool.available := by
      rw [Std.TreeMap.length_toList]
      exact not_lt.mp short
    have listed (page : Nat) (entry : PageEntry) :
        (page, entry) ∈ source.table.toList ↔ source.table[page]? = some entry :=
      Std.TreeMap.mem_toList_iff_getElem?_eq_some
    have copyable : Copyable around ⟨source.emptyCopy, pool, journal⟩ source.table.toList := by
      refine ⟨?_, fun page _ => rfl, fun page entry member => ?_, fun page entry member => ?_⟩
      · apply List.pairwise_map.mpr
        refine source.table.distinct_keys_toList.imp fun different same => ?_
        exact different (by rw [same, compare_eq_iff_eq])
      · exact foreign _ (PageTable.mem_frames.mpr ⟨page, entry, (listed page entry).mp member, rfl⟩)
      · exact permission page entry ((listed page entry).mp member)
    obtain ⟨after, finish, copied⟩ := sound.copyPages copyable room
    have result : Memory.copyFrom source ⟨source.emptyCopy, pool, journal⟩ = .ok ()
        { after with
          space := { after.space with layout := source.layout, mode := source.mode } } := by
      show ((if pool.available < source.table.size then _ else _ : MemoryAction Unit) _) = _
      rw [if_neg short]
      show EStateM.bind (EStateM.tryCatch (Memory.copyPages _) _) _ _ = _
      rw [EStateM.bind, EStateM.tryCatch, finish]
      rfl
    rw [result]
    have same : { after with
        space := { after.space with layout := source.layout, mode := source.mode } } = after := by
      rw [← show after.space.layout = source.layout from copied.layout,
        ← show after.space.mode = source.mode from copied.mode]
    rw [same]
    refine .copied (by omega) ⟨copied.sound, copied.layout, copied.mode,
      fun page entry found => copied.copies page entry ((listed page entry).mpr found),
      fun page missing => copied.others page fun member => ?_⟩ copied.journal
    obtain ⟨⟨_, entry⟩, present, rfl⟩ := List.mem_map.mp member
    rw [(listed _ entry).mp present] at missing
    cases missing

end NestedMachine.Memory
