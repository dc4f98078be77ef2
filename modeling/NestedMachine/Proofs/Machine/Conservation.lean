import NestedMachine.Proofs.Machine.Operations
import NestedMachine.Proofs.Machine.Outcomes
import NestedMachine.Proofs.Memory.Break
import NestedMachine.Proofs.Memory.Copies

/-!
# No frame is lost or shared

The contexts of an interpreter share its frame pool.  An interpreter is sound if the pool has
handed out exactly the frames behind the pages of all contexts, each once (`Interpreter.Sound`).
Seen from one context, the rest of a sound interpreter is a surrounding in which the context's
memory is sound (`Sound.memory`); and if the memory of one context changes so that it stays sound
there, the interpreter stays sound (`Sound.insert`).  So every operation keeps an interpreter sound,
whether it succeeds or stops midway (`Operation.keeps_sound`).

From this follows what is promised of all sequences of operations (`frames_conserved`): the frames
behind pages are handed out, no frame is behind two pages, every frame that is handed out is behind
a page, and the frames in use are as many as the mapped pages, within the capacity.
-/

namespace NestedMachine

set_option autoImplicit false

open Std (TreeMap)
open Interpreter (spaceIn)

/-! ## Frames of all contexts -/

/-- What an address space owes to its layout. -/
structure AddressSpace.Proper (space : AddressSpace) : Prop where
  permission : ∀ (page : Nat) (entry : PageEntry), space.table[page]? = some entry →
    entry.permission = space.permissionOf page
  layout : space.layout.Ordered

theorem Memory.Sound.proper {around : Surroundings} {memory : Memory}
    (sound : memory.Sound around) : memory.space.Proper :=
  ⟨sound.permission, sound.layout⟩

/-- The address spaces of all contexts, with the numbers of the contexts. -/
def spacesIn (contexts : TreeMap ContextId Context) : Multiset (ContextId × AddressSpace) :=
  (Table.entries contexts).map fun entry => (entry.1, entry.2.space)

theorem mem_spacesIn {contexts : TreeMap ContextId Context} {id : ContextId}
    {space : AddressSpace} :
    (id, space) ∈ spacesIn contexts ↔ spaceIn contexts id = some space :=
  Table.mem_map_entries Context.space

/-- The frames behind the pages of all contexts. -/
def framesIn (contexts : TreeMap ContextId Context) : Multiset FrameId :=
  (spacesIn contexts).bind fun entry => PageTable.frames entry.2.table

theorem mem_framesIn {contexts : TreeMap ContextId Context} {frame : FrameId} :
    frame ∈ framesIn contexts ↔ ∃ (id : ContextId) (space : AddressSpace),
      spaceIn contexts id = some space ∧ frame ∈ space.table.frames := by
  rw [framesIn, Multiset.mem_bind]
  constructor
  · rintro ⟨⟨id, space⟩, member, behind⟩
    exact ⟨id, space, mem_spacesIn.mp member, behind⟩
  · rintro ⟨id, space, found, behind⟩
    exact ⟨(id, space), mem_spacesIn.mpr found, behind⟩

theorem framesIn_insert (contexts : TreeMap ContextId Context) (id : ContextId)
    (context : Context) :
    framesIn (contexts.insert id context) =
      context.space.table.frames + framesIn (contexts.erase id) := by
  rw [framesIn, spacesIn, Table.entries_insert, Multiset.map_cons, Multiset.cons_bind]
  rfl

theorem framesIn_eq_add {contexts : TreeMap ContextId Context} {id : ContextId}
    {context : Context} (found : contexts[id]? = some context) :
    framesIn contexts = context.space.table.frames + framesIn (contexts.erase id) := by
  rw [framesIn, spacesIn, Table.entries_eq_cons found, Multiset.map_cons, Multiset.cons_bind]
  rfl

theorem framesIn_erase_of_none {contexts : TreeMap ContextId Context} {id : ContextId}
    (missing : contexts[id]? = none) : framesIn (contexts.erase id) = framesIn contexts := by
  rw [framesIn, spacesIn, Table.entries_erase_of_none missing]
  rfl

/-- The frames of all contexts are those of their address spaces. -/
theorem framesIn_congr {first second : TreeMap ContextId Context}
    (same : ∀ id, spaceIn first id = spaceIn second id) : framesIn first = framesIn second :=
  congrArg (Multiset.bind · _) (Table.map_entries_congr same)

/-! ## Sound interpreters -/

/-- A pool that has handed out the given frames and no others, and has left what is in them. -/
structure FramePool.HeldBy (around : Surroundings) (pool : FramePool) : Prop where
  consistent : pool.Consistent
  taken : pool.taken = around.frames
  capacity : pool.capacity = around.capacity
  contents : ∀ frame ∈ around.frames, pool.contents frame = around.contents frame

theorem Memory.Sound.heldBy_freed {around : Surroundings} {memory : Memory}
    (sound : memory.Sound around) : memory.freed.2.pool.HeldBy around where
  consistent := sound.freed.consistent
  taken := sound.taken_freed
  capacity := sound.freed.capacity.trans sound.capacity
  contents frame member := (sound.freed.kept frame).trans (sound.contents frame member)

/-- An address space without pages is sound among the holders of all frames. -/
theorem FramePool.HeldBy.sound_empty {around : Surroundings} {pool : FramePool}
    (held : pool.HeldBy around) {layout : Layout} (ordered : layout.Ordered) (mode : MemoryMode)
    (journal : Journal) : Memory.Sound around ⟨.empty layout mode, pool, journal⟩ := by
  refine ⟨held.consistent, ?_, held.capacity, held.contents, fun page entry found => ?_, ordered⟩
  · rw [held.taken]
    exact (Multiset.zero_add _).symm
  · have missing : (AddressSpace.empty layout mode).table[page]? = none :=
      TreeMap.getElem?_emptyc
    rw [missing] at found
    cases found

namespace Interpreter

/-- The pool has handed out exactly the frames behind the pages of all contexts, and the next number
is above those of all contexts. -/
structure Sound (capacity : Nat) (machine : Interpreter) : Prop where
  consistent : machine.pool.Consistent
  taken : machine.pool.taken = framesIn machine.contexts
  capacity : machine.pool.capacity = capacity
  young : ∀ id space, spaceIn machine.contexts id = some space → id < machine.nextId
  proper : ∀ id space, spaceIn machine.contexts id = some space → space.Proper

/-- What lies around all contexts but one. -/
def around (capacity : Nat) (machine : Interpreter) (id : ContextId) : Surroundings :=
  ⟨framesIn (machine.contexts.erase id), machine.pool.contents, capacity⟩

/-- What all contexts hold. -/
def holdings (capacity : Nat) (machine : Interpreter) : Surroundings :=
  ⟨framesIn machine.contexts, machine.pool.contents, capacity⟩

variable {capacity : Nat} {machine : Interpreter} {id : ContextId}

theorem sound_empty (frames : Nat) (tracing : Bool) (journal : Journal) :
    (Interpreter.empty frames tracing journal).Sound frames := by
  have missing (id : ContextId) : spaceIn (∅ : TreeMap ContextId Context) id = none := by
    rw [spaceIn, TreeMap.getElem?_emptyc]
    rfl
  refine ⟨FramePool.consistent_empty frames, rfl, rfl, fun id space found => ?_,
    fun id space found => ?_⟩
  · rw [show spaceIn (Interpreter.empty frames tracing journal).contexts id = _ from missing id]
      at found
    cases found
  · rw [show spaceIn (Interpreter.empty frames tracing journal).contexts id = _ from missing id]
      at found
    cases found

namespace Sound

/-- Soundness is about the pool, the address spaces and the next number. -/
theorem congr {after : Interpreter} (sound : machine.Sound capacity)
    (pool : after.pool = machine.pool)
    (spaces : ∀ id, spaceIn after.contexts id = spaceIn machine.contexts id)
    (nextId : machine.nextId ≤ after.nextId) : after.Sound capacity where
  consistent := pool ▸ sound.consistent
  taken := by rw [pool, sound.taken, framesIn_congr spaces]
  capacity := pool ▸ sound.capacity
  young other space found := (sound.young other space (spaces other ▸ found)).trans_le nextId
  proper other space found := sound.proper other space (spaces other ▸ found)

/-- The memory of a context is sound among the other contexts. -/
theorem memory (sound : machine.Sound capacity) {context : Context}
    (found : machine.contexts[id]? = some context) (journal : Journal) :
    Memory.Sound (machine.around capacity id) ⟨context.space, machine.pool, journal⟩ := by
  have proper : context.space.Proper := sound.proper id _ (by rw [spaceIn, found]; rfl)
  exact ⟨sound.consistent, sound.taken.trans (framesIn_eq_add found), sound.capacity,
    fun _ _ => rfl, proper.permission, proper.layout⟩

/-- The pool holds exactly what the contexts have. -/
theorem heldBy (sound : machine.Sound capacity) :
    machine.pool.HeldBy (machine.holdings capacity) :=
  ⟨sound.consistent, sound.taken, sound.capacity, fun _ _ => rfl⟩

/-- **A context whose memory is sound among the others can be put in place.** -/
theorem insert {after : Interpreter} (sound : machine.Sound capacity) {context : Context}
    {around : Surroundings} {journal : Journal}
    (changed : Memory.Sound around ⟨context.space, after.pool, journal⟩)
    (frames : around.frames = framesIn (machine.contexts.erase id))
    (bound : around.capacity = capacity)
    (contexts : after.contexts = machine.contexts.insert id context)
    (nextId : machine.nextId ≤ after.nextId) (young : id < after.nextId) :
    after.Sound capacity := by
  have spaces (other : ContextId) : spaceIn after.contexts other =
      if id = other then some context.space else spaceIn machine.contexts other := by
    rw [spaceIn, contexts, Table.getElem?_insert]
    split
    · rfl
    · rfl
  refine ⟨changed.consistent, ?_, changed.capacity.trans bound, fun other space found => ?_,
    fun other space found => ?_⟩
  · rw [contexts, framesIn_insert, ← frames]
    exact changed.taken
  · rw [spaces] at found
    split at found
    · rename_i same
      exact same ▸ young
    · exact (sound.young other space found).trans_le nextId
  · rw [spaces] at found
    split at found
    · rw [← Option.some.inj found]
      exact changed.proper
    · exact sound.proper other space found

/-- A new number is not in use. -/
theorem unused (sound : machine.Sound capacity) : machine.contexts[machine.nextId]? = none := by
  cases found : machine.contexts[machine.nextId]? with
  | none => rfl
  | some context =>
      have young := sound.young machine.nextId context.space (by rw [spaceIn, found]; rfl)
      exact absurd young (Nat.lt_irrefl _)

/-- Everything that concerns no address space keeps an interpreter sound. -/
theorem modifyContext (sound : machine.Sound capacity) {change : Context → Context}
    (space : ∀ context, (change context).space = context.space) :
    (machine.modifyContext id change).Sound capacity :=
  sound.congr rfl (spaceIn_modify space) le_rfl

end Sound

end Interpreter

/-! ## Loading -/

/-- What a load leaves: a new address space that is sound among those that were there, or a pool in
which nothing is handed out but what was. -/
inductive Loading.Outcome (around : Surroundings) :
    Except HostError Context × FramePool × Journal → Prop where
  | loaded {context : Context} {pool : FramePool} {journal : Journal}
      (sound : Memory.Sound around ⟨context.space, pool, journal⟩) :
      Loading.Outcome around (.ok context, pool, journal)
  | failed {error : HostError} {pool : FramePool} {journal : Journal}
      (held : pool.HeldBy around) : Loading.Outcome around (.error error, pool, journal)

/-- A program gets a layout if its image is valid and its parts fit. -/
theorem Loading.of_layoutOf {image : Image} {options : LoadOptions} {layout : Layout}
    (made : layoutOf image options = .ok layout) : image.validate = .ok () ∧
      Layout.ofSizes image.code.length image.data.length options.stackSize = .ok layout := by
  unfold layoutOf at made
  split at made
  · cases made
  · rename_i valid
    split at made
    · cases made
    · rename_i sizes
      obtain rfl := Except.ok.inj made
      exact ⟨valid, sizes⟩

theorem Loading.ordered_of_layoutOf {image : Image} {options : LoadOptions} {layout : Layout}
    (made : layoutOf image options = .ok layout) : layout.Ordered :=
  Layout.ordered_of_ofSizes (of_layoutOf made).2

/-- **A load that fails gives back every frame that it took.** -/
theorem Loading.outcome_load {around : Surroundings} {pool : FramePool}
    (held : pool.HeldBy around) (id : ContextId) (image : Image) (options : LoadOptions)
    (journal : Journal) : Outcome around (load id image options pool journal) := by
  unfold load
  split
  · exact .failed held
  · rename_i layout made
    have start := held.sound_empty (ordered_of_layoutOf made) options.mode journal
    have respected := Memory.respected_sound around
    have mapped := Memory.agrees_mapEagerly respected fun states =>
      congrArg (fun memory : Memory => memory.space.mode) states.1
    have filled := (agrees_populate respected mapped image options.arguments).keeps start
    split
    · rename_i stackPointer memory result
      rw [result] at filled
      exact .loaded ⟨filled.consistent, filled.taken, filled.capacity, filled.contents,
        filled.permission, filled.layout⟩
    · rename_i fault memory result
      rw [result] at filled
      exact .failed filled.heldBy_freed

/-! ## Every operation -/

namespace Interpreter

variable {capacity : Nat} {machine : Interpreter}

theorem Sound.create (sound : machine.Sound capacity) (image : Image) (options : LoadOptions) :
    (finalState (create image options machine)).Sound capacity := by
  have outcome := Loading.outcome_load sound.heldBy machine.nextId image options machine.journal
  cases result : Loading.load machine.nextId image options machine.pool machine.journal with
  | mk answer left =>
      obtain ⟨pool, journal⟩ := left
      rw [result] at outcome
      cases outcome with
      | loaded loaded =>
          rw [create_of_ok result]
          exact sound.insert loaded (framesIn_erase_of_none sound.unused).symm rfl rfl
            (Nat.le_succ _) (Nat.lt_succ_self _)
      | failed held =>
          rw [create_of_error result]
          exact ⟨held.consistent, held.taken, held.capacity,
            fun other space found => (sound.young other space found).trans (Nat.lt_succ_self _),
            sound.proper⟩

/-- A link from a parent to a child concerns no address space. -/
theorem Sound.addChild (sound : machine.Sound capacity) (parent child : ContextId) :
    (machine.addChild parent child).Sound capacity :=
  sound.modifyContext fun _ => rfl

/-- Copying a context starts in a sound memory and ends in one. -/
theorem Sound.copying (sound : machine.Sound capacity) {id : ContextId} {context : Context}
    (found : machine.contexts[id]? = some context) :
    Memory.Copying (machine.holdings capacity) context.space (machine.blankCopy context)
      (Memory.copyFrom context.space (machine.blankCopy context)) := by
  have inside : spaceIn machine.contexts id = some context.space := by rw [spaceIn, found]; rfl
  have proper := sound.proper id _ inside
  refine (sound.heldBy.sound_empty proper.layout context.space.mode machine.journal).copyFrom
    (fun frame behind => ?_) proper.permission
  exact mem_framesIn.mpr ⟨id, context.space, inside, behind⟩

/-- Memory that is copied has been copied faithfully. -/
theorem Sound.copied (sound : machine.Sound capacity) {id : ContextId} {context : Context}
    {memory : Memory} (found : machine.contexts[id]? = some context)
    (copied : Memory.copyFrom context.space (machine.blankCopy context) = .ok () memory) :
    Memory.Copied (machine.holdings capacity) context.space memory := by
  have copying := sound.copying found
  rw [copied] at copying
  cases copying with
  | copied _ finish _ => exact finish

/-- A copy that is refused has not been begun. -/
theorem Sound.not_begun (sound : machine.Sound capacity) {id : ContextId} {context : Context}
    {memory : Memory} {fault : Fault} (found : machine.contexts[id]? = some context)
    (refused : Memory.copyFrom context.space (machine.blankCopy context) = .error fault memory) :
    memory = machine.blankCopy context := by
  have copying := sound.copying found
  rw [refused] at copying
  cases copying with
  | refused _ => rfl

/-- A fork that is refused leaves the machine as it is. -/
theorem Sound.fork_refused (sound : machine.Sound capacity) {parent : ContextId}
    {after : Interpreter} (refused : fork parent machine = .ok none after) : after = machine := by
  have ends := forkEnds parent machine
  rw [refused] at ends
  cases ends with
  | refused found failed =>
      rw [sound.not_begun found failed]
      rfl

/-- A copy gets the next number. -/
theorem number_of_fork {parent child : ContextId} {after : Interpreter}
    (copied : fork parent machine = .ok (some child) after) : child = machine.nextId := by
  have ends := forkEnds parent machine
  rw [copied] at ends
  cases ends
  rfl

theorem Sound.fork (sound : machine.Sound capacity) (parent : ContextId) :
    (finalState (fork parent machine)).Sound capacity := by
  have ends := forkEnds parent machine
  generalize Interpreter.fork parent machine = result at ends ⊢
  cases ends with
  | missing => exact sound
  | refused found failed =>
      rw [sound.not_begun found failed]
      exact sound.congr rfl (fun _ => rfl) le_rfl
  | @copied source memory found copied =>
      have adopted : Sound capacity
          (adopt { machine with pool := memory.pool, journal := memory.journal }
            (forkOf parent source memory.space)) :=
        sound.insert (sound.copied found copied).sound (framesIn_erase_of_none sound.unused).symm
          rfl rfl (Nat.le_succ _) (Nat.lt_succ_self _)
      exact adopted.addChild parent machine.nextId

/-- **Whatever keeps the memory of a context sound keeps the interpreter sound.** -/
theorem Sound.keepMemory (sound : machine.Sound capacity) {id : ContextId} {context : Context}
    (found : machine.contexts[id]? = some context) {memory : Memory}
    (kept : Memory.Sound (machine.around capacity id) memory) :
    (machine.keepMemory id context memory).Sound capacity := by
  have young := sound.young id context.space (by rw [spaceIn, found]; rfl)
  exact sound.insert kept rfl rfl rfl le_rfl young

theorem Sound.release (sound : machine.Sound capacity) (id : ContextId) :
    (finalState (release id machine)).Sound capacity := by
  cases found : machine.contexts[id]? with
  | none =>
      rw [release_of_none found]
      exact sound
  | some context =>
      have memory := sound.memory found machine.journal
      have emptied := memory.heldBy_freed.sound_empty memory.layout context.space.mode
        machine.journal
      rw [release_of_some found]
      exact sound.keepMemory found ⟨emptied.consistent, emptied.taken, emptied.capacity,
        emptied.contents, fun page entry mapped => emptied.permission page entry mapped,
        memory.layout⟩

theorem Sound.destroy (sound : machine.Sound capacity) (id : ContextId) :
    (finalState (destroy id machine)).Sound capacity := by
  cases found : machine.contexts[id]? with
  | none =>
      rw [destroy_of_none found]
      exact sound
  | some context =>
      have held := (sound.memory found machine.journal).heldBy_freed
      have inside (other : ContextId) (space : AddressSpace)
          (left : spaceIn (unlink (machine.contexts.erase id) id context) other = some space) :
          spaceIn machine.contexts other = some space := by
        rw [spaceIn_unlink, spaceIn, Table.getElem?_erase] at left
        split at left
        · cases left
        · exact left
      rw [destroy_of_some found]
      refine ⟨held.consistent, ?_, held.capacity,
        fun other space left => sound.young other space (inside other space left),
        fun other space left => sound.proper other space (inside other space left)⟩
      exact held.taken.trans (framesIn_congr fun other => (spaceIn_unlink _ _ _ other).symm)

/-- A run keeps the memory of its context sound. -/
theorem Sound.switch (sound : machine.Sound capacity) (id : ContextId) (quantum : Nat) :
    (finalState (switch id quantum machine)).Sound capacity := by
  have kept {context : Context} (found : machine.contexts[id]? = some context) :
      (machine.keepRun id context (machine.runOf context quantum)).Sound capacity := by
    have young := sound.young id context.space (by rw [spaceIn, found]; rfl)
    have memory := context.hart.run_keeps (Memory.respected_sound _) machine.tracing quantum 0
      (sound.memory found machine.journal)
    exact sound.insert memory rfl rfl rfl le_rfl young
  have ends := switchEnds id quantum machine
  generalize Interpreter.switch id quantum machine = result at ends ⊢
  cases ends with
  | missing => exact sound
  | exited => exact sound
  | trapped found _ _ => exact (kept found).congr rfl (fun _ => rfl) le_rfl
  | ranDry found _ _ => exact kept found

theorem Sound.withMemory {α : Type} {action : MemoryAction α}
    (sound : machine.Sound capacity) (congruent : Memory.Congruent action) (id : ContextId) :
    (machine.withMemory id action).2.Sound capacity := by
  cases found : machine.contexts[id]? with
  | none =>
      rw [withMemory_of_none found]
      exact sound
  | some context =>
      rw [withMemory_of_some found]
      exact sound.keepMemory found (congruent.keeps_sound (sound.memory found machine.journal))

/-- **Every operation keeps an interpreter sound, whether it succeeds or not.** -/
theorem Operation.keeps_sound (operation : Operation) (sound : machine.Sound capacity) :
    (finalState (operation.perform machine)).Sound capacity := by
  cases operation with
  | create image options =>
      rw [Operation.perform, finalState_map]
      exact sound.create image options
  | fork parent =>
      rw [Operation.perform, finalState_map]
      exact sound.fork parent
  | destroy id =>
      rw [Operation.perform, finalState_map]
      exact sound.destroy id
  | release id =>
      rw [Operation.perform, finalState_map]
      exact sound.release id
  | switch id quantum =>
      rw [Operation.perform, finalState_map]
      exact sound.switch id quantum
  | access id request => exact sound.withMemory request.congruent_perform id
  | alter id bookkeeping => exact sound.modifyContext bookkeeping.space
  | note happening => exact sound.congr rfl (fun _ => rfl) le_rfl

/-! ## What is promised -/

/-- A page of a context is mapped to a frame. -/
def Maps (machine : Interpreter) (id : ContextId) (page : Nat) (frame : FrameId) : Prop :=
  ∃ (context : Context) (entry : PageEntry), machine.contexts[id]? = some context ∧
    context.space.table[page]? = some entry ∧ entry.frame = frame

/-- How many pages are mapped over all contexts. -/
def mappedPages (machine : Interpreter) : Nat :=
  (machine.contexts.toList.map fun entry => entry.2.space.mappedPages).sum

/-- No frame is lost, and none is shared. -/
structure Conserved (capacity : Nat) (machine : Interpreter) : Prop where
  checkedOut : ∀ id page frame, machine.Maps id page frame → machine.pool.isTaken frame = true
  exclusive : ∀ id page id' page' frame, machine.Maps id page frame →
    machine.Maps id' page' frame → id = id' ∧ page = page'
  backing : ∀ frame, machine.pool.isTaken frame = true → ∃ id page, machine.Maps id page frame
  inUse : machine.pool.inUse = machine.mappedPages
  bounded : machine.pool.inUse ≤ capacity

theorem maps_iff {id : ContextId} {frame : FrameId} :
    (∃ page, machine.Maps id page frame) ↔ ∃ space, spaceIn machine.contexts id = some space ∧
      frame ∈ space.table.frames := by
  simp only [Maps, spaceIn, PageTable.mem_frames, Option.map_eq_some_iff]
  constructor
  · rintro ⟨page, context, entry, found, mapped, same⟩
    exact ⟨context.space, ⟨context, found, rfl⟩, page, entry, mapped, same⟩
  · rintro ⟨_, ⟨context, found, rfl⟩, page, entry, mapped, same⟩
    exact ⟨page, context, entry, found, mapped, same⟩

theorem card_framesIn (contexts : TreeMap ContextId Context) :
    (framesIn contexts).card =
      (contexts.toList.map fun entry => entry.2.space.mappedPages).sum := by
  rw [framesIn, Multiset.card_bind, spacesIn, Multiset.map_map, Table.entries, Multiset.map_coe,
    Multiset.sum_coe]
  refine congrArg List.sum (List.map_congr_left fun entry _ => ?_)
  exact PageTable.card_frames entry.2.space.table

theorem Sound.conserved (sound : machine.Sound capacity) : machine.Conserved capacity := by
  have nodup := FramePool.nodup_taken machine.pool
  refine ⟨fun id page frame maps => ?_, fun id page id' page' frame maps maps' => ?_,
    fun frame taken => ?_, ?_, ?_⟩
  · rw [← FramePool.mem_taken, sound.taken]
    obtain ⟨space, found, behind⟩ := maps_iff.mp ⟨page, maps⟩
    exact mem_framesIn.mpr ⟨id, space, found, behind⟩
  · obtain ⟨context, entry, found, mapped, same⟩ := maps
    obtain ⟨context', entry', found', mapped', same'⟩ := maps'
    have exclusive := (sound.memory found machine.journal).exclusive
    by_cases equal : id = id'
    · subst equal
      obtain rfl := Option.some.inj (found.symm.trans found')
      exact ⟨rfl, PageTable.page_eq_of_frame_eq exclusive.1 mapped mapped' (same.trans same'.symm)⟩
    · -- The frame would belong to the context and to the others.
      have mine : frame ∈ context.space.table.frames :=
        PageTable.mem_frames.mpr ⟨page, entry, mapped, same⟩
      have theirs : frame ∈ framesIn (machine.contexts.erase id) := by
        refine mem_framesIn.mpr ⟨id', context'.space, ?_,
          PageTable.mem_frames.mpr ⟨page', entry', mapped', same'⟩⟩
        rw [spaceIn, Table.getElem?_erase, if_neg equal, found']
        rfl
      exact absurd theirs (Multiset.disjoint_left.mp exclusive.2.2 mine)
  · rw [← FramePool.mem_taken, sound.taken] at taken
    obtain ⟨id, space, found, behind⟩ := mem_framesIn.mp taken
    exact ⟨id, maps_iff.mpr ⟨space, found, behind⟩⟩
  · rw [sound.consistent.inUse, sound.taken, card_framesIn]
    rfl
  · exact sound.capacity ▸ sound.consistent.inUse_le

end Interpreter

end NestedMachine
