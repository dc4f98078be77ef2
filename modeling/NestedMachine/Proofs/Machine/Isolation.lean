import NestedMachine.Instruction.Encoding
import NestedMachine.Proofs.Machine.Conservation

/-!
# Contexts leave each other alone

All contexts draw on one pool, and a frame that one of them gives back is soon behind a page of
another.  What keeps them apart is soundness: the frames behind the pages of a context are handed
out to nobody else, so whatever an operation does to the memory of one context, it leaves the
contents of the frames of the others (`Sound.spares`).  Of the other contexts themselves an
operation changes at most the links to their family, when it removes a parent or a child.

Hence a context to which no operation of a sequence is addressed comes out of it as it went in, in
its registers, its state, its pages, and every byte that it sees (`contexts_isolated`).
-/

namespace NestedMachine

set_option autoImplicit false

open Std (TreeMap)

/-- Two states of a context between which at most its family has changed. -/
structure Context.SameGuest (before after : Context) : Prop where
  hart : after.hart = before.hart
  space : after.space = before.space
  state : after.state = before.state
  exitStatus : after.exitStatus = before.exitStatus
  instructions : after.instructions = before.instructions

namespace Context.SameGuest

theorem refl (context : Context) : context.SameGuest context := ⟨rfl, rfl, rfl, rfl, rfl⟩

theorem trans {first second third : Context} (left : first.SameGuest second)
    (right : second.SameGuest third) : first.SameGuest third :=
  ⟨right.hart.trans left.hart, right.space.trans left.space, right.state.trans left.state,
    right.exitStatus.trans left.exitStatus, right.instructions.trans left.instructions⟩

end Context.SameGuest

/-- What an address space shows is in the frames behind its pages. -/
theorem Memory.byteAt_congr {space : AddressSpace} {pool after : FramePool}
    {journal journal' : Journal}
    (contents : ∀ frame ∈ space.table.frames, after.contents frame = pool.contents frame)
    (address : Nat) :
    byteAt ⟨space, after, journal'⟩ address = byteAt ⟨space, pool, journal⟩ address := by
  unfold byteAt
  cases found : space.table[pageOf address]? with
  | none => rfl
  | some entry =>
      simp only [FramePool.byte]
      rw [contents _ (PageTable.mem_frames.mpr ⟨_, entry, found, rfl⟩)]

namespace Interpreter

variable {capacity : Nat} {machine after : Interpreter} {id other : ContextId}

/-! ## Guests by number -/

/-- A context that is there stays there, and only its family may change. -/
def GuestKept (other : ContextId) (before after : TreeMap ContextId Context) : Prop :=
  ∀ context, before[other]? = some context →
    ∃ context', after[other]? = some context' ∧ context.SameGuest context'

namespace GuestKept

variable {contexts first second third : TreeMap ContextId Context}

theorem refl (contexts : TreeMap ContextId Context) : GuestKept other contexts contexts :=
  fun context found => ⟨context, found, .refl context⟩

theorem trans (left : GuestKept other first second) (right : GuestKept other second third) :
    GuestKept other first third := by
  intro context found
  obtain ⟨middle, found', same⟩ := left context found
  obtain ⟨last, found'', same'⟩ := right middle found'
  exact ⟨last, found'', same.trans same'⟩

theorem insert (different : id ≠ other) (context : Context) :
    GuestKept other contexts (contexts.insert id context) := by
  intro context found
  refine ⟨context, ?_, .refl context⟩
  rw [Table.getElem?_insert, if_neg different]
  exact found

theorem erase (different : id ≠ other) : GuestKept other contexts (contexts.erase id) := by
  intro context found
  refine ⟨context, ?_, .refl context⟩
  rw [Table.getElem?_erase, if_neg different]
  exact found

theorem modify {change : Context → Context}
    (same : ∀ context : Context, context.SameGuest (change context)) (id : ContextId) :
    GuestKept other contexts (contexts.modify id change) := by
  intro context found
  rw [Table.getElem?_modify, found]
  split
  · exact ⟨change context, rfl, same context⟩
  · exact ⟨context, rfl, .refl context⟩

theorem modify_of_ne {change : Context → Context} (different : id ≠ other) :
    GuestKept other contexts (contexts.modify id change) := by
  intro context found
  refine ⟨context, ?_, .refl context⟩
  rw [Table.getElem?_modify, if_neg different]
  exact found

/-- Cutting the links of a family concerns the family only. -/
theorem unlink (contexts : TreeMap ContextId Context) (id : ContextId) (context : Context) :
    GuestKept other contexts (unlink contexts id context) := by
  have orphaned (children : List ContextId) (table : TreeMap ContextId Context) :
      GuestKept other table (children.foldl (fun table child =>
        table.modify child fun found => { found with parent := none }) table) := by
    induction children generalizing table with
    | nil => exact .refl table
    | cons child rest ih =>
        refine .trans (modify ?_ child) (ih _)
        exact fun _ => ⟨rfl, rfl, rfl, rfl, rfl⟩
  unfold Interpreter.unlink
  refine .trans ?_ (orphaned _ _)
  split
  · refine modify ?_ _
    exact fun _ => ⟨rfl, rfl, rfl, rfl, rfl⟩
  · exact .refl contexts

end GuestKept

/-! ## Spared contexts -/

/-- A context that is there stays there, only its family may change, and it sees the bytes that it
saw. -/
def Spares (other : ContextId) (before after : Interpreter) : Prop :=
  ∀ context, before.contexts[other]? = some context →
    ∃ context', after.contexts[other]? = some context' ∧ context.SameGuest context' ∧
      ∀ address, (after.memoryOf context').byteAt address =
        (before.memoryOf context).byteAt address

theorem Spares.trans {first second third : Interpreter} (left : Spares other first second)
    (right : Spares other second third) : Spares other first third := by
  intro context found
  obtain ⟨middle, found', same, bytes⟩ := left context found
  obtain ⟨last, found'', same', bytes'⟩ := right middle found'
  exact ⟨last, found'', same.trans same', fun address => (bytes' address).trans (bytes address)⟩

/-- A context is spared if it is kept and what is in its frames is. -/
theorem spares_of_contents (kept : GuestKept other machine.contexts after.contexts)
    (contents : ∀ space, spaceIn machine.contexts other = some space →
      ∀ frame ∈ space.table.frames, after.pool.contents frame = machine.pool.contents frame) :
    Spares other machine after := by
  intro context found
  obtain ⟨context', found', same⟩ := kept context found
  refine ⟨context', found', same, fun address => ?_⟩
  show Memory.byteAt ⟨context'.space, _, _⟩ address = _
  rw [same.space]
  exact Memory.byteAt_congr (contents context.space (by rw [spaceIn, found]; rfl)) address

/-- What leaves the pool spares all contexts that it keeps. -/
theorem spares_of_pool (kept : GuestKept other machine.contexts after.contexts)
    (pool : after.pool = machine.pool) : Spares other machine after :=
  spares_of_contents kept fun _ _ _ _ => by rw [pool]

/-- What leaves the frames of all contexts alone spares all contexts that it keeps. -/
theorem spares_of_held (kept : GuestKept other machine.contexts after.contexts)
    (contents : ∀ frame ∈ framesIn machine.contexts,
      after.pool.contents frame = machine.pool.contents frame) : Spares other machine after :=
  spares_of_contents kept fun space found frame behind =>
    contents frame (mem_framesIn.mpr ⟨other, space, found, behind⟩)

/-- **What leaves the frames of all contexts but one alone spares the others.** -/
theorem spares_of_around (kept : GuestKept other machine.contexts after.contexts)
    (different : id ≠ other)
    (contents : ∀ frame ∈ (machine.around capacity id).frames,
      after.pool.contents frame = (machine.around capacity id).contents frame) :
    Spares other machine after := by
  refine spares_of_contents kept fun space found frame behind => contents frame ?_
  refine mem_framesIn.mpr ⟨other, space, ?_, behind⟩
  rw [spaceIn, Table.getElem?_erase, if_neg different]
  exact found

/-! ## Every operation -/

namespace Sound

/-- A change of the memory of a context that keeps it sound spares the others. -/
theorem spares_keepMemory {context : Context} {memory : Memory}
    (kept : Memory.Sound (machine.around capacity id) memory) (different : id ≠ other) :
    Spares other machine (machine.keepMemory id context memory) :=
  spares_of_around (.insert different _) different kept.contents

theorem spares_create (sound : machine.Sound capacity) (image : Image) (options : LoadOptions) :
    Spares other machine (finalState (Interpreter.create image options machine)) := by
  have outcome := Loading.outcome_load sound.heldBy machine.nextId image options machine.journal
  cases result : Loading.load machine.nextId image options machine.pool machine.journal with
  | mk answer left =>
      obtain ⟨pool, journal⟩ := left
      rw [result] at outcome
      cases outcome with
      | loaded loaded =>
          rw [create_of_ok result]
          refine spares_of_held (fun context found => ?_) loaded.contents
          -- The number of the new context is not the number of an old one.
          have different : machine.nextId ≠ other := by
            rintro rfl
            rw [sound.unused] at found
            cases found
          exact GuestKept.insert different _ context found
      | failed held =>
          rw [create_of_error result]
          exact spares_of_held (.refl _) held.contents

theorem spares_fork (sound : machine.Sound capacity) :
    Spares other machine (finalState (Interpreter.fork id machine)) := by
  have ends := forkEnds id machine
  generalize Interpreter.fork id machine = result at ends ⊢
  cases ends with
  | missing => exact spares_of_pool (.refl _) rfl
  | refused found failed =>
      rw [sound.not_begun found failed]
      exact spares_of_pool (.refl _) rfl
  | copied found copied =>
      refine spares_of_held (fun context found' => ?_) (sound.copied found copied).sound.contents
      have fresh : machine.nextId ≠ other := by
        rintro rfl
        rw [sound.unused] at found'
        cases found'
      refine ((GuestKept.insert fresh _).trans (.modify ?_ id)) context found'
      exact fun _ => ⟨rfl, rfl, rfl, rfl, rfl⟩

theorem spares_destroy (sound : machine.Sound capacity) (different : id ≠ other) :
    Spares other machine (finalState (Interpreter.destroy id machine)) := by
  cases found : machine.contexts[id]? with
  | none =>
      rw [destroy_of_none found]
      exact spares_of_pool (.refl _) rfl
  | some context =>
      have held := (sound.memory found machine.journal).heldBy_freed
      rw [destroy_of_some found]
      exact spares_of_around ((GuestKept.erase different).trans (.unlink _ _ _)) different
        held.contents

theorem spares_release (sound : machine.Sound capacity) (different : id ≠ other) :
    Spares other machine (finalState (Interpreter.release id machine)) := by
  cases found : machine.contexts[id]? with
  | none =>
      rw [release_of_none found]
      exact spares_of_pool (.refl _) rfl
  | some context =>
      have held := (sound.memory found machine.journal).heldBy_freed
      rw [release_of_some found]
      exact spares_of_around (.insert different _) different held.contents

theorem spares_switch (sound : machine.Sound capacity) (different : id ≠ other) (quantum : Nat) :
    Spares other machine (finalState (Interpreter.switch id quantum machine)) := by
  have ran {context : Context} (found : machine.contexts[id]? = some context) :
      Spares other machine (machine.keepRun id context (machine.runOf context quantum)) := by
    have memory := context.hart.run_keeps (Memory.respected_sound _) machine.tracing quantum 0
      (sound.memory found machine.journal)
    exact spares_of_around (.insert different _) different memory.contents
  have ends := switchEnds id quantum machine
  generalize Interpreter.switch id quantum machine = result at ends ⊢
  cases ends with
  | missing => exact spares_of_pool (.refl _) rfl
  | exited => exact spares_of_pool (.refl _) rfl
  | trapped found _ _ => exact ran found
  | ranDry found _ _ => exact ran found

theorem spares_withMemory {α : Type} {action : MemoryAction α} (sound : machine.Sound capacity)
    (congruent : Memory.Congruent action) (different : id ≠ other) :
    Spares other machine (machine.withMemory id action).2 := by
  cases found : machine.contexts[id]? with
  | none =>
      rw [withMemory_of_none found]
      exact spares_of_pool (.refl _) rfl
  | some context =>
      rw [withMemory_of_some found]
      exact spares_keepMemory (congruent.keeps_sound (sound.memory found machine.journal))
        different

end Sound

/-- The context that an operation is addressed to; creating one and noting what happens are
addressed to none. -/
def Operation.addressee? : Operation → Option ContextId
  | .create _ _ => none
  | .fork id => some id
  | .destroy id => some id
  | .release id => some id
  | .switch id _ => some id
  | .access id _ => some id
  | .alter id _ => some id
  | .note _ => none

/-- **An operation spares every context that it is not addressed to, whether it succeeds or
not.** -/
theorem Operation.spares (operation : Operation) (sound : machine.Sound capacity)
    (foreign : operation.addressee? ≠ some other) :
    Spares other machine (finalState (operation.perform machine)) := by
  cases operation with
  | create image options =>
      rw [Operation.perform, finalState_map]
      exact sound.spares_create image options
  | fork id =>
      rw [Operation.perform, finalState_map]
      exact sound.spares_fork
  | destroy id =>
      rw [Operation.perform, finalState_map]
      exact sound.spares_destroy fun same => foreign (congrArg some same)
  | release id =>
      rw [Operation.perform, finalState_map]
      exact sound.spares_release fun same => foreign (congrArg some same)
  | switch id quantum =>
      rw [Operation.perform, finalState_map]
      exact sound.spares_switch (fun same => foreign (congrArg some same)) quantum
  | access id request =>
      exact sound.spares_withMemory request.congruent_perform fun same =>
        foreign (congrArg some same)
  | alter id bookkeeping =>
      exact spares_of_pool (.modify_of_ne fun same => foreign (congrArg some same)) rfl
  | note happening => exact spares_of_pool (.refl _) rfl

end Interpreter

end NestedMachine
