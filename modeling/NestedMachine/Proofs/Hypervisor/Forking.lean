import NestedMachine.Proofs.Hypervisor.Atomicity
import NestedMachine.Proofs.Hypervisor.Custody
import NestedMachine.Proofs.Hypervisor.Histories
import NestedMachine.Proofs.Machine.Code

/-!
# Forks

A fork is put together at three levels.  The interpreter copies the memory of the caller page by
page, and keeps the copy with the hart of the caller under the next number (`Interpreter.Forked`).
The supervisor sends the copy on behind the call with zero for an answer (`sending`), and when the
call is answered, the caller goes on behind it with the number of the copy (`answering`).  So the
two come out of the call as twins which differ in the answer alone and share no frame, and nobody
else has noticed (`fork_makes_twin`).

Nothing is asked of the page table of the caller: a page is copied with its permission, whoever has
mapped it.  The number of the copy is the next one, and numbers only grow (`Beyond`), so that it is
larger than every number that was handed out before.
-/

namespace NestedMachine

set_option autoImplicit false

/-- A memory looks like another: it has the same layout and mode, the same pages with the same
permissions, and shows the same bytes.  The frames behind the pages may be others. -/
structure Memory.LooksLike (first second : Memory) : Prop where
  layout : first.space.layout = second.space.layout
  mode : first.space.mode = second.space.mode
  permissions : ∀ page : Nat, first.space.table[page]?.map PageEntry.permission =
    second.space.table[page]?.map PageEntry.permission
  bytes : ∀ address, first.byteAt address = second.byteAt address

namespace Memory.LooksLike

variable {first second third : Memory}

theorem symm (alike : first.LooksLike second) : second.LooksLike first :=
  ⟨alike.layout.symm, alike.mode.symm, fun page => (alike.permissions page).symm,
    fun address => (alike.bytes address).symm⟩

theorem trans (alike : first.LooksLike second) (alike' : second.LooksLike third) :
    first.LooksLike third :=
  ⟨alike.layout.trans alike'.layout, alike.mode.trans alike'.mode,
    fun page => (alike.permissions page).trans (alike'.permissions page),
    fun address => (alike.bytes address).trans (alike'.bytes address)⟩

/-- An address space looks as it did if its frames hold what they held. -/
theorem of_contents {space : AddressSpace} {pool after : FramePool} {journal journal' : Journal}
    (contents : ∀ frame ∈ space.table.frames, after.contents frame = pool.contents frame) :
    LooksLike ⟨space, after, journal'⟩ ⟨space, pool, journal⟩ :=
  ⟨rfl, rfl, fun _ => rfl, byteAt_congr contents⟩

end Memory.LooksLike

/-- **A copy looks like its source.** -/
theorem Memory.Copied.looksLike {around : Surroundings} {source : AddressSpace} {pool : FramePool}
    {journal : Journal} {after : Memory} (copied : Copied around source after)
    (contents : ∀ frame ∈ source.table.frames, around.contents frame = pool.contents frame) :
    after.LooksLike ⟨source, pool, journal⟩ where
  layout := copied.layout
  mode := copied.mode
  permissions page := by
    cases found : source.table[page]? with
    | none => rw [copied.unmapped page found]
    | some entry =>
        obtain ⟨frame, mapped, -⟩ := copied.copies page entry found
        rw [mapped]
        rfl
  bytes := copied.bytes contents

/-- A context has come out of the call that it made in another state, with an answer. -/
structure Context.Returned (caller : Context) (answer : UInt64) (context : Context) : Prop where
  pc : context.hart.pc = caller.hart.pc + 4
  answer : context.register Register.a0 = answer
  registers : ∀ register, register ≠ Register.a0 →
    context.register register = caller.register register

namespace Interpreter

variable {capacity : Nat} {machine after : Interpreter} {parent child : ContextId}

/-- What a fork has made of an interpreter: the next number is that of a copy in frames that were
free, the parent is linked to it, and everything else is as it was. -/
structure Forked (parent : ContextId) (source : Context) (machine after : Interpreter) : Prop where
  nextId : after.nextId = machine.nextId + 1
  linked : after.context? parent =
    some { source with children := source.children.insert machine.nextId }
  copy : ∃ space, after.context? machine.nextId = some (forkOf parent source space) ∧
    Memory.LooksLike ⟨space, after.pool, after.journal⟩ (machine.memoryOf source) ∧
    Disjoint space.table.frames (framesIn machine.contexts)
  others : ∀ other, other ≠ parent → other ≠ machine.nextId →
    after.context? other = machine.context? other
  contents : ∀ frame ∈ framesIn machine.contexts,
    after.pool.contents frame = machine.pool.contents frame

/-- **A fork that is answered with a number has made a copy.** -/
theorem Sound.forked (sound : machine.Sound capacity)
    (copied : Interpreter.fork parent machine = .ok (some child) after) :
    ∃ source, machine.context? parent = some source ∧ Forked parent source machine after := by
  have ends := forkEnds parent machine
  rw [copied] at ends
  cases ends with
  | @copied source memory found done =>
      have finish := sound.copied found done
      have entry (other : ContextId) :
          (((machine.contexts.insert machine.nextId
            (forkOf parent source memory.space)).modify parent fun context =>
              { context with children := context.children.insert machine.nextId })[other]?) =
            if parent = other then
              (if machine.nextId = other then some (forkOf parent source memory.space)
                else machine.contexts[other]?).map fun context =>
                  { context with children := context.children.insert machine.nextId }
            else if machine.nextId = other then some (forkOf parent source memory.space)
            else machine.contexts[other]? := by
        rw [Table.getElem?_modify, Table.getElem?_insert]
      have different : machine.nextId ≠ parent := by
        rintro rfl
        rw [sound.unused] at found
        cases found
      refine ⟨source, found, rfl, ?_, ⟨memory.space, ?_, ?_, ?_⟩, ?_, ?_⟩
      · refine (entry parent).trans ?_
        rw [if_pos rfl, if_neg different, found]
        rfl
      · refine (entry machine.nextId).trans ?_
        rw [if_neg (Ne.symm different), if_pos rfl]
      · exact finish.looksLike fun frame mine => rfl
      · exact finish.sound.exclusive.2.2
      · intro other foreign older
        refine (entry other).trans ?_
        rw [if_neg (Ne.symm foreign), if_neg (Ne.symm older)]
        rfl
      · exact finish.sound.contents

end Interpreter

namespace Hypervisor

variable {capacity : Nat} {id child other : ContextId} {origin called middle after : Hypervisor}

/-! ## The supervisor -/

/-- A hypervisor that has sent a copy on behind the call of its parent, with zero for an answer. -/
def sending (id child : ContextId) (hypervisor : Hypervisor) : Hypervisor where
  machine := ((hypervisor.machine.modifyContext child fun context =>
    (context.withRegister Register.a0 0).withPc (context.hart.pc + 4)).modifyContext child
      (·.withState .ready)).note (.forked id child)
  own := { hypervisor.own with
    relay := hypervisor.own.relay.count fun counters =>
      { counters with forks := counters.forks + 1 }
    owned := hypervisor.own.owned.insert child
    ready := queued child hypervisor.own.ready }

theorem nextId_sending : (origin.sending id child).machine.interpreter.nextId =
    origin.machine.interpreter.nextId :=
  (nextId_modifyContext ..).trans (nextId_modifyContext ..)

/-- **A fork is declined, or a copy is made and sent on.** -/
theorem sending_of_serveFork {outcome : Outcome}
    (served : serveFork id origin = .ok outcome middle) :
    (outcome = .failure ∧ ∃ forked, below (Machine.fork id) origin = .ok none forked ∧
        note (.forkRefused id) forked = .ok () middle) ∨
      ∃ child forked, below (Machine.fork id) origin = .ok (some child) forked ∧
        outcome = .answer (Int64.ofNat child) ∧ middle = forked.sending id child := by
  unfold serveFork at served
  obtain ⟨answer, forked, fork, served⟩ := ok_of_bind served
  cases answer with
  | none =>
      obtain ⟨_, noted, note, served⟩ := ok_of_bind served
      cases served
      exact .inl ⟨rfl, forked, fork, note⟩
  | some child =>
      obtain ⟨_, counted, count, served⟩ := ok_of_bind served
      obtain ⟨_, owned, own, served⟩ := ok_of_bind served
      obtain ⟨_, begun, begin, served⟩ := ok_of_bind served
      obtain ⟨_, queued, queue, served⟩ := ok_of_bind served
      obtain ⟨_, noted, note, served⟩ := ok_of_bind served
      cases count
      cases own
      obtain rfl := state_of_modifyContext begin
      obtain rfl := state_of_makeReady queue
      cases note
      cases served
      exact .inr ⟨child, forked, fork, rfl, rfl⟩

/-- What notes a completed call changes at most the recording. -/
theorem recording_of_noteCompleted {call : Call} {outcome : Outcome} {data : Bytes}
    (done : noteCompleted call outcome data middle = .ok () after) :
    after = { middle with own := { middle.own with recording := after.own.recording } } := by
  unfold noteCompleted at done
  cases told : outcome.result? with
  | none =>
      simp only [told] at done
      cases done
      rfl
  | some result =>
      simp only [told] at done
      rw [get_bind_apply] at done
      cases recording : middle.own.recording with
      | off =>
          simp only [recording] at done
          cases done
          rfl
      | record trace =>
          simp only [recording] at done
          cases done
          rfl
      | replay replayer =>
          simp only [recording] at done
          obtain ⟨⟨index, record⟩, consumed, consume, done⟩ := ok_of_bind done
          have kept : consumed =
              { middle with own := { middle.own with recording := consumed.own.recording } } := by
            unfold nextRecord at consume
            cases next : replayer.next call.pc call.number with
            | ok answer replayer =>
                simp only [next] at consume
                obtain ⟨_, replayed, replay, consume⟩ := ok_of_bind consume
                cases replay
                cases consume
                rfl
            | error error replayer =>
                simp only [next] at consume
                cases consume
          dsimp only at done
          split at done
          · cases done
          · cases done
            exact kept

section Beyond

variable {α : Type} {base : Nat}

theorem Refused.nextId {error : HostError} (refused : Refused id origin error after) :
    after.machine.interpreter.nextId = origin.machine.interpreter.nextId :=
  (refused.hushed 0).nextId

end Beyond

theorem Event.nextId_le (event : Event) (tame : event.Tame) (steady : Steady capacity origin) :
    origin.machine.interpreter.nextId ≤
      (finalState (event.perform origin)).machine.interpreter.nextId :=
  -- Where nobody holds the code, its custody still tells how numbers have grown.
  have custody : Custody capacity (Memory.Carries (.ofWords [] [])) Nobody
      origin.machine.interpreter.nextId (fun id => event.Releases id origin)
      (finalState (event.perform origin)) :=
    event.custody (Memory.heirloom_carries _) tame steady fun _ nobody => nobody.elim
  custody.base_le

/-- The frames of a context are among those of all contexts. -/
theorem Steady.mem_framesIn (steady : Steady capacity origin) {context : Context}
    (found : origin.machine.context? id = some context) {frame : FrameId}
    (mine : frame ∈ context.space.table.frames) :
    frame ∈ framesIn origin.machine.interpreter.contexts := by
  rw [steady.uniform.context?] at found
  exact NestedMachine.mem_framesIn.mpr
    ⟨id, context.space, congrArg (Option.map Context.space) found, mine⟩

end Hypervisor

end NestedMachine
