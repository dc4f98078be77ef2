import NestedMachine.Instruction.Encoding
import NestedMachine.Proofs.Hypervisor.FollowingCalls
import NestedMachine.Proofs.Hypervisor.Shadows

/-!
# Guests cannot tell the memory modes apart

A run whose programs are mapped at once is compared with the same run on demand.  The eager run
maps every page that the other one maps, and perhaps more; but a page that nobody has written to
shows the zeros that an unmapped page shows.  So the lazy hypervisor shadows the eager one
(`Shadows`), in modes of which the first is no lazier than the second.

Both runs turn to hosts in the same state and record the same (`modesApart`).  So every system call
follows, as for runs over different numbers of levels (`RespectsHosts`), and errors have to be the
same.  The comparison ends where the eager run lacks a frame: with an error that says so, or with
the refusal of a fork or of a program break, which is noted.  That the lazy run lacks no frame
before that is part of the result, `memory_modes_transparent`, and not a condition.
-/

namespace NestedMachine.Hypervisor

set_option autoImplicit false

variable {α : Type} {capacity : Nat}

/-! ## Hosts and recordings in two modes -/

/-- Equal hosts and recordings, over modes of which the first is no lazier than the second.  Of the
errors, only a lack of frames ends the comparison. -/
def modesApart : Pairing where
  modes := .noLazier
  paired host host' recording recording' := host = host' ∧ recording = recording'
  intact _ := True
  forgiven := HostError.IsExhaustion
  exhausted _ lacking := lacking

theorem follows_askHost_modesApart (request : Host → HostAnswer α) :
    (shadowing capacity modesApart).Follows Eq (askHost request) (askHost request) := by
  refine ⟨irreversible_askHost request, ?_⟩
  rintro ⟨⟨relays, left⟩, own⟩ ⟨⟨relays', right⟩, own'⟩ ⟨shadows, host, recording⟩
  dsimp only at host recording
  unfold askHost
  dsimp only
  rw [← host]
  refine .answer rfl ⟨?_, rfl, recording⟩
  exact (shadows.journals _ _).equip _ own.recording _ own'.recording

theorem follows_changeRecording_modesApart (change : Recording → Recording) :
    (shadowing capacity modesApart).Follows Eq (changeRecording change)
      (changeRecording change) := by
  refine .modify (fun hypervisor future => ⟨future.1, trivial⟩) fun left right states => ?_
  obtain ⟨shadows, host, recording⟩ := states
  exact ⟨shadows.equip left.own.host _ right.own.host _, host, congrArg change recording⟩

/-- **Hosts and recordings stay equal in two modes.** -/
theorem respectsHosts_modesApart :
    RespectsHosts (shadowing capacity modesApart) (fun _ _ => True) where
  toRespects := respects_shadowing
  recording _ _ states := states.2.2
  askHost := follows_askHost_modesApart
  changeRecording := follows_changeRecording_modesApart

/-! ## The main result -/

/-- Contexts over two pools that a guest cannot tell apart, the first of which maps every page that
the second maps. -/
structure GuestsAlike (pool pool' : FramePool) (context context' : Context) : Prop where
  alike : context.Alike context'
  layout : context.space.layout = context'.space.layout
  bytes : ∀ address, Memory.byteAt ⟨context.space, pool, .silent⟩ address =
    Memory.byteAt ⟨context'.space, pool', .silent⟩ address
  pages : context'.space.table.domain ⊆ context.space.table.domain

/-- What a run in an eager mode and one in a lazy mode have in common: everything that the
hypervisor keeps, with the host, all files and what is recorded, apart from the mode itself, and
every context as a guest and the scheduler see it. -/
structure ModesAlike (eager lazy : Hypervisor) : Prop where
  own : lazy.own = { eager.own with mode := lazy.own.mode }
  contexts : ∀ id, Option.Rel
    (GuestsAlike eager.machine.interpreter.pool lazy.machine.interpreter.pool)
    (eager.machine.context? id) (lazy.machine.context? id)

/-- A hypervisor that differs from an eager one in its journal only, and one that shadows it. -/
theorem SameAbove.modesAlike {view : JournalView} {eager loud lazy : Hypervisor}
    (same : SameAbove view eager loud)
    (states : (shadowing capacity modesApart).related loud lazy) : ModesAlike eager lazy := by
  obtain ⟨shadows, host, recording⟩ := states
  refine ⟨?_, fun id => ?_⟩
  · have looks := shadows.own.looks
    unfold Supervisor.LooksLike at looks
    rw [← host, ← recording, ← shadows.own.quantum, ← shadows.own.ready,
      ← shadows.own.relay] at looks
    rw [same.own]
    exact looks
  · have shown := shadows.interpreter.contexts id
    rw [same.context? id, same.interpreter.pool, shadows.leftUniform.context?,
      shadows.rightUniform.context?]
    show Option.Rel _ loud.machine.interpreter.contexts[id]? lazy.machine.interpreter.contexts[id]?
    generalize loud.machine.interpreter.contexts[id]? = first at shown
    generalize lazy.machine.interpreter.contexts[id]? = second at shown
    cases shown with
    | none => exact .none
    | some shows =>
        obtain ⟨alike, layout, -, domain, bytes⟩ := shows
        exact .some ⟨alike, layout, bytes, domain⟩

/-- **Memory modes are transparent.**  Let any operations drive a stack whose programs are mapped at
once, such that none fails for lack of frames, and none refuses a fork or a program break for that
reason, as the notes of the run would tell.  Then the same operations on a stack that maps on demand
have the same answers, errors included, and leave the same behind after each of them: the host, what
is recorded, and every context with its registers, state, count of instructions and memory. -/
theorem memory_modes_transparent (configuration : Configuration) (host : Host)
    (journal journal' : Journal) (level : Nat) (operations : List Operation)
    (away : ∀ operation ∈ operations, operation.keepsAway = true) {eager : Hypervisor}
    (built : nested { configuration with mode := .fullyMapped } host journal level = .ok eager)
    (supplied : ∀ entry ∈ trail Operation.perform operations eager,
      ∀ id pc, entry.1 ≠ .error (.memoryExhausted id pc))
    (backed : ∀ loud, nested { configuration with mode := .fullyMapped } host
        (.withThreshold (some .debug)) level = .ok loud →
      (stateAfter Operation.perform operations
        loud).machine.interpreter.journal.tellsShortage = false) :
    ∃ lazy, nested { configuration with mode := .demand } host journal' level = .ok lazy ∧
      List.Forall₂ (fun before after => before.1 = after.1 ∧ ModesAlike before.2 after.2)
        (trail Operation.perform operations eager) (trail Operation.perform operations lazy) := by
  obtain ⟨loud, lazy, made, begun, trails, -, quiet⟩ := shadowing_nested modesApart
    (show modesApart.modes.alike .fullyMapped .demand from fun _ => rfl) ⟨rfl, rfl⟩ journal' built
    backed
  have supplied' := trails_share
    (fun answer => ∀ id pc, answer ≠ .error (.memoryExhausted id pc)) trails supplied
  have answers := Pursuit.trail_follows_unless
    (fun operation member => respectsHosts_modesApart.follows_operation (away operation member))
    begun ?_ ⟨quiet, trivial⟩
  · refine ⟨lazy, made, ?_⟩
    refine trails_compose (fun _ _ _ first second => ?_) trails answers
    exact ⟨first.1.trans second.1, first.2.modesAlike second.2⟩
  · intro entry member future error failed excused
    rcases excused with ⟨id, pc, rfl⟩ | vanished
    · exact supplied' entry member id pc failed
    · exact vanished future

/-- Where nothing fails, nothing fails for lack of frames. -/
theorem supplied_of_succeed {entries : List (Except HostError Answer × Hypervisor)}
    (succeed : ∀ entry ∈ entries, entry.1.isOk = true) :
    ∀ entry ∈ entries, ∀ id pc, entry.1 ≠ .error (.memoryExhausted id pc) :=
  fun entry member _ _ => ne_error_of_succeed succeed entry member _

/-- A program that grows its heap and stores the new program break there.  Then it forks, and parent
and child each write the bytes of that word to their standard output. -/
def storeAndFork : Image :=
  .ofWords ([.addi 17 0 214, .ecall, .addi 9 10 0, .addi 10 10 2047, .ecall, .sd 9 10 0,
    .addi 17 0 220, .ecall, .addi 10 0 1, .addi 11 9 0, .addi 12 0 8, .addi 17 0 64, .ecall,
    .addi 17 0 93, .ecall].map Instruction.encode) []

/-- A recorded run of the program. -/
def recordedFork : List Operation :=
  [.startRecording, .load storeAndFork [], .runAll 10, .takeTrace]

/-- What was written to the standard output, and how many frames were handed out at most. -/
def outputAndPeak (hypervisor : Hypervisor) : Option Bytes × Nat :=
  (hypervisor.own.host.buffer?.map BufferHost.output, hypervisor.machine.interpreter.pool.peak)

/-- With pages that are mapped at once the program needs thirty-six frames, and on demand six; but
it writes the same. -/
theorem fork_in_two_modes :
    ∃ eager lazy,
      nested { Configuration.standard with frames := 60, mode := .fullyMapped }
        (.buffer (.withInput [])) .silent 1 = .ok eager ∧
      nested { Configuration.standard with frames := 60, mode := .demand }
        (.buffer (.withInput [])) .silent 1 = .ok lazy ∧
      List.Forall₂ (fun before after => before.1 = after.1 ∧ ModesAlike before.2 after.2)
        (trail Operation.perform recordedFork eager) (trail Operation.perform recordedFork lazy) ∧
      outputAndPeak (stateAfter Operation.perform recordedFork eager) =
        (some [255, 23, 1, 0, 0, 0, 0, 0, 255, 23, 1, 0, 0, 0, 0, 0], 36) ∧
      outputAndPeak (stateAfter Operation.perform recordedFork lazy) =
        (some [255, 23, 1, 0, 0, 0, 0, 0, 255, 23, 1, 0, 0, 0, 0, 0], 6) := by
  obtain ⟨lazy, built, alike⟩ := @memory_modes_transparent
    { Configuration.standard with frames := 60 } (.buffer (.withInput [])) .silent .silent 1
    recordedFork (by decide) _ rfl (supplied_of_succeed (by decide +kernel))
    (by
      intro loud built
      obtain rfl := Except.ok.inj built
      decide +kernel)
  refine ⟨_, lazy, rfl, built, alike, by decide +kernel, ?_⟩
  obtain rfl := Except.ok.inj built
  decide +kernel

end NestedMachine.Hypervisor
