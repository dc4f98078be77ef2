import NestedMachine.Proofs.Hypervisor.Replay

/-!
# The frames of a replay

A replay does not make the calls that reach the host, and so it does not look at everything that
these calls look at.  The buffer of a write that the host refuses, and the path of a file that is
opened, are looked at while recording only; and a page that is looked at for the first time is
mapped.  So a replay may have fewer pages mapped than the run that it replays
(`refused_write_maps_unreplayed`).

It never has more.  As long as no request has been refused for lack of frames, every page of the
replay is mapped in the recorded run, and no more frames are handed out
(`replay_needs_no_more_frames`).  Whatever was granted while recording is then granted again, and
the replay neither runs out of frames nor misses a recorded result.  What was refused for lack of
frames may be granted in the replay, and the replay ends there: that is what the condition is for,
and the example shows that it cannot be left out.
-/

namespace NestedMachine.Hypervisor

set_option autoImplicit false

/-! ## Replays within the frames of the recorded run -/

/-- A replay that looks like the recorded run to its contexts, and has mapped no page and holds no
frame beyond those of the recorded run. -/
structure WithinFrames (recorded replayed : Hypervisor) : Prop where
  alike : RunsAlike recorded replayed
  pages : ∀ id context context', recorded.machine.context? id = some context →
    replayed.machine.context? id = some context' →
    context'.space.table.domain ⊆ context.space.table.domain
  frames : replayed.machine.interpreter.pool.inUse ≤ recorded.machine.interpreter.pool.inUse

/-- The covered machine has handed out no more frames. -/
theorem Shadows.inUse_le {capacity : Nat} {left right : Hypervisor}
    (shadows : Shadows .same capacity left right) :
    right.machine.interpreter.pool.inUse ≤ left.machine.interpreter.pool.inUse := by
  obtain ⟨leftSound, rightSound, -, -, contexts⟩ := shadows.interpreter
  rw [leftSound.consistent.inUse, leftSound.taken, rightSound.consistent.inUse, rightSound.taken]
  exact contexts.card_le

/-- What looks alike has mapped no more pages. -/
theorem RunsAlike.pages {recorded replayed : Hypervisor} (alike : RunsAlike recorded replayed)
    {id : ContextId} {context context' : Context}
    (found : recorded.machine.context? id = some context)
    (found' : replayed.machine.context? id = some context') :
    context'.space.table.domain ⊆ context.space.table.domain := by
  have shown := alike.contexts id
  rw [found, found'] at shown
  cases shown with
  | some shows => exact shows.covers.domain

/-- A hypervisor that differs from a recorded one in its journal only, and one that shadows it. -/
theorem SameAbove.withinFrames {capacity : Nat} {view : JournalView}
    {recorded loud replayed : Hypervisor} (same : SameAbove view recorded loud)
    (shadows : Shadows .same capacity loud replayed) : WithinFrames recorded replayed where
  alike := same.runsAlike shadows
  pages _ _ _ found found' := (same.runsAlike shadows).pages found found'
  frames := by
    rw [same.interpreter.pool]
    exact shadows.inUse_le

/-- A record that begins with the trace that is being recorded bears it out. -/
theorem bornOut_of_traceOf {records : List TraceRecord} {recording : Recording}
    (begins : (traceOf recording).records.toList <+: records) : BornOut records recording := by
  intro trace same
  rw [same] at begins
  exact begins

/-! ## The main result -/

/-- **A replay needs no more frames than the run that it replays**, up to the first request that is
refused for lack of frames.  Record calls over a buffer host, each of which succeeds, such that the
notes of the run would tell of no such request.  Replay any trace that begins with what was recorded
by then, in another hypervisor of the same configuration that has loaded the same programs.  The
same calls succeed with the same answers, so that no recorded result is missed and no frame is
lacking, and after each of them the replay has stayed within the frames of the recorded run. -/
theorem replay_needs_no_more_frames (configuration : Configuration) (buffer : BufferHost)
    (other : Host) (journal journal' : Journal) (programs : List (Image × List String))
    (calls : List Operation) (drive : ∀ call ∈ calls, call.drives = true) {start : Hypervisor}
    (built : build configuration (.buffer buffer) journal = .ok start)
    (succeed : ∀ entry ∈ trail Operation.perform (recordedRun programs calls) start,
      entry.1.isOk = true)
    (backed : ∀ loud,
      build configuration (.buffer buffer) (.withThreshold (some .debug)) = .ok loud →
        (stateAfter Operation.perform (recordedRun programs calls)
          loud).machine.interpreter.journal.tellsShortage = false)
    {trace : Trace} (begins : BornOut trace.records.toList
      (stateAfter Operation.perform (recordedRun programs calls) start).own.recording) :
    ∃ fresh, build configuration other journal' = .ok fresh ∧
      (∀ entry ∈ trail Operation.perform (replayedRun programs trace calls) fresh,
        entry.1.isOk = true) ∧
      List.Forall₂ (fun before after => before.1 = after.1 ∧ WithinFrames before.2 after.2)
        (trail Operation.perform (recordedRun programs calls) start)
        (trail Operation.perform (replayedRun programs trace calls) fresh) := by
  obtain ⟨fresh, made, answers, -⟩ :=
    replay_in_step other journal' drive built succeed backed begins
  have within : List.Forall₂ (fun before after => before.1 = after.1 ∧ WithinFrames before.2 after.2)
      (trail Operation.perform (recordedRun programs calls) start)
      (trail Operation.perform (replayedRun programs trace calls) fresh) := by
    apply answers.imp
    rintro before after ⟨same, loud, listens, shadows⟩
    exact ⟨same, listens.withinFrames shadows⟩
  exact ⟨fresh, made, trails_succeed within succeed, within⟩

/-! ## A replay that is granted more -/

/-- A program that grows its heap by a page, has a byte of it written to a descriptor that is not
open, and asks for two more pages. -/
def probe : Image :=
  .ofWords ([.addi 17 0 214, .addi 10 0 0, .ecall, .addi 9 10 0, .lui 5 4096, .add 10 9 5, .ecall,
    .addi 17 0 64, .addi 10 0 9, .addi 11 9 0, .addi 12 0 1, .ecall, .lui 5 12288, .addi 17 0 214,
    .add 10 9 5, .ecall, .addi 10 0 0, .addi 17 0 93, .ecall].map Instruction.encode) []

/-- The calls of the probe as they are recorded with four frames: the write is refused, and then the
heap stays as it is. -/
def probeTrace : Trace :=
  ⟨#[⟨0x10008, 214, 0x11000, []⟩, ⟨0x10018, 214, 0x12000, []⟩, ⟨0x1002c, 64, -1, []⟩,
    ⟨0x1003c, 214, 0x12000, []⟩, ⟨0x10048, 93, 0, []⟩]⟩

/-- As many calls of the first context. -/
def callsOfFirst (count : Nat) : List Operation := .replicate count (.slice 1 100)

/-- How an operation failed and how many frames are handed out after it. -/
def framesAndFailure (entry : Except HostError Answer × Hypervisor) : Nat × Option HostError :=
  (entry.2.machine.interpreter.pool.inUse,
    match entry.1 with
    | .ok _ => none
    | .error error => some error)

/-- With four frames, the page behind the refused write is mapped while recording and not in the
replay, so that the replay is granted the heap that the recorded run was refused, and ends there. -/
theorem refused_write_maps_unreplayed :
    ∃ start, build { Configuration.standard with frames := 4 } (.buffer (.withInput []))
        .silent = .ok start ∧
      traceOf (stateAfter Operation.perform (recordedRun [(probe, [])] (callsOfFirst 5))
        start).own.recording = probeTrace ∧
      (trail Operation.perform (recordedRun [(probe, [])] (callsOfFirst 5)) start).map
          framesAndFailure =
        [(2, none), (2, none), (2, none), (2, none), (3, none), (3, none), (0, none)] ∧
      (trail Operation.perform (replayedRun [(probe, [])] probeTrace (callsOfFirst 4)) start).map
          framesAndFailure =
        [(2, none), (2, none), (2, none), (2, none), (2, none),
          (2, some (.replayMismatch 3 214 0x12000 0x14000))] := by
  refine ⟨_, rfl, ?_, ?_, ?_⟩
  · decide +kernel
  · decide +kernel
  · decide +kernel

/-- Up to the refusal, the replay of the probe needs no more frames than were handed out while
recording. -/
theorem probe_replayed_until_refused :
    ∃ start, build { Configuration.standard with frames := 4 } (.buffer (.withInput []))
        .silent = .ok start ∧
      ∃ fresh, build { Configuration.standard with frames := 4 } .null .silent = .ok fresh ∧
        List.Forall₂ (fun before after => before.1 = after.1 ∧ WithinFrames before.2 after.2)
          (trail Operation.perform (recordedRun [(probe, [])] (callsOfFirst 3)) start)
          (trail Operation.perform (replayedRun [(probe, [])] probeTrace (callsOfFirst 3))
            fresh) := by
  refine ⟨_, rfl, ?_⟩
  obtain ⟨fresh, built, -, within⟩ :=
    @replay_needs_no_more_frames { Configuration.standard with frames := 4 } (.withInput []) .null
      .silent .silent [(probe, [])] (callsOfFirst 3) (by decide) _ rfl (by decide +kernel)
      (by
        intro loud built
        obtain rfl := Except.ok.inj built
        decide +kernel)
      probeTrace (bornOut_of_traceOf (by decide +kernel))
  exact ⟨fresh, built, within⟩

end NestedMachine.Hypervisor
