import NestedMachine.Proofs.Hypervisor.Indifference
import NestedMachine.Proofs.Hypervisor.Steadiness

/-!
# Replays do without a host

While calls are replayed, those that reach the host are answered from the trace.  To say that the
host is not asked, a replay is compared with one that has any other host (`offline`).  No action
that goes on replaying can tell them apart: it answers the same and leaves the same, and each keeps
its own host.  If the host were asked, there would be a host whose answer, or whose state
afterwards, gave it away.

All but calls do not look at the host anyway (`respects_offline`).  Of the calls, those within the
machine do not turn to it, and the others are not made (`follows_dispatch_offline`).  So every
operation follows that does not begin another recording (`Operation.goesOn`), whether it succeeds or
not, and the trail of a replay is the same for every host (`trail_offline`).
-/

namespace NestedMachine

set_option autoImplicit false

/-- The host is left alone by a clerical change, which does not look at it either. -/
theorem Supervisor.Clerical.change_host {change : Supervisor → Supervisor}
    (clerical : Clerical change) (own : Supervisor) (host : Host) :
    change { own with host } = { change own with host } := by
  have changed := clerical own host own.recording own.mode own.quantum own.ready own.relay
  have same := congrArg (fun own : Supervisor => { own with host }) (clerical.same own)
  exact changed.trans same.symm

/-- Calls are replayed. -/
def Recording.Replays (recording : Recording) : Prop := ∃ replayer, recording = .replay replayer

namespace Hypervisor

variable {α : Type} {capacity : Nat} {host : Host} {origin : Hypervisor}

/-! ## Replays with different hosts -/

/-- A hypervisor with another host. -/
def withHost (hypervisor : Hypervisor) (host : Host) : Hypervisor :=
  hypervisor.amended fun own => { own with host }

/-- A steady hypervisor of whose recording something is known. -/
def Recorded (capacity : Nat) (told : Recording → Prop) (hypervisor : Hypervisor) : Prop :=
  Steady capacity hypervisor ∧ told hypervisor.own.recording

/-- **Nothing turns to the recording but calls.** -/
theorem abiding_recorded (told : Recording → Prop) : Abiding (Recorded capacity told) :=
  @Abiding.record _ abiding_steady (fun own => told own.recording)
    (fun clerical own given => (congrArg told (clerical.recording own)).mpr given)
    (fun _ _ given => given) fun _ _ given => given

/-- A replay, and one that differs from it in its host. -/
def offline (capacity : Nat) (host : Host) : Pursuit HostError Hypervisor Hypervisor :=
  .evenly fun left right => right = left.withHost host ∧ Recorded capacity Recording.Replays left

/-- Actions follow that do not look at the host and go on replaying. -/
theorem follows_offline {action : HypervisorAction α}
    (indifferent : Indifferent (fun own => { own with host }) action)
    (keeps : Keeps (Recorded capacity Recording.Replays) action) :
    (offline capacity host).Follows Eq action action := by
  apply Pursuit.follows_evenly
  rintro left _ ⟨rfl, replaying⟩
  have outcome := indifferent left _ rfl
  have kept := keeps left replaying
  unfold withHost
  generalize action left = result at outcome kept
  generalize action (left.amended _) = result' at outcome
  cases outcome with
  | answer alike states => exact .answer alike ⟨states, kept⟩
  | failure states => exact .failure ⟨states, kept⟩
  | excuse reason => exact reason.elim

/-- **Whatever serves contexts and queues does not look at the host.** -/
theorem respects_offline : Respects (offline capacity host) Eq where
  looks := by
    rintro left _ ⟨rfl, -⟩
    exact ⟨rfl, (Alike.refl left).context⟩
  refl _ := rfl
  switched := by
    rintro left _ id ⟨rfl, -⟩
    rfl
  levelLoaded := by
    rintro left _ id ⟨rfl, -⟩
    rfl
  queue := by
    rintro left _ ⟨rfl, -⟩
    rfl
  quantum := by
    rintro left _ ⟨rfl, -⟩
    rfl
  note alike := alike ▸ follows_offline (indifferent_note _) ((abiding_recorded _).note _)
  modifyOwn clerical :=
    follows_offline (indifferent_modifyOwn (clerical.change_host · host))
      ((abiding_recorded _).modifyOwn clerical)
  rearrange change :=
    follows_offline (indifferent_modifyOwn fun _ => rfl) ((abiding_recorded _).rearrange change)
  join id := follows_offline (indifferent_modifyOwn fun _ => rfl) ((abiding_recorded _).rearrange _)
  dequeue id :=
    follows_offline (indifferent_modifyOwn fun _ => rfl) ((abiding_recorded _).rearrange _)
  setMemoryMode mode :=
    follows_offline (indifferent_modifyOwn fun _ => rfl) ((abiding_recorded _).setMemoryMode mode)
  modifyContext id _ blind :=
    follows_offline (indifferent_modifyContext id _) ((abiding_recorded _).modifyContext id blind)
  create image arguments := by
    refine follows_offline
      (indifferent_createContext image arguments (fun _ => rfl) fun _ => rfl) ?_
    exact .get_bind fun _ => (abiding_recorded _).create image _
  destroy id := follows_offline (indifferent_below _) ((abiding_recorded _).destroy id)
  switch id quantum :=
    follows_offline (indifferent_below _) ((abiding_recorded _).switch id quantum)
  release id :=
    (follows_offline (indifferent_below _) ((abiding_recorded _).release id)).weaken
      fun _ _ same _ => same ▸ rfl
  fork id := (follows_offline (indifferent_below _) ((abiding_recorded _).fork id)).unless
  requestBreak id requested :=
    (follows_offline (indifferent_onMemory id _)
      ((abiding_recorded _).onMemory id (careful_requestBreak requested))).unless
  callerMemory id call _ congruent :=
    follows_offline (indifferent_onCallerMemory id call _)
      ((abiding_recorded _).callerMemory id call congruent)

theorem respectsReplays_offline : RespectsReplays (offline capacity host) Eq where
  toRespectsService := respects_offline.toRespectsService
  goesOn change goesOn := by
    refine follows_offline (indifferent_modifyOwn fun _ => rfl) (.modify ?_)
    rintro origin ⟨steady, replayer, recording⟩
    refine ⟨⟨steady.sound, steady.uniform⟩, ?_⟩
    show ∃ later, change origin.own.recording = .replay later
    have replays := goesOn replayer
    rw [recording]
    cases changed : change (.replay replayer) with
    | off | record => cases changed ▸ replays
    | replay later => exact ⟨later, rfl⟩

/-! ## Calls -/

/-- A program may look at what is replayed. -/
theorem replayer_bind {β : Type} {next next' : Hypervisor → HypervisorAction β}
    (rest : ∀ left right replayer, left.own.recording = .replay replayer →
      right.own.recording = .replay replayer →
        (offline capacity host).Follows Eq (next left) (next' right)) :
    (offline capacity host).Follows Eq (get >>= next) (get >>= next') := by
  apply Pursuit.follows_evenly
  rintro left _ ⟨rfl, replaying⟩
  obtain ⟨replayer, recording⟩ := replaying.2
  exact (rest left (left.withHost host) replayer recording recording).agrees left _
    ⟨rfl, replaying⟩

/-- A completed call is compared with its record. -/
theorem follows_noteCompleted_offline (call : Call) (outcome : Outcome) (data : Bytes) :
    (offline capacity host).Follows Eq (noteCompleted call outcome data)
      (noteCompleted call outcome data) := by
  unfold noteCompleted
  cases outcome.result? with
  | none => exact .pure rfl
  | some result =>
      refine replayer_bind fun left right replayer recording recording' => ?_
      rw [recording, recording']
      exact respectsReplays_offline.follows_compare call result replayer

/-- **No call turns to the host while calls are replayed.** -/
theorem follows_dispatch_offline (id : ContextId) :
    (offline capacity host).Follows Eq (dispatch id) (dispatch id) := by
  apply respects_offline.contextOf_bind id
  intro left right same
  have caller : Call.ofContext right = Call.ofContext left := by
    rw [same.eq]
    rfl
  rw [caller]
  refine (respects_offline.count _).bind_eq fun _ => ?_
  refine (respects_offline.note rfl).bind_eq fun _ => ?_
  refine replayer_bind fun left' right' replayer recording recording' => ?_
  rw [recording, recording']
  have within {kind : Option SystemCall} (inside : kind.all (!·.reachesHost) = true) :
      (offline capacity host).Follows Eq (dispatch.perform id (Call.ofContext left) kind)
        (dispatch.perform id (Call.ofContext left) kind) :=
    (respects_offline.serve_within id _ inside).bind_eq fun served =>
      (follows_noteCompleted_offline _ served.1 served.2).bind_eq fun _ => .pure rfl
  generalize SystemCall.ofNumber? (Call.ofContext left).number.toNat = kind
  cases kind with
  | none => exact within rfl
  | some kind =>
      cases reaches : kind.reachesHost with
      | true =>
          simp only [reaches]
          exact respectsReplays_offline.follows_replayHostCall id _ kind replayer
      | false =>
          simp only [reaches]
          exact within (by simp [reaches])

/-! ## Operations -/

/-- Whether an operation leaves it alone whether calls are recorded or replayed. -/
def Operation.goesOn : Operation → Bool
  | .startRecording | .startReplay _ => false
  | _ => true

/-- **Every operation that goes on replaying is the same for every host.** -/
theorem follows_operation_offline {operation : Operation} (goesOn : operation.goesOn = true) :
    (offline capacity host).Follows Eq operation.perform operation.perform := by
  have respects : Respects (offline capacity host) Eq := respects_offline
  cases operation with
  | startRecording => cases goesOn
  | startReplay trace => cases goesOn
  | takeTrace =>
      have taken : (offline capacity host).Follows Eq takeTrace takeTrace := by
        refine replayer_bind fun left right replayer recording recording' => ?_
        rw [recording, recording']
        exact .pure rfl
      exact taken.bind_eq fun _ => .pure rfl
  | snapshot id =>
      refine Pursuit.Follows.bind_eq ?_ fun _ => .pure rfl
      refine (respects.requireOwned id).bind_eq fun _ => ?_
      exact (follows_offline (indifferent_contextOf id) (keeps_contextOf id)).bind_eq fun _ =>
        .pure rfl
  | access id request =>
      refine Pursuit.Follows.bind_eq ?_ fun _ => .pure rfl
      refine (respects.requireOwned id).bind_eq fun _ => ?_
      exact follows_offline (indifferent_onMemory id _)
        ((abiding_recorded _).onMemory id request.congruent_perform.careful)
  | _ => exact respects.operation follows_dispatch_offline rfl

/-- An operation that goes on replaying does the same with every host, and goes on replaying. -/
theorem operation_offline (host : Host) {operation : Operation} (goesOn : operation.goesOn = true)
    (replaying : Recorded capacity Recording.Replays origin) :
    answerOf (operation.perform origin) = answerOf (operation.perform (origin.withHost host)) ∧
      finalState (operation.perform (origin.withHost host)) =
        (finalState (operation.perform origin)).withHost host ∧
      Recorded capacity Recording.Replays (finalState (operation.perform origin)) := by
  have agrees := (follows_operation_offline goesOn : (offline capacity host).Follows Eq _ _).agrees
  exact (agrees origin _ ⟨rfl, replaying⟩).outcome

/-- **A replay has the same trail for every host.** -/
theorem trail_offline (host : Host) {operations : List Operation}
    (goOn : ∀ operation ∈ operations, operation.goesOn = true)
    (replaying : Recorded capacity Recording.Replays origin) :
    trail Operation.perform operations (origin.withHost host) =
      (trail Operation.perform operations origin).map fun outcome =>
        (outcome.1, outcome.2.withHost host) := by
  induction operations generalizing origin with
  | nil => rfl
  | cons operation rest ih =>
      obtain ⟨here, later⟩ := List.forall_mem_cons.mp goOn
      obtain ⟨answer, left, replaying'⟩ := operation_offline host here replaying
      show (_, _) :: trail _ _ _ = (_, _) :: List.map _ (trail _ _ _)
      rw [← ih later replaying', answer, left]

/-- **A replay leaves the host as it is.** -/
theorem host_stateAfter {operations : List Operation}
    (goOn : ∀ operation ∈ operations, operation.goesOn = true)
    (replaying : Recorded capacity Recording.Replays origin) :
    (stateAfter Operation.perform operations origin).own.host = origin.own.host := by
  induction operations generalizing origin with
  | nil => rfl
  | cons operation rest ih =>
      obtain ⟨here, later⟩ := List.forall_mem_cons.mp goOn
      obtain ⟨-, left, replaying'⟩ := operation_offline origin.own.host here replaying
      have same := congrArg (fun hypervisor : Hypervisor => hypervisor.own.host) left
      exact (ih later replaying').trans same

end Hypervisor

end NestedMachine
