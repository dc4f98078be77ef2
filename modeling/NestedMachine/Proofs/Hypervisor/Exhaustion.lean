import NestedMachine.Proofs.Hypervisor.Provenance
import NestedMachine.Proofs.Machine.Covers
import NestedMachine.Proofs.Machine.Footprint

/-!
# Whom the pool runs dry under

That the pool ran dry is an error that names a context.  Most of what a hypervisor does never fails
in this way, because a fork that finds too few frames is refused, and a program break that cannot be
moved stays (`Mild`).  Runs and system calls can, but the error names the caller, and not even the
caller if no page of its address space is missing (`Thrifty`, `Acquits`).

So whatever single event comes next, the pool does not run dry under a context that lacks no page
(`Event.clears`): neither in a slice of the context or in one of its system calls, nor in anything
that is done for others.
-/

namespace NestedMachine.Hypervisor

set_option autoImplicit false

variable {α β : Type} {id caller : ContextId}

/-! ## Actions that need no frames -/

/-- An action that fails only for other reasons than that the pool ran dry. -/
abbrev Mild (action : HypervisorAction α) : Prop :=
  Stays (fun error => ¬error.IsExhaustion) (fun _ => True) action

theorem mild_throw {error : HostError} (other : ∀ id pc, error ≠ .memoryExhausted id pc) :
    Mild (throw error : HypervisorAction α) :=
  .throw fun ⟨id, pc, same⟩ => other id pc same

theorem mild_modifyOwn (change : Supervisor → Supervisor) : Mild (modifyOwn change) :=
  .modify fun _ _ => trivial

theorem mild_note (happening : Note) : Mild (note happening) := .modify fun _ _ => trivial

theorem mild_requireOwned (id : ContextId) : Mild (requireOwned id) :=
  .get_bind fun _ => .ite (.pure _) (mild_throw nofun)

theorem mild_contextOf (id : ContextId) : Mild (contextOf id) := by
  apply Stays.get_bind
  intro look
  cases look.machine.context? id with
  | none => exact mild_throw nofun
  | some context => exact .pure context

theorem mild_modifyContext (id : ContextId) (change : Context → Context) :
    Mild (modifyContext id change) :=
  (mild_contextOf id).bind fun _ => .modify fun _ _ => trivial

theorem mild_onMemory (id : ContextId) (action : MemoryAction α) : Mild (onMemory id action) := by
  rintro ⟨machine, own⟩ -
  unfold onMemory
  dsimp only
  split
  · trivial
  · refine ⟨?_, trivial⟩
    rintro ⟨_, _, same⟩
    cases same

/-! ## Requests to the machine below -/

/-- Whoever asks, a request fails as it does at the interpreter or at a level. -/
theorem halts_below_pass {passage : Passage α} {request : InterpreterAction α} {origin : Hypervisor}
    {failed : HostError → Interpreter → Prop} {wanted : α → Interpreter → Prop}
    (refused : ∀ relay error, passage.enter relay = .error error →
      failed error origin.machine.interpreter)
    (requested : Halts failed wanted (request origin.machine.interpreter)) :
    Halts (fun error after => failed error after.machine.interpreter)
      (fun answer after => wanted answer after.machine.interpreter)
      (below (Machine.pass passage request) origin) := by
  obtain ⟨machine, own⟩ := origin
  have passed := Machine.halts_pass refused requested machine.relays
  unfold below
  dsimp only
  generalize Machine.pass passage request machine = result at passed
  cases result with
  | ok answer after => exact passed
  | error error after => exact passed

theorem mild_below {passage : Passage α} {request : InterpreterAction α}
    (refused : ∀ relay error, passage.enter relay = .error error → ¬error.IsExhaustion)
    (requested : ∀ interpreter, Halts (fun error _ => ¬error.IsExhaustion) (fun _ _ => True)
      (request interpreter)) : Mild (below (Machine.pass passage request)) := by
  intro origin _
  apply (halts_below_pass refused (requested origin.machine.interpreter)).mono
  · exact fun _ _ _ => trivial
  · exact fun _ _ other => ⟨other, trivial⟩

theorem unknown_not_exhaustion : ¬(HostError.unknownContext id).IsExhaustion :=
  fun ⟨_, _, same⟩ => nomatch same

/-- A level refuses a request because it does not know the context. -/
theorem not_exhaustion_of_requireHosted {relay : Relay} {error : HostError}
    (refused : relay.requireHosted id = .error error) : ¬error.IsExhaustion := by
  unfold Relay.requireHosted at refused
  split at refused
  · cases refused
  · obtain rfl := Except.error.inj refused
    exact unknown_not_exhaustion

theorem not_exhaustion_of_switch {relay : Relay} {error : HostError}
    (refused : (Passage.switch id).enter relay = .error error) : ¬error.IsExhaustion := by
  unfold Passage.switch at refused
  dsimp only at refused
  split at refused
  · cases refused
  · next same =>
      obtain rfl := Except.error.inj refused
      exact not_exhaustion_of_requireHosted same

theorem mild_release (id : ContextId) : Mild (below (Machine.release id)) := by
  apply mild_below fun _ _ => not_exhaustion_of_requireHosted
  intro interpreter
  cases found : interpreter.contexts[id]? with
  | none =>
      rw [Interpreter.release_of_none found]
      exact unknown_not_exhaustion
  | some context =>
      rw [Interpreter.release_of_some found]
      trivial

theorem mild_destroy (id : ContextId) : Mild (below (Machine.destroy id)) := by
  apply mild_below fun _ _ => not_exhaustion_of_requireHosted
  intro interpreter
  cases found : interpreter.contexts[id]? with
  | none =>
      rw [Interpreter.destroy_of_none found]
      exact unknown_not_exhaustion
  | some context =>
      rw [Interpreter.destroy_of_some found]
      trivial

/-- A fork that finds too few frames is refused. -/
theorem mild_fork (id : ContextId) : Mild (below (Machine.fork id)) := by
  apply mild_below fun _ _ => not_exhaustion_of_requireHosted
  intro interpreter
  have ends := interpreter.forkEnds id
  generalize Interpreter.fork id interpreter = result at ends ⊢
  cases ends with
  | missing => exact unknown_not_exhaustion
  | copied => trivial
  | refused => trivial

/-! ## How contexts begin and end -/

theorem mild_makeReady (id : ContextId) : Mild (makeReady id) :=
  (mild_modifyContext id _).bind fun _ => .get_bind fun _ => .ite (.pure _) (mild_modifyOwn _)

theorem mild_discard (id : ContextId) : Mild (discard id) :=
  (mild_destroy id).bind fun _ => (mild_modifyOwn _).bind fun _ => mild_modifyOwn _

theorem mild_wakeParent (parent child : ContextId) : Mild (wakeParent parent child) := by
  apply Stays.get_bind
  intro look
  split
  · exact .ite ((mild_note _).bind fun _ => mild_makeReady parent) (.pure ())
  · exact .pure ()

theorem mild_disown (child : ContextId) : Mild (disown child) := by
  apply Stays.get_bind
  intro look
  split
  · exact (mild_modifyContext child _).bind fun _ => .ite (mild_discard child) (mild_modifyOwn _)
  · exact .pure ()

theorem mild_disownAll (children : List ContextId) : Mild (disownAll children) := by
  induction children with
  | nil => exact .pure ()
  | cons child rest ih => exact (mild_disown child).bind fun _ => ih

theorem mild_settle (id : ContextId) (parent : Option ContextId) : Mild (settle id parent) := by
  apply Stays.get_bind
  intro look
  refine .ite ((mild_modifyOwn _).bind fun _ => mild_discard id) ?_
  cases parent with
  | none => exact .pure ()
  | some parent => exact mild_wakeParent parent id

theorem mild_terminate (id : ContextId) (status : ExitStatus) : Mild (terminate id status) := by
  refine (mild_release id).bind fun released => (mild_contextOf id).bind fun context => ?_
  refine (mild_modifyContext id _).bind fun _ => (mild_modifyOwn _).bind fun _ => ?_
  refine (mild_modifyOwn _).bind fun _ => (mild_note _).bind fun _ => ?_
  exact (mild_disownAll _).bind fun _ => mild_settle id _

theorem mild_handleFault (id : ContextId) (fault : Fault) (pc : UInt64) :
    Mild (handleFault id fault pc) := by
  refine (mild_modifyOwn _).bind fun _ => (mild_note _).bind fun _ => .get_bind fun look => ?_
  refine .ite ?_ (mild_terminate id _)
  exact (mild_modifyContext id _).bind fun _ => mild_modifyOwn _

theorem mild_kill (parent child : ContextId) : Mild (kill parent child) := by
  refine .get_bind fun look => .ite (.pure _) ?_
  refine (mild_contextOf child).bind fun context => .ite (.pure _) ?_
  exact (mild_terminate child .killed).bind fun _ => .pure _

theorem mild_reap (id : ContextId) : Mild (reap id) := by
  refine (mild_requireOwned id).bind fun _ => (mild_contextOf id).bind fun context => ?_
  exact .ite ((mild_discard id).bind fun _ => .pure _) (.pure _)

theorem mild_finalizeTrapped (id : ContextId) : Mild (finalizeTrapped id) := by
  refine (mild_requireOwned id).bind fun _ => (mild_contextOf id).bind fun context => ?_
  split
  · exact (mild_terminate id _).bind fun _ => .pure _
  · exact mild_throw nofun

theorem mild_requeue (id : ContextId) : Mild (requeue id) :=
  (mild_modifyOwn _).bind fun _ => .get_bind fun _ => .ite (mild_modifyOwn _) (.pure _)

theorem mild_nextReady : Mild nextReady :=
  Stays.bind (.modify fun _ _ => trivial) fun _ => .get_bind fun _ => .pure _

/-! ## System calls that need no frames -/

theorem mild_serveKill (id : ContextId) (call : Call) : Mild (serveKill id call) := by
  unfold serveKill
  cases contextNamed? call.first with
  | none => exact .pure _
  | some target => exact (mild_kill id target).bind fun _ => .pure _

/-- A program break that cannot be moved stays. -/
theorem mild_serveBreak (id : ContextId) (call : Call) : Mild (serveBreak id call) := by
  rw [serveBreak_eq]
  refine (mild_onMemory id _).bind fun answer => ?_
  cases answer with
  | error fault => exact .pure _
  | ok found =>
      obtain ⟨programBreak, refused⟩ := found
      cases refused with
      | none => exact .pure _
      | some fault => exact (mild_note _).bind fun _ => .pure _

theorem mild_serveFork (id : ContextId) : Mild (serveFork id) := by
  refine (mild_fork id).bind fun answer => ?_
  cases answer with
  | none => exact (mild_note _).bind fun _ => .pure _
  | some child =>
      refine (mild_modifyOwn _).bind fun _ => (mild_modifyOwn _).bind fun _ => ?_
      refine (mild_modifyContext child _).bind fun _ => (mild_makeReady child).bind fun _ => ?_
      exact (mild_note _).bind fun _ => .pure _

theorem mild_nextRecord (call : Call) (replayer : Replayer) : Mild (nextRecord call replayer) := by
  unfold nextRecord Replayer.next
  cases replayer.pending with
  | nil => exact mild_throw nofun
  | cons record rest =>
      dsimp only
      split
      · rename_i same
        split at same
        · exact (mild_modifyOwn _).bind fun _ => .pure _
        · cases same
      · rename_i same
        split at same
        · cases same
        · cases same
          exact mild_throw nofun

theorem mild_noteCompleted (call : Call) (outcome : Outcome) (data : Bytes) :
    Mild (noteCompleted call outcome data) := by
  unfold noteCompleted
  cases outcome.result? with
  | none => exact .pure _
  | some result =>
      apply Stays.get_bind
      intro look
      cases look.own.recording with
      | off => exact .pure _
      | record trace => exact mild_modifyOwn _
      | replay replayer =>
          refine (mild_nextRecord call replayer).bind fun _ => ?_
          exact .ite (mild_throw nofun) (.pure _)

/-! ## Accesses on behalf of a caller -/

/-- If the caller is a given context, it lacks no page. -/
def Supplied (id caller : ContextId) (hypervisor : Hypervisor) : Prop :=
  caller = id → hypervisor.machine.interpreter.Provided id

/-- An action on behalf of a caller leaves it as well supplied as it was, and its errors clear the
given context. -/
abbrev Thrifty (id caller : ContextId) (action : HypervisorAction α) : Prop :=
  Stays (·.Clears id) (Supplied id caller) action

theorem clears_of_not_exhaustion {error : HostError} (other : ¬error.IsExhaustion) :
    error.Clears id := fun pc same => other ⟨id, pc, same⟩

theorem thrifty_of_mild {action : HypervisorAction α} (mild : Mild action)
    (keeps : Keeps (Supplied id caller) action) : Thrifty id caller action := by
  intro origin supplied
  apply ((mild origin trivial).both (keeps origin supplied)).mono
  · exact fun _ _ given => given.2
  · exact fun _ _ given => ⟨clears_of_not_exhaustion given.1.1, given.2⟩

theorem thrifty_modifyOwn (change : Supervisor → Supervisor) :
    Thrifty id caller (modifyOwn change) :=
  .modify fun _ supplied => supplied

theorem thrifty_note (happening : Note) : Thrifty id caller (note happening) :=
  .modify fun _ supplied => supplied

theorem thrifty_askHost (request : Host → HostAnswer α) : Thrifty id caller (askHost request) :=
  fun _ supplied => supplied

theorem thrifty_contextOf (other : ContextId) : Thrifty id caller (contextOf other) :=
  thrifty_of_mild (mild_contextOf other) (keeps_contextOf other)

theorem thrifty_requireOwned (other : ContextId) : Thrifty id caller (requireOwned other) :=
  thrifty_of_mild (mild_requireOwned other) (keeps_requireOwned other)

theorem thrifty_setState (other : ContextId) (state : ContextState) :
    Thrifty id caller (setState other state) := by
  apply thrifty_of_mild (mild_modifyContext other _)
  intro origin supplied
  have same (machine : Machine) (space : ∀ id, Interpreter.spaceIn machine.interpreter.contexts id =
      Interpreter.spaceIn origin.machine.interpreter.contexts id) :
      Supplied id caller ⟨machine, origin.own⟩ :=
    fun here => (supplied here).of_undisturbed (space id)
  rw [modifyContext_apply]
  cases origin.machine.context? other with
  | none => exact supplied
  | some context =>
      apply same
      unfold Machine.modifyContext
      split
      · exact Interpreter.spaceIn_modify fun _ => rfl
      · exact fun _ => rfl

theorem thrifty_nextRecord (call : Call) (replayer : Replayer) :
    Thrifty id caller (nextRecord call replayer) := by
  refine thrifty_of_mild (mild_nextRecord call replayer) ?_
  unfold nextRecord
  cases replayer.next call.pc call.number with
  | ok answer after => exact Keeps.bind (.modify fun _ supplied => supplied) fun _ => .pure _
  | error error after => exact .throw _

/-- A context that lacks no page runs without needing frames. -/
theorem halts_switch_provided {origin : Hypervisor}
    (provided : origin.machine.interpreter.Provided id) (quantum : Nat) :
    Halts
      (fun error after => error.Clears id ∧
        Interpreter.Undisturbed id origin.machine.interpreter after.machine.interpreter)
      (fun _ after =>
        Interpreter.Undisturbed id origin.machine.interpreter after.machine.interpreter)
      (below (Machine.switch id quantum) origin) := by
  refine halts_below_pass (fun relay error entry => ⟨?_, rfl⟩) (provided.switch quantum)
  exact clears_of_not_exhaustion (not_exhaustion_of_switch entry)

/-- The memory of a context that lacks no page is accessed without needing frames. -/
theorem halts_onMemory_provided {origin : Hypervisor} {action : MemoryAction α}
    (provided : origin.machine.interpreter.Provided id) (frugal : Memory.Frugal action) :
    Halts
      (fun error after => error.Clears id ∧
        Interpreter.Undisturbed id origin.machine.interpreter after.machine.interpreter)
      (fun answer after => answer ≠ .error .outOfFrames ∧
        Interpreter.Undisturbed id origin.machine.interpreter after.machine.interpreter)
      (onMemory id action origin) := by
  obtain ⟨machine, own⟩ := origin
  have viewed : (machine.withMemory id action).1 ≠ some (.error .outOfFrames) ∧
      Interpreter.Undisturbed id machine.interpreter
        (machine.withMemory id action).2.interpreter := by
    unfold Machine.withMemory
    split
    · exact provided.withMemory frugal
    · exact ⟨nofun, rfl⟩
  unfold onMemory
  dsimp only
  generalize machine.withMemory id action = result at viewed
  obtain ⟨answer, after⟩ := result
  cases answer with
  | none => exact ⟨nofun, viewed.2⟩
  | some answer => exact ⟨fun dry => viewed.1 (congrArg some dry), viewed.2⟩

/-- Where the caller is not the given context, nothing has to be supplied. -/
theorem keeps_supplied_of_ne (different : caller ≠ id) (action : HypervisorAction α) :
    Keeps (Supplied id caller) action :=
  fun _ _ => .of_finalState fun same => absurd same different

/-- A run of the caller. -/
theorem thrifty_switch (caller : ContextId) (quantum : Nat) :
    Thrifty id caller (below (Machine.switch caller quantum)) := by
  intro origin supplied
  by_cases same : caller = id
  · subst same
    have provided := supplied rfl
    apply (halts_switch_provided provided quantum).mono
    · exact fun _ _ undisturbed _ => provided.of_undisturbed undisturbed
    · exact fun _ _ given => ⟨given.1, fun _ => provided.of_undisturbed given.2⟩
  · have refused (relay : Relay) (error : HostError)
        (entry : (Passage.switch caller).enter relay = .error error) : error.Clears id :=
      clears_of_not_exhaustion (not_exhaustion_of_switch entry)
    have named := halts_below_pass refused
      (Interpreter.clears_switch same origin.machine.interpreter quantum)
    have kept := keeps_supplied_of_ne same (below (Machine.switch caller quantum)) origin supplied
    exact (named.both kept).mono (fun _ _ given => given.2) fun _ _ given => given

/-- An access to the memory of the caller. -/
theorem thrifty_callerMemory (id caller : ContextId) (call : Call) {action : MemoryAction α}
    (frugal : Memory.Frugal action) : Thrifty id caller (onCallerMemory caller call action) := by
  intro origin supplied
  by_cases same : caller = id
  · subst same
    have provided := supplied rfl
    have accessed := (halts_onMemory_provided provided frugal).mono (fun _ _ given => given)
      fun _ _ given => show _ ∧ Supplied caller caller _ from
        ⟨given.1, fun _ => provided.of_undisturbed given.2⟩
    apply accessed.bind
    rintro answer after ⟨found, undisturbed⟩
    split
    · exact absurd rfl found
    · exact fun _ => provided.of_undisturbed undisturbed
  · have accessed := thrifty_of_mild (mild_onMemory caller action) (keeps_supplied_of_ne same _)
    refine (accessed origin supplied).bind fun answer after kept => ?_
    split
    · refine ⟨fun pc named => same ?_, kept⟩
      cases named
      rfl
    · exact kept

/-! ## System calls -/

theorem CallAccess.frugal {action : MemoryAction α} (access : CallAccess action) :
    Memory.Frugal action := by
  intro space full
  cases access with
  | checkRange address size access => exact full.sheltered.checkRange address size access
  | store address value => exact full.sheltered.store address value
  | readBytes address size => exact full.sheltered.readBytes address size
  | writeBytes address bytes => exact full.sheltered.writeBytes address bytes
  | readString address limit => exact full.sheltered.readString address limit

/-- Calls that reach the host need no frames if the caller lacks no page. -/
theorem attended_supplied (id caller : ContextId) :
    Attended caller (·.Clears id) (Supplied id caller) where
  note := thrifty_note
  record _ := thrifty_modifyOwn _
  host := thrifty_askHost
  memory call _ _ access := thrifty_callerMemory id caller call access.frugal
  next := thrifty_nextRecord

/-- The errors of an action on behalf of a caller clear the given context, whatever becomes of the
caller. -/
abbrev Acquits (id caller : ContextId) (action : HypervisorAction α) : Prop :=
  Ensures (·.Clears id) (Supplied id caller) action fun _ _ => True

theorem Mild.ends {action : HypervisorAction α} (mild : Mild action) (origin : Hypervisor) :
    Ends (·.Clears id) (fun _ _ => True) (action origin) :=
  ends_iff_halts.mpr ((mild origin trivial).mono (fun _ _ _ => trivial)
    fun _ _ given => clears_of_not_exhaustion given.1)

theorem Mild.acquits {action : HypervisorAction α} (mild : Mild action) :
    Acquits id caller action := fun origin _ => mild.ends origin

namespace Acquits

theorem pure (answer : α) : Acquits id caller (pure answer) := fun _ _ => trivial

theorem get_bind {next : Hypervisor → HypervisorAction α}
    (rest : ∀ look, Acquits id caller (next look)) : Acquits id caller (get >>= next) :=
  fun origin supplied => rest origin origin supplied

theorem ite {condition : Prop} [Decidable condition] {action other : HypervisorAction α}
    (yes : Acquits id caller action) (no : Acquits id caller other) :
    Acquits id caller (if condition then action else other) :=
  Ensures.ite (fun _ => yes) fun _ => no

/-- Once the caller has been served, only what needs no frames may follow. -/
theorem bind_mild {action : HypervisorAction α} {next : α → HypervisorAction β}
    (first : Acquits id caller action) (rest : ∀ answer, Mild (next answer)) :
    Acquits id caller (action >>= next) :=
  Ensures.bind first fun answer origin _ => (rest answer).ends origin

end Acquits

namespace Thrifty

theorem acquits {action : HypervisorAction α} (thrifty : Thrifty id caller action) :
    Acquits id caller action :=
  thrifty.ensures.post fun _ _ _ => trivial

/-- While the caller is as well supplied as before, it may be served. -/
theorem bind_acquits {action : HypervisorAction α} {next : α → HypervisorAction β}
    (thrifty : Thrifty id caller action) (rest : ∀ answer, Acquits id caller (next answer)) :
    Acquits id caller (action >>= next) :=
  thrifty.ensures.bind rest

end Thrifty

theorem acquits_serveWait (caller : ContextId) (call : Call) :
    Acquits id caller (serveWait caller call) := by
  refine (thrifty_contextOf caller).bind_acquits fun context => ?_
  refine .ite (.pure _) (.get_bind fun look => ?_)
  cases firstEnded look.machine _ with
  | none => exact .pure _
  | some ended =>
      obtain ⟨child, status⟩ := ended
      have rest : Mild (do
          let _ ← Hypervisor.reap child
          return (Outcome.answer (Int64.ofNat child))) :=
        (mild_reap child).bind fun _ => .pure _
      refine .ite ?_ rest.acquits
      have stores := (attended_supplied id caller).memory call
        (.store call.second.toNat status.code.toUInt64)
      refine Thrifty.bind_acquits stores fun stored => ?_
      cases stored with
      | ok _ => exact rest.acquits
      | error fault => exact .pure _

theorem acquits_serve (caller : ContextId) (call : Call) (kind : Option SystemCall) :
    Acquits id caller (serve caller call kind) := by
  have attended := attended_supplied id caller
  cases kind with
  | none => exact .pure _
  | some kind =>
      cases kind with
      | read => exact Thrifty.acquits (attended.serveRead call)
      | write => exact (Thrifty.acquits (attended.serveWrite call)).bind_mild fun _ => .pure _
      | openFile => exact (Thrifty.acquits (attended.serveOpen call)).bind_mild fun _ => .pure _
      | exit => exact .pure _
      | yield => exact .pure _
      | kill => exact (mild_serveKill caller call).acquits.bind_mild fun _ => .pure _
      | setBreak => exact (mild_serveBreak caller call).acquits.bind_mild fun _ => .pure _
      | fork => exact (mild_serveFork caller).acquits.bind_mild fun _ => .pure _
      | wait => exact (acquits_serveWait caller call).bind_mild fun _ => .pure _

theorem acquits_perform (caller : ContextId) (call : Call) (kind : Option SystemCall) :
    Acquits id caller (dispatch.perform caller call kind) :=
  (acquits_serve caller call kind).bind_mild fun served =>
    (mild_noteCompleted call served.1 served.2).bind fun _ => .pure _

/-- **System calls run dry under nobody but the caller**, and not under a caller that lacks no
page. -/
theorem acquits_dispatch (caller : ContextId) : Acquits id caller (dispatch caller) := by
  refine (thrifty_contextOf caller).bind_acquits fun context => ?_
  refine (thrifty_modifyOwn _).bind_acquits fun _ => (thrifty_note _).bind_acquits fun _ => ?_
  refine .get_bind fun look => ?_
  split
  · have attended := attended_supplied id caller
    exact .ite (Thrifty.acquits (attended.replayHostCall _ _ _)) (acquits_perform _ _ _)
  · exact acquits_perform _ _ _

theorem acquits_serviceCall (caller : ContextId) : Acquits id caller (serviceCall caller) := by
  refine (thrifty_setState caller _).bind_acquits fun _ => ?_
  refine (thrifty_contextOf caller).bind_acquits fun context => ?_
  refine (acquits_dispatch caller).bind_mild fun outcome => ?_
  cases outcome with
  | answer value => exact (mild_modifyContext caller _).bind fun _ => mild_makeReady caller
  | exit code => exact (mild_modifyContext caller _).bind fun _ => mild_terminate caller _
  | block reason => exact mild_modifyContext caller _
  | fault fault => exact mild_handleFault caller fault _

/-! ## Turns -/

theorem acquits_handleTrap (caller : ContextId) (trap : Trap) :
    Acquits id caller (handleTrap caller trap) := by
  cases trap with
  | timerInterrupt =>
      exact Mild.acquits ((mild_modifyOwn _).bind fun _ => mild_makeReady caller)
  | environmentCall => exact acquits_serviceCall caller
  | fault fault pc => exact (mild_handleFault caller fault pc).acquits

theorem acquits_slice (caller : ContextId) (quantum : Nat) :
    Acquits id caller (slice caller quantum) := by
  refine (thrifty_requireOwned caller).bind_acquits fun _ => ?_
  refine (thrifty_contextOf caller).bind_acquits fun context => ?_
  refine .ite (mild_throw (by rintro _ _ ⟨⟩)).acquits ?_
  refine (thrifty_setState caller _).bind_acquits fun _ => ?_
  refine (thrifty_modifyOwn _).bind_acquits fun _ => .get_bind fun look => ?_
  refine (thrifty_note _).bind_acquits fun _ => ?_
  refine (thrifty_switch caller quantum).bind_acquits fun trap => ?_
  exact (acquits_handleTrap caller trap).bind_mild fun _ => .pure _

theorem acquits_step (caller : ContextId) : Acquits id caller (step caller) := by
  have live : Acquits id caller (stepLive caller) := by
    refine (thrifty_setState caller _).bind_acquits fun _ => ?_
    refine (thrifty_switch caller 1).bind_acquits fun trap => ?_
    cases trap with
    | timerInterrupt => exact Mild.acquits ((mild_makeReady caller).bind fun _ => .pure none)
    | environmentCall => exact (acquits_handleTrap caller _).bind_mild fun _ => .pure _
    | fault fault pc => exact (acquits_handleTrap caller _).bind_mild fun _ => .pure _
  refine (thrifty_requireOwned caller).bind_acquits fun _ => ?_
  refine (thrifty_contextOf caller).bind_acquits fun context => ?_
  split
  · exact .pure none
  · exact live
  · exact live
  · exact (mild_throw (by rintro _ _ ⟨⟩)).acquits

/-! ## Whatever happens -/

/-- Whoever may be supplied is supplied if the given context is. -/
theorem Acquits.any {action : HypervisorAction α} (acquits : Acquits id caller action) :
    Acquits id id action :=
  acquits.pre fun _ supplied _ => supplied rfl

theorem acquits_scheduleOnce : Acquits id id scheduleOnce := by
  have next : Thrifty id id nextReady :=
    thrifty_of_mild mild_nextReady
      (Keeps.bind (.modify fun _ supplied => supplied) fun _ => .get_bind fun _ => .pure _)
  refine next.bind_acquits fun found => ?_
  cases found with
  | none => exact .pure none
  | some other =>
      refine (thrifty_modifyOwn _).bind_acquits fun _ => .get_bind fun look => ?_
      exact (acquits_slice other _).any.bind_mild fun _ => .pure _

/-- A program that is loaded may run out of frames, but it has a number of its own. -/
theorem clears_create {origin : Hypervisor} (old : id < origin.machine.interpreter.nextId)
    (image : Image) (options : LoadOptions) :
    Ends (·.Clears id) (fun _ _ => True) (below (Machine.create image options) origin) :=
  ends_iff_halts.mpr (halts_below_pass (fun _ _ refused => nomatch refused)
    (Interpreter.clears_create old.ne image options))

theorem clears_load {origin : Hypervisor} (old : id < origin.machine.interpreter.nextId)
    (image : Image) (arguments : List String) :
    Ends (·.Clears id) (fun _ _ => True) (load image arguments origin) := by
  apply ends_iff_halts.mpr
  apply Halts.get_bind
  apply (ends_iff_halts.mp (clears_create old image _)).bind
  intro number created _
  have rest : Mild (do
      modifyOwn fun own => { own with owned := own.owned.insert number }
      enqueue number
      count fun counters => { counters with contextsCreated := counters.contextsCreated + 1 }
      note (.levelLoaded (← get).level number)
      return number) := by
    refine (mild_modifyOwn _).bind fun _ => (mild_modifyOwn _).bind fun _ => ?_
    refine (mild_modifyOwn _).bind fun _ => .get_bind fun look => ?_
    exact (mild_note _).bind fun _ => .pure number
  exact ends_iff_halts.mp (rest.ends created)

variable {origin : Hypervisor}

/-- **No single operation runs dry under a context that lacks no page.** -/
theorem Operation.ends (provided : origin.machine.interpreter.Provided id)
    (old : id < origin.machine.interpreter.nextId) {operation : Operation}
    (single : operation.single = true) :
    Ends (·.Clears id) (fun _ _ => True) (operation.perform origin) := by
  have whole {α : Type} {action : HypervisorAction α} {answer : α → Answer}
      (acquits : Acquits id id action) : Ends (·.Clears id) (fun _ _ => True)
        ((action >>= fun given => pure (answer given)) origin) :=
    acquits.bind_mild (fun _ => .pure _) origin fun _ => provided
  have look {α : Type} (other : ContextId) (view : Context → α) : Mild (do
      requireOwned other
      return view (← contextOf other)) :=
    (mild_requireOwned other).bind fun _ => (mild_contextOf other).bind fun _ => .pure _
  cases operation with
  | load image arguments =>
      have loaded := ends_iff_halts.mp (clears_load old image arguments)
      exact ends_iff_halts.mpr (loaded.bind fun _ _ _ => trivial)
  | run rounds other => cases single
  | runAll rounds => cases single
  | scheduleOnce => exact whole acquits_scheduleOnce
  | slice other quantum => exact whole (acquits_slice other quantum).any
  | step other => exact whole (acquits_step other).any
  | kill parent child => exact whole (mild_kill parent child).acquits
  | reap other => exact whole (mild_reap other).acquits
  | finalizeTrapped other => exact whole (mild_finalizeTrapped other).acquits
  | requeue other => exact whole (mild_requeue other).acquits
  | nextReady => exact whole mild_nextReady.acquits
  | snapshot other => exact whole (look other _).acquits
  | pcOf other => exact whole (look other _).acquits
  | exitStatusOf other => exact whole (look other _).acquits
  | access other request =>
      have access : Mild (guestMemory other request.perform) :=
        (mild_requireOwned other).bind fun _ => mild_onMemory other _
      exact whole access.acquits
  | setMemoryMode mode => exact whole (mild_modifyOwn _).acquits
  | setDebugTraps debugTraps => exact whole (mild_modifyOwn _).acquits
  | startRecording => exact whole (mild_modifyOwn _).acquits
  | startReplay trace => exact whole (mild_modifyOwn _).acquits
  | takeTrace =>
      have take : Mild Hypervisor.takeTrace := by
        refine .get_bind fun look => ?_
        split
        · exact (mild_modifyOwn _).bind fun _ => .pure _
        · exact .pure none
      exact whole take.acquits

/-- Requests of the level above fail as those to the machine below do. -/
theorem ends_fromAbove {passage : Passage α} {request : InterpreterAction α}
    (refused : ∀ relay error, passage.enter relay = .error error → error.Clears id)
    (ends : Ends (·.Clears id) (fun _ _ => True) (below (Machine.pass passage request) origin))
    (answer : α → β) : Ends (·.Clears id) (fun _ _ => True)
      ((do return answer (← fromAbove (Machine.pass passage request))) origin) := by
  have passed : Halts (fun error _ => error.Clears id) (fun _ _ => True)
      (fromAbove (Machine.pass passage request) origin) :=
    halts_fromAbove (fun error entry => refused _ error entry) fun _ _ => ends_iff_halts.mp ends
  exact ends_iff_halts.mpr (passed.bind fun _ _ _ => trivial)

theorem Request.ends (provided : origin.machine.interpreter.Provided id)
    (old : id < origin.machine.interpreter.nextId) (request : Request) :
    Ends (·.Clears id) (fun _ _ => True) (request.perform origin) := by
  have supplied : Supplied id id origin := fun _ => provided
  have refused {other : ContextId} (relay : Relay) (error : HostError)
      (entry : relay.requireHosted other = .error error) : error.Clears id :=
    clears_of_not_exhaustion (not_exhaustion_of_requireHosted entry)
  cases request with
  | create image options =>
      exact ends_fromAbove (by rintro _ _ ⟨⟩) (clears_create old image options) _
  | fork parent => exact ends_fromAbove refused ((mild_fork parent).acquits origin supplied) _
  | destroy other => exact ends_fromAbove refused ((mild_destroy other).acquits origin supplied) _
  | release other => exact ends_fromAbove refused ((mild_release other).acquits origin supplied) _
  | switch other quantum =>
      refine ends_fromAbove (fun _ _ entry => ?_)
        ((thrifty_switch other quantum).acquits.any origin supplied) _
      exact clears_of_not_exhaustion (not_exhaustion_of_switch entry)
  | access other request => trivial
  | alter other change => trivial

/-- **Whatever single event comes next**, the pool does not run dry under a context that lacks no
page. -/
theorem Event.clears (provided : origin.machine.interpreter.Provided id)
    (old : id < origin.machine.interpreter.nextId) {event : Event} (single : event.Single)
    (pc : UInt64) : answerOf (event.perform origin) ≠ .error (.memoryExhausted id pc) := by
  have ends : Ends (·.Clears id) (fun _ _ => True) (event.perform origin) := by
    apply ends_iff_halts.mpr
    cases event with
    | operation asked =>
        exact (ends_iff_halts.mp (asked.ends provided old single)).bind fun _ _ _ => trivial
    | request asked =>
        exact (ends_iff_halts.mp (asked.ends provided old)).bind fun _ _ _ => trivial
    | resume => exact single.elim
  generalize event.perform origin = result at ends
  cases result with
  | ok answer after => exact nofun
  | error error after => exact fun same => ends pc (Except.error.inj same)

end NestedMachine.Hypervisor
