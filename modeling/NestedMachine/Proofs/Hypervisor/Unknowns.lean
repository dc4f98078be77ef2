import NestedMachine.Proofs.Ensures
import NestedMachine.Proofs.Hypervisor.Following

/-!
# Whom an error calls unknown

An error can say that a context is unknown.  It is raised where a context is looked up that is not
there, where one is asked about that is not owned, and where a level refuses a request about one
that it does not host.  Whether a context is owned is asked about the one whose turn it is, and
about a child of it that is to be removed.  Nothing is done after that, so in the end the context is
still unknown (`Truthful`).  This holds of every part of a turn, and so of turns
(`truthful_scheduleOnce`), whatever the state that they begin in.
-/

namespace NestedMachine

set_option autoImplicit false

variable {α β : Type} {id : ContextId}

/-! ## Errors of the machine below -/

/-- An error is about an unknown context only if nobody can see it. -/
def HostError.TrueOf (machine : Machine) (error : HostError) : Prop :=
  ∀ id, error = .unknownContext id → machine.context? id = none

/-- A request about a context passes a level that hosts the context, and no other. -/
structure Passage.Concerns (passage : Passage α) (id : ContextId) : Prop where
  admitted : ∀ relay entered, passage.enter relay = .ok entered → entered.hosted = relay.hosted
  refused : ∀ relay error, passage.enter relay = .error error →
    error = .unknownContext id ∧ relay.hosts id = false

theorem Relay.of_requireHosted_ok {relay entered : Relay}
    (admitted : relay.requireHosted id = .ok entered) : entered = relay := by
  unfold requireHosted at admitted
  split at admitted <;> cases admitted
  rfl

theorem Relay.of_requireHosted_error {relay : Relay} {error : HostError}
    (refused : relay.requireHosted id = .error error) :
    error = .unknownContext id ∧ relay.hosts id = false := by
  unfold requireHosted at refused
  split at refused <;> cases refused
  exact ⟨rfl, Bool.eq_false_iff.mpr ‹_›⟩

/-- A request that every level either passes on or refuses, as it hosts the context or not. -/
theorem Passage.Concerns.of_requireHosted {passage : Passage α}
    (same : ∀ relay, passage.enter relay = relay.requireHosted id) : passage.Concerns id where
  admitted relay entered admitted := by
    rw [Relay.of_requireHosted_ok ((same relay).symm.trans admitted)]
  refused relay error refused := Relay.of_requireHosted_error ((same relay).symm.trans refused)

theorem Passage.Concerns.switch (id : ContextId) : (Passage.switch id).Concerns id where
  admitted relay entered admitted := by
    unfold Passage.switch at admitted
    dsimp only at admitted
    split at admitted <;> cases admitted
    rename_i passed
    rw [Relay.of_requireHosted_ok passed]
    rfl
  refused relay error refused := by
    unfold Passage.switch at refused
    dsimp only at refused
    split at refused <;> cases refused
    rename_i declined
    exact Relay.of_requireHosted_error declined

/-- **Whom a request finds unknown nobody can see**, whatever level says so. -/
theorem Machine.trueOf_pass {passage : Passage α} {request : InterpreterAction α}
    (concerns : passage.Concerns id)
    (requested : ∀ interpreter, Halts (fun error after => ∀ other, error = .unknownContext other →
      other = id ∧ after.contexts[id]? = none) (fun _ _ => True) (request interpreter))
    (machine : Machine) :
    Halts (fun error after => error.TrueOf after) (fun _ _ => True)
      (pass passage request machine) := by
  obtain ⟨relays, interpreter⟩ := machine
  unfold pass
  dsimp only
  -- Levels that have passed the request on host whom they did, so that the context is hidden by the
  -- level that refuses it, or is not there.
  have hidden : ∀ error after interpreter', descend passage request relays interpreter =
      (.error error, after, interpreter') →
      ∀ other, error = .unknownContext other →
        other = id ∧ (after.all (·.hosts id) = false ∨ interpreter'.contexts[id]? = none) := by
    induction relays with
    | nil =>
        intro error after interpreter' descent other same
        have outcome := requested interpreter
        rw [descend] at descent
        generalize request interpreter = result at descent outcome
        cases result with
        | ok answer middle => cases descent
        | error failed middle =>
            cases descent
            exact (outcome other same).imp_right .inr
    | cons relay rest ih =>
        intro error after interpreter' descent other same
        rw [descend] at descent
        cases entry : passage.enter relay with
        | error refusal =>
            rw [entry] at descent
            cases descent
            obtain ⟨named, absent⟩ := concerns.refused relay _ entry
            refine ⟨HostError.unknownContext.inj (same.symm.trans named), .inl ?_⟩
            rw [List.all_cons, absent, Bool.false_and]
        | ok entered =>
            rw [entry] at descent
            dsimp only at descent
            generalize outcome : descend passage request rest interpreter = result at descent
            obtain ⟨answer, rest', middle⟩ := result
            cases answer with
            | ok answer => cases descent
            | error failed =>
                cases descent
                obtain ⟨named, absent⟩ := ih _ _ _ outcome other same
                refine ⟨named, absent.imp_left fun absent => ?_⟩
                rw [List.all_cons, absent, Bool.and_false]
  generalize descent : descend passage request relays interpreter = result
  obtain ⟨answer, after, interpreter'⟩ := result
  cases answer with
  | ok answer => trivial
  | error error =>
      intro other same
      obtain ⟨rfl, absent⟩ := hidden error after interpreter' descent other same
      unfold context?
      rcases absent with unhosted | missing
      · rw [if_neg]
        exact fun hosted => Bool.false_ne_true (unhosted.symm.trans hosted)
      · split
        · exact missing
        · rfl

namespace Hypervisor

variable {caller : ContextId}

/-! ## Truthful actions -/

/-- A context cannot be seen, or it is not owned: the caller, or a child of the caller. -/
def Unknown (caller : ContextId) (hypervisor : Hypervisor) (id : ContextId) : Prop :=
  hypervisor.machine.context? id = none ∨ id ∉ hypervisor.own.owned ∧
    (id = caller ∨ ∃ context, hypervisor.machine.context? caller = some context ∧
      id ∈ context.children)

/-- An action on behalf of a context fails because a context is unknown only if the context is
unknown in the end. -/
def Truthful (caller : ContextId) (action : HypervisorAction α) : Prop :=
  ∀ origin, Halts (fun error after => ∀ id, error = .unknownContext id → Unknown caller after id)
    (fun _ _ => True) (action origin)

namespace Truthful

theorem pure (answer : α) : Truthful caller (pure answer) := fun _ => trivial

theorem throw {error : HostError} (other : ∀ id, error ≠ .unknownContext id) :
    Truthful caller (throw error : HypervisorAction α) := fun _ id same => absurd same (other id)

theorem bind {action : HypervisorAction α} {next : α → HypervisorAction β}
    (first : Truthful caller action) (rest : ∀ answer, Truthful caller (next answer)) :
    Truthful caller (action >>= next) :=
  fun origin => (first origin).bind fun answer middle _ => rest answer middle

theorem get_bind {next : Hypervisor → HypervisorAction α}
    (rest : ∀ look, Truthful caller (next look)) : Truthful caller (get >>= next) :=
  fun origin => rest origin origin

theorem ite {condition : Prop} [Decidable condition] {action other : HypervisorAction α}
    (yes : Truthful caller action) (no : Truthful caller other) :
    Truthful caller (if condition then action else other) := by
  split
  · exact yes
  · exact no

theorem modify (change : Hypervisor → Hypervisor) :
    Truthful caller (modify change : HypervisorAction PUnit) := fun _ => trivial

/-- What the machine below finds unknown is unknown to the hypervisor. -/
theorem below {action : MachineAction α}
    (told : ∀ machine, Halts (fun error after => error.TrueOf after) (fun _ _ => True)
      (action machine)) : Truthful caller (Hypervisor.below action) := by
  rintro ⟨machine, own⟩
  have outcome := told machine
  unfold Hypervisor.below
  dsimp only
  generalize action machine = result at outcome
  cases result with
  | ok answer after => trivial
  | error error after => exact fun id same => .inl (outcome id same)

end Truthful

theorem truthful_modifyOwn (change : Supervisor → Supervisor) :
    Truthful caller (modifyOwn change) :=
  .modify _

theorem truthful_note (happening : Note) : Truthful caller (note happening) := .modify _

theorem truthful_requireOwned (id : ContextId) : Truthful id (requireOwned id) := by
  intro origin
  rw [requireOwned_apply]
  split
  · trivial
  · rename_i foreign
    rintro _ ⟨⟩
    exact .inr ⟨fun owned => foreign (Std.TreeSet.mem_iff_contains.mp owned), .inl rfl⟩

theorem truthful_contextOf (id : ContextId) : Truthful caller (contextOf id) := by
  intro origin
  rw [contextOf_apply]
  cases found : origin.machine.context? id with
  | some context => trivial
  | none =>
      rintro _ ⟨⟩
      exact .inl found

theorem truthful_modifyContext (id : ContextId) (change : Context → Context) :
    Truthful caller (modifyContext id change) :=
  (truthful_contextOf id).bind fun _ => .modify _

/-- A context that can be seen has the children that it had. -/
def SameChildren (id : ContextId) (origin after : Hypervisor) : Prop :=
  ∀ context, origin.machine.context? id = some context →
    ∃ accessed, after.machine.context? id = some accessed ∧ accessed.children = context.children

/-- An access to the memory of a context does not concern its children. -/
theorem halts_onMemory (id : ContextId) (action : MemoryAction α) (origin : Hypervisor) :
    Halts (fun error after => ∀ other, error = .unknownContext other → Unknown caller after other)
      (fun _ after => SameChildren id origin after) (onMemory id action origin) := by
  obtain ⟨machine, own⟩ := origin
  unfold onMemory Machine.withMemory
  by_cases hosted : machine.hosts id = true
  · have seen (interpreter : Interpreter) :
        Machine.context? ⟨machine.relays, interpreter⟩ id = interpreter.contexts[id]? :=
      if_pos hosted
    cases found : machine.interpreter.contexts[id]? with
    | some context =>
        simp only [hosted, if_true, Interpreter.withMemory_of_some found]
        intro before same
        obtain rfl := Option.some.inj (found.symm.trans ((seen _).symm.trans same))
        simp only [seen, Interpreter.keepMemory, Table.getElem?_insert, if_true]
        exact ⟨_, rfl, rfl⟩
    | none =>
        simp only [hosted, if_true, Interpreter.withMemory_of_none found]
        rintro _ ⟨⟩
        exact .inl ((seen _).trans found)
  · simp only [hosted]
    rintro _ ⟨⟩
    exact .inl (if_neg hosted)

theorem truthful_onMemory (id : ContextId) (action : MemoryAction α) :
    Truthful caller (onMemory id action) :=
  fun origin => (halts_onMemory id action origin).mono (fun _ _ _ => trivial)
    fun _ _ unknown => unknown

theorem halts_onCallerMemory (id : ContextId) (call : Call) (action : MemoryAction α)
    (origin : Hypervisor) :
    Halts (fun error after => ∀ other, error = .unknownContext other → Unknown caller after other)
      (fun _ after => SameChildren id origin after) (onCallerMemory id call action origin) := by
  refine (halts_onMemory id action origin).bind fun answer middle same => ?_
  split
  · exact fun _ named => nomatch named
  · exact same

theorem truthful_onCallerMemory (id : ContextId) (call : Call) (action : MemoryAction α) :
    Truthful caller (onCallerMemory id call action) :=
  fun origin => (halts_onCallerMemory id call action origin).mono (fun _ _ _ => trivial)
    fun _ _ unknown => unknown

theorem truthful_askHost (request : Host → HostAnswer α) : Truthful caller (askHost request) :=
  fun _ => trivial

/-! ## Requests to the machine below -/

theorem truthful_release (id : ContextId) : Truthful caller (below (Machine.release id)) := by
  refine .below (Machine.trueOf_pass (.of_requireHosted fun _ => rfl) fun interpreter => ?_)
  cases found : interpreter.contexts[id]? with
  | none =>
      rw [Interpreter.release_of_none found]
      rintro _ ⟨⟩
      exact ⟨rfl, found⟩
  | some context =>
      rw [Interpreter.release_of_some found]
      trivial

theorem truthful_destroy (id : ContextId) : Truthful caller (below (Machine.destroy id)) := by
  refine .below (Machine.trueOf_pass (.of_requireHosted fun _ => rfl) fun interpreter => ?_)
  cases found : interpreter.contexts[id]? with
  | none =>
      rw [Interpreter.destroy_of_none found]
      rintro _ ⟨⟩
      exact ⟨rfl, found⟩
  | some context =>
      rw [Interpreter.destroy_of_some found]
      trivial

theorem truthful_fork (id : ContextId) : Truthful caller (below (Machine.fork id)) := by
  refine .below (Machine.trueOf_pass (.of_requireHosted fun _ => rfl) fun interpreter => ?_)
  have ends := interpreter.forkEnds id
  generalize Interpreter.fork id interpreter = result at ends ⊢
  cases ends with
  | missing missing =>
      rintro _ ⟨⟩
      exact ⟨rfl, missing⟩
  | copied => trivial
  | refused => trivial

theorem truthful_switch (id : ContextId) (quantum : Nat) :
    Truthful caller (below (Machine.switch id quantum)) := by
  refine .below (Machine.trueOf_pass (.switch id) fun interpreter => ?_)
  have ends := interpreter.switchEnds id quantum
  generalize Interpreter.switch id quantum interpreter = result at ends ⊢
  cases ends with
  | missing missing =>
      rintro _ ⟨⟩
      exact ⟨rfl, missing⟩
  | exited _ _ => exact fun _ same => nomatch same
  | trapped => trivial
  | ranDry _ _ _ => exact fun _ same => nomatch same

/-! ## How contexts begin and end -/

theorem truthful_makeReady (id : ContextId) : Truthful caller (makeReady id) :=
  (truthful_modifyContext id _).bind fun _ => .get_bind fun _ => .ite (.pure _) (.modify _)

theorem truthful_discard (id : ContextId) : Truthful caller (discard id) :=
  (truthful_destroy id).bind fun _ => Truthful.bind (.modify _) fun _ => .modify _

theorem truthful_wakeParent (parent child : ContextId) :
    Truthful caller (wakeParent parent child) := by
  apply Truthful.get_bind
  intro look
  split
  · exact .ite ((truthful_note _).bind fun _ => truthful_makeReady parent) (.pure ())
  · exact .pure ()

theorem truthful_disown (child : ContextId) : Truthful caller (disown child) := by
  apply Truthful.get_bind
  intro look
  split
  · exact (truthful_modifyContext child _).bind fun _ => .ite (truthful_discard child) (.modify _)
  · exact .pure ()

theorem truthful_disownAll (children : List ContextId) : Truthful caller (disownAll children) := by
  induction children with
  | nil => exact .pure ()
  | cons child rest ih => exact (truthful_disown child).bind fun _ => ih

theorem truthful_settle (id : ContextId) (parent : Option ContextId) :
    Truthful caller (settle id parent) := by
  apply Truthful.get_bind
  intro look
  refine .ite ((truthful_modifyOwn _).bind fun _ => truthful_discard id) ?_
  cases parent with
  | none => exact .pure ()
  | some parent => exact truthful_wakeParent parent id

theorem truthful_terminate (id : ContextId) (status : ExitStatus) :
    Truthful caller (terminate id status) := by
  refine (truthful_release id).bind fun released => (truthful_contextOf id).bind fun context => ?_
  refine (truthful_modifyContext id _).bind fun _ => (truthful_modifyOwn _).bind fun _ => ?_
  refine (truthful_modifyOwn _).bind fun _ => (truthful_note _).bind fun _ => ?_
  exact (truthful_disownAll _).bind fun _ => truthful_settle id _

theorem truthful_handleFault (id : ContextId) (fault : Fault) (pc : UInt64) :
    Truthful caller (handleFault id fault pc) := by
  refine (truthful_modifyOwn _).bind fun _ => (truthful_note _).bind fun _ => ?_
  refine .get_bind fun look => .ite ?_ (truthful_terminate id _)
  exact (truthful_modifyContext id _).bind fun _ => truthful_modifyOwn _

theorem truthful_kill (parent child : ContextId) : Truthful caller (kill parent child) := by
  refine .get_bind fun look => .ite (.pure _) ?_
  refine (truthful_contextOf child).bind fun context => .ite (.pure _) ?_
  exact (truthful_terminate child .killed).bind fun _ => .pure _

/-! ## System calls -/

theorem truthful_serveRead (id : ContextId) (call : Call) :
    Truthful caller (serveRead id call) := by
  refine .ite (.pure _) ((truthful_onCallerMemory id call _).bind fun checked => ?_)
  cases checked with
  | error fault => exact .pure _
  | ok _ =>
      refine (truthful_askHost _).bind fun answer => ?_
      cases answer with
      | error refusal => exact (truthful_note _).bind fun _ => .pure _
      | ok bytes =>
          refine (truthful_onCallerMemory id call _).bind fun written => ?_
          cases written with
          | error fault => exact .pure _
          | ok _ => exact .pure _

theorem truthful_serveWrite (id : ContextId) (call : Call) :
    Truthful caller (serveWrite id call) := by
  refine .ite (.pure _) ((truthful_onCallerMemory id call _).bind fun found => ?_)
  cases found with
  | error fault => exact .pure _
  | ok bytes =>
      refine (truthful_askHost _).bind fun answer => ?_
      cases answer with
      | error refusal => exact (truthful_note _).bind fun _ => .pure _
      | ok written => exact .pure _

theorem truthful_serveOpen (id : ContextId) (call : Call) :
    Truthful caller (serveOpen id call) := by
  refine (truthful_onCallerMemory id call _).bind fun found => ?_
  cases found with
  | error fault => exact .pure _
  | ok bytes =>
      dsimp only
      cases Bytes.toString? bytes with
      | none => exact .pure _
      | some path =>
          refine (truthful_askHost _).bind fun answer => ?_
          cases answer with
          | error refusal => exact (truthful_note _).bind fun _ => .pure _
          | ok descriptor => exact .pure _

theorem truthful_serveKill (id : ContextId) (call : Call) :
    Truthful caller (serveKill id call) := by
  unfold serveKill
  cases contextNamed? call.first with
  | none => exact .pure _
  | some target => exact (truthful_kill id target).bind fun _ => .pure _

theorem truthful_serveBreak (id : ContextId) (call : Call) :
    Truthful caller (serveBreak id call) := by
  rw [serveBreak_eq]
  refine (truthful_onMemory id _).bind fun answer => ?_
  cases answer with
  | error fault => exact .pure _
  | ok found =>
      obtain ⟨programBreak, refused⟩ := found
      cases refused with
      | none => exact .pure _
      | some fault => exact (truthful_note _).bind fun _ => .pure _

theorem truthful_serveFork (id : ContextId) : Truthful caller (serveFork id) := by
  refine (truthful_fork id).bind fun answer => ?_
  cases answer with
  | none => exact (truthful_note _).bind fun _ => .pure _
  | some child =>
      refine (truthful_modifyOwn _).bind fun _ => (truthful_modifyOwn _).bind fun _ => ?_
      refine (truthful_modifyContext child _).bind fun _ => ?_
      exact (truthful_makeReady child).bind fun _ => (truthful_note _).bind fun _ => .pure _

/-- A child of the caller is reaped, which is unknown to the caller if it is not owned. -/
theorem halts_reap_child {origin : Hypervisor} {context : Context} {child : ContextId}
    (found : origin.machine.context? caller = some context) (member : child ∈ context.children) :
    Halts (fun error after => ∀ id, error = .unknownContext id → Unknown caller after id)
      (fun _ _ => True) (reap child origin) := by
  have rest : Truthful caller (do
      let context ← contextOf child
      if context.exitStatus.isSome then discard child
      return context.exitStatus) := by
    refine (truthful_contextOf child).bind fun context => ?_
    exact .ite ((truthful_discard child).bind fun _ => .pure _) (.pure _)
  have owned : Halts (fun error after => ∀ id, error = .unknownContext id → Unknown caller after id)
      (fun _ _ => True) (requireOwned child origin) := by
    rw [requireOwned_apply]
    split
    · trivial
    · rename_i foreign
      rintro _ ⟨⟩
      refine .inr ⟨fun owned => foreign (Std.TreeSet.mem_iff_contains.mp owned), .inr ?_⟩
      exact ⟨context, found, member⟩
  exact owned.bind fun _ middle _ => rest middle

theorem truthful_serveWait (id : ContextId) (call : Call) : Truthful id (serveWait id call) := by
  intro origin
  unfold serveWait
  rw [bind_apply, EStateM.bind, contextOf_apply]
  cases found : origin.machine.context? id with
  | none =>
      rintro _ ⟨⟩
      exact .inl found
  | some context =>
      dsimp only
      split
      · trivial
      apply Halts.get_bind
      cases ended : firstEnded origin.machine _ with
      | none => trivial
      | some told =>
          obtain ⟨child, status⟩ := told
          have member : child ∈ context.children := by
            obtain ⟨other, listed, said⟩ := List.exists_of_findSome?_eq_some ended
            obtain ⟨_, -, same⟩ := Option.map_eq_some_iff.mp said
            obtain ⟨rfl, rfl⟩ := Prod.mk.inj same
            exact Std.TreeSet.mem_toList.mp (List.mem_of_mem_filter listed)
          have rest {middle : Hypervisor} (kept : SameChildren id origin middle) :
              Halts (fun error after => ∀ other, error = .unknownContext other →
                  Unknown id after other) (fun _ _ => True)
                ((do
                  let _ ← reap child
                  return (Outcome.answer (Int64.ofNat child))) middle) := by
            obtain ⟨accessed, seen, same⟩ := kept context found
            exact (halts_reap_child seen (same ▸ member)).bind fun _ _ _ => trivial
          dsimp only
          split
          · refine (halts_onCallerMemory id call _ origin).bind fun stored middle kept => ?_
            cases stored with
            | ok _ => exact rest kept
            | error fault => trivial
          · exact rest fun context found => ⟨context, found, rfl⟩

theorem truthful_serve (id : ContextId) (call : Call) (kind : Option SystemCall) :
    Truthful id (serve id call kind) := by
  cases kind with
  | none => exact .pure _
  | some kind =>
      cases kind with
      | read => exact truthful_serveRead id call
      | write => exact (truthful_serveWrite id call).bind fun _ => .pure _
      | openFile => exact (truthful_serveOpen id call).bind fun _ => .pure _
      | exit => exact .pure _
      | yield => exact .pure _
      | kill => exact (truthful_serveKill id call).bind fun _ => .pure _
      | setBreak => exact (truthful_serveBreak id call).bind fun _ => .pure _
      | fork => exact (truthful_serveFork id).bind fun _ => .pure _
      | wait => exact (truthful_serveWait id call).bind fun _ => .pure _

/-! ## Recording and replaying -/

theorem truthful_nextRecord (call : Call) (replayer : Replayer) :
    Truthful caller (nextRecord call replayer) := by
  unfold nextRecord Replayer.next
  cases replayer.pending with
  | nil => exact .throw nofun
  | cons record rest =>
      by_cases fits : record.pc = call.pc ∧ record.number = call.number
      · simp only [fits, and_self, if_true]
        exact (truthful_modifyOwn _).bind fun _ => .pure _
      · simp only [if_neg fits]
        exact .throw nofun

theorem truthful_noteCompleted (call : Call) (outcome : Outcome) (data : Bytes) :
    Truthful caller (noteCompleted call outcome data) := by
  unfold noteCompleted
  cases outcome.result? with
  | none => exact .pure _
  | some result =>
      apply Truthful.get_bind
      intro look
      cases look.own.recording with
      | off => exact .pure _
      | record trace => exact truthful_modifyOwn _
      | replay replayer =>
          refine (truthful_nextRecord call replayer).bind fun _ => ?_
          exact .ite (.throw nofun) (.pure _)

theorem truthful_replayHostCall (id : ContextId) (call : Call) (kind : SystemCall)
    (replayer : Replayer) : Truthful id (replayHostCall id call kind replayer) := by
  refine (truthful_nextRecord call replayer).bind fun ⟨_, record⟩ => ?_
  dsimp only
  have answers : Truthful id (pure (Outcome.answer record.result)) := .pure _
  cases kind with
  | read =>
      refine .ite answers (Truthful.bind ?_ fun _ => answers)
      refine (truthful_onCallerMemory id call _).bind fun written => ?_
      cases written with
      | ok _ => exact .pure _
      | error fault => exact truthful_note _
  | write =>
      refine .ite (Truthful.bind ?_ fun _ => answers) answers
      refine (truthful_onCallerMemory id call _).bind fun found => ?_
      cases found with
      | error fault => exact .pure _
      | ok bytes => exact truthful_modifyOwn _
  | _ => exact answers

/-! ## Turns -/

theorem truthful_perform (id : ContextId) (call : Call) (kind : Option SystemCall) :
    Truthful id (dispatch.perform id call kind) :=
  (truthful_serve id call kind).bind fun served =>
    (truthful_noteCompleted call served.1 served.2).bind fun _ => .pure _

theorem truthful_dispatch (id : ContextId) : Truthful id (dispatch id) := by
  refine (truthful_contextOf id).bind fun context => (truthful_modifyOwn _).bind fun _ => ?_
  refine (truthful_note _).bind fun _ => .get_bind fun look => ?_
  split
  · exact .ite (truthful_replayHostCall _ _ _ _) (truthful_perform _ _ _)
  · exact truthful_perform _ _ _

theorem truthful_serviceCall (id : ContextId) : Truthful id (serviceCall id) := by
  refine (truthful_modifyContext id _).bind fun _ => (truthful_contextOf id).bind fun context => ?_
  refine (truthful_dispatch id).bind fun outcome => ?_
  cases outcome with
  | answer value => exact (truthful_modifyContext id _).bind fun _ => truthful_makeReady id
  | exit code => exact (truthful_modifyContext id _).bind fun _ => truthful_terminate id _
  | block reason => exact truthful_modifyContext id _
  | fault fault => exact truthful_handleFault id fault _

theorem truthful_handleTrap (id : ContextId) (trap : Trap) : Truthful id (handleTrap id trap) := by
  cases trap with
  | timerInterrupt => exact (truthful_modifyOwn _).bind fun _ => truthful_makeReady id
  | environmentCall => exact truthful_serviceCall id
  | fault fault pc => exact truthful_handleFault id fault pc

theorem truthful_slice (id : ContextId) (quantum : Nat) : Truthful id (slice id quantum) := by
  refine (truthful_requireOwned id).bind fun _ => (truthful_contextOf id).bind fun context => ?_
  refine .ite (.throw nofun) ((truthful_modifyContext id _).bind fun _ => ?_)
  refine (truthful_modifyOwn _).bind fun _ => .get_bind fun look => ?_
  refine (truthful_note _).bind fun _ => (truthful_switch id quantum).bind fun trap => ?_
  exact (truthful_handleTrap id trap).bind fun _ => .pure _

theorem truthful_step (id : ContextId) : Truthful id (step id) := by
  have live : Truthful id (stepLive id) := by
    refine (truthful_modifyContext id _).bind fun _ => (truthful_switch id 1).bind fun trap => ?_
    cases trap with
    | timerInterrupt => exact (truthful_makeReady id).bind fun _ => .pure none
    | environmentCall => exact (truthful_handleTrap id _).bind fun _ => .pure _
    | fault fault pc => exact (truthful_handleTrap id _).bind fun _ => .pure _
  refine (truthful_requireOwned id).bind fun _ => (truthful_contextOf id).bind fun context => ?_
  split
  · exact .pure none
  · exact live
  · exact live
  · exact .throw nofun

theorem truthful_pcOf (id : ContextId) : Truthful id (pcOf id) :=
  (truthful_requireOwned id).bind fun _ => (truthful_contextOf id).bind fun _ => .pure _

/-- **If a round fails because a context is unknown, the context is unknown after it**, to the one
whose turn it was. -/
theorem truthful_scheduleOnce (origin : Hypervisor) :
    Halts (fun error after => ∀ id, error = .unknownContext id →
      ∃ caller, Unknown caller after id) (fun _ _ => True) (scheduleOnce origin) := by
  have chosen : Halts Never (fun _ _ => True) (nextReady origin) := trivial
  refine (chosen.certain fun _ _ given => given).bind fun found middle _ => ?_
  cases found with
  | none => trivial
  | some id =>
      have turn : Truthful id (do
          modifyOwn fun own => { own with ready := own.ready.tail }
          let _ ← slice id (← get).own.quantum
          return some id) :=
        (truthful_modifyOwn _).bind fun _ => .get_bind fun look =>
          (truthful_slice id _).bind fun _ => .pure _
      exact (turn middle).mono (fun _ _ _ => trivial)
        fun _ _ unknown other named => ⟨id, unknown other named⟩

end Hypervisor

end NestedMachine
