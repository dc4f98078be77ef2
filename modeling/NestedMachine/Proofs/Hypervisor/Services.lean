import NestedMachine.Proofs.Hypervisor.Discretion
import NestedMachine.Proofs.Hypervisor.Events
import NestedMachine.Proofs.Machine.Guests

/-!
# What the service of a context keeps

To serve a context is a long program, but it is made of few parts: notes and records, accesses to
the memory of the context, changes of the context itself, and the ends, removals and beginnings of
contexts.  A property that the parts of its system calls keep (`UpheldByCalls`) is kept by system
calls, whether they succeed or stop midway (`UpheldByCalls.dispatch`).  Calls that reach the host do
nothing but note, record and access memory, so that it can be told as well how they fail
(`Attended`).  If changes of the context itself keep it too (`Upheld`), it is kept by whatever is
done on behalf of the context, that is by the handling of its traps (`Upheld.handleTrap`), and if
running the context keeps it as well, by slices and steps (`Upheld.slice`, `Upheld.step`).

The parts are those whose effect differs from property to property.  Of these, the ends and removals
of contexts are made of changes that a supervisor makes to one context after the other (`Tending`).
A property that such changes keep whatever the moment, and that depends on the record of the
supervisor in no way but through what it owns, hosts and queues, is sturdy (`Sturdy`), and for a
sturdy property most of the parts come for free (`Sturdy.upheld`).  If the requests to the machine
below keep it as well, for all contexts, it is firm (`Firm`), and then every operation of the
hypervisor keeps it (`Firm.operation`), and so does a debugger (`Firm.sustained`).
-/

namespace NestedMachine.Hypervisor

set_option autoImplicit false

open Std (TreeSet)

variable {α : Type} {holds : Hypervisor → Prop} {caller : ContextId}

/-! ## Looking -/

/-- A context is killed only if it is owned. -/
theorem keeps_kill {parent child : ContextId}
    (terminate : ∀ hypervisor, holds hypervisor → child ∈ hypervisor.own.owned →
      Keeps holds (terminate child .killed)) : Keeps holds (kill parent child) := by
  intro origin given
  apply Halts.get_bind
  split
  · exact given
  · rename_i owned
    rw [Bool.not_eq_true', Bool.not_eq_false] at owned
    have ends : Keeps holds (do
        let context ← contextOf child
        if context.parent ≠ some parent ∨ context.hasExited then return false
        Hypervisor.terminate child .killed
        return true) := by
      refine (keeps_contextOf child).bind fun context => .ite (.pure false) ?_
      have ends := terminate origin given (TreeSet.mem_iff_contains.mpr owned)
      exact ends.bind fun _ => .pure true
    exact ends origin given

/-- What the end of a context keeps, the end of a parked one keeps. -/
theorem keeps_finalizeTrapped {id : ContextId}
    (terminate : ∀ status, Keeps holds (terminate id status)) :
    Keeps holds (finalizeTrapped id) := by
  refine (keeps_requireOwned id).bind fun _ => (keeps_contextOf id).bind fun context => ?_
  split
  · exact (terminate _).bind fun _ => .pure _
  · exact .throw _

/-- What requires a context to be owned needs to keep a property only for contexts that are. -/
theorem keeps_of_owned {id : ContextId} {action : HypervisorAction α}
    (keeps : ∀ hypervisor, holds hypervisor → id ∈ hypervisor.own.owned →
      Keeps holds (requireOwned id >>= fun _ => action)) :
    Keeps holds (requireOwned id >>= fun _ => action) := by
  intro origin given
  by_cases owned : id ∈ origin.own.owned
  · exact keeps origin given owned origin given
  · rw [bind_apply, EStateM.bind, requireOwned_apply,
      if_neg fun found => owned (TreeSet.mem_iff_contains.mpr found)]
    exact given

/-- A context that is looked up is there. -/
theorem keeps_contextOf_bind {id : ContextId} {next : Context → HypervisorAction α}
    (keeps : ∀ hypervisor context, holds hypervisor →
      hypervisor.machine.context? id = some context → Keeps holds (next context)) :
    Keeps holds (contextOf id >>= next) := by
  intro origin given
  rw [bind_apply, EStateM.bind, contextOf_apply]
  cases found : origin.machine.context? id with
  | none => exact given
  | some context => exact keeps origin context given found origin given

/-! ## Calls that reach the host -/

/-- The accesses that calls make to the memory of their caller, where running out of frames fails
the call. -/
inductive CallAccess : {α : Type} → MemoryAction α → Prop where
  | checkRange (address size : Nat) (access : Access) :
      CallAccess (Memory.checkRange address size access)
  | store (address : Nat) (value : UInt64) : CallAccess (Memory.store address value)
  | readBytes (address size : Nat) : CallAccess (Memory.readBytes address size)
  | writeBytes (address : Nat) (bytes : Bytes) : CallAccess (Memory.writeBytes address bytes)
  | readString (address limit : Nat) : CallAccess (Memory.readString address limit)

theorem CallAccess.courteous {action : MemoryAction α} (access : CallAccess action) :
    Memory.Courteous action := by
  cases access with
  | checkRange address size access => exact Memory.courteous_checkRange address size access
  | store address value => exact Memory.courteous_store address value
  | readBytes address size => exact Memory.courteous_readBytes address size
  | writeBytes address bytes => exact Memory.courteous_writeBytes address bytes
  | readString address limit => exact Memory.courteous_readString address limit

/-- A property that the parts of a call keep that reaches the host, and the errors with which they
may fail. -/
structure Attended (caller : ContextId) (may : HostError → Prop) (holds : Hypervisor → Prop) :
    Prop where
  note : ∀ happening, Stays may holds (note happening)
  record : ∀ {change}, Bookkeeping change → Stays may holds (modifyOwn change)
  host : ∀ {α : Type} (request : Host → HostAnswer α), Stays may holds (askHost request)
  memory : ∀ call {α : Type} {action : MemoryAction α}, CallAccess action →
    Stays may holds (onCallerMemory caller call action)
  next : ∀ call replayer, Stays may holds (nextRecord call replayer)

namespace Attended

variable {may : HostError → Prop}

theorem serveRead (attended : Attended caller may holds) (call : Call) :
    Stays may holds (serveRead caller call) := by
  refine .ite (.pure _) ?_
  refine (attended.memory call (.checkRange _ _ _)).bind fun checked => ?_
  cases checked with
  | error fault => exact .pure _
  | ok _ =>
      refine (attended.host _).bind fun answer => ?_
      cases answer with
      | error refusal => exact (attended.note _).bind fun _ => .pure _
      | ok bytes =>
          refine (attended.memory call (.writeBytes _ _)).bind fun written => ?_
          cases written with
          | error fault => exact .pure _
          | ok _ => exact .pure _

theorem serveWrite (attended : Attended caller may holds) (call : Call) :
    Stays may holds (serveWrite caller call) := by
  refine .ite (.pure _) ?_
  refine (attended.memory call (.readBytes _ _)).bind fun found => ?_
  cases found with
  | error fault => exact .pure _
  | ok bytes =>
      refine (attended.host _).bind fun answer => ?_
      cases answer with
      | ok written => exact .pure _
      | error refusal => exact (attended.note _).bind fun _ => .pure _

theorem serveOpen (attended : Attended caller may holds) (call : Call) :
    Stays may holds (serveOpen caller call) := by
  refine (attended.memory call (.readString _ _)).bind fun found => ?_
  cases found with
  | error fault => exact .pure _
  | ok bytes =>
      dsimp only
      cases Bytes.toString? bytes with
      | none => exact .pure _
      | some path =>
          refine (attended.host _).bind fun answer => ?_
          cases answer with
          | ok descriptor => exact .pure _
          | error refusal => exact (attended.note _).bind fun _ => .pure _

theorem captureWrite (attended : Attended caller may holds) (call : Call) (size : Nat) :
    Stays may holds (captureWrite caller call size) := by
  refine (attended.memory call (.readBytes _ _)).bind fun found => ?_
  cases found with
  | error fault => exact .pure _
  | ok bytes =>
      apply attended.record
      intro own
      dsimp only
      split <;> exact ⟨rfl, rfl, rfl, rfl, rfl⟩

theorem deliverRead (attended : Attended caller may holds) (call : Call) (data : Bytes) :
    Stays may holds (deliverRead caller call data) := by
  refine (attended.memory call (.writeBytes _ _)).bind fun delivered => ?_
  cases delivered with
  | ok _ => exact .pure _
  | error fault => exact attended.note _

/-- **A call that is replayed keeps what its parts keep**, and so do the calls themselves. -/
theorem replayHostCall (attended : Attended caller may holds) (call : Call) (kind : SystemCall)
    (replayer : Replayer) : Stays may holds (replayHostCall caller call kind replayer) := by
  refine (attended.next call replayer).bind fun next => ?_
  cases kind with
  | read =>
      refine .ite (.pure _) ?_
      exact (attended.deliverRead call _).bind fun _ => .pure _
  | write =>
      refine .ite ?_ (.pure _)
      exact (attended.captureWrite call _).bind fun _ => .pure _
  | _ => exact .pure _

end Attended

/-! ## The parts -/

/-- A change of a context by its supervisor: address space and count of instructions stay, no ended
context comes back, and no context gets a parent. -/
structure Tending (change : Context → Context) : Prop where
  space : ∀ context, (change context).space = context.space
  instructions : ∀ context, (change context).instructions = context.instructions
  lives : ∀ context, (change context).exitStatus = none → context.exitStatus = none
  parent : ∀ context parent, (change context).parent = some parent → context.parent = some parent
  children : ∀ context, ∀ child ∈ (change context).children, child ∈ context.children

theorem tending_withState (state : ContextState) : Tending fun context => context.withState state :=
  ⟨fun _ => rfl, fun _ => rfl, fun _ lives => lives, fun _ _ link => link, fun _ _ member => member⟩

theorem tending_end (status : ExitStatus) :
    Tending fun context => { context.terminate status with children := ∅ } :=
  ⟨fun _ => rfl, fun _ => rfl, fun _ lives => (nomatch lives), fun _ _ link => link,
    fun _ _ member => absurd member TreeSet.not_mem_emptyc⟩

theorem tending_orphan : Tending fun context => { context with parent := none } :=
  ⟨fun _ => rfl, fun _ => rfl, fun _ lives => lives, fun _ _ link => (nomatch link),
    fun _ _ member => member⟩

theorem tending_withPc (pc : UInt64) : Tending fun context => context.withPc pc :=
  ⟨fun _ => rfl, fun _ => rfl, fun _ lives => lives, fun _ _ link => link, fun _ _ member => member⟩

theorem tending_answer (register : Nat) (value : UInt64) (pc : Context → UInt64) :
    Tending fun context => (context.withRegister register value).withPc (pc context) :=
  ⟨fun _ => rfl, fun _ => rfl, fun _ lives => lives, fun _ _ link => link, fun _ _ member => member⟩

/-- A property that the parts of the system calls of a context keep. -/
structure UpheldByCalls (caller : ContextId) (holds : Hypervisor → Prop) : Prop where
  note : ∀ happening, Keeps holds (note happening)
  record : ∀ {change}, Bookkeeping change → Keeps holds (modifyOwn change)
  host : ∀ {α : Type} (request : Host → HostAnswer α), Keeps holds (askHost request)
  memory : ∀ {α : Type} {action : MemoryAction α}, Memory.Courteous action →
    Keeps holds (onMemory caller action)
  kill : ∀ child, Keeps holds (kill caller child)
  reap : ∀ id, Keeps holds (reap id)
  fork : Keeps holds (serveFork caller)

/-- A property that the parts of the service of a context keep: those of its calls, and the changes
of the context itself. -/
structure Upheld (caller : ContextId) (holds : Hypervisor → Prop) : Prop extends
    UpheldByCalls caller holds where
  advance : ∀ {change : Context → Context}, (∀ context, (change context).kin = context.kin) →
    Tending change → Keeps holds (modifyContext caller change)
  setState : ∀ {state : ContextState}, state ≠ .ready → Keeps holds (setState caller state)
  makeReady : Keeps holds (makeReady caller)
  park : ∀ fault pc, Keeps holds (do
    Hypervisor.setState caller (.trapped fault pc)
    dequeue caller)
  terminate : ∀ status, Keeps holds (Hypervisor.terminate caller status)

namespace UpheldByCalls

/-- What discreet actions keep, most of the parts keep. -/
theorem of_discreet
    (discreet : ∀ {α : Type} {told : α → Prop} {action : HypervisorAction α},
      Discreet caller told action → Keeps holds action)
    (kill : ∀ child, Keeps holds (Hypervisor.kill caller child))
    (reap : ∀ id, Keeps holds (Hypervisor.reap id)) (fork : Keeps holds (serveFork caller)) :
    UpheldByCalls caller holds where
  note happening := discreet (discreet_note caller happening)
  record clerical := discreet (discreet_modifyOwn caller clerical)
  host request := discreet (discreet_askHost caller request)
  memory courteous := discreet (discreet_onMemory caller fun _ _ => courteous.keeps_sound)
  kill := kill
  reap := reap
  fork := fork

theorem count (upheld : UpheldByCalls caller holds) (change : Counters → Counters) :
    Keeps holds (count change) :=
  upheld.record fun _ => ⟨rfl, rfl, rfl, rfl, rfl⟩

theorem callerMemory (upheld : UpheldByCalls caller holds) (call : Call) {action : MemoryAction α}
    (courteous : Memory.Courteous action) : Keeps holds (onCallerMemory caller call action) := by
  refine (upheld.memory courteous).bind fun answer => ?_
  split
  · exact .throw _
  · exact .pure _

theorem nextRecord (upheld : UpheldByCalls caller holds) (call : Call) (replayer : Replayer) :
    Keeps holds (nextRecord call replayer) := by
  unfold Hypervisor.nextRecord
  cases replayer.next call.pc call.number with
  | ok answer after =>
      refine (upheld.record ?_).bind fun _ => .pure _
      exact fun _ => ⟨rfl, rfl, rfl, rfl, rfl⟩
  | error error after => exact .throw _

/-- What the parts keep, calls that reach the host keep, however they fail. -/
theorem attended (upheld : UpheldByCalls caller holds) :
    Attended caller (fun _ => True) holds where
  note happening := (upheld.note happening).stays
  record clerical := (upheld.record clerical).stays
  host request := (upheld.host request).stays
  memory call _ _ access := (upheld.callerMemory call access.courteous).stays
  next call replayer := (upheld.nextRecord call replayer).stays

/-! ## System calls -/

theorem courteous_requestBreak (requested : Nat) : Memory.Courteous (requestBreak requested) := by
  intro holds checked all moves memory given
  unfold requestBreak
  split
  · exact given
  · have moved := moves requested memory given
    generalize Memory.setProgramBreak requested memory = result at moved
    cases result with
    | ok answer after => exact moved
    | error fault after => exact moved

theorem serveBreak (upheld : UpheldByCalls caller holds) (call : Call) :
    Keeps holds (serveBreak caller call) := by
  rw [serveBreak_eq]
  refine (upheld.memory (courteous_requestBreak _)).bind fun answer => ?_
  cases answer with
  | error fault => exact .pure _
  | ok found =>
      obtain ⟨programBreak, refused⟩ := found
      cases refused with
      | none => exact .pure _
      | some fault => exact (upheld.note _).bind fun _ => .pure _

theorem serveKill (upheld : UpheldByCalls caller holds) (call : Call) :
    Keeps holds (serveKill caller call) := by
  unfold Hypervisor.serveKill
  cases contextNamed? call.first with
  | none => exact .pure _
  | some target => exact (upheld.kill target).bind fun _ => .pure _

theorem serveWait (upheld : UpheldByCalls caller holds) (call : Call) :
    Keeps holds (serveWait caller call) := by
  refine (keeps_contextOf caller).bind fun context => .ite (.pure _) (.get_bind fun look => ?_)
  cases firstEnded look.machine _ with
  | none => exact .pure _
  | some ended =>
      obtain ⟨child, status⟩ := ended
      have rest : Keeps holds (do
          let _ ← Hypervisor.reap child
          return (Outcome.answer (Int64.ofNat child))) :=
        (upheld.reap child).bind fun _ => .pure _
      refine .ite ?_ rest
      refine (upheld.callerMemory call (Memory.courteous_store _ _)).bind fun stored => ?_
      cases stored with
      | ok _ => exact rest
      | error fault => exact .pure _

theorem serve (upheld : UpheldByCalls caller holds) (call : Call) (kind : Option SystemCall) :
    Keeps holds (serve caller call kind) := by
  cases kind with
  | none => exact .pure _
  | some kind =>
      cases kind with
      | read => exact (upheld.attended.serveRead call).keeps
      | write => exact (upheld.attended.serveWrite call).keeps.bind fun _ => .pure _
      | openFile => exact (upheld.attended.serveOpen call).keeps.bind fun _ => .pure _
      | exit => exact .pure _
      | yield => exact .pure _
      | kill => exact (upheld.serveKill call).bind fun _ => .pure _
      | setBreak => exact (upheld.serveBreak call).bind fun _ => .pure _
      | fork => exact upheld.fork.bind fun _ => .pure _
      | wait => exact (upheld.serveWait call).bind fun _ => .pure _

/-! ## Recording and replaying -/

theorem noteCompleted (upheld : UpheldByCalls caller holds) (call : Call) (outcome : Outcome)
    (data : Bytes) : Keeps holds (noteCompleted call outcome data) := by
  unfold Hypervisor.noteCompleted
  cases outcome.result? with
  | none => exact .pure _
  | some result =>
      apply Keeps.get_bind
      intro look
      cases look.own.recording with
      | off => exact .pure _
      | record trace => exact upheld.record fun _ => ⟨rfl, rfl, rfl, rfl, rfl⟩
      | replay replayer =>
          refine (upheld.nextRecord call replayer).bind fun _ => ?_
          exact .ite (.throw _) (.pure _)

theorem perform (upheld : UpheldByCalls caller holds) (call : Call) (kind : Option SystemCall) :
    Keeps holds (dispatch.perform caller call kind) :=
  (upheld.serve call kind).bind fun served =>
    (upheld.noteCompleted call served.1 served.2).bind fun _ => .pure _

/-- **System calls keep what their parts keep.** -/
theorem dispatch (upheld : UpheldByCalls caller holds) : Keeps holds (dispatch caller) := by
  refine (keeps_contextOf caller).bind fun context => (upheld.count _).bind fun _ => ?_
  refine (upheld.note _).bind fun _ => .get_bind fun look => ?_
  split
  · exact .ite (upheld.attended.replayHostCall _ _ _).keeps (upheld.perform _ _)
  · exact upheld.perform _ _

end UpheldByCalls

namespace Upheld

/-- What discreet actions keep, most of the parts keep. -/
theorem of_discreet
    (discreet : ∀ {α : Type} {told : α → Prop} {action : HypervisorAction α},
      Discreet caller told action → Keeps holds action)
    (calls : UpheldByCalls caller holds)
    (setState : ∀ {state : ContextState}, state ≠ .ready →
      Keeps holds (Hypervisor.setState caller state))
    (makeReady : Keeps holds (Hypervisor.makeReady caller))
    (park : ∀ fault pc, Keeps holds (do
      Hypervisor.setState caller (.trapped fault pc)
      dequeue caller))
    (terminate : ∀ status, Keeps holds (Hypervisor.terminate caller status)) :
    Upheld caller holds where
  toUpheldByCalls := calls
  advance same tending := discreet (discreet_modifyContext caller caller same tending.space)
  setState := setState
  makeReady := makeReady
  park := park
  terminate := terminate

/-! ## Traps -/

theorem handleFault (upheld : Upheld caller holds) (fault : Fault) (pc : UInt64) :
    Keeps holds (handleFault caller fault pc) := by
  refine (upheld.count _).bind fun _ => (upheld.note _).bind fun _ => .get_bind fun look => ?_
  exact .ite (upheld.park fault pc) (upheld.terminate _)

theorem serviceCall (upheld : Upheld caller holds) : Keeps holds (serviceCall caller) := by
  refine (upheld.setState (by nofun)).bind fun _ => ?_
  refine (keeps_contextOf caller).bind fun context => upheld.dispatch.bind fun outcome => ?_
  cases outcome with
  | answer value =>
      refine Keeps.bind (upheld.advance ?_ (tending_answer _ _ _)) fun _ => upheld.makeReady
      exact fun _ => rfl
  | exit code =>
      refine Keeps.bind (upheld.advance ?_ (tending_withPc _)) fun _ => upheld.terminate _
      exact fun _ => rfl
  | block reason => exact upheld.setState (by nofun)
  | fault fault => exact upheld.handleFault fault _

/-- **The handling of traps keeps what its parts keep.** -/
theorem handleTrap (upheld : Upheld caller holds) (trap : Trap) :
    Keeps holds (handleTrap caller trap) := by
  cases trap with
  | timerInterrupt => exact (upheld.count _).bind fun _ => upheld.makeReady
  | environmentCall => exact upheld.serviceCall
  | fault fault pc => exact upheld.handleFault fault pc

/-! ## Slices and steps -/

/-- The rest of a slice, once the context is running. -/
theorem restOfSlice (upheld : Upheld caller holds)
    (switch : ∀ quantum, Keeps holds (below (Machine.switch caller quantum))) (quantum : Nat) :
    Keeps holds (do
      Hypervisor.count fun counters =>
        { counters with contextSwitches := counters.contextSwitches + 1 }
      Hypervisor.note (.switched (← get).level caller)
      let trap ← below (Machine.switch caller quantum)
      Hypervisor.handleTrap caller trap
      return trap) := by
  refine (upheld.count _).bind fun _ => .get_bind fun look => (upheld.note _).bind fun _ => ?_
  refine (switch quantum).bind fun trap => ?_
  exact (upheld.handleTrap trap).bind fun _ => .pure trap

theorem slice (upheld : Upheld caller holds)
    (switch : ∀ quantum, Keeps holds (below (Machine.switch caller quantum))) (quantum : Nat) :
    Keeps holds (slice caller quantum) := by
  refine (keeps_requireOwned caller).bind fun _ => (keeps_contextOf caller).bind fun context => ?_
  refine .ite (.throw _) ?_
  exact (upheld.setState (by nofun)).bind fun _ => upheld.restOfSlice switch quantum

theorem step (upheld : Upheld caller holds)
    (switch : ∀ quantum, Keeps holds (below (Machine.switch caller quantum))) :
    Keeps holds (step caller) := by
  have live : Keeps holds (stepLive caller) := by
    refine (upheld.setState (by nofun)).bind fun _ => (switch 1).bind fun trap => ?_
    cases trap with
    | timerInterrupt => exact upheld.makeReady.bind fun _ => .pure none
    | environmentCall => exact (upheld.handleTrap _).bind fun _ => .pure _
    | fault fault pc => exact (upheld.handleTrap _).bind fun _ => .pure _
  refine (keeps_requireOwned caller).bind fun _ => (keeps_contextOf caller).bind fun context => ?_
  split
  · exact .pure none
  · exact live
  · exact live
  · exact .throw _

end Upheld

/-! ## Sturdy properties -/

/-- Anyone. -/
def Anyone (_ : ContextId) : Prop := True

/-- A change of what a supervisor keeps in which it neither begins nor ceases to host a context, and
faults do what they did. -/
def Housekeeping (change : Supervisor → Supervisor) : Prop :=
  ∀ own, (change own).relay.hosted = own.relay.hosted ∧ (change own).debugTraps = own.debugTraps

/-- A change of what a supervisor keeps in which it owns and hosts the contexts that it did, and
faults do what they did. -/
def Routine (change : Supervisor → Supervisor) : Prop :=
  Housekeeping change ∧ ∀ own, (change own).owned = own.owned

theorem routine_of_same {change : Supervisor → Supervisor}
    (hosted : ∀ own, (change own).relay.hosted = own.relay.hosted)
    (debugTraps : ∀ own, (change own).debugTraps = own.debugTraps)
    (owned : ∀ own, (change own).owned = own.owned) : Routine change :=
  ⟨fun own => ⟨hosted own, debugTraps own⟩, owned⟩

/-- A routine change after which nobody is queued who was not. -/
def QueuesNobody (change : Supervisor → Supervisor) : Prop :=
  Routine change ∧ ∀ own, (change own).ready ⊆ own.ready

theorem queuesNobody_of_same {change : Supervisor → Supervisor} (routine : Routine change)
    (ready : ∀ own, (change own).ready = own.ready) : QueuesNobody change :=
  ⟨routine, fun own _ member => ready own ▸ member⟩

theorem Bookkeeping.queuesNobody {change : Supervisor → Supervisor}
    (clerical : Bookkeeping change) : QueuesNobody change := by
  refine queuesNobody_of_same (routine_of_same (fun own => ?_) (fun own => ?_) fun own => ?_)
    fun own => ?_
  all_goals obtain ⟨ready, owned, _, debugTraps, hosted⟩ := clerical own
  · exact hosted
  · exact debugTraps
  · exact owned
  · exact ready

/-- A context is made ready by two changes. -/
theorem keeps_makeReady {id : ContextId} (ready : Keeps holds (setState id .ready))
    (enqueue : Keeps holds (enqueue id)) : Keeps holds (makeReady id) :=
  ready.bind fun _ => .get_bind fun _ => .ite (.pure _) enqueue

/-- What is kept when the record changes as a matter of routine is kept when anyone is queued. -/
theorem keeps_enqueue (own : ∀ {change}, Routine change → Keeps holds (modifyOwn change))
    (id : ContextId) : Keeps holds (enqueue id) := by
  apply own
  exact routine_of_same (fun _ => rfl) (fun _ => rfl) fun _ => rfl

/-- What is kept when the record changes as a matter of routine is kept when anyone is requeued. -/
theorem keeps_requeue (own : ∀ {change}, Routine change → Keeps holds (modifyOwn change))
    (id : ContextId) : Keeps holds (requeue id) := by
  refine Keeps.bind (own ?_) fun _ => .get_bind fun _ => .ite (keeps_enqueue own id) (.pure _)
  exact routine_of_same (fun _ => rfl) (fun _ => rfl) fun _ => rfl

/-- A property that the changes of a supervisor keep, whatever the moment, if they are to contexts
of some kind.  The contexts that it owns are of this kind, and so is the family of each. -/
structure Sturdy (mine : ContextId → Prop) (holds : Hypervisor → Prop) : Prop where
  owned : ∀ hypervisor, holds hypervisor → ∀ id ∈ hypervisor.own.owned, mine id
  family : ∀ hypervisor, holds hypervisor → ∀ id context, mine id →
    hypervisor.machine.context? id = some context →
      (∀ child ∈ context.children, mine child) ∧ ∀ parent, context.parent = some parent →
        mine parent
  note : ∀ happening, Keeps holds (note happening)
  own : ∀ {change}, QueuesNobody change → Keeps holds (modifyOwn change)
  host : ∀ {α : Type} (request : Host → HostAnswer α), Keeps holds (askHost request)
  change : ∀ {id}, mine id → ∀ {change : Context → Context}, Tending change →
    Keeps holds (modifyContext id change)
  makeReady : ∀ {id}, mine id → Keeps holds (makeReady id)
  discard : ∀ {id}, mine id → Keeps holds (discard id)

namespace Sturdy

variable {mine : ContextId → Prop} {id : ContextId}

/-- Neither hosted contexts, traps, owned contexts nor the queue change. -/
theorem record (sturdy : Sturdy mine holds) {change : Supervisor → Supervisor}
    (hosted : ∀ own, (change own).relay.hosted = own.relay.hosted)
    (debugTraps : ∀ own, (change own).debugTraps = own.debugTraps)
    (owned : ∀ own, (change own).owned = own.owned)
    (ready : ∀ own, (change own).ready = own.ready) : Keeps holds (modifyOwn change) :=
  sturdy.own (queuesNobody_of_same (routine_of_same hosted debugTraps owned) ready)

/-- Contexts leave the queue. -/
theorem leave (sturdy : Sturdy mine holds) {change : Supervisor → List ContextId}
    (fewer : ∀ own, change own ⊆ own.ready) :
    Keeps holds (modifyOwn fun own => { own with ready := change own }) :=
  sturdy.own ⟨routine_of_same (fun _ => rfl) (fun _ => rfl) fun _ => rfl, fewer⟩

theorem count (sturdy : Sturdy mine holds) (change : Counters → Counters) :
    Keeps holds (count change) := by
  apply sturdy.record
  all_goals exact fun _ => rfl

theorem dequeue (sturdy : Sturdy mine holds) (id : ContextId) : Keeps holds (dequeue id) :=
  sturdy.leave fun _ => List.filter_subset_self _

/-- Who is an orphan is a matter of routine. -/
theorem orphans (sturdy : Sturdy mine holds)
    (change : TreeSet ContextId → TreeSet ContextId) :
    Keeps holds (modifyOwn fun own => { own with orphans := change own.orphans }) := by
  apply sturdy.record
  all_goals exact fun _ => rfl

theorem setState (sturdy : Sturdy mine holds) (its : mine id) (state : ContextState) :
    Keeps holds (setState id state) :=
  sturdy.change its (tending_withState state)

theorem reap (sturdy : Sturdy mine holds) (id : ContextId) : Keeps holds (reap id) := by
  refine keeps_of_owned fun hypervisor given owned => (keeps_requireOwned id).bind fun _ => ?_
  refine (keeps_contextOf id).bind fun context => ?_
  have its := sturdy.owned hypervisor given id owned
  exact .ite ((sturdy.discard its).bind fun _ => .pure _) (.pure _)

theorem wakeParent (sturdy : Sturdy mine holds) {parent : ContextId} (its : mine parent)
    (child : ContextId) : Keeps holds (wakeParent parent child) := by
  apply Keeps.get_bind
  intro look
  split
  · exact .ite ((sturdy.note _).bind fun _ => sturdy.makeReady its) (.pure ())
  · exact .pure ()

theorem disown (sturdy : Sturdy mine holds) {child : ContextId} (its : mine child) :
    Keeps holds (disown child) := by
  apply Keeps.get_bind
  intro look
  split
  · refine (sturdy.change its tending_orphan).bind fun _ => ?_
    exact .ite (sturdy.discard its) (sturdy.orphans fun orphans => orphans.insert child)
  · exact .pure ()

theorem disownAll (sturdy : Sturdy mine holds) {children : List ContextId}
    (its : ∀ child ∈ children, mine child) : Keeps holds (disownAll children) := by
  induction children with
  | nil => exact .pure ()
  | cons child rest ih =>
      obtain ⟨first, later⟩ := List.forall_mem_cons.mp its
      exact (sturdy.disown first).bind fun _ => ih later

theorem settle (sturdy : Sturdy mine holds) (its : mine id) {parent : Option ContextId}
    (above : ∀ other, parent = some other → mine other) : Keeps holds (settle id parent) := by
  apply Keeps.get_bind
  intro look
  refine .ite ((sturdy.orphans fun orphans => orphans.erase id).bind fun _ => sturdy.discard its) ?_
  cases parent with
  | none => exact .pure ()
  | some parent => exact sturdy.wakeParent (above parent rfl) id

/-- What is left of the end of a context once it is marked as ended. -/
theorem restOfEnd (sturdy : Sturdy mine holds) (its : mine id) (status : ExitStatus)
    (released : Nat) {children : List ContextId} {parent : Option ContextId}
    (below : ∀ child ∈ children, mine child) (above : ∀ other, parent = some other → mine other) :
    Keeps holds (do
      Hypervisor.dequeue id
      Hypervisor.count fun counters => { counters with exits := counters.exits + 1 }
      Hypervisor.note (.terminated id status released)
      Hypervisor.disownAll children
      Hypervisor.settle id parent) :=
  (sturdy.dequeue id).bind fun _ => (sturdy.count _).bind fun _ => (sturdy.note _).bind fun _ =>
    (sturdy.disownAll below).bind fun _ => sturdy.settle its above

/-- The end of a context, where giving back its frames does not matter. -/
theorem terminate (sturdy : Sturdy mine holds) (its : mine id)
    (release : Keeps holds (below (Machine.release id))) (status : ExitStatus) :
    Keeps holds (terminate id status) := by
  refine release.bind fun released => keeps_contextOf_bind fun hypervisor context given found => ?_
  obtain ⟨below, above⟩ := sturdy.family hypervisor given id context its found
  refine (sturdy.change its (tending_end status)).bind fun _ => ?_
  exact sturdy.restOfEnd its status _
    (fun child member => below child (TreeSet.mem_toList.mp member)) above

theorem kill (sturdy : Sturdy mine holds)
    (terminate : ∀ {id}, mine id → ∀ status, Keeps holds (Hypervisor.terminate id status))
    (parent child : ContextId) : Keeps holds (kill parent child) :=
  keeps_kill fun hypervisor given owned => terminate (sturdy.owned hypervisor given child owned) _

/-- **For a sturdy property, it remains to look at guests, at ends and at copies.** -/
theorem upheld (sturdy : Sturdy mine holds) (its : mine caller)
    (memory : ∀ {α : Type} {action : MemoryAction α}, Memory.Courteous action →
      Keeps holds (onMemory caller action))
    (terminate : ∀ {id}, mine id → ∀ status, Keeps holds (Hypervisor.terminate id status))
    (fork : Keeps holds (serveFork caller)) : Upheld caller holds where
  note := sturdy.note
  record clerical := sturdy.own clerical.queuesNobody
  host := sturdy.host
  memory := memory
  advance _ tending := sturdy.change its tending
  setState _ := sturdy.setState its _
  makeReady := sturdy.makeReady its
  park _ _ := (sturdy.setState its _).bind fun _ => sturdy.dequeue caller
  kill := sturdy.kill terminate caller
  terminate := terminate its
  reap := sturdy.reap
  fork := fork

end Sturdy

/-! ## Properties of machines -/

/-- A property that the changes of a supervisor keep, whatever the moment and whatever the context,
and that does not depend on which contexts the supervisor owns. -/
structure Stolid (holds : Hypervisor → Prop) : Prop where
  note : ∀ happening, Keeps holds (note happening)
  own : ∀ {change}, Housekeeping change → Keeps holds (modifyOwn change)
  host : ∀ {α : Type} (request : Host → HostAnswer α), Keeps holds (askHost request)
  change : ∀ id {change : Context → Context}, Tending change → Keeps holds (modifyContext id change)
  destroy : ∀ id, Keeps holds (below (Machine.destroy id))

namespace Stolid

/-- A context begins or ceases to be owned. -/
theorem owned (stolid : Stolid holds) (change : Supervisor → TreeSet ContextId) :
    Keeps holds (modifyOwn fun own => { own with owned := change own }) := by
  apply stolid.own
  exact fun _ => ⟨rfl, rfl⟩

theorem sturdy (stolid : Stolid holds) : Sturdy Anyone holds where
  owned _ _ _ _ := trivial
  family _ _ _ _ _ _ := ⟨fun _ _ => trivial, fun _ _ => trivial⟩
  note := stolid.note
  own quiet := stolid.own quiet.1.1
  host := stolid.host
  change {id} _ _ tending := stolid.change id tending
  makeReady {id} _ :=
    keeps_makeReady (stolid.change id (tending_withState _)) (keeps_enqueue (stolid.own ·.1) id)
  discard {id} _ := by
    refine (stolid.destroy id).bind fun _ => Keeps.bind (stolid.own ?_) fun _ => stolid.own ?_
    all_goals exact fun _ => ⟨rfl, rfl⟩

theorem enqueue (stolid : Stolid holds) (id : ContextId) : Keeps holds (enqueue id) :=
  keeps_enqueue (stolid.own ·.1) id

theorem requeue (stolid : Stolid holds) (id : ContextId) : Keeps holds (requeue id) :=
  keeps_requeue (stolid.own ·.1) id

theorem serveFork (stolid : Stolid holds) (fork : Keeps holds (below (Machine.fork caller))) :
    Keeps holds (serveFork caller) := by
  refine fork.bind fun answer => ?_
  cases answer with
  | none => exact (stolid.note _).bind fun _ => .pure _
  | some child =>
      refine (stolid.sturdy.count _).bind fun _ => (stolid.owned _).bind fun _ => ?_
      refine (stolid.change child (tending_answer _ _ _)).bind fun _ => ?_
      refine (stolid.sturdy.makeReady trivial).bind fun _ => (stolid.note _).bind fun _ => ?_
      exact .pure _

theorem load (stolid : Stolid holds)
    (create : ∀ image options, Keeps holds (below (Machine.create image options))) (image : Image)
    (arguments : List String) : Keeps holds (load image arguments) := by
  refine .get_bind fun look => (create image _).bind fun id => ?_
  refine (stolid.owned _).bind fun _ => (stolid.enqueue id).bind fun _ => ?_
  refine (stolid.sturdy.count _).bind fun _ => .get_bind fun _ => ?_
  exact (stolid.note _).bind fun _ => .pure id

end Stolid

/-! ## Firm properties -/

/-- A sturdy property that is kept as well when contexts of its kind run, are copied and end, when
their memory is accessed, and when a context is loaded. -/
structure Firm (mine : ContextId → Prop) (holds : Hypervisor → Prop) : Prop extends
    Sturdy mine holds where
  memory : ∀ {id}, mine id → ∀ {α : Type} {action : MemoryAction α}, Memory.Courteous action →
    Keeps holds (onMemory id action)
  terminate : ∀ {id}, mine id → ∀ status, Keeps holds (Hypervisor.terminate id status)
  load : ∀ image arguments, Keeps holds (load image arguments)
  fork : ∀ {id}, mine id → Keeps holds (serveFork id)
  switch : ∀ {id}, mine id → ∀ quantum, Keeps holds (below (Machine.switch id quantum))

namespace Firm

variable {mine : ContextId → Prop}

theorem serving (firm : Firm mine holds) {id : ContextId} (its : mine id) : Upheld id holds :=
  firm.toSturdy.upheld its (firm.memory its) firm.terminate (firm.fork its)

theorem slice (firm : Firm mine holds) (id : ContextId) (quantum : Nat) :
    Keeps holds (slice id quantum) := by
  refine keeps_of_owned fun hypervisor given owned => ?_
  have its := firm.owned hypervisor given id owned
  exact (firm.serving its).slice (firm.switch its) quantum

theorem step (firm : Firm mine holds) (id : ContextId) : Keeps holds (step id) := by
  refine keeps_of_owned fun hypervisor given owned => ?_
  have its := firm.owned hypervisor given id owned
  exact (firm.serving its).step (firm.switch its)

theorem nextReady (firm : Firm mine holds) : Keeps holds nextReady := by
  rw [nextReady_eq]
  refine Keeps.bind (.get_bind fun look => firm.leave fun _ => ?_) fun _ => ?_
  · exact (List.dropWhile_sublist _).subset
  · exact .get_bind fun _ => .pure _

theorem scheduleOnce (firm : Firm mine holds) : Keeps holds scheduleOnce := by
  refine firm.nextReady.bind fun next => ?_
  cases next with
  | none => exact .pure none
  | some id =>
      refine Keeps.bind (firm.leave fun _ => List.tail_subset _) fun _ => .get_bind fun look => ?_
      exact (firm.slice id _).bind fun _ => .pure _

theorem finalizeTrapped (firm : Firm mine holds) (id : ContextId) :
    Keeps holds (finalizeTrapped id) := by
  refine keeps_of_owned fun hypervisor given owned => (keeps_requireOwned id).bind fun _ => ?_
  refine (keeps_contextOf id).bind fun context => ?_
  split
  · have its := firm.owned hypervisor given id owned
    exact (firm.terminate its _).bind fun _ => .pure _
  · exact .throw _

theorem await (firm : Firm mine holds) (id : ContextId) (rounds : Nat) :
    Keeps holds (await id rounds) := by
  have once : Keeps holds (awaitOnce id) := by
    refine (keeps_contextOf id).bind fun context => ?_
    split
    · exact .pure _
    · exact (firm.finalizeTrapped id).bind fun _ => .pure _
    · exact firm.scheduleOnce.bind fun _ => .ite (.throw _) (.pure none)
  induction rounds with
  | zero => exact .pure none
  | succ rounds ih =>
      refine once.bind fun ended => ?_
      cases ended with
      | some status => exact .pure _
      | none => exact ih

theorem exhaust (firm : Firm mine holds) (rounds : Nat) : Keeps holds (exhaust rounds) := by
  induction rounds with
  | zero => exact .pure false
  | succ rounds ih =>
      refine firm.scheduleOnce.bind fun scheduled => ?_
      cases scheduled with
      | some id => exact ih
      | none => exact .pure true

/-- A setting or a recording changes. -/
theorem setting (firm : Firm mine holds) {change : Supervisor → Supervisor}
    (quiet : QueuesNobody change) {answer : Answer} :
    Keeps holds (modifyOwn change >>= fun _ => pure answer) :=
  (firm.own quiet).bind fun _ => .pure _

/-- **Every operation keeps what is firm**, if what faults do has no part in it or stays, and if who
is moved to the back of the queue does not matter. -/
theorem operation (firm : Firm mine holds) {operation : Operation}
    (traps : ∀ debugTraps, operation = .setDebugTraps debugTraps →
      Keeps holds (setDebugTraps debugTraps))
    (requeue : ∀ id, operation = .requeue id → Keeps holds (requeue id)) :
    Keeps holds operation.perform := by
  have look {α : Type} (id : ContextId) (view : Context → α) :
      Keeps holds (do
        requireOwned id
        return view (← contextOf id)) :=
    (keeps_requireOwned id).bind fun _ => (keeps_contextOf id).bind fun _ => .pure _
  have same (change : Supervisor → Recording) :
      QueuesNobody fun own => { own with recording := change own } :=
    queuesNobody_of_same (routine_of_same (fun _ => rfl) (fun _ => rfl) fun _ => rfl) fun _ => rfl
  cases operation with
  | load image arguments => exact (firm.load image arguments).bind fun _ => .pure _
  | run rounds id =>
      refine Keeps.bind ?_ fun _ => .pure _
      exact (keeps_requireOwned id).bind fun _ => firm.await id rounds
  | runAll rounds =>
      refine Keeps.bind ((firm.exhaust rounds).bind fun finished => ?_) fun _ => .pure _
      exact .ite (.get_bind fun _ => .pure _) (.pure none)
  | scheduleOnce => exact firm.scheduleOnce.bind fun _ => .pure _
  | slice id quantum => exact (firm.slice id quantum).bind fun _ => .pure _
  | step id => exact (firm.step id).bind fun _ => .pure _
  | kill parent child => exact (firm.kill firm.terminate parent child).bind fun _ => .pure _
  | reap id => exact (firm.reap id).bind fun _ => .pure _
  | finalizeTrapped id => exact (firm.finalizeTrapped id).bind fun _ => .pure _
  | requeue id => exact (requeue id rfl).bind fun _ => .pure _
  | nextReady => exact firm.nextReady.bind fun _ => .pure _
  | snapshot id => exact (look id _).bind fun _ => .pure _
  | pcOf id => exact (look id _).bind fun _ => .pure _
  | exitStatusOf id => exact (look id _).bind fun _ => .pure _
  | access id request =>
      refine Keeps.bind (keeps_of_owned fun hypervisor given owned => ?_) fun _ => .pure _
      have its := firm.owned hypervisor given id owned
      exact (keeps_requireOwned id).bind fun _ => firm.memory its request.courteous_perform
  | setMemoryMode mode =>
      apply firm.setting
      refine queuesNobody_of_same (routine_of_same ?_ ?_ ?_) ?_
      all_goals exact fun _ => rfl
  | setDebugTraps debugTraps => exact (traps debugTraps rfl).bind fun _ => .pure _
  | startRecording => exact firm.setting (same _)
  | startReplay trace => exact firm.setting (same _)
  | takeTrace =>
      refine Keeps.bind (.get_bind fun look => ?_) fun _ => .pure _
      split
      · exact (firm.own (same _)).bind fun _ => .pure _
      · exact .pure none

/-- **Debuggers keep what is firm.** -/
theorem sustained (firm : Firm mine holds) (requeue : ∀ id, Keeps holds (requeue id)) :
    Sustained holds :=
  ⟨firm.step, firm.nextReady, requeue⟩

end Firm

end NestedMachine.Hypervisor
