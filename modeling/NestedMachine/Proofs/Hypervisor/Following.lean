import NestedMachine.Proofs.Hypervisor.Operations
import NestedMachine.Proofs.Machine.Outcomes
import NestedMachine.Proofs.Memory.Congruence
import NestedMachine.Proofs.Pursuit

/-!
# Hypervisors that follow each other

A hypervisor looks at its own queues and settings, at the contexts apart from their address spaces,
and at the answers of the machine below.  Two hypervisors that look the same in this respect are
alike (`Hypervisor.Alike`).  The memory mode is left out, which matters to nothing but the loading
of programs, and so are the queue and the quantum, which matter to nothing but whose turn is next
and how long it is.  A pursuit is respected by service if related hypervisors are alike and if the
primitive operations follow each other (`RespectsService`): requests to the machine below, accesses
to the memory of a caller, changes of the hypervisor's own record and of contexts, and notes.  It is
respected by queues if they are the same as well, and programs are loaded alike (`RespectsQueues`),
and throughout if turns are of the same length (`Respects`).

Then ending, waking and running contexts follow as well, one function after the other, and where
pursuits are respected throughout, scheduling does.  What makes a system call is left open until the
end: whoever shows that calls follow each other (`dispatch`) has that whole runs do.
-/

namespace NestedMachine

set_option autoImplicit false

/-! ## What a hypervisor looks at -/

/-- Records that differ only in the host and in what is recorded. -/
def Supervisor.Alike (left right : Supervisor) : Prop :=
  right = { left with host := right.host, recording := right.recording }

/-- Records that differ only in the host, in what is recorded, in the memory mode, in the quantum,
in the queue and in what they are for the level above. -/
def Supervisor.LooksLike (left right : Supervisor) : Prop :=
  right = { left with
    host := right.host, recording := right.recording, mode := right.mode, quantum := right.quantum,
    ready := right.ready, relay := right.relay }

/-- A change of a record that leaves the host, what is recorded, the memory mode, the quantum and
the queue alone, and to which it makes no difference what the record is for the level above. -/
def Supervisor.Clerical (change : Supervisor → Supervisor) : Prop :=
  ∀ own host recording mode quantum ready relay,
    change { own with host, recording, mode, quantum, ready, relay } =
      { change own with
        host, recording, mode, quantum, ready, relay := (change { own with relay }).relay }

namespace Supervisor.Clerical

variable {change : Supervisor → Supervisor}

theorem same (clerical : Clerical change) (own : Supervisor) :
    change own = { change own with
      host := own.host, recording := own.recording, mode := own.mode, quantum := own.quantum,
      ready := own.ready } :=
  clerical own own.host own.recording own.mode own.quantum own.ready own.relay

theorem host (clerical : Clerical change) (own : Supervisor) : (change own).host = own.host := by
  have kept := congrArg Supervisor.host (clerical.same own)
  exact kept

theorem recording (clerical : Clerical change) (own : Supervisor) :
    (change own).recording = own.recording := by
  have kept := congrArg Supervisor.recording (clerical.same own)
  exact kept

theorem mode (clerical : Clerical change) (own : Supervisor) : (change own).mode = own.mode := by
  have kept := congrArg Supervisor.mode (clerical.same own)
  exact kept

theorem quantum (clerical : Clerical change) (own : Supervisor) :
    (change own).quantum = own.quantum := by
  have kept := congrArg Supervisor.quantum (clerical.same own)
  exact kept

theorem ready (clerical : Clerical change) (own : Supervisor) : (change own).ready = own.ready := by
  have kept := congrArg Supervisor.ready (clerical.same own)
  exact kept

end Supervisor.Clerical

namespace Supervisor.LooksLike

variable {left right : Supervisor}

/-- How a record has changed, told by one that looks like it. -/
theorem changed (alike : left.LooksLike right) {change : Supervisor → Supervisor}
    (clerical : Clerical change) :
    change right = { change left with
      host := right.host, recording := right.recording, mode := right.mode,
      quantum := right.quantum, ready := right.ready,
      relay := (change { left with relay := right.relay }).relay } := by
  have changed :=
    clerical left right.host right.recording right.mode right.quantum right.ready right.relay
  rwa [← show right = _ from alike] at changed

theorem change (alike : left.LooksLike right) {change : Supervisor → Supervisor}
    (clerical : Clerical change) : (change left).LooksLike (change right) := by
  unfold LooksLike
  rw [alike.changed clerical]

theorem relay (alike : left.LooksLike right) {change : Supervisor → Supervisor}
    (clerical : Clerical change) (same : left.relay = right.relay) :
    (change left).relay = (change right).relay := by
  rw [alike.changed clerical, ← same]

end Supervisor.LooksLike

namespace Hypervisor

/-- Hypervisors that look the same. -/
structure Alike (left right : Hypervisor) : Prop where
  own : left.own.LooksLike right.own
  context : ∀ id, Option.Rel Context.Alike (left.machine.context? id) (right.machine.context? id)

theorem Alike.refl (hypervisor : Hypervisor) : Alike hypervisor hypervisor := by
  refine ⟨rfl, ?_⟩
  intro id
  cases hypervisor.machine.context? id with
  | none => exact .none
  | some context => exact .some (.refl context)

namespace Alike

variable {left right : Hypervisor}

theorem owned (alike : Alike left right) : left.own.owned = right.own.owned :=
  (congrArg Supervisor.owned alike.own).symm

theorem orphans (alike : Alike left right) : left.own.orphans = right.own.orphans :=
  (congrArg Supervisor.orphans alike.own).symm

theorem stackSize (alike : Alike left right) : left.own.stackSize = right.own.stackSize :=
  (congrArg Supervisor.stackSize alike.own).symm

theorem debugTraps (alike : Alike left right) : left.own.debugTraps = right.own.debugTraps :=
  (congrArg Supervisor.debugTraps alike.own).symm

theorem canRun (alike : Alike left right) (id : ContextId) :
    canRun left.machine id = canRun right.machine id := by
  unfold Hypervisor.canRun
  have contexts := alike.context id
  generalize left.machine.context? id = found at contexts
  generalize right.machine.context? id = found' at contexts
  cases contexts with
  | none => rfl
  | some same => rw [same.eq]

theorem exitStatus (alike : Alike left right) (id : ContextId) :
    (left.machine.context? id).bind Context.exitStatus =
      (right.machine.context? id).bind Context.exitStatus := by
  have contexts := alike.context id
  generalize left.machine.context? id = found at contexts
  generalize right.machine.context? id = found' at contexts
  cases contexts with
  | none => rfl
  | some same => rw [same.eq]; rfl

theorem firstEnded (alike : Alike left right) (ids : List ContextId) :
    firstEnded left.machine ids = firstEnded right.machine ids := by
  unfold Hypervisor.firstEnded
  exact congrArg (List.findSome? · ids) (funext fun id => by rw [alike.exitStatus id])

theorem endedAmong (alike : Alike left right) (ids : List ContextId) :
    endedAmong left.machine ids = endedAmong right.machine ids := by
  unfold Hypervisor.endedAmong
  exact congrArg (List.filterMap · ids) (funext fun id => by rw [alike.exitStatus id])

end Alike

/-! ## Looking up and changing one context -/

/-- The address space of a context. -/
def spaceOf (hypervisor : Hypervisor) (id : ContextId) : Option AddressSpace :=
  Interpreter.spaceIn hypervisor.machine.interpreter.contexts id

theorem requireOwned_apply (id : ContextId) (hypervisor : Hypervisor) :
    requireOwned id hypervisor =
      if hypervisor.own.owned.contains id = true then .ok () hypervisor
      else .error (.unknownContext id) hypervisor := by
  unfold requireOwned
  rw [get_bind_apply]
  split <;> rfl

theorem contextOf_apply (id : ContextId) (hypervisor : Hypervisor) :
    contextOf id hypervisor =
      match hypervisor.machine.context? id with
      | some context => .ok context hypervisor
      | none => .error (.unknownContext id) hypervisor := by
  show (match hypervisor.machine.context? id with
    | some context => (pure context : HypervisorAction Context)
    | none => throw (HostError.unknownContext id)) hypervisor = _
  cases hypervisor.machine.context? id <;> rfl

theorem modifyContext_apply (id : ContextId) (change : Context → Context)
    (hypervisor : Hypervisor) :
    modifyContext id change hypervisor =
      match hypervisor.machine.context? id with
      | some _ => .ok () { hypervisor with machine := hypervisor.machine.modifyContext id change }
      | none => .error (.unknownContext id) hypervisor := by
  show EStateM.bind (contextOf id) _ hypervisor = _
  rw [EStateM.bind, contextOf_apply]
  cases hypervisor.machine.context? id <;> rfl

/-! ## Parts of operations

Four parts of longer operations, under names of their own. -/

/-- Have the machine below load a program, in the memory mode that the record holds. -/
def createContext (image : Image) (arguments : List String) : HypervisorAction ContextId := do
  let own := (← get).own
  below (Machine.create image ⟨own.mode, own.stackSize, arguments⟩)

theorem load_eq (image : Image) (arguments : List String) :
    load image arguments = (do
      let id ← createContext image arguments
      modifyOwn fun own => { own with owned := own.owned.insert id }
      enqueue id
      count fun counters => { counters with contextsCreated := counters.contextsCreated + 1 }
      note (.levelLoaded (← get).level id)
      return id) := by
  unfold load createContext
  rw [bind_assoc]

/-- Change the queue. -/
def rearrange (change : List ContextId → List ContextId) : HypervisorAction Unit :=
  modifyOwn fun own => { own with ready := change own.ready }

/-- A queue that a context has joined, unless it was there already. -/
def joined (id : ContextId) (ready : List ContextId) : List ContextId :=
  if ready.contains id then ready else ready ++ [id]

theorem makeReady_eq (id : ContextId) :
    makeReady id = (do
      setState id .ready
      rearrange (joined id)) := by
  refine congrArg (setState id .ready >>= ·) (funext fun _ => funext fun hypervisor => ?_)
  show (if hypervisor.own.ready.contains id then pure () else enqueue id : HypervisorAction Unit)
    hypervisor = .ok () { hypervisor with
      own := { hypervisor.own with ready := joined id hypervisor.own.ready } }
  unfold joined
  split <;> rfl

/-- Drop contexts that cannot run from the front of the queue. -/
def dropUnready : HypervisorAction Unit := do
  let hypervisor ← get
  rearrange (List.dropWhile fun id => !canRun hypervisor.machine id)

theorem nextReady_eq :
    nextReady = (do
      dropUnready
      return (← get).own.ready.head?) := rfl

/-- Carry out one instruction of a context that can run. -/
def stepLive (id : ContextId) : HypervisorAction (Option Trap) := do
  setState id .running
  match ← below (Machine.switch id 1) with
  | .timerInterrupt =>
      makeReady id
      return none
  | trap =>
      handleTrap id trap
      return some trap

/-- Tell the program break, or move it first.  A break that is refused stays, and the answer says
why. -/
def requestBreak (requested : Nat) : MemoryAction (Nat × Option Fault) := fun memory =>
  if requested = 0 then .ok (memory.space.layout.programBreak, none) memory
  else
    match Memory.setProgramBreak requested memory with
    | .ok moved after => .ok (moved, none) after
    | .error fault after => .ok (memory.space.layout.programBreak, some fault) after

theorem serveBreak_eq (id : ContextId) (call : Call) :
    serveBreak id call = (do
      match ← onMemory id (requestBreak call.first.toNat) with
      | .ok (programBreak, refused) =>
          if let some fault := refused then note (.breakRefused call.first.toNat fault)
          return .answer (Int64.ofNat programBreak)
      | .error fault => return .fault fault) := by
  unfold serveBreak
  refine congrArg (· >>= _) (congrArg (onMemory id) (funext fun memory => ?_))
  show (if call.first.toNat = 0 then _ else _ : MemoryAction (Nat × Option Fault)) memory = _
  unfold requestBreak
  split
  · rfl
  · show EStateM.bind (EStateM.tryCatch (EStateM.bind (Memory.setProgramBreak _) _) _) _ memory = _
    simp only [EStateM.bind, EStateM.tryCatch]
    cases Memory.setProgramBreak call.first.toNat memory <;> rfl

/-- A note after which the condition of a pursuit is lost. -/
def Damning (pursuit : Pursuit HostError Hypervisor Hypervisor) (note : Note) : Prop :=
  ∀ hypervisor : Hypervisor,
    ¬pursuit.future { hypervisor with machine := hypervisor.machine.note note }

/-- The primitive operations that serve the contexts of related hypervisors follow each other. -/
structure RespectsService (pursuit : Pursuit HostError Hypervisor Hypervisor)
    (alike : Note → Note → Prop) : Prop where
  looks : ∀ left right, pursuit.related left right → Alike left right
  refl : ∀ note, alike note note
  switched : ∀ left right id, pursuit.related left right →
    alike (.switched left.level id) (.switched right.level id)
  note : ∀ {happening other}, alike happening other →
    pursuit.Follows Eq (note happening) (note other)
  modifyOwn : ∀ {change}, Supervisor.Clerical change →
    pursuit.Follows Eq (modifyOwn change) (modifyOwn change)
  join : ∀ id, pursuit.Follows Eq (rearrange (joined id)) (rearrange (joined id))
  dequeue : ∀ id, pursuit.Follows Eq (dequeue id) (dequeue id)
  modifyContext : ∀ id {change}, Context.SpaceBlind change →
    pursuit.Follows Eq (modifyContext id change) (modifyContext id change)
  destroy : ∀ id, pursuit.Follows Eq (below (Machine.destroy id)) (below (Machine.destroy id))
  switch : ∀ id quantum, pursuit.Follows Eq (below (Machine.switch id quantum))
    (below (Machine.switch id quantum))
  release : ∀ id, pursuit.Follows
    (fun released released' => ∀ status,
      alike (.terminated id status released) (.terminated id status released'))
    (below (Machine.release id)) (below (Machine.release id))
  fork : ∀ id, pursuit.FollowsUnless
    (fun child => child = none ∧ Damning pursuit (.forkRefused id))
    (below (Machine.fork id)) (below (Machine.fork id))
  requestBreak : ∀ id requested, pursuit.FollowsUnless
    (fun answer => ∃ current, answer = .ok (current, some .outOfFrames) ∧
      Damning pursuit (.breakRefused requested .outOfFrames))
    (onMemory id (requestBreak requested)) (onMemory id (requestBreak requested))
  callerMemory : ∀ {α : Type} id call {action : MemoryAction α}, Memory.Congruent action →
    pursuit.Follows Eq (onCallerMemory id call action) (onCallerMemory id call action)

/-- The primitive operations of related hypervisors follow each other, and their queues are the
same. -/
structure RespectsQueues (pursuit : Pursuit HostError Hypervisor Hypervisor)
    (alike : Note → Note → Prop) : Prop extends RespectsService pursuit alike where
  queue : ∀ left right, pursuit.related left right → left.own.ready = right.own.ready
  rearrange : ∀ change, pursuit.Follows Eq (rearrange change) (rearrange change)
  levelLoaded : ∀ left right id, pursuit.related left right →
    alike (.levelLoaded left.level id) (.levelLoaded right.level id)
  setMemoryMode : ∀ mode, pursuit.Follows Eq (setMemoryMode mode) (setMemoryMode mode)
  create : ∀ image arguments, pursuit.Follows Eq (createContext image arguments)
    (createContext image arguments)

/-- The primitive operations of related hypervisors follow each other, and their queues and quanta
are the same. -/
structure Respects (pursuit : Pursuit HostError Hypervisor Hypervisor)
    (alike : Note → Note → Prop) : Prop extends RespectsQueues pursuit alike where
  quantum : ∀ left right, pursuit.related left right → left.own.quantum = right.own.quantum

section Lifecycle

variable {pursuit : Pursuit HostError Hypervisor Hypervisor} {alike : Note → Note → Prop}
  {α β : Type} {same : α → β → Prop}

/-! ## Looking and changing -/

namespace RespectsService

theorem get_bind (respects : RespectsService pursuit alike) {next : Hypervisor → HypervisorAction α}
    {next' : Hypervisor → HypervisorAction β}
    (rest : ∀ left right, Alike left right → pursuit.Follows same (next left) (next' right)) :
    pursuit.Follows same (get >>= next) (get >>= next') :=
  .get_bind Alike.refl respects.looks rest

/-- A context may be looked at, apart from its address space. -/
theorem contextOf_bind (respects : RespectsService pursuit alike) (id : ContextId)
    {next : Context → HypervisorAction α} {next' : Context → HypervisorAction β}
    (rest : ∀ left right, Context.Alike left right →
      pursuit.Follows same (next left) (next' right)) :
    pursuit.Follows same (contextOf id >>= next) (contextOf id >>= next') := by
  have found : pursuit.Follows Context.Alike (contextOf id) (contextOf id) := by
    apply respects.get_bind
    intro left right states
    have contexts := states.context id
    generalize left.machine.context? id = found at contexts
    generalize right.machine.context? id = found' at contexts
    cases contexts with
    | none => exact .throw _
    | some same => exact .pure same
  exact found.bind (fun context => ⟨context, .refl context⟩) rest

theorem requireOwned (respects : RespectsService pursuit alike) (id : ContextId) :
    pursuit.Follows Eq (requireOwned id) (requireOwned id) := by
  apply respects.get_bind
  intro left right states
  rw [states.owned]
  exact .ite (fun _ => .pure rfl) fun _ => .throw _

theorem setState (respects : RespectsService pursuit alike) (id : ContextId)
    (state : ContextState) : pursuit.Follows Eq (setState id state) (setState id state) :=
  respects.modifyContext id fun _ _ => rfl

theorem count (respects : RespectsService pursuit alike) (change : Counters → Counters) :
    pursuit.Follows Eq (count change) (count change) :=
  respects.modifyOwn fun _ _ _ _ _ _ _ => rfl

/-- What a hypervisor tells of an owned context, apart from its address space, is the same. -/
theorem ownedContext_bind (respects : RespectsService pursuit alike) (id : ContextId)
    {next : Context → HypervisorAction α} {next' : Context → HypervisorAction β}
    (rest : ∀ left right, Context.Alike left right →
      pursuit.Follows same (next left) (next' right)) :
    pursuit.Follows same (Hypervisor.requireOwned id >>= fun _ => contextOf id >>= next)
      (Hypervisor.requireOwned id >>= fun _ => contextOf id >>= next') :=
  (respects.requireOwned id).bind_eq fun _ => respects.contextOf_bind id rest

theorem exitStatusOf (respects : RespectsService pursuit alike) (id : ContextId) :
    pursuit.Follows Eq (exitStatusOf id) (exitStatusOf id) := by
  apply respects.ownedContext_bind id
  intro left right same
  rw [same.eq]
  exact .pure rfl

/-! ## How contexts begin and end -/

theorem makeReady (respects : RespectsService pursuit alike) (id : ContextId) :
    pursuit.Follows Eq (makeReady id) (makeReady id) := by
  rw [makeReady_eq]
  exact (respects.setState id .ready).bind_eq fun _ => respects.join id

theorem discard (respects : RespectsService pursuit alike) (id : ContextId) :
    pursuit.Follows Eq (discard id) (discard id) := by
  refine (respects.destroy id).bind_eq fun _ => ?_
  refine (respects.modifyOwn fun _ _ _ _ _ _ _ => rfl).bind_eq fun _ => ?_
  exact respects.dequeue id

theorem wakeParent (respects : RespectsService pursuit alike) (parent child : ContextId) :
    pursuit.Follows Eq (wakeParent parent child) (wakeParent parent child) := by
  apply respects.get_bind
  intro left right states
  have contexts := states.context parent
  generalize left.machine.context? parent = found at contexts
  generalize right.machine.context? parent = found' at contexts
  cases contexts with
  | none => exact .pure rfl
  | some same =>
      rw [same.eq]
      refine .ite (fun _ => ?_) fun _ => .pure rfl
      exact (respects.note (respects.refl _)).bind_eq fun _ => respects.makeReady parent

theorem disown (respects : RespectsService pursuit alike) (child : ContextId) :
    pursuit.Follows Eq (disown child) (disown child) := by
  apply respects.get_bind
  intro left right states
  have contexts := states.context child
  generalize left.machine.context? child = found at contexts
  generalize right.machine.context? child = found' at contexts
  cases contexts with
  | none => exact .pure rfl
  | some same =>
      rw [same.eq]
      refine (respects.modifyContext child fun _ _ => rfl).bind_eq fun _ => ?_
      refine .ite (fun _ => respects.discard child) fun _ => ?_
      exact respects.modifyOwn fun _ _ _ _ _ _ _ => rfl

theorem disownAll (respects : RespectsService pursuit alike) (children : List ContextId) :
    pursuit.Follows Eq (disownAll children) (disownAll children) := by
  induction children with
  | nil => exact .pure rfl
  | cons child rest ih => exact (respects.disown child).bind_eq fun _ => ih

theorem settle (respects : RespectsService pursuit alike) (id : ContextId)
    (parent : Option ContextId) :
    pursuit.Follows Eq (settle id parent) (settle id parent) := by
  apply respects.get_bind
  intro left right states
  rw [states.orphans]
  refine .ite (fun _ => ?_) fun _ => ?_
  · exact (respects.modifyOwn fun _ _ _ _ _ _ _ => rfl).bind_eq fun _ => respects.discard id
  · cases parent with
    | none => exact .pure rfl
    | some parent => exact respects.wakeParent parent id

theorem terminate (respects : RespectsService pursuit alike) (id : ContextId)
    (status : ExitStatus) : pursuit.Follows Eq (terminate id status) (terminate id status) := by
  refine (respects.release id).bind (fun released => ⟨released, fun _ => respects.refl _⟩)
    fun released released' told => ?_
  apply respects.contextOf_bind id
  intro left right same
  rw [same.eq]
  refine (respects.modifyContext id fun _ _ => rfl).bind_eq fun _ => ?_
  refine (respects.dequeue id).bind_eq fun _ => ?_
  refine (respects.count _).bind_eq fun _ => ?_
  refine (respects.note (told status)).bind_eq fun _ => ?_
  exact (respects.disownAll _).bind_eq fun _ => respects.settle id _

theorem handleFault (respects : RespectsService pursuit alike) (id : ContextId) (fault : Fault)
    (pc : UInt64) : pursuit.Follows Eq (handleFault id fault pc) (handleFault id fault pc) := by
  refine (respects.count _).bind_eq fun _ => ?_
  refine (respects.note (respects.refl _)).bind_eq fun _ => ?_
  apply respects.get_bind
  intro left right states
  rw [states.debugTraps]
  refine .ite (fun _ => ?_) fun _ => respects.terminate id _
  exact (respects.setState id _).bind_eq fun _ => respects.dequeue id

theorem kill (respects : RespectsService pursuit alike) (parent child : ContextId) :
    pursuit.Follows Eq (kill parent child) (kill parent child) := by
  apply respects.get_bind
  intro left right states
  rw [states.owned]
  refine .ite (fun _ => .pure rfl) fun _ => ?_
  apply respects.contextOf_bind child
  intro left right same
  rw [same.eq]
  refine .ite (fun _ => .pure rfl) fun _ => ?_
  exact (respects.terminate child .killed).bind_eq fun _ => .pure rfl

theorem reap (respects : RespectsService pursuit alike) (id : ContextId) :
    pursuit.Follows Eq (reap id) (reap id) := by
  refine (respects.requireOwned id).bind_eq fun _ => ?_
  apply respects.contextOf_bind id
  intro left right same
  rw [same.eq]
  refine .ite (fun _ => ?_) fun _ => .pure rfl
  exact (respects.discard id).bind_eq fun _ => .pure rfl

theorem finalizeTrapped (respects : RespectsService pursuit alike) (id : ContextId) :
    pursuit.Follows Eq (finalizeTrapped id) (finalizeTrapped id) := by
  refine (respects.requireOwned id).bind_eq fun _ => ?_
  apply respects.contextOf_bind id
  intro left right same
  rw [same.eq]
  dsimp only
  split
  · exact (respects.terminate id _).bind_eq fun _ => .pure rfl
  · exact .throw _

/-! ## Calls within the machine -/

theorem serveKill (respects : RespectsService pursuit alike) (id : ContextId) (call : Call) :
    pursuit.Follows Eq (serveKill id call) (serveKill id call) := by
  unfold Hypervisor.serveKill
  cases contextNamed? call.first with
  | none => exact .pure rfl
  | some target => exact (respects.kill id target).bind_eq fun _ => .pure rfl

/-- A break that is refused for lack of frames, and noted, is followed by anything. -/
theorem serveBreak (respects : RespectsService pursuit alike) (id : ContextId) (call : Call) :
    pursuit.Follows Eq (serveBreak id call) (serveBreak id call) := by
  rw [serveBreak_eq]
  refine (respects.requestBreak id call.first.toNat).bind (fun answer => ?_) ?_
  · cases answer with
    | error fault => exact .pure rfl
    | ok found =>
        obtain ⟨programBreak, refused⟩ := found
        cases refused with
        | none => exact .pure rfl
        | some fault => exact (respects.note (respects.refl _)).bind_eq fun _ => .pure rfl
  · rintro _ ⟨current, rfl, damning⟩ state outcome
    exact pursuit.follow_of_lost (damning state)

/-- A fork that is refused, and noted, is followed by anything. -/
theorem serveFork (respects : RespectsService pursuit alike) (id : ContextId) :
    pursuit.Follows Eq (serveFork id) (serveFork id) := by
  refine (respects.fork id).bind (fun child => ?_) ?_
  · cases child with
    | none => exact (respects.note (respects.refl _)).bind_eq fun _ => .pure rfl
    | some child =>
        refine (respects.count _).bind_eq fun _ => ?_
        refine (respects.modifyOwn fun _ _ _ _ _ _ _ => rfl).bind_eq fun _ => ?_
        refine (respects.modifyContext child fun _ _ => rfl).bind_eq fun _ => ?_
        refine (respects.makeReady child).bind_eq fun _ => ?_
        exact (respects.note (respects.refl _)).bind_eq fun _ => .pure rfl
  · rintro _ ⟨rfl, damning⟩ state outcome
    exact pursuit.follow_of_lost (damning state)

theorem serveWait (respects : RespectsService pursuit alike) (id : ContextId) (call : Call) :
    pursuit.Follows Eq (serveWait id call) (serveWait id call) := by
  apply respects.contextOf_bind id
  intro left right same
  rw [same.eq]
  refine .ite (fun _ => .pure rfl) fun _ => ?_
  apply respects.get_bind
  intro left' right' states
  rw [states.firstEnded]
  generalize firstEnded right'.machine _ = ended
  cases ended with
  | none => exact .pure rfl
  | some found =>
      obtain ⟨child, status⟩ := found
      refine .ite (fun _ => ?_) fun _ => (respects.reap child).bind_eq fun _ => .pure rfl
      refine (respects.callerMemory id call (.store _ _)).bind_eq ?_
      intro stored
      cases stored with
      | ok answer => exact (respects.reap child).bind_eq fun _ => .pure rfl
      | error fault => exact .pure rfl

/-- **Calls within the machine follow each other.** -/
theorem serve_within (respects : RespectsService pursuit alike) (id : ContextId) (call : Call)
    {kind : Option SystemCall} (within : kind.all (!·.reachesHost) = true) :
    pursuit.Follows Eq (serve id call kind) (serve id call kind) := by
  cases kind with
  | none => exact .pure rfl
  | some kind =>
      cases kind with
      | exit => exact .pure rfl
      | yield => exact .pure rfl
      | kill => exact (respects.serveKill id call).bind_eq fun _ => .pure rfl
      | setBreak => exact (respects.serveBreak id call).bind_eq fun _ => .pure rfl
      | fork => exact (respects.serveFork id).bind_eq fun _ => .pure rfl
      | wait => exact (respects.serveWait id call).bind_eq fun _ => .pure rfl
      | _ => cases within

/-! ## Scheduling

From here on it is given that system calls follow each other. -/

variable (calls : ∀ id, pursuit.Follows Eq (dispatch id) (dispatch id))
include calls

theorem serviceCall (respects : RespectsService pursuit alike) (id : ContextId) :
    pursuit.Follows Eq (serviceCall id) (serviceCall id) := by
  refine (respects.setState id _).bind_eq fun _ => ?_
  apply respects.contextOf_bind id
  intro left right same
  rw [same.eq]
  apply (calls id).bind_eq
  intro outcome
  cases outcome with
  | answer value =>
      refine (respects.modifyContext id fun _ _ => rfl).bind_eq fun _ => ?_
      exact respects.makeReady id
  | exit code =>
      refine (respects.modifyContext id fun _ _ => rfl).bind_eq fun _ => ?_
      exact respects.terminate id _
  | block reason => exact respects.setState id _
  | fault fault => exact respects.handleFault id fault _

theorem handleTrap (respects : RespectsService pursuit alike) (id : ContextId) (trap : Trap) :
    pursuit.Follows Eq (handleTrap id trap) (handleTrap id trap) := by
  cases trap with
  | timerInterrupt => exact (respects.count _).bind_eq fun _ => respects.makeReady id
  | environmentCall => exact respects.serviceCall calls id
  | fault fault pc => exact respects.handleFault id fault pc

theorem slice (respects : RespectsService pursuit alike) (id : ContextId) (quantum : Nat) :
    pursuit.Follows Eq (slice id quantum) (slice id quantum) := by
  refine (respects.requireOwned id).bind_eq fun _ => ?_
  apply respects.contextOf_bind id
  intro left right same
  rw [same.eq]
  refine .ite (fun _ => .throw _) fun _ => ?_
  refine (respects.setState id _).bind_eq fun _ => ?_
  refine (respects.count _).bind_eq fun _ => ?_
  refine .get_bind (fun _ => respects.refl _) (respects.switched · · id)
    fun left' right' alike => ?_
  refine (respects.note alike).bind_eq fun _ => ?_
  apply (respects.switch id quantum).bind_eq
  intro trap
  exact (respects.handleTrap calls id trap).bind_eq fun _ => .pure rfl

theorem stepLive (respects : RespectsService pursuit alike) (id : ContextId) :
    pursuit.Follows Eq (stepLive id) (stepLive id) := by
  refine (respects.setState id _).bind_eq fun _ => ?_
  apply (respects.switch id 1).bind_eq
  intro trap
  cases trap with
  | timerInterrupt => exact (respects.makeReady id).bind_eq fun _ => .pure rfl
  | environmentCall => exact (respects.handleTrap calls id _).bind_eq fun _ => .pure rfl
  | fault => exact (respects.handleTrap calls id _).bind_eq fun _ => .pure rfl

theorem step (respects : RespectsService pursuit alike) (id : ContextId) :
    pursuit.Follows Eq (step id) (step id) := by
  refine (respects.requireOwned id).bind_eq fun _ => ?_
  apply respects.contextOf_bind id
  intro left right same
  rw [same.eq]
  dsimp only
  cases left.state with
  | blocked reason => exact .pure rfl
  | ready => exact respects.stepLive calls id
  | running => exact respects.stepLive calls id
  | trapped => exact .throw _
  | exited => exact .throw _

end RespectsService

/-! ## Queues that are the same -/

namespace RespectsQueues

/-- The queue may be looked at. -/
theorem queue_bind (respects : RespectsQueues pursuit alike)
    {next : Hypervisor → HypervisorAction α} {next' : Hypervisor → HypervisorAction β}
    (rest : ∀ left right, left.own.ready = right.own.ready →
      pursuit.Follows same (next left) (next' right)) :
    pursuit.Follows same (get >>= next) (get >>= next') := by
  refine .get_bind ?_ respects.queue rest
  exact fun _ => rfl

theorem enqueue (respects : RespectsQueues pursuit alike) (id : ContextId) :
    pursuit.Follows Eq (enqueue id) (enqueue id) :=
  respects.rearrange (· ++ [id])

theorem load (respects : RespectsQueues pursuit alike) (image : Image) (arguments : List String) :
    pursuit.Follows Eq (load image arguments) (load image arguments) := by
  rw [load_eq]
  apply (respects.create image arguments).bind_eq
  intro id
  refine (respects.modifyOwn fun _ _ _ _ _ _ _ => rfl).bind_eq fun _ => ?_
  refine (respects.enqueue id).bind_eq fun _ => ?_
  refine (respects.count _).bind_eq fun _ => ?_
  refine .get_bind (fun _ => respects.refl _) (respects.levelLoaded · · id)
    fun left right alike => ?_
  exact (respects.note alike).bind_eq fun _ => .pure rfl

theorem nextReady (respects : RespectsQueues pursuit alike) :
    pursuit.Follows Eq nextReady nextReady := by
  have dropped : pursuit.Follows Eq dropUnready dropUnready := by
    apply respects.get_bind
    intro left right states
    rw [show canRun left.machine = canRun right.machine from funext states.canRun]
    exact respects.rearrange _
  rw [nextReady_eq]
  refine dropped.bind_eq fun _ => ?_
  apply respects.queue_bind
  intro left right queue
  rw [queue]
  exact .pure rfl

theorem requeue (respects : RespectsQueues pursuit alike) (id : ContextId) :
    pursuit.Follows Eq (requeue id) (requeue id) := by
  refine (respects.dequeue id).bind_eq fun _ => ?_
  apply respects.get_bind
  intro left right states
  rw [states.canRun]
  exact .ite (fun _ => respects.enqueue id) fun _ => .pure rfl

end RespectsQueues

/-! ## Quanta that are the same -/

namespace Respects

/-- The quantum may be looked at. -/
theorem quantum_bind (respects : Respects pursuit alike) {next : Hypervisor → HypervisorAction α}
    {next' : Hypervisor → HypervisorAction β}
    (rest : ∀ left right, left.own.quantum = right.own.quantum →
      pursuit.Follows same (next left) (next' right)) :
    pursuit.Follows same (get >>= next) (get >>= next') := by
  refine .get_bind ?_ respects.quantum rest
  exact fun _ => rfl

variable (calls : ∀ id, pursuit.Follows Eq (dispatch id) (dispatch id))
include calls

theorem scheduleOnce (respects : Respects pursuit alike) :
    pursuit.Follows Eq scheduleOnce scheduleOnce := by
  apply respects.nextReady.bind_eq
  intro next
  cases next with
  | none => exact .pure rfl
  | some id =>
      refine (respects.rearrange List.tail).bind_eq fun _ => ?_
      apply respects.quantum_bind
      intro left right same
      rw [same]
      exact (respects.slice calls id _).bind_eq fun _ => .pure rfl

/-! ## Runs -/

theorem awaitOnce (respects : Respects pursuit alike) (id : ContextId) :
    pursuit.Follows Eq (awaitOnce id) (awaitOnce id) := by
  apply respects.contextOf_bind id
  intro left right same
  rw [same.eq]
  dsimp only
  split
  · exact .pure rfl
  · exact (respects.finalizeTrapped id).bind_eq fun _ => .pure rfl
  · apply (respects.scheduleOnce calls).bind_eq
    intro scheduled
    exact .ite (fun _ => .throw _) fun _ => .pure rfl

theorem await (respects : Respects pursuit alike) (id : ContextId) (rounds : Nat) :
    pursuit.Follows Eq (await id rounds) (await id rounds) := by
  induction rounds with
  | zero => exact .pure rfl
  | succ rounds ih =>
      apply (respects.awaitOnce calls id).bind_eq
      intro ended
      cases ended with
      | some status => exact .pure rfl
      | none => exact ih

theorem run (respects : Respects pursuit alike) (rounds : Nat) (id : ContextId) :
    pursuit.Follows Eq (run rounds id) (run rounds id) :=
  (respects.requireOwned id).bind_eq fun _ => respects.await calls id rounds

theorem exhaust (respects : Respects pursuit alike) (rounds : Nat) :
    pursuit.Follows Eq (exhaust rounds) (exhaust rounds) := by
  induction rounds with
  | zero => exact .pure rfl
  | succ rounds ih =>
      apply (respects.scheduleOnce calls).bind_eq
      intro scheduled
      cases scheduled with
      | some id => exact ih
      | none => exact .pure rfl

theorem runAll (respects : Respects pursuit alike) (rounds : Nat) :
    pursuit.Follows Eq (runAll rounds) (runAll rounds) := by
  apply (respects.exhaust calls rounds).bind_eq
  intro finished
  refine .ite (fun _ => ?_) fun _ => .pure rfl
  apply respects.get_bind
  intro left right states
  rw [states.endedAmong, states.owned]
  exact .pure rfl

/-! ## Operations -/

/-- **Every operation that drives contexts is followed.** -/
theorem operation (respects : Respects pursuit alike) {operation : Operation}
    (drives : operation.drives = true) :
    pursuit.Follows Eq operation.perform operation.perform := by
  cases operation with
  | load image arguments => exact (respects.load image arguments).bind_eq fun _ => .pure rfl
  | run rounds id => exact (respects.run calls rounds id).bind_eq fun _ => .pure rfl
  | runAll rounds => exact (respects.runAll calls rounds).bind_eq fun _ => .pure rfl
  | scheduleOnce => exact (respects.scheduleOnce calls).bind_eq fun _ => .pure rfl
  | slice id quantum => exact (respects.slice calls id quantum).bind_eq fun _ => .pure rfl
  | step id => exact (respects.step calls id).bind_eq fun _ => .pure rfl
  | kill parent child => exact (respects.kill parent child).bind_eq fun _ => .pure rfl
  | reap id => exact (respects.reap id).bind_eq fun _ => .pure rfl
  | finalizeTrapped id => exact (respects.finalizeTrapped id).bind_eq fun _ => .pure rfl
  | requeue id => exact (respects.requeue id).bind_eq fun _ => .pure rfl
  | nextReady => exact respects.nextReady.bind_eq fun _ => .pure rfl
  | pcOf id =>
      have found : pursuit.Follows Eq (pcOf id) (pcOf id) := by
        apply respects.ownedContext_bind id
        intro left right same
        rw [same.hart]
        exact .pure rfl
      exact found.bind_eq fun _ => .pure rfl
  | exitStatusOf id => exact (respects.exitStatusOf id).bind_eq fun _ => .pure rfl
  | setMemoryMode mode => exact (respects.setMemoryMode mode).bind_eq fun _ => .pure rfl
  | setDebugTraps debugTraps =>
      exact (respects.modifyOwn fun _ _ _ _ _ _ _ => rfl).bind_eq fun _ => .pure rfl
  | _ => cases drives

end Respects

end Lifecycle

end Hypervisor

end NestedMachine
