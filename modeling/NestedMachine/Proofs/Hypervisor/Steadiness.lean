import NestedMachine.Proofs.Hypervisor.Discretion
import NestedMachine.Proofs.Hypervisor.Events
import NestedMachine.Proofs.Hypervisor.Levels

/-!
# Steady hypervisors

A hypervisor is steady if no frame of its machine is lost or shared and every level hosts the
contexts of the interpreter (`Steady`).  A freshly built stack is steady, and whatever happens to it
keeps it so, whether it succeeds or stops midway (`Event.keeps_steady`): operations, a debugger, and
requests of the level above, as long as the latter leave address spaces to the machine.

Only the primitive operations have to be looked at.  A run follows itself over its levels, and if
every primitive operation keeps a property as well (`Abiding`), it follows itself as long as the
property holds (`keeping`); so what is known of hypervisors that follow each other is used for a
single one (`Abiding.respects`, `Abiding.keeps`).
-/

namespace NestedMachine.Hypervisor

set_option autoImplicit false

open Std (TreeSet)

variable {α : Type} {capacity : Nat}

/-- No frame is lost or shared, and every level hosts the contexts of the interpreter. -/
structure Steady (capacity : Nat) (hypervisor : Hypervisor) : Prop where
  sound : hypervisor.machine.interpreter.Sound capacity
  uniform : hypervisor.machine.Uniform

/-- Numbers in use are below the next one. -/
theorem Steady.young {hypervisor : Hypervisor} (steady : Steady capacity hypervisor)
    {id : ContextId} {kin : Kin} (found : hypervisor.kin id = some kin) :
    id < hypervisor.machine.interpreter.nextId := by
  obtain ⟨context, there, -⟩ := Option.map_eq_some_iff.mp found
  exact steady.sound.young id context.space (congrArg (Option.map Context.space) there)

/-! ## The primitive operations -/

/-- Whatever goes on within one address space keeps a hypervisor steady. -/
theorem Discreet.keeps_steady {holder : ContextId} {told : α → Prop} {action : HypervisorAction α}
    (discreet : Discreet holder told action) : Keeps (Steady capacity) action :=
  fun origin steady => (discreet origin steady.uniform).mono
    (fun _ _ given => ⟨given.1.sound capacity steady.sound, given.1.uniform⟩)
    fun _ _ given => ⟨given.1.sound capacity steady.sound, given.1.uniform⟩

/-- Requests that levels pass on keep a hypervisor steady if they keep the interpreter sound. -/
theorem keeps_steady_below {action : MachineAction α} {request : InterpreterAction α}
    (transparent : ∀ machine : Machine, machine.Uniform → machine.Transparent action request)
    (keeps : ∀ machine : Interpreter, machine.Sound capacity →
      (finalState (request machine)).Sound capacity) :
    Keeps (Steady capacity) (below action) := by
  intro origin steady
  apply halts_below (transparent origin.machine steady.uniform)
  have kept := keeps origin.machine.interpreter steady.sound
  generalize request origin.machine.interpreter = result at kept
  cases result with
  | ok answer after => exact fun relays uniform => ⟨kept, uniform⟩
  | error error after => exact fun relays uniform => ⟨kept, uniform⟩

theorem keeps_steady_create (image : Image) (options : LoadOptions) :
    Keeps (Steady capacity) (below (Machine.create image options)) :=
  keeps_steady_below (fun _ uniform => uniform.create image options)
    fun _ sound => sound.create image options

theorem keeps_steady_fork (parent : ContextId) :
    Keeps (Steady capacity) (below (Machine.fork parent)) :=
  keeps_steady_below (fun _ uniform => uniform.fork parent) fun _ sound => sound.fork parent

theorem keeps_steady_release (id : ContextId) :
    Keeps (Steady capacity) (below (Machine.release id)) :=
  keeps_steady_below (fun _ uniform => uniform.release id) fun _ sound => sound.release id

theorem keeps_steady_destroy (id : ContextId) :
    Keeps (Steady capacity) (below (Machine.destroy id)) :=
  keeps_steady_below (fun _ uniform => uniform.destroy id) fun _ sound => sound.destroy id

theorem keeps_steady_switch (id : ContextId) (quantum : Nat) :
    Keeps (Steady capacity) (below (Machine.switch id quantum)) :=
  keeps_steady_below (fun _ uniform => uniform.switch id quantum)
    fun _ sound => sound.switch id quantum

theorem keeps_steady_modifyOwn (change : Supervisor → Supervisor) :
    Keeps (Steady capacity) (modifyOwn change) :=
  .modify fun _ steady => ⟨steady.sound, steady.uniform⟩

/-- Changes that leave the address space of a context alone keep a machine steady. -/
theorem Steady.modifyContext {hypervisor : Hypervisor} (steady : Steady capacity hypervisor)
    (id : ContextId) {change : Context → Context}
    (space : ∀ context, (change context).space = context.space) :
    Steady capacity ⟨hypervisor.machine.modifyContext id change, hypervisor.own⟩ := by
  unfold Machine.modifyContext
  split
  · exact ⟨steady.sound.modifyContext space,
      steady.uniform.congr rfl fun _ => Std.TreeMap.contains_modify⟩
  · exact steady

theorem keeps_steady_modifyContext (id : ContextId) {change : Context → Context}
    (space : ∀ context, (change context).space = context.space) :
    Keeps (Steady capacity) (modifyContext id change) := by
  intro origin steady
  rw [modifyContext_apply]
  cases origin.machine.context? id with
  | none => exact steady
  | some context => exact steady.modifyContext id space

/-! ## Operations that drive contexts -/

/-- A property of hypervisors with uniform levels that the primitive operations keep, apart from
those that turn to the host or to what is recorded. -/
structure Abiding (holds : Hypervisor → Prop) : Prop where
  uniform : ∀ hypervisor, holds hypervisor → hypervisor.machine.Uniform
  note : ∀ happening, Keeps holds (note happening)
  modifyOwn : ∀ {change}, Supervisor.Clerical change → Keeps holds (modifyOwn change)
  rearrange : ∀ change, Keeps holds (rearrange change)
  setMemoryMode : ∀ mode, Keeps holds (setMemoryMode mode)
  modifyContext : ∀ id {change}, Context.SpaceBlind change → Keeps holds (modifyContext id change)
  onMemory : ∀ {α : Type} id {action : MemoryAction α}, Memory.Careful action →
    Keeps holds (onMemory id action)
  create : ∀ image options, Keeps holds (below (Machine.create image options))
  destroy : ∀ id, Keeps holds (below (Machine.destroy id))
  switch : ∀ id quantum, Keeps holds (below (Machine.switch id quantum))
  release : ∀ id, Keeps holds (below (Machine.release id))
  fork : ∀ id, Keeps holds (below (Machine.fork id))

/-- The comparison of a run with itself, as long as a property holds. -/
def keeping (holds : Hypervisor → Prop) : Pursuit HostError Hypervisor Hypervisor :=
  .evenly fun left right => SameAbove .upToLevels left right ∧ holds left

section Keeping

variable {holds : Hypervisor → Prop} {same : α → α → Prop} {action other : HypervisorAction α}

theorem follows_keeping (follows : (levels .upToLevels).Follows same action other)
    (keeps : Keeps holds action) : (keeping holds).Follows same action other := by
  apply Pursuit.follows_evenly
  rintro left right ⟨states, given⟩
  have outcome := follows.agrees left right states
  have kept := keeps left given
  generalize action left = result at outcome kept
  generalize other right = result' at outcome
  cases outcome with
  | answer alike states' => exact .answer alike ⟨states', kept⟩
  | failure states' => exact .failure ⟨states', kept⟩
  | excuse reason => exact reason.elim

namespace Abiding

theorem keeps (abiding : Abiding holds) (follows : (keeping holds).Follows same action other) :
    Keeps holds action := by
  intro origin given
  have uniform := abiding.uniform origin given
  have itself : SameAbove .upToLevels origin origin :=
    ⟨rfl, .mk origin.machine.interpreter ⟨rfl, rfl⟩, uniform, uniform⟩
  have outcome := follows.agrees origin origin ⟨itself, given⟩
  generalize action origin = result at outcome
  generalize other origin = result' at outcome
  cases outcome with
  | answer _ states => exact states.2
  | failure states => exact states.2
  | excuse reason => exact reason.elim

theorem callerMemory (abiding : Abiding holds) (id : ContextId) (call : Call)
    {action : MemoryAction α} (congruent : Memory.Congruent action) :
    Keeps holds (onCallerMemory id call action) := by
  refine (abiding.onMemory id congruent.careful).bind fun answer => ?_
  split
  · exact .throw _
  · exact .pure _

/-- **What the primitive operations keep is kept by whatever is made of them.** -/
theorem respects (abiding : Abiding holds) :
    Respects (keeping holds) JournalView.upToLevels.alike :=
  have respects := respects_levels JournalView.levelBlind_upToLevels
  { looks := fun left right states => respects.looks left right states.1
    refl := respects.refl
    switched := fun left right id states => respects.switched left right id states.1
    levelLoaded := fun left right id states => respects.levelLoaded left right id states.1
    note := fun alike => follows_keeping (respects.note alike) (abiding.note _)
    modifyOwn := fun clerical =>
      follows_keeping (respects.modifyOwn clerical) (abiding.modifyOwn clerical)
    queue := fun left right states => respects.queue left right states.1
    quantum := fun left right states => respects.quantum left right states.1
    rearrange := fun change =>
      follows_keeping (respects.rearrange change) (abiding.rearrange change)
    join := fun id => follows_keeping (respects.join id) (abiding.rearrange _)
    dequeue := fun id => follows_keeping (respects.dequeue id) (abiding.rearrange _)
    modifyContext := fun id _ blind =>
      follows_keeping (respects.modifyContext id blind) (abiding.modifyContext id blind)
    setMemoryMode := fun mode =>
      follows_keeping (respects.setMemoryMode mode) (abiding.setMemoryMode mode)
    create := fun image arguments =>
      follows_keeping (respects.create image arguments)
        (.get_bind fun _ => abiding.create image _)
    destroy := fun id => follows_keeping (respects.destroy id) (abiding.destroy id)
    switch := fun id quantum =>
      follows_keeping (respects.switch id quantum) (abiding.switch id quantum)
    release := fun id => follows_keeping (respects.release id) (abiding.release id)
    fork := fun id =>
      (follows_keeping (follows_below (fun _ uniform => uniform.fork id)
        (Interpreter.agrees_fork _ id)) (abiding.fork id)).unless
    requestBreak := fun id requested =>
      (follows_keeping (follows_onMemory (agrees_requestBreak requested) id)
        (abiding.onMemory id (careful_requestBreak requested))).unless
    callerMemory := fun id call _ congruent =>
      follows_keeping (respects.callerMemory id call congruent)
        (abiding.callerMemory id call congruent) }

/-- A property may also tell of the record of a hypervisor, if what is done there keeps it. -/
theorem record (abiding : Abiding holds) {told : Supervisor → Prop}
    (clerical : ∀ {change}, Supervisor.Clerical change → ∀ own, told own → told (change own))
    (rearranged : ∀ own ready, told own → told { own with ready })
    (remapped : ∀ own mode, told own → told { own with mode }) :
    Abiding fun hypervisor => holds hypervisor ∧ told hypervisor.own :=
  have machine {β : Type} (action : MachineAction β) :
      Keeps (fun hypervisor => told hypervisor.own) (below action) :=
    keeps_below_of_own (fun _ _ given => given) action
  { uniform := fun hypervisor given => abiding.uniform hypervisor given.1
    note := fun happening => (abiding.note happening).and (.modify fun _ given => given)
    modifyOwn := fun change => (abiding.modifyOwn change).and (.modify fun _ => clerical change _)
    rearrange := fun change => (abiding.rearrange change).and (.modify fun _ => rearranged _ _)
    setMemoryMode := fun mode => (abiding.setMemoryMode mode).and (.modify fun _ => remapped _ _)
    modifyContext := fun id _ blind => (abiding.modifyContext id blind).and fun origin given => by
      rw [modifyContext_apply]
      split <;> exact given
    onMemory := fun id action careful => (abiding.onMemory id careful).and fun origin given => by
      obtain ⟨below, own⟩ := origin
      unfold Hypervisor.onMemory
      dsimp only
      obtain ⟨answer, after⟩ := below.withMemory id action
      cases answer <;> exact given
    create := fun image options => (abiding.create image options).and (machine _)
    destroy := fun id => (abiding.destroy id).and (machine _)
    switch := fun id quantum => (abiding.switch id quantum).and (machine _)
    release := fun id => (abiding.release id).and (machine _)
    fork := fun id => (abiding.fork id).and (machine _) }

end Abiding

end Keeping

/-- **The primitive operations keep a hypervisor steady.** -/
theorem abiding_steady : Abiding (Steady capacity) where
  uniform _ steady := steady.uniform
  note happening := (discreet_note 0 happening).keeps_steady
  modifyOwn _ := keeps_steady_modifyOwn _
  rearrange _ := keeps_steady_modifyOwn _
  setMemoryMode _ := keeps_steady_modifyOwn _
  modifyContext id _ blind := keeps_steady_modifyContext id blind.space
  onMemory id _ careful := (discreet_onMemory id careful).keeps_steady
  create := keeps_steady_create
  destroy := keeps_steady_destroy
  switch := keeps_steady_switch
  release := keeps_steady_release
  fork := keeps_steady_fork

/-! ## Every operation -/

/-- Hosts and recordings have no part in what makes a hypervisor steady. -/
theorem respectsHosts_steady :
    RespectsHosts (keeping (Steady capacity)) JournalView.upToLevels.alike where
  toRespects := abiding_steady.respects
  recording _ _ states := congrArg Supervisor.recording states.1.own
  askHost request :=
    follows_keeping (follows_askHost request) (discreet_askHost 0 request).keeps_steady
  changeRecording _ := follows_keeping (follows_modifyOwn _) (keeps_steady_modifyOwn _)

theorem keeps_steady_dispatch (id : ContextId) : Keeps (Steady capacity) (dispatch id) :=
  abiding_steady.keeps (respectsHosts_steady.follows_dispatch id)

/-- **Every operation keeps a hypervisor steady**, whether it succeeds or not. -/
theorem Operation.keeps_steady (operation : Operation) :
    Keeps (Steady capacity) operation.perform := by
  have owned (id : ContextId) : Keeps (Steady capacity) (requireOwned id) :=
    (discreet_requireOwned id id).keeps_steady
  cases operation with
  | snapshot id =>
      refine Keeps.bind ((owned id).bind fun _ => ?_) fun _ => .pure _
      exact (discreet_contextOf id id).keeps_steady.bind fun _ => .pure _
  | access id request =>
      refine Keeps.bind ((owned id).bind fun _ => ?_) fun _ => .pure _
      exact (discreet_onMemory id request.congruent_perform.careful).keeps_steady
  | _ => exact abiding_steady.keeps (respectsHosts_steady.follows_operation rfl)

/-! ## Whatever happens -/

/-- An event that leaves the address spaces of contexts to the machine. -/
def Event.Tame : Event → Prop
  | .request (.alter _ change) => ∀ context, (change context).space = context.space
  | _ => True

section Above

variable {holds : Hypervisor → Prop}

/-- What a request to the machine below keeps, whatever the hypervisor's record as a level, it keeps
if the level above makes it. -/
theorem keeps_fromAbove {passage : Passage α} {request : InterpreterAction α}
    (record : ∀ hypervisor relay, holds hypervisor → holds (hypervisor.withRelay relay))
    (keeps : Keeps holds (below (Machine.pass passage request))) :
    Keeps holds (fromAbove (Machine.pass passage request)) := by
  intro origin given
  apply halts_fromAbove fun _ _ => given
  intro entered entry
  exact (keeps origin given).mono (fun _ _ => record _ _) fun _ _ => record _ _

/-- **Requests of the level above keep what the requests to the machine below keep**, and accesses
to memory, and changes of contexts that leave address spaces alone. -/
theorem Request.keeps
    (record : ∀ hypervisor relay, holds hypervisor → holds (hypervisor.withRelay relay))
    (create : ∀ image options, Keeps holds (below (Machine.create image options)))
    (fork : ∀ id, Keeps holds (below (Machine.fork id)))
    (destroy : ∀ id, Keeps holds (below (Machine.destroy id)))
    (release : ∀ id, Keeps holds (below (Machine.release id)))
    (switch : ∀ id quantum, Keeps holds (below (Machine.switch id quantum)))
    (memory : ∀ id (request : MemoryRequest), Keeps holds (onMemory id request.perform))
    (alter : ∀ hypervisor id {change : Context → Context},
      (∀ context, (change context).space = context.space) → holds hypervisor →
        holds ⟨hypervisor.machine.modifyContext id change, hypervisor.own⟩)
    (request : Request) (tame : Event.Tame (.request request)) : Keeps holds request.perform := by
  cases request with
  | create image options =>
      exact (keeps_fromAbove record (create image options)).bind fun _ => .pure _
  | fork parent => exact (keeps_fromAbove record (fork parent)).bind fun _ => .pure _
  | destroy id => exact (keeps_fromAbove record (destroy id)).bind fun _ => .pure _
  | release id => exact (keeps_fromAbove record (release id)).bind fun _ => .pure _
  | switch id quantum => exact (keeps_fromAbove record (switch id quantum)).bind fun _ => .pure _
  | access id request =>
      intro origin given
      exact .of_finalState (kept_by_access given fun _ => (memory id request).finalState given)
  | alter id change =>
      intro origin given
      exact .of_finalState (kept_by_alter given fun _ => alter origin id tame given)

end Above

/-- Requests of the level above keep a hypervisor steady. -/
theorem Request.keeps_steady (request : Request) (tame : Event.Tame (.request request)) :
    Keeps (Steady capacity) request.perform :=
  request.keeps (fun _ _ steady => ⟨steady.sound, steady.uniform⟩) keeps_steady_create
    keeps_steady_fork keeps_steady_destroy keeps_steady_release keeps_steady_switch
    (fun id request => (discreet_onMemory id request.congruent_perform.careful).keeps_steady)
    (fun _ id _ space steady => steady.modifyContext id space) tame

theorem sustained_steady : Sustained (Steady capacity) where
  step id := abiding_steady.keeps
    (abiding_steady.respects.step respectsHosts_steady.follows_dispatch id)
  nextReady := abiding_steady.keeps abiding_steady.respects.nextReady
  requeue id := abiding_steady.keeps (abiding_steady.respects.requeue id)

/-- **Whatever happens keeps a hypervisor steady.** -/
theorem Event.keeps_steady (event : Event) (tame : event.Tame) :
    Keeps (Steady capacity) event.perform := by
  cases event with
  | operation asked => exact asked.keeps_steady.bind fun _ => .pure ()
  | request asked => exact (asked.keeps_steady tame).bind fun _ => .pure ()
  | resume rounds breakpoints condition stoppedAt =>
      exact (sustained_steady.resumeDebugger rounds breakpoints condition stoppedAt).bind
        fun _ => .pure ()

/-- A stack is steady when it is built. -/
theorem steady_of_nested {configuration : Configuration} {host : Host} {journal : Journal}
    {level : Nat} {start : Hypervisor}
    (built : nested configuration host journal level = .ok start) :
    Steady configuration.frames start := by
  cases level with
  | zero => cases built
  | succ below =>
      obtain rfl := Except.ok.inj built
      have sound := Interpreter.sound_empty configuration.frames configuration.traceInstructions
        journal
      exact ⟨sound.congr rfl (fun _ => rfl) le_rfl,
        (Machine.uniform_ofLevels below rfl).congr rfl fun _ => rfl⟩

/-- **A hypervisor is steady in every history.** -/
theorem steady_stateAfter {configuration : Configuration} {host : Host} {journal : Journal}
    {level : Nat} {start : Hypervisor}
    (built : nested configuration host journal level = .ok start) {history : List Event}
    (tame : ∀ event ∈ history, event.Tame) :
    Steady configuration.frames (stateAfter Event.perform history start) := by
  have begun := steady_of_nested built
  clear built
  induction history generalizing start with
  | nil => exact begun
  | cons event rest ih =>
      refine ih (fun later member => tame later (List.mem_cons_of_mem _ member)) ?_
      exact (event.keeps_steady (tame event List.mem_cons_self)).finalState begun

end NestedMachine.Hypervisor
