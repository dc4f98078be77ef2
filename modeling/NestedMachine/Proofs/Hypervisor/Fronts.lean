import NestedMachine.Proofs.Hypervisor.Fairness
import NestedMachine.Proofs.Hypervisor.Harts
import NestedMachine.Proofs.Hypervisor.Quanta
import NestedMachine.Proofs.Hypervisor.Stepping

/-!
# Steps at the front of the queue

A debugger steps the context at the front of the queue and leaves it there.  Nothing that a step
does puts another one before it: who becomes ready joins the queue at the back, and who ends leaves
it.  So a context that is ready after its step is still at the front (`Foremost`).

A step parks its context only for a fault, of its instruction or of the call that it makes.  Neither
has moved it, so a context that is parked after its step stands where it stood before, and the fault
says so (`Aftermath`).  A step that fails parks nobody (`aftermath_step`).
-/

namespace NestedMachine.Hypervisor

set_option autoImplicit false

open Std (TreeSet)

variable {origin after : Hypervisor} {id : ContextId} {hart : Hart} {context : Context}
  {loaded : ContextId → Prop}

/-! ## The front of the queue -/

/-- A context in such a state neither waits for a child nor is parked by a fault. -/
def Afoot (state : ContextState) : Prop :=
  (∀ child, waitsFor state child = false) ∧ ∀ fault pc, state ≠ .trapped fault pc

/-- A context is afoot, and it is the first of the queue unless it has ended. -/
def Foremost (id : ContextId) (state : Option ContextState) (queue : List ContextId) : Prop :=
  (∀ now, state = some now → Afoot now) ∧ (AtEnd state ∨ queue.head? = some id)

theorem undisturbed_foremost (id : ContextId) : Undisturbed id (Foremost id) where
  join _ foremost := foremost.imp_right fun first => first.imp_right fun head => by
    rw [List.head?_append, head]
    rfl
  leave {state queue other} different foremost := foremost.imp_right fun first =>
    first.imp_right fun head => by
      obtain ⟨rest, rfl⟩ := List.head?_eq_some_iff.mp head
      rw [List.filter_cons, if_pos (bne_iff_ne.mpr different.symm)]
      rfl
  asleep foremost := (foremost.1 _ rfl).1 _
  finish _ ended := by
    refine ⟨fun now found => ?_, .inl ended⟩
    rw [ended now found]
    exact ⟨fun _ => rfl, nofun⟩
  away foremost ended := ⟨foremost.1, .inl ended⟩

/-- A fault has not parked a context. -/
def Unparked (id : ContextId) (hypervisor : Hypervisor) : Prop :=
  ∀ kin, hypervisor.kin id = some kin → ∀ fault pc, kin.state ≠ .trapped fault pc

/-- What a step leaves of a context that stood with its hart at the front of the queue. -/
structure Aftermath (id : ContextId) (hart : Hart) (after : Hypervisor) : Prop where
  front : ∀ kin, after.kin id = some kin → kin.state = .ready → after.own.ready.head? = some id
  parked : ∀ context fault pc, after.machine.context? id = some context →
    context.state = .trapped fault pc → context.hart = hart ∧ pc = hart.pc

namespace Placed

theorem unparked (placed : Placed (Foremost id) id origin) : Unparked id origin :=
  fun _ found => (placed.stands.1 _ (congrArg (Option.map Kin.state) found)).2

/-- Who has not ended is the first. -/
theorem foremost (placed : Placed (Foremost id) id origin) {kin : Kin}
    (found : origin.kin id = some kin) (unended : kin.state ≠ .exited) :
    origin.own.ready.head? = some id :=
  placed.stands.2.resolve_left fun ended =>
    unended (ended _ (congrArg (Option.map Kin.state) found))

theorem aftermath (placed : Placed (Foremost id) id origin) : Aftermath id hart origin where
  front _ found ready := placed.foremost found (ready ▸ nofun)
  parked _ fault pc found parked :=
    absurd parked (placed.unparked _ (kin_of_context? placed.uniform found) fault pc)

end Placed

/-- A context that moves into a state in which it is neither ready nor parked. -/
theorem Aftermath.of_state (uniform : after.machine.Uniform) {state : ContextState}
    (moved : ∀ kin, after.kin id = some kin → kin.state = state) (unready : state ≠ .ready)
    (unparked : ∀ fault pc, state ≠ .trapped fault pc) : Aftermath id hart after where
  front kin found ready := absurd ((moved kin found).symm.trans ready) unready
  parked _ fault pc found parked :=
    absurd ((moved _ (kin_of_context? uniform found)).symm.trans parked) (unparked fault pc)

theorem Kinship.of_hushed {holder : ContextId} (kinship : Kinship loaded origin)
    (hushed : Hushed holder origin after) : Kinship loaded after :=
  kinship.congr hushed.uniform hushed.kin hushed.nextId.ge hushed.owned hushed.orphans

/-! ## The context that is stepped -/

/-- A context is served at the front of the queue. -/
structure Handling (loaded : ContextId → Prop) (id : ContextId) (hypervisor : Hypervisor) : Prop
    extends Placed (Foremost id) id hypervisor where
  kinship : Kinship loaded hypervisor
  serving : hypervisor.Serving id

namespace Handling

/-- Whoever is served at the front moves into a state. -/
theorem of_altered (known : Known id origin) (front : origin.own.ready.head? = some id)
    (kinship : Kinship loaded after) (serving : after.Serving id) {state : ContextState}
    (altered : Altered id (fun kin => { kin with state }) origin after) (afoot : Afoot state) :
    Handling loaded id after where
  toKnown := known.of_altered altered
  stands := by
    refine ⟨fun now found => ?_, .inr (altered.own ▸ front)⟩
    obtain ⟨kin, there, rfl⟩ := Option.map_eq_some_iff.mp found
    obtain ⟨before, -, rfl⟩ := altered.of_found there
    rwa [if_pos rfl]
  kinship := kinship
  serving := serving

variable (handling : Handling loaded id origin)
include handling

theorem front : origin.own.ready.head? = some id := by
  obtain ⟨kin, found, lives, -⟩ := handling.serving
  exact handling.foremost found ((handling.kinship.exited id kin found).mp lives)

theorem of_hushed (hushed : Hushed id origin after) : Handling loaded id after where
  toPlaced := handling.toPlaced.of_kindred hushed.toKindred
  kinship := handling.kinship.of_hushed hushed
  serving := handling.serving.of_hushed hushed

/-- Discreet actions go on with whoever is served. -/
theorem discreet {α : Type} {told : α → Prop} {action : HypervisorAction α}
    (discreet : Discreet id told action) :
    Halts (fun _ => Unparked id) (fun _ => Handling loaded id) (action origin) :=
  (discreet origin handling.uniform).mono (fun _ _ given => handling.of_hushed given.1)
    fun _ _ given => (handling.of_hushed given.1).unparked

/-- The context is moved into a state that it keeps while it is served. -/
theorem setState (state : ContextState) (afoot : Afoot state) (unended : state ≠ .exited) :
    Halts Never (fun _ => Handling loaded id) (setState id state origin) := by
  obtain ⟨kin, found, lives, idle⟩ := handling.serving
  have resting : ¬Waiting state := by
    rintro ⟨target, rfl⟩
    have awake := afoot.1 (target.getD 0)
    cases target <;> simp [waitsFor] at awake
  have moves := halts_setState handling.uniform found state
  have calm := within_setState handling.uniform found lives idle (.of_idle unended resting)
  apply (moves.both calm).mono
  · rintro _ after ⟨⟨altered, -⟩, calm, self, own⟩
    refine of_altered handling.toKnown handling.front (calm.kinship handling.kinship) ?_ altered
      afoot
    exact ⟨_, self, lives, resting⟩
  · exact fun _ _ failed => failed.1

/-- Whoever is made ready at the front stays there. -/
theorem makeReady : Halts Never (fun _ => Aftermath id hart) (makeReady id origin) := by
  obtain ⟨kin, there, -⟩ := handling.serving
  obtain ⟨context, found, -⟩ := exists_context? handling.uniform there
  obtain ⟨rest, queue⟩ := List.head?_eq_some_iff.mp handling.front
  rw [makeReady_of_found found]
  have same : joined id origin.own.ready = origin.own.ready := by
    rw [joined, if_pos (by simp [queue])]
  refine ⟨fun _ _ _ => (congrArg List.head? same).trans handling.front, fun later fault pc => ?_⟩
  intro found' parked
  cases (context?_withState handling.uniform found .ready).symm.trans found'
  cases parked

/-- Discreet actions that do not move the context. -/
theorem quiet {α : Type} {told : α → Prop} {action : HypervisorAction α}
    (discreet : Discreet id told action) (keeps : Keeps (Unmoved id hart) action)
    (unmoved : Unmoved id hart origin) :
    Halts (fun _ => Unparked id) (fun _ after => Handling loaded id after ∧ Unmoved id hart after)
      (action origin) :=
  ((handling.discreet discreet).both (keeps origin unmoved)).mono (fun _ _ given => given)
    fun _ _ given => given.1

/-- The end of a context parks nobody. -/
theorem terminate (status : ExitStatus) :
    Halts (fun _ => Unparked id) (fun _ => Aftermath id hart) (terminate id status origin) :=
  ((undisturbed_foremost id).keeps_terminate id status origin handling.toPlaced).mono
    (fun _ _ placed => placed.aftermath) fun _ _ placed => placed.unparked

/-- **A fault parks its context where it stands**, or ends it. -/
theorem handleFault (unmoved : Unmoved id hart origin) (fault : Fault) :
    Halts (fun _ => Unparked id) (fun _ => Aftermath id hart)
      (handleFault id fault hart.pc origin) := by
  apply (handling.quiet (discreet_count id _) (Unmoved.keeps_modifyOwn _) unmoved).bind
  rintro _ counted ⟨handling, unmoved⟩
  apply (handling.quiet (discreet_note id _) (Unmoved.keeps_note _) unmoved).bind
  rintro _ noted ⟨handling, unmoved⟩
  apply Halts.get_bind
  split
  · obtain ⟨kin, found, -⟩ := handling.serving
    have parks := (halts_setState handling.uniform found (.trapped fault hart.pc)).both
      (Unmoved.keeps_setState id (.trapped fault hart.pc) noted unmoved)
    apply Halts.bind (parks.mono (fun _ _ given => given) fun _ _ failed => failed.1.elim)
    rintro _ parked ⟨⟨altered, -⟩, unmoved⟩
    have moved (kin : Kin) (found : parked.kin id = some kin) :
        kin.state = .trapped fault hart.pc := by
      obtain ⟨before, -, rfl⟩ := altered.of_found found
      rw [if_pos rfl]
    refine ⟨fun kin found ready => ?_, fun context fault' pc found trapped => ?_⟩
    · cases (moved kin found).symm.trans ready
    · cases (moved _ (kin_of_context? unmoved.uniform found)).symm.trans trapped
      exact ⟨unmoved.hart_eq found, rfl⟩
  · exact handling.terminate _

/-- What a call leaves: its caller is at the front and has not moved, and is served as told. -/
theorem dispatch (unmoved : Unmoved id hart origin) :
    Halts (fun _ => Unparked id)
      (fun outcome after => Handling loaded id after ∧ Unmoved id hart after ∧
        Served id origin outcome after) (dispatch id origin) := by
  have stays := ((undisturbed_foremost id).upheldByCalls id).dispatch origin handling.toPlaced
  have stands := (Unmoved.upheldByCalls id).dispatch origin unmoved
  apply ((stays.both stands).both (within_dispatch handling.kinship handling.serving)).mono
  · rintro outcome after ⟨⟨placed, unmoved⟩, course, served⟩
    exact ⟨⟨placed, course.kinship handling.kinship, served.serving⟩, unmoved, served⟩
  · exact fun _ _ failed => failed.1.1.unparked

/-- **A call leaves its caller at the front**, if it is answered, and parks it only for a fault. -/
theorem serviceCall (unmoved : Unmoved id hart origin) :
    Halts (fun _ => Unparked id) (fun _ => Aftermath id hart) (serviceCall id origin) := by
  have calls := (handling.setState (.blocked .systemCall) ⟨fun _ => rfl, nofun⟩ nofun).both
    (Unmoved.keeps_setState id (.blocked .systemCall) origin unmoved)
  apply Halts.bind (calls.mono (fun _ _ given => given) fun _ _ failed => failed.1.elim)
  rintro _ called ⟨handling, unmoved⟩
  obtain ⟨kin, there, -⟩ := handling.serving
  obtain ⟨context, found, -⟩ := exists_context? handling.uniform there
  have looked : contextOf id called = .ok context called := by
    rw [contextOf_apply, found]
  obtain rfl := unmoved.hart_eq found
  rw [bind_of_ok looked]
  apply (handling.dispatch unmoved).bind
  rintro outcome served ⟨handling, unmoved, told⟩
  have moves {change : Context → Context} (kin : ∀ context, (change context).kin = context.kin)
      (space : ∀ context, (change context).space = context.space) :=
    handling.discreet (discreet_modifyContext id id kin space)
  cases outcome with
  | answer value =>
      refine Halts.bind (moves ?_ ?_) fun _ answered handling => ?_
      · exact fun _ => rfl
      · exact fun _ => rfl
      · exact handling.makeReady.certain fun _ _ aftermath => aftermath
  | exit code =>
      refine Halts.bind (moves ?_ ?_) fun _ left handling => ?_
      · exact fun _ => rfl
      · exact fun _ => rfl
      · exact handling.terminate _
  | block reason =>
      obtain ⟨target, rfl⟩ := told.waits reason rfl
      obtain ⟨kin, found, -⟩ := handling.serving
      apply (halts_setState handling.uniform found (.blocked (.wait target))).certain
      rintro _ after ⟨altered, -⟩
      have moved (kin : Kin) (found : after.kin id = some kin) :
          kin.state = .blocked (.wait target) := by
        obtain ⟨before, -, rfl⟩ := altered.of_found found
        rw [if_pos rfl]
      exact .of_state altered.uniform moved nofun nofun
  | fault fault => exact handling.handleFault unmoved fault

end Handling

/-! ## Steps -/

/-- A context stands ready at an instruction, at the front of the queue, and has a turn to come. -/
structure StandsAt (id : ContextId) (pc : UInt64) (hypervisor : Hypervisor) : Prop where
  front : hypervisor.own.ready.head? = some id
  lasts : 0 < hypervisor.own.quantum
  stands : ∃ context, Runnable id context hypervisor ∧ context.hart.pc = pc

/-- **A step leaves its context at the front** if it is ready, and where it stood if a fault has
parked it; a step that fails does not park it. -/
theorem aftermath_step (kinship : Kinship loaded origin) (runnable : Runnable id context origin)
    (front : origin.own.ready.head? = some id) :
    Halts (fun _ => Unparked id) (fun _ => Aftermath id context.hart) (step id origin) := by
  have there := kin_of_context? runnable.uniform runnable.found
  have known := kinship.young id _ there
  have handling : Handling loaded id origin := by
    refine ⟨⟨⟨runnable.uniform, kinship.young, known⟩, fun now found => ?_, .inr front⟩, kinship,
      ?_⟩
    · rw [there] at found
      cases found
      rw [show context.kin.state = .ready from runnable.ready]
      exact ⟨fun _ => rfl, nofun⟩
    · exact kinship.serving there runnable.ready nofun nofun
  have unmoved := Unmoved.of_found runnable.uniform known runnable.found
  have begins := (handling.setState .running ⟨fun _ => rfl, nofun⟩ nofun).both
    (Unmoved.keeps_setState id .running origin unmoved)
  rw [setState_of_found runnable.found] at begins
  obtain ⟨running, unmoved⟩ := begins
  rw [runnable.step_apply]
  have runs := Halts.both (running.discreet (discreet_switch id 1)) unmoved.halts_switch
  apply Halts.bind (runs.mono (fun _ _ given => given) fun _ _ failed => failed.1)
  rintro trap stopped ⟨handling, stands⟩
  cases trap with
  | timerInterrupt =>
      have readies : Halts (fun _ => Unparked id) (fun _ => Aftermath id context.hart)
          (makeReady id stopped) := handling.makeReady.certain fun _ _ aftermath => aftermath
      exact readies.bind fun _ _ aftermath => aftermath
  | environmentCall =>
      obtain ⟨unmoved, -⟩ := stands nofun
      exact (handling.serviceCall unmoved).bind fun _ _ aftermath => aftermath
  | fault fault pc =>
      obtain ⟨unmoved, told⟩ := stands nofun
      obtain rfl := told fault pc rfl
      exact (handling.handleFault unmoved fault).bind fun _ _ aftermath => aftermath

/-- Whoever is there and ready can run. -/
theorem Kinship.runnable (kinship : Kinship loaded origin)
    (found : origin.machine.context? id = some context) (ready : context.state = .ready) :
    Runnable id context origin where
  uniform := kinship.uniform
  owned := TreeSet.mem_iff_contains.mp
    ((kinship.owned id).mpr ⟨_, kin_of_context? kinship.uniform found⟩)
  found := found
  ready := ready

/-- No step changes the quantum. -/
theorem quantum_step (uniform : origin.machine.Uniform) (id : ContextId) :
    (finalState (step id origin)).own.quantum = origin.own.quantum :=
  have blind := JournalView.levelBlind_any
  quantum_kept uniform ((respectsService_quanta blind _).step
    (respectsCalls_quanta blind _).follows_dispatch id)

/-- The end of a parked context does not change the quantum. -/
theorem quantum_finalizeTrapped (uniform : origin.machine.Uniform) (id : ContextId) :
    (finalState (finalizeTrapped id origin)).own.quantum = origin.own.quantum :=
  quantum_kept uniform ((respectsService_quanta JournalView.levelBlind_any _).finalizeTrapped id)

theorem hushed_onMemory {α : Type} (uniform : origin.machine.Uniform) (id : ContextId)
    {action : MemoryAction α} (careful : Memory.Careful action) :
    Hushed id origin (finalState (onMemory id action origin)) :=
  Halts.left ((discreet_onMemory id careful origin uniform).mono (fun _ _ given => given.1)
    fun _ _ given => given.1)

/-- Whoever accesses a memory has nothing to do with what is apart from the machine. -/
theorem own_onMemory {α : Type} (id : ContextId) (action : MemoryAction α) (origin : Hypervisor) :
    (finalState (onMemory id action origin)).own = origin.own := by
  obtain ⟨machine, own⟩ := origin
  unfold onMemory
  dsimp only
  split <;> rfl

theorem Kinship.finalizeTrapped (kinship : Kinship loaded origin) (id : ContextId) :
    Kinship loaded (finalState (finalizeTrapped id origin)) := by
  rcases (within_finalizeTrapped kinship id).finalState with same | ⟨_, _, _, _, lives, ends⟩
  · rw [same]
    exact kinship
  · exact kinship.terminated ends lives

namespace StandsAt

variable {pc : UInt64}

theorem pcOf (stands : StandsAt id pc origin) : pcOf id origin = .ok pc origin := by
  obtain ⟨context, runnable, rfl⟩ := stands.stands
  unfold Hypervisor.pcOf
  rw [bind_of_ok runnable.requireOwned, bind_of_ok runnable.contextOf]
  rfl

theorem unique (stands : StandsAt id pc origin) {other : UInt64}
    (again : StandsAt id other origin) : other = pc := by
  obtain ⟨context, runnable, rfl⟩ := stands.stands
  obtain ⟨context', runnable', rfl⟩ := again.stands
  rw [Option.some.inj (runnable.found.symm.trans runnable'.found)]

/-- Who stands at the front comes next. -/
theorem nextReady (stands : StandsAt id pc origin) : nextReady origin = .ok (some id) origin := by
  obtain ⟨context, runnable, -⟩ := stands.stands
  obtain ⟨rest, queue⟩ := List.head?_eq_some_iff.mp stands.front
  have runs : canRun origin.machine id = true := by
    rw [canRun, runnable.found]
    exact beq_iff_eq.mpr runnable.ready
  have same : origin.own.ready.dropWhile (fun id => !canRun origin.machine id) =
      origin.own.ready := by
    rw [queue, List.dropWhile_cons_of_neg (by simp [runs])]
  rw [nextReady_apply, same, stands.front]
  rfl

/-- Who comes next stands at the front. -/
theorem of_front (kinship : Kinship loaded origin) (lasts : 0 < origin.own.quantum)
    {front : List ContextId}
    (dropped : origin.own.ready.dropWhile (fun id => !canRun origin.machine id) = front)
    (first : front.head? = some id) : ∃ pc, StandsAt id pc (origin.withReady front) := by
  obtain ⟨rest, rfl⟩ := List.head?_eq_some_iff.mp first
  have runs : canRun origin.machine id = true := by
    have stops := List.head?_dropWhile_not (fun id => !canRun origin.machine id) origin.own.ready
    rw [dropped] at stops
    simpa using stops
  obtain ⟨kin, there, ready⟩ := (canRun_iff kinship.uniform).mp runs
  obtain ⟨context, found, rfl⟩ := exists_context? kinship.uniform there
  obtain ⟨uniform, owned, found, ready⟩ := kinship.runnable found ready
  exact ⟨context.hart.pc, rfl, lasts, context, ⟨uniform, owned, found, ready⟩, rfl⟩

/-- **Who is ready after its step stands at the front again.** -/
theorem again (stands : StandsAt id pc origin) (kinship : Kinship loaded origin)
    {answer : Option Trap} (stepped : step id origin = .ok answer after)
    (found : after.machine.context? id = some context) (ready : context.state = .ready) :
    StandsAt id context.hart.pc after := by
  obtain ⟨before, runnable, -⟩ := stands.stands
  have aftermath := aftermath_step kinship runnable stands.front
  have heir : Heir False origin (finalState (step id origin)) := heir_step kinship
  have quantum := quantum_step kinship.uniform id
  rw [stepped] at aftermath heir quantum
  have kinship' := heir.kinship loaded kinship
  refine ⟨aftermath.front _ (kin_of_context? kinship'.uniform found) ready, ?_, context,
    kinship'.runnable found ready, rfl⟩
  rw [show after.own.quantum = origin.own.quantum from quantum]
  exact stands.lasts

/-- Where a context is still found ready at the front that has not moved. -/
theorem of_unmoved (stands : StandsAt id pc origin) (kinship : Kinship loaded after)
    {kin : Kin} (found : after.kin id = some kin) (ready : kin.state = .ready)
    (front : after.own.ready.head? = some id) (quantum : after.own.quantum = origin.own.quantum)
    (stays : ∀ hart, Unmoved id hart origin → Unmoved id hart after)
    (known : id < origin.machine.interpreter.nextId) : StandsAt id pc after := by
  obtain ⟨context, runnable, rfl⟩ := stands.stands
  obtain ⟨later, there, rfl⟩ := exists_context? kinship.uniform found
  have unmoved := stays _ (Unmoved.of_found runnable.uniform known runnable.found)
  refine ⟨front, quantum ▸ stands.lasts, later, kinship.runnable there ready, ?_⟩
  rw [unmoved.hart_eq there]

/-- Looking into a memory moves nobody. -/
theorem onMemory {α : Type} (stands : StandsAt id pc origin) (kinship : Kinship loaded origin)
    (other : ContextId) {action : MemoryAction α} (careful : Memory.Careful action) :
    StandsAt id pc (finalState (onMemory other action origin)) := by
  have hushed := hushed_onMemory kinship.uniform other careful
  obtain ⟨context, runnable, -⟩ := stands.stands
  have there := kin_of_context? runnable.uniform runnable.found
  refine stands.of_unmoved (kinship.of_hushed hushed) ((hushed.kin id).trans there) runnable.ready
    ?_ ?_ ?_ (kinship.young id _ there)
  · rw [hushed.ready]
    exact stands.front
  · rw [own_onMemory]
  · exact fun hart unmoved => (Unmoved.keeps_onMemory other action).finalState unmoved

/-- **The end of a parked context** moves nobody that stands at the front, and puts nobody before
it. -/
theorem finalizeTrapped (stands : StandsAt id pc origin) (kinship : Kinship loaded origin)
    (other : ContextId) : StandsAt id pc (finalState (finalizeTrapped other origin)) := by
  obtain ⟨context, runnable, -⟩ := stands.stands
  have there := kin_of_context? runnable.uniform runnable.found
  have known := kinship.young id _ there
  have inPlace : InPlace 1 id origin := by
    obtain ⟨rest, queue⟩ := List.head?_eq_some_iff.mp stands.front
    exact ⟨⟨_, there, runnable.ready⟩, [], rest, queue, Nat.one_pos⟩
  have patient : Patient 1 id (finalState (Hypervisor.finalizeTrapped other origin)) :=
    (keeps_finalizeTrapped ((undisturbed_inLine 1 id).keeps_terminate other)).finalState
      (inPlace.patient ⟨runnable.uniform, kinship.young, known⟩)
  have quantum := quantum_finalizeTrapped kinship.uniform other
  have stays (hart : Hart) (unmoved : Unmoved id hart origin) :
      Unmoved id hart (finalState (Hypervisor.finalizeTrapped other origin)) :=
    (keeps_finalizeTrapped (Unmoved.keeps_terminate other)).finalState unmoved
  rcases (within_finalizeTrapped kinship other).finalState with
    same | ⟨gone, fault, pc', trapped, lives, ends⟩
  · rw [same]
    exact stands
  · have different : other ≠ id := by
      rintro rfl
      obtain rfl := Option.some.inj (ends.there.symm.trans there)
      cases trapped.symm.trans runnable.ready
    have kinship' := kinship.terminated ends lives
    obtain ⟨kin, found, lives⟩ := ends.live different ⟨_, there, runnable.live kinship⟩
    rcases patient.waits with ⟨⟨kin, found, ready⟩, front, back, queue, first⟩ | ended
    · obtain rfl : front = [] := List.length_eq_zero_iff.mp (Nat.lt_one_iff.mp first)
      exact stands.of_unmoved kinship' found ready (congrArg List.head? queue) quantum stays known
    · exact absurd (ended kin found) ((kinship'.exited id kin found).mp lives)

end StandsAt

end NestedMachine.Hypervisor
