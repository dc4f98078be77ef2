import NestedMachine.Instruction.Encoding
import NestedMachine.Proofs.Hypervisor.Refusals

/-!
# Declined calls are atomic

A context that is let run ends up in a trap (`Turn.toTrap`), and if the trap is an environment call,
what is left of the turn is to serve the call.  If the context is ready again afterwards and finds
in its register that the call was declined, nothing has happened but that (`Unharmed`): the caller
goes on behind the call, the call is counted, noted and recorded, and pages that the call has looked
at may be mapped now, and show the zeros that they showed before.

A context that is ready again has been answered, because one that ended does not come back (`Over`).
So the call was answered, by the value that the context finds, and had only looked
(`looked_dispatch`).
-/

namespace NestedMachine.Hypervisor

set_option autoImplicit false

variable {capacity : Nat} {id other : ContextId} {origin called middle after : Hypervisor}

/-! ## Contexts that have ended -/

/-- A context has ended, or is gone. -/
structure Over (id : ContextId) (hypervisor : Hypervisor) : Prop where
  uniform : hypervisor.machine.Uniform
  exited : ∀ kin, hypervisor.kin id = some kin → kin.state = .exited

theorem Over.of_kindred (past : Over id origin) (kindred : Kindred origin after) : Over id after :=
  ⟨kindred.uniform, fun kin found => past.exited kin (kindred.kin id ▸ found)⟩

theorem Discreet.keeps_over {α : Type} {told : α → Prop} {action : HypervisorAction α}
    (discreet : Discreet other told action) : Keeps (Over id) action :=
  fun origin past => (discreet origin past.uniform).mono
    (fun _ _ given => past.of_kindred given.1.toKindred)
    fun _ _ given => past.of_kindred given.1.toKindred

theorem keeps_over_modifyOwn (change : Supervisor → Supervisor) :
    Keeps (Over id) (modifyOwn change) :=
  .modify fun _ past => ⟨past.uniform, past.exited⟩

/-- A change of another context, or one that leaves the state alone. -/
theorem keeps_over_modifyContext {change : Context → Context} (change' : Kin → Kin)
    (tells : ∀ context, (change context).kin = change' context.kin)
    (space : ∀ context, (change context).space = context.space)
    (stays : other = id → ∀ kin, (change' kin).state = kin.state) :
    Keeps (Over id) (modifyContext other change) := by
  intro origin past
  apply (halts_modifyContext past.uniform other change' tells space).mono
  · rintro _ after ⟨altered, -⟩
    refine ⟨altered.uniform, fun kin found => ?_⟩
    obtain ⟨before, found', rfl⟩ := altered.of_found found
    split
    · rename_i same
      rw [stays same]
      exact past.exited before found'
    · exact past.exited before found'
  · exact fun _ _ refused => past.of_kindred (refused.hushed 0).toKindred

theorem keeps_over_discard (child : ContextId) : Keeps (Over id) (discard child) := by
  refine Keeps.bind (fun origin past => ?_) fun _ =>
    (keeps_over_modifyOwn _).bind fun _ => keeps_over_modifyOwn _
  apply (halts_destroy past.uniform child).mono
  · rintro _ after ⟨⟨gone, removed⟩, -⟩
    refine ⟨removed.uniform, fun kin found => ?_⟩
    obtain ⟨-, before, found', rfl⟩ := removed.of_found found
    exact past.exited before found'
  · exact fun _ _ refused => past.of_kindred (refused.hushed 0).toKindred

/-- A parent that is woken waits, so that it has not ended. -/
theorem keeps_over_wakeParent (parent child : ContextId) :
    Keeps (Over id) (wakeParent parent child) := by
  intro origin past
  apply Halts.get_bind
  cases found : origin.machine.context? parent with
  | none => exact past
  | some context =>
      have woken (waits : waitsFor context.state child = true) : Keeps (Over id) (do
          note (.parentWoken child parent)
          makeReady parent) := by
        have different : parent ≠ id := by
          rintro rfl
          have ended := past.exited context.kin (kin_of_context? past.uniform found)
          rw [show context.state = .exited from ended] at waits
          cases waits
        refine (discreet_note parent _).keeps_over.bind fun _ => Keeps.bind ?_ fun _ => ?_
        · exact keeps_over_modifyContext (fun kin => { kin with state := .ready }) (fun _ => rfl)
            (fun _ => rfl) fun same => absurd same different
        · exact .get_bind fun look => .ite (.pure _) (keeps_over_modifyOwn _)
      show Halts _ _ ((if waitsFor context.state child then _ else pure () :
        HypervisorAction Unit) origin)
      split
      · exact woken ‹_› origin past
      · exact past

theorem keeps_over_disown (child : ContextId) : Keeps (Over id) (disown child) := by
  apply Keeps.get_bind
  intro look
  split
  · refine Keeps.bind ?_ fun _ => .ite (keeps_over_discard child) (keeps_over_modifyOwn _)
    exact keeps_over_modifyContext (fun kin => { kin with parent := none }) (fun _ => rfl)
      (fun _ => rfl) fun _ _ => rfl
  · exact .pure ()

theorem keeps_over_disownAll (children : List ContextId) :
    Keeps (Over id) (disownAll children) := by
  induction children with
  | nil => exact .pure ()
  | cons child rest ih => exact (keeps_over_disown child).bind fun _ => ih

theorem keeps_over_settle (child : ContextId) (parent : Option ContextId) :
    Keeps (Over id) (settle child parent) := by
  apply Keeps.get_bind
  intro look
  refine .ite ((keeps_over_modifyOwn _).bind fun _ => keeps_over_discard child) ?_
  cases parent with
  | none => exact .pure ()
  | some parent => exact keeps_over_wakeParent parent child

/-- **A context that is ended is over.** -/
theorem over_terminate (uniform : origin.machine.Uniform) (status : ExitStatus)
    (done : terminate id status origin = .ok () after) : Over id after := by
  obtain ⟨released, freed, release, rest⟩ := ok_of_bind done
  have uniform : freed.machine.Uniform := by
    have outcome := halts_release uniform id
    rw [release] at outcome
    exact outcome.1.uniform
  obtain ⟨context, -, rest⟩ := found_of_contextOf rest
  obtain ⟨_, closed, close, rest⟩ := ok_of_bind rest
  have past : Over id closed := by
    have outcome := halts_markEnded uniform id status
    rw [close] at outcome
    refine ⟨outcome.1.uniform, fun kin there => ?_⟩
    obtain ⟨before, -, rfl⟩ := outcome.1.of_found there
    rw [if_pos rfl]
  have later : Keeps (Over id) (do
      dequeue id
      count fun counters => { counters with exits := counters.exits + 1 }
      note (.terminated id status released)
      disownAll context.children.toList
      settle id context.parent) :=
    (keeps_over_modifyOwn _).bind fun _ => (keeps_over_modifyOwn _).bind fun _ =>
      (discreet_note id _).keeps_over.bind fun _ => (keeps_over_disownAll _).bind fun _ =>
        keeps_over_settle id _
  have kept := later closed past
  rw [rest] at kept
  exact kept

theorem Over.not_ready (past : Over id after) {context : Context}
    (found : after.machine.context? id = some context) : context.state ≠ .ready := by
  have ended := past.exited context.kin (kin_of_context? past.uniform found)
  rw [show context.state = .exited from ended]
  nofun

/-! ## Turns -/

/-- Whatever lets one context run. -/
inductive Turn where
  | slice (id : ContextId) (quantum : Nat)
  | scheduleOnce
  | step (id : ContextId)

/-- Let a ready context run for one slice, and leave it in the trap that ends the slice. -/
def runSlice (id : ContextId) (quantum : Nat) : HypervisorAction Trap := do
  requireOwned id
  let context ← contextOf id
  if context.state ≠ .ready then
    throw (.schedulerInvariant id context.hart.pc (.scheduledIn context.state))
  setState id .running
  count fun counters => { counters with contextSwitches := counters.contextSwitches + 1 }
  note (.switched (← get).level id)
  below (Machine.switch id quantum)

theorem slice_eq (id : ContextId) (quantum : Nat) : slice id quantum = (do
    let trap ← runSlice id quantum
    handleTrap id trap
    return trap) := by
  unfold slice runSlice
  rw [bind_assoc]
  refine congrArg (requireOwned id >>= ·) (funext fun _ => ?_)
  rw [bind_assoc]
  refine congrArg (contextOf id >>= ·) (funext fun context => ?_)
  split
  · rfl
  · simp only [bind_assoc]

namespace Turn

/-- The operation that a turn is. -/
def operation : Turn → Operation
  | .slice id quantum => .slice id quantum
  | .scheduleOnce => .scheduleOnce
  | .step id => .step id

/-- A turn up to the trap in which it leaves a context, unless no context runs. -/
def toTrap : Turn → HypervisorAction (Option (ContextId × Trap))
  | .slice id quantum => return some (id, ← runSlice id quantum)
  | .scheduleOnce => do
      match ← nextReady with
      | none => return none
      | some id =>
          modifyOwn fun own => { own with ready := own.ready.tail }
          return some (id, ← runSlice id (← get).own.quantum)
  | .step id => do
      requireOwned id
      let context ← contextOf id
      match context.state with
      | .blocked _ => return none
      | .ready | .running =>
          setState id .running
          return some (id, ← below (Machine.switch id 1))
      | state => throw (.schedulerInvariant id context.hart.pc (.steppedIn state))

end Turn

/-- What the primitive operations keep, a slice keeps until its trap. -/
theorem Abiding.runSlice {holds : Hypervisor → Prop} (abiding : Abiding holds) (id : ContextId)
    (quantum : Nat) : Keeps holds (runSlice id quantum) := by
  refine (abiding.keeps (abiding.respects.requireOwned id)).bind fun _ => ?_
  refine (keeps_contextOf id).bind fun context => .ite (.throw _) ?_
  refine (abiding.keeps (abiding.respects.setState id .running)).bind fun _ => ?_
  refine (abiding.keeps (abiding.respects.count _)).bind fun _ => .get_bind fun look => ?_
  exact (abiding.note _).bind fun _ => abiding.switch id quantum

/-- **What the primitive operations keep, a turn keeps until its trap.** -/
theorem Abiding.toTrap {holds : Hypervisor → Prop} (abiding : Abiding holds) (turn : Turn) :
    Keeps holds turn.toTrap := by
  cases turn with
  | slice id quantum => exact (abiding.runSlice id quantum).bind fun _ => .pure _
  | scheduleOnce =>
      refine (abiding.keeps abiding.respects.nextReady).bind fun next => ?_
      cases next with
      | none => exact .pure _
      | some id =>
          refine (abiding.rearrange List.tail).bind fun _ => .get_bind fun look => ?_
          exact (abiding.runSlice id _).bind fun _ => .pure _
  | step id =>
      refine (keeps_requireOwned id).bind fun _ => ?_
      refine (keeps_contextOf id).bind fun context => ?_
      have live : Keeps holds (do
          setState id .running
          return some (id, ← below (Machine.switch id 1))) :=
        (abiding.keeps (abiding.respects.setState id .running)).bind fun _ =>
          (abiding.switch id 1).bind fun _ => .pure _
      split
      · exact .pure _
      · exact live
      · exact live
      · exact .throw _

namespace Turn

/-- Handle the trap in which a turn has left a context. -/
def settle : Turn → ContextId → Trap → HypervisorAction Unit
  | .step _, id, .timerInterrupt => makeReady id
  | _, id, trap => handleTrap id trap

/-- The answer of a turn. -/
def answer : Turn → Option (ContextId × Trap) → Answer
  | .scheduleOnce, trapped => .scheduled (trapped.map Prod.fst)
  | .step _, some (_, .timerInterrupt) => .trap none
  | _, trapped => .trap (trapped.map Prod.snd)

/-- What is left of a turn that has reached its trap. -/
def finish (turn : Turn) : Option (ContextId × Trap) → HypervisorAction Answer
  | none => return turn.answer none
  | some (id, trap) => do
      turn.settle id trap
      return turn.answer (some (id, trap))

/-- A turn that ends in an environment call goes on with the service of the call. -/
theorem finish_environmentCall (turn : Turn) (id : ContextId) :
    turn.finish (some (id, .environmentCall)) = (do
      serviceCall id
      return turn.answer (some (id, .environmentCall))) := by
  cases turn <;> rfl

/-- **A turn reaches its trap and handles it.** -/
theorem perform_eq (turn : Turn) :
    turn.operation.perform = (do turn.finish (← turn.toTrap)) := by
  cases turn with
  | slice id quantum =>
      show (do return Answer.trap (some (← Hypervisor.slice id quantum))) = _
      rw [slice_eq]
      simp only [toTrap, bind_assoc, pure_bind]
      rfl
  | scheduleOnce =>
      show (do return Answer.scheduled (← Hypervisor.scheduleOnce)) = _
      unfold Hypervisor.scheduleOnce toTrap
      rw [bind_assoc, bind_assoc]
      refine congrArg (nextReady >>= ·) (funext fun next => ?_)
      cases next with
      | none => rfl
      | some id =>
          simp only [slice_eq, bind_assoc, pure_bind]
          rfl
  | step id =>
      show (do return Answer.trap (← Hypervisor.step id)) = _
      unfold Hypervisor.step toTrap
      simp only [bind_assoc]
      refine congrArg (requireOwned id >>= ·) (funext fun _ => ?_)
      refine congrArg (contextOf id >>= ·) (funext fun context => ?_)
      cases context.state with
      | ready | running =>
          simp only [bind_assoc, pure_bind]
          refine congrArg (setState id .running >>= ·) (funext fun _ => ?_)
          refine congrArg (below (Machine.switch id 1) >>= ·) (funext fun trap => ?_)
          cases trap <;> simp only [bind_assoc, pure_bind] <;> rfl
      | blocked reason => rfl
      | trapped fault pc => rfl
      | exited => rfl

end Turn

/-- **What the primitive operations keep, a turn keeps behind any trap but a call.** -/
theorem Abiding.settle {holds : Hypervisor → Prop} (abiding : Abiding holds) (turn : Turn)
    {trap : Trap} (other : trap ≠ .environmentCall) : Keeps holds (turn.settle id trap) := by
  have respects := abiding.respects
  have handles : Keeps holds (handleTrap id trap) := by
    cases trap with
    | timerInterrupt =>
        exact (abiding.keeps (respects.count _)).bind fun _ => abiding.keeps (respects.makeReady id)
    | environmentCall => exact absurd rfl other
    | fault fault pc => exact abiding.keeps (respects.handleFault id fault pc)
  unfold Turn.settle
  split
  · exact abiding.keeps (respects.makeReady id)
  · exact handles

/-- What is left of a turn when it has reached its trap. -/
def Handled : Option (ContextId × Trap) → Hypervisor → Hypervisor → Prop
  | none, called, after => after = called
  | some (id, trap), called, after => handleTrap id trap called = .ok () after ∨
      trap = .timerInterrupt ∧ makeReady id called = .ok () after

namespace Turn

/-- **A turn that succeeds reaches its trap, and goes on with the handling of the trap**, and that
is all. -/
theorem handled_of_turn {turn : Turn} {answer : Answer}
    (done : turn.operation.perform origin = .ok answer after) :
    ∃ trapped called, turn.toTrap origin = .ok trapped called ∧ Handled trapped called after := by
  rw [perform_eq] at done
  obtain ⟨trapped, called, reached, done⟩ := ok_of_bind done
  refine ⟨trapped, called, reached, ?_⟩
  cases trapped with
  | none =>
      cases done
      rfl
  | some trapped =>
      obtain ⟨id, trap⟩ := trapped
      obtain ⟨_, settled, settle, done⟩ := ok_of_bind done
      cases done
      unfold Turn.settle at settle
      split at settle
      · exact .inr ⟨rfl, settle⟩
      · exact .inl settle

theorem serviceCall_of_turn {turn : Turn} {answer : Answer}
    (trapped : turn.toTrap origin = .ok (some (id, .environmentCall)) called)
    (done : turn.operation.perform origin = .ok answer after) :
    serviceCall id called = .ok () after := by
  rw [perform_eq, bind_of_ok trapped, finish_environmentCall] at done
  obtain ⟨_, _, served, done⟩ := ok_of_bind done
  cases done
  exact served

end Turn

/-! ## The service of a call -/

/-- A changed context can be seen where it could be seen before. -/
theorem context?_modifyContext (machine : Machine) (change : Context → Context) :
    (machine.modifyContext id change).context? other =
      if id = other then (machine.context? other).map change else machine.context? other := by
  unfold Machine.modifyContext
  cases hosted : machine.hosts id with
  | true =>
      rw [if_pos rfl]
      show (if machine.hosts other = true then
        (machine.interpreter.contexts.modify id change)[other]? else none) = _
      rw [Table.getElem?_modify]
      unfold Machine.context? Interpreter.context?
      cases machine.hosts other with
      | true => rfl
      | false =>
          rw [if_neg Bool.false_ne_true]
          by_cases same : id = other
          · rw [if_pos same]
            rfl
          · rw [if_neg same]
            rfl
  | false =>
      rw [if_neg Bool.false_ne_true]
      split
      · rename_i same
        rw [← same, Machine.context?, hosted]
        rfl
      · rfl

theorem relays_modifyContext (machine : Machine) (id : ContextId) (change : Context → Context) :
    (machine.modifyContext id change).relays = machine.relays := by
  unfold Machine.modifyContext
  split <;> rfl

theorem nextId_modifyContext (machine : Machine) (id : ContextId) (change : Context → Context) :
    (machine.modifyContext id change).interpreter.nextId = machine.interpreter.nextId := by
  unfold Machine.modifyContext
  split <;> rfl

theorem pool_modifyContext (machine : Machine) (id : ContextId) (change : Context → Context) :
    (machine.modifyContext id change).interpreter.pool = machine.interpreter.pool := by
  unfold Machine.modifyContext
  split <;> rfl

theorem state_of_modifyContext {change : Context → Context}
    (done : modifyContext id change origin = .ok () after) :
    after = { origin with machine := origin.machine.modifyContext id change } := by
  rw [modifyContext_apply] at done
  cases found : origin.machine.context? id with
  | none =>
      rw [found] at done
      cases done
  | some _ =>
      rw [found] at done
      cases done
      rfl

/-- Only a context that can be seen is changed. -/
theorem found_of_modifyContext {change : Context → Context}
    (done : modifyContext id change origin = .ok () after) :
    ∃ context, origin.machine.context? id = some context := by
  rw [modifyContext_apply] at done
  cases found : origin.machine.context? id with
  | none =>
      rw [found] at done
      cases done
  | some context => exact ⟨context, rfl⟩

/-- A context that has been brought into another state is not ready. -/
theorem not_ready_of_setState {state : ContextState} {context : Context}
    (done : setState id state origin = .ok () after)
    (found : after.machine.context? id = some context) (different : state ≠ .ready) :
    context.state ≠ .ready := by
  rw [state_of_modifyContext done, context?_modifyContext, if_pos rfl] at found
  obtain ⟨before, -, rfl⟩ := Option.map_eq_some_iff.mp found
  exact different

/-- **A context that has met its fault is not ready.** -/
theorem not_ready_of_handleFault (uniform : origin.machine.Uniform) {fault : Fault} {pc : UInt64}
    {context : Context} (done : handleFault id fault pc origin = .ok () after)
    (found : after.machine.context? id = some context) : context.state ≠ .ready := by
  obtain ⟨_, counted, count, done⟩ := ok_of_bind done
  obtain ⟨_, noted, note, done⟩ := ok_of_bind done
  cases count
  cases note
  rw [get_bind_apply] at done
  split at done
  · obtain ⟨_, parked, park, done⟩ := ok_of_bind done
    cases done
    exact not_ready_of_setState park found (by nofun)
  · have levels : Machine.Uniform (origin.machine.note (.faulted id fault pc)) :=
      uniform.congr rfl fun _ => rfl
    refine Over.not_ready (over_terminate ?_ _ done) found
    exact levels

/-- A queue with a context in it. -/
def queued (id : ContextId) (ready : List ContextId) : List ContextId :=
  if ready.contains id then ready else ready ++ [id]

theorem state_of_makeReady (done : makeReady id origin = .ok () after) :
    after = ⟨origin.machine.modifyContext id (·.withState .ready),
      { origin.own with ready := queued id origin.own.ready }⟩ := by
  obtain ⟨_, set, state, done⟩ := ok_of_bind done
  obtain rfl := state_of_modifyContext state
  rw [get_bind_apply] at done
  unfold queued
  cases listed : origin.own.ready.contains id with
  | true =>
      simp only [listed] at done
      cases done
      rfl
  | false =>
      simp only [listed] at done
      cases done
      rfl

/-- A context that goes on behind its call with an answer. -/
def answered (context : Context) (value : Int64) : Context :=
  ((context.withRegister Register.a0 value.toUInt64).withPc (context.hart.pc + 4)).withState .ready

/-- Nothing has happened but that a context goes on behind its call with an answer.  Its answer, its
place in the queue and the record of the call apart, everything is as it was at the call: every
other context, what can be seen of all memory, the levels and the host.  Pages may have been mapped
since, and counters may have moved. -/
structure Unharmed (id : ContextId) (context : Context) (value : Int64)
    (called after : Hypervisor) : Prop where
  caller : ∃ space, after.machine.context? id = some { answered context value with space }
  others : ∀ other, other ≠ id → after.machine.context? other = called.machine.context? other
  memory : ∀ other, Option.Rel
    (fun later before : Context =>
      Memory.Covers ⟨later.space, after.machine.interpreter.pool, .silent⟩
        ⟨before.space, called.machine.interpreter.pool, .silent⟩)
    (after.machine.context? other) (called.machine.context? other)
  waitable : ∀ ids, firstEnded after.machine ids = firstEnded called.machine ids
  relays : after.machine.relays = called.machine.relays
  nextId : after.machine.interpreter.nextId = called.machine.interpreter.nextId
  own : ∃ counters, after.own = { called.own with
    relay := { called.own.relay with counters }
    ready := queued id called.own.ready
    recording := Recording.noting ((Call.ofContext context).record value []) called.own.recording }

/-- The register of the answer holds the answer. -/
theorem register_answer (context : Context) (word pc : UInt64) (state : ContextState) :
    (((context.withRegister Register.a0 word).withPc pc).withState state).register Register.a0 =
      word := by
  show ((context.hart.registers.values.setIfInBounds 10 word)[10]?).getD 0 = word
  rw [Vector.getElem?_setIfInBounds]
  rfl

section Service

variable {context : Context} {value : Int64}

/-- Contexts that can be seen after a look, and before. -/
theorem Looked.shows (looked : Looked capacity id origin after) (uniform : origin.machine.Uniform)
    (other : ContextId) : Option.Rel
      (ShowAlike after.machine.interpreter.pool origin.machine.interpreter.pool)
      (after.machine.context? other) (origin.machine.context? other) := by
  rw [looked.uniform.context?, uniform.context?]
  exact looked.covers.showAlike other

/-- A hypervisor whose context waits for the answer to its call. -/
def calling (id : ContextId) (hypervisor : Hypervisor) : Hypervisor :=
  { hypervisor with
    machine := hypervisor.machine.modifyContext id (·.withState (.blocked .systemCall)) }

/-- A hypervisor that has answered a call made at an address. -/
def answering (id : ContextId) (pc : UInt64) (value : Int64) (hypervisor : Hypervisor) :
    Hypervisor where
  machine := (hypervisor.machine.modifyContext id fun context =>
    (context.withRegister Register.a0 value.toUInt64).withPc (pc + 4)).modifyContext id
      (·.withState .ready)
  own := { hypervisor.own with ready := queued id hypervisor.own.ready }

theorem context?_answering (pc : UInt64) :
    (middle.answering id pc value).machine.context? other =
      if id = other then (middle.machine.context? other).map fun context =>
        ((context.withRegister Register.a0 value.toUInt64).withPc (pc + 4)).withState .ready
      else middle.machine.context? other := by
  unfold answering
  dsimp only
  rw [context?_modifyContext, context?_modifyContext]
  split
  · exact Option.map_map ..
  · rfl

theorem pool_answering (pc : UInt64) : (middle.answering id pc value).machine.interpreter.pool =
    middle.machine.interpreter.pool :=
  (pool_modifyContext ..).trans (pool_modifyContext ..)

theorem nextId_answering (pc : UInt64) : (middle.answering id pc value).machine.interpreter.nextId =
    middle.machine.interpreter.nextId :=
  (nextId_modifyContext ..).trans (nextId_modifyContext ..)

/-- Where the contexts are while one of them waits for the answer to its call. -/
theorem context?_calling (found : called.machine.context? id = some context) :
    (called.calling id).machine.context? other =
      if id = other then some (context.withState (.blocked .systemCall))
      else called.machine.context? other := by
  refine (context?_modifyContext ..).trans ?_
  split
  · rename_i same
    rw [← same, found]
    rfl
  · rfl

theorem context?_calling_self (found : called.machine.context? id = some context) :
    (called.calling id).machine.context? id = some (context.withState (.blocked .systemCall)) :=
  (context?_calling found).trans (if_pos rfl)

/-- How a hypervisor goes on when a call that stands at an address has been made. -/
inductive Concludes (id : ContextId) (pc : UInt64) (made after : Hypervisor) : Outcome → Prop
  | answered {value : Int64} (there : ∃ context, made.machine.context? id = some context)
      (same : after = made.answering id pc value) : Concludes id pc made after (.answer value)
  | exited {code : Int64} {left : Hypervisor}
      (moves : modifyContext id (·.withPc (pc + 4)) made = .ok () left)
      (ends : terminate id (.exited code) left = .ok () after) :
      Concludes id pc made after (.exit code)
  | blocked {reason : BlockReason} (waits : setState id (.blocked reason) made = .ok () after) :
      Concludes id pc made after (.block reason)
  | faulted {fault : Fault} (faults : handleFault id fault pc made = .ok () after) :
      Concludes id pc made after (.fault fault)

/-- **A call is made, and its outcome is acted on.** -/
theorem concluded_of_serviceCall (found : called.machine.context? id = some context)
    (served : serviceCall id called = .ok () after) :
    ∃ outcome made, dispatch id (called.calling id) = .ok outcome made ∧
      Concludes id context.hart.pc made after outcome := by
  obtain ⟨_, blocked, block, rest⟩ := ok_of_bind served
  obtain rfl : blocked = called.calling id := state_of_modifyContext block
  obtain ⟨caller, same, rest⟩ := found_of_contextOf rest
  obtain rfl := Option.some.inj ((context?_calling_self found).symm.trans same)
  obtain ⟨outcome, made, dispatch, rest⟩ := ok_of_bind rest
  refine ⟨outcome, made, dispatch, ?_⟩
  cases outcome with
  | answer value =>
      obtain ⟨_, given, give, rest⟩ := ok_of_bind rest
      have there := found_of_modifyContext give
      obtain rfl := state_of_modifyContext give
      exact .answered there (state_of_makeReady rest)
  | exit code =>
      obtain ⟨_, left, moves, ends⟩ := ok_of_bind rest
      exact .exited moves ends
  | block reason => exact .blocked rest
  | fault fault => exact .faulted rest

/-- **The answer to a call that has only looked does no harm.** -/
theorem unharmed_of_looked (steady : Steady capacity (called.calling id))
    (found : called.machine.context? id = some context)
    (looked : Looked capacity id (called.calling id) middle) :
    Unharmed id context value called ((middle.noting
      ((Call.ofContext context).record value [])).answering id context.hart.pc value) := by
  have before (other : ContextId) : (called.calling id).machine.context? other =
      if id = other then some (context.withState (.blocked .systemCall))
      else called.machine.context? other := context?_calling found
  have pool : (called.calling id).machine.interpreter.pool = called.machine.interpreter.pool :=
    pool_modifyContext ..
  have pool' (record : TraceRecord) :
      ((middle.noting record).answering id context.hart.pc value).machine.interpreter.pool =
        middle.machine.interpreter.pool := pool_answering ..
  have after (record : TraceRecord) (other : ContextId) :
      ((middle.noting record).answering id context.hart.pc value).machine.context? other =
        if id = other then (middle.machine.context? other).map fun context' =>
          ((context'.withRegister Register.a0 value.toUInt64).withPc
            (context.hart.pc + 4)).withState .ready
        else middle.machine.context? other := context?_answering ..
  have shown := looked.shows steady.uniform id
  rw [before, if_pos rfl] at shown
  generalize caller : middle.machine.context? id = sought at shown
  cases shown with
  | @some context' _ shows =>
  have kept : context' = { context.withState (.blocked .systemCall) with
      space := context'.space } := by
    rw [shows.alike.eq]
  have others (record : TraceRecord) (other : ContextId) (different : other ≠ id) :
      ((middle.noting record).answering id context.hart.pc value).machine.context? other =
        called.machine.context? other := by
    rw [after, if_neg (Ne.symm different), looked.uniform.context?]
    refine (looked.others other different).trans ?_
    refine (steady.uniform.context? other).symm.trans ?_
    rw [before, if_neg (Ne.symm different)]
  refine ⟨⟨context'.space, ?_⟩, others _, fun other => ?_, fun ids => ?_, ?_, ?_, ?_⟩
  · rw [after, if_pos rfl, caller, kept]
    rfl
  · rw [pool']
    have shown := looked.shows steady.uniform other
    rw [after, ← pool]
    rw [before] at shown
    by_cases same : id = other
    · subst same
      rw [if_pos rfl, caller, found]
      exact .some shows.covers
    · rw [if_neg same] at shown ⊢
      generalize middle.machine.context? other = first at shown
      generalize called.machine.context? other = second at shown
      cases shown with
      | none => exact .none
      | some shows => exact .some shows.covers
  · refine congrArg (List.findSome? · ids) (funext fun other => ?_)
    by_cases same : other = id
    · subst same
      rw [after, if_pos rfl, caller, found, kept]
      rfl
    · rw [others _ other same]
  · exact ((relays_modifyContext ..).trans (relays_modifyContext ..)).trans
      (looked.relays.trans (relays_modifyContext ..))
  · exact (nextId_answering ..).trans
      (looked.covers.nextId.trans (nextId_modifyContext ..))
  · obtain ⟨counters, own⟩ := looked.own
    refine ⟨counters, ?_⟩
    unfold answering noting
    dsimp only
    rw [own]
    rfl

/-- **A call that is declined does no harm.** -/
theorem unharmed_serviceCall (steady : Steady capacity called)
    (contained : called.own.host.Contained) (fits : called.NumbersFit)
    (live : called.own.recording.isReplaying = false)
    (found : called.machine.context? id = some context)
    (declined : (Call.ofContext context).DeclinedBy value)
    (served : serviceCall id called = .ok () after) {context' : Context}
    (found' : after.machine.context? id = some context') (ready : context'.state = .ready)
    (told : context'.register Register.a0 = value.toUInt64) :
    Unharmed id context value called after := by
  obtain ⟨outcome, dispatched, dispatch, concludes⟩ := concluded_of_serviceCall found served
  have steady : Steady capacity (called.calling id) := steady.modifyContext id fun _ => rfl
  have there := context?_calling_self found
  have dispatched_steady : Steady capacity dispatched := by
    have kept := keeps_steady_dispatch id _ steady
    rw [dispatch] at kept
    exact kept
  cases concludes with
  | @exited code exiting exit ends =>
      have uniform : exiting.machine.Uniform := by
        rw [state_of_modifyContext exit]
        refine (dispatched_steady.modifyContext id ?_).uniform
        exact fun _ => rfl
      exact absurd ready ((over_terminate uniform _ ends).not_ready found')
  | blocked waits => exact absurd ready (not_ready_of_setState waits found' (by nofun))
  | faulted faults =>
      exact absurd ready (not_ready_of_handleFault dispatched_steady.uniform faults found')
  | @answered value' _ same =>
      subst same
      obtain rfl : value' = value := by
        rw [context?_answering, if_pos rfl] at found'
        obtain ⟨before, -, rfl⟩ := Option.map_eq_some_iff.mp found'
        exact congrArg Int64.ofUInt64 ((register_answer ..).symm.trans told)
      have fits' : NumbersFit (called.calling id) := by
        refine ⟨?_, fits.descriptor⟩
        rw [show (called.calling id).machine.interpreter.nextId = _ from nextId_modifyContext ..]
        exact fits.context
      obtain ⟨middle, looked, rfl⟩ := looked_dispatch steady contained fits' live there declined
        dispatch
      exact unharmed_of_looked steady found looked

end Service

/-- **A call that is declined does no harm**, whatever has happened before: the context that made it
is ready again, finds the value that declines it, and nothing else has come of it.  The host is one
that works on nothing outside, and the call is not replayed. -/
theorem declined_call_unharmed {configuration : Configuration} {host : Host} {journal : Journal}
    {level : Nat} {start : Hypervisor} (built : nested configuration host journal level = .ok start)
    {history : List Event} (tame : ∀ event ∈ history, event.Tame) {turn : Turn} {answer : Answer}
    (trapped : turn.toTrap (stateAfter Event.perform history start) =
      .ok (some (id, .environmentCall)) called)
    (done : turn.operation.perform (stateAfter Event.perform history start) = .ok answer after)
    (contained : called.own.host.Contained) (live : called.own.recording.isReplaying = false)
    (fits : called.NumbersFit) {caller resumed : Context} {value : Int64}
    (found : called.machine.context? id = some caller)
    (declined : (Call.ofContext caller).DeclinedBy value)
    (back : after.machine.context? id = some resumed) (ready : resumed.state = .ready)
    (told : resumed.register Register.a0 = value.toUInt64) :
    Unharmed id caller value called after := by
  have steady := steady_stateAfter built tame
  have called_steady := abiding_steady.toTrap turn _ steady
  rw [trapped] at called_steady
  exact unharmed_serviceCall called_steady contained fits live found declined
    (Turn.serviceCall_of_turn trapped done) back ready told

/-- A program that forks.  The child exits, and the parent waits for it with an address for the
status that is no address of a word. -/
def strayWait : Image :=
  .ofWords ([.addi 17 0 220, .ecall, .beq 10 0 20, .addi 17 0 260, .addi 10 0 (-1), .addi 11 0 1,
    .ecall, .addi 17 0 93, .ecall].map Instruction.encode) []

/-- The parent forks, and the child exits. -/
def forkedAndExited : List Event :=
  [.operation .startRecording, .operation (.load strayWait []), .operation (.slice 1 100),
    .operation (.slice 2 100)]

/-- The hypervisor before the second slice of the parent. -/
def beforeWait (start : Hypervisor) : Hypervisor :=
  stateAfter Event.perform forkedAndExited start

/-- The hypervisor at the wait, in which the slice ends. -/
def atWait (start : Hypervisor) : Hypervisor :=
  finalState ((Turn.slice 1 100).toTrap (beforeWait start))

/-- The hypervisor after the slice. -/
def afterWait (start : Hypervisor) : Hypervisor :=
  finalState ((Turn.slice 1 100).operation.perform (beforeWait start))

/-- The wait finds the child that exited, but not where to put its status, and does no harm. -/
theorem stray_wait_unharmed :
    ∃ start, nested { Configuration.standard with frames := 60 } (.buffer (.withInput []))
        .silent 1 = .ok start ∧
      firstEnded (atWait start).machine [2] = some (2, .exited 0) ∧
      ∃ caller, (atWait start).machine.context? 1 = some caller ∧
        Unharmed 1 caller (-1) (atWait start) (afterWait start) := by
  obtain ⟨start, built⟩ : ∃ start, nested { Configuration.standard with frames := 60 }
      (.buffer (.withInput [])) .silent 1 = .ok start := ⟨_, rfl⟩
  have evaluated : (nested { Configuration.standard with frames := 60 } (.buffer (.withInput []))
      .silent 1).map (fun start => decide (
        answerOf ((Turn.slice 1 100).toTrap (beforeWait start)) =
            .ok (some (1, .environmentCall)) ∧
          (answerOf ((Turn.slice 1 100).operation.perform (beforeWait start))).isOk = true ∧
          ((atWait start).own.host.Contained ∧
            (atWait start).own.recording.isReplaying = false ∧
            (atWait start).machine.interpreter.nextId < 2 ^ 32 ∧
            ∀ host ∈ (atWait start).own.host.buffer?, host.nextDescriptor < 2 ^ 64 - 1) ∧
          ((atWait start).machine.context? 1).isSome = true ∧
          ((afterWait start).machine.context? 1).map (fun context =>
            (context.state, context.register Register.a0)) =
              some (.ready, Int64.toUInt64 (-1)) ∧
          firstEnded (atWait start).machine [2] = some (2, .exited 0))) = .ok true := by
    decide +kernel
  rw [built] at evaluated
  obtain ⟨trapped, answers, ⟨contained, live, context, descriptor⟩, there, back, ended⟩ :=
    of_decide_eq_true (Except.ok.inj evaluated)
  obtain ⟨caller, found⟩ := Option.isSome_iff_exists.mp there
  obtain ⟨resumed, found', shown⟩ := Option.map_eq_some_iff.mp back
  obtain ⟨ready, told⟩ := Prod.mk.inj shown
  obtain ⟨answer, done⟩ := ok_of_isOk answers
  refine ⟨start, built, ended, caller, found, ?_⟩
  have tame : ∀ event ∈ forkedAndExited, event.Tame := by simp [forkedAndExited, Event.Tame]
  exact declined_call_unharmed built tame (ok_of_answerOf trapped) done contained live
    ⟨context, descriptor⟩ found (.inl rfl) found' ready told

end NestedMachine.Hypervisor
