import NestedMachine.Proofs.Hypervisor.Matching
import NestedMachine.Proofs.Hypervisor.Waiting
import NestedMachine.Proofs.Machine.Slices

/-!
# Turns

A context that has its turn is moved into the running state; then it runs, and the trap in which it
ends is handled (`carryOn`).  A step is such a turn for one instruction, but for what is counted.
Between two steps the context is ready and stands in the queue, where it does not stand during a
slice.  So a slice of `n + 1` instructions is a step, followed by a slice of the `n` others unless
the step has ended in a trap, for all that can be seen apart from the place of the context in the
queue (`agree_slice_succ`).

That place is known at the end of a slice: the context stands at the back of the queue if it is
ready, and nowhere otherwise (`atBack_slice`).
-/

namespace NestedMachine.Hypervisor

set_option autoImplicit false

variable {queues : QueueView} {origin after : Hypervisor} {id : ContextId} {context : Context}

/-! ## Contexts that may have a turn -/

/-- A context is owned and ready. -/
structure Runnable (id : ContextId) (context : Context) (hypervisor : Hypervisor) : Prop where
  uniform : hypervisor.machine.Uniform
  owned : hypervisor.own.owned.contains id = true
  found : hypervisor.machine.context? id = some context
  ready : context.state = .ready

namespace Runnable

theorem requireOwned (runnable : Runnable id context origin) :
    requireOwned id origin = .ok () origin := by
  rw [requireOwned_apply, if_pos runnable.owned]

theorem contextOf (runnable : Runnable id context origin) :
    contextOf id origin = .ok context origin := by
  rw [contextOf_apply, runnable.found]

/-- Only who is owned and ready can be let run for a slice. -/
theorem of_slice {quantum : Nat} {trap : Trap} (uniform : origin.machine.Uniform)
    (run : slice id quantum origin = .ok trap after) :
    ∃ context, Runnable id context origin := by
  obtain ⟨_, owner, checked, run⟩ := ok_of_bind run
  rw [requireOwned_apply] at checked
  split at checked
  · rename_i owned
    cases checked
    obtain ⟨context, looked, found, run⟩ := ok_of_bind run
    rw [contextOf_apply] at found
    cases there : origin.machine.context? id with
    | none =>
        rw [there] at found
        cases found
    | some context =>
        rw [there] at found
        cases found
        by_cases ready : context.state = .ready
        · exact ⟨context, uniform, owned, there, ready⟩
        · rw [if_pos ready] at run
          cases run
  · cases checked

end Runnable

/-- A hypervisor that has moved a context into a state. -/
def withState (hypervisor : Hypervisor) (id : ContextId) (state : ContextState) : Hypervisor :=
  { hypervisor with machine := hypervisor.machine.modifyContext id (·.withState state) }

theorem setState_of_found (found : origin.machine.context? id = some context)
    (state : ContextState) : setState id state origin = .ok () (origin.withState id state) := by
  rw [setState, modifyContext_apply, found]
  rfl

theorem interpreter_withState (uniform : origin.machine.Uniform)
    (found : origin.machine.context? id = some context) (state : ContextState) :
    (origin.withState id state).machine.interpreter =
      origin.machine.interpreter.modifyContext id (·.withState state) := by
  rw [uniform.context?] at found
  unfold withState
  rw [uniform.modifyContext found]

theorem uniform_withState (uniform : origin.machine.Uniform)
    (found : origin.machine.context? id = some context) (state : ContextState) :
    (origin.withState id state).machine.Uniform := by
  rw [uniform.context?] at found
  unfold withState
  rw [uniform.modifyContext found]
  exact uniform.congr rfl fun _ => Std.TreeMap.contains_modify

theorem context?_withState (uniform : origin.machine.Uniform)
    (found : origin.machine.context? id = some context) (state : ContextState) :
    (origin.withState id state).machine.context? id = some (context.withState state) := by
  have found' := (uniform.context? id).symm.trans found
  rw [(uniform_withState uniform found state).context?, interpreter_withState uniform found]
  refine (Table.getElem?_modify ..).trans ?_
  rw [if_pos rfl, show origin.machine.interpreter.contexts[id]? = some context from found']
  rfl

theorem makeReady_of_found (found : origin.machine.context? id = some context) :
    makeReady id origin =
      .ok () ((origin.withState id .ready).withReady (joined id origin.own.ready)) := by
  rw [makeReady_eq, bind_of_ok (setState_of_found found .ready)]
  rfl

/-- Let a context run, and handle the trap in which it ends. -/
def carryOn (id : ContextId) (quantum : Nat) : HypervisorAction Trap := do
  let trap ← below (Machine.switch id quantum)
  handleTrap id trap
  return trap

theorem follows_handleTrap_matching (id : ContextId) (trap : Trap) :
    (matching queues).Follows Eq (handleTrap id trap) (handleTrap id trap) :=
  (respectsService_matching queues).handleTrap (respectsCalls_matching queues).follows_dispatch id
    trap

/-- Where contexts run alike, their traps are handled alike. -/
theorem agree_carryOn {left right : Hypervisor} {quantum quantum' : Nat}
    (uniform : left.machine.Uniform) (uniform' : right.machine.Uniform)
    (own : right.own = { left.own with ready := right.own.ready, relay := right.own.relay })
    (ready : queues.same left.own.ready right.own.ready)
    (runs : Agree (fun _ => False) Interpreter.Matches Eq
      (Interpreter.switch id quantum left.machine.interpreter)
      (Interpreter.switch id quantum' right.machine.interpreter)) :
    Agree (fun _ => False) (Matched queues) Eq (carryOn id quantum left)
      (carryOn id quantum' right) :=
  (agree_below (uniform.switch id quantum) (uniform'.switch id quantum') own ready runs).bind
    fun trap _ same => same ▸
      ((follows_handleTrap_matching id trap).bind_eq fun _ => .pure rfl).agrees

/-- **A slice lets a context run as it is when it is running.** -/
theorem agree_slice_carryOn (runnable : Runnable id context origin) (quantum : Nat) :
    Agree (fun _ => False) (Matched queues) Eq (slice id quantum origin)
      (carryOn id quantum (origin.withState id .running)) := by
  have unfolded : slice id quantum origin = (do
      count fun counters => { counters with contextSwitches := counters.contextSwitches + 1 }
      note (.switched (← get).level id)
      carryOn id quantum) (origin.withState id .running) := by
    unfold slice
    rw [bind_of_ok runnable.requireOwned, bind_of_ok runnable.contextOf,
      if_neg (not_not_intro runnable.ready)]
    exact bind_of_ok (setState_of_found runnable.found _) _
  have running := uniform_withState runnable.uniform runnable.found .running
  rw [unfolded]
  refine agree_carryOn (running.congr rfl fun _ => rfl) running rfl (queues.refl _) ?_
  exact Interpreter.agrees_switch_matching id quantum _ _ ⟨rfl, rfl, rfl, fun _ => rfl⟩

/-! ## Steps -/

/-- Step a context, and give it a slice unless the step ends in a trap. -/
def stepThenSlice (id : ContextId) (quantum : Nat) : HypervisorAction Trap := do
  match ← step id with
  | none => slice id quantum
  | some trap => return trap

section StepThenSlice

variable {after : Hypervisor}

theorem stepThenSlice_of_none (stepped : step id origin = .ok none after) (quantum : Nat) :
    stepThenSlice id quantum origin = slice id quantum after := bind_of_ok stepped _

theorem stepThenSlice_of_trap {trap : Trap} (stepped : step id origin = .ok (some trap) after)
    (quantum : Nat) : stepThenSlice id quantum origin = .ok trap after := bind_of_ok stepped _

theorem stepThenSlice_of_error {error : HostError} (failed : step id origin = .error error after)
    (quantum : Nat) : stepThenSlice id quantum origin = .error error after :=
  bind_of_error failed _

end StepThenSlice

/-- What a slice does after its first instruction. -/
def afterFirst (id : ContextId) (quantum : Nat) : Trap → HypervisorAction Trap
  | .timerInterrupt => do
      makeReady id
      slice id quantum
  | trap => do
      handleTrap id trap
      return trap

/-- A context that can run is stepped as it is when it is running. -/
theorem Runnable.step_apply (runnable : Runnable id context origin) :
    step id origin = (do
      match ← below (Machine.switch id 1) with
      | .timerInterrupt =>
          makeReady id
          return none
      | trap =>
          handleTrap id trap
          return some trap) (origin.withState id .running) := by
  have live : step id origin = stepLive id origin := by
    unfold step
    rw [bind_of_ok runnable.requireOwned, bind_of_ok runnable.contextOf, runnable.ready]
    rfl
  rw [live]
  exact bind_of_ok (setState_of_found runnable.found _) _

/-- A step before a slice begins with an instruction of the running context. -/
theorem stepThenSlice_apply (runnable : Runnable id context origin) (quantum : Nat) :
    stepThenSlice id quantum origin = (do
      let trap ← below (Machine.switch id 1)
      afterFirst id quantum trap) (origin.withState id .running) := by
  rw [stepThenSlice, bind_apply, EStateM.bind, runnable.step_apply]
  show ((do
      let trap ← below (Machine.switch id 1)
      match trap with
      | .timerInterrupt =>
          makeReady id
          return none
      | trap =>
          handleTrap id trap
          return some trap) >>= _) (origin.withState id .running) = _
  rw [bind_assoc]
  refine congrFun (congrArg (below (Machine.switch id 1) >>= ·) (funext fun trap => ?_)) _
  cases trap <;> exact bind_assoc ..

/-- The outcome of a request that levels pass on, and what is above and below them afterwards. -/
theorem below_apply {α : Type} {action : MachineAction α} {request : InterpreterAction α}
    (transparent : origin.machine.Transparent action request) :
    ∃ relays, Machine.Uniform ⟨relays, finalState (request origin.machine.interpreter)⟩ ∧
      below action origin =
        match request origin.machine.interpreter with
        | .ok answer interpreter => .ok answer ⟨⟨relays, interpreter⟩, origin.own⟩
        | .error error interpreter => .error error ⟨⟨relays, interpreter⟩, origin.own⟩ := by
  obtain ⟨machine, own⟩ := origin
  obtain ⟨relays, passed, uniform⟩ := transparent
  refine ⟨relays, uniform, ?_⟩
  simp only [below, passed]
  cases request machine.interpreter <;> rfl

/-- The answer to a request that levels pass on. -/
theorem below_of_ok {α : Type} {action : MachineAction α} {request : InterpreterAction α}
    (transparent : origin.machine.Transparent action request) {answer : α} {middle : Interpreter}
    (run : request origin.machine.interpreter = .ok answer middle) :
    ∃ after, below action origin = .ok answer after ∧ after.machine.Uniform ∧
      after.machine.interpreter = middle ∧ after.own = origin.own := by
  obtain ⟨relays, uniform, outcome⟩ := below_apply transparent
  rw [run] at outcome uniform
  exact ⟨_, outcome, uniform, rfl, rfl⟩

/-- What a request leaves that levels pass on. -/
theorem uniform_of_below {α : Type} {action : MachineAction α} {request : InterpreterAction α}
    (transparent : origin.machine.Transparent action request) {answer : α} {after : Hypervisor}
    (done : below action origin = .ok answer after) :
    after.machine.Uniform ∧ after.own = origin.own := by
  obtain ⟨relays, uniform, outcome⟩ := below_apply transparent
  rw [done] at outcome
  cases result : request origin.machine.interpreter with
  | error error middle =>
      rw [result] at outcome
      cases outcome
  | ok answer' middle =>
      rw [result] at outcome uniform
      cases outcome
      exact ⟨uniform, rfl⟩

/-- Whoever has run for one instruction, is made ready, and runs on, stands somewhere else in the
queue and has changed in nothing else. -/
theorem agree_carryOn_ready (uniform : origin.machine.Uniform)
    (owned : origin.own.owned.contains id = true)
    (found : origin.machine.context? id = some context) (running : context.state = .running)
    (quantum : Nat) :
    Agree (fun _ => False) (Matched (.apartFrom id)) Eq (carryOn id quantum origin)
      ((do
        makeReady id
        slice id quantum) origin) := by
  let waiting := (origin.withState id .ready).withReady (joined id origin.own.ready)
  have readied : makeReady id origin = .ok () waiting := makeReady_of_found found
  have runnable : Runnable id (context.withState .ready) waiting := by
    exact ⟨uniform_withState uniform found .ready, owned,
      context?_withState uniform found .ready, rfl⟩
  have same : origin.machine.interpreter.Matches
      (waiting.withState id .running).machine.interpreter := by
    rw [interpreter_withState runnable.uniform runnable.found,
      show waiting.machine.interpreter = _ from interpreter_withState uniform found .ready]
    refine .changed_back ((uniform.context? id).symm.trans found) ?_
    rw [← running]
    rfl
  have queue : (QueueView.apartFrom id).same origin.own.ready waiting.own.ready := by
    show _ = (joined id origin.own.ready).filter (· != id)
    rw [QueueView.filter_joined, if_pos rfl]
  rw [bind_of_ok readied]
  refine (agree_carryOn uniform (uniform_withState runnable.uniform runnable.found .running) rfl
    queue ?_).trans ((agree_slice_carryOn runnable quantum).symm Matched.symm) Matched.trans
  exact Interpreter.agrees_switch_matching id quantum _ _ same

/-- **A slice of `n + 1` instructions is a step, and a slice of the others** unless the step ends in
a trap. -/
theorem agree_slice_succ (runnable : Runnable id context origin) (quantum : Nat) :
    Agree (fun _ => False) (Matched (.apartFrom id)) Eq (slice id (quantum + 1) origin)
      (stepThenSlice id quantum origin) := by
  rw [Nat.add_comm quantum 1]
  refine (agree_slice_carryOn runnable (1 + quantum)).trans ?_ Matched.trans
  rw [stepThenSlice_apply runnable]
  have running := uniform_withState runnable.uniform runnable.found .running
  by_cases timer : ∃ middle, Interpreter.switch id 1
      (origin.withState id .running).machine.interpreter = .ok .timerInterrupt middle
  · obtain ⟨middle, first⟩ := timer
    obtain ⟨stopped, run, uniform, rfl, own⟩ := below_of_ok (running.switch id 1) first
    obtain ⟨before, later, there, found, state⟩ := Interpreter.state_of_switch first
    obtain rfl := Option.some.inj (there.symm.trans ((running.context? id).symm.trans
      (context?_withState runnable.uniform runnable.found .running)))
    have onward : Agree (fun _ => False) (Matched (.apartFrom id)) Eq
        (carryOn id (1 + quantum) (origin.withState id .running)) (carryOn id quantum stopped) :=
      agree_carryOn running uniform (own ▸ rfl) (own ▸ rfl) (Interpreter.coincide_add first).agree
    rw [bind_of_ok run]
    refine onward.trans (agree_carryOn_ready uniform ?_ ?_ state quantum) Matched.trans
    · rw [own]
      exact runnable.owned
    · exact (uniform.context? id).trans found
  · have stops := not_exists.mp timer
    have once : Agree (fun _ => False) (Matched (.apartFrom id)) Eq
        (carryOn id (1 + quantum) (origin.withState id .running))
        (carryOn id 1 (origin.withState id .running)) := by
      refine agree_carryOn running running rfl rfl ?_
      rw [Interpreter.switch_add_of_stop stops]
      exact Interpreter.agrees_switch_matching id 1 _ _ (.refl _)
    have same : carryOn id 1 (origin.withState id .running) = (do
        let trap ← below (Machine.switch id 1)
        afterFirst id quantum trap) (origin.withState id .running) := by
      obtain ⟨relays, -, run⟩ := below_apply (running.switch id 1)
      unfold carryOn
      rw [bind_apply, bind_apply]
      unfold EStateM.bind
      rw [run]
      cases first : Interpreter.switch id 1
          (origin.withState id .running).machine.interpreter with
      | error error middle => rfl
      | ok trap middle =>
          cases trap with
          | timerInterrupt => exact absurd first (stops middle)
          | environmentCall => rfl
          | fault fault pc => rfl
    rw [← same]
    exact once

/-- **A slice of no instructions** moves its context within the queue, if at all. -/
theorem slice_zero (runnable : Runnable id context origin) :
    ∃ after, slice id 0 origin = .ok .timerInterrupt after ∧
      Matched (.apartFrom id) origin after := by
  have running := uniform_withState runnable.uniform runnable.found .running
  have found := context?_withState runnable.uniform runnable.found .running
  obtain ⟨idle, idled, same⟩ := Interpreter.switch_zero ((running.context? id).symm.trans found)
    (by nofun)
  obtain ⟨stopped, run, uniform, rfl, own⟩ := below_of_ok (running.switch id 0) idled
  have there : stopped.machine.context? id = some (context.withState .running) := by
    rw [uniform.context?]
    exact (same.contexts id).symm.trans ((running.context? id).symm.trans found)
  let counted : Hypervisor := ⟨stopped.machine, { stopped.own with
    relay := stopped.own.relay.count fun counters =>
      { counters with timerInterrupts := counters.timerInterrupts + 1 } }⟩
  let waiting := (counted.withState id .ready).withReady (joined id counted.own.ready)
  have handled : handleTrap id .timerInterrupt stopped = .ok () waiting :=
    @makeReady_of_found counted id _ there
  have carried : carryOn id 0 (origin.withState id .running) = .ok .timerInterrupt waiting := by
    unfold carryOn
    rw [bind_of_ok run, bind_of_ok handled]
    rfl
  have states : Matched (.apartFrom id) origin waiting := by
    replace own : stopped.own = origin.own := own
    refine ⟨?_, ?_, ?_, runnable.uniform, uniform_withState uniform there .ready⟩
    · rw [← own]
      rfl
    · show origin.own.ready.filter (· != id) = (joined id stopped.own.ready).filter (· != id)
      rw [QueueView.filter_joined, if_pos rfl, own]
    · rw [interpreter_withState runnable.uniform runnable.found] at same
      rw [show waiting.machine.interpreter = _ from interpreter_withState uniform there .ready]
      have stands := (runnable.uniform.context? id).symm.trans runnable.found
      refine (Interpreter.Matches.changed_back stands ?_).trans (same.modifyContext id _)
      rw [← runnable.ready]
      rfl
  have agree : Agree (fun _ => False) (Matched (.apartFrom id)) Eq _ _ :=
    (agree_slice_carryOn runnable 0).symm Matched.symm
  rw [carried] at agree
  obtain ⟨after, done, alike⟩ := agree.ok
  exact ⟨after, done, states.trans alike⟩

/-! ## Where a turn leaves its context -/

/-- A context is not ready, does not wait for a child, and is not queued. -/
def Absent (id : ContextId) (state : Option ContextState) (queue : List ContextId) : Prop :=
  (∀ now, state = some now → now ≠ .ready ∧ ∀ child, waitsFor now child = false) ∧ id ∉ queue

theorem undisturbed_absent (id : ContextId) : Undisturbed id (Absent id) where
  join different absent := by
    refine ⟨absent.1, fun place => ?_⟩
    rcases List.mem_append.mp place with old | new
    · exact absent.2 old
    · exact different (List.mem_singleton.mp new).symm
  leave _ absent := ⟨absent.1, fun place => absent.2 (List.mem_of_mem_filter place)⟩
  asleep absent := (absent.1 _ rfl).2 _
  finish absent ended := by
    refine ⟨fun now found => ?_, absent.2⟩
    rw [ended now found]
    exact ⟨by nofun, fun _ => rfl⟩
  away absent _ := ⟨absent.1, fun place => absent.2 (List.mem_of_mem_filter place)⟩

/-- A context stands at the back of the queue if it can run, and nowhere otherwise. -/
def AtBack (id : ContextId) (hypervisor : Hypervisor) : Prop :=
  hypervisor.own.ready = hypervisor.own.ready.filter (· != id) ++
    if canRun hypervisor.machine id then [id] else []

theorem filter_of_absent {queue : List ContextId} (absent : id ∉ queue) :
    queue.filter (· != id) = queue :=
  List.filter_eq_self.mpr fun _ member => bne_iff_ne.mpr fun same => absent (same ▸ member)

theorem atBack_of_stuck (uniform : origin.machine.Uniform) (absent : id ∉ origin.own.ready)
    (stuck : ∀ kin, origin.kin id = some kin → kin.state ≠ .ready) : AtBack id origin := by
  have rests : canRun origin.machine id = false := by
    rw [← Bool.not_eq_true, canRun_iff uniform]
    exact fun ⟨kin, found, ready⟩ => stuck kin found ready
  rw [AtBack, rests, filter_of_absent absent]
  exact (List.append_nil _).symm

theorem Placed.atBack (placed : Placed (Absent id) id origin) : AtBack id origin :=
  atBack_of_stuck placed.uniform placed.stands.2 fun _ found =>
    (placed.stands.1 _ (congrArg (Option.map Kin.state) found)).1

/-- A context that is moved into a state is in that state. -/
theorem halts_moved (known : Known id origin) (state : ContextState) :
    Halts (fun _ _ => True)
      (fun _ after => Known id after ∧ after.own = origin.own ∧
        ∀ kin, after.kin id = some kin → kin.state = state) (setState id state origin) := by
  have moves := halts_modifyContext known.uniform id (fun kin => { kin with state })
    (fun context => (rfl : (context.withState state).kin = _)) fun _ => rfl
  apply moves.mono
  · rintro _ after ⟨altered, -⟩
    refine ⟨known.of_altered altered, altered.own, fun kin found => ?_⟩
    obtain ⟨before, -, rfl⟩ := altered.of_found found
    rw [if_pos rfl]
  · exact fun _ _ _ => trivial

/-- A context that is moved into a state in which it neither runs nor waits. -/
theorem halts_setState_absent (known : Known id origin) (absent : id ∉ origin.own.ready)
    {state : ContextState} (never : state ≠ .ready)
    (awake : ∀ child, waitsFor state child = false) :
    Halts (fun _ _ => True) (fun _ => Placed (Absent id) id) (setState id state origin) := by
  apply (halts_moved known state).mono
  · rintro _ after ⟨known', own, same⟩
    refine ⟨known', fun now found => ?_, own ▸ absent⟩
    obtain ⟨kin, there, rfl⟩ := Option.map_eq_some_iff.mp found
    rw [same kin there]
    exact ⟨never, awake⟩
  · exact fun _ _ _ => trivial

theorem atBack_makeReady (uniform : origin.machine.Uniform) (absent : id ∉ origin.own.ready) :
    Halts (fun _ _ => True) (fun _ => AtBack id) (makeReady id origin) := by
  cases found : origin.machine.context? id with
  | none =>
      rw [makeReady_eq, setState, bind_apply, EStateM.bind, modifyContext_apply, found]
      exact trivial
  | some context =>
      have runs : canRun (origin.withState id .ready).machine id = true := by
        rw [canRun, context?_withState uniform found]
        rfl
      rw [makeReady_of_found found]
      show joined id origin.own.ready = (joined id origin.own.ready).filter (· != id) ++
        if canRun (origin.withState id .ready).machine id then [id] else []
      rw [runs, QueueView.filter_joined, if_pos rfl, if_pos rfl, filter_of_absent absent, joined,
        if_neg (by simpa using absent)]

theorem atBack_handleFault (placed : Placed (Absent id) id origin) (fault : Fault) (pc : UInt64) :
    Halts (fun _ _ => True) (fun _ => AtBack id) (handleFault id fault pc origin) := by
  refine ((((undisturbed_absent id).upheldByCalls id).count _).halts placed).bind
    fun _ counted placed => ?_
  refine ((discreet_note id _).keeps_placed.halts placed).bind fun _ noted placed => ?_
  apply Halts.get_bind
  split
  · refine (halts_moved placed.toKnown (.trapped fault pc)).bind ?_
    rintro _ parked ⟨known, -, same⟩
    refine atBack_of_stuck known.uniform (fun place => ?_) fun kin found => ?_
    · exact bne_iff_ne.mp (List.mem_filter.mp place).2 rfl
    · rw [same kin found]
      nofun
  · exact (((undisturbed_absent id).keeps_terminate id _).halts placed).mono
      (fun _ _ placed => placed.atBack) fun _ _ _ => trivial

theorem atBack_serviceCall (known : Known id origin) (absent : id ∉ origin.own.ready) :
    Halts (fun _ _ => True) (fun _ => AtBack id) (serviceCall id origin) := by
  refine (halts_setState_absent known absent (by nofun) fun _ => rfl).bind fun _ asleep placed => ?_
  refine ((keeps_contextOf id).halts placed).bind fun context looked placed => ?_
  refine (((undisturbed_absent id).upheldByCalls id).dispatch.halts placed).bind
    fun outcome served placed => ?_
  have advanced {change : Context → Context} (kin : ∀ context, (change context).kin = context.kin)
      (space : ∀ context, (change context).space = context.space) :
      Halts (fun _ _ => True) (fun _ => Placed (Absent id) id) (modifyContext id change served) :=
    (keeps_placed_modifyContext (fun kin => kin) kin space fun _ _ => rfl).halts placed
  cases outcome with
  | answer value =>
      refine Halts.bind (advanced ?_ ?_) fun _ answered placed => ?_
      · exact fun _ => rfl
      · exact fun _ => rfl
      · exact atBack_makeReady placed.uniform placed.stands.2
  | exit code =>
      refine Halts.bind (advanced ?_ ?_) fun _ answered placed => ?_
      · exact fun _ => rfl
      · exact fun _ => rfl
      · exact (((undisturbed_absent id).keeps_terminate id _).halts placed).mono
          (fun _ _ placed => placed.atBack) fun _ _ _ => trivial
  | block reason =>
      apply (halts_moved placed.toKnown (.blocked reason)).mono
      · rintro _ after ⟨known, own, same⟩
        refine atBack_of_stuck known.uniform (own ▸ placed.stands.2) fun kin found => ?_
        rw [same kin found]
        nofun
      · exact fun _ _ _ => trivial
  | fault fault => exact atBack_handleFault placed fault _

theorem atBack_handleTrap (placed : Placed (Absent id) id origin) (trap : Trap) :
    Halts (fun _ _ => True) (fun _ => AtBack id) (handleTrap id trap origin) := by
  cases trap with
  | timerInterrupt =>
      refine ((((undisturbed_absent id).upheldByCalls id).count _).halts placed).bind
        fun _ counted placed => ?_
      exact atBack_makeReady placed.uniform placed.stands.2
  | environmentCall => exact atBack_serviceCall placed.toKnown placed.stands.2
  | fault fault pc => exact atBack_handleFault placed fault pc

/-- **After its turn, a context that was taken from the queue stands at its back** if it can run. -/
theorem atBack_slice (known : Known id origin) (absent : id ∉ origin.own.ready) (quantum : Nat) :
    Halts (fun _ _ => True) (fun _ => AtBack id) (slice id quantum origin) := by
  have out : Placed (fun _ queue => id ∉ queue) id origin := ⟨known, absent⟩
  refine ((keeps_requireOwned id).halts out).bind fun _ owner out => ?_
  refine ((keeps_contextOf id).halts out).bind fun context found out => ?_
  split
  · exact trivial
  refine (halts_setState_absent out.toKnown out.stands (by nofun) fun _ => rfl).bind
    fun _ running placed => ?_
  refine ((((undisturbed_absent id).upheldByCalls id).count _).halts placed).bind
    fun _ counted placed => ?_
  apply Halts.get_bind
  refine ((discreet_note id _).keeps_placed.halts placed).bind fun _ noted placed => ?_
  refine ((discreet_switch id quantum).keeps_placed.halts placed).bind fun trap stopped placed => ?_
  exact (atBack_handleTrap placed trap).bind fun _ _ back => back

end NestedMachine.Hypervisor
