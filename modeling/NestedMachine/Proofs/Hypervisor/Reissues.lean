import NestedMachine.Proofs.Hypervisor.Custody
import NestedMachine.Proofs.Hypervisor.Harts
import NestedMachine.Proofs.Hypervisor.Reports
import NestedMachine.Proofs.Machine.Fetching

/-!
# Calls that are made again

A context that has run into a call stands on it (`Steady.stands_of_switch`): the word at its program
counter can be fetched, and it is that of a call.  Whoever stands on a call and is let run makes
this call and does nothing else before (`Unmoved.halts_switch_on_call`).

A call that blocks leaves its caller standing on it (`ServedCall.Blocks.standsOn`).  There it stays
while others run, and while it is woken and scheduled, since nobody moves it and an instruction is
an heirloom (`StandsOn`).  An operation leaves it there, unless it serves the call
(`StandsOn.single`).  So by induction over the operations, the next call that the caller makes is
the one on which it was blocked, with the same registers (`ServedCall.Blocks.persists`).
-/

namespace NestedMachine.Hypervisor

set_option autoImplicit false

variable {capacity base quantum : Nat} {origin running called after : Hypervisor}
  {loaded : ContextId → Prop} {id other : ContextId} {hart : Hart} {word : Word} {turn : Turn}
  {trap : Trap} {answer : Answer} {operation : Operation}

/-! ## Runs that end in calls -/

/-- **A context that has run into a call stands on it.** -/
theorem Steady.stands_of_switch (steady : Steady capacity running)
    (ran : below (Machine.switch id quantum) running = .ok .environmentCall called) :
    ∃ context word, called.machine.context? id = some context ∧
      word.instruction? = some .ecall ∧
      called.machine.interpreter.Has (Memory.Fetchable context.hart.pc.toNat word) id := by
  have runs : Halts (fun _ _ => True) (fun trap after => trap = .environmentCall →
      ∃ context word, after.machine.context? id = some context ∧
        word.instruction? = some .ecall ∧
        after.machine.interpreter.Has (Memory.Fetchable context.hart.pc.toNat word) id)
      (below (Machine.switch id quantum) running) := by
    apply halts_below (steady.uniform.switch id quantum)
    have ends := Interpreter.switchEnds id quantum running.machine.interpreter
    generalize Interpreter.switch id quantum running.machine.interpreter = result at ends ⊢
    cases ends with
    | missing _ => exact fun _ _ => trivial
    | exited _ _ => exact fun _ _ => trivial
    | ranDry _ _ _ => exact fun _ _ => trivial
    | @trapped context _ found live ended =>
        rintro relays uniform rfl
        have sound := steady.sound.memory found running.machine.interpreter.journal
        obtain ⟨word, calls, fetchable⟩ := Hart.fetchable_of_run sound ended
        have there := Table.getElem?_insert running.machine.interpreter.contexts id id
          (Interpreter.afterRun context (running.machine.interpreter.runOf context quantum))
        rw [if_pos rfl] at there
        refine ⟨_, word, (uniform.context? id).trans there, calls, _, there, ?_⟩
        exact fetchable.of_seen fun _ => rfl
  rw [ran] at runs
  exact runs rfl

/-- **A context that stands on a call runs into it**, unless it is not let run at all, and does not
move. -/
theorem Unmoved.halts_switch_on_call (unmoved : Unmoved id hart running)
    (steady : Steady capacity running) (calls : word.instruction? = some .ecall)
    (has : running.machine.interpreter.Has (Memory.Fetchable hart.pc.toNat word) id)
    (quantum : Nat) :
    Halts (fun _ _ => True)
      (fun trap after => Unmoved id hart after ∧
        (trap = .environmentCall ∨ trap = .timerInterrupt))
      (below (Machine.switch id quantum) running) := by
  apply halts_below (steady.uniform.switch id quantum)
  have ends := Interpreter.switchEnds id quantum running.machine.interpreter
  generalize Interpreter.switch id quantum running.machine.interpreter = result at ends ⊢
  cases ends with
  | missing _ => exact fun _ _ => trivial
  | exited _ _ => exact fun _ _ => trivial
  | ranDry _ _ _ => exact fun _ _ => trivial
  | @trapped context _ found live ended =>
      intro relays uniform
      obtain ⟨_, there, fetchable⟩ := has
      obtain rfl := Option.some.inj (found.symm.trans there)
      obtain rfl : context.hart = hart :=
        unmoved.stands _ (congrArg (Option.map Context.hart) found)
      have sound := steady.sound.memory found running.machine.interpreter.journal
      obtain ⟨stays, ends⟩ := Hart.run_of_fetchable sound calls fetchable
        running.machine.interpreter.tracing quantum 0
      refine ⟨unmoved.congr uniform le_rfl fun standing there => ?_, ?_⟩
      · rw [hartIn, Interpreter.keepTrap, Interpreter.keepRun, Table.getElem?_insert,
          if_pos rfl] at there
        rw [hartIn, found]
        exact (congrArg some stays.symm).trans there
      · exact ends.imp (fun same => Hart.Ending.trap.inj (ended.symm.trans same))
          fun same => Hart.Ending.trap.inj (ended.symm.trans same)

/-! ## Waiting on a call -/

/-- A context stands on a call: it has not moved, and while it lives the call can be fetched. -/
structure StandsOn (capacity base : Nat) (id : ContextId) (hart : Hart) (word : Word)
    (hypervisor : Hypervisor) : Prop extends
    Custody capacity (Memory.Fetchable hart.pc.toNat word) (· = id) base Nobody hypervisor where
  unmoved : Unmoved id hart hypervisor
  calls : word.instruction? = some .ecall

namespace StandsOn

theorem perform (stands : StandsOn capacity base id hart word origin)
    (done : operation.perform origin = .ok answer after) (unmoved : Unmoved id hart after) :
    StandsOn capacity base id hart word after := by
  have heirloom := Memory.heirloom_fetchable hart.pc.toNat word
  have custody := (operation.keeps_custody heirloom).finalState stands.toCustody
  rw [done] at custody
  exact ⟨custody, unmoved, stands.calls⟩

/-- A live context that stands on a call finds it there. -/
theorem has_of_live (stands : StandsOn capacity base id hart word origin)
    (lives : origin.Live id) :
    origin.machine.interpreter.Has (Memory.Fetchable hart.pc.toNat word) id :=
  stands.has id ⟨lives, .inl rfl⟩ fun nobody => nobody.elim

end StandsOn

/-! ## Turns -/

/-- Nobody moves before a turn lets a context run. -/
theorem Aside.unmoved (aside : Aside origin after) (unmoved : Unmoved id hart origin) :
    Unmoved id hart after :=
  unmoved.congr aside.uniform aside.nextId.ge fun _ there => by rwa [aside.contexts] at there

theorem Aside.steady (aside : Aside origin after) (steady : Steady capacity origin) :
    Steady capacity after :=
  ⟨steady.sound.congr aside.pool (fun _ => by rw [aside.contexts]) aside.nextId.ge, aside.uniform⟩

/-- The state of a context is apart from what it has. -/
theorem has_withState {property : Memory → Prop} (heirloom : Memory.Heirloom property)
    (has : origin.machine.interpreter.Has property id) (other : ContextId) (state : ContextState) :
    (origin.withState other state).machine.interpreter.Has property id := by
  refine has.congr heirloom (pool_modifyContext ..) ?_
  unfold withState Machine.modifyContext
  split
  · apply Interpreter.spaceIn_modify
    exact fun _ => rfl
  · rfl

/-- A call is served where a turn has led its caller to the trap. -/
theorem Turn.call_of_servedCall {served : ServedCall}
    (done : turn.operation.perform origin = .ok answer after)
    (told : turn.servedCall? origin = some served) :
    ∃ caller called context, turn.toTrap origin = .ok (some (caller, .environmentCall)) called ∧
      called.machine.context? caller = some context ∧
      served = .between caller context called after := by
  unfold servedCall? at told
  split at told
  · rename_i caller called reached
    obtain ⟨context, found, rfl⟩ := Option.map_eq_some_iff.mp told
    refine ⟨caller, called, context, reached, found, ?_⟩
    rw [done]
    rfl
  · cases told

/-- A context that is let run by a turn moves only if it is not on a call, and nobody else does. -/
theorem StandsOn.leads (stands : StandsOn capacity base id hart word origin)
    (kinship : Kinship loaded origin) (leads : turn.Leads other trap origin called) :
    Unmoved id hart called ∧
      (other = id → trap = .environmentCall ∨ trap = .timerInterrupt) := by
  obtain @⟨context, quantum, running, found, lively, started, ran, -⟩ := leads
  have begun := (Unmoved.keeps_setState other .running).of_ok
    (setState_of_found found .running) stands.unmoved
  have unmoved := started.unmoved begun
  by_cases same : other = id
  · subst same
    have heirloom := Memory.heirloom_fetchable hart.pc.toNat word
    have lives : origin.Live other := by
      refine ⟨_, kin_of_context? kinship.uniform found, ?_⟩
      refine (kinship.exited other _ (kin_of_context? kinship.uniform found)).mpr ?_
      rintro exited
      rcases lively with ready | running
      · cases exited.symm.trans ready
      · cases exited.symm.trans running
    have steady := started.steady (stands.toSteady.modifyContext other fun _ => rfl)
    have kept := (has_withState heirloom (stands.has_of_live lives) other .running).congr heirloom
      started.pool (by rw [started.contexts])
    have runs := unmoved.halts_switch_on_call steady stands.calls kept quantum
    rw [ran] at runs
    exact ⟨runs.1, fun _ => runs.2⟩
  · exact ⟨(Unmoved.keeps_switch same quantum).of_ok ran unmoved, fun mine => absurd mine same⟩

/-- **A turn leaves a context standing on its call, unless the call is served**; then it is made by
the context as it stood. -/
theorem StandsOn.takes_turn (stands : StandsOn capacity base id hart word origin)
    (kinship : Kinship loaded origin) (done : turn.operation.perform origin = .ok answer after) :
    (∀ again, turn.servedCall? origin = some again → again.caller = id →
      ∃ context, again.called.context? id = some context ∧ context.hart = hart ∧
        again.call = .ofContext context) ∧
    ((∀ again, turn.servedCall? origin = some again → again.caller ≠ id) →
      Unmoved id hart after) := by
  obtain ⟨trapped, called, reached, handled⟩ := Turn.handled_of_turn done
  cases trapped with
  | none =>
      have silent : turn.servedCall? origin = none := Turn.servedCall?_of_silent reached nofun
      obtain rfl : after = called := handled
      refine ⟨fun again told => ?_, fun _ => ?_⟩
      · cases silent.symm.trans told
      · exact (aside_of_toTrap kinship.uniform reached).unmoved stands.unmoved
  | some trapped =>
      obtain ⟨runner, trap⟩ := trapped
      obtain ⟨unmoved, traps⟩ := stands.leads kinship (leads_of_toTrap kinship.uniform reached)
      by_cases same : runner = id
      · subst same
        rcases traps rfl with rfl | rfl
        · have served := Turn.serviceCall_of_turn reached done
          obtain ⟨_, _, block, -⟩ := ok_of_bind served
          obtain ⟨context, found⟩ := found_of_modifyContext block
          have told := Turn.servedCall?_of_call reached found done
          refine ⟨fun again told' _ => ?_, fun silent => absurd rfl (silent _ told)⟩
          cases told.symm.trans told'
          exact ⟨context, found, unmoved.hart_eq found, rfl⟩
        · have silent : turn.servedCall? origin = none :=
            Turn.servedCall?_of_silent reached nofun
          refine ⟨fun again told => ?_, fun _ => ?_⟩
          · cases silent.symm.trans told
          · have readies : Keeps (Unmoved runner hart) (makeReady runner) :=
              Unmoved.keeps_makeReady runner
            rcases handled with handle | ⟨-, ready⟩
            · exact ((Unmoved.keeps_modifyOwn _).bind fun _ => readies).of_ok handle unmoved
            · exact readies.of_ok ready unmoved
      · refine ⟨fun again told mine => absurd ?_ same, fun _ => ?_⟩
        · obtain ⟨caller, _, _, reached', -, rfl⟩ := Turn.call_of_servedCall done told
          cases reached.symm.trans reached'
          exact mine
        · rcases handled with handle | ⟨-, ready⟩
          · exact ((Unmoved.upheld same).handleTrap trap).of_ok handle unmoved
          · exact (Unmoved.keeps_makeReady runner).of_ok ready unmoved

/-! ## Operations -/

/-- Nobody moves in an operation in which no context runs. -/
theorem Unmoved.keeps_still (single : operation.single = true) (still : operation.turn? = none) :
    Keeps (Unmoved id hart) operation.perform := by
  have look {α : Type} (asked : ContextId) (view : Context → α) :
      Keeps (Unmoved id hart) (do
        requireOwned asked
        return view (← contextOf asked)) :=
    (keeps_requireOwned asked).bind fun _ => (keeps_contextOf asked).bind fun _ => .pure _
  cases operation with
  | load image arguments => exact (keeps_load image arguments).bind fun _ => .pure _
  | run rounds asked => cases single
  | runAll rounds => cases single
  | scheduleOnce => cases still
  | slice asked quantum => cases still
  | step asked => cases still
  | kill parent child =>
      exact (keeps_kill fun _ _ _ => keeps_terminate child _).bind fun _ => .pure _
  | reap child => exact (keeps_reap child).bind fun _ => .pure _
  | finalizeTrapped asked =>
      exact (keeps_finalizeTrapped (keeps_terminate asked)).bind fun _ => .pure _
  | requeue asked =>
      refine Keeps.bind ((keeps_modifyOwn _).bind fun _ => ?_) fun _ => .pure _
      exact .get_bind fun look => .ite (keeps_modifyOwn _) (.pure ())
  | nextReady =>
      refine Keeps.bind (Keeps.bind (.modify fun _ unmoved => ?_) fun _ => ?_) fun _ => .pure _
      · exact unmoved.congr unmoved.uniform le_rfl fun _ there => there
      · exact .get_bind fun _ => .pure _
  | snapshot asked => exact (look asked _).bind fun _ => .pure _
  | pcOf asked => exact (look asked _).bind fun _ => .pure _
  | exitStatusOf asked => exact (look asked _).bind fun _ => .pure _
  | access asked request =>
      refine Keeps.bind ((keeps_requireOwned asked).bind fun _ => ?_) fun _ => .pure _
      exact keeps_onMemory asked _
  | setMemoryMode mode => exact (keeps_modifyOwn _).bind fun _ => .pure _
  | setDebugTraps debugTraps => exact (keeps_modifyOwn _).bind fun _ => .pure _
  | startRecording => exact (keeps_modifyOwn _).bind fun _ => .pure _
  | startReplay trace => exact (keeps_modifyOwn _).bind fun _ => .pure _
  | takeTrace =>
      refine Keeps.bind (.get_bind fun look => ?_) fun _ => .pure _
      split
      · exact (keeps_modifyOwn _).bind fun _ => .pure _
      · exact .pure none

/-- The call that an operation serves, if it is a turn that ends in one. -/
def Operation.servedCall? (operation : Operation) (origin : Hypervisor) : Option ServedCall :=
  operation.turn?.bind fun turn => turn.servedCall? origin

/-- What a context asks for depends on its hart alone. -/
theorem Call.ofContext_congr {context context' : Context} (same : context'.hart = context.hart) :
    Call.ofContext context' = Call.ofContext context := by
  simp only [Call.ofContext, Context.register, same]

/-- A call is made again: by a caller that stands where it stood, and so for the same. -/
structure ServedCall.Repeats (again wait : ServedCall) : Prop where
  caller : again.caller = wait.caller
  call : again.call = wait.call
  hart : (again.called.context? wait.caller).map Context.hart =
    (wait.called.context? wait.caller).map Context.hart

/-- **A single operation leaves a context standing on its call, unless the call is served**; then it
is made by the context as it stood. -/
theorem StandsOn.single (stands : StandsOn capacity base id hart word origin)
    (kinship : Kinship loaded origin) (single : operation.single = true)
    (done : operation.perform origin = .ok answer after) :
    (∀ again, operation.servedCall? origin = some again → again.caller = id →
      ∃ context, again.called.context? id = some context ∧ context.hart = hart ∧
        again.call = .ofContext context) ∧
    ((∀ again, operation.servedCall? origin = some again → again.caller ≠ id) →
      StandsOn capacity base id hart word after) := by
  unfold Operation.servedCall?
  cases turned : operation.turn? with
  | none =>
      refine ⟨nofun, fun _ => stands.perform done ?_⟩
      exact (Unmoved.keeps_still single turned).of_ok done stands.unmoved
  | some turn =>
      obtain rfl : operation = turn.operation := by
        cases operation <;> cases turned <;> rfl
      obtain ⟨again, unmoved⟩ := stands.takes_turn kinship done
      exact ⟨again, fun silent => stands.perform done (unmoved silent)⟩

/-! ## Blocked calls -/

/-- A context that sees the same has the same. -/
theorem has_of_shown {property : Memory → Prop} {context later : Context}
    (heirloom : Memory.Heirloom property) (uniform : called.machine.Uniform)
    (uniform' : after.machine.Uniform) (found : called.machine.context? id = some context)
    (found' : after.machine.context? id = some later) (space : later.space = context.space)
    (shown : after.machine.shown id = called.machine.shown id)
    (has : called.machine.interpreter.Has property id) :
    after.machine.interpreter.Has property id := by
  have bytes (address : Nat) :
      Memory.byteAt ⟨context.space, after.machine.interpreter.pool, .silent⟩ address =
        Memory.byteAt ⟨context.space, called.machine.interpreter.pool, .silent⟩ address := by
    have same := congrFun (congrFun shown address) 1
    unfold Machine.shown at same
    rw [found, found'] at same
    dsimp only at same
    rw [space] at same
    exact (List.cons.inj same).1
  obtain ⟨there, place, held⟩ := has
  obtain rfl := Option.some.inj (place.symm.trans ((uniform.context? id).symm.trans found))
  refine ⟨later, (uniform'.context? id).symm.trans found', ?_⟩
  have seen : property ⟨there.space, after.machine.interpreter.pool,
      after.machine.interpreter.journal⟩ := heirloom.seen held bytes
  rwa [← space] at seen

/-- **A call that blocks leaves its caller standing on it.** -/
theorem ServedCall.Blocks.standsOn {wait : ServedCall} (blocks : wait.Blocks)
    (steady : Steady capacity origin) (kinship : Kinship loaded origin)
    (done : turn.operation.perform origin = .ok answer after)
    (told : turn.servedCall? origin = some wait) :
    ∃ context word, wait.called.context? wait.caller = some context ∧
      wait.call = .ofContext context ∧
      StandsOn capacity after.machine.interpreter.nextId wait.caller context.hart word after := by
  obtain ⟨caller, called, context, reached, found, rfl⟩ := Turn.call_of_servedCall done told
  have called' : Steady capacity called := (abiding_steady.toTrap turn).of_ok reached steady
  have after' : Steady capacity after := turn.operation.keeps_steady.of_ok done steady
  -- The caller has run into its call, so it stood on it.
  obtain ⟨here, -, started, ran, -⟩ := leads_of_toTrap kinship.uniform reached
  have running := started.steady (steady.modifyContext caller fun _ => rfl)
  obtain ⟨_, word, same, calls, has⟩ := running.stands_of_switch ran
  obtain rfl := Option.some.inj (same.symm.trans found)
  -- It still does, since nothing is done to it but to block it.
  obtain ⟨_, same, -, -, left⟩ := blocks.caller
  obtain rfl := Option.some.inj (same.symm.trans found)
  have kept := has_of_shown (Memory.heirloom_fetchable _ word) called'.uniform after'.uniform found
    left rfl (blocks.memory caller) has
  have custody : Custody capacity _ (· = caller) _ Nobody after :=
    custody_of_holders after' fun id same => same ▸ kept
  have unmoved := Unmoved.of_found after'.uniform (custody.older caller rfl) left
  exact ⟨_, word, found, rfl, custody, unmoved, calls⟩

/-- What is known of the next call of a caller that has been blocked, and of the time until then. -/
structure ServedCall.Persists (wait : ServedCall) (later : List Operation) (now : Hypervisor) :
    Prop where
  stands : ∀ between rest, later = between ++ rest →
    (∀ call ∈ servedCalls between now, call.caller ≠ wait.caller) →
    ∀ context, (stateAfter Operation.perform between now).machine.context? wait.caller =
      some context → (wait.called.context? wait.caller).map Context.hart = some context.hart
  again : ∀ again,
    (servedCalls later now).find? (fun call => call.caller = wait.caller) = some again →
    again.Repeats wait

section Run

variable {operations : List Operation}

/-- A context stands on its call while operations serve none of its calls. -/
theorem StandsOn.stateAfter (stands : StandsOn capacity base id hart word origin)
    (kinship : Kinship loaded origin) (single : ∀ operation ∈ operations, operation.single = true)
    (fine : ∀ outcome ∈ trail Operation.perform operations origin, outcome.1.isOk = true)
    (silent : ∀ call ∈ servedCalls operations origin, call.caller ≠ id) :
    StandsOn capacity base id hart word (stateAfter Operation.perform operations origin) := by
  induction operations generalizing origin loaded with
  | nil => exact stands
  | cons operation rest ih =>
      obtain ⟨here, later⟩ := List.forall_mem_cons.mp single
      obtain ⟨answered, fine⟩ := List.forall_mem_cons.mp fine
      obtain ⟨answer, done⟩ := ok_of_isOk answered
      obtain ⟨first, silent⟩ := List.forall_mem_append.mp silent
      have kept := kinship.perform operation
      refine ih ((stands.single kinship here done).2 fun again told => ?_) kept later fine silent
      exact first again (Option.mem_toList.mpr told)

/-- **The next call of a context that stands on its call is that call.** -/
theorem StandsOn.next (stands : StandsOn capacity base id hart word origin)
    (kinship : Kinship loaded origin) (single : ∀ operation ∈ operations, operation.single = true)
    (fine : ∀ outcome ∈ trail Operation.perform operations origin, outcome.1.isOk = true)
    {again : ServedCall}
    (first : (servedCalls operations origin).find? (fun call => call.caller = id) = some again) :
    ∃ context, again.called.context? id = some context ∧ context.hart = hart ∧
      again.call = .ofContext context := by
  induction operations generalizing origin loaded with
  | nil => cases first
  | cons operation rest ih =>
      obtain ⟨here, later⟩ := List.forall_mem_cons.mp single
      obtain ⟨answered, fine⟩ := List.forall_mem_cons.mp fine
      obtain ⟨answer, done⟩ := ok_of_isOk answered
      obtain ⟨served, unserved⟩ := stands.single kinship here done
      have kept := kinship.perform operation
      change ((operation.servedCall? origin).toList ++ servedCalls rest _).find? _ = _ at first
      rw [List.find?_append] at first
      cases found : (operation.servedCall? origin).toList.find?
          (fun call => call.caller = id) with
      | some call =>
          rw [found] at first
          cases first
          have told := Option.mem_toList.mp (List.mem_of_find?_eq_some found)
          have mine := List.find?_some found
          exact served again told (of_decide_eq_true mine)
      | none =>
          rw [found] at first
          refine ih (unserved fun call told mine => ?_) kept later fine first
          have silent := List.find?_eq_none.mp found call (Option.mem_toList.mpr told)
          exact silent (decide_eq_true mine)

end Run

/-- **Whoever is blocked on a call makes it again as it was.** -/
theorem ServedCall.Blocks.persists {wait : ServedCall} (blocks : wait.Blocks)
    (steady : Steady capacity origin) (kinship : Kinship loaded origin)
    (single : operation.single = true) (done : operation.perform origin = .ok answer after)
    (told : operation.servedCall? origin = some wait) {later : List Operation}
    (singles : ∀ operation ∈ later, operation.single = true)
    (fine : ∀ outcome ∈ trail Operation.perform later after, outcome.1.isOk = true) :
    wait.Persists later after := by
  unfold Operation.servedCall? at told
  obtain ⟨turn, turned, served⟩ := Option.bind_eq_some_iff.mp told
  obtain rfl : operation = turn.operation := by
    cases operation <;> cases turned <;> rfl
  obtain ⟨context, word, found, same, stands⟩ := blocks.standsOn steady kinship done served
  have kept := kinship.perform turn.operation
  rw [done] at kept
  constructor
  · rintro between rest rfl silent now there
    rw [trail_append] at fine
    have reached := stands.stateAfter kept
      (fun operation member => singles operation (List.mem_append_left _ member))
      (fun outcome member => fine outcome (List.mem_append_left _ member)) silent
    rw [found, reached.unmoved.hart_eq there]
    rfl
  · intro again first
    obtain ⟨context', there, hart, call⟩ := stands.next kept singles fine first
    have mine := List.find?_some first
    refine ⟨of_decide_eq_true mine, ?_, ?_⟩
    · rw [call, same]
      exact Call.ofContext_congr hart
    · rw [there, found, Option.map_some, Option.map_some, hart]

end NestedMachine.Hypervisor
