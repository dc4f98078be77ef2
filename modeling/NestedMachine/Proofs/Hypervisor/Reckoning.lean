import NestedMachine.Proofs.Hypervisor.Reissues

/-!
# Every child is reported exactly once

The children that a context has forked are counted against those that it was told of, those that
were reaped for it, and those that it has.  A turn serves at most one call, and enters what the call
tells (`balanced_turn`).  Of the other operations, reaping strikes off a child, and nothing else
concerns children (`balanced_still`).  Such accounts are closed one after the other over single
operations (`balanced_servedCalls`), and a run consists of these (`unrolled`).

Beside the counts, every wait of a run is accounted for (`accounted_in_run`): it reports a child, or
it is declined, or it blocks its caller, who makes it again when it is woken.  Both together are the
main result (`waits_exactly_once`).
-/

namespace NestedMachine.Hypervisor

set_option autoImplicit false

variable {α : Type} {capacity : Nat} {origin called after : Hypervisor}
  {loaded : ContextId → Prop} {id parent child : ContextId} {context : Context} {answer : Answer}

/-! ## Turns -/

/-- What calls have told a context, if they are of a kind. -/
def toldBy (calls : List ServedCall) (kind : SystemCall) (parent : ContextId) : List ContextId :=
  calls.flatMap (ServedCall.told kind parent)

theorem toldBy_append (calls later : List ServedCall) (kind : SystemCall) (parent : ContextId) :
    toldBy (calls ++ later) kind parent = toldBy calls kind parent ++ toldBy later kind parent :=
  List.flatMap_append

theorem toldBy_singleton (call : ServedCall) (kind : SystemCall) (parent : ContextId) :
    toldBy [call] kind parent = call.told kind parent :=
  List.append_nil _

/-- **The service of a call enters the children that it tells of**: forks those that were born, and
waits those that are gone. -/
theorem balanced_serviceCall (tended : Tended loaded id called)
    (found : called.machine.context? id = some context)
    (fits : after.machine.interpreter.nextId < 2 ^ 32)
    (served : serviceCall id called = .ok () after) :
    let call := ServedCall.between id context called after
    Balanced parent (call.told .fork parent) (call.told .wait parent) [] called after := by
  intro call
  by_cases forks : call.kind? = some .fork
  · have other : call.kind? ≠ some .wait := by
      rw [forks]
      nofun
    rw [ServedCall.told_of_other other]
    exact balanced_fork tended found fits forks served
  · rw [ServedCall.told_of_other forks]
    by_cases waits : call.kind? = some .wait
    · exact balanced_wait tended found fits waits served
    · rw [ServedCall.told_of_other waits]
      exact (tended.steadfast_serviceCall found forks waits served).balanced

/-- How a turn gets to its trap leaves children alone. -/
theorem steadfast_of_toTrap {turn : Turn} {trapped : Option (ContextId × Trap)}
    (uniform : origin.machine.Uniform)
    (reached : turn.toTrap origin = .ok trapped called) : Steadfast origin called := by
  cases trapped with
  | none => exact .of_aside (aside_of_toTrap uniform reached)
  | some trapped =>
      obtain ⟨id, trap⟩ := trapped
      obtain @⟨context, quantum, running, found, -, started, ran, -⟩ :=
        leads_of_toTrap uniform reached
      have switched := discreet_switch id quantum running started.uniform
      rw [ran] at switched
      have begun := Steadfast.setState (setState_of_found found .running)
      exact (begun.trans (.of_aside started)).trans (.of_hushed switched.1)

/-- **A turn enters the children that its call tells of.** -/
theorem balanced_turn {turn : Turn} (kinship : Kinship loaded origin)
    (fits : after.machine.interpreter.nextId < 2 ^ 32)
    (done : turn.operation.perform origin = .ok answer after) :
    let calls := (turn.servedCall? origin).toList
    Balanced parent (toldBy calls .fork parent) (toldBy calls .wait parent) [] origin after := by
  intro calls
  have performed := done
  rw [Turn.perform_eq] at performed
  obtain ⟨trapped, called, reached, finished⟩ := ok_of_bind performed
  have led := steadfast_of_toTrap kinship.uniform reached
  cases trapped with
  | none =>
      cases finished
      have silent : turn.servedCall? origin = none := Turn.servedCall?_of_silent reached nofun
      simp only [calls, silent]
      exact led.balanced
  | some trapped =>
      obtain ⟨id, trap⟩ := trapped
      have tended := (leads_of_toTrap kinship.uniform reached).tended kinship
      by_cases made : trap = .environmentCall
      · subst made
        have served := Turn.serviceCall_of_turn reached done
        obtain ⟨_, _, block, -⟩ := ok_of_bind served
        obtain ⟨context, found⟩ := found_of_modifyContext block
        have told := Turn.servedCall?_of_call reached found done
        simp only [calls, told, Option.toList_some, toldBy_singleton]
        exact led.then_balanced kinship (balanced_serviceCall tended found fits served)
      · have silent : turn.servedCall? origin = none :=
          Turn.servedCall?_of_silent reached fun id same =>
            made (Prod.mk.inj (Option.some.inj same)).2
        obtain ⟨_, settled, settle, finished⟩ := ok_of_bind finished
        cases finished
        simp only [calls, silent]
        exact (led.trans (tended.steadfast_settle made settle)).balanced

/-! ## Operations -/

/-- The child that an operation reaps for a context: reaping tells how a child of it has ended. -/
def Operation.reaps (parent : ContextId) : Operation → Hypervisor → List ContextId
  | .reap child, origin =>
      match answerOf (Hypervisor.reap child origin) with
      | .ok (some _) =>
          if (origin.machine.context? child).bind Context.parent = some parent then [child] else []
      | _ => []
  | _, _ => []

/-- The children that operations reap for a context, one after the other. -/
def reapedFor (parent : ContextId) : List Operation → Hypervisor → List ContextId
  | [], _ => []
  | operation :: rest, origin =>
      operation.reaps parent origin ++ reapedFor parent rest (finalState (operation.perform origin))

/-- A program that is loaded has no parent. -/
theorem balanced_load {image : Image} {arguments : List String} (kinship : Kinship loaded origin)
    (done : load image arguments origin = .ok id after) :
    Balanced parent [] [] [] origin after := by
  unfold load at done
  rw [get_bind_apply] at done
  obtain ⟨child, created, create, done⟩ := ok_of_bind done
  have creates := halts_create kinship.uniform image
    ⟨origin.own.mode, origin.own.stackSize, arguments⟩
  rw [create] at creates
  obtain ⟨born, -⟩ := creates
  obtain ⟨_, owned, own, done⟩ := ok_of_bind done
  obtain ⟨_, queued, queue, done⟩ := ok_of_bind done
  obtain ⟨_, counted, count, done⟩ := ok_of_bind done
  rw [get_bind_apply] at done
  obtain ⟨_, noted, note, done⟩ := ok_of_bind done
  cases own
  cases queue
  cases count
  cases note
  cases done
  have entered : Balanced parent [] [] [] origin created :=
    born.balanced kinship fun _ mine => nomatch mine
  exact entered.then_steadfast kinship (.of_kin le_rfl fun _ => rfl)

/-- Reaping strikes off at the parent whoever has ended. -/
theorem balanced_reap {status : Option ExitStatus} (kinship : Kinship loaded origin)
    (done : reap child origin = .ok status after) :
    Balanced parent [] [] ((Operation.reap child).reaps parent origin) origin after := by
  obtain ⟨gone, found, rfl, reaped⟩ := told_of_reap done
  have link : (origin.machine.context? child).bind Context.parent = gone.parent :=
    congrArg (Option.bind · Context.parent) found
  unfold Operation.reaps
  simp only [done, answerOf, link]
  rcases reaped with ⟨unended, rfl⟩ | ⟨ended, discard⟩
  · rw [unended]
    exact (Steadfast.refl _).balanced
  · obtain ⟨status, ended⟩ := Option.ne_none_iff_exists'.mp ended
    rw [ended]
    obtain ⟨left, removed, same⟩ := removed_of_discard kinship.uniform found discard
    exact (removed.balanced kinship rfl).then_steadfast kinship (.of_machine same)

theorem steadfast_of_within {action : HypervisorAction α} {tells : α → Answer}
    {relation : Hypervisor → Hypervisor → Prop} (run : Within relation Whatever action origin)
    (stays : relation origin after → Steadfast origin after)
    (done : (action >>= fun given => pure (tells given)) origin = .ok answer after) :
    Steadfast origin after := by
  obtain ⟨given, left, acted, done⟩ := ok_of_bind done
  cases done
  unfold Within at run
  rw [acted] at run
  exact stays run.1

/-- **An operation in which no context runs enters the child that it reaps.** -/
theorem balanced_still {operation : Operation} (kinship : Kinship loaded origin)
    (single : operation.single = true) (still : operation.turn? = none)
    (done : operation.perform origin = .ok answer after) :
    Balanced parent [] [] (operation.reaps parent origin) origin after := by
  have rests {β : Type} {action : HypervisorAction β} {tells : β → Answer}
      (run : Within Resting Whatever action origin)
      (done : (action >>= fun given => pure (tells given)) origin = .ok answer after) :
      Balanced parent [] [] [] origin after :=
    (steadfast_of_within run (fun resting => .of_machine resting.machine) done).balanced
  have rested (same : after.machine = origin.machine) : Balanced parent [] [] [] origin after :=
    (Steadfast.of_machine same).balanced
  cases operation with
  | load image arguments =>
      obtain ⟨child, left, load, done⟩ := ok_of_bind done
      cases done
      exact balanced_load kinship load
  | run rounds id => cases single
  | runAll rounds => cases single
  | scheduleOnce => cases still
  | slice id quantum => cases still
  | step id => cases still
  | kill parent' child =>
      obtain ⟨killed, left, kill, done⟩ := ok_of_bind done
      cases done
      have kills := halts_kill kinship parent' child
      rw [kill] at kills
      rcases kills with rfl | ⟨gone, link, lives, ends⟩
      · exact (Steadfast.refl _).balanced
      · exact ends.steadfast.balanced
  | reap child =>
      obtain ⟨status, left, reap, done⟩ := ok_of_bind done
      cases done
      exact balanced_reap kinship reap
  | finalizeTrapped id =>
      refine (steadfast_of_within (within_finalizeTrapped kinship id) ?_ done).balanced
      rintro (rfl | ⟨gone, fault, pc, -, lives, ends⟩)
      · exact .refl _
      · exact ends.steadfast
  | requeue id => exact rests within_requeue done
  | nextReady =>
      exact rested (by cases done; rfl)
  | snapshot id => exact rests (within_look kinship _) done
  | pcOf id => exact rests (within_look kinship _) done
  | exitStatusOf id => exact rests (within_look kinship _) done
  | access id request =>
      refine (steadfast_of_within (within_guestMemory kinship request) ?_ done).balanced
      rintro (rfl | hushed)
      · exact .refl _
      · exact .of_hushed hushed
  | setMemoryMode mode =>
      exact rested (by cases done; rfl)
  | setDebugTraps debugTraps =>
      exact rested (by cases done; rfl)
  | startRecording =>
      exact rested (by cases done; rfl)
  | startReplay trace =>
      exact rested (by cases done; rfl)
  | takeTrace => exact rests within_takeTrace done

/-- **A single operation enters what its call tells, and the child that it reaps.** -/
theorem balanced_single {operation : Operation} (kinship : Kinship loaded origin)
    (single : operation.single = true) (fits : after.machine.interpreter.nextId < 2 ^ 32)
    (done : operation.perform origin = .ok answer after) :
    let calls := (operation.servedCall? origin).toList
    Balanced parent (toldBy calls .fork parent) (toldBy calls .wait parent)
      (operation.reaps parent origin) origin after := by
  cases turned : operation.turn? with
  | none =>
      have account : Balanced parent _ _ _ origin after :=
        balanced_still kinship single turned done
      simpa [Operation.servedCall?, turned, toldBy] using account
  | some turn =>
      obtain rfl : operation = turn.operation := by
        cases operation <;> cases turned <;> rfl
      have reaps : turn.operation.reaps parent origin = [] := by cases turn <;> rfl
      have account : Balanced parent _ _ _ origin after := balanced_turn kinship fits done
      simpa [Operation.servedCall?, turned, reaps] using account

/-- **Single operations enter the children that their calls tell of, and those that they reap.** -/
theorem balanced_servedCalls {operations : List Operation}
    (single : ∀ operation ∈ operations, operation.single = true)
    (fine : ∀ outcome ∈ trail Operation.perform operations origin, outcome.1.isOk = true)
    (kinship : Kinship loaded origin)
    (fits : (stateAfter Operation.perform operations origin).machine.interpreter.nextId < 2 ^ 32) :
    let calls := servedCalls operations origin
    Balanced parent (toldBy calls .fork parent) (toldBy calls .wait parent)
      (reapedFor parent operations origin) origin
      (stateAfter Operation.perform operations origin) := by
  induction operations generalizing origin loaded with
  | nil => exact (Steadfast.refl origin).balanced
  | cons operation rest ih =>
      obtain ⟨here, later⟩ := List.forall_mem_cons.mp single
      obtain ⟨answered, fine⟩ := List.forall_mem_cons.mp fine
      obtain ⟨answer, done⟩ := ok_of_isOk answered
      have after := ih later fine (kinship.perform operation) fits
      have first : Balanced parent _ _ _ origin _ :=
        balanced_single kinship here (after.nextId.trans_lt fits) done
      have whole := first.trans kinship (by rw [done] at after; exact after)
      rw [← toldBy_append, ← toldBy_append] at whole
      exact whole

/-! ## Waits -/

section Waits

variable {operation : Operation} {wait : ServedCall}

/-- A wait is reported as done, or it is not: then it was declined, or its caller is blocked on
it. -/
structure ServedCall.Accounted (wait : ServedCall) (later : List Operation) (after : Hypervisor) :
    Prop where
  done : wait.Succeeds → ∃ child, wait.Reports child
  undone : ¬wait.Succeeds → wait.Declines ∨ wait.Blocks ∧ wait.Persists later after

/-- Whoever is declined or blocked has not succeeded. -/
theorem ServedCall.Declines.not_succeeds (declines : wait.Declines) : ¬wait.Succeeds :=
  fun succeeds => succeeds.2 declines.answer

theorem ServedCall.Blocks.not_succeeds (blocks : wait.Blocks)
    (own : ∀ caller, wait.called.context? wait.caller = some caller →
      wait.call = .ofContext caller) : ¬wait.Succeeds := by
  rintro ⟨resumed, -⟩
  obtain ⟨caller, found, -, -, left⟩ := blocks.caller
  rw [left, own caller found] at resumed
  have stays : caller.hart.pc = caller.hart.pc + 4 := Option.some.inj resumed
  exact absurd (UInt64.left_eq_add.mp stays) (by decide)

/-- **Every wait is accounted for.** -/
theorem accounted_of_wait (steady : Steady capacity origin) (kinship : Kinship loaded origin)
    (single : operation.single = true) (done : operation.perform origin = .ok answer after)
    (told : operation.servedCall? origin = some wait) (asked : wait.kind? = some .wait)
    (fits : after.machine.interpreter.nextId < 2 ^ 32) {later : List Operation}
    (singles : ∀ operation ∈ later, operation.single = true)
    (fine : ∀ outcome ∈ trail Operation.perform later after, outcome.1.isOk = true) :
    wait.Accounted later after := by
  have persists (blocks : wait.Blocks) : wait.Persists later after :=
    blocks.persists steady kinship single done told singles fine
  obtain ⟨turn, turned, served⟩ := Option.bind_eq_some_iff.mp told
  obtain rfl : operation = turn.operation := by
    cases operation <;> cases turned <;> rfl
  obtain ⟨caller, called, context, reached, found, rfl⟩ := Turn.call_of_servedCall done served
  have steady' : Steady capacity called := (abiding_steady.toTrap turn).of_ok reached steady
  have tended := (leads_of_toTrap kinship.uniform reached).tended kinship
  have service := Turn.serviceCall_of_turn reached done
  have outcome := told_of_wait steady' tended found fits asked service
  have own (caller' : Context) (found' : called.machine.context? caller = some caller') :
      Call.ofContext context = .ofContext caller' :=
    congrArg Call.ofContext (Option.some.inj (found.symm.trans found'))
  rcases outcome with ⟨child, reports⟩ | declines | blocks
  · exact ⟨fun _ => ⟨child, reports⟩, fun fails => absurd reports.succeeds fails⟩
  · exact ⟨fun succeeds => absurd succeeds declines.not_succeeds, fun _ => .inl declines⟩
  · exact ⟨fun succeeds => absurd succeeds (blocks.not_succeeds own),
      fun _ => .inr ⟨blocks, persists blocks⟩⟩

end Waits

/-- **In a run every wait is accounted for.** -/
theorem accounted_in_run {configuration : Configuration} {host : Host} {journal : Journal}
    {level : Nat} {start : Hypervisor} (built : nested configuration host journal level = .ok start)
    {earlier later : List Operation} {step : Operation} {wait : ServedCall}
    (single : ∀ operation ∈ earlier ++ step :: later, operation.single = true)
    (fine : ∀ outcome ∈ trail Operation.perform (earlier ++ step :: later) start,
      outcome.1.isOk = true)
    (fits : (stateAfter Operation.perform (earlier ++ step :: later)
      start).machine.interpreter.nextId < 2 ^ 32)
    (told : step.servedCall? (stateAfter Operation.perform earlier start) = some wait)
    (asked : wait.kind? = some .wait) :
    wait.Accounted later (stateAfter Operation.perform (earlier ++ [step]) start) := by
  have steady : Steady configuration.frames (stateAfter Operation.perform earlier start) :=
    stateAfter_keeps (fun operation _ steady => operation.keeps_steady.finalState steady) earlier
      (steady_of_nested built)
  have next : stateAfter Operation.perform (earlier ++ [step]) start =
      finalState (step.perform (stateAfter Operation.perform earlier start)) :=
    stateAfter_append ..
  have kinship := kinship_stateAfter built (earlier ++ [step])
  rw [trail_append] at fine
  rw [stateAfter_append] at fits
  obtain ⟨answered, fine⟩ := List.forall_mem_cons.mp (List.forall_mem_append.mp fine).2
  obtain ⟨here, singles⟩ := List.forall_mem_cons.mp (List.forall_mem_append.mp single).2
  obtain ⟨answer, done⟩ := ok_of_isOk answered
  rw [next] at kinship ⊢
  have later' : Balanced 0 _ _ _ (finalState (step.perform _)) _ :=
    balanced_servedCalls singles fine kinship fits
  exact accounted_of_wait steady (kinship_stateAfter built earlier) here done told asked
    (later'.nextId.trans_lt fits) singles fine

/-- **Every child is reported exactly once.**  Operations that all succeed consist of single
operations.  Of the children that a live context has forked, each was either told to it by a wait,
or reaped for it, or is there still.  And every wait is accounted for: if it succeeds it reports a
child that has ended, which is then gone; otherwise nobody is removed, and a caller that is blocked
stands where it stood until its next call, which is the same wait. -/
theorem waits_exactly_once {configuration : Configuration} {host : Host} {journal : Journal}
    {level : Nat} {start : Hypervisor} (built : nested configuration host journal level = .ok start)
    {operations : List Operation}
    (fine : ∀ outcome ∈ trail Operation.perform operations start, outcome.1.isOk = true)
    (fits : (stateAfter Operation.perform operations start).machine.interpreter.nextId < 2 ^ 32) :
    let steps := unrolled operations start
    let calls := servedCalls steps start
    let final := stateAfter Operation.perform operations start
    stateAfter Operation.perform steps start = final ∧
    (∀ parent, final.Live parent →
      let forked := toldBy calls .fork parent
      let told := toldBy calls .wait parent
      let reaped := reapedFor parent steps start
      let children := final.childrenOf parent
      forked.length = told.length + reaped.length + children.length ∧
      forked.Perm (told ++ reaped ++ children) ∧ forked.Nodup ∧
      ∀ child ∈ children, ∃ kept, final.machine.context? child = some kept ∧
        kept.parent = some parent) ∧
    ∀ earlier step later wait, steps = earlier ++ step :: later →
      step.servedCall? (stateAfter Operation.perform earlier start) = some wait →
      wait.kind? = some .wait →
      wait.Accounted later (stateAfter Operation.perform (earlier ++ [step]) start) := by
  intro steps calls final
  obtain ⟨given, fine', reached⟩ := unrolled_spec fine
  have single (operation : Operation) (member : operation ∈ steps) : operation.single = true :=
    (given operation member).1
  have begun := kinship_of_nested built
  refine ⟨reached, fun parent lives => ?_, fun earlier step later wait split told asked => ?_⟩
  · have account : Balanced parent _ _ _ start _ :=
      balanced_servedCalls single fine' begun (reached ▸ fits)
    rw [reached] at account
    obtain ⟨-, missing, -⟩ := empty_of_nested built
    have perm := account.perm lives (childrenOf_of_missing (missing parent))
    refine ⟨?_, perm, account.distinct, fun child member => ?_⟩
    · rw [perm.length_eq, List.length_append, List.length_append]
    · obtain ⟨kin, known, -⟩ := lives
      have kinship := kinship_stateAfter built operations
      rw [childrenOf_of_kin known, Std.TreeSet.mem_toList] at member
      obtain ⟨context, found, rfl⟩ := exists_context? kinship.uniform known
      exact (kinship.child_there found member).2
  · change unrolled operations start = earlier ++ step :: later at split
    rw [split] at fine'
    refine accounted_in_run built (split ▸ single) fine' ?_ told asked
    rw [← split, reached]
    exact fits

/-- A program is loaded, and its copy goes first when it waits for it. -/
def untilReported : List Operation :=
  [.load forkAndWait [], .scheduleOnce, .scheduleOnce, .scheduleOnce, .scheduleOnce, .scheduleOnce]

/-- A parent that was blocked is told of its one child; so it has none any more. -/
theorem only_child_reported :
    ∃ start, nested { Configuration.standard with frames := 40 } .null .silent 2 = .ok start ∧
      let calls := servedCalls (unrolled untilReported start) start
      let final := stateAfter Operation.perform untilReported start
      (∀ outcome ∈ trail Operation.perform untilReported start, outcome.1.isOk = true) ∧
      final.machine.interpreter.nextId < 2 ^ 32 ∧ final.Live 1 ∧
      toldBy calls .fork 1 = [2] ∧ toldBy calls .wait 1 = [2] ∧ final.childrenOf 1 = [] := by
  obtain ⟨start, built⟩ : ∃ start,
      nested { Configuration.standard with frames := 40 } .null .silent 2 = .ok start := ⟨_, rfl⟩
  have evaluated : (nested { Configuration.standard with frames := 40 } .null .silent 2).map
      (fun start =>
        let calls := servedCalls (unrolled untilReported start) start
        let final := stateAfter Operation.perform untilReported start
        ((trail Operation.perform untilReported start).all fun outcome => outcome.1.isOk,
          final.machine.interpreter.nextId, (final.kin 1).map Kin.exitStatus,
          toldBy calls .fork 1, toldBy calls .wait 1)) =
      .ok (true, 3, some none, [2], [2]) := by
    decide +kernel
  rw [built] at evaluated
  simp only [Except.map, Except.ok.injEq, Prod.mk.injEq, List.all_eq_true] at evaluated
  obtain ⟨fine, count, lives, forked, told⟩ := evaluated
  have fits : (stateAfter Operation.perform untilReported start).machine.interpreter.nextId
      < 2 ^ 32 := by
    rw [count]
    decide
  obtain ⟨kin, found, live⟩ := Option.map_eq_some_iff.mp lives
  obtain ⟨-, households, -⟩ := waits_exactly_once built fine fits
  obtain ⟨counted, -⟩ := households 1 ⟨kin, found, live⟩
  refine ⟨start, built, fine, fits, ⟨kin, found, live⟩, forked, told, ?_⟩
  rw [forked, told, List.length_singleton] at counted
  exact List.eq_nil_of_length_eq_zero (by omega)

end NestedMachine.Hypervisor
