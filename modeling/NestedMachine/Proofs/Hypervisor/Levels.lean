import NestedMachine.LevelReport
import NestedMachine.Proofs.Hypervisor.FollowingCalls
import NestedMachine.Proofs.Hypervisor.Operations
import NestedMachine.Proofs.Machine.Journals
import NestedMachine.Proofs.Machine.Uniform

/-!
# Levels cannot be told apart

A stack of levels answers every request as a stack of one level does.  Two hypervisors are compared
that keep the same record, over machines whose levels are uniform and whose interpreters differ
only in their journals (`SameAbove`).  Requests that are passed down have the outcome that they have
at the interpreter (`follows_below`), and everything else is done with the record, the contexts and
their memory, which are the same.  So every operation answers the same, errors included, and leaves
hypervisors that compare again (`follows_operation`), and by induction so does every sequence of
operations (`follows_operations`).

A stack of any number of levels starts like a stack of one (`sameAbove_nested`).  Hence the main
result, `levels_transparent`, and, since a report runs the same program over fresh stacks, that
every report is a fixed point (`LevelReport.fixedPoint_of_compare`).
-/

namespace NestedMachine.Hypervisor

set_option autoImplicit false

variable {α : Type}

/-! ## Hypervisors over different numbers of levels -/

/-- Hypervisors that keep the same record, over machines whose interpreters differ only in their
journals and whose levels pass everything on. -/
structure SameAbove (view : JournalView) (left right : Hypervisor) : Prop where
  own : left.own = right.own
  interpreter : Interpreter.SameBut view left.machine.interpreter right.machine.interpreter
  leftUniform : left.machine.Uniform
  rightUniform : right.machine.Uniform

namespace SameAbove

variable {view : JournalView} {left right : Hypervisor}

theorem contexts (same : SameAbove view left right) (id : ContextId) :
    left.machine.interpreter.contexts[id]? = right.machine.interpreter.contexts[id]? := by
  rw [same.interpreter.contexts]

theorem context? (same : SameAbove view left right) (id : ContextId) :
    left.machine.context? id = right.machine.context? id := by
  rw [same.leftUniform.context?, same.rightUniform.context?]
  exact same.contexts id

theorem alike (same : SameAbove view left right) : Alike left right := by
  refine ⟨?_, fun id => ?_⟩
  · rw [same.own]
    rfl
  · rw [same.context? id]
    exact (Alike.refl right).context id

end SameAbove

/-- Hypervisors over different numbers of levels, none of which has an advantage. -/
def levels (view : JournalView) : Pursuit HostError Hypervisor Hypervisor :=
  .evenly (SameAbove view)

section Levels

variable {view : JournalView} {same : α → α → Prop}

/-- **Requests that levels pass on have the same outcome over any number of levels.** -/
theorem follows_below {action : MachineAction α} {request : InterpreterAction α}
    (transparent : ∀ machine : Machine, machine.Uniform → machine.Transparent action request)
    (agrees : Agrees (fun _ => False) (Interpreter.SameBut view) Eq request request) :
    (levels view).Follows Eq (below action) (below action) := by
  apply Pursuit.follows_evenly
  intro left right states
  obtain ⟨leftMachine, own⟩ := left
  obtain ⟨rightMachine, _⟩ := right
  obtain rfl := states.own
  obtain ⟨relays, passed, uniform⟩ := transparent leftMachine states.leftUniform
  obtain ⟨relays', passed', uniform'⟩ := transparent rightMachine states.rightUniform
  have outcome := agrees _ _ states.interpreter
  simp only [below, passed, passed']
  generalize request leftMachine.interpreter = first at outcome uniform
  generalize request rightMachine.interpreter = second at outcome uniform'
  cases outcome with
  | answer alike states' =>
      subst alike
      exact .answer rfl ⟨rfl, states', uniform, uniform'⟩
  | failure states' => exact .failure ⟨rfl, states', uniform, uniform'⟩
  | excuse reason => exact reason.elim

theorem follows_modifyOwn (change : Supervisor → Supervisor) :
    (levels view).Follows Eq (modifyOwn change) (modifyOwn change) :=
  .modify (fun _ _ => trivial) fun _ _ states =>
    ⟨congrArg change states.own, states.interpreter, states.leftUniform, states.rightUniform⟩

theorem follows_note {happening other : Note} (alike : view.alike happening other) :
    (levels view).Follows Eq (note happening) (note other) := by
  exact .modify (fun _ _ => trivial) fun _ _ states =>
    ⟨states.own, states.interpreter.note alike, states.leftUniform, states.rightUniform⟩

theorem follows_onMemory {action : MemoryAction α}
    (agrees : Agrees (fun _ => False) (Memory.SameBut view) Eq action action) (id : ContextId) :
    (levels view).Follows Eq (onMemory id action) (onMemory id action) := by
  refine Pursuit.follows_evenly ?_
  rintro ⟨left, own⟩ ⟨right, _⟩ states
  obtain rfl := states.own
  have access := Interpreter.sameBut_withMemory view agrees id states.interpreter
  have uniform : Machine.Uniform ⟨left.relays, (left.interpreter.withMemory id action).2⟩ :=
    states.leftUniform.congr rfl (Machine.contains_withMemory left.interpreter id action)
  have uniform' : Machine.Uniform ⟨right.relays, (right.interpreter.withMemory id action).2⟩ :=
    states.rightUniform.congr rfl (Machine.contains_withMemory right.interpreter id action)
  simp only [onMemory, Machine.Uniform.withMemory states.leftUniform,
    Machine.Uniform.withMemory states.rightUniform]
  rw [← access.1]
  cases (left.interpreter.withMemory id action).1 with
  | none => exact .failure ⟨rfl, access.2, uniform, uniform'⟩
  | some answer => exact .answer rfl ⟨rfl, access.2, uniform, uniform'⟩

theorem follows_modifyContext (id : ContextId) (change : Context → Context) :
    (levels view).Follows Eq (modifyContext id change) (modifyContext id change) := by
  apply Pursuit.follows_evenly
  intro left right states
  rw [modifyContext_apply, modifyContext_apply, states.context? id]
  cases found : right.machine.context? id with
  | none => exact .failure states
  | some context =>
      rw [states.rightUniform.context?] at found
      have found' := (states.contexts id).trans found
      have there (interpreter : Interpreter) (other : ContextId) :
          (interpreter.modifyContext id change).contexts.contains other =
            interpreter.contexts.contains other := Std.TreeMap.contains_modify
      rw [states.leftUniform.modifyContext found', states.rightUniform.modifyContext found]
      exact .answer rfl ⟨states.own, states.interpreter.modifyContext id change,
        states.leftUniform.congr rfl (there _), states.rightUniform.congr rfl (there _)⟩

theorem agrees_requestBreak (requested : Nat) :
    Agrees (fun _ => False) (Memory.SameBut view) Eq (requestBreak requested)
      (requestBreak requested) := by
  intro left right states
  have moves := Memory.agrees_setProgramBreak view requested left right states
  unfold requestBreak
  rw [states.space]
  split
  · exact .answer rfl states
  · generalize Memory.setProgramBreak requested left = first at moves
    generalize Memory.setProgramBreak requested right = second at moves
    cases moves with
    | answer alike states' => exact .answer (by rw [alike]) states'
    | failure states' => exact .answer rfl states'
    | excuse reason => exact reason.elim

theorem follows_onCallerMemory (id : ContextId) (call : Call) {action : MemoryAction α}
    (congruent : Memory.Congruent action) :
    (levels view).Follows Eq (onCallerMemory id call action) (onCallerMemory id call action) := by
  refine (follows_onMemory (congruent.agrees (Memory.respected_sameBut view)) id).bind_eq
    fun answer => ?_
  split
  · exact .throw _
  · exact .pure rfl

/-- A program may look at the record of a hypervisor. -/
theorem follows_own {next next' : Hypervisor → HypervisorAction α}
    (rest : ∀ left right, left.own = right.own →
      (levels view).Follows same (next left) (next' right)) :
    (levels view).Follows same (get >>= next) (get >>= next') := by
  have looks : ∀ left right, (levels view).related left right → left.own = right.own :=
    fun _ _ states => states.own
  refine .get_bind ?_ looks rest
  exact fun _ => rfl

theorem follows_createContext (image : Image) (arguments : List String) :
    (levels view).Follows Eq (createContext image arguments) (createContext image arguments) := by
  apply follows_own
  intro left right same
  rw [same]
  exact follows_below (fun _ uniform => uniform.create image _)
    (Interpreter.agrees_create view image _)

/-- **The primitive operations have the same outcomes over any number of levels.** -/
theorem respects_levels (blind : view.LevelBlind) : Respects (levels view) view.alike where
  looks _ _ states := states.alike
  refl := view.refl
  switched _ _ _ _ := blind _ _ rfl
  levelLoaded _ _ _ _ := blind _ _ rfl
  note := follows_note
  modifyOwn _ := follows_modifyOwn _
  queue _ _ states := congrArg Supervisor.ready states.own
  quantum _ _ states := congrArg Supervisor.quantum states.own
  rearrange _ := follows_modifyOwn _
  join _ := follows_modifyOwn _
  dequeue _ := follows_modifyOwn _
  modifyContext id _ _ := follows_modifyContext id _
  setMemoryMode _ := follows_modifyOwn _
  create := follows_createContext
  destroy id := follows_below (fun _ uniform => uniform.destroy id)
    (Interpreter.agrees_destroy view id)
  switch id quantum := follows_below (fun _ uniform => uniform.switch id quantum)
    (Interpreter.agrees_switch view id quantum)
  release id := (follows_below (fun _ uniform => uniform.release id)
    (Interpreter.agrees_release view id)).weaken fun _ _ same _ => same ▸ view.refl _
  fork id := (follows_below (fun _ uniform => uniform.fork id)
    (Interpreter.agrees_fork view id)).unless
  requestBreak id requested := (follows_onMemory (agrees_requestBreak requested) id).unless
  callerMemory id call _ congruent := follows_onCallerMemory id call congruent

/-! ## System calls -/

theorem follows_askHost (request : Host → HostAnswer α) :
    (levels view).Follows Eq (askHost request) (askHost request) := by
  refine Pursuit.follows_evenly ?_
  rintro ⟨left, own⟩ ⟨right, _⟩ states
  obtain rfl := states.own
  exact .answer rfl ⟨rfl, states.interpreter.addEntries _, states.leftUniform,
    states.rightUniform⟩

/-- **The levels between a host and a guest have no influence on the host**, or on recordings. -/
theorem respectsHosts_levels (blind : view.LevelBlind) :
    RespectsHosts (levels view) view.alike where
  toRespects := respects_levels blind
  recording _ _ states := congrArg Supervisor.recording states.own
  askHost := follows_askHost
  changeRecording _ := follows_modifyOwn _

/-- **System calls have the same outcomes over any number of levels.** -/
theorem follows_dispatch (blind : view.LevelBlind) (id : ContextId) :
    (levels view).Follows Eq (dispatch id) (dispatch id) :=
  (respectsHosts_levels blind).follows_dispatch id

/-! ## Every operation -/

theorem follows_contextOf (id : ContextId) :
    (levels view).Follows Eq (contextOf id) (contextOf id) := by
  apply Pursuit.follows_evenly
  intro left right states
  rw [contextOf_apply, contextOf_apply, states.context? id]
  cases right.machine.context? id with
  | none => exact .failure states
  | some context => exact .answer rfl states

/-- **Every operation has the same outcome over any number of levels.** -/
theorem follows_operation (blind : view.LevelBlind) (operation : Operation) :
    (levels view).Follows Eq operation.perform operation.perform := by
  have respects := respects_levels blind
  cases operation with
  | snapshot id =>
      have found : (levels view).Follows Eq (snapshot id) (snapshot id) :=
        (respects.requireOwned id).bind_eq fun _ =>
          (follows_contextOf id).bind_eq fun _ => .pure rfl
      exact found.bind_eq fun _ => .pure rfl
  | access id request =>
      have accessed : (levels view).Follows Eq (guestMemory id request.perform)
          (guestMemory id request.perform) :=
        (respects.requireOwned id).bind_eq fun _ =>
          follows_onMemory (request.congruent_perform.agrees (Memory.respected_sameBut view)) id
      exact accessed.bind_eq fun _ => .pure rfl
  | _ => exact (respectsHosts_levels blind).follows_operation rfl

theorem follows_operations (blind : view.LevelBlind) (operations : List Operation)
    {left right : Hypervisor} (states : SameAbove view left right) :
    List.Forall₂ (fun before after => before.1 = after.1 ∧ SameAbove view before.2 after.2)
      (trail Operation.perform operations left) (trail Operation.perform operations right) :=
  trail_agrees (fun operation => (follows_operation blind operation).agrees) operations
    states

theorem sameAbove_stateAfter (blind : view.LevelBlind) (operations : List Operation)
    {left right : Hypervisor} (states : SameAbove view left right) :
    SameAbove view (stateAfter Operation.perform operations left)
      (stateAfter Operation.perform operations right) :=
  stateAfter_agrees (fun operation => (follows_operation blind operation).agrees)
    operations states

end Levels

/-! ## Stacks of any number of levels -/

/-- Stacks of any numbers of levels are alike when they are built. -/
theorem sameAbove_nested {view : JournalView} (blind : view.LevelBlind)
    (configuration : Configuration) (host : Host) {journal journal' : Journal}
    (same : view.same journal journal') (below below' : Nat) :
    ∃ left right, nested configuration host journal (below + 1) = .ok left ∧
      nested configuration host journal' (below' + 1) = .ok right ∧ SameAbove view left right := by
  refine ⟨_, _, rfl, rfl, rfl, ?_, ?_, ?_⟩
  · exact .mk (newInterpreter configuration journal) (view.add same (blind _ _ rfl))
  · exact (Machine.uniform_ofLevels below rfl).congr rfl fun _ => rfl
  · exact (Machine.uniform_ofLevels below' rfl).congr rfl fun _ => rfl

/-- What two stacks of different numbers of levels have in common: everything that the top level
keeps, with the host and what is recorded; every context, as it is seen through the levels, and
every answer of its memory; the frames and the counters of the interpreter; and the journal, up to
the numbers of levels in it. -/
structure AgreeAbove (left right : Hypervisor) : Prop where
  own : left.own = right.own
  context : ∀ id, left.machine.context? id = right.machine.context? id
  memory : ∀ id (request : MemoryRequest), (left.machine.withMemory id request.perform).1 =
    (right.machine.withMemory id request.perform).1
  pool : left.machine.interpreter.pool = right.machine.interpreter.pool
  counters : left.machine.interpreter.counters = right.machine.interpreter.counters
  journal : JournalView.upToLevels.same left.machine.interpreter.journal
    right.machine.interpreter.journal

theorem SameAbove.agreeAbove {left right : Hypervisor}
    (same : SameAbove .upToLevels left right) : AgreeAbove left right := by
  have interpreters := same.interpreter
  refine ⟨same.own, same.context?, fun id request => ?_, interpreters.pool,
    interpreters.counters, interpreters.journal⟩
  rw [same.leftUniform.withMemory, same.rightUniform.withMemory]
  exact (Interpreter.sameBut_withMemory .upToLevels
    (request.congruent_perform.agrees (Memory.respected_sameBut .upToLevels)) id interpreters).1

end NestedMachine.Hypervisor

namespace NestedMachine

set_option autoImplicit false

open Hypervisor

/-! ## Reports on levels -/

/-- Runs of a program end alike over any number of levels. -/
theorem LevelRun.follows_action {view : JournalView} (blind : view.LevelBlind) (image : Image)
    (arguments : List String) (rounds : Nat) :
    (levels view).Follows (Option.Rel fun run other => other.agrees run = true)
      (LevelRun.action image arguments rounds) (LevelRun.action image arguments rounds) := by
  have respects := respects_levels blind
  apply (respects.load image arguments).bind_eq
  intro id
  apply (respects.run (follows_dispatch blind) rounds id).bind_eq
  intro ended
  cases ended with
  | none => exact .pure .none
  | some status =>
      apply follows_own
      intro left right _
      have noted := follows_note (blind (.levelFinished left.level status)
        (.levelFinished right.level status) rfl)
      refine noted.bind_eq fun _ => ?_
      apply follows_own
      intro left' right' same
      rw [same]
      exact .pure (.some (by simp [LevelRun.agrees]))

theorem LevelRun.agrees_of_perform {configuration : Configuration} {image : Image}
    {arguments : List String} {input : Bytes} {rounds level level' : Nat} {run run' : LevelRun}
    (performed : perform configuration image arguments input rounds level = .ok (some run))
    (performed' : perform configuration image arguments input rounds level' = .ok (some run')) :
    run'.agrees run = true := by
  cases level with
  | zero => cases performed
  | succ below =>
      cases level' with
      | zero => cases performed'
      | succ below' =>
          have same : JournalView.upToLevels.same .silent .silent := ⟨rfl, rfl⟩
          obtain ⟨left, right, built, built', states⟩ := sameAbove_nested
            JournalView.levelBlind_upToLevels configuration (.buffer (.withInput input)) same below
            below'
          have follows := follows_action JournalView.levelBlind_upToLevels image arguments rounds
          have outcome := follows.agrees left right states
          simp only [perform, built] at performed
          simp only [perform, built'] at performed'
          generalize action image arguments rounds left = first at outcome performed
          generalize action image arguments rounds right = second at outcome performed'
          cases outcome with
          | answer alike states' =>
              obtain rfl := Except.ok.inj performed
              obtain rfl := Except.ok.inj performed'
              cases alike with
              | some agree => exact agree
          | failure states' => cases performed
          | excuse reason => exact reason.elim

/-- Every run of a report was performed at some level. -/
theorem LevelReport.performed_of_mem {configuration : Configuration} {image : Image}
    {input : Bytes} {rounds : Nat} {levels : List Nat} {runs : List LevelRun}
    (made : runsAt configuration image input rounds levels = .ok (some runs)) :
    ∀ run ∈ runs, ∃ level,
      LevelRun.perform configuration image arguments input rounds level = .ok (some run) := by
  induction levels generalizing runs with
  | nil =>
      obtain rfl := Option.some.inj (Except.ok.inj made)
      exact fun run member => nomatch member
  | cons level rest ih =>
      rw [runsAt] at made
      cases performed : LevelRun.perform configuration image arguments input rounds level with
      | error error =>
          rw [performed] at made
          cases made
      | ok answer =>
          rw [performed] at made
          cases answer with
          | none => cases made
          | some first =>
              cases later : runsAt configuration image input rounds rest with
              | error error =>
                  rw [later] at made
                  cases made
              | ok answer =>
                  rw [later] at made
                  cases answer with
                  | none => cases made
                  | some others =>
                      obtain rfl := Option.some.inj (Except.ok.inj made)
                      intro run member
                      rcases List.mem_cons.mp member with rfl | member
                      · exact ⟨level, performed⟩
                      · exact ih later run member

/-- **A report that is made is a fixed point.** -/
theorem LevelReport.fixedPoint_of_compare {configuration : Configuration} {image : Image}
    {input : Bytes} {levels : List Nat} {rounds : Nat} {report : LevelReport}
    (made : compare configuration image input levels rounds = .ok (some report)) :
    report.isFixedPoint = true := by
  unfold compare at made
  cases listed : runsAt configuration image input rounds levels with
  | error error =>
      rw [listed] at made
      cases made
  | ok answer =>
      rw [listed] at made
      cases answer with
      | none => cases made
      | some runs =>
          obtain rfl := Option.some.inj (Except.ok.inj made)
          have performed := performed_of_mem listed
          cases runs with
          | nil => rfl
          | cons first rest =>
              have none : (first :: rest).filter (fun run => !run.agrees first) = [] := by
                apply List.filter_eq_nil_iff.mpr
                intro run member
                obtain ⟨level, done⟩ := performed first List.mem_cons_self
                obtain ⟨level', done'⟩ := performed run member
                rw [LevelRun.agrees_of_perform done done']
                decide
              unfold isFixedPoint mismatches
              dsimp only
              rw [none]
              rfl

namespace Hypervisor

/-- **Levels are transparent.**  Whatever is asked of a stack, it answers as the stack of one level
does, errors included, and everything above the levels stays the same after every step.  So a report
on any list of levels is a fixed point, if there is one. -/
theorem levels_transparent (configuration : Configuration) (host : Host) (journal : Journal)
    (below : Nat) (operations : List Operation) :
    (∃ upper lower, nested configuration host journal (below + 1) = .ok upper ∧
      nested configuration host journal 1 = .ok lower ∧ AgreeAbove upper lower ∧
      List.Forall₂ (fun left right => left.1 = right.1 ∧ AgreeAbove left.2 right.2)
        (trail Operation.perform operations upper) (trail Operation.perform operations lower)) ∧
    ∀ image input levels rounds report,
      LevelReport.compare configuration image input levels rounds = .ok (some report) →
        report.isFixedPoint = true := by
  refine ⟨?_, fun image input levels rounds report => LevelReport.fixedPoint_of_compare⟩
  have blind := JournalView.levelBlind_upToLevels
  have same : JournalView.upToLevels.same journal journal := ⟨rfl, rfl⟩
  obtain ⟨upper, lower, built, built', states⟩ :=
    sameAbove_nested blind configuration host same below 0
  refine ⟨upper, lower, built, built', states.agreeAbove, ?_⟩
  apply (follows_operations blind operations states).imp
  intro left right step
  exact ⟨step.1, step.2.agreeAbove⟩

/-- A program that exits with seven ends alike over one level and over three. -/
theorem exit_over_levels :
    ∃ report, LevelReport.compare { Configuration.standard with frames := 8 }
        (.ofWords [0x05d00893, 0x00700513, 0x00000073] []) [] [1, 3] 4 = .ok (some report) ∧
      report.isFixedPoint = true := by
  have made : LevelReport.compare { Configuration.standard with frames := 8 }
      (.ofWords [0x05d00893, 0x00700513, 0x00000073] []) [] [1, 3] 4 =
        .ok (some ⟨[⟨1, .exited 7, [], []⟩, ⟨3, .exited 7, [], []⟩]⟩) := by
    decide +kernel
  exact ⟨_, made, (levels_transparent { Configuration.standard with frames := 8 } .null .silent 2
    []).2 _ _ _ _ _ made⟩

end Hypervisor

end NestedMachine
