import NestedMachine.Instruction.Encoding
import NestedMachine.Proofs.Machine.Conservation

/-!
# Retired instructions

Instructions are counted twice: every context counts its own, and the machine counts those of all
contexts.  A switch lets the context count as it runs, and the machine when the run has ended in a
trap, by as much as the context has counted (`switched`).  So the two agree after every switch that
ends in a trap, and those that are refused change neither.

A switch under which the pool runs dry is the exception.  It keeps what its context has carried out,
but the machine never counts it (`exhausted_run_uncounted`).  The books balance if it is entered
apart: what the machine has counted, together with what was carried out in such switches, is what
was carried out in all switches; and that is what the contexts count that are there, together with
what those had counted that have been destroyed (`instructions_accounted`).
-/

namespace NestedMachine.Interpreter

set_option autoImplicit false

open Std (TreeMap)

variable {machine after : Interpreter} {id : ContextId}

/-! ## Counts -/

/-- How many instructions the context of a number has carried out. -/
def ownCount (machine : Interpreter) (id : ContextId) : Nat :=
  Table.share Context.instructions machine.contexts id

/-- How many instructions the contexts that are there have carried out. -/
def liveCount (machine : Interpreter) : Nat :=
  Table.total Context.instructions machine.contexts

theorem ownCount_of_some {context : Context} (found : machine.contexts[id]? = some context) :
    machine.ownCount id = context.instructions := by
  rw [ownCount, Table.share, found]
  rfl

theorem ownCount_of_none (missing : machine.contexts[id]? = none) : machine.ownCount id = 0 := by
  rw [ownCount, Table.share, missing]
  rfl

/-- The counts of all contexts but one are the same. -/
def SameButFor (id : ContextId) (machine after : Interpreter) : Prop :=
  ∀ other, id ≠ other →
    after.contexts[other]?.map Context.instructions =
      machine.contexts[other]?.map Context.instructions

theorem SameButFor.liveCount (same : SameButFor id machine after) :
    after.liveCount + machine.ownCount id = machine.liveCount + after.ownCount id :=
  Table.total_update same

theorem liveCount_congr (same : ∀ id : ContextId,
    after.contexts[id]?.map Context.instructions =
      machine.contexts[id]?.map Context.instructions) : after.liveCount = machine.liveCount :=
  Table.total_congr same

/-! ## Switches -/

/-- A context has carried out so many instructions, and no other context has carried out any. -/
structure Ran (id : ContextId) (retired : Nat) (machine after : Interpreter) : Prop where
  own : after.ownCount id = machine.ownCount id + retired
  others : SameButFor id machine after

/-- What a switch to a context does to the counts. -/
inductive Switched (id : ContextId) (quantum : Nat) (machine : Interpreter) :
    EStateM.Result HostError Interpreter Trap → Prop where
  /-- The machine counts what the context counts: the instructions of its run. -/
  | trapped {context : Context} {trap : Trap} {after : Interpreter}
      (found : machine.contexts[id]? = some context)
      (ran : Ran id (machine.runOf context quantum).retired machine after)
      (counted : after.counters.instructions =
        machine.counters.instructions + (machine.runOf context quantum).retired) :
      Switched id quantum machine (.ok trap after)
  /-- The context counts the instructions of its run, but the machine does not. -/
  | exhausted {context : Context} {pc : UInt64} {after : Interpreter}
      (found : machine.contexts[id]? = some context)
      (ran : Ran id (machine.runOf context quantum).retired machine after)
      (uncounted : after.counters = machine.counters) :
      Switched id quantum machine (.error (.memoryExhausted id pc) after)
  /-- Nothing is run and nothing counted. -/
  | refused {error : HostError} (other : ∀ context pc, error ≠ .memoryExhausted context pc) :
      Switched id quantum machine (.error error machine)

theorem ran_keepRun {context : Context} (found : machine.contexts[id]? = some context)
    (result : Hart.RunResult) :
    Ran id result.retired machine (machine.keepRun id context result) := by
  have here : (machine.keepRun id context result).contexts[id]? = some (afterRun context result) :=
    (Table.getElem?_insert ..).trans (if_pos rfl)
  refine ⟨?_, fun other different => ?_⟩
  · rw [ownCount_of_some here, ownCount_of_some found]
    rfl
  · exact congrArg (Option.map _) ((Table.getElem?_insert ..).trans (if_neg different))

/-- **A switch counts what it has carried out when it ends in a trap.** -/
theorem switched (id : ContextId) (quantum : Nat) (machine : Interpreter) :
    Switched id quantum machine (switch id quantum machine) := by
  have ran {context : Context} (found : machine.contexts[id]? = some context) :=
    ran_keepRun found (machine.runOf context quantum)
  have ends := switchEnds id quantum machine
  generalize switch id quantum machine = result at ends ⊢
  cases ends with
  | missing => exact .refused (by simp)
  | exited => exact .refused (by simp)
  | trapped found _ _ => exact .trapped found ⟨(ran found).own, (ran found).others⟩ rfl
  | ranDry found _ _ => exact .exhausted found (ran found) rfl

/-! ## Entries in the books -/

namespace Operation

/-- How many instructions an operation carries out: those that the context counts that it runs. -/
def retires (machine : Interpreter) : Operation → Nat
  | .switch id quantum =>
      (finalState (Interpreter.switch id quantum machine)).ownCount id - machine.ownCount id
  | _ => 0

/-- How many instructions an operation carries out before the pool runs dry under it. -/
def strands (machine : Interpreter) : Operation → Nat
  | .switch id quantum =>
      match Interpreter.switch id quantum machine with
      | .error (.memoryExhausted _ _) after => after.ownCount id - machine.ownCount id
      | _ => 0
  | _ => 0

/-- How many instructions a context had counted that an operation destroys. -/
def strikes (machine : Interpreter) : Operation → Nat
  | .destroy id => machine.ownCount id
  | _ => 0

/-- The operation does not tamper with the counts of contexts. -/
def KeepsCounts : Operation → Prop
  | .alter _ bookkeeping => ∀ context,
      (bookkeeping.change context).instructions = context.instructions
  | _ => True

/-- The sum of what operations are entered with, one after the other. -/
def tally (entered : Interpreter → Operation → Nat) : List Operation → Interpreter → Nat
  | [], _ => 0
  | operation :: rest, machine =>
      entered machine operation + tally entered rest (finalState (operation.perform machine))

variable {operation : Operation}

/-- Nothing but a switch moves the counter of the machine. -/
theorem counter_perform (still : ∀ id quantum, operation ≠ .switch id quantum) :
    (finalState (operation.perform machine)).counters.instructions =
      machine.counters.instructions := by
  cases operation with
  | create image options =>
      rw [perform, finalState_map]
      rcases result : Loading.load machine.nextId image options machine.pool machine.journal with
        ⟨answer, pool, journal⟩
      cases answer with
      | ok context => rw [create_of_ok result]; rfl
      | error error => rw [create_of_error result]; rfl
  | fork parent =>
      rw [perform, finalState_map]
      have ends := forkEnds parent machine
      generalize Interpreter.fork parent machine = result at ends ⊢
      cases ends with
      | missing => rfl
      | copied => rfl
      | refused => rfl
  | destroy id =>
      rw [perform, finalState_map]
      cases found : machine.contexts[id]? with
      | none => rw [destroy_of_none found]; rfl
      | some context => rw [destroy_of_some found]; rfl
  | release id =>
      rw [perform, finalState_map]
      cases found : machine.contexts[id]? with
      | none => rw [release_of_none found]; rfl
      | some context => rw [release_of_some found]; rfl
  | switch id quantum => exact absurd rfl (still id quantum)
  | access id request =>
      show (machine.withMemory id request.perform).2.counters.instructions = _
      cases found : machine.contexts[id]? with
      | none => rw [withMemory_of_none found]
      | some context => rw [withMemory_of_some found]; rfl
  | alter id bookkeeping => rfl
  | note happening => rfl

/-- **What an operation carries out is counted, unless the pool ran dry under it.** -/
theorem counted_perform (machine : Interpreter) (operation : Operation) :
    (finalState (operation.perform machine)).counters.instructions + operation.strands machine =
      machine.counters.instructions + operation.retires machine := by
  cases operation with
  | switch id quantum =>
      have ends := switched id quantum machine
      rw [perform, finalState_map, strands, retires]
      generalize Interpreter.switch id quantum machine = outcome at ends
      cases ends with
      | trapped found ran counted =>
          have own := ran.own
          simp only [finalState]
          omega
      | exhausted found ran uncounted => simp only [finalState, uncounted]
      | refused other =>
          simp only [finalState, Nat.sub_self]
          split
          · rename_i failed
            exact absurd (EStateM.Result.error.inj failed).1 (other _ _)
          · rfl
  | create | fork | destroy | release | access | alter | note =>
      exact counter_perform (by simp)

/-- A new context has carried out nothing. -/
theorem liveCount_adopt {context : Context} (unused : machine.contexts[machine.nextId]? = none)
    (new : context.instructions = 0) : (machine.adopt context).liveCount = machine.liveCount := by
  have here : (machine.adopt context).contexts[machine.nextId]? = some context :=
    (Table.getElem?_insert ..).trans (if_pos rfl)
  have others : SameButFor machine.nextId machine (machine.adopt context) :=
    fun other different =>
      congrArg (Option.map _) ((Table.getElem?_insert ..).trans (if_neg different))
  have update := others.liveCount
  rw [ownCount_of_none unused, ownCount_of_some here, new] at update
  exact update

theorem liveCount_keepMemory {context : Context} (found : machine.contexts[id]? = some context)
    (memory : Memory) : (machine.keepMemory id context memory).liveCount = machine.liveCount := by
  refine liveCount_congr fun other => ?_
  rw [keepMemory, Table.getElem?_insert]
  split
  · rename_i same
    rw [← same, found]
    rfl
  · rfl

theorem instructions_of_load {number : ContextId} {image : Image} {options : LoadOptions}
    {pool pool' : FramePool} {journal journal' : Journal} {context : Context}
    (loaded : Loading.load number image options pool journal = (.ok context, pool', journal')) :
    context.instructions = 0 := by
  unfold Loading.load at loaded
  split at loaded
  · cases loaded
  · split at loaded
    · cases loaded
      rfl
    · cases loaded

theorem liveCount_create {capacity : Nat} (sound : machine.Sound capacity) (image : Image)
    (options : LoadOptions) :
    (finalState (Interpreter.create image options machine)).liveCount = machine.liveCount := by
  rcases result : Loading.load machine.nextId image options machine.pool machine.journal with
    ⟨answer, pool, journal⟩
  cases answer with
  | ok context =>
      rw [create_of_ok result]
      exact liveCount_adopt sound.unused (instructions_of_load result)
  | error error =>
      rw [create_of_error result]
      rfl

theorem liveCount_fork {capacity : Nat} (sound : machine.Sound capacity) (parent : ContextId) :
    (finalState (Interpreter.fork parent machine)).liveCount = machine.liveCount := by
  have ends := forkEnds parent machine
  generalize Interpreter.fork parent machine = result at ends ⊢
  cases ends with
  | missing => rfl
  | refused => rfl
  | @copied source memory found copied =>
      have adopted : liveCount (adopt
          { machine with pool := memory.pool, journal := memory.journal }
          (forkOf parent source memory.space)) = machine.liveCount :=
        liveCount_adopt sound.unused rfl
      refine Eq.trans (liveCount_congr fun other => ?_) adopted
      apply map_modify
      exact fun _ => rfl

theorem liveCount_destroy (machine : Interpreter) (id : ContextId) :
    (finalState (Interpreter.destroy id machine)).liveCount + machine.ownCount id =
      machine.liveCount := by
  cases found : machine.contexts[id]? with
  | none =>
      rw [destroy_of_none found, ownCount_of_none found]
      rfl
  | some context =>
      have cut (other : ContextId) :
          (unlink (machine.contexts.erase id) id context)[other]?.map Context.instructions =
            (machine.contexts.erase id)[other]?.map Context.instructions :=
        map_unlink (fun _ _ _ => rfl) ..
      rw [destroy_of_some found]
      generalize shown : { machine with
        pool := (machine.memoryOf context).freed.2.pool
        contexts := unlink (machine.contexts.erase id) id context } = after
      have contexts : after.contexts = unlink (machine.contexts.erase id) id context :=
        shown ▸ rfl
      have gone : after.ownCount id = 0 := by
        rw [ownCount, Table.share, contexts, cut, Table.getElem?_erase, if_pos rfl]
        rfl
      have others : SameButFor id machine after := fun other different => by
        rw [contexts, cut, Table.getElem?_erase, if_neg different]
      have update := others.liveCount
      rw [gone] at update
      exact update

/-- **The contexts that are there count what is carried out.** -/
theorem live_perform {capacity : Nat} (sound : machine.Sound capacity)
    (keeps : operation.KeepsCounts) :
    (finalState (operation.perform machine)).liveCount + operation.strikes machine =
      machine.liveCount + operation.retires machine := by
  cases operation with
  | create image options =>
      rw [perform, finalState_map]
      exact liveCount_create sound image options
  | fork parent =>
      rw [perform, finalState_map]
      exact liveCount_fork sound parent
  | destroy id =>
      rw [perform, finalState_map]
      exact liveCount_destroy machine id
  | release id =>
      rw [perform, finalState_map]
      cases found : machine.contexts[id]? with
      | none => rw [release_of_none found]; rfl
      | some context =>
          rw [release_of_some found]
          exact liveCount_keepMemory found _
  | switch id quantum =>
      have ends := switched id quantum machine
      rw [perform, finalState_map]
      simp only [strikes, retires]
      generalize Interpreter.switch id quantum machine = outcome at ends
      cases ends with
      | trapped found ran _ | exhausted found ran _ =>
          have own := ran.own
          have update := ran.others.liveCount
          simp only [finalState]
          omega
      | refused other => simp only [finalState, Nat.sub_self]
  | access id request =>
      show (machine.withMemory id request.perform).2.liveCount = _
      cases found : machine.contexts[id]? with
      | none => rw [withMemory_of_none found]; rfl
      | some context =>
          rw [withMemory_of_some found]
          exact liveCount_keepMemory found _
  | alter id bookkeeping => exact liveCount_congr fun other => map_modify keeps other
  | note happening => rfl

/-! ## Sequences of operations -/

/-- What balances in every step balances in a sequence of operations. -/
theorem tally_balanced (invariant : Interpreter → Prop) (measure : Interpreter → Nat)
    {debit credit : Interpreter → Operation → Nat} {operations : List Operation}
    (keeps : ∀ operation ∈ operations, ∀ machine, invariant machine →
      invariant (finalState (operation.perform machine)) ∧
        measure (finalState (operation.perform machine)) + debit machine operation =
          measure machine + credit machine operation) (holds : invariant machine) :
    measure (stateAfter perform operations machine) + tally debit operations machine =
      measure machine + tally credit operations machine := by
  induction operations generalizing machine with
  | nil => rfl
  | cons operation rest ih =>
      obtain ⟨here, later⟩ := List.forall_mem_cons.mp keeps
      obtain ⟨holds', step⟩ := here machine holds
      have whole := ih later holds'
      rw [tally, tally]
      have first : stateAfter perform (operation :: rest) machine =
        stateAfter perform rest (finalState (operation.perform machine)) := rfl
      rw [first]
      omega

/-- No operation runs out of frames. -/
def Backed (operations : List Operation) (machine : Interpreter) : Prop :=
  ∀ outcome ∈ trail perform operations machine, ∀ context pc,
    outcome.1 ≠ .error (.memoryExhausted context pc)

theorem backed_of_isOk {operations : List Operation}
    (fine : ((trail perform operations machine).all fun outcome => outcome.1.isOk) = true) :
    Backed operations machine := fun outcome member _ _ =>
  ne_error_of_succeed (List.all_eq_true.mp fine) outcome member _

theorem strands_eq_zero (backed : ∀ context pc,
      answerOf (operation.perform machine) ≠ .error (.memoryExhausted context pc)) :
    operation.strands machine = 0 := by
  cases operation with
  | switch id quantum =>
      simp only [strands]
      split
      · rename_i context pc after failed
        refine absurd ?_ (backed context pc)
        rw [perform, bind_of_error failed]
        rfl
      · rfl
  | create | fork | destroy | release | access | alter | note => rfl

theorem tally_strands_eq_zero {operations : List Operation} (backed : Backed operations machine) :
    tally strands operations machine = 0 := by
  induction operations generalizing machine with
  | nil => rfl
  | cons operation rest ih =>
      obtain ⟨here, later⟩ := List.forall_mem_cons.mp backed
      rw [tally, strands_eq_zero here, ih later]

end Operation

open Operation (tally retires strands strikes)

/-- What a machine counts, counts on from what it had counted. -/
theorem counted_stateAfter (machine : Interpreter) (operations : List Operation) :
    (stateAfter Operation.perform operations machine).counters.instructions +
        tally strands operations machine =
      machine.counters.instructions + tally retires operations machine :=
  Operation.tally_balanced (fun _ => True) (fun machine => machine.counters.instructions)
    (fun operation _ machine _ => ⟨trivial, operation.counted_perform machine⟩) trivial

/-- What contexts count, they count on from what they had counted. -/
theorem live_stateAfter {capacity : Nat} (sound : machine.Sound capacity)
    {operations : List Operation} (keeps : ∀ operation ∈ operations, operation.KeepsCounts) :
    (stateAfter Operation.perform operations machine).liveCount +
        tally strikes operations machine =
      machine.liveCount + tally retires operations machine :=
  Operation.tally_balanced (Sound capacity) liveCount (fun operation member _ sound =>
    ⟨operation.keeps_sound sound, Operation.live_perform sound (keeps operation member)⟩) sound

/-- What was carried out in a sequence of operations is accounted for. -/
structure Accounted (start : Interpreter) (operations : List Operation) : Prop where
  /-- The machine has counted all of it, but for what was carried out before the pool ran dry. -/
  counter : (stateAfter Operation.perform operations start).counters.instructions +
    tally strands operations start = tally retires operations start
  backed : Operation.Backed operations start →
    (stateAfter Operation.perform operations start).counters.instructions =
      tally retires operations start
  /-- The contexts that are there have counted it, but for what those had counted that have been
  destroyed. -/
  contexts : (∀ operation ∈ operations, operation.KeepsCounts) →
    (stateAfter Operation.perform operations start).liveCount +
      tally strikes operations start = tally retires operations start
  /-- The next switch lets the machine count what its context counts, if it ends in a trap. -/
  switches : ∀ id quantum, Switched id quantum (stateAfter Operation.perform operations start)
    (switch id quantum (stateAfter Operation.perform operations start))

/-- **Every instruction that is carried out is counted by its context, and by the machine unless the
switch in which it was carried out ran out of frames**, whatever operations were asked for. -/
theorem instructions_accounted (frames : Nat) (tracing : Bool) (journal : Journal)
    (operations : List Operation) : Accounted (empty frames tracing journal) operations := by
  have counter := counted_stateAfter (empty frames tracing journal) operations
  have uncounted : (empty frames tracing journal).counters.instructions = 0 := rfl
  have nobody : (empty frames tracing journal).liveCount = 0 := rfl
  rw [uncounted, Nat.zero_add] at counter
  refine ⟨counter, fun backed => ?_, fun keeps => ?_, fun id quantum => switched id quantum _⟩
  · rw [Operation.tally_strands_eq_zero backed] at counter
    exact counter
  · have live := live_stateAfter (sound_empty frames tracing journal) keeps
    rw [nobody, Nat.zero_add] at live
    exact live

/-- A context and its copy count on the same machine, and the context is destroyed: of the eleven
instructions that the machine has counted, the copy counts six. -/
theorem accounts_of_copy :
    let image := Image.ofWords ([.addi 5 5 1, .jal 0 (-4)].map Instruction.encode) []
    let start := empty 8 false .silent
    let operations : List Operation :=
      [.create image ⟨.demand, 4096, []⟩, .switch 1 5, .fork 1, .switch 2 4, .destroy 1,
        .switch 2 2]
    let machine := stateAfter Operation.perform operations start
    Accounted start operations ∧ Operation.Backed operations start ∧
      machine.counters.instructions = 11 ∧ machine.liveCount = 6 ∧
      tally strikes operations start = 5 := by
  intro image start operations machine
  have backed : Operation.Backed operations start :=
    Operation.backed_of_isOk (by decide +kernel)
  exact ⟨instructions_accounted 8 false .silent operations, backed, by decide +kernel⟩

/-- **A run that the pool cuts short is not counted.**  The program loads from a page of its stack
that is not mapped yet, when both frames of the machine are in use.  Its context has carried out two
instructions then, and the machine has counted none. -/
theorem exhausted_run_uncounted :
    let image := Image.ofWords ([.addi 5 2 (-2048), .addi 5 5 (-2048), .ld 6 5 0].map
      Instruction.encode) []
    let start := empty 2 false .silent
    let operations : List Operation := [.create image ⟨.demand, 65536, []⟩, .switch 1 5]
    let machine := stateAfter Operation.perform operations start
    machine.counters.instructions = 0 ∧ machine.liveCount = 2 ∧
      tally retires operations start = 2 ∧ tally strands operations start = 2 ∧
      (trail Operation.perform operations start).map (fun outcome => outcome.1.isOk) =
        [true, false] := by
  decide +kernel

end NestedMachine.Interpreter
