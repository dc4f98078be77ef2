import NestedMachine.Instruction.Encoding
import NestedMachine.Proofs.Ensures
import NestedMachine.Proofs.Machine.Matching
import NestedMachine.Proofs.Machine.Operations

/-!
# Runs cut into slices

A run does not remember where it began: what it does next depends on its hart and its memory only.
So a run of `a + b` instructions is a run of `a`, and one of `b` from where the first stopped,
unless the first has not come to its end (`Hart.run_add`).

For a machine this means that a context may be switched to in slices.  The slices end as one switch
for all their instructions does, in the same trap or the same error, and leave the same contexts and
frames (`slices_compose`), into however many slices the instructions are cut (`coincide_sum`).
They also leave the same counters, if they end in a trap.  Here the pages that were touched are
counted one slice at a time, which is right because their number never falls
(`Memory.respected_pageFaults`).  A switch that runs out of frames counts nothing, and then the
slices before it make a difference: they have been counted.
-/

namespace NestedMachine

set_option autoImplicit false

/-! ## Pages that were touched -/

namespace Memory

variable {count : Nat}

/-- So many pages have been touched. -/
def HasTouched (count : Nat) (memory : Memory) : Prop := count ≤ memory.space.pageFaults

theorem keeps_touched_ensureMapped (page : Nat) : Keeps (HasTouched count) (ensureMapped page) := by
  rintro ⟨space, pool, journal⟩ touched
  rw [ensureMapped]
  cases space.table[page]? with
  | some entry => exact touched
  | none =>
      rcases pool.alloc with ⟨frame, after⟩
      cases frame with
      | some frame => exact touched.trans (Nat.le_succ _)
      | none => exact touched

theorem keeps_touched_ensureAllMapped (pages : List Nat) :
    Keeps (HasTouched count) (ensureAllMapped pages) := by
  induction pages with
  | nil => exact .pure _
  | cons page rest ih => exact .bind (keeps_touched_ensureMapped page) fun _ => ih

theorem keeps_touched_translate (address : Nat) (access : Access) :
    Keeps (HasTouched count) (translate address access) := by
  refine .bind (.get_bind fun look => ?_) fun _ => ?_
  · cases look.space.layout.check address access with
    | ok segment => exact .pure _
    | error fault => exact .throw fault
  · exact .bind (keeps_touched_ensureMapped _) fun entry => .ite (.throw _) (.pure _)

theorem keeps_touched_poke (place : PhysicalAddress) (bytes : Bytes) :
    Keeps (HasTouched count) (poke place bytes) := .modify fun _ touched => touched

theorem keeps_touched_setProgramBreak (programBreak : Nat) :
    Keeps (HasTouched count) (setProgramBreak programBreak) := by
  have breakOnly : Keeps (HasTouched count) (setBreakOnly programBreak) :=
    .modify fun _ touched => touched
  have unmap (start stop : Nat) : Keeps (HasTouched count) (unmapPages start stop) :=
    .modify fun _ touched => touched
  refine .get_bind fun look => .ite (.throw _) (.ite (.ite (.throw _) ?_) ?_)
  · refine .bind breakOnly fun _ => .ite ?_ (.pure _)
    exact .bind (keeps_touched_ensureAllMapped _) fun _ => .pure _
  · exact .bind breakOnly fun _ => .bind (unmap _ _) fun _ => .pure _

/-- **No access takes back that a page was touched.** -/
theorem respected_pageFaults (count : Nat) :
    Respected (fun _ => False) (Diagonal (HasTouched count)) where
  layout states := congrArg (fun memory : Memory => memory.space.layout) states.1
  read address access _ _ := .of_keeps fun _ =>
    (Keeps.bind (keeps_touched_translate address access) fun _ =>
      .get_bind fun _ => .pure _).finalState
  write address access bytes _ := .of_keeps fun _ =>
    (Keeps.bind (keeps_touched_translate address access) fun place =>
      keeps_touched_poke place bytes).finalState
  touch page := .of_keeps fun _ =>
    (Keeps.bind (keeps_touched_ensureMapped page) fun _ => .pure _).finalState
  setProgramBreak programBreak := .of_keeps fun _ =>
    (keeps_touched_setProgramBreak programBreak).finalState
  jot _ := .of_keeps fun _ touched => touched

end Memory

/-! ## Runs in parts -/

namespace Hart

theorem endingOf_ne_timer (fault : Fault) (pc : UInt64) :
    endingOf fault pc ≠ .trap .timerInterrupt := by
  unfold endingOf
  split <;> simp

/-- A run that is resumed, if it has stopped because its quantum was used up. -/
def RunResult.resume (tracing : Bool) (quantum : Nat) (result : RunResult) : RunResult :=
  if result.ending = .trap .timerInterrupt then
    result.hart.run tracing quantum result.retired result.memory
  else result

/-- **A run can be cut after any number of instructions**, and resumed where it was cut. -/
theorem run_add (tracing : Bool) (first second : Nat) (hart : Hart) (retired : Nat)
    (memory : Memory) :
    hart.run tracing (first + second) retired memory =
      (hart.run tracing first retired memory).resume tracing second := by
  induction first generalizing hart retired memory with
  | zero =>
      rw [Nat.zero_add]
      rfl
  | succ first ih =>
      rw [Nat.succ_add, run, run]
      cases hart.step tracing memory with
      | error fault after => exact (if_neg (endingOf_ne_timer fault hart.pc)).symm
      | ok found after =>
          obtain ⟨hart', flow⟩ := found
          cases flow with
          | next => exact ih hart' (retired + 1) after
          | environmentCall => rfl

/-- A run counts on from the number that it is given. -/
theorem run_counting (tracing : Bool) (quantum : Nat) (hart : Hart) (retired : Nat)
    (memory : Memory) :
    hart.run tracing quantum retired memory =
      let result := hart.run tracing quantum 0 memory
      { result with retired := retired + result.retired } := by
  induction quantum generalizing hart retired memory with
  | zero => rfl
  | succ quantum ih =>
      rw [run, run]
      cases hart.step tracing memory with
      | error fault after => rfl
      | ok found after =>
          obtain ⟨hart', flow⟩ := found
          cases flow with
          | environmentCall => rfl
          | next =>
              dsimp only
              rw [ih hart' (retired + 1) after, ih hart' (0 + 1) after, Nat.zero_add]
              dsimp only
              rw [Nat.add_assoc]

/-- A run has touched the pages that were touched before it. -/
theorem pageFaults_le_run (tracing : Bool) (quantum : Nat) (hart : Hart) (retired : Nat)
    (memory : Memory) :
    memory.space.pageFaults ≤ (hart.run tracing quantum retired memory).memory.space.pageFaults :=
  run_keeps (Memory.respected_pageFaults _) tracing quantum hart retired (le_refl _)

end Hart

namespace Interpreter

variable {machine between left middle right : Interpreter} {id : ContextId} {first second : Nat}

/-! ## Switches that end alike -/

/-- Interpreters that have the same frames and the same contexts and have noted the same. -/
structure Concurs (left right : Interpreter) : Prop extends Matches left right where
  journal : left.journal = right.journal

theorem Concurs.refl (machine : Interpreter) : Concurs machine machine :=
  ⟨.refl machine, rfl⟩

theorem Concurs.trans (here : Concurs left middle) (there : Concurs middle right) :
    Concurs left right :=
  ⟨here.toMatches.trans there.toMatches, here.journal.trans there.journal⟩

/-- Two switches end in the same trap or the same error, and leave the same contexts, frames and
notes; after a trap they have counted the same. -/
inductive Coincide : EStateM.Result HostError Interpreter Trap →
    EStateM.Result HostError Interpreter Trap → Prop where
  | trapped {trap : Trap} {left right : Interpreter} (states : Concurs left right)
      (counters : left.counters = right.counters) :
      Coincide (.ok trap left) (.ok trap right)
  | failed {error : HostError} {left right : Interpreter} (states : Concurs left right) :
      Coincide (.error error left) (.error error right)

namespace Coincide

theorem refl (result : EStateM.Result HostError Interpreter Trap) :
    Coincide result result := by
  cases result with
  | ok trap after => exact .trapped (.refl after) rfl
  | error error after => exact .failed (.refl after)

theorem trans {whole part piece : EStateM.Result HostError Interpreter Trap}
    (here : Coincide whole part) (there : Coincide part piece) :
    Coincide whole piece := by
  cases here with
  | trapped states counters =>
      cases there with
      | trapped states' counters' =>
          exact .trapped (states.trans states') (counters.trans counters')
  | failed states =>
      cases there with
      | failed states' => exact .failed (states.trans states')

theorem agree {whole part : EStateM.Result HostError Interpreter Trap}
    (alike : Coincide whole part) :
    Agree (fun _ => False) Matches Eq whole part := by
  cases alike with
  | trapped states counters => exact .answer rfl states.toMatches
  | failed states => exact .failure states.toMatches

end Coincide

/-! ## Two slices -/

/-- What is left to do of a run that was cut is done by a run of the context that was put back. -/
theorem runOf_add {context : Context}
    (timer : (machine.runOf context first).ending = .trap .timerInterrupt) :
    let front := machine.runOf context first
    let back := (machine.keepTrap id context front).runOf (afterRun context front) second
    machine.runOf context (first + second) =
      { back with retired := front.retired + back.retired } := by
  intro front back
  have cut : machine.runOf context (first + second) = front.resume machine.tracing second :=
    Hart.run_add ..
  rw [cut, Hart.RunResult.resume, if_pos timer]
  exact Hart.run_counting ..

/-- A run of a context has touched the pages that its context had touched. -/
theorem pageFaults_le_runOf (machine : Interpreter) (context : Context) (quantum : Nat) :
    context.space.pageFaults ≤ (machine.runOf context quantum).memory.space.pageFaults :=
  Hart.pageFaults_le_run machine.tracing quantum context.hart 0 (machine.memoryOf context)

/-- It does not matter that the context was put back in between. -/
theorem concurs_keepRun (context : Context) (front back : Hart.RunResult) :
    Concurs
      (machine.keepRun id context { back with retired := front.retired + back.retired })
      ((machine.keepTrap id context front).keepRun id (afterRun context front) back) := by
  have after : afterRun context { back with retired := front.retired + back.retired } =
      afterRun (afterRun context front) back := by
    unfold afterRun
    rw [Nat.add_assoc]
  refine ⟨⟨rfl, rfl, rfl, fun other => ?_⟩, rfl⟩
  rw [keepTrap, keepRun, keepRun, keepRun, Table.getElem?_insert, Table.getElem?_insert,
    Table.getElem?_insert, after]
  split <;> rfl

/-- What two slices count is what is counted at once. -/
theorem countRun_countRun (counters : Counters) (front back : Hart.RunResult) (before : Nat)
    (touched : before ≤ front.memory.space.pageFaults)
    (later : front.memory.space.pageFaults ≤ back.memory.space.pageFaults) :
    countRun counters (front.retired + back.retired) (back.memory.space.pageFaults - before)
        back.memory.pool.peak =
      countRun (countRun counters front.retired (front.memory.space.pageFaults - before)
          front.memory.pool.peak)
        back.retired (back.memory.space.pageFaults - front.memory.space.pageFaults)
        back.memory.pool.peak := by
  simp only [countRun, Counters.mk.injEq, true_and, and_true]
  omega

/-- A context that is put back when the timer has ended its run goes on where it was. -/
theorem coincide_keepTrap {context : Context} (found : machine.contexts[id]? = some context)
    (live : context.state ≠ .exited)
    (timer : (machine.runOf context first).ending = .trap .timerInterrupt) :
    Coincide (switch id (first + second) machine)
      (switch id second (machine.keepTrap id context (machine.runOf context first))) := by
  have whole := @runOf_add machine id first second context timer
  have touched := pageFaults_le_runOf machine context first
  dsimp only at whole
  generalize machine.runOf context first = front at whole touched ⊢
  have later := pageFaults_le_runOf (machine.keepTrap id context front) (afterRun context front)
    second
  have found' : (machine.keepTrap id context front).contexts[id]? = some (afterRun context front) :=
    (Table.getElem?_insert ..).trans (if_pos rfl)
  generalize back : (machine.keepTrap id context front).runOf (afterRun context front) second =
    rest at whole later
  have states := @concurs_keepRun machine id context front rest
  cases ended : rest.ending with
  | trap trap =>
      rw [switch_of_trap found live (by rw [whole, ended]),
        switch_of_trap found' live (by rw [back, ended]), whole, back]
      exact .trapped ⟨⟨rfl, rfl, rfl, states.contexts⟩, rfl⟩
        (countRun_countRun machine.counters front rest _ touched later)
  | outOfFrames =>
      rw [switch_of_outOfFrames found live (by rw [whole, ended]),
        switch_of_outOfFrames found' live (by rw [back, ended]), whole, back]
      exact .failed states

/-- **A switch whose first part the timer ends goes on with the second part.** -/
theorem coincide_add (timer : switch id first machine = .ok .timerInterrupt between) :
    Coincide (switch id (first + second) machine) (switch id second between) := by
  have ends := switchEnds id first machine
  rw [timer] at ends
  cases ends with
  | trapped found live ended => exact coincide_keepTrap found live ended

/-- A switch that ends by itself ends there for any longer quantum. -/
theorem switch_add_of_stop
    (stops : ∀ between, switch id first machine ≠ .ok .timerInterrupt between) :
    switch id (first + second) machine = switch id first machine := by
  have same {context : Context} (found : machine.contexts[id]? = some context)
      (live : context.state ≠ .exited) :
      machine.runOf context (first + second) = machine.runOf context first := by
    have stopped : (machine.runOf context first).ending ≠ .trap .timerInterrupt :=
      fun timer => stops _ (switch_of_trap found live timer)
    exact (Hart.run_add ..).trans (if_neg stopped)
  have ends := switchEnds id first machine
  generalize switch id first machine = result at ends ⊢
  cases ends with
  | missing missing => exact switch_of_none missing
  | exited found exited => exact switch_of_exited found exited
  | trapped found live ended =>
      rw [switch_of_trap found live (by rw [same found live, ended]), same found live]
  | ranDry found live ended =>
      rw [switch_of_outOfFrames found live (by rw [same found live, ended]), same found live]

/-! ## Any number of slices -/

/-- Switch to a context for one slice after the other, as long as the timer ends them. -/
def switchSlices (id : ContextId) : Nat → List Nat → InterpreterAction Trap
  | quantum, [] => switch id quantum
  | quantum, next :: rest => do
      match ← switch id quantum with
      | .timerInterrupt => switchSlices id next rest
      | trap => return trap

/-- What follows a slice that the timer does not end is nothing. -/
theorem switchSlices_of_stop {quantum next : Nat} {rest : List Nat}
    (stops : ∀ between, switch id quantum machine ≠ .ok .timerInterrupt between) :
    switchSlices id quantum (next :: rest) machine = switch id quantum machine := by
  cases result : switch id quantum machine with
  | error error after => exact bind_of_error result _
  | ok trap after =>
      refine (bind_of_ok result _).trans ?_
      cases trap with
      | timerInterrupt => exact absurd result (stops after)
      | environmentCall => rfl
      | fault fault pc => rfl

/-- **Into however many slices a run is cut, it ends alike.** -/
theorem coincide_sum (id : ContextId) (quantum : Nat) (rest : List Nat)
    (machine : Interpreter) :
    Coincide (switch id (quantum + rest.sum) machine)
      (switchSlices id quantum rest machine) := by
  induction rest generalizing quantum machine with
  | nil => exact .refl _
  | cons next rest ih =>
      rw [List.sum_cons]
      by_cases timer : ∃ between, switch id quantum machine = .ok .timerInterrupt between
      · obtain ⟨between, timer⟩ := timer
        have onward : switchSlices id quantum (next :: rest) machine =
            switchSlices id next rest between := bind_of_ok timer _
        rw [onward]
        exact (coincide_add timer).trans (ih next between)
      · have stops := not_exists.mp timer
        rw [switch_add_of_stop stops, switchSlices_of_stop stops]
        exact .refl _

/-- **Slices compose.**  From any state of the machine, a switch to any context for `first + second`
instructions ends as a switch for `first` and, if the timer has ended that one, another for
`second`: in the same trap or the same error, with the same contexts, frames and notes, and with the
same counters if it is a trap.  A switch for `first` that ends in anything else, be it a system
call, a fault or an error, is what the longer switch is as well. -/
theorem slices_compose (machine : Interpreter) (id : ContextId) (first second : Nat) :
    match switch id first machine with
    | .ok .timerInterrupt between =>
        Coincide (switch id (first + second) machine) (switch id second between)
    | stopped => switch id (first + second) machine = stopped := by
  split
  · rename_i between timer
    exact coincide_add timer
  · rename_i stops
    exact switch_add_of_stop stops

/-- A program that loads from a page of its stack and then calls for service, cut before the load:
the page is touched in the second slice. -/
theorem load_in_second_slice :
    let image := Image.ofWords ([.addi 5 2 (-2048), .addi 5 5 (-2048), .ld 6 5 0, .ecall].map
      Instruction.encode) []
    let machine := stateAfter Operation.perform [.create image ⟨.demand, 65536, []⟩]
      (empty 8 false .silent)
    let whole := switch 1 (2 + 5) machine
    let counts (machine : Interpreter) := machine.contexts[1]?.map fun context =>
      (context.instructions, context.space.pageFaults)
    (match switch 1 2 machine with
      | .ok .timerInterrupt between => Coincide whole (switch 1 5 between)
      | stopped => whole = stopped) ∧
      (answerOf (switch 1 2 machine)).toOption = some .timerInterrupt ∧
      counts (finalState (switch 1 2 machine)) = some (2, 2) ∧
      (answerOf whole).toOption = some .environmentCall ∧
      counts (finalState whole) = some (4, 3) := by
  intro image machine whole counts
  refine ⟨slices_compose machine 1 2 5, ?_⟩
  decide +kernel

end Interpreter

end NestedMachine
