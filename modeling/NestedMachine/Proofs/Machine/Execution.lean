import NestedMachine.Program.Loading
import NestedMachine.Proofs.Memory.Congruence

/-!
# Guests and loaders respect relations of memories

Carrying out instructions and filling a new address space are congruent actions: they touch
memory through its accesses only.  So whatever makes the accesses of two memories agree makes two
runs from the same hart agree (`Hart.run_agrees`), and two loads of the same program, if pages are
mapped alike before (`Loading.agrees_populate`).
-/

namespace NestedMachine

set_option autoImplicit false

open Memory (Congruent Respected)

/-! ## Instructions -/

theorem congruent_orFault {α : Type} (answer : Except Fault α) : Congruent (orFault answer) := by
  cases answer with
  | ok answer => exact .pure answer
  | error fault => exact .throw fault

namespace Instruction

theorem congruent_executeArithmetic (operation : Arithmetic) (hart : Hart) (rd rs1 rs2 : Nat) :
    Congruent (executeArithmetic operation hart rd rs1 rs2) :=
  .bind (congruent_orFault _) fun _ => .pure _

theorem congruent_execute (hart : Hart) (instruction : Instruction) :
    Congruent (instruction.execute hart) := by
  cases instruction with
  | add | sub | mul | divu | remu | sltu => exact congruent_executeArithmetic ..
  | lui | addi | beq | jal | jalr | ecall => exact .pure _
  | ld rd rs1 imm =>
      exact .bind (congruent_orFault _) fun address => .bind (.load _) fun _ => .pure _
  | sd rs1 rs2 imm =>
      exact .bind (congruent_orFault _) fun address => .bind (.store _ _) fun _ => .pure _

end Instruction

namespace Hart

theorem congruent_fetch (tracing : Bool) (hart : Hart) : Congruent (hart.fetch tracing) := by
  refine .bind (.fetch _) ?_
  intro word
  cases tracing with
  | true => exact .bind (.jot (.fetched hart.pc word)) fun _ => .pure word
  | false => exact .pure word

theorem congruent_step (tracing : Bool) (hart : Hart) : Congruent (hart.step tracing) := by
  refine .bind (congruent_fetch tracing hart) ?_
  intro word
  cases word.instruction? with
  | some instruction => exact Instruction.congruent_execute hart instruction
  | none => exact .throw _

/-! ## Runs -/

/-- Two runs end alike, up to a relation of the memories left; or the first one ended by a fault
that is an excuse. -/
inductive RunsAgree (excused : Fault → Prop) (related : Memory → Memory → Prop) :
    RunResult → RunResult → Prop where
  | same {hart : Hart} {retired : Nat} {left right : Memory} {ending : Ending}
      (states : related left right) :
      RunsAgree excused related ⟨hart, retired, left, ending⟩ ⟨hart, retired, right, ending⟩
  | excuse {hart : Hart} {retired : Nat} {left : Memory} {fault : Fault} {result : RunResult}
      (reason : excused fault) :
      RunsAgree excused related ⟨hart, retired, left, endingOf fault hart.pc⟩ result

/-- **Runs from related memories agree.** -/
theorem run_agrees {excused : Fault → Prop} {related : Memory → Memory → Prop}
    (respected : Respected excused related) (tracing : Bool) (quantum : Nat) (hart : Hart)
    (retired : Nat) {left right : Memory} (states : related left right) :
    RunsAgree excused related (hart.run tracing quantum retired left)
      (hart.run tracing quantum retired right) := by
  induction quantum generalizing hart retired left right with
  | zero => exact .same states
  | succ quantum ih =>
      have outcome := (congruent_step tracing hart).agrees respected left right states
      rw [run, run]
      generalize hart.step tracing left = leftStep at outcome
      generalize hart.step tracing right = rightStep at outcome
      cases outcome with
      | @answer found _ _ _ same states' =>
          subst same
          obtain ⟨hart', flow⟩ := found
          cases flow with
          | next => exact ih hart' (retired + 1) states'
          | environmentCall => exact .same states'
      | failure states' => exact .same states'
      | excuse reason => exact .excuse reason

/-- A run keeps what the primitive accesses keep. -/
theorem run_keeps {invariant : Memory → Prop}
    (respected : Respected (fun _ => False) (Diagonal invariant)) (tracing : Bool) (quantum : Nat)
    (hart : Hart) (retired : Nat) {memory : Memory} (holds : invariant memory) :
    invariant (hart.run tracing quantum retired memory).memory := by
  have runs := run_agrees respected tracing quantum hart retired ⟨rfl, holds⟩
  generalize hart.run tracing quantum retired memory = result at runs
  cases runs with
  | same states => exact states.2
  | excuse reason => exact reason.elim

/-- A run retires no more instructions than its quantum allows. -/
theorem retired_run_le (tracing : Bool) (quantum : Nat) (hart : Hart) (retired : Nat)
    (memory : Memory) : (hart.run tracing quantum retired memory).retired ≤ retired + quantum := by
  induction quantum generalizing hart retired memory with
  | zero => exact Nat.le_refl _
  | succ quantum ih =>
      rw [run]
      cases hart.step tracing memory with
      | error fault after => exact Nat.le_add_right _ _
      | ok found after =>
          obtain ⟨hart', flow⟩ := found
          cases flow with
          | next =>
              refine Nat.le_trans (ih hart' (retired + 1) after) (Nat.le_of_eq ?_)
              exact Nat.add_right_comm ..
          | environmentCall => exact Nat.add_le_add_left (Nat.le_add_left 1 quantum) retired

/-! ## Single instructions -/

/-- Whoever asks for service stands on the instruction that asks for it, and has done nothing. -/
theorem of_environmentCall {hart after : Hart} {instruction : Instruction} {left right : Memory}
    (run : instruction.execute hart left = .ok (after, .environmentCall) right) :
    instruction = .ecall ∧ after = hart ∧ right = left := by
  cases instruction with
  | add | sub | mul | divu | remu | sltu =>
      obtain ⟨_, _, _, told⟩ := ok_of_bind run
      cases told
  | lui | addi | beq | jal | jalr => cases run
  | ld rd rs1 imm =>
      obtain ⟨_, _, _, rest⟩ := ok_of_bind run
      obtain ⟨_, _, _, told⟩ := ok_of_bind rest
      cases told
  | sd rs1 rs2 imm =>
      obtain ⟨_, _, _, rest⟩ := ok_of_bind run
      obtain ⟨_, _, _, told⟩ := ok_of_bind rest
      cases told
  | ecall =>
      cases run
      exact ⟨rfl, rfl, rfl⟩

/-- Whoever has stepped into a call has fetched it, and stands on it. -/
theorem fetched_of_step {tracing : Bool} {hart hart' : Hart} {memory after : Memory}
    (stepped : hart.step tracing memory = .ok (hart', .environmentCall) after) :
    hart' = hart ∧ ∃ word, word.instruction? = some .ecall ∧
      hart.fetch tracing memory = .ok word after := by
  obtain ⟨word, fetched, fetch, executed⟩ := ok_of_bind stepped
  cases read : word.instruction? with
  | none =>
      rw [read] at executed
      cases executed
  | some instruction =>
      rw [read] at executed
      obtain ⟨rfl, rfl, rfl⟩ := of_environmentCall executed
      exact ⟨rfl, word, read, fetch⟩

/-- **An instruction that traps leaves its hart as it was**, and a fault tells where it stands. -/
theorem of_trap {tracing : Bool} {hart : Hart} {retired : Nat} {memory : Memory} {trap : Trap}
    (ended : (hart.run tracing 1 retired memory).ending = .trap trap)
    (stops : trap ≠ .timerInterrupt) :
    (hart.run tracing 1 retired memory).hart = hart ∧
      ∀ fault pc, trap = .fault fault pc → pc = hart.pc := by
  rw [run] at ended ⊢
  cases stepped : hart.step tracing memory with
  | error fault after =>
      rw [stepped] at ended
      refine ⟨rfl, fun fault' pc same => ?_⟩
      simp only [endingOf, same] at ended
      split at ended
      · cases ended
      · cases ended
        rfl
  | ok found after =>
      obtain ⟨hart', flow⟩ := found
      rw [stepped] at ended
      cases flow with
      | next => exact absurd (Ending.trap.inj ended).symm stops
      | environmentCall =>
          refine ⟨(fetched_of_step stepped).1, fun fault pc other => ?_⟩
          cases other.symm.trans (Ending.trap.inj ended).symm

end Hart

/-! ## Loading -/

namespace Loading

theorem congruent_reserve (top size : Nat) : Congruent (reserve top size) := by
  refine .get_bind (fun left right layout => by rw [layout]) ?_
  intro memory
  exact .ite (fun _ => .throw _) fun _ => .pure _

theorem congruent_pushArguments (arguments : List String) (top : Nat) :
    Congruent (pushArguments arguments top) := by
  induction arguments generalizing top with
  | nil => exact .pure _
  | cons argument rest ih =>
      refine .bind (congruent_reserve _ _) fun start => .bind (.writeBytes _ _) fun _ => ?_
      exact .bind (ih start) fun _ => .pure _

theorem congruent_storeWords (address : Nat) (words : List Nat) :
    Congruent (storeWords address words) := by
  induction words generalizing address with
  | nil => exact .pure _
  | cons word rest ih => exact .bind (.store _ _) fun _ => ih _

theorem congruent_buildStack (arguments : List String) : Congruent (buildStack arguments) := by
  refine .bind (congruent_pushArguments _ _) fun _ => .bind (congruent_reserve _ _) fun _ => ?_
  exact .bind (congruent_storeWords _ _) fun _ => .pure _

/-- Fill an address space whose pages may be mapped already. -/
def fill (image : Image) (arguments : List String) : MemoryAction Nat := do
  Memory.preload codeStart image.code
  Memory.preload (← get).space.layout.dataStart image.data
  buildStack arguments

theorem populate_eq (image : Image) (arguments : List String) :
    populate image arguments = (do
      Memory.mapEagerly
      fill image arguments) := by
  unfold Memory.mapEagerly
  rw [bind_assoc]
  refine congrArg (get >>= ·) (funext fun memory => ?_)
  split
  · rfl
  · rfl

theorem congruent_fill (image : Image) (arguments : List String) :
    Congruent (fill image arguments) := by
  refine .bind (.preload ..) fun _ => ?_
  refine .get_bind (fun left right layout => by rw [layout]) ?_
  intro memory
  exact .bind (.preload ..) fun _ => congruent_buildStack _

/-- **New address spaces are filled alike**, if their pages are mapped alike before. -/
theorem agrees_populate {excused : Fault → Prop} {related : Memory → Memory → Prop}
    (respected : Respected excused related)
    (mapped : Agrees excused related Eq Memory.mapEagerly Memory.mapEagerly) (image : Image)
    (arguments : List String) :
    Agrees excused related Eq (populate image arguments) (populate image arguments) := by
  rw [populate_eq]
  exact mapped.bind fun _ _ _ => (congruent_fill image arguments).agrees respected

end Loading

end NestedMachine
