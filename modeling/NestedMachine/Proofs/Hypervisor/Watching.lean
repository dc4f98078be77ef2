import NestedMachine.Debugger
import NestedMachine.Proofs.Action

/-!
# Watching a debugger

What a debugger answers does not tell which instructions it has carried out.  So it is watched: a
resume keeps a list of the instructions in the order in which they are carried out, each with the
debugger in front of it (`Watched.resume`).  But for the list this is the same program, and it has
the same outcome (`Watched.resume_erased`).

A list accounts for what has become of the machine if it leads from step to step, each from where
the one before has left the machine (`Accounts`).  Then no other instruction has been carried out.
-/

namespace NestedMachine

set_option autoImplicit false

open Std (TreeSet)

variable {α β : Type}

/-- An instruction that is carried out: the debugger when its turn has come, and its context. -/
structure Executed where
  before : Debugger
  id : ContextId

namespace Executed

/-- The context stands ready at its instruction. -/
def At (executed : Executed) (pc : UInt64) : Prop :=
  ∃ context, executed.before.hypervisor.machine.context? executed.id = some context ∧
    context.state = .ready ∧ context.hart.pc = pc

/-- There is no breakpoint at the instruction, and the predicate has refused it. -/
def RefusedAt (breakpoints : TreeSet UInt64) (executed : Executed) (pc : UInt64) : Prop :=
  breakpoints.contains pc = false ∧
    ∀ condition, executed.before.condition = some condition →
      (condition.ask executed.id pc).1 = false

/-- What carrying out the instruction leaves. -/
def left (executed : Executed) : Hypervisor :=
  finalState (Hypervisor.step executed.id executed.before.hypervisor)

/-- A fault has parked the context. -/
def Parks (executed : Executed) (fault : Fault) (pc : UInt64) : Prop :=
  ∃ context, executed.left.machine.context? executed.id = some context ∧
    context.state = .trapped fault pc

end Executed

/-- Instructions that lead from one machine to another, with nothing between them. -/
def Accounts : Machine → List Executed → Machine → Prop
  | first, [], last => last = first
  | first, executed :: rest, last =>
      executed.before.hypervisor.machine = first ∧ Accounts executed.left.machine rest last

theorem Accounts.append {first last : Machine} {log : List Executed}
    (accounts : Accounts first log last) {executed : Executed}
    (next : executed.before.hypervisor.machine = last) :
    Accounts first (log ++ [executed]) executed.left.machine := by
  induction log generalizing first with
  | nil => exact ⟨next.trans accounts, rfl⟩
  | cons earlier rest ih => exact ⟨accounts.1, ih accounts.2⟩

/-- An action on a debugger that is watched. -/
abbrev WatchedAction := EStateM HostError (Debugger × List Executed)

namespace Watched

open Debugger (TurnEnd)

variable {debugger after : Debugger} {log : List Executed}

/-! ## Watched actions -/

/-- An action in which no instruction is carried out. -/
def unseen (action : DebuggerAction α) : WatchedAction α
  | (debugger, log) =>
      match action debugger with
      | .ok answer debugger => .ok answer (debugger, log)
      | .error error debugger => .error error (debugger, log)

theorem unseen_of_ok {action : DebuggerAction α} {answer : α}
    (run : action debugger = .ok answer after) :
    unseen action (debugger, log) = .ok answer (after, log) := by
  rw [unseen, run]

theorem unseen_of_error {action : DebuggerAction α} {error : HostError}
    (run : action debugger = .error error after) :
    unseen action (debugger, log) = .error error (after, log) := by
  rw [unseen, run]

/-- Put an instruction down as the last one. -/
def enter (executed : Executed) : WatchedAction Unit :=
  modify fun (debugger, log) => (debugger, log ++ [executed])

/-- Carry out the instruction whose turn it is; if its context stays ready, go on. -/
def instruct (executed : Executed) (skip : Option (ContextId × UInt64))
    (later : WatchedAction TurnEnd) : WatchedAction TurnEnd := do
  enter executed
  let _ ← unseen (Debugger.onHypervisor (Hypervisor.step executed.id))
  match ← unseen (Debugger.stateOf? executed.id) with
  | some .ready => later
  | some (.trapped fault pc) => return .stop (.trapped executed.id fault pc)
  | _ => return .over skip

/-- A turn of a context. -/
def turn (id : ContextId) : Nat → Option (ContextId × UInt64) → WatchedAction TurnEnd
  | 0, skip => return .over skip
  | steps + 1, skip => do
      let before := (← get).1
      let pc ← unseen (Debugger.onHypervisor (Hypervisor.pcOf id))
      if skip == some (id, pc) then instruct ⟨before, id⟩ none (turn id steps none)
      else
        match ← unseen (Debugger.reasonBefore id pc) with
        | some reason => return .stop reason
        | none => instruct ⟨before, id⟩ skip (turn id steps skip)

/-- Turns until there is a reason to stop. -/
def resumeFrom : Nat → Option (ContextId × UInt64) → WatchedAction (Option StopReason)
  | 0, _ => return none
  | rounds + 1, skip => do
      match ← unseen (Debugger.onHypervisor Hypervisor.nextReady) with
      | none => return some .idle
      | some id =>
          match ← turn id (← get).1.hypervisor.own.quantum skip with
          | .stop reason => return some reason
          | .over skip =>
              unseen (Debugger.onHypervisor (Hypervisor.requeue id))
              resumeFrom rounds skip

/-- A resume that is watched. -/
def resume (rounds : Nat) : WatchedAction (Option StopReason) := do
  let skip := (← get).1.stoppedAt
  unseen (Debugger.rememberStop none)
  resumeFrom rounds skip

/-- The instructions that a resume carries out. -/
def executed (rounds : Nat) (debugger : Debugger) : List Executed :=
  (finalState (resume rounds (debugger, []))).2

/-! ## Nobody minds being watched -/

/-- A watched action does to the debugger what another action does. -/
def Erases (action : DebuggerAction α) (watched : WatchedAction α) : Prop :=
  Agrees (fun _ => False) (fun debugger state => state.1 = debugger) Eq action watched

theorem erases_unseen (action : DebuggerAction α) : Erases action (unseen action) := by
  rintro _ ⟨debugger, log⟩ rfl
  unfold unseen
  dsimp only
  cases action debugger with
  | ok answer after => exact .answer rfl rfl
  | error error after => exact .failure rfl

namespace Erases

theorem bind {action : DebuggerAction α} {watched : WatchedAction α}
    {next : α → DebuggerAction β} {next' : α → WatchedAction β} (first : Erases action watched)
    (rest : ∀ answer, Erases (next answer) (next' answer)) :
    Erases (action >>= next) (watched >>= next') :=
  Agrees.bind first fun answer _ same => same ▸ rest answer

theorem pure (answer : α) : Erases (pure answer) (pure answer) := Agrees.pure rfl

end Erases

theorem erases_instruct (before : Debugger) (id : ContextId) (skip : Option (ContextId × UInt64))
    {later : DebuggerAction TurnEnd} {later' : WatchedAction TurnEnd}
    (same : Erases later later') :
    Erases (do
      let _ ← Debugger.onHypervisor (Hypervisor.step id)
      match ← Debugger.stateOf? id with
      | some .ready => later
      | some (.trapped fault pc) => return .stop (.trapped id fault pc)
      | _ => return .over skip) (instruct ⟨before, id⟩ skip later') := by
  rintro _ ⟨debugger, log⟩ rfl
  have rest : Erases (do
      let _ ← Debugger.onHypervisor (Hypervisor.step id)
      match ← Debugger.stateOf? id with
      | some .ready => later
      | some (.trapped fault pc) => return .stop (.trapped id fault pc)
      | _ => return .over skip) (do
      let _ ← unseen (Debugger.onHypervisor (Hypervisor.step id))
      match ← unseen (Debugger.stateOf? id) with
      | some .ready => later'
      | some (.trapped fault pc) => return .stop (.trapped id fault pc)
      | _ => return .over skip) := by
    refine (erases_unseen _).bind fun _ => (erases_unseen _).bind fun state => ?_
    split
    · exact same
    · exact .pure _
    · exact .pure _
  exact rest debugger (debugger, log ++ [⟨before, id⟩]) rfl

theorem erases_turn (id : ContextId) (steps : Nat) (skip : Option (ContextId × UInt64)) :
    Erases (Debugger.turn id steps skip) (turn id steps skip) := by
  induction steps generalizing skip with
  | zero => exact .pure _
  | succ steps ih =>
      rintro _ ⟨debugger, log⟩ rfl
      have rest : Erases (Debugger.turn id (steps + 1) skip) (do
          let pc ← unseen (Debugger.onHypervisor (Hypervisor.pcOf id))
          if skip == some (id, pc) then instruct ⟨debugger, id⟩ none (turn id steps none)
          else
            match ← unseen (Debugger.reasonBefore id pc) with
            | some reason => return .stop reason
            | none => instruct ⟨debugger, id⟩ skip (turn id steps skip)) := by
        refine (erases_unseen _).bind fun pc => ?_
        cases skipped : skip == some (id, pc) with
        | true => exact erases_instruct debugger id none (ih none)
        | false =>
            refine (erases_unseen _).bind fun reason => ?_
            cases reason with
            | some reason => exact .pure _
            | none => exact erases_instruct debugger id skip (ih skip)
      exact rest debugger (debugger, log) rfl

theorem erases_resumeFrom (rounds : Nat) (skip : Option (ContextId × UInt64)) :
    Erases (Debugger.resumeFrom rounds skip) (resumeFrom rounds skip) := by
  induction rounds generalizing skip with
  | zero => exact .pure _
  | succ rounds ih =>
      refine (erases_unseen _).bind fun next => ?_
      cases next with
      | none => exact .pure _
      | some id =>
          refine Agrees.get_bind ?_
          rintro _ state rfl
          refine (erases_turn id _ skip).bind fun ended => ?_
          rcases ended with reason | skip
          · exact .pure _
          · exact (erases_unseen _).bind fun _ => ih skip

/-- **A resume that is watched is a resume**: it has the same answer, and leaves the same
debugger. -/
theorem resume_erased (rounds : Nat) (debugger : Debugger) :
    answerOf (Debugger.resume rounds debugger) = answerOf (resume rounds (debugger, [])) ∧
      (finalState (resume rounds (debugger, []))).1 =
        finalState (Debugger.resume rounds debugger) := by
  have same : Erases (Debugger.resume rounds) (resume rounds) := by
    refine Agrees.get_bind ?_
    rintro _ state rfl
    exact (erases_unseen _).bind fun _ => erases_resumeFrom rounds state.1.stoppedAt
  exact (same debugger (debugger, []) rfl).outcome

end Watched

end NestedMachine
