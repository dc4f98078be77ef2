import NestedMachine.Proofs.Hypervisor.Forking
import NestedMachine.Proofs.Hypervisor.Offspring

/-!
# Children while calls are served

The service of a context is followed from its trap to its end.  Meanwhile it goes on to be served,
and children stay (`Minded`).  Only forks and waits concern children: no other call does
(`Minded.serve`), and neither does what comes after it, be it an answer, an exit, a block or a fault
(`Minded.concludes`).  Also a child that is killed stays with its parent, which is still to be told
of it (`Minded.serveKill`).

So the service of any other call leaves children alone (`Tended.steadfast_serviceCall`), and so does
the handling of any other trap (`Tended.steadfast_settle`).  A fork that is not declined enters one
child (`Tended.serveFork`).
-/

namespace NestedMachine.Hypervisor

set_option autoImplicit false

open Std (TreeSet)

variable {α : Type} {hypervisor origin middle called after : Hypervisor}
  {loaded : ContextId → Prop} {id parent child : ContextId} {context : Context} {outcome : Outcome}

/-! ## What leaves children alone -/

/-- A context goes on to be served, and children have stayed. -/
structure Minded (loaded : ContextId → Prop) (id : ContextId) (origin hypervisor : Hypervisor) :
    Prop extends Tended loaded id hypervisor where
  steadfast : Steadfast origin hypervisor

theorem Tended.minded (tended : Tended loaded id origin) : Minded loaded id origin origin :=
  ⟨tended, .refl origin⟩

namespace Minded

theorem of_hushed {holder : ContextId} (minded : Minded loaded id origin middle)
    (hushed : Hushed holder middle after) : Minded loaded id origin after :=
  ⟨⟨minded.kinship.of_hushed hushed, minded.serving.of_hushed hushed⟩,
    minded.steadfast.trans (.of_hushed hushed)⟩

theorem discreet (minded : Minded loaded id origin middle) {told : α → Prop}
    {action : HypervisorAction α} (discreet : Discreet id told action) {answer : α}
    (done : action middle = .ok answer after) : Minded loaded id origin after := by
  have outcome := discreet middle minded.kinship.uniform
  rw [done] at outcome
  exact minded.of_hushed outcome.1

/-- A child that is killed stays with its parent. -/
theorem serveKill (minded : Minded loaded id origin middle) {call : Call}
    (done : serveKill id call middle = .ok outcome after) : Minded loaded id origin after := by
  unfold Hypervisor.serveKill at done
  cases target : contextNamed? call.first with
  | none =>
      rw [target] at done
      cases done
      exact minded
  | some child =>
      rw [target] at done
      obtain ⟨killed, ended, kill, done⟩ := ok_of_bind done
      have kills := halts_kill minded.kinship id child
      rw [kill] at kills
      obtain rfl : ended = after := by
        split at done <;> cases done <;> rfl
      rcases kills with rfl | ⟨gone, link, lives, ends⟩
      · exact minded
      · have younger := (minded.kinship.parents child gone id ends.there link).1
        exact ⟨⟨minded.kinship.terminated ends lives,
          ends.serving (Nat.ne_of_lt younger).symm minded.serving⟩,
          minded.steadfast.trans ends.steadfast⟩

/-- **Calls other than forks and waits leave children alone.** -/
theorem serve (minded : Minded loaded id origin middle) {call : Call} {kind : Option SystemCall}
    (forks : kind ≠ some .fork) (waits : kind ≠ some .wait) {answer : Outcome × Bytes}
    (done : serve id call kind middle = .ok answer after) : Minded loaded id origin after := by
  cases kind with
  | none =>
      cases done
      exact minded
  | some kind =>
      cases kind with
      | read => exact minded.discreet (discreet_serveRead id call) done
      | write =>
          obtain ⟨_, _, write, done⟩ := ok_of_bind done
          cases done
          exact minded.discreet (discreet_serveWrite id call) write
      | openFile =>
          obtain ⟨_, _, «open», done⟩ := ok_of_bind done
          cases done
          exact minded.discreet (discreet_serveOpen id call) «open»
      | exit =>
          cases done
          exact minded
      | yield =>
          cases done
          exact minded
      | kill =>
          obtain ⟨_, _, kill, done⟩ := ok_of_bind done
          cases done
          exact minded.serveKill kill
      | setBreak =>
          obtain ⟨_, _, move, done⟩ := ok_of_bind done
          cases done
          exact minded.discreet (discreet_serveBreak id call) move
      | fork => exact absurd rfl forks
      | wait => exact absurd rfl waits

theorem dispatch (minded : Minded loaded id origin middle)
    (found : middle.machine.context? id = some context)
    (forks : SystemCall.ofNumber? (Call.ofContext context).number.toNat ≠ some .fork)
    (waits : SystemCall.ofNumber? (Call.ofContext context).number.toNat ≠ some .wait)
    (done : dispatch id middle = .ok outcome after) : Minded loaded id origin after := by
  unfold Hypervisor.dispatch at done
  obtain ⟨context', found', rest⟩ := found_of_contextOf done
  obtain rfl := Option.some.inj (found'.symm.trans found)
  obtain ⟨_, counted, count, rest⟩ := ok_of_bind rest
  obtain ⟨_, noted, note, rest⟩ := ok_of_bind rest
  have heeded := (minded.discreet (discreet_count id _) count).discreet (discreet_note id _) note
  rw [get_bind_apply] at rest
  generalize Call.ofContext context' = call at forks waits rest
  generalize SystemCall.ofNumber? call.number.toNat = kind at forks waits rest
  have performs {kind : Option SystemCall} (forks : kind ≠ some .fork) (waits : kind ≠ some .wait)
      (rest : dispatch.perform id call kind noted = .ok outcome after) :
      Minded loaded id origin after := by
    obtain ⟨⟨_, _⟩, served, serve, rest⟩ := ok_of_bind rest
    obtain ⟨_, recorded, record, rest⟩ := ok_of_bind rest
    cases rest
    exact (heeded.serve forks waits serve).discreet (discreet_noteCompleted id _ _ _) record
  cases recording : noted.own.recording with
  | off =>
      simp only [recording] at rest
      exact performs forks waits rest
  | record trace =>
      simp only [recording] at rest
      exact performs forks waits rest
  | replay replayer =>
      simp only [recording] at rest
      cases kind with
      | none => exact performs forks waits rest
      | some kind =>
          dsimp only at rest
          split at rest
          · exact heeded.discreet (discreet_replayHostCall id call kind replayer) rest
          · exact performs forks waits rest

/-- **Whoever ends stays a child of its parent**, if that lives. -/
theorem terminate (minded : Minded loaded id origin middle) {status : ExitStatus}
    (done : terminate id status middle = .ok () after) : Steadfast origin after := by
  obtain ⟨kin, there, -⟩ := minded.serving
  have ends := halts_terminate minded.kinship there status
  rw [done] at ends
  exact minded.steadfast.trans ends.steadfast

theorem handleFault (minded : Minded loaded id origin middle) {fault : Fault} {pc : UInt64}
    (done : handleFault id fault pc middle = .ok () after) : Steadfast origin after := by
  obtain ⟨_, counted, count, done⟩ := ok_of_bind done
  obtain ⟨_, noted, note, done⟩ := ok_of_bind done
  have heeded := (minded.discreet (discreet_count id _) count).discreet (discreet_note id _) note
  rw [get_bind_apply] at done
  split at done
  · obtain ⟨_, parked, park, done⟩ := ok_of_bind done
    cases done
    exact heeded.steadfast.trans ((Steadfast.setState park).trans (.of_kin le_rfl fun _ => rfl))
  · exact heeded.terminate done

/-- However a call is acted on, children stay. -/
theorem concludes (minded : Minded loaded id origin middle) {pc : UInt64}
    (concludes : Concludes id pc middle after outcome) : Steadfast origin after := by
  cases concludes with
  | answered _ same =>
      subst same
      exact minded.steadfast.trans .answering
  | exited moves ends =>
      refine (minded.discreet (discreet_modifyContext id id ?_ ?_) moves).terminate ends
      · exact fun _ => rfl
      · exact fun _ => rfl
  | blocked waits => exact minded.steadfast.trans (.setState waits)
  | faulted faults => exact minded.handleFault faults

end Minded

/-- Whoever is served waits for the answer to its call. -/
theorem Tended.calling (tended : Tended loaded id called)
    (found : called.machine.context? id = some context) :
    Minded loaded id called (called.calling id) := by
  obtain ⟨kin, there, live, idle⟩ := tended.serving
  have calling : ¬Waiting (.blocked .systemCall) := not_waiting_of_ne nofun
  have fit : Fit called kin (.blocked .systemCall) := .of_idle nofun calling
  have calls := within_setState tended.kinship.uniform there live idle fit
  unfold Within at calls
  rw [setState_of_found found] at calls
  exact ⟨⟨calls.1.kinship tended.kinship, _, calls.2.1, live, calling⟩,
    .setState (setState_of_found found _)⟩

/-- **The service of a call other than a fork or a wait leaves children alone.** -/
theorem Tended.steadfast_serviceCall (tended : Tended loaded id called)
    (found : called.machine.context? id = some context)
    (forks : SystemCall.ofNumber? (Call.ofContext context).number.toNat ≠ some .fork)
    (waits : SystemCall.ofNumber? (Call.ofContext context).number.toNat ≠ some .wait)
    (served : serviceCall id called = .ok () after) : Steadfast called after := by
  obtain ⟨outcome, made, dispatch, concludes⟩ := concluded_of_serviceCall found served
  have there := context?_calling_self found
  exact ((tended.calling found).dispatch there forks waits dispatch).concludes concludes

/-- **What is left of a turn after any trap but a call leaves children alone.** -/
theorem Tended.steadfast_settle (tended : Tended loaded id called) {turn : Turn} {trap : Trap}
    (other : trap ≠ .environmentCall) (done : turn.settle id trap called = .ok () after) :
    Steadfast called after := by
  have handles (done : handleTrap id trap called = .ok () after) : Steadfast called after := by
    cases trap with
    | timerInterrupt =>
        obtain ⟨_, counted, count, done⟩ := ok_of_bind done
        exact (tended.minded.discreet (discreet_count id _) count).steadfast.trans (.makeReady done)
    | environmentCall => exact absurd rfl other
    | fault fault pc => exact tended.minded.handleFault done
  unfold Turn.settle at done
  split at done
  · exact .makeReady done
  · exact handles done

/-! ## Births -/

/-- A copy is sent on. -/
theorem Steadfast.sending : Steadfast origin (origin.sending id child) := by
  have moved : Steadfast origin ⟨origin.machine.modifyContext child fun context =>
      (context.withRegister Register.a0 0).withPc (context.hart.pc + 4), origin.own⟩ :=
    modifyContext (fun _ => rfl) fun _ => rfl
  have readied : Steadfast ⟨origin.machine.modifyContext child fun context =>
        (context.withRegister Register.a0 0).withPc (context.hart.pc + 4), origin.own⟩
      ⟨(origin.machine.modifyContext child fun context =>
        (context.withRegister Register.a0 0).withPc (context.hart.pc + 4)).modifyContext child
          (·.withState .ready), origin.own⟩ := by
    refine modifyContext ?_ ?_
    · exact fun _ => rfl
    · exact fun _ => rfl
  exact (moved.trans readied).trans (.of_kin le_rfl fun _ => rfl)

/-- **A fork that is declined leaves children alone, and any other enters a child.** -/
theorem Tended.serveFork (tended : Tended loaded id origin)
    (done : serveFork id origin = .ok outcome after) :
    outcome = .failure ∧ Steadfast origin after ∨
      ∃ child, outcome = .answer (Int64.ofNat child) ∧ child < after.machine.interpreter.nextId ∧
        ∀ parent, Balanced parent (if id = parent then [child] else []) [] [] origin after := by
  have forks := halts_fork tended.kinship.uniform id (tended.kinship.young id)
  rcases sending_of_serveFork done with ⟨rfl, forked, fork, noted⟩ | ⟨child, forked, fork, rfl, rfl⟩
  · rw [fork] at forks
    refine .inl ⟨rfl, (Steadfast.of_hushed (forks id)).trans ?_⟩
    cases noted
    exact .of_kin le_rfl fun _ => rfl
  · rw [fork] at forks
    obtain ⟨born, -⟩ := forks
    refine .inr ⟨child, rfl, ?_, fun parent => ?_⟩
    · rw [nextId_sending, born.nextId]
      exact Nat.lt_succ_self child
    · have lives (source : ContextId) (mine : some id = some source) : origin.Live source :=
        Option.some.inj mine ▸ tended.serving.live
      have entered : Balanced parent _ [] [] origin forked := born.balanced tended.kinship lives
      simp only [Option.some.injEq] at entered
      exact entered.then_steadfast tended.kinship .sending

end NestedMachine.Hypervisor
