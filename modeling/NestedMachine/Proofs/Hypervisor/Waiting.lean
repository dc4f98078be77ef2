import NestedMachine.Proofs.Hypervisor.Histories
import NestedMachine.Proofs.Hypervisor.Services

/-!
# Places in the ready queue

Whatever happens in the turn of one context, the others keep their places in the queue: contexts
that become ready are put at the back, and those that end leave their places to the ones behind.
Nobody is woken but who waits for a child.  So a condition on the state of a context and on the
queue that holds in spite of such changes (`Undisturbed`) is kept by whatever is done on behalf of
another context (`Undisturbed.upheld`), and by the system calls of the context itself
(`Undisturbed.upheldByCalls`).

An example is a context with fewer than `n` others before it: it is left so, or it is ended
(`Patient`, `upheld_patient`).
-/

namespace NestedMachine.Hypervisor

set_option autoImplicit false

open Std (TreeMap)

variable {origin middle after : Hypervisor} {id other caller : ContextId} {bound : Nat}

/-! ## Numbers that are known -/

/-- A number is in use, or was once, and it will not be given to a new context. -/
structure Known (id : ContextId) (hypervisor : Hypervisor) : Prop where
  uniform : hypervisor.machine.Uniform
  young : ∀ other kin, hypervisor.kin other = some kin →
    other < hypervisor.machine.interpreter.nextId
  known : id < hypervisor.machine.interpreter.nextId

namespace Known

theorem of_kindred (known : Known id origin) (kindred : Kindred origin after) : Known id after where
  uniform := kindred.uniform
  young other kin found := by
    rw [kindred.kin] at found
    rw [kindred.nextId]
    exact known.young other kin found
  known := kindred.nextId ▸ known.known

theorem of_altered (known : Known id origin) {change : Kin → Kin}
    (altered : Altered other change origin after) : Known id after where
  uniform := altered.uniform
  young third kin found := by
    obtain ⟨before, there, -⟩ := altered.of_found found
    rw [altered.nextId]
    exact known.young third before there
  known := altered.nextId ▸ known.known

theorem of_born (known : Known id origin) {parent : Option ContextId}
    (born : Born parent other origin after) : Known id after where
  uniform := born.uniform
  young third kin found := by
    rcases born.new_or_old found with ⟨rfl, -⟩ | ⟨-, before, there, -⟩
    · rw [born.nextId]
      exact Nat.lt_succ_self other
    · exact (known.young third before there).trans_le born.nextId_le
  known := known.known.trans_le born.nextId_le

theorem of_removed (known : Known id origin) {gone : Kin} {record : Supervisor}
    (removed : Removed other gone origin { after with own := record }) : Known id after where
  uniform := removed.uniform
  young third kin found := by
    obtain ⟨-, before, there, -⟩ := removed.of_found found
    exact (known.young third before there).trans_eq removed.nextId.symm
  known := removed.nextId ▸ known.known

end Known

/-! ## Conditions on places -/

/-- A context is gone, or it has ended. -/
def AtEnd (state : Option ContextState) : Prop := ∀ now, state = some now → now = .exited

/-- A condition on the state of a context and on the queue that others do not disturb: those who
join the queue or leave it do not, and the context does not wait for a child to wake it.  Who has
ended meets the condition as before, and leaves the queue if it is still there. -/
structure Undisturbed (id : ContextId) (place : Option ContextState → List ContextId → Prop) :
    Prop where
  join : ∀ {state queue other}, other ≠ id → place state queue → place state (queue ++ [other])
  leave : ∀ {state queue other}, other ≠ id → place state queue →
    place state (queue.filter (· != other))
  asleep : ∀ {state queue child}, place (some state) queue → waitsFor state child = false
  finish : ∀ {state state' queue}, place state queue → AtEnd state' → place state' queue
  away : ∀ {state queue}, place state queue → AtEnd state → place state (queue.filter (· != id))

/-- The state of a known context and the queue meet a condition. -/
structure Placed (place : Option ContextState → List ContextId → Prop) (id : ContextId)
    (hypervisor : Hypervisor) : Prop extends Known id hypervisor where
  stands : place ((hypervisor.kin id).map Kin.state) hypervisor.own.ready

variable {place : Option ContextState → List ContextId → Prop}

namespace Placed

/-- Neither the state nor the queue has changed. -/
theorem congr (placed : Placed place id origin) (known : Known id after)
    (state : (after.kin id).map Kin.state = (origin.kin id).map Kin.state)
    (ready : after.own.ready = origin.own.ready) : Placed place id after :=
  ⟨known, by rw [state, ready]; exact placed.stands⟩

/-- Nothing has changed that matters to the scheduling. -/
theorem of_kindred (placed : Placed place id origin) (kindred : Kindred origin after) :
    Placed place id after :=
  placed.congr (placed.toKnown.of_kindred kindred) (by rw [kindred.kin]) kindred.ready

/-- Another context has changed, or this one has kept its state. -/
theorem of_altered (placed : Placed place id origin) {change : Kin → Kin}
    (altered : Altered other change origin after)
    (stays : other = id → ∀ kin, (change kin).state = kin.state) : Placed place id after := by
  refine placed.congr (placed.toKnown.of_altered altered) ?_ (congrArg Supervisor.ready altered.own)
  rw [altered.kin]
  split
  · rename_i same
    rw [Option.map_map]
    exact congrArg (Option.map · _) (funext (stays same))
  · rfl

/-- The record has changed, and the condition holds of its queue. -/
theorem of_record (placed : Placed place id origin) {own : Supervisor}
    (stands : ∀ {state}, place state origin.own.ready → place state own.ready) :
    Placed place id { origin with own } :=
  ⟨⟨placed.uniform, placed.young, placed.known⟩, stands placed.stands⟩

/-- A context has begun. -/
theorem of_born (placed : Placed place id origin) {parent : Option ContextId}
    (born : Born parent other origin after) : Placed place id after := by
  refine placed.congr (placed.toKnown.of_born born) ?_ (congrArg Supervisor.ready born.own)
  cases found : origin.kin id with
  | some kin =>
      obtain ⟨kin', found', -, -, same⟩ := born.keeps placed.known found
      rw [found']
      exact congrArg some same
  | none =>
      cases found' : after.kin id with
      | none => rfl
      | some kin =>
          rcases born.new_or_old found' with ⟨rfl, -⟩ | ⟨-, before, there, -⟩
          · exact absurd rfl (born.fresh placed.known)
          · cases found.symm.trans there

/-- A context has been removed; if it is this one, it is over. -/
theorem of_removed (placed : Placed place id origin) (undisturbed : Undisturbed id place)
    {gone : Kin} {record : Supervisor}
    (removed : Removed other gone origin { after with own := record })
    (own : after.own = origin.own) : Placed place id after := by
  have known := placed.toKnown.of_removed removed
  by_cases mine : other = id
  · refine ⟨known, own ▸ undisturbed.finish placed.stands ?_⟩
    intro state found
    obtain ⟨kin, there, -⟩ := Option.map_eq_some_iff.mp found
    exact absurd mine (removed.of_found there).1
  · refine placed.congr known ?_ (congrArg Supervisor.ready own)
    cases found : origin.kin id with
    | some kin =>
        rw [show after.kin id = _ from removed.keeps mine found]
        rfl
    | none =>
        cases found' : after.kin id with
        | none => rfl
        | some kin =>
            obtain ⟨-, before, there, -⟩ := removed.of_found found'
            cases found.symm.trans there

/-- Whoever has ended stands where it stood. -/
theorem of_ended (placed : Placed place id origin) (undisturbed : Undisturbed id place)
    (known : Known id after) (ready : after.own.ready = origin.own.ready)
    (ended : AtEnd ((after.kin id).map Kin.state)) :
    Placed (fun state queue => AtEnd state ∧ place state queue) id after :=
  ⟨known, ended, ready ▸ undisturbed.finish placed.stands ended⟩

theorem mono (placed : Placed place id origin)
    {weaker : Option ContextState → List ContextId → Prop}
    (weaken : ∀ {state queue}, place state queue → weaker state queue) : Placed weaker id origin :=
  ⟨placed.toKnown, weaken placed.stands⟩

end Placed

namespace Undisturbed

/-- With those that have ended, nothing happens any more but that they leave the queue. -/
theorem ended (undisturbed : Undisturbed id place) :
    Undisturbed id fun state queue => AtEnd state ∧ place state queue where
  join different stands := ⟨stands.1, undisturbed.join different stands.2⟩
  leave different stands := ⟨stands.1, undisturbed.leave different stands.2⟩
  asleep stands := undisturbed.asleep stands.2
  finish stands ended := ⟨ended, undisturbed.finish stands.2 ended⟩
  away stands ended := ⟨ended, undisturbed.away stands.2 ended⟩

end Undisturbed

/-! ## What does not disturb -/

theorem Discreet.keeps_placed {α : Type} {told : α → Prop} {action : HypervisorAction α}
    (discreet : Discreet other told action) : Keeps (Placed place id) action :=
  fun origin placed => (discreet origin placed.uniform).mono
    (fun _ _ given => placed.of_kindred given.1.toKindred)
    fun _ _ given => placed.of_kindred given.1.toKindred

/-- Whatever of the record changes apart from the queue. -/
theorem keeps_placed_modifyOwn {change : Supervisor → Supervisor}
    (ready : ∀ own, (change own).ready = own.ready) :
    Keeps (Placed place id) (modifyOwn change) :=
  .modify fun _ placed => placed.of_record fun stands => (ready _).symm ▸ stands

theorem keeps_placed_modifyContext {change : Context → Context} (change' : Kin → Kin)
    (tells : ∀ context, (change context).kin = change' context.kin)
    (space : ∀ context, (change context).space = context.space)
    (stays : other = id → ∀ kin, (change' kin).state = kin.state) :
    Keeps (Placed place id) (modifyContext other change) :=
  fun _ placed => (halts_modifyContext placed.uniform other change' tells space).mono
    (fun _ _ given => placed.of_altered given.1 stays)
    fun _ _ refused => placed.of_kindred (refused.hushed 0).toKindred

theorem keeps_placed_setState (different : other ≠ id) (state : ContextState) :
    Keeps (Placed place id) (setState other state) :=
  keeps_placed_modifyContext (fun kin => { kin with state }) (fun _ => rfl) (fun _ => rfl)
    fun same => absurd same different

namespace Undisturbed

variable (undisturbed : Undisturbed id place)
include undisturbed

/-- A context leaves the queue; if it is this one, its state tells that it may. -/
theorem keeps_dequeue (apart : other = id → ∀ {state queue}, place state queue → AtEnd state) :
    Keeps (Placed place id) (dequeue other) := by
  refine .modify fun _ placed => placed.of_record fun stands => ?_
  by_cases mine : other = id
  · rw [mine]
    exact undisturbed.away stands (apart mine stands)
  · exact undisturbed.leave mine stands

theorem keeps_makeReady (different : other ≠ id) : Keeps (Placed place id) (makeReady other) := by
  refine (keeps_placed_setState different .ready).bind fun _ => .get_bind fun _ =>
    .ite (.pure _) ?_
  exact .modify fun _ placed => placed.of_record (undisturbed.join different)

theorem keeps_park (different : other ≠ id) (fault : Fault) (pc : UInt64) :
    Keeps (Placed place id) (do
      setState other (.trapped fault pc)
      dequeue other) :=
  (keeps_placed_setState different _).bind fun _ =>
    undisturbed.keeps_dequeue fun same => absurd same different

theorem keeps_discard (other : ContextId) : Keeps (Placed place id) (discard other) := by
  intro origin placed
  have removes : Halts (fun _ => Placed place id)
      (fun _ after => Placed place id after ∧ (other = id →
        Placed (fun state queue => AtEnd state ∧ place state queue) id after))
      (below (Machine.destroy other) origin) := by
    apply (halts_same_own (halts_destroy placed.uniform other)).mono
    · rintro _ after ⟨⟨⟨gone, removed⟩, -⟩, own⟩
      have kept := placed.of_removed undisturbed removed own
      refine ⟨kept, fun mine => kept.of_ended undisturbed kept.toKnown rfl fun state found => ?_⟩
      obtain ⟨kin, there, -⟩ := Option.map_eq_some_iff.mp found
      exact absurd mine (removed.of_found there).1
    · rintro _ after ⟨refused, -⟩
      exact placed.of_kindred (refused.hushed 0).toKindred
  apply removes.bind
  rintro _ middle ⟨placed, finished⟩
  have rest {place : Option ContextState → List ContextId → Prop}
      (undisturbed : Undisturbed id place)
      (apart : other = id → ∀ {state queue}, place state queue → AtEnd state) :
      Keeps (Placed place id) (do
        modifyOwn fun own =>
          { own with owned := own.owned.erase other, orphans := own.orphans.erase other }
        dequeue other) :=
    Keeps.bind (keeps_placed_modifyOwn fun _ => rfl) fun _ => undisturbed.keeps_dequeue apart
  by_cases mine : other = id
  · exact (rest undisturbed.ended (fun _ _ _ stands => stands.1) middle (finished mine)).mono
      (fun _ _ given => given.mono fun stands => stands.2)
      fun _ _ given => given.mono fun stands => stands.2
  · exact rest undisturbed (fun same => absurd same mine) middle placed

/-- Only contexts that wait for a child are woken. -/
theorem keeps_wakeParent (parent child : ContextId) :
    Keeps (Placed place id) (wakeParent parent child) := by
  intro origin placed
  apply Halts.get_bind
  cases found : origin.machine.context? parent with
  | none => exact placed
  | some context =>
      have there := kin_of_context? placed.uniform found
      dsimp only
      split
      · rename_i waits
        have different : parent ≠ id := by
          rintro rfl
          have stands := placed.stands
          rw [there] at stands
          rw [show waitsFor context.state child = false from undisturbed.asleep stands] at waits
          cases waits
        have wakes : Keeps (Placed place id) (do
            note (.parentWoken child parent)
            makeReady parent) :=
          (discreet_note parent _).keeps_placed.bind fun _ => undisturbed.keeps_makeReady different
        exact wakes origin placed
      · exact placed

theorem keeps_disown (child : ContextId) : Keeps (Placed place id) (disown child) := by
  apply Keeps.get_bind
  intro look
  split
  · refine Keeps.bind ?_ fun _ => .ite (undisturbed.keeps_discard child) ?_
    · exact keeps_placed_modifyContext (fun kin => { kin with parent := none }) (fun _ => rfl)
        (fun _ => rfl) fun _ _ => rfl
    · exact keeps_placed_modifyOwn fun _ => rfl
  · exact .pure ()

theorem keeps_disownAll (children : List ContextId) :
    Keeps (Placed place id) (disownAll children) := by
  induction children with
  | nil => exact .pure ()
  | cons child rest ih => exact (undisturbed.keeps_disown child).bind fun _ => ih

theorem keeps_settle (other : ContextId) (parent : Option ContextId) :
    Keeps (Placed place id) (settle other parent) := by
  apply Keeps.get_bind
  intro look
  refine .ite (Keeps.bind (keeps_placed_modifyOwn fun _ => rfl) fun _ => ?_) ?_
  · exact undisturbed.keeps_discard other
  · cases parent with
    | none => exact .pure ()
    | some parent => exact undisturbed.keeps_wakeParent parent other

/-- What is left of the end of a context once it is marked as ended. -/
theorem keeps_restOfEnd (apart : other = id → ∀ {state queue}, place state queue → AtEnd state)
    (status : ExitStatus) (released : Nat) (context : Context) :
    Keeps (Placed place id) (do
      dequeue other
      count fun counters => { counters with exits := counters.exits + 1 }
      note (.terminated other status released)
      disownAll context.children.toList
      settle other context.parent) :=
  (undisturbed.keeps_dequeue apart).bind fun _ =>
    Keeps.bind (keeps_placed_modifyOwn fun _ => rfl) fun _ =>
      (discreet_note other _).keeps_placed.bind fun _ =>
        (undisturbed.keeps_disownAll _).bind fun _ => undisturbed.keeps_settle other _

/-- **The end of a context does not disturb the others**, nor itself. -/
theorem keeps_terminate (other : ContextId) (status : ExitStatus) :
    Keeps (Placed place id) (terminate other status) := by
  intro origin placed
  apply Halts.bind ((halts_release placed.uniform other).mono
    (fun _ _ given => placed.of_kindred given.1.toKindred)
    fun _ _ refused => placed.of_kindred (refused.hushed 0).toKindred)
  intro released freed placed
  apply Halts.bind ((discreet_contextOf other other).keeps_placed freed placed)
  intro context found placed
  have ends : Halts (fun _ => Placed place id)
      (fun _ after => Placed place id after ∧ (other = id →
        Placed (fun state queue => AtEnd state ∧ place state queue) id after))
      (modifyContext other (fun context => { context.terminate status with children := ∅ })
        found) := by
    apply (halts_markEnded placed.uniform other status).mono
    · rintro _ after ⟨altered, -⟩
      by_cases mine : other = id
      · have known := placed.toKnown.of_altered altered
        have finished := placed.of_ended undisturbed known (congrArg Supervisor.ready altered.own)
          fun state found => by
            obtain ⟨kin, there, rfl⟩ := Option.map_eq_some_iff.mp found
            obtain ⟨before, -, rfl⟩ := altered.of_found there
            rw [if_pos mine]
        exact ⟨finished.mono fun stands => stands.2, fun _ => finished⟩
      · exact ⟨placed.of_altered altered fun same => absurd same mine,
          fun same => absurd same mine⟩
    · exact fun _ _ refused => placed.of_kindred (refused.hushed 0).toKindred
  apply ends.bind
  rintro _ ended ⟨placed, finished⟩
  by_cases mine : other = id
  · exact (undisturbed.ended.keeps_restOfEnd (fun _ _ _ stands => stands.1) status released context
      ended (finished mine)).mono (fun _ _ given => given.mono fun stands => stands.2)
      fun _ _ given => given.mono fun stands => stands.2
  · exact undisturbed.keeps_restOfEnd (fun same => absurd same mine) status released context ended
      placed

theorem keeps_reap (other : ContextId) : Keeps (Placed place id) (reap other) := by
  refine (keeps_requireOwned other).bind fun _ => (keeps_contextOf other).bind fun context => ?_
  exact .ite ((undisturbed.keeps_discard other).bind fun _ => .pure _) (.pure _)

/-- A copy is put at the back of the queue. -/
theorem keeps_fork (other : ContextId) : Keeps (Placed place id) (serveFork other) := by
  intro origin placed
  apply Halts.bind ((halts_fork placed.uniform other (placed.young other)).mono
    (fun _ _ given => given) fun _ _ refused => placed.of_kindred (refused.hushed 0).toKindred)
  intro answer forked given
  cases answer with
  | none =>
      exact ((discreet_note other _).keeps_placed.bind fun _ => .pure _) forked
        (placed.of_kindred (given other).toKindred)
  | some child =>
      have different : child ≠ id := given.1.fresh placed.known
      have begins : Keeps (Placed place id) (do
          count fun counters => { counters with forks := counters.forks + 1 }
          modifyOwn fun own => { own with owned := own.owned.insert child }
          modifyContext child fun context =>
            (context.withRegister Register.a0 0).withPc (context.hart.pc + 4)
          makeReady child
          note (.forked other child)
          return Outcome.answer (Int64.ofNat child)) := by
        refine Keeps.bind (keeps_placed_modifyOwn fun _ => rfl) fun _ => ?_
        refine Keeps.bind (keeps_placed_modifyOwn fun _ => rfl) fun _ => ?_
        refine Keeps.bind (keeps_placed_modifyContext (fun kin => kin) (fun _ => rfl)
          (fun _ => rfl) fun _ _ => rfl) fun _ => ?_
        refine (undisturbed.keeps_makeReady different).bind fun _ => ?_
        exact (discreet_note other _).keeps_placed.bind fun _ => .pure _
      exact begins forked (placed.of_born given.1)

/-- **System calls do not disturb**, whoever makes them. -/
theorem upheldByCalls (caller : ContextId) : UpheldByCalls caller (Placed place id) :=
  .of_discreet (fun discreet => discreet.keeps_placed)
    (fun child => keeps_kill fun _ _ _ => undisturbed.keeps_terminate child _)
    undisturbed.keeps_reap (undisturbed.keeps_fork caller)

/-- **Whatever is done on behalf of another context does not disturb.** -/
theorem upheld (different : caller ≠ id) : Upheld caller (Placed place id) :=
  .of_discreet (fun discreet => discreet.keeps_placed) (undisturbed.upheldByCalls caller)
    (fun _ => keeps_placed_setState different _) (undisturbed.keeps_makeReady different)
    (undisturbed.keeps_park different) (undisturbed.keeps_terminate caller)

end Undisturbed

/-! ## Waiting -/

/-- A context is ready, and has a place in the queue with fewer than so many others before it. -/
structure InPlace (bound : Nat) (id : ContextId) (hypervisor : Hypervisor) : Prop where
  ready : ∃ kin, hypervisor.kin id = some kin ∧ kin.state = .ready
  place : ∃ front back, hypervisor.own.ready = front ++ id :: back ∧ front.length < bound

/-- A context is ready and has a place in the queue with fewer than so many others before it, or it
has ended. -/
def InLine (bound : Nat) (id : ContextId) (state : Option ContextState) (queue : List ContextId) :
    Prop :=
  (state = some .ready ∧ ∃ front back, queue = front ++ id :: back ∧ front.length < bound) ∨
    AtEnd state

theorem undisturbed_inLine (bound : Nat) (id : ContextId) : Undisturbed id (InLine bound id) where
  join different stands := stands.imp_left fun ⟨ready, front, back, queue, before⟩ =>
    ⟨ready, front, back ++ [_], by rw [queue, List.append_assoc]; rfl, before⟩
  leave {state queue other} different stands := by
    refine stands.imp_left fun ⟨ready, front, back, queue, before⟩ => ⟨ready, ?_⟩
    refine ⟨front.filter (· != other), back.filter (· != other), ?_, ?_⟩
    · rw [queue, List.filter_append, List.filter_cons, if_pos (bne_iff_ne.mpr different.symm)]
    · exact (List.length_filter_le ..).trans_lt before
  asleep stands := by
    rcases stands with ⟨ready, -⟩ | ended
    · rw [Option.some.inj ready]
      rfl
    · rw [ended _ rfl]
      rfl
  finish _ ended := .inr ended
  away _ ended := .inr ended

/-- A context is in its place, or it has ended. -/
abbrev Patient (bound : Nat) (id : ContextId) : Hypervisor → Prop := Placed (InLine bound id) id

theorem InPlace.patient (inPlace : InPlace bound id origin) (known : Known id origin) :
    Patient bound id origin :=
  ⟨known, .inl ⟨Option.map_eq_some_iff.mpr inPlace.ready, inPlace.place⟩⟩

theorem Placed.waits (patient : Patient bound id origin) :
    InPlace bound id origin ∨ ∀ kin, origin.kin id = some kin → kin.state = .exited :=
  patient.stands.imp (fun stands => ⟨Option.map_eq_some_iff.mp stands.1, stands.2⟩)
    fun ended kin found => ended kin.state (congrArg (Option.map Kin.state) found)

/-- **Whatever is done on behalf of another context, a context keeps its place or moves up.** -/
theorem upheld_patient (different : caller ≠ id) : Upheld caller (Patient bound id) :=
  (undisturbed_inLine bound id).upheld different

end NestedMachine.Hypervisor
