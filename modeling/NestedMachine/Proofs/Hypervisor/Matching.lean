import NestedMachine.Proofs.Hypervisor.Levels
import NestedMachine.Proofs.Machine.Matching

/-!
# Hypervisors that differ in counters, journals and queues

Two hypervisors match if they keep the same record, apart from their queues and from what they have
counted as levels, over uniform machines whose interpreters match (`Hypervisor.Matched`).  How their
queues compare is a parameter: they may be the same, the same apart from one context, or have
nothing in common (`QueueView`).

To serve contexts, a hypervisor does no more with its queue than to let contexts join it or leave
it.  So services follow each other whichever way queues are compared (`respectsService_matching`),
and system calls do (`respectsCalls_matching`).
-/

namespace NestedMachine

set_option autoImplicit false

variable {α : Type}

/-! ## Comparing queues -/

/-- A comparison of queues that is kept when the same context joins both or leaves both. -/
structure QueueView where
  same : List ContextId → List ContextId → Prop
  refl : ∀ queue, same queue queue
  symm : ∀ {first second}, same first second → same second first
  trans : ∀ {first second third}, same first second → same second third → same first third
  join : ∀ {left right} id, same left right →
    same (Hypervisor.joined id left) (Hypervisor.joined id right)
  leave : ∀ {left right} (id : ContextId), same left right →
    same (left.filter (· != id)) (right.filter (· != id))

namespace QueueView

/-- Queues that are the same. -/
def equal : QueueView where
  same := Eq
  refl _ := rfl
  symm := Eq.symm
  trans := Eq.trans
  join id same := congrArg (Hypervisor.joined id) same
  leave id same := congrArg (List.filter (· != id)) same

/-- Queues that need have nothing in common. -/
def any : QueueView where
  same _ _ := True
  refl _ := trivial
  symm _ := trivial
  trans _ _ := trivial
  join _ _ := trivial
  leave _ _ := trivial

/-- Who joins a queue does so behind the others, or stays where it is. -/
theorem filter_joined (id other : ContextId) (queue : List ContextId) :
    (Hypervisor.joined other queue).filter (· != id) =
      if other = id then queue.filter (· != id)
      else Hypervisor.joined other (queue.filter (· != id)) := by
  unfold Hypervisor.joined
  by_cases mine : other = id
  · subst mine
    rw [if_pos rfl]
    split
    · rfl
    · rw [List.filter_append, List.filter_singleton]
      simp
  · have kept : (queue.filter (· != id)).contains other = queue.contains other := by
      simp [List.contains_eq_mem, mine]
    rw [if_neg mine, kept]
    split
    · rfl
    · rw [List.filter_append, List.filter_singleton, bne_iff_ne.mpr mine]
      rfl

/-- Queues that are the same apart from one context. -/
def apartFrom (id : ContextId) : QueueView where
  same left right := left.filter (· != id) = right.filter (· != id)
  refl _ := rfl
  symm := Eq.symm
  trans := Eq.trans
  join other same := by
    rw [filter_joined, filter_joined, same]
  leave other same := by
    rw [List.filter_comm, same, List.filter_comm]

end QueueView

namespace Hypervisor

variable {queues : QueueView} {left middle right : Hypervisor} {same : α → α → Prop}

/-! ## Hypervisors that match -/

/-- Hypervisors that keep the same record, apart from their queues and from what they are for the
level above, over uniform machines whose interpreters match. -/
structure Matched (queues : QueueView) (left right : Hypervisor) : Prop where
  own : right.own = { left.own with ready := right.own.ready, relay := right.own.relay }
  queues : queues.same left.own.ready right.own.ready
  interpreter : left.machine.interpreter.Matches right.machine.interpreter
  leftUniform : left.machine.Uniform
  rightUniform : right.machine.Uniform

namespace Matched

theorem refl (queues : QueueView) {hypervisor : Hypervisor} (uniform : hypervisor.machine.Uniform) :
    Matched queues hypervisor hypervisor :=
  ⟨rfl, queues.refl _, .refl _, uniform, uniform⟩

theorem symm (states : Matched queues left right) : Matched queues right left where
  own := by rw [states.own]
  queues := queues.symm states.queues
  interpreter := states.interpreter.symm
  leftUniform := states.rightUniform
  rightUniform := states.leftUniform

theorem trans (here : Matched queues left middle) (there : Matched queues middle right) :
    Matched queues left right where
  own := there.own.trans (by rw [here.own])
  queues := queues.trans here.queues there.queues
  interpreter := here.interpreter.trans there.interpreter
  leftUniform := here.leftUniform
  rightUniform := there.rightUniform

/-- Whatever is left of the comparison if queues do not matter. -/
theorem any (states : Matched queues left right) : Matched .any left right :=
  ⟨states.own, trivial, states.interpreter, states.leftUniform, states.rightUniform⟩

theorem host (states : Matched queues left right) : right.own.host = left.own.host :=
  (congrArg Supervisor.host states.own :)

theorem recording (states : Matched queues left right) :
    right.own.recording = left.own.recording :=
  (congrArg Supervisor.recording states.own :)

theorem mode (states : Matched queues left right) : right.own.mode = left.own.mode :=
  (congrArg Supervisor.mode states.own :)

theorem quantum (states : Matched queues left right) : right.own.quantum = left.own.quantum :=
  (congrArg Supervisor.quantum states.own :)

theorem looks (states : Matched queues left right) : left.own.LooksLike right.own := by
  unfold Supervisor.LooksLike
  rw [states.host, states.recording, states.mode, states.quantum]
  exact states.own

theorem context? (states : Matched queues left right) (id : ContextId) :
    left.machine.context? id = right.machine.context? id := by
  rw [states.leftUniform.context?, states.rightUniform.context?]
  exact states.interpreter.contexts id

theorem alike (states : Matched queues left right) : Alike left right := by
  refine ⟨states.looks, fun id => ?_⟩
  rw [states.context? id]
  exact (Alike.refl right).context id

/-- What two records have in common that have changed alike. -/
theorem change (states : Matched queues left right) {change : Supervisor → Supervisor}
    (own : change right.own = { change left.own with
      ready := (change right.own).ready, relay := (change right.own).relay })
    (compare : queues.same (change left.own).ready (change right.own).ready) :
    Matched queues { left with own := change left.own }
      { right with own := change right.own } :=
  ⟨own, compare, states.interpreter, states.leftUniform, states.rightUniform⟩

/-- Journals do not matter. -/
theorem journals (states : Matched queues left right) (journal journal' : Journal) :
    Matched queues
      { left with machine := ⟨left.machine.relays, { left.machine.interpreter with journal }⟩ }
      { right with
        machine := ⟨right.machine.relays, { right.machine.interpreter with journal := journal' }⟩ }
    where
  own := states.own
  queues := states.queues
  interpreter := states.interpreter.journals journal journal'
  leftUniform := states.leftUniform.congr rfl fun _ => rfl
  rightUniform := states.rightUniform.congr rfl fun _ => rfl

end Matched

/-- The comparison of hypervisors that match. -/
def matching (queues : QueueView) : Pursuit HostError Hypervisor Hypervisor :=
  .evenly (Matched queues)

/-! ## Primitive operations -/

/-- Requests that levels pass on are followed if the interpreters agree. -/
theorem agree_below {action action' : MachineAction α} {request request' : InterpreterAction α}
    (transparent : left.machine.Transparent action request)
    (transparent' : right.machine.Transparent action' request')
    (own : right.own = { left.own with ready := right.own.ready, relay := right.own.relay })
    (ready : queues.same left.own.ready right.own.ready)
    (agree : Agree (fun _ => False) Interpreter.Matches same (request left.machine.interpreter)
      (request' right.machine.interpreter)) :
    Agree (fun _ => False) (Matched queues) same (below action left) (below action' right) := by
  obtain ⟨leftMachine, leftOwn⟩ := left
  obtain ⟨rightMachine, rightOwn⟩ := right
  obtain ⟨relays, passed, uniform⟩ := transparent
  obtain ⟨relays', passed', uniform'⟩ := transparent'
  simp only [below, passed, passed']
  generalize request leftMachine.interpreter = first at agree uniform
  generalize request' rightMachine.interpreter = second at agree uniform'
  cases agree with
  | answer alike found => exact .answer alike ⟨own, ready, found, uniform, uniform'⟩
  | failure found => exact .failure ⟨own, ready, found, uniform, uniform'⟩
  | excuse reason => exact reason.elim

theorem follows_below_matching {action : MachineAction α} {request : InterpreterAction α}
    (transparent : ∀ machine : Machine, machine.Uniform → machine.Transparent action request)
    (agrees : Agrees (fun _ => False) Interpreter.Matches Eq request request) :
    (matching queues).Follows Eq (below action) (below action) :=
  Pursuit.follows_evenly fun _ _ states =>
    agree_below (transparent _ states.leftUniform) (transparent _ states.rightUniform) states.own
      states.queues (agrees _ _ states.interpreter)

theorem follows_onMemory_matching {action : MemoryAction α}
    (agrees : Agrees (fun _ => False) (Memory.SameBut .any) Eq action action) (id : ContextId) :
    (matching queues).Follows Eq (onMemory id action) (onMemory id action) := by
  refine Pursuit.follows_evenly ?_
  rintro ⟨left, leftOwn⟩ ⟨right, rightOwn⟩ states
  have access := Interpreter.withMemory_matching agrees id states.interpreter
  have uniform : Machine.Uniform ⟨left.relays, (left.interpreter.withMemory id action).2⟩ :=
    states.leftUniform.congr rfl (Machine.contains_withMemory left.interpreter id action)
  have uniform' : Machine.Uniform ⟨right.relays, (right.interpreter.withMemory id action).2⟩ :=
    states.rightUniform.congr rfl (Machine.contains_withMemory right.interpreter id action)
  simp only [onMemory, Machine.Uniform.withMemory states.leftUniform,
    Machine.Uniform.withMemory states.rightUniform]
  dsimp only at access
  rw [← access.1]
  cases (left.interpreter.withMemory id action).1 with
  | none => exact .failure ⟨states.own, states.queues, access.2, uniform, uniform'⟩
  | some answer => exact .answer rfl ⟨states.own, states.queues, access.2, uniform, uniform'⟩

theorem follows_onCallerMemory_matching (id : ContextId) (call : Call) {action : MemoryAction α}
    (congruent : Memory.Congruent action) :
    (matching queues).Follows Eq (onCallerMemory id call action)
      (onCallerMemory id call action) := by
  refine (follows_onMemory_matching (congruent.agrees (Memory.respected_sameBut .any)) id).bind_eq
    fun answer => ?_
  split
  · exact .throw _
  · exact .pure rfl

theorem follows_modifyContext_matching (id : ContextId) (change : Context → Context) :
    (matching queues).Follows Eq (modifyContext id change) (modifyContext id change) := by
  apply Pursuit.follows_evenly
  intro left right states
  rw [modifyContext_apply, modifyContext_apply, states.context? id]
  cases found : right.machine.context? id with
  | none => exact .failure states
  | some context =>
      rw [states.rightUniform.context?] at found
      have found' := (states.interpreter.contexts id).trans found
      have there (interpreter : Interpreter) (other : ContextId) :
          (interpreter.modifyContext id change).contexts.contains other =
            interpreter.contexts.contains other := Std.TreeMap.contains_modify
      rw [states.leftUniform.modifyContext found', states.rightUniform.modifyContext found]
      exact .answer rfl ⟨states.own, states.queues, states.interpreter.modifyContext id change,
        states.leftUniform.congr rfl (there _), states.rightUniform.congr rfl (there _)⟩

theorem follows_modifyOwn_matching {change : Supervisor → Supervisor}
    (clerical : Supervisor.Clerical change) :
    (matching queues).Follows Eq (modifyOwn change) (modifyOwn change) := by
  refine .modify (fun _ _ => trivial) fun left right states => ?_
  refine states.change ?_ ?_
  · rw [states.looks.changed clerical, states.host, states.recording, states.mode, states.quantum,
      ← clerical.host left.own, ← clerical.recording left.own, ← clerical.mode left.own,
      ← clerical.quantum left.own]
  · rw [clerical.ready, clerical.ready]
    exact states.queues

theorem follows_rearrange_matching {change : List ContextId → List ContextId}
    (keeps : ∀ {left right}, queues.same left right → queues.same (change left) (change right)) :
    (matching queues).Follows Eq (rearrange change) (rearrange change) := by
  refine .modify (fun _ _ => trivial) fun left right states => ?_
  have same := congrArg (fun own : Supervisor => { own with ready := change right.own.ready })
    states.own
  exact ⟨same, keeps states.queues, states.interpreter, states.leftUniform, states.rightUniform⟩

theorem follows_note_matching (happening other : Note) :
    (matching queues).Follows Eq (note happening) (note other) :=
  .modify (fun _ _ => trivial) fun _ _ states => states.journals _ _

/-- **The services of hypervisors that match follow each other**, whichever way queues are
compared. -/
theorem respectsService_matching (queues : QueueView) :
    RespectsService (matching queues) fun _ _ => True where
  looks _ _ states := states.alike
  refl _ := trivial
  switched _ _ _ _ := trivial
  note _ := follows_note_matching _ _
  modifyOwn := follows_modifyOwn_matching
  join id := follows_rearrange_matching (queues.join id)
  dequeue id := follows_rearrange_matching (queues.leave id)
  modifyContext id _ _ := follows_modifyContext_matching id _
  destroy id := follows_below_matching (fun _ uniform => uniform.destroy id)
    (Interpreter.agrees_destroy_matching id)
  switch id quantum := follows_below_matching (fun _ uniform => uniform.switch id quantum)
    (Interpreter.agrees_switch_matching id quantum)
  release id := (follows_below_matching (fun _ uniform => uniform.release id)
    (Interpreter.agrees_release_matching id)).weaken fun _ _ _ _ => trivial
  fork id := (follows_below_matching (fun _ uniform => uniform.fork id)
    (Interpreter.agrees_fork_matching id)).unless
  requestBreak id requested :=
    (follows_onMemory_matching (agrees_requestBreak requested) id).unless
  callerMemory id call _ congruent := follows_onCallerMemory_matching id call congruent

/-! ## Hosts and recordings -/

theorem follows_askHost_matching (request : Host → HostAnswer α) :
    (matching queues).Follows Eq (askHost request) (askHost request) := by
  refine Pursuit.follows_evenly ?_
  rintro ⟨⟨relays, left⟩, own⟩ ⟨⟨relays', right⟩, own'⟩ states
  have host : own'.host = own.host := states.host
  unfold askHost
  dsimp only
  rw [host]
  have same := congrArg (fun record : Supervisor => { record with host := (request own.host).host })
    states.own
  exact .answer rfl ⟨same, states.queues, states.interpreter.journals _ _,
    states.leftUniform.congr rfl fun _ => rfl, states.rightUniform.congr rfl fun _ => rfl⟩

theorem follows_changeRecording_matching (change : Recording → Recording) :
    (matching queues).Follows Eq (changeRecording change) (changeRecording change) := by
  refine .modify (fun _ _ => trivial) fun left right states => ?_
  have same := congrArg (fun own : Supervisor =>
    { own with recording := change right.own.recording }) states.own
  rw [states.recording] at same
  refine ⟨?_, states.queues, states.interpreter, states.leftUniform, states.rightUniform⟩
  dsimp only
  rw [states.recording]
  exact same

/-- **System calls of hypervisors that match follow each other.** -/
theorem respectsCalls_matching (queues : QueueView) :
    RespectsCalls (matching queues) fun _ _ => True where
  toRespectsService := respectsService_matching queues
  recording _ _ states := states.recording.symm
  askHost := follows_askHost_matching
  changeRecording := follows_changeRecording_matching

end Hypervisor

end NestedMachine
