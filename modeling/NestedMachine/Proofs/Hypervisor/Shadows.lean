import NestedMachine.Proofs.Hypervisor.Levels
import NestedMachine.Proofs.Machine.Covers

/-!
# Hypervisors that shadow each other

One hypervisor shadows another if both keep the same record, apart from their hosts and from what
they record, over machines of which the first covers the second (`Shadows`).  What recordings and
hosts have to do with each other, how memory modes compare, and which errors besides a lack of
frames end the comparison, is left open: it is the matter of a pairing (`Pairing`).

The covered machine runs out of frames no later, so that it can do whatever the covering one does.
The one thing that it may do otherwise is to grant a fork or a program break that the covering one
refuses for lack of frames.  Such a refusal is noted.  So the comparison is made as long as the
journal of the first machine tells of none (`Journal.Untroubled`); since a journal only grows, what
it tells once is told for ever.

With this, every primitive operation of a hypervisor is followed by that of its shadow
(`respects_shadowing`).
-/

namespace NestedMachine

set_option autoImplicit false

variable {α : Type}

/-! ## Journals that tell of no lack of frames -/

/-- Whether a note tells that a request was refused for lack of frames. -/
def Note.tellsShortage : Note → Bool
  | .forkRefused _ => true
  | .breakRefused _ fault => fault == .outOfFrames
  | _ => false

namespace Journal

/-- Whether a journal tells that a request was refused for lack of frames. -/
def tellsShortage (journal : Journal) : Bool :=
  journal.entries.any fun
    | .note note => note.tellsShortage
    | .guest _ => false

/-- A journal that would tell of a lack of frames and does not. -/
structure Untroubled (journal : Journal) : Prop where
  listens : journal.threshold.passes .debug = true
  quiet : ∀ note, .note note ∈ journal.entries → note.tellsShortage = false

theorem untroubled_of_quiet {journal : Journal} (listens : journal.threshold = some .debug)
    (quiet : journal.tellsShortage = false) : journal.Untroubled := by
  refine ⟨?_, fun note member => ?_⟩
  · rw [listens]
    rfl
  · have silent := Array.any_eq_false'.mp quiet (.note note) member
    simpa using silent

/-- A journal that has become another one. -/
def Continues (base journal : Journal) : Prop :=
  ∃ entries : List JournalEntry, journal = entries.foldl addEntry base

theorem Continues.refl (journal : Journal) : Continues journal journal := ⟨[], rfl⟩

theorem Continues.add (journal : Journal) (note : Note) : Continues journal (journal.add note) :=
  ⟨[.note note], rfl⟩

theorem untroubled_of_addEntry {journal : Journal} {entry : JournalEntry}
    (later : (journal.addEntry entry).Untroubled) : journal.Untroubled := by
  obtain ⟨listens, quiet⟩ := later
  cases entry with
  | guest bytes =>
      exact ⟨listens, fun note member => quiet note (Array.mem_push_of_mem _ member)⟩
  | note happening =>
      unfold addEntry add at listens quiet
      dsimp only at listens quiet
      split at quiet
      · rename_i passes
        rw [if_pos passes] at listens
        exact ⟨listens, fun note member => quiet note (Array.mem_push_of_mem _ member)⟩
      · rename_i stopped
        rw [if_neg stopped] at listens
        exact ⟨listens, quiet⟩

/-- **What a journal has told is told for ever.** -/
theorem Continues.untroubled {base journal : Journal} (continues : Continues base journal)
    (later : journal.Untroubled) : base.Untroubled := by
  obtain ⟨entries, rfl⟩ := continues
  induction entries generalizing base with
  | nil => exact later
  | cons entry rest ih => exact untroubled_of_addEntry (ih later)

/-- A journal that listens tells of a refusal. -/
theorem not_untroubled_add {note : Note} (tells : note.tellsShortage = true) (journal : Journal) :
    ¬(journal.add note).Untroubled := by
  intro untroubled
  obtain ⟨listens, -⟩ := (Continues.add journal note).untroubled untroubled
  have loud : note.severity.rank ≤ Severity.rank .debug := by
    cases note with
    | forkRefused => exact Nat.le_of_ble_eq_true rfl
    | breakRefused => exact Nat.le_refl _
    | _ => cases tells
  have passes : journal.threshold.passes note.severity = true := by
    generalize journal.threshold = threshold at listens
    cases threshold with
    | none => cases listens
    | some least =>
        simp only [Threshold.passes, decide_eq_true_eq] at listens ⊢
        exact loud.trans listens
  unfold add at untroubled
  rw [if_pos passes] at untroubled
  have silent := untroubled.quiet note (Array.mem_push_self ..)
  rw [tells] at silent
  cases silent

end Journal

/-! ## The journal of a machine only grows -/

/-- An operation that does not look at the journal only adds to it. -/
theorem Interpreter.continues_of_agrees {request : InterpreterAction α}
    (agrees : ∀ view, Agrees (fun _ => False) (Interpreter.SameBut view) Eq request request)
    (machine : Interpreter) : machine.journal.Continues (finalState (request machine)).journal := by
  have start : Interpreter.SameBut (.continuing machine.journal) machine machine :=
    .mk machine ⟨rfl, [], rfl⟩
  have outcome := agrees (.continuing machine.journal) machine machine start
  generalize request machine = result at outcome
  cases outcome with
  | answer same states => exact states.journal.2
  | failure states => exact states.journal.2
  | excuse reason => exact reason.elim

/-- A request that is passed down only adds to the journal. -/
theorem Machine.continues_pass (passage : Passage α) {request : InterpreterAction α}
    (agrees : ∀ view, Agrees (fun _ => False) (Interpreter.SameBut view) Eq request request)
    (machine : Machine) : machine.interpreter.journal.Continues
      (finalState (Machine.pass passage request machine)).interpreter.journal := by
  have requested : Halts (fun _ after => machine.interpreter.journal.Continues after.journal)
      (fun _ after => machine.interpreter.journal.Continues after.journal)
      (request machine.interpreter) :=
    .of_finalState (Interpreter.continues_of_agrees agrees machine.interpreter)
  have refused (relay : Relay) (error : HostError) (_ : passage.enter relay = .error error) :
      machine.interpreter.journal.Continues machine.interpreter.journal := .refl _
  exact (Machine.halts_pass refused requested machine.relays).left

/-- An access to memory only adds to the journal. -/
theorem Machine.continues_withMemory {action : MemoryAction α}
    (agrees : ∀ view, Agrees (fun _ => False) (Memory.SameBut view) Eq action action)
    (id : ContextId) (machine : Machine) : machine.interpreter.journal.Continues
      (machine.withMemory id action).2.interpreter.journal := by
  unfold Machine.withMemory
  split
  · obtain ⟨relays, interpreter⟩ := machine
    have start : Interpreter.SameBut (.continuing interpreter.journal) interpreter interpreter :=
      .mk interpreter ⟨rfl, [], rfl⟩
    have states := (Interpreter.sameBut_withMemory _ (agrees (.continuing interpreter.journal)) id
      start).2
    exact states.journal.2
  · exact .refl _

/-- Records that differ only in the host, in what is recorded, and in memory modes that compare. -/
structure Supervisor.AlikeUpTo (modes : ModeView) (left right : Supervisor) : Prop where
  looks : left.LooksLike right
  mode : modes.alike left.mode right.mode
  quantum : left.quantum = right.quantum
  ready : left.ready = right.ready
  relay : left.relay = right.relay

theorem Supervisor.AlikeUpTo.alike {left right : Supervisor}
    (alike : AlikeUpTo .same left right) : left.Alike right := by
  have looks := alike.looks
  unfold LooksLike at looks
  rw [← show left.mode = right.mode from alike.mode, ← alike.quantum, ← alike.ready,
    ← alike.relay] at looks
  exact looks

theorem Supervisor.AlikeUpTo.change {modes : ModeView} {left right : Supervisor}
    (alike : AlikeUpTo modes left right) {change : Supervisor → Supervisor}
    (clerical : Clerical change) : AlikeUpTo modes (change left) (change right) := by
  refine ⟨alike.looks.change clerical, ?_, ?_, ?_, alike.looks.relay clerical alike.relay⟩
  · rw [clerical.mode, clerical.mode]
    exact alike.mode
  · rw [clerical.quantum, clerical.quantum]
    exact alike.quantum
  · rw [clerical.ready, clerical.ready]
    exact alike.ready

namespace Hypervisor

/-! ## Hypervisors over machines that show the same -/

/-- Hypervisors with the same record, apart from their hosts, recordings and modes, over machines of
which the first covers the second. -/
structure Shadows (modes : ModeView) (capacity : Nat) (left right : Hypervisor) : Prop where
  own : left.own.AlikeUpTo modes right.own
  interpreter : Interpreter.Covers modes capacity left.machine.interpreter right.machine.interpreter
  leftUniform : left.machine.Uniform
  rightUniform : right.machine.Uniform

/-- How the modes, hosts and recordings of two hypervisors go together, which recordings of the
first are as they should be, and which of its errors end the comparison: a lack of frames does. -/
structure Pairing where
  modes : ModeView
  paired : Host → Host → Recording → Recording → Prop
  intact : Recording → Prop
  forgiven : HostError → Prop
  exhausted : ∀ error, error.IsExhaustion → forgiven error

/-- The comparison of a hypervisor with its shadow. -/
def shadowing (capacity : Nat) (pairing : Pairing) : Pursuit HostError Hypervisor Hypervisor where
  related left right := Shadows pairing.modes capacity left right ∧
    pairing.paired left.own.host right.own.host left.own.recording right.own.recording
  future state := state.machine.interpreter.journal.Untroubled ∧ pairing.intact state.own.recording
  excused error state := pairing.forgiven error ∨
    ¬(state.machine.interpreter.journal.Untroubled ∧ pairing.intact state.own.recording)
  hopeless _ lost _ := .inr lost

namespace Shadows

variable {modes : ModeView} {capacity : Nat} {left right : Hypervisor}

theorem alike (shadows : Shadows modes capacity left right) : Alike left right := by
  refine ⟨shadows.own.looks, ?_⟩
  intro id
  have shown := shadows.interpreter.contexts id
  rw [shadows.leftUniform.context?, shadows.rightUniform.context?]
  show Option.Rel _ left.machine.interpreter.contexts[id]? right.machine.interpreter.contexts[id]?
  generalize left.machine.interpreter.contexts[id]? = first at shown
  generalize right.machine.interpreter.contexts[id]? = second at shown
  cases shown with
  | none => exact .none
  | some shows => exact .some shows.alike

/-- Journals and the records that levels keep do not matter. -/
theorem journals (shadows : Shadows modes capacity left right) (journal journal' : Journal) :
    Shadows modes capacity
      { left with machine := ⟨left.machine.relays, { left.machine.interpreter with journal }⟩ }
      { right with
        machine := ⟨right.machine.relays, { right.machine.interpreter with journal := journal' }⟩ }
    where
  own := shadows.own
  interpreter := shadows.interpreter.journals journal journal'
  leftUniform := shadows.leftUniform.congr rfl fun _ => rfl
  rightUniform := shadows.rightUniform.congr rfl fun _ => rfl

/-- Hosts and recordings do not matter. -/
theorem equip (shadows : Shadows modes capacity left right) (host : Host) (recording : Recording)
    (host' : Host) (recording' : Recording) :
    Shadows modes capacity { left with own := { left.own with host, recording } }
      { right with own := { right.own with host := host', recording := recording' } } where
  own := by
    have same := congrArg (fun own : Supervisor =>
      { own with host := host', recording := recording' }) shadows.own.looks
    exact ⟨same, shadows.own.mode, shadows.own.quantum, shadows.own.ready, shadows.own.relay⟩
  interpreter := shadows.interpreter
  leftUniform := shadows.leftUniform
  rightUniform := shadows.rightUniform

end Shadows

section Primitive

variable {capacity : Nat} {pairing : Pairing}

/-- An action that keeps the recording and only adds to the journal loses nothing. -/
theorem irreversible_of_continues {action : HypervisorAction α}
    (recording : ∀ hypervisor,
      (finalState (action hypervisor)).own.recording = hypervisor.own.recording)
    (grows : ∀ hypervisor : Hypervisor, hypervisor.machine.interpreter.journal.Continues
      (finalState (action hypervisor)).machine.interpreter.journal) :
    (shadowing capacity pairing).Irreversible action := by
  intro hypervisor future
  obtain ⟨untroubled, intact⟩ := future
  rw [recording] at intact
  exact ⟨(grows hypervisor).untroubled untroubled, intact⟩

theorem irreversible_askHost (request : Host → HostAnswer α) :
    (shadowing capacity pairing).Irreversible (askHost request) :=
  irreversible_of_continues (fun _ => rfl) fun _ => ⟨_, rfl⟩

/-! ### Requests to the machine below -/

theorem irreversible_pass (passage : Passage α) {request : InterpreterAction α}
    (agrees : ∀ view, Agrees (fun _ => False) (Interpreter.SameBut view) Eq request request) :
    (shadowing capacity pairing).Irreversible (below (Machine.pass passage request)) := by
  have after (hypervisor : Hypervisor) :
      finalState (below (Machine.pass passage request) hypervisor) =
        ⟨finalState (Machine.pass passage request hypervisor.machine), hypervisor.own⟩ := by
    obtain ⟨machine, own⟩ := hypervisor
    simp only [below]
    cases Machine.pass passage request machine <;> rfl
  refine irreversible_of_continues (fun hypervisor => ?_) fun hypervisor => ?_
  · rw [after]
  · rw [after]
    exact Machine.continues_pass passage agrees hypervisor.machine

/-- Requests that levels pass on are followed if the covered interpreter follows. -/
theorem follow_below {action action' : MachineAction α} {request request' : InterpreterAction α}
    {same : α → α → Prop}
    (transparent : ∀ machine : Machine, machine.Uniform → machine.Transparent action request)
    (transparent' : ∀ machine : Machine, machine.Uniform → machine.Transparent action' request')
    {left right : Hypervisor} (states : (shadowing capacity pairing).related left right)
    (agree : Agree HostError.IsExhaustion (Interpreter.Covers pairing.modes capacity) same
      (request left.machine.interpreter) (request' right.machine.interpreter)) :
    (shadowing capacity pairing).Follow same (below action left) (below action' right) := by
  obtain ⟨leftMachine, leftOwn⟩ := left
  obtain ⟨rightMachine, rightOwn⟩ := right
  obtain ⟨shadows, paired⟩ := states
  obtain ⟨relays, passed, uniform⟩ := transparent leftMachine shadows.leftUniform
  obtain ⟨relays', passed', uniform'⟩ := transparent' rightMachine shadows.rightUniform
  simp only [below, passed, passed']
  generalize request leftMachine.interpreter = first at agree uniform
  generalize request' rightMachine.interpreter = second at agree uniform'
  cases agree with
  | answer alike covers =>
      exact .answer alike ⟨⟨shadows.own, covers, uniform, uniform'⟩, paired⟩
  | failure covers => exact .failure ⟨⟨shadows.own, covers, uniform, uniform'⟩, paired⟩
  | excuse reason => exact .excuse (.inl (pairing.exhausted _ reason))

/-! ### Accesses to memory -/

theorem irreversible_onMemory {action : MemoryAction α}
    (agrees : ∀ view, Agrees (fun _ => False) (Memory.SameBut view) Eq action action)
    (id : ContextId) : (shadowing capacity pairing).Irreversible (onMemory id action) := by
  have after (hypervisor : Hypervisor) : finalState (onMemory id action hypervisor) =
      ⟨(hypervisor.machine.withMemory id action).2, hypervisor.own⟩ := by
    obtain ⟨machine, own⟩ := hypervisor
    simp only [onMemory]
    generalize machine.withMemory id action = result
    obtain ⟨answer, machine'⟩ := result
    cases answer <;> rfl
  refine irreversible_of_continues (fun hypervisor => ?_) fun hypervisor => ?_
  · rw [after]
  · rw [after]
    exact Machine.continues_withMemory agrees id hypervisor.machine

/-- **An access has the same answer in the shadow**, unless the answer is a special one. -/
theorem Shadows.onMemory {modes : ModeView} {left right : Hypervisor}
    (shadows : Shadows modes capacity left right) {action : MemoryAction α}
    {special : Except Fault α → Prop} (covered : Memory.CoveredUnless special action)
    (id : ContextId) :
    (∃ answer after, onMemory id action left = .ok answer after ∧ special answer) ∨
      Agree (fun _ => False) (fun after after' => Shadows modes capacity after after' ∧
          after.own = left.own ∧ after'.own = right.own) Eq
        (onMemory id action left) (onMemory id action right) := by
  obtain ⟨left, leftOwn⟩ := left
  obtain ⟨right, rightOwn⟩ := right
  have access := shadows.interpreter.withMemory covered id
  have uniform : Machine.Uniform ⟨left.relays, (left.interpreter.withMemory id action).2⟩ :=
    shadows.leftUniform.congr rfl (Machine.contains_withMemory left.interpreter id action)
  have uniform' : Machine.Uniform ⟨right.relays, (right.interpreter.withMemory id action).2⟩ :=
    shadows.rightUniform.congr rfl (Machine.contains_withMemory right.interpreter id action)
  simp only [Hypervisor.onMemory, Machine.Uniform.withMemory shadows.leftUniform,
    Machine.Uniform.withMemory shadows.rightUniform]
  rcases access with ⟨answer, found, named⟩ | ⟨same, covers⟩
  · dsimp only at found
    rw [found]
    exact .inl ⟨answer, _, rfl, named⟩
  · right
    dsimp only at same
    rw [← same]
    generalize (left.interpreter.withMemory id action).1 = answer
    cases answer with
    | none => exact .failure ⟨⟨shadows.own, covers, uniform, uniform'⟩, rfl, rfl⟩
    | some answer => exact .answer rfl ⟨⟨shadows.own, covers, uniform, uniform'⟩, rfl, rfl⟩

/-- **An access is followed**, unless its answer is a special one. -/
theorem followsUnless_onMemory {action : MemoryAction α} {special : Except Fault α → Prop}
    (agrees : ∀ view, Agrees (fun _ => False) (Memory.SameBut view) Eq action action)
    (covered : Memory.CoveredUnless special action) (id : ContextId) :
    (shadowing capacity pairing).FollowsUnless special (onMemory id action)
      (onMemory id action) := by
  refine ⟨irreversible_onMemory agrees id, ?_⟩
  intro left right states
  obtain ⟨shadows, paired⟩ := states
  rcases shadows.onMemory covered id with named | outcome
  · exact .inl named
  · right
    generalize onMemory id action left = result at outcome
    generalize onMemory id action right = result' at outcome
    cases outcome with
    | answer same states' =>
        obtain ⟨shadows', own, own'⟩ := states'
        exact .answer same ⟨shadows', by rwa [own, own']⟩
    | failure states' =>
        obtain ⟨shadows', own, own'⟩ := states'
        exact .failure ⟨shadows', by rwa [own, own']⟩
    | excuse reason => exact reason.elim

/-- A request to move the program break fails on the covering side only for lack of frames. -/
theorem coveredUnless_requestBreak (requested : Nat) :
    Memory.CoveredUnless (fun answer => ∃ current, answer = .ok (current, some .outOfFrames))
      (requestBreak requested) := by
  intro modes around around' room left right states
  have outcome := states.agree_setProgramBreak room requested
  unfold requestBreak
  rw [states.covers.layout]
  split
  · exact .inr (.answer rfl states)
  · generalize Memory.setProgramBreak requested left = result at outcome
    generalize Memory.setProgramBreak requested right = result' at outcome
    cases outcome with
    | answer same states' => exact .inr (.answer (by rw [same]) states')
    | failure states' => exact .inr (.answer rfl states')
    | excuse reason =>
        left
        rw [show _ = Fault.outOfFrames from reason]
        exact ⟨_, rfl⟩

/-! ### All together -/

/-- A refusal for lack of frames is told for ever. -/
theorem damning_of_tells {note : Note} (tells : note.tellsShortage = true) :
    Damning (shadowing capacity pairing) note :=
  fun hypervisor future =>
    Journal.not_untroubled_add tells hypervisor.machine.interpreter.journal future.1

theorem follows_note_shadowing (happening other : Note) :
    (shadowing capacity pairing).Follows Eq (note happening) (note other) := by
  refine .modify (fun hypervisor future => ?_) fun left right states => ?_
  · obtain ⟨untroubled, intact⟩ := future
    exact ⟨(Journal.Continues.add _ happening).untroubled untroubled, intact⟩
  · obtain ⟨shadows, paired⟩ := states
    exact ⟨shadows.journals _ _, paired⟩

theorem follows_modifyOwn_shadowing {change : Supervisor → Supervisor}
    (clerical : Supervisor.Clerical change) :
    (shadowing capacity pairing).Follows Eq (modifyOwn change) (modifyOwn change) := by
  refine .modify (fun hypervisor future => ?_) fun left right states => ?_
  · obtain ⟨untroubled, intact⟩ := future
    dsimp only at intact
    rw [clerical.recording] at intact
    exact ⟨untroubled, intact⟩
  · obtain ⟨shadows, paired⟩ := states
    refine ⟨⟨shadows.own.change clerical, shadows.interpreter, shadows.leftUniform,
      shadows.rightUniform⟩, ?_⟩
    dsimp only
    rw [clerical.host, clerical.host, clerical.recording, clerical.recording]
    exact paired

theorem follows_setMemoryMode_shadowing (mode : MemoryMode) :
    (shadowing capacity pairing).Follows Eq (setMemoryMode mode) (setMemoryMode mode) := by
  refine .modify (fun hypervisor future => future) fun left right states => ?_
  obtain ⟨shadows, paired⟩ := states
  have same := congrArg (fun own : Supervisor => { own with mode }) shadows.own.looks
  have alike : Supervisor.AlikeUpTo pairing.modes { left.own with mode } { right.own with mode } :=
    ⟨same, pairing.modes.refl mode, shadows.own.quantum, shadows.own.ready, shadows.own.relay⟩
  exact ⟨⟨alike, shadows.interpreter, shadows.leftUniform, shadows.rightUniform⟩, paired⟩

theorem follows_rearrange_shadowing (change : List ContextId → List ContextId) :
    (shadowing capacity pairing).Follows Eq (rearrange change) (rearrange change) := by
  refine .modify (fun hypervisor future => future) fun left right states => ?_
  obtain ⟨shadows, paired⟩ := states
  have same := congrArg (fun own : Supervisor => { own with ready := change own.ready })
    shadows.own.looks
  refine ⟨⟨⟨same, shadows.own.mode, shadows.own.quantum, ?_, shadows.own.relay⟩,
    shadows.interpreter, shadows.leftUniform, shadows.rightUniform⟩, paired⟩
  exact congrArg change shadows.own.ready

theorem follows_modifyContext_shadowing (id : ContextId) {change : Context → Context}
    (blind : Context.SpaceBlind change) :
    (shadowing capacity pairing).Follows Eq (modifyContext id change)
      (modifyContext id change) := by
  refine ⟨irreversible_of_continues (fun hypervisor => ?_) fun hypervisor => ?_,
    fun left right states => ?_⟩
  · rw [modifyContext_apply]
    cases hypervisor.machine.context? id <;> rfl
  · rw [modifyContext_apply]
    cases hypervisor.machine.context? id with
    | none => exact .refl _
    | some context =>
        have kept : (hypervisor.machine.modifyContext id change).interpreter.journal =
            hypervisor.machine.interpreter.journal := by
          unfold Machine.modifyContext
          split <;> rfl
        dsimp only [finalState]
        rw [kept]
        exact .refl _
  · obtain ⟨shadows, paired⟩ := states
    have shown := shadows.alike.context id
    rw [modifyContext_apply, modifyContext_apply]
    cases found : left.machine.context? id with
    | none =>
        rw [found] at shown
        cases found' : right.machine.context? id with
        | none => exact .failure ⟨shadows, paired⟩
        | some context' =>
            rw [found'] at shown
            cases shown
    | some context =>
        rw [found] at shown
        cases found' : right.machine.context? id with
        | none =>
            rw [found'] at shown
            cases shown
        | some context' =>
            rw [shadows.leftUniform.context?] at found
            rw [shadows.rightUniform.context?] at found'
            have there (interpreter : Interpreter) (other : ContextId) :
                (interpreter.modifyContext id change).contexts.contains other =
                  interpreter.contexts.contains other := Std.TreeMap.contains_modify
            rw [shadows.leftUniform.modifyContext found, shadows.rightUniform.modifyContext found']
            exact .answer rfl ⟨⟨shadows.own, shadows.interpreter.modifyContext id blind,
              shadows.leftUniform.congr rfl (there _), shadows.rightUniform.congr rfl (there _)⟩,
              paired⟩

theorem follows_createContext_shadowing (image : Image) (arguments : List String) :
    (shadowing capacity pairing).Follows Eq (createContext image arguments)
      (createContext image arguments) := by
  have looks (left right : Hypervisor) (states : (shadowing capacity pairing).related left right) :
      left.own.stackSize = right.own.stackSize ∧
        pairing.modes.alike left.own.mode right.own.mode :=
    ⟨states.1.alike.stackSize, states.1.own.mode⟩
  refine .get_bind ?_ looks fun left right options => ?_
  · exact fun _ => ⟨rfl, pairing.modes.refl _⟩
  · obtain ⟨stackSize, mode⟩ := options
    dsimp only
    rw [stackSize]
    exact ⟨irreversible_pass _ fun view => Interpreter.agrees_create view image _,
      fun _ _ states => follow_below (fun _ uniform => uniform.create image _)
        (fun _ uniform => uniform.create image _) states
        (states.1.interpreter.create image _ mode)⟩

/-- **Every primitive operation is followed by that of the shadow.** -/
theorem respects_shadowing :
    Respects (shadowing capacity pairing) (fun _ _ => True) where
  looks _ _ states := states.1.alike
  refl _ := trivial
  switched _ _ _ _ := trivial
  levelLoaded _ _ _ _ := trivial
  note _ := follows_note_shadowing _ _
  modifyOwn := follows_modifyOwn_shadowing
  queue _ _ states := states.1.own.ready
  quantum _ _ states := states.1.own.quantum
  rearrange := follows_rearrange_shadowing
  join _ := follows_rearrange_shadowing _
  dequeue _ := follows_rearrange_shadowing _
  modifyContext id _ := follows_modifyContext_shadowing id
  setMemoryMode := follows_setMemoryMode_shadowing
  create := follows_createContext_shadowing
  destroy id :=
    ⟨irreversible_pass _ fun view => Interpreter.agrees_destroy view id,
      fun _ _ states => follow_below (fun _ uniform => uniform.destroy id)
        (fun _ uniform => uniform.destroy id) states (states.1.interpreter.destroy id)⟩
  switch id quantum :=
    ⟨irreversible_pass _ fun view => Interpreter.agrees_switch view id quantum,
      fun _ _ states => follow_below (fun _ uniform => uniform.switch id quantum)
        (fun _ uniform => uniform.switch id quantum) states
        (states.1.interpreter.switch id quantum)⟩
  release id := by
    refine ⟨irreversible_pass _ fun view => Interpreter.agrees_release view id,
      fun left right states => ?_⟩
    have released := follow_below (fun _ uniform => uniform.release id)
      (fun _ uniform => uniform.release id) states (states.1.interpreter.release id)
    generalize below (Machine.release id) left = first at released
    generalize below (Machine.release id) right = second at released
    cases released with
    | answer alike states' => exact .answer (fun _ => trivial) states'
    | failure states' => exact .failure states'
    | excuse reason => exact .excuse reason
    | lost vanished => exact .lost vanished
  fork id := by
    refine ⟨irreversible_pass _ fun view => Interpreter.agrees_fork view id,
      fun left right states => ?_⟩
    rcases states.1.interpreter.fork id with ⟨after, refused⟩ | agree
    · left
      obtain ⟨relays, passed, uniform⟩ := Machine.Uniform.fork states.1.leftUniform id
      rw [refused] at passed
      refine ⟨none, ⟨⟨relays, after⟩, left.own⟩, ?_, rfl, damning_of_tells rfl⟩
      obtain ⟨machine, own⟩ := left
      simp only [below]
      rw [passed]
      rfl
    · right
      exact follow_below (fun _ uniform => uniform.fork id) (fun _ uniform => uniform.fork id)
        states agree
  requestBreak id requested := by
    have requests : (shadowing capacity pairing).FollowsUnless _
        (onMemory id (requestBreak requested)) (onMemory id (requestBreak requested)) :=
      followsUnless_onMemory (fun view => agrees_requestBreak requested)
        (coveredUnless_requestBreak requested) id
    refine ⟨requests.past, ?_⟩
    intro left right states
    rcases requests.follow left right states with ⟨answer, after, result, current, same⟩ | outcome
    · exact .inl ⟨answer, after, result, current, same, damning_of_tells rfl⟩
    · exact .inr outcome
  callerMemory id call action congruent := by
    refine (followsUnless_onMemory
      (fun view => congruent.agrees (Memory.respected_sameBut view)) congruent.coveredUnless
      id).bind (fun answer => ?_) ?_
    · split
      · exact .throw _
      · exact .pure rfl
    · rintro _ rfl state outcome
      exact .excuse (.inl (pairing.exhausted _ ⟨_, _, rfl⟩))

end Primitive

/-! ## Where shadows begin -/

/-- Stacks of the same configuration, up to its memory mode, shadow each other when they are
built. -/
theorem shadows_nested (modes : ModeView) (configuration : Configuration) (mode : MemoryMode)
    (alike : modes.alike configuration.mode mode) (host host' : Host) (journal journal' : Journal)
    (below : Nat) :
    ∃ left right, nested configuration host journal (below + 1) = .ok left ∧
      nested { configuration with mode } host' journal' (below + 1) = .ok right ∧
      left.own = newSupervisor configuration host ∧
      right.own = newSupervisor { configuration with mode } host' ∧
      Shadows modes configuration.frames left right := by
  refine ⟨_, _, rfl, rfl, rfl, rfl, ⟨rfl, alike, rfl, rfl, rfl⟩, ?_, ?_, ?_⟩
  · refine Interpreter.Covers.journals ?_ _ _
    refine ⟨Interpreter.sound_empty _ _ journal, Interpreter.sound_empty _ _ journal', rfl, rfl, ?_⟩
    intro id
    show Option.Rel _ (∅ : Std.TreeMap ContextId Context)[id]?
      (∅ : Std.TreeMap ContextId Context)[id]?
    rw [Std.TreeMap.getElem?_emptyc]
    exact .none
  · exact (Machine.uniform_ofLevels below rfl).congr rfl fun _ => rfl
  · exact (Machine.uniform_ofLevels below rfl).congr rfl fun _ => rfl

/-- **A run that lacks no frames can be shadowed.**  Journals have no influence, so that a run with a
journal that keeps every note stands for the run whose notes would tell of no lack of frames; and
that one is shadowed, from the start, by a stack of the same configuration up to its memory mode. -/
theorem shadowing_nested (pairing : Pairing) {configuration : Configuration} {mode : MemoryMode}
    (alike : pairing.modes.alike configuration.mode mode) {host host' : Host}
    (paired : pairing.paired host host' .off .off) {journal : Journal} (journal' : Journal)
    {level : Nat} {start : Hypervisor} (built : nested configuration host journal level = .ok start)
    {operations : List Operation}
    (backed : ∀ loud, nested configuration host (.withThreshold (some .debug)) level = .ok loud →
      (stateAfter Operation.perform operations
        loud).machine.interpreter.journal.tellsShortage = false) :
    ∃ loud shadow, nested { configuration with mode } host' journal' level = .ok shadow ∧
      (shadowing configuration.frames pairing).related loud shadow ∧
      List.Forall₂ (fun before after => before.1 = after.1 ∧
          SameAbove (.listening (some .debug)) before.2 after.2)
        (trail Operation.perform operations start) (trail Operation.perform operations loud) ∧
      SameAbove (.listening (some .debug)) (stateAfter Operation.perform operations start)
        (stateAfter Operation.perform operations loud) ∧
      (stateAfter Operation.perform operations loud).machine.interpreter.journal.Untroubled := by
  cases level with
  | zero => cases built
  | succ below =>
      have blind := JournalView.levelBlind_listening (some .debug)
      have threshold : (JournalView.listening (some .debug)).same journal
        (.withThreshold (some .debug)) := rfl
      obtain ⟨_, loud, here, listened, same⟩ :=
        sameAbove_nested blind configuration host threshold below below
      obtain rfl := Except.ok.inj (here.symm.trans built)
      obtain ⟨_, shadow, again, made, own, own', shadows⟩ := shadows_nested pairing.modes
        configuration mode alike host host' (.withThreshold (some .debug)) journal' below
      obtain rfl := Except.ok.inj (listened.symm.trans again)
      have final := sameAbove_stateAfter blind operations same
      refine ⟨loud, shadow, made, ⟨shadows, ?_⟩, follows_operations blind operations same, final,
        Journal.untroubled_of_quiet final.interpreter.journal (backed loud listened)⟩
      rw [own, own']
      exact paired

end Hypervisor

end NestedMachine
