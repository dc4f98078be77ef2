import NestedMachine.Proofs.Hypervisor.Waiting

/-!
# Turns are fair

The queue is served from the front, so that a context that waits in it moves up with every turn,
until its own turn comes or another context ends it.  Its place is the measure by which waiting is
bounded: a context behind `n` others has its turn within `n + 1` turns (`bounded_wait`).

In its turn a context carries out no more instructions than the quantum allows (`Tallied`).
-/

namespace NestedMachine.Hypervisor

set_option autoImplicit false

open Std (TreeMap)

variable {origin after : Hypervisor} {id other caller : ContextId} {bound : Nat}

/-! ## Instructions -/

/-- How many instructions a context of a table has carried out. -/
def tallyIn (contexts : TreeMap ContextId Context) (id : ContextId) : Option Nat :=
  contexts[id]?.map Context.instructions

/-- How many instructions the machine has carried out. -/
def retired (hypervisor : Hypervisor) : Nat := hypervisor.machine.interpreter.counters.instructions

/-- A context has carried out so many instructions at most, and the machine so many. -/
structure Tallied (most total : Nat) (id : ContextId) (hypervisor : Hypervisor) : Prop where
  uniform : hypervisor.machine.Uniform
  known : id < hypervisor.machine.interpreter.nextId
  most : ∀ tally, tallyIn hypervisor.machine.interpreter.contexts id = some tally → tally ≤ most
  total : hypervisor.retired ≤ total

namespace Tallied

variable {most total : Nat}

/-- Nothing but the counts matters. -/
theorem congr (tallied : Tallied most total id origin) (uniform : after.machine.Uniform)
    (nextId : origin.machine.interpreter.nextId ≤ after.machine.interpreter.nextId)
    (same : after.retired = origin.retired)
    (counts : ∀ tally, tallyIn after.machine.interpreter.contexts id = some tally →
      tallyIn origin.machine.interpreter.contexts id = some tally) :
    Tallied most total id after where
  uniform := uniform
  known := tallied.known.trans_le nextId
  most tally found := tallied.most tally (counts tally found)
  total := same.trans_le tallied.total

/-- What a context has carried out is known of the context. -/
theorem of_found {context : Context} (uniform : origin.machine.Uniform)
    (known : id < origin.machine.interpreter.nextId)
    (found : origin.machine.context? id = some context) :
    Tallied context.instructions origin.retired id origin where
  uniform := uniform
  known := known
  most tally counted := by
    rw [uniform.context?] at found
    have same := (congrArg (Option.map Context.instructions) found).symm.trans counted
    exact (Option.some.inj same).ge
  total := le_rfl

/-- The memory of a context does not matter. -/
theorem tallyIn_keepMemory {machine : Interpreter} {context : Context}
    (found : machine.contexts[other]? = some context) (memory : Memory) :
    tallyIn (machine.keepMemory other context memory).contexts id =
      tallyIn machine.contexts id := by
  unfold tallyIn Interpreter.keepMemory
  rw [Table.getElem?_insert]
  split
  · rename_i here
    rw [← here, found]
    rfl
  · rfl

theorem stolid : Stolid (Tallied most total id) where
  note happening := .modify fun _ tallied =>
    tallied.congr (tallied.uniform.congr rfl fun _ => rfl) le_rfl rfl fun _ found => found
  own _ := .modify fun _ tallied =>
    tallied.congr tallied.uniform le_rfl rfl fun _ found => found
  host request := fun _ tallied =>
    tallied.congr (tallied.uniform.congr rfl fun _ => rfl) le_rfl rfl fun _ found => found
  change other change tending := by
    intro origin tallied
    rw [modifyContext_apply, tallied.uniform.context?, Interpreter.context?]
    cases found : origin.machine.interpreter.contexts[other]? with
    | none => exact tallied
    | some context =>
        rw [tallied.uniform.modifyContext found]
        refine tallied.congr (tallied.uniform.congr rfl fun _ => TreeMap.contains_modify) le_rfl
          rfl fun tally there => ?_
        exact (Interpreter.map_modify tending.instructions id).symm.trans there
  destroy other := by
    intro origin tallied
    apply halts_below (tallied.uniform.destroy other)
    cases found : origin.machine.interpreter.contexts[other]? with
    | none =>
        rw [Interpreter.destroy_of_none found]
        exact fun relays uniform => tallied.congr uniform le_rfl rfl fun _ there => there
    | some context =>
        rw [Interpreter.destroy_of_some found]
        refine fun relays uniform => tallied.congr uniform le_rfl rfl fun tally there => ?_
        have cut := (Interpreter.map_unlink (fun _ _ _ => rfl) _ _ _ _).symm.trans there
        rw [Table.getElem?_erase] at cut
        split at cut
        · cases cut
        · exact cut

theorem keeps_release (other : ContextId) :
    Keeps (Tallied most total id) (below (Machine.release other)) := by
  intro origin tallied
  apply halts_below (tallied.uniform.release other)
  cases found : origin.machine.interpreter.contexts[other]? with
  | none =>
      rw [Interpreter.release_of_none found]
      exact fun relays uniform => tallied.congr uniform le_rfl rfl fun _ there => there
  | some context =>
      rw [Interpreter.release_of_some found]
      exact fun relays uniform => tallied.congr uniform le_rfl rfl fun _ there =>
        (tallyIn_keepMemory found _).symm.trans there

/-- Copying adds no instructions to those of a context that is there. -/
theorem keeps_fork (other : ContextId) :
    Keeps (Tallied most total id) (below (Machine.fork other)) := by
  intro origin tallied
  apply halts_below (tallied.uniform.fork other)
  have ends := Interpreter.forkEnds other origin.machine.interpreter
  generalize Interpreter.fork other origin.machine.interpreter = result at ends ⊢
  cases ends with
  | missing =>
      exact fun relays uniform => tallied.congr uniform le_rfl rfl fun _ there => there
  | refused =>
      exact fun relays uniform => tallied.congr uniform le_rfl rfl fun _ there => there
  | copied =>
      refine fun relays uniform => tallied.congr uniform (Nat.le_succ _) rfl fun tally there => ?_
      have linked (table : TreeMap ContextId Context) (child : ContextId) :
          tallyIn (table.modify other fun context =>
            { context with children := context.children.insert child }) id =
            tallyIn table id := by
        apply Interpreter.map_modify
        exact fun _ => rfl
      have added := (linked _ _).symm.trans there
      rw [tallyIn, Interpreter.adopt, Table.getElem?_insert,
        if_neg (Nat.ne_of_lt tallied.known).symm] at added
      exact added

theorem keeps_memory {α : Type} {action : MemoryAction α} (other : ContextId) :
    Keeps (Tallied most total id) (onMemory other action) := by
  rintro ⟨machine, own⟩ tallied
  simp only [onMemory, tallied.uniform.withMemory]
  cases found : machine.interpreter.contexts[other]? with
  | none =>
      rw [Interpreter.withMemory_of_none found]
      exact tallied
  | some context =>
      have kept := Machine.contains_withMemory machine.interpreter other action
      rw [Interpreter.withMemory_of_some found] at kept ⊢
      exact tallied.congr (tallied.uniform.congr rfl kept) le_rfl rfl fun _ there =>
        (tallyIn_keepMemory found _).symm.trans there

/-- **Nothing that is done on behalf of a context counts as its instructions**, unless it runs. -/
theorem upheld : Upheld caller (Tallied most total id) :=
  stolid.sturdy.upheld trivial (fun _ => keeps_memory caller)
    (fun {other} _ status => stolid.sturdy.terminate trivial (keeps_release other) status)
    (stolid.serveFork (keeps_fork caller))

/-- **A context that runs carries out no more instructions than its quantum allows.** -/
theorem switch (tallied : Tallied most total id origin) (quantum : Nat) :
    Halts (fun _ _ => True) (fun _ => Tallied (most + quantum) (total + quantum) id)
      (below (Machine.switch id quantum) origin) := by
  apply halts_below (tallied.uniform.switch id quantum)
  have ends := Interpreter.switchEnds id quantum origin.machine.interpreter
  generalize Interpreter.switch id quantum origin.machine.interpreter = result at ends ⊢
  cases ends with
  | missing _ => exact fun _ _ => trivial
  | exited _ _ => exact fun _ _ => trivial
  | ranDry _ _ _ => exact fun _ _ => trivial
  | @trapped context _ found live ended =>
      have retired := context.hart.retired_run_le origin.machine.interpreter.tracing quantum 0
        (origin.machine.interpreter.memoryOf context)
      rw [Nat.zero_add] at retired
      refine fun relays uniform => ⟨uniform, tallied.known, fun tally there => ?_,
        Nat.add_le_add tallied.total retired⟩
      have before : context.instructions ≤ most :=
        tallied.most _ (congrArg (Option.map Context.instructions) found)
      rw [tallyIn, Interpreter.keepTrap, Interpreter.keepRun, Table.getElem?_insert,
        if_pos rfl] at there
      obtain rfl := Option.some.inj there
      exact Nat.add_le_add before retired

end Tallied

/-- In its turn a context carries out no more instructions than the quantum allows. -/
theorem tallied_slice {most total : Nat} (tallied : Tallied most total id origin) (quantum : Nat) :
    Halts (fun _ _ => True) (fun _ => Tallied (most + quantum) (total + quantum) id)
      (slice id quantum origin) := by
  refine ((keeps_requireOwned id).halts tallied).bind fun _ owned tallied => ?_
  refine ((keeps_contextOf id).halts tallied).bind fun context found tallied => ?_
  split
  · exact trivial
  refine ((Tallied.stolid.sturdy.setState trivial .running).halts tallied).bind
    fun _ running tallied => ?_
  refine ((Tallied.stolid.sturdy.count _).halts tallied).bind
    fun _ counted tallied => Halts.get_bind ?_
  refine ((Tallied.stolid.note _).halts tallied).bind fun _ noted tallied => ?_
  refine (tallied.switch quantum).bind fun trap stopped tallied => ?_
  exact ((Tallied.upheld.handleTrap trap).halts tallied).bind fun _ _ tallied => tallied

/-- In a step it carries out one instruction at most. -/
theorem tallied_step {most total : Nat} (tallied : Tallied most total id origin) :
    Halts (fun _ _ => True) (fun _ => Tallied (most + 1) (total + 1) id) (step id origin) := by
  have live {start : Hypervisor} (tallied : Tallied most total id start) :
      Halts (fun _ _ => True) (fun _ => Tallied (most + 1) (total + 1) id) (stepLive id start) := by
    refine ((Tallied.stolid.sturdy.setState trivial .running).halts tallied).bind
      fun _ running tallied => ?_
    refine (tallied.switch 1).bind fun trap stopped tallied => ?_
    cases trap with
    | timerInterrupt =>
        exact ((Tallied.stolid.sturdy.makeReady trivial).halts tallied).bind
          fun _ _ tallied => tallied
    | environmentCall =>
        exact ((Tallied.upheld.handleTrap _).halts tallied).bind fun _ _ tallied => tallied
    | fault fault pc =>
        exact ((Tallied.upheld.handleTrap _).halts tallied).bind fun _ _ tallied => tallied
  refine ((keeps_requireOwned id).halts tallied).bind fun _ owned tallied => ?_
  refine ((keeps_contextOf id).halts tallied).bind fun context found tallied => ?_
  cases context.state with
  | blocked reason =>
      exact ⟨tallied.uniform, tallied.known,
        fun tally there => (tallied.most tally there).trans (Nat.le_succ most),
        tallied.total.trans (Nat.le_succ total)⟩
  | ready => exact live tallied
  | running => exact live tallied
  | trapped fault pc => exact trivial
  | exited => exact trivial

/-! ## A turn -/

/-- Where a context stands in the queue; the front is 0. -/
def place (id : ContextId) (hypervisor : Hypervisor) : Nat := hypervisor.own.ready.idxOf id

/-- A context is ready, and it stands in the queue. -/
structure Waits (id : ContextId) (hypervisor : Hypervisor) : Prop where
  runs : canRun hypervisor.machine id = true
  queued : id ∈ hypervisor.own.ready

/-- The next turn is that of the context, and neither it nor the machine as a whole carries out more
instructions in this turn than the quantum allows. -/
def HasTurn (id : ContextId) (hypervisor : Hypervisor) : Prop :=
  ∃ after, scheduleOnce hypervisor = .ok (some id) after ∧
    after.retired ≤ hypervisor.retired + hypervisor.own.quantum ∧
    ∀ before later, hypervisor.machine.context? id = some before →
      after.machine.context? id = some later →
      later.instructions ≤ before.instructions + hypervisor.own.quantum

/-- The next turn is that of another context, and after it the context has ended. -/
def EndedByOther (id : ContextId) (hypervisor : Hypervisor) : Prop :=
  ∃ other after, other ≠ id ∧ scheduleOnce hypervisor = .ok (some other) after ∧
    ∀ context, after.machine.context? id = some context → context.state = .exited

theorem Waits.inPlace (waits : Waits id origin) (uniform : origin.machine.Uniform) :
    InPlace (place id origin + 1) id origin := by
  refine ⟨(canRun_iff uniform).mp waits.runs, ?_⟩
  obtain ⟨front, back, queue, before⟩ := List.eq_append_cons_of_mem waits.queued
  refine ⟨front, back, queue, ?_⟩
  rw [place, queue, List.idxOf_append_of_notMem before]
  exact Nat.lt_succ_of_le (Nat.le_add_right ..)

theorem InPlace.waits (inPlace : InPlace bound id origin) (uniform : origin.machine.Uniform) :
    Waits id origin := by
  obtain ⟨front, back, queue, -⟩ := inPlace.place
  exact ⟨(canRun_iff uniform).mpr inPlace.ready, queue ▸ List.mem_append_cons_self⟩

theorem InPlace.place_lt (inPlace : InPlace bound id origin) :
    Hypervisor.place id origin < bound := by
  obtain ⟨front, back, queue, before⟩ := inPlace.place
  refine Nat.lt_of_le_of_lt ?_ before
  rw [Hypervisor.place, queue]
  by_cases among : id ∈ front
  · rw [List.idxOf_append_of_mem among]
    exact List.idxOf_le_length
  · rw [List.idxOf_append_of_notMem among, List.idxOf_cons_self]
    exact le_rfl

/-- Those that are dropped from the front of the queue stand before whoever can run. -/
theorem dropWhile_before {machine : Machine} (runs : canRun machine id = true)
    (front back : List ContextId) :
    (front ++ id :: back).dropWhile (fun id => !canRun machine id) =
      front.dropWhile (fun id => !canRun machine id) ++ id :: back := by
  have stays : (id :: back).dropWhile (fun id => !canRun machine id) = id :: back := by
    rw [List.dropWhile_cons, runs]
    rfl
  rw [List.dropWhile_append, stays]
  split
  · rename_i emptied
    rw [List.isEmpty_iff.mp emptied, List.nil_append]
  · rfl

theorem nextReady_apply (origin : Hypervisor) :
    nextReady origin =
      .ok (origin.own.ready.dropWhile fun id => !canRun origin.machine id).head?
        (origin.withReady (origin.own.ready.dropWhile fun id => !canRun origin.machine id)) := rfl

/-- A turn is the slice of the first that can run. -/
theorem scheduleOnce_of_front {rest : List ContextId}
    (front : origin.own.ready.dropWhile (fun id => !canRun origin.machine id) = other :: rest) :
    scheduleOnce origin = (do
      let _ ← slice other origin.own.quantum
      return some other) (origin.withReady rest) := by
  have looked : nextReady origin = .ok (some other) (origin.withReady (other :: rest)) := by
    rw [nextReady_apply, front]
    rfl
  unfold scheduleOnce
  rw [bind_of_ok looked]
  rfl

/-- Where nobody can run, nobody has the turn. -/
theorem scheduleOnce_of_idle
    (idle : origin.own.ready.dropWhile (fun id => !canRun origin.machine id) = []) :
    scheduleOnce origin = .ok none (origin.withReady []) := by
  unfold scheduleOnce
  rw [bind_of_ok (nextReady_apply origin), idle]
  rfl

/-- Whoever has the next turn is the first that can run. -/
theorem front_of_scheduleOnce (turn : scheduleOnce origin = .ok (some id) after) :
    ∃ rest trap, origin.own.ready.dropWhile (fun id => !canRun origin.machine id) = id :: rest ∧
      slice id origin.own.quantum (origin.withReady rest) = .ok trap after := by
  cases front : origin.own.ready.dropWhile (fun id => !canRun origin.machine id) with
  | nil => cases (scheduleOnce_of_idle front).symm.trans turn
  | cons other rest =>
      obtain ⟨trap, sliced, run, told⟩ := ok_of_bind ((scheduleOnce_of_front front).symm.trans turn)
      cases told
      exact ⟨rest, trap, rfl, run⟩

/-- In the turn of another context, whoever waits moves up or is ended. -/
theorem patient_of_turn (known : Known id origin) (waits : Waits id origin) (different : other ≠ id)
    {rest : List ContextId}
    (front : origin.own.ready.dropWhile (fun id => !canRun origin.machine id) = other :: rest) :
    Patient (place id origin) id (origin.withReady rest) := by
  obtain ⟨before, back, queue, less⟩ := (waits.inPlace known.uniform).place
  rw [queue, dropWhile_before waits.runs] at front
  have ready := (canRun_iff known.uniform).mp waits.runs
  refine InPlace.patient ⟨ready, ?_⟩ ⟨known.uniform, known.young, known.known⟩
  have shorter := (List.dropWhile_sublist (l := before)
    fun id => !canRun origin.machine id).length_le
  generalize before.dropWhile (fun id => !canRun origin.machine id) = left at front shorter
  cases left with
  | nil => exact absurd (List.cons.inj front).1.symm different
  | cons head left =>
      refine ⟨left, back, (List.cons.inj front).2.symm, ?_⟩
      exact Nat.lt_of_succ_lt_succ (shorter.trans_lt less)

/-- In its own turn, a context carries out what the quantum allows. -/
theorem hasTurn_of_front (known : Known id origin) (runs : canRun origin.machine id = true)
    {rest : List ContextId} {trap : Trap}
    (turn : scheduleOnce origin = .ok (some id) after)
    (run : slice id origin.own.quantum (origin.withReady rest) = .ok trap after) :
    HasTurn id origin := by
  obtain ⟨kin, there, -⟩ := (canRun_iff known.uniform).mp runs
  obtain ⟨context, found, -⟩ := exists_context? known.uniform there
  have tallied : Tallied context.instructions origin.retired id (origin.withReady rest) :=
    @Tallied.of_found (origin.withReady rest) id context known.uniform known.known found
  have kept := tallied_slice tallied origin.own.quantum
  rw [run] at kept
  refine ⟨after, turn, kept.total, fun before later found' there => ?_⟩
  obtain rfl := Option.some.inj (found.symm.trans found')
  rw [kept.uniform.context?] at there
  exact kept.most _ (congrArg (Option.map Context.instructions) there)

/-- **Whoever waits has the next turn, or is ended, or moves up.** -/
theorem turn_of_waits (known : Known id origin) (waits : Waits id origin)
    {answer : Option ContextId} (turn : scheduleOnce origin = .ok answer after) :
    HasTurn id origin ∨ EndedByOther id origin ∨
      Waits id after ∧ place id after < place id origin ∧ Known id after := by
  have there := mem_dropWhile_of_canRun waits.runs waits.queued
  obtain ⟨other, rest, front⟩ := List.exists_cons_of_ne_nil (List.ne_nil_of_mem there)
  obtain ⟨trap, sliced, run, told⟩ := ok_of_bind ((scheduleOnce_of_front front).symm.trans turn)
  obtain ⟨rfl, rfl⟩ := EStateM.Result.ok.inj told
  by_cases mine : other = id
  · subst mine
    exact .inl (hasTurn_of_front known waits.runs turn run)
  · have keeps : Keeps (Patient (place id origin) id) (slice other origin.own.quantum) :=
      (upheld_patient mine).slice (fun quantum => (discreet_switch other quantum).keeps_placed) _
    have kept := keeps _ (patient_of_turn known waits mine front)
    rw [run] at kept
    have patient : Patient (place id origin) id sliced := kept
    rcases patient.waits with inPlace | ended
    · exact .inr (.inr ⟨inPlace.waits patient.uniform, inPlace.place_lt, patient.toKnown⟩)
    · refine .inr (.inl ⟨other, sliced, mine, turn, fun context found => ?_⟩)
      exact ended context.kin (kin_of_context? patient.uniform found)

/-! ## Turn after turn -/

/-- The hypervisor after so many turns, whether they succeed or not. -/
def afterTurns : Nat → Hypervisor → Hypervisor
  | 0, hypervisor => hypervisor
  | turns + 1, hypervisor => afterTurns turns (finalState (scheduleOnce hypervisor))

/-- A context waits during so many turns, and each of them moves it up. -/
structure MovesUp (id : ContextId) (turns : Nat) (hypervisor : Hypervisor) : Prop where
  waits : ∀ turn ≤ turns, Waits id (afterTurns turn hypervisor)
  up : ∀ turn < turns,
    place id (afterTurns (turn + 1) hypervisor) < place id (afterTurns turn hypervisor)

theorem MovesUp.zero (waits : Waits id origin) : MovesUp id 0 origin where
  waits turn first := by
    obtain rfl := Nat.le_zero.mp first
    exact waits
  up _ never := absurd never (Nat.not_lt_zero _)

theorem MovesUp.succ {turns : Nat} (waits : Waits id origin)
    (up : place id (finalState (scheduleOnce origin)) < place id origin)
    (rest : MovesUp id turns (finalState (scheduleOnce origin))) :
    MovesUp id (turns + 1) origin where
  waits
    | 0, _ => waits
    | turn + 1, within => rest.waits turn (Nat.le_of_succ_le_succ within)
  up
    | 0, _ => up
    | turn + 1, within => rest.up turn (Nat.lt_of_succ_lt_succ within)

/-- **Waiting ends**, by induction on the place in the queue. -/
theorem wait_ends (known : Known id origin) (waits : Waits id origin) {most : Nat}
    (stands : place id origin ≤ most)
    (succeed : ∀ turn ≤ most,
      (answerOf (scheduleOnce (afterTurns turn origin))).isOk = true) :
    ∃ turn ≤ most, MovesUp id turn origin ∧
      (HasTurn id (afterTurns turn origin) ∨ EndedByOther id (afterTurns turn origin)) := by
  induction most generalizing origin with
  | zero =>
      obtain ⟨answer, turn⟩ := ok_of_isOk (succeed 0 le_rfl)
      refine ⟨0, le_rfl, .zero waits, ?_⟩
      rcases turn_of_waits known waits turn with mine | ended | ⟨-, up, -⟩
      · exact .inl mine
      · exact .inr ended
      · exact absurd (up.trans_le stands) (Nat.not_lt_zero _)
  | succ most ih =>
      obtain ⟨answer, turn⟩ := ok_of_isOk (succeed 0 (Nat.zero_le _))
      rcases turn_of_waits known waits turn with mine | ended | ⟨waits', up, known'⟩
      · exact ⟨0, Nat.zero_le _, .zero waits, .inl mine⟩
      · exact ⟨0, Nat.zero_le _, .zero waits, .inr ended⟩
      · obtain ⟨later, within, moves, outcome⟩ :=
          ih known' waits' (Nat.le_of_lt_succ (up.trans_le stands)) fun turn within =>
            succeed (turn + 1) (Nat.succ_le_succ within)
        exact ⟨later + 1, Nat.succ_le_succ within, .succ waits up moves, outcome⟩

/-- **Turns are fair.**  After any history, a context that is ready behind `position` others in the
queue is waiting for no more than `position` turns, if they succeed: each of them moves it up, and
then it has its turn, in which it carries out no more instructions than the quantum allows, unless
the turn of another context ends it before. -/
theorem bounded_wait {configuration : Configuration} {host : Host} {journal : Journal} {level : Nat}
    {start : Hypervisor} (built : nested configuration host journal level = .ok start)
    (history : List Event) {position : Nat} {context : Context} :
    let reached := stateAfter Event.perform history start
    reached.own.ready[position]? = some id → reached.machine.context? id = some context →
    context.state = .ready →
    (∀ turn ≤ position, (answerOf (scheduleOnce (afterTurns turn reached))).isOk = true) →
    ∃ turn ≤ position, MovesUp id turn reached ∧
      (HasTurn id (afterTurns turn reached) ∨ EndedByOther id (afterTurns turn reached)) := by
  intro reached place there ready succeed
  have lined : Lined Nobody reached :=
    stateAfter_keeps (fun event _ lined => event.keepsLine.finalState lined) history
      (lined_of_nested built)
  have found := kin_of_context? lined.uniform there
  have known : Known id reached := ⟨lined.uniform, lined.young, lined.young id context.kin found⟩
  have waits : Waits id reached :=
    ⟨(canRun_iff lined.uniform).mpr ⟨context.kin, found, ready⟩, List.mem_of_getElem? place⟩
  obtain ⟨inside, here⟩ := List.getElem?_eq_some_iff.mp place
  refine wait_ends known waits ?_ succeed
  rw [Hypervisor.place, ← here, lined.distinct.idxOf_getElem position inside]

/-- The copy that one of two programs has made of itself waits behind the other program. -/
theorem copy_waits_for_turn :
    ∃ start reached,
      nested { Configuration.standard with frames := 60 } .null .silent 2 = .ok start ∧
      stateAfter Event.perform mixedHistory start = reached ∧
      reached.own.ready[1]? = some 4 ∧
      ∃ turn ≤ 1, MovesUp 4 turn reached ∧
        (HasTurn 4 (afterTurns turn reached) ∨ EndedByOther 4 (afterTurns turn reached)) := by
  obtain ⟨start, built⟩ : ∃ start,
      nested { Configuration.standard with frames := 60 } .null .silent 2 = .ok start := ⟨_, rfl⟩
  have evaluated : (nested { Configuration.standard with frames := 60 } .null .silent 2).map
      (fun start =>
        let reached := stateAfter Event.perform mixedHistory start
        (reached.own.ready[1]?, (reached.machine.context? 4).map Context.state,
          (answerOf (scheduleOnce (afterTurns 0 reached))).isOk,
          (answerOf (scheduleOnce (afterTurns 1 reached))).isOk)) =
        .ok (some 4, some .ready, true, true) := by
    decide +kernel
  rw [built] at evaluated
  obtain ⟨place, state, first, second⟩ :
      _ = some 4 ∧ _ = some ContextState.ready ∧ _ = true ∧ _ = true := by
    simpa only [Prod.mk.injEq] using Except.ok.inj evaluated
  obtain ⟨context, there, ready⟩ := Option.map_eq_some_iff.mp state
  refine ⟨start, _, built, rfl, place, bounded_wait built mixedHistory place there ready ?_⟩
  intro turn within
  obtain rfl | rfl := Nat.le_one_iff_eq_zero_or_eq_one.mp within
  · exact first
  · exact second

end NestedMachine.Hypervisor
