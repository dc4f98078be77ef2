import NestedMachine.Proofs.Machine.Covers
import NestedMachine.Proofs.Machine.Guests
import NestedMachine.Proofs.Machine.Isolation

/-!
# Turns of contexts do not depend on each other

Contexts take turns: a scheduler switches to one for a quantum, then to another.  They share the
pool, so the turns of the others decide which frames a context gets, and in which order frames are
handed out again.  None of this shows in what the context does, as long as no turn runs out of
frames.

To see this, the interpreter that takes all turns is compared with one that takes the turns of one
context only.  The first covers the second at this context (`Interpreter.CoversAt`).  A turn of the
context is taken by both, and ends alike (`CoversAt.switch`).  A turn of another context is taken by
the first only: it leaves the context and its bytes alone, and takes frames from the pool but gives
none back, so that the first still leaves the context no more room (`CoversAt.switchOther`).  By
induction on the turns, a context fares in an interleaving as on its own (`turns_independent`).
-/

namespace NestedMachine

set_option autoImplicit false

open Std (TreeMap)

namespace Interpreter

variable {modes : ModeView} {capacity : Nat} {machine left right : Interpreter}
  {id other : ContextId}

/-! ## What a turn leaves to the others -/

/-- The frames behind all pages are those behind the pages of one context, and those of the
others. -/
theorem card_framesIn_eq_add (contexts : TreeMap ContextId Context) (id : ContextId) :
    (framesIn contexts).card = pagesOf contexts id + (framesIn (contexts.erase id)).card := by
  unfold pagesOf
  cases found : contexts[id]? with
  | none =>
      rw [spaceIn, found, framesIn_erase_of_none found]
      exact (Nat.zero_add _).symm
  | some context =>
      rw [spaceIn, found, framesIn_eq_add found, Multiset.card_add, PageTable.card_frames,
        ← PageTable.card_domain]
      rfl

/-- What a turn changes: the context that takes it may come to have more pages, and the contexts are
otherwise the same. -/
structure TurnTaken (id : ContextId) (before after : Interpreter) : Prop where
  others : ∀ other, id ≠ other → after.contexts[other]? = before.contexts[other]?
  pages : pagesOf before.contexts id ≤ pagesOf after.contexts id
  tracing : after.tracing = before.tracing

namespace TurnTaken

theorem refl (id : ContextId) (machine : Interpreter) : TurnTaken id machine machine :=
  ⟨fun _ _ => rfl, le_rfl, rfl⟩

/-- Around the context that takes the turn nothing changes. -/
theorem around_eq {before after : Interpreter} (taken : TurnTaken id before after) :
    framesIn (after.contexts.erase id) = framesIn (before.contexts.erase id) := by
  apply framesIn_congr
  intro other
  rw [spaceIn, spaceIn, Table.getElem?_erase, Table.getElem?_erase]
  split
  · rfl
  · rename_i different
    rw [taken.others other different]

/-- A turn gives no frame back. -/
theorem card_le {before after : Interpreter} (taken : TurnTaken id before after) :
    (framesIn before.contexts).card ≤ (framesIn after.contexts).card := by
  rw [card_framesIn_eq_add before.contexts id, card_framesIn_eq_add after.contexts id,
    taken.around_eq]
  exact Nat.add_le_add_right taken.pages _

/-- A turn leaves the other contexts no more room. -/
theorem around_le {before after : Interpreter} (taken : TurnTaken id before after)
    (different : id ≠ other) :
    (framesIn (before.contexts.erase other)).card ≤
      (framesIn (after.contexts.erase other)).card := by
  have total := taken.card_le
  have own : pagesOf after.contexts other = pagesOf before.contexts other := by
    unfold pagesOf spaceIn
    rw [taken.others other different]
  rw [card_framesIn_eq_add before.contexts other, card_framesIn_eq_add after.contexts other,
    own] at total
  exact Nat.le_of_add_le_add_left total

end TurnTaken

/-- A context that has run has every page that it had. -/
theorem Sound.turnTaken_keepRun (sound : machine.Sound capacity) {context : Context}
    (found : machine.contexts[id]? = some context) (quantum : Nat) :
    TurnTaken id machine (machine.keepRun id context (machine.runOf context quantum)) := by
  refine ⟨fun other different => ?_, ?_, rfl⟩
  · exact (Table.getElem?_insert ..).trans (if_neg different)
  · have grown := Hart.run_checked
      (Memory.guarded_grown (machine.around capacity id) context.space.table.domain).toChecked
      machine.tracing quantum context.hart 0
      ⟨sound.memory found machine.journal, Finset.Subset.refl _⟩
    have ran : (machine.keepRun id context (machine.runOf context quantum)).contexts[id]? =
        some (afterRun context (machine.runOf context quantum)) :=
      (Table.getElem?_insert ..).trans (if_pos rfl)
    unfold pagesOf spaceIn
    rw [found, ran]
    exact Finset.card_le_card grown.2

/-- **What a turn changes**, whatever it ends in. -/
theorem Sound.turnTaken_switch (sound : machine.Sound capacity) (id : ContextId) (quantum : Nat) :
    TurnTaken id machine (finalState (Interpreter.switch id quantum machine)) := by
  have ends := switchEnds id quantum machine
  generalize Interpreter.switch id quantum machine = result at ends ⊢
  cases ends with
  | missing => exact .refl id machine
  | exited => exact .refl id machine
  | trapped found _ _ =>
      have taken := sound.turnTaken_keepRun found quantum
      exact ⟨taken.others, taken.pages, taken.tracing⟩
  | ranDry found _ _ => exact sound.turnTaken_keepRun found quantum

/-! ## Turns on two interpreters -/

namespace CoversAt

theorem refl (modes : ModeView) (sound : machine.Sound capacity) (id : ContextId) :
    CoversAt modes capacity id machine machine :=
  (Covers.refl modes sound).coversAt id

/-- **A turn of the context is taken alike on both sides**, unless the first runs out of frames. -/
theorem switch (states : CoversAt modes capacity id left right) (quantum : Nat) :
    Agree HostError.IsExhaustion (CoversAt modes capacity id) Eq
      (Interpreter.switch id quantum left) (Interpreter.switch id quantum right) := by
  have sound := states.leftSound.switch id quantum
  have sound' := states.rightSound.switch id quantum
  have taken := states.leftSound.turnTaken_switch id quantum
  have taken' := states.rightSound.turnTaken_switch id quantum
  have outcome := states.switchedAlike quantum
  generalize Interpreter.switch id quantum left = result at outcome sound taken
  generalize Interpreter.switch id quantum right = result' at outcome sound' taken'
  cases outcome with
  | refused => exact .failure states
  | exhausted lacking => exact .excuse lacking
  | ran alike covering =>
      refine .answer rfl ⟨sound, sound', states.tracing, ?_, ?_⟩
      · obtain ⟨layout, mode, domain, bytes⟩ := covering.covers
        rw [keepTrap, keepTrap]
        dsimp only [keepRun]
        rw [Table.getElem?_insert, Table.getElem?_insert, if_pos rfl, if_pos rfl]
        exact .some ⟨alike, layout, mode, domain, bytes⟩
      · have frames := congrArg Multiset.card taken.around_eq
        have frames' := congrArg Multiset.card taken'.around_eq
        exact ⟨(frames'.le.trans states.room.frames).trans frames.ge, rfl⟩

/-- **A turn of another context on the first side goes unnoticed.** -/
theorem switchOther (states : CoversAt modes capacity id left right) (different : other ≠ id)
    (quantum : Nat) :
    CoversAt modes capacity id (finalState (Interpreter.switch other quantum left)) right := by
  have taken := states.leftSound.turnTaken_switch other quantum
  have spares := states.leftSound.spares_switch different quantum
  refine ⟨states.leftSound.switch other quantum, states.rightSound,
    taken.tracing.trans states.tracing, ?_, ?_⟩
  · have shown := states.shown
    rw [taken.others id different]
    cases here : left.contexts[id]? with
    | none =>
        rw [here] at shown
        cases there : right.contexts[id]? with
        | none => exact .none
        | some context' =>
            rw [there] at shown
            cases shown
    | some context =>
        rw [here] at shown
        cases there : right.contexts[id]? with
        | none =>
            rw [there] at shown
            cases shown
        | some context' =>
            rw [there] at shown
            obtain ⟨shows⟩ := shown
            obtain ⟨after, found, -, bytes⟩ := spares context here
            rw [taken.others id different, here] at found
            obtain rfl := Option.some.inj found
            obtain ⟨alike, layout, mode, domain, seen⟩ := shows
            exact .some ⟨alike, layout, mode, domain, fun address =>
              (bytes address).trans (seen address)⟩
  · exact ⟨states.room.frames.trans (taken.around_le different), states.room.capacity⟩

end CoversAt

/-! ## Interleavings -/

/-- A turn of a context: it is switched to for a quantum. -/
structure Turn where
  id : ContextId
  quantum : Nat
  deriving DecidableEq

namespace Turn

/-- Take a turn. -/
def perform (turn : Turn) : InterpreterAction Trap := switch turn.id turn.quantum

/-- The turns of one context, in their order. -/
def own (id : ContextId) (turns : List Turn) : List Turn := turns.filter (·.id = id)

/-- What the turns of one context end in, where others take turns as well. -/
def answersTo (id : ContextId) : List Turn → Interpreter → List (Except HostError Trap)
  | [], _ => []
  | turn :: rest, machine =>
      let outcome := turn.perform machine
      let later := answersTo id rest (finalState outcome)
      if turn.id = id then answerOf outcome :: later else later

/-- No turn runs out of frames. -/
def Backed (turns : List Turn) (machine : Interpreter) : Prop :=
  ∀ outcome ∈ trail perform turns machine, ∀ error, outcome.1 = .error error →
    ¬error.IsExhaustion

end Turn

/-- Contexts that are the same apart from their address spaces, which have the same layout and show
the same bytes. -/
structure SeenAlike (left right : Interpreter) (context context' : Context) : Prop where
  alike : context.Alike context'
  layout : context.space.layout = context'.space.layout
  bytes : ∀ address,
    (left.memoryOf context).byteAt address = (right.memoryOf context').byteAt address

/-- A context that is covered is seen alike. -/
theorem CoversAt.seenAlike (states : CoversAt .same capacity id left right) :
    Option.Rel (SeenAlike left right) left.contexts[id]? right.contexts[id]? := by
  have shown := states.shown
  generalize left.contexts[id]? = first at shown ⊢
  generalize right.contexts[id]? = second at shown ⊢
  cases shown with
  | none => exact .none
  | some shows => exact .some ⟨shows.alike, shows.covers.layout, shows.covers.bytes⟩

/-- **A context fares in an interleaving as on its own**, if no turn runs out of frames. -/
theorem CoversAt.turns (states : CoversAt modes capacity id left right) {turns : List Turn}
    (backed : Turn.Backed turns left) :
    Turn.answersTo id turns left = Turn.answersTo id (Turn.own id turns) right ∧
      CoversAt modes capacity id (stateAfter Turn.perform turns left)
        (stateAfter Turn.perform (Turn.own id turns) right) := by
  induction turns generalizing left right with
  | nil => exact ⟨rfl, states⟩
  | cons turn rest ih =>
      obtain ⟨here, later⟩ := List.forall_mem_cons.mp backed
      by_cases mine : turn.id = id
      · have own : Turn.own id (turn :: rest) = turn :: Turn.own id rest :=
          List.filter_cons_of_pos (decide_eq_true mine)
        have outcome : Agree HostError.IsExhaustion (CoversAt modes capacity id) Eq
            (turn.perform left) (turn.perform right) := by
          subst mine
          exact states.switch turn.quantum
        rw [own]
        unfold Turn.answersTo stateAfter
        rw [if_pos mine, if_pos mine, List.foldl_cons, List.foldl_cons]
        dsimp only at here later ⊢
        generalize turn.perform left = first at outcome here later ⊢
        generalize turn.perform right = second at outcome ⊢
        cases outcome with
        | answer same states' =>
            obtain ⟨answers, after⟩ := ih states' later
            subst same
            exact ⟨congrArg (_ :: ·) answers, after⟩
        | failure states' =>
            obtain ⟨answers, after⟩ := ih states' later
            exact ⟨congrArg (_ :: ·) answers, after⟩
        | excuse reason => exact absurd reason (here _ rfl)
      · have own : Turn.own id (turn :: rest) = Turn.own id rest :=
          List.filter_cons_of_neg (by simpa using mine)
        obtain ⟨answers, after⟩ := ih (states.switchOther mine turn.quantum) later
        rw [own, Turn.answersTo, if_neg mine]
        exact ⟨answers, after⟩

/-- What is seen as a third is on two sides is seen alike on both. -/
theorem seenAlike_of_common {machine : Interpreter} {first second third : Option Context}
    (left_seen : Option.Rel (SeenAlike left machine) first third)
    (right_seen : Option.Rel (SeenAlike right machine) second third) :
    Option.Rel (SeenAlike left right) first second := by
  cases left_seen with
  | none =>
      cases right_seen
      exact .none
  | some seen =>
      cases right_seen with
      | some seen' =>
          exact .some ⟨seen.alike.trans seen'.alike.symm, seen.layout.trans seen'.layout.symm,
            fun address => (seen.bytes address).trans (seen'.bytes address).symm⟩

/-- **Contexts take their turns independently of each other.**  Whatever operations have led to a
state, let contexts take turns from there, none of which runs out of frames.  Then every context
ends each of its turns as it does when it takes them alone, in the same order, from the same state,
and it comes out the same: in its registers, its program counter, its count of instructions and
everything else but its address space, and of that in its layout and in every byte.  So it fares
alike in any two interleavings of the same turns.

What may differ is which frames are behind its pages. -/
theorem interleaving_independent (frames : Nat) (tracing : Bool) (journal : Journal)
    (operations : List Operation) (turns : List Turn) :
    let reached := stateAfter Operation.perform operations (.empty frames tracing journal)
    let after (turns : List Turn) := stateAfter Turn.perform turns reached
    Turn.Backed turns reached →
      (∀ id : ContextId,
        Turn.answersTo id turns reached = Turn.answersTo id (Turn.own id turns) reached ∧
          Option.Rel (SeenAlike (after turns) (after (Turn.own id turns)))
            (after turns).contexts[id]? (after (Turn.own id turns)).contexts[id]?) ∧
      ∀ other : List Turn, (∀ id, Turn.own id other = Turn.own id turns) →
        Turn.Backed other reached → ∀ id : ContextId,
          Turn.answersTo id turns reached = Turn.answersTo id other reached ∧
            Option.Rel (SeenAlike (after turns) (after other))
              (after turns).contexts[id]? (after other).contexts[id]? := by
  intro reached after backed
  have sound : reached.Sound frames :=
    stateAfter_keeps (fun operation _ sound => operation.keeps_sound sound) operations
      (sound_empty frames tracing journal)
  have alone (turns : List Turn) (backed : Turn.Backed turns reached) (id : ContextId) :=
    (CoversAt.refl .same sound id).turns backed
  refine ⟨fun id => ?_, fun other same backed' id => ?_⟩
  · obtain ⟨answers, states⟩ := alone turns backed id
    exact ⟨answers, states.seenAlike⟩
  · obtain ⟨answers, states⟩ := alone turns backed id
    obtain ⟨answers', states'⟩ := alone other backed' id
    rw [same id] at answers' states'
    refine ⟨answers.trans answers'.symm, ?_⟩
    exact seenAlike_of_common states.seenAlike states'.seenAlike

theorem Turn.backed_of_isOk {turns : List Turn} {machine : Interpreter}
    (fine : ((trail Turn.perform turns machine).all fun outcome => outcome.1.isOk) = true) :
    Turn.Backed turns machine := fun outcome member error failed =>
  absurd failed (ne_error_of_succeed (List.all_eq_true.mp fine) outcome member error)

/-- Two contexts that count in a word of their memories, interleaved in two ways. -/
theorem counters_independent :
    let image := Image.ofWords ([.lui 5 0x11000, .ld 6 5 0, .addi 6 6 1, .sd 5 6 0,
      .jal 0 (-12)].map Instruction.encode) (List.replicate 8 0)
    let load := Operation.create image ⟨.demand, 4096, []⟩
    let reached := stateAfter Operation.perform [load, load] (.empty 12 false .silent)
    let after (turns : List Turn) := stateAfter Turn.perform turns reached
    let turns : List Turn := [⟨1, 3⟩, ⟨2, 7⟩, ⟨1, 4⟩, ⟨2, 2⟩, ⟨1, 3⟩]
    let other : List Turn := [⟨2, 7⟩, ⟨1, 3⟩, ⟨1, 4⟩, ⟨1, 3⟩, ⟨2, 2⟩]
    Turn.Backed turns reached ∧ Turn.Backed other reached ∧
      (∀ id, Turn.own id other = Turn.own id turns) ∧
      (Turn.answersTo 1 turns reached = Turn.answersTo 1 (Turn.own 1 turns) reached ∧
        Option.Rel (SeenAlike (after turns) (after (Turn.own 1 turns)))
          (after turns).contexts[1]? (after (Turn.own 1 turns)).contexts[1]?) ∧
      (Turn.answersTo 1 turns reached = Turn.answersTo 1 other reached ∧
        Option.Rel (SeenAlike (after turns) (after other)) (after turns).contexts[1]?
          (after other).contexts[1]?) ∧
      ((after turns).contexts[1]?.map fun context =>
        (context.instructions, ((after turns).memoryOf context).byteAt 0x11000)) =
          some (10, 2) := by
  intro image load reached after turns other
  have backed : Turn.Backed turns reached := Turn.backed_of_isOk (by decide +kernel)
  have backed' : Turn.Backed other reached := Turn.backed_of_isOk (by decide +kernel)
  have same : ∀ id, Turn.own id other = Turn.own id turns := by
    intro id
    by_cases first : 1 = id
    · subst first
      rfl
    · by_cases second : 2 = id
      · subst second
        rfl
      · simp [Turn.own, turns, other, first, second]
  obtain ⟨alone, interleaved⟩ := interleaving_independent 12 false .silent [load, load] turns backed
  exact ⟨backed, backed', same, alone 1, interleaved other same backed' 1, by decide +kernel⟩

end Interpreter

end NestedMachine
