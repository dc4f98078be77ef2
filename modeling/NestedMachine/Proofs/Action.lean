import Mathlib.Data.List.Forall2

/-!
# Two runs of an action

Most statements about the machine compare two runs: of the same requests on two stacks of
levels, of a program and of its replay.  What is compared are the outcomes of two actions from
two states.  They agree if both answer or both fail, alike, and leave states that are related
again (`Agree`).  A failure of the first action can also be an excuse: nothing is asked of the
second one then.

Two actions agree if their outcomes do from all related states (`Agrees`).  This is kept by
sequencing (`Agrees.bind`), so that a program built from agreeing actions agrees with itself.
With the diagonal of a predicate for the relation, agreement says that an action keeps the
predicate (`Agrees.keeps`).
-/

namespace NestedMachine

set_option autoImplicit false

variable {ε σ τ α β γ δ : Type}

/-- An action, and then another one where the first leaves off. -/
theorem bind_apply (action : EStateM ε σ α) (next : α → EStateM ε σ γ) (state : σ) :
    (action >>= next) state = EStateM.bind action next state := rfl

/-- What follows a look at the state is given the state. -/
theorem get_bind_apply (next : σ → EStateM ε σ α) (state : σ) :
    (get >>= next) state = next state state := rfl

/-- Two outcomes are the same, up to a relation of the states left; or the first is an excuse. -/
inductive Agree (excused : ε → Prop) (related : σ → τ → Prop) (same : α → β → Prop) :
    EStateM.Result ε σ α → EStateM.Result ε τ β → Prop where
  | answer {left : α} {right : β} {before : σ} {after : τ} (alike : same left right)
      (states : related before after) :
      Agree excused related same (.ok left before) (.ok right after)
  | failure {error : ε} {before : σ} {after : τ} (states : related before after) :
      Agree excused related same (.error error before) (.error error after)
  | excuse {error : ε} {before : σ} {outcome : EStateM.Result ε τ β} (reason : excused error) :
      Agree excused related same (.error error before) outcome

namespace Agree

variable {excused : ε → Prop} {related : σ → τ → Prop} {same : α → β → Prop}
  {same' : γ → δ → Prop} {action : EStateM ε σ α} {next : α → EStateM ε σ γ} {before : σ}

/-- What answers goes on, and agrees with what its continuation agrees with. -/
theorem bind_answer {answer : β} {after : τ} {outcome : EStateM.Result ε τ δ}
    (first : Agree excused related same (action before) (.ok answer after))
    (rest : ∀ a middle, same a answer → related middle after →
      Agree excused related same' (next a middle) outcome) :
    Agree excused related same' ((action >>= next) before) outcome := by
  rw [bind_apply, EStateM.bind]
  generalize action before = result at first
  cases first with
  | answer alike states => exact rest _ _ alike states
  | excuse reason => exact .excuse reason

/-- What fails goes no further. -/
theorem bind_failure {error : ε} {after : τ}
    (first : Agree excused related same (action before)
      (.error error after : EStateM.Result ε τ β)) :
    Agree excused related same' ((action >>= next) before)
      (.error error after : EStateM.Result ε τ δ) := by
  rw [bind_apply, EStateM.bind]
  generalize action before = result at first
  cases first with
  | failure states => exact .failure states
  | excuse reason => exact .excuse reason

/-- What comes after outcomes that agree agrees as well. -/
theorem bind {left : EStateM ε σ α} {right : EStateM ε τ β} {after : τ}
    {next' : β → EStateM ε τ δ} (first : Agree excused related same (left before) (right after))
    (rest : ∀ a b, same a b → ∀ s t, related s t →
      Agree excused related same' (next a s) (next' b t)) :
    Agree excused related same' ((left >>= next) before) ((right >>= next') after) := by
  rw [bind_apply, bind_apply]
  unfold EStateM.bind
  generalize left before = leftResult at first
  generalize right after = rightResult at first
  cases first with
  | answer alike states => exact rest _ _ alike _ _ states
  | failure states => exact .failure states
  | excuse reason => exact .excuse reason

/-- Outcomes without excuses agree with whatever those agree with that they agree with. -/
theorem trans {ρ : Type} {second : τ → ρ → Prop} {whole : σ → ρ → Prop}
    {first : EStateM.Result ε σ α} {middle : EStateM.Result ε τ α} {last : EStateM.Result ε ρ α}
    (here : Agree (fun _ => False) related Eq first middle)
    (there : Agree (fun _ => False) second Eq middle last)
    (compose : ∀ {a b c}, related a b → second b c → whole a c) :
    Agree (fun _ => False) whole Eq first last := by
  cases here with
  | answer alike states =>
      cases there with
      | answer alike' states' => exact .answer (alike.trans alike') (compose states states')
  | failure states =>
      cases there with
      | failure states' => exact .failure (compose states states')
      | excuse reason => exact reason.elim
  | excuse reason => exact reason.elim

theorem symm {converse : τ → σ → Prop} {first : EStateM.Result ε σ α}
    {second : EStateM.Result ε τ α} (agree : Agree (fun _ => False) related Eq first second)
    (turn : ∀ {a b}, related a b → converse b a) :
    Agree (fun _ => False) converse Eq second first := by
  cases agree with
  | answer alike states => exact .answer alike.symm (turn states)
  | failure states => exact .failure (turn states)
  | excuse reason => exact reason.elim

/-- What agrees with an answer is an answer. -/
theorem ok {outcome : EStateM.Result ε τ α} {answer : α}
    (agree : Agree (fun _ => False) related Eq (.ok answer before) outcome) :
    ∃ after, outcome = .ok answer after ∧ related before after := by
  cases agree with
  | answer alike states => exact ⟨_, by rw [alike], states⟩

/-- What agrees with an error is that error. -/
theorem error {outcome : EStateM.Result ε τ β} {failed : ε}
    (agree : Agree (fun _ => False) related same
      (.error failed before : EStateM.Result ε σ α) outcome) :
    ∃ after, outcome = .error failed after ∧ related before after := by
  cases agree with
  | failure states => exact ⟨_, rfl, states⟩
  | excuse reason => exact reason.elim

end Agree

/-- Two actions have agreeing outcomes from all related states. -/
def Agrees (excused : ε → Prop) (related : σ → τ → Prop) (same : α → β → Prop)
    (left : EStateM ε σ α) (right : EStateM ε τ β) : Prop :=
  ∀ first second, related first second → Agree excused related same (left first) (right second)

namespace Agrees

variable {excused : ε → Prop} {related : σ → τ → Prop} {same : α → β → Prop}
  {same' : γ → δ → Prop}

theorem pure {left : α} {right : β} (alike : same left right) :
    Agrees excused related same (pure left) (pure right) :=
  fun _ _ states => .answer alike states

theorem throw (error : ε) :
    Agrees excused related same (throw error) (throw error) :=
  fun _ _ states => .failure states

/-- **Agreement is kept by sequencing.** -/
theorem bind {left : EStateM ε σ α} {right : EStateM ε τ β}
    {next : α → EStateM ε σ γ} {next' : β → EStateM ε τ δ}
    (first : Agrees excused related same left right)
    (rest : ∀ a b, same a b → Agrees excused related same' (next a) (next' b)) :
    Agrees excused related same' (left >>= next) (right >>= next') :=
  fun s t states => (first s t states).bind fun a b alike => rest a b alike

/-- An action may look at the state first: the two looks are at related states. -/
theorem get_bind {next : σ → EStateM ε σ α} {next' : τ → EStateM ε τ β}
    (rest : ∀ s t, related s t → Agrees excused related same (next s) (next' t)) :
    Agrees excused related same (get >>= next) (get >>= next') :=
  fun s t states => rest s t states s t states

theorem modify {change : σ → σ} {change' : τ → τ}
    (keeps : ∀ s t, related s t → related (change s) (change' t)) :
    Agrees excused related Eq (modify change) (modify change') :=
  fun s t states => .answer rfl (keeps s t states)

theorem ite {condition : Prop} [Decidable condition] {left left' : EStateM ε σ α}
    {right right' : EStateM ε τ β}
    (yes : condition → Agrees excused related same left right)
    (no : ¬condition → Agrees excused related same left' right') :
    Agrees excused related same (if condition then left else left')
      (if condition then right else right') := by
  split
  · rename_i holds
    exact yes holds
  · rename_i fails
    exact no fails

/-- Agreement without excuses is kept when errors are caught. -/
theorem tryCatch {left : EStateM ε σ α} {right : EStateM ε τ β} {handle : ε → EStateM ε σ α}
    {handle' : ε → EStateM ε τ β} (first : Agrees (fun _ => False) related same left right)
    (rest : ∀ error, Agrees (fun _ => False) related same (handle error) (handle' error)) :
    Agrees (fun _ => False) related same (tryCatch left handle) (tryCatch right handle') := by
  intro s t states
  have outcome := first s t states
  show Agree _ related same (EStateM.tryCatch left handle s) (EStateM.tryCatch right handle' t)
  unfold EStateM.tryCatch
  generalize left s = leftResult at outcome
  generalize right t = rightResult at outcome
  cases outcome with
  | answer alike states' => exact .answer alike states'
  | failure states' => exact rest _ _ _ states'
  | excuse reason => exact reason.elim

end Agrees

/-- The relation of a state with itself where a predicate holds. -/
def Diagonal (invariant : σ → Prop) (left right : σ) : Prop := left = right ∧ invariant left

/-- The state that an outcome leaves. -/
def finalState : EStateM.Result ε σ α → σ
  | .ok _ state => state
  | .error _ state => state

/-- An answer that is wrapped leaves the state as it was. -/
theorem finalState_map (action : EStateM ε σ α) (wrap : α → β) (state : σ) :
    finalState ((do return wrap (← action) : EStateM ε σ β) state) = finalState (action state) := by
  rw [bind_apply, EStateM.bind]
  cases action state <;> rfl

/-- What an outcome answers. -/
def answerOf : EStateM.Result ε σ α → Except ε α
  | .ok answer _ => .ok answer
  | .error error _ => .error error

theorem ok_of_answerOf {result : EStateM.Result ε σ α} {answer : α}
    (told : answerOf result = .ok answer) : result = .ok answer (finalState result) := by
  cases result with
  | ok answer' state =>
      obtain rfl := Except.ok.inj told
      rfl
  | error error state => cases told

theorem ok_of_isOk {result : EStateM.Result ε σ α} (answers : (answerOf result).isOk = true) :
    ∃ answer, result = .ok answer (finalState result) := by
  cases result with
  | ok answer state => exact ⟨answer, rfl⟩
  | error error state => cases answers

/-- An action that answers has done its first part and then the rest. -/
theorem ok_of_bind {action : EStateM ε σ α} {next : α → EStateM ε σ γ} {answer : γ}
    {before after : σ} (run : (action >>= next) before = .ok answer after) :
    ∃ first middle, action before = .ok first middle ∧ next first middle = .ok answer after := by
  rw [bind_apply, EStateM.bind] at run
  cases result : action before with
  | ok first middle =>
      rw [result] at run
      exact ⟨first, middle, rfl, run⟩
  | error error middle =>
      rw [result] at run
      cases run

/-- An action whose first part answers goes on from there. -/
theorem bind_of_ok {action : EStateM ε σ α} {first : α} {before middle : σ}
    (run : action before = .ok first middle) (next : α → EStateM ε σ γ) :
    (action >>= next) before = next first middle := by
  rw [bind_apply, EStateM.bind, run]

/-- An action whose first part fails goes no further. -/
theorem bind_of_error {action : EStateM ε σ α} {error : ε} {before middle : σ}
    (run : action before = .error error middle) (next : α → EStateM ε σ γ) :
    (action >>= next) before = .error error middle := by
  rw [bind_apply, EStateM.bind, run]

/-- Outcomes that agree have the same answer and leave related states. -/
theorem Agree.outcome {related : σ → τ → Prop} {first : EStateM.Result ε σ α}
    {second : EStateM.Result ε τ α} (agree : Agree (fun _ => False) related Eq first second) :
    answerOf first = answerOf second ∧ related (finalState first) (finalState second) := by
  cases agree with
  | answer alike states => exact ⟨congrArg Except.ok alike, states⟩
  | failure states => exact ⟨rfl, states⟩
  | excuse reason => exact reason.elim

/-- An action that agrees with itself on the diagonal of a predicate keeps the predicate. -/
theorem Agrees.keeps {invariant : σ → Prop} {same : α → α → Prop} {action : EStateM ε σ α}
    (agrees : Agrees (fun _ => False) (Diagonal invariant) same action action) {state : σ}
    (holds : invariant state) : invariant (finalState (action state)) := by
  have outcome := agrees state state ⟨rfl, holds⟩
  cases result : action state with
  | ok a s =>
      rw [result] at outcome
      cases outcome with
      | answer _ states => exact states.2
  | error e s =>
      rw [result] at outcome
      cases outcome with
      | failure states => exact states.2
      | excuse reason => exact reason.elim

/-- An action that keeps a predicate agrees with itself on the diagonal. -/
theorem Agrees.of_keeps {excused : ε → Prop} {invariant : σ → Prop} {action : EStateM ε σ α}
    (keeps : ∀ state, invariant state → invariant (finalState (action state))) :
    Agrees excused (Diagonal invariant) Eq action action := by
  rintro state _ ⟨rfl, holds⟩
  have kept := keeps state holds
  cases result : action state with
  | ok answer after =>
      rw [result] at kept
      exact .answer rfl ⟨rfl, kept⟩
  | error error after =>
      rw [result] at kept
      exact .failure ⟨rfl, kept⟩

/-! ## Sequences of operations -/

variable {ω : Type}

/-- The state after operations have been carried out in order, whether they failed or not. -/
def stateAfter (perform : ω → EStateM ε σ α) (operations : List ω) (state : σ) : σ :=
  operations.foldl (fun state operation => finalState (perform operation state)) state

/-- What operations answer, each with the state after it. -/
def trail (perform : ω → EStateM ε σ α) : List ω → σ → List (Except ε α × σ)
  | [], _ => []
  | operation :: rest, state =>
      let outcome := perform operation state
      (answerOf outcome, finalState outcome) :: trail perform rest (finalState outcome)

theorem stateAfter_append (perform : ω → EStateM ε σ α) (operations later : List ω) (state : σ) :
    stateAfter perform (operations ++ later) state =
      stateAfter perform later (stateAfter perform operations state) :=
  List.foldl_append

theorem trail_append (perform : ω → EStateM ε σ α) (operations later : List ω) (state : σ) :
    trail perform (operations ++ later) state =
      trail perform operations state ++
        trail perform later (stateAfter perform operations state) := by
  induction operations generalizing state with
  | nil => rfl
  | cons operation rest ih => exact congrArg (_ :: ·) (ih _)

/-- What every operation keeps, sequences of operations keep. -/
theorem stateAfter_keeps {perform : ω → EStateM ε σ α} {invariant : σ → Prop}
    (keeps : ∀ operation state, invariant state → invariant (finalState (perform operation state)))
    (operations : List ω) {state : σ} (holds : invariant state) :
    invariant (stateAfter perform operations state) := by
  induction operations generalizing state with
  | nil => exact holds
  | cons operation rest ih => exact ih (keeps operation state holds)

/-- Operations that agree have the same trail, through related states, if no failure of the first
ones is an excuse. -/
theorem trail_agrees_unless {excused : ε → Prop} {related : σ → τ → Prop}
    {perform : ω → EStateM ε σ α} {perform' : ω → EStateM ε τ α}
    (agrees : ∀ operation, Agrees excused related Eq (perform operation) (perform' operation))
    (operations : List ω) {left : σ} {right : τ} (states : related left right)
    (unexcused : ∀ entry ∈ trail perform operations left, ∀ error, entry.1 = .error error →
      ¬excused error) :
    List.Forall₂ (fun before after => before.1 = after.1 ∧ related before.2 after.2)
      (trail perform operations left) (trail perform' operations right) := by
  induction operations generalizing left right with
  | nil => exact .nil
  | cons operation rest ih =>
      have outcome := agrees operation left right states
      unfold trail at unexcused ⊢
      generalize perform operation left = first at outcome unexcused
      generalize perform' operation right = second at outcome
      obtain ⟨here, later⟩ := List.forall_mem_cons.mp unexcused
      cases outcome with
      | answer alike states' => exact .cons ⟨by rw [alike]; rfl, states'⟩ (ih states' later)
      | failure states' => exact .cons ⟨rfl, states'⟩ (ih states' later)
      | excuse reason => exact absurd reason (here _ rfl)

/-- Operations that agree have the same trail, through related states. -/
theorem trail_agrees {related : σ → τ → Prop} {perform : ω → EStateM ε σ α}
    {perform' : ω → EStateM ε τ α}
    (agrees : ∀ operation, Agrees (fun _ => False) related Eq (perform operation)
      (perform' operation)) (operations : List ω) {left : σ} {right : τ}
    (states : related left right) :
    List.Forall₂ (fun before after => before.1 = after.1 ∧ related before.2 after.2)
      (trail perform operations left) (trail perform' operations right) :=
  trail_agrees_unless agrees operations states fun _ _ _ _ excuse => excuse

/-- Operations that agree lead from related states to related states. -/
theorem stateAfter_agrees {related : σ → τ → Prop} {perform : ω → EStateM ε σ α}
    {perform' : ω → EStateM ε τ α}
    (agrees : ∀ operation, Agrees (fun _ => False) related Eq (perform operation)
      (perform' operation)) (operations : List ω) {left : σ} {right : τ}
    (states : related left right) :
    related (stateAfter perform operations left) (stateAfter perform' operations right) := by
  induction operations generalizing left right with
  | nil => exact states
  | cons operation rest ih =>
      have outcome := agrees operation left right states
      unfold stateAfter
      rw [List.foldl_cons, List.foldl_cons]
      generalize perform operation left = first at outcome
      generalize perform' operation right = second at outcome
      cases outcome with
      | answer alike states' => exact ih states'
      | failure states' => exact ih states'
      | excuse reason => exact reason.elim

/-- What the answers of one trail have in common, those of a trail with the same answers have. -/
theorem trails_share {related : σ → τ → Prop} {first : List (Except ε α × σ)}
    {second : List (Except ε α × τ)} (property : Except ε α → Prop)
    (same : List.Forall₂ (fun before after => before.1 = after.1 ∧ related before.2 after.2) first
      second)
    (shared : ∀ entry ∈ first, property entry.1) : ∀ entry ∈ second, property entry.1 := by
  induction same with
  | nil => exact fun entry member => nomatch member
  | cons head tail ih =>
      obtain ⟨here, later⟩ := List.forall_mem_cons.mp shared
      rw [head.1] at here
      exact List.forall_mem_cons.mpr ⟨here, ih later⟩

/-- Where one trail has no failures, a trail with the same answers has none. -/
theorem trails_succeed {related : σ → τ → Prop} {first : List (Except ε α × σ)}
    {second : List (Except ε α × τ)}
    (same : List.Forall₂ (fun before after => before.1 = after.1 ∧ related before.2 after.2) first
      second)
    (succeed : ∀ entry ∈ first, entry.1.isOk = true) : ∀ entry ∈ second, entry.1.isOk = true :=
  trails_share (fun answer => answer.isOk = true) same succeed

/-- Where every outcome is an answer, none is a failure. -/
theorem ne_error_of_succeed {outcomes : List (Except ε α × σ)}
    (succeed : ∀ outcome ∈ outcomes, outcome.1.isOk = true) :
    ∀ outcome ∈ outcomes, ∀ error, outcome.1 ≠ .error error := by
  intro outcome member error failed
  have answered := succeed outcome member
  rw [failed] at answered
  cases answered

/-- Comparisons of trails are passed on. -/
theorem trails_compose {first : List α} {second : List β} {third : List γ} {r : α → β → Prop}
    {s : β → γ → Prop} {t : α → γ → Prop} (compose : ∀ a b c, r a b → s b c → t a c)
    (left : List.Forall₂ r first second) (right : List.Forall₂ s second third) :
    List.Forall₂ t first third := by
  induction left generalizing third with
  | nil =>
      cases right with
      | nil => exact .nil
  | cons head tail ih =>
      cases right with
      | cons head' tail' => exact .cons (compose _ _ _ head head') (ih tail')

end NestedMachine
