import NestedMachine.Proofs.Action

/-!
# One run follows another

A recorded run and its replay are compared only as long as the record bears it out.  What the
record holds, and whether a refusal was noted, is known when the recorded run is over; so the
comparison is made under a condition on the states of the first run that, once lost, never comes
back (`Pursuit.future`).  While it holds, the second run has to follow: whenever the first answers,
it answers alike, from related states to related states (`Pursuit.Follows`).

A comparison of two runs of equal standing has a condition that is never lost and no excuses
(`Pursuit.evenly`); then errors have to agree as well, and to follow is to agree
(`follows_evenly`, `Follows.agrees`).

Following is kept by sequencing (`Follows.bind`), and a program may look at its state where related
states look alike (`Follows.get_bind`).  By induction, sequences of operations that follow each
other have the same trail, either because all of the first run succeed (`trail_follows`) or because
none of its failures is an excuse (`trail_follows_unless`).
-/

namespace NestedMachine

set_option autoImplicit false

variable {ε σ τ α β γ δ : Type}

/-- What is asked of two runs: a relation of their states, a condition on the first, and the errors
of the first that end the comparison.  Where the condition is lost, every error does. -/
structure Pursuit (ε σ τ : Type) where
  related : σ → τ → Prop
  future : σ → Prop
  excused : ε → σ → Prop
  hopeless : ∀ state, ¬future state → ∀ error, excused error state

namespace Pursuit

variable {pursuit : Pursuit ε σ τ} {same : α → β → Prop} {same' : γ → δ → Prop}

/-- The second outcome follows the first. -/
inductive Follow (pursuit : Pursuit ε σ τ) (same : α → β → Prop) :
    EStateM.Result ε σ α → EStateM.Result ε τ β → Prop where
  | answer {left : α} {right : β} {before : σ} {after : τ} (alike : same left right)
      (states : pursuit.related before after) :
      Follow pursuit same (.ok left before) (.ok right after)
  | failure {error : ε} {before : σ} {after : τ} (states : pursuit.related before after) :
      Follow pursuit same (.error error before) (.error error after)
  | excuse {error : ε} {before : σ} {outcome : EStateM.Result ε τ β}
      (reason : pursuit.excused error before) : Follow pursuit same (.error error before) outcome
  | lost {left : α} {before : σ} {outcome : EStateM.Result ε τ β}
      (vanished : ¬pursuit.future before) : Follow pursuit same (.ok left before) outcome

/-- An action that never brings the condition back. -/
def Irreversible (pursuit : Pursuit ε σ τ) (action : EStateM ε σ α) : Prop :=
  ∀ state, pursuit.future (finalState (action state)) → pursuit.future state

/-- The second action follows the first from all related states, and the first never brings the
condition back. -/
structure Follows (pursuit : Pursuit ε σ τ) (same : α → β → Prop) (left : EStateM ε σ α)
    (right : EStateM ε τ β) : Prop where
  past : pursuit.Irreversible left
  follow : ∀ first second, pursuit.related first second →
    pursuit.Follow same (left first) (right second)

/-- Whatever comes after the condition is lost is followed by anything. -/
theorem follow_of_lost (pursuit : Pursuit ε σ τ) {same : α → β → Prop}
    {outcome : EStateM.Result ε σ α} {other : EStateM.Result ε τ β}
    (lost : ¬pursuit.future (finalState outcome)) : pursuit.Follow same outcome other := by
  cases outcome with
  | ok answer state => exact .lost lost
  | error error state => exact .excuse (pursuit.hopeless state lost error)

namespace Irreversible

theorem pure (answer : α) : pursuit.Irreversible (pure answer) := fun _ future => future

theorem throw (error : ε) : pursuit.Irreversible (throw error : EStateM ε σ α) :=
  fun _ future => future

theorem bind {action : EStateM ε σ α} {next : α → EStateM ε σ γ}
    (first : pursuit.Irreversible action) (rest : ∀ answer, pursuit.Irreversible (next answer)) :
    pursuit.Irreversible (action >>= next) := by
  intro state future
  rw [bind_apply, EStateM.bind] at future
  have before := first state
  cases result : action state with
  | ok answer middle =>
      rw [result] at future before
      exact before (rest answer middle future)
  | error error middle =>
      rw [result] at future before
      exact before future

theorem ite {condition : Prop} [Decidable condition] {action other : EStateM ε σ α}
    (yes : pursuit.Irreversible action) (no : pursuit.Irreversible other) :
    pursuit.Irreversible (if condition then action else other) := by
  split
  · exact yes
  · exact no

theorem get_bind {next : σ → EStateM ε σ γ}
    (rest : ∀ state, pursuit.future (finalState (next state state)) → pursuit.future state) :
    pursuit.Irreversible (get >>= next) := rest

theorem modify {change : σ → σ}
    (past : ∀ state, pursuit.future (change state) → pursuit.future state) :
    pursuit.Irreversible (modify change) := past

end Irreversible

/-- What comes after outcomes that follow each other follows as well. -/
theorem Follow.andThen {left : EStateM ε σ α} {right : EStateM ε τ β} {before : σ} {after : τ}
    (outcome : pursuit.Follow same (left before) (right after)) {next : α → EStateM ε σ γ}
    {next' : β → EStateM ε τ δ} (past : ∀ a, pursuit.Irreversible (next a))
    (rest : ∀ a b, same a b → ∀ s t, pursuit.related s t →
      pursuit.Follow same' (next a s) (next' b t)) :
    pursuit.Follow same' ((left >>= next) before) ((right >>= next') after) := by
  rw [bind_apply, bind_apply]
  unfold EStateM.bind
  generalize left before = leftResult at outcome
  generalize right after = rightResult at outcome
  cases outcome with
  | answer alike states => exact rest _ _ alike _ _ states
  | failure states => exact .failure states
  | excuse reason => exact .excuse reason
  | lost vanished => exact pursuit.follow_of_lost fun future => vanished (past _ _ future)

namespace Follows

theorem pure {left : α} {right : β} (alike : same left right) :
    pursuit.Follows same (pure left) (pure right) :=
  ⟨.pure left, fun _ _ states => .answer alike states⟩

theorem throw (error : ε) : pursuit.Follows same (throw error) (throw error) :=
  ⟨fun _ future => future, fun _ _ states => .failure states⟩

/-- **Following is kept by sequencing.** -/
theorem bind {left : EStateM ε σ α} {right : EStateM ε τ β}
    {next : α → EStateM ε σ γ} {next' : β → EStateM ε τ δ}
    (first : pursuit.Follows same left right) (total : ∀ a, ∃ b, same a b)
    (rest : ∀ a b, same a b → pursuit.Follows same' (next a) (next' b)) :
    pursuit.Follows same' (left >>= next) (right >>= next') := by
  have past (a : α) : pursuit.Irreversible (next a) := by
    obtain ⟨b, alike⟩ := total a
    exact (rest a b alike).past
  refine ⟨first.past.bind past, ?_⟩
  intro s t states
  exact (first.follow s t states).andThen past fun a b alike => (rest a b alike).follow

/-- Sequencing after an action whose answers are equal. -/
theorem bind_eq {left : EStateM ε σ α} {right : EStateM ε τ α}
    {next : α → EStateM ε σ γ} {next' : α → EStateM ε τ δ}
    (first : pursuit.Follows Eq left right)
    (rest : ∀ a, pursuit.Follows same' (next a) (next' a)) :
    pursuit.Follows same' (left >>= next) (right >>= next') :=
  first.bind (fun a => ⟨a, rfl⟩) fun a _ alike => alike ▸ rest a

/-- A program may look at its state, as far as related states look alike. -/
theorem get_bind {pursuit : Pursuit ε σ σ} {alike : σ → σ → Prop} {next : σ → EStateM ε σ γ}
    {next' : σ → EStateM ε σ δ} (refl : ∀ s, alike s s)
    (stable : ∀ s t, pursuit.related s t → alike s t)
    (rest : ∀ s t, alike s t → pursuit.Follows same' (next s) (next' t)) :
    pursuit.Follows same' (get >>= next) (get >>= next') :=
  ⟨fun s future => (rest s s (refl s)).past s future,
    fun s t states => (rest s t (stable s t states)).follow s t states⟩

theorem modify {change : σ → σ} {change' : τ → τ}
    (past : ∀ s, pursuit.future (change s) → pursuit.future s)
    (keeps : ∀ s t, pursuit.related s t → pursuit.related (change s) (change' t)) :
    pursuit.Follows Eq (modify change) (modify change') :=
  ⟨past, fun s t states => .answer rfl (keeps s t states)⟩

theorem ite {condition : Prop} [Decidable condition] {left left' : EStateM ε σ α}
    {right right' : EStateM ε τ β}
    (yes : condition → pursuit.Follows same left right)
    (no : ¬condition → pursuit.Follows same left' right') :
    pursuit.Follows same (if condition then left else left')
      (if condition then right else right') := by
  split
  · rename_i holds
    exact yes holds
  · rename_i fails
    exact no fails

/-- Answers that are alike in one way can be alike in a weaker one. -/
theorem weaken {weaker : α → β → Prop} {left : EStateM ε σ α} {right : EStateM ε τ β}
    (follows : pursuit.Follows same left right) (weak : ∀ a b, same a b → weaker a b) :
    pursuit.Follows weaker left right := by
  refine ⟨follows.past, ?_⟩
  intro s t states
  have outcome := follows.follow s t states
  generalize left s = leftResult at outcome
  generalize right t = rightResult at outcome
  cases outcome with
  | answer alike states' => exact .answer (weak _ _ alike) states'
  | failure states' => exact .failure states'
  | excuse reason => exact .excuse reason
  | lost vanished => exact .lost vanished

end Follows

/-! ## Runs of equal standing -/

/-- The comparison of two runs neither of which has an advantage. -/
def evenly (related : σ → τ → Prop) : Pursuit ε σ τ where
  related := related
  future _ := True
  excused _ _ := False
  hopeless _ lost := absurd trivial lost

/-- Between runs of equal standing, actions that agree follow each other. -/
theorem follows_evenly {related : σ → τ → Prop} {left : EStateM ε σ α} {right : EStateM ε τ β}
    (agrees : Agrees (fun _ => False) related same left right) :
    (evenly related).Follows same left right := by
  refine ⟨fun _ _ => trivial, ?_⟩
  intro s t states
  have outcome := agrees s t states
  generalize left s = first at outcome
  generalize right t = second at outcome
  cases outcome with
  | answer alike states' => exact .answer alike states'
  | failure states' => exact .failure states'
  | excuse reason => exact reason.elim

theorem Follows.agrees {related : σ → τ → Prop} {left : EStateM ε σ α} {right : EStateM ε τ β}
    (follows : (evenly related).Follows same left right) :
    Agrees (fun _ => False) related same left right := by
  intro s t states
  have outcome := follows.follow s t states
  generalize left s = first at outcome
  generalize right t = second at outcome
  cases outcome with
  | answer alike states' => exact .answer alike states'
  | failure states' => exact .failure states'
  | excuse reason => exact reason.elim
  | lost vanished => exact absurd trivial vanished

/-! ## Fatal answers -/

/-- The second action follows the first, unless the answer of the first is fatal. -/
structure FollowsUnless (pursuit : Pursuit ε σ τ) (fatal : α → Prop) (left : EStateM ε σ α)
    (right : EStateM ε τ α) : Prop where
  past : pursuit.Irreversible left
  follow : ∀ first second, pursuit.related first second →
    (∃ answer after, left first = .ok answer after ∧ fatal answer) ∨
      pursuit.Follow Eq (left first) (right second)

theorem Follows.unless {left : EStateM ε σ α} {right : EStateM ε τ α} {fatal : α → Prop}
    (follows : pursuit.Follows Eq left right) : pursuit.FollowsUnless fatal left right :=
  ⟨follows.past, fun s t states => .inr (follows.follow s t states)⟩

/-- After a fatal answer nothing more is asked of the second action. -/
theorem FollowsUnless.bind {left : EStateM ε σ α} {right : EStateM ε τ α} {fatal : α → Prop}
    {next : α → EStateM ε σ γ} {next' : α → EStateM ε τ δ}
    (first : pursuit.FollowsUnless fatal left right)
    (rest : ∀ a, pursuit.Follows same' (next a) (next' a))
    (doomed : ∀ a, fatal a → ∀ state (outcome : EStateM.Result ε τ δ),
      pursuit.Follow same' (next a state) outcome) :
    pursuit.Follows same' (left >>= next) (right >>= next') := by
  refine ⟨first.past.bind fun a => (rest a).past, ?_⟩
  intro s t states
  rcases first.follow s t states with ⟨answer, after, result, fatal⟩ | outcome
  · rw [bind_of_ok result]
    exact doomed answer fatal after _
  · refine outcome.andThen (fun a => (rest a).past) ?_
    rintro a _ rfl
    exact (rest a).follow

/-! ## Sequences of operations -/

variable {ω : Type} {perform : ω → EStateM ε σ α} {perform' : ω → EStateM ε τ α}

theorem future_of_stateAfter {operations : List ω}
    (past : ∀ operation ∈ operations, pursuit.Irreversible (perform operation)) {state : σ}
    (future : pursuit.future (stateAfter perform operations state)) : pursuit.future state := by
  induction operations generalizing state with
  | nil => exact future
  | cons operation rest ih =>
      apply past operation List.mem_cons_self
      exact ih (fun later member => past later (List.mem_cons_of_mem _ member)) future

/-- **Operations that follow each other have the same trail**, through related states, if all of
the first run succeed and the condition is not lost in the end. -/
theorem trail_follows {operations : List ω}
    (follows : ∀ operation ∈ operations,
      pursuit.Follows Eq (perform operation) (perform' operation))
    {left : σ} {right : τ} (states : pursuit.related left right)
    (succeed : ∀ entry ∈ trail perform operations left, entry.1.isOk = true)
    (future : pursuit.future (stateAfter perform operations left)) :
    List.Forall₂ (fun before after => before.1 = after.1 ∧ pursuit.related before.2 after.2)
        (trail perform operations left) (trail perform' operations right) ∧
      pursuit.related (stateAfter perform operations left)
        (stateAfter perform' operations right) := by
  induction operations generalizing left right with
  | nil => exact ⟨.nil, states⟩
  | cons operation rest ih =>
      have later (other : ω) (member : other ∈ rest) :
          pursuit.Follows Eq (perform other) (perform' other) :=
        follows other (List.mem_cons_of_mem _ member)
      have future : pursuit.future
        (stateAfter perform rest (finalState (perform operation left))) := future
      have kept : pursuit.future (finalState (perform operation left)) :=
        future_of_stateAfter (fun other member => (later other member).past) future
      have answered := succeed _ List.mem_cons_self
      have outcome := (follows operation List.mem_cons_self).follow left right states
      have ih := @ih later (finalState (perform operation left))
        (finalState (perform' operation right))
      have succeed := fun entry member => succeed entry (List.mem_cons_of_mem _ member)
      unfold trail stateAfter
      rw [List.foldl_cons, List.foldl_cons]
      dsimp only at answered
      generalize perform operation left = first at outcome kept answered ih succeed future
      generalize perform' operation right = second at outcome ih
      cases outcome with
      | answer alike states' =>
          obtain ⟨trails, final⟩ := ih states' succeed future
          exact ⟨.cons ⟨by rw [alike]; rfl, states'⟩ trails, final⟩
      | failure states' => cases answered
      | excuse reason => cases answered
      | lost vanished => exact absurd kept vanished

/-- **Operations that follow each other have the same trail**, failures included, if no failure of
the first run is an excuse while the condition holds, and the condition is not lost in the end. -/
theorem trail_follows_unless {operations : List ω}
    (follows : ∀ operation ∈ operations,
      pursuit.Follows Eq (perform operation) (perform' operation))
    {left : σ} {right : τ} (states : pursuit.related left right)
    (unexcused : ∀ entry ∈ trail perform operations left, pursuit.future entry.2 →
      ∀ error, entry.1 = .error error → ¬pursuit.excused error entry.2)
    (future : pursuit.future (stateAfter perform operations left)) :
    List.Forall₂ (fun before after => before.1 = after.1 ∧ pursuit.related before.2 after.2)
      (trail perform operations left) (trail perform' operations right) := by
  induction operations generalizing left right with
  | nil => exact .nil
  | cons operation rest ih =>
      have later (other : ω) (member : other ∈ rest) :
          pursuit.Follows Eq (perform other) (perform' other) :=
        follows other (List.mem_cons_of_mem _ member)
      have future : pursuit.future
        (stateAfter perform rest (finalState (perform operation left))) := future
      have kept : pursuit.future (finalState (perform operation left)) :=
        future_of_stateAfter (fun other member => (later other member).past) future
      have outcome := (follows operation List.mem_cons_self).follow left right states
      obtain ⟨here, unexcused⟩ := List.forall_mem_cons.mp unexcused
      have ih := @ih later (finalState (perform operation left))
        (finalState (perform' operation right))
      unfold trail
      dsimp only at here
      generalize perform operation left = first at outcome kept here ih unexcused future
      generalize perform' operation right = second at outcome ih
      cases outcome with
      | answer alike states' =>
          exact .cons ⟨by rw [alike]; rfl, states'⟩ (ih states' unexcused future)
      | failure states' => exact .cons ⟨rfl, states'⟩ (ih states' unexcused future)
      | excuse reason => exact absurd reason (here kept _ rfl)
      | lost vanished => exact absurd kept vanished

end Pursuit

end NestedMachine
