import NestedMachine.Proofs.Action

/-!
# What an action ensures

A run of an action halts with an answer or with an error, and either leaves a state (`Halts`).  What
is known of a run is composed along the program (`Halts.bind`).  What an action keeps holds after it
if it held before (`Keeps`), and its errors can be told as well (`Stays`).

A triple speaks about all runs from states of which `before` holds: an answer leaves a state of
which `after` holds, and an error is among those that may happen (`Ensures`).  Nothing is said about
the state that an error leaves.  Triples are composed in the same way (`Ensures.bind`), and a fact
about the state on the way is carried along as a part of `before`.
-/

namespace NestedMachine

set_option autoImplicit false

variable {ε σ α β : Type}

/-! ## One run -/

/-- An outcome is an answer with a state as wanted, or an error with a state that may be left. -/
def Halts (failed : ε → σ → Prop) (after : α → σ → Prop) : EStateM.Result ε σ α → Prop
  | .ok answer state => after answer state
  | .error error state => failed error state

/-- No error. -/
def Never (_ : ε) (_ : σ) : Prop := False

namespace Halts

variable {failed : ε → σ → Prop} {after : α → σ → Prop} {final : β → σ → Prop} {origin : σ}

theorem pure {answer : α} (holds : after answer origin) :
    Halts failed after ((pure answer : EStateM ε σ α) origin) := holds

theorem throw {error : ε} (holds : failed error origin) :
    Halts failed after ((throw error : EStateM ε σ α) origin) := holds

/-- **What is known of a run is composed by sequencing.** -/
theorem bind {action : EStateM ε σ α} {next : α → EStateM ε σ β}
    (first : Halts failed after (action origin))
    (rest : ∀ answer middle, after answer middle → Halts failed final (next answer middle)) :
    Halts failed final ((action >>= next) origin) := by
  rw [bind_apply, EStateM.bind]
  generalize action origin = result at first
  cases result with
  | ok answer middle => exact rest answer middle first
  | error error middle => exact first

/-- A program may look at its state first. -/
theorem get_bind {next : σ → EStateM ε σ β} (rest : Halts failed final (next origin origin)) :
    Halts failed final ((get >>= next) origin) := rest

/-- Less may be wanted. -/
theorem mono {worse : ε → σ → Prop} {wanted : α → σ → Prop} {result : EStateM.Result ε σ α}
    (halts : Halts failed after result)
    (weak : ∀ answer state, after answer state → wanted answer state)
    (fails : ∀ error state, failed error state → worse error state) :
    Halts worse wanted result := by
  cases result with
  | ok answer middle => exact weak answer middle halts
  | error error middle => exact fails error middle halts

/-- What is known of a run in two ways. -/
theorem both {failed' : ε → σ → Prop} {after' : α → σ → Prop} {result : EStateM.Result ε σ α}
    (first : Halts failed after result) (second : Halts failed' after' result) :
    Halts (fun error state => failed error state ∧ failed' error state)
      (fun answer state => after answer state ∧ after' answer state) result := by
  cases result <;> exact ⟨first, second⟩

/-- What is known of the state that is left. -/
theorem of_finalState {holds : σ → Prop} {result : EStateM.Result ε σ α}
    (given : holds (finalState result)) : Halts (fun _ => holds) (fun _ => holds) result := by
  cases result <;> exact given

theorem left {holds : σ → Prop} {result : EStateM.Result ε σ α}
    (halts : Halts (fun _ => holds) (fun _ => holds) result) : holds (finalState result) := by
  cases result <;> exact halts

/-- What cannot fail fails in no way, and less may be wanted of it. -/
theorem certain {wanted : α → σ → Prop} {result : EStateM.Result ε σ α}
    (halts : Halts Never after result)
    (weak : ∀ answer state, after answer state → wanted answer state) :
    Halts failed wanted result :=
  halts.mono weak fun _ _ never => never.elim

end Halts

/-! ## What is kept -/

/-- What holds before an action holds after it, whether it answers or fails. -/
def Keeps (holds : σ → Prop) (action : EStateM ε σ α) : Prop :=
  ∀ state, holds state → Halts (fun _ => holds) (fun _ => holds) (action state)

namespace Keeps

variable {holds : σ → Prop}

theorem pure (answer : α) : Keeps holds (pure answer : EStateM ε σ α) := fun _ given => given

theorem throw (error : ε) : Keeps holds (throw error : EStateM ε σ α) := fun _ given => given

theorem bind {action : EStateM ε σ α} {next : α → EStateM ε σ β} (first : Keeps holds action)
    (rest : ∀ answer, Keeps holds (next answer)) : Keeps holds (action >>= next) :=
  fun state given => (first state given).bind fun answer middle => rest answer middle

/-- A program may look at its state first. -/
theorem get_bind {next : σ → EStateM ε σ β} (rest : ∀ look, Keeps holds (next look)) :
    Keeps holds (get >>= next) :=
  fun state given => rest state state given

theorem modify {change : σ → σ} (keeps : ∀ state, holds state → holds (change state)) :
    Keeps holds (modify change : EStateM ε σ PUnit) :=
  fun state given => keeps state given

theorem ite {condition : Prop} [Decidable condition] {action other : EStateM ε σ α}
    (yes : Keeps holds action) (no : Keeps holds other) :
    Keeps holds (if condition then action else other) := by
  split
  · exact yes
  · exact no

/-- Two properties that are kept are kept together. -/
theorem and {other : σ → Prop} {action : EStateM ε σ α} (first : Keeps holds action)
    (second : Keeps other action) : Keeps (fun state => holds state ∧ other state) action :=
  fun state given => (first state given.1).both (second state given.2)

/-- What holds after an answer; nothing is asked of errors. -/
theorem halts {action : EStateM ε σ α} (keeps : Keeps holds action) {state : σ}
    (given : holds state) : Halts (fun _ _ => True) (fun _ => holds) (action state) :=
  (keeps state given).mono (fun _ _ given => given) fun _ _ _ => trivial

theorem finalState {action : EStateM ε σ α} (keeps : Keeps holds action) {state : σ}
    (given : holds state) : holds (finalState (action state)) :=
  (keeps state given).left

/-- What is kept holds after an action that succeeds. -/
theorem of_ok {action : EStateM ε σ α} (keeps : Keeps holds action) {answer : α} {state after : σ}
    (done : action state = .ok answer after) (given : holds state) : holds after := by
  have kept := keeps state given
  rw [done] at kept
  exact kept

end Keeps

/-! ## What is kept, and what may go wrong -/

/-- What holds before an action holds after it, and an error is among those that may happen. -/
def Stays (may : ε → Prop) (holds : σ → Prop) (action : EStateM ε σ α) : Prop :=
  ∀ state, holds state →
    Halts (fun error after => may error ∧ holds after) (fun _ => holds) (action state)

namespace Stays

variable {may : ε → Prop} {holds : σ → Prop}

theorem keeps {action : EStateM ε σ α} (stays : Stays may holds action) : Keeps holds action :=
  fun state given => (stays state given).mono (fun _ _ held => held) fun _ _ failed => failed.2

theorem pure (answer : α) : Stays may holds (pure answer : EStateM ε σ α) := fun _ given => given

theorem throw {error : ε} (allowed : may error) :
    Stays may holds (throw error : EStateM ε σ α) := fun _ given => ⟨allowed, given⟩

theorem bind {action : EStateM ε σ α} {next : α → EStateM ε σ β} (first : Stays may holds action)
    (rest : ∀ answer, Stays may holds (next answer)) : Stays may holds (action >>= next) :=
  fun state given => (first state given).bind fun answer middle => rest answer middle

/-- A program may look at its state first. -/
theorem get_bind {next : σ → EStateM ε σ β} (rest : ∀ look, Stays may holds (next look)) :
    Stays may holds (get >>= next) :=
  fun state given => rest state state given

theorem modify {change : σ → σ} (keeps : ∀ state, holds state → holds (change state)) :
    Stays may holds (modify change : EStateM ε σ PUnit) :=
  fun state given => keeps state given

theorem ite {condition : Prop} [Decidable condition] {action other : EStateM ε σ α}
    (yes : Stays may holds action) (no : Stays may holds other) :
    Stays may holds (if condition then action else other) := by
  split
  · exact yes
  · exact no

end Stays

/-- What is kept stays, whatever goes wrong. -/
theorem Keeps.stays {holds : σ → Prop} {action : EStateM ε σ α} (keeps : Keeps holds action) :
    Stays (fun _ => True) holds action :=
  fun state given => (keeps state given).mono (fun _ _ held => held) fun _ _ held => ⟨trivial, held⟩

/-! ## Triples -/

/-- An outcome is an answer with a state as wanted, or an error that may happen. -/
def Ends (failed : ε → Prop) (after : α → σ → Prop) : EStateM.Result ε σ α → Prop
  | .ok answer state => after answer state
  | .error error _ => failed error

/-- Where it does not matter what an error leaves, it only has to be one that may happen. -/
theorem ends_iff_halts {failed : ε → Prop} {after : α → σ → Prop} {result : EStateM.Result ε σ α} :
    Ends failed after result ↔ Halts (fun error _ => failed error) after result := by
  cases result <;> exact Iff.rfl

/-- From a state as given, an action ends as wanted. -/
def Ensures (failed : ε → Prop) (before : σ → Prop) (action : EStateM ε σ α)
    (after : α → σ → Prop) : Prop :=
  ∀ state, before state → Ends failed after (action state)

namespace Ensures

variable {failed : ε → Prop} {before : σ → Prop} {after : α → σ → Prop} {final : β → σ → Prop}

theorem pure {answer : α} (holds : ∀ state, before state → after answer state) :
    Ensures failed before (pure answer) after :=
  fun state given => holds state given

theorem throw {error : ε} (may : failed error) : Ensures failed before (throw error) after :=
  fun _ _ => may

/-- **Triples are composed by sequencing.** -/
theorem bind {action : EStateM ε σ α} {next : α → EStateM ε σ β}
    (first : Ensures failed before action after)
    (rest : ∀ answer, Ensures failed (after answer) (next answer) final) :
    Ensures failed before (action >>= next) final := by
  intro state given
  apply ends_iff_halts.mpr
  apply (ends_iff_halts.mp (first state given)).bind
  intro answer middle holds
  exact ends_iff_halts.mp (rest answer middle holds)

/-- A program may look at its state first. -/
theorem get_bind {next : σ → EStateM ε σ β}
    (rest : ∀ look, before look → Ensures failed (fun state => before state ∧ state = look)
      (next look) final) :
    Ensures failed before (get >>= next) final :=
  fun state given => rest state given state ⟨given, rfl⟩

theorem modify {change : σ → σ} {after : Unit → σ → Prop}
    (keeps : ∀ state, before state → after () (change state)) :
    Ensures failed before (modify change) after :=
  fun state given => keeps state given

theorem ite {condition : Prop} [Decidable condition] {action other : EStateM ε σ α}
    (yes : condition → Ensures failed before action after)
    (no : ¬condition → Ensures failed before other after) :
    Ensures failed before (if condition then action else other) after := by
  split
  · rename_i holds
    exact yes holds
  · rename_i fails
    exact no fails

/-- More may be given, and less wanted. -/
theorem weaken {action : EStateM ε σ α} {given : σ → Prop} {wanted : α → σ → Prop}
    (ensures : Ensures failed before action after) (strong : ∀ state, given state → before state)
    (weak : ∀ answer state, after answer state → wanted answer state) :
    Ensures failed given action wanted := by
  intro state holds
  apply ends_iff_halts.mpr
  exact (ends_iff_halts.mp (ensures state (strong state holds))).mono weak fun _ _ may => may

theorem post {action : EStateM ε σ α} {wanted : α → σ → Prop}
    (ensures : Ensures failed before action after)
    (weak : ∀ answer state, after answer state → wanted answer state) :
    Ensures failed before action wanted :=
  ensures.weaken (fun _ holds => holds) weak

theorem pre {action : EStateM ε σ α} {given : σ → Prop}
    (ensures : Ensures failed before action after) (strong : ∀ state, given state → before state) :
    Ensures failed given action after :=
  ensures.weaken strong fun _ _ holds => holds

/-- What is given may be given for one state at a time. -/
theorem at_state {action : EStateM ε σ α}
    (ensures : ∀ state, before state → Ensures failed (fun start => start = state) action after) :
    Ensures failed before action after :=
  fun state given => ensures state given state rfl

/-- What every operation keeps, a sequence of operations keeps as long as none fails. -/
theorem stateAfter {ω : Type} {perform : ω → EStateM ε σ α} {holds : σ → Prop}
    {operations : List ω}
    (keeps : ∀ operation ∈ operations, Ensures failed holds (perform operation) fun _ => holds)
    {state : σ} (fine : ∀ outcome ∈ trail perform operations state, outcome.1.isOk = true)
    (given : holds state) : holds (stateAfter perform operations state) := by
  induction operations generalizing state with
  | nil => exact given
  | cons operation rest ih =>
      have answered := fine _ List.mem_cons_self
      have outcome := keeps operation List.mem_cons_self state given
      have kept : holds (finalState (perform operation state)) := by
        generalize perform operation state = result at outcome answered
        cases result with
        | ok answer middle => exact outcome
        | error error middle => cases answered
      apply ih _ _ kept
      · intro other member
        exact keeps other (List.mem_cons_of_mem _ member)
      · intro outcome member
        exact fine outcome (List.mem_cons_of_mem _ member)

end Ensures

/-- What stays is ensured. -/
theorem Stays.ensures {may : ε → Prop} {holds : σ → Prop} {action : EStateM ε σ α}
    (stays : Stays may holds action) : Ensures may holds action fun _ => holds :=
  fun state given => ends_iff_halts.mpr ((stays state given).mono (fun _ _ held => held)
    fun _ _ failed => failed.1)

end NestedMachine
