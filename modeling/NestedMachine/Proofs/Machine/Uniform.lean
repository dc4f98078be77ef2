import NestedMachine.Machine.Relay
import NestedMachine.Proofs.Ensures
import NestedMachine.Proofs.Machine.Outcomes

/-!
# Levels that pass everything on

A level between a hypervisor and the interpreter refuses a request about a context that it does not
host.  In a machine that is uniform, every level hosts exactly the contexts of the interpreter
(`Machine.Uniform`).  Then a level refuses only what the interpreter would refuse in the same words,
so a request has the outcome that it has at the interpreter, whatever the number of levels, and the
machine is uniform again (`Transparent`).

Levels are uniform at first, because nobody hosts anything.  This is kept on the way up from the
interpreter: a level that sees an answer takes note of it in the way in which the contexts of the
interpreter have changed (`descend_admitted`).
-/

namespace NestedMachine

set_option autoImplicit false

open Std (TreeMap TreeSet)

variable {α : Type}

/-! ## Passing levels -/

/-- The record of a level after a request that it admitted has been answered. -/
def Passage.Passed (passage : Passage α) (answer : Except HostError α) (relay after : Relay) :
    Prop :=
  ∃ entered, passage.enter relay = .ok entered ∧
    after = match answer with
      | .ok answer => passage.leave answer entered
      | .error _ => entered

namespace Machine

/-- **A request that every level admits reaches the interpreter.** -/
theorem descend_admitted (passage : Passage α) (request : InterpreterAction α)
    (relays : List Relay) (interpreter : Interpreter)
    (admits : ∀ relay ∈ relays, ∃ entered, passage.enter relay = .ok entered) :
    ∃ after, descend passage request relays interpreter =
        (answerOf (request interpreter), after, finalState (request interpreter)) ∧
      ∀ relay' ∈ after, ∃ relay ∈ relays,
        passage.Passed (answerOf (request interpreter)) relay relay' := by
  induction relays with
  | nil =>
      refine ⟨[], ?_, fun relay member => ?_⟩
      · rw [descend]
        cases request interpreter <;> rfl
      · cases member
  | cons relay rest ih =>
      obtain ⟨after, descent, passed⟩ := ih fun other member =>
        admits other (List.mem_cons_of_mem _ member)
      obtain ⟨entered, admitted⟩ := admits relay List.mem_cons_self
      have later (relay' : Relay) (member : relay' ∈ after) : ∃ other ∈ relay :: rest,
          passage.Passed (answerOf (request interpreter)) other relay' := by
        obtain ⟨other, inside, done⟩ := passed relay' member
        exact ⟨other, List.mem_cons_of_mem _ inside, done⟩
      cases outcome : request interpreter with
      | ok answer state =>
          rw [outcome] at later descent
          refine ⟨passage.leave answer entered :: after, ?_, fun relay' member => ?_⟩
          · simp only [descend, admitted, descent, answerOf, finalState]
          rcases List.mem_cons.mp member with rfl | inside
          · exact ⟨relay, List.mem_cons_self, entered, admitted, rfl⟩
          · exact later relay' inside
      | error error state =>
          rw [outcome] at later descent
          refine ⟨entered :: after, ?_, fun relay' member => ?_⟩
          · simp only [descend, admitted, descent, answerOf, finalState]
          rcases List.mem_cons.mp member with rfl | inside
          · exact ⟨relay, List.mem_cons_self, relay', admitted, rfl⟩
          · exact later relay' inside

/-- A request that is answered was answered by the interpreter, and levels that take no note of the
answer stay as they are. -/
theorem answered_of_descend {passage : Passage α} {request : InterpreterAction α}
    {relays after : List Relay} {interpreter answered : Interpreter} {answer : α}
    (done : descend passage request relays interpreter = (.ok answer, after, answered)) :
    request interpreter = .ok answer answered ∧
      ((∀ relay entered, passage.enter relay = .ok entered →
        passage.leave answer entered = relay) → after = relays) := by
  induction relays generalizing after with
  | nil =>
      rw [descend] at done
      generalize request interpreter = result at done ⊢
      cases result with
      | ok answer interpreter =>
          cases done
          exact ⟨rfl, fun _ => rfl⟩
      | error error interpreter => cases done
  | cons relay rest ih =>
      rw [descend] at done
      cases entry : passage.enter relay with
      | error error =>
          rw [entry] at done
          cases done
      | ok entered =>
          rw [entry] at done
          dsimp only at done
          generalize descend passage request rest interpreter = result at done ih
          obtain ⟨outcome, rest', interpreter'⟩ := result
          cases outcome with
          | error error => cases done
          | ok found =>
              cases done
              obtain ⟨reached, unmarked⟩ := ih rfl
              exact ⟨reached, fun blank => by rw [blank relay entered entry, unmarked blank]⟩

/-- What is known of a request at the interpreter, and of its refusals by levels, is known of it at
the machine. -/
theorem halts_pass {passage : Passage α} {request : InterpreterAction α} {interpreter : Interpreter}
    {failed : HostError → Interpreter → Prop} {wanted : α → Interpreter → Prop}
    (refused : ∀ relay error, passage.enter relay = .error error → failed error interpreter)
    (requested : Halts failed wanted (request interpreter)) (relays : List Relay) :
    Halts (fun error machine => failed error machine.interpreter)
      (fun answer machine => wanted answer machine.interpreter)
      (pass passage request ⟨relays, interpreter⟩) := by
  unfold pass
  dsimp only
  induction relays with
  | nil =>
      rw [descend]
      generalize request interpreter = result at requested
      cases result with
      | ok answer after => exact requested
      | error error after => exact requested
  | cons relay rest ih =>
      rw [descend]
      cases entry : passage.enter relay with
      | error error => exact refused relay error entry
      | ok entered =>
          dsimp only
          generalize descend passage request rest interpreter = outcome at ih
          obtain ⟨answer, relays, after⟩ := outcome
          cases answer with
          | ok answer => exact ih
          | error error => exact ih

/-- An outcome of the interpreter under given levels. -/
def liftOutcome (relays : List Relay) :
    EStateM.Result HostError Interpreter α → EStateM.Result HostError Machine α
  | .ok answer interpreter => .ok answer ⟨relays, interpreter⟩
  | .error error interpreter => .error error ⟨relays, interpreter⟩

/-! ## Uniform machines -/

/-- Every level hosts exactly the contexts of the interpreter. -/
def Uniform (machine : Machine) : Prop :=
  ∀ relay ∈ machine.relays, ∀ id, relay.hosts id = machine.interpreter.contexts.contains id

theorem uniform_ofLevels (levels : Nat) {interpreter : Interpreter}
    (empty : interpreter.contexts = ∅) : (ofLevels levels interpreter).Uniform := by
  intro relay member id
  rw [List.eq_of_mem_replicate member]
  show (∅ : TreeSet ContextId).contains id = interpreter.contexts.contains id
  rw [empty, TreeSet.contains_emptyc, TreeMap.contains_emptyc]

/-- A request has the outcome that it has at the interpreter, and the machine stays uniform. -/
def Transparent (machine : Machine) (action : MachineAction α) (request : InterpreterAction α) :
    Prop :=
  ∃ relays, action machine = liftOutcome relays (request machine.interpreter) ∧
    Uniform ⟨relays, finalState (request machine.interpreter)⟩

/-- A request that every level admits is transparent if every level takes note of its answer. -/
theorem transparent_of_admitted {machine : Machine} {passage : Passage α}
    {request : InterpreterAction α}
    (admits : ∀ relay ∈ machine.relays, ∃ entered, passage.enter relay = .ok entered)
    (notes : ∀ relay ∈ machine.relays, ∀ after,
      passage.Passed (answerOf (request machine.interpreter)) relay after → ∀ id,
        after.hosts id = (finalState (request machine.interpreter)).contexts.contains id) :
    Transparent machine (pass passage request) request := by
  obtain ⟨after, descent, passed⟩ := descend_admitted passage request machine.relays
    machine.interpreter admits
  refine ⟨after, ?_, fun relay' member id => ?_⟩
  · unfold pass
    dsimp only
    rw [descent]
    cases request machine.interpreter <;> rfl
  · obtain ⟨relay, inside, done⟩ := passed relay' member
    exact notes relay inside relay' done id

/-- A request that every level refuses as the interpreter does is transparent. -/
theorem transparent_of_refused {machine : Machine} (uniform : machine.Uniform)
    {passage : Passage α} {request : InterpreterAction α} {error : HostError}
    (refuses : ∀ relay ∈ machine.relays, passage.enter relay = .error error)
    (refused : request machine.interpreter = .error error machine.interpreter) :
    Transparent machine (pass passage request) request := by
  obtain ⟨relays, interpreter⟩ := machine
  refine ⟨relays, ?_, ?_⟩
  · dsimp only at refused
    unfold pass
    dsimp only
    rw [refused]
    cases relays with
    | nil =>
        rw [descend, refused]
        rfl
    | cons relay rest =>
        rw [descend, refuses relay List.mem_cons_self]
        rfl
  · rw [refused]
    exact uniform

variable {machine : Machine} {id : ContextId}

theorem contains_of_found {interpreter : Interpreter} {context : Context}
    (found : interpreter.contexts[id]? = some context) :
    interpreter.contexts.contains id = true := by
  rw [Table.contains_eq_isSome, found]
  rfl

/-- Every level hosts a context that is there. -/
theorem Uniform.requireHosted {context : Context} (uniform : machine.Uniform)
    (found : machine.interpreter.contexts[id]? = some context) :
    ∀ relay ∈ machine.relays, relay.requireHosted id = .ok relay := by
  intro relay member
  rw [Relay.requireHosted, if_pos ((uniform relay member id).trans (contains_of_found found))]

/-- No level hosts a context that is not there. -/
theorem Uniform.requireHosted_of_none (uniform : machine.Uniform)
    (missing : machine.interpreter.contexts[id]? = none) :
    ∀ relay ∈ machine.relays, relay.requireHosted id = .error (.unknownContext id) := by
  intro relay member
  have absent : machine.interpreter.contexts.contains id = false := by
    rw [Table.contains_eq_isSome, missing]
    rfl
  rw [Relay.requireHosted, if_neg]
  rw [uniform relay member id, absent]
  exact Bool.false_ne_true

/-! ## Every request is transparent -/

theorem Uniform.create (uniform : machine.Uniform) (image : Image) (options : LoadOptions) :
    Transparent machine (create image options) (Interpreter.create image options) := by
  apply transparent_of_admitted fun relay _ => ⟨relay, rfl⟩
  intro relay member after passed id
  obtain ⟨_, entered, rfl⟩ := passed
  obtain rfl := Except.ok.inj entered
  have hosted := uniform relay member id
  cases loaded : Loading.load machine.interpreter.nextId image options machine.interpreter.pool
      machine.interpreter.journal with
  | mk answer left =>
      obtain ⟨pool, journal⟩ := left
      cases answer with
      | ok context =>
          rw [Interpreter.create_of_ok loaded]
          show (relay.hosted.insert _).contains id =
            (machine.interpreter.contexts.insert _ _).contains id
          rw [TreeSet.contains_insert, TreeMap.contains_insert]
          exact congrArg _ hosted
      | error error =>
          rw [Interpreter.create_of_error loaded]
          exact hosted

/-- Contexts that are changed are there as before. -/
theorem contains_insert_of_found {contexts : TreeMap ContextId Context} {context : Context}
    (found : contexts[id]? = some context) (changed : Context) (other : ContextId) :
    (contexts.insert id changed).contains other = contexts.contains other := by
  rw [Table.contains_eq_isSome, Table.contains_eq_isSome, Table.getElem?_insert]
  split
  · rename_i same
    rw [← same, found]
    rfl
  · rfl

theorem Uniform.fork (uniform : machine.Uniform) (parent : ContextId) :
    Transparent machine (fork parent) (Interpreter.fork parent) := by
  cases found : machine.interpreter.contexts[parent]? with
  | none =>
      exact transparent_of_refused uniform (uniform.requireHosted_of_none found)
        (Interpreter.fork_of_none found)
  | some source =>
      have admits := uniform.requireHosted found
      refine transparent_of_admitted (fun relay member => ⟨relay, admits relay member⟩)
        fun relay member after passed id => ?_
      obtain ⟨_, entered, rfl⟩ := passed
      obtain rfl := Except.ok.inj ((admits relay member).symm.trans entered)
      have hosted := uniform relay member id
      have ends := Interpreter.forkEnds parent machine.interpreter
      generalize Interpreter.fork parent machine.interpreter = result at ends ⊢
      cases ends with
      | missing => exact hosted
      | refused => exact hosted
      | copied =>
          show (relay.hosted.insert _).contains id =
            ((machine.interpreter.contexts.insert _ _).modify parent _).contains id
          rw [TreeSet.contains_insert, TreeMap.contains_modify, TreeMap.contains_insert]
          exact congrArg _ hosted

theorem Uniform.release (uniform : machine.Uniform) (id : ContextId) :
    Transparent machine (release id) (Interpreter.release id) := by
  cases found : machine.interpreter.contexts[id]? with
  | none =>
      exact transparent_of_refused uniform (uniform.requireHosted_of_none found)
        (Interpreter.release_of_none found)
  | some context =>
      have admits := uniform.requireHosted found
      refine transparent_of_admitted (fun relay member => ⟨relay, admits relay member⟩)
        fun relay member after passed other => ?_
      obtain ⟨_, entered, rfl⟩ := passed
      obtain rfl := Except.ok.inj ((admits relay member).symm.trans entered)
      rw [Interpreter.release_of_some found]
      exact (uniform relay member other).trans (contains_insert_of_found found _ other).symm

theorem Uniform.destroy (uniform : machine.Uniform) (id : ContextId) :
    Transparent machine (destroy id) (Interpreter.destroy id) := by
  cases found : machine.interpreter.contexts[id]? with
  | none =>
      exact transparent_of_refused uniform (uniform.requireHosted_of_none found)
        (Interpreter.destroy_of_none found)
  | some context =>
      have admits := uniform.requireHosted found
      refine transparent_of_admitted (fun relay member => ⟨relay, admits relay member⟩)
        fun relay member after passed other => ?_
      obtain ⟨_, entered, rfl⟩ := passed
      obtain rfl := Except.ok.inj ((admits relay member).symm.trans entered)
      rw [Interpreter.destroy_of_some found]
      show (relay.hosted.erase id).contains other =
        (Interpreter.unlink (machine.interpreter.contexts.erase id) id context).contains other
      rw [Interpreter.contains_eq_spaceIn, Interpreter.spaceIn_unlink,
        ← Interpreter.contains_eq_spaceIn, TreeSet.contains_erase, TreeMap.contains_erase]
      exact congrArg _ (uniform relay member other)

theorem Uniform.switch (uniform : machine.Uniform) (id : ContextId) (quantum : Nat) :
    Transparent machine (switch id quantum) (Interpreter.switch id quantum) := by
  cases found : machine.interpreter.contexts[id]? with
  | none =>
      refine transparent_of_refused uniform (fun relay member => ?_)
        (Interpreter.switch_of_none found)
      simp only [Passage.switch, uniform.requireHosted_of_none found relay member]
  | some context =>
      have admits (relay : Relay) (member : relay ∈ machine.relays) :
          (Passage.switch id).enter relay = .ok (relay.count fun counters =>
            { counters with contextSwitches := counters.contextSwitches + 1 }) := by
        simp only [Passage.switch, uniform.requireHosted found relay member]
      refine transparent_of_admitted (fun relay member => ⟨_, admits relay member⟩)
        fun relay member after passed other => ?_
      obtain ⟨_, entered, rfl⟩ := passed
      obtain rfl := Except.ok.inj ((admits relay member).symm.trans entered)
      have kept (after : Context) :=
        (uniform relay member other).trans (contains_insert_of_found found after other).symm
      have ends := Interpreter.switchEnds id quantum machine.interpreter
      generalize Interpreter.switch id quantum machine.interpreter = result at ends ⊢
      cases ends with
      | missing => exact uniform relay member other
      | exited => exact uniform relay member other
      | trapped => exact kept _
      | ranDry => exact kept _

/-! ## Looking at contexts -/

theorem Uniform.hosts_of_found {context : Context} (uniform : machine.Uniform)
    (found : machine.interpreter.contexts[id]? = some context) : machine.hosts id = true :=
  List.all_eq_true.mpr fun relay member =>
    (uniform relay member id).trans (contains_of_found found)

/-- **Every context of the interpreter can be seen through the levels.** -/
theorem Uniform.context? (uniform : machine.Uniform) (id : ContextId) :
    machine.context? id = machine.interpreter.context? id := by
  unfold Machine.context?
  cases found : machine.interpreter.contexts[id]? with
  | some context => rw [if_pos (uniform.hosts_of_found found)]
  | none =>
      rw [Interpreter.context?, found]
      exact ite_self none

theorem Uniform.modifyContext {context : Context} (uniform : machine.Uniform)
    (found : machine.interpreter.contexts[id]? = some context) (change : Context → Context) :
    machine.modifyContext id change =
      { machine with interpreter := machine.interpreter.modifyContext id change } := by
  rw [Machine.modifyContext, if_pos (uniform.hosts_of_found found)]

theorem Uniform.withMemory (uniform : machine.Uniform) (id : ContextId)
    (action : MemoryAction α) :
    machine.withMemory id action =
      ((machine.interpreter.withMemory id action).1,
        { machine with interpreter := (machine.interpreter.withMemory id action).2 }) := by
  unfold Machine.withMemory
  cases found : machine.interpreter.contexts[id]? with
  | some context => rw [if_pos (uniform.hosts_of_found found)]
  | none =>
      split
      · rfl
      · rw [Interpreter.withMemory_of_none found]

/-- An access to memory leaves the same contexts there. -/
theorem contains_withMemory (interpreter : Interpreter) (id : ContextId)
    (action : MemoryAction α) (other : ContextId) :
    (interpreter.withMemory id action).2.contexts.contains other =
      interpreter.contexts.contains other := by
  cases found : interpreter.contexts[id]? with
  | none => rw [Interpreter.withMemory_of_none found]
  | some context =>
      rw [Interpreter.withMemory_of_some found]
      exact contains_insert_of_found found _ other

/-- Levels stay uniform as long as the same contexts are there. -/
theorem Uniform.congr {after : Machine} (uniform : machine.Uniform)
    (relays : after.relays = machine.relays)
    (contexts : ∀ id, after.interpreter.contexts.contains id =
      machine.interpreter.contexts.contains id) : after.Uniform := by
  intro relay member other
  rw [contexts]
  exact uniform relay (relays ▸ member) other

end Machine

end NestedMachine
