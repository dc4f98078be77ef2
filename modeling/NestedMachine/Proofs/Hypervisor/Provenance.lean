import NestedMachine.Proofs.Hypervisor.Custody
import NestedMachine.Proofs.Hypervisor.Wakeups
import NestedMachine.Proofs.Machine.Code

/-!
# Where the code of a context comes from

A context stems from an image if it was loaded from it, or if it is the copy that a context that
stems from the image has made of itself; and if it has lived ever since and kept its memory
(`Stems`).  This is read off a history event by event: a load tells the number of the new context,
and a copy has a new number and its source for a parent.

What contexts have when they are loaded from an image, and hand on (`Begun`), every context has that
stems from the image (`Stems.has`).  So in every history such a context has the code of the image
(`code_unchanged`), whatever the guests, their supervisors, debuggers and the level above have done:
the code segment shows the bytes of the image, its instructions are fetched as they are in the
image, and its pages, and no others, are read-only.

Runs of many rounds and debuggers that go on do nothing but single steps (`exists_singles`), so that
copies of copies that were made in one event are found when the event is told step by step.
-/

namespace NestedMachine.Hypervisor

set_option autoImplicit false

variable {capacity : Nat} {image : Image} {origin start : Hypervisor} {id : ContextId}

/-! ## Provenance -/

/-- An event loads an image as the context of a number. -/
def Event.Loads (event : Event) (image : Image) (id : ContextId) (before : Hypervisor) : Prop :=
  (∃ arguments, event = .operation (.load image arguments) ∧
    answerOf (load image arguments before) = .ok id) ∨
  ∃ options, event = .request (.create image options) ∧
    answerOf (fromAbove (Machine.create image options) before) = .ok id

/-- A context lives after an event, which has not given back its memory. -/
structure Event.SurvivedBy (event : Event) (id : ContextId) (before : Hypervisor) : Prop where
  lives : ∃ context, (finalState (event.perform before)).machine.context? id = some context ∧
    context.exitStatus = none
  kept : ¬event.Releases id before

/-- A context was loaded from an image, or it descends by copies from one that was; and it has lived
and kept its memory ever since. -/
inductive Stems (image : Image) (start : Hypervisor) : List Event → ContextId → Prop where
  | loaded {history : List Event} {event : Event} {id : ContextId}
      (loads : event.Loads image id (stateAfter Event.perform history start)) :
      Stems image start (history ++ [event]) id
  | stays {history : List Event} {event : Event} {id : ContextId}
      (stems : Stems image start history id)
      (survived : event.SurvivedBy id (stateAfter Event.perform history start)) :
      Stems image start (history ++ [event]) id
  | copied {history : List Event} {event : Event} {source id : ContextId} {context : Context}
      (stems : Stems image start history source)
      (lives : event.SurvivedBy source (stateAfter Event.perform history start))
      (new : (stateAfter Event.perform history start).machine.interpreter.nextId ≤ id)
      (found : (stateAfter Event.perform (history ++ [event]) start).machine.context? id =
        some context)
      (link : context.parent = some source)
      (survived : event.SurvivedBy id (stateAfter Event.perform history start)) :
      Stems image start (history ++ [event]) id

/-! ## Loading -/

/-- An heirloom that every context has when it has been loaded from an image. -/
structure Begun (image : Image) (property : Memory → Prop) : Prop where
  heirloom : Memory.Heirloom property
  created : ∀ {capacity : Nat} {machine after : Interpreter} {options : LoadOptions}
    {id : ContextId}, machine.Sound capacity →
      Interpreter.create image options machine = .ok id after → after.Has property id

namespace Begun

variable {property : Memory → Prop}

theorem of_create (begun : Begun image property) (steady : Steady capacity origin)
    {machine : MachineAction ContextId} {options : LoadOptions}
    (transparent : origin.machine.Transparent machine (Interpreter.create image options)) :
    Halts (fun _ _ => True) (fun id after => after.machine.interpreter.Has property id)
      (below machine origin) := by
  apply halts_below transparent
  cases created : Interpreter.create image options origin.machine.interpreter with
  | error error after => exact fun _ _ => trivial
  | ok id after => exact fun _ _ => begun.created steady.sound created

theorem of_load (begun : Begun image property) (steady : Steady capacity origin)
    (arguments : List String) :
    Halts (fun _ _ => True) (fun id after => after.machine.interpreter.Has property id)
      (load image arguments origin) := by
  have own (id : ContextId) (change : Supervisor → Supervisor) :
      Keeps (fun hypervisor => hypervisor.machine.interpreter.Has property id)
        (modifyOwn change) := .modify fun _ has => has
  have noted (id : ContextId) (happening : Note) :
      Keeps (fun hypervisor => hypervisor.machine.interpreter.Has property id)
        (note happening) := .modify fun _ has => has.congr begun.heirloom rfl rfl
  apply Halts.get_bind
  apply (begun.of_create steady (steady.uniform.create image _)).bind
  intro id created has
  apply ((own id _).halts has).bind
  intro _ owned has
  apply ((own id _).halts has).bind
  intro _ queued has
  apply ((own id _).halts has).bind
  intro _ counted has
  apply Halts.get_bind
  exact ((noted id _).halts has).bind fun _ _ has => has

/-- **Who is loaded has what begins with the loading.** -/
theorem of_loads (begun : Begun image property) {event : Event} (steady : Steady capacity origin)
    (loads : event.Loads image id origin) :
    (finalState (event.perform origin)).machine.interpreter.Has property id := by
  rcases loads with ⟨arguments, rfl, answered⟩ | ⟨options, rfl, answered⟩
  · have loaded := begun.of_load steady arguments
    have run := ok_of_answerOf answered
    rw [run] at loaded
    have inner := bind_of_ok run fun id => (pure (.context id) : HypervisorAction Answer)
    have outer := bind_of_ok inner fun _ => (pure () : HypervisorAction Unit)
    rw [show Event.perform (.operation (.load image arguments)) origin = _ from outer]
    exact loaded
  · have created : Halts (fun _ _ => True)
        (fun id after => after.machine.interpreter.Has property id)
        (fromAbove (Machine.create image options) origin) := by
      apply halts_fromAbove fun _ _ => trivial
      intro entered entry
      exact (begun.of_create steady (steady.uniform.create image options)).mono
        (fun _ _ has => has) fun _ _ _ => trivial
    have run := ok_of_answerOf answered
    rw [run] at created
    have inner := bind_of_ok run fun id =>
      (pure (.context id) : HypervisorAction Interpreter.Answer)
    have outer := bind_of_ok inner fun _ => (pure () : HypervisorAction Unit)
    rw [show Event.perform (.request (.create image options)) origin = _ from outer]
    exact created

end Begun

/-- Code begins with the loading. -/
theorem begun_carries (image : Image) : Begun image (Memory.Carries image) where
  heirloom := Memory.heirloom_carries image
  created sound created := sound.carries_of_create created

/-! ## Every history -/

theorem Event.SurvivedBy.live {event : Event}
    (uniform : (finalState (event.perform origin)).machine.Uniform)
    (survived : event.SurvivedBy id origin) : (finalState (event.perform origin)).Live id := by
  obtain ⟨context, found, lives⟩ := survived.lives
  exact ⟨context.kin, kin_of_context? uniform found, lives⟩

/-- **Whoever stems from an image has what begins with the loading**, by induction on the
provenance. -/
theorem Stems.has {configuration : Configuration} {host : Host} {journal : Journal} {level : Nat}
    {property : Memory → Prop} (begun : Begun image property)
    (built : nested configuration host journal level = .ok start) {history : List Event}
    (tame : ∀ event ∈ history, event.Tame) (stems : Stems image start history id) :
    (stateAfter Event.perform history start).machine.interpreter.Has property id := by
  have earlier {history : List Event} {event : Event}
      (tame : ∀ other ∈ history ++ [event], other.Tame) :
      (∀ other ∈ history, other.Tame) ∧ event.Tame ∧
        Steady configuration.frames (stateAfter Event.perform history start) := by
    have before (other : Event) (member : other ∈ history) : other.Tame :=
      tame other (List.mem_append_left _ member)
    exact ⟨before, tame event List.mem_concat_self, steady_stateAfter built before⟩
  induction stems with
  | loaded loads =>
      rw [stateAfter_append]
      exact begun.of_loads (earlier tame).2.2 loads
  | @stays history event id stems survived ih =>
      obtain ⟨before, quiet, steady⟩ := earlier tame
      have custody : Custody configuration.frames property (· = id) _ _ _ :=
        event.custody begun.heirloom quiet steady fun _ same => same ▸ ih before
      rw [stateAfter_append]
      have lives := survived.live custody.uniform
      exact custody.has id ⟨lives, .inl rfl⟩ survived.kept
  | @copied history event source id context stems lives new found link survived ih =>
      obtain ⟨before, quiet, steady⟩ := earlier tame
      have custody : Custody configuration.frames property (· = source) _ _ _ :=
        event.custody begun.heirloom quiet steady fun _ same => same ▸ ih before
      rw [stateAfter_append] at found ⊢
      refine custody.has id ⟨survived.live custody.uniform, .inr ⟨new, context.kin, source, ?_,
        link, rfl, lives.live custody.uniform⟩⟩ survived.kept
      exact kin_of_context? custody.uniform found

/-! ## Step by step -/

/-- An event that is not made of others. -/
def Event.Single : Event → Prop
  | .operation asked => asked.single = true
  | .request _ => True
  | .resume .. => False

theorem finalState_operation (asked : Operation) (origin : Hypervisor) :
    finalState (Event.perform (.operation asked) origin) = finalState (asked.perform origin) :=
  finalState_map asked.perform (fun _ => ()) origin

/-- What single events lead to. -/
def Reaches (origin after : Hypervisor) : Prop :=
  ∃ steps : List Event, (∀ event ∈ steps, event.Single ∧ event.Tame) ∧
    stateAfter Event.perform steps origin = after

namespace Reaches

variable {middle after : Hypervisor}

theorem trans (first : Reaches origin middle) (second : Reaches middle after) :
    Reaches origin after := by
  obtain ⟨steps, single, rfl⟩ := first
  obtain ⟨later, single', rfl⟩ := second
  refine ⟨steps ++ later, fun event member => ?_, stateAfter_append ..⟩
  exact (List.mem_append.mp member).elim (single event) (single' event)

theorem event (event : Event) (single : event.Single) (tame : event.Tame) (origin : Hypervisor) :
    Reaches origin (finalState (event.perform origin)) :=
  ⟨[event], fun _ member => List.mem_singleton.mp member ▸ ⟨single, tame⟩, rfl⟩

theorem operation {operation : Operation} (single : operation.single = true)
    (origin : Hypervisor) : Reaches origin (finalState (operation.perform origin)) := by
  rw [← finalState_operation]
  exact event (.operation operation) single trivial origin

end Reaches

theorem keeps_reaches {α : Type} {action : HypervisorAction α} {answer : α → Answer}
    (operation : Operation) (single : operation.single = true)
    (same : operation.perform = action >>= fun given => pure (answer given)) :
    Keeps (Reaches origin) action := by
  intro middle reached
  have next := Reaches.operation single middle
  rw [same, finalState_map] at next
  exact .of_finalState (reached.trans next)

/-- A debugger does nothing but single steps. -/
theorem sustained_reaches (origin : Hypervisor) : Sustained (Reaches origin) where
  step _ := keeps_reaches (.step _) rfl rfl
  nextReady := keeps_reaches .nextReady rfl rfl
  requeue _ := keeps_reaches (.requeue _) rfl rfl

/-- **Every history is made of single steps.** -/
theorem exists_singles {history : List Event} (tame : ∀ event ∈ history, event.Tame)
    (start : Hypervisor) : Reaches start (stateAfter Event.perform history start) := by
  have here (origin : Hypervisor) : Reaches origin origin :=
    ⟨[], fun _ member => (nomatch member), rfl⟩
  induction history generalizing start with
  | nil => exact here start
  | cons event rest ih =>
      obtain ⟨quiet, later⟩ := List.forall_mem_cons.mp tame
      refine Reaches.trans ?_ (ih later _)
      cases event with
      | request asked => exact .event (.request asked) trivial quiet start
      | resume rounds breakpoints condition stoppedAt =>
          refine Keeps.finalState ?_ (here start)
          exact ((sustained_reaches start).resumeDebugger rounds breakpoints condition
            stoppedAt).bind fun _ => .pure ()
      | operation asked =>
          cases single : asked.single with
          | true => exact .event (.operation asked) single trivial start
          | false =>
              obtain ⟨⟨rounds, given, driven⟩, -⟩ := driven_of_many single start
              show Reaches start (finalState (Event.perform (.operation asked) start))
              rw [finalState_operation, driven]
              clear driven single
              induction rounds generalizing start with
              | nil => exact here start
              | cons round rounds step =>
                  obtain ⟨first, others⟩ := List.forall_mem_cons.mp given
                  exact (Reaches.operation first.single start).trans (step _ others)

/-- **Code stays as it was loaded.**  In every history in which the level above leaves address
spaces to the machine, a context that stems from an image has the code of the image, and read-only
pages under it and nowhere else.  And no history leads elsewhere than a history of single steps. -/
theorem code_unchanged {configuration : Configuration} {host : Host} {journal : Journal}
    {level : Nat} (built : nested configuration host journal level = .ok start)
    {history : List Event} (tame : ∀ event ∈ history, event.Tame) :
    let reached := stateAfter Event.perform history start
    (∀ image id, Stems image start history id →
      ∃ context, reached.machine.context? id = some context ∧
        (reached.machine.interpreter.memoryOf context).Intact image) ∧
      Reaches start reached := by
  intro reached
  have steady : Steady configuration.frames reached := steady_stateAfter built tame
  refine ⟨fun image id stems => ?_, exists_singles tame start⟩
  obtain ⟨context, found, carries⟩ := stems.has (begun_carries image) built tame
  refine ⟨context, (steady.uniform.context? id).trans found, ?_⟩
  exact carries.intact (steady.sound.memory found reached.machine.interpreter.journal)

/-- The copy that a program has made of itself has its code. -/
theorem copy_has_code :
    let load := Event.operation (.load forkAndWait [])
    let fork := Event.operation .scheduleOnce
    ∃ start, nested { Configuration.standard with frames := 40 } .null .silent 2 = .ok start ∧
      let reached := stateAfter Event.perform [load, fork] start
      Stems forkAndWait start [load, fork] 2 ∧
        ∃ context, reached.machine.context? 2 = some context ∧
          (reached.machine.interpreter.memoryOf context).Intact forkAndWait := by
  intro load fork
  obtain ⟨start, built⟩ : ∃ start,
      nested { Configuration.standard with frames := 40 } .null .silent 2 = .ok start := ⟨_, rfl⟩
  refine ⟨start, built, ?_⟩
  intro reached
  have evaluated : (nested { Configuration.standard with frames := 40 } .null .silent 2).map
      (fun start =>
        let loaded := stateAfter Event.perform [load] start
        let reached := stateAfter Event.perform [load, fork] start
        (((answerOf (Hypervisor.load forkAndWait [] start)).toOption,
            loaded.machine.interpreter.nextId),
          [1, 2].map fun id => (reached.machine.context? id).map fun context =>
            (context.exitStatus.isNone, context.parent))) =
      .ok ((some 1, 2), [some (true, none), some (true, some 1)]) := by
    decide +kernel
  rw [built] at evaluated
  obtain ⟨⟨answered, next⟩, source, copy⟩ :
      (_ = some 1 ∧ _ = 2) ∧ _ = some (true, none) ∧ _ = some (true, some 1) := by
    simpa only [Prod.mk.injEq, List.map_cons, List.map_nil, List.cons.injEq, and_true] using
      Except.ok.inj evaluated
  have loads : load.Loads forkAndWait 1 start := by
    refine .inl ⟨[], rfl, ?_⟩
    generalize answerOf (Hypervisor.load forkAndWait [] start) = answer at answered
    cases answer with
    | ok id => exact congrArg Except.ok (Option.some.inj answered)
    | error error => cases answered
  have unreleased (id : ContextId) (before : Hypervisor) : ¬fork.Releases id before :=
    fun releases => nomatch releases.1
  obtain ⟨context, found, same⟩ := Option.map_eq_some_iff.mp source
  have lives : context.exitStatus = none := Option.isNone_iff_eq_none.mp (Prod.mk.inj same).1
  obtain ⟨context', found', same'⟩ := Option.map_eq_some_iff.mp copy
  obtain ⟨running, link⟩ := Prod.mk.inj same'
  have lives' : context'.exitStatus = none := Option.isNone_iff_eq_none.mp running
  have stems : Stems forkAndWait start ([load] ++ [fork]) 2 :=
    .copied (show Stems forkAndWait start ([] ++ [load]) 1 from .loaded loads)
      ⟨⟨context, found, lives⟩, unreleased 1 _⟩ next.le found' link
      ⟨⟨context', found', lives'⟩, unreleased 2 _⟩
  exact ⟨stems, (code_unchanged built (by simp [load, fork, Event.Tame])).1 forkAndWait 2 stems⟩

end NestedMachine.Hypervisor
