import NestedMachine.Proofs.Hypervisor.Exhaustion

/-!
# Which pages are mapped

No page is mapped but those of the segments: in every history, whatever has become of a context,
each of its mapped pages has a byte of its code, its data, its heap or its stack
(`trim_stateAfter`).  Where pages are mapped all at once, a context that stems from an image has all
of these pages mapped, because it was loaded so and because this is an heirloom (`begun_complete`).
Then accesses, runs and system calls find every page there, and the pool does not run dry under the
context (`Resident`, `footprint`).

A context whose memory was given back has no page mapped, and neither has a copy that is made of it
(`released_copy_unmapped`).
-/

namespace NestedMachine.Hypervisor

set_option autoImplicit false

variable {α : Type} {capacity : Nat} {origin start : Hypervisor} {id : ContextId}

/-! ## Every context -/

/-- No frame is lost or shared, every level hosts the contexts of the interpreter, and all address
spaces are settled. -/
structure Trim (capacity : Nat) (hypervisor : Hypervisor) : Prop extends
    Steady capacity hypervisor where
  settled : Interpreter.AllSettled hypervisor.machine.interpreter.contexts

/-- Requests that levels pass on keep a hypervisor trim if they are operations of the
interpreter. -/
theorem keeps_trim_below {action : MachineAction α} {request : InterpreterAction α}
    (steady : Keeps (Steady capacity) (below action))
    (transparent : ∀ machine : Machine, machine.Uniform → machine.Transparent action request)
    (operation : Interpreter.Operation) {answer : α → Interpreter.Answer}
    (same : operation.perform = request >>= fun given => pure (answer given)) :
    Keeps (Trim capacity) (below action) := by
  intro origin trim
  apply Halts.of_finalState
  refine ⟨steady.finalState trim.toSteady, ?_⟩
  have kept := operation.keeps_settled trim.sound trim.settled
  rw [same, finalState_map] at kept
  rw [finalState_below (transparent origin.machine trim.uniform)]
  exact kept

theorem keeps_trim_create (image : Image) (options : LoadOptions) :
    Keeps (Trim capacity) (below (Machine.create image options)) :=
  keeps_trim_below (keeps_steady_create image options)
    (fun _ uniform => uniform.create image options) (.create image options) rfl

theorem keeps_trim_fork (parent : ContextId) :
    Keeps (Trim capacity) (below (Machine.fork parent)) :=
  keeps_trim_below (keeps_steady_fork parent) (fun _ uniform => uniform.fork parent)
    (.fork parent) rfl

theorem keeps_trim_destroy (id : ContextId) :
    Keeps (Trim capacity) (below (Machine.destroy id)) :=
  keeps_trim_below (keeps_steady_destroy id) (fun _ uniform => uniform.destroy id)
    (.destroy id) rfl

theorem keeps_trim_release (id : ContextId) :
    Keeps (Trim capacity) (below (Machine.release id)) :=
  keeps_trim_below (keeps_steady_release id) (fun _ uniform => uniform.release id)
    (.release id) rfl

theorem keeps_trim_switch (id : ContextId) (quantum : Nat) :
    Keeps (Trim capacity) (below (Machine.switch id quantum)) :=
  keeps_trim_below (keeps_steady_switch id quantum) (fun _ uniform => uniform.switch id quantum)
    (.switch id quantum) rfl

theorem Trim.modifyContext (trim : Trim capacity origin) (id : ContextId)
    {change : Context → Context} (space : ∀ context, (change context).space = context.space) :
    Trim capacity ⟨origin.machine.modifyContext id change, origin.own⟩ := by
  refine ⟨trim.toSteady.modifyContext id space, ?_⟩
  unfold Machine.modifyContext
  split
  · exact trim.settled.congr (Interpreter.spaceIn_modify space)
  · exact trim.settled

theorem keeps_trim_memory (id : ContextId) {action : MemoryAction α}
    (courteous : Memory.Courteous action) : Keeps (Trim capacity) (onMemory id action) := by
  intro origin trim
  apply Halts.of_finalState
  have steady := (discreet_onMemory id fun _ _ => courteous.keeps_sound).keeps_steady.finalState
    trim.toSteady
  have kept := trim.settled.withMemory trim.sound courteous id
  refine ⟨steady, ?_⟩
  obtain ⟨machine, own⟩ := origin
  simp only [onMemory, trim.uniform.withMemory]
  generalize machine.interpreter.withMemory id action = result at kept
  obtain ⟨answer, interpreter⟩ := result
  cases answer <;> exact kept

/-- What a supervisor does on its own keeps all address spaces settled. -/
theorem stolid_trim : Stolid (Trim capacity) where
  note _ := .modify fun _ trim => ⟨⟨trim.sound.congr rfl (fun _ => rfl) le_rfl,
    trim.uniform.congr rfl fun _ => rfl⟩, trim.settled⟩
  own _ := .modify fun _ trim => ⟨⟨trim.sound, trim.uniform⟩, trim.settled⟩
  host request origin trim := by
    have steady := (discreet_askHost 0 request).keeps_steady.finalState trim.toSteady
    exact .of_finalState ⟨steady, trim.settled⟩
  change id _ tending origin trim := by
    rw [modifyContext_apply]
    cases origin.machine.context? id with
    | none => exact trim
    | some context => exact trim.modifyContext id tending.space
  destroy := keeps_trim_destroy

theorem firm_trim : Firm Anyone (Trim capacity) where
  toSturdy := stolid_trim.sturdy
  memory {id} _ _ _ courteous := keeps_trim_memory id courteous
  terminate {id} its := stolid_trim.sturdy.terminate its (keeps_trim_release id)
  load := stolid_trim.load keeps_trim_create
  fork {id} _ := stolid_trim.serveFork (keeps_trim_fork id)
  switch {id} _ := keeps_trim_switch id

theorem Request.keeps_trim (request : Request) (tame : Event.Tame (.request request)) :
    Keeps (Trim capacity) request.perform :=
  request.keeps (fun _ _ trim => ⟨⟨trim.sound, trim.uniform⟩, trim.settled⟩)
    keeps_trim_create keeps_trim_fork keeps_trim_destroy keeps_trim_release
    keeps_trim_switch (fun id request => keeps_trim_memory id request.courteous_perform)
    (fun _ id _ space trim => trim.modifyContext id space) tame

/-- **Whatever happens keeps all address spaces settled.** -/
theorem Event.keeps_trim (event : Event) (tame : event.Tame) :
    Keeps (Trim capacity) event.perform := by
  cases event with
  | operation asked =>
      refine Keeps.bind (firm_trim.operation (fun _ _ => ?_) fun id _ => stolid_trim.requeue id)
        fun _ => .pure ()
      exact .modify fun _ trim => ⟨⟨trim.sound, trim.uniform⟩, trim.settled⟩
  | request asked => exact (asked.keeps_trim tame).bind fun _ => .pure ()
  | resume rounds breakpoints condition stoppedAt =>
      refine Keeps.bind ?_ fun _ => .pure ()
      exact (firm_trim.sustained stolid_trim.requeue).resumeDebugger rounds breakpoints condition
        stoppedAt

/-- **No page is mapped in any history but those of the segments.** -/
theorem trim_stateAfter {configuration : Configuration} {host : Host} {journal : Journal}
    {level : Nat} (built : nested configuration host journal level = .ok start)
    {history : List Event} (tame : ∀ event ∈ history, event.Tame) :
    Trim configuration.frames (stateAfter Event.perform history start) := by
  have begun : Trim configuration.frames start := by
    refine ⟨steady_of_nested built, fun id space found => ?_⟩
    have missing := (empty_of_nested built).2.1 id
    obtain ⟨context, there, -⟩ := Option.map_eq_some_iff.mp found
    rw [kin, kinIn, there] at missing
    cases missing
  clear built
  induction history generalizing start with
  | nil => exact begun
  | cons event rest ih =>
      refine ih (fun later member => tame later (List.mem_cons_of_mem _ member)) ?_
      exact (event.keeps_trim (tame event List.mem_cons_self)).finalState begun

/-! ## Contexts that are mapped all at once -/

/-- Complete address spaces begin with the loading. -/
theorem begun_complete (image : Image) : Begun image fun memory => memory.space.Complete where
  heirloom := AddressSpace.lasting_complete.heirloom
  created sound created := sound.complete_of_create created

/-- What it comes to that the pages of the segments of a context are mapped, and no others: accesses
to its memory, apart from moving the program break, and runs of the context leave its address space
as it is, and with it the count of page faults, and the pool does not run dry under the context,
whatever single event comes next. -/
structure Resident (hypervisor : Hypervisor) (id : ContextId) (context : Context) : Prop where
  pages : ∀ page, page ∈ context.space.table.domain ↔ page ∈ context.space.layout.pages
  access : ∀ request : MemoryRequest,
    (∀ programBreak, request ≠ .setProgramBreak programBreak) →
      answerOf (onMemory id request.perform hypervisor) ≠ .ok (.error .outOfFrames) ∧
      (finalState (onMemory id request.perform hypervisor)).spaceOf id = some context.space
  run : ∀ quantum,
    (finalState (below (Machine.switch id quantum) hypervisor)).spaceOf id = some context.space ∧
    ∀ pc, answerOf (below (Machine.switch id quantum) hypervisor) ≠ .error (.memoryExhausted id pc)
  event : ∀ event : Event, event.Single →
    ∀ pc, answerOf (event.perform hypervisor) ≠ .error (.memoryExhausted id pc)

/-- **A context that lacks no page is resident.** -/
theorem Steady.resident (steady : Steady capacity origin) {context : Context}
    (found : origin.machine.context? id = some context) (full : context.space.Full) :
    origin.Resident id context := by
  have there : origin.machine.interpreter.contexts[id]? = some context :=
    (steady.uniform.context? id).symm.trans found
  have placed : origin.spaceOf id = some context.space := by
    rw [spaceOf, Interpreter.spaceIn, there]
    rfl
  have provided : origin.machine.interpreter.Provided id := by
    intro space same
    obtain rfl := Option.some.inj (placed.symm.trans same)
    exact full
  have old : id < origin.machine.interpreter.nextId := steady.sound.young id _ placed
  refine ⟨fun page => ⟨fun mapped => full.pages page mapped, fun needed => ?_⟩,
    fun request keeping => ?_, fun quantum => ?_, fun event single => ?_⟩
  · exact full.gapless full.eager page needed
  · have halts := halts_onMemory_provided provided (request.frugal keeping)
    generalize onMemory id request.perform origin = result at halts
    cases result with
    | ok answer after =>
        exact ⟨fun dry => halts.1 (Except.ok.inj dry), halts.2.trans placed⟩
    | error error after => exact ⟨by rintro ⟨⟩, halts.2.trans placed⟩
  · have halts := halts_switch_provided provided quantum
    generalize below (Machine.switch id quantum) origin = result at halts
    cases result with
    | ok answer after => exact ⟨halts.trans placed, by rintro _ ⟨⟩⟩
    | error error after =>
        exact ⟨halts.2.trans placed, fun pc dry => halts.1 pc (Except.error.inj dry)⟩
  · exact event.clears provided old single

/-- **Which pages are mapped.**  In every history in which the level above leaves address spaces to
the machine, each mapped page of a context has a byte of a segment, and the pages that have one are
those of the layout.  A context that stems from an image, and whose pages are mapped all at once, is
resident.  And no history leads elsewhere than a history of single steps. -/
theorem footprint {configuration : Configuration} {host : Host} {journal : Journal} {level : Nat}
    (built : nested configuration host journal level = .ok start) {history : List Event}
    (tame : ∀ event ∈ history, event.Tame) :
    let reached := stateAfter Event.perform history start
    (∀ id context, reached.machine.context? id = some context →
      (∀ page ∈ context.space.table.domain, context.space.layout.Spans page) ∧
      ∀ page, page ∈ context.space.layout.pages ↔ context.space.layout.Spans page) ∧
    (∀ image id, Stems image start history id →
      ∃ context, reached.machine.context? id = some context ∧
        (context.space.mode = .fullyMapped → reached.Resident id context)) ∧
    Reaches start reached := by
  intro reached
  have trim : Trim configuration.frames reached := trim_stateAfter built tame
  have ordered {id : ContextId} {context : Context}
      (there : reached.machine.interpreter.contexts[id]? = some context) :
      context.space.layout.Ordered :=
    (trim.sound.memory there reached.machine.interpreter.journal).layout
  refine ⟨fun id context found => ?_, fun image id stems => ?_, exists_singles tame start⟩
  · have there := (trim.uniform.context? id).symm.trans found
    have settled := trim.settled.get there
    have spans (page : Nat) :
        page ∈ context.space.layout.pages ↔ context.space.layout.Spans page :=
      Layout.mem_pages_iff_spans (ordered there) settled.packed
    exact ⟨fun page mapped => (spans page).mp (settled.pages page mapped), spans⟩
  · obtain ⟨context, there, complete⟩ := stems.has (begun_complete image) built tame
    have found := (trim.uniform.context? id).trans there
    exact ⟨context, found, fun eager =>
      trim.resident found { toComplete := complete, ordered := ordered there, eager }⟩

/-- A program that is a single call. -/
def soleCall : Image := .ofWords [Instruction.ecall.encode] []

/-- The program is loaded for the level above, with all of its pages. -/
def mappedCall : Event := .request (.create soleCall ⟨.fullyMapped, 4096, []⟩)

/-- The copy of a program whose pages are mapped all at once is resident. -/
theorem copy_is_resident :
    let history := [mappedCall, .request (.fork 1)]
    ∃ start, nested { Configuration.standard with frames := 8 } .null .silent 1 = .ok start ∧
      let reached := stateAfter Event.perform history start
      Stems soleCall start history 2 ∧
        ∃ context, reached.machine.context? 2 = some context ∧
          context.space.mode = .fullyMapped ∧ reached.Resident 2 context := by
  intro history
  obtain ⟨start, built⟩ : ∃ start,
      nested { Configuration.standard with frames := 8 } .null .silent 1 = .ok start := ⟨_, rfl⟩
  refine ⟨start, built, ?_⟩
  intro reached
  have evaluated : (nested { Configuration.standard with frames := 8 } .null .silent 1).map
      (fun start =>
        let loaded := stateAfter Event.perform [mappedCall] start
        let reached := stateAfter Event.perform [mappedCall, .request (.fork 1)] start
        decide (
          answerOf (fromAbove (Machine.create soleCall ⟨.fullyMapped, 4096, []⟩) start) = .ok 1 ∧
          loaded.machine.interpreter.nextId = 2 ∧
          (reached.machine.context? 1).map Context.exitStatus = some none ∧
          (reached.machine.context? 2).map (fun context =>
            (context.exitStatus, context.parent, context.space.mode)) =
              some (none, some 1, .fullyMapped))) = .ok true := by
    decide +kernel
  rw [built] at evaluated
  obtain ⟨answered, next, source, copy⟩ := of_decide_eq_true (Except.ok.inj evaluated)
  obtain ⟨context, found, lives⟩ := Option.map_eq_some_iff.mp source
  obtain ⟨context', found', same⟩ := Option.map_eq_some_iff.mp copy
  obtain ⟨lives', rest⟩ := Prod.mk.inj same
  obtain ⟨link, eager⟩ := Prod.mk.inj rest
  have unreleased (id : ContextId) (before : Hypervisor) :
      ¬Event.Releases (.request (.fork 1)) id before := fun releases => nomatch releases.1
  have loads : mappedCall.Loads soleCall 1 start := .inr ⟨_, rfl, answered⟩
  have stems : Stems soleCall start ([mappedCall] ++ [.request (.fork 1)]) 2 :=
    .copied (show Stems soleCall start ([] ++ [mappedCall]) 1 from .loaded loads)
      ⟨⟨context, found, lives⟩, unreleased 1 _⟩ next.le found' link
      ⟨⟨context', found', lives'⟩, unreleased 2 _⟩
  obtain ⟨-, resident, -⟩ :=
    footprint built (show ∀ event ∈ history, event.Tame by simp [history, mappedCall, Event.Tame])
  obtain ⟨context'', found'', resident⟩ := resident soleCall 2 stems
  obtain rfl := Option.some.inj (found'.symm.trans found'')
  exact ⟨stems, context', found', eager, resident eager⟩

/-- **A copy of a context whose memory was given back** lives, and its own memory was never given
back, but the page of its first instruction is not mapped, and fetching the instruction takes a page
fault. -/
theorem released_copy_unmapped :
    let history := [mappedCall, .request (.release 1), .request (.fork 1)]
    ∃ start, nested { Configuration.standard with frames := 8 } .null .silent 1 = .ok start ∧
      let reached := stateAfter Event.perform history start
      (∀ event ∈ history, event.Tame ∧ ∀ before, ¬event.Releases 2 before) ∧
        ∃ context, reached.machine.context? 2 = some context ∧ context.exitStatus = none ∧
          context.space.mode = .fullyMapped ∧
          context.space.layout.Spans (pageOf codeStart) ∧
          pageOf codeStart ∉ context.space.table.domain ∧
          ((finalState (onMemory 2 (Memory.fetch codeStart) reached)).spaceOf 2).map
            AddressSpace.pageFaults = some (context.space.pageFaults + 1) := by
  intro history
  obtain ⟨start, built⟩ : ∃ start,
      nested { Configuration.standard with frames := 8 } .null .silent 1 = .ok start := ⟨_, rfl⟩
  refine ⟨start, built, ?_⟩
  intro reached
  have evaluated : (nested { Configuration.standard with frames := 8 } .null .silent 1).map
      (fun start =>
        let reached := stateAfter Event.perform
          [mappedCall, .request (.release 1), .request (.fork 1)] start
        decide (
          (reached.machine.context? 2).map (fun context =>
            (context.exitStatus, context.space.mode, context.space.pageFaults)) =
              some (none, .fullyMapped, 0) ∧
          (reached.machine.context? 2).map (fun context =>
            ((context.space.layout.segmentOf? codeStart).isSome,
              context.space.table[pageOf codeStart]?)) = some (true, none) ∧
          ((finalState (onMemory 2 (Memory.fetch codeStart) reached)).spaceOf 2).map
            AddressSpace.pageFaults = some 1)) = .ok true := by
    decide +kernel
  rw [built] at evaluated
  obtain ⟨state, page, fault⟩ := of_decide_eq_true (Except.ok.inj evaluated)
  obtain ⟨context, found, same⟩ := Option.map_eq_some_iff.mp state
  obtain ⟨lives, rest⟩ := Prod.mk.inj same
  obtain ⟨eager, none⟩ := Prod.mk.inj rest
  rw [found] at page
  obtain ⟨held, missing⟩ := Prod.mk.inj (Option.some.inj page)
  refine ⟨?_, context, found, lives, eager, ⟨codeStart, rfl, held⟩, fun mapped => ?_, ?_⟩
  · simp [history, mappedCall, Event.Tame, Event.Releases]
  · obtain ⟨entry, there⟩ := PageTable.mem_domain.mp mapped
    rw [missing] at there
    cases there
  · rw [none]
    exact fault

end NestedMachine.Hypervisor
