import NestedMachine.Proofs.Machine.Execution
import NestedMachine.Proofs.Machine.Outcomes

/-!
# The journal is only written

No operation looks at the journal.  So two machines that differ only in their journals go on to
differ only in their journals, and whatever way of comparing journals is kept when alike notes are
added to both is kept by every operation (`JournalView`).

Three comparisons are used: journals that tell the same up to the numbers of levels, a journal of a
given threshold beside any other, and a journal that continues a given one.
-/

namespace NestedMachine

set_option autoImplicit false

variable {α : Type}

/-! ## Comparing journals -/

/-- A comparison of notes, and one of journals that is kept when notes that are alike are added. -/
structure JournalView where
  alike : Note → Note → Prop
  same : Journal → Journal → Prop
  refl : ∀ note, alike note note
  add : ∀ {left right note note'}, same left right → alike note note' →
    same (left.add note) (right.add note')
  guest : ∀ {left right} bytes, same left right →
    same (left.addEntry (.guest bytes)) (right.addEntry (.guest bytes))

/-- A note as another level would have made it. -/
def Note.atLevel (level : Nat) : Note → Note
  | .levelLoaded _ id => .levelLoaded level id
  | .stackBuilt _ frames quantum => .stackBuilt level frames quantum
  | .switched _ id => .switched level id
  | .levelFinished _ status => .levelFinished level status
  | other => other

theorem Note.severity_atLevel (note : Note) (level : Nat) :
    (note.atLevel level).severity = note.severity := by
  cases note <;> rfl

/-- An entry as another level would have made it. -/
def JournalEntry.atLevel (level : Nat) : JournalEntry → JournalEntry
  | .note happening => .note (happening.atLevel level)
  | .guest bytes => .guest bytes

namespace JournalView

/-- Journals that need have nothing in common, of which the second has a given threshold. -/
def listening (threshold : Threshold) : JournalView where
  alike _ _ := True
  same _ right := right.threshold = threshold
  refl _ := trivial
  add := by
    intro left right note note' same alike
    unfold Journal.add
    split
    · exact same
    · exact same
  guest _ same := same

/-- Journals that tell the same, up to the numbers of the levels that noted it. -/
def upToLevels : JournalView where
  alike note note' := note.atLevel 0 = note'.atLevel 0
  same left right := left.threshold = right.threshold ∧
    left.entries.map (JournalEntry.atLevel 0) = right.entries.map (JournalEntry.atLevel 0)
  refl _ := rfl
  add := by
    rintro left right note note' ⟨threshold, entries⟩ alike
    have severity : note.severity = note'.severity := by
      rw [← Note.severity_atLevel note 0, alike, Note.severity_atLevel]
    unfold Journal.add
    rw [threshold, severity]
    split
    · refine ⟨rfl, ?_⟩
      rw [Array.map_push, Array.map_push, entries, JournalEntry.atLevel, alike]
      rfl
    · exact ⟨threshold, entries⟩
  guest := by
    rintro left right bytes ⟨threshold, entries⟩
    refine ⟨threshold, ?_⟩
    unfold Journal.addEntry
    rw [Array.map_push, Array.map_push, entries]

/-- One journal twice, which continues the given one. -/
def continuing (base : Journal) : JournalView where
  alike note note' := note = note'
  same left right := left = right ∧ ∃ entries : List JournalEntry,
    left = entries.foldl Journal.addEntry base
  refl _ := rfl
  add := by
    rintro left _ note _ ⟨rfl, entries, rfl⟩ rfl
    exact ⟨rfl, entries ++ [.note note], by rw [List.foldl_append]; rfl⟩
  guest := by
    rintro left _ bytes ⟨rfl, entries, rfl⟩
    exact ⟨rfl, entries ++ [.guest bytes], by rw [List.foldl_append]; rfl⟩

variable (view : JournalView)

/-- Whether notes are alike whatever the numbers of the levels in them. -/
def LevelBlind : Prop :=
  ∀ note note', note.atLevel 0 = note'.atLevel 0 → view.alike note note'

theorem levelBlind_upToLevels : upToLevels.LevelBlind := fun _ _ same => same

theorem levelBlind_listening (threshold : Threshold) : (listening threshold).LevelBlind :=
  fun _ _ _ => trivial

theorem addEntries {left right : Journal} (same : view.same left right)
    (entries : List JournalEntry) :
    view.same (entries.foldl Journal.addEntry left) (entries.foldl Journal.addEntry right) := by
  induction entries generalizing left right with
  | nil => exact same
  | cons entry rest ih =>
      cases entry with
      | note note => exact ih (view.add same (view.refl note))
      | guest bytes => exact ih (view.guest bytes same)

end JournalView

/-! ## Memories -/

namespace Memory

/-- Memories that differ only in their journals. -/
structure SameBut (view : JournalView) (left right : Memory) : Prop where
  space : left.space = right.space
  pool : left.pool = right.pool
  journal : view.same left.journal right.journal

variable (view : JournalView)

theorem agrees_get {next next' : Memory → MemoryAction α}
    (rest : ∀ space pool left right, view.same left right →
      Agrees (fun _ => False) (SameBut view) Eq (next ⟨space, pool, left⟩)
        (next' ⟨space, pool, right⟩)) :
    Agrees (fun _ => False) (SameBut view) Eq (get >>= next) (get >>= next') := by
  refine .get_bind ?_
  rintro ⟨space, pool, left⟩ ⟨_, _, right⟩ ⟨rfl, rfl, journals⟩
  exact rest space pool left right journals

theorem agrees_modify {change : Memory → Memory}
    (keeps : ∀ space pool left right, view.same left right →
      SameBut view (change ⟨space, pool, left⟩) (change ⟨space, pool, right⟩)) :
    Agrees (fun _ => False) (SameBut view) Eq (modify change : MemoryAction PUnit)
      (modify change) := by
  refine .modify ?_
  rintro ⟨space, pool, left⟩ ⟨_, _, right⟩ ⟨rfl, rfl, journals⟩
  exact keeps space pool left right journals

theorem agrees_ensureMapped (page : Nat) :
    Agrees (fun _ => False) (SameBut view) Eq (ensureMapped page) (ensureMapped page) := by
  rintro ⟨space, pool, left⟩ ⟨_, _, right⟩ ⟨rfl, rfl, journals⟩
  dsimp only at journals ⊢
  rw [ensureMapped, ensureMapped]
  cases space.table[page]? with
  | some entry => exact .answer rfl ⟨rfl, rfl, journals⟩
  | none =>
      cases pool.alloc with
      | mk frame pool' =>
          cases frame with
          | some frame => exact .answer rfl ⟨rfl, rfl, view.add journals (view.refl _)⟩
          | none => exact .failure ⟨rfl, rfl, journals⟩

theorem agrees_ensureAllMapped (pages : List Nat) :
    Agrees (fun _ => False) (SameBut view) Eq (ensureAllMapped pages) (ensureAllMapped pages) := by
  induction pages with
  | nil => exact .pure rfl
  | cons page rest ih => exact .bind (agrees_ensureMapped view page) fun _ _ _ => ih

theorem agrees_check (address : Nat) (access : Access) :
    Agrees (fun _ => False) (SameBut view) Eq (check address access) (check address access) := by
  apply agrees_get view
  intro space pool left right _
  cases space.layout.check address access with
  | ok segment => exact .pure rfl
  | error fault => exact .throw fault

theorem agrees_translate (address : Nat) (access : Access) :
    Agrees (fun _ => False) (SameBut view) Eq (translate address access)
      (translate address access) := by
  refine .bind (agrees_check view address access) fun _ _ _ => ?_
  refine .bind (agrees_ensureMapped view _) ?_
  intro entry _ same
  subst same
  exact .ite (fun _ => .throw _) fun _ => .pure rfl

theorem agrees_setProgramBreak (programBreak : Nat) :
    Agrees (fun _ => False) (SameBut view) Eq (setProgramBreak programBreak)
      (setProgramBreak programBreak) := by
  have breakOnly : Agrees (fun _ => False) (SameBut view) Eq (setBreakOnly programBreak)
      (setBreakOnly programBreak) :=
    agrees_modify view fun _ _ _ _ journals => ⟨rfl, rfl, journals⟩
  have unmap (start stop : Nat) : Agrees (fun _ => False) (SameBut view) Eq
      (unmapPages start stop) (unmapPages start stop) :=
    agrees_modify view fun _ _ _ _ journals => ⟨rfl, rfl, journals⟩
  apply agrees_get view
  intro space pool left right _
  refine .ite (fun _ => .throw _) fun _ => .ite (fun _ => ?_) fun _ => ?_
  · refine .ite (fun _ => .throw _) fun _ => .bind breakOnly fun _ _ _ => ?_
    refine agrees_get view fun space pool left right _ => .ite (fun _ => ?_) fun _ => .pure rfl
    exact .bind (agrees_ensureAllMapped view _) fun _ _ _ => .pure rfl
  · exact .bind breakOnly fun _ _ _ => .bind (unmap _ _) fun _ _ _ => .pure rfl

/-- **Accesses respect memories that differ only in their journals.** -/
theorem respected_sameBut : Respected (fun _ => False) (SameBut view) where
  layout states := congrArg AddressSpace.layout states.space
  read address access _ _ := .bind (agrees_translate view address access) fun _ _ same =>
    same ▸ agrees_get view fun _ _ _ _ _ => .pure rfl
  write address access _ _ := .bind (agrees_translate view address access) fun _ _ same =>
    same ▸ agrees_modify view fun _ _ _ _ journals => ⟨rfl, rfl, journals⟩
  touch page := .bind (agrees_ensureMapped view page) fun _ _ _ => .pure rfl
  setProgramBreak := agrees_setProgramBreak view
  jot note := agrees_modify view fun _ _ _ _ journals =>
    ⟨rfl, rfl, view.add journals (view.refl note)⟩

theorem sameBut_freed {left right : Memory} (same : SameBut view left right) :
    left.freed.1 = right.freed.1 ∧ SameBut view left.freed.2 right.freed.2 := by
  obtain ⟨space, pool, journal⟩ := left
  obtain ⟨_, _, journal'⟩ := right
  obtain ⟨rfl, rfl, journals⟩ := same
  exact ⟨rfl, rfl, rfl, journals⟩

theorem agrees_releaseAll :
    Agrees (fun _ => False) (SameBut view) Eq releaseAll releaseAll :=
  fun _ _ states => .answer (sameBut_freed view states).1 (sameBut_freed view states).2

theorem agrees_copyPage (page : Nat) (entry : PageEntry) :
    Agrees (fun _ => False) (SameBut view) Eq (copyPage page entry) (copyPage page entry) := by
  rintro ⟨space, pool, left⟩ ⟨_, _, right⟩ ⟨rfl, rfl, journals⟩
  dsimp only at journals ⊢
  rw [copyPage, copyPage]
  cases pool.alloc with
  | mk frame pool' =>
      cases frame with
      | some frame => exact .answer rfl ⟨rfl, rfl, journals⟩
      | none => exact .failure ⟨rfl, rfl, journals⟩

theorem agrees_copyPages (pages : List (Nat × PageEntry)) :
    Agrees (fun _ => False) (SameBut view) Eq (copyPages pages) (copyPages pages) := by
  induction pages with
  | nil => exact .pure rfl
  | cons first rest ih => exact .bind (agrees_copyPage view _ _) fun _ _ _ => ih

theorem agrees_copyFrom (source : AddressSpace) :
    Agrees (fun _ => False) (SameBut view) Eq (copyFrom source) (copyFrom source) := by
  refine agrees_get view fun space pool left right _ => .ite (fun _ => .throw _) fun _ => ?_
  refine .bind (.tryCatch (agrees_copyPages view _) fun fault => ?_) fun _ _ _ => ?_
  · exact .bind (agrees_releaseAll view) fun _ _ _ => .throw fault
  · exact agrees_modify view fun _ _ _ _ journals => ⟨rfl, rfl, journals⟩

end Memory

/-! ## Interpreters -/

namespace Loading

/-- Loads from pools that are equal give the same, whatever the journals. -/
theorem load_sameBut (view : JournalView) (id : ContextId) (image : Image)
    (options : LoadOptions) (pool : FramePool) {left right : Journal}
    (same : view.same left right) :
    ∃ answer after left' right', load id image options pool left = (answer, after, left') ∧
      load id image options pool right = (answer, after, right') ∧ view.same left' right' := by
  unfold load
  split
  · rename_i error refused
    exact ⟨_, _, _, _, rfl, rfl, same⟩
  · rename_i layout made
    have respected := Memory.respected_sameBut view
    have mapped := Memory.agrees_mapEagerly respected fun states =>
      congrArg AddressSpace.mode states.space
    have filled := agrees_populate respected mapped image options.arguments
      ⟨.empty layout options.mode, pool, left⟩ ⟨.empty layout options.mode, pool, right⟩
      ⟨rfl, rfl, same⟩
    generalize populate image options.arguments ⟨.empty layout options.mode, pool, left⟩ = first
      at filled
    generalize populate image options.arguments ⟨.empty layout options.mode, pool, right⟩ = second
      at filled
    cases filled with
    | answer alike states =>
        subst alike
        dsimp only
        rw [states.space, states.pool]
        exact ⟨_, _, _, _, rfl, rfl, view.add states.journal (view.refl _)⟩
    | failure states =>
        have freed := (Memory.sameBut_freed view states).2
        dsimp only
        rw [freed.pool]
        exact ⟨_, _, _, _, rfl, rfl, freed.journal⟩
    | excuse reason => exact reason.elim

end Loading

namespace Interpreter

/-- A machine with another journal. -/
def withJournal (machine : Interpreter) (journal : Journal) : Interpreter :=
  { machine with journal }

/-- Interpreters that differ only in their journals. -/
inductive SameBut (view : JournalView) : Interpreter → Interpreter → Prop where
  | mk (machine : Interpreter) {left right : Journal} (same : view.same left right) :
      SameBut view (machine.withJournal left) (machine.withJournal right)

namespace SameBut

variable {view : JournalView} {left right : Interpreter}

theorem pool (same : SameBut view left right) : left.pool = right.pool := by
  cases same with
  | mk machine journals => rfl

theorem contexts (same : SameBut view left right) : left.contexts = right.contexts := by
  cases same with
  | mk machine journals => rfl

theorem nextId (same : SameBut view left right) : left.nextId = right.nextId := by
  cases same with
  | mk machine journals => rfl

theorem counters (same : SameBut view left right) : left.counters = right.counters := by
  cases same with
  | mk machine journals => rfl

theorem journal (same : SameBut view left right) : view.same left.journal right.journal := by
  cases same with
  | mk machine journals => exact journals

theorem modifyContext (same : SameBut view left right) (id : ContextId)
    (change : Context → Context) :
    SameBut view (left.modifyContext id change) (right.modifyContext id change) := by
  cases same with
  | mk machine journals => exact .mk (machine.modifyContext id change) journals

theorem note (same : SameBut view left right) {happening other : Note}
    (alike : view.alike happening other) :
    SameBut view (left.note happening) (right.note other) := by
  cases same with
  | mk machine journals => exact .mk machine (view.add journals alike)

theorem addEntries (same : SameBut view left right) (entries : List JournalEntry) :
    SameBut view { left with journal := entries.foldl Journal.addEntry left.journal }
      { right with journal := entries.foldl Journal.addEntry right.journal } := by
  cases same with
  | mk machine journals => exact .mk machine (view.addEntries journals entries)

end SameBut

variable (view : JournalView) {machine : Interpreter} {id : ContextId}

/-- The memories of a context in interpreters that differ only in their journals. -/
theorem sameBut_memoryOf (machine : Interpreter) (context : Context) {left right : Journal}
    (same : view.same left right) :
    Memory.SameBut view ((machine.withJournal left).memoryOf context)
      ((machine.withJournal right).memoryOf context) :=
  ⟨rfl, rfl, same⟩

/-- Memories that are kept keep interpreters that differ only in their journals. -/
theorem sameBut_keepMemory (context : Context) {left right : Journal} {memory memory' : Memory}
    (states : Memory.SameBut view memory memory') :
    SameBut view ((machine.withJournal left).keepMemory id context memory)
      ((machine.withJournal right).keepMemory id context memory') := by
  obtain ⟨space, pool, journal⟩ := memory
  obtain ⟨_, _, journal'⟩ := memory'
  obtain ⟨rfl, rfl, journals⟩ := states
  exact .mk (machine.keepMemory id context ⟨space, pool, journal⟩) journals

theorem agrees_create (image : Image) (options : LoadOptions) :
    Agrees (fun _ => False) (SameBut view) Eq (create image options) (create image options) := by
  rintro _ _ ⟨machine, same⟩
  obtain ⟨answer, pool, left', right', loaded, loaded', same'⟩ :=
    Loading.load_sameBut view machine.nextId image options machine.pool same
  cases answer with
  | ok context =>
      rw [create_of_ok loaded, create_of_ok loaded']
      exact .answer rfl (.mk (adopt { machine with pool } context) same')
  | error error =>
      rw [create_of_error loaded, create_of_error loaded']
      exact .failure (.mk { machine with pool, nextId := machine.nextId + 1 } same')

theorem agrees_fork (parent : ContextId) :
    Agrees (fun _ => False) (SameBut view) Eq (fork parent) (fork parent) := by
  rintro _ _ ⟨machine, same⟩
  rename_i left right
  cases found : machine.contexts[parent]? with
  | none =>
      have missing (journal : Journal) : (machine.withJournal journal).contexts[parent]? = none :=
        found
      rw [fork_of_none (missing left), fork_of_none (missing right)]
      exact .failure (.mk machine same)
  | some source =>
      have present (journal : Journal) :
          (machine.withJournal journal).contexts[parent]? = some source := found
      have copies := Memory.agrees_copyFrom view source.space
        ((machine.withJournal left).blankCopy source)
        ((machine.withJournal right).blankCopy source) ⟨rfl, rfl, same⟩
      generalize first : Memory.copyFrom source.space
        ((machine.withJournal left).blankCopy source) = firstCopy at copies
      generalize second : Memory.copyFrom source.space
        ((machine.withJournal right).blankCopy source) = secondCopy at copies
      cases copies with
      | @answer _ _ memory memory' alike states =>
          rw [fork_of_ok (present left) first, fork_of_ok (present right) second, states.space,
            states.pool]
          exact .answer rfl (.mk ((adopt { machine with pool := memory'.pool }
            (forkOf parent source memory'.space)).addChild parent machine.nextId) states.journal)
      | @failure error memory memory' states =>
          rw [fork_of_error (present left) first, fork_of_error (present right) second, states.pool]
          exact .answer rfl (.mk { machine with pool := memory'.pool } states.journal)
      | excuse reason => exact reason.elim

theorem agrees_release (id : ContextId) :
    Agrees (fun _ => False) (SameBut view) Eq (release id) (release id) := by
  rintro _ _ ⟨machine, same⟩
  rename_i left right
  cases found : machine.contexts[id]? with
  | none =>
      have missing (journal : Journal) : (machine.withJournal journal).contexts[id]? = none := found
      rw [release_of_none (missing left), release_of_none (missing right)]
      exact .failure (.mk machine same)
  | some context =>
      have present (journal : Journal) :
          (machine.withJournal journal).contexts[id]? = some context := found
      have freed := Memory.sameBut_freed view (sameBut_memoryOf view machine context same)
      rw [release_of_some (present left), release_of_some (present right)]
      exact .answer freed.1 (sameBut_keepMemory view context freed.2)

theorem agrees_destroy (id : ContextId) :
    Agrees (fun _ => False) (SameBut view) Eq (destroy id) (destroy id) := by
  rintro _ _ ⟨machine, same⟩
  rename_i left right
  cases found : machine.contexts[id]? with
  | none =>
      have missing (journal : Journal) : (machine.withJournal journal).contexts[id]? = none := found
      rw [destroy_of_none (missing left), destroy_of_none (missing right)]
      exact .failure (.mk machine same)
  | some context =>
      have present (journal : Journal) :
          (machine.withJournal journal).contexts[id]? = some context := found
      rw [destroy_of_some (present left), destroy_of_some (present right)]
      exact .answer rfl (.mk { machine with
        pool := (machine.memoryOf context).freed.2.pool
        contexts := unlink (machine.contexts.erase id) id context } same)

/-- Runs of a context in interpreters that differ only in their journals. -/
theorem runOf_sameBut (machine : Interpreter) (context : Context) (quantum : Nat)
    {left right : Journal} (same : view.same left right) :
    Hart.RunsAgree (fun _ => False) (Memory.SameBut view)
      ((machine.withJournal left).runOf context quantum)
      ((machine.withJournal right).runOf context quantum) :=
  Hart.run_agrees (Memory.respected_sameBut view) machine.tracing quantum context.hart 0
    (sameBut_memoryOf view machine context same)

theorem agrees_switch (id : ContextId) (quantum : Nat) :
    Agrees (fun _ => False) (SameBut view) Eq (switch id quantum) (switch id quantum) := by
  rintro _ _ ⟨machine, same⟩
  rename_i left right
  cases found : machine.contexts[id]? with
  | none =>
      have missing (journal : Journal) : (machine.withJournal journal).contexts[id]? = none := found
      rw [switch_of_none (missing left), switch_of_none (missing right)]
      exact .failure (.mk machine same)
  | some context =>
      have present (journal : Journal) :
          (machine.withJournal journal).contexts[id]? = some context := found
      by_cases exited : context.state = .exited
      · rw [switch_of_exited (present left) exited, switch_of_exited (present right) exited]
        exact .failure (.mk machine same)
      · have runs := runOf_sameBut view machine context quantum same
        generalize first : (machine.withJournal left).runOf context quantum = firstRun at runs
        generalize second : (machine.withJournal right).runOf context quantum = secondRun at runs
        cases runs with
        | @same hart retired memory memory' ending states =>
            obtain ⟨space, pool, journal⟩ := memory
            obtain ⟨_, _, journal'⟩ := memory'
            obtain ⟨rfl, rfl, journals⟩ := states
            cases ending with
            | trap trap =>
                rw [switch_of_trap (present left) exited (by rw [first]),
                  switch_of_trap (present right) exited (by rw [second]), first, second]
                exact .answer rfl (.mk (machine.keepTrap id context
                  ⟨hart, retired, ⟨space, pool, journal⟩, .trap trap⟩) journals)
            | outOfFrames =>
                rw [switch_of_outOfFrames (present left) exited (by rw [first]),
                  switch_of_outOfFrames (present right) exited (by rw [second]), first, second]
                exact .failure (.mk (machine.keepRun id context
                  ⟨hart, retired, ⟨space, pool, journal⟩, .outOfFrames⟩) journals)
        | excuse reason => exact reason.elim

theorem sameBut_withMemory {action : MemoryAction α}
    (agrees : Agrees (fun _ => False) (Memory.SameBut view) Eq action action) (id : ContextId)
    {left right : Interpreter} (states : SameBut view left right) :
    (left.withMemory id action).1 = (right.withMemory id action).1 ∧
      SameBut view (left.withMemory id action).2 (right.withMemory id action).2 := by
  obtain ⟨machine, same⟩ := states
  rename_i left right
  cases found : machine.contexts[id]? with
  | none =>
      have missing (journal : Journal) : (machine.withJournal journal).contexts[id]? = none := found
      rw [withMemory_of_none (missing left), withMemory_of_none (missing right)]
      exact ⟨rfl, .mk machine same⟩
  | some context =>
      have present (journal : Journal) :
          (machine.withJournal journal).contexts[id]? = some context := found
      rw [withMemory_of_some (present left), withMemory_of_some (present right)]
      have outcomes := agrees _ _ (sameBut_memoryOf view machine context same)
      generalize action ((machine.withJournal left).memoryOf context) = first at outcomes
      generalize action ((machine.withJournal right).memoryOf context) = second at outcomes
      cases outcomes with
      | answer alike states => exact ⟨by rw [alike]; rfl, sameBut_keepMemory view context states⟩
      | failure states => exact ⟨rfl, sameBut_keepMemory view context states⟩
      | excuse reason => exact reason.elim

end Interpreter

end NestedMachine
