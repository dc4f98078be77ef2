import NestedMachine.Proofs.Hypervisor.Families
import NestedMachine.Proofs.Hypervisor.Following
import NestedMachine.Proofs.Machine.Conservation

/-!
# Discreet actions

Most of what a hypervisor does on behalf of a context concerns registers, the memory of that
context, counters, notes, the host and the trace.  It changes nothing that matters to the
scheduling, leaves every other address space alone, and loses no frame (`Hushed`).  An action is
discreet if this is so whether it answers or fails (`Discreet`).  Discreet actions follow each other
in discreet programs (`Discreet.bind`), and so the system calls that concern the caller alone are
discreet.

What remains are the requests that concern the table of contexts: each is told once, with what it
leaves when it fails (`halts_create`, `halts_fork`, `halts_release`, `halts_destroy`,
`halts_modifyContext`).
-/

namespace NestedMachine

set_option autoImplicit false

open Std (TreeMap TreeSet)

/-- An action that loses no frame and takes none that is behind another page. -/
def Memory.Careful {α : Type} (action : MemoryAction α) : Prop :=
  ∀ around memory, Memory.Sound around memory →
    Memory.Sound around (finalState (action memory))

theorem Memory.Congruent.careful {α : Type} {action : MemoryAction α}
    (congruent : Memory.Congruent action) : Memory.Careful action :=
  fun _ _ sound => congruent.keeps_sound sound

namespace Hypervisor

variable {α β : Type} {origin middle after : Hypervisor} {id holder : ContextId}

/-- Every error but the one that nothing can run. -/
def NotStuck : HostError → Prop
  | .schedulerInvariant _ _ .nothingRunnable => False
  | _ => True

/-- A change of a record that does not concern queues, traps and hosted contexts. -/
def Bookkeeping (change : Supervisor → Supervisor) : Prop :=
  ∀ own, (change own).ready = own.ready ∧ (change own).owned = own.owned ∧
    (change own).orphans = own.orphans ∧ (change own).debugTraps = own.debugTraps ∧
    (change own).relay.hosted = own.relay.hosted

/-- An outcome after which the caller does not wait. -/
def Outcome.Prompt : Outcome → Prop
  | .block _ => False
  | _ => True

/-! ## Changes within one address space -/

/-- Frames are accounted for as before, and every address space is as it was, apart from the
holder's and from those that are gone. -/
structure Confined (holder : ContextId) (origin after : Hypervisor) : Prop where
  sound : ∀ capacity, origin.machine.interpreter.Sound capacity →
    after.machine.interpreter.Sound capacity
  spaces : ∀ other space, other ≠ holder → after.spaceOf other = some space →
    origin.spaceOf other = some space

namespace Confined

theorem refl (holder : ContextId) (hypervisor : Hypervisor) :
    Confined holder hypervisor hypervisor :=
  ⟨fun _ sound => sound, fun _ _ _ found => found⟩

theorem trans (first : Confined holder origin middle) (second : Confined holder middle after) :
    Confined holder origin after :=
  ⟨fun capacity sound => second.sound capacity (first.sound capacity sound),
    fun other space different found =>
      first.spaces other space different (second.spaces other space different found)⟩

/-- Nothing concerns memory but the pool and the table of contexts. -/
theorem of_same (pool : after.machine.interpreter.pool = origin.machine.interpreter.pool)
    (spaces : ∀ other, after.spaceOf other = origin.spaceOf other)
    (nextId : origin.machine.interpreter.nextId ≤ after.machine.interpreter.nextId) :
    Confined holder origin after :=
  ⟨fun _ sound => sound.congr pool spaces nextId, fun other _ _ found => spaces other ▸ found⟩

/-- The memory of the holder has changed. -/
theorem of_insert {context : Context}
    (sound : ∀ capacity, origin.machine.interpreter.Sound capacity →
      after.machine.interpreter.Sound capacity)
    (contexts : after.machine.interpreter.contexts =
      origin.machine.interpreter.contexts.insert holder context) :
    Confined holder origin after := by
  refine ⟨sound, ?_⟩
  intro other space different found
  rw [spaceOf, Interpreter.spaceIn, contexts, Table.getElem?_insert, if_neg different.symm] at found
  exact found

end Confined

/-- Nothing has changed that matters to the scheduling or to another address space. -/
structure Hushed (holder : ContextId) (origin after : Hypervisor) : Prop extends
  Kindred origin after, Confined holder origin after

namespace Hushed

theorem refl (holder : ContextId) (uniform : origin.machine.Uniform) :
    Hushed holder origin origin :=
  ⟨.refl uniform, .refl holder origin⟩

theorem trans (first : Hushed holder origin middle) (second : Hushed holder middle after) :
    Hushed holder origin after :=
  ⟨first.toKindred.trans second.toKindred, first.toConfined.trans second.toConfined⟩

/-- The memory of the holder has changed, and nothing else of it that matters. -/
theorem of_insert {relays : List Relay} {interpreter : Interpreter} {context changed : Context}
    (uniform : Machine.Uniform ⟨relays, interpreter⟩)
    (found : origin.machine.interpreter.contexts[holder]? = some context)
    (contexts : interpreter.contexts = origin.machine.interpreter.contexts.insert holder changed)
    (same : changed.kin = context.kin)
    (nextId : interpreter.nextId = origin.machine.interpreter.nextId)
    (sound : ∀ capacity, origin.machine.interpreter.Sound capacity → interpreter.Sound capacity) :
    Hushed holder origin ⟨⟨relays, interpreter⟩, origin.own⟩ := by
  refine ⟨⟨uniform, fun other => ?_, nextId, rfl, rfl, rfl, rfl, rfl⟩, .of_insert sound contexts⟩
  unfold kin
  rw [show (Hypervisor.mk ⟨relays, interpreter⟩ origin.own).machine.interpreter.contexts = _
    from contexts]
  exact kinIn_insert_of_found found same

end Hushed

/-! ## Discreet programs -/

/-- An action on behalf of a context that changes nothing that matters to the scheduling or to
another address space, also if it fails, and gives an answer of some kind. -/
def Discreet (holder : ContextId) (told : α → Prop) (action : HypervisorAction α) : Prop :=
  ∀ origin : Hypervisor, origin.machine.Uniform →
    Halts (fun error after => Hushed holder origin after ∧ NotStuck error)
      (fun answer after => Hushed holder origin after ∧ told answer) (action origin)

/-- Any answer. -/
def Anything (_ : α) : Prop := True

namespace Discreet

variable {told : α → Prop}

theorem pure {answer : α} (said : told answer) : Discreet holder told (pure answer) :=
  fun _ uniform => .pure ⟨.refl holder uniform, said⟩

theorem throw {error : HostError} (may : NotStuck error) :
    Discreet holder told (throw error : HypervisorAction α) :=
  fun _ uniform => .throw ⟨.refl holder uniform, may⟩

theorem bind {mid : β → Prop} {action : HypervisorAction β} {next : β → HypervisorAction α}
    (first : Discreet holder mid action)
    (rest : ∀ answer, mid answer → Discreet holder told (next answer)) :
    Discreet holder told (action >>= next) := by
  intro origin uniform
  apply (first origin uniform).bind
  rintro answer middle ⟨hushed, said⟩
  apply (rest answer said middle hushed.uniform).mono
  · exact fun _ _ given => ⟨hushed.trans given.1, given.2⟩
  · exact fun _ _ given => ⟨hushed.trans given.1, given.2⟩

theorem get_bind {next : Hypervisor → HypervisorAction α}
    (rest : ∀ look, Discreet holder told (next look)) : Discreet holder told (get >>= next) :=
  fun origin uniform => .get_bind (rest origin origin uniform)

theorem ite {condition : Prop} [Decidable condition] {action other : HypervisorAction α}
    (yes : Discreet holder told action) (no : Discreet holder told other) :
    Discreet holder told (if condition then action else other) := by
  split
  · exact yes
  · exact no

theorem modify {change : Hypervisor → Hypervisor}
    (keeps : ∀ hypervisor, hypervisor.machine.Uniform →
      Hushed holder hypervisor (change hypervisor)) :
    Discreet holder Anything (modify change) :=
  fun origin uniform => ⟨keeps origin uniform, trivial⟩

end Discreet

/-! ## Notes, counters and the host -/

variable (holder)

theorem discreet_note (happening : Note) : Discreet holder Anything (note happening) := by
  apply Discreet.modify
  intro hypervisor uniform
  refine ⟨⟨uniform.congr rfl fun _ => rfl, fun _ => rfl, rfl, rfl, rfl, rfl, rfl, rfl⟩, ?_⟩
  exact .of_same rfl (fun _ => rfl) le_rfl

theorem discreet_modifyOwn {change : Supervisor → Supervisor} (clerical : Bookkeeping change) :
    Discreet holder Anything (modifyOwn change) := by
  apply Discreet.modify
  intro hypervisor uniform
  obtain ⟨ready, owned, orphans, debugTraps, hosted⟩ := clerical hypervisor.own
  refine ⟨⟨uniform, fun _ => rfl, rfl, ready, owned, orphans, debugTraps, hosted⟩, ?_⟩
  exact .of_same rfl (fun _ => rfl) le_rfl

theorem discreet_count (change : Counters → Counters) :
    Discreet holder Anything (count change) :=
  discreet_modifyOwn holder fun _ => ⟨rfl, rfl, rfl, rfl, rfl⟩

theorem discreet_requireOwned (id : ContextId) : Discreet holder Anything (requireOwned id) :=
  .get_bind fun _ => .ite (.pure trivial) (.throw trivial)

theorem discreet_contextOf (id : ContextId) : Discreet holder Anything (contextOf id) := by
  apply Discreet.get_bind
  intro look
  cases look.machine.context? id with
  | none => exact .throw trivial
  | some context => exact .pure trivial

theorem discreet_askHost (request : Host → HostAnswer α) :
    Discreet holder Anything (askHost request) := by
  rintro ⟨machine, own⟩ uniform
  refine ⟨⟨⟨uniform.congr rfl fun _ => rfl, fun _ => rfl, rfl, rfl, rfl, rfl, rfl, rfl⟩, ?_⟩,
    trivial⟩
  exact .of_same rfl (fun _ => rfl) le_rfl

/-! ## The memory of the caller -/

variable {holder}

theorem discreet_onMemory (id : ContextId) {action : MemoryAction α}
    (careful : Memory.Careful action) : Discreet id Anything (onMemory id action) := by
  rintro ⟨machine, own⟩ uniform
  simp only [onMemory, uniform.withMemory]
  cases found : machine.interpreter.contexts[id]? with
  | none =>
      rw [Interpreter.withMemory_of_none found]
      exact ⟨.refl id uniform, trivial⟩
  | some context =>
      have kept := Machine.contains_withMemory machine.interpreter id action
      rw [Interpreter.withMemory_of_some found] at kept ⊢
      have held (capacity : Nat) (sound : machine.interpreter.Sound capacity) :=
        sound.keepMemory found (careful _ _ (sound.memory found machine.interpreter.journal))
      exact ⟨.of_insert (uniform.congr rfl kept) found rfl rfl rfl held, trivial⟩

theorem discreet_onCallerMemory (id : ContextId) (call : Call) {action : MemoryAction α}
    (congruent : Memory.Congruent action) :
    Discreet id Anything (onCallerMemory id call action) := by
  apply (discreet_onMemory id congruent.careful).bind
  intro answer _
  split
  · exact .throw trivial
  · exact .pure trivial

theorem discreet_serveRead (id : ContextId) (call : Call) :
    Discreet id (fun served => served.1.Prompt) (serveRead id call) := by
  apply Discreet.ite (.pure trivial)
  apply (discreet_onCallerMemory id call (.checkRange _ _ _)).bind
  intro checked _
  cases checked with
  | error fault => exact .pure trivial
  | ok _ =>
      apply (discreet_askHost id _).bind
      intro answer _
      cases answer with
      | error refusal => exact (discreet_note id _).bind fun _ _ => .pure trivial
      | ok bytes =>
          apply (discreet_onCallerMemory id call (.writeBytes _ _)).bind
          intro written _
          cases written with
          | error fault => exact .pure trivial
          | ok _ => exact .pure trivial

theorem discreet_serveWrite (id : ContextId) (call : Call) :
    Discreet id Outcome.Prompt (serveWrite id call) := by
  apply Discreet.ite (.pure trivial)
  apply (discreet_onCallerMemory id call (.readBytes _ _)).bind
  intro found _
  cases found with
  | error fault => exact .pure trivial
  | ok bytes =>
      apply (discreet_askHost id _).bind
      intro answer _
      cases answer with
      | ok written => exact .pure trivial
      | error refusal => exact (discreet_note id _).bind fun _ _ => .pure trivial

theorem discreet_serveOpen (id : ContextId) (call : Call) :
    Discreet id Outcome.Prompt (serveOpen id call) := by
  apply (discreet_onCallerMemory id call (.readString _ _)).bind
  intro found _
  cases found with
  | error fault => exact .pure trivial
  | ok bytes =>
      dsimp only
      cases Bytes.toString? bytes with
      | none => exact .pure trivial
      | some path =>
          apply (discreet_askHost id _).bind
          intro answer _
          cases answer with
          | ok descriptor => exact .pure trivial
          | error refusal => exact (discreet_note id _).bind fun _ _ => .pure trivial

theorem careful_requestBreak (requested : Nat) : Memory.Careful (requestBreak requested) := by
  intro around memory sound
  unfold requestBreak
  split
  · exact sound
  · have kept := (Memory.Congruent.setProgramBreak requested).keeps_sound sound
    generalize Memory.setProgramBreak requested memory = result at kept
    cases result <;> exact kept

theorem discreet_serveBreak (id : ContextId) (call : Call) :
    Discreet id Outcome.Prompt (serveBreak id call) := by
  rw [serveBreak_eq]
  apply (discreet_onMemory id (careful_requestBreak _)).bind
  intro answer _
  cases answer with
  | error fault => exact .pure trivial
  | ok found =>
      obtain ⟨programBreak, refused⟩ := found
      cases refused with
      | none => exact .pure trivial
      | some fault => exact (discreet_note id _).bind fun _ _ => .pure trivial

/-! ## Recording and replaying -/

theorem discreet_nextRecord (id : ContextId) (call : Call) (replayer : Replayer) :
    Discreet id Anything (nextRecord call replayer) := by
  unfold nextRecord
  cases result : replayer.next call.pc call.number with
  | ok answer after =>
      refine (discreet_modifyOwn id ?_).bind fun _ _ => .pure trivial
      exact fun _ => ⟨rfl, rfl, rfl, rfl, rfl⟩
  | error error after =>
      apply Discreet.throw
      unfold Replayer.next at result
      split at result
      · obtain ⟨rfl, rfl⟩ := EStateM.Result.error.inj result
        exact trivial
      · split at result
        · cases result
        · obtain ⟨rfl, rfl⟩ := EStateM.Result.error.inj result
          exact trivial

theorem discreet_noteCompleted (id : ContextId) (call : Call) (outcome : Outcome)
    (data : Bytes) : Discreet id Anything (noteCompleted call outcome data) := by
  unfold noteCompleted
  cases outcome.result? with
  | none => exact .pure trivial
  | some result =>
      apply Discreet.get_bind
      intro look
      cases look.own.recording with
      | off => exact .pure trivial
      | record trace => exact discreet_modifyOwn id fun _ => ⟨rfl, rfl, rfl, rfl, rfl⟩
      | replay replayer =>
          apply (discreet_nextRecord id call replayer).bind
          exact fun _ _ => .ite (.throw trivial) (.pure trivial)

theorem discreet_captureWrite (id : ContextId) (call : Call) (size : Nat) :
    Discreet id Anything (captureWrite id call size) := by
  apply (discreet_onCallerMemory id call (.readBytes _ _)).bind
  intro found _
  cases found with
  | error fault => exact .pure trivial
  | ok bytes =>
      apply discreet_modifyOwn
      intro own
      dsimp only
      split <;> exact ⟨rfl, rfl, rfl, rfl, rfl⟩

theorem discreet_deliverRead (id : ContextId) (call : Call) (data : Bytes) :
    Discreet id Anything (deliverRead id call data) := by
  apply (discreet_onCallerMemory id call (.writeBytes _ _)).bind
  intro delivered _
  cases delivered with
  | ok _ => exact .pure trivial
  | error fault => exact discreet_note id _

theorem discreet_replayHostCall (id : ContextId) (call : Call) (kind : SystemCall)
    (replayer : Replayer) :
    Discreet id Outcome.Prompt (replayHostCall id call kind replayer) := by
  apply (discreet_nextRecord id call replayer).bind
  rintro ⟨index, record⟩ _
  cases kind with
  | read =>
      apply Discreet.ite (.pure trivial)
      exact (discreet_deliverRead id call _).bind fun _ _ => .pure trivial
  | write =>
      refine Discreet.ite ?_ (.pure trivial)
      exact (discreet_captureWrite id call _).bind fun _ _ => .pure trivial
  | _ => exact .pure trivial

/-! ## Requests to the machine below -/

/-- A request that levels pass on halts as it halts at the interpreter. -/
theorem halts_below {action : MachineAction α} {request : InterpreterAction α}
    {failed : HostError → Hypervisor → Prop} {wanted : α → Hypervisor → Prop}
    (transparent : origin.machine.Transparent action request)
    (halts : Halts
      (fun error interpreter => ∀ relays, Machine.Uniform ⟨relays, interpreter⟩ →
        failed error ⟨⟨relays, interpreter⟩, origin.own⟩)
      (fun answer interpreter => ∀ relays, Machine.Uniform ⟨relays, interpreter⟩ →
        wanted answer ⟨⟨relays, interpreter⟩, origin.own⟩)
      (request origin.machine.interpreter)) :
    Halts failed wanted (below action origin) := by
  obtain ⟨machine, own⟩ := origin
  obtain ⟨relays, passed, uniform⟩ := transparent
  simp only [below, passed]
  generalize request machine.interpreter = result at halts uniform
  cases result with
  | ok answer interpreter => exact halts relays uniform
  | error error interpreter => exact halts relays uniform

/-- A request that names no context has been refused. -/
structure Refused (id : ContextId) (origin : Hypervisor) (error : HostError)
    (after : Hypervisor) : Prop where
  hushed : ∀ holder, Hushed holder origin after
  may : NotStuck error
  missing : origin.kin id = none

/-- An interpreter that has not changed is a refusal. -/
theorem refused_of_missing {relays : List Relay}
    (uniform : Machine.Uniform ⟨relays, origin.machine.interpreter⟩)
    (missing : origin.machine.interpreter.contexts[id]? = none) :
    Refused id origin (.unknownContext id) ⟨⟨relays, origin.machine.interpreter⟩, origin.own⟩ := by
  refine ⟨fun holder => ⟨⟨uniform, fun _ => rfl, rfl, rfl, rfl, rfl, rfl, rfl⟩, ?_⟩, trivial, ?_⟩
  · exact .of_same rfl (fun _ => rfl) le_rfl
  · rw [kin, kinIn, missing]
    rfl

theorem halts_contextOf (uniform : origin.machine.Uniform) (id : ContextId) :
    Halts (Refused id origin)
      (fun context after => after = origin ∧
        origin.machine.interpreter.contexts[id]? = some context)
      (contextOf id origin) := by
  rw [contextOf_apply, uniform.context?, Interpreter.context?]
  cases found : origin.machine.interpreter.contexts[id]? with
  | none => exact refused_of_missing uniform found
  | some context => exact ⟨rfl, rfl⟩

/-- A change of one context concerns no memory. -/
theorem halts_modifyContext (uniform : origin.machine.Uniform) (id : ContextId)
    {change : Context → Context} (change' : Kin → Kin)
    (tells : ∀ context, (change context).kin = change' context.kin)
    (space : ∀ context, (change context).space = context.space) :
    Halts (Refused id origin)
      (fun _ after => Altered id change' origin after ∧ ∀ holder, Confined holder origin after)
      (modifyContext id change origin) := by
  rw [modifyContext_apply, uniform.context?, Interpreter.context?]
  cases found : origin.machine.interpreter.contexts[id]? with
  | none => exact refused_of_missing uniform found
  | some context =>
      rw [uniform.modifyContext found]
      refine ⟨⟨uniform.congr rfl fun other => ?_, fun other => kinIn_modify tells, rfl, rfl⟩,
        fun holder => .of_same rfl (fun other => ?_) le_rfl⟩
      · exact TreeMap.contains_modify
      · exact Interpreter.spaceIn_modify space other

/-- A context is marked as ended. -/
theorem halts_markEnded (uniform : origin.machine.Uniform) (id : ContextId)
    (status : ExitStatus) :
    Halts (Refused id origin)
      (fun _ after => Altered id (fun kin => ⟨.exited, some status, kin.parent, ∅⟩) origin after ∧
        ∀ holder, Confined holder origin after)
      (modifyContext id (fun context => { context.terminate status with children := ∅ })
        origin) := by
  refine halts_modifyContext uniform id _ (fun _ => rfl) ?_
  exact fun _ => rfl

/-- A change that does not concern what matters to the scheduling is discreet. -/
theorem discreet_modifyContext (holder id : ContextId) {change : Context → Context}
    (same : ∀ context, (change context).kin = context.kin)
    (space : ∀ context, (change context).space = context.space) :
    Discreet holder Anything (modifyContext id change) := by
  intro origin uniform
  apply (halts_modifyContext uniform id (fun kin => kin) same space).mono
  · rintro _ after ⟨altered, confined⟩
    refine ⟨⟨⟨altered.uniform, fun other => ?_, altered.nextId, ?_, ?_, ?_, ?_, ?_⟩,
      confined holder⟩, trivial⟩
    · rw [altered.kin]
      simp
    all_goals rw [altered.own]
  · exact fun _ _ refused => ⟨refused.hushed holder, refused.may⟩

theorem discreet_switch (id : ContextId) (quantum : Nat) :
    Discreet id Anything (below (Machine.switch id quantum)) := by
  intro origin uniform
  apply halts_below (uniform.switch id quantum)
  have kept (capacity : Nat) (sound : origin.machine.interpreter.Sound capacity) :=
    sound.switch id quantum
  have ends := Interpreter.switchEnds id quantum origin.machine.interpreter
  generalize Interpreter.switch id quantum origin.machine.interpreter = result at kept ends ⊢
  cases ends with
  | missing missing =>
      intro relays uniform'
      have refused := refused_of_missing uniform' missing
      exact ⟨refused.hushed id, refused.may⟩
  | exited found exited =>
      intro relays uniform'
      refine ⟨⟨⟨uniform', fun _ => rfl, rfl, rfl, rfl, rfl, rfl, rfl⟩, ?_⟩, trivial⟩
      exact .of_same rfl (fun _ => rfl) le_rfl
  | trapped found live ended =>
      intro relays uniform'
      exact ⟨.of_insert uniform' found rfl rfl rfl kept, trivial⟩
  | ranDry found live ended =>
      intro relays uniform'
      exact ⟨.of_insert uniform' found rfl rfl rfl kept, trivial⟩

/-- The address space of a context has no pages. -/
def Emptied (hypervisor : Hypervisor) (id : ContextId) : Prop :=
  ∀ space, hypervisor.spaceOf id = some space → space.mappedPages = 0

theorem halts_release (uniform : origin.machine.Uniform) (id : ContextId) :
    Halts (Refused id origin) (fun _ after => Hushed id origin after ∧ after.Emptied id)
      (below (Machine.release id) origin) := by
  apply halts_below (uniform.release id)
  have kept (capacity : Nat) (sound : origin.machine.interpreter.Sound capacity) :=
    sound.release id
  cases found : origin.machine.interpreter.contexts[id]? with
  | none =>
      rw [Interpreter.release_of_none found]
      exact fun relays uniform' => refused_of_missing uniform' found
  | some context =>
      rw [Interpreter.release_of_some found] at kept ⊢
      intro relays uniform'
      refine ⟨.of_insert uniform' found rfl rfl rfl kept, ?_⟩
      intro space left
      rw [spaceOf, Interpreter.spaceIn, Interpreter.keepMemory, Table.getElem?_insert,
        if_pos rfl] at left
      obtain rfl := Option.some.inj left
      rfl

/-- The next number is used up, and nothing else has changed that matters. -/
structure Skipped (origin after : Hypervisor) : Prop where
  uniform : after.machine.Uniform
  kin : ∀ id, after.kin id = origin.kin id
  nextId : after.machine.interpreter.nextId = origin.machine.interpreter.nextId + 1
  own : after.own = origin.own
  confined : ∀ holder, Confined holder origin after

/-- A program is loaded as a context without a family. -/
theorem ends_load (id : ContextId) (image : Image) (options : LoadOptions) (pool : FramePool)
    (journal : Journal) :
    (∀ context, (Loading.load id image options pool journal).1 = .ok context →
      context.kin = ⟨.ready, none, none, ∅⟩) ∧
    ∀ error, (Loading.load id image options pool journal).1 = .error error → NotStuck error := by
  unfold Loading.load Loading.layoutOf
  constructor
  · intro context loaded
    split at loaded
    · cases loaded
    · split at loaded
      · obtain rfl := Except.ok.inj loaded
        rfl
      · cases loaded
  · intro error failed
    split at failed
    · rename_i refused
      obtain rfl := Except.error.inj failed
      split at refused
      · obtain rfl := Except.error.inj refused
        exact trivial
      · split at refused
        · obtain rfl := Except.error.inj refused
          exact trivial
        · cases refused
    · split at failed
      · cases failed
      · obtain rfl := Except.error.inj failed
        unfold Loading.errorOf
        split <;> exact trivial

theorem halts_create (uniform : origin.machine.Uniform) (image : Image) (options : LoadOptions) :
    Halts (fun error after => Skipped origin after ∧ NotStuck error)
      (fun id after => Born none id origin after ∧ Confined id origin after)
      (below (Machine.create image options) origin) := by
  apply halts_below (uniform.create image options)
  have kept (capacity : Nat) (sound : origin.machine.interpreter.Sound capacity) :=
    sound.create image options
  have ends := ends_load origin.machine.interpreter.nextId image options
    origin.machine.interpreter.pool origin.machine.interpreter.journal
  cases loaded : Loading.load origin.machine.interpreter.nextId image options
      origin.machine.interpreter.pool origin.machine.interpreter.journal with
  | mk answer left =>
      obtain ⟨pool, journal⟩ := left
      rw [loaded] at ends
      cases answer with
      | error error =>
          rw [Interpreter.create_of_error loaded] at kept ⊢
          intro relays uniform'
          refine ⟨⟨uniform', fun _ => rfl, rfl, rfl, fun holder => ⟨kept, ?_⟩⟩, ends.2 error rfl⟩
          exact fun _ _ _ found => found
      | ok context =>
          rw [Interpreter.create_of_ok loaded] at kept ⊢
          intro relays uniform'
          refine ⟨⟨uniform', rfl, rfl, fun other => ?_, rfl⟩, .of_insert kept rfl⟩
          refine (kinIn_insert context).trans ?_
          rw [ends.1 context rfl]
          refine ite_congr rfl (fun _ => rfl) fun _ => ?_
          simp [kin]

theorem halts_fork (uniform : origin.machine.Uniform) (id : ContextId)
    (young : ∀ kin, origin.kin id = some kin → id < origin.machine.interpreter.nextId) :
    Halts (Refused id origin) (fun answer after =>
      match answer with
      | none => ∀ holder, Hushed holder origin after
      | some child => Born (some id) child origin after ∧ Confined child origin after)
      (below (Machine.fork id) origin) := by
  apply halts_below (uniform.fork id)
  have kept (capacity : Nat) (sound : origin.machine.interpreter.Sound capacity) := sound.fork id
  have ends := Interpreter.forkEnds id origin.machine.interpreter
  generalize Interpreter.fork id origin.machine.interpreter = result at kept ends ⊢
  cases ends with
  | missing missing => exact fun relays uniform' => refused_of_missing uniform' missing
  | refused found failed =>
      intro relays uniform' holder
      refine ⟨⟨uniform', fun _ => rfl, rfl, rfl, rfl, rfl, rfl, rfl⟩, kept, ?_⟩
      exact fun _ _ _ found => found
  | @copied context memory found copied =>
      intro relays uniform'
      have older : id < origin.machine.interpreter.nextId :=
        young context.kin (congrArg (Option.map Context.kin) found)
      refine ⟨⟨uniform', rfl, rfl, fun other => ?_, rfl⟩, kept, ?_⟩
      · have linked (table : TreeMap ContextId Context) (child : ContextId) :
            kinIn (table.modify id fun context =>
                { context with children := context.children.insert child }) other =
              if id = other then (kinIn table other).map fun kin =>
                { kin with children := kin.children.insert child }
              else kinIn table other := kinIn_modify fun _ => rfl
        refine (linked _ _).trans ?_
        show (if id = other then (kinIn (origin.machine.interpreter.contexts.insert _ _)
          other).map _ else kinIn (origin.machine.interpreter.contexts.insert _ _) other) = _
        rw [kinIn_insert]
        by_cases here : origin.machine.interpreter.nextId = other
        · rw [if_pos here, if_pos here, if_neg (here ▸ Nat.ne_of_lt older)]
          rfl
        · rw [if_neg here, if_neg here]
          by_cases mine : id = other <;> simp [mine, kin]
      · intro other space different there
        have linked (table : TreeMap ContextId Context) (child : ContextId) :
            Interpreter.spaceIn (table.modify id fun context =>
                { context with children := context.children.insert child }) other =
              Interpreter.spaceIn table other := by
          refine Interpreter.spaceIn_modify ?_ other
          exact fun _ => rfl
        have before := (linked _ _).symm.trans there
        rw [Interpreter.spaceIn, Interpreter.adopt, Table.getElem?_insert,
          if_neg different.symm] at before
        exact before

theorem halts_destroy (uniform : origin.machine.Uniform) (id : ContextId) :
    Halts (Refused id origin) (fun _ after =>
      (∃ gone, Removed id gone origin
        { after with own := { after.own with
          owned := after.own.owned.erase id
          orphans := after.own.orphans.erase id } }) ∧
        ∀ holder, Confined holder origin after)
      (below (Machine.destroy id) origin) := by
  apply halts_below (uniform.destroy id)
  have kept (capacity : Nat) (sound : origin.machine.interpreter.Sound capacity) :=
    sound.destroy id
  cases found : origin.machine.interpreter.contexts[id]? with
  | none =>
      rw [Interpreter.destroy_of_none found]
      exact fun relays uniform' => refused_of_missing uniform' found
  | some context =>
      rw [Interpreter.destroy_of_some found] at kept ⊢
      intro relays uniform'
      refine ⟨⟨context.kin, uniform', congrArg (Option.map Context.kin) found, fun other => ?_,
        rfl, rfl, rfl, rfl, rfl⟩, fun holder => ⟨kept, ?_⟩⟩
      · exact kinIn_unlink context
      · intro other space _ left
        have erased := (Interpreter.spaceIn_unlink _ _ _ _).symm.trans left
        rw [Interpreter.spaceIn, Table.getElem?_erase] at erased
        split at erased
        · cases erased
        · exact erased

end Hypervisor

end NestedMachine
