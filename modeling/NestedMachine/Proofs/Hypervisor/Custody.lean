import NestedMachine.Proofs.Hypervisor.Services
import NestedMachine.Proofs.Hypervisor.Steadiness
import NestedMachine.Proofs.Machine.Heirlooms

/-!
# Who must have an heirloom

While something happens to a hypervisor, the contexts that had an heirloom before must have it
still, as long as they live, and so must the copies that they have made of themselves meanwhile
(`Entitled`).  In custody, all of these have it (`Custody`).

Contexts begin, end and lose their parents, and what is left is among what was there (`Waned`).  The
memory of a context is given back before the context is marked as ended, so for this moment the
context is exempt; apart from that, everything keeps the heirloom in custody (`firm_custody`),
whatever the operation, and so do the requests of the level above (`Request.custody`), which may
give back the memory of a context that goes on (`custody_requestRelease`).
-/

namespace NestedMachine.Hypervisor

set_option autoImplicit false

open Std (TreeMap)

variable {α : Type} {capacity base : Nat} {property : Memory → Prop}
  {holders exempt : ContextId → Prop} {origin after : Hypervisor} {id other : ContextId}

/-! ## What is left -/

/-- No context has begun, come back, or got a parent. -/
def Waned (origin after : Hypervisor) : Prop :=
  ∀ id kin, after.kin id = some kin → ∃ before, origin.kin id = some before ∧
    (kin.exitStatus = none → before.exitStatus = none) ∧
    ∀ parent, kin.parent = some parent → before.parent = some parent

namespace Waned

theorem of_same (same : ∀ id, after.kin id = origin.kin id) : Waned origin after := by
  intro id kin found
  rw [same] at found
  exact ⟨kin, found, fun lives => lives, fun _ link => link⟩

theorem live (waned : Waned origin after) (lives : after.Live id) : origin.Live id := by
  obtain ⟨kin, found, lives⟩ := lives
  obtain ⟨before, there, back, -⟩ := waned id kin found
  exact ⟨before, there, back lives⟩

end Waned

/-! ## Custody -/

/-- A live context that is one of the holders, or one of the copies that live holders have made of
themselves since. -/
structure Entitled (holders : ContextId → Prop) (base : Nat) (id : ContextId)
    (hypervisor : Hypervisor) : Prop where
  lives : hypervisor.Live id
  claim : holders id ∨ base ≤ id ∧ ∃ kin parent, hypervisor.kin id = some kin ∧
    kin.parent = some parent ∧ holders parent ∧ hypervisor.Live parent

theorem Waned.entitled (waned : Waned origin after) (entitled : Entitled holders base id after) :
    Entitled holders base id origin where
  lives := waned.live entitled.lives
  claim := by
    refine entitled.claim.imp_right ?_
    rintro ⟨newer, kin, parent, found, link, holds, lives⟩
    obtain ⟨before, there, -, links⟩ := waned id kin found
    exact ⟨newer, before, parent, there, links parent link, holds, waned.live lives⟩

/-- The contexts that are entitled to something have it, apart from those that are exempt. -/
structure Custody (capacity : Nat) (property : Memory → Prop) (holders : ContextId → Prop)
    (base : Nat) (exempt : ContextId → Prop) (hypervisor : Hypervisor) : Prop extends
    Steady capacity hypervisor where
  base_le : base ≤ hypervisor.machine.interpreter.nextId
  older : ∀ id, holders id → id < base
  has : ∀ id, Entitled holders base id hypervisor → ¬exempt id →
    hypervisor.machine.interpreter.Has property id

/-- Whoever has something has it still, apart from some. -/
def HandedOn (property : Memory → Prop) (apart : ContextId → Prop) (origin after : Hypervisor) :
    Prop :=
  ∀ id, ¬apart id → origin.machine.interpreter.Has property id →
    after.machine.interpreter.Has property id

/-- What is left has what it had. -/
structure Abides (property : Memory → Prop) (exempt : ContextId → Prop)
    (origin after : Hypervisor) : Prop where
  waned : Waned origin after
  nextId : origin.machine.interpreter.nextId ≤ after.machine.interpreter.nextId
  handed : HandedOn property (fun id => exempt id ∨ after.kin id = none) origin after

namespace Custody

/-- **What is in custody stays there if what is left has what it had.** -/
theorem of_abides {exempt' : ContextId → Prop}
    (custody : Custody capacity property holders base exempt origin)
    (steady : Steady capacity after) (abides : Abides property exempt' origin after)
    (wider : ∀ id, exempt id → exempt' id) :
    Custody capacity property holders base exempt' after where
  toSteady := steady
  base_le := custody.base_le.trans abides.nextId
  older := custody.older
  has id entitled unexempt := by
    obtain ⟨kin, found, -⟩ := entitled.lives
    refine abides.handed id ?_ (custody.has id (abides.waned.entitled entitled) ?_)
    · rintro (held | missing)
      · exact unexempt held
      · rw [missing] at found
        cases found
    · exact fun held => unexempt (wider id held)

/-- An exempt context that does not live needs no exemption. -/
theorem of_dead (custody : Custody capacity property holders base (· = id) origin)
    (dead : ¬origin.Live id) : Custody capacity property holders base Nobody origin :=
  { custody with
    has := fun other entitled _ => custody.has other entitled fun same =>
      dead (same ▸ entitled.lives) }

/-- The record of the supervisor does not matter. -/
theorem of_own (custody : Custody capacity property holders base exempt origin) {own : Supervisor} :
    Custody capacity property holders base exempt { origin with own } where
  sound := custody.sound
  uniform := custody.uniform
  base_le := custody.base_le
  older := custody.older
  has := fun id entitled => custody.has id ⟨entitled.lives, entitled.claim⟩

end Custody

/-- Where contexts and frames are the same, everything abides. -/
theorem abides_of_same (heirloom : Memory.Heirloom property)
    (pool : after.machine.interpreter.pool = origin.machine.interpreter.pool)
    (contexts : after.machine.interpreter.contexts = origin.machine.interpreter.contexts)
    (nextId : after.machine.interpreter.nextId = origin.machine.interpreter.nextId) :
    Abides property exempt origin after where
  waned := .of_same fun id => by rw [kin, contexts]; rfl
  nextId := nextId.ge
  handed _ _ has := has.congr heirloom pool (by rw [contexts])

/-! ## The requests to the machine below -/

/-- What an action keeps, and what it leaves abiding, it keeps in custody. -/
theorem keeps_custody_of_abides {action : HypervisorAction α}
    (steady : Keeps (Steady capacity) action)
    (abides : ∀ origin : Hypervisor, Steady capacity origin →
      Halts (fun _ => Abides property exempt origin) (fun _ => Abides property exempt origin)
        (action origin)) :
    Keeps (Custody capacity property holders base exempt) action :=
  fun origin custody =>
    ((steady origin custody.toSteady).both (abides origin custody.toSteady)).mono
    (fun _ _ given => custody.of_abides given.1 given.2 fun _ held => held)
    fun _ _ given => custody.of_abides given.1 given.2 fun _ held => held

/-- What is hushed and takes nothing from anyone leaves it abiding. -/
theorem Hushed.abides {holder : ContextId} {apart : ContextId → Prop}
    (hushed : Hushed holder origin after) (handed : HandedOn property apart origin after)
    (covered : ∀ id, apart id → exempt id) : Abides property exempt origin after where
  waned := .of_same hushed.kin
  nextId := hushed.nextId.ge
  handed id unexempt has := handed id (fun held => unexempt (.inl (covered id held))) has

/-- What is discreet and takes nothing from anyone keeps it in custody. -/
theorem keeps_custody_of_discreet {holder : ContextId} {told : α → Prop}
    {action : HypervisorAction α} (discreet : Discreet holder told action)
    (handed : ∀ origin : Hypervisor, Steady capacity origin →
      HandedOn property Nobody origin (finalState (action origin))) :
    Keeps (Custody capacity property holders base exempt) action := by
  refine keeps_custody_of_abides discreet.keeps_steady fun origin steady => ?_
  exact ((discreet origin steady.uniform).both (.of_finalState (handed origin steady))).mono
    (fun _ _ given => given.1.1.abides given.2 fun _ nobody => nobody.elim)
    fun _ _ given => given.1.1.abides given.2 fun _ nobody => nobody.elim

/-- What holds of the machine after a request holds of it after the request was passed on. -/
theorem finalState_below {action : MachineAction α} {request : InterpreterAction α}
    (transparent : origin.machine.Transparent action request) :
    (finalState (below action origin)).machine.interpreter =
      finalState (request origin.machine.interpreter) := by
  have halts : Halts
      (fun _ after => after.machine.interpreter = finalState (request origin.machine.interpreter))
      (fun _ after => after.machine.interpreter = finalState (request origin.machine.interpreter))
      (below action origin) := by
    apply halts_below transparent
    generalize request origin.machine.interpreter = result
    cases result <;> exact fun _ _ => rfl
  generalize below action origin = result at halts
  cases result <;> exact halts

theorem keeps_custody_switch (heirloom : Memory.Heirloom property)
    (id : ContextId) (quantum : Nat) :
    Keeps (Custody capacity property holders base exempt) (below (Machine.switch id quantum)) := by
  refine keeps_custody_of_discreet (discreet_switch id quantum)
    fun origin steady other _ has => ?_
  rw [finalState_below (steady.uniform.switch id quantum)]
  exact steady.sound.has_switch heirloom has id quantum

theorem keeps_custody_memory (heirloom : Memory.Heirloom property) (id : ContextId)
    {action : MemoryAction α}
    (courteous : Memory.Courteous action) :
    Keeps (Custody capacity property holders base exempt) (onMemory id action) := by
  refine keeps_custody_of_discreet (discreet_onMemory id fun _ _ => courteous.keeps_sound) ?_
  intro origin steady other _ has
  have kept := steady.sound.has_withMemory heirloom has courteous id
  obtain ⟨machine, own⟩ := origin
  simp only [onMemory, steady.uniform.withMemory]
  generalize machine.interpreter.withMemory id action = result at kept
  obtain ⟨answer, interpreter⟩ := result
  cases answer <;> exact kept

theorem keeps_custody_destroy (heirloom : Memory.Heirloom property)
    (id : ContextId) :
    Keeps (Custody capacity property holders base exempt) (below (Machine.destroy id)) := by
  refine keeps_custody_of_abides (keeps_steady_destroy id) fun origin steady => ?_
  have handed : HandedOn property (· = id) origin
      (finalState (below (Machine.destroy id) origin)) := by
    intro other different has
    rw [finalState_below (steady.uniform.destroy id)]
    exact has.of_spares heirloom (steady.sound.spares_destroy (Ne.symm different))
  apply ((halts_destroy steady.uniform id).both (.of_finalState handed)).mono
  · rintro _ after ⟨⟨⟨gone, removed⟩, -⟩, handed⟩
    refine ⟨fun other kin found => ?_, removed.nextId.ge, fun other there has => ?_⟩
    · obtain ⟨-, before, there, rfl⟩ := removed.of_found found
      refine ⟨before, there, fun lives => lives, fun parent link => ?_⟩
      dsimp only [Kin.without] at link
      split at link
      · cases link
      · exact link
    · refine handed other ?_ has
      rintro rfl
      exact there (.inr ((removed.kin other).trans (if_pos rfl)))
  · rintro _ after ⟨refused, handed⟩
    have hushed := refused.hushed 0
    refine ⟨.of_same hushed.kin, hushed.nextId.ge, fun other there has => handed other ?_ has⟩
    rintro rfl
    exact there (.inr ((hushed.kin other).trans refused.missing))

/-- The context that gives back its memory is exempt. -/
theorem custody_release (heirloom : Memory.Heirloom property)
    (custody : Custody capacity property holders base Nobody origin) (id : ContextId) :
    Halts (fun _ => Custody capacity property holders base Nobody)
      (fun _ => Custody capacity property holders base (· = id))
      (below (Machine.release id) origin) := by
  have handed : HandedOn property (· = id) origin
      (finalState (below (Machine.release id) origin)) := by
    intro other different has
    rw [finalState_below (custody.uniform.release id)]
    exact has.of_spares heirloom (custody.sound.spares_release (Ne.symm different))
  have nobody (id other : ContextId) (nobody : Nobody other) : other = id := nobody.elim
  apply (((keeps_steady_release id) origin custody.toSteady).both
    ((halts_release custody.uniform id).both (.of_finalState handed))).mono
  · rintro _ after ⟨steady, ⟨hushed, -⟩, handed⟩
    exact custody.of_abides steady (hushed.abides handed fun _ same => same) (nobody id)
  · rintro _ after ⟨steady, refused, handed⟩
    have hushed := refused.hushed id
    refine (custody.of_abides steady (hushed.abides handed fun _ same => same)
      (nobody id)).of_dead ?_
    rintro ⟨kin, found, -⟩
    rw [hushed.kin, refused.missing] at found
    cases found

theorem keeps_custody_modifyContext (heirloom : Memory.Heirloom property) (id : ContextId)
    {change : Context → Context}
    (tending : Tending change) :
    Keeps (Custody capacity property holders base exempt) (modifyContext id change) := by
  refine keeps_custody_of_abides (keeps_steady_modifyContext id tending.space) ?_
  intro origin steady
  rw [modifyContext_apply, steady.uniform.context?, Interpreter.context?]
  cases found : origin.machine.interpreter.contexts[id]? with
  | none => exact abides_of_same heirloom rfl rfl rfl
  | some context =>
      rw [steady.uniform.modifyContext found]
      refine ⟨fun other kin there => ?_, le_rfl, fun other _ has => ?_⟩
      · obtain ⟨changed, place, rfl⟩ := Option.map_eq_some_iff.mp there
        have entry := (Table.getElem?_modify ..).symm.trans place
        split at entry
        · obtain ⟨before, known, rfl⟩ := Option.map_eq_some_iff.mp entry
          exact ⟨before.kin, congrArg (Option.map Context.kin) known, tending.lives before,
            tending.parent before⟩
        · exact ⟨changed.kin, congrArg (Option.map Context.kin) entry, fun lives => lives,
            fun _ link => link⟩
      · exact has.congr heirloom rfl (Interpreter.spaceIn_modify tending.space other)

/-! ## Beginnings -/

/-- **A context that begins is entitled only as the copy of one that is.** -/
theorem Custody.of_born {parent : Option ContextId} {child : ContextId}
    (custody : Custody capacity property holders base exempt origin)
    (steady : Steady capacity after) (born : Born parent child origin after)
    (handed : HandedOn property Nobody origin after)
    (copied : ∀ source, parent = some source → Entitled holders base source origin →
      after.machine.interpreter.Has property child) :
    Custody capacity property holders base exempt after := by
  have older (id : ContextId) (holds : holders id) : child ≠ id :=
    born.fresh ((custody.older id holds).trans_le custody.base_le)
  have live (id : ContextId) (old : child ≠ id) (lives : after.Live id) : origin.Live id := by
    obtain ⟨kin, found, lives⟩ := lives
    obtain ⟨-, before, there, -, status, -⟩ :=
      (born.new_or_old found).resolve_left fun new => old new.1
    exact ⟨before, there, status.symm.trans lives⟩
  refine ⟨steady, custody.base_le.trans born.nextId_le, custody.older, ?_⟩
  intro id entitled unexempt
  by_cases new : child = id
  · subst new
    rcases entitled.claim with holds | ⟨newer, kin, source, found, link, holds, lives⟩
    · exact absurd rfl (older child holds)
    · obtain rfl := Option.some.inj (born.self.symm.trans found)
      exact copied source link ⟨live source (older source holds) lives, .inl holds⟩
  · refine handed id (not_nobody id) (custody.has id ⟨live id new entitled.lives, ?_⟩ unexempt)
    refine entitled.claim.imp_right ?_
    rintro ⟨newer, kin, source, found, link, holds, lives⟩
    obtain ⟨-, before, there, -, -, same, -⟩ :=
      (born.new_or_old found).resolve_left fun same => new same.1
    exact ⟨newer, before, source, there, same.symm.trans link, holds,
      live source (older source holds) lives⟩

theorem keeps_custody_create (heirloom : Memory.Heirloom property) (image : Image)
    (options : LoadOptions) :
    Keeps (Custody capacity property holders base exempt)
      (below (Machine.create image options)) := by
  intro origin custody
  have handed : HandedOn property Nobody origin
      (finalState (below (Machine.create image options) origin)) := by
    intro other _ has
    rw [finalState_below (custody.uniform.create image options)]
    exact has.of_spares heirloom (custody.sound.spares_create image options)
  apply (((keeps_steady_create image options) origin custody.toSteady).both
    ((halts_create custody.uniform image options).both (.of_finalState handed))).mono
  · rintro id after ⟨steady, ⟨born, -⟩, handed⟩
    exact custody.of_born steady born handed fun _ link => nomatch link
  · rintro error after ⟨steady, ⟨skipped, -⟩, handed⟩
    refine custody.of_abides steady ⟨.of_same skipped.kin, ?_, ?_⟩ fun _ held => held
    · exact (Nat.le_succ _).trans_eq skipped.nextId.symm
    · exact fun other _ => handed other (not_nobody other)

theorem keeps_custody_fork (heirloom : Memory.Heirloom property) (id : ContextId) :
    Keeps (Custody capacity property holders base Nobody) (below (Machine.fork id)) := by
  intro origin custody
  have handed : HandedOn property Nobody origin
      (finalState (below (Machine.fork id) origin)) := by
    intro other _ has
    rw [finalState_below (custody.uniform.fork id)]
    exact has.of_spares heirloom custody.sound.spares_fork
  have copied : Halts (fun _ _ => True) (fun answer after => ∀ child, answer = some child →
      origin.machine.interpreter.Has property id → after.machine.interpreter.Has property child)
      (below (Machine.fork id) origin) := by
    apply halts_below (custody.uniform.fork id)
    cases forked : Interpreter.fork id origin.machine.interpreter with
    | error error after => exact fun _ _ => trivial
    | ok answer after =>
        rintro relays - child rfl has
        exact custody.sound.has_of_fork heirloom forked has
  have young (kin : Kin) (found : origin.kin id = some kin) :
      id < origin.machine.interpreter.nextId := by
    obtain ⟨context, there, -⟩ := Option.map_eq_some_iff.mp found
    exact custody.sound.young id context.space (congrArg (Option.map Context.space) there)
  apply (((keeps_steady_fork id) origin custody.toSteady).both
    ((halts_fork custody.uniform id young).both ((Halts.of_finalState handed).both copied))).mono
  · rintro answer after ⟨steady, born, handed, copied⟩
    cases answer with
    | none =>
        exact custody.of_abides steady ((born id).abides handed fun _ nobody => nobody)
          fun _ held => held
    | some child =>
        refine custody.of_born steady born.1 handed fun source same entitled => ?_
        obtain rfl := Option.some.inj same
        exact copied child rfl (custody.has id entitled (not_nobody id))
  · rintro error after ⟨steady, refused, handed, -⟩
    exact custody.of_abides steady ((refused.hushed id).abides handed fun _ nobody => nobody)
      fun _ held => held

/-! ## Everything else -/

theorem stolid_custody (heirloom : Memory.Heirloom property) :
    Stolid (Custody capacity property holders base exempt) where
  note happening := keeps_custody_of_abides (discreet_note 0 happening).keeps_steady
    fun _ _ => abides_of_same heirloom rfl rfl rfl
  own _ := .modify fun _ custody => custody.of_own
  host request := keeps_custody_of_abides (discreet_askHost 0 request).keeps_steady
    fun _ _ => .of_finalState (abides_of_same heirloom rfl rfl rfl)
  change := keeps_custody_modifyContext heirloom
  destroy := keeps_custody_destroy heirloom

/-- **The end of a context keeps heirlooms in custody**: what gives back its memory lives no
more. -/
theorem keeps_custody_terminate (heirloom : Memory.Heirloom property) (id : ContextId)
    (status : ExitStatus) :
    Keeps (Custody capacity property holders base Nobody) (terminate id status) := by
  intro origin custody
  apply (custody_release heirloom custody id).bind
  intro released freed custody
  have missing (after : Hypervisor) (none : after.kin id = none) : ¬after.Live id := by
    rintro ⟨kin, there, -⟩
    rw [none] at there
    cases there
  have looked : Halts (fun _ => Custody capacity property holders base Nobody)
      (fun _ after => after = freed) (contextOf id freed) := by
    rw [contextOf_apply]
    cases found : freed.machine.context? id with
    | none => exact custody.of_dead (missing freed (kin_of_none custody.uniform found))
    | some context => exact rfl
  apply looked.bind
  rintro context _ rfl
  have ends := (halts_markEnded custody.uniform id status).both
    (keeps_custody_modifyContext heirloom id (tending_end status) _ custody)
  apply Halts.bind (ends.mono (fun _ _ given => given) ?_)
  · rintro _ ended ⟨⟨altered, -⟩, custody⟩
    refine (stolid_custody heirloom).sturdy.restOfEnd trivial status released (fun _ _ => trivial)
      (fun _ _ => trivial) ended (custody.of_dead ?_)
    rintro ⟨kin, there, lives⟩
    obtain ⟨before, -, rfl⟩ := altered.of_found there
    rw [if_pos rfl] at lives
    cases lives
  · rintro _ after ⟨refused, custody⟩
    exact custody.of_dead (missing after (((refused.hushed 0).kin id).trans refused.missing))

theorem firm_custody (heirloom : Memory.Heirloom property) :
    Firm Anyone (Custody capacity property holders base Nobody) where
  toSturdy := (stolid_custody heirloom).sturdy
  memory {id} _ _ _ courteous := keeps_custody_memory heirloom id courteous
  terminate {id} _ := keeps_custody_terminate heirloom id
  load := (stolid_custody heirloom).load (keeps_custody_create heirloom)
  fork {id} _ := (stolid_custody heirloom).serveFork (keeps_custody_fork heirloom id)
  switch {id} _ := keeps_custody_switch heirloom id

/-- **Every operation keeps heirlooms in custody.** -/
theorem Operation.keeps_custody (heirloom : Memory.Heirloom property) (operation : Operation) :
    Keeps (Custody capacity property holders base Nobody) operation.perform := by
  refine (firm_custody heirloom).operation (fun _ _ => ?_) fun id _ => ?_
  · exact .modify fun _ custody => custody.of_own
  · exact (stolid_custody heirloom).requeue id

/-! ## Requests of the level above -/

/-- Another record as a level does not matter. -/
theorem Custody.withRelay (custody : Custody capacity property holders base exempt origin)
    (relay : Relay) : Custody capacity property holders base exempt (origin.withRelay relay) :=
  custody.of_own

theorem keeps_custody_fromAbove {passage : Passage α} {request : InterpreterAction α}
    (keeps : Keeps (Custody capacity property holders base exempt)
      (below (Machine.pass passage request))) :
    Keeps (Custody capacity property holders base exempt)
      (fromAbove (Machine.pass passage request)) :=
  keeps_fromAbove (fun _ relay custody => custody.withRelay relay) keeps

/-- Contexts that have something are entitled to keep it. -/
theorem custody_of_holders (steady : Steady capacity origin)
    (has : ∀ id, holders id → origin.machine.interpreter.Has property id) :
    Custody capacity property holders origin.machine.interpreter.nextId exempt origin := by
  have young (id : ContextId) (context : Context)
      (found : origin.machine.interpreter.contexts[id]? = some context) :
      id < origin.machine.interpreter.nextId :=
    steady.sound.young id context.space (by rw [Interpreter.spaceIn, found]; rfl)
  refine ⟨steady, le_rfl, fun id holds => ?_, fun id entitled _ => ?_⟩
  · obtain ⟨context, found, -⟩ := has id holds
    exact young id context found
  · rcases entitled.claim with holds | ⟨newer, -⟩
    · exact has id holds
    · obtain ⟨kin, there, -⟩ := entitled.lives
      obtain ⟨context, found, -⟩ := Option.map_eq_some_iff.mp there
      exact absurd (young id context found) (not_lt.mpr newer)

/-- An event gives back the memory of a context on behalf of the level above. -/
def Event.Releases (event : Event) (id : ContextId) (before : Hypervisor) : Prop :=
  event = .request (.release id) ∧ (answerOf (event.perform before)).isOk = true

/-- The level above may give back the memory of a context that goes on. -/
theorem custody_requestRelease (heirloom : Memory.Heirloom property)
    (custody : Custody capacity property holders base Nobody origin)
    (id : ContextId) :
    Halts (fun _ => Custody capacity property holders base Nobody)
      (fun _ => Custody capacity property holders base (· = id))
      ((Request.release id).perform origin) := by
  have passed : Halts (fun _ => Custody capacity property holders base Nobody)
      (fun _ => Custody capacity property holders base (· = id))
      (fromAbove (Machine.release id) origin) := by
    apply halts_fromAbove fun _ _ => custody
    intro entered entry
    exact (custody_release heirloom custody id).mono (fun _ _ given => given.withRelay _)
      fun _ _ given => given.withRelay _
  exact passed.bind fun _ _ custody => custody

/-- A request that gives back no memory, and leaves address spaces to the machine, keeps heirlooms
in custody. -/
theorem Request.custody (heirloom : Memory.Heirloom property) (request : Request)
    (tame : Event.Tame (.request request))
    (keeping : ∀ id, request ≠ .release id) (steady : Steady capacity origin)
    (has : ∀ id, holders id → origin.machine.interpreter.Has property id) :
    Custody capacity property holders origin.machine.interpreter.nextId Nobody
      (finalState (request.perform origin)) := by
  have custody : Custody capacity property holders origin.machine.interpreter.nextId Nobody
      origin := custody_of_holders steady has
  cases request with
  | create image options =>
      refine Keeps.finalState ?_ custody
      exact (keeps_custody_fromAbove (keeps_custody_create heirloom image options)).bind
        fun _ => .pure _
  | fork parent =>
      refine Keeps.finalState ?_ custody
      exact (keeps_custody_fromAbove (keeps_custody_fork heirloom parent)).bind fun _ => .pure _
  | destroy id =>
      refine Keeps.finalState ?_ custody
      exact (keeps_custody_fromAbove (keeps_custody_destroy heirloom id)).bind fun _ => .pure _
  | release id => exact absurd rfl (keeping id)
  | switch id quantum =>
      refine Keeps.finalState ?_ custody
      exact (keeps_custody_fromAbove (keeps_custody_switch heirloom id quantum)).bind
        fun _ => .pure _
  | access id request =>
      refine kept_by_access custody fun _ => ?_
      exact (keeps_custody_memory heirloom id request.courteous_perform).finalState custody
  | alter id change =>
      refine kept_by_alter custody fun _ => ?_
      have altered := steady.modifyContext id tame
      unfold Machine.modifyContext at altered ⊢
      split at altered
      · rename_i hosted
        rw [if_pos hosted]
        refine custody_of_holders altered fun other holds => ?_
        exact (has other holds).congr heirloom rfl (Interpreter.spaceIn_modify tame other)
      · rename_i stranger
        rw [if_neg stranger]
        exact custody

/-- Where nobody is exempt, nobody has to be. -/
theorem Custody.unexempt (custody : Custody capacity property holders base Nobody origin) :
    Custody capacity property holders base exempt origin :=
  { custody with has := fun id entitled _ => custody.has id entitled (not_nobody id) }

theorem Event.custody_release (heirloom : Memory.Heirloom property)
    (custody : Custody capacity property holders base Nobody origin)
    (id : ContextId) :
    Custody capacity property holders base
      (fun other => Event.Releases (.request (.release id)) other origin)
      (finalState (Event.perform (.request (.release id)) origin)) := by
  have outcome : Halts (fun _ => Custody capacity property holders base Nobody)
      (fun _ => Custody capacity property holders base (· = id))
      (Event.perform (.request (.release id)) origin) :=
    (custody_requestRelease heirloom custody id).bind fun _ _ given => given
  cases result : Event.perform (.request (.release id)) origin with
  | ok answer after =>
      rw [result] at outcome
      have released : Custody capacity property holders base (· = id) after := outcome
      have releases : Event.Releases (.request (.release id)) id origin := by
        refine ⟨rfl, ?_⟩
        rw [result]
        rfl
      exact { released with
        has := fun other entitled unexempt =>
          released.has other entitled fun same => unexempt (same ▸ releases) }
  | error error after =>
      rw [result] at outcome
      exact Custody.unexempt outcome

/-- **Whatever happens keeps heirlooms in custody**, apart from those of contexts whose memory is
given back. -/
theorem Event.custody (heirloom : Memory.Heirloom property) (event : Event) (tame : event.Tame)
    (steady : Steady capacity origin)
    (has : ∀ id, holders id → origin.machine.interpreter.Has property id) :
    Custody capacity property holders origin.machine.interpreter.nextId
      (fun id => event.Releases id origin) (finalState (event.perform origin)) := by
  have custody : Custody capacity property holders origin.machine.interpreter.nextId Nobody
      origin := custody_of_holders steady has
  cases event with
  | operation asked =>
      refine (Keeps.finalState ?_ custody).unexempt
      exact (asked.keeps_custody heirloom).bind fun _ => .pure ()
  | resume rounds breakpoints condition stoppedAt =>
      refine (Keeps.finalState ?_ custody).unexempt
      refine Keeps.bind ?_ fun _ => .pure ()
      exact ((firm_custody heirloom).sustained (stolid_custody heirloom).requeue).resumeDebugger
        rounds breakpoints condition stoppedAt
  | request asked =>
      by_cases keeping : ∀ id, asked ≠ .release id
      · have kept : Halts
            (fun _ => Custody capacity property holders origin.machine.interpreter.nextId Nobody)
            (fun _ => Custody capacity property holders origin.machine.interpreter.nextId Nobody)
            (Event.perform (.request asked) origin) :=
          (Halts.of_finalState (asked.custody heirloom tame keeping steady has)).bind
            fun _ _ given => given
        exact kept.left.unexempt
      · obtain ⟨id, releases⟩ := not_forall.mp keeping
        obtain rfl := not_not.mp releases
        exact Event.custody_release heirloom custody id

end NestedMachine.Hypervisor
