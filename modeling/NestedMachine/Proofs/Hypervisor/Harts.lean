import NestedMachine.Proofs.Hypervisor.Services

/-!
# Who moves a context

The registers and the program counter of a context are changed by its own runs and by the answers to
its own calls.  Whatever else happens to it, from outside or in its own calls, it stands where it
stood, if it is there at all (`Unmoved`): states, links and memory are apart from the hart, and what
begins has a number of its own.

So a context is not moved by what is done on behalf of another one (`Unmoved.upheld`), nor by an
instruction of its own that traps (`Unmoved.halts_switch`), nor by its own call as long as that is
not answered (`Unmoved.upheldByCalls`), nor by its own end.
-/

namespace NestedMachine.Hypervisor

set_option autoImplicit false

open Std (TreeMap)

variable {α : Type} {origin after : Hypervisor} {id other caller : ContextId} {hart : Hart}

/-- The hart of a context of a table. -/
def hartIn (contexts : TreeMap ContextId Context) (id : ContextId) : Option Hart :=
  contexts[id]?.map Context.hart

/-- A known context, if it is there, stands where it is said to stand. -/
structure Unmoved (id : ContextId) (hart : Hart) (hypervisor : Hypervisor) : Prop where
  uniform : hypervisor.machine.Uniform
  known : id < hypervisor.machine.interpreter.nextId
  stands : ∀ found, hartIn hypervisor.machine.interpreter.contexts id = some found → found = hart

namespace Unmoved

theorem congr (unmoved : Unmoved id hart origin) (uniform : after.machine.Uniform)
    (nextId : origin.machine.interpreter.nextId ≤ after.machine.interpreter.nextId)
    (same : ∀ found, hartIn after.machine.interpreter.contexts id = some found →
      hartIn origin.machine.interpreter.contexts id = some found) : Unmoved id hart after where
  uniform := uniform
  known := unmoved.known.trans_le nextId
  stands found there := unmoved.stands found (same found there)

/-- A context stands where it is found. -/
theorem of_found {context : Context} (uniform : origin.machine.Uniform)
    (known : id < origin.machine.interpreter.nextId)
    (found : origin.machine.context? id = some context) : Unmoved id context.hart origin where
  uniform := uniform
  known := known
  stands hart there := by
    rw [uniform.context?] at found
    exact Option.some.inj (there.symm.trans (congrArg (Option.map Context.hart) found))

/-- Where an unmoved context is found. -/
theorem hart_eq (unmoved : Unmoved id hart origin) {context : Context}
    (found : origin.machine.context? id = some context) : context.hart = hart := by
  rw [unmoved.uniform.context?] at found
  exact unmoved.stands _ (congrArg (Option.map Context.hart) found)

/-! ## The parts -/

theorem keeps_note (happening : Note) : Keeps (Unmoved id hart) (note happening) :=
  .modify fun _ unmoved =>
    unmoved.congr (unmoved.uniform.congr rfl fun _ => rfl) le_rfl fun _ there => there

theorem keeps_modifyOwn (change : Supervisor → Supervisor) :
    Keeps (Unmoved id hart) (modifyOwn change) :=
  .modify fun _ unmoved => unmoved.congr unmoved.uniform le_rfl fun _ there => there

theorem keeps_askHost (request : Host → HostAnswer α) : Keeps (Unmoved id hart) (askHost request) :=
  fun _ unmoved =>
    unmoved.congr (unmoved.uniform.congr rfl fun _ => rfl) le_rfl fun _ there => there

/-- Another context may be changed at will, and this one as long as it is not moved. -/
theorem keeps_modifyContext {change : Context → Context}
    (stays : other = id → ∀ context, (change context).hart = context.hart) :
    Keeps (Unmoved id hart) (modifyContext other change) := by
  intro origin unmoved
  rw [modifyContext_apply, unmoved.uniform.context?, Interpreter.context?]
  cases found : origin.machine.interpreter.contexts[other]? with
  | none => exact unmoved
  | some context =>
      rw [unmoved.uniform.modifyContext found]
      refine unmoved.congr (unmoved.uniform.congr rfl fun _ => TreeMap.contains_modify) le_rfl ?_
      intro standing there
      change (origin.machine.interpreter.contexts.modify other change)[id]?.map Context.hart =
        some standing at there
      rw [Table.getElem?_modify] at there
      split at there
      · rename_i same
        rw [Option.map_map] at there
        rwa [hartIn, show Context.hart = Context.hart ∘ change from (funext (stays same)).symm]
      · exact there

theorem keeps_setState (other : ContextId) (state : ContextState) :
    Keeps (Unmoved id hart) (setState other state) := by
  apply keeps_modifyContext
  exact fun _ _ => rfl

/-- The memory of a context is apart from its hart. -/
theorem hartIn_keepMemory {machine : Interpreter} {context : Context}
    (found : machine.contexts[other]? = some context) (memory : Memory) :
    hartIn (machine.keepMemory other context memory).contexts id = hartIn machine.contexts id := by
  unfold hartIn Interpreter.keepMemory
  rw [Table.getElem?_insert]
  split
  · rename_i here
    rw [← here, found]
    rfl
  · rfl

theorem keeps_onMemory (other : ContextId) (action : MemoryAction α) :
    Keeps (Unmoved id hart) (onMemory other action) := by
  rintro ⟨machine, own⟩ unmoved
  simp only [onMemory, unmoved.uniform.withMemory]
  cases found : machine.interpreter.contexts[other]? with
  | none =>
      rw [Interpreter.withMemory_of_none found]
      exact unmoved
  | some context =>
      have kept := Machine.contains_withMemory machine.interpreter other action
      rw [Interpreter.withMemory_of_some found] at kept ⊢
      refine unmoved.congr (unmoved.uniform.congr rfl kept) le_rfl fun standing there => ?_
      exact (hartIn_keepMemory found _).symm.trans there

theorem keeps_release (other : ContextId) :
    Keeps (Unmoved id hart) (below (Machine.release other)) := by
  intro origin unmoved
  apply halts_below (unmoved.uniform.release other)
  cases found : origin.machine.interpreter.contexts[other]? with
  | none =>
      rw [Interpreter.release_of_none found]
      exact fun relays uniform => unmoved.congr uniform le_rfl fun _ there => there
  | some context =>
      rw [Interpreter.release_of_some found]
      exact fun relays uniform => unmoved.congr uniform le_rfl fun _ there =>
        (hartIn_keepMemory found _).symm.trans there

theorem keeps_destroy (other : ContextId) :
    Keeps (Unmoved id hart) (below (Machine.destroy other)) := by
  intro origin unmoved
  apply halts_below (unmoved.uniform.destroy other)
  cases found : origin.machine.interpreter.contexts[other]? with
  | none =>
      rw [Interpreter.destroy_of_none found]
      exact fun relays uniform => unmoved.congr uniform le_rfl fun _ there => there
  | some context =>
      rw [Interpreter.destroy_of_some found]
      refine fun relays uniform => unmoved.congr uniform le_rfl fun standing there => ?_
      have cut := (Interpreter.map_unlink (fun _ _ _ => rfl) _ _ _ _).symm.trans there
      rw [Table.getElem?_erase] at cut
      split at cut
      · cases cut
      · exact cut

/-- What is created has a number of its own. -/
theorem keeps_create (image : Image) (options : LoadOptions) :
    Keeps (Unmoved id hart) (below (Machine.create image options)) := by
  intro origin unmoved
  apply halts_below (unmoved.uniform.create image options)
  generalize made : Loading.load origin.machine.interpreter.nextId image options
    origin.machine.interpreter.pool origin.machine.interpreter.journal = result
  obtain ⟨answer, pool, journal⟩ := result
  cases answer with
  | error error =>
      rw [Interpreter.create_of_error made]
      exact fun relays uniform => unmoved.congr uniform (Nat.le_succ _) fun _ there => there
  | ok context =>
      rw [Interpreter.create_of_ok made]
      refine fun relays uniform => unmoved.congr uniform (Nat.le_succ _) fun standing there => ?_
      rw [hartIn, Interpreter.adopt, Table.getElem?_insert,
        if_neg (Nat.ne_of_lt unmoved.known).symm] at there
      exact there

/-- A copy has a number of its own. -/
theorem halts_fork (unmoved : Unmoved id hart origin) (other : ContextId) :
    Halts (fun _ => Unmoved id hart)
      (fun answer after => Unmoved id hart after ∧ ∀ child, answer = some child → child ≠ id)
      (below (Machine.fork other) origin) := by
  apply halts_below (unmoved.uniform.fork other)
  have ends := Interpreter.forkEnds other origin.machine.interpreter
  generalize Interpreter.fork other origin.machine.interpreter = result at ends ⊢
  cases ends with
  | missing =>
      exact fun relays uniform => unmoved.congr uniform le_rfl fun _ there => there
  | refused =>
      exact fun relays uniform =>
        ⟨unmoved.congr uniform le_rfl fun _ there => there, fun _ same => nomatch same⟩
  | copied =>
      have fresh := (Nat.ne_of_lt unmoved.known).symm
      refine fun relays uniform => ⟨?_, fun child same => Option.some.inj same ▸ fresh⟩
      refine unmoved.congr uniform (Nat.le_succ _) fun standing there => ?_
      have linked (table : TreeMap ContextId Context) (child : ContextId) :
          hartIn (table.modify other fun context =>
            { context with children := context.children.insert child }) id =
            hartIn table id := by
        apply Interpreter.map_modify
        exact fun _ => rfl
      have added := (linked _ _).symm.trans there
      rw [hartIn, Interpreter.adopt, Table.getElem?_insert, if_neg fresh] at added
      exact added

/-- Another context may run. -/
theorem keeps_switch (different : other ≠ id) (quantum : Nat) :
    Keeps (Unmoved id hart) (below (Machine.switch other quantum)) := by
  intro origin unmoved
  apply halts_below (unmoved.uniform.switch other quantum)
  have kept (context : Context) (result : Hart.RunResult) :
      hartIn (origin.machine.interpreter.keepRun other context result).contexts id =
        hartIn origin.machine.interpreter.contexts id := by
    rw [hartIn, Interpreter.keepRun, Table.getElem?_insert, if_neg different]
    rfl
  have ends := Interpreter.switchEnds other quantum origin.machine.interpreter
  generalize Interpreter.switch other quantum origin.machine.interpreter = result at ends ⊢
  cases ends with
  | missing =>
      exact fun relays uniform => unmoved.congr uniform le_rfl fun _ there => there
  | exited =>
      exact fun relays uniform => unmoved.congr uniform le_rfl fun _ there => there
  | trapped =>
      exact fun relays uniform => unmoved.congr uniform le_rfl fun standing there =>
        (kept _ _).symm.trans there
  | ranDry =>
      exact fun relays uniform => unmoved.congr uniform le_rfl fun standing there =>
        (kept _ _).symm.trans there

/-- **A context is not moved by an instruction that traps**, and a fault tells where it stands. -/
theorem halts_switch (unmoved : Unmoved id hart origin) :
    Halts (fun _ _ => True)
      (fun trap after => trap ≠ .timerInterrupt →
        Unmoved id hart after ∧ ∀ fault pc, trap = .fault fault pc → pc = hart.pc)
      (below (Machine.switch id 1) origin) := by
  apply halts_below (unmoved.uniform.switch id 1)
  have ends := Interpreter.switchEnds id 1 origin.machine.interpreter
  generalize Interpreter.switch id 1 origin.machine.interpreter = result at ends ⊢
  cases ends with
  | missing _ => exact fun _ _ => trivial
  | exited _ _ => exact fun _ _ => trivial
  | ranDry _ _ _ => exact fun _ _ => trivial
  | @trapped context _ found live ended =>
      intro relays uniform stops
      obtain ⟨stays, stands⟩ := Hart.of_trap ended stops
      obtain rfl : context.hart = hart :=
        unmoved.stands _ (congrArg (Option.map Context.hart) found)
      refine ⟨unmoved.congr uniform le_rfl fun standing there => ?_, stands⟩
      rw [hartIn, Interpreter.keepTrap, Interpreter.keepRun, Table.getElem?_insert,
        if_pos rfl] at there
      rw [hartIn, found]
      exact (congrArg some stays.symm).trans there

/-! ## How contexts begin and end -/

theorem keeps_makeReady (other : ContextId) : Keeps (Unmoved id hart) (makeReady other) :=
  (keeps_setState other .ready).bind fun _ => .get_bind fun _ => .ite (.pure _) (keeps_modifyOwn _)

theorem keeps_load (image : Image) (arguments : List String) :
    Keeps (Unmoved id hart) (load image arguments) := by
  refine .get_bind fun look => (keeps_create image _).bind fun child => ?_
  refine (keeps_modifyOwn _).bind fun _ => (keeps_modifyOwn _).bind fun _ => ?_
  refine (keeps_modifyOwn _).bind fun _ => .get_bind fun look => ?_
  exact (keeps_note _).bind fun _ => .pure child

theorem keeps_discard (other : ContextId) : Keeps (Unmoved id hart) (discard other) :=
  (keeps_destroy other).bind fun _ => (keeps_modifyOwn _).bind fun _ => keeps_modifyOwn _

theorem keeps_wakeParent (parent child : ContextId) :
    Keeps (Unmoved id hart) (wakeParent parent child) := by
  apply Keeps.get_bind
  intro look
  split
  · exact .ite ((keeps_note _).bind fun _ => keeps_makeReady parent) (.pure ())
  · exact .pure ()

theorem keeps_disown (child : ContextId) : Keeps (Unmoved id hart) (disown child) := by
  apply Keeps.get_bind
  intro look
  split
  · refine Keeps.bind ?_ fun _ => .ite (keeps_discard child) (keeps_modifyOwn _)
    exact keeps_modifyContext fun _ _ => rfl
  · exact .pure ()

theorem keeps_disownAll (children : List ContextId) :
    Keeps (Unmoved id hart) (disownAll children) := by
  induction children with
  | nil => exact .pure ()
  | cons child rest ih => exact (keeps_disown child).bind fun _ => ih

theorem keeps_settle (other : ContextId) (parent : Option ContextId) :
    Keeps (Unmoved id hart) (settle other parent) := by
  apply Keeps.get_bind
  intro look
  refine .ite ((keeps_modifyOwn _).bind fun _ => keeps_discard other) ?_
  cases parent with
  | none => exact .pure ()
  | some parent => exact keeps_wakeParent parent other

/-- **Nobody is moved by an end**, not even who ends. -/
theorem keeps_terminate (other : ContextId) (status : ExitStatus) :
    Keeps (Unmoved id hart) (terminate other status) := by
  refine (keeps_release other).bind fun released => (keeps_contextOf other).bind fun context => ?_
  refine Keeps.bind ?_ fun _ => (keeps_modifyOwn _).bind fun _ => ?_
  · exact keeps_modifyContext fun _ _ => rfl
  · refine (keeps_modifyOwn _).bind fun _ => (keeps_note _).bind fun _ => ?_
    exact (keeps_disownAll _).bind fun _ => keeps_settle other _

theorem keeps_park (other : ContextId) (fault : Fault) (pc : UInt64) :
    Keeps (Unmoved id hart) (do
      setState other (.trapped fault pc)
      dequeue other) :=
  (keeps_setState other _).bind fun _ => keeps_modifyOwn _

theorem keeps_reap (other : ContextId) : Keeps (Unmoved id hart) (reap other) := by
  refine (keeps_requireOwned other).bind fun _ => (keeps_contextOf other).bind fun context => ?_
  exact .ite ((keeps_discard other).bind fun _ => .pure _) (.pure _)

/-- A copy is moved behind the call that has made it, but it is nobody else. -/
theorem keeps_serveFork (other : ContextId) : Keeps (Unmoved id hart) (serveFork other) := by
  intro origin unmoved
  apply (unmoved.halts_fork other).bind
  rintro answer forked ⟨unmoved, fresh⟩
  cases answer with
  | none => exact ((keeps_note _).bind fun _ => .pure _) forked unmoved
  | some child =>
      have begins : Keeps (Unmoved id hart) (do
          count fun counters => { counters with forks := counters.forks + 1 }
          modifyOwn fun own => { own with owned := own.owned.insert child }
          modifyContext child fun context =>
            (context.withRegister Register.a0 0).withPc (context.hart.pc + 4)
          makeReady child
          note (.forked other child)
          return Outcome.answer (Int64.ofNat child)) := by
        refine (keeps_modifyOwn _).bind fun _ => (keeps_modifyOwn _).bind fun _ => ?_
        refine Keeps.bind ?_ fun _ => (keeps_makeReady child).bind fun _ => ?_
        · exact keeps_modifyContext fun same => absurd same (fresh child rfl)
        · exact (keeps_note _).bind fun _ => .pure _
      exact begins forked unmoved

/-! ## Calls -/

/-- **Until a call is answered nobody is moved**, not even the caller. -/
theorem upheldByCalls (caller : ContextId) : UpheldByCalls caller (Unmoved id hart) where
  note := keeps_note
  record _ := keeps_modifyOwn _
  host := keeps_askHost
  memory _ := keeps_onMemory caller _
  kill child := keeps_kill fun _ _ _ => keeps_terminate child _
  reap := keeps_reap
  fork := keeps_serveFork caller

/-- **Whatever is done on behalf of another context does not move this one.** -/
theorem upheld (different : caller ≠ id) : Upheld caller (Unmoved id hart) where
  toUpheldByCalls := upheldByCalls caller
  advance _ _ := keeps_modifyContext fun same => absurd same different
  setState _ := keeps_setState caller _
  makeReady := keeps_makeReady caller
  park := keeps_park caller
  terminate := keeps_terminate caller

end Unmoved

end NestedMachine.Hypervisor
