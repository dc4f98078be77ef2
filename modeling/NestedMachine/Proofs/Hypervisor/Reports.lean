import NestedMachine.Proofs.Hypervisor.Households
import NestedMachine.Proofs.Hypervisor.Streams
import NestedMachine.Proofs.Program.Loaded

/-!
# What waits tell

A wait looks at the children of its caller that it waits for, and comes to one of four ends
(`Waited`): there are none of them, or none of them has ended, or the status of the first that has
ended cannot be stored, or it is stored, if that is asked for, and the child is removed.

A removal strikes the child off at its parent and nowhere else (`Reported.balanced`).  So the number
that a successful fork answers is that of a child that is entered (`balanced_fork`), and the number
that a successful wait answers is that of a child that is struck off (`balanced_wait`).

What the caller of a wait finds afterwards is told as a whole.  A wait that succeeds reports a child
(`ServedCall.Reports`); one that is declined leaves the children alone (`ServedCall.Declines`); one
that blocks changes nothing but the state of its caller (`ServedCall.Blocks`).  There is nothing
else that a wait can come to (`told_of_wait`).
-/

namespace NestedMachine

set_option autoImplicit false

namespace Hypervisor

open Std (TreeSet)

variable {capacity : Nat} {origin middle called after : Hypervisor} {loaded : ContextId → Prop}
  {id parent child other : ContextId} {context : Context} {call : Call} {outcome : Outcome}
  {status : Option ExitStatus}

/-! ## Removals -/

/-- Reaping tells how a context has ended; if it has, the context is removed, and otherwise nothing
happens. -/
theorem told_of_reap (done : reap child origin = .ok status after) :
    ∃ gone, origin.machine.context? child = some gone ∧ gone.exitStatus = status ∧
      (status = none ∧ after = origin ∨ status ≠ none ∧ discard child origin = .ok () after) := by
  obtain ⟨_, _, own, done⟩ := ok_of_bind done
  rw [requireOwned_apply] at own
  split at own <;> cases own
  obtain ⟨gone, found, done⟩ := found_of_contextOf done
  refine ⟨gone, found, ?_⟩
  dsimp only at done
  split at done
  · rename_i ended
    obtain ⟨_, _, discard, done⟩ := ok_of_bind done
    cases done
    exact ⟨rfl, .inr ⟨Option.isSome_iff_ne_none.mp ended, discard⟩⟩
  · rename_i unended
    cases done
    exact ⟨rfl, .inl ⟨Option.not_isSome_iff_eq_none.mp unended, rfl⟩⟩

/-- Whoever is discarded is removed, and is no longer queued. -/
theorem removed_of_discard (uniform : origin.machine.Uniform)
    (found : origin.machine.context? child = some context)
    (done : discard child origin = .ok () after) :
    ∃ left, Removed child context.kin origin left ∧ after.machine = left.machine := by
  have removes := halts_discard uniform (kin_of_context? uniform found)
  rw [done] at removes
  obtain ⟨left, removed, -, same⟩ := removes
  exact ⟨left, removed, same ▸ rfl⟩

/-! ## What a wait comes to -/

/-- The children that a call waits for, in their order. -/
def Call.sought (call : Call) (context : Context) : List ContextId :=
  context.children.toList.filter (WaitTarget.ofWord call.first).includes

/-- What comes of a wait: nobody is waited for; nobody has ended yet; the status of whoever has
ended cannot be stored; or it is stored, if that is asked for, and the child is removed. -/
inductive Waited (id : ContextId) (call : Call) (context : Context) (origin after : Hypervisor) :
    Outcome → Prop
  | alone (nobody : call.sought context = []) (same : after = origin) :
      Waited id call context origin after .failure
  | early (somebody : call.sought context ≠ [])
      (unended : firstEnded origin.machine (call.sought context) = none) (same : after = origin) :
      Waited id call context origin after (.block (WaitTarget.ofWord call.first).reason)
  | barred {child : ContextId} {status : ExitStatus} {fault : Fault}
      (ended : firstEnded origin.machine (call.sought context) = some (child, status))
      (asked : call.second.toNat ≠ 0)
      (refused : onMemory id (Memory.store call.second.toNat status.code.toUInt64) origin =
        .ok (.error fault) after) :
      Waited id call context origin after .failure
  | told {child : ContextId} {status : ExitStatus} {answer : Option ExitStatus}
      {stored : Hypervisor}
      (ended : firstEnded origin.machine (call.sought context) = some (child, status))
      (kept : call.second.toNat = 0 ∧ stored = origin ∨ call.second.toNat ≠ 0 ∧
        onMemory id (Memory.store call.second.toNat status.code.toUInt64) origin =
          .ok (.ok ()) stored)
      (reaped : reap child stored = .ok answer after) :
      Waited id call context origin after (.answer (Int64.ofNat child))

/-- **A wait comes to one of these.** -/
theorem waited_of_serveWait (found : origin.machine.context? id = some context)
    (done : serveWait id call origin = .ok outcome after) :
    Waited id call context origin after outcome := by
  unfold serveWait at done
  obtain ⟨context', found', done⟩ := found_of_contextOf done
  obtain rfl := Option.some.inj (found'.symm.trans found)
  dsimp only at done
  split at done
  · rename_i nobody
    cases done
    exact .alone (List.isEmpty_iff.mp nobody) rfl
  · rename_i somebody
    rw [get_bind_apply] at done
    cases ended : firstEnded origin.machine (call.sought context') with
    | none =>
        unfold Call.sought at ended
        simp only [ended] at done
        cases done
        exact .early (fun none => somebody (List.isEmpty_iff.mpr none)) ended rfl
    | some first =>
        obtain ⟨child, status⟩ := first
        have known := ended
        unfold Call.sought at known
        simp only [known] at done
        split at done
        · rename_i asked
          obtain ⟨stored, middle, store, done⟩ := ok_of_bind done
          have store := (onMemory_of_onCallerMemory store).1
          cases stored with
          | ok _ =>
              obtain ⟨answer, left, reap, done⟩ := ok_of_bind done
              cases done
              exact .told ended (.inr ⟨asked, store⟩) reap
          | error fault =>
              cases done
              exact .barred ended asked store
        · rename_i unasked
          obtain ⟨answer, left, reap, done⟩ := ok_of_bind done
          cases done
          exact .told ended (.inl ⟨not_not.mp unasked, rfl⟩) reap

/-- Who is found to have ended is waited for, and is there. -/
theorem ended_of_firstEnded {ids : List ContextId} {status : ExitStatus}
    (ended : firstEnded origin.machine ids = some (child, status)) :
    child ∈ ids ∧ ∃ gone, origin.machine.context? child = some gone ∧
      gone.exitStatus = some status := by
  obtain ⟨other, member, told⟩ := List.exists_of_findSome?_eq_some ended
  obtain ⟨status', known, same⟩ := Option.map_eq_some_iff.mp told
  obtain ⟨rfl, rfl⟩ := Prod.mk.inj same
  exact ⟨member, Option.bind_eq_some_iff.mp known⟩

/-- Where nobody is found to have ended, nobody has. -/
theorem unended_of_firstEnded {ids : List ContextId}
    (unended : firstEnded origin.machine ids = none) (member : other ∈ ids)
    (found : origin.machine.context? other = some context) : context.exitStatus = none := by
  have looked := List.findSome?_eq_none_iff.mp unended other member
  rw [Option.map_eq_none_iff, found] at looked
  exact looked

theorem mem_sought : child ∈ call.sought context ↔
    child ∈ context.children ∧ (WaitTarget.ofWord call.first).includes child = true := by
  rw [Call.sought, List.mem_filter, TreeSet.mem_toList]

section Told

variable {stored : Hypervisor} {status : ExitStatus} {answer : Option ExitStatus}

/-- Storing a word concerns the memory of the caller alone. -/
theorem hushed_of_store {address : Nat} {value : UInt64} {answer : Except Fault Unit}
    (uniform : origin.machine.Uniform)
    (store : onMemory id (Memory.store address value) origin = .ok answer after) :
    Hushed id origin after := by
  have hushed := hushed_onMemory uniform id (Memory.Congruent.store address value).careful
  rw [store] at hushed
  exact hushed

theorem hushed_of_kept (uniform : origin.machine.Uniform)
    (kept : call.second.toNat = 0 ∧ stored = origin ∨ call.second.toNat ≠ 0 ∧
      onMemory id (Memory.store call.second.toNat status.code.toUInt64) origin =
        .ok (.ok ()) stored) : Hushed id origin stored := by
  rcases kept with ⟨-, rfl⟩ | ⟨-, store⟩
  · exact .refl id uniform
  · exact hushed_of_store uniform store

/-- A child that is reported has ended, and is removed. -/
structure Reported (id child : ContextId) (status : ExitStatus) (gone : Context)
    (stored after : Hypervisor) : Prop where
  different : child ≠ id
  link : gone.parent = some id
  ended : gone.exitStatus = some status
  removed : ∃ left, Removed child gone.kin stored left ∧ after.machine = left.machine
  discarded : discard child stored = .ok () after

theorem Kinship.reported (kinship : Kinship loaded origin)
    (found : origin.machine.context? id = some context)
    (ended : firstEnded origin.machine (call.sought context) = some (child, status))
    (hushed : Hushed id origin stored) (reaped : reap child stored = .ok answer after) :
    ∃ gone, origin.machine.context? child = some gone ∧
      Reported id child status gone stored after := by
  obtain ⟨member, gone, there, finished⟩ := ended_of_firstEnded ended
  have here := kin_of_context? kinship.uniform there
  obtain ⟨kin, same, link⟩ := (kinship.linked id context.kin
    (kin_of_context? kinship.uniform found) child).mp (mem_sought.mp member).1
  obtain rfl := Option.some.inj (same.symm.trans here)
  obtain ⟨gone', there', rfl, reaped⟩ := told_of_reap reaped
  have here' : stored.kin child = some gone.kin := (hushed.kin child).trans here
  have same' : gone'.kin = gone.kin :=
    Option.some.inj ((kin_of_context? hushed.uniform there').symm.trans here')
  have finished' : gone'.exitStatus = some status := (congrArg Kin.exitStatus same').trans finished
  rw [finished'] at reaped
  obtain ⟨nobody, -⟩ | ⟨-, discard⟩ := reaped
  · cases nobody
  · obtain ⟨left, removed, machine⟩ := removed_of_discard hushed.uniform there' discard
    refine ⟨gone, there, ?_, link, finished, ⟨left, same' ▸ removed, machine⟩, discard⟩
    exact (Nat.ne_of_lt (kinship.parents child _ id here link).1).symm

/-- **A child that is reported is struck off.** -/
theorem Reported.balanced {gone : Context} (reported : Reported id child status gone stored after)
    (kinship : Kinship loaded origin) (hushed : Hushed id origin stored) :
    Balanced parent [] (if id = parent then [child] else []) [] origin after := by
  obtain ⟨left, removed, machine⟩ := reported.removed
  have struck : (if id = parent then [child] else []) ++ [] =
      if gone.kin.parent = some parent then [child] else [] := by
    rw [List.append_nil]
    simp only [show gone.kin.parent = some id from reported.link, Option.some.injEq]
  exact (Steadfast.of_hushed hushed).then_balanced kinship
    ((removed.balanced (kinship.of_hushed hushed) struck).then_steadfast
      (kinship.of_hushed hushed) (.of_machine machine))

end Told

/-! ## Forks and waits -/

/-- A hypervisor that has taken notice of the call on which a context stands. -/
def heard (id : ContextId) (context : Context) (called : Hypervisor) : Hypervisor :=
  heeding id (.ofContext context) (called.calling id)

theorem context?_heard (found : called.machine.context? id = some context) :
    (heard id context called).machine.context? other =
      if id = other then some (context.withState (.blocked .systemCall))
      else called.machine.context? other :=
  context?_calling found

theorem context?_heard_self (found : called.machine.context? id = some context) :
    (heard id context called).machine.context? id =
      some (context.withState (.blocked .systemCall)) :=
  context?_calling_self found

/-- **A call that does not reach the host is made, and its outcome is acted on.** -/
theorem made_of_serviceCall {kind : SystemCall} (inside : kind.reachesHost = false)
    (found : called.machine.context? id = some context)
    (asked : SystemCall.ofNumber? (Call.ofContext context).number.toNat = some kind)
    (served : serviceCall id called = .ok () after) :
    ∃ outcome data done made,
      serve id (.ofContext context) (some kind) (heard id context called) =
        .ok (outcome, data) done ∧
      made.machine = done.machine ∧ Concludes id context.hart.pc made after outcome := by
  obtain ⟨outcome, made, dispatch, concludes⟩ := concluded_of_serviceCall found served
  have there := context?_calling_self found
  have same : Call.ofContext (context.withState (.blocked .systemCall)) = .ofContext context := rfl
  have performed := performed_of_dispatch there (.inr ?_) dispatch
  · obtain ⟨data, done, serve, completed⟩ := performed
    rw [same, asked] at serve
    refine ⟨outcome, data, done, made, serve, ?_, concludes⟩
    rw [recording_of_noteCompleted completed]
  · rw [same, asked]
    simp [inside]

/-- Whoever is served is served by a hypervisor that has taken notice of its call. -/
theorem Tended.heard (tended : Tended loaded id called)
    (found : called.machine.context? id = some context) :
    Minded loaded id called (heard id context called) := by
  have counts : Discreet id Anything (count fun counters =>
    { counters with systemCalls := counters.systemCalls + 1 }) := discreet_count id _
  have notes := discreet_note id (.called id (Call.ofContext context).number.toNat
    (Call.ofContext context).pc.toNat)
  exact ((tended.calling found).discreet counts rfl).discreet notes rfl

namespace ServedCall

variable {served : ServedCall} {kind : SystemCall}

/-- The kind of a call, if its number stands for one. -/
def kind? (served : ServedCall) : Option SystemCall :=
  SystemCall.ofNumber? served.call.number.toNat

/-- The caller stands behind its call, with another answer than minus one. -/
def Succeeds (served : ServedCall) : Prop :=
  (served.after.context? served.caller).map (fun context => context.hart.pc) =
    some (served.call.pc + 4) ∧ served.answer ≠ declined

instance (served : ServedCall) : Decidable served.Succeeds := inferInstanceAs (Decidable (_ ∧ _))

/-- The number that a context was answered, if this is a call of its own, of a kind, and has
succeeded. -/
def told (kind : SystemCall) (parent : ContextId) (served : ServedCall) : List ContextId :=
  if served.caller = parent ∧ served.kind? = some kind ∧ served.Succeeds then
    [served.answer.toNat]
  else []

/-- The call of a context, by the hypervisors at the call and after its service. -/
def between (id : ContextId) (context : Context) (called after : Hypervisor) : ServedCall :=
  ⟨id, .ofContext context, called.machine, after.machine⟩

variable {made : Hypervisor} {caller : Context}

theorem pc_of_answered (found : made.machine.context? id = some caller) {pc : UInt64}
    {value : Int64} : ((made.answering id pc value).machine.context? id).map
      (fun context => context.hart.pc) = some (pc + 4) := by
  rw [context?_answering, if_pos rfl, found]
  rfl

/-- A number that is answered is told. -/
theorem told_of_number (found : made.machine.context? id = some caller)
    (small : child ≤ addressSpaceSize)
    (kind' : (between id context called
      (made.answering id context.hart.pc (Int64.ofNat child))).kind? = some kind) :
    (between id context called (made.answering id context.hart.pc (Int64.ofNat child))).told kind
      parent = if id = parent then [child] else [] := by
  have answer : (between id context called
      (made.answering id context.hart.pc (Int64.ofNat child))).answer =
        (Int64.ofNat child).toUInt64 := answerTo_answering found
  obtain ⟨number, done⟩ := toNat_answer small
  have succeeds : (between id context called
      (made.answering id context.hart.pc (Int64.ofNat child))).Succeeds :=
    ⟨pc_of_answered found, answer.symm ▸ done⟩
  unfold told
  rw [answer, number]
  refine if_congr ⟨fun given => given.1, fun mine => ⟨mine, kind', succeeds⟩⟩ rfl rfl

/-- Minus one tells nothing. -/
theorem told_of_failure (found : made.machine.context? id = some caller) :
    (between id context called (made.answering id context.hart.pc (-1))).told kind parent = [] :=
  if_neg fun given => given.2.2.2 (answerTo_answering found)

/-- Whoever stands at its call is told nothing. -/
theorem told_of_standing (found : after.machine.context? id = some caller)
    (stands : caller.hart.pc = context.hart.pc) :
    (between id context called after).told kind parent = [] := by
  refine if_neg fun given => ?_
  have passed := given.2.2.1
  change (after.machine.context? id).map _ = some (context.hart.pc + 4) at passed
  rw [found, Option.map_some, stands] at passed
  have same := Option.some.inj passed
  grind

/-- A call of another kind tells nothing. -/
theorem told_of_other (other : served.kind? ≠ some kind) : served.told kind parent = [] :=
  if_neg fun given => other given.2.1

end ServedCall

open ServedCall (between)

/-- Behind the call of a fork or a wait. -/
theorem balanced_fork (tended : Tended loaded id called)
    (found : called.machine.context? id = some context)
    (fits : after.machine.interpreter.nextId < 2 ^ 32)
    (asked : SystemCall.ofNumber? (Call.ofContext context).number.toNat = some .fork)
    (served : serviceCall id called = .ok () after) :
    Balanced parent ((between id context called after).told .fork parent) [] [] called after := by
  obtain ⟨outcome, data, done, made, serve, machine, concludes⟩ :=
    made_of_serviceCall rfl found asked served
  have heard := tended.heard found
  obtain ⟨outcome', forked, fork, serve⟩ := ok_of_bind serve
  cases serve
  have behind : Steadfast done made := .of_machine machine
  rcases heard.toTended.serveFork fork with ⟨rfl, stayed⟩ | ⟨child, rfl, young, entered⟩
  · obtain ⟨⟨caller, there⟩, rfl⟩ := concludes
    rw [ServedCall.told_of_failure there]
    exact (((heard.steadfast.trans stayed).trans behind).trans .answering).balanced
  · obtain ⟨⟨caller, there⟩, rfl⟩ := concludes
    rw [nextId_answering, machine] at fits
    have small : child ≤ addressSpaceSize := (young.trans fits).le
    rw [ServedCall.told_of_number there small asked]
    refine heard.steadfast.then_balanced tended.kinship ?_
    exact (entered parent).then_steadfast heard.kinship (behind.trans .answering)

/-- Whoever is blocked in its call stands where it stood. -/
theorem context?_blocked {made : Hypervisor} {reason : BlockReason}
    (machine : made.machine = (heard id context called).machine)
    (found : called.machine.context? id = some context)
    (waits : setState id (.blocked reason) made = .ok () after) :
    after.machine.context? other =
      if id = other then some (context.withState (.blocked reason))
      else called.machine.context? other := by
  obtain rfl := state_of_modifyContext waits
  rw [context?_modifyContext, machine, context?_heard found]
  split <;> rfl

/-- **The service of a wait strikes off the child that is reported.** -/
theorem balanced_wait (tended : Tended loaded id called)
    (found : called.machine.context? id = some context)
    (fits : after.machine.interpreter.nextId < 2 ^ 32)
    (asked : SystemCall.ofNumber? (Call.ofContext context).number.toNat = some .wait)
    (served : serviceCall id called = .ok () after) :
    Balanced parent [] ((between id context called after).told .wait parent) [] called after := by
  obtain ⟨outcome, data, done, made, serve, machine, concludes⟩ :=
    made_of_serviceCall rfl found asked served
  have heard := tended.heard found
  obtain ⟨outcome', waited, wait, serve⟩ := ok_of_bind serve
  cases serve
  have behind : Steadfast done made := .of_machine machine
  have there := context?_heard_self found
  cases waited_of_serveWait there wait with
  | alone nobody same =>
      subst same
      obtain ⟨⟨caller, there⟩, rfl⟩ := concludes
      rw [ServedCall.told_of_failure there]
      exact ((heard.steadfast.trans behind).trans .answering).balanced
  | early somebody unended same =>
      subst same
      cases concludes with
      | blocked waits =>
          have told : (between id context called after).told .wait parent = [] :=
            ServedCall.told_of_standing ((context?_blocked machine found waits).trans (if_pos rfl))
              rfl
          rw [told]
          exact ((heard.steadfast.trans behind).trans (.setState waits)).balanced
  | barred ended asked refused =>
      have stored := hushed_of_store heard.kinship.uniform refused
      obtain ⟨⟨caller, there⟩, rfl⟩ := concludes
      rw [ServedCall.told_of_failure there]
      exact (((heard.steadfast.trans (.of_hushed stored)).trans behind).trans .answering).balanced
  | told ended kept reaped =>
      have hushed := hushed_of_kept heard.kinship.uniform kept
      obtain ⟨gone, known, reported⟩ := heard.kinship.reported there ended hushed reaped
      have struck : Balanced parent _ _ _ _ _ := reported.balanced heard.kinship hushed
      have young := heard.kinship.young _ _ (kin_of_context? heard.kinship.uniform known)
      obtain ⟨⟨caller, there⟩, rfl⟩ := concludes
      rw [nextId_answering, machine] at fits
      have small := ((young.trans_le struck.nextId).trans fits).le
      rw [ServedCall.told_of_number there small asked]
      refine heard.steadfast.then_balanced tended.kinship ?_
      exact struck.then_steadfast heard.kinship (behind.trans .answering)

/-! ## What a wait tells -/

namespace ServedCall

/-- A wait tells that a child has ended: the child was one of those that the call waited for, and
had ended; its exit code is stored where the call asks for it; and now it is gone, and its parent
has it no more. -/
structure Reports (served : ServedCall) (child : ContextId) : Prop where
  succeeds : served.Succeeds
  answer : served.answer.toNat = child
  sought : (WaitTarget.ofWord served.call.first).includes child = true
  ended : ∃ gone status, served.called.context? child = some gone ∧
    gone.parent = some served.caller ∧ gone.exitStatus = some status ∧
    (served.call.second ≠ 0 →
      served.after.shown served.caller served.call.second.toNat wordSize =
        Bytes.ofNat wordSize status.code.toUInt64.toNat)
  removed : served.after.context? child = none
  children : ∃ caller, served.called.context? served.caller = some caller ∧
    child ∈ caller.children ∧
    (served.after.context? served.caller).map Context.children = some (caller.children.erase child)

/-- A wait is declined: nobody is waited for, or there is no room for the exit code of a child that
has ended.  No context but the caller has changed, and the caller has all of its children. -/
structure Declines (served : ServedCall) : Prop where
  resumed : (served.after.context? served.caller).map (fun context => context.hart.pc) =
    some (served.call.pc + 4)
  answer : served.answer = declined
  reason : ∃ caller, served.called.context? served.caller = some caller ∧
    (served.after.context? served.caller).map Context.children = some caller.children ∧
    (served.call.sought caller = [] ∨ served.call.second ≠ 0 ∧
      ∃ child ∈ served.call.sought caller, ∃ gone, served.called.context? child = some gone ∧
        gone.exitStatus ≠ none)
  others : ∀ other, other ≠ served.caller →
    served.after.context? other = served.called.context? other

/-- A wait blocks its caller: some child is waited for, and none of these has ended.  The caller is
in a state of waiting, and that is all; all registers are as they were, and so is all memory. -/
structure Blocks (served : ServedCall) : Prop where
  caller : ∃ caller, served.called.context? served.caller = some caller ∧
    served.call.sought caller ≠ [] ∧
    (∀ child ∈ served.call.sought caller, ∃ kept, served.called.context? child = some kept ∧
      kept.parent = some served.caller ∧ kept.exitStatus = none) ∧
    served.after.context? served.caller =
      some (caller.withState (.blocked (WaitTarget.ofWord served.call.first).reason))
  others : ∀ other, other ≠ served.caller →
    served.after.context? other = served.called.context? other
  memory : ∀ id, served.after.shown id = served.called.shown id

end ServedCall

section Waited

variable {made done : Hypervisor}

/-- Nobody but the caller has changed while its call was made. -/
theorem context?_answered {pc : UInt64} {value : Int64}
    (found : called.machine.context? id = some context) (machine : made.machine = done.machine)
    (others : ∀ other, other ≠ id →
      done.machine.context? other = (heard id context called).machine.context? other)
    (different : other ≠ id) :
    (made.answering id pc value).machine.context? other = called.machine.context? other := by
  rw [context?_answering, if_neg (Ne.symm different), machine, others other different,
    context?_heard found, if_neg (Ne.symm different)]

/-- A wait that is declined. -/
theorem declines_of_kept (found : called.machine.context? id = some context)
    (machine : made.machine = done.machine) {caller : Context}
    (there : done.machine.context? id = some caller) (children : caller.children = context.children)
    (others : ∀ other, other ≠ id →
      done.machine.context? other = (heard id context called).machine.context? other)
    (reason : (Call.ofContext context).sought context = [] ∨ (Call.ofContext context).second ≠ 0 ∧
      ∃ child ∈ (Call.ofContext context).sought context, ∃ gone,
        called.machine.context? child = some gone ∧ gone.exitStatus ≠ none) :
    (between id context called (made.answering id context.hart.pc (-1))).Declines := by
  have there' := (congrArg (Machine.context? · id) machine).trans there
  refine ⟨ServedCall.pc_of_answered there', answerTo_answering there',
    ⟨context, found, ?_, reason⟩, fun other different => ?_⟩
  · show ((made.answering id context.hart.pc (-1)).machine.context? id).map _ = _
    rw [context?_answering, if_pos rfl, there', ← children]
    rfl
  · exact context?_answered found machine others different

/-- The removal of a context leaves to everyone else what they see. -/
theorem shown_of_discard (steady : Steady capacity origin) (different : child ≠ id)
    (found : origin.machine.context? id = some context) (uniform : after.machine.Uniform)
    (done : discard child origin = .ok () after) :
    after.machine.shown id = origin.machine.shown id := by
  obtain ⟨_, destroyed, destroy, done⟩ := ok_of_bind done
  have removed : after.machine.interpreter =
      finalState (Interpreter.destroy child origin.machine.interpreter) := by
    have passed := finalState_below (steady.uniform.destroy child)
    rw [destroy] at passed
    cases done
    exact passed
  rw [steady.uniform.context?] at found
  obtain ⟨context', found', same, bytes⟩ := steady.sound.spares_destroy different context found
  rw [← removed] at found' bytes
  funext address size
  unfold Machine.shown
  rw [uniform.context?, steady.uniform.context?, found, Interpreter.context?, found']
  exact List.map_congr_left fun _ _ => bytes _

/-- A word that was stored can be seen. -/
theorem shown_of_store (steady : Steady capacity origin) {address : Nat} {value : UInt64}
    (store : onMemory id (Memory.store address value) origin = .ok (.ok ()) after) :
    after.machine.shown id address wordSize = Bytes.ofNat wordSize value.toNat := by
  obtain ⟨context, carried⟩ := carriedOut steady.uniform store
  have sound := steady.sound.memory carried.found origin.machine.interpreter.journal
  have stored := (sound.stored_store (ok_of_answerOf carried.answered)).bytesAt
  rw [Memory.Congruent.length_ofNat] at stored
  exact ((carried.shown steady.uniform address wordSize).2).trans stored

/-- What a context has when a child of it has been struck off. -/
theorem Reported.children {stored : Hypervisor} {gone : Context} {status : ExitStatus}
    (reported : Reported id child status gone stored after) (uniform : after.machine.Uniform)
    (found : origin.machine.context? id = some context) (kinship : Kinship loaded origin)
    (hushed : Hushed id origin stored) :
    ∃ caller, after.machine.context? id = some caller ∧
      caller.children = context.children.erase child := by
  obtain ⟨left, removed, machine⟩ := reported.removed
  have there : stored.kin id = some context.kin :=
    (hushed.kin id).trans (kin_of_context? kinship.uniform found)
  have kept := removed.keeps reported.different there
  have same : after.kin id = left.kin id := by rw [kin, machine]; rfl
  obtain ⟨caller, found', tells⟩ := exists_context? uniform (same.trans kept)
  refine ⟨caller, found', (congrArg Kin.children tells).trans ?_⟩
  exact if_pos reported.link

theorem Steady.heard (steady : Steady capacity called) :
    Steady capacity (heard id context called) := by
  have calling : Steady capacity (called.calling id) := steady.modifyContext id fun _ => rfl
  exact ⟨calling.sound.congr rfl (fun _ => rfl) le_rfl, calling.uniform.congr rfl fun _ => rfl⟩

/-- **A wait that has removed a child reports it.** -/
theorem reports_of_reaped (steady : Steady capacity called) (tended : Tended loaded id called)
    (found : called.machine.context? id = some context) (machine : made.machine = done.machine)
    {status : ExitStatus} {answer : Option ExitStatus} {stored : Hypervisor}
    (ended : firstEnded (heard id context called).machine
      ((Call.ofContext context).sought context) = some (child, status))
    (kept : (Call.ofContext context).second.toNat = 0 ∧ stored = heard id context called ∨
      (Call.ofContext context).second.toNat ≠ 0 ∧
        onMemory id (Memory.store (Call.ofContext context).second.toNat status.code.toUInt64)
          (heard id context called) = .ok (.ok ()) stored)
    (reaped : reap child stored = .ok answer done) (small : child ≤ addressSpaceSize) :
    (between id context called
      (made.answering id context.hart.pc (Int64.ofNat child))).Reports child := by
  have heard := tended.heard found
  have there := context?_heard_self found
  have hushed := hushed_of_kept heard.kinship.uniform kept
  have steady' : Steady capacity stored :=
    ⟨hushed.sound capacity (Steady.heard steady).sound, hushed.uniform⟩
  obtain ⟨gone, known, reported⟩ := heard.kinship.reported there ended hushed reaped
  obtain ⟨left, removed, same⟩ := reported.removed
  have uniform : done.machine.Uniform := same ▸ removed.uniform
  obtain ⟨caller, there', children⟩ := reported.children uniform there heard.kinship hushed
  have resumed := (congrArg (Machine.context? · id) machine).trans there'
  obtain ⟨number, success⟩ := toNat_answer small
  have mine := mem_sought.mp (ended_of_firstEnded ended).1
  rw [context?_heard found, if_neg reported.different.symm] at known
  refine ⟨⟨ServedCall.pc_of_answered resumed, ?_⟩, ?_, mine.2, ⟨gone, status, known,
    reported.link, reported.ended, fun asked => ?_⟩, ?_, ⟨context, found, mine.1, ?_⟩⟩
  · exact (answerTo_answering resumed).trans_ne success
  · exact (congrArg UInt64.toNat (answerTo_answering resumed)).trans number
  · have asked' : (Call.ofContext context).second.toNat ≠ 0 := by
      rwa [Ne, ← UInt64.toNat_zero, UInt64.toNat_inj]
    obtain ⟨-, store⟩ := kept.resolve_left fun unasked => asked' unasked.1
    obtain ⟨before, place, -⟩ := exists_context? hushed.uniform
      ((hushed.kin id).trans (kin_of_context? heard.kinship.uniform there))
    show (made.answering id context.hart.pc (Int64.ofNat child)).machine.shown id _ _ = _
    rw [shown_answering, machine,
      shown_of_discard steady' reported.different place uniform reported.discarded]
    exact shown_of_store (Steady.heard steady) store
  · show (made.answering id context.hart.pc (Int64.ofNat child)).machine.context? child = none
    rw [context?_answering, if_neg reported.different.symm, machine, uniform.context?]
    have missing : left.kin child = none := (removed.kin child).trans (if_pos rfl)
    rw [kin, ← same] at missing
    exact Option.map_eq_none_iff.mp missing
  · show ((made.answering id context.hart.pc (Int64.ofNat child)).machine.context? id).map _ = _
    rw [context?_answering, if_pos rfl, resumed]
    exact congrArg some children

/-- **A wait reports a child, or it is declined, or it blocks.** -/
theorem told_of_wait (steady : Steady capacity called) (tended : Tended loaded id called)
    (found : called.machine.context? id = some context)
    (fits : after.machine.interpreter.nextId < 2 ^ 32)
    (asked : SystemCall.ofNumber? (Call.ofContext context).number.toNat = some .wait)
    (served : serviceCall id called = .ok () after) :
    let wait := between id context called after
    (∃ child, wait.Reports child) ∨ wait.Declines ∨ wait.Blocks := by
  intro wait
  obtain ⟨outcome, data, done, made, serve, machine, concludes⟩ :=
    made_of_serviceCall rfl found asked served
  have heard := tended.heard found
  have there := context?_heard_self found
  obtain ⟨outcome', waited, serveWait, serve⟩ := ok_of_bind serve
  cases serve
  cases waited_of_serveWait there serveWait with
  | alone nobody same =>
      subst same
      obtain ⟨-, rfl⟩ := concludes
      exact .inr (.inl (declines_of_kept found machine there rfl (fun _ _ => rfl) (.inl nobody)))
  | early somebody unended same =>
      subst same
      cases concludes with
      | blocked waits =>
          refine .inr (.inr ⟨⟨context, found, somebody, fun child member => ?_, ?_⟩,
            fun other different => ?_, fun other => ?_⟩)
          · obtain ⟨different, kept, known, link⟩ :=
              tended.kinship.child_there found (mem_sought.mp member).1
            refine ⟨kept, known, link, unended_of_firstEnded unended member ?_⟩
            rw [context?_heard found, if_neg different.symm, known]
          · exact (context?_blocked machine found waits).trans (if_pos rfl)
          · exact (context?_blocked machine found waits).trans (if_neg (Ne.symm different))
          · show after.machine.shown other = called.machine.shown other
            obtain rfl := state_of_modifyContext waits
            have blocked (reason : BlockReason) :
                (made.machine.modifyContext id (·.withState (.blocked reason))).shown other =
                  made.machine.shown other := Machine.shown_modifyContext _ _ _ fun _ => rfl
            refine (blocked _).trans ?_
            rw [machine]
            exact shown_calling other
  | barred ended asked refused =>
      obtain ⟨-, rfl⟩ := concludes
      obtain ⟨caller, carried⟩ := carriedOut heard.kinship.uniform refused
      have kept := carried.context? heard.kinship.uniform
      obtain ⟨member, gone, known, finished⟩ := ended_of_firstEnded ended
      have different := (tended.kinship.child_there found (mem_sought.mp member).1).1
      rw [context?_heard found, if_neg different.symm] at known
      refine .inr (.inl (declines_of_kept found machine ((kept id).trans (if_pos rfl)) ?_
        (fun other different => (kept other).trans (if_neg (Ne.symm different)))
        (.inr ⟨?_, _, member, gone, known, ?_⟩)))
      · have place := (heard.kinship.uniform.context? id).symm.trans there
        rw [Option.some.inj (carried.found.symm.trans place)]
        rfl
      · rintro none
        exact asked (congrArg UInt64.toNat none)
      · rw [finished]
        exact Option.some_ne_none _
  | told ended kept reaped =>
      have account : Balanced id _ _ _ called _ := balanced_wait tended found fits asked served
      have member := (ended_of_firstEnded ended).1
      obtain ⟨-, gone, known, -⟩ := tended.kinship.child_there found (mem_sought.mp member).1
      have young := tended.kinship.young _ _ (kin_of_context? tended.kinship.uniform known)
      obtain ⟨-, rfl⟩ := concludes
      exact .inl ⟨_, reports_of_reaped steady tended found machine ended kept reaped
        ((young.trans_le account.nextId).trans fits).le⟩

end Waited

end Hypervisor

end NestedMachine
