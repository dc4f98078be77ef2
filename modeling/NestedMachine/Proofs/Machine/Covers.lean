import Mathlib.Algebra.Order.BigOperators.Group.Finset
import NestedMachine.Proofs.Machine.Conservation
import NestedMachine.Proofs.Memory.Ranges

/-!
# Interpreters that show the same

One interpreter covers another if it has the same contexts, up to their address spaces, and the
memory of each covers the memory of the other's (`Interpreter.Covers`).  How far their memory modes
may differ is a parameter.  A covering interpreter has mapped no fewer pages over all, so that it
runs out of frames no later.  As long as it does not, every operation has the same outcome on both
sides, errors included, and the one interpreter covers the other again.

Two operations can succeed for lack of frames: a fork that is refused has an answer, and so has a
request to move the program break.  What the covered interpreter does then is left open.
-/

namespace NestedMachine

set_option autoImplicit false

open Std (TreeMap)
open Interpreter (spaceIn)

variable {α : Type}

/-! ## Contexts that show the same -/

/-- Contexts over two pools that differ in their address spaces only, which show the same. -/
structure ShowAlike (pool pool' : FramePool) (context context' : Context) : Prop where
  alike : context.Alike context'
  covers : Memory.Covers ⟨context.space, pool, .silent⟩ ⟨context'.space, pool', .silent⟩

/-- Contexts over two pools that show the same, up to their memory modes. -/
structure ShowAlikeUpTo (modes : ModeView) (pool pool' : FramePool) (context context' : Context) :
    Prop where
  alike : context.Alike context'
  covers : Memory.CoversUpTo modes ⟨context.space, pool, .silent⟩ ⟨context'.space, pool', .silent⟩

theorem ShowAlikeUpTo.showAlike {pool pool' : FramePool} {context context' : Context}
    (shows : ShowAlikeUpTo .same pool pool' context context') :
    ShowAlike pool pool' context context' :=
  ⟨shows.alike, shows.covers.covers⟩

/-- Tables with the same contexts, which show the same. -/
def AllShowAlike (modes : ModeView) (pool pool' : FramePool)
    (contexts contexts' : TreeMap ContextId Context) : Prop :=
  ∀ id : ContextId, Option.Rel (ShowAlikeUpTo modes pool pool') contexts[id]? contexts'[id]?

section Tables

variable {modes : ModeView} {pool pool' : FramePool}
  {contexts contexts' : TreeMap ContextId Context} {id : ContextId}

/-- What a change that is blind to address spaces does to contexts that show the same. -/
theorem ShowAlikeUpTo.change {context context' : Context}
    (shows : ShowAlikeUpTo modes pool pool' context context') {change : Context → Context}
    (blind : Context.SpaceBlind change) :
    ShowAlikeUpTo modes pool pool' (change context) (change context') := by
  refine ⟨shows.alike.change blind, ?_⟩
  rw [blind.space, blind.space]
  exact shows.covers

namespace AllShowAlike

theorem erase (all : AllShowAlike modes pool pool' contexts contexts') (id : ContextId) :
    AllShowAlike modes pool pool' (contexts.erase id) (contexts'.erase id) := by
  intro other
  rw [Table.getElem?_erase, Table.getElem?_erase]
  split
  · exact .none
  · exact all other

theorem modify (all : AllShowAlike modes pool pool' contexts contexts') (id : ContextId)
    {change : Context → Context} (blind : Context.SpaceBlind change) :
    AllShowAlike modes pool pool' (contexts.modify id change) (contexts'.modify id change) := by
  intro other
  rw [Table.getElem?_modify, Table.getElem?_modify]
  have found := all other
  split
  · generalize contexts[other]? = first at found
    generalize contexts'[other]? = second at found
    cases found with
    | none => exact .none
    | some shows => exact .some (shows.change blind)
  · exact found

/-- Cutting the same links on both sides. -/
theorem unlink (all : AllShowAlike modes pool pool' contexts contexts') (id : ContextId)
    {context context' : Context} (alike : context.Alike context') :
    AllShowAlike modes pool pool' (Interpreter.unlink contexts id context)
      (Interpreter.unlink contexts' id context') := by
  have orphaned (children : List ContextId) (first second : TreeMap ContextId Context)
      (all : AllShowAlike modes pool pool' first second) : AllShowAlike modes pool pool'
        (children.foldl (fun contexts child =>
          contexts.modify child fun child => { child with parent := none }) first)
        (children.foldl (fun contexts child =>
          contexts.modify child fun child => { child with parent := none }) second) := by
    induction children generalizing first second with
    | nil => exact all
    | cons child rest ih => exact ih _ _ (all.modify child fun _ _ => rfl)
  rw [alike.eq]
  unfold Interpreter.unlink
  refine orphaned _ _ _ ?_
  dsimp only
  split
  · exact all.modify _ fun _ _ => rfl
  · exact all

/-- Pools that keep what the contexts hold show the same of them. -/
theorem repool (all : AllShowAlike modes pool pool' contexts contexts') {after after' : FramePool}
    (kept : ∀ frame ∈ framesIn contexts, after.contents frame = pool.contents frame)
    (kept' : ∀ frame ∈ framesIn contexts', after'.contents frame = pool'.contents frame) :
    AllShowAlike modes after after' contexts contexts' := by
  have same {pool after : FramePool} {contexts : TreeMap ContextId Context} {id : ContextId}
      {context : Context} (found : contexts[id]? = some context)
      (kept : ∀ frame ∈ framesIn contexts, after.contents frame = pool.contents frame)
      (address : Nat) : Memory.byteAt ⟨context.space, after, .silent⟩ address =
        Memory.byteAt ⟨context.space, pool, .silent⟩ address := by
    unfold Memory.byteAt
    cases mapped : context.space.table[pageOf address]? with
    | none => rfl
    | some entry =>
        have inside : spaceIn contexts id = some context.space := by rw [spaceIn, found]; rfl
        have behind := PageTable.mem_frames.mpr ⟨_, entry, mapped, rfl⟩
        simp only [FramePool.byte]
        rw [kept _ (mem_framesIn.mpr ⟨id, _, inside, behind⟩)]
  intro id
  have shown := all id
  cases found : contexts[id]? with
  | none =>
      rw [found] at shown
      cases found' : contexts'[id]? with
      | none => exact .none
      | some context' =>
          rw [found'] at shown
          cases shown
  | some context =>
      rw [found] at shown
      cases found' : contexts'[id]? with
      | none =>
          rw [found'] at shown
          cases shown
      | some context' =>
          rw [found'] at shown
          cases shown with
          | some shows =>
              obtain ⟨alike, layout, mode, domain, bytes⟩ := shows
              refine .some ⟨alike, layout, mode, domain, ?_⟩
              intro address
              rw [same found kept, same found' kept', bytes]

/-- Putting contexts that show the same in the same place. -/
theorem put {context context' : Context}
    (others : AllShowAlike modes pool pool' (contexts.erase id) (contexts'.erase id))
    (shows : ShowAlikeUpTo modes pool pool' context context')
    {after after' : TreeMap ContextId Context}
    (left : ∀ other : ContextId,
      after[other]? = if id = other then some context else contexts[other]?)
    (right : ∀ other : ContextId,
      after'[other]? = if id = other then some context' else contexts'[other]?) :
    AllShowAlike modes pool pool' after after' := by
  intro other
  have rest := others other
  rw [Table.getElem?_erase, Table.getElem?_erase] at rest
  rw [left, right]
  by_cases same : id = other
  · rw [if_pos same, if_pos same]
    exact .some shows
  · rw [if_neg same, if_neg same] at rest ⊢
    exact rest

end AllShowAlike

/-! ## The covering side holds more frames -/

/-- How many pages a context maps. -/
def pagesOf (contexts : TreeMap ContextId Context) (id : ContextId) : Nat :=
  (spaceIn contexts id).elim 0 fun space => space.table.domain.card

/-- The numbers of the contexts. -/
def numbersIn (contexts : TreeMap ContextId Context) : Finset ContextId :=
  ((Table.entries contexts).map Prod.fst).toFinset

theorem mem_numbersIn : id ∈ numbersIn contexts ↔ ∃ context, contexts[id]? = some context := by
  rw [numbersIn, Multiset.mem_toFinset, Multiset.mem_map]
  constructor
  · rintro ⟨⟨_, context⟩, member, rfl⟩
    exact ⟨context, Table.mem_entries.mp member⟩
  · rintro ⟨context, found⟩
    exact ⟨(id, context), Table.mem_entries.mpr found, rfl⟩

theorem card_framesIn_eq_sum (contexts : TreeMap ContextId Context) :
    (framesIn contexts).card = ∑ id ∈ numbersIn contexts, pagesOf contexts id := by
  have listed : (numbersIn contexts).val = (Table.entries contexts).map Prod.fst :=
    Multiset.dedup_eq_self.mpr (Table.nodup_keys contexts)
  rw [framesIn, Multiset.card_bind, spacesIn, Multiset.map_map, Finset.sum, listed,
    Multiset.map_map]
  refine congrArg Multiset.sum (Multiset.map_congr rfl ?_)
  rintro ⟨id, context⟩ member
  have found : contexts[id]? = some context := Table.mem_entries.mp member
  show context.space.table.frames.card = pagesOf contexts id
  rw [pagesOf, spaceIn, found, PageTable.card_frames, ← PageTable.card_domain]
  rfl

/-- **Contexts that show the same need no more frames.** -/
theorem AllShowAlike.card_le (all : AllShowAlike modes pool pool' contexts contexts') :
    (framesIn contexts').card ≤ (framesIn contexts).card := by
  have numbers : numbersIn contexts' = numbersIn contexts := by
    ext id
    have shown := all id
    rw [mem_numbersIn, mem_numbersIn]
    generalize contexts[id]? = first at shown
    generalize contexts'[id]? = second at shown
    cases shown with
    | none => simp
    | some shows => simp
  rw [card_framesIn_eq_sum, card_framesIn_eq_sum, numbers]
  apply Finset.sum_le_sum
  intro id _
  have shown := all id
  unfold pagesOf spaceIn
  generalize contexts[id]? = first at shown
  generalize contexts'[id]? = second at shown
  cases shown with
  | none => exact le_refl _
  | some shows => exact Finset.card_le_card shows.covers.domain

end Tables

/-! ## Loading -/

/-- An error that tells that the pool ran dry under a context. -/
def HostError.IsExhaustion (error : HostError) : Prop := ∃ id pc, error = .memoryExhausted id pc

namespace Loading

/-- How two loads of a program end alike, unless the first one runs out of frames. -/
inductive EndAlike (modes : ModeView) (around around' : Surroundings) :
    Except HostError Context × FramePool × Journal →
      Except HostError Context × FramePool × Journal → Prop where
  | loaded {context context' : Context} {pool pool' : FramePool} {journal journal' : Journal}
      (alike : context.Alike context') (covering : Memory.Covering modes around around'
        ⟨context.space, pool, .silent⟩ ⟨context'.space, pool', .silent⟩) :
      EndAlike modes around around' (.ok context, pool, journal) (.ok context', pool', journal')
  | failed {error : HostError} {pool pool' : FramePool} {journal journal' : Journal}
      (held : pool.HeldBy around) (held' : pool'.HeldBy around') :
      EndAlike modes around around' (.error error, pool, journal) (.error error, pool', journal')
  | exhausted {error : HostError} {pool : FramePool} {journal : Journal}
      {other : Except HostError Context × FramePool × Journal}
      (lacking : error.IsExhaustion) :
      EndAlike modes around around' (.error error, pool, journal) other

/-- **Loads into a pool and into one with no less room end alike**, in modes that compare. -/
theorem endAlike_load {modes : ModeView} {around around' : Surroundings}
    (room : around.Covers around') {pool pool' : FramePool} (held : pool.HeldBy around)
    (held' : pool'.HeldBy around') (id : ContextId) (image : Image) (options : LoadOptions)
    {mode : MemoryMode} (alike : modes.alike options.mode mode) (journal journal' : Journal) :
    EndAlike modes around around' (load id image options pool journal)
      (load id image { options with mode } pool' journal') := by
  unfold load
  rw [show layoutOf image { options with mode } = layoutOf image options from rfl]
  cases made : layoutOf image options with
  | error error => exact .failed held held'
  | ok layout =>
      have ordered := ordered_of_layoutOf made
      have start := held.sound_empty ordered options.mode journal
      have start' := held'.sound_empty ordered mode journal'
      have outcome := agrees_populate (Memory.respected_covering room)
        (Memory.agrees_mapEagerly_covering room) image options.arguments _ _
        ⟨start, start', rfl, alike, Finset.Subset.refl _, fun _ => rfl⟩
      dsimp only
      generalize populate image options.arguments ⟨.empty layout options.mode, pool, journal⟩ =
        first at outcome
      generalize populate image options.arguments ⟨.empty layout mode, pool', journal'⟩ =
        second at outcome
      cases outcome with
      | failure states => exact .failed states.leftSound.heldBy_freed states.rightSound.heldBy_freed
      | excuse reason =>
          exact .exhausted ⟨id, _, if_pos reason⟩
      | answer same states =>
          obtain ⟨sound, sound', covers⟩ := states
          subst same
          refine .loaded rfl ⟨?_, ?_, covers.layout, covers.mode, covers.domain, covers.bytes⟩
          · exact ⟨sound.consistent, sound.taken, sound.capacity, sound.contents,
              sound.permission, sound.layout⟩
          · exact ⟨sound'.consistent, sound'.taken, sound'.capacity, sound'.contents,
              sound'.permission, sound'.layout⟩

end Loading

namespace Interpreter

variable {modes : ModeView} {capacity : Nat} {left right : Interpreter} {id : ContextId}

/-! ## One context on two interpreters -/

/-- Sound interpreters of which the first covers the second at one context: it shows the same of it,
maps every page of it that the second maps, and leaves it no more room. -/
structure CoversAt (modes : ModeView) (capacity : Nat) (id : ContextId) (left right : Interpreter) :
    Prop where
  leftSound : left.Sound capacity
  rightSound : right.Sound capacity
  tracing : left.tracing = right.tracing
  shown : Option.Rel (ShowAlikeUpTo modes left.pool right.pool) left.contexts[id]?
    right.contexts[id]?
  room : (left.around capacity id).Covers (right.around capacity id)

/-- How a context is switched to on two interpreters: both refuse, or it runs alike on both, or the
first one runs out of frames. -/
inductive SwitchedAlike (modes : ModeView) (capacity : Nat) (id : ContextId)
    (left right : Interpreter) : EStateM.Result HostError Interpreter Trap →
      EStateM.Result HostError Interpreter Trap → Prop where
  | refused {error : HostError} :
      SwitchedAlike modes capacity id left right (.error error left) (.error error right)
  | exhausted {error : HostError} {after : Interpreter}
      {outcome : EStateM.Result HostError Interpreter Trap} (lacking : error.IsExhaustion) :
      SwitchedAlike modes capacity id left right (.error error after) outcome
  | ran {trap : Trap} {context context' : Context} {result result' : Hart.RunResult}
      (alike : (afterRun context result).Alike (afterRun context' result'))
      (covering : Memory.Covering modes (left.around capacity id) (right.around capacity id)
        result.memory result'.memory) :
      SwitchedAlike modes capacity id left right (.ok trap (left.keepTrap id context result))
        (.ok trap (right.keepTrap id context' result'))

namespace CoversAt

/-- The memories of the context on both sides. -/
theorem memory (states : CoversAt modes capacity id left right) {context context' : Context}
    (here : left.contexts[id]? = some context) (there : right.contexts[id]? = some context')
    (shows : ShowAlikeUpTo modes left.pool right.pool context context') :
    Memory.Covering modes (left.around capacity id) (right.around capacity id)
      (left.memoryOf context) (right.memoryOf context') := by
  obtain ⟨layout, mode, domain, bytes⟩ := shows.covers
  exact ⟨states.leftSound.memory here left.journal, states.rightSound.memory there right.journal,
    layout, mode, domain, bytes⟩

/-- **A context runs alike on both sides**, until the first one runs out of frames. -/
theorem switchedAlike (states : CoversAt modes capacity id left right) (quantum : Nat) :
    SwitchedAlike modes capacity id left right (switch id quantum left)
      (switch id quantum right) := by
  have shown := states.shown
  cases here : left.contexts[id]? with
  | none =>
      cases there : right.contexts[id]? with
      | none =>
          rw [switch_of_none here, switch_of_none there]
          exact .refused
      | some context' =>
          rw [here, there] at shown
          cases shown
  | some context =>
      cases there : right.contexts[id]? with
      | none =>
          rw [here, there] at shown
          cases shown
      | some context' =>
          rw [here, there] at shown
          obtain ⟨shows⟩ := shown
          by_cases exited : context.state = .exited
          · have exited' : context'.state = .exited := by rwa [shows.alike.state]
            rw [switch_of_exited here exited, switch_of_exited there exited', shows.alike.hart]
            exact .refused
          · have live : context'.state ≠ .exited := by rwa [shows.alike.state]
            have runs := Hart.run_agrees (Memory.respected_covering states.room) left.tracing
              quantum context.hart 0 (states.memory here there shows)
            have other : right.runOf context' quantum =
                context.hart.run left.tracing quantum 0 (right.memoryOf context') := by
              rw [runOf, shows.alike.hart, states.tracing]
            rw [← other] at runs
            generalize first : context.hart.run left.tracing quantum 0 (left.memoryOf context) =
              result at runs
            generalize second : right.runOf context' quantum = result' at runs
            have first : left.runOf context quantum = result := first
            cases runs with
            | excuse reason =>
                have ending : (left.runOf context quantum).ending = .outOfFrames := by
                  rw [first, reason]
                  rfl
                rw [switch_of_outOfFrames here exited ending]
                exact .exhausted ⟨_, _, rfl⟩
            | @same after retired memory memory' ending covering =>
                cases ending with
                | outOfFrames =>
                    rw [switch_of_outOfFrames here exited (by rw [first])]
                    exact .exhausted ⟨_, _, rfl⟩
                | trap trap =>
                    rw [switch_of_trap here exited (by rw [first]), first]
                    rw [switch_of_trap there live (by rw [second]), second]
                    refine .ran ?_ covering
                    rw [shows.alike.eq]
                    rfl

end CoversAt

/-! ## Interpreters that show the same -/

/-- Sound interpreters with the same contexts, which show the same, and the first maps every page
that the second maps. -/
structure Covers (modes : ModeView) (capacity : Nat) (left right : Interpreter) : Prop where
  leftSound : left.Sound capacity
  rightSound : right.Sound capacity
  nextId : left.nextId = right.nextId
  tracing : left.tracing = right.tracing
  contexts : AllShowAlike modes left.pool right.pool left.contexts right.contexts

namespace Covers

theorem refl (modes : ModeView) {machine : Interpreter} (sound : machine.Sound capacity) :
    Covers modes capacity machine machine := by
  refine ⟨sound, sound, rfl, rfl, ?_⟩
  intro id
  cases machine.contexts[id]? with
  | none => exact .none
  | some context => exact .some ⟨.refl context, (Memory.Covers.refl _).upTo modes⟩

/-- Where the modes are the same, contexts show the same without reserve. -/
theorem showAlike (states : Covers .same capacity left right) (id : ContextId) :
    Option.Rel (ShowAlike left.pool right.pool) left.contexts[id]? right.contexts[id]? := by
  have shown := states.contexts id
  generalize left.contexts[id]? = first at shown ⊢
  generalize right.contexts[id]? = second at shown ⊢
  cases shown with
  | none => exact .none
  | some shows => exact .some shows.showAlike

/-- A context that is found on one side is found on the other. -/
theorem found (states : Covers modes capacity left right) {context : Context}
    (here : left.contexts[id]? = some context) : ∃ context', right.contexts[id]? = some context' ∧
      ShowAlikeUpTo modes left.pool right.pool context context' := by
  have shown := states.contexts id
  rw [here] at shown
  generalize right.contexts[id]? = other at shown ⊢
  cases shown with
  | some shows => exact ⟨_, rfl, shows⟩

theorem missing (states : Covers modes capacity left right) (here : left.contexts[id]? = none) :
    right.contexts[id]? = none := by
  have shown := states.contexts id
  rw [here] at shown
  generalize right.contexts[id]? = other at shown ⊢
  cases shown
  rfl

theorem room (states : Covers modes capacity left right) (id : ContextId) :
    (left.around capacity id).Covers (right.around capacity id) :=
  ⟨(states.contexts.erase id).card_le, rfl⟩

theorem coversAt (states : Covers modes capacity left right) (id : ContextId) :
    CoversAt modes capacity id left right :=
  ⟨states.leftSound, states.rightSound, states.tracing, states.contexts id, states.room id⟩

theorem room_holdings (states : Covers modes capacity left right) :
    (left.holdings capacity).Covers (right.holdings capacity) :=
  ⟨states.contexts.card_le, rfl⟩

/-- The memories of a context on both sides. -/
theorem memory (states : Covers modes capacity left right) {context context' : Context}
    (here : left.contexts[id]? = some context) (there : right.contexts[id]? = some context') :
    Memory.Covering modes (left.around capacity id) (right.around capacity id)
      (left.memoryOf context) (right.memoryOf context') := by
  obtain ⟨other, found, shows⟩ := states.found here
  obtain rfl := Option.some.inj (there.symm.trans found)
  exact (states.coversAt id).memory here there shows

/-- The others show the same over pools that keep what they hold. -/
theorem others (states : Covers modes capacity left right) (id : ContextId)
    {after after' : FramePool}
    (kept : ∀ frame ∈ framesIn (left.contexts.erase id),
      after.contents frame = left.pool.contents frame)
    (kept' : ∀ frame ∈ framesIn (right.contexts.erase id),
      after'.contents frame = right.pool.contents frame) :
    AllShowAlike modes after after' (left.contexts.erase id) (right.contexts.erase id) :=
  (states.contexts.erase id).repool kept kept'

/-- **Covering is kept if the memories of one context go on to cover each other.** -/
theorem keepContext (states : Covers modes capacity left right) {memory memory' : Memory}
    {context context' : Context}
    (covering : Memory.Covering modes (left.around capacity id) (right.around capacity id) memory
      memory')
    (alike : context.Alike context') (space : context.space = memory.space)
    (space' : context'.space = memory'.space) :
    AllShowAlike modes memory.pool memory'.pool (left.contexts.insert id context)
      (right.contexts.insert id context') := by
  refine (states.others id covering.leftSound.contents covering.rightSound.contents).put
    ⟨alike, ?_⟩ (Table.getElem?_insert _ _ · _) (Table.getElem?_insert _ _ · _)
  rw [space, space']
  obtain ⟨layout, mode, domain, bytes⟩ := covering.covers
  exact ⟨layout, mode, domain, bytes⟩

/-- The contexts with a new one on each side, under the same number. -/
theorem adopt (states : Covers modes capacity left right) {after after' : FramePool}
    (kept : ∀ frame ∈ framesIn left.contexts, after.contents frame = left.pool.contents frame)
    (kept' : ∀ frame ∈ framesIn right.contexts,
      after'.contents frame = right.pool.contents frame)
    {context context' : Context} (shows : ShowAlikeUpTo modes after after' context context') :
    AllShowAlike modes after after' (left.contexts.insert left.nextId context)
      (right.contexts.insert right.nextId context') := by
  have others : AllShowAlike modes after after' (left.contexts.erase left.nextId)
      (right.contexts.erase left.nextId) := by
    apply states.others left.nextId
    · rw [framesIn_erase_of_none states.leftSound.unused]
      exact kept
    · rw [states.nextId, framesIn_erase_of_none states.rightSound.unused]
      exact kept'
  rw [← states.nextId]
  exact others.put shows (Table.getElem?_insert _ _ · _) (Table.getElem?_insert _ _ · _)

/-- Copies of contexts that show the same show the same. -/
theorem forked (id : ContextId) {source source' : Context}
    (shows : ShowAlikeUpTo modes left.pool right.pool source source') {memory memory' : Memory}
    (finish : Memory.Copied (left.holdings capacity) source.space memory)
    (finish' : Memory.Copied (right.holdings capacity) source'.space memory') :
    ShowAlikeUpTo modes memory.pool memory'.pool (forkOf id source memory.space)
      (forkOf id source' memory'.space) := by
  refine ⟨?_, ?_, ?_, ?_, fun address => ?_⟩
  · rw [shows.alike.eq]
    rfl
  · exact (finish.layout.trans shows.covers.layout).trans finish'.layout.symm
  · show modes.alike memory.space.mode memory'.space.mode
    rw [finish.mode, finish'.mode]
    exact shows.covers.mode
  · exact (finish'.domain.subset.trans shows.covers.domain).trans finish.domain.symm.subset
  · exact ((finish.bytes (fun _ _ => rfl) address).trans (shows.covers.bytes address)).trans
      (finish'.bytes (fun _ _ => rfl) address).symm

/-! ## Every operation -/

theorem create (states : Covers modes capacity left right) (image : Image) (options : LoadOptions)
    {mode : MemoryMode} (alike : modes.alike options.mode mode) :
    Agree HostError.IsExhaustion (Covers modes capacity) Eq (create image options left)
      (create image { options with mode } right) := by
  have sound := states.leftSound.create image options
  have sound' := states.rightSound.create image { options with mode }
  have ends := Loading.endAlike_load states.room_holdings states.leftSound.heldBy
    states.rightSound.heldBy left.nextId image options alike left.journal right.journal
  cases result : Loading.load left.nextId image options left.pool left.journal with
  | mk answer after =>
      cases result' : Loading.load left.nextId image { options with mode } right.pool
        right.journal with
      | mk answer' after' =>
          rw [result, result'] at ends
          rw [states.nextId] at result'
          cases ends with
          | exhausted lacking =>
              rw [create_of_error result]
              exact .excuse lacking
          | failed held held' =>
              rw [create_of_error result] at sound ⊢
              rw [create_of_error result'] at sound' ⊢
              refine .failure ⟨sound, sound', ?_, states.tracing, ?_⟩
              · exact congrArg (· + 1) states.nextId
              · exact states.contexts.repool held.contents held'.contents
          | loaded alike covering =>
              rw [create_of_ok result] at sound ⊢
              rw [create_of_ok result'] at sound' ⊢
              obtain ⟨layout, mode, domain, bytes⟩ := covering.covers
              refine .answer states.nextId ⟨sound, sound', ?_, states.tracing, ?_⟩
              · exact congrArg (· + 1) states.nextId
              · exact states.adopt covering.leftSound.contents covering.rightSound.contents
                  ⟨alike, layout, mode, domain, bytes⟩

/-- **A fork that the covering side can back is backed on both sides.** -/
theorem fork (states : Covers modes capacity left right) (parent : ContextId) :
    (∃ after, fork parent left = .ok none after) ∨
      Agree HostError.IsExhaustion (Covers modes capacity) Eq (fork parent left)
        (fork parent right) := by
  have sound := states.leftSound.fork parent
  have sound' := states.rightSound.fork parent
  cases here : left.contexts[parent]? with
  | none =>
      rw [fork_of_none here, fork_of_none (states.missing here)]
      exact .inr (.failure states)
  | some source =>
      obtain ⟨source', there, shows⟩ := states.found here
      have copying := states.leftSound.copying here
      have copying' := states.rightSound.copying there
      cases result : Memory.copyFrom source.space (left.blankCopy source) with
      | error fault memory =>
          rw [fork_of_error here result]
          exact .inl ⟨_, rfl⟩
      | ok answer memory =>
          right
          rw [result] at copying
          cases copying with
          | copied enough finish kept =>
              cases result' : Memory.copyFrom source'.space (right.blankCopy source') with
              | error fault memory' =>
                  rw [result'] at copying'
                  cases copying' with
                  | refused short =>
                      have pages := Finset.card_le_card shows.covers.domain
                      have frames := states.room_holdings.frames
                      have same : (left.holdings capacity).capacity =
                        (right.holdings capacity).capacity := rfl
                      dsimp only at pages
                      omega
              | ok answer' memory' =>
                  rw [result'] at copying'
                  cases copying' with
                  | copied enough' finish' kept' =>
                      rw [fork_of_ok here result] at sound ⊢
                      rw [fork_of_ok there result'] at sound' ⊢
                      refine .answer (congrArg some states.nextId) ⟨sound, sound', ?_,
                        states.tracing, ?_⟩
                      · exact congrArg (· + 1) states.nextId
                      · have adopted := states.adopt finish.sound.contents finish'.sound.contents
                          (forked parent shows finish finish')
                        rw [states.nextId] at adopted ⊢
                        exact adopted.modify parent fun _ _ => rfl

theorem release (states : Covers modes capacity left right) (id : ContextId) :
    Agree HostError.IsExhaustion (Covers modes capacity) (fun _ _ => True) (release id left)
      (release id right) := by
  have sound := states.leftSound.release id
  have sound' := states.rightSound.release id
  cases here : left.contexts[id]? with
  | none =>
      rw [release_of_none here, release_of_none (states.missing here)]
      exact .failure states
  | some context =>
      obtain ⟨context', there, shows⟩ := states.found here
      rw [release_of_some here] at sound ⊢
      rw [release_of_some there] at sound' ⊢
      have held := (states.leftSound.memory here left.journal).heldBy_freed
      have held' := (states.rightSound.memory there right.journal).heldBy_freed
      refine .answer trivial ⟨sound, sound', states.nextId, states.tracing, ?_⟩
      refine (states.others id held.contents held'.contents).put ?_
        (Table.getElem?_insert _ _ · _) (Table.getElem?_insert _ _ · _)
      obtain ⟨alike, layout, mode, -, -⟩ := shows
      refine ⟨?_, layout, mode, Finset.Subset.refl _, fun _ => rfl⟩
      rw [alike.eq]
      rfl

theorem destroy (states : Covers modes capacity left right) (id : ContextId) :
    Agree HostError.IsExhaustion (Covers modes capacity) Eq (destroy id left)
      (destroy id right) := by
  have sound := states.leftSound.destroy id
  have sound' := states.rightSound.destroy id
  cases here : left.contexts[id]? with
  | none =>
      rw [destroy_of_none here, destroy_of_none (states.missing here)]
      exact .failure states
  | some context =>
      obtain ⟨context', there, shows⟩ := states.found here
      rw [destroy_of_some here] at sound ⊢
      rw [destroy_of_some there] at sound' ⊢
      have held := (states.leftSound.memory here left.journal).heldBy_freed
      have held' := (states.rightSound.memory there right.journal).heldBy_freed
      refine .answer rfl ⟨sound, sound', states.nextId, states.tracing, ?_⟩
      exact (states.others id held.contents held'.contents).unlink id shows.alike

theorem switch (states : Covers modes capacity left right) (id : ContextId) (quantum : Nat) :
    Agree HostError.IsExhaustion (Covers modes capacity) Eq (switch id quantum left)
      (switch id quantum right) := by
  have sound := states.leftSound.switch id quantum
  have sound' := states.rightSound.switch id quantum
  have outcome := (states.coversAt id).switchedAlike quantum
  generalize Interpreter.switch id quantum left = result at outcome sound
  generalize Interpreter.switch id quantum right = result' at outcome sound'
  cases outcome with
  | refused => exact .failure states
  | exhausted lacking => exact .excuse lacking
  | ran alike covering =>
      exact .answer rfl ⟨sound, sound', states.nextId, states.tracing,
        states.keepContext covering alike rfl rfl⟩

/-! ## Bookkeeping -/

theorem modifyContext (states : Covers modes capacity left right) (id : ContextId)
    {change : Context → Context} (blind : Context.SpaceBlind change) :
    Covers modes capacity (left.modifyContext id change) (right.modifyContext id change) where
  leftSound := states.leftSound.modifyContext blind.space
  rightSound := states.rightSound.modifyContext blind.space
  nextId := states.nextId
  tracing := states.tracing
  contexts := states.contexts.modify id blind

/-- Journals do not matter. -/
theorem journals (states : Covers modes capacity left right) (journal journal' : Journal) :
    Covers modes capacity { left with journal } { right with journal := journal' } where
  leftSound := states.leftSound.congr rfl (fun _ => rfl) le_rfl
  rightSound := states.rightSound.congr rfl (fun _ => rfl) le_rfl
  nextId := states.nextId
  tracing := states.tracing
  contexts := states.contexts

/-! ## Accesses to the memory of one context -/

/-- Memories of a context that cover each other are kept on both sides. -/
theorem keepMemory (states : Covers modes capacity left right) {context context' : Context}
    (here : left.contexts[id]? = some context) (there : right.contexts[id]? = some context')
    {memory memory' : Memory} (covering : Memory.Covering modes (left.around capacity id)
      (right.around capacity id) memory memory') :
    Covers modes capacity (left.keepMemory id context memory)
      (right.keepMemory id context' memory') := by
  obtain ⟨other, found, shows⟩ := states.found here
  obtain rfl := Option.some.inj (there.symm.trans found)
  refine ⟨states.leftSound.keepMemory here covering.leftSound,
    states.rightSound.keepMemory there covering.rightSound, states.nextId, states.tracing, ?_⟩
  refine states.keepContext covering ?_ rfl rfl
  rw [shows.alike.eq]
  rfl

/-- **An access has the same answer on both sides**, unless the answer is a special one. -/
theorem withMemory (states : Covers modes capacity left right) {action : MemoryAction α}
    {special : Except Fault α → Prop} (covered : Memory.CoveredUnless special action)
    (id : ContextId) :
    (∃ answer, (left.withMemory id action).1 = some answer ∧ special answer) ∨
      (left.withMemory id action).1 = (right.withMemory id action).1 ∧
        Covers modes capacity (left.withMemory id action).2 (right.withMemory id action).2 := by
  cases here : left.contexts[id]? with
  | none =>
      rw [withMemory_of_none here, withMemory_of_none (states.missing here)]
      exact .inr ⟨rfl, states⟩
  | some context =>
      obtain ⟨context', there, shows⟩ := states.found here
      have outcome := covered _ _ _ (states.room id) _ _ (states.memory here there)
      rw [withMemory_of_some here, withMemory_of_some there]
      rcases outcome with named | outcome
      · exact .inl ⟨_, rfl, named⟩
      · right
        generalize action (left.memoryOf context) = first at outcome
        generalize action (right.memoryOf context') = second at outcome
        cases outcome with
        | answer same covering =>
            rw [same]
            exact ⟨rfl, states.keepMemory here there covering⟩
        | failure covering => exact ⟨rfl, states.keepMemory here there covering⟩
        | excuse reason => exact reason.elim

/-- **What only looks on the covering side goes unnoticed.** -/
theorem peeked (states : Covers modes capacity left right) {action : MemoryAction α}
    (id : ContextId)
    (looks : ∀ context, left.contexts[id]? = some context →
      Memory.Peeked (left.around capacity id) (left.memoryOf context)
        (finalState (action (left.memoryOf context)))) :
    Covers modes capacity (left.withMemory id action).2 right := by
  cases here : left.contexts[id]? with
  | none =>
      rw [withMemory_of_none here]
      exact states
  | some context =>
      obtain ⟨context', there, shows⟩ := states.found here
      have covering := states.memory here there
      have peeked := looks context here
      rw [withMemory_of_some here]
      dsimp only
      generalize finalState (action (left.memoryOf context)) = memory at peeked
      obtain ⟨layout, mode, domain, bytes⟩ := peeked.covers.trans_upTo covering.covers
      refine ⟨states.leftSound.keepMemory here peeked.sound, states.rightSound, states.nextId,
        states.tracing, ?_⟩
      have others : AllShowAlike modes memory.pool right.pool (left.contexts.erase id)
          (right.contexts.erase id) := states.others id peeked.sound.contents fun _ _ => rfl
      have alike : Context.Alike { context with space := memory.space } context' := by
        rw [shows.alike.eq]
        rfl
      have after : ShowAlikeUpTo modes memory.pool right.pool { context with space := memory.space }
          context' := ⟨alike, layout, mode, domain, bytes⟩
      refine others.put after (Table.getElem?_insert _ _ · _) fun other => ?_
      split
      · rename_i same
        rw [← same, there]
      · rfl

/-- Looking on the covering side goes unnoticed. -/
theorem peek (states : Covers modes capacity left right) {action : MemoryAction α}
    (peeking : Memory.Peeking action) (id : ContextId) :
    Covers modes capacity (left.withMemory id action).2 right :=
  states.peeked id fun _ here => peeking _ _ (states.leftSound.memory here left.journal)

end Covers

end Interpreter

end NestedMachine
