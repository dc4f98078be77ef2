import NestedMachine.Proofs.Memory.Break

/-!
# Memories that show the same

A guest sees the layout and the bytes of its memory, and not which pages are mapped.  One memory
covers another if both show the same and it maps every page that the other one maps (`Covers`).
Whatever the covered memory still needs frames for, the covering one needs frames for as well.  So
if those around the covered memory hold no more frames than those around the other, accesses to the
two agree until the covering one runs out of frames (`respected_covering`).

A guest does not see the memory mode of its address space either.  So the modes may differ as well,
as long as the covering memory maps its pages at once wherever the covered one does
(`CoversUpTo`, for a comparison of modes).

An access that only looks maps pages at most, so the memory after it covers what the memory before
it covers (`Peeking`).
-/

namespace NestedMachine

set_option autoImplicit false

/-- A comparison of memory modes, in which an address space that maps its pages at once is matched
by none that does not. -/
structure ModeView where
  alike : MemoryMode → MemoryMode → Prop
  refl : ∀ mode, alike mode mode
  eager : ∀ {mode mode'}, alike mode mode' → mode' = .fullyMapped → mode = .fullyMapped

namespace ModeView

/-- Modes that are the same. -/
def same : ModeView where
  alike := Eq
  refl _ := rfl
  eager := Eq.trans

/-- Modes of which the first is no lazier than the second. -/
def noLazier : ModeView where
  alike mode mode' := mode' = .fullyMapped → mode = .fullyMapped
  refl _ := id
  eager := id

end ModeView

/-- Surroundings that leave no more room than others do. -/
structure Surroundings.Covers (around around' : Surroundings) : Prop where
  frames : around'.frames.card ≤ around.frames.card
  capacity : around'.capacity = around.capacity

namespace Memory

variable {modes : ModeView} {around around' : Surroundings} {left right : Memory}

/-- Memories that show the same, of which the first maps every page that the second maps. -/
structure Covers (left right : Memory) : Prop where
  layout : left.space.layout = right.space.layout
  mode : left.space.mode = right.space.mode
  domain : right.space.table.domain ⊆ left.space.table.domain
  bytes : ∀ address, left.byteAt address = right.byteAt address

theorem Covers.refl (memory : Memory) : Covers memory memory :=
  ⟨rfl, rfl, Finset.Subset.refl _, fun _ => rfl⟩

theorem Covers.trans {other : Memory} (first : Covers left right) (second : Covers right other) :
    Covers left other where
  layout := first.layout.trans second.layout
  mode := first.mode.trans second.mode
  domain := second.domain.trans first.domain
  bytes address := (first.bytes address).trans (second.bytes address)

/-- Memories that cover each other up to their modes. -/
structure CoversUpTo (modes : ModeView) (left right : Memory) : Prop where
  layout : left.space.layout = right.space.layout
  mode : modes.alike left.space.mode right.space.mode
  domain : right.space.table.domain ⊆ left.space.table.domain
  bytes : ∀ address, left.byteAt address = right.byteAt address

theorem Covers.upTo (covers : Covers left right) (modes : ModeView) :
    CoversUpTo modes left right :=
  ⟨covers.layout, covers.mode ▸ modes.refl _, covers.domain, covers.bytes⟩

theorem CoversUpTo.covers (covers : CoversUpTo .same left right) : Covers left right :=
  ⟨covers.layout, covers.mode, covers.domain, covers.bytes⟩

/-- What covers a memory of the same mode covers whatever that one covers. -/
theorem Covers.trans_upTo {other : Memory} (first : Covers left right)
    (second : CoversUpTo modes right other) : CoversUpTo modes left other where
  layout := first.layout.trans second.layout
  mode := first.mode ▸ second.mode
  domain := second.domain.trans first.domain
  bytes address := (first.bytes address).trans (second.bytes address)

theorem CoversUpTo.bytesAt (covers : CoversUpTo modes left right) (address size : Nat) :
    left.bytesAt address size = right.bytesAt address size :=
  List.map_congr_left fun _ _ => covers.bytes _

/-- Memories that show the same, each sound in its surroundings. -/
structure Covering (modes : ModeView) (around around' : Surroundings) (left right : Memory) :
    Prop where
  leftSound : left.Sound around
  rightSound : right.Sound around'
  covers : CoversUpTo modes left right

/-! ## Room for pages -/

/-- Pages that fit into the covering memory fit into the covered one. -/
theorem Covering.fit (states : Covering modes around around' left right)
    (room : around.Covers around') {pages : Finset Nat}
    (enough : (left.space.table.domain ∪ pages).card + around.frames.card ≤ around.capacity) :
    (right.space.table.domain ∪ pages).card + around'.frames.card ≤ around'.capacity := by
  have fewer : (right.space.table.domain ∪ pages).card ≤ (left.space.table.domain ∪ pages).card :=
    Finset.card_le_card (Finset.union_subset_union_left states.covers.domain)
  have frames := room.frames
  have capacity := room.capacity
  omega

/-- A page that the covering memory could map finds a frame in the covered one. -/
theorem Covering.not_exhausted (states : Covering modes around around' left right)
    (room : around.Covers around') {page : Nat} {after : Memory} (sound : after.Sound around)
    (domain : after.space.table.domain = insert page left.space.table.domain)
    (missing : right.space.table[page]? = none) : right.pool.available ≠ 0 := by
  intro exhausted
  have bound := sound.card_le
  rw [domain, Finset.insert_eq, Finset.union_comm] at bound
  have fits := states.fit room bound
  rw [Finset.union_comm, ← Finset.insert_eq,
    Finset.card_insert_of_notMem (PageTable.notMem_domain.mpr missing)] at fits
  rw [states.rightSound.available_eq] at exhausted
  omega

/-! ## Accesses agree -/

/-- Touching a page on both sides. -/
theorem Covering.touched (states : Covering modes around around' left right) {page : Nat}
    {after after' : Memory} (touched : Touched around page left after)
    (touched' : Touched around' page right after') :
    Covering modes around around' after after' := by
  refine ⟨touched.sound, touched'.sound, ?_, ?_, ?_, fun address => ?_⟩
  · rw [touched.layout, touched'.layout, states.covers.layout]
  · rw [touched.mode, touched'.mode]
    exact states.covers.mode
  · rw [touched.domain, touched'.domain]
    exact Finset.insert_subset_insert page states.covers.domain
  · rw [touched.bytes, touched'.bytes, states.covers.bytes]

/-- Writing the same bytes on both sides. -/
theorem Covering.written (states : Covering modes around around' left right) {address : Nat}
    {bytes : Bytes} {after after' : Memory} (written : Written around address bytes left after)
    (written' : Written around' address bytes right after') :
    Covering modes around around' after after' := by
  refine ⟨written.sound, written'.sound, ?_, ?_, ?_, fun place => ?_⟩
  · rw [written.layout, written'.layout, states.covers.layout]
  · rw [written.mode, written'.mode]
    exact states.covers.mode
  · rw [written.domain, written'.domain]
    exact Finset.insert_subset_insert _ states.covers.domain
  · rw [written.bytes, written'.bytes, states.covers.bytes]

/-- **Accesses to one page agree**, if what is done agrees when both are done. -/
theorem Covering.accessed {α : Type} (states : Covering modes around around' left right)
    (room : around.Covers around') {address : Nat} {access : Access}
    {done done' : α → Memory → Prop} {result result' : EStateM.Result Fault Memory α}
    (accessed : Accessed around address access left done result)
    (accessed' : Accessed around' address access right done' result')
    (mapped : ∀ answer after, done answer after → after.Sound around ∧
      after.space.table.domain = insert (pageOf address) left.space.table.domain)
    (same : ∀ answer after answer' after', done answer after → done' answer' after' →
      answer = answer' ∧ Covering modes around around' after after') :
    Agree (· = .outOfFrames) (Covering modes around around') Eq result result' := by
  have layout := states.covers.layout
  cases accessed with
  | exhausted allowed missing empty => exact .excuse rfl
  | denied reason =>
      rw [layout] at reason
      cases accessed' with
      | denied reason' =>
          obtain rfl := Except.error.inj (reason.symm.trans reason')
          exact .failure states
      | exhausted allowed' => cases reason.symm.trans allowed'
      | locked allowed' => cases reason.symm.trans allowed'
      | done allowed' => cases reason.symm.trans allowed'
  | locked allowed lock touched =>
      rw [layout] at allowed lock
      cases accessed' with
      | denied reason' => cases allowed.symm.trans reason'
      | exhausted allowed' missing' empty' =>
          exact absurd empty' (states.not_exhausted room touched.sound touched.domain missing')
      | locked allowed' lock' touched' => exact .failure (states.touched touched touched')
      | done allowed' unlocked' finish' => exact absurd lock unlocked'
  | done allowed unlocked finish =>
      rw [layout] at allowed unlocked
      cases accessed' with
      | denied reason' => cases allowed.symm.trans reason'
      | exhausted allowed' missing' empty' =>
          obtain ⟨sound, domain⟩ := mapped _ _ finish
          exact absurd empty' (states.not_exhausted room sound domain missing')
      | locked allowed' lock' touched' => exact absurd lock' unlocked
      | done allowed' unlocked' finish' =>
          obtain ⟨answers, after⟩ := same _ _ _ _ finish finish'
          exact .answer answers after

theorem Covering.agree_touch (states : Covering modes around around' left right)
    (room : around.Covers around') (page : Nat) : Agree (· = .outOfFrames)
      (Covering modes around around') Eq (touch page left) (touch page right) := by
  have mapping := states.leftSound.ensureMapped page
  have mapping' := states.rightSound.ensureMapped page
  show Agree _ _ Eq (EStateM.bind (Memory.ensureMapped page) _ left)
    (EStateM.bind (Memory.ensureMapped page) _ right)
  rw [EStateM.bind, EStateM.bind]
  generalize Memory.ensureMapped page left = result at mapping
  generalize Memory.ensureMapped page right = result' at mapping'
  cases mapping with
  | exhausted missing empty => exact .excuse rfl
  | mapped touched found =>
      cases mapping' with
      | mapped touched' found' => exact .answer rfl (states.touched touched touched')
      | exhausted missing' empty' =>
          exact absurd empty' (states.not_exhausted room touched.sound touched.domain missing')

/-! ## The program break -/

theorem pagesAfter_subset (layout : Layout) {mode mode' : MemoryMode}
    (alike : modes.alike mode mode') (programBreak : Nat) {pages pages' : Finset Nat}
    (subset : pages' ⊆ pages) :
    pagesAfter layout mode' programBreak pages' ⊆ pagesAfter layout mode programBreak pages := by
  simp only [pagesAfter]
  split
  · by_cases full' : mode' = .fullyMapped
    · rw [if_pos full', if_pos (modes.eager alike full')]
      exact Finset.union_subset_union_left subset
    · rw [if_neg full']
      split
      · exact subset.trans Finset.subset_union_left
      · exact subset
  · exact Finset.sdiff_subset_sdiff subset (Finset.Subset.refl _)

/-- Moving the program break on both sides. -/
theorem Covering.breakMoved (states : Covering modes around around' left right)
    {programBreak : Nat} {after after' : Memory}
    (moved : BreakMoved around programBreak left after)
    (moved' : BreakMoved around' programBreak right after') :
    Covering modes around around' after after' := by
  refine ⟨moved.sound, moved'.sound, ?_, ?_, ?_, fun address => ?_⟩
  · rw [moved.layout, moved'.layout, states.covers.layout]
  · rw [moved.mode, moved'.mode]
    exact states.covers.mode
  · rw [moved.domain, moved'.domain, states.covers.layout]
    exact pagesAfter_subset _ states.covers.mode _ states.covers.domain
  · rw [moved.bytes, moved'.bytes, states.covers.layout, states.covers.bytes]

theorem Covering.agree_setProgramBreak (states : Covering modes around around' left right)
    (room : around.Covers around') (programBreak : Nat) :
    Agree (· = .outOfFrames) (Covering modes around around') Eq (setProgramBreak programBreak left)
      (setProgramBreak programBreak right) := by
  have request := states.leftSound.setProgramBreak programBreak
  have request' := states.rightSound.setProgramBreak programBreak
  have layout := states.covers.layout
  generalize setProgramBreak programBreak left = result at request
  generalize setProgramBreak programBreak right = result' at request'
  cases request with
  | refused inside short => exact .excuse rfl
  | outside reason =>
      rw [layout] at reason
      cases request' with
      | outside reason' => exact .failure states
      | refused inside' short' => exact absurd reason inside'
      | moved inside' backed' finish' => exact absurd reason inside'
  | moved inside backed finish =>
      rw [layout] at inside
      cases request' with
      | outside reason' => exact absurd reason' inside
      | moved inside' backed' finish' => exact .answer rfl (states.breakMoved finish finish')
      | refused inside' short' =>
          refine absurd ?_ short'
          intro rises
          unfold BreakBacked at backed
          rw [layout] at backed
          exact states.fit room (backed rises)

/-- **Accesses agree until the covering memory runs out of frames.** -/
theorem respected_covering (room : around.Covers around') :
    Respected (· = .outOfFrames) (Covering modes around around') where
  layout states := states.covers.layout
  read address access size fits left right states := by
    refine states.accessed room (states.leftSound.readWithin access fits)
      (states.rightSound.readWithin access fits)
      (fun answer after finish => ⟨finish.1.sound, finish.1.domain⟩) ?_
    rintro _ after _ after' ⟨touched, rfl⟩ ⟨touched', rfl⟩
    exact ⟨states.covers.bytesAt address size, states.touched touched touched'⟩
  write address access bytes fits left right states := by
    refine states.accessed room (states.leftSound.writeWithin access fits)
      (states.rightSound.writeWithin access fits)
      (fun answer after finish => ⟨finish.sound, finish.domain⟩) ?_
    intro _ after _ after' written written'
    exact ⟨rfl, states.written written written'⟩
  touch page left right states := states.agree_touch room page
  setProgramBreak programBreak left right states := states.agree_setProgramBreak room programBreak
  jot note left right states := by
    obtain ⟨sound, sound', covers⟩ := states
    refine .answer rfl ⟨?_, ?_, ?_⟩
    · exact ⟨sound.consistent, sound.taken, sound.capacity, sound.contents, sound.permission,
        sound.layout⟩
    · exact ⟨sound'.consistent, sound'.taken, sound'.capacity, sound'.contents, sound'.permission,
        sound'.layout⟩
    · exact ⟨covers.layout, covers.mode, covers.domain, covers.bytes⟩

/-! ## Pages that are mapped at once -/

/-- Touching a page on the covering side only. -/
theorem Covering.touchedLeft (states : Covering modes around around' left right) {page : Nat}
    {after : Memory} (touched : Touched around page left after) :
    Covering modes around around' after right := by
  refine ⟨touched.sound, states.rightSound, ?_, ?_, ?_, fun address => ?_⟩
  · rw [touched.layout, states.covers.layout]
  · rw [touched.mode]
    exact states.covers.mode
  · rw [touched.domain]
    exact states.covers.domain.trans (Finset.subset_insert _ _)
  · rw [touched.bytes, states.covers.bytes]

theorem agrees_touch_pure (page : Nat) :
    Agrees (· = .outOfFrames) (Covering modes around around') Eq (touch page) (pure ()) := by
  intro left right states
  have mapping := states.leftSound.ensureMapped page
  show Agree _ _ Eq (EStateM.bind (Memory.ensureMapped page) _ left) _
  rw [EStateM.bind]
  generalize Memory.ensureMapped page left = result at mapping
  cases mapping with
  | exhausted missing empty => exact .excuse rfl
  | mapped touched found => exact .answer rfl (states.touchedLeft touched)

theorem agrees_ensureAllMapped_pure (pages : List Nat) : Agrees (· = .outOfFrames)
    (Covering modes around around') Eq (ensureAllMapped pages) (pure ()) := by
  induction pages with
  | nil => exact .pure rfl
  | cons page rest ih =>
      rw [ensureAllMapped_cons]
      exact (agrees_touch_pure page).bind fun _ _ _ => ih

/-- **Pages that are mapped at once are mapped on both sides**, or on the covering side only. -/
theorem agrees_mapEagerly_covering (room : around.Covers around') :
    Agrees (· = .outOfFrames) (Covering modes around around') Eq mapEagerly mapEagerly := by
  apply Agrees.get_bind
  intro left right states
  by_cases full' : right.space.mode = .fullyMapped
  · rw [if_pos full', if_pos (modes.eager states.covers.mode full')]
    exact Congruent.mapAll.agrees (respected_covering room)
  · rw [if_neg full']
    split
    · exact .get_bind fun left _ _ => agrees_ensureAllMapped_pure left.space.layout.pages
    · exact .pure rfl

/-! ## Actions -/

/-- Actions that agree with themselves where one memory covers another, unless the answer of the
covering side is a special one. -/
def CoveredUnless {α : Type} (special : Except Fault α → Prop) (action : MemoryAction α) : Prop :=
  ∀ (modes : ModeView) (around around' : Surroundings), around.Covers around' →
    ∀ left right : Memory, Covering modes around around' left right →
      special (answerOf (action left)) ∨
        Agree (fun _ => False) (Covering modes around around') Eq (action left) (action right)

/-- Congruent actions agree unless a frame is lacking. -/
theorem Congruent.coveredUnless {α : Type} {action : MemoryAction α}
    (congruent : Congruent action) : CoveredUnless (· = .error .outOfFrames) action := by
  intro modes around around' room left right states
  have outcome := congruent.agrees (respected_covering room) left right states
  generalize action left = result at outcome
  generalize action right = result' at outcome
  cases outcome with
  | answer same states' => exact .inr (.answer same states')
  | failure states' => exact .inr (.failure states')
  | excuse reason =>
      left
      exact congrArg Except.error reason

end Memory

end NestedMachine
