import NestedMachine.Proofs.Machine.Fetching

/-!
# Code stays as it was loaded

A memory carries an image if its code segment is that of the image: of the same size, mapped
throughout, and showing the same bytes (`Memory.Carries`).  Then the word that is fetched from an
aligned address in the segment is the instruction of the image (`Memory.Carries.fetch`).

A loader writes into pages that nobody else may write, and it writes the code first: what it writes
afterwards lies above (`Loading.carries_of_populate`).  A guest and its supervisor do not write what
is locked (`Memory.guarded_carries`), the program break moves above the code
(`Memory.keeps_carries_setProgramBreak`), and a copy shows what its source shows
(`Memory.Copied.carries`).  So the code is an heirloom (`Memory.heirloom_carries`): no operation
takes it from a context, except for giving back its memory, and a copy of a context that has it has
it too.  It begins with the loading of a program (`Interpreter.Sound.carries_of_create`).
-/

namespace NestedMachine

set_option autoImplicit false

/-- The instruction word at an offset into the code of an image. -/
def Image.wordAt (image : Image) (offset : Nat) : Word :=
  BitVec.ofNat 32 (Bytes.toNat ((image.code.drop offset).take Instruction.size))

namespace Memory

variable {α : Type} {around : Surroundings} {memory before after : Memory} {image : Image}

/-- A code segment that is the code of an image: a whole number of instructions, on mapped pages,
byte by byte. -/
structure Carries (image : Image) (memory : Memory) : Prop where
  whole : image.code.length % Instruction.size = 0
  codeEnd : memory.space.layout.codeEnd = image.codeEnd
  mapped : ∀ address, codeStart ≤ address → address < image.codeEnd →
    pageOf address ∈ memory.space.table.domain
  bytes : ∀ offset byte, image.code[offset]? = some byte →
    memory.byteAt (codeStart + offset) = byte

theorem lt_codeEnd {offset : Nat} {byte : UInt8} (found : image.code[offset]? = some byte) :
    codeStart + offset < image.codeEnd :=
  Nat.add_lt_add_left (List.getElem?_eq_some_iff.mp found).1 codeStart

namespace Carries

/-! ## Fetching -/

theorem bytesAt (carries : memory.Carries image) {offset : Nat}
    (inside : offset + Instruction.size ≤ image.code.length) :
    memory.bytesAt (codeStart + offset) Instruction.size =
      (image.code.drop offset).take Instruction.size := by
  apply List.ext_getElem?
  intro place
  rw [Memory.bytesAt, List.getElem?_map]
  by_cases within : place < Instruction.size
  · rw [List.getElem?_range within, List.getElem?_take_of_lt within, List.getElem?_drop]
    have there := List.getElem?_eq_getElem (show offset + place < image.code.length by omega)
    rw [there, Option.map_some, Nat.add_assoc]
    exact congrArg some (carries.bytes _ _ there)
  · rw [List.getElem?_eq_none (by simpa using within),
      List.getElem?_eq_none (by rw [List.length_take]; omega)]
    rfl

/-- The instructions of the image can be fetched. -/
theorem fetchable (carries : memory.Carries image) {pc : Nat} (above : codeStart ≤ pc)
    (below : pc < image.codeEnd) (aligned : isAligned pc Instruction.size = true) :
    memory.Fetchable pc (image.wordAt (pc - codeStart)) := by
  refine ⟨aligned, above, below.trans_eq carries.codeEnd.symm, carries.mapped pc above below, ?_⟩
  obtain ⟨offset, rfl⟩ := Nat.exists_eq_add_of_le above
  have inside : offset + Instruction.size ≤ image.code.length := by
    have whole := carries.whole
    simp only [isAligned, beq_iff_eq, Instruction.size, codeStart, Image.codeEnd] at *
    omega
  rw [carries.bytesAt inside, Nat.add_sub_cancel_left]
  rfl

/-- **Fetching from the code segment gives the instructions of the image.** -/
theorem fetch (carries : memory.Carries image) (sound : memory.Sound around) {pc : Nat}
    (above : codeStart ≤ pc) (below : pc < image.codeEnd)
    (aligned : isAligned pc Instruction.size = true) :
    answerOf (Memory.fetch pc memory) = .ok (image.wordAt (pc - codeStart)) := by
  obtain ⟨after, fetched, -⟩ := (carries.fetchable above below aligned).fetch sound
  rw [fetched]
  rfl

/-! ## What leaves code alone -/

/-- Mapping a page cannot be seen. -/
theorem of_touched {page : Nat} (carries : before.Carries image)
    (touched : Touched around page before after) : after.Carries image where
  whole := carries.whole
  codeEnd := touched.layout ▸ carries.codeEnd
  mapped address above below := by
    rw [touched.domain]
    exact Finset.mem_insert_of_mem (carries.mapped address above below)
  bytes offset byte found := (touched.bytes _).trans (carries.bytes offset byte found)

/-- What is written above the code is not written into it. -/
theorem of_written {address : Nat} {bytes : Bytes} (carries : before.Carries image)
    (written : Written around address bytes before after) (above : image.codeEnd ≤ address) :
    after.Carries image where
  whole := carries.whole
  codeEnd := written.layout ▸ carries.codeEnd
  mapped place above below := by
    rw [written.domain]
    exact Finset.mem_insert_of_mem (carries.mapped place above below)
  bytes offset byte found := by
    rw [written.bytes, if_neg]
    · exact carries.bytes offset byte found
    · exact fun inside => absurd inside.1 (not_le.mpr ((lt_codeEnd found).trans_le above))

/-- The journal does not matter. -/
theorem of_noted {space : AddressSpace} {pool : FramePool} {journal journal' : Journal}
    (carries : Carries image ⟨space, pool, journal⟩) : Carries image ⟨space, pool, journal'⟩ :=
  ⟨carries.whole, carries.codeEnd, carries.mapped, carries.bytes⟩

/-- The same space over a pool in which its frames hold the same. -/
theorem of_contents {space : AddressSpace} {pool pool' : FramePool} {journal journal' : Journal}
    (carries : Carries image ⟨space, pool, journal⟩)
    (same : ∀ address, byteAt ⟨space, pool', journal'⟩ address =
      byteAt ⟨space, pool, journal⟩ address) : Carries image ⟨space, pool', journal'⟩ :=
  ⟨carries.whole, carries.codeEnd, carries.mapped,
    fun offset byte found => (same _).trans (carries.bytes offset byte found)⟩

end Carries

/-- What a context can rely on: its code segment shows the bytes of an image, the instructions of
the image are fetched from it, and its pages, and no others, are read-only. -/
structure Intact (image : Image) (memory : Memory) : Prop where
  codeEnd : memory.space.layout.codeEnd = image.codeEnd
  bytes : ∀ offset byte, image.code[offset]? = some byte →
    memory.byteAt (codeStart + offset) = byte
  fetches : ∀ pc, codeStart ≤ pc → pc < image.codeEnd → isAligned pc Instruction.size = true →
    answerOf (Memory.fetch pc memory) = .ok (image.wordAt (pc - codeStart))
  permissions : ∀ (page : Nat) (entry : PageEntry), memory.space.table[page]? = some entry →
    (entry.permission = .readOnly ↔ pageAddress page < image.codeEnd)

theorem Carries.intact (carries : memory.Carries image) (sound : memory.Sound around) :
    memory.Intact image where
  codeEnd := carries.codeEnd
  bytes := carries.bytes
  fetches _ above below aligned := carries.fetch sound above below aligned
  permissions page entry found := by
    rw [sound.permission page entry found, AddressSpace.permissionOf, carries.codeEnd]
    split
    · rename_i low
      exact iff_of_true rfl low
    · rename_i high
      exact iff_of_false (by rintro ⟨⟩) high

/-- **Guests do not write into code.** -/
theorem guarded_carries (around : Surroundings) (image : Image) :
    Guarded fun memory => memory.Sound around ∧ memory.Carries image := by
  apply guarded_of_sound
  · exact fun page before after touched carries => carries.of_touched touched
  · intro address bytes before after unlocked written carries
    exact carries.of_written written (carries.codeEnd ▸ codeEnd_le_of_unlocked unlocked)
  · exact fun _ _ _ _ carries => carries.of_noted

/-- **The program break moves above the code.** -/
theorem keeps_carries_setProgramBreak (programBreak : Nat) :
    Keeps (fun memory => memory.Sound around ∧ memory.Carries image)
      (setProgramBreak programBreak) := by
  rintro memory ⟨sound, carries⟩
  have request := sound.setProgramBreak programBreak
  generalize setProgramBreak programBreak memory = result at request
  cases request with
  | outside reason => exact ⟨sound, carries⟩
  | refused inside short => exact ⟨sound, carries⟩
  | moved inside backed moved =>
      have high (address : Nat) (below : address < image.codeEnd) :=
        pageOf_lt_heapTop sound.layout (carries.codeEnd ▸ below) programBreak
      refine ⟨moved.sound, carries.whole, ?_, fun address above below => ?_,
        fun offset byte found => ?_⟩
      · rw [moved.layout]
        exact carries.codeEnd
      · have there := carries.mapped address above below
        rw [moved.domain, pagesAfter]
        split
        · split
          · exact Finset.mem_union_left _ there
          · exact there
        · refine Finset.mem_sdiff.mpr ⟨there, fun freed => ?_⟩
          exact absurd (Finset.mem_Ico.mp freed).1 (not_le.mpr (high address below))
      · rw [moved.bytes, if_neg]
        · exact carries.bytes offset byte found
        · exact fun freed => absurd freed.1 (not_le.mpr (high _ (lt_codeEnd found)))

/-- **A copy has the code of its source.** -/
theorem Copied.carries {source : AddressSpace} {pool : FramePool} {journal : Journal}
    (copied : Copied around source after)
    (contents : ∀ frame ∈ source.table.frames, around.contents frame = pool.contents frame)
    (carries : Carries image ⟨source, pool, journal⟩) : after.Carries image where
  whole := carries.whole
  codeEnd := copied.layout ▸ carries.codeEnd
  mapped address above below := copied.domain ▸ carries.mapped address above below
  bytes offset byte found :=
    Eq.trans (copied.bytes contents _) (carries.bytes offset byte found)

/-- **Code is an heirloom.** -/
theorem heirloom_carries (image : Image) : Heirloom (Carries image) where
  seen carries shows := carries.of_contents shows
  checked around := (guarded_carries around image).toChecked
  mapAll around := (guarded_carries around image).mapAll
  setProgramBreak _ := keeps_carries_setProgramBreak
  copied copied contents carries := copied.carries contents carries

/-! ## Loading -/

/-- A memory after bytes were put into a range, on pages that are mapped now. -/
structure Stored (around : Surroundings) (address : Nat) (bytes : Bytes)
    (before after : Memory) : Prop where
  sound : after.Sound around
  layout : after.space.layout = before.space.layout
  grown : before.space.table.domain ⊆ after.space.table.domain
  mapped : ∀ place, address ≤ place → place < address + bytes.length →
    pageOf place ∈ after.space.table.domain
  bytes : ∀ place, after.byteAt place =
    if address ≤ place ∧ place < address + bytes.length then bytes[place - address]?.getD 0
    else before.byteAt place

theorem Stored.nil (sound : memory.Sound around) (address : Nat) :
    Stored around address [] memory memory where
  sound := sound
  layout := rfl
  grown := Finset.Subset.refl _
  mapped _ above below := absurd below (not_lt.mpr above)
  bytes _ := (if_neg fun inside => absurd inside.2 (not_lt.mpr inside.1)).symm

/-- What is written into a page, and what is put behind it. -/
theorem Written.stored {middle : Memory} {address : Nat} {front back : Bytes}
    (fits : pageOffset address + front.length ≤ pageSize)
    (written : Written around address front before middle)
    (stored : Stored around (address + front.length) back middle after) :
    Stored around address (front ++ back) before after where
  sound := stored.sound
  layout := stored.layout.trans written.layout
  grown := by
    refine Finset.Subset.trans ?_ stored.grown
    rw [written.domain]
    exact Finset.subset_insert _ _
  mapped place above below := by
    rw [List.length_append] at below
    by_cases early : place < address + front.length
    · have same : pageOf place = pageOf address := by
        obtain ⟨distance, rfl⟩ := Nat.exists_eq_add_of_le above
        exact pageOf_add fits (by omega)
      rw [same]
      exact stored.grown (written.domain ▸ Finset.mem_insert_self _ _)
    · exact stored.mapped place (not_lt.mp early) (by omega)
  bytes place := by
    rw [stored.bytes, written.bytes, List.length_append]
    by_cases early : place < address + front.length
    · rw [if_neg (by omega)]
      by_cases above : address ≤ place
      · rw [if_pos ⟨above, early⟩, if_pos (by omega),
          List.getElem?_append_left (by omega)]
      · rw [if_neg (by omega), if_neg (by omega)]
    · by_cases inside : place < address + front.length + back.length
      · rw [if_pos (by omega), if_pos (by omega), List.getElem?_append_right (by omega)]
        exact congrArg (fun index => back[index]?.getD 0) (by omega)
      · rw [if_neg (by omega), if_neg (by omega), if_neg (by omega)]

/-- **What is written chunk by chunk is put into the range.** -/
theorem Sound.stored_writeChunks {access : Access} {steps address : Nat} {bytes : Bytes}
    (sound : memory.Sound around) (enough : bytes.length ≤ steps)
    (run : writeChunks access (chunksWithin steps address bytes.length) bytes memory =
      .ok () after) : Stored around address bytes memory after := by
  induction steps generalizing address bytes memory with
  | zero =>
      obtain rfl := List.eq_nil_of_length_eq_zero (Nat.le_zero.mp enough)
      obtain ⟨-, rfl⟩ := EStateM.Result.ok.inj run
      exact .nil sound address
  | succ steps ih =>
      rw [chunksWithin] at run
      split at run
      · rename_i empty
        obtain rfl := List.eq_nil_of_length_eq_zero empty
        obtain ⟨-, rfl⟩ := EStateM.Result.ok.inj run
        exact .nil sound address
      · rename_i nonempty
        have inside : pageOffset address < pageSize := Nat.mod_lt address (by decide)
        have taken : 0 < chunkSize address bytes.length ∧
            chunkSize address bytes.length ≤ bytes.length ∧
            pageOffset address + chunkSize address bytes.length ≤ pageSize := by
          unfold chunkSize
          omega
        dsimp only at run
        generalize chunkSize address bytes.length = front at taken run
        obtain ⟨positive, small, fits⟩ := taken
        have length : (bytes.take front).length = front := List.length_take_of_le small
        have room : pageOffset address + (bytes.take front).length ≤ pageSize := by
          rw [length]
          exact fits
        rw [writeChunks_cons] at run
        obtain ⟨_, middle, wrote, rest⟩ := ok_of_bind run
        have accessed := sound.writeWithin access room
        rw [wrote] at accessed
        cases accessed with
        | done allowed unlocked written =>
            rw [← List.length_drop] at rest
            have behind : Stored around (address + (bytes.take front).length) (bytes.drop front)
                middle after := by
              rw [length]
              exact ih written.sound (by rw [List.length_drop]; omega) rest
            have joined := written.stored room behind
            rwa [List.take_append_drop] at joined

/-- Checking a range changes nothing. -/
theorem eq_of_checkRange {address size : Nat} {access : Access} {checked : Memory}
    (check : checkRange address size access memory = .ok () checked) : memory = checked := by
  rw [checkRange_apply] at check
  split at check <;> cases check
  rfl

/-- **What a loader writes is put into the range.** -/
theorem Sound.stored_preload (sound : memory.Sound around) {address : Nat} {bytes : Bytes}
    (done : preload address bytes memory = .ok () after) :
    Stored around address bytes memory after := by
  obtain ⟨_, checked, check, done⟩ := ok_of_bind done
  obtain rfl := eq_of_checkRange check
  exact sound.stored_writeChunks le_rfl done

/-- **What is written is put into the range.** -/
theorem Sound.stored_writeBytes (sound : memory.Sound around) {address : Nat} {bytes : Bytes}
    (done : writeBytes address bytes memory = .ok () after) :
    Stored around address bytes memory after := by
  obtain ⟨_, checked, check, done⟩ := ok_of_bind done
  obtain rfl := eq_of_checkRange check
  exact sound.stored_writeChunks le_rfl done

/-- The code that is loaded is carried. -/
theorem Stored.carries (stored : Stored around codeStart image.code before after)
    (whole : image.code.length % Instruction.size = 0)
    (codeEnd : before.space.layout.codeEnd = image.codeEnd) : after.Carries image where
  whole := whole
  codeEnd := stored.layout ▸ codeEnd
  mapped := stored.mapped
  bytes offset byte found := by
    rw [stored.bytes, if_pos ⟨Nat.le_add_right _ _, lt_codeEnd found⟩, Nat.add_sub_cancel_left,
      found]
    rfl

/-- What a loader puts above the code leaves it alone. -/
theorem keeps_carries_preload {address : Nat} (above : image.codeEnd ≤ address) (bytes : Bytes) :
    Keeps (fun memory => memory.Sound around ∧ memory.Carries image) (preload address bytes) := by
  have chunkwise (list : List Chunk) (high : ∀ chunk ∈ list, image.codeEnd ≤ chunk.address)
      (fit : ∀ chunk ∈ list, pageOffset chunk.address + chunk.size ≤ pageSize) (bytes : Bytes) :
      Keeps (fun memory => memory.Sound around ∧ memory.Carries image)
        (writeChunks .read list bytes) := by
    induction list generalizing bytes with
    | nil => exact .pure _
    | cons chunk rest ih =>
        obtain ⟨here, later⟩ := List.forall_mem_cons.mp high
        obtain ⟨fits, fit⟩ := List.forall_mem_cons.mp fit
        rw [writeChunks_cons]
        refine Keeps.bind ?_ fun _ => ih later fit _
        rintro memory ⟨sound, carries⟩
        have short : (bytes.take chunk.size).length ≤ chunk.size := List.length_take_le ..
        have accessed := @Sound.writeWithin around memory sound chunk.address .read
          (bytes.take chunk.size) (by omega)
        generalize writeWithin chunk.address .read (bytes.take chunk.size) memory = result
          at accessed
        cases accessed with
        | denied reason => exact ⟨sound, carries⟩
        | exhausted allowed missing empty => exact ⟨sound, carries⟩
        | locked allowed lock touched => exact ⟨touched.sound, carries.of_touched touched⟩
        | done allowed unlocked written => exact ⟨written.sound, carries.of_written written here⟩
  refine (keeps_checkRange _ _ _).bind fun _ => chunkwise _ ?_ ?_ bytes
  · exact fun chunk member => above.trans (chunk_within member).1
  · exact fun chunk member => Congruent.chunk_fits member

end Memory

namespace Loading

open Memory

variable {holds : Memory → Prop}

/-- The stack is built as a guest would build it. -/
theorem keeps_buildStack (checked : Checked holds) (arguments : List String) :
    Keeps holds (buildStack arguments) := by
  have reserves (top size : Nat) : Keeps holds (reserve top size) :=
    .get_bind fun _ => .ite (.throw _) (.pure _)
  have pushes (arguments : List String) (top : Nat) :
      Keeps holds (pushArguments arguments top) := by
    induction arguments generalizing top with
    | nil => exact .pure _
    | cons argument rest ih =>
        refine (reserves _ _).bind fun start => (checked.writeBytes _ _).bind fun _ => ?_
        exact (ih start).bind fun _ => .pure _
  have stores (address : Nat) (words : List Nat) : Keeps holds (storeWords address words) := by
    induction words generalizing address with
    | nil => exact .pure _
    | cons word rest ih => exact (checked.store _ _).bind fun _ => ih _
  refine (pushes arguments addressSpaceSize).bind fun _ => (reserves _ _).bind fun _ => ?_
  exact (stores _ _).bind fun _ => .pure _

variable {around : Surroundings} {memory after : Memory} {image : Image} {arguments : List String}

/-- Mapping pages does not move segments. -/
theorem layout_of_mapEagerly (sound : memory.Sound around)
    (run : mapEagerly memory = .ok () after) :
    after.Sound around ∧ after.space.layout = memory.space.layout := by
  have guarded : Guarded fun state =>
      state.Sound around ∧ state.space.layout = memory.space.layout := by
    apply guarded_of_sound
    · exact fun _ _ _ touched same => touched.layout.trans same
    · exact fun _ _ _ _ _ written same => written.layout.trans same
    · exact fun _ _ _ _ same => same
  have keeps : Keeps (fun state => state.Sound around ∧ state.space.layout = memory.space.layout)
      mapEagerly := .get_bind fun _ => .ite guarded.mapAll (.pure _)
  have kept := keeps memory ⟨sound, rfl⟩
  rw [run] at kept
  exact kept

/-- **A new address space carries the code that is loaded into it.** -/
theorem carries_of_populate (sound : memory.Sound around)
    (whole : image.code.length % Instruction.size = 0)
    (codeEnd : memory.space.layout.codeEnd = image.codeEnd) {stackPointer : Nat}
    (run : populate image arguments memory = .ok stackPointer after) : after.Carries image := by
  rw [populate_eq] at run
  obtain ⟨_, mapped, eager, run⟩ := ok_of_bind run
  obtain ⟨sound, layout⟩ := layout_of_mapEagerly sound eager
  obtain ⟨_, coded, code, run⟩ := ok_of_bind run
  have stored := sound.stored_preload code
  have carries := stored.carries whole (layout ▸ codeEnd)
  have high : image.codeEnd ≤ coded.space.layout.dataStart :=
    carries.codeEnd.ge.trans stored.sound.layout.codeEnd_le
  have rest : Keeps (fun memory => memory.Sound around ∧ memory.Carries image) (do
      preload coded.space.layout.dataStart image.data
      buildStack arguments) :=
    (keeps_carries_preload high image.data).bind fun _ =>
      keeps_buildStack (guarded_carries around image).toChecked arguments
  have kept := rest coded ⟨stored.sound, carries⟩
  rw [get_bind_apply] at run
  rw [run] at kept
  exact kept.2

theorem codeEnd_of_layoutOf {options : LoadOptions} {layout : Layout}
    (made : layoutOf image options = .ok layout) :
    image.code.length % Instruction.size = 0 ∧ layout.codeEnd = image.codeEnd := by
  obtain ⟨valid, sizes⟩ := of_layoutOf made
  refine ⟨?_, (Layout.planned_of_ofSizes sizes).codeEnd⟩
  unfold Image.validate at valid
  split at valid
  · cases valid
  · split at valid
    · cases valid
    · rename_i shape
      exact not_not.mp (not_or.mp shape).2

/-- **A program that is loaded carries its code.** -/
theorem carries_of_load {pool pool' : FramePool} {journal journal' : Journal} {id : ContextId}
    {options : LoadOptions} {context : Context} (held : pool.HeldBy around)
    (loaded : load id image options pool journal = (.ok context, pool', journal')) :
    Carries image ⟨context.space, pool', journal'⟩ := by
  unfold load at loaded
  split at loaded
  · cases loaded
  · rename_i layout made
    obtain ⟨whole, codeEnd⟩ := codeEnd_of_layoutOf made
    have start := held.sound_empty (ordered_of_layoutOf made) options.mode journal
    split at loaded
    · rename_i stackPointer memory run
      obtain ⟨same, rfl, rfl⟩ : _ ∧ _ ∧ _ := by simpa only [Prod.mk.injEq] using loaded
      obtain rfl := Except.ok.inj same
      exact (carries_of_populate start whole codeEnd run).of_noted
    · cases loaded

end Loading

/-! ## Contexts -/

namespace Interpreter

/-- **A new context carries the code that was loaded.** -/
theorem Sound.carries_of_create {capacity : Nat} {machine after : Interpreter} {id : ContextId}
    {image : Image} (sound : machine.Sound capacity) {options : LoadOptions}
    (created : Interpreter.create image options machine = .ok id after) :
    after.Has (Memory.Carries image) id := by
  cases result : Loading.load machine.nextId image options machine.pool machine.journal with
  | mk answer left =>
      obtain ⟨pool, journal⟩ := left
      cases answer with
      | error error =>
          rw [create_of_error result] at created
          cases created
      | ok context =>
          rw [create_of_ok result] at created
          obtain ⟨rfl, rfl⟩ := EStateM.Result.ok.inj created
          have carries := Loading.carries_of_load sound.heldBy result
          exact ⟨context, (Table.getElem?_insert ..).trans (if_pos rfl), carries⟩

end Interpreter

end NestedMachine
