import NestedMachine.Proofs.Ensures
import NestedMachine.Proofs.Machine.Operations
import NestedMachine.Proofs.Memory.Ranges

/-!
# What guests keep

A guest reads wherever the layout lets it, and writes wherever a page permits it; it never writes
past a lock.  A property of memories that these accesses keep is checked (`Memory.Checked`), and
then whatever a guest does keeps it: its accesses, its instructions and its runs
(`Hart.run_checked`).  If it is known as well how accesses fail, it is known how runs fail
(`Memory.Sheltered`, `Hart.run_sheltered`).  A supervisor accesses the memory of a guest as the
guest does, maps all of its pages, and moves its program break (`MemoryRequest.keeps_perform`); what
is made of this is courteous (`Memory.Courteous`).  A checked property that the mapping of any page
keeps is guarded (`Memory.Guarded`).

This is less than what relations of memories are asked for, since nothing is said about writing as a
loader does and about moving the program break.  So it serves for properties that only guests keep:
that no page is unmapped (`Memory.guarded_grown`), and that what is locked stays as it is.
-/

namespace NestedMachine

set_option autoImplicit false

namespace Memory

variable {α : Type} {holds : Memory → Prop}

/-! ## Checked and guarded properties -/

/-- The accesses that are checked against the layout keep a property: reading in every way, and
writing as pages permit. -/
structure Checked (holds : Memory → Prop) : Prop where
  read : ∀ address access size, pageOffset address + size ≤ pageSize →
    Keeps holds (readWithin address access size)
  write : ∀ address bytes, pageOffset address + bytes.length ≤ pageSize →
    Keeps holds (writeWithin address .write bytes)
  jot : ∀ note, Keeps holds (jot note)

/-- The accesses that are checked against the layout keep a property, and their faults are among
those that may happen.  Faults that are not for lack of frames may happen anyway. -/
structure Sheltered (may : Fault → Prop) (holds : Memory → Prop) : Prop where
  faults : ∀ fault, fault ≠ .outOfFrames → may fault
  read : ∀ address access size, pageOffset address + size ≤ pageSize →
    Stays may holds (readWithin address access size)
  write : ∀ address bytes, pageOffset address + bytes.length ≤ pageSize →
    Stays may holds (writeWithin address .write bytes)
  jot : ∀ note, Stays may holds (jot note)

theorem Checked.sheltered (checked : Checked holds) : Sheltered (fun _ => True) holds where
  faults _ _ := trivial
  read address access size fits := (checked.read address access size fits).stays
  write address bytes fits := (checked.write address bytes fits).stays
  jot note := (checked.jot note).stays

/-- The accesses of a guest keep a property, and so does mapping any page. -/
structure Guarded (holds : Memory → Prop) : Prop extends Checked holds where
  touch : ∀ page, Keeps holds (touch page)

section Sound

variable {around : Surroundings}

/-- An access that reads keeps a property of sound memories if touching a page does that the layout
permits to be read. -/
theorem keeps_readWithin_of_sound {access : Access} {address size : Nat}
    (touched : ∀ segment before after, before.space.layout.check address access = .ok segment →
      Touched around (pageOf address) before after → holds before → holds after)
    (fits : pageOffset address + size ≤ pageSize) :
    Keeps (fun memory => memory.Sound around ∧ holds memory) (readWithin address access size) := by
  rintro memory ⟨sound, held⟩
  have accessed := sound.readWithin access fits
  generalize readWithin address access size memory = result at accessed
  cases accessed with
  | denied reason => exact ⟨sound, held⟩
  | exhausted allowed missing empty => exact ⟨sound, held⟩
  | locked allowed lock finish => exact ⟨finish.sound, touched _ _ _ allowed finish held⟩
  | done allowed unlocked finish => exact ⟨finish.1.sound, touched _ _ _ allowed finish.1 held⟩

/-- An access that writes keeps a property of sound memories if touching a page does, and writing
where nothing is locked. -/
theorem keeps_writeWithin_of_sound {access : Access} {address : Nat} {bytes : Bytes}
    (touched : ∀ segment before after, before.space.layout.check address access = .ok segment →
      Touched around (pageOf address) before after → holds before → holds after)
    (written : ∀ segment before after, before.space.layout.check address access = .ok segment →
      ¬Locked before.space.layout address access → Written around address bytes before after →
        holds before → holds after)
    (fits : pageOffset address + bytes.length ≤ pageSize) :
    Keeps (fun memory => memory.Sound around ∧ holds memory)
      (writeWithin address access bytes) := by
  rintro memory ⟨sound, held⟩
  have accessed := sound.writeWithin access fits
  generalize writeWithin address access bytes memory = result at accessed
  cases accessed with
  | denied reason => exact ⟨sound, held⟩
  | exhausted allowed missing empty => exact ⟨sound, held⟩
  | locked allowed lock finish => exact ⟨finish.sound, touched _ _ _ allowed finish held⟩
  | done allowed unlocked finish =>
      exact ⟨finish.sound, written _ _ _ allowed unlocked finish held⟩

/-- Mapping a page keeps a property of sound memories if it does where it answers. -/
theorem keeps_touch_of_sound {page : Nat}
    (touched : ∀ before after, Touched around page before after → holds before → holds after) :
    Keeps (fun memory => memory.Sound around ∧ holds memory) (touch page) := by
  rintro memory ⟨sound, held⟩
  have mapping := sound.ensureMapped page
  show Halts _ _ (EStateM.bind (Memory.ensureMapped page) _ memory)
  rw [EStateM.bind]
  generalize Memory.ensureMapped page memory = result at mapping
  cases mapping with
  | mapped finish found => exact ⟨finish.sound, touched _ _ finish held⟩
  | exhausted missing empty => exact ⟨sound, held⟩

/-- A note keeps a property of sound memories that is not about the journal. -/
theorem keeps_jot_of_sound {note : Note}
    (noted : ∀ space pool journal journal', holds ⟨space, pool, journal⟩ →
      holds ⟨space, pool, journal'⟩) :
    Keeps (fun memory => memory.Sound around ∧ holds memory) (jot note) := by
  rintro memory ⟨sound, held⟩
  refine ⟨⟨sound.consistent, sound.taken, sound.capacity, sound.contents, sound.permission,
    sound.layout⟩, ?_⟩
  exact noted _ _ _ _ held

/-- A property of sound memories is guarded if touching a page keeps it, and so does writing where
nothing is locked. -/
theorem guarded_of_sound
    (touched : ∀ page before after, Touched around page before after → holds before → holds after)
    (written : ∀ address bytes before after, ¬Locked before.space.layout address .write →
      Written around address bytes before after → holds before → holds after)
    (noted : ∀ space pool journal journal', holds ⟨space, pool, journal⟩ →
      holds ⟨space, pool, journal'⟩) :
    Guarded fun memory => memory.Sound around ∧ holds memory where
  read _ _ _ fits := keeps_readWithin_of_sound (fun _ _ _ _ => touched _ _ _) fits
  write _ _ fits := keeps_writeWithin_of_sound (fun _ _ _ _ => touched _ _ _)
    (fun _ _ _ _ => written _ _ _ _) fits
  touch _ := keeps_touch_of_sound (touched _)
  jot _ := keeps_jot_of_sound noted

end Sound

/-- **Guests unmap no page.** -/
theorem guarded_grown (around : Surroundings) (pages : Finset Nat) :
    Guarded fun memory => memory.Sound around ∧ pages ⊆ memory.space.table.domain := by
  apply guarded_of_sound
  · intro page before after touched mapped
    rw [touched.domain]
    exact mapped.trans (Finset.subset_insert _ _)
  · intro address bytes before after _ written mapped
    rw [written.domain]
    exact mapped.trans (Finset.subset_insert _ _)
  · exact fun _ _ _ _ mapped => mapped

/-- Every page that is mapped has the entry that it had, if it had one. -/
def EntriesKept (before after : Memory) : Prop :=
  ∀ (page : Nat) (entry : PageEntry), before.space.table[page]? = some entry →
    after.space.table[page]? = some entry

theorem EntriesKept.refl (memory : Memory) : memory.EntriesKept memory := fun _ _ found => found

theorem keeps_entries_ensureMapped (origin : Memory) (page : Nat) :
    Keeps origin.EntriesKept (ensureMapped page) := by
  rintro ⟨space, pool, journal⟩ kept
  rw [ensureMapped]
  cases found : space.table[page]? with
  | some entry => exact kept
  | none =>
      dsimp only
      split
      · next frame pool' granted =>
          intro other entry mapped
          have old := kept other entry mapped
          refine (Table.getElem?_insert ..).trans ((if_neg ?_).trans old)
          rintro rfl
          rw [show (Memory.mk space pool journal).space.table[page]? = none from found] at old
          cases old
      · exact kept

/-- **Guests leave pages on the frames that they have.** -/
theorem guarded_entriesKept (origin : Memory) : Guarded origin.EntriesKept := by
  have translates (address : Nat) (access : Access) :
      Keeps origin.EntriesKept (translate address access) := by
    refine Keeps.bind (.get_bind fun memory => ?_) fun _ =>
      (keeps_entries_ensureMapped origin _).bind fun _ => ?_
    · cases memory.space.layout.check address access with
      | ok segment => exact .pure ()
      | error fault => exact .throw fault
    · exact .ite (.throw _) (.pure _)
  refine ⟨⟨fun _ _ _ _ => ?_, fun _ _ _ => ?_, fun _ => .modify fun _ kept => kept⟩, fun _ => ?_⟩
  · exact (translates _ _).bind fun _ => .get_bind fun _ => .pure _
  · exact (translates _ _).bind fun _ => .modify fun _ kept => kept
  · exact (keeps_entries_ensureMapped origin _).bind fun _ => .pure _

/-! ## Accesses -/

/-- Writing chunks keeps what writing within a page keeps. -/
theorem stays_writeChunks {may : Fault → Prop} {access : Access}
    (writes : ∀ address bytes, pageOffset address + bytes.length ≤ pageSize →
      Stays may holds (writeWithin address access bytes)) {list : List Chunk} (bytes : Bytes)
    (fit : ∀ chunk ∈ list, pageOffset chunk.address + chunk.size ≤ pageSize) :
    Stays may holds (writeChunks access list bytes) := by
  induction list generalizing bytes with
  | nil => exact .pure _
  | cons chunk rest ih =>
      rw [writeChunks_cons]
      refine (writes _ _ ?_).bind fun _ => ?_
      · have taken : (bytes.take chunk.size).length ≤ chunk.size := List.length_take_le ..
        have room := fit chunk List.mem_cons_self
        omega
      · exact ih _ fun chunk member => fit chunk (List.mem_cons_of_mem _ member)

theorem keeps_writeChunks {access : Access}
    (writes : ∀ address bytes, pageOffset address + bytes.length ≤ pageSize →
      Keeps holds (writeWithin address access bytes)) {list : List Chunk} (bytes : Bytes)
    (fit : ∀ chunk ∈ list, pageOffset chunk.address + chunk.size ≤ pageSize) :
    Keeps holds (writeChunks access list bytes) :=
  (stays_writeChunks (fun address bytes fits => (writes address bytes fits).stays) bytes fit).keeps

theorem keeps_checkRange (address size : Nat) (access : Access) :
    Keeps holds (checkRange address size access) := by
  apply Keeps.get_bind
  intro memory
  cases memory.space.layout.checkRange address size access with
  | ok answer => exact .pure ()
  | error fault => exact .throw fault

namespace Sheltered

variable {may : Fault → Prop}

theorem checkRange (sheltered : Sheltered may holds) (address size : Nat) (access : Access) :
    Stays may holds (checkRange address size access) := by
  intro memory given
  rw [checkRange_apply]
  cases denied : memory.space.layout.checkRange address size access with
  | ok answer => exact given
  | error fault =>
      obtain ⟨place, rfl⟩ := Layout.segmentation_of_checkRange denied
      exact ⟨sheltered.faults _ (by nofun), given⟩

/-- Behind an alignment check an address is aligned. -/
theorem aligned_bind (sheltered : Sheltered may holds) {address size : Nat}
    {next : Unit → MemoryAction α}
    (rest : isAligned address size = true → ∀ answer, Stays may holds (next answer)) :
    Stays may holds (requireAligned address size >>= next) := by
  unfold requireAligned
  split
  · rename_i aligned
    exact Stays.bind (.pure ()) (rest aligned)
  · exact fun memory given => ⟨sheltered.faults _ (by nofun), given⟩

theorem fetch (sheltered : Sheltered may holds) (address : Nat) :
    Stays may holds (fetch address) := by
  rw [fetch_eq]
  refine sheltered.aligned_bind fun aligned _ => ?_
  have fits := Congruent.pageOffset_add_le aligned (.inl rfl)
  exact (sheltered.read address .fetch _ fits).bind fun _ => .pure _

theorem load (sheltered : Sheltered may holds) (address : Nat) :
    Stays may holds (load address) := by
  rw [load_eq]
  refine sheltered.aligned_bind fun aligned _ => (sheltered.checkRange _ _ _).bind fun _ => ?_
  have fits := Congruent.pageOffset_add_le aligned (.inr rfl)
  exact (sheltered.read address .read _ fits).bind fun _ => .pure _

theorem store (sheltered : Sheltered may holds) (address : Nat) (value : UInt64) :
    Stays may holds (store address value) := by
  rw [store_eq]
  refine sheltered.aligned_bind fun aligned _ => (sheltered.checkRange _ _ _).bind fun _ => ?_
  apply sheltered.write
  rw [Congruent.length_ofNat]
  exact Congruent.pageOffset_add_le aligned (.inr rfl)

theorem readChunks (sheltered : Sheltered may holds) {list : List Chunk}
    (fit : ∀ chunk ∈ list, pageOffset chunk.address + chunk.size ≤ pageSize) :
    Stays may holds (readChunks list) := by
  induction list with
  | nil => exact .pure _
  | cons chunk rest ih =>
      rw [readChunks_cons]
      refine (sheltered.read _ .read _ (fit chunk List.mem_cons_self)).bind fun front => ?_
      have later := ih fun chunk member => fit chunk (List.mem_cons_of_mem _ member)
      exact later.bind fun back => .pure _

theorem readBytes (sheltered : Sheltered may holds) (address size : Nat) :
    Stays may holds (readBytes address size) :=
  (sheltered.checkRange _ _ _).bind fun _ => sheltered.readChunks fun _ => Congruent.chunk_fits

theorem writeBytes (sheltered : Sheltered may holds) (address : Nat) (bytes : Bytes) :
    Stays may holds (writeBytes address bytes) :=
  (sheltered.checkRange _ _ _).bind fun _ =>
    stays_writeChunks sheltered.write bytes fun _ => Congruent.chunk_fits

theorem readStringFrom (sheltered : Sheltered may holds) (start limit address : Nat) :
    Stays may holds (readStringFrom start limit address) := by
  induction limit generalizing address with
  | zero => exact .throw (sheltered.faults _ (by nofun))
  | succ limit ih =>
      have inside : pageOffset address + 1 ≤ pageSize := Nat.mod_lt address (by decide)
      rw [readStringFrom_succ]
      refine (sheltered.read address .read 1 inside).bind fun bytes => .ite (.pure _) ?_
      exact (ih (address + 1)).bind fun _ => .pure _

theorem readString (sheltered : Sheltered may holds) (address limit : Nat) :
    Stays may holds (readString address limit) :=
  sheltered.readStringFrom address limit address

end Sheltered

namespace Checked

theorem store (checked : Checked holds) (address : Nat) (value : UInt64) :
    Keeps holds (store address value) :=
  (checked.sheltered.store address value).keeps

theorem readBytes (checked : Checked holds) (address size : Nat) :
    Keeps holds (readBytes address size) :=
  (checked.sheltered.readBytes address size).keeps

theorem writeBytes (checked : Checked holds) (address : Nat) (bytes : Bytes) :
    Keeps holds (writeBytes address bytes) :=
  (checked.sheltered.writeBytes address bytes).keeps

theorem readString (checked : Checked holds) (address limit : Nat) :
    Keeps holds (readString address limit) :=
  (checked.sheltered.readString address limit).keeps

end Checked

namespace Guarded

theorem ensureAllMapped (guarded : Guarded holds) (pages : List Nat) :
    Keeps holds (ensureAllMapped pages) := by
  induction pages with
  | nil => exact .pure _
  | cons page rest ih =>
      rw [ensureAllMapped_cons]
      exact (guarded.touch page).bind fun _ => ih

theorem mapAll (guarded : Guarded holds) : Keeps holds mapAll :=
  .get_bind fun _ => guarded.ensureAllMapped _

end Guarded

/-- An action that keeps whatever guests keep, if mapping all pages and moving the program break
do. -/
def Courteous (action : MemoryAction α) : Prop :=
  ∀ holds, Checked holds → Keeps holds mapAll →
    (∀ programBreak, Keeps holds (setProgramBreak programBreak)) → Keeps holds action

theorem Courteous.guarded {action : MemoryAction α} (courteous : Courteous action)
    (guarded : Guarded holds) (moves : ∀ programBreak, Keeps holds (setProgramBreak programBreak)) :
    Keeps holds action :=
  courteous holds guarded.toChecked guarded.mapAll moves

theorem courteous_checkRange (address size : Nat) (access : Access) :
    Courteous (checkRange address size access) :=
  fun _ _ _ _ => keeps_checkRange address size access

theorem courteous_store (address : Nat) (value : UInt64) : Courteous (store address value) :=
  fun _ checked _ _ => checked.store address value

theorem courteous_readBytes (address size : Nat) : Courteous (readBytes address size) :=
  fun _ checked _ _ => checked.readBytes address size

theorem courteous_writeBytes (address : Nat) (bytes : Bytes) :
    Courteous (writeBytes address bytes) :=
  fun _ checked _ _ => checked.writeBytes address bytes

theorem courteous_readString (address limit : Nat) : Courteous (readString address limit) :=
  fun _ checked _ _ => checked.readString address limit

/-- Courteous actions keep memories sound. -/
theorem Courteous.keeps_sound {action : MemoryAction α} (courteous : Courteous action)
    {around : Surroundings} {memory : Memory} (sound : memory.Sound around) :
    (finalState (action memory)).Sound around := by
  have guarded : Guarded fun memory => memory.Sound around ∧ True :=
    guarded_of_sound (fun _ _ _ _ _ => trivial) (fun _ _ _ _ _ _ _ => trivial)
      fun _ _ _ _ _ => trivial
  refine ((courteous.guarded guarded ?_).finalState ⟨sound, trivial⟩).1
  intro programBreak memory given
  have kept := (Congruent.setProgramBreak programBreak).keeps_sound given.1
  generalize setProgramBreak programBreak memory = result at kept
  cases result with
  | ok answer after => exact ⟨kept, trivial⟩
  | error fault after => exact ⟨kept, trivial⟩

end Memory

open Memory (Checked Sheltered)

variable {holds : Memory → Prop}

/-! ## Runs -/

section Runs

variable {may : Fault → Prop}

theorem stays_orFault {α : Type} {answer : Except Fault α}
    (faults : ∀ fault, answer = .error fault → may fault) : Stays may holds (orFault answer) := by
  cases answer with
  | ok answer => exact .pure answer
  | error fault => exact .throw (faults fault rfl)

theorem Arithmetic.fault_of_apply {operation : Arithmetic} {left right : UInt64} {fault : Fault}
    (failed : operation.apply left right = .error fault) : fault = .divisionByZero := by
  unfold apply at failed
  split at failed <;> first | cases failed | split at failed <;> cases failed
  all_goals rfl

theorem fault_of_effectiveAddress {base : UInt64} {offset : Int} {fault : Fault}
    (failed : effectiveAddress base offset = .error fault) :
    ∃ address, fault = .misaligned address := by
  unfold effectiveAddress at failed
  dsimp only at failed
  split at failed
  · cases failed
  · exact ⟨_, (Except.error.inj failed).symm⟩

namespace Instruction

theorem stays_executeArithmetic (sheltered : Sheltered may holds) (operation : Arithmetic)
    (hart : Hart) (rd rs1 rs2 : Nat) :
    Stays may holds (executeArithmetic operation hart rd rs1 rs2) := by
  refine (stays_orFault fun fault failed => ?_).bind fun _ => .pure _
  obtain rfl := Arithmetic.fault_of_apply failed
  exact sheltered.faults _ (by nofun)

theorem stays_execute (sheltered : Sheltered may holds) (hart : Hart)
    (instruction : Instruction) : Stays may holds (instruction.execute hart) := by
  have address (base : UInt64) (offset : Int) :
      Stays may holds (orFault (effectiveAddress base offset)) := by
    refine stays_orFault fun fault failed => ?_
    obtain ⟨place, rfl⟩ := fault_of_effectiveAddress failed
    exact sheltered.faults _ (by nofun)
  cases instruction with
  | add | sub | mul | divu | remu | sltu => exact stays_executeArithmetic sheltered _ _ _ _ _
  | lui | addi | beq | jal | jalr | ecall => exact .pure _
  | ld rd rs1 imm =>
      exact (address _ _).bind fun _ => (sheltered.load _).bind fun _ => .pure _
  | sd rs1 rs2 imm =>
      exact (address _ _).bind fun _ => (sheltered.store _ _).bind fun _ => .pure _

end Instruction

namespace Hart

theorem stays_step (sheltered : Sheltered may holds) (tracing : Bool) (hart : Hart) :
    Stays may holds (hart.step tracing) := by
  have fetched : Stays may holds (hart.fetch tracing) := by
    refine (sheltered.fetch _).bind fun word => ?_
    cases tracing with
    | true => exact (sheltered.jot (.fetched hart.pc word)).bind fun _ => .pure word
    | false => exact .pure word
  refine fetched.bind fun word => ?_
  cases word.instruction? with
  | some instruction => exact Instruction.stays_execute sheltered hart instruction
  | none => exact .throw (sheltered.faults _ (by nofun))

theorem keeps_step (checked : Checked holds) (tracing : Bool) (hart : Hart) :
    Keeps holds (hart.step tracing) :=
  (stays_step checked.sheltered tracing hart).keeps

/-- **A run keeps what accesses keep, and it runs dry only if they may.** -/
theorem run_sheltered (sheltered : Sheltered may holds) (tracing : Bool) (quantum : Nat)
    (hart : Hart) (retired : Nat) {memory : Memory} (given : holds memory) :
    holds (hart.run tracing quantum retired memory).memory ∧
      ((hart.run tracing quantum retired memory).ending = .outOfFrames → may .outOfFrames) := by
  induction quantum generalizing hart retired memory with
  | zero => exact ⟨given, by rintro ⟨⟩⟩
  | succ quantum ih =>
      have outcome := stays_step sheltered tracing hart memory given
      rw [run]
      generalize hart.step tracing memory = result at outcome
      cases result with
      | error fault after =>
          refine ⟨outcome.2, fun dry => ?_⟩
          dsimp only [endingOf] at dry
          split at dry
          · rename_i same
            exact same ▸ outcome.1
          · cases dry
      | ok found after =>
          obtain ⟨hart', flow⟩ := found
          cases flow with
          | next => exact ih hart' (retired + 1) outcome
          | environmentCall => exact ⟨outcome, by rintro ⟨⟩⟩

/-- **A run keeps what is checked.** -/
theorem run_checked (checked : Checked holds) (tracing : Bool) (quantum : Nat) (hart : Hart)
    (retired : Nat) {memory : Memory} (given : holds memory) :
    holds (hart.run tracing quantum retired memory).memory :=
  (run_sheltered checked.sheltered tracing quantum hart retired given).1

end Hart

end Runs

/-! ## Requests of a supervisor -/

theorem MemoryRequest.stays_perform {may : Fault → Prop} (sheltered : Sheltered may holds)
    (all : Stays may holds Memory.mapAll) (request : MemoryRequest)
    (moves : ∀ programBreak, request = .setProgramBreak programBreak →
      Stays may holds (Memory.setProgramBreak programBreak)) :
    Stays may holds request.perform := by
  cases request with
  | fetch address => exact (sheltered.fetch _).bind fun _ => .pure _
  | load address => exact (sheltered.load _).bind fun _ => .pure _
  | store address value => exact (sheltered.store _ _).bind fun _ => .pure _
  | readBytes address size => exact (sheltered.readBytes _ _).bind fun _ => .pure _
  | writeBytes address bytes => exact (sheltered.writeBytes _ _).bind fun _ => .pure _
  | readString address limit => exact (sheltered.readString _ _).bind fun _ => .pure _
  | checkRange address size access => exact (sheltered.checkRange _ _ _).bind fun _ => .pure _
  | setProgramBreak programBreak => exact (moves programBreak rfl).bind fun _ => .pure _
  | mapAll => exact all.bind fun _ => .pure _

/-- **A request of a supervisor keeps what checked accesses keep**, if mapping all pages and moving
the program break do. -/
theorem MemoryRequest.keeps_perform (checked : Checked holds) (all : Keeps holds Memory.mapAll)
    (moves : ∀ programBreak, Keeps holds (Memory.setProgramBreak programBreak))
    (request : MemoryRequest) : Keeps holds request.perform :=
  (stays_perform checked.sheltered all.stays request fun programBreak _ =>
    (moves programBreak).stays).keeps

/-- **Every request of a supervisor is courteous.** -/
theorem MemoryRequest.courteous_perform (request : MemoryRequest) :
    Memory.Courteous request.perform :=
  fun _ checked all moves => request.keeps_perform checked all moves

end NestedMachine
