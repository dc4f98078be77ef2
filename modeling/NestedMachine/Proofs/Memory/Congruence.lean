import Mathlib.Logic.Basic
import NestedMachine.Memory.AddressSpace
import NestedMachine.Proofs.Action

/-!
# Relations of memories that accesses respect

Everything that a guest does to memory, and everything that loading a program does, comes down to
few primitive accesses: reading or writing bytes within one page, touching a page, moving the
program break, and making a note.  A relation of memories is respected by them if it makes their
outcomes agree (`Respected`).  An action is congruent if it agrees with itself for every such
relation (`Congruent`).

So one pass over the definitions serves every comparison of two memories, and, through the
diagonal, every invariant of one memory.  None of these accesses looks at the memory mode, apart
from moving the program break, which is primitive.  The only other thing that does is to map all
pages of a program that is loaded (`mapEagerly`); it agrees where modes do (`agrees_mapEagerly`).
-/

namespace NestedMachine.Memory

set_option autoImplicit false

variable {α β : Type}

/-! ## Primitive accesses -/

/-- Read bytes within the page of an address. -/
def readWithin (address : Nat) (access : Access) (size : Nat) : MemoryAction Bytes := do
  let place ← translate address access
  peek place size

/-- Write bytes within the page of an address. -/
def writeWithin (address : Nat) (access : Access) (bytes : Bytes) : MemoryAction Unit := do
  let place ← translate address access
  poke place bytes

/-- Map a page, if it is not mapped. -/
def touch (page : Nat) : MemoryAction Unit := do
  let _ ← ensureMapped page

/-- Map every page at once, if that is the memory mode. -/
def mapEagerly : MemoryAction Unit := do
  if (← get).space.mode = .fullyMapped then mapAll

/-- Add a note to the journal. -/
def jot (note : Note) : MemoryAction Unit :=
  modify fun memory => { memory with journal := memory.journal.add note }

/-! ## Accesses by the page

Every access translates an address and then transfers bytes of the page, so it can be told by the
primitive accesses alone. -/

theorem fetch_eq (address : Nat) : fetch address = (do
    requireAligned address Instruction.size
    let bytes ← readWithin address .fetch Instruction.size
    return BitVec.ofNat 32 (Bytes.toNat bytes)) := by
  simp only [readWithin, bind_assoc]
  rfl

theorem load_eq (address : Nat) : load address = (do
    requireAligned address wordSize
    checkRange address wordSize .read
    let bytes ← readWithin address .read wordSize
    return UInt64.ofNat (Bytes.toNat bytes)) := by
  simp only [readWithin, bind_assoc]
  rfl

theorem store_eq (address : Nat) (value : UInt64) : store address value = (do
    requireAligned address wordSize
    checkRange address wordSize .write
    writeWithin address .write (Bytes.ofNat wordSize value.toNat)) := rfl

theorem readChunks_cons (chunk : Chunk) (rest : List Chunk) : readChunks (chunk :: rest) = (do
    let front ← readWithin chunk.address .read chunk.size
    let back ← readChunks rest
    return front ++ back) := by
  rw [readWithin, bind_assoc]
  rfl

theorem writeChunks_cons (access : Access) (chunk : Chunk) (rest : List Chunk) (bytes : Bytes) :
    writeChunks access (chunk :: rest) bytes = (do
      writeWithin chunk.address access (bytes.take chunk.size)
      writeChunks access rest (bytes.drop chunk.size)) := by
  rw [writeWithin, bind_assoc]
  rfl

theorem readStringFrom_succ (start limit address : Nat) :
    readStringFrom start (limit + 1) address = (do
      let bytes ← readWithin address .read 1
      if bytes.headD 0 = 0 then return []
      return bytes.headD 0 :: (← readStringFrom start limit (address + 1))) := by
  rw [readWithin, bind_assoc]
  rfl

theorem ensureAllMapped_cons (page : Nat) (rest : List Nat) : ensureAllMapped (page :: rest) = (do
    touch page
    ensureAllMapped rest) := by
  rw [touch, bind_assoc]
  rfl

/-! ## Respected relations -/

/-- The primitive accesses have agreeing outcomes from related memories. -/
structure Respected (excused : Fault → Prop) (related : Memory → Memory → Prop) : Prop where
  layout : ∀ {left right}, related left right → left.space.layout = right.space.layout
  read : ∀ address access size, pageOffset address + size ≤ pageSize →
    Agrees excused related Eq (readWithin address access size) (readWithin address access size)
  write : ∀ address access bytes, pageOffset address + bytes.length ≤ pageSize →
    Agrees excused related Eq (writeWithin address access bytes) (writeWithin address access bytes)
  touch : ∀ page, Agrees excused related Eq (touch page) (touch page)
  setProgramBreak : ∀ programBreak,
    Agrees excused related Eq (setProgramBreak programBreak) (setProgramBreak programBreak)
  jot : ∀ note, Agrees excused related Eq (jot note) (jot note)

/-- An action that agrees with itself from any memories that the primitive accesses cannot tell
apart. -/
structure Congruent (action : MemoryAction α) : Prop where
  agrees : ∀ {excused related}, Respected excused related →
    Agrees excused related Eq action action

namespace Congruent

/-! ## Sequencing -/

theorem pure (answer : α) : Congruent (pure answer : MemoryAction α) :=
  ⟨fun _ => .pure rfl⟩

theorem throw (fault : Fault) : Congruent (throw fault : MemoryAction α) :=
  ⟨fun _ => .throw fault⟩

theorem bind {action : MemoryAction α} {next : α → MemoryAction β} (first : Congruent action)
    (rest : ∀ answer, Congruent (next answer)) : Congruent (action >>= next) :=
  ⟨fun respected => (first.agrees respected).bind fun a _ same =>
    same ▸ (rest a).agrees respected⟩

theorem ite {condition : Prop} [Decidable condition] {left right : MemoryAction α}
    (yes : condition → Congruent left) (no : ¬condition → Congruent right) :
    Congruent (if condition then left else right) :=
  ⟨fun respected =>
    .ite (fun holds => (yes holds).agrees respected) fun fails => (no fails).agrees respected⟩

/-- An action may look at the layout first. -/
theorem get_bind {next : Memory → MemoryAction α}
    (stable : ∀ left right : Memory, left.space.layout = right.space.layout →
      next left = next right)
    (rest : ∀ memory, Congruent (next memory)) : Congruent (get >>= next) := by
  refine ⟨fun respected => .get_bind fun left right states => ?_⟩
  rw [stable left right (respected.layout states)]
  exact (rest right).agrees respected

/-! ## Primitive accesses -/

theorem touch (page : Nat) : Congruent (touch page) :=
  ⟨fun respected => respected.touch page⟩

theorem setProgramBreak (programBreak : Nat) : Congruent (setProgramBreak programBreak) :=
  ⟨fun respected => respected.setProgramBreak programBreak⟩

theorem jot (note : Note) : Congruent (jot note) :=
  ⟨fun respected => respected.jot note⟩

theorem readWithin {address size : Nat} (access : Access)
    (fits : pageOffset address + size ≤ pageSize) : Congruent (readWithin address access size) :=
  ⟨fun respected => respected.read address access size fits⟩

theorem writeWithin {address : Nat} (access : Access) {bytes : Bytes}
    (fits : pageOffset address + bytes.length ≤ pageSize) :
    Congruent (writeWithin address access bytes) :=
  ⟨fun respected => respected.write address access bytes fits⟩

/-! ## Checks -/

theorem checkRange (address size : Nat) (access : Access) :
    Congruent (checkRange address size access) := by
  refine .get_bind (fun left right layout => by rw [layout]) ?_
  intro memory
  cases memory.space.layout.checkRange address size access with
  | ok answer => exact .pure ()
  | error fault => exact .throw fault

/-! ## Words -/

theorem pageOffset_add_le {address size : Nat} (aligned : isAligned address size = true)
    (width : size = Instruction.size ∨ size = wordSize) : pageOffset address + size ≤ pageSize := by
  simp only [isAligned, beq_iff_eq] at aligned
  rcases width with rfl | rfl
  · simp only [Instruction.size, pageOffset, pageSize] at *
    omega
  · simp only [wordSize, pageOffset, pageSize] at *
    omega

/-- Behind an alignment check an address is aligned. -/
theorem aligned_bind {address size : Nat} {next : Unit → MemoryAction α}
    (rest : isAligned address size = true → ∀ answer, Congruent (next answer)) :
    Congruent (Memory.requireAligned address size >>= next) := by
  unfold Memory.requireAligned
  split
  · rename_i aligned
    exact rest aligned ()
  · exact .throw _

theorem fetch (address : Nat) : Congruent (fetch address) := by
  rw [fetch_eq]
  refine aligned_bind fun aligned _ => ?_
  exact .bind (readWithin _ (pageOffset_add_le aligned (.inl rfl))) fun _ => .pure _

theorem load (address : Nat) : Congruent (load address) := by
  rw [load_eq]
  refine aligned_bind fun aligned _ => .bind (checkRange ..) fun _ => ?_
  exact .bind (readWithin _ (pageOffset_add_le aligned (.inr rfl))) fun _ => .pure _

theorem length_ofNat (count number : Nat) : (Bytes.ofNat count number).length = count := by
  induction count generalizing number with
  | zero => rfl
  | succ count ih => rw [Bytes.ofNat, List.length_cons, ih]

theorem store (address : Nat) (value : UInt64) : Congruent (store address value) := by
  rw [store_eq]
  refine aligned_bind fun aligned _ => .bind (checkRange ..) fun _ => writeWithin _ ?_
  rw [length_ofNat]
  exact pageOffset_add_le aligned (.inr rfl)

/-! ## Strings of bytes -/

/-- A chunk lies within one page. -/
theorem chunk_fits {steps address size : Nat} {chunk : Chunk}
    (member : chunk ∈ chunksWithin steps address size) :
    pageOffset chunk.address + chunk.size ≤ pageSize := by
  induction steps generalizing address size with
  | zero => cases member
  | succ steps ih =>
      rw [chunksWithin] at member
      split at member
      · cases member
      · rcases List.mem_cons.mp member with first | later
        · rw [first]
          have inside : pageOffset address < pageSize := Nat.mod_lt _ (by decide)
          simp only [chunkSize]
          omega
        · exact ih later

theorem readChunks {list : List Chunk}
    (fit : ∀ chunk ∈ list, pageOffset chunk.address + chunk.size ≤ pageSize) :
    Congruent (readChunks list) := by
  induction list with
  | nil => exact .pure _
  | cons chunk rest ih =>
      rw [readChunks_cons]
      refine .bind (readWithin _ (fit chunk List.mem_cons_self)) fun front => ?_
      exact .bind (ih fun chunk member => fit chunk (List.mem_cons_of_mem _ member)) fun back =>
        .pure _

theorem writeChunks {access : Access} {list : List Chunk} (bytes : Bytes)
    (fit : ∀ chunk ∈ list, pageOffset chunk.address + chunk.size ≤ pageSize) :
    Congruent (writeChunks access list bytes) := by
  induction list generalizing bytes with
  | nil => exact .pure _
  | cons chunk rest ih =>
      rw [writeChunks_cons]
      refine .bind (writeWithin access ?_) fun _ => ?_
      · have taken : (bytes.take chunk.size).length ≤ chunk.size := List.length_take_le ..
        have room := fit chunk List.mem_cons_self
        omega
      · exact ih _ fun chunk member => fit chunk (List.mem_cons_of_mem _ member)

theorem readBytes (address size : Nat) : Congruent (readBytes address size) :=
  .bind (checkRange ..) fun _ => readChunks fun _ member => chunk_fits member

theorem writeBytes (address : Nat) (bytes : Bytes) : Congruent (writeBytes address bytes) :=
  .bind (checkRange ..) fun _ => writeChunks bytes fun _ member => chunk_fits member

theorem preload (address : Nat) (bytes : Bytes) : Congruent (preload address bytes) :=
  .bind (checkRange ..) fun _ => writeChunks bytes fun _ member => chunk_fits member

theorem readStringFrom (start limit address : Nat) :
    Congruent (readStringFrom start limit address) := by
  induction limit generalizing address with
  | zero => exact .throw _
  | succ limit ih =>
      have inside : pageOffset address + 1 ≤ pageSize := Nat.mod_lt address (by decide)
      rw [readStringFrom_succ]
      refine .bind (readWithin _ inside) fun bytes => .ite (fun _ => .pure _) fun _ => ?_
      exact .bind (ih (address + 1)) fun _ => .pure _

theorem readString (address limit : Nat) : Congruent (readString address limit) :=
  readStringFrom address limit address

/-! ## Pages -/

theorem ensureAllMapped (pages : List Nat) : Congruent (ensureAllMapped pages) := by
  induction pages with
  | nil => exact .pure _
  | cons page rest ih =>
      rw [ensureAllMapped_cons]
      exact .bind (touch page) fun _ => ih

theorem mapAll : Congruent mapAll :=
  .get_bind (fun left right layout => by rw [layout]) fun _ => ensureAllMapped _

end Congruent

/-- Memories of the same mode map their pages alike. -/
theorem agrees_mapEagerly {excused : Fault → Prop} {related : Memory → Memory → Prop}
    (respected : Respected excused related)
    (modes : ∀ {left right}, related left right → left.space.mode = right.space.mode) :
    Agrees excused related Eq mapEagerly mapEagerly := by
  apply Agrees.get_bind
  intro left right states
  rw [modes states]
  exact .ite (fun _ => Congruent.mapAll.agrees respected) fun _ => .pure rfl

end NestedMachine.Memory
