import NestedMachine.Proofs.Memory.Transfers
import NestedMachine.Proofs.Program.Images

/-!
# What a loader leaves

A loader puts one piece after the other into an address space that shows nothing but zeros: the
code, the data, the argument strings from the top of the stack downwards, and the words of the array
below them from its start upwards.  What the memory shows then is told by the list of the pieces
(`Memory.Assembled`): the piece that was put down last decides, and where there is none there is
zero.

The pieces are apart.  The strings hang one below the other (`Loading.Strung`), so that none reaches
into another; the array ends below the last of them, because its end is rounded down to a multiple
of the word size before it is measured out; and data and code end below the stack.  Among pieces
that are apart the order does not matter, and every one of them reads as it was put down
(`Memory.Assembled.bytesAt_of_mem`).

The main result is `Loading.loaded_or_given_back`.
-/

namespace NestedMachine

set_option autoImplicit false

/-! ## Pieces -/

/-- Bytes and the address where they were put. -/
structure Piece where
  address : Nat
  bytes : Bytes

namespace Piece

/-- The address behind a piece. -/
def stop (piece : Piece) : Nat := piece.address + piece.bytes.length

/-- A piece that starts no lower than `low` and ends no higher than `high`. -/
def Within (low high : Nat) (piece : Piece) : Prop := low ≤ piece.address ∧ piece.stop ≤ high

/-- Pieces of which one ends before the other starts. -/
def Apart (piece other : Piece) : Prop := piece.stop ≤ other.address ∨ other.stop ≤ piece.address

/-- The byte at an address after pieces were put over zeros, the first of the list last. -/
def byteOf : List Piece → Nat → UInt8
  | [], _ => 0
  | piece :: rest, place =>
      if piece.address ≤ place ∧ place < piece.stop then piece.bytes[place - piece.address]?.getD 0
      else byteOf rest place

variable {pieces : List Piece} {piece : Piece} {place : Nat}

theorem Apart.symm {other : Piece} (apart : piece.Apart other) : other.Apart piece := Or.symm apart

/-- Among pieces that are apart, every piece decides what is shown where it was put. -/
theorem byteOf_of_mem (apart : pieces.Pairwise Apart) (member : piece ∈ pieces)
    (above : piece.address ≤ place) (below : place < piece.stop) :
    byteOf pieces place = piece.bytes[place - piece.address]?.getD 0 := by
  induction pieces with
  | nil => cases member
  | cons first rest ih =>
      obtain ⟨others, apart⟩ := List.pairwise_cons.mp apart
      obtain rfl | later := List.mem_cons.mp member
      · exact if_pos ⟨above, below⟩
      · have outside : ¬(first.address ≤ place ∧ place < first.stop) := by
          obtain before | behind := others piece later <;> omega
        rw [byteOf, if_neg outside]
        exact ih apart later

/-- Where no piece was put there is zero. -/
theorem byteOf_of_outside
    (outside : ∀ piece ∈ pieces, ¬(piece.address ≤ place ∧ place < piece.stop)) :
    byteOf pieces place = 0 := by
  induction pieces with
  | nil => rfl
  | cons first rest ih =>
      obtain ⟨here, later⟩ := List.forall_mem_cons.mp outside
      rw [byteOf, if_neg here]
      exact ih later

/-- Pieces below a bound are apart from those above it. -/
theorem apart_of_within {low middle high : Nat} {other : Piece} (below : piece.Within low middle)
    (above : other.Within middle high) : piece.Apart other :=
  .inl (below.2.trans above.1)

end Piece

namespace Memory

variable {around : Surroundings} {memory after : Memory} {layout : Layout} {pieces : List Piece}

/-- The word at an address. -/
def wordAt (memory : Memory) (address : Nat) : Nat := Bytes.toNat (memory.bytesAt address wordSize)

/-! ## Memories that are put together -/

/-- A memory with the given layout that shows pieces over zeros. -/
structure Assembled (around : Surroundings) (layout : Layout) (pieces : List Piece)
    (memory : Memory) : Prop where
  sound : memory.Sound around
  layout : memory.space.layout = layout
  bytes : ∀ place, memory.byteAt place = Piece.byteOf pieces place

namespace Assembled

/-- What is put into a range is one piece more. -/
theorem stored (assembled : Assembled around layout pieces memory) {address : Nat} {bytes : Bytes}
    (stored : Stored around address bytes memory after) :
    Assembled around layout (⟨address, bytes⟩ :: pieces) after where
  sound := stored.sound
  layout := stored.layout.trans assembled.layout
  bytes place := by
    rw [stored.bytes, assembled.bytes]
    rfl

/-- **Pieces that are apart read as they were put down.** -/
theorem bytesAt_of_mem (assembled : Assembled around layout pieces memory)
    (apart : pieces.Pairwise Piece.Apart) {piece : Piece} (member : piece ∈ pieces) :
    memory.bytesAt piece.address piece.bytes.length = piece.bytes := by
  apply List.ext_getElem
  · simp [bytesAt]
  · intro place _ inside
    have below : piece.address + place < piece.stop := Nat.add_lt_add_left inside _
    simp [bytesAt, assembled.bytes, Piece.byteOf_of_mem apart member (Nat.le_add_right _ _) below,
      inside]

end Assembled

theorem Sound.stored_store (sound : memory.Sound around) {address : Nat} {value : UInt64}
    (done : store address value memory = .ok () after) :
    Stored around address (Bytes.ofNat wordSize value.toNat) memory after := by
  rw [store_eq, requireAligned] at done
  split at done
  · rename_i aligned
    obtain ⟨_, checked, check, done⟩ := ok_of_bind (show (checkRange address wordSize .write >>= _)
      memory = _ from done)
    obtain rfl := eq_of_checkRange check
    have length := Congruent.length_ofNat wordSize value.toNat
    have fits : pageOffset address + (Bytes.ofNat wordSize value.toNat).length ≤ pageSize := by
      rw [length]
      exact Congruent.pageOffset_add_le aligned (.inr rfl)
    have accessed := sound.writeWithin .write fits
    rw [done] at accessed
    cases accessed with
    | done allowed unlocked written =>
        exact List.append_nil (Bytes.ofNat wordSize value.toNat) ▸
          written.stored fits (.nil written.sound _)
  · cases done

end Memory

namespace Loading

open Memory

variable {around : Surroundings} {memory after : Memory} {layout : Layout} {pieces : List Piece}

/-! ## Argument strings -/

/-- The bytes of an argument and the zero that closes it. -/
def closed (argument : String) : Bytes := Bytes.ofString argument ++ [0]

/-- Argument strings that hang from `top` down to `bottom`, each below the one before and none of
them below `limit`. -/
inductive Strung (limit : Nat) : List String → Nat → List Piece → Nat → Prop
  | nil (top : Nat) : Strung limit [] top [] top
  | cons {argument : String} {rest : List String} {start bottom : Nat} {strings : List Piece}
      (room : limit ≤ start) (below : Strung limit rest start strings bottom) :
      Strung limit (argument :: rest) (start + (closed argument).length)
        (⟨start, closed argument⟩ :: strings) bottom

namespace Strung

variable {limit top bottom : Nat} {arguments : List String} {strings : List Piece}

theorem bytes (strung : Strung limit arguments top strings bottom) :
    strings.map Piece.bytes = arguments.map closed := by
  induction strung with
  | nil top => rfl
  | cons room below ih => rw [List.map_cons, List.map_cons, ih]

theorem bounds (strung : Strung limit arguments top strings bottom) (room : limit ≤ top) :
    limit ≤ bottom ∧ bottom ≤ top := by
  induction strung with
  | nil top => exact ⟨room, le_rfl⟩
  | cons above below ih => exact ⟨(ih above).1, (ih above).2.trans (Nat.le_add_right _ _)⟩

theorem within (strung : Strung limit arguments top strings bottom) :
    ∀ string ∈ strings, string.Within bottom top := by
  induction strung with
  | nil top => exact fun _ member => nomatch member
  | cons room below ih =>
      refine List.forall_mem_cons.mpr ⟨⟨(below.bounds room).2, le_rfl⟩, fun string member => ?_⟩
      exact ⟨(ih string member).1, (ih string member).2.trans (Nat.le_add_right _ _)⟩

/-- **No string reaches into another.** -/
theorem apart (strung : Strung limit arguments top strings bottom) :
    strings.Pairwise Piece.Apart := by
  induction strung with
  | nil top => exact .nil
  | cons room below ih =>
      exact .cons (fun string member => .inr (below.within string member).2) ih

end Strung

/-- Stack space is reserved below the top and above the limit, and nothing else happens. -/
theorem of_reserve {top size start : Nat}
    (done : reserve top size memory = .ok start after) :
    after = memory ∧ start + size = top ∧ memory.space.layout.stackLimit ≤ start := by
  unfold reserve at done
  rw [get_bind_apply] at done
  split at done
  · cases done
  · rename_i room
    cases done
    exact ⟨rfl, by omega, by omega⟩

/-- **The argument strings are put below each other.** -/
theorem strung_of_pushArguments {arguments : List String} {top bottom : Nat} {starts : List Nat}
    (assembled : Assembled around layout pieces memory)
    (done : pushArguments arguments top memory = .ok (bottom, starts) after) :
    ∃ strings, Strung layout.stackLimit arguments top strings bottom ∧
      starts = strings.map Piece.address ∧
      Assembled around layout (strings.reverse ++ pieces) after := by
  induction arguments generalizing top starts pieces memory with
  | nil =>
      cases done
      exact ⟨[], .nil _, rfl, assembled⟩
  | cons argument rest ih =>
      rw [pushArguments] at done
      obtain ⟨start, reserved, reservation, writing⟩ := ok_of_bind done
      obtain ⟨rfl, rfl, room⟩ := of_reserve reservation
      obtain ⟨_, written, write, pushing⟩ := ok_of_bind writing
      obtain ⟨⟨bottom', starts'⟩, pushed, push, answer⟩ := ok_of_bind pushing
      cases answer
      have stored := assembled.sound.stored_writeBytes write
      obtain ⟨strings, strung, rfl, assembled'⟩ := ih (assembled.stored stored) push
      refine ⟨_, .cons (assembled.layout ▸ room) strung, rfl, ?_⟩
      rw [List.reverse_cons, List.append_assoc]
      exact assembled'

/-! ## Words -/

/-- Words that lie one after the other. -/
def wordPieces : Nat → List Nat → List Piece
  | _, [] => []
  | address, word :: rest =>
      ⟨address, Bytes.ofNat wordSize (UInt64.ofNat word).toNat⟩ ::
        wordPieces (address + wordSize) rest

theorem getElem?_wordPieces (address : Nat) (words : List Nat) (place : Nat) :
    (wordPieces address words)[place]? = words[place]?.map fun word =>
      ⟨address + wordSize * place, Bytes.ofNat wordSize (UInt64.ofNat word).toNat⟩ := by
  induction words generalizing address place with
  | nil => rfl
  | cons word rest ih =>
      cases place with
      | zero => rfl
      | succ place =>
          rw [wordPieces, List.getElem?_cons_succ, List.getElem?_cons_succ, ih]
          simp only [Nat.mul_succ, Nat.add_comm (wordSize * place), Nat.add_assoc]

theorem within_wordPieces (address : Nat) (words : List Nat) :
    ∀ word ∈ wordPieces address words, word.Within address (address + wordSize * words.length) := by
  induction words generalizing address with
  | nil => exact fun _ member => nomatch member
  | cons word rest ih =>
      rw [List.length_cons, Nat.mul_succ]
      refine List.forall_mem_cons.mpr ⟨⟨le_rfl, ?_⟩, fun piece member => ?_⟩
      · simp only [Piece.stop, Congruent.length_ofNat]
        omega
      · obtain ⟨low, high⟩ := ih _ piece member
        exact ⟨(Nat.le_add_right _ _).trans low, by omega⟩

theorem apart_wordPieces (address : Nat) (words : List Nat) :
    (wordPieces address words).Pairwise Piece.Apart := by
  induction words generalizing address with
  | nil => exact .nil
  | cons word rest ih =>
      refine .cons (fun piece member => .inl ?_) (ih _)
      simp only [Piece.stop, Congruent.length_ofNat]
      exact (within_wordPieces _ _ piece member).1

/-- **Words are put one after the other.** -/
theorem assembled_storeWords {words : List Nat} {address : Nat}
    (assembled : Assembled around layout pieces memory)
    (done : storeWords address words memory = .ok () after) :
    Assembled around layout ((wordPieces address words).reverse ++ pieces) after := by
  induction words generalizing address pieces memory with
  | nil =>
      cases done
      exact assembled
  | cons word rest ih =>
      obtain ⟨_, stored, store, done⟩ := ok_of_bind done
      have assembled' := ih (assembled.stored (assembled.sound.stored_store store)) done
      rw [wordPieces, List.reverse_cons, List.append_assoc]
      exact assembled'

/-! ## The stack -/

/-- The array below the argument strings: their number, a pointer to each, and a zero. -/
def argumentWords (strings : List Piece) : List Nat :=
  strings.length :: (strings.map Piece.address ++ [0])

theorem length_argumentWords (strings : List Piece) :
    (argumentWords strings).length = strings.length + 2 := by
  simp [argumentWords]

/-- What is put into an address space: the array at the stack pointer, the argument strings, and
what was there before. -/
def stackPieces (stackPointer : Nat) (strings pieces : List Piece) : List Piece :=
  (wordPieces stackPointer (argumentWords strings)).reverse ++ (strings.reverse ++ pieces)

/-- **The stack is the array, at a multiple of the word size, and the strings above it.** -/
theorem assembled_buildStack {arguments : List String} {stackPointer : Nat}
    (assembled : Assembled around layout pieces memory)
    (done : buildStack arguments memory = .ok stackPointer after) :
    ∃ strings bottom, Strung layout.stackLimit arguments addressSpaceSize strings bottom ∧
      stackPointer % wordSize = 0 ∧ layout.stackLimit ≤ stackPointer ∧
      stackPointer + wordSize * (strings.length + 2) ≤ bottom ∧
      Assembled around layout (stackPieces stackPointer strings pieces) after := by
  obtain ⟨⟨bottom, starts⟩, pushed, push, reserving⟩ := ok_of_bind done
  obtain ⟨strings, strung, rfl, assembled⟩ := strung_of_pushArguments assembled push
  obtain ⟨start, reserved, reservation, storing⟩ := ok_of_bind reserving
  obtain ⟨rfl, aligned, room⟩ := of_reserve reservation
  obtain ⟨_, stored, store, answer⟩ := ok_of_bind storing
  cases answer
  have count : arguments.length = strings.length := by
    simpa using (congrArg List.length strung.bytes).symm
  rw [count] at aligned store
  refine ⟨strings, bottom, strung, ?_, assembled.layout ▸ room, ?_,
    assembled_storeWords assembled store⟩
  · simp only [wordSize] at aligned ⊢
    omega
  · simp only [wordSize] at aligned ⊢
    omega

/-- What an address space shows after a program was put into it. -/
theorem assembled_populate {image : Image} {arguments : List String} {stackPointer : Nat}
    (shows : Shows around memory (.blank layout))
    (done : populate image arguments memory = .ok stackPointer after) :
    ∃ strings bottom, Strung layout.stackLimit arguments addressSpaceSize strings bottom ∧
      stackPointer % wordSize = 0 ∧ layout.stackLimit ≤ stackPointer ∧
      stackPointer + wordSize * (strings.length + 2) ≤ bottom ∧
      Assembled around layout (stackPieces stackPointer strings
        [⟨layout.dataStart, image.data⟩, ⟨codeStart, image.code⟩]) after := by
  rw [populate_eq] at done
  obtain ⟨_, mapped, eager, filling⟩ := ok_of_bind done
  have blank : Shows around mapped (.blank layout) := by
    have agree : Agree Dry (Shows around) Eq (mapEagerly memory) (.ok () (.blank layout)) := by
      unfold mapEagerly
      rw [get_bind_apply]
      split
      · exact shows.ensureAllMapped _
      · exact .answer rfl shows
    rw [eager] at agree
    cases agree with
    | answer same shows => exact shows
  have assembled : Assembled around layout [] mapped := ⟨blank.sound, blank.layout, blank.bytes⟩
  obtain ⟨_, coded, code, filling⟩ := ok_of_bind filling
  have assembled := assembled.stored (assembled.sound.stored_preload code)
  rw [get_bind_apply, assembled.layout] at filling
  obtain ⟨_, filled, data, building⟩ := ok_of_bind filling
  have assembled := assembled.stored (assembled.sound.stored_preload data)
  exact assembled_buildStack assembled building

/-- **Nothing that is put into an address space reaches into anything else.** -/
theorem apart_stackPieces {limit stackPointer bottom : Nat} {arguments : List String}
    {strings : List Piece} (strung : Strung limit arguments addressSpaceSize strings bottom)
    (low : limit ≤ stackPointer) (room : stackPointer + wordSize * (strings.length + 2) ≤ bottom)
    (below : ∀ piece ∈ pieces, piece.Within 0 limit) (apart : pieces.Pairwise Piece.Apart) :
    (stackPieces stackPointer strings pieces).Pairwise Piece.Apart := by
  have words := within_wordPieces stackPointer (argumentWords strings)
  rw [length_argumentWords] at words
  refine List.pairwise_append.mpr ⟨?_, List.pairwise_append.mpr ⟨?_, apart, ?_⟩, ?_⟩
  · exact List.pairwise_reverse.mpr ((apart_wordPieces _ _).imp Piece.Apart.symm)
  · exact List.pairwise_reverse.mpr (strung.apart.imp Piece.Apart.symm)
  · intro string member piece member'
    have within := strung.within string (List.mem_reverse.mp member)
    have above : string.Within limit addressSpaceSize := ⟨by have := within.1; omega, within.2⟩
    exact (Piece.apart_of_within (below piece member') above).symm
  · intro word member piece member'
    obtain ⟨start, stop⟩ := words word (List.mem_reverse.mp member)
    obtain string | other := List.mem_append.mp member'
    · have within := strung.within piece (List.mem_reverse.mp string)
      exact Piece.apart_of_within ⟨start, stop.trans room⟩ within
    · exact (Piece.apart_of_within (below piece other) ⟨low.trans start, stop⟩).symm

/-- The words of the array read as they were stored. -/
theorem wordAt_of_assembled {stackPointer place word : Nat} {strings : List Piece}
    (assembled : Assembled around layout (stackPieces stackPointer strings pieces) memory)
    (apart : (stackPieces stackPointer strings pieces).Pairwise Piece.Apart)
    (found : (argumentWords strings)[place]? = some word) (small : word ≤ addressSpaceSize) :
    memory.wordAt (stackPointer + wordSize * place) = word := by
  have piece := getElem?_wordPieces stackPointer (argumentWords strings) place
  rw [found, Option.map_some] at piece
  have member := List.mem_of_getElem? piece
  have shown := assembled.bytesAt_of_mem apart
    (List.mem_append_left _ (List.mem_reverse.mpr member))
  rw [Congruent.length_ofNat] at shown
  rw [wordAt, shown, Bytes.toNat_ofNat, UInt64.toNat_ofNat']
  simp only [addressSpaceSize, wordSize] at small ⊢
  omega

/-- Arguments handed over in an array of words at `top`: their number, a pointer to the string of
each, and a zero.  The strings lie above the array, each is closed by a zero byte, and none reaches
into another. -/
structure Handed (arguments : List String) (top : Nat) (strings : List Piece)
    (memory : Memory) : Prop where
  count : memory.wordAt top = arguments.length
  pointers : ∀ place string, strings[place]? = some string →
    memory.wordAt (top + wordSize * (place + 1)) = string.address
  ending : memory.wordAt (top + wordSize * (arguments.length + 1)) = 0
  texts : strings.map Piece.bytes = arguments.map closed
  shown : ∀ string ∈ strings, memory.bytesAt string.address string.bytes.length = string.bytes
  above : ∀ string ∈ strings,
    string.Within (top + wordSize * (arguments.length + 2)) addressSpaceSize
  apart : strings.Pairwise Piece.Apart

theorem Handed.length {arguments : List String} {top : Nat} {strings : List Piece}
    (handed : Handed arguments top strings memory) : arguments.length = strings.length := by
  simpa using (congrArg List.length handed.texts).symm

/-- **The stack that is built hands over the arguments.** -/
theorem handed_of_assembled {limit top bottom : Nat} {arguments : List String}
    {strings : List Piece} (strung : Strung limit arguments addressSpaceSize strings bottom)
    (room : top + wordSize * (strings.length + 2) ≤ bottom) (inside : bottom ≤ addressSpaceSize)
    (assembled : Assembled around layout (stackPieces top strings pieces) memory)
    (apart : (stackPieces top strings pieces).Pairwise Piece.Apart) :
    Handed arguments top strings memory := by
  have length : arguments.length = strings.length := by
    simpa using (congrArg List.length strung.bytes).symm
  have few : strings.length ≤ addressSpaceSize := by
    simp only [wordSize] at room
    omega
  constructor
  case count =>
    have word : (argumentWords strings)[0]? = some strings.length := rfl
    exact (wordAt_of_assembled assembled apart word few).trans length.symm
  case pointers =>
    intro place string found
    have word : (argumentWords strings)[place + 1]? = some string.address := by
      have short := (List.getElem?_eq_some_iff.mp found).1
      rw [argumentWords, List.getElem?_cons_succ, List.getElem?_append_left (by simpa using short),
        List.getElem?_map, found]
      rfl
    have within := (strung.within string (List.mem_of_getElem? found)).2
    exact wordAt_of_assembled assembled apart word ((Nat.le_add_right _ _).trans within)
  case ending =>
    have word : (argumentWords strings)[strings.length + 1]? = some 0 := by
      rw [argumentWords, List.getElem?_cons_succ, List.getElem?_append_right (by simp)]
      simp
    rw [length]
    exact wordAt_of_assembled assembled apart word (Nat.zero_le _)
  case texts => exact strung.bytes
  case shown =>
    intro string member
    refine assembled.bytesAt_of_mem apart (List.mem_append_right _ ?_)
    exact List.mem_append_left _ (List.mem_reverse.mpr member)
  case above =>
    intro string member
    have within := strung.within string member
    exact ⟨length ▸ room.trans within.1, within.2⟩
  case apart => exact strung.apart

/-! ## A program about to start -/

/-- Where the stack of a context ends. -/
def stackPointer (context : Context) : Nat := (context.register Register.sp).toNat

/-- A context that a program was just loaded into: the hart is at the entry, the stack pointer is
the only register that is not zero, code and data are those of the image, the arguments are handed
over at the stack pointer, and everything else above the data is zero. -/
structure Furnished (image : Image) (options : LoadOptions) (strings : List Piece)
    (context : Context) (memory : Memory) : Prop where
  layout : Layout.ofSizes image.code.length image.data.length options.stackSize =
    .ok context.space.layout
  pc : context.hart.pc.toNat = image.entry
  registers : ∀ register, register ≠ Register.sp → context.register register = 0
  aligned : stackPointer context % wordSize = 0
  inside : context.space.layout.stackLimit ≤ stackPointer context ∧
    stackPointer context < addressSpaceSize
  code : context.space.layout.codeEnd = codeStart + image.code.length ∧
    memory.bytesAt codeStart image.code.length = image.code
  data : context.space.layout.dataEnd = context.space.layout.dataStart + image.data.length ∧
    memory.bytesAt context.space.layout.dataStart image.data.length = image.data
  handed : Handed options.arguments (stackPointer context) strings memory
  zero : ∀ place, context.space.layout.dataEnd ≤ place →
    ¬(stackPointer context ≤ place ∧
      place < stackPointer context + wordSize * (options.arguments.length + 2)) →
    (∀ string ∈ strings, ¬(string.address ≤ place ∧ place < string.stop)) →
    memory.byteAt place = 0

/-- The journal does not matter. -/
theorem Furnished.of_noted {image : Image} {options : LoadOptions} {strings : List Piece}
    {context : Context} {space : AddressSpace} {pool : FramePool} {journal journal' : Journal}
    (furnished : Furnished image options strings context ⟨space, pool, journal⟩) :
    Furnished image options strings context ⟨space, pool, journal'⟩ :=
  { furnished with handed := { furnished.handed with } }

/-- The entry of a valid image lies in its code. -/
theorem entry_lt_of_validate {image : Image} (valid : image.validate = .ok ()) :
    image.entry < codeStart + image.code.length := by
  unfold Image.validate at valid
  split at valid
  · cases valid
  · split at valid
    · cases valid
    · split at valid
      · cases valid
      · rename_i inside
        exact not_le.mp (not_or.mp (not_or.mp inside).2).1

/-- The first hart of a program has nothing in its registers but the stack pointer. -/
theorem register_firstHart (image : Image) (space : AddressSpace) (top register : Nat) :
    (Context.start space (firstHart image top)).register register =
      if register = Register.sp then UInt64.ofNat top else 0 := by
  show (Registers.zero.write Register.sp (UInt64.ofNat top)).read register = _
  rw [Registers.read_write (by decide), Registers.read_zero]
  exact if_congr (and_iff_left_of_imp fun here => here ▸ (by decide)) rfl rfl

/-- **Whatever is put into a new address space is found in it.** -/
theorem furnished_of_populate {image : Image} {options : LoadOptions} {top : Nat}
    (made : layoutOf image options = .ok layout) (shows : Shows around memory (.blank layout))
    (done : populate image options.arguments memory = .ok top after) :
    ∃ strings,
      Furnished image options strings (.start after.space (firstHart image top)) after := by
  obtain ⟨valid, sizes⟩ := of_layoutOf made
  have planned := Layout.planned_of_ofSizes sizes
  have ordered := Layout.ordered_of_ofSizes sizes
  obtain ⟨strings, bottom, strung, aligned, low, room, assembled⟩ := assembled_populate shows done
  have codeEnd : codeStart + image.code.length ≤ layout.dataStart :=
    planned.codeEnd ▸ ordered.codeEnd_le
  have dataEnd : layout.dataStart + image.data.length ≤ layout.stackLimit :=
    planned.dataEnd ▸ ordered.dataEnd_le.trans planned.room
  have apart : (stackPieces top strings
      [⟨layout.dataStart, image.data⟩, ⟨codeStart, image.code⟩]).Pairwise Piece.Apart := by
    refine apart_stackPieces strung low room ?_ (List.pairwise_pair.mpr (.inr codeEnd))
    refine List.forall_mem_cons.mpr ⟨⟨Nat.zero_le _, dataEnd⟩, List.forall_mem_singleton.mpr ?_⟩
    exact ⟨Nat.zero_le _, codeEnd.trans ((Nat.le_add_right _ _).trans dataEnd)⟩
  have high := (strung.bounds ordered.stackLimit_le).2
  have handed := handed_of_assembled strung room high assembled apart
  have below : top < addressSpaceSize := by
    simp only [wordSize] at room
    omega
  have registers := register_firstHart image after.space top
  have pointer : stackPointer (.start after.space (firstHart image top)) = top := by
    rw [stackPointer, registers, if_pos rfl, UInt64.toNat_ofNat']
    exact Nat.mod_eq_of_lt (below.trans (by decide))
  have layout' : (Context.start after.space (firstHart image top)).space.layout = layout :=
    assembled.layout
  have pc : (Context.start after.space (firstHart image top)).hart.pc.toNat = image.entry := by
    have entry := entry_lt_of_validate valid
    have top := codeEnd.trans ((Nat.le_add_right _ _).trans (dataEnd.trans ordered.stackLimit_le))
    exact Nat.mod_eq_of_lt ((entry.trans_le top).trans (by decide))
  generalize Context.start after.space (firstHart image top) = context at *
  refine ⟨strings, ?_⟩
  constructor
  case layout => exact layout' ▸ sizes
  case pc => exact pc
  case registers => exact fun register other => (registers register).trans (if_neg other)
  case aligned => exact pointer ▸ aligned
  case inside => exact ⟨layout' ▸ pointer ▸ low, pointer ▸ below⟩
  case handed => exact pointer ▸ handed
  case code =>
    refine ⟨layout' ▸ planned.codeEnd, @Assembled.bytesAt_of_mem _ _ _ _ assembled apart
      ⟨codeStart, image.code⟩ ?_⟩
    exact List.mem_append_right _ (List.mem_append_right _ (.tail _ (.head _)))
  case data =>
    rw [layout']
    refine ⟨planned.dataEnd, @Assembled.bytesAt_of_mem _ _ _ _ assembled apart
      ⟨layout.dataStart, image.data⟩ ?_⟩
    exact List.mem_append_right _ (List.mem_append_right _ (.head _))
  case zero =>
    intro place behind array others
    rw [layout', planned.dataEnd] at behind
    rw [pointer, handed.length] at array
    rw [assembled.bytes]
    refine Piece.byteOf_of_outside fun piece member inside => ?_
    obtain word | member := List.mem_append.mp member
    · have within := within_wordPieces top _ piece (List.mem_reverse.mp word)
      rw [length_argumentWords] at within
      exact array ⟨within.1.trans inside.1, inside.2.trans_le within.2⟩
    · obtain string | segment := List.mem_append.mp member
      · exact others piece (List.mem_reverse.mp string) inside
      · simp only [List.mem_cons, List.not_mem_nil, or_false] at segment
        obtain rfl | rfl := segment <;> simp only [Piece.stop] at inside <;> omega

/-- **A load leaves a program about to start, or gives back what it took.**  Whatever the image, the
arguments, the memory mode, the stack size and the pool, a context that is loaded is furnished, and
after a load that fails the same frames are handed out as before. -/
theorem loaded_or_given_back {pool : FramePool} (consistent : pool.Consistent) (id : ContextId)
    (image : Image) (options : LoadOptions) (journal : Journal) :
    (∀ context pool' journal',
      load id image options pool journal = (.ok context, pool', journal') →
      ∃ strings, Furnished image options strings context ⟨context.space, pool', journal'⟩) ∧
    (∀ error pool' journal',
      load id image options pool journal = (.error error, pool', journal') →
      pool'.inUse = pool.inUse ∧ ∀ frame, pool'.isTaken frame = pool.isTaken frame) := by
  have held : pool.HeldBy ⟨pool.taken, pool.contents, pool.capacity⟩ :=
    ⟨consistent, rfl, rfl, fun _ _ => rfl⟩
  refine ⟨fun context pool' journal' loaded => ?_, fun error pool' journal' failed => ?_⟩
  · unfold load at loaded
    split at loaded
    · cases loaded
    · rename_i layout made
      have shows := shows_blank (of_layoutOf made).2 (codeEnd_of_layoutOf made).1 options.mode
        consistent journal
      split at loaded
      · rename_i top memory run
        obtain ⟨same, rfl, rfl⟩ : _ ∧ _ ∧ _ := by simpa only [Prod.mk.injEq] using loaded
        obtain rfl := Except.ok.inj same
        obtain ⟨strings, furnished⟩ := furnished_of_populate made shows run
        exact ⟨strings, furnished.of_noted⟩
      · cases loaded
  · have outcome := outcome_load held id image options journal
    rw [failed] at outcome
    cases outcome with
    | failed held' =>
        have same : pool'.taken = pool.taken := held'.taken
        refine ⟨?_, fun frame => ?_⟩
        · rw [held'.consistent.inUse, consistent.inUse, same]
        · rw [Bool.eq_iff_iff, ← FramePool.mem_taken, ← FramePool.mem_taken, same]

/-- Two arguments, one of them empty: the array lies at the multiple of eight below both strings.
On two frames a program with data finds no room for its stack, and takes none. -/
theorem loaded_with_empty_argument :
    (FramePool.empty 3).Consistent ∧
    (∃ context pool journal strings,
      load 1 (.ofWords [Instruction.encode .ecall] [7]) ⟨.demand, 4096, ["go", ""]⟩ (.empty 3)
        .silent = (.ok context, pool, journal) ∧
      stackPointer context = 0xFFFFFFD8 ∧
      Furnished (.ofWords [Instruction.encode .ecall] [7]) ⟨.demand, 4096, ["go", ""]⟩ strings
        context ⟨context.space, pool, journal⟩) ∧
    (∃ error pool journal,
      load 1 (.ofWords [Instruction.encode .ecall] [7]) ⟨.demand, 4096, ["go", ""]⟩ (.empty 2)
        .silent = (.error error, pool, journal) ∧ pool.inUse = 0) := by
  refine ⟨FramePool.consistent_empty 3, ?_, ?_⟩
  · have pointer : (load 1 (.ofWords [Instruction.encode .ecall] [7]) ⟨.demand, 4096, ["go", ""]⟩
        (.empty 3) .silent).1.toOption.map stackPointer = some 0xFFFFFFD8 := by
      decide +kernel
    have loads := (loaded_or_given_back (FramePool.consistent_empty 3) 1
      (.ofWords [Instruction.encode .ecall] [7]) ⟨.demand, 4096, ["go", ""]⟩ .silent).1
    generalize load _ _ _ _ _ = result at pointer loads ⊢
    obtain ⟨answer, pool, journal⟩ := result
    cases answer with
    | error error => cases pointer
    | ok context =>
        obtain ⟨strings, furnished⟩ := loads context pool journal rfl
        exact ⟨context, pool, journal, strings, rfl, Option.some.inj pointer, furnished⟩
  · have fails : (load 1 (.ofWords [Instruction.encode .ecall] [7]) ⟨.demand, 4096, ["go", ""]⟩
        (.empty 2) .silent).1.isOk = false := by
      decide +kernel
    have loads := (loaded_or_given_back (FramePool.consistent_empty 2) 1
      (.ofWords [Instruction.encode .ecall] [7]) ⟨.demand, 4096, ["go", ""]⟩ .silent).2
    generalize load _ _ _ _ _ = result at fails loads ⊢
    obtain ⟨answer, pool, journal⟩ := result
    cases answer with
    | error error => exact ⟨error, pool, journal, rfl, (loads error pool journal rfl).1⟩
    | ok context => cases fails

end Loading

end NestedMachine
