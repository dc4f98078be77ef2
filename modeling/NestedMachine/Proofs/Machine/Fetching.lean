import NestedMachine.Proofs.Machine.Heirlooms

/-!
# Instructions that stay where they are

A word can be fetched from an address if the address is aligned, lies in the code segment and on a
page that is mapped, and the word is seen there (`Memory.Fetchable`).  This is just when a fetch
gives the word and needs no frame (`Memory.Fetchable.fetch`, `Memory.Sound.fetchable_of_fetch`).

Nobody writes where instructions are, since code is locked (`Memory.guarded_fetchable`), and the
program break moves above them (`Memory.keeps_fetchable_setProgramBreak`).  So an instruction that
has been fetched is an heirloom (`Memory.heirloom_fetchable`).

A run that ends in an environment call leaves its hart standing on the call
(`Hart.fetchable_of_run`).  A hart that stands on a call carries out nothing else: however long it
runs, it stays where it is (`Hart.run_of_fetchable`).
-/

namespace NestedMachine

set_option autoImplicit false

namespace Memory

variable {around : Surroundings} {memory before after : Memory} {address : Nat} {word : Word}

/-! ## Where code lies -/

/-- What is not locked for writing lies above the code. -/
theorem codeEnd_le_of_unlocked {layout : Layout} {address : Nat}
    (unlocked : ¬Locked layout address .write) : layout.codeEnd ≤ address := by
  have above : layout.codeEnd ≤ pageAddress (pageOf address) :=
    not_lt.mp fun low => unlocked ⟨rfl, low⟩
  exact above.trans (Nat.div_mul_le_self address pageSize)

/-- Pages of the code lie below the pages of the heap. -/
theorem pageOf_lt_heapTop {layout : Layout} (ordered : layout.Ordered) {address : Nat}
    (below : address < layout.codeEnd) (programBreak : Nat) :
    pageOf address < heapTop layout programBreak := by
  have low : address < layout.heapStart :=
    below.trans_le (ordered.codeEnd_le.trans (ordered.dataStart_le.trans ordered.dataEnd_le))
  refine lt_of_lt_of_le ?_ (le_max_right _ _)
  simp only [lowestHeapPage, pageAbove, alignUp, pageOf, pageSize]
  omega

/-! ## Fetching -/

/-- A word can be fetched from an address: it lies in the code, on a page that is mapped. -/
structure Fetchable (address : Nat) (word : Word) (memory : Memory) : Prop where
  aligned : isAligned address Instruction.size = true
  above : codeStart ≤ address
  below : address < memory.space.layout.codeEnd
  mapped : pageOf address ∈ memory.space.table.domain
  word : BitVec.ofNat 32 (Bytes.toNat (memory.bytesAt address Instruction.size)) = word

/-- **A word that can be fetched is fetched.** -/
theorem Fetchable.fetch (fetchable : memory.Fetchable address word) (sound : memory.Sound around) :
    ∃ after, Memory.fetch address memory = .ok word after ∧
      Touched around (pageOf address) memory after := by
  have fits := Congruent.pageOffset_add_le fetchable.aligned (.inl rfl)
  have accessed := sound.readWithin .fetch fits
  have check : memory.space.layout.check address .fetch = .ok .code := by
    refine Layout.check_eq_ok_iff.mpr ⟨sound.layout.segmentOf?_eq ?_, rfl⟩
    exact Layout.holds_iff.mpr ⟨fetchable.above, fetchable.below⟩
  rw [fetch_eq, requireAligned, if_pos fetchable.aligned]
  show ∃ after, (readWithin address .fetch Instruction.size >>= _) memory = _ ∧ _
  rw [bind_apply, EStateM.bind]
  generalize Memory.readWithin address .fetch Instruction.size memory = result at accessed
  cases accessed with
  | denied reason =>
      rw [check] at reason
      cases reason
  | exhausted allowed missing empty =>
      exact absurd fetchable.mapped (PageTable.notMem_domain.mpr missing)
  | locked allowed lock touched => cases lock.1
  | @done segment bytes after allowed unlocked finish =>
      obtain ⟨touched, rfl⟩ := finish
      exact ⟨after, congrArg (EStateM.Result.ok · after) fetchable.word, touched⟩

/-- **A word that was fetched can be fetched.** -/
theorem Sound.fetchable_of_fetch (sound : memory.Sound around)
    (done : Memory.fetch address memory = .ok word after) :
    after.Sound around ∧ after.Fetchable address word := by
  rw [fetch_eq] at done
  obtain ⟨_, _, aligned, done⟩ := ok_of_bind done
  unfold requireAligned at aligned
  split at aligned
  · rename_i even
    cases aligned
    have fits := Congruent.pageOffset_add_le even (.inl rfl)
    obtain ⟨bytes, finished, read, done⟩ := ok_of_bind done
    have accessed := sound.readWithin .fetch fits
    rw [read] at accessed
    cases done
    cases accessed with
    | @done segment _ _ allowed unlocked finish =>
        obtain ⟨touched, rfl⟩ := finish
        obtain ⟨found, permitted⟩ := Layout.check_eq_ok_iff.mp allowed
        obtain rfl : segment = .code := by
          cases segment <;> first | rfl | cases permitted
        obtain ⟨above, below⟩ := Layout.holds_iff.mp (Layout.holds_of_segmentOf? found)
        obtain ⟨entry, mapped⟩ := touched.mapped
        refine ⟨touched.sound, even, above, ?_, PageTable.mem_domain.mpr ⟨entry, mapped⟩, ?_⟩
        · rw [touched.layout]
          exact below
        · refine congrArg (fun bytes => BitVec.ofNat 32 (Bytes.toNat bytes)) ?_
          exact List.map_congr_left fun place _ => touched.bytes _
  · cases aligned

namespace Fetchable

/-! ## What leaves instructions alone -/

/-- What leaves the code segment, the mapped pages and the bytes of the page leaves it alone. -/
theorem of_page (fetchable : before.Fetchable address word)
    (codeEnd : after.space.layout.codeEnd = before.space.layout.codeEnd)
    (mapped : pageOf address ∈ before.space.table.domain →
      pageOf address ∈ after.space.table.domain)
    (bytes : ∀ place, pageOf place = pageOf address → after.byteAt place = before.byteAt place) :
    after.Fetchable address word where
  aligned := fetchable.aligned
  above := fetchable.above
  below := codeEnd ▸ fetchable.below
  mapped := mapped fetchable.mapped
  word := by
    rw [← fetchable.word]
    refine congrArg (fun bytes => BitVec.ofNat 32 (Bytes.toNat bytes)) ?_
    refine List.map_congr_left fun place inside => bytes _ ?_
    exact pageOf_add (Congruent.pageOffset_add_le fetchable.aligned (.inl rfl))
      (List.mem_range.mp inside)

/-- The bytes that are seen matter, and no journal. -/
theorem of_seen {space : AddressSpace} {pool pool' : FramePool} {journal journal' : Journal}
    (fetchable : Fetchable address word ⟨space, pool, journal⟩)
    (same : ∀ place, byteAt ⟨space, pool', journal'⟩ place = byteAt ⟨space, pool, journal⟩ place) :
    Fetchable address word ⟨space, pool', journal'⟩ :=
  fetchable.of_page rfl (fun there => there) fun place _ => same place

theorem of_touched {page : Nat} (fetchable : before.Fetchable address word)
    (touched : Touched around page before after) : after.Fetchable address word := by
  refine fetchable.of_page (congrArg Layout.codeEnd touched.layout) (fun there => ?_)
    fun place _ => touched.bytes place
  rw [touched.domain]
  exact Finset.mem_insert_of_mem there

/-- **Where nothing is locked there are no instructions.** -/
theorem of_written {place : Nat} {bytes : Bytes} (fetchable : before.Fetchable address word)
    (unlocked : ¬Locked before.space.layout place .write)
    (written : Written around place bytes before after) : after.Fetchable address word := by
  refine fetchable.of_page (congrArg Layout.codeEnd written.layout) (fun there => ?_)
    fun other same => ?_
  · rw [written.domain]
    exact Finset.mem_insert_of_mem there
  · have low := fetchable.below
    have high : before.space.layout.codeEnd ≤ pageAddress (pageOf place) :=
      not_lt.mp fun low => unlocked ⟨rfl, low⟩
    rw [written.bytes, if_neg]
    rintro ⟨above, -⟩
    simp only [pageOf, pageAddress, pageSize] at *
    omega

end Fetchable

/-- **Guests do not write instructions.** -/
theorem guarded_fetchable (around : Surroundings) (address : Nat) (word : Word) :
    Guarded fun memory => memory.Sound around ∧ memory.Fetchable address word := by
  apply guarded_of_sound
  · exact fun page before after touched fetchable => fetchable.of_touched touched
  · exact fun place bytes before after unlocked written fetchable =>
      fetchable.of_written unlocked written
  · exact fun _ _ _ _ fetchable => fetchable.of_seen fun _ => rfl

theorem keeps_fetchable_setProgramBreak (programBreak : Nat) :
    Keeps (fun memory => memory.Sound around ∧ memory.Fetchable address word)
      (setProgramBreak programBreak) := by
  rintro memory ⟨sound, fetchable⟩
  have request := sound.setProgramBreak programBreak
  generalize setProgramBreak programBreak memory = result at request
  cases request with
  | outside reason => exact ⟨sound, fetchable⟩
  | refused inside short => exact ⟨sound, fetchable⟩
  | moved inside backed moved =>
      have low := pageOf_lt_heapTop sound.layout fetchable.below programBreak
      refine ⟨moved.sound, fetchable.of_page ?_ (fun there => ?_) fun place same => ?_⟩
      · rw [moved.layout]
      · rw [moved.domain, pagesAfter]
        split
        · split
          · exact Finset.mem_union_left _ there
          · exact there
        · refine Finset.mem_sdiff.mpr ⟨there, fun freed => ?_⟩
          exact absurd (Finset.mem_Ico.mp freed).1 (not_le.mpr low)
      · rw [moved.bytes, if_neg]
        exact fun freed => absurd freed.1 (not_le.mpr (same ▸ low))

/-- **An instruction is an heirloom.** -/
theorem heirloom_fetchable (address : Nat) (word : Word) : Heirloom (Fetchable address word) where
  seen fetchable shows := fetchable.of_seen shows
  checked around := (guarded_fetchable around address word).toChecked
  mapAll around := (guarded_fetchable around address word).mapAll
  setProgramBreak _ := keeps_fetchable_setProgramBreak
  copied copied contents fetchable :=
    fetchable.of_page (congrArg Layout.codeEnd copied.layout) (copied.domain ▸ fun there => there)
      fun place _ => copied.bytes contents place

end Memory

/-! ## Standing on a call -/

namespace Hart

variable {around : Surroundings} {memory after : Memory} {hart : Hart} {word : Word}
  {tracing : Bool}

/-- A fetch gives a word and goes on with a memory that shows the same. -/
theorem fetchable_of_fetch (sound : memory.Sound around)
    (done : hart.fetch tracing memory = .ok word after) :
    after.Sound around ∧ after.Fetchable hart.pc.toNat word := by
  obtain ⟨_, fetched, fetch, done⟩ := ok_of_bind done
  obtain ⟨sound', fetchable⟩ := sound.fetchable_of_fetch fetch
  cases tracing with
  | false =>
      cases done
      exact ⟨sound', fetchable⟩
  | true =>
      cases done
      have same : Memory.Sound around { fetched with
          journal := fetched.journal.add (.fetched hart.pc word) } :=
        ⟨sound'.consistent, sound'.taken, sound'.capacity, sound'.contents, sound'.permission,
          sound'.layout⟩
      exact ⟨same, fetchable.of_seen fun _ => rfl⟩

theorem fetch_of_fetchable (sound : memory.Sound around)
    (fetchable : memory.Fetchable hart.pc.toNat word) :
    ∃ after, hart.fetch tracing memory = .ok word after := by
  obtain ⟨fetched, fetch, -⟩ := fetchable.fetch sound
  cases tracing with
  | false => exact ⟨_, bind_of_ok fetch _⟩
  | true => exact ⟨_, bind_of_ok fetch _⟩

/-- **A run that ends in a call leaves its hart on the call.** -/
theorem fetchable_of_run (sound : memory.Sound around) {quantum retired : Nat}
    (calls : (hart.run tracing quantum retired memory).ending = .trap .environmentCall) :
    let result := hart.run tracing quantum retired memory
    ∃ word, word.instruction? = some .ecall ∧
      result.memory.Fetchable result.hart.pc.toNat word := by
  intro result
  induction quantum generalizing hart retired memory with
  | zero => cases calls
  | succ quantum ih =>
      have kept := (congruent_step tracing hart).keeps_sound sound
      cases stepped : hart.step tracing memory with
      | error fault after =>
          simp only [run, stepped, endingOf] at calls
          split at calls <;> cases calls
      | ok found after =>
          obtain ⟨hart', flow⟩ := found
          cases flow with
          | next =>
              simp only [result, run, stepped] at calls ⊢
              rw [stepped] at kept
              exact ih kept calls
          | environmentCall =>
              simp only [result, run, stepped]
              obtain ⟨rfl, word, read, fetch⟩ := fetched_of_step stepped
              exact ⟨word, read, (fetchable_of_fetch sound fetch).2⟩

/-- **A hart that stands on a call carries out nothing else.** -/
theorem run_of_fetchable (sound : memory.Sound around) (calls : word.instruction? = some .ecall)
    (fetchable : memory.Fetchable hart.pc.toNat word) (tracing : Bool) (quantum retired : Nat) :
    let result := hart.run tracing quantum retired memory
    result.hart = hart ∧
      (result.ending = .trap .environmentCall ∨ result.ending = .trap .timerInterrupt) := by
  intro result
  cases quantum with
  | zero => exact ⟨rfl, .inr rfl⟩
  | succ quantum =>
      obtain ⟨after, fetched⟩ := fetch_of_fetchable sound fetchable
      have stepped : hart.step tracing memory = .ok (hart, .environmentCall) after := by
        rw [step, bind_of_ok fetched, calls]
        rfl
      simp only [result, run, stepped]
      exact ⟨trivial, .inl trivial⟩

end Hart

end NestedMachine
