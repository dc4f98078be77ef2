import NestedMachine.Proofs.Machine.Code
import NestedMachine.Proofs.Memory.Refinement

/-!
# What is transferred

A range of bytes is read and written page by page.  Bytes that were read are those that the range
showed (`Memory.Sound.eq_of_readBytes`), in the order of their addresses and none twice, and bytes
that were written are those that it shows then (`Memory.Sound.bytesAt_of_writeBytes`).
-/

namespace NestedMachine.Memory

set_option autoImplicit false

variable {around : Surroundings} {memory after : Memory} {address size : Nat} {bytes : Bytes}

/-- What a range shows, in two pieces. -/
theorem bytesAt_append (front back : Nat) : memory.bytesAt address (front + back) =
    memory.bytesAt address front ++ memory.bytesAt (address + front) back :=
  @FlatMemory.slice_append ⟨memory.space.layout, memory.byteAt⟩ address front back

/-- **What is read chunk by chunk is what the range shows.** -/
theorem Sound.eq_of_readChunks {steps : Nat} (sound : memory.Sound around) (enough : size ≤ steps)
    (done : readChunks (chunksWithin steps address size) memory = .ok bytes after) :
    bytes = memory.bytesAt address size := by
  induction steps generalizing address size memory bytes with
  | zero =>
      obtain rfl := Nat.le_zero.mp enough
      cases done
      rfl
  | succ steps ih =>
      rw [chunksWithin] at done
      split at done
      · rename_i empty
        subst empty
        cases done
        rfl
      · rename_i nonempty
        have inside : pageOffset address < pageSize := Nat.mod_lt address (by decide)
        have taken : chunkSize address size ≤ size ∧ 0 < chunkSize address size ∧
            pageOffset address + chunkSize address size ≤ pageSize := by
          unfold chunkSize
          omega
        dsimp only at done
        generalize chunkSize address size = front at taken done
        obtain ⟨small, positive, fits⟩ := taken
        rw [readChunks_cons] at done
        obtain ⟨first, middle, read, done⟩ := ok_of_bind done
        obtain ⟨rest, last, later, done⟩ := ok_of_bind done
        cases done
        have accessed := sound.readWithin .read fits
        rw [read] at accessed
        cases accessed with
        | done allowed unlocked finish =>
            obtain ⟨touched, shown⟩ := finish
            have behind : rest = middle.bytesAt (address + front) (size - front) :=
              ih touched.sound (by omega) later
            have same : middle.bytesAt (address + front) (size - front) =
                memory.bytesAt (address + front) (size - front) :=
              List.map_congr_left fun _ _ => touched.bytes _
            rw [behind, same, shown, ← bytesAt_append, Nat.add_sub_of_le small]

/-- **Bytes that were read are those that the range showed.** -/
theorem Sound.eq_of_readBytes (sound : memory.Sound around)
    (done : readBytes address size memory = .ok bytes after) :
    bytes = memory.bytesAt address size := by
  obtain ⟨_, checked, check, done⟩ := ok_of_bind done
  obtain rfl := eq_of_checkRange check
  exact sound.eq_of_readChunks le_rfl done

/-- What was put into a range is what it shows. -/
theorem Stored.bytesAt (stored : Stored around address bytes memory after) :
    after.bytesAt address bytes.length = bytes := by
  apply List.ext_getElem
  · simp [Memory.bytesAt]
  · intro place _ inside
    simp [Memory.bytesAt, stored.bytes, inside]

/-- **Bytes that were written are those that the range shows.** -/
theorem Sound.bytesAt_of_writeBytes (sound : memory.Sound around)
    (done : writeBytes address bytes memory = .ok () after) :
    after.bytesAt address bytes.length = bytes :=
  (sound.stored_writeBytes done).bytesAt

end NestedMachine.Memory
