import Mathlib.Algebra.Group.Nat.Defs
import NestedMachine.Program.Image
import NestedMachine.Proofs.Memory.Congruence

/-!
# Stored images

A file is read as an image exactly if the image is valid and the file starts with its stored form
(`ofBytes_eq_ok_iff_prefix`).  The proof goes through the image that the numbers in the header
claim (`claimed`): if all of it is there (`Complete`), its stored form is the start of the file.
The other way round, a file that starts with the stored form of an image has the header of the
image, and claims just the image.  Only the numbers in the header set a limit to what can be stored
(`Storable`).

So no two images are read from the same file, and a file cannot be cut off within the stored image
(`ofBytes_take`).  That the sizes in the header cannot lead the reader astray is said by a second
reader, which checks every access and every sum, and gives no answer if a check fails
(`ofBytesChecked?`): it answers what the first one answers.  All is put together in
`ofBytes_exact`.
-/

namespace NestedMachine

set_option autoImplicit false

open Memory.Congruent (length_ofNat)

/-! ## Numbers in bytes -/

namespace Bytes

theorem toNat_lt (bytes : Bytes) : bytes.toNat < 256 ^ bytes.length := by
  induction bytes with
  | nil => exact Nat.one_pos
  | cons byte rest ih =>
      have small := byte.toNat_lt
      rw [toNat, List.length_cons, Nat.pow_succ]
      omega

/-- The bytes of a number spell the number, as far as they go. -/
theorem toNat_ofNat (count number : Nat) : (ofNat count number).toNat = number % 256 ^ count := by
  induction count generalizing number with
  | zero => exact (Nat.mod_one number).symm
  | succ count ih =>
      have split := Nat.mod_mul (x := number) (a := 256) (b := 256 ^ count)
      rw [ofNat, toNat, ih, UInt8.toNat_ofNat', Nat.pow_succ' (m := 256), split]

/-- Bytes are the bytes of the number that they spell. -/
theorem ofNat_toNat (bytes : Bytes) : ofNat bytes.length bytes.toNat = bytes := by
  induction bytes with
  | nil => rfl
  | cons byte rest ih =>
      have small := byte.toNat_lt
      have low : UInt8.ofNat (byte.toNat + 256 * toNat rest) = byte := by
        rw [← UInt8.toNat_inj, UInt8.toNat_ofNat']
        omega
      have high : (byte.toNat + 256 * toNat rest) / 256 = toNat rest := by omega
      rw [toNat, List.length_cons, ofNat, low, high, ih]

end Bytes

namespace Image

theorem numberAt_lt (bytes : Bytes) (offset size : Nat) :
    numberAt bytes offset size < 256 ^ size := by
  refine Nat.lt_of_lt_of_le (Bytes.toNat_lt _) (Nat.pow_le_pow_right (by decide) ?_)
  exact List.length_take_le ..

/-- A number is read back from between the bytes that it was written between. -/
theorem numberAt_eq {bytes : Bytes} {offset size number : Nat} (front back : Bytes)
    (whole : bytes = front ++ (Bytes.ofNat size number ++ back)) (start : front.length = offset)
    (small : number < 256 ^ size) : numberAt bytes offset size = number := by
  subst whole start
  have written : (Bytes.ofNat size number ++ back).take size = Bytes.ofNat size number :=
    List.take_left' (length_ofNat size number)
  rw [numberAt, List.drop_left, written, Bytes.toNat_ofNat, Nat.mod_eq_of_lt small]

/-- The bytes of a number in a file, behind the bytes before. -/
theorem take_append_ofNat_numberAt {bytes : Bytes} {offset size : Nat}
    (inside : offset + size ≤ bytes.length) :
    bytes.take offset ++ Bytes.ofNat size (numberAt bytes offset size) =
      bytes.take (offset + size) := by
  have length : ((bytes.drop offset).take size).length = size := by
    rw [List.length_take, List.length_drop]
    omega
  have spelled := Bytes.ofNat_toNat ((bytes.drop offset).take size)
  rw [length] at spelled
  rw [numberAt, spelled, List.take_add]

/-! ## Reading what was stored -/

/-- All numbers in the header of an image fit their fields. -/
structure Storable (image : Image) : Prop where
  version : image.version < 256 ^ 4
  entry : image.entry < 256 ^ 8
  code : image.code.length < 256 ^ 8
  data : image.data.length < 256 ^ 8

variable {image : Image}

/-- The header of a stored image. -/
def header (image : Image) : Bytes :=
  magic ++ Bytes.ofNat 4 image.version ++ Bytes.ofNat 8 image.entry
    ++ Bytes.ofNat 8 image.code.length ++ Bytes.ofNat 8 image.data.length

theorem toBytes_eq (image : Image) : image.toBytes = image.header ++ (image.code ++ image.data) :=
  List.append_assoc ..

@[simp]
theorem length_header (image : Image) : image.header.length = headerSize := by
  simp [header, length_ofNat, magic, headerSize]

/-- Bytes start with the header of an image. -/
structure Headed (bytes : Bytes) (image : Image) : Prop where
  long : headerSize ≤ bytes.length
  mark : bytes.take 4 = magic
  version : numberAt bytes 4 4 = image.version
  entry : numberAt bytes 8 8 = image.entry
  code : numberAt bytes 16 8 = image.code.length
  data : numberAt bytes 24 8 = image.data.length

theorem headed_append (storable : image.Storable) (rest : Bytes) :
    Headed (image.header ++ rest) image := by
  have mark : magic.length = 4 := rfl
  refine ⟨?_, ?_, ?_, ?_, ?_, ?_⟩
  · rw [List.length_append, length_header]
    exact Nat.le_add_right ..
  · simp only [header, List.append_assoc]
    exact List.take_left' mark
  · refine numberAt_eq magic (Bytes.ofNat 8 image.entry ++ (Bytes.ofNat 8 image.code.length
      ++ (Bytes.ofNat 8 image.data.length ++ rest))) ?_ mark storable.version
    simp only [header, List.append_assoc]
  · refine numberAt_eq (magic ++ Bytes.ofNat 4 image.version) (Bytes.ofNat 8 image.code.length
      ++ (Bytes.ofNat 8 image.data.length ++ rest)) ?_ ?_ storable.entry
    · simp only [header, List.append_assoc]
    · simp [mark, length_ofNat]
  · refine numberAt_eq (magic ++ Bytes.ofNat 4 image.version ++ Bytes.ofNat 8 image.entry)
      (Bytes.ofNat 8 image.data.length ++ rest) ?_ ?_ storable.code
    · simp only [header, List.append_assoc]
    · simp [mark, length_ofNat]
  · refine numberAt_eq (magic ++ Bytes.ofNat 4 image.version ++ Bytes.ofNat 8 image.entry
      ++ Bytes.ofNat 8 image.code.length) rest ?_ ?_ storable.data
    · simp only [header, List.append_assoc]
    · simp [mark, length_ofNat]

theorem Headed.take {bytes : Bytes} (headed : Headed bytes image) :
    bytes.take headerSize = image.header := by
  have long : 32 ≤ bytes.length := headed.long
  rw [header, ← headed.mark, ← headed.version, ← headed.entry, ← headed.code, ← headed.data,
    take_append_ofNat_numberAt (by omega), take_append_ofNat_numberAt (by omega),
    take_append_ofNat_numberAt (by omega), take_append_ofNat_numberAt (by omega)]
  rfl

/-- The image that a file holds, going by the numbers in its header. -/
def claimed (bytes : Bytes) : Image where
  version := numberAt bytes 4 4
  entry := numberAt bytes 8 8
  code := (bytes.drop headerSize).take (numberAt bytes 16 8)
  data := ((bytes.drop headerSize).drop (numberAt bytes 16 8)).take (numberAt bytes 24 8)

/-- A file has a header, and all that it claims. -/
structure Complete (bytes : Bytes) : Prop where
  long : headerSize ≤ bytes.length
  mark : bytes.take 4 = magic
  segments : numberAt bytes 16 8 + numberAt bytes 24 8 ≤ (bytes.drop headerSize).length

theorem ofBytes_eq {bytes : Bytes} (complete : Complete bytes) :
    ofBytes bytes = (claimed bytes).validate.map fun _ => claimed bytes := by
  rw [ofBytes, if_neg (Nat.not_lt.mpr complete.long), if_neg (not_not_intro complete.mark)]
  simp only
  rw [if_neg (Nat.not_lt.mpr complete.segments), claimed]
  generalize validate _ = verdict
  cases verdict <;> rfl

theorem complete_of_ofBytes {bytes : Bytes} (found : ofBytes bytes = .ok image) :
    Complete bytes := by
  unfold ofBytes at found
  split at found
  · cases found
  · next long =>
      split at found
      · cases found
      · next mark =>
          simp only at found
          split at found
          · cases found
          · next segments =>
              exact ⟨Nat.not_lt.mp long, Decidable.not_not.mp mark, Nat.not_lt.mp segments⟩

theorem ofBytes_eq_ok_iff {bytes : Bytes} : ofBytes bytes = .ok image ↔
    Complete bytes ∧ (claimed bytes).validate = .ok () ∧ claimed bytes = image := by
  constructor
  · intro found
    have complete := complete_of_ofBytes found
    rw [ofBytes_eq complete] at found
    cases check : (claimed bytes).validate with
    | error defect =>
        rw [check] at found
        cases found
    | ok =>
        rw [check] at found
        cases found
        exact ⟨complete, rfl, rfl⟩
  · rintro ⟨complete, valid, rfl⟩
    rw [ofBytes_eq complete, valid]
    rfl

/-! ## What a complete file starts with -/

theorem Complete.headed {bytes : Bytes} (complete : Complete bytes) :
    Headed bytes (claimed bytes) := by
  have segments := complete.segments
  refine ⟨complete.long, complete.mark, rfl, rfl, ?_, ?_⟩
  · rw [claimed, List.length_take]
    omega
  · rw [claimed, List.length_take, List.length_drop]
    omega

theorem Complete.storable {bytes : Bytes} (complete : Complete bytes) :
    (claimed bytes).Storable where
  version := numberAt_lt bytes 4 4
  entry := numberAt_lt bytes 8 8
  code := complete.headed.code ▸ numberAt_lt bytes 16 8
  data := complete.headed.data ▸ numberAt_lt bytes 24 8

theorem Complete.toBytes_prefix {bytes : Bytes} (complete : Complete bytes) :
    (claimed bytes).toBytes <+: bytes := by
  rw [toBytes_eq, ← complete.headed.take, claimed, ← List.take_add, ← List.take_add]
  exact List.take_prefix _ bytes

theorem complete_append (storable : image.Storable) (rest : Bytes) :
    Complete (image.toBytes ++ rest) ∧ claimed (image.toBytes ++ rest) = image := by
  have whole : image.toBytes ++ rest = image.header ++ (image.code ++ (image.data ++ rest)) := by
    rw [toBytes_eq, List.append_assoc, List.append_assoc]
  rw [whole]
  have headed := headed_append storable (image.code ++ (image.data ++ rest))
  have body : (image.header ++ (image.code ++ (image.data ++ rest))).drop headerSize =
      image.code ++ (image.data ++ rest) := List.drop_left' (length_header image)
  refine ⟨⟨headed.long, headed.mark, ?_⟩, ?_⟩
  · rw [headed.code, headed.data, body, List.length_append, List.length_append]
    omega
  · rw [claimed, body, headed.version, headed.entry, headed.code, headed.data, List.take_left,
      List.drop_left, List.take_left]

/-- **An image is read from the files that start with its stored form**, if it is valid and its
numbers fit the header. -/
theorem ofBytes_eq_ok_iff_prefix {bytes : Bytes} : ofBytes bytes = .ok image ↔
    image.validate = .ok () ∧ image.Storable ∧ image.toBytes <+: bytes := by
  rw [ofBytes_eq_ok_iff]
  constructor
  · rintro ⟨complete, valid, rfl⟩
    exact ⟨valid, complete.storable, complete.toBytes_prefix⟩
  · rintro ⟨valid, storable, rest, rfl⟩
    obtain ⟨complete, same⟩ := complete_append storable rest
    exact ⟨complete, by rwa [same], same⟩

/-- Cutting a file off behind the stored image changes nothing, and cutting it off within the
stored image makes it unreadable. -/
theorem ofBytes_take {bytes : Bytes} (found : ofBytes bytes = .ok image) (count : Nat) :
    (image.toBytes.length ≤ count → ofBytes (bytes.take count) = .ok image) ∧
      (count < image.toBytes.length → ∃ defect, ofBytes (bytes.take count) = .error defect) := by
  obtain ⟨valid, storable, starts⟩ := ofBytes_eq_ok_iff_prefix.mp found
  constructor
  · intro long
    refine ofBytes_eq_ok_iff_prefix.mpr ⟨valid, storable, ?_⟩
    exact List.prefix_take_iff.mpr ⟨starts, long⟩
  · intro short
    cases read : ofBytes (bytes.take count) with
    | error defect => exact ⟨defect, rfl⟩
    | ok other =>
        -- An image in the part would be the image in the whole, which is longer than the part.
        obtain ⟨valid', storable', starts'⟩ := ofBytes_eq_ok_iff_prefix.mp read
        obtain ⟨starts', long⟩ := List.prefix_take_iff.mp starts'
        have again := ofBytes_eq_ok_iff_prefix.mpr ⟨valid', storable', starts'⟩
        rw [found, Except.ok.injEq] at again
        subst again
        omega

/-! ## Reading within bounds -/

/-- The bytes from one index up to another, if they lie in the file. -/
def slice? (bytes : Bytes) (start stop : Nat) : Option Bytes :=
  if start ≤ stop ∧ stop ≤ bytes.length then some ((bytes.drop start).take (stop - start)) else none

/-- The number in `size` bytes from an offset on, if they lie in the file. -/
def number? (bytes : Bytes) (offset size : Nat) : Option Nat :=
  (slice? bytes offset (offset + size)).map Bytes.toNat

/-- The sum of two numbers of sixty-four bits, if it is one. -/
def sum? (left right : Nat) : Option Nat :=
  if left + right < 2 ^ 64 then some (left + right) else none

/-- The difference of two numbers of sixty-four bits, if it is one. -/
def difference? (left right : Nat) : Option Nat :=
  if right ≤ left then some (left - right) else none

/-- Read a stored image with all accesses and sums checked, and no answer if a check fails. -/
def ofBytesChecked? (bytes : Bytes) : Option (Except ImageDefect Image) := do
  if bytes.length < headerSize then
    return .error (.shorterThanHeader bytes.length)
  if (← slice? bytes 0 4) ≠ magic then
    return .error .badMagic
  let version ← number? bytes 4 4
  let entry ← number? bytes 8 8
  let codeSize ← number? bytes 16 8
  let dataSize ← number? bytes 24 8
  let body ← difference? bytes.length headerSize
  if body < codeSize then
    return .error (.segmentsExceedBody codeSize dataSize body)
  if (← difference? body codeSize) < dataSize then
    return .error (.segmentsExceedBody codeSize dataSize body)
  let codeEnd ← sum? headerSize codeSize
  let dataEnd ← sum? codeEnd dataSize
  let image : Image :=
    ⟨version, entry, ← slice? bytes headerSize codeEnd, ← slice? bytes codeEnd dataEnd⟩
  return image.validate.map fun _ => image

variable {bytes : Bytes}

theorem slice?_eq {start stop : Nat} (ordered : start ≤ stop) (inside : stop ≤ bytes.length) :
    slice? bytes start stop = some ((bytes.drop start).take (stop - start)) :=
  if_pos ⟨ordered, inside⟩

theorem number?_eq {offset size : Nat} (inside : offset + size ≤ bytes.length) :
    number? bytes offset size = some (numberAt bytes offset size) := by
  rw [number?, slice?_eq (Nat.le_add_right ..) inside, Nat.add_sub_cancel_left]
  rfl

theorem sum?_eq {left right : Nat} (small : left + right < 2 ^ 64) :
    sum? left right = some (left + right) :=
  if_pos small

theorem difference?_eq {left right : Nat} (ordered : right ≤ left) :
    difference? left right = some (left - right) :=
  if_pos ordered

/-- **No access of the reader is out of bounds, and no sum overflows.** -/
theorem ofBytesChecked?_eq (addressable : bytes.length < 2 ^ 64) :
    ofBytesChecked? bytes = some (ofBytes bytes) := by
  unfold ofBytesChecked? ofBytes
  by_cases short : bytes.length < headerSize
  · rw [if_pos short, if_pos short]
    rfl
  have long : 32 ≤ bytes.length := Nat.not_lt.mp short
  rw [if_neg short, if_neg short, slice?_eq (by decide) (by omega)]
  by_cases mark : bytes.take 4 = magic
  case neg =>
    rw [if_pos mark]
    exact if_pos mark
  rw [if_neg (not_not_intro mark)]
  refine (if_neg (not_not_intro mark)).trans ?_
  rw [number?_eq (by omega), number?_eq (by omega), number?_eq (by omega), number?_eq (by omega),
    difference?_eq (Nat.not_lt.mp short)]
  have body : (bytes.drop headerSize).length = bytes.length - headerSize := List.length_drop
  simp only [Option.bind_eq_bind, Option.bind_some, body]
  generalize numberAt bytes 16 8 = codeSize
  generalize numberAt bytes 24 8 = dataSize
  by_cases code : bytes.length - headerSize < codeSize
  · rw [if_pos code, if_pos (by omega)]
    rfl
  rw [if_neg code, difference?_eq (Nat.not_lt.mp code)]
  simp only [Option.bind_some]
  by_cases data : bytes.length - headerSize - codeSize < dataSize
  · rw [if_pos data, if_pos (by omega)]
    rfl
  have size : headerSize = 32 := rfl
  rw [if_neg data, if_neg (by omega), sum?_eq (by omega)]
  simp only [Option.bind_some]
  rw [sum?_eq (by omega)]
  simp only [Option.bind_some]
  rw [slice?_eq (by omega) (by omega), slice?_eq (by omega) (by omega)]
  simp only [Option.bind_some, Nat.add_sub_cancel_left, List.drop_drop]
  split
  · next valid =>
      rw [valid]
      rfl
  · next invalid =>
      rw [invalid]
      rfl

/-! ## The format -/

/-- **An image is read from exactly the files that start with its stored form.**  It is read back
from there whatever follows; no file starts with the stored forms of two images; a file that is cut
off within the stored form is refused; and whatever the sizes in the header say, the reader stays
within the file. -/
theorem ofBytes_exact :
    (∀ (bytes : Bytes) (image : Image), ofBytes bytes = .ok image ↔
      image.validate = .ok () ∧ image.Storable ∧ image.toBytes <+: bytes) ∧
    (∀ image : Image, image.validate = .ok () → image.Storable →
      ofBytes image.toBytes = .ok image) ∧
    (∀ (bytes : Bytes) (left right : Image), left.validate = .ok () → left.Storable →
      right.validate = .ok () → right.Storable →
        left.toBytes <+: bytes → right.toBytes <+: bytes → left = right) ∧
    (∀ (bytes : Bytes) (image : Image), ofBytes bytes = .ok image → ∀ count,
      (image.toBytes.length ≤ count → ofBytes (bytes.take count) = .ok image) ∧
        (count < image.toBytes.length → ∃ defect, ofBytes (bytes.take count) = .error defect)) ∧
    (∀ bytes : Bytes, bytes.length < 2 ^ 64 → ofBytesChecked? bytes = some (ofBytes bytes)) := by
  refine ⟨?_, ?_, ?_, ?_, ?_⟩
  · intro bytes image
    exact ofBytes_eq_ok_iff_prefix
  · intro image valid storable
    exact ofBytes_eq_ok_iff_prefix.mpr ⟨valid, storable, List.prefix_rfl⟩
  · intro bytes left right valid storable valid' storable' starts starts'
    have first := ofBytes_eq_ok_iff_prefix.mpr ⟨valid, storable, starts⟩
    have second := ofBytes_eq_ok_iff_prefix.mpr ⟨valid', storable', starts'⟩
    rw [first, Except.ok.injEq] at second
    exact second
  · intro bytes image found count
    exact ofBytes_take found count
  · intro bytes addressable
    exact ofBytesChecked?_eq addressable

/-- The image of a single call is read back, also with a byte behind it, but not if its last byte
is missing. -/
theorem ofBytes_exact_call :
    let image := ofWords [Word.environmentCall] [1, 2, 3]
    ofBytes image.toBytes = .ok image ∧ ofBytes (image.toBytes ++ [0]) = .ok image ∧
      ∃ defect, ofBytes (image.toBytes.take 38) = .error defect := by
  intro image
  have storable : image.Storable := ⟨by decide, by decide, by decide, by decide⟩
  have valid : image.validate = .ok () := by decide
  have read := ofBytes_exact.2.1 image valid storable
  refine ⟨read, ?_, ?_⟩
  · exact (ofBytes_exact.1 (image.toBytes ++ [0]) image).mpr ⟨valid, storable, _, rfl⟩
  · exact (ofBytes_exact.2.2.2.1 image.toBytes image read 38).2 (by decide)

end Image

end NestedMachine
