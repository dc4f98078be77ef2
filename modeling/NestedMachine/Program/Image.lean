import NestedMachine.HostError
import NestedMachine.Memory.Address
import NestedMachine.Memory.Bytes

/-!
# Program images

A program is stored as a header of thirty-two bytes followed by its code and its
data.  The header holds a mark, the version of the encoding, the entry point and
the two sizes, each number with the least byte first; bytes after the data are
ignored.  An image is valid if its version is the current one, its code is a whole
number of instructions and at least one, and its entry point is one of them.
-/

namespace NestedMachine

set_option autoImplicit false

/-- A program. -/
structure Image where
  version : Nat
  entry : Nat
  code : Bytes
  data : Bytes
  deriving DecidableEq, Repr

namespace Image

/-- The mark at the start of a stored image: the letters RISU. -/
def magic : Bytes := [0x52, 0x49, 0x53, 0x55]

/-- The size of the header. -/
def headerSize : Nat := 32

/-- The image of the given words, entered at the first. -/
def ofWords (words : List Word) (data : Bytes) : Image where
  version := encodingVersion
  entry := codeStart
  code := words.flatMap fun word => Bytes.ofNat 4 word.toNat
  data

/-- The address after the code. -/
def codeEnd (image : Image) : Nat := codeStart + image.code.length

/-- Check the version, then the code, then the entry point. -/
def validate (image : Image) : Except ImageDefect Unit :=
  if image.version ≠ encodingVersion then .error (.version image.version)
  else if image.code.length = 0 ∨ image.code.length % 4 ≠ 0 then
    .error (.codeNotWhole image.code.length)
  else if image.entry < codeStart ∨ image.codeEnd ≤ image.entry ∨ image.entry % 4 ≠ 0 then
    .error (.entryOutsideCode image.entry)
  else .ok ()

/-- The stored form of an image. -/
def toBytes (image : Image) : Bytes :=
  magic ++ Bytes.ofNat 4 image.version ++ Bytes.ofNat 8 image.entry
    ++ Bytes.ofNat 8 image.code.length ++ Bytes.ofNat 8 image.data.length
    ++ image.code ++ image.data

/-- The number in `size` bytes from an offset on. -/
def numberAt (bytes : Bytes) (offset size : Nat) : Nat :=
  Bytes.toNat ((bytes.drop offset).take size)

/-- Read a stored image and check it. -/
def ofBytes (bytes : Bytes) : Except ImageDefect Image :=
  if bytes.length < headerSize then .error (.shorterThanHeader bytes.length)
  else if bytes.take 4 ≠ magic then .error .badMagic
  else
    let codeSize := numberAt bytes 16 8
    let dataSize := numberAt bytes 24 8
    let body := bytes.drop headerSize
    if body.length < codeSize + dataSize then
      .error (.segmentsExceedBody codeSize dataSize body.length)
    else
      let image : Image := {
        version := numberAt bytes 4 4
        entry := numberAt bytes 8 8
        code := body.take codeSize
        data := (body.drop codeSize).take dataSize }
      match image.validate with
      | .ok () => .ok image
      | .error defect => .error defect

end Image

end NestedMachine
