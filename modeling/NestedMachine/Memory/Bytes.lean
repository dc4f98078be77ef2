/-!
# Numbers in bytes

Memory and files hold numbers with the least byte first.  A number is read from
any list of bytes, and written into a fixed count of them, which keeps its value
below the matching power of 256.
-/

namespace NestedMachine

set_option autoImplicit false

/-- A string of bytes. -/
abbrev Bytes := List UInt8

namespace Bytes

/-- The number that bytes spell, least byte first. -/
def toNat : Bytes → Nat
  | [] => 0
  | byte :: rest => byte.toNat + 256 * toNat rest

/-- The first `count` bytes of a number, least byte first. -/
def ofNat : Nat → Nat → Bytes
  | 0, _ => []
  | count + 1, number => UInt8.ofNat number :: ofNat count (number / 256)

/-- The bytes of a text. -/
def ofString (text : String) : Bytes := text.toUTF8.toList

/-- The text that bytes spell, if they spell one. -/
def toString? (bytes : Bytes) : Option String := String.fromUTF8? bytes.toByteArray

end Bytes

end NestedMachine
