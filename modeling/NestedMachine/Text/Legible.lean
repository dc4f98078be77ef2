import NestedMachine.Memory.Bytes

/-!
# Bytes as legible text

Bytes that were written by guests need not spell a text.  To be shown, each part
that spells nothing is replaced by one character: such a part is a byte that
starts no character, or the beginning of a character that is not completed.
-/

namespace NestedMachine.Legible

set_option autoImplicit false

/-- What stands for a part that spells nothing. -/
def replacement : Char := Char.ofNat 0xfffd

/-- Whether a byte continues a character. -/
def continues (byte : UInt8) : Bool := 0x80 ≤ byte && byte ≤ 0xbf

/-- The bytes that can follow the first byte of a character of three or four bytes: not all of
those that continue characters, because no character has two spellings, none is a surrogate, and
none lies past the last one. -/
def secondRange (lead : UInt8) : UInt8 × UInt8 :=
  (if lead = 0xe0 then 0xa0 else if lead = 0xf0 then 0x90 else 0x80,
   if lead = 0xed then 0x9f else if lead = 0xf4 then 0x8f else 0xbf)

/-- How many bytes at the front of bytes that start with no character are one part. -/
def brokenSize : Bytes → Nat
  | lead :: second :: rest =>
      let range := secondRange lead
      if 0xe0 ≤ lead && lead ≤ 0xf4 && range.1 ≤ second && second ≤ range.2 then
        match rest with
        | third :: _ => if 0xf0 ≤ lead && continues third then 3 else 2
        | [] => 2
      else 1
  | _ => 1

/-- The character that some bytes are, if they are one. -/
def only? (bytes : Bytes) : Option Char :=
  match (Bytes.toString? bytes).map String.toList with
  | some [char] => some char
  | _ => none

/-- The character at the front of bytes, and how many bytes it takes. -/
def first? (bytes : Bytes) : Option (Char × Nat) :=
  [1, 2, 3, 4].findSome? fun size => (only? (bytes.take size)).map fun char => (char, size)

/-- Read characters from the front.  Each step takes at least one byte. -/
def charsWithin : Nat → Bytes → List Char
  | 0, _ => []
  | _, [] => []
  | steps + 1, bytes =>
      match first? bytes with
      | some (char, size) => char :: charsWithin steps (bytes.drop size)
      | none => replacement :: charsWithin steps (bytes.drop (brokenSize bytes))

/-- The legible text of bytes. -/
def text (bytes : Bytes) : String :=
  match Bytes.toString? bytes with
  | some text => text
  | none => String.ofList (charsWithin bytes.length bytes)

end NestedMachine.Legible
