import NestedMachine.Json.Printer
import NestedMachine.Json.Reader
import NestedMachine.Trace.Basic

/-!
# Stored traces

A trace is stored as a JSON object with its version and its records, and each
record as an object with its fields; the data is left out when there is none.

A reader also takes a list of the fields in their order in place of either
object.  Fields of other names are skipped, but no field may be missing, except
the data, and none may occur twice.  Every number has to be an integer that fits
its field.  Only when everything has been read is the version looked at.
-/

namespace NestedMachine

set_option autoImplicit false

/-! ## Writing -/

/-- The stored form of a record. -/
def TraceRecord.toJson (record : TraceRecord) : Json :=
  let data : List (Option String × Json) :=
    if record.data.isEmpty then []
    else [(some "data", .array (record.data.map fun byte => .integer byte.toNat))]
  .object
    ([(some "pc", .integer record.pc.toNat), (some "syscall", .integer record.number.toNat),
      (some "result", .integer record.result.toInt)] ++ data)

namespace Trace

/-- The stored form of a trace. -/
def toJson (trace : Trace) : Json :=
  .object
    [(some "version", .integer version),
     (some "entries", .array (trace.records.toList.map TraceRecord.toJson))]

/-- The text of a stored trace. -/
def toText (trace : Trace) : String := trace.toJson.toText

/-! ## Reading -/

/-- The member of a name, which has to occur exactly once. -/
def onlyMember? (members : List (Option String × Json)) (name : String) : Option Json :=
  match Json.membersNamed members name with
  | [value] => some value
  | _ => none

/-- The member of a name, which may be missing but not occur twice. -/
def optionalMember? (members : List (Option String × Json)) (name : String) :
    Option (Option Json) :=
  match Json.membersNamed members name with
  | [] => some none
  | [value] => some (some value)
  | _ => none

/-- Whether every name spells something. -/
def allNamed (members : List (Option String × Json)) : Bool :=
  members.all fun field => field.1.isSome

/-- A word of sixty-four bits. -/
def word? (value : Json) : Option UInt64 := (value.naturalBelow? UInt64.size).map UInt64.ofNat

/-- A signed word of sixty-four bits. -/
def signedWord? (value : Json) : Option Int64 :=
  (value.integerIn? Int64.minValue.toInt Int64.maxValue.toInt).map Int64.ofInt

/-- A list of bytes. -/
def bytes? : Json → Option Bytes
  | .array items => items.mapM fun item => (item.naturalBelow? 256).map UInt8.ofNat
  | _ => none

/-- The record of the given fields. -/
def recordOf? (pc number result : Json) (data : Option Json) : Option TraceRecord := do
  return {
    pc := ← word? pc
    number := ← word? number
    result := ← signedWord? result
    data := ← match data with
      | some data => bytes? data
      | none => some [] }

/-- Read a record, by the names of its fields or by their order. -/
def record? : Json → Option TraceRecord
  | .object members =>
      if allNamed members then do
        recordOf? (← onlyMember? members "pc") (← onlyMember? members "syscall")
          (← onlyMember? members "result") (← optionalMember? members "data")
      else none
  | .array [pc, number, result] => recordOf? pc number result none
  | .array [pc, number, result, data] => recordOf? pc number result (some data)
  | _ => none

/-- Read a list of records. -/
def records? : Json → Option (List TraceRecord)
  | .array items => items.mapM record?
  | _ => none

/-- The version and the records of a stored trace of any version. -/
def fields? : Json → Option (Nat × List TraceRecord)
  | .object members =>
      if allNamed members then do
        let version ← (← onlyMember? members "version").naturalBelow? UInt32.size
        return (version, ← records? (← onlyMember? members "entries"))
      else none
  | .array [version, entries] => do
      return (← version.naturalBelow? UInt32.size, ← records? entries)
  | _ => none

/-- Read a stored trace of the current version. -/
def ofText (text : String) : Except HostError Trace :=
  match (Json.ofText? text).bind fields? with
  | none => .error .malformedTrace
  | some (found, records) =>
      if found = version then .ok ⟨records.toArray⟩
      else .error (.invalidImage (.traceVersion found))

end Trace

end NestedMachine
