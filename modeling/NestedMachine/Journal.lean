import NestedMachine.HostError
import NestedMachine.Instruction.Assembly
import NestedMachine.SystemCall

/-!
# The journal

While it works, the library notes what happens.  Each note has a severity and a
text.  A journal keeps the notes that its threshold lets through, in order, and
between them whatever guests wrote to the error stream of the console, because
both end up on the same stream.
-/

namespace NestedMachine

set_option autoImplicit false

/-- How important a note is, the most important first. -/
inductive Severity where
  | error
  | warn
  | info
  | debug
  | trace
  deriving DecidableEq, Repr

namespace Severity

/-- The place of a severity, counted from the most important. -/
def rank : Severity → Nat
  | .error => 1
  | .warn => 2
  | .info => 3
  | .debug => 4
  | .trace => 5

/-- The name of a severity. -/
def name : Severity → String
  | .error => "ERROR"
  | .warn => "WARN"
  | .info => "INFO"
  | .debug => "DEBUG"
  | .trace => "TRACE"

end Severity

/-- What a journal lets through: nothing, or all notes up to a severity. -/
abbrev Threshold := Option Severity

namespace Threshold

/-- Whether notes of a severity pass. -/
def passes (threshold : Threshold) (severity : Severity) : Bool :=
  match threshold with
  | none => false
  | some least => severity.rank ≤ least.rank

/-- The name of a threshold. -/
def name : Threshold → String
  | none => "OFF"
  | some severity => severity.name

/-- The threshold that a text names, whatever the case of its letters. -/
def ofName? (text : String) : Option Threshold :=
  let candidates : List Threshold :=
    [none, some .error, some .warn, some .info, some .debug, some .trace]
  candidates.find? fun threshold => threshold.name == text.map Char.toUpper

end Threshold

/-! ## Notes -/

/-- What happens while the library works. -/
inductive Note where
  /-- The page at an address got its frame. -/
  | pageMapped (address frame : Nat)
  /-- An instruction word was fetched. -/
  | fetched (pc : UInt64) (word : Word)
  | contextLoaded (id : ContextId) (code data entry arguments : Nat)
  | levelLoaded (level : Nat) (id : ContextId)
  | stackBuilt (levels frames quantum : Nat)
  | switched (level : Nat) (id : ContextId)
  | called (id : ContextId) (number pc : Nat)
  | readFailed (descriptor : Nat) (refusal : HostRefusal)
  | writeFailed (descriptor : Nat) (refusal : HostRefusal)
  | openFailed (path : String) (refusal : HostRefusal)
  | fileOpened (path : String) (descriptor : Nat)
  | breakRefused (address : Nat) (fault : Fault)
  | forkRefused (id : ContextId)
  | forked (parent child : ContextId)
  | replayedReadFailed (address : Nat) (fault : Fault)
  | faulted (id : ContextId) (fault : Fault) (pc : UInt64)
  | terminated (id : ContextId) (status : ExitStatus) (released : Nat)
  | parentWoken (child parent : ContextId)
  | levelFinished (level : Nat) (status : ExitStatus)
  | configured (level quantum frames : Nat) (mode : String) (stack : Nat)
  | replaying (path : String)
  | finished (id : ContextId) (status : ExitStatus)
  | recorded (calls : Nat) (path : String)
  deriving DecidableEq, Repr

namespace Note

/-- The severity of a note. -/
def severity : Note → Severity
  | .fetched .. => .trace
  | .forkRefused .. | .replayedReadFailed .. | .faulted .. => .warn
  | .pageMapped .. | .switched .. | .called .. | .readFailed .. | .writeFailed .. | .openFailed ..
  | .fileOpened .. | .breakRefused .. | .forked .. | .parentWoken .. => .debug
  | .contextLoaded .. | .levelLoaded .. | .stackBuilt .. | .terminated .. | .levelFinished ..
  | .configured .. | .replaying .. | .finished .. | .recorded .. => .info

/-- A context as the subject of a note. -/
def subject (id : ContextId) : String := "context " ++ ContextId.label id

/-- The text of a note. -/
def text : Note → String
  | .pageMapped address frame =>
      "mapped page " ++ Numeral.hex address ++ " to frame " ++ toString frame
  | .fetched pc word => "IF  " ++ word.listing pc.toNat
  | .contextLoaded id code data entry arguments =>
      "loaded " ++ subject id ++ ": " ++ toString code ++ " code bytes, " ++ toString data
        ++ " data bytes, entry " ++ Numeral.hex entry ++ ", " ++ toString arguments ++ " args"
  | .levelLoaded level id => "level " ++ toString level ++ " loaded " ++ subject id
  | .stackBuilt levels frames quantum =>
      "hypervisor stack of " ++ toString levels ++ " level(s), " ++ toString frames
        ++ " frames, quantum " ++ toString quantum
  | .switched level id => "level " ++ toString level ++ " switch to " ++ ContextId.label id
  | .called id number pc =>
      subject id ++ " syscall " ++ toString number ++ " (" ++ SystemCall.nameOfNumber number
        ++ ") at " ++ Numeral.hex pc
  | .readFailed descriptor refusal =>
      "read from fd " ++ toString descriptor ++ " failed: " ++ refusal.message
  | .writeFailed descriptor refusal =>
      "write to fd " ++ toString descriptor ++ " failed: " ++ refusal.message
  | .openFailed path refusal => "open of " ++ path ++ " failed: " ++ refusal.message
  | .fileOpened path descriptor => "opened " ++ path ++ " as fd " ++ toString descriptor
  | .breakRefused address fault =>
      "brk to " ++ Numeral.hex address ++ " refused: " ++ fault.message
  | .forkRefused id => "fork of " ++ subject id ++ " failed: frame pool exhausted"
  | .forked parent child => subject parent ++ " forked " ++ ContextId.label child
  | .replayedReadFailed address fault =>
      "replayed read into " ++ Numeral.hex address ++ " failed: " ++ fault.message
  | .faulted id fault pc => subject id ++ " faulted: " ++ fault.messageAt pc
  | .terminated id status released =>
      subject id ++ " " ++ status.message ++ " (" ++ toString released ++ " frames released)"
  | .parentWoken child parent => subject child ++ " wakes parent " ++ ContextId.label parent
  | .levelFinished level status =>
      "level " ++ toString level ++ " run finished: " ++ status.message
  | .configured level quantum frames mode stack =>
      "config: level " ++ toString level ++ ", quantum " ++ toString quantum ++ ", "
        ++ toString frames ++ " frames (" ++ mode ++ "), stack " ++ toString stack ++ " bytes"
  | .replaying path => "replaying syscalls from " ++ path
  | .finished id status => subject id ++ " " ++ status.message
  | .recorded calls path => "recorded " ++ toString calls ++ " syscalls to " ++ path

/-- The line that shows a note. -/
def line (note : Note) : String :=
  "[" ++ Numeral.padRight 5 note.severity.name ++ "] " ++ note.text ++ "\n"

end Note

/-! ## Journals -/

/-- One entry of a journal. -/
inductive JournalEntry where
  /-- Something happened. -/
  | note (note : Note)
  /-- A guest wrote these bytes to the error stream. -/
  | guest (bytes : List UInt8)
  deriving DecidableEq, Repr

/-- The notes that passed the threshold, in order. -/
structure Journal where
  threshold : Threshold
  entries : Array JournalEntry
  deriving Repr

namespace Journal

/-- The journal that keeps no notes. -/
def silent : Journal := ⟨none, #[]⟩

/-- An empty journal with a threshold. -/
def withThreshold (threshold : Threshold) : Journal := ⟨threshold, #[]⟩

/-- Keep a note, if it passes the threshold. -/
def add (journal : Journal) (note : Note) : Journal :=
  if journal.threshold.passes note.severity then
    { journal with entries := journal.entries.push (.note note) }
  else journal

/-- Keep an entry; bytes that guests wrote pass every threshold. -/
def addEntry (journal : Journal) : JournalEntry → Journal
  | .note note => journal.add note
  | .guest bytes => { journal with entries := journal.entries.push (.guest bytes) }

/-- The bytes that show an entry. -/
def entryBytes : JournalEntry → List UInt8
  | .note note => note.line.toUTF8.toList
  | .guest bytes => bytes

/-- The bytes that show the entries of a journal after the first `count`. -/
def bytesFrom (journal : Journal) (count : Nat) : List UInt8 :=
  (journal.entries.extract count).toList.flatMap entryBytes

/-- The bytes that show a journal. -/
def bytes (journal : Journal) : List UInt8 := journal.bytesFrom 0

end Journal

end NestedMachine
