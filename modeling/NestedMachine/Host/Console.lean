import NestedMachine.Host.Buffer
import NestedMachine.Host.FileTree
import NestedMachine.Journal

/-!
# The console host

A console host serves guests from the streams and the file system around the
program.  Standard input is read ahead in blocks, so that a read can deliver less
than it asks for although more is to come.  What guests write to the error stream
joins the journal, because both are shown there.

Opening follows the rules of the system: a file can be created or emptied only by
someone who writes to it, and not emptied by someone who appends.

What lies around the program may not be known yet.  A request that needs more
than is known is refused, and the host remembers what it wants to know; whoever
drives it can supply that and let the request be made again.
-/

namespace NestedMachine

set_option autoImplicit false

/-! ## Standard input -/

/-- Standard input: what was read ahead, what lies behind it, and whether that is all. -/
structure StandardInput where
  ahead : Bytes
  rest : Bytes
  ended : Bool
  deriving DecidableEq, Repr

namespace StandardInput

/-- How many bytes are read ahead at once. -/
def blockSize : Nat := 8192

/-- Standard input that holds all there is. -/
def whole (bytes : Bytes) : StandardInput := ⟨[], bytes, true⟩

/-- Standard input of which nothing is known yet. -/
def unread : StandardInput := ⟨[], [], false⟩

/-- Whether a read has to wait for more to become known. -/
def starved (input : StandardInput) : Bool :=
  input.ahead.isEmpty && input.rest.isEmpty && !input.ended

/-- Read at most `size` bytes.  When nothing was read ahead, a read of a block or more takes its
bytes directly, and a smaller one reads a block ahead first. -/
def read (input : StandardInput) (size : Nat) : Bytes × StandardInput :=
  if input.ahead.isEmpty ∧ blockSize ≤ size then
    (input.rest.take size, { input with rest := input.rest.drop size })
  else
    let input :=
      if input.ahead.isEmpty then
        { input with ahead := input.rest.take blockSize, rest := input.rest.drop blockSize }
      else input
    (input.ahead.take size, { input with ahead := input.ahead.drop size })

end StandardInput

/-! ## The host -/

/-- A descriptor of a console host. -/
structure ConsoleDescriptor where
  place : Place
  position : Nat
  readable : Bool
  writable : Bool
  append : Bool
  deriving DecidableEq, Repr

/-- What a console host has to know before it can answer. -/
inductive Want where
  | standardInput
  | place (place : Place)
  deriving DecidableEq, Repr

/-- A host that serves guests from what lies around the program. -/
structure ConsoleHost where
  input : StandardInput
  output : Bytes
  files : FileTree
  descriptors : Std.TreeMap Nat ConsoleDescriptor
  nextDescriptor : Nat
  wants : Option Want

/-- An action on a console host that answers or is refused. -/
abbrev ConsoleAction := EStateM HostRefusal ConsoleHost

namespace ConsoleHost

/-- A host around which the given input and files lie. -/
def surroundedBy (input : StandardInput) (files : FileTree) : ConsoleHost where
  input
  output := []
  files
  descriptors := ∅
  nextDescriptor := 3
  wants := none

/-- More of standard input has become known; no bytes tell that it has ended. -/
def learnInput (bytes : Bytes) (host : ConsoleHost) : ConsoleHost :=
  { host with
    input := { host.input with rest := host.input.rest ++ bytes, ended := bytes.isEmpty } }

/-- It has become known what stands at a place. -/
def learnNode (place : Place) (node : Node) (host : ConsoleHost) : ConsoleHost :=
  { host with files := host.files.record place node }

/-- What was written to the output has been shown. -/
def forgetOutput (host : ConsoleHost) : ConsoleHost := { host with output := [] }

/-- Refuse a request until more is known. -/
def await {α : Type} (want : Want) : ConsoleAction α := fun host =>
  .error (.system .noSuchFile) { host with wants := some want }

/-- Walk along a path, waiting for what is not known. -/
def walk (purpose : Purpose) (path : String) : ConsoleAction (Place × Node) := do
  if path.contains '\x00' then throw .zeroInPath
  match (← get).files.walk purpose path with
  | .found place node => return (place, node)
  | .refused cause => throw (.system cause)
  | .unknown place => await (.place place)

/-! ### Whole files -/

/-- Read a whole file. -/
def readFile (path : String) : ConsoleAction Bytes := do
  match ← walk .finding path with
  | (_, .file contents) => return contents
  | (_, .directory) => throw (.system .isADirectory)
  | (_, .nothing) => throw (.system .noSuchFile)

/-- Read a whole file that has to be text. -/
def readText (path : String) : ConsoleAction String := do
  match Bytes.toString? (← readFile path) with
  | some text => return text
  | none => throw .notText

/-- Write a whole file, which is created if it is missing. -/
def writeFile (path : String) (contents : Bytes) : ConsoleAction Unit := do
  match ← walk .creating path with
  | (_, .directory) => throw (.system .isADirectory)
  | (place, _) =>
      modify fun host => { host with files := host.files.record place (.file contents) }

/-! ### Descriptors -/

/-- The descriptor of a number. -/
def descriptorOf (number : Nat) : ConsoleAction ConsoleDescriptor := do
  match (← get).descriptors[number]? with
  | some descriptor => return descriptor
  | none => throw (.badDescriptor number)

/-- Move the position of a descriptor. -/
def seek (number : Nat) (descriptor : ConsoleDescriptor) (position : Nat) : ConsoleAction Unit :=
  modify fun host =>
    { host with descriptors := host.descriptors.insert number { descriptor with position } }

/-- What stands at the place of a descriptor. -/
def nodeOf (descriptor : ConsoleDescriptor) : ConsoleAction Node := do
  return ((← get).files.node? descriptor.place).getD .nothing

/-- Read at most `size` bytes from standard input. -/
def readInput (size : Nat) : ConsoleAction Bytes := do
  if (← get).input.starved then await .standardInput
  modifyGet fun host =>
    let (bytes, input) := host.input.read size
    (bytes, { host with input })

/-- Read at most `size` bytes. -/
def read (number size : Nat) : ConsoleAction Bytes := do
  if number = 0 then readInput size
  else
    let descriptor ← descriptorOf number
    if !descriptor.readable then throw (.system .badDescriptor)
    match ← nodeOf descriptor with
    | .directory => throw (.system .isADirectory)
    | .nothing => return []
    | .file contents =>
        let bytes := BufferHost.window contents descriptor.position size
        seek number descriptor (descriptor.position + bytes.length)
        return bytes

/-- Write bytes into the file of a descriptor; writing nothing always succeeds. -/
def writeDescriptor (number : Nat) (bytes : Bytes) : ConsoleAction Unit := do
  let descriptor ← descriptorOf number
  if bytes.isEmpty then return
  if !descriptor.writable then throw (.system .badDescriptor)
  match ← nodeOf descriptor with
  | .directory => throw (.system .badDescriptor)
  | .nothing => store descriptor []
  | .file contents => store descriptor contents
where
  /-- Write at the position of the descriptor, or at the end. -/
  store (descriptor : ConsoleDescriptor) (contents : Bytes) : ConsoleAction Unit := do
    let position := if descriptor.append then contents.length else descriptor.position
    let written := BufferHost.overwritten contents position bytes
    modify fun host => { host with files := host.files.record descriptor.place (.file written) }
    seek number descriptor (position + bytes.length)

/-- Write bytes; the answer is how many there were, with what joins the journal. -/
def write (number : Nat) (bytes : Bytes) : ConsoleAction (Nat × List JournalEntry) := do
  if number = 1 then
    modify fun host => { host with output := host.output ++ bytes }
    return (bytes.length, [])
  else if number = 2 then return (bytes.length, [.guest bytes])
  else
    writeDescriptor number bytes
    return (bytes.length, [])

/-! ### Opening -/

/-- Whether a file can be opened in this way at all: creating and emptying need a writer, and nobody
who appends empties. -/
def permits (flags : OpenFlags) : Bool :=
  if flags.append then !flags.truncate
  else flags.writes || (!flags.truncate && !flags.create)

/-- The descriptor of a file that was just opened. -/
def opened (place : Place) (flags : OpenFlags) : ConsoleDescriptor where
  place
  position := 0
  readable := flags.reads
  writable := flags.writes || flags.append
  append := flags.append

/-- Give an opened file its descriptor. -/
def enroll (place : Place) (flags : OpenFlags) : ConsoleAction Nat :=
  modifyGet fun host =>
    (host.nextDescriptor,
      { host with
        descriptors := host.descriptors.insert host.nextDescriptor (opened place flags)
        nextDescriptor := host.nextDescriptor + 1 })

/-- Put an empty file at a place. -/
def emptyFile (place : Place) : ConsoleAction Unit :=
  modify fun host => { host with files := host.files.record place (.file []) }

/-- Open a file; the answer is its descriptor, with what joins the journal. -/
def openFile (path : String) (flags : OpenFlags) : ConsoleAction (Nat × List JournalEntry) := do
  if path.contains '\x00' then throw .zeroInPath
  if !permits flags then throw .needsWriter
  let (place, node) ← walk (if flags.create then .creating else .finding) path
  match node with
  | .directory =>
      if flags.writes || flags.append then throw (.system .isADirectory)
  | .file _ => if flags.truncate then emptyFile place
  | .nothing =>
      if !flags.create then throw (.system .noSuchFile)
      emptyFile place
  let number ← enroll place flags
  return (number, [.note (.fileOpened path number)])

end ConsoleHost

end NestedMachine
