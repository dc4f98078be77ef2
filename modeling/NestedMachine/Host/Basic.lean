import NestedMachine.Host.Console

/-!
# Hosts

A host serves the requests that reach outside the machine: reading, writing and
opening files.  There are three: one that keeps everything in memory, one that
refuses everything, which is what the levels below a hypervisor have, and one that
works on the surroundings of the program.
-/

namespace NestedMachine

set_option autoImplicit false

/-- Whoever serves the requests that reach outside the machine. -/
inductive Host where
  | buffer (host : BufferHost)
  | null
  | console (host : ConsoleHost)

/-- The answer to a request, the host after it, and what joins the journal. -/
structure HostAnswer (α : Type) where
  result : Except HostRefusal α
  host : Host
  entries : List JournalEntry

namespace Host

/-- The name of a host. -/
def name : Host → String
  | .buffer _ => "buffer"
  | .null => "null"
  | .console _ => "std"

/-- The buffer host, if it is one. -/
def buffer? : Host → Option BufferHost
  | .buffer host => some host
  | _ => none

/-- The answer of a buffer host. -/
def ofBuffer {α : Type} : EStateM.Result HostRefusal BufferHost α → HostAnswer α
  | .ok answer host => ⟨.ok answer, .buffer host, []⟩
  | .error refusal host => ⟨.error refusal, .buffer host, []⟩

/-- The answer of a console host that has entries for the journal. -/
def ofConsole {α : Type} :
    EStateM.Result HostRefusal ConsoleHost (α × List JournalEntry) → HostAnswer α
  | .ok (answer, entries) host => ⟨.ok answer, .console host, entries⟩
  | .error refusal host => ⟨.error refusal, .console host, []⟩

/-- The host that refuses everything. -/
def refuse {α : Type} : HostAnswer α := ⟨.error .unsupported, .null, []⟩

/-- Read at most `size` bytes. -/
def read (descriptor size : Nat) : Host → HostAnswer Bytes
  | .buffer host => ofBuffer (host.read descriptor size)
  | .null => refuse
  | .console host => ofConsole ((return (← ConsoleHost.read descriptor size, [])) host)

/-- Write bytes; the answer is how many there were. -/
def write (descriptor : Nat) (bytes : Bytes) : Host → HostAnswer Nat
  | .buffer host => ofBuffer (host.write descriptor bytes)
  | .null => refuse
  | .console host => ofConsole (host.write descriptor bytes)

/-- Open a file; the answer is its descriptor. -/
def openFile (path : String) (flags : OpenFlags) : Host → HostAnswer Nat
  | .buffer host => ofBuffer (host.openFile path flags)
  | .null => refuse
  | .console host => ofConsole (host.openFile path flags)

/-- What a host has to know before it can answer. -/
def wants : Host → Option Want
  | .console host => host.wants
  | _ => none

end Host

end NestedMachine
