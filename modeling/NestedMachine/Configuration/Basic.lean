import NestedMachine.Journal
import NestedMachine.Memory.Layout

/-!
# Configuration

What can be set before a machine is built: the frames and the layout of memory,
the scheduling quantum and the number of levels, what is noted, and whether system
calls are recorded or replayed.
-/

namespace NestedMachine

set_option autoImplicit false

/-- What happens to system calls. -/
inductive ReplayMode where
  | off
  | record
  | replay
  deriving DecidableEq, Repr

/-- The name of a replay mode. -/
def ReplayMode.name : ReplayMode → String
  | .off => "Off"
  | .record => "Record"
  | .replay => "Replay"

/-- The settings of a machine. -/
structure Configuration where
  traceInstructions : Bool
  /-- The name of the journal's threshold. -/
  logLevel : String
  frames : Nat
  mode : MemoryMode
  stackSize : Nat
  quantum : Nat
  level : Nat
  replayMode : ReplayMode
  traceFile : Option String
  deriving DecidableEq, Repr

namespace Configuration

/-- The settings where nothing is set. -/
def standard : Configuration where
  traceInstructions := false
  logLevel := "info"
  frames := 4096
  mode := .demand
  stackSize := 65536
  quantum := 10000
  level := 1
  replayMode := .off
  traceFile := none

/-- The threshold of the journal; a name that is none stands for `info`. -/
def threshold (configuration : Configuration) : Threshold :=
  (Threshold.ofName? configuration.logLevel).getD (some .info)

/-- Check the level, then the quantum, then the trace file. -/
def validate (configuration : Configuration) : Except HostError Unit :=
  if configuration.level = 0 then .error (.invalidLevel 0)
  else if configuration.quantum = 0 then .error (.invalidConfiguration .zeroQuantum)
  else if configuration.replayMode ≠ .off ∧ configuration.traceFile = none then
    .error (.invalidConfiguration .traceFileMissing)
  else .ok ()

end Configuration

end NestedMachine
