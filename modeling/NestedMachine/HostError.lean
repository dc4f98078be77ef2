import NestedMachine.Fault
import NestedMachine.Host.Refusal

/-!
# Errors of the machine's user

A guest that does something wrong faults, and only that guest is concerned.  The
errors here reach whoever drives the machine: memory ran out, a context is not
known, a trace does not fit the program, a file is malformed.  Each error is the
cause; its wording is in `HostError.message` alone.
-/

namespace NestedMachine

set_option autoImplicit false

/-- How a context was not in a state that the scheduler can go on from. -/
inductive Breach where
  /-- A context that is not ready was to run for a slice. -/
  | scheduledIn (state : ContextState)
  /-- A context that can neither run nor wait was to run for one instruction. -/
  | steppedIn (state : ContextState)
  /-- A context that no fault has parked was to be ended by its fault. -/
  | untrapped (state : ContextState)
  /-- The interpreter was to run a context that has exited. -/
  | switchedToExited
  /-- Nothing can run although the awaited context has not exited. -/
  | nothingRunnable
  /-- A fault outside the run of any context. -/
  | stray (fault : Fault)
  deriving DecidableEq, Repr

/-- The wording of a breach. -/
def Breach.message : Breach → String
  | .scheduledIn state => "scheduled in state " ++ state.inspect
  | .steppedIn state => "step in state " ++ state.inspect
  | .untrapped state => "finalize of an untrapped context in state " ++ state.inspect
  | .switchedToExited => "switch to an exited context"
  | .nothingRunnable => "no runnable context left"
  | .stray fault => fault.message

/-- Why a file is no program image or no trace of the current version. -/
inductive ImageDefect where
  | shorterThanHeader (size : Nat)
  | badMagic
  | segmentsExceedBody (code data body : Nat)
  | version (found : Nat)
  | codeNotWhole (size : Nat)
  | entryOutsideCode (entry : Nat)
  | traceVersion (found : Nat)
  deriving DecidableEq, Repr

/-- The wording of a defect. -/
def ImageDefect.message : ImageDefect → String
  | .shorterThanHeader size => toString size ++ " bytes is shorter than the header"
  | .badMagic => "bad magic"
  | .segmentsExceedBody code data body =>
      "segments of " ++ toString code ++ " + " ++ toString data ++ " bytes exceed the "
        ++ toString body ++ " bytes present"
  | .version found => "encoding version " ++ toString found ++ " (expected 1)"
  | .codeNotWhole size =>
      "code segment of " ++ toString size ++ " bytes is not a whole number of instructions"
  | .entryOutsideCode entry => "entry point " ++ Numeral.hex entry ++ " outside code segment"
  | .traceVersion found => "trace version " ++ toString found ++ " (expected 1)"

/-- Why a program cannot be loaded. -/
inductive LoadDefect where
  /-- The segments leave no room for the stack. -/
  | doesNotFit (code data stack : Nat)
  /-- The arguments do not fit, or a segment cannot be written. -/
  | fault (fault : Fault)
  deriving DecidableEq, Repr

/-- The wording of a defect. -/
def LoadDefect.message : LoadDefect → String
  | .doesNotFit code data stack =>
      "program of " ++ toString code ++ " code and " ++ toString data
        ++ " data bytes does not fit below a " ++ toString stack ++ " byte stack"
  | .fault cause => cause.message

/-- Why a configuration that could be read is refused. -/
inductive ConfigurationDefect where
  | zeroQuantum
  | traceFileMissing
  deriving DecidableEq, Repr

/-- The wording of a defect. -/
def ConfigurationDefect.message : ConfigurationDefect → String
  | .zeroQuantum => "scheduler.quantum must be at least 1"
  | .traceFileMissing => "replay.trace_file is required when replay.mode is set"

/-- The errors that reach whoever drives the machine. -/
inductive HostError where
  /-- The frame pool ran dry under a context. -/
  | memoryExhausted (context : ContextId) (pc : UInt64)
  /-- The machine does not know the context. -/
  | unknownContext (context : ContextId)
  /-- The scheduler cannot go on from the state of a context. -/
  | schedulerInvariant (context : ContextId) (pc : UInt64) (breach : Breach)
  /-- The next record of the trace is of another call. -/
  | replayDivergence (index : Nat) (expectedPc expectedNumber pc number : Nat)
  /-- A call made again gave another result than the recorded one. -/
  | replayMismatch (index number : Nat) (expected result : Int64)
  /-- The trace has no record left. -/
  | replayExhausted (pc number : Nat)
  | invalidImage (defect : ImageDefect)
  | loadFailed (defect : LoadDefect)
  | invalidLevel (level : Nat)
  | invalidConfiguration (defect : ConfigurationDefect)
  /-- The configuration cannot be read. -/
  | malformedConfiguration
  /-- The trace cannot be read. -/
  | malformedTrace
  /-- A file outside the guests' reach cannot be read or written. -/
  | file (refusal : HostRefusal)
  deriving DecidableEq, Repr

namespace HostError

/-- The kind of an error. -/
def kind : HostError → String
  | .memoryExhausted .. => "ResourceExhausted"
  | .unknownContext _ => "UnknownContext"
  | .schedulerInvariant .. => "SchedulerInvariant"
  | .replayDivergence .. => "ReplayDivergence"
  | .replayMismatch .. => "ReplayResultMismatch"
  | .replayExhausted .. => "ReplayExhausted"
  | .invalidImage _ => "InvalidImage"
  | .loadFailed _ => "LoadFailed"
  | .invalidLevel _ => "InvalidLevel"
  | .invalidConfiguration _ => "InvalidConfig"
  | .malformedConfiguration => "Config"
  | .malformedTrace => "Trace"
  | .file _ => "Io"

/-- The message of an error.  A malformed configuration or trace is named without its cause. -/
def message : HostError → String
  | .memoryExhausted context pc =>
      "physical memory exhausted in context " ++ ContextId.label context ++ " at pc "
        ++ Numeral.hex pc.toNat
  | .unknownContext context => "unknown context " ++ ContextId.label context
  | .schedulerInvariant context pc breach =>
      "scheduler invariant violated by context " ++ ContextId.label context ++ " at pc "
        ++ Numeral.hex pc.toNat ++ ": " ++ breach.message
  | .replayDivergence index expectedPc expectedNumber pc number =>
      "replay diverged at record " ++ toString index ++ ": expected syscall "
        ++ toString expectedNumber ++ " at " ++ Numeral.hex expectedPc ++ ", got syscall "
        ++ toString number ++ " at " ++ Numeral.hex pc
  | .replayMismatch index number expected result =>
      "replay diverged at record " ++ toString index ++ ": syscall " ++ toString number
        ++ " returned " ++ toString result ++ ", recorded " ++ toString expected
  | .replayExhausted pc number =>
      "replay trace exhausted: syscall " ++ toString number ++ " at " ++ Numeral.hex pc
        ++ " has no record"
  | .invalidImage defect => "invalid image: " ++ defect.message
  | .loadFailed defect => "load failed: " ++ defect.message
  | .invalidLevel level => "invalid virtualization level " ++ toString level
  | .invalidConfiguration defect => "invalid configuration: " ++ defect.message
  | .malformedConfiguration => "invalid configuration"
  | .malformedTrace => "invalid trace file"
  | .file refusal => "i/o error: " ++ refusal.message

end HostError

end NestedMachine
