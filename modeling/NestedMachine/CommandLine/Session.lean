import NestedMachine.CommandLine.Arguments
import NestedMachine.CommandLine.Statistics
import NestedMachine.Configuration.File
import NestedMachine.Hypervisor.Scheduling
import NestedMachine.Text.Legible
import NestedMachine.Trace.File

/-!
# Sessions

A session is one use of the command line: it reads the configuration and the
program, builds the stack of levels, runs the program to its end, stores the trace
if calls were recorded, and ends with the exit code of the program.  Any error of
the machine ends it with a message and the exit code one.

A session goes on step by step.  A step that needs to know more of what lies
around the program than its console host knows does not happen; whoever drives the
session can supply that and take the step again.
-/

namespace NestedMachine.CommandLine

set_option autoImplicit false

/-! ## Parts of a session -/

/-- Carry out an action on the console. -/
def onConsole {α : Type} (action : ConsoleAction α) : HypervisorAction α
  | ⟨machine, own⟩ =>
      match own.host with
      | .console console =>
          match action console with
          | .ok answer console => .ok answer ⟨machine, { own with host := .console console }⟩
          | .error refusal console =>
              .error (.file refusal) ⟨machine, { own with host := .console console }⟩
      | _ => .error (.file .unsupported) ⟨machine, own⟩

/-- Where the calls are recorded to, and where they are replayed from. -/
structure Plan where
  record : Option String
  replay : Option String
  deriving DecidableEq, Repr

/-- The command line wins over the configuration, for each file by itself. -/
def planOf (arguments : Arguments) (configuration : Configuration) : Plan where
  record := arguments.record.or
    (if configuration.replayMode = .record then configuration.traceFile else none)
  replay := arguments.replay.or
    (if configuration.replayMode = .replay then configuration.traceFile else none)

/-- The configuration with the level that the command line sets. -/
def withLevel (arguments : Arguments) (configuration : Configuration) : Configuration :=
  { configuration with level := arguments.level.getD configuration.level }

/-- The note that shows a configuration. -/
def configuredNote (configuration : Configuration) : Note :=
  .configured configuration.level configuration.quantum configuration.frames
    configuration.mode.name configuration.stackSize

/-- Turn an answer into one that fails as an action. -/
def orFail {α : Type} : Except HostError α → HypervisorAction α
  | .ok answer => pure answer
  | .error error => throw error

/-- Start recording or replaying, and load the program. -/
def prepare (arguments : Arguments) (plan : Plan) (image : Image) :
    HypervisorAction ContextId := do
  match plan.replay with
  | some path =>
      let text ← onConsole (ConsoleHost.readText path)
      Hypervisor.startReplay (← orFail (Trace.ofText text))
      Hypervisor.note (.replaying path)
  | none => if plan.record.isSome then Hypervisor.startRecording
  Hypervisor.load image (arguments.program :: arguments.guest)

/-- Store the trace, if calls were recorded. -/
def storeTrace (plan : Plan) : HypervisorAction Unit := do
  let some path := plan.record | return
  let some trace ← Hypervisor.takeTrace | return
  onConsole (ConsoleHost.writeFile path (Bytes.ofString trace.toText))
  Hypervisor.note (.recorded trace.size path)

/-- Show what the levels have counted, if the command line asks for it. -/
def showStatistics (arguments : Arguments) : HypervisorAction Unit := do
  if arguments.statistics then
    let text := allStatisticsText (← get).allCounters
    onConsole (modify fun console => { console with output := console.output ++ Bytes.ofString text })

/-- What follows the end of the program. -/
def conclude (arguments : Arguments) (plan : Plan) (id : ContextId) (status : ExitStatus) :
    HypervisorAction Unit := do
  Hypervisor.note (.finished id status)
  storeTrace plan
  showStatistics arguments

/-! ## Sessions -/

/-- How a session ended. -/
structure Ending where
  exitCode : UInt8
  /-- What the session wrote to the error stream, apart from the message of the error. -/
  journal : Journal
  console : ConsoleHost
  error : Option HostError

/-- How far a session is. -/
inductive Session where
  /-- Nothing has happened yet. -/
  | starting (console : ConsoleHost)
  /-- The stack is built. -/
  | built (plan : Plan) (image : Image) (hypervisor : Hypervisor)
  | running (plan : Plan) (id : ContextId) (hypervisor : Hypervisor)
  /-- The program has ended. -/
  | concluding (plan : Plan) (id : ContextId) (status : ExitStatus) (hypervisor : Hypervisor)
  | ended (ending : Ending)

/-- What a step of a session leads to. -/
inductive Progress where
  | next (session : Session)
  /-- The step needs to know more. -/
  | wants (want : Want)

namespace Session

/-- The console of a hypervisor. -/
def consoleOf (hypervisor : Hypervisor) : ConsoleHost :=
  match hypervisor.own.host with
  | .console console => console
  | _ => .surroundedBy .unread .unexplored

/-- The end of a session by an error. -/
def failed (error : HostError) (journal : Journal) (console : ConsoleHost) : Session :=
  .ended ⟨1, journal, console, some error⟩

/-- The end of a session whose hypervisor failed. -/
def failedOn (error : HostError) (hypervisor : Hypervisor) : Session :=
  failed error hypervisor.machine.interpreter.journal (consoleOf hypervisor)

/-- The end of a session whose program has ended. -/
def succeeded (status : ExitStatus) (hypervisor : Hypervisor) : Session :=
  .ended {
    exitCode := UInt8.ofNat (status.code.toUInt64.toNat % 256)
    journal := hypervisor.machine.interpreter.journal
    console := consoleOf hypervisor
    error := none }

/-- A step of a session that is an action of the hypervisor. -/
def progress {α : Type} (action : HypervisorAction α) (hypervisor : Hypervisor)
    (next : α → Hypervisor → Session) : Progress :=
  match action hypervisor with
  | .ok answer hypervisor =>
      match hypervisor.own.host.wants with
      | some want => .wants want
      | none => .next (next answer hypervisor)
  | .error error hypervisor =>
      match hypervisor.own.host.wants with
      | some want => .wants want
      | none => .next (failedOn error hypervisor)

/-- Read the configuration. -/
def readConfiguration (arguments : Arguments) (console : ConsoleHost) :
    Except HostError Configuration × ConsoleHost :=
  match arguments.configuration with
  | none => (.ok .standard, console)
  | some path =>
      match ConsoleHost.readText path console with
      | .ok text console => (Configuration.ofText text, console)
      | .error refusal console => (.error (.file refusal), console)

/-- Read the program. -/
def readProgram (arguments : Arguments) (console : ConsoleHost) :
    Except HostError Image × ConsoleHost :=
  match ConsoleHost.readFile arguments.program console with
  | .ok bytes console => ((Image.ofBytes bytes).mapError HostError.invalidImage, console)
  | .error refusal console => (.error (.file refusal), console)

/-- Read the configuration and the program and build the stack. -/
def build (arguments : Arguments) (console : ConsoleHost) : Session :=
  match readConfiguration arguments console with
  | (.error error, console) => failed error .silent console
  | (.ok configuration, console) =>
      let configuration := withLevel arguments configuration
      let journal := (Journal.withThreshold configuration.threshold).add
        (configuredNote configuration)
      match readProgram arguments console with
      | (.error error, console) => failed error journal console
      | (.ok image, console) =>
          match Hypervisor.build configuration (.console console) journal with
          | .error error => failed error journal console
          | .ok hypervisor => .built (planOf arguments configuration) image hypervisor

/-- The console of a session. -/
def console : Session → ConsoleHost
  | .starting console => console
  | .built _ _ hypervisor | .running _ _ hypervisor | .concluding _ _ _ hypervisor =>
      consoleOf hypervisor
  | .ended ending => ending.console

/-- The journal of a session so far. -/
def journal : Session → Journal
  | .starting _ => .silent
  | .built _ _ hypervisor | .running _ _ hypervisor | .concluding _ _ _ hypervisor =>
      hypervisor.machine.interpreter.journal
  | .ended ending => ending.journal

/-- Take a step. -/
def step (arguments : Arguments) : Session → Progress
  | .starting console =>
      let session := build arguments console
      match session.console.wants with
      | some want => .wants want
      | none => .next session
  | .built plan image hypervisor =>
      progress (prepare arguments plan image) hypervisor fun id hypervisor =>
        .running plan id hypervisor
  | .running plan id hypervisor =>
      progress (Hypervisor.awaitOnce id) hypervisor fun status hypervisor =>
        match status with
        | some status => .concluding plan id status hypervisor
        | none => .running plan id hypervisor
  | .concluding plan id status hypervisor =>
      progress (conclude arguments plan id status) hypervisor fun _ hypervisor =>
        succeeded status hypervisor
  | .ended ending => .next (.ended ending)

/-- Take steps until the session has ended.  There is no answer if the steps did not suffice, or if
the session wants to know more than it is told. -/
def run (arguments : Arguments) : Nat → Session → Option Ending
  | 0, _ => none
  | steps + 1, session =>
      match session.step arguments with
      | .next (.ended ending) => some ending
      | .next session => run arguments steps session
      | .wants _ => none

/-- Change what a session knows of its surroundings. -/
def supply (change : ConsoleHost → ConsoleHost) : Session → Session
  | .starting console => .starting (change console)
  | .built plan image hypervisor => .built plan image (inHypervisor hypervisor)
  | .running plan id hypervisor => .running plan id (inHypervisor hypervisor)
  | .concluding plan id status hypervisor =>
      .concluding plan id status (inHypervisor hypervisor)
  | .ended ending => .ended { ending with console := change ending.console }
where
  /-- Change what the console of a hypervisor knows. -/
  inHypervisor (hypervisor : Hypervisor) : Hypervisor :=
    { hypervisor with
      own := { hypervisor.own with host := .console (change (consoleOf hypervisor)) } }

end Session

/-- The line that tells of an error. -/
def fatalLine (error : HostError) : String := "\n[!] FATAL: " ++ error.message ++ "\n"

/-- The line that tells of the error that ended a session, if one did. -/
def Ending.fatalText (ending : Ending) : String :=
  match ending.error with
  | some error => fatalLine error
  | none => ""

/-- What a session wrote to the error stream, as legible text. -/
def Ending.errorText (ending : Ending) : String :=
  Legible.text (ending.journal.bytes ++ Bytes.ofString ending.fatalText)

/-- What a session wrote to the output, as legible text. -/
def Ending.outputText (ending : Ending) : String := Legible.text ending.console.output

/-- The exit code for a command line that asks for nothing known. -/
def refusedExitCode : UInt8 := 2

end NestedMachine.CommandLine
