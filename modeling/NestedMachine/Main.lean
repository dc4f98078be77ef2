import NestedMachine.CommandLine.Session

/-!
# The program

The command line program drives one session against the real streams and files: it
takes the steps of the session one after the other, supplies what a step wants to
know, and after each step shows what the session has written.
-/

set_option autoImplicit false

namespace NestedMachine.CommandLine

/-- What stands at a place of the file system.  What cannot be read counts as nothing. -/
def nodeAt (place : Place) : IO Node := do
  try return .file (← IO.FS.readBinFile place.path).toList
  catch
    | .inappropriateType .. => return .directory
    | _ => return .nothing

/-- Find out what a session wants to know. -/
def answerWant (want : Want) : IO (ConsoleHost → ConsoleHost) := do
  match want with
  | .standardInput =>
      let bytes ← (← IO.getStdin).read (USize.ofNat StandardInput.blockSize)
      return ConsoleHost.learnInput bytes.toList
  | .place place => return ConsoleHost.learnNode place (← nodeAt place)

/-- Write bytes to a stream. -/
def emit (stream : IO.FS.Stream) (bytes : Bytes) : IO Unit := do
  unless bytes.isEmpty do
    stream.write bytes.toByteArray
    stream.flush

/-- Show what a step has written: to the output, to the error stream, and into files. -/
def showStep (before after : Session) : IO Unit := do
  emit (← IO.getStdout) after.console.output
  emit (← IO.getStderr) (after.journal.bytesFrom before.journal.entries.size)
  for (path, contents) in after.console.files.changesSince before.console.files do
    IO.FS.writeBinFile path contents.toByteArray

/-- Take the steps of a session until it ends; the answer is the exit code. -/
partial def drive (arguments : Arguments) (session : Session) : IO UInt32 := do
  match session with
  | .ended ending =>
      emit (← IO.getStderr) (Bytes.ofString ending.fatalText)
      return ending.exitCode.toUInt32
  | session =>
      match session.step arguments with
      | .wants want => drive arguments (session.supply (← answerWant want))
      | .next after =>
          showStep session after
          drive arguments (after.supply ConsoleHost.forgetOutput)

end NestedMachine.CommandLine

open NestedMachine NestedMachine.CommandLine in
/-- Run the program that the arguments name. -/
def main (arguments : List String) : IO UInt32 := do
  match ofList? arguments with
  | some arguments => drive arguments (.starting (.surroundedBy .unread .unexplored))
  | none =>
      IO.eprintln "error: unknown, repeated or missing arguments"
      return refusedExitCode.toUInt32
