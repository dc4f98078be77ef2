import NestedMachine.Hypervisor.Scheduling

/-!
# Comparing levels

A program must not be able to tell how many levels lie below it.  A report runs
the same program at several levels, each time with a fresh stack and a fresh buffer
host, and tells which runs differ from the first in how they ended or in what they
wrote.
-/

namespace NestedMachine

set_option autoImplicit false

/-- The outcome of a run at one level. -/
structure LevelRun where
  level : Nat
  status : ExitStatus
  output : Bytes
  errors : Bytes
  deriving DecidableEq, Repr

namespace LevelRun

/-- Whether two runs ended alike and wrote the same. -/
def agrees (run other : LevelRun) : Bool :=
  run.status == other.status && run.output == other.output && run.errors == other.errors

/-- Run a program to its end and keep what it wrote. -/
def action (image : Image) (arguments : List String) (rounds : Nat) :
    HypervisorAction (Option LevelRun) := do
  let id ← Hypervisor.load image arguments
  let some status ← Hypervisor.run rounds id | return none
  let level := (← get).level
  Hypervisor.note (.levelFinished level status)
  let host := ((← get).own.host.buffer?).getD (.withInput [])
  return some ⟨level, status, host.output, host.errors⟩

/-- Run a program at a level; no answer if the rounds did not suffice. -/
def perform (configuration : Configuration) (image : Image) (arguments : List String)
    (input : Bytes) (rounds level : Nat) : Except HostError (Option LevelRun) :=
  match Hypervisor.nested configuration (.buffer (.withInput input)) .silent level with
  | .error error => .error error
  | .ok hypervisor =>
      match action image arguments rounds hypervisor with
      | .ok run _ => .ok run
      | .error error _ => .error error

end LevelRun

/-- The outcomes of runs, in the order in which they were asked for. -/
structure LevelReport where
  runs : List LevelRun
  deriving DecidableEq, Repr

namespace LevelReport

/-- The levels whose runs differ from the first. -/
def mismatches (report : LevelReport) : List Nat :=
  match report.runs with
  | [] => []
  | first :: _ => (report.runs.filter fun run => !run.agrees first).map (·.level)

/-- Whether all runs agree. -/
def isFixedPoint (report : LevelReport) : Bool := report.mismatches.isEmpty

/-- The name under which a compared program is started. -/
def arguments : List String := ["selfhost"]

/-- The runs of a program at some levels, until one fails or does not end within the rounds. -/
def runsAt (configuration : Configuration) (image : Image) (input : Bytes) (rounds : Nat) :
    List Nat → Except HostError (Option (List LevelRun))
  | [] => .ok (some [])
  | level :: rest =>
      match LevelRun.perform configuration image arguments input rounds level with
      | .error error => .error error
      | .ok none => .ok none
      | .ok (some run) =>
          (runsAt configuration image input rounds rest).map (·.map (run :: ·))

/-- Run a program at every level of a list. -/
def compare (configuration : Configuration) (image : Image) (input : Bytes) (levels : List Nat)
    (rounds : Nat) : Except HostError (Option LevelReport) :=
  (runsAt configuration image input rounds levels).map (·.map LevelReport.mk)

end LevelReport

end NestedMachine
