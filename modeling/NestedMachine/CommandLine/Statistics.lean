import NestedMachine.Machine.Interpreter

/-!
# Statistics

What the levels have counted is shown level by level.  The interpreter shows the
instructions and the use of memory, and every other level what it scheduled and
served.
-/

namespace NestedMachine.CommandLine

set_option autoImplicit false

/-- A line across the page. -/
def rule (char : Char) : String := String.ofList (List.replicate 58 char)

/-- The lines that show what the interpreter has counted. -/
def interpreterLines (counters : Counters) : List String :=
  ["sim_insts                " ++ toString counters.instructions,
   rule '-',
   "MEMORY",
   "  mem.page_faults        " ++ toString counters.pageFaults,
   "  mem.frames_peak        " ++ toString counters.framesPeak,
   "  ctx.created            " ++ toString counters.contextsCreated]

/-- The lines that show what another level has counted. -/
def levelLines (counters : Counters) : List String :=
  [rule '-',
   "SCHEDULER",
   "  sched.switches         " ++ toString counters.contextSwitches,
   "  sched.timer_irqs       " ++ toString counters.timerInterrupts,
   "  sys.calls              " ++ toString counters.systemCalls,
   "  sys.forks              " ++ toString counters.forks,
   "  ctx.exits              " ++ toString counters.exits,
   "  ctx.faults             " ++ toString counters.faults]

/-- The text that shows what a level has counted. -/
def statisticsText (level : Nat) (counters : Counters) : String :=
  let lines := if level = 0 then interpreterLines counters else levelLines counters
  let heading := ["", rule '=', "RISC-U LEVEL " ++ toString level ++ " STATISTICS", rule '=']
  String.join ((heading ++ lines ++ [rule '=']).map (· ++ "\n"))

/-- The text that shows what all levels have counted. -/
def allStatisticsText (counters : List (Nat × Counters)) : String :=
  String.join (counters.map fun entry => statisticsText entry.1 entry.2)

end NestedMachine.CommandLine
