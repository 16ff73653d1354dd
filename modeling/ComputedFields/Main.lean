import ComputedFields.CommandLine.Run
import Std.Time.DateTime.Timestamp

/-! The command line program: checks and evaluates formulas, and lists the function library. -/

open ComputedFields

/-- 1970-01-01 at midnight. -/
def epoch : Option Calendar.DateTime :=
  (Calendar.Date.ofDayNumber? Calendar.DateTime.epochDay).map Calendar.DateTime.ofDate

/-- The time on the clock, in UTC. -/
def currentTime : IO Calendar.DateTime := do
  let nanos := (← Std.Time.Timestamp.now).toNanosecondsSinceUnixEpoch
  let instant? : Option Calendar.DateTime := do
    let start ← epoch
    let span ← Calendar.Duration.ofNanos? nanos.val
    start.add? span
  match instant? with
  | some instant => return instant
  | none => throw (IO.userError "the clock is out of range")

/-- Runs one command. The exit code tells a failure from misused arguments. -/
def main (args : List String) : IO UInt32 := do
  match CommandLine.run (← currentTime) args with
  | .printed text =>
    IO.print text
    return 0
  | .failed report =>
    IO.eprint report
    return 1
  | .misused =>
    IO.eprintln "Usage: computedfields [--max-depth N] [--max-nodes N] parse|eval|functions ..."
    return 2
