import AppBroker.Console

/-!
# The command line

The command in the arguments is run, or else the commands on standard input, one on a line with
blanks between its words. The platform they act on lives in memory as long as the program runs.
-/

namespace AppBroker.Console

/-- A platform on which nothing has happened. -/
def freshPlatform : World := { broker := { hub := ["plugins"], store := ["users"] } }

/-- Runs a command and shows its report. -/
def present (args : List String) (w : World) : IO (Report × World) := do
  let (report, w) := run args w
  IO.print report.output
  if report.failure.isSome then IO.eprintln "the command has broken off"
  return (report, w)

/-- The words of a line. -/
def wordsOf (line : String) : List String :=
  ((line.toList.splitOnP Text.isBlank).filter (! ·.isEmpty)).map String.ofList

/-- Runs commands until the input ends, and gives the last exit code. -/
partial def converse (input : IO.FS.Stream) (w : World) (exitCode : Nat) : IO Nat := do
  let line ← input.getLine
  if line.isEmpty then return exitCode
  let (report, w) ← present (wordsOf line) w
  converse input w report.exitCode

end AppBroker.Console

open AppBroker.Console in
/-- Runs the command line. -/
def main (args : List String) : IO UInt32 := do
  let exitCode : Nat ←
    if args.isEmpty then converse (← IO.getStdin) freshPlatform 0
    else (·.1.exitCode) <$> present args freshPlatform
  return exitCode.toUInt32
