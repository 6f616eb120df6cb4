import Criteria.CommandLine

/-!
# The program `clause`

Reads the arguments and, for a request that needs it and unless it is a terminal, the standard
input.
-/

namespace Criteria.CommandLine

/-- Writes an outcome. -/
def Outcome.write (o : Outcome) : IO UInt32 := do
  (← IO.getStdout).putStr o.output
  (← IO.getStderr).putStr o.errors
  return o.exitCode.toUInt32

end Criteria.CommandLine

open Criteria

/-- Runs the program on its arguments. -/
def main (arguments : List String) : IO UInt32 := do
  match CommandLine.read arguments (← IO.getEnv "CLAUSE_DIALECT") with
  | .error stop => stop.outcome.write
  | .ok request =>
    let input ← IO.getStdin
    if request.needsInput && !(← input.isTty) then
      (request.withInput (← input.readToEnd)).run.write
    else request.run.write
