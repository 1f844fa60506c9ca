import Fluxion.CommandLine.Run

/-!
# The program

`fluxion "x * sin(x)"` prints the derivative of an expression.
-/

namespace Fluxion.CommandLine

/-- How the program is called. -/
def usage : String :=
  "usage: fluxion [-h] [-d VARIABLE] [--tree] [--no-simplify] [--identities] [--at VALUE] [-v]"
    ++ " EXPRESSION\n"

end Fluxion.CommandLine

open Fluxion.CommandLine in
/-- Runs the program on its arguments. -/
def main (arguments : List String) : IO UInt32 := do
  let stdout ← IO.getStdout
  let stderr ← IO.getStderr
  match Options.read arguments with
  | .error .usage =>
      stderr.putStr usage
      return 2
  | .error .help =>
      stdout.putStr usage
      return 0
  | .ok options =>
      let printout := run options
      stdout.putStr printout.output
      stdout.flush
      stderr.putStr printout.errors
      return printout.status.toUInt32
