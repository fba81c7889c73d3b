import Formula.CommandLine.Report

/-!
# The program

Prints the report on its arguments.  Arguments that make no command get a reminder of how to call
the program.
-/

namespace Formula.CommandLine

/-- How the program is called. -/
def usage : String :=
  "Usage: formula [-v] eval EXPRESSION [--var NAME=VALUE]...\n" ++
  "       formula [-v] check EXPRESSION [--var NAME:TYPE]...\n" ++
  "       formula [-v] fmt EXPRESSION\n" ++
  "       formula [-v] parse EXPRESSION\n"

end Formula.CommandLine

open Formula.CommandLine in
/-- Runs the program. -/
def main (arguments : List String) : IO UInt32 := do
  let report := report arguments
  IO.print report.output
  match report.complaint, Command.read arguments with
  | some complaint, _ => IO.eprint complaint
  | none, .error .help => IO.print usage
  | none, .error .usage => IO.eprint usage
  | none, .ok _ => pure ()
  return UInt32.ofNat report.code
