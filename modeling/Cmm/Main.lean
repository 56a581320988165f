import Cmm.CommandLine

/-!
# The program

Reads the source that the command line names and writes what `CommandLine.run` answers.
-/

set_option autoImplicit false

namespace Cmm.CommandLine

/-- What is found under a file name. -/
def readSource (path : String) : IO File := do
  try
    return .bytes (← IO.FS.readBinFile path)
  catch e =>
    match e with
    | .noFileOrDirectory .. => return .missing
    | other => return .unreadable (toString other)

/-- Whether the messages of this process are coloured. -/
def colourWanted : IO Bool := do
  let terminal ← (← IO.getStdout).isTty
  return usesColour (← IO.getEnv "CLICOLOR_FORCE") (← IO.getEnv "NO_COLOR")
    (← IO.getEnv "CLICOLOR") terminal

/-- Runs on the source that the arguments name, and gives the exit code. -/
def execute (arguments : List String) : IO UInt32 := do
  match ofArguments? arguments with
  | none =>
    IO.eprintln "Usage: cmc [--dump-tokens] [--dump-ast] [--dump-symtab] [--stats] <INPUT>"
    return 2
  | some (path, options) =>
    let response := run path (← readSource path) options (← colourWanted)
    IO.print response.stdout
    IO.eprint response.stderr
    return response.exit.toUInt32

end Cmm.CommandLine

/-- Runs the front end. -/
def main (arguments : List String) : IO UInt32 := Cmm.CommandLine.execute arguments
