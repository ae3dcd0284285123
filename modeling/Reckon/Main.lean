import Reckon.CommandLine.Report

/-!
# Reckon — the program

The command line as a program. A conversation is held line by line; every
other command is answered at once.
-/

namespace Reckon.CommandLine

/-- The console of the program: its input and its output. -/
def Console.standard : IO (Console IO) := do
  let input ← IO.getStdin
  let output ← IO.getStdout
  return ⟨input.getLine, fun text => do output.putStr text; output.flush⟩

/-- Holds a conversation until the input ends. -/
partial def converse (console : Console IO) (backend : Backend) (s : Scope) : IO Unit := do
  if ← console.round backend s then converse console backend s

end Reckon.CommandLine

open Reckon.CommandLine in
/-- Answers the request of the command line. -/
def main (args : List String) : IO UInt32 := do
  match Request.ofArguments args with
  | .error e =>
    let output ← IO.getStderr
    output.putStr (if ← output.isTty then e.message else Reckon.Text.plain e.message)
    return 2
  | .ok request =>
    let console ← Console.standard
    match request.command with
    | .repl =>
      console.print (banner request.backend)
      converse console request.backend .builtins
      return 0
    | _ =>
      let report := request.run ""
      console.print report.output
      return report.exitCode.toUInt32
