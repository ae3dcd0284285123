import Reckon.Chunk.Listing
import Reckon.CommandLine.Request
import Reckon.Core.Text
import Reckon.Formula.Text
import Reckon.Scope.Builtins
import Reckon.Text.Column

/-!
# Reckon — reports

What the command line answers to a request: the text it prints and the code it
exits with. A command that fails prints why and exits with 1; arguments that
make no request exit with 2 and print nothing but the usage error.

A conversation is held in rounds, each with a line of input. What a round does is
said once, for any console (`Console.round`). Held on a sheet of paper in place of a
terminal, the conversation leaves its transcript.
-/

namespace Reckon.CommandLine

/-- What the command line answers. -/
structure Report where
  exitCode : Nat
  output : String
  usageError : Option UsageError := none

/-- What a failing command prints. -/
def errorLine (message : String) : String :=
  "Error: " ++ message ++ "\n"

/-- The report of a command: what it prints, or why it fails. -/
def Report.ofResult : Except String String → Report
  | .ok output => ⟨0, output, none⟩
  | .error message => ⟨1, errorLine message, none⟩

/-! ## Evaluating -/

/-- The name that the command line gives to what it compiles. -/
def formulaName : String := "expression"

/-- The value of a source in a scope, in words. -/
def interpret (backend : Backend) (source : String) (s : Scope) : Except String String :=
  match compile formulaName source backend with
  | .error e => .error e.message
  | .ok evaluator =>
    match (evaluator.invoke s.env).result with
    | .ok value => .ok (Number.text value ++ "\n")
    | .error f => .error f.message

/-- Evaluates a source with variables declared beside the builtins. -/
def evalCommand (backend : Backend) (source : String) (defines : List (String × Float)) :
    Except String String :=
  match Scope.builtins.declareVariables defines with
  | (_, some clash) => .error clash.message
  | (s, none) => interpret backend source s

/-! ## Conversations -/

/-- What a conversation starts with. -/
def banner (backend : Backend) : String :=
  "Welcome to the mathc REPL! Compiling with the " ++ backend.text ++ " backend.\n"
    ++ "EOF to exit. (Ctrl+D on *nix, Ctrl+Z on Windows)\n"

/-- What asks for a line. -/
def prompt : String := "> "

/-- The answer to a line: nothing if it is blank, else its value or what is
wrong with it. -/
def respond (backend : Backend) (s : Scope) (line : String) : String :=
  let source := Text.trim line
  if source.isEmpty then ""
  else
    match interpret backend source s with
    | .ok output => output
    | .error message => errorLine message

/-- Where a conversation gets its lines from and what it prints to. -/
structure Console (m : Type → Type) where
  /-- The next line with its line feed. It is empty at the end of the input. -/
  readLine : m String
  print : String → m Unit

/-- Asks for a line and answers it. It says whether there was one. -/
def Console.round {m : Type → Type} [Monad m] (console : Console m) (backend : Backend)
    (s : Scope) : m Bool := do
  console.print prompt
  let line ← console.readLine
  if line.isEmpty then return false
  console.print (respond backend s line)
  return true

/-- Splits a line off the front of a text. It ends behind a line feed, or where
the text does. -/
def spanLine (chars : List Char) : List Char × List Char :=
  let line := chars.takeWhile (· != '\n')
  match chars.dropWhile (· != '\n') with
  | [] => (line, [])
  | feed :: rest => (line ++ [feed], rest)

theorem spanLine_append (chars : List Char) : (spanLine chars).1 ++ (spanLine chars).2 = chars := by
  have hSplit := List.takeWhile_append_dropWhile (p := (· != '\n')) (l := chars)
  unfold spanLine
  split
  · next hRest =>
    rw [hRest] at hSplit
    exact hSplit
  · next feed rest hRest =>
    rw [hRest] at hSplit
    rw [List.append_assoc]
    exact hSplit

/-- A conversation that is written down: what is left of its input, and what was
printed in it. -/
structure Sheet where
  unread : List Char
  printed : String

namespace Sheet

/-- The console that reads from a sheet and prints to it. -/
def console : Console (StateM Sheet) where
  readLine := fun sheet =>
    let (line, rest) := spanLine sheet.unread
    (String.ofList line, { sheet with unread := rest })
  print text := fun sheet => ((), { sheet with printed := sheet.printed ++ text })

/-- What a round does to a sheet. -/
theorem round_console (backend : Backend) (s : Scope) (sheet : Sheet) :
    console.round backend s sheet =
      if (String.ofList (spanLine sheet.unread).1).isEmpty then
        (false, ⟨(spanLine sheet.unread).2, sheet.printed ++ prompt⟩)
      else
        (true, ⟨(spanLine sheet.unread).2, sheet.printed ++ prompt ++
          respond backend s (String.ofList (spanLine sheet.unread).1)⟩) := by
  -- the prompt leaves the input as it is, so the same line is read behind it
  show (if (String.ofList (spanLine sheet.unread).1).isEmpty then pure false
    else do
      console.print (respond backend s (String.ofList (spanLine sheet.unread).1))
      pure true : StateM Sheet Bool) ⟨(spanLine sheet.unread).2, sheet.printed ++ prompt⟩ = _
  split <;> rfl

/-- A line that is answered is no longer there to be read. -/
theorem unread_lt_of_round {backend : Backend} {s : Scope} {sheet next : Sheet}
    (h : console.round backend s sheet = (true, next)) :
    next.unread.length < sheet.unread.length := by
  rw [round_console] at h
  split at h
  · cases h
  · next hLine =>
    cases h
    have hLength := congrArg List.length (spanLine_append sheet.unread)
    rw [List.length_append] at hLength
    have hPos : 0 < (spanLine sheet.unread).1.length := by
      cases hChars : (spanLine sheet.unread).1 with
      | nil =>
        rw [hChars] at hLine
        exact absurd rfl hLine
      | cons c more => exact Nat.succ_pos _
    show (spanLine sheet.unread).2.length < _
    omega

/-- Holds a conversation until its input ends. -/
def converse (backend : Backend) (s : Scope) (sheet : Sheet) : Sheet :=
  match hRound : console.round backend s sheet with
  | (true, next) =>
    have := unread_lt_of_round hRound
    converse backend s next
  | (false, last) => last
termination_by sheet.unread.length

end Sheet

/-- All that is printed in a conversation over an input. -/
def transcript (backend : Backend) (input : String) : String :=
  (Sheet.converse backend .builtins ⟨input.toList, banner backend⟩).printed

/-! ## Printing -/

/-- A token as a line of a table. -/
def tokenLine (t : Token) : String :=
  Text.leftColumn 10 t.span.text ++ " " ++ Text.leftColumn 12 t.kind.name ++ " "
    ++ t.lexeme.getD "" ++ "\n"

/-- The tokens of a source, a line for each. -/
def tokenTable (source : String) : String :=
  String.join ((tokens source).map tokenLine)

/-- A formula, and with it its core expression if the backend goes by way of
it. -/
def treeCommand (backend : Backend) (source : String) : Except String String :=
  match parse source with
  | .error e => .error e.message
  | .ok f =>
    if backend = .treeIr then
      match f.lower with
      | .ok e => .ok (f.text ++ "\n" ++ e.text ++ "\n")
      | .error e => .error e.message
    else .ok (f.text ++ "\n")

/-- The listing of the chunk of a source. -/
def disassembleCommand (source : String) : Except String String :=
  match parse source with
  | .error e => .error e.message
  | .ok f =>
    match f.toChunk formulaName with
    | .error e => .error e.message
    | .ok chunk =>
      match chunk.listing with
      | .ok listing => .ok listing
      | .error fault => .error fault.message

/-- What can be asked for. -/
def helpText : String :=
  "Compile and evaluate arithmetic expressions\n\n"
    ++ "Usage: mathc [OPTIONS] [COMMAND]\n\n"
    ++ "Commands:\n"
    ++ "  repl         Evaluate one expression per line\n"
    ++ "  eval         Evaluate a single expression\n"
    ++ "  tokens       Print the token table\n"
    ++ "  tree         Print the parsed tree, and its IR with `--backend tree-ir`\n"
    ++ "  disassemble  Print the bytecode of the native backend\n"
    ++ "  help         Print this message or the help of the given subcommand(s)\n\n"
    ++ "Options:\n"
    ++ "      --backend <BACKEND>  Backend used to compile expressions [default: native]\n"
    ++ "      --debug              Log compiler decisions\n"
    ++ "  -h, --help               Print help\n"

/-- The report of a request. Only a conversation reads the input. -/
def Request.run (r : Request) (input : String) : Report :=
  match r.command with
  | .help => .ofResult (.ok helpText)
  | .repl => .ofResult (.ok (transcript r.backend input))
  | .eval source defines => .ofResult (evalCommand r.backend source defines)
  | .tokens source => .ofResult (.ok (tokenTable source))
  | .tree source => .ofResult (treeCommand r.backend source)
  | .disassemble source => .ofResult (disassembleCommand source)

/-- The report of a command line. -/
def report (args : List String) (input : String) : Report :=
  match Request.ofArguments args with
  | .error e => ⟨2, "", some e⟩
  | .ok r => r.run input

end Reckon.CommandLine
