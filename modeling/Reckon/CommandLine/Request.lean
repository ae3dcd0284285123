import Reckon.Evaluator
import Reckon.Text.Blank
import Reckon.Text.Terminal

/-!
# Reckon — requests

The arguments of the command line ask for one of five commands or for help,
with options around it. `--backend` and `--debug` may stand before the command
and behind it; behind wins. `eval` also takes any number of `-D` options. A
value follows its option as an argument of its own, or attached to it. After
`--` nothing is an option, and nothing is a command.

Arguments are read from left to right. The value of an option is looked at when
the next option or expression is met, or at the end; an argument that cannot be
placed is reported at once. What stands behind a demand for help is not looked
at, except that `help` itself can be followed by the name of a command.
-/

namespace Reckon.CommandLine

/-- What the command line can be asked to do. -/
inductive Command where
  /-- Says what can be asked for. -/
  | help
  /-- Evaluates one formula per line of input. -/
  | repl
  /-- Evaluates a formula, with variables of its own. -/
  | eval (source : String) (defines : List (String × Float))
  /-- Prints the tokens of a source. -/
  | tokens (source : String)
  /-- Prints a formula, and its core expression if that is how it would be
  compiled. -/
  | tree (source : String)
  /-- Prints the chunk of a formula. -/
  | disassemble (source : String)

/-- A command and the backend it uses. -/
structure Request where
  command : Command
  backend : Backend

/-- The options that take a value. -/
inductive Setting where
  | backend
  | define
deriving DecidableEq, Repr

/-- How messages refer to an option. -/
def Setting.text : Setting → String
  | backend => "--backend <BACKEND>"
  | define => "-D <DEFINE>"

/-- What is wrong with the arguments. -/
inductive UsageError where
  | invalidValue (setting : Setting) (value reason : String)
  | missingValue (setting : Setting)
  /-- An option that may be given once is given twice. -/
  | repeated (option : String)
  /-- An option that takes no value is given one. -/
  | unwantedValue (option value : String)
  | unexpected (argument : String)
  | unknownCommand (name : String)
  | missingSource
deriving DecidableEq, Repr

/-- What is wrong in words, with what was given and what was meant in their
styles. -/
def UsageError.cause : UsageError → String
  | invalidValue setting value reason =>
    "invalid value '" ++ Text.wrong value ++ "' for '" ++ Text.typed setting.text ++ "': "
      ++ reason
  | missingValue setting =>
    "a value is required for '" ++ Text.wrong setting.text ++ "' but none was supplied"
  | repeated option =>
    "the argument '" ++ Text.wrong option ++ "' cannot be used multiple times"
  | unwantedValue option value =>
    "unexpected value '" ++ Text.wrong value ++ "' for '" ++ Text.typed option
      ++ "' found; no more were expected"
  | unexpected argument => "unexpected argument '" ++ Text.wrong argument ++ "' found"
  | unknownCommand name => "unrecognized subcommand '" ++ Text.wrong name ++ "'"
  | missingSource =>
    "the following required arguments were not provided:\n  " ++ Text.missing "<EXPRESSION>"

/-- What is printed about the error on a terminal. -/
def UsageError.message (e : UsageError) : String :=
  Text.errorWord ++ " " ++ e.cause ++ "\n\nFor more information, try '" ++ Text.typed "--help"
    ++ "'.\n"

/-- The commands by name. -/
inductive CommandName where
  | help
  | repl
  | eval
  | tokens
  | tree
  | disassemble
deriving DecidableEq, Repr

/-- The command of a name. -/
def CommandName.ofText? : String → Option CommandName
  | "help" => some help
  | "repl" => some repl
  | "eval" => some eval
  | "tokens" => some tokens
  | "tree" => some tree
  | "disassemble" => some disassemble
  | _ => none

/-! ## Values of options -/

/-- Splits a text at the first character `c`. -/
def splitAt? (c : Char) (text : String) : Option (String × String) :=
  let chars := text.toList
  match chars.dropWhile (· != c) with
  | [] => none
  | _ :: after => some (String.ofList (chars.takeWhile (· != c)), String.ofList after)

/-- Reads a definition: a name and a number with an equals sign between them,
and blanks around both. -/
def readDefine (text : String) : Except String (String × Float) :=
  match splitAt? '=' text with
  | none => .error ("expected name=value, found \"" ++ text ++ "\"")
  | some (name, value) =>
    match Number.read (Text.trim value) with
    | .ok l => .ok (Text.trim name, l.value)
    | .error e => .error ("invalid value for " ++ name ++ ": " ++ e.message)

/-- An option that has been met and not been looked at, with its value once
that has been met too. -/
structure Pending where
  setting : Setting
  value : Option String

/-- What the arguments on one side of the command have said so far. -/
structure Level where
  backend : Option Backend := none
  debug : Bool := false
  /-- Whether help is demanded; then nothing else counts. -/
  help : Bool := false
  /-- The definitions, the latest first. -/
  defines : List (String × Float) := []
  source : Option String := none
  pending : Option Pending := none

namespace Level

/-- Takes the value of an option. -/
def accept (l : Level) (setting : Setting) (value : String) : Except UsageError Level :=
  match setting with
  | .backend =>
    if l.backend.isSome then .error (.repeated Setting.backend.text)
    else
      match Backend.ofText? value with
      | some b => .ok { l with backend := some b }
      | none => .error (.invalidValue .backend value (Backend.unknownMessage value))
  | .define =>
    match readDefine value with
    | .ok d => .ok { l with defines := d :: l.defines }
    | .error reason => .error (.invalidValue .define value reason)

/-- Looks at the option that is pending. -/
def resolve (l : Level) : Except UsageError Level :=
  match l.pending with
  | none => .ok l
  | some ⟨setting, none⟩ => .error (.missingValue setting)
  | some ⟨setting, some value⟩ => { l with pending := none }.accept setting value

/-- Whether the next argument is the value of an option, if it can be one. -/
def awaiting? (l : Level) : Option Setting :=
  match l.pending with
  | some ⟨setting, none⟩ => some setting
  | _ => none

/-- Meets an option that takes a value, with what is attached to it. -/
def option (l : Level) (setting : Setting) (attached : Option String) :
    Except UsageError Level := do
  let l ← l.resolve
  match attached with
  | some value => l.accept setting value
  | none => return { l with pending := some ⟨setting, none⟩ }

/-- Meets `--debug`. -/
def setDebug (l : Level) : Except UsageError Level := do
  let l ← l.resolve
  if l.debug then throw (.repeated "--debug") else return { l with debug := true }

/-- Meets `--help`. -/
def demandHelp (l : Level) : Except UsageError Level := do
  let l ← l.resolve
  return { l with help := true }

end Level

/-! ## Arguments -/

/-- An argument by its form. -/
inductive Argument where
  /-- The two dashes that end the options. -/
  | dashes
  | long (name : String) (value : Option String)
  /-- A letter behind a dash, and what is attached to it. -/
  | short (letter : Char) (attached : Option String)
  | plain

/-- The form of an argument. -/
def Argument.ofString (text : String) : Argument :=
  match text.toList with
  | ['-', '-'] => .dashes
  | '-' :: '-' :: rest =>
    let name := String.ofList rest
    match splitAt? '=' name with
    | some (name, value) => .long name (some value)
    | none => .long name none
  | '-' :: letter :: rest =>
    let attached := match rest with
      | [] => none
      | '=' :: value => some (String.ofList value)
      | value => some (String.ofList value)
    .short letter attached
  | _ => .plain

/-- Meets an argument that is no option, behind a command. -/
def Level.positional (l : Level) (command : CommandName) (argument : String) :
    Except UsageError Level :=
  if command = .repl ∨ l.source.isSome then .error (.unexpected argument)
  else do
    let l ← l.resolve
    return { l with source := some argument }

/-- Meets an option, before a command or behind it. -/
def Level.meetOption (l : Level) (command : Option CommandName) :
    Argument → Except UsageError Level
  | .long name value =>
    if name = "backend" then l.option .backend value
    else if name = "debug" then
      match value with
      | some v => .error (.unwantedValue "--debug" v)
      | none => l.setDebug
    else if name = "help" then
      match value with
      | some v => .error (.unwantedValue "--help" v)
      | none => l.demandHelp
    else .error (.unexpected ("--" ++ name))
  | .short letter attached =>
    if command = some .eval ∧ letter = 'D' then l.option .define attached
    else if letter = 'h' then l.demandHelp
    else .error (.unexpected ("-" ++ String.singleton letter))
  | .dashes | .plain => .ok l

/-- Reads the arguments behind a command. Once `trailing`, none is an option. -/
def readTail (command : CommandName) : List String → Bool → Level → Except UsageError Level
  | [], _, l => l.resolve
  | arg :: rest, true, l => do
    let l ← l.positional command arg
    readTail command rest true l
  | arg :: rest, false, l =>
    match Argument.ofString arg with
    | .dashes => readTail command rest true l
    | .plain =>
      match l.awaiting? with
      | some setting => readTail command rest false { l with pending := some ⟨setting, some arg⟩ }
      | none => do
        let l ← l.positional command arg
        readTail command rest false l
    | form => do
      let l ← l.meetOption (some command) form
      if l.help then return l else readTail command rest false l

/-- Reads the arguments up to the command. Yields the command and the arguments
behind it, if there is a command. -/
def readHead : List String → Bool → Level →
    Except UsageError (Level × Option (CommandName × List String))
  | [], _, l => return (l, none)
  | arg :: _, true, _ =>
    match CommandName.ofText? arg with
    | some _ => .error (.unexpected arg)
    | none => .error (.unknownCommand arg)
  | arg :: rest, false, l =>
    match Argument.ofString arg with
    | .dashes => readHead rest true l
    | .plain =>
      match l.awaiting? with
      | some setting => readHead rest false { l with pending := some ⟨setting, some arg⟩ }
      | none =>
        match CommandName.ofText? arg with
        | some command => return (l, some (command, rest))
        | none => .error (.unknownCommand arg)
    | form => do
      let l ← l.meetOption none form
      if l.help then return (l, none) else readHead rest false l

/-- Reads the arguments behind the command `help`: at most the name of a
command, which has no commands of its own. -/
def readTopic : List String → Except UsageError Unit
  | [] => return ()
  | arg :: rest =>
    match CommandName.ofText? arg, rest with
    | none, _ => .error (.unknownCommand arg)
    | some _, [] => return ()
    | some _, extra :: _ => .error (.unknownCommand extra)

/-- The command of a name, with what was said behind it. -/
def Level.command (l : Level) (name : CommandName) : Except UsageError Command :=
  match name, l.source with
  | .help, _ => .ok .help
  | .repl, _ => .ok .repl
  | _, none => .error .missingSource
  | .eval, some source => .ok (.eval source l.defines.reverse)
  | .tokens, some source => .ok (.tokens source)
  | .tree, some source => .ok (.tree source)
  | .disassemble, some source => .ok (.disassemble source)

/-- The request for help. -/
def Request.help : Request := ⟨.help, .default⟩

/-- The request of a command line. Without a command it is `repl`. -/
def Request.ofArguments (args : List String) : Except UsageError Request := do
  let (head, command) ← readHead args false {}
  if head.help then return .help
  match command with
  | none =>
    let head ← head.resolve
    return ⟨.repl, head.backend.getD .default⟩
  | some (.help, rest) =>
    readTopic rest
    return .help
  | some (name, rest) =>
    let tail ← readTail name rest false {}
    if tail.help then return .help
    let command ← tail.command name
    let head ← head.resolve
    return ⟨command, (tail.backend <|> head.backend).getD .default⟩

end Reckon.CommandLine
