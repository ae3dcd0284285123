import Reckon.Chunk.Emit
import Reckon.Chunk.Assemble
import Reckon.Closure
import Reckon.Core.Assemble
import Reckon.Formula.Parse
import Reckon.Text.Quoted

/-!
# Reckon — evaluators

An evaluator is a formula compiled by one of three backends: to a machine
program by way of a chunk, to a machine program by way of a core expression, or
to closures. It can be invoked in any environment any number of times, and
whatever the backend, it does what `Formula.eval` says.
-/

namespace Reckon

/-- The ways of compiling a formula. -/
inductive Backend where
  /-- By way of a chunk. -/
  | native
  /-- By way of a core expression. -/
  | treeIr
  /-- To closures. -/
  | closure
deriving DecidableEq, Repr

namespace Backend

/-- All backends, in their order. -/
def all : List Backend :=
  [native, treeIr, closure]

/-- The backend that is used unless another one is asked for. -/
def default : Backend := native

/-- The name by which a backend is asked for. -/
def text : Backend → String
  | native => "native"
  | treeIr => "tree-ir"
  | closure => "closure"

/-- The name of a backend in the description of an evaluator. -/
def name : Backend → String
  | native => "Native"
  | treeIr => "TreeIr"
  | closure => "Closure"

/-- The backend that is asked for by a text. -/
def ofText? (s : String) : Option Backend :=
  all.find? fun backend => backend.text == s

/-- What is said about a text that asks for no backend. -/
def unknownMessage (s : String) : String :=
  "Unknown backend \"" ++ s ++ "\", expected one of "
    ++ String.intercalate ", " (all.map text)

end Backend

/-- A compiled formula. -/
structure Evaluator where
  name : String
  backend : Backend
  code : Closure

namespace Evaluator

/-- Evaluates the formula in an environment. -/
def invoke (e : Evaluator) (env : Env) : Outcome :=
  (e.code env).outcome

/-- An evaluator in words. -/
def describe (e : Evaluator) : String :=
  "Evaluator \x7b name: " ++ Text.quoted e.name ++ ", backend: " ++ e.backend.name ++ " \x7d"

end Evaluator

/-- Compiles a core expression. -/
def Core.compile (e : Core) (name : String) : Except CompileError Evaluator := do
  let program ← e.assemble
  return ⟨name, .treeIr, program.link.run⟩

/-- Compiles a formula with a backend. -/
def Formula.compile (f : Formula) (name : String) : Backend → Except CompileError Evaluator
  | .native => do
    let chunk ← f.toChunk name
    let program ← chunk.assemble
    return ⟨name, .native, program.link.run⟩
  | .treeIr => do
    let e ← f.lower
    e.compile name
  | .closure => do
    let code ← Closure.compile f
    return ⟨name, .closure, code⟩

/-- Why a source has no evaluator. -/
inductive Error where
  | parse (error : ParseError)
  | compile (error : CompileError)
deriving DecidableEq, Repr

/-- The error in words. -/
def Error.message : Error → String
  | parse error => error.message
  | compile error => error.message

/-- Reads a source and compiles it with a backend. -/
def compile (name source : String) (backend : Backend) : Except Error Evaluator :=
  match parse source with
  | .error e => .error (.parse e)
  | .ok f =>
    match f.compile name backend with
    | .error e => .error (.compile e)
    | .ok evaluator => .ok evaluator

end Reckon
