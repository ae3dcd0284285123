import Reckon.Lookup
import Reckon.Number.Text
import Reckon.Text.Quoted

/-!
# Reckon — scopes

A scope holds the variables and the functions that formulas may use, in two
namespaces that know nothing of each other. A name is declared at most once in
each of them and keeps its meaning for ever: declaring it again fails and
changes nothing.
-/

namespace Reckon

/-- The body of a builtin function. It asks for its parameters by their places, and
aborts with a message if there is none at a place. -/
structure Body where
  run : (Nat → Except String Float) → Except String Float

namespace Body

/-- A body that looks at one place. -/
def one (f : Float → Float) : Body :=
  ⟨fun parameter => return f (← parameter 0)⟩

/-- A body that looks at two places. -/
def two (f : Float → Float → Float) : Body :=
  ⟨fun parameter => return f (← parameter 0) (← parameter 1)⟩

/-- A body that looks at three places. -/
def three (f : Float → Float → Float → Float) : Body :=
  ⟨fun parameter => return f (← parameter 0) (← parameter 1) (← parameter 2)⟩

/-- The parameter at a place. -/
def parameterAt (parameters : List Float) (place : Nat) : Except String Float :=
  match parameters[place]? with
  | some value => .ok value
  | none => .error (outOfBounds parameters.length place)

/-- The value of a body at parameters. -/
def apply (body : Body) (parameters : List Float) : Except String Float :=
  body.run (parameterAt parameters)

end Body

/-- A function of a scope. -/
inductive Callable where
  /-- A builtin function, which takes a fixed number of parameters. They are
  counted before the body is run. -/
  | builtin (body : Body) (arity : Nat)
  /-- A function of the host, which takes any number of parameters. It has a
  value or aborts with a message. -/
  | host (f : List Float → Except String Float)

namespace Callable

/-- Calls a function under the name it was found by. -/
def call (name : String) (parameters : List Float) : Callable → Except Failure Float
  | builtin body arity =>
    if parameters.length = arity then (body.apply parameters).mapError .abort
    else .error (.fault (.invalidCall name parameters.length arity))
  | host f => (f parameters).mapError .abort

/-- What the entries of a scope say about a function. -/
def text : Callable → String
  | builtin _ arity => "<builtin function " ++ Nat.repr arity ++ ">"
  | host _ => "<native function>"

end Callable

/-- Why a name cannot be declared. -/
inductive RegistrationError where
  | variableTaken (name : String)
  | functionTaken (name : String)
deriving DecidableEq, Repr

/-- The error in words. -/
def RegistrationError.message : RegistrationError → String
  | variableTaken name => "Variable redeclaration: " ++ name
  | functionTaken name => "Function redeclaration: " ++ name

/-- A scope: its variables and its functions, the latest first. -/
structure Scope where
  vars : List (String × Float) := []
  funcs : List (String × Callable) := []

namespace Scope

/-- The scope without any names. -/
def empty : Scope := {}

/-- The value of a variable, if it is declared. -/
def get? (s : Scope) (name : String) : Option Float :=
  s.vars.lookup name

/-- The function of a name, if it is declared. -/
def function? (s : Scope) (name : String) : Option Callable :=
  s.funcs.lookup name

/-- Declares a variable. -/
def declareVariable (s : Scope) (name : String) (value : Float) :
    Except RegistrationError Scope :=
  match s.get? name with
  | some _ => .error (.variableTaken name)
  | none => .ok { s with vars := (name, value) :: s.vars }

/-- Declares a function. -/
def declareFunction (s : Scope) (name : String) (f : Callable) : Except RegistrationError Scope :=
  match s.function? name with
  | some _ => .error (.functionTaken name)
  | none => .ok { s with funcs := (name, f) :: s.funcs }

/-- Declares variables one by one. At the first clash it stops, and keeps what
it has declared. -/
def declareVariables : Scope → List (String × Float) → Scope × Option RegistrationError
  | s, [] => (s, none)
  | s, (name, value) :: more =>
    match s.declareVariable name value with
    | .ok s => declareVariables s more
    | .error e => (s, some e)

/-- Declares functions one by one. At the first clash it stops, and keeps what
it has declared. -/
def declareFunctions : Scope → List (String × Callable) → Scope × Option RegistrationError
  | s, [] => (s, none)
  | s, (name, f) :: more =>
    match s.declareFunction name f with
    | .ok s => declareFunctions s more
    | .error e => (s, some e)

/-- What a scope answers to a lookup. -/
def answer (s : Scope) : Lookup → Except Failure Float
  | .var name =>
    match s.get? name with
    | some value => .ok value
    | none => .error (.fault (.unknownVariable name))
  | .call name parameters =>
    match s.function? name with
    | some f => f.call name parameters
    | none => .error (.fault (.unknownFunction name))

/-- The environment that answers from a scope, whatever was asked before. -/
def env (s : Scope) : Env :=
  ⟨fun _ lookup => s.answer lookup⟩

/-- What a scope holds, a line for each name, in the order of the lines. -/
def entries (s : Scope) : List String :=
  let vars := s.vars.map fun (name, value) =>
    Text.quoted name ++ ": " ++ Number.entryText value ++ ","
  let funcs := s.funcs.map fun (name, f) =>
    Text.quoted name ++ ": " ++ f.text ++ ","
  (vars ++ funcs).mergeSort fun a b => decide (a ≤ b)

end Scope

end Reckon
