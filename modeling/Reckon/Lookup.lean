/-!
# Reckon — lookups

Evaluating a formula asks its environment two kinds of questions: for the value
of a variable, and for the result of a function. The answer is a number, a
fault, or the abort of a function that the host supplied; anything but a number
ends the evaluation. The questions are recorded, the one that ended the
evaluation included, and an environment may answer with what it was asked before
in mind.

`Eval` is the type of such evaluations: a result or a failure, beside the
lookups made so far.
-/

namespace Reckon

/-- What an environment can find wrong with a question. -/
inductive Fault where
  | unknownVariable (name : String)
  | unknownFunction (name : String)
  /-- The function takes `expected` parameters and was given `given`. -/
  | invalidCall (name : String) (given expected : Nat)
deriving DecidableEq, Repr

/-- The fault in words. -/
def Fault.message : Fault → String
  | unknownVariable name => "Unknown variable: " ++ name
  | unknownFunction name => "Unknown function: " ++ name
  | invalidCall name given expected =>
    "Invalid function call: " ++ name ++ " called with " ++ Nat.repr given
      ++ " parameters, expected " ++ Nat.repr expected

/-- Why an evaluation has no value. -/
inductive Failure where
  | fault (fault : Fault)
  /-- A function aborted, with its last words. -/
  | abort (message : String)
deriving DecidableEq, Repr

/-- The failure in words. -/
def Failure.message : Failure → String
  | fault f => f.message
  | abort message => message

/-- What is said about a place that there is not. -/
def outOfBounds (size index : Nat) : String :=
  "index out of bounds: the len is " ++ Nat.repr size ++ " but the index is " ++ Nat.repr index

/-- A question put to an environment. -/
inductive Lookup where
  /-- For the value of a variable. -/
  | var (name : String)
  /-- For the result of a function. -/
  | call (name : String) (parameters : List Float)

/-- What answers the lookups of an evaluation. -/
structure Env where
  /-- The answer to a lookup behind those made before, the latest first. -/
  answer : List Lookup → Lookup → Except Failure Float

/-- An evaluation. Its state is the list of lookups made so far, the latest
first, which a failure keeps. -/
abbrev Eval := EStateM Failure (List Lookup)

namespace Env

/-- Records a lookup and goes on with its answer. -/
def ask (env : Env) (lookup : Lookup) : Eval Float := fun trace =>
  match env.answer trace lookup with
  | .ok value => .ok value (lookup :: trace)
  | .error failure => .error failure (lookup :: trace)

/-- Looks a variable up. -/
def lookup (env : Env) (name : String) : Eval Float :=
  env.ask (.var name)

/-- Calls a function. -/
def invoke (env : Env) (name : String) (parameters : List Float) : Eval Float :=
  env.ask (.call name parameters)

end Env

/-- The outcome of an evaluation, and its lookups in the order they were
made. -/
structure Outcome where
  result : Except Failure Float
  trace : List Lookup

/-- Runs an evaluation from its start. -/
def Eval.outcome (evaluation : Eval Float) : Outcome :=
  match evaluation [] with
  | .ok value trace => ⟨.ok value, trace.reverse⟩
  | .error failure trace => ⟨.error failure, trace.reverse⟩

end Reckon
