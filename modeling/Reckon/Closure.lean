import Reckon.CompileError
import Reckon.Lookup

/-!
# Reckon — closures

A formula is turned into a function of the environment by turning its parts
into such functions first. Functions nested in functions would run as deep as
the formula is high, so only formulas of at most `maxNested` levels are treated
that way. A taller one becomes a flat program of steps over a stack of values;
its subformulas that are low enough are nested functions, each run in a single
step.
-/

namespace Reckon

/-- A compiled formula as a function of the environment. -/
abbrev Closure := Env → Eval Float

namespace Closure

/-- The greatest height of a formula that becomes nested functions. -/
def maxNested : Nat := 64

/-- Runs closures from left to right. -/
def runAll (env : Env) : List Closure → Eval (List Float)
  | [] => pure []
  | c :: cs => do
    let value ← c env
    let values ← runAll env cs
    return value :: values

/-- The closure of a call. -/
def callMany (name : String) (parameters : List Closure) : Closure := fun env => do
  let values ← runAll env parameters
  env.invoke name values

/-- The closure of a call of a fixed width. -/
def callFixed (width : Nat) (name : String) (parameters : List Closure) :
    Except CompileError Closure :=
  if parameters.length = width then .ok (callMany name parameters)
  else .error (.wrongWidth width)

/-- The closure of a call, of a fixed width up to eight parameters. -/
def callWith (name : String) (parameters : List Closure) : Except CompileError Closure :=
  match parameters.length with
  | 0 => return fun env => env.invoke name []
  | 1 => callFixed 1 name parameters
  | 2 => callFixed 2 name parameters
  | 3 => callFixed 3 name parameters
  | 4 => callFixed 4 name parameters
  | 5 => callFixed 5 name parameters
  | 6 => callFixed 6 name parameters
  | 7 => callFixed 7 name parameters
  | 8 => callFixed 8 name parameters
  | _ => return callMany name parameters

mutual

/-- A formula as nested functions. A unary operator is looked at after its
operand. -/
def nest : Formula → Except CompileError Closure
  | .number literal => return fun _ => pure literal.value
  | .var name => return fun env => env.lookup name
  | .binary op left right => do
    let left ← nest left
    let right ← nest right
    return fun env => do
      let a ← left env
      let b ← right env
      return op.apply a b
  | .unary op operand => do
    let operand ← nest operand
    match op with
    | .plus => return operand
    | .minus => return fun env => do
      let a ← operand env
      return -a
    | op => throw (.unknownUnary op)
  | .call name parameters => do
    let parameters ← nestAll parameters
    callWith name parameters

/-- Formulas as nested functions, from left to right. -/
def nestAll : List Formula → Except CompileError (List Closure)
  | [] => return []
  | p :: ps => do
    let c ← nest p
    let cs ← nestAll ps
    return c :: cs

end

/-! ## Flat programs -/

/-- A step of a flat program. Each step takes its operands from the stack and
leaves one value. -/
inductive Step where
  /-- Runs nested functions. -/
  | run (c : Closure)
  | arith (op : Operator)
  | negate
  /-- Calls a function with the latest `count` values. -/
  | call (name : String) (count : Nat)

/-- How many operands a step takes. -/
def Step.pops : Step → Nat
  | run _ => 0
  | arith _ => 2
  | negate => 1
  | call _ count => count

/-- A flat program: its steps, the latest first, the number of values they
leave, and the greatest number of values there are on the way. -/
structure Flat where
  steps : List Step := []
  depth : Nat := 0
  stackSize : Nat := 0

namespace Flat

/-- Adds a step. -/
def add (p : Flat) (step : Step) : Flat :=
  let depth := p.depth - step.pops + 1
  { steps := step :: p.steps, depth, stackSize := max p.stackSize depth }

mutual

/-- Adds the steps of a formula. A subformula that is low enough is one step;
above, a unary operator is looked at before its operand. -/
def flatten : Formula → Flat → Except CompileError Flat
  | .number literal, p => return p.add (.run fun _ => pure literal.value)
  | .var name, p => return p.add (.run fun env => env.lookup name)
  | .binary op left right, p =>
    if (Formula.binary op left right).fits maxNested then do
      let c ← nest (.binary op left right)
      return p.add (.run c)
    else do
      let p ← flatten left p
      let p ← flatten right p
      checkOperands 2 p.depth
      return p.add (.arith op)
  | .unary op operand, p =>
    if (Formula.unary op operand).fits maxNested then do
      let c ← nest (.unary op operand)
      return p.add (.run c)
    else
      match op with
      | .plus => flatten operand p
      | .minus => do
        let p ← flatten operand p
        checkOperands 1 p.depth
        return p.add .negate
      | op => throw (.unknownUnary op)
  | .call name parameters, p =>
    if (Formula.call name parameters).fits maxNested then do
      let c ← nest (.call name parameters)
      return p.add (.run c)
    else do
      let p ← flattenAll parameters p
      checkOperands parameters.length p.depth
      return p.add (.call name parameters.length)

/-- Adds the steps of formulas, from left to right. -/
def flattenAll : List Formula → Flat → Except CompileError Flat
  | [], p => return p
  | f :: fs, p => do
    let p ← flatten f p
    flattenAll fs p

end

/-- What a run says when a step does not find its operands. No program that
`flatten` makes comes to that. -/
def underflow : Failure :=
  .abort "Program shouldn't underflow the Stack"

/-- What a step does to a stack, the latest value first. -/
def perform (env : Env) : List Float → Step → Eval (List Float)
  | stack, .run c => do
    let value ← c env
    return value :: stack
  | b :: a :: stack, .arith op => return op.apply a b :: stack
  | a :: stack, .negate => return -a :: stack
  | stack, .call name count =>
    if count ≤ stack.length then do
      let value ← env.invoke name (stack.take count).reverse
      return value :: stack.drop count
    else throw underflow
  | _, _ => throw underflow

/-- The latest value of a stack. -/
def top : List Float → Eval Float
  | value :: _ => pure value
  | [] => throw underflow

/-- Runs a flat program from an empty stack. -/
def run (p : Flat) : Closure := fun env => do
  let stack ← p.steps.reverse.foldlM (perform env) []
  top stack

end Flat

/-- A formula as a closure. -/
def compile (f : Formula) : Except CompileError Closure :=
  if f.fits maxNested then nest f
  else do
    let p ← Flat.flatten f {}
    return p.run

end Closure

end Reckon
