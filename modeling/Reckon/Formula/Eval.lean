import Reckon.Formula
import Reckon.Lookup

/-!
# Reckon — the value of a formula

The value of a formula, without compiling it: operands are evaluated from left
to right and before what they are operands of, and the first failure ends the
evaluation. Every way of compiling a formula is measured against this.
-/

namespace Reckon.Formula

mutual

/-- The value of a formula in an environment. A unary operator other than minus
leaves its operand as it is. -/
def eval (env : Env) : Formula → Eval Float
  | number literal => pure literal.value
  | var name => env.lookup name
  | binary op left right => do
    let a ← left.eval env
    let b ← right.eval env
    return op.apply a b
  | unary op operand => do
    let a ← operand.eval env
    return if op = .minus then -a else a
  | call name parameters => do
    let values ← evalAll env parameters
    env.invoke name values

/-- The values of formulas, from left to right. -/
def evalAll (env : Env) : List Formula → Eval (List Float)
  | [] => pure []
  | p :: ps => do
    let value ← p.eval env
    let values ← evalAll env ps
    return value :: values

end

end Reckon.Formula
