import Reckon.CompileError

/-!
# Reckon — core expressions

A core expression is built from constants, arithmetic, negation and calls of
the methods of a scope; what a formula does with variables and functions is
said in such calls. The type lets a call have any operands. Which of them a
method takes is checked when the expression is compiled.
-/

namespace Reckon

mutual

/-- A core expression. -/
inductive Core where
  | constant (literal : Literal)
  | arith (op : Operator) (left right : Core)
  | negate (operand : Core)
  | call (method : Method) (operands : List Operand)

/-- An operand of a call: a text, the value of an expression, or a new array of
such values. -/
inductive Operand where
  | literal (text : String)
  | value (e : Core)
  | array (elements : List Core)

end

namespace Core

/-- The value of a variable. -/
def getVariable (name : String) : Core :=
  call .getVariable [.literal name]

/-- The result of a function. -/
def callFunction (name : String) (parameters : List Core) : Core :=
  call .callFunction [.literal name, .array parameters]

end Core

/-! ## Lowering formulas -/

namespace Formula

mutual

/-- The core expression of a formula. A plus in front of an operand leaves no
trace, and an operator that means nothing there is found before what stands
behind it. -/
def lower : Formula → Except CompileError Core
  | number literal => return .constant literal
  | var name => return .getVariable name
  | binary op left right => do
    let left ← left.lower
    let right ← right.lower
    return .arith op left right
  | unary .plus operand => operand.lower
  | unary .minus operand => do
    let operand ← operand.lower
    return .negate operand
  | unary op _ => throw (.unknownUnary op)
  | call name parameters => do
    let parameters ← lowerAll parameters
    return .callFunction name parameters

/-- The core expressions of formulas, from left to right. -/
def lowerAll : List Formula → Except CompileError (List Core)
  | [] => return []
  | p :: ps => do
    let e ← p.lower
    let es ← lowerAll ps
    return e :: es

end

end Formula

end Reckon
