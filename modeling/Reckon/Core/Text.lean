import Reckon.Core
import Reckon.Number.Text
import Reckon.Text.Quoted

/-!
# Reckon — the text of core expressions

Core expressions are written as nested applications. A call names its method
after the scope it is a method of; its literals are quoted and its arrays stand
in square brackets, as in `Add(1, context.CallFunction("f", [2, 3]))`.
-/

namespace Reckon.Core

/-- The name of an operator in core expressions. -/
def operatorName : Operator → String
  | .plus => "Add"
  | .minus => "Subtract"
  | .times => "Multiply"
  | .divide => "Divide"
  | .modulo => "Modulo"
  | .power => "Power"

mutual

/-- Writes an expression in front of `rest`. -/
def writeOnto : Core → List Char → List Char
  | constant literal, rest => (Number.text literal.value).toList ++ rest
  | arith op left right, rest =>
    (operatorName op).toList
      ++ '(' :: left.writeOnto (',' :: ' ' :: right.writeOnto (')' :: rest))
  | negate operand, rest => "Negate(".toList ++ operand.writeOnto (')' :: rest)
  | call method operands, rest =>
    "context.".toList ++ (method.name.toList ++ '(' :: writeOperands operands (')' :: rest))

/-- Writes an operand in front of `rest`. -/
def writeOperand : Operand → List Char → List Char
  | .literal text, rest => Text.quoteOnto text rest
  | .value e, rest => e.writeOnto rest
  | .array elements, rest => '[' :: writeElements elements (']' :: rest)

/-- Writes operands in front of `rest`. -/
def writeOperands : List Operand → List Char → List Char
  | [], rest => rest
  | o :: os, rest => writeOperand o (writeMoreOperands os rest)

/-- Writes operands, each behind a comma, in front of `rest`. -/
def writeMoreOperands : List Operand → List Char → List Char
  | [], rest => rest
  | o :: os, rest => ',' :: ' ' :: writeOperand o (writeMoreOperands os rest)

/-- Writes the elements of an array in front of `rest`. -/
def writeElements : List Core → List Char → List Char
  | [], rest => rest
  | e :: es, rest => e.writeOnto (writeMoreElements es rest)

/-- Writes elements, each behind a comma, in front of `rest`. -/
def writeMoreElements : List Core → List Char → List Char
  | [], rest => rest
  | e :: es, rest => ',' :: ' ' :: e.writeOnto (writeMoreElements es rest)

end

/-- The text of an expression. -/
def text (e : Core) : String :=
  String.ofList (e.writeOnto [])

/-- The text of an operand. -/
def operandText (o : Operand) : String :=
  String.ofList (writeOperand o [])

instance : ToString Core := ⟨text⟩

instance : Repr Core := ⟨fun e _ => .text e.text⟩

end Reckon.Core
