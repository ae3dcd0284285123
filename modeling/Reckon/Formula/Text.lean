import Reckon.Formula
import Reckon.Number.Text

/-!
# Reckon — the text of a formula

Operators stand in front of their operands, and the two in brackets:
`1 + -x * f(2, y)` is written `(+ 1 (* (- x) f(2, y)))`. The text is built from
its end, so that its cost is that of its length for trees of any shape.
-/

namespace Reckon.Formula

mutual

/-- Writes a formula in front of `rest`. -/
def writeOnto : Formula → List Char → List Char
  | number literal, rest => (Number.text literal.value).toList ++ rest
  | var name, rest => name.toList ++ rest
  | binary op left right, rest =>
    '(' :: op.symbol :: ' ' :: left.writeOnto (' ' :: right.writeOnto (')' :: rest))
  | unary op operand, rest => '(' :: op.symbol :: ' ' :: operand.writeOnto (')' :: rest)
  | call name parameters, rest => name.toList ++ '(' :: writeFirst parameters (')' :: rest)

/-- Writes the parameters of a call in front of `rest`. -/
def writeFirst : List Formula → List Char → List Char
  | [], rest => rest
  | p :: ps, rest => p.writeOnto (writeMore ps rest)

/-- Writes parameters, each behind a comma, in front of `rest`. -/
def writeMore : List Formula → List Char → List Char
  | [], rest => rest
  | p :: ps, rest => ',' :: ' ' :: p.writeOnto (writeMore ps rest)

end

/-- The text of a formula. -/
def text (f : Formula) : String :=
  String.ofList (f.writeOnto [])

instance : ToString Formula := ⟨text⟩

instance : Repr Formula := ⟨fun f _ => .text f.text⟩

end Reckon.Formula
