import Reckon.Number.Arith

/-!
# Reckon — formulas

A formula is a tree of numbers, variables, operators and calls. A unary node
can carry any operator, but only plus and minus mean something there: reading a
formula never builds another one, and compiling one refuses it.
-/

namespace Reckon

/-- The arithmetic operators. -/
inductive Operator where
  | plus
  | minus
  | times
  | divide
  | modulo
  | power
deriving DecidableEq, Repr

namespace Operator

/-- The sign an operator is written with. -/
def symbol : Operator → Char
  | plus => '+'
  | minus => '-'
  | times => '*'
  | divide => '/'
  | modulo => '%'
  | power => '^'

/-- What an operator computes between two operands. -/
def apply : Operator → Float → Float → Float
  | plus, a, b => a + b
  | minus, a, b => a - b
  | times, a, b => a * b
  | divide, a, b => a / b
  | modulo, a, b => Number.remainder a b
  | power, a, b => Float.pow a b

end Operator

/-- A formula. -/
inductive Formula where
  | number (literal : Literal)
  | var (name : String)
  | binary (op : Operator) (left right : Formula)
  | unary (op : Operator) (operand : Formula)
  | call (name : String) (parameters : List Formula)

namespace Formula

/-- The formulas right below the root, in the order of evaluation. -/
def children : Formula → List Formula
  | number _ | var _ => []
  | binary _ left right => [left, right]
  | unary _ operand => [operand]
  | call _ parameters => parameters

/-- Whether the tree has at most `height` levels. -/
def fits : Nat → Formula → Bool
  | 0, _ => false
  | _ + 1, number _ | _ + 1, var _ => true
  | height + 1, binary _ left right => left.fits height && right.fits height
  | height + 1, unary _ operand => operand.fits height
  | height + 1, call _ parameters => parameters.all fun p => p.fits height

end Formula

end Reckon
