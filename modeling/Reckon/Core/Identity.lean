import Reckon.Core

/-!
# Reckon — the identity of a core expression

Two core expressions are equal if they have the same shape, operators, methods
and texts, and equal constants. Constants are compared as numbers, so the two
zeros are equal and not-a-number is not equal to itself.

Expressions can be of any height, so nothing here descends into them. What is
still to be compared stands in a list of pending pairs, whose first one is next.
-/

namespace Reckon

namespace Operand

/-- The expressions right below an operand. -/
def expressions : Operand → List Core
  | .literal _ => []
  | .value e => [e]
  | .array elements => elements

/-- What an operand is, with the expressions below it left out. -/
inductive Outline where
  | literal (text : String)
  | value
  /-- The number of elements. -/
  | array (size : Nat)
deriving DecidableEq, Repr

/-- The outline of an operand. -/
def outline : Operand → Outline
  | .literal text => .literal text
  | .value _ => .value
  | .array elements => .array elements.length

end Operand

namespace Core

/-- The expressions right below the root, in the order of evaluation. -/
def children : Core → List Core
  | constant _ => []
  | arith _ left right => [left, right]
  | negate operand => [operand]
  | call _ operands => operands.flatMap Operand.expressions

/-- Whether two expressions have equal roots, with operands of the same outlines
if they are calls. -/
def sameRoot : Core → Core → Bool
  | constant a, constant b => a.value == b.value
  | arith op _ _, arith op' _ _ => op == op'
  | negate _, negate _ => true
  | call method operands, call method' operands' =>
    method == method' && operands.map Operand.outline == operands'.map Operand.outline
  | _, _ => false

mutual

/-- The number of nodes of an expression. -/
def nodes : Core → Nat
  | constant _ => 1
  | arith _ left right => left.nodes + right.nodes + 1
  | negate operand => operand.nodes + 1
  | call _ operands => nodesIn operands + 1

/-- The number of nodes inside operands. -/
def nodesIn : List Operand → Nat
  | [] => 0
  | .literal _ :: os => nodesIn os
  | .value e :: os => e.nodes + nodesIn os
  | .array elements :: os => nodesAll elements + nodesIn os

/-- The number of nodes of expressions. -/
def nodesAll : List Core → Nat
  | [] => 0
  | e :: es => e.nodes + nodesAll es

end

theorem nodesAll_append (es es' : List Core) :
    nodesAll (es ++ es') = nodesAll es + nodesAll es' := by
  induction es with
  | nil => rw [List.nil_append, nodesAll, Nat.zero_add]
  | cons e es ih => rw [List.cons_append, nodesAll, nodesAll, ih, Nat.add_assoc]

theorem nodesAll_expressions (operands : List Operand) :
    nodesAll (operands.flatMap Operand.expressions) = nodesIn operands := by
  induction operands with
  | nil => rw [List.flatMap_nil, nodesAll, nodesIn]
  | cons o os ih =>
    rw [List.flatMap_cons, nodesAll_append, ih]
    cases o with
    | literal text => rw [Operand.expressions, nodesAll, nodesIn, Nat.zero_add]
    | value e => rw [Operand.expressions, nodesAll, nodesAll, nodesIn, Nat.add_zero]
    | array elements => rw [Operand.expressions, nodesIn]

/-- The root is a node of its own. -/
theorem nodesAll_children_lt (e : Core) : nodesAll e.children < e.nodes := by
  cases e with
  | constant literal => exact Nat.zero_lt_one
  | arith op left right =>
    rw [children, nodes, nodesAll, nodesAll, nodesAll]
    omega
  | negate operand =>
    rw [children, nodes, nodesAll, nodesAll]
    omega
  | call method operands =>
    rw [children, nodes, nodesAll_expressions]
    omega

/-- Puts the pairs of two lists in front of those that are pending, the last pair
first. -/
def pushPairs : List Core → List Core → List (Core × Core) → List (Core × Core)
  | e :: es, e' :: es', pending => pushPairs es es' ((e, e') :: pending)
  | _, _, pending => pending

/-- The number of nodes on the left of pending pairs. -/
def pendingNodes : List (Core × Core) → Nat
  | [] => 0
  | (e, _) :: pending => e.nodes + pendingNodes pending

theorem pendingNodes_pushPairs_le (es es' : List Core) (pending : List (Core × Core)) :
    pendingNodes (pushPairs es es' pending) ≤ nodesAll es + pendingNodes pending := by
  induction es generalizing es' pending with
  | nil => exact Nat.le_add_left _ _
  | cons e es ih =>
    cases es' with
    | nil => exact Nat.le_add_left _ _
    | cons e' es' =>
      have hRest := ih es' ((e, e') :: pending)
      rw [pendingNodes] at hRest
      rw [pushPairs, nodesAll]
      omega

/-- Whether the expressions of each pair are equal. Behind the roots of a pair,
what is below them is compared next, from right to left. -/
def sameAll : List (Core × Core) → Bool
  | [] => true
  | (e, e') :: pending => e.sameRoot e' && sameAll (pushPairs e.children e'.children pending)
termination_by pending => pendingNodes pending
decreasing_by
  have hChildren := e.nodesAll_children_lt
  have hPairs := pendingNodes_pushPairs_le e.children e'.children pending
  rw [pendingNodes]
  omega

/-- Whether two expressions are equal. -/
def same (e e' : Core) : Bool :=
  sameAll [(e, e')]

instance : BEq Core := ⟨same⟩

end Core

end Reckon
