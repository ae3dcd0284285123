import Reckon.Formula

/-!
# Reckon — the identity of a formula

Two formulas are the same if they have the same shape, operators, names and
literals. Literals are bit patterns, so the two zeros differ, and so do any two
patterns of not-a-number, each of which is the same as itself. The key of a
formula lists, from the root down and from left to right, what each node
contributes; it identifies the formula and is what a table of formulas hashes.

Formulas can be of any height, so nothing here descends into them. What is still
to be done stands in a list of pending formulas, or of pending pairs, whose first
one is next.
-/

namespace Reckon.Formula

mutual

/-- The number of nodes of a formula. -/
def nodes : Formula → Nat
  | number _ | var _ => 1
  | binary _ left right => left.nodes + right.nodes + 1
  | unary _ operand => operand.nodes + 1
  | call _ parameters => nodesAll parameters + 1

/-- The number of nodes of formulas. -/
def nodesAll : List Formula → Nat
  | [] => 0
  | f :: fs => f.nodes + nodesAll fs

end

theorem nodesAll_append (fs gs : List Formula) :
    nodesAll (fs ++ gs) = nodesAll fs + nodesAll gs := by
  induction fs with
  | nil => rw [List.nil_append, nodesAll, Nat.zero_add]
  | cons f fs ih => rw [List.cons_append, nodesAll, nodesAll, ih, Nat.add_assoc]

theorem nodesAll_reverse (fs : List Formula) : nodesAll fs.reverse = nodesAll fs := by
  induction fs with
  | nil => rfl
  | cons f fs ih =>
    rw [List.reverse_cons, nodesAll_append, ih, nodesAll, nodesAll, nodesAll]
    omega

/-- The root is a node of its own. -/
theorem nodesAll_children_lt (f : Formula) : nodesAll f.children < f.nodes := by
  cases f with
  | number literal => exact Nat.zero_lt_one
  | var name => exact Nat.zero_lt_one
  | binary op left right =>
    rw [children, nodes, nodesAll, nodesAll, nodesAll]
    omega
  | unary op operand =>
    rw [children, nodes, nodesAll, nodesAll]
    omega
  | call name parameters =>
    rw [children, nodes]
    omega

/-- Comes by the nodes of formulas, each before those below it. -/
def walk {σ : Type} (visit : σ → Formula → σ) : List Formula → σ → σ
  | [], s => s
  | f :: pending, s => walk visit (f.children ++ pending) (visit s f)
termination_by pending => nodesAll pending
decreasing_by
  have hChildren := f.nodesAll_children_lt
  rw [nodesAll_append, nodesAll]
  omega

/-! ## Equality -/

/-- Whether two formulas have the same root and as many formulas below it. -/
def sameRoot : Formula → Formula → Bool
  | number a, number b => a.bits == b.bits
  | var a, var b => a == b
  | binary op _ _, binary op' _ _ => op == op'
  | unary op _, unary op' _ => op == op'
  | call name parameters, call name' parameters' =>
    name == name' && parameters.length == parameters'.length
  | _, _ => false

theorem nodesAll_zip_le (fs gs : List Formula) :
    nodesAll ((fs.zip gs).map Prod.fst) ≤ nodesAll fs := by
  induction fs generalizing gs with
  | nil => exact Nat.le_refl _
  | cons f fs ih =>
    cases gs with
    | nil => exact Nat.zero_le _
    | cons g gs =>
      rw [List.zip_cons_cons, List.map_cons, nodesAll, nodesAll]
      exact Nat.add_le_add_left (ih gs) f.nodes

/-- Whether the formulas of each pair are the same. Behind the roots of a pair,
what is below them is compared next, from right to left. -/
def sameAll : List (Formula × Formula) → Bool
  | [] => true
  | (f, g) :: pending =>
    f.sameRoot g && sameAll ((f.children.zip g.children).reverse ++ pending)
termination_by pending => nodesAll (pending.map Prod.fst)
decreasing_by
  have hChildren := f.nodesAll_children_lt
  have hPairs := nodesAll_zip_le f.children g.children
  rw [List.map_append, nodesAll_append, List.map_reverse, nodesAll_reverse, List.map_cons, nodesAll]
  dsimp only
  omega

/-- Whether two formulas are the same. -/
def same (f g : Formula) : Bool :=
  sameAll [(f, g)]

instance : BEq Formula := ⟨same⟩

/-! ## Keys -/

/-- Which constructor a node is made by. -/
inductive Variant where
  | number
  | var
  | binary
  | unary
  | call
deriving DecidableEq, Repr

/-- One of the things that a node contributes to the key of a formula. -/
inductive KeyItem where
  | variant (variant : Variant)
  | bits (bits : UInt64)
  | name (name : String)
  | operator (op : Operator)
  /-- The number of parameters. -/
  | count (count : Nat)
deriving DecidableEq, Repr

/-- What the root of a formula contributes. -/
def items : Formula → List KeyItem
  | number literal => [.variant .number, .bits literal.bits]
  | var name => [.variant .var, .name name]
  | binary op _ _ => [.variant .binary, .operator op]
  | unary op _ => [.variant .unary, .operator op]
  | call name parameters => [.variant .call, .name name, .count parameters.length]

/-- Feeds what each node contributes to a hasher, item by item. -/
def feed {σ : Type} (write : σ → KeyItem → σ) (f : Formula) (state : σ) : σ :=
  walk (fun state g => g.items.foldl write state) [f] state

/-- The key of a formula. -/
def key (f : Formula) : List KeyItem :=
  (f.feed Array.push #[]).toList

/-! ## Copies -/

/-- Stands where a copy has yet to be filled in. -/
def placeholder : Formula :=
  number (.ofFloat 0)

/-- The root of a formula, with placeholders below it. -/
def shallow : Formula → Formula
  | number literal => number literal
  | var name => var name
  | binary op _ _ => binary op placeholder placeholder
  | unary op _ => unary op placeholder
  | call name parameters => call name (parameters.map fun _ => placeholder)

/-- Replaces what is right below a formula by the first ones of other formulas,
and puts it in front of the rest of them. -/
def fill : Formula → List Formula → List Formula
  | binary op _ _, left :: right :: rest => binary op left right :: rest
  | unary op _, operand :: rest => unary op operand :: rest
  | call name parameters, fs =>
    call name (fs.take parameters.length) :: fs.drop parameters.length
  | f, rest => f :: rest

/-- A copy of a formula. The roots of all that is in it are copied first, and are
then filled in from the last one on, so that what is below a root is ready when
it is needed. -/
def copy (f : Formula) : Formula :=
  let roots := walk (fun roots g => g.shallow :: roots) [f] []
  (roots.foldl (fun filled root => root.fill filled) []).headD placeholder

end Reckon.Formula
