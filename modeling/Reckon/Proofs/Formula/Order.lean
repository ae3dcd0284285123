import Mathlib
import Reckon.Proofs.Formula

/-!
# Reckon — the nodes of a formula

A formula is a tree, and what goes through it comes by its nodes in one order
or the other. A node stands for the formula below it, so the nodes are the
subformulas, one entry for each place:

* `Formula.preorder` — a node comes before what is below it;
* `Formula.postorder` — a node comes behind what is below it;
* `Formula.levels` — the height of a formula, which `Formula.fits` compares with a
  bound (`Formula.fits_iff`).

Both orders go through `Formula.children` from left to right, and that is how
they are used (`Formula.preorder_eq`, `Formula.postorder_eq`), together with an
induction that does not tell the constructors apart.
-/

namespace Reckon.Formula

/-- What holds of a formula once it holds of its children holds of every
formula. -/
theorem children_induction {motive : Formula → Prop}
    (step : ∀ f, (∀ g ∈ f.children, motive g) → motive f) (f : Formula) : motive f := by
  induction f with
  | number literal => exact step _ (by simp [children])
  | var name => exact step _ (by simp [children])
  | binary op left right ihLeft ihRight => exact step _ (by simp [children, ihLeft, ihRight])
  | unary op operand ih => exact step _ (by simp [children, ih])
  | call name ps ih => exact step _ ih

/-! ## Orders -/

mutual

/-- The nodes of a formula, each before those below it. -/
def preorder : Formula → List Formula
  | number literal => [.number literal]
  | var name => [.var name]
  | binary op left right => .binary op left right :: (left.preorder ++ right.preorder)
  | unary op operand => .unary op operand :: operand.preorder
  | call name parameters => .call name parameters :: preorderAll parameters

/-- The nodes of formulas, from left to right. -/
def preorderAll : List Formula → List Formula
  | [] => []
  | p :: ps => p.preorder ++ preorderAll ps

end

mutual

/-- The nodes of a formula, each behind those below it. -/
def postorder : Formula → List Formula
  | number literal => [.number literal]
  | var name => [.var name]
  | binary op left right => left.postorder ++ right.postorder ++ [.binary op left right]
  | unary op operand => operand.postorder ++ [.unary op operand]
  | call name parameters => postorderAll parameters ++ [.call name parameters]

/-- The nodes of formulas, from left to right. -/
def postorderAll : List Formula → List Formula
  | [] => []
  | p :: ps => p.postorder ++ postorderAll ps

end

theorem preorderAll_eq (ps : List Formula) : preorderAll ps = ps.flatMap preorder := by
  induction ps with
  | nil => rfl
  | cons p ps ih => rw [preorderAll, ih, List.flatMap_cons]

theorem postorderAll_eq (ps : List Formula) : postorderAll ps = ps.flatMap postorder := by
  induction ps with
  | nil => rfl
  | cons p ps ih => rw [postorderAll, ih, List.flatMap_cons]

theorem preorder_eq (f : Formula) : f.preorder = f :: f.children.flatMap preorder := by
  cases f <;> simp [preorder, children, preorderAll_eq]

theorem postorder_eq (f : Formula) : f.postorder = f.children.flatMap postorder ++ [f] := by
  cases f <;> simp [postorder, children, postorderAll_eq]

/-- The two orders have the same nodes. -/
theorem postorder_perm (f : Formula) : f.postorder.Perm f.preorder := by
  induction f using children_induction with
  | step f ih =>
    have hBelow : (f.children.flatMap postorder).Perm (f.children.flatMap preorder) :=
      List.Perm.flatMap_left _ ih
    rw [postorder_eq, preorder_eq]
    exact List.perm_append_comm.trans (hBelow.cons f)

theorem self_mem_preorder (f : Formula) : f ∈ f.preorder := by
  rw [preorder_eq]
  exact List.mem_cons_self ..

/-- What is below a child is below the formula. -/
theorem mem_preorder_of_child {f g h : Formula} (hg : g ∈ f.children) (hh : h ∈ g.preorder) :
    h ∈ f.preorder := by
  rw [preorder_eq]
  exact List.mem_cons_of_mem f (List.mem_flatMap.2 ⟨g, hg, hh⟩)

/-! ## Levels -/

mutual

/-- The number of levels of a formula, its height. -/
def levels : Formula → Nat
  | number _ | var _ => 1
  | binary _ left right => max left.levels right.levels + 1
  | unary _ operand => operand.levels + 1
  | call _ parameters => levelsAll parameters + 1

/-- The number of levels of the tallest of some formulas. -/
def levelsAll : List Formula → Nat
  | [] => 0
  | p :: ps => max p.levels (levelsAll ps)

end

theorem levelsAll_le_iff {ps : List Formula} {n : Nat} :
    levelsAll ps ≤ n ↔ ∀ p ∈ ps, p.levels ≤ n := by
  induction ps with
  | nil => simp [levelsAll]
  | cons p ps ih => rw [levelsAll, max_le_iff, ih, List.forall_mem_cons]

theorem levels_le_iff {f : Formula} {n : Nat} :
    f.levels ≤ n + 1 ↔ ∀ g ∈ f.children, g.levels ≤ n := by
  cases f <;> simp [levels, children, levelsAll_le_iff]

theorem levels_pos (f : Formula) : 0 < f.levels := by
  cases f <;> simp [levels]

theorem fits_succ (n : Nat) (f : Formula) : f.fits (n + 1) = f.children.all fun g => g.fits n := by
  cases f <;> simp [fits, children]

/-- A formula fits a bound if it has no more levels. -/
theorem fits_iff {n : Nat} {f : Formula} : f.fits n = true ↔ f.levels ≤ n := by
  induction n generalizing f with
  | zero =>
    have hPos := f.levels_pos
    simp only [fits, Bool.false_eq_true, false_iff]
    omega
  | succ n ih =>
    rw [fits_succ, List.all_eq_true, levels_le_iff]
    exact forall₂_congr fun g _ => ih

end Reckon.Formula
