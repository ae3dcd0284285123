import Mathlib
import Reckon.Proofs.Agreement
import Reckon.Proofs.Chunk.Limits
import Reckon.Proofs.Formula.Order

/-!
# Reckon — operators that are no signs

A unary node may carry any operator, and only a plus and a minus mean something
there. Every backend refuses the others, but not at the same moment: a chunk and
a core expression are refused before what is below the node is looked at, nested
functions behind it, and a flat program before it down to where nested functions
begin. So the order in which a backend comes by the nodes of a formula decides
which operator is reported:

* `Refuses` — a computation succeeds, or fails with an operator;
* `Formula.lower_refuses`, `Closure.nest_refuses`, `Closure.compile_refuses` —
  lowering reports the first operator in preorder, nested functions report the
  first one in postorder, and closures as a whole the first one in the order of
  `Closure.inspected`;
* `Formula.firstOf_eq_of_unnested` — these are the same if none of the operators
  stands above another;
* `Formula.firstOf_eq_none_iff` — no order finds anything if all operators are signs,
  so that nothing is refused then;
* `Formula.compile_misplaced` — what this means for the three backends.
-/

namespace Reckon

/-- An operator, if it is no sign. -/
def Operator.misplaced? (op : Operator) : Option Operator :=
  if op = .plus ∨ op = .minus then none else some op

theorem Operator.misplaced?_eq_none {op : Operator} :
    op.misplaced? = none ↔ op = .plus ∨ op = .minus := by
  rw [misplaced?, ite_eq_left_iff, not_imp_comm]
  exact ⟨fun h => h (Option.some_ne_none op), fun h _ => h⟩

/-- What is found first in a list is found in its head or, failing this, behind
it. -/
theorem findSome?_cons_or {α β : Type} (p : α → Option β) (a : α) (l : List α) :
    (a :: l).findSome? p = (p a).or (l.findSome? p) := by
  cases hHead : p a <;> simp [hHead]

namespace Formula

/-- The operator of a unary node, if it is no sign. -/
def misplaced? : Formula → Option Operator
  | unary op _ => op.misplaced?
  | _ => none

/-- The operator that is found first when one comes by nodes in an order. -/
def firstOf (nodes : List Formula) : Option Operator :=
  nodes.findSome? misplaced?

theorem firstOf_nil : firstOf [] = none := rfl

theorem firstOf_cons (f : Formula) (fs : List Formula) :
    firstOf (f :: fs) = f.misplaced?.or (firstOf fs) :=
  findSome?_cons_or misplaced? f fs

theorem firstOf_append (fs gs : List Formula) :
    firstOf (fs ++ gs) = (firstOf fs).or (firstOf gs) :=
  List.findSome?_append

theorem firstOf_singleton (f : Formula) : firstOf [f] = f.misplaced? := by
  rw [firstOf_cons, firstOf_nil, Option.or_none]

theorem firstOf_eq_none {fs : List Formula} :
    firstOf fs = none ↔ ∀ f ∈ fs, f.misplaced? = none :=
  List.findSome?_eq_none_iff

theorem exists_of_firstOf {fs : List Formula} {op : Operator} (h : firstOf fs = some op) :
    ∃ f ∈ fs, f.misplaced? = some op :=
  List.exists_of_findSome?_eq_some h

/-- Orders that find the same below each of some formulas find the same below
all of them. -/
theorem firstOf_flatMap_congr {order order' : Formula → List Formula} {fs : List Formula}
    (h : ∀ f ∈ fs, firstOf (order f) = firstOf (order' f)) :
    firstOf (fs.flatMap order) = firstOf (fs.flatMap order') := by
  induction fs with
  | nil => rfl
  | cons f fs ih =>
    rw [List.flatMap_cons, List.flatMap_cons, firstOf_append, firstOf_append,
      h f (List.mem_cons_self ..), ih fun g hg => h g (List.mem_cons_of_mem f hg)]

end Formula

open Formula (firstOf)

/-! ## Refusals -/

/-- A computation fails with an operator that is no sign, or succeeds if there is
none. -/
def Refuses {α : Type} (x : Except CompileError α) : Option Operator → Prop
  | some op => x = .error (.unknownUnary op)
  | none => ∃ a, x = .ok a

section Refusals

variable {α β : Type} {x : Except CompileError α} {first second : Option Operator}

theorem refuses_ok (a : α) : Refuses (.ok a) none :=
  ⟨a, rfl⟩

theorem Refuses.error (h : Refuses x first) {op : Operator} (hFirst : first = some op) :
    x = .error (.unknownUnary op) := by
  subst hFirst
  exact h

/-- The first part of a computation is refused before the second. -/
theorem Refuses.bind {f : α → Except CompileError β} (hx : Refuses x first)
    (hf : ∀ a, Refuses (f a) second) : Refuses (x >>= f) (first.or second) := by
  cases first with
  | some op =>
    rw [hx.error rfl]
    exact rfl
  | none =>
    obtain ⟨a, rfl⟩ := hx
    exact hf a

/-- A second part that succeeds is never refused. -/
theorem Refuses.bind_ok {f : α → β} (hx : Refuses x first) :
    Refuses (x >>= fun a => pure (f a)) first := by
  rw [← Option.or_none (o := first)]
  exact hx.bind fun a => refuses_ok (f a)

theorem Refuses.fails_iff (h : Refuses x first) : (∃ err, x = .error err) ↔ first ≠ none := by
  cases first with
  | some op => exact iff_of_true ⟨_, h⟩ (Option.some_ne_none op)
  | none =>
    obtain ⟨a, rfl⟩ := h
    refine iff_of_false ?_ (fun hNe => hNe rfl)
    rintro ⟨err, hErr⟩
    cases hErr

theorem Refuses.error_eq (h : Refuses x first) {err : CompileError} (hErr : x = .error err) :
    ∃ op, first = some op ∧ err = .unknownUnary op := by
  cases first with
  | some op =>
    have hError := h.error rfl
    rw [hErr] at hError
    exact ⟨op, rfl, Except.error.inj hError⟩
  | none =>
    obtain ⟨a, rfl⟩ := h
    cases hErr

end Refusals

/-! ## Core expressions -/

namespace Formula

theorem lowerAll_refuses {ps : List Formula} (ih : ∀ p ∈ ps, Refuses p.lower (firstOf p.preorder)) :
    Refuses (lowerAll ps) (firstOf (ps.flatMap preorder)) := by
  induction ps with
  | nil => exact refuses_ok []
  | cons p ps ihTail =>
    rw [lowerAll, List.flatMap_cons, firstOf_append]
    refine (ih p (List.mem_cons_self ..)).bind fun e => ?_
    exact (ihTail fun q hq => ih q (List.mem_cons_of_mem p hq)).bind_ok

/-- Lowering reports the first operator in preorder. -/
theorem lower_refuses (f : Formula) : Refuses f.lower (firstOf f.preorder) := by
  induction f with
  | number literal => exact refuses_ok _
  | var name => exact refuses_ok _
  | binary op left right ihLeft ihRight =>
    have hFirst : firstOf (binary op left right).preorder =
        (firstOf left.preorder).or (firstOf right.preorder) := by
      rw [preorder, firstOf_cons, firstOf_append]
      rfl
    rw [lower, hFirst]
    exact ihLeft.bind fun _ => ihRight.bind_ok
  | unary op operand ih =>
    rw [preorder, firstOf_cons]
    cases op with
    | plus => exact ih
    | minus => exact ih.bind_ok
    -- the operand is not looked at
    | times | divide | modulo | power => exact rfl
  | call name ps ih =>
    rw [lower, preorder, firstOf_cons, preorderAll_eq]
    exact (lowerAll_refuses ih).bind_ok

end Formula

/-! ## Closures -/

namespace Closure

theorem nestAll_refuses {ps : List Formula}
    (ih : ∀ p ∈ ps, Refuses (nest p) (firstOf p.postorder)) :
    Refuses (nestAll ps) (firstOf (ps.flatMap Formula.postorder)) := by
  induction ps with
  | nil => exact refuses_ok []
  | cons p ps ihTail =>
    rw [nestAll, List.flatMap_cons, Formula.firstOf_append]
    refine (ih p (List.mem_cons_self ..)).bind fun c => ?_
    exact (ihTail fun q hq => ih q (List.mem_cons_of_mem p hq)).bind_ok

/-- Nested functions report the first operator in postorder. -/
theorem nest_refuses (f : Formula) : Refuses (nest f) (firstOf f.postorder) := by
  induction f with
  | number literal => exact refuses_ok _
  | var name => exact refuses_ok _
  | binary op left right ihLeft ihRight =>
    have hFirst : firstOf (Formula.binary op left right).postorder =
        (firstOf left.postorder).or (firstOf right.postorder) := by
      rw [Formula.postorder, Formula.firstOf_append, Formula.firstOf_append]
      exact Option.or_none
    rw [nest, hFirst]
    exact ihLeft.bind fun _ => ihRight.bind_ok
  | unary op operand ih =>
    rw [nest, Formula.postorder, Formula.firstOf_append, Formula.firstOf_singleton]
    -- the operator is looked at behind the operand
    refine ih.bind fun c => ?_
    cases op with
    | plus | minus => exact refuses_ok _
    | times | divide | modulo | power => exact rfl
  | call name ps ih =>
    have hFirst : firstOf (Formula.call name ps).postorder =
        firstOf (ps.flatMap Formula.postorder) := by
      rw [Formula.postorder, Formula.firstOf_append, Formula.postorderAll_eq]
      exact Option.or_none
    rw [nest_call, hFirst]
    exact (nestAll_refuses ih).bind_ok

mutual

/-- The order in which closures come by the nodes of a formula. A node comes
before what is below it as long as it is too tall for nested functions. -/
def inspected : Formula → List Formula
  | .number literal => [.number literal]
  | .var name => [.var name]
  | .binary op left right =>
    if (Formula.binary op left right).fits maxNested then (Formula.binary op left right).postorder
    else .binary op left right :: (inspected left ++ inspected right)
  | .unary op operand =>
    if (Formula.unary op operand).fits maxNested then (Formula.unary op operand).postorder
    else .unary op operand :: inspected operand
  | .call name parameters =>
    if (Formula.call name parameters).fits maxNested then (Formula.call name parameters).postorder
    else .call name parameters :: inspectedAll parameters

/-- The same for several formulas. -/
def inspectedAll : List Formula → List Formula
  | [] => []
  | p :: ps => inspected p ++ inspectedAll ps

end

theorem inspectedAll_eq (ps : List Formula) : inspectedAll ps = ps.flatMap inspected := by
  induction ps with
  | nil => rfl
  | cons p ps ih => rw [inspectedAll, ih, List.flatMap_cons]

theorem inspected_of_fits {f : Formula} (h : f.fits maxNested = true) :
    inspected f = f.postorder := by
  cases f with
  | number literal => rfl
  | var name => rfl
  | binary op left right => rw [inspected, if_pos h]
  | unary op operand => rw [inspected, if_pos h]
  | call name ps => rw [inspected, if_pos h]

theorem inspected_of_not_fits {f : Formula} (h : ¬ f.fits maxNested = true) :
    inspected f = f :: f.children.flatMap inspected := by
  cases f with
  | number literal => exact absurd rfl h
  | var name => exact absurd rfl h
  | binary op left right => rw [inspected, if_neg h]; simp [Formula.children]
  | unary op operand => rw [inspected, if_neg h]; simp [Formula.children]
  | call name ps => rw [inspected, if_neg h, inspectedAll_eq]; rfl

/-- Closures come by every node once. -/
theorem inspected_perm (f : Formula) : (inspected f).Perm f.preorder := by
  induction f using Formula.children_induction with
  | step f ih =>
    -- below a node that fits, nothing is flattened any more
    by_cases hFits : f.fits maxNested = true
    · rw [inspected_of_fits hFits]
      exact f.postorder_perm
    · rw [inspected_of_not_fits hFits, Formula.preorder_eq]
      exact (List.Perm.flatMap_left _ ih).cons f

namespace Flat

theorem flattenAll_refuses {ps : List Formula}
    (ih : ∀ f ∈ ps, ∀ p, Refuses (flatten f p) (firstOf (inspected f))) (p : Flat) :
    Refuses (flattenAll ps p) (firstOf (ps.flatMap inspected)) := by
  induction ps generalizing p with
  | nil => exact refuses_ok p
  | cons f fs ihTail =>
    rw [flattenAll, List.flatMap_cons, Formula.firstOf_append]
    exact (ih f (List.mem_cons_self ..) p).bind fun p₁ =>
      ihTail (fun g hg => ih g (List.mem_cons_of_mem f hg)) p₁

/-- A formula that is low enough reports what its nested functions report. -/
theorem nested_refuses {f : Formula} (hFits : f.fits maxNested = true) (p : Flat) :
    Refuses (do let c ← nest f; return p.add (.run c)) (firstOf (inspected f)) := by
  rw [inspected_of_fits hFits]
  exact (nest_refuses f).bind_ok

/-- A flat program reports the first operator that closures come by. -/
theorem flatten_refuses (f : Formula) (p : Flat) :
    Refuses (flatten f p) (firstOf (inspected f)) := by
  induction f generalizing p with
  | number literal => exact refuses_ok _
  | var name => exact refuses_ok _
  | binary op left right ihLeft ihRight =>
    by_cases hFits : (Formula.binary op left right).fits maxNested = true
    · rw [flatten, if_pos hFits]
      exact nested_refuses hFits p
    · have hFirst : firstOf (inspected (.binary op left right)) =
          (firstOf (inspected left)).or (firstOf (inspected right)) := by
        rw [inspected, if_neg hFits, Formula.firstOf_cons, Formula.firstOf_append]
        rfl
      rw [flatten_binary hFits, hFirst]
      exact (ihLeft p).bind fun p₁ => (ihRight p₁).bind_ok
  | unary op operand ih =>
    by_cases hFits : (Formula.unary op operand).fits maxNested = true
    · rw [flatten.eq_def]
      dsimp only
      rw [if_pos hFits]
      exact nested_refuses hFits p
    · rw [inspected, if_neg hFits, Formula.firstOf_cons]
      -- here the operator is looked at before the operand
      cases op with
      | plus =>
        rw [flatten, if_neg hFits]
        exact ih p
      | minus =>
        rw [flatten_minus hFits]
        exact (ih p).bind_ok
      | times | divide | modulo | power =>
        rw [flatten.eq_def]
        dsimp only
        rw [if_neg hFits]
        exact rfl
  | call name ps ih =>
    by_cases hFits : (Formula.call name ps).fits maxNested = true
    · rw [flatten, if_pos hFits]
      exact nested_refuses hFits p
    · rw [flatten_call hFits, inspected, if_neg hFits, Formula.firstOf_cons, inspectedAll_eq]
      exact (flattenAll_refuses ih p).bind_ok

end Flat

/-- Closures report the first operator that they come by. -/
theorem compile_refuses (f : Formula) : Refuses (compile f) (firstOf (inspected f)) := by
  rw [compile]
  split
  · next hFits =>
    rw [inspected_of_fits hFits]
    exact nest_refuses f
  · exact (Flat.flatten_refuses f {}).bind_ok

end Closure

/-! ## Operators above one another -/

namespace Formula

/-- Below a node with an operator that is no sign there is no other such node. -/
def Unnested (f : Formula) : Prop :=
  ∀ g ∈ f.preorder, g.misplaced? ≠ none → ∀ h ∈ g.children.flatMap preorder, h.misplaced? = none

theorem Unnested.child {f g : Formula} (h : f.Unnested) (hg : g ∈ f.children) : g.Unnested :=
  fun n hn => h n (mem_preorder_of_child hg hn)

/-- An order that puts a node before or behind what is below it finds the same
as the preorder, if none of the operators stands above another. -/
theorem firstOf_eq_of_below {f : Formula} (h : f.Unnested) {nodes below : List Formula}
    (hNodes : nodes = f :: below ∨ nodes = below ++ [f])
    (hBelow : firstOf below = firstOf (f.children.flatMap preorder)) :
    firstOf nodes = firstOf f.preorder := by
  have hOr : f.misplaced?.or (firstOf below) = (firstOf below).or f.misplaced? := by
    cases hSelf : f.misplaced? with
    | none => rw [Option.none_or, Option.or_none]
    | some op =>
      -- then there is nothing to be found below
      have hNone : firstOf below = none := by
        rw [hBelow, firstOf_eq_none]
        exact h f f.self_mem_preorder (by rw [hSelf]; exact Option.some_ne_none op)
      rw [hNone, Option.or_none, Option.none_or]
  rw [preorder_eq, firstOf_cons, ← hBelow]
  rcases hNodes with rfl | rfl
  · rw [firstOf_cons]
  · rw [firstOf_append, firstOf_singleton, hOr]

theorem firstOf_postorder {f : Formula} (h : f.Unnested) :
    firstOf f.postorder = firstOf f.preorder := by
  induction f using children_induction with
  | step f ih =>
    refine firstOf_eq_of_below h (Or.inr f.postorder_eq) ?_
    exact firstOf_flatMap_congr fun g hg => ih g hg (h.child hg)

/-- All orders find the same operator if none stands above another. -/
theorem firstOf_eq_of_unnested {f : Formula} (h : f.Unnested) :
    firstOf (Closure.inspected f) = firstOf f.preorder := by
  induction f using children_induction with
  | step f ih =>
    -- either way the node comes before or behind all that is below it
    by_cases hFits : f.fits Closure.maxNested = true
    · rw [Closure.inspected_of_fits hFits]
      exact firstOf_postorder h
    · refine firstOf_eq_of_below h (Or.inl (Closure.inspected_of_not_fits hFits)) ?_
      exact firstOf_flatMap_congr fun g hg => ih g hg (h.child hg)

end Formula

/-! ## Chunks -/

/-- The operator of a demand, if it is no sign. -/
def Demand.misplaced? : Demand → Option Operator
  | .sign op => op.misplaced?
  | _ => none

theorem misplaced?_of_admissible {ds : List Demand} (h : Admissible ds) :
    ∀ d ∈ ds, d.misplaced? = none := by
  intro d hd
  cases d with
  | literal l => rfl
  | name s => rfl
  | sign op => exact Operator.misplaced?_eq_none.2 (h.signs op hd)

namespace Formula

/-- The formula's literals and names have numbers, and the parameters of its calls
have slots. -/
structure WithinLimits (f : Formula) : Prop where
  slots : f.scratchSize ≤ 65535
  literals : (f.literals.map Literal.bits).toFinset.card ≤ 65536
  names : f.names.toFinset.card ≤ 65536

theorem findSome?_demandsAll {ps : List Formula}
    (ih : ∀ p ∈ ps, p.demands.findSome? Demand.misplaced? = firstOf p.preorder) :
    (demandsAll ps).findSome? Demand.misplaced? = firstOf (ps.flatMap preorder) := by
  induction ps with
  | nil => rfl
  | cons p ps ihTail =>
    rw [demandsAll, List.findSome?_append, List.flatMap_cons, firstOf_append,
      ih p (List.mem_cons_self ..), ihTail fun q hq => ih q (List.mem_cons_of_mem p hq)]

/-- Among the demands of a formula, the operators come up in preorder. -/
theorem findSome?_demands (f : Formula) :
    f.demands.findSome? Demand.misplaced? = firstOf f.preorder := by
  induction f with
  | number literal => rfl
  | var name => rfl
  | binary op left right ihLeft ihRight =>
    rw [demands, List.findSome?_append, ihLeft, ihRight, preorder, firstOf_cons, firstOf_append]
    rfl
  | unary op operand ih =>
    rw [demands, preorder, firstOf_cons, ← ih, findSome?_cons_or]
    rfl
  | call name ps ih =>
    rw [demands, List.findSome?_append, findSome?_demandsAll ih, preorder, firstOf_cons,
      preorderAll_eq]
    exact Option.or_none

/-- Within the limits, a chunk is refused for the first operator in preorder and
for nothing else. -/
theorem WithinLimits.toChunk_refuses {f : Formula} (h : f.WithinLimits) (name : String) :
    Refuses (f.toChunk name) (firstOf f.preorder) := by
  have hSlots : f.scratchSize < wordCount := Nat.lt_succ_of_le h.slots
  have hFirst := f.findSome?_demands
  cases hOp : firstOf f.preorder with
  | none =>
    -- the signs are in order, and the limits are what is assumed
    rw [hOp, List.findSome?_eq_none_iff] at hFirst
    refine exists_toChunk name hSlots ⟨fun op hop => ?_, ?_, ?_⟩
    · exact Operator.misplaced?_eq_none.1 (hFirst _ hop)
    · rw [literals_demands]
      exact h.literals
    · rw [names_demands]
      exact h.names
  | some op =>
    rw [hOp, List.findSome?_eq_some_iff] at hFirst
    obtain ⟨before, d, after, hDemands, hd, hBefore⟩ := hFirst
    -- the demand is the operator itself
    obtain ⟨rfl, hSign⟩ : d = .sign op ∧ ¬ (op = .plus ∨ op = .minus) := by
      cases d with
      | literal l => cases hd
      | name s => cases hd
      | sign op' =>
        have hNone := mt Operator.misplaced?_eq_none.2 (hd ▸ Option.some_ne_none op)
        rw [Demand.misplaced?, Operator.misplaced?, if_neg hNone] at hd
        cases hd
        exact ⟨rfl, hNone⟩
    refine toChunk_of_first name hSlots hDemands ⟨fun op' hop => ?_, ?_, ?_⟩ fun hAll => ?_
    · exact Operator.misplaced?_eq_none.1 (hBefore _ hop)
    · have hLiterals := h.literals
      rw [← literals_demands, hDemands] at hLiterals
      exact Demand.few_literals_left hLiterals
    · have hNames := h.names
      rw [← names_demands, hDemands] at hNames
      exact Demand.few_names_left hNames
    · exact hSign (hAll.signs op (List.mem_append_right before (List.mem_singleton_self _)))

/-- With enough slots, a chunk is refused for the first operator in preorder, if
not for what is too many before it. -/
theorem toChunk_of_firstOf {f : Formula} (name : String) (hSlots : f.scratchSize < wordCount)
    {op : Operator} (hFirst : firstOf f.preorder = some op) :
    ∃ err, f.toChunk name = .error err ∧
      (err = .unknownUnary op ∨ err = .tooManyConstants ∨ err = .tooManyIdentifiers) := by
  rw [← findSome?_demands] at hFirst
  have hNot : ¬ Admissible f.demands := by
    intro hAll
    obtain ⟨d, hd, hSign⟩ := List.exists_of_findSome?_eq_some hFirst
    rw [misplaced?_of_admissible hAll d hd] at hSign
    cases hSign
  obtain ⟨before, d, after, hDemands, hBefore, hNot⟩ := exists_of_not_admissible hNot
  refine ⟨d.error, toChunk_of_first name hSlots hDemands hBefore hNot, ?_⟩
  cases d with
  | literal l => exact Or.inr (Or.inl rfl)
  | name s => exact Or.inr (Or.inr rfl)
  | sign op' =>
    -- the operators before this one are signs, so it is the first
    have hNone : before.findSome? Demand.misplaced? = none :=
      List.findSome?_eq_none_iff.2 (misplaced?_of_admissible hBefore)
    rw [hDemands, List.findSome?_append, hNone, Option.none_or, findSome?_cons_or] at hFirst
    have hSign : (Demand.sign op').misplaced? = some op' :=
      if_neg fun hSign => hNot (hBefore.snoc_sign hSign)
    rw [hSign] at hFirst
    cases hFirst
    exact Or.inl rfl

/-! ## Signs -/

/-- No order finds anything just if all operators are signs. -/
theorem firstOf_eq_none_iff {f : Formula} {nodes : List Formula} (h : nodes.Perm f.preorder) :
    firstOf nodes = none ↔ f.wellSigned = true := by
  have hOrder : firstOf nodes = none ↔ firstOf f.preorder = none := by
    simp only [firstOf_eq_none, h.mem_iff]
  rw [hOrder, ← findSome?_demands, List.findSome?_eq_none_iff, ← signs_demands]
  constructor
  · intro hNone op hop
    exact Operator.misplaced?_eq_none.1 (hNone _ hop)
  · intro hSigns d hd
    cases d with
    | literal l => rfl
    | name s => rfl
    | sign op => exact Operator.misplaced?_eq_none.2 (hSigns op hd)

section Signs

variable {f : Formula} (h : f.wellSigned = true)
include h

/-- What is refused for operators only is there if all of them are signs. -/
theorem exists_of_wellSigned {α : Type} {nodes : List Formula} (hNodes : nodes.Perm f.preorder)
    {x : Except CompileError α} (hx : Refuses x (firstOf nodes)) : ∃ a, x = .ok a := by
  rw [(firstOf_eq_none_iff hNodes).2 h] at hx
  exact hx

theorem lower_ok : ∃ e, f.lower = .ok e :=
  exists_of_wellSigned h (List.Perm.refl _) f.lower_refuses

theorem nest_ok : ∃ c, Closure.nest f = .ok c :=
  exists_of_wellSigned h f.postorder_perm (Closure.nest_refuses f)

theorem flatten_ok (p : Closure.Flat) : ∃ p', Closure.Flat.flatten f p = .ok p' :=
  exists_of_wellSigned h (Closure.inspected_perm f) (Closure.Flat.flatten_refuses f p)

theorem closure_ok : ∃ c, Closure.compile f = .ok c :=
  exists_of_wellSigned h (Closure.inspected_perm f) (Closure.compile_refuses f)

end Signs

/-! ## All backends -/

/-- Something is found in every order if there is something to be found. -/
theorem firstOf_ne_none_iff {f : Formula} {nodes : List Formula} (h : nodes.Perm f.preorder) :
    firstOf nodes ≠ none ↔ ∃ g ∈ f.preorder, ∃ op, g.misplaced? = some op := by
  rw [Ne, firstOf_eq_none, not_forall]
  simp only [h.mem_iff, Classical.not_imp, ← Ne.eq_def, Option.ne_none_iff_exists']

/-- What a backend reports stands in the formula. -/
theorem exists_of_refuses {α : Type} {f : Formula} {nodes : List Formula}
    (h : nodes.Perm f.preorder) {x : Except CompileError α} (hx : Refuses x (firstOf nodes))
    {err : CompileError} (hErr : x = .error err) :
    ∃ g ∈ f.preorder, ∃ op, g.misplaced? = some op ∧ err = .unknownUnary op := by
  obtain ⟨op, hOp, rfl⟩ := hx.error_eq hErr
  obtain ⟨g, hg, hSelf⟩ := exists_of_firstOf hOp
  exact ⟨g, h.mem_iff.1 hg, op, hSelf, rfl⟩

/-- A core expression and a closure are refused just if some unary operator is no
sign, and always for such an operator. Lowering reports the one that is first in
preorder, and so does a chunk within its limits; with enough slots it is refused
in any case, if not for this one then for too many literals or names. If none of
these operators stands above another, the first one is the same in preorder and
in postorder, and all backends report it. -/
theorem compile_misplaced (f : Formula) (name : String) :
    ((∃ err, f.lower = .error err) ↔ ∃ g ∈ f.preorder, ∃ op, g.misplaced? = some op) ∧
    ((∃ err, Closure.compile f = .error err) ↔
      ∃ g ∈ f.preorder, ∃ op, g.misplaced? = some op) ∧
    (∀ err, f.lower = .error err ∨ Closure.compile f = .error err →
      ∃ g ∈ f.preorder, ∃ op, g.misplaced? = some op ∧ err = .unknownUnary op) ∧
    ∀ op, firstOf f.preorder = some op →
      f.lower = .error (.unknownUnary op) ∧
      (f.WithinLimits → f.toChunk name = .error (.unknownUnary op)) ∧
      (f.scratchSize ≤ 65535 → ∃ err, f.toChunk name = .error err ∧
        (err = .unknownUnary op ∨ err = .tooManyConstants ∨ err = .tooManyIdentifiers)) ∧
      (f.Unnested → firstOf f.postorder = some op ∧
        ∀ backend, (backend = .native → f.WithinLimits) →
          f.compile name backend = .error (.unknownUnary op)) := by
  have hLower := f.lower_refuses
  have hClosure := Closure.compile_refuses f
  have hPerm := Closure.inspected_perm f
  refine ⟨?_, ?_, ?_, fun op hFirst => ⟨?_, fun hLimits => ?_, fun hSlots => ?_,
    fun hUnnested => ⟨?_, ?_⟩⟩⟩
  · exact hLower.fails_iff.trans (firstOf_ne_none_iff (List.Perm.refl _))
  · exact hClosure.fails_iff.trans (firstOf_ne_none_iff hPerm)
  · rintro err (hErr | hErr)
    · exact exists_of_refuses (List.Perm.refl _) hLower hErr
    · exact exists_of_refuses hPerm hClosure hErr
  · exact hLower.error hFirst
  · exact (hLimits.toChunk_refuses name).error hFirst
  · exact toChunk_of_firstOf name (Nat.lt_succ_of_le hSlots) hFirst
  · rw [firstOf_postorder hUnnested, hFirst]
  · intro backend hNative
    -- each backend fails in its first part
    cases backend with
    | native =>
      rw [compile, ((hNative rfl).toChunk_refuses name).error hFirst]
      rfl
    | treeIr =>
      rw [compile, hLower.error hFirst]
      rfl
    | closure =>
      rw [compile, hClosure.error ((firstOf_eq_of_unnested hUnnested).trans hFirst)]
      rfl

instance (f : Formula) : Decidable f.Unnested :=
  inferInstanceAs (Decidable (∀ g ∈ f.preorder, _ → ∀ h ∈ g.children.flatMap preorder, _))

set_option maxRecDepth 2000 in
/-- Above the greatest height of nested functions, all backends report the
operator in the call and none the one to the right of it. -/
theorem compile_misplaced_below_minuses :
    let f : Formula := (unary .minus)^[70]
      (.binary .plus (.call "f" [.number (.ofFloat 1), .unary .times (.var "x")])
        (.unary .power (.number (.ofFloat 2))))
    Closure.maxNested < f.levels ∧ f.WithinLimits ∧ f.Unnested ∧ firstOf f.preorder = some .times ∧
      ∀ backend, f.compile "t" backend = .error (.unknownUnary .times) := by
  intro f
  have hLimits : f.WithinLimits := ⟨by decide, by decide, by decide⟩
  have hUnnested : f.Unnested := by decide
  have hFirst : firstOf f.preorder = some .times := by decide
  refine ⟨by decide, hLimits, hUnnested, hFirst, fun backend => ?_⟩
  obtain ⟨-, -, -, hReported⟩ := compile_misplaced f "t"
  exact ((hReported .times hFirst).2.2.2 hUnnested).2 backend fun _ => hLimits

-- one above the other, the order matters
example : (unary .times (.unary .power (.var "x"))).lower = .error (.unknownUnary .times) ∧
    Closure.compile (unary .times (.unary .power (.var "x"))) = .error (.unknownUnary .power) :=
  ⟨rfl, rfl⟩

end Formula

end Reckon
