import Mathlib
import Reckon.Core.Identity
import Reckon.Proofs.Accepted
import Reckon.Proofs.Core.Calls
import Reckon.Proofs.Formula.Identity
import Reckon.Proofs.Number.Shape
import Reckon.Proofs.Recovery

/-!
# Reckon — core expressions that are equal

Formulas are compared bit by bit and core expressions number by number, and both
by a list of pending pairs. What the second comparison says of two formulas is seen
in three steps:

* `Core.Equal` — what it is for two expressions to be equal. `Core.sameAll_iff` says
  that this is what the comparison finds, for any list of pending pairs;
* `Formula.Matches` — formulas of one shape with equal numbers. Lowering turns
  formulas that match into equal expressions (`Formula.Matches.lower_equal`), and
  from equal expressions matching formulas are raised (`Core.Equal.raise_matches`);
* `Formula.matches_iff_eq` — numbers that are read from a source have no sign and are
  all equal to themselves, so for formulas of sources both comparisons agree.

`Core.lowered_equal_iff` puts this together. The comparison is no equivalence: it is
symmetric and transitive, but not reflexive.
-/

namespace Reckon

/-! ## Lists that are compared place by place -/

/-- Pairs are those of the elements in the same places. -/
theorem forall_mem_zip_iff {α : Type} {R : α → α → Prop} {xs ys : List α} :
    (∀ pair ∈ xs.zip ys, R pair.1 pair.2) ↔
      ∀ (i : Nat) x y, xs[i]? = some x → ys[i]? = some y → R x y := by
  constructor
  · intro h i x y hx hy
    exact h (x, y) (List.mem_of_getElem? (List.getElem?_zip_eq_some.2 ⟨hx, hy⟩))
  · rintro h ⟨x, y⟩ hPair
    obtain ⟨i, hi⟩ := List.mem_iff_getElem?.1 hPair
    obtain ⟨hx, hy⟩ := List.getElem?_zip_eq_some.1 hi
    exact h i x y hx hy

/-- In lists of the same length the same places are taken. -/
theorem exists_getElem?_of_length_eq {α β : Type} {xs : List α} {ys : List β}
    (h : xs.length = ys.length) {i : Nat} {x : α} (hx : xs[i]? = some x) :
    ∃ y, ys[i]? = some y := by
  obtain ⟨hi, -⟩ := List.getElem?_eq_some_iff.1 hx
  exact ⟨_, List.getElem?_eq_getElem (h ▸ hi)⟩

namespace Core

/-! ## Equality -/

/-- Two expressions with the same nodes in the same places, and equal numbers for
their constants. The operands of a call are of the same kinds, with the same texts
and as many elements in each array. -/
inductive Equal : Core → Core → Prop
  | constant {a b : Literal} (hValue : Number.Equal a.value b.value) :
      Equal (constant a) (constant b)
  | arith (op : Operator) {left left' right right' : Core} (hLeft : Equal left left')
      (hRight : Equal right right') : Equal (arith op left right) (arith op left' right')
  | negate {operand operand' : Core} (hOperand : Equal operand operand') :
      Equal (negate operand) (negate operand')
  | call (method : Method) {os os' : List Operand}
      (hOutlines : os.map Operand.outline = os'.map Operand.outline)
      (hBelow : ∀ (i : Nat) e e', (os.flatMap Operand.expressions)[i]? = some e →
        (os'.flatMap Operand.expressions)[i]? = some e' → Equal e e') :
      Equal (call method os) (call method os')

/-- Operands of the same outlines have as many expressions below them. -/
theorem length_of_outlines {os os' : List Operand}
    (h : os.map Operand.outline = os'.map Operand.outline) :
    (os.flatMap Operand.expressions).length = (os'.flatMap Operand.expressions).length := by
  -- the number of expressions below an operand can be told from its outline
  have hCount : ∀ o o' : Operand, o.outline = o'.outline →
      o.expressions.length = o'.expressions.length := by
    intro o o' hOutline
    cases o <;> cases o' <;> simp_all [Operand.outline, Operand.expressions]
  induction os generalizing os' with
  | nil =>
    rw [List.map_nil, eq_comm, List.map_eq_nil_iff] at h
    rw [h]
  | cons o os ih =>
    cases os' with
    | nil => cases h
    | cons o' os' =>
      rw [List.map_cons, List.map_cons, List.cons.injEq] at h
      rw [List.flatMap_cons, List.flatMap_cons, List.length_append, List.length_append,
        hCount o o' h.1, ih h.2]

namespace Equal

theorem symm {a b : Core} (h : a.Equal b) : b.Equal a := by
  induction h with
  | constant hValue => exact .constant hValue.symm
  | arith op _ _ ihLeft ihRight => exact .arith op ihLeft ihRight
  | negate _ ih => exact .negate ih
  | call method hOutlines _ ih =>
    exact .call method hOutlines.symm fun i e e' he he' => ih i e' e he' he

theorem trans {a b c : Core} (h : a.Equal b) (h' : b.Equal c) : a.Equal c := by
  induction h generalizing c with
  | constant hValue =>
    cases h' with
    | constant hValue' => exact .constant (hValue.trans hValue')
  | arith op _ _ ihLeft ihRight =>
    cases h' with
    | arith _ hLeft' hRight' => exact .arith op (ihLeft hLeft') (ihRight hRight')
  | negate _ ih =>
    cases h' with
    | negate hOperand' => exact .negate (ih hOperand')
  | call method hOutlines _ ih =>
    cases h' with
    | call _ hOutlines' hBelow' =>
      refine .call method (hOutlines.trans hOutlines') fun i e e'' he he'' => ?_
      -- there is an expression between the two, in the same place
      obtain ⟨e', he'⟩ := exists_getElem?_of_length_eq (length_of_outlines hOutlines) he
      exact ih i e e' he he' (hBelow' i e' e'' he' he'')

end Equal

/-- Expressions are equal if their roots and all that is right below them are. -/
theorem equal_iff (e e' : Core) :
    e.Equal e' ↔ e.sameRoot e' = true ∧
      ∀ (i : Nat) c c', e.children[i]? = some c → e'.children[i]? = some c' → c.Equal c' := by
  constructor
  · intro h
    cases h with
    | constant hValue =>
      refine ⟨(Number.beq_iff ..).2 hValue, fun i c c' hc => ?_⟩
      simp [children] at hc
    | arith op hLeft hRight =>
      refine ⟨by simp [sameRoot], fun i c c' hc hc' => ?_⟩
      rcases i with _ | _ | i
      · cases hc
        cases hc'
        exact hLeft
      · cases hc
        cases hc'
        exact hRight
      · cases hc
    | negate hOperand =>
      refine ⟨rfl, fun i c c' hc hc' => ?_⟩
      rcases i with _ | i
      · cases hc
        cases hc'
        exact hOperand
      · cases hc
    | call method hOutlines hBelow =>
      -- what is below the operands is what is below the call
      exact ⟨by simp [sameRoot, hOutlines], hBelow⟩
  · rintro ⟨hRoot, hBelow⟩
    cases e <;> cases e' <;> try cases hRoot
    case constant.constant a b => exact .constant ((Number.beq_iff a.value b.value).1 hRoot)
    case arith.arith op left right op' left' right' =>
      obtain rfl : op = op' := by simpa [sameRoot] using hRoot
      exact .arith op (hBelow 0 _ _ rfl rfl) (hBelow 1 _ _ rfl rfl)
    case negate.negate.refl operand operand' => exact .negate (hBelow 0 _ _ rfl rfl)
    case call.call method os method' os' =>
      rw [sameRoot, Bool.and_eq_true, beq_iff_eq, beq_iff_eq] at hRoot
      obtain ⟨rfl, hOutlines⟩ := hRoot
      exact .call method hOutlines hBelow

/-! ## Comparing -/

theorem pushPairs_eq (es es' : List Core) (pending : List (Core × Core)) :
    pushPairs es es' pending = (es.zip es').reverse ++ pending := by
  induction es generalizing es' pending with
  | nil => simp [pushPairs]
  | cons e es ih =>
    cases es' with
    | nil => simp [pushPairs]
    | cons e' es' => rw [pushPairs, ih, List.zip_cons_cons, List.reverse_cons, List.append_assoc,
        List.singleton_append]

/-- Pending pairs are found to be equal just if each one is a pair of equals. -/
theorem sameAll_iff (pending : List (Core × Core)) :
    sameAll pending = true ↔ ∀ pair ∈ pending, pair.1.Equal pair.2 := by
  fun_induction sameAll pending with
  | case1 => simp
  | case2 e e' pending ih =>
    -- the pairs right below the roots stand before those that were pending already
    rw [Bool.and_eq_true, ih, pushPairs_eq, List.forall_mem_append, List.forall_mem_cons,
      equal_iff e e', and_assoc, ← forall_mem_zip_iff (R := Equal)]
    simp only [List.mem_reverse]

theorem beq_iff (e e' : Core) : (e == e') = true ↔ e.Equal e' := by
  show sameAll [(e, e')] = true ↔ _
  rw [sameAll_iff, List.forall_mem_singleton]

/-! ## Constants -/

mutual

/-- The constants in an expression, from left to right. -/
def constants : Core → List Literal
  | constant literal => [literal]
  | arith _ left right => left.constants ++ right.constants
  | negate operand => operand.constants
  | call _ operands => constantsIn operands

/-- The constants inside operands, from left to right. -/
def constantsIn : List Operand → List Literal
  | [] => []
  | .literal _ :: os => constantsIn os
  | .value e :: os => e.constants ++ constantsIn os
  | .array elements :: os => constantsAll elements ++ constantsIn os

/-- The constants in expressions, from left to right. -/
def constantsAll : List Core → List Literal
  | [] => []
  | e :: es => e.constants ++ constantsAll es

end

theorem constantsAll_eq (es : List Core) : constantsAll es = es.flatMap constants := by
  induction es with
  | nil => rfl
  | cons e es ih => rw [constantsAll, ih, List.flatMap_cons]

theorem constantsIn_eq (os : List Operand) :
    constantsIn os = (os.flatMap Operand.expressions).flatMap constants := by
  induction os with
  | nil => rfl
  | cons o os ih =>
    cases o with
    | literal text => rw [constantsIn, ih]; rfl
    | value e => rw [constantsIn, ih]; rfl
    | array elements => rw [constantsIn, ih, constantsAll_eq]; simp [Operand.expressions]

/-- An expression is equal to itself unless one of its constants is not a number. -/
theorem equal_self_iff (e : Core) :
    e.Equal e ↔ ∀ l ∈ e.constants, l.value.isNaN = false := by
  induction e using children_induction with
  | step e ih =>
    -- a place has one expression only, so just the ones below the root have to be equal
    have hBelow : (∀ (i : Nat) c c', e.children[i]? = some c → e.children[i]? = some c' →
        c.Equal c') ↔ ∀ c ∈ e.children, c.Equal c := by
      constructor
      · intro h c hc
        obtain ⟨i, hi⟩ := List.mem_iff_getElem?.1 hc
        exact h i c c hi hi
      · intro h i c c' hc hc'
        rw [hc] at hc'
        cases hc'
        exact h c (List.mem_of_getElem? hc)
    have hChildren : (∀ c ∈ e.children, c.Equal c) ↔
        ∀ l ∈ e.children.flatMap constants, l.value.isNaN = false := by
      rw [List.forall_mem_flatMap]
      exact forall₂_congr ih
    rw [equal_iff, hBelow, hChildren]
    cases e with
    | constant literal =>
      have hSelf := (Number.beq_iff literal.value literal.value).trans
        (Number.equal_self_iff literal.value)
      simp [sameRoot, children, constants, hSelf]
    | arith op left right => simp [sameRoot, children, constants]
    | negate operand => simp [sameRoot, children, constants]
    | call method os => simp [sameRoot, children, constants, constantsIn_eq]

end Core

/-! ## Formulas that match -/

namespace Formula

/-- Two formulas with the same nodes in the same places: the same operators and
names, equal numbers, and as many parameters in each call. -/
inductive Matches : Formula → Formula → Prop
  | number {a b : Literal} (hValue : Number.Equal a.value b.value) :
      Matches (number a) (number b)
  | var (name : String) : Matches (var name) (var name)
  | binary (op : Operator) {left left' right right' : Formula} (hLeft : Matches left left')
      (hRight : Matches right right') : Matches (binary op left right) (binary op left' right')
  | unary (op : Operator) {operand operand' : Formula} (hOperand : Matches operand operand') :
      Matches (unary op operand) (unary op operand')
  | call (name : String) {ps qs : List Formula} (hLength : ps.length = qs.length)
      (hParameters : ∀ (i : Nat) p q, ps[i]? = some p → qs[i]? = some q → Matches p q) :
      Matches (call name ps) (call name qs)

/-- The core expression in each place is that of the parameter in this place. -/
theorem exists_of_lowerAll {ps : List Formula} {es : List Core} (h : lowerAll ps = .ok es)
    {i : Nat} {e : Core} (he : es[i]? = some e) : ∃ p, ps[i]? = some p ∧ p.lower = .ok e := by
  induction ps generalizing es i with
  | nil =>
    cases h
    cases he
  | cons p ps ih =>
    rw [lowerAll] at h
    obtain ⟨e₀, hHead, h⟩ := ok_of_bind h
    obtain ⟨es', hTail, h⟩ := ok_of_bind h
    cases h
    cases i with
    | zero =>
      cases he
      exact ⟨p, rfl, hHead⟩
    | succ i => exact ih hTail he

/-- Formulas that match are lowered to equal expressions. -/
theorem Matches.lower_equal {f g : Formula} (h : f.Matches g) {a b : Core}
    (hf : f.lower = .ok a) (hg : g.lower = .ok b) : a.Equal b := by
  induction h generalizing a b with
  | number hValue =>
    cases hf
    cases hg
    exact .constant hValue
  | var name =>
    cases hf
    cases hg
    refine .call .getVariable rfl fun i e e' he => ?_
    simp [Operand.expressions] at he
  | binary op _ _ ihLeft ihRight =>
    rw [lower] at hf hg
    obtain ⟨l, hl, hf⟩ := ok_of_bind hf
    obtain ⟨r, hr, hf⟩ := ok_of_bind hf
    obtain ⟨l', hl', hg⟩ := ok_of_bind hg
    obtain ⟨r', hr', hg⟩ := ok_of_bind hg
    cases hf
    cases hg
    exact .arith op (ihLeft hl hl') (ihRight hr hr')
  | unary op _ ih =>
    cases op with
    | plus =>
      rw [lower] at hf hg
      exact ih hf hg
    | minus =>
      rw [lower] at hf hg
      obtain ⟨e, he, hf⟩ := ok_of_bind hf
      obtain ⟨e', he', hg⟩ := ok_of_bind hg
      cases hf
      cases hg
      exact .negate (ih he he')
    | times | divide | modulo | power => cases hf
  | call name hLength _ ih =>
    rw [lower] at hf hg
    obtain ⟨es, hes, hf⟩ := ok_of_bind hf
    obtain ⟨es', hes', hg⟩ := ok_of_bind hg
    cases hf
    cases hg
    have hSizes : es.length = es'.length := by
      rw [Core.length_lowerAll hes, Core.length_lowerAll hes', hLength]
    refine .call .callFunction (by simp [Operand.outline, hSizes]) fun i e e' he he' => ?_
    -- only the array has expressions below it
    have hBelow : ∀ (text : String) (es : List Core),
        [Operand.literal text, .array es].flatMap Operand.expressions = es := by
      simp [Operand.expressions]
    rw [hBelow] at he he'
    obtain ⟨p, hp, hLower⟩ := exists_of_lowerAll hes he
    obtain ⟨q, hq, hLower'⟩ := exists_of_lowerAll hes' he'
    exact ih i p q hp hq hLower hLower'

/-- Formulas without signed numbers match only if they are the same. -/
theorem matches_iff_eq {f g : Formula} (hf : ∀ l ∈ f.literals, Number.Unsigned l)
    (hg : ∀ l ∈ g.literals, Number.Unsigned l) : f.Matches g ↔ f = g := by
  constructor
  · intro h
    rw [← identical_iff_eq]
    induction h with
    | @number a b hValue =>
      have ha := hf a (by simp [literals])
      have hb := hg b (by simp [literals])
      -- equal doubles without signs are the same, and so are the literals of such a double
      have hSame : a = b := ha.value_inj ((ha.nonnegative.equal_iff hb.nonnegative).1 hValue)
      exact .number (congrArg Literal.bits hSame)
    | var name => exact .var name
    | binary op _ _ ihLeft ihRight =>
      simp only [literals, List.forall_mem_append] at hf hg
      exact .binary op (ihLeft hf.1 hg.1) (ihRight hf.2 hg.2)
    | unary op _ ih => exact .unary op (ih hf hg)
    | call name hLength _ ih =>
      simp only [literals, literalsAll_eq, List.forall_mem_flatMap] at hf hg
      refine .call name hLength fun i p q hp hq => ih i p q hp hq ?_ ?_
      · exact hf p (List.mem_of_getElem? hp)
      · exact hg q (List.mem_of_getElem? hq)
  · rintro rfl
    induction f with
    | number literal =>
      have hValue := (hf literal (by simp [literals])).nonnegative
      exact .number ((hValue.equal_iff hValue).2 rfl)
    | var name => exact .var name
    | binary op left right ihLeft ihRight =>
      simp only [literals, List.forall_mem_append] at hf
      exact .binary op (ihLeft hf.1 hf.1) (ihRight hf.2 hf.2)
    | unary op operand ih => exact .unary op (ih hf hf)
    | call name ps ih =>
      simp only [literals, literalsAll_eq, List.forall_mem_flatMap] at hf
      refine .call name rfl fun i p q hp hq => ?_
      rw [hp] at hq
      cases hq
      have hMem := List.mem_of_getElem? hp
      exact ih p hMem (hf p hMem) (hf p hMem)

/-- A formula has the literals that it has without its pluses. -/
theorem literals_erasePlus (f : Formula) : f.erasePlus.literals = f.literals := by
  induction f with
  | number literal => rfl
  | var name => rfl
  | binary op left right ihLeft ihRight => rw [erasePlus, literals, literals, ihLeft, ihRight]
  | unary op operand ih => cases op <;> exact ih
  | call name ps ih =>
    rw [erasePlus, literals, literals]
    induction ps with
    | nil => rfl
    | cons p ps ihTail =>
      rw [erasePlusAll, literalsAll, literalsAll, ih p (List.mem_cons_self ..),
        ihTail fun q hq => ih q (List.mem_cons_of_mem p hq)]

end Formula

/-! ## From equal expressions back to formulas -/

namespace Core

/-- Only the calls that formulas are lowered to can be raised. -/
theorem raise?_call {method : Method} {os : List Operand} {f : Formula}
    (h : (call method os).raise? = some f) :
    (∃ name, method = .getVariable ∧ os = [.literal name] ∧ f = .var name) ∨
      ∃ name es ps, method = .callFunction ∧ os = [.literal name, .array es] ∧
        raiseAll? es = some ps ∧ f = .call name ps := by
  unfold raise? at h
  split at h
  all_goals try contradiction
  · rename_i name hCall
    cases hCall
    cases h
    exact Or.inl ⟨name, rfl, rfl, rfl⟩
  · rename_i name es hCall
    cases hCall
    obtain ⟨ps, hps, h⟩ := Option.bind_eq_some_iff.1 h
    cases h
    exact Or.inr ⟨name, es, ps, rfl, rfl, hps, rfl⟩

/-- The formula in each place is that of the expression in this place. -/
theorem raiseAll?_eq_some {es : List Core} {ps : List Formula} (h : raiseAll? es = some ps) :
    es.length = ps.length ∧
      ∀ (i : Nat) p, ps[i]? = some p → ∃ e, es[i]? = some e ∧ e.raise? = some p := by
  induction es generalizing ps with
  | nil =>
    cases h
    exact ⟨rfl, fun i p hp => by cases hp⟩
  | cons e es ih =>
    rw [raiseAll?] at h
    obtain ⟨p, hHead, h⟩ := Option.bind_eq_some_iff.1 h
    obtain ⟨ps', hTail, h⟩ := Option.bind_eq_some_iff.1 h
    cases h
    obtain ⟨hLength, hPlaces⟩ := ih hTail
    refine ⟨congrArg (· + 1) hLength, fun i q hq => ?_⟩
    cases i with
    | zero =>
      cases hq
      exact ⟨e, rfl, hHead⟩
    | succ i => exact hPlaces i q hq

/-- From equal expressions formulas that match are raised. -/
theorem Equal.raise_matches {a b : Core} (h : a.Equal b) {f g : Formula}
    (hf : a.raise? = some f) (hg : b.raise? = some g) : f.Matches g := by
  induction h generalizing f g with
  | constant hValue =>
    cases hf
    cases hg
    exact .number hValue
  | arith op _ _ ihLeft ihRight =>
    rw [raise?] at hf hg
    obtain ⟨l, hl, hf⟩ := Option.bind_eq_some_iff.1 hf
    obtain ⟨r, hr, hf⟩ := Option.bind_eq_some_iff.1 hf
    obtain ⟨l', hl', hg⟩ := Option.bind_eq_some_iff.1 hg
    obtain ⟨r', hr', hg⟩ := Option.bind_eq_some_iff.1 hg
    cases hf
    cases hg
    exact .binary op (ihLeft hl hl') (ihRight hr hr')
  | negate _ ih =>
    rw [raise?] at hf hg
    obtain ⟨p, hp, hf⟩ := Option.bind_eq_some_iff.1 hf
    obtain ⟨p', hp', hg⟩ := Option.bind_eq_some_iff.1 hg
    cases hf
    cases hg
    exact .unary .minus (ih hp hp')
  | call method hOutlines _ ih =>
    -- the two calls are of one method, so both stand for variables or both for functions
    rcases raise?_call hf with ⟨name, rfl, rfl, rfl⟩ | ⟨name, es, ps, rfl, rfl, hps, rfl⟩
    · obtain ⟨name', -, rfl, rfl⟩ | ⟨_, _, _, hMethod, -⟩ := raise?_call hg
      · obtain rfl : name = name' := by simpa [Operand.outline] using hOutlines
        exact .var name
      · cases hMethod
    · obtain ⟨_, hMethod, -⟩ | ⟨name', es', qs, -, rfl, hqs, rfl⟩ := raise?_call hg
      · cases hMethod
      · obtain ⟨rfl, hSizes⟩ : name = name' ∧ es.length = es'.length := by
          simpa [Operand.outline] using hOutlines
        obtain ⟨hLength, hPlaces⟩ := raiseAll?_eq_some hps
        obtain ⟨hLength', hPlaces'⟩ := raiseAll?_eq_some hqs
        refine .call name (by rw [← hLength, ← hLength', hSizes]) fun i p q hp hq => ?_
        obtain ⟨e, he, hRaise⟩ := hPlaces i p hp
        obtain ⟨e', he', hRaise'⟩ := hPlaces' i q hq
        exact ih i e e' (by simpa [Operand.expressions] using he)
          (by simpa [Operand.expressions] using he') hRaise hRaise'

/-! ## Lowered formulas -/

/-- Two formulas are lowered to equal expressions just if they match without their
pluses, which for formulas of sources is that they are the same without them.
Equality of expressions is symmetric and transitive, and an expression is equal to
itself if none of its constants is not-a-number, and only then. -/
theorem lowered_equal_iff :
    (∀ (f g : Formula) (a b : Core), f.lower = .ok a → g.lower = .ok b →
      ((a == b) = true ↔ f.erasePlus.Matches g.erasePlus)) ∧
    (∀ (source source' : String) (f g : Formula), parse source = .ok f → parse source' = .ok g →
      ∃ a b, f.lower = .ok a ∧ g.lower = .ok b ∧
        ((a == b) = true ↔ (f.erasePlus == g.erasePlus) = true)) ∧
    (∀ a b : Core, (a == b) = true → (b == a) = true) ∧
    (∀ a b c : Core, (a == b) = true → (b == c) = true → (a == c) = true) ∧
    ∀ e : Core, (e == e) = true ↔ ∀ l ∈ e.constants, l.value.isNaN = false := by
  have hMatches : ∀ (f g : Formula) (a b : Core), f.lower = .ok a → g.lower = .ok b →
      ((a == b) = true ↔ f.erasePlus.Matches g.erasePlus) := by
    intro f g a b hf hg
    rw [beq_iff]
    constructor
    · intro h
      exact h.raise_matches (Formula.raise?_lower hf) (Formula.raise?_lower hg)
    · intro h
      exact h.lower_equal (f.lower_erasePlus.trans hf) (g.lower_erasePlus.trans hg)
  simp only [beq_iff] at hMatches ⊢
  refine ⟨hMatches, fun source source' f g hf hg => ?_, fun a b => Equal.symm,
    fun a b c => Equal.trans, equal_self_iff⟩
  -- formulas of sources have signs only, which can be lowered, and numbers without signs
  have hStems := Formula.stems_of_parse hf
  have hStems' := Formula.stems_of_parse hg
  obtain ⟨a, ha⟩ := Formula.lower_ok hStems.signs
  obtain ⟨b, hb⟩ := Formula.lower_ok hStems'.signs
  refine ⟨a, b, ha, hb, (hMatches f g a b ha hb).trans ?_⟩
  rw [beq_iff_eq, Formula.matches_iff_eq]
  · rw [Formula.literals_erasePlus]
    exact fun l hl => (hStems.literals l hl).unsigned
  · rw [Formula.literals_erasePlus]
    exact fun l hl => (hStems'.literals l hl).unsigned

/-- Formulas with zeros of both signs are not the same, but lowered to equal
expressions; a negation of not-a-number is not even equal to itself. -/
theorem lowered_equal_iff_two_zeros :
    let f : Formula := .call "f" [.unary .plus (.number (.ofFloat 0)), .var "x"]
    let g : Formula := .call "f" [.number (.ofFloat (-0.0)), .unary .plus (.var "x")]
    let undefined : Core := .negate (.constant (.ofFloat (0.0 / 0.0)))
    (∃ a b, f.lower = .ok a ∧ g.lower = .ok b ∧ f.erasePlus.Matches g.erasePlus ∧
      f.erasePlus ≠ g.erasePlus ∧ (a == b) = true ∧ (b == a) = true ∧ (a == a) = true) ∧
    (∃ f g a b, parse "+x - 1" = .ok f ∧ parse "x - +1.0" = .ok g ∧ f ≠ g ∧
      f.lower = .ok a ∧ g.lower = .ok b ∧ (a == b) = true) ∧
    (undefined == undefined) = false := by
  intro f g undefined
  obtain ⟨hLowered, hParsed, hSymm, hTrans, hRefl⟩ := lowered_equal_iff
  refine ⟨?_, ?_, ?_⟩
  · have hEqual : Number.Equal 0 (-0.0) := ⟨by decide, by decide, Or.inr ⟨by decide, by decide⟩⟩
    have hMatches : f.erasePlus.Matches g.erasePlus := by
      refine .call "f" rfl fun i p q hp hq => ?_
      rcases i with _ | _ | i
      · cases hp
        cases hq
        exact .number hEqual
      · cases hp
        cases hq
        exact .var "x"
      · cases hp
    have hBeq := (hLowered f g _ _ rfl rfl).2 hMatches
    refine ⟨_, _, rfl, rfl, hMatches, ?_, hBeq, hSymm _ _ hBeq, hTrans _ _ _ hBeq (hSymm _ _ hBeq)⟩
    intro h
    have hLiteral : Literal.ofFloat 0 = .ofFloat (-0.0) := by
      simpa [f, g, Formula.erasePlus, Formula.erasePlusAll] using h
    exact absurd hLiteral (by decide)
  · have hf : parse "+x - 1" =
        .ok (.binary .minus (.unary .plus (.var "x")) (.number (.ofFloat 1))) := by
      rfl
    have hg : parse "x - +1.0" =
        .ok (.binary .minus (.var "x") (.unary .plus (.number (.ofFloat 1)))) := by
      rfl
    obtain ⟨a, b, ha, hb, hIff⟩ := hParsed _ _ _ _ hf hg
    exact ⟨_, _, a, b, hf, hg, by simp, ha, hb, hIff.2 (beq_self_eq_true _)⟩
  · rw [Bool.eq_false_iff]
    intro h
    have hNaN := (hRefl undefined).1 h (.ofFloat (0.0 / 0.0)) (by simp [undefined, constants])
    exact absurd hNaN (by decide)

end Core

end Reckon
