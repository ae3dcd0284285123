import Mathlib
import Reckon.Formula.Identity
import Reckon.Proofs.Formula.Order

/-!
# Reckon — formulas that are the same

Comparing, hashing and copying formulas each take a list of what is pending, in
orders of their own, and none of them follows the shape of a formula. So what
they do is said of any list of pending formulas or pairs:

* `Formula.Identical` — what it is for two formulas to be the same, which is that
  they are equal (`Formula.identical_iff_eq`);
* `Formula.sameAll_iff` — pairs are found to be the same if all of them are. Zipped
  parameters only count if there are as many of them on both sides;
* `Formula.walk_eq` — a walk comes by the nodes in preorder, so a key is put
  together from the keys below the root (`Formula.key_eq`);
* `Formula.key_append_inj` — a key tells where it ends: nothing that follows it can
  be mistaken for a part of it. This is why keys can stand side by side without
  marks between them;
* `Formula.foldl_fill_walk` — filled in from the last one on, the roots of pending
  formulas make up these formulas again.

What this means for formulas is put together in `Formula.beq_iff_identical`.
-/

namespace Reckon.Formula

/-- Two formulas with the same nodes in the same places: the same operators and
names, literals with the same bits, and as many parameters in each call. -/
inductive Identical : Formula → Formula → Prop
  | number {a b : Literal} (hBits : a.bits = b.bits) : Identical (number a) (number b)
  | var (name : String) : Identical (var name) (var name)
  | binary (op : Operator) {left left' right right' : Formula} (hLeft : Identical left left')
      (hRight : Identical right right') : Identical (binary op left right) (binary op left' right')
  | unary (op : Operator) {operand operand' : Formula} (hOperand : Identical operand operand') :
      Identical (unary op operand) (unary op operand')
  | call (name : String) {ps qs : List Formula} (hLength : ps.length = qs.length)
      (hParameters : ∀ (i : Nat) p q, ps[i]? = some p → qs[i]? = some q → Identical p q) :
      Identical (call name ps) (call name qs)

theorem Identical.refl (f : Formula) : f.Identical f := by
  induction f with
  | number literal => exact .number rfl
  | var name => exact .var name
  | binary op left right ihLeft ihRight => exact .binary op ihLeft ihRight
  | unary op operand ih => exact .unary op ih
  | call name ps ih =>
    refine .call name rfl fun i p q hp hq => ?_
    rw [hp] at hq
    cases hq
    exact ih p (List.mem_of_getElem? hp)

theorem identical_iff_eq {f g : Formula} : f.Identical g ↔ f = g := by
  constructor
  · intro h
    induction h with
    | number hBits => rw [Literal.ext hBits]
    | var name => rfl
    | binary op _ _ ihLeft ihRight => rw [ihLeft, ihRight]
    | unary op _ ih => rw [ih]
    | @call name ps qs hLength _ ih =>
      refine congrArg (Formula.call name) (List.ext_getElem hLength fun i hp hq => ?_)
      exact ih i _ _ (List.getElem?_eq_getElem hp) (List.getElem?_eq_getElem hq)
  · rintro rfl
    exact .refl f

/-! ## Roots -/

section Roots

variable {f g : Formula}

theorem sameRoot_iff : f.sameRoot g = true ↔ f.items = g.items := by
  cases f <;> cases g <;> simp [sameRoot, items]

/-- A formula is its root and what is below it. -/
theorem eq_iff_items : f = g ↔ f.items = g.items ∧ f.children = g.children := by
  cases f <;> cases g <;> simp [items, children, Literal.ext_iff]
  -- equal parameters are equally many
  rintro rfl -
  rfl

/-- How much is below a root is one of the things that it contributes. -/
theorem length_children_of_items (h : f.items = g.items) :
    f.children.length = g.children.length := by
  cases f <;> cases g <;> simp_all [items, children]

/-- The variant comes first, so it is known how many items belong to the root. -/
theorem items_append_inj {rest rest' : List KeyItem} (h : f.items ++ rest = g.items ++ rest') :
    f.items = g.items ∧ rest = rest' := by
  cases f <;> cases g <;> simp_all [items]

end Roots

/-! ## Equality -/

theorem eq_of_zip {fs gs : List Formula} (hLength : fs.length = gs.length) :
    (∀ pair ∈ fs.zip gs, pair.1 = pair.2) ↔ fs = gs := by
  induction fs generalizing gs with
  | nil =>
    have hNil : gs = [] := List.length_eq_zero_iff.1 hLength.symm
    simp [hNil]
  | cons f fs ih =>
    cases gs with
    | nil => cases hLength
    | cons g gs =>
      have hRest := ih (Nat.succ.inj hLength : fs.length = gs.length)
      simp only [List.zip_cons_cons, List.forall_mem_cons, hRest, List.cons.injEq]

/-- Pending pairs are found to be the same just if each one is a pair of equals. -/
theorem sameAll_iff (pending : List (Formula × Formula)) :
    sameAll pending = true ↔ ∀ pair ∈ pending, pair.1 = pair.2 := by
  fun_induction sameAll pending with
  | case1 => simp
  | case2 f g pending ih =>
    rw [Bool.and_eq_true, ih, List.forall_mem_append, List.forall_mem_cons, sameRoot_iff,
      eq_iff_items, and_assoc]
    simp only [List.mem_reverse]
    -- no pair is lost by zipping if the roots agree on the number of them
    refine and_congr_right fun hItems => and_congr_left fun _ => ?_
    exact eq_of_zip (length_children_of_items hItems)

instance : LawfulBEq Formula where
  eq_of_beq {f g} h := by
    have hSame : sameAll [(f, g)] = true := h
    rw [sameAll_iff, List.forall_mem_singleton] at hSame
    exact hSame
  rfl {f} := by
    show sameAll [(f, f)] = true
    rw [sameAll_iff, List.forall_mem_singleton]

/-! ## Keys -/

/-- A walk comes by the nodes of each pending formula in preorder. -/
theorem walk_eq {σ : Type} (visit : σ → Formula → σ) (pending : List Formula) (s : σ) :
    walk visit pending s = (pending.flatMap preorder).foldl visit s := by
  fun_induction walk visit pending s with
  | case1 s => rfl
  | case2 f pending s ih =>
    rw [ih, List.flatMap_append, List.flatMap_cons, preorder_eq, List.cons_append, List.foldl_cons]

theorem key_eq_flatMap (f : Formula) : f.key = f.preorder.flatMap items := by
  rw [key, feed, walk_eq, List.flatMap_singleton, ← List.foldl_flatMap]
  simp

/-- Whatever hashes a formula is given its key, item by item. -/
theorem feed_eq {σ : Type} (write : σ → KeyItem → σ) (f : Formula) (state : σ) :
    f.feed write state = f.key.foldl write state := by
  rw [feed, walk_eq, List.flatMap_singleton, key_eq_flatMap, List.foldl_flatMap]

/-- What the root contributes, and the keys below it. -/
theorem key_eq (f : Formula) : f.key = f.items ++ f.children.flatMap key := by
  have hBelow : f.children.flatMap key = f.children.flatMap fun g => g.preorder.flatMap items :=
    List.flatMap_congr fun g _ => g.key_eq_flatMap
  rw [key_eq_flatMap, preorder_eq, List.flatMap_cons, List.flatMap_assoc, hBelow]

theorem keys_append_inj {fs gs : List Formula} {rest rest' : List KeyItem}
    (ih : ∀ f ∈ fs, ∀ g rest rest', f.key ++ rest = g.key ++ rest' → f = g ∧ rest = rest')
    (hLength : fs.length = gs.length)
    (h : fs.flatMap key ++ rest = gs.flatMap key ++ rest') : fs = gs ∧ rest = rest' := by
  induction fs generalizing gs with
  | nil =>
    have hNil : gs = [] := List.length_eq_zero_iff.1 hLength.symm
    subst hNil
    exact ⟨rfl, h⟩
  | cons f fs ihTail =>
    cases gs with
    | nil => cases hLength
    | cons g gs =>
      rw [List.flatMap_cons, List.flatMap_cons, List.append_assoc, List.append_assoc] at h
      obtain ⟨rfl, hTail⟩ := ih f (List.mem_cons_self ..) g _ _ h
      obtain ⟨rfl, hRest⟩ := ihTail (fun f' hf' => ih f' (List.mem_cons_of_mem f hf'))
        (Nat.succ.inj hLength) hTail
      exact ⟨rfl, hRest⟩

/-- A key is read in one way only, whatever follows it. -/
theorem key_append_inj (f g : Formula) (rest rest' : List KeyItem)
    (h : f.key ++ rest = g.key ++ rest') : f = g ∧ rest = rest' := by
  induction f using children_induction generalizing g rest rest' with
  | step f ih =>
    rw [key_eq f, key_eq g, List.append_assoc, List.append_assoc] at h
    obtain ⟨hItems, hBelow⟩ := items_append_inj h
    -- the root tells how many keys follow it
    obtain ⟨hChildren, hRest⟩ := keys_append_inj ih (length_children_of_items hItems) hBelow
    exact ⟨eq_iff_items.2 ⟨hItems, hChildren⟩, hRest⟩

theorem key_inj {f g : Formula} : f.key = g.key ↔ f = g := by
  constructor
  · intro h
    exact (key_append_inj f g [] [] (by rw [h])).1
  · exact congrArg key

/-! ## Copies -/

theorem fill_shallow (f : Formula) (rest : List Formula) :
    f.shallow.fill (f.children ++ rest) = f :: rest := by
  cases f <;> simp [shallow, children, fill]

/-- The roots of pending formulas, filled in from the last one on, make up the
formulas again. -/
theorem foldl_fill_walk (pending roots filled : List Formula) :
    (walk (fun roots g => g.shallow :: roots) pending roots).foldl
      (fun filled root => root.fill filled) filled =
    roots.foldl (fun filled root => root.fill filled) (pending ++ filled) := by
  fun_induction walk (fun (roots : List Formula) g => g.shallow :: roots) pending roots with
  | case1 roots => rfl
  | case2 f pending roots ih =>
    -- what is below the root is filled by then, so it is next in line
    rw [ih, List.foldl_cons, List.append_assoc, fill_shallow]
    rfl

theorem copy_eq (f : Formula) : f.copy = f := by
  rw [copy, foldl_fill_walk]
  rfl

/-- **Formulas are found to be the same just if they are identical, and this is
what their keys say as well.** So the comparison is an equivalence relation: a
formula with not-a-number in it is the same as itself, and two formulas are
different if a zero of one has the other sign in the other, or not-a-number other
bits. A copy is the same as what it was made of. Whatever hashes formulas is
given their keys, so formulas that are the same have the same hash, and different
ones differ in what is hashed. -/
theorem beq_iff_identical :
    (∀ f g : Formula, (f == g) = true ↔ f.Identical g) ∧
    (∀ f g : Formula, f.Identical g ↔ f = g) ∧
    Equivalence (fun f g : Formula => (f == g) = true) ∧
    (∀ a b : Literal, (number a == number b) = true ↔ a.bits = b.bits) ∧
    (number (.ofFloat 0) == number (.ofFloat (-0.0))) = false ∧
    (∀ f : Formula, (f.copy == f) = true) ∧
    (∀ f g : Formula, f.key = g.key ↔ (f == g) = true) ∧
    ∀ (σ : Type) (write : σ → KeyItem → σ) (f : Formula) (state : σ),
      f.feed write state = f.key.foldl write state := by
  have hSame : ∀ f g : Formula, (f == g) = true ↔ f = g := fun f g => beq_iff_eq
  refine ⟨fun f g => (hSame f g).trans identical_iff_eq.symm, fun f g => identical_iff_eq,
    ⟨fun f => BEq.rfl, fun h => BEq.symm h, fun h h' => BEq.trans h h'⟩, fun a b => ?_, ?_,
    fun f => ?_, fun f g => key_inj.trans (hSame f g).symm,
    fun σ write f state => feed_eq write f state⟩
  · rw [hSame, number.injEq, Literal.ext_iff]
  · rw [beq_eq_false_iff_ne]
    intro hZeros
    -- the two zeros differ in the bit of the sign
    have hBits : Float.toBits 0 = Float.toBits (-0.0) :=
      congrArg Literal.bits (number.inj hZeros)
    exact absurd hBits (by decide)
  · rw [hSame, copy_eq]

end Reckon.Formula
