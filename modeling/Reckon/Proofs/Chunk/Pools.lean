import Mathlib
import Reckon.Proofs.Chunk.Emission

/-!
# Reckon — the pools of a chunk, and when there is one

The pools of a chunk are what interning the literals and the names of the
formula one after the other makes of empty pools. A formula has a chunk if its
signs mean something, its calls do not need too many slots and the pools do not
get too large:

* `Emitter.formula_ok` — emission succeeds with exactly these pools;
* `Formula.toChunk_ok` — a formula with few literals and names has a chunk.
-/

namespace Reckon

namespace Pool

variable {α : Type} [BEq α] [Hashable α] [LawfulBEq α]

/-- Numbers things one after the other. -/
def internAll (p : Pool α) (things : List α) : Pool α :=
  things.foldl (fun p a => (p.intern a).2) p

theorem internAll_append (p : Pool α) (first second : List α) :
    p.internAll (first ++ second) = (p.internAll first).internAll second :=
  List.foldl_append

theorem fst_intern_lt (p : Pool α) (a : α) : (p.intern a).1 < (p.intern a).2.entries.size :=
  (Array.getElem?_eq_some_iff.1 (p.getElem?_intern a)).1

theorem size_intern_le (p : Pool α) (a : α) :
    (p.intern a).2.entries.size ≤ p.entries.size + 1 := by
  unfold intern
  split
  · exact Nat.le_succ _
  · simp

theorem size_internAll_le (p : Pool α) (things : List α) :
    (p.internAll things).entries.size ≤ p.entries.size + things.length := by
  induction things generalizing p with
  | nil => exact Nat.le_refl _
  | cons a things ih =>
    have hHead := p.size_intern_le a
    have hTail := ih (p.intern a).2
    rw [List.length_cons]
    -- each thing makes at most one entry
    show ((p.intern a).2.internAll things).entries.size ≤ _
    omega

/-- A pool never gets smaller. -/
theorem size_le_internAll (p : Pool α) (things : List α) :
    p.entries.size ≤ (p.internAll things).entries.size := by
  induction things generalizing p with
  | nil => exact Nat.le_refl _
  | cons a things ih =>
    have hHead : p.entries.size ≤ (p.intern a).2.entries.size := by
      simpa using (p.entries_prefix_intern a).length_le
    exact Nat.le_trans hHead (ih (p.intern a).2)

end Pool

namespace Formula

mutual

/-- The literals of a formula, from left to right. -/
def literals : Formula → List Literal
  | number literal => [literal]
  | var _ => []
  | binary _ left right => left.literals ++ right.literals
  | unary _ operand => operand.literals
  | call _ parameters => literalsAll parameters

/-- The literals of formulas, from left to right. -/
def literalsAll : List Formula → List Literal
  | [] => []
  | p :: ps => p.literals ++ literalsAll ps

end

mutual

/-- The names in a formula in the order in which they are looked up: the name
of a function behind those in its parameters. -/
def names : Formula → List String
  | number _ => []
  | var name => [name]
  | binary _ left right => left.names ++ right.names
  | unary _ operand => operand.names
  | call name parameters => namesAll parameters ++ [name]

/-- The names in formulas, from left to right. -/
def namesAll : List Formula → List String
  | [] => []
  | p :: ps => p.names ++ namesAll ps

end

mutual

/-- Whether every unary operator of a formula is a plus or a minus. -/
def wellSigned : Formula → Bool
  | number _ | var _ => true
  | binary _ left right => left.wellSigned && right.wellSigned
  | unary op operand => (op == .plus || op == .minus) && operand.wellSigned
  | call _ parameters => wellSignedAll parameters

/-- The same for several formulas. -/
def wellSignedAll : List Formula → Bool
  | [] => true
  | p :: ps => p.wellSigned && wellSignedAll ps

end

theorem literalsAll_eq (ps : List Formula) : literalsAll ps = ps.flatMap literals := by
  induction ps with
  | nil => rfl
  | cons p ps ih => rw [literalsAll, ih, List.flatMap_cons]

theorem namesAll_eq (ps : List Formula) : namesAll ps = ps.flatMap names := by
  induction ps with
  | nil => rfl
  | cons p ps ih => rw [namesAll, ih, List.flatMap_cons]

theorem wellSignedAll_iff {ps : List Formula} :
    wellSignedAll ps = true ↔ ∀ p ∈ ps, p.wellSigned = true := by
  induction ps with
  | nil => simp [wellSignedAll]
  | cons p ps ih => rw [wellSignedAll, Bool.and_eq_true, ih, List.forall_mem_cons]

end Formula

namespace Emitter

/-- From one emitter to another, literals and names were interned. -/
structure Interned (e e' : Emitter) (literals : List Literal) (names : List String) : Prop where
  constants : e'.constants = e.constants.internAll literals
  identifiers : e'.identifiers = e.identifiers.internAll names

theorem Interned.trans {e e₁ e₂ : Emitter} {literals₁ literals₂ : List Literal}
    {names₁ names₂ : List String} (h₁ : Interned e e₁ literals₁ names₁)
    (h₂ : Interned e₁ e₂ literals₂ names₂) :
    Interned e e₂ (literals₁ ++ literals₂) (names₁ ++ names₂) :=
  ⟨by rw [h₂.constants, h₁.constants, Pool.internAll_append],
    by rw [h₂.identifiers, h₁.identifiers, Pool.internAll_append]⟩

/-- There is room for literals and names. -/
structure Room (e : Emitter) (literals : List Literal) (names : List String) : Prop where
  constants : (e.constants.internAll literals).entries.size ≤ wordCount
  identifiers : (e.identifiers.internAll names).entries.size ≤ wordCount

theorem Room.left {e : Emitter} {literals₁ literals₂ : List Literal} {names₁ names₂ : List String}
    (h : e.Room (literals₁ ++ literals₂) (names₁ ++ names₂)) : e.Room literals₁ names₁ := by
  obtain ⟨hConstants, hIdentifiers⟩ := h
  rw [Pool.internAll_append] at hConstants hIdentifiers
  exact ⟨Nat.le_trans (Pool.size_le_internAll _ _) hConstants,
    Nat.le_trans (Pool.size_le_internAll _ _) hIdentifiers⟩

theorem Room.right {e e₁ : Emitter} {literals₁ literals₂ : List Literal}
    {names₁ names₂ : List String} (h : e.Room (literals₁ ++ literals₂) (names₁ ++ names₂))
    (h₁ : Interned e e₁ literals₁ names₁) : e₁.Room literals₂ names₂ := by
  obtain ⟨hConstants, hIdentifiers⟩ := h
  rw [Pool.internAll_append, ← h₁.constants] at hConstants
  rw [Pool.internAll_append, ← h₁.identifiers] at hIdentifiers
  exact ⟨hConstants, hIdentifiers⟩

theorem slot_ok (e : Emitter) {n : Nat} (h : n < wordCount) : e.slot n = .ok n.toUInt16 :=
  if_pos h

theorem constant_ok {e : Emitter} {literal : Literal} (h : e.Room [literal] []) :
    ∃ index e', e.constant literal = .ok (index, e') ∧ Interned e e' [literal] [] := by
  have hLt : (e.constants.intern literal).1 < wordCount :=
    Nat.lt_of_lt_of_le (e.constants.fst_intern_lt literal) h.constants
  exact ⟨_, _, if_pos hLt, ⟨rfl, rfl⟩⟩

theorem identifier_ok {e : Emitter} {name : String} (h : e.Room [] [name]) :
    ∃ index e', e.identifier name = .ok (index, e') ∧ Interned e e' [] [name] := by
  have hLt : (e.identifiers.intern name).1 < wordCount :=
    Nat.lt_of_lt_of_le (e.identifiers.fst_intern_lt name) h.identifiers
  exact ⟨_, _, if_pos hLt, ⟨rfl, rfl⟩⟩

theorem call_ok {e : Emitter} {name : String} {base count : Nat} (h : e.Room [] [name])
    (hSlots : base + count < wordCount) :
    ∃ e', e.call name base count = .ok e' ∧ Interned e e' [] [name] := by
  obtain ⟨index, e₁, hIndex, hInterned⟩ := identifier_ok h
  refine ⟨e₁.push (.call index base.toUInt16 count.toUInt16), ?_,
    ⟨hInterned.constants, hInterned.identifiers⟩⟩
  rw [call, hIndex]
  show (e₁.slot base >>= fun start => e₁.slot count >>= fun count =>
    pure (e₁.push (.call index start count))) = _
  rw [slot_ok e₁ (by omega), slot_ok e₁ (by omega)]
  rfl

theorem store_ok {base : Nat} {f : Formula} {e e' : Emitter} (hEmit : formula base f e = .ok e')
    {n : Nat} (h : n < wordCount) : e'.store n = .ok (e'.pop (.store n.toUInt16)) := by
  rw [store_formula hEmit, slot_ok e' h]
  rfl

theorem parameters_ok {ps : List Formula}
    (ih : ∀ p ∈ ps, ∀ {base : Nat} {e : Emitter}, p.wellSigned = true →
      p.slotsFrom base < wordCount → e.Room p.literals p.names →
      ∃ e', formula base p e = .ok e' ∧ Interned e e' p.literals p.names)
    {base : Nat} {e : Emitter} (hSigned : Formula.wellSignedAll ps = true)
    (hLength : base + ps.length < wordCount) (hSlots : Formula.slotsFromAll base ps < wordCount)
    (hRoom : e.Room (Formula.literalsAll ps) (Formula.namesAll ps)) :
    ∃ e', parameters base ps e = .ok e' ∧
      Interned e e' (Formula.literalsAll ps) (Formula.namesAll ps) := by
  induction ps generalizing base e with
  | nil => exact ⟨e, rfl, ⟨rfl, rfl⟩⟩
  | cons p ps ihTail =>
    rw [Formula.wellSignedAll, Bool.and_eq_true] at hSigned
    rw [List.length_cons] at hLength
    rw [Formula.slotsFromAll] at hSlots
    obtain ⟨e₁, hHead, hInterned₁⟩ := ih p (List.mem_cons_self ..) hSigned.1
      (Nat.lt_of_le_of_lt (Nat.le_max_left ..) hSlots) hRoom.left
    have hStore := store_ok hHead (n := base) (by omega)
    -- storing interns nothing
    have hInterned : Interned e (e₁.pop (.store base.toUInt16)) p.literals p.names :=
      ⟨hInterned₁.constants, hInterned₁.identifiers⟩
    obtain ⟨e₃, hTail, hInterned₃⟩ :=
      ihTail (fun q hq => ih q (List.mem_cons_of_mem p hq)) hSigned.2
        (by omega : base + 1 + ps.length < wordCount)
        (Nat.lt_of_le_of_lt (Nat.le_max_right ..) hSlots) (hRoom.right hInterned)
    refine ⟨e₃, ?_, hInterned.trans hInterned₃⟩
    rw [parameters, hHead]
    show (e₁.store base >>= fun e => parameters (base + 1) ps e) = _
    rw [hStore]
    exact hTail

/-- A formula is emitted if its signs mean something, its slots have numbers
and there is room for its literals and names, which is what the pools get. -/
theorem formula_ok {f : Formula} {base : Nat} {e : Emitter} (hSigned : f.wellSigned = true)
    (hSlots : f.slotsFrom base < wordCount) (hRoom : e.Room f.literals f.names) :
    ∃ e', formula base f e = .ok e' ∧ Interned e e' f.literals f.names := by
  induction f generalizing base e with
  | number literal =>
    obtain ⟨index, e', hIndex, hInterned⟩ := constant_ok hRoom
    refine ⟨e'.push (.constant index), ?_, ⟨hInterned.constants, hInterned.identifiers⟩⟩
    rw [formula, hIndex]
    rfl
  | var name =>
    obtain ⟨index, e', hIndex, hInterned⟩ := identifier_ok hRoom
    refine ⟨e'.push (.load index), ?_, ⟨hInterned.constants, hInterned.identifiers⟩⟩
    rw [formula, hIndex]
    rfl
  | binary op left right ihLeft ihRight =>
    rw [Formula.wellSigned, Bool.and_eq_true] at hSigned
    rw [Formula.slotsFrom] at hSlots
    obtain ⟨e₁, hLeft, hInterned₁⟩ := ihLeft hSigned.1
      (Nat.lt_of_le_of_lt (Nat.le_max_left ..) hSlots) hRoom.left
    obtain ⟨e₂, hRight, hInterned₂⟩ := ihRight hSigned.2
      (Nat.lt_of_le_of_lt (Nat.le_max_right ..) hSlots) (hRoom.right hInterned₁)
    have hInterned := hInterned₁.trans hInterned₂
    refine ⟨e₂.pop (.arith op), ?_, ⟨hInterned.constants, hInterned.identifiers⟩⟩
    rw [formula_binary, hLeft]
    show (formula base right e₁ >>= fun e => pure (e.pop (.arith op))) = _
    rw [hRight]
    rfl
  | unary op operand ih =>
    rw [Formula.wellSigned, Bool.and_eq_true] at hSigned
    rw [Formula.slotsFrom] at hSlots
    obtain ⟨e₁, hOperand, hInterned⟩ := ih hSigned.2 hSlots hRoom
    cases op with
    | plus => exact ⟨e₁, by rw [formula, hOperand], hInterned⟩
    | minus =>
      refine ⟨e₁.keep .negate, ?_, ⟨hInterned.constants, hInterned.identifiers⟩⟩
      rw [formula_minus, hOperand]
      rfl
    | times | divide | modulo | power => simp at hSigned
  | call name ps ih =>
    rw [Formula.wellSigned] at hSigned
    rw [Formula.slotsFrom] at hSlots
    have hLength : base + ps.length < wordCount := Nat.lt_of_le_of_lt (Nat.le_max_left ..) hSlots
    -- the name of the function is interned behind everything in the parameters
    have hRoom' : e.Room (Formula.literalsAll ps ++ []) (Formula.namesAll ps ++ [name]) := by
      rw [List.append_nil]
      exact hRoom
    obtain ⟨e₁, hParameters, hInterned₁⟩ := parameters_ok ih hSigned hLength
      (Nat.lt_of_le_of_lt (Nat.le_max_right ..) hSlots) hRoom'.left
    obtain ⟨e₂, hCall, hInterned₂⟩ := call_ok (hRoom'.right hInterned₁) hLength
    refine ⟨e₂, ?_, by simpa [Formula.literals, Formula.names] using hInterned₁.trans hInterned₂⟩
    rw [formula, hParameters]
    exact hCall

end Emitter

/-- A formula whose signs mean something, whose calls need few slots and in
which few literals and names stand has a chunk. -/
theorem Formula.toChunk_ok {f : Formula} (name : String) (hSigned : f.wellSigned = true)
    (hSlots : f.scratchSize < wordCount) (hLiterals : f.literals.length ≤ wordCount)
    (hNames : f.names.length ≤ wordCount) : ∃ c, f.toChunk name = .ok c := by
  -- an entry for each literal and each name is more than enough
  have hRoom : (Emitter.start f.scratchSize).Room f.literals f.names := by
    constructor
    · refine Nat.le_trans (Pool.size_internAll_le _ _) ?_
      simpa [Emitter.start, Pool.empty] using hLiterals
    · refine Nat.le_trans (Pool.size_internAll_le _ _) ?_
      simpa [Emitter.start, Pool.empty] using hNames
  obtain ⟨e, hEmit, -⟩ := Emitter.formula_ok hSigned hSlots hRoom
  refine ⟨e.finish name, ?_⟩
  simp [toChunk, hEmit, hSlots]

end Reckon
