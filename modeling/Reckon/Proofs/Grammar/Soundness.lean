import Mathlib
import Reckon.Proofs.Grammar

/-!
# Reckon — what is read is derived

Every rule of the parser reads tokens that the grammar derives the formula
from, and the derivation opens no more rules than the parser was allowed to
open. The loops are taken one at a time, for any operand that is sound itself:

* `chain_sound`, `powers_sound`, `moreParameters_sound`, `atom_sound` — a loop
  over sound operands is sound;
* `expression_sound` — the rules are sound, by induction on the rules that may
  still be opened.
-/

namespace Reckon.Grammar

open Parse

/-- What `run` reads is derived with at most `room` rules open. -/
def Sound {α : Type} (Derives : List Token → α → Nat → Prop) (room : Nat)
    (run : Cursor → Result α) : Prop :=
  ∀ ⦃c ts a c'⦄, c.Spells ts → run c = .ok (a, c') →
    ∃ us vs d, ts = us ++ vs ∧ c'.Spells vs ∧ Derives us a d ∧ d ≤ room

theorem consume?_sound {kind : TokenKind} (hKind : kind ≠ .eof) {c c' : Cursor} {ts : List Token}
    (hSpells : c.Spells ts) (h : c.consume? kind = some c') :
    ∃ t us, ts = t :: us ∧ t.kind = kind ∧ c.current = t ∧ c'.Spells us := by
  rw [hSpells.consume?_eq] at h
  split_ifs at h with hHead
  cases h
  cases ts with
  | nil => exact absurd hHead.symm hKind
  | cons t us => exact ⟨t, us, rfl, hHead, hSpells.tail.1, hSpells.tail.2⟩

theorem expect_sound {kind : TokenKind} (hKind : kind ≠ .eof) {rules : List Rule} {c c' : Cursor}
    {ts : List Token} (hSpells : c.Spells ts) (h : expect kind rules c = .ok c') :
    ∃ t us, ts = t :: us ∧ t.kind = kind ∧ c.current = t ∧ c'.Spells us := by
  unfold expect at h
  split at h
  · next next hNext =>
    cases h
    exact consume?_sound hKind hSpells hNext
  · cases h

/-! ## Loops -/

theorem chain_sound {Sign : TokenKind → Operator → Prop} {operator? : TokenKind → Option Operator}
    (hSign : ∀ {kind op}, operator? kind = some op → Sign kind op)
    (hEof : ∀ {kind op}, Sign kind op → kind ≠ .eof)
    {Operand : List Token → Formula → Nat → Prop} {room : Nat} {operand : Cursor → Result Formula}
    (hOperand : Sound Operand room operand) (n : Nat) (left : Formula) :
    Sound (Chain Sign Operand left) room (chain operator? operand n left) := by
  induction n generalizing left with
  | zero =>
    intro c ts f c' hSpells hRun
    cases hRun
    exact ⟨[], ts, 0, rfl, hSpells, .stop, Nat.zero_le _⟩
  | succ n ih =>
    intro c ts f c' hSpells hRun
    rw [chain] at hRun
    split at hRun
    · -- no sign follows: the chain ends here
      cases hRun
      exact ⟨[], ts, 0, rfl, hSpells, .stop, Nat.zero_le _⟩
    · next op hOp =>
      split at hRun
      · cases hRun
      · next right c₁ hRight =>
        obtain ⟨rest, rfl, hNext⟩ := hSpells.exists_cons (hEof (hSign hOp))
        obtain ⟨ts, vs, d, rfl, hSpells₁, hDerives, hDepth⟩ := hOperand hNext hRight
        obtain ⟨us, vs', d', rfl, hSpells', hRest, hDepth'⟩ := ih _ hSpells₁ hRun
        exact ⟨c.current :: (ts ++ us), vs', max d d', by simp, hSpells',
          .link (hSign hOp) hDerives hRest, max_le hDepth hDepth'⟩

/-- An operand and the chain behind it. -/
theorem chained_sound {Sign : TokenKind → Operator → Prop}
    {operator? : TokenKind → Option Operator}
    (hSign : ∀ {kind op}, operator? kind = some op → Sign kind op)
    (hEof : ∀ {kind op}, Sign kind op → kind ≠ .eof)
    {Operand : List Token → Formula → Nat → Prop} {room : Nat} {operand : Cursor → Result Formula}
    (hOperand : Sound Operand room operand) {c c' : Cursor} {ts : List Token} {f : Formula}
    (hSpells : c.Spells ts)
    (hRun : (match operand c with
      | .error e => .error e
      | .ok (left, c) => chain operator? operand c.bound left c : Result Formula) = .ok (f, c')) :
    ∃ us us' vs left d d', ts = us ++ us' ++ vs ∧ c'.Spells vs ∧ Operand us left d ∧
      Chain Sign Operand left us' f d' ∧ max d d' ≤ room := by
  split at hRun
  · cases hRun
  · next left c₁ hLeft =>
    obtain ⟨us, vs, d, rfl, hSpells₁, hDerives, hDepth⟩ := hOperand hSpells hLeft
    obtain ⟨us', vs, d', rfl, hSpells₂, hChain, hDepth'⟩ :=
      chain_sound hSign hEof hOperand c₁.bound left hSpells₁ hRun
    exact ⟨us, us', vs, left, d, d', by simp, hSpells₂, hDerives, hChain, max_le hDepth hDepth'⟩

/-- The operands that wait in `bases` are folded onto the power that is derived
from the latest operand and what follows it. -/
theorem powers_sound {room : Nat} {operand : Cursor → Result Formula}
    (hOperand : Sound Factor room operand) {n : Nat} {bases : List Formula} {last f : Formula}
    {c c' : Cursor} {ts us : List Token} {d : Nat} (hLast : Factor ts last d) (hDepth : d ≤ room)
    (hSpells : c.Spells us) (hRun : powers operand n bases last c = .ok (f, c')) :
    ∃ us' vs e d', us = us' ++ vs ∧ c'.Spells vs ∧ Exponent (ts ++ us') e d' ∧ d' ≤ room + 1 ∧
      f = bases.foldl (fun power base => .binary .power base power) e := by
  induction n generalizing bases last c ts us d with
  | zero =>
    cases hRun
    exact ⟨[], us, last, d + 1, rfl, hSpells, by simpa using .factor hLast, by omega, rfl⟩
  | succ n ih =>
    rw [powers] at hRun
    split at hRun
    · cases hRun
      exact ⟨[], us, last, d + 1, rfl, hSpells, by simpa using .factor hLast, by omega, rfl⟩
    · next c₁ hCaret =>
      obtain ⟨caret, us, rfl, hKind, -, hSpells₁⟩ := consume?_sound (by decide) hSpells hCaret
      split at hRun
      · cases hRun
      · next next c₂ hNext =>
        -- `last` becomes the base of the power that starts at `next`
        obtain ⟨ts', vs, d₁, rfl, hSpells₂, hFactor, hDepth₁⟩ := hOperand hSpells₁ hNext
        obtain ⟨us', vs, e, d', rfl, hSpells', hExponent, hDepth', rfl⟩ :=
          ih hFactor hDepth₁ hSpells₂ hRun
        exact ⟨caret :: (ts' ++ us'), vs, .binary .power last e, max (d + 1) d', by simp, hSpells',
          .power hLast hKind hExponent, by omega, rfl⟩

theorem moreParameters_sound {room : Nat} {operand : Cursor → Result Formula}
    (hOperand : Sound Expression room operand) {n : Nat} {before ps : List Formula}
    {c c' : Cursor} {ts : List Token} (hSpells : c.Spells ts)
    (hRun : moreParameters operand n before c = .ok (ps, c')) :
    ∃ us vs qs d, ts = us ++ vs ∧ c'.Spells vs ∧ Commas Expression us qs d ∧ d ≤ room ∧
      ps = before.reverse ++ qs := by
  induction n generalizing before c ts with
  | zero =>
    cases hRun
    exact ⟨[], ts, [], 0, rfl, hSpells, .stop, Nat.zero_le _, by simp⟩
  | succ n ih =>
    rw [moreParameters] at hRun
    split at hRun
    · cases hRun
      exact ⟨[], ts, [], 0, rfl, hSpells, .stop, Nat.zero_le _, by simp⟩
    · next c₁ hComma =>
      obtain ⟨comma, ts, rfl, hKind, -, hSpells₁⟩ := consume?_sound (by decide) hSpells hComma
      split at hRun
      · cases hRun
      · next p c₂ hNext =>
        obtain ⟨us, vs, d, rfl, hSpells₂, hDerives, hDepth⟩ := hOperand hSpells₁ hNext
        obtain ⟨us', vs', qs, d', rfl, hSpells', hRest, hDepth', rfl⟩ := ih hSpells₂ hRun
        exact ⟨comma :: (us ++ us'), vs', p :: qs, max d d', by simp, hSpells',
          .link hKind hDerives hRest, max_le hDepth hDepth', by simp⟩

/-- Signs in front of a factor make a factor. -/
theorem signs_sound (n : Nat) (before : List Operator) {c : Cursor} {ts : List Token}
    (hSpells : c.Spells ts) :
    ∃ us vs, ts = us ++ vs ∧ (signs n before c).2.Spells vs ∧
      ∀ {ws f d}, Factor ws f d →
        ∃ g, Factor (us ++ ws) g d ∧ withSigns (signs n before c).1 f = withSigns before g := by
  induction n generalizing before c ts with
  | zero => exact ⟨[], ts, rfl, hSpells, fun {_ f _} hFactor => ⟨f, hFactor, rfl⟩⟩
  | succ n ih =>
    rw [signs]
    split
    · exact ⟨[], ts, rfl, hSpells, fun {_ f _} hFactor => ⟨f, hFactor, rfl⟩⟩
    · next op hOp =>
      have hSign := sumOperator?_eq_some.1 hOp
      obtain ⟨rest, rfl, hNext⟩ := hSpells.exists_cons hSign.ne_eof
      obtain ⟨us, vs, rfl, hSpells', hFactors⟩ := ih (op :: before) hNext
      refine ⟨c.current :: us, vs, rfl, hSpells', fun hFactor => ?_⟩
      obtain ⟨g, hSigned, hEq⟩ := hFactors hFactor
      exact ⟨.unary op g, .signed hSign hSigned, hEq⟩

theorem number_sound (rules : List Rule) : Sound Factor 1 (Parse.number rules) := by
  intro c ts f c' hSpells hRun
  unfold Parse.number at hRun
  split at hRun
  · cases hRun
  · next next hNext =>
    obtain ⟨t, us, rfl, hKind, rfl, hSpells'⟩ := expect_sound (by decide) hSpells hNext
    split at hRun
    · cases hRun
    · next literal hRead =>
      cases hRun
      exact ⟨[c.current], us, 1, rfl, hSpells', .number hKind hRead, Nat.le_refl _⟩

theorem atom_sound {room : Nat} {expression : Cursor → Result Formula}
    {parameters : Cursor → Result (List Formula)} (hExpression : Sound Expression room expression)
    (hParameters : Sound Parameters room parameters) (rules : List Rule) :
    Sound Factor (room + 1) (atom expression parameters rules) := by
  intro c ts f c' hSpells hRun
  unfold atom at hRun
  split at hRun
  · next hName =>
    obtain ⟨rest, rfl, hNext⟩ := hSpells.exists_cons (by rw [hName]; decide)
    simp only at hRun
    split at hRun
    · -- a name without a bracket behind it
      cases hRun
      exact ⟨[c.current], rest, 1, rfl, hNext, .var hName, by omega⟩
    · -- a name with one: a call, whose parameters end at the closing bracket
      next c₁ hOpen =>
      obtain ⟨left, rest, rfl, hLeft, -, hSpells₁⟩ := consume?_sound (by decide) hNext hOpen
      split at hRun
      · cases hRun
      · next ps c₂ hRead =>
        obtain ⟨us, vs, d, rfl, hSpells₂, hDerives, hDepth⟩ := hParameters hSpells₁ hRead
        split at hRun
        · cases hRun
        · next c₃ hClose =>
          obtain ⟨right, vs, rfl, hRight, -, hSpells₃⟩ := expect_sound (by decide) hSpells₂ hClose
          cases hRun
          exact ⟨c.current :: left :: (us ++ [right]), vs, d + 1, by simp, hSpells₃,
            .call hName hLeft hDerives hRight, by omega⟩
  · next hLeft =>
    obtain ⟨rest, rfl, hNext⟩ := hSpells.exists_cons (by rw [hLeft]; decide)
    split at hRun
    · cases hRun
    · next g c₁ hRead =>
      obtain ⟨us, vs, d, rfl, hSpells₁, hDerives, hDepth⟩ := hExpression hNext hRead
      split at hRun
      · cases hRun
      · next c₂ hClose =>
        obtain ⟨right, vs, rfl, hRight, -, hSpells₂⟩ := expect_sound (by decide) hSpells₁ hClose
        cases hRun
        exact ⟨c.current :: (us ++ [right]), vs, d + 1, by simp, hSpells₂,
          .group hLeft hDerives hRight, by omega⟩
  · obtain ⟨us, vs, d, rfl, hSpells', hDerives, hDepth⟩ := number_sound rules hSpells hRun
    exact ⟨us, vs, d, rfl, hSpells', hDerives, by omega⟩

/-! ## Rules -/

mutual

theorem expression_sound (room : Nat) (rules : List Rule) :
    Sound Expression room (Parse.expression room rules) := by
  intro c ts f c' hSpells hRun
  cases room with
  | zero => cases hRun
  | succ room =>
    rw [Parse.expression] at hRun
    obtain ⟨us, us', vs, left, d, d', rfl, hSpells', hLeft, hChain, hDepth⟩ :=
      chained_sound sumOperator?_eq_some.1 SumSign.ne_eof (term_sound room (.expression :: rules))
        hSpells hRun
    exact ⟨us ++ us', vs, max d d' + 1, rfl, hSpells', .chain hLeft hChain, by omega⟩

theorem term_sound (room : Nat) (rules : List Rule) :
    Sound Term room (Parse.term room rules) := by
  intro c ts f c' hSpells hRun
  cases room with
  | zero => cases hRun
  | succ room =>
    rw [Parse.term] at hRun
    obtain ⟨us, us', vs, left, d, d', rfl, hSpells', hLeft, hChain, hDepth⟩ :=
      chained_sound productOperator?_eq_some.1 ProductSign.ne_eof
        (exponent_sound room (.term :: rules)) hSpells hRun
    exact ⟨us ++ us', vs, max d d' + 1, rfl, hSpells', .chain hLeft hChain, by omega⟩

theorem exponent_sound (room : Nat) (rules : List Rule) :
    Sound Exponent room (Parse.exponent room rules) := by
  intro c ts f c' hSpells hRun
  cases room with
  | zero => cases hRun
  | succ room =>
    rw [Parse.exponent] at hRun
    split at hRun
    · cases hRun
    · next base c₁ hBase =>
      have hFactor := factor_sound room (.exponent :: rules)
      obtain ⟨us, vs, d, rfl, hSpells₁, hDerives, hDepth⟩ := hFactor hSpells hBase
      obtain ⟨us', vs, e, d', rfl, hSpells₂, hExponent, hDepth', rfl⟩ :=
        powers_sound hFactor hDerives hDepth hSpells₁ hRun
      exact ⟨us ++ us', vs, d', by simp, hSpells₂, hExponent, hDepth'⟩

theorem factor_sound (room : Nat) (rules : List Rule) :
    Sound Factor room (Parse.factor room rules) := by
  intro c ts f c' hSpells hRun
  cases room with
  | zero => cases hRun
  | succ room =>
    rw [Parse.factor] at hRun
    obtain ⟨us, vs, rfl, hSpells₁, hSigns⟩ := signs_sound c.bound [] hSpells
    generalize signs c.bound [] c = signed at hRun hSpells₁ hSigns
    obtain ⟨before, c₀⟩ := signed
    simp only at hRun
    split at hRun
    · cases hRun
    · next g c₁ hAtom =>
      cases hRun
      obtain ⟨ws, vs, d, rfl, hSpells₂, hDerives, hDepth⟩ :=
        atom_sound (expression_sound room (.factor :: rules))
          (parameters_sound room (.factor :: rules)) (.factor :: rules) hSpells₁ hAtom
      obtain ⟨f, hFactor, hEq⟩ := hSigns hDerives
      exact ⟨us ++ ws, vs, d, by simp, hSpells₂, by rw [hEq]; exact hFactor, hDepth⟩

theorem parameters_sound (room : Nat) (rules : List Rule) :
    Sound Parameters room (Parse.parameters room rules) := by
  intro c ts ps c' hSpells hRun
  cases room with
  | zero => cases hRun
  | succ room =>
    rw [Parse.parameters] at hRun
    split at hRun
    · cases hRun
      exact ⟨[], ts, 1, rfl, hSpells, .none, by omega⟩
    · split at hRun
      · cases hRun
      · next p c₁ hHead =>
        have hExpression := expression_sound room (.parameters :: rules)
        obtain ⟨us, vs, d, rfl, hSpells₁, hDerives, hDepth⟩ := hExpression hSpells hHead
        obtain ⟨us', vs, qs, d', rfl, hSpells₂, hCommas, hDepth', rfl⟩ :=
          moreParameters_sound hExpression hSpells₁ hRun
        exact ⟨us ++ us', vs, max d d' + 1, by simp, hSpells₂, .some hDerives hCommas, by omega⟩

end

end Reckon.Grammar
