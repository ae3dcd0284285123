import Mathlib
import Reckon.Proofs.Number

/-!
# Reckon — cursors that are moved on

* `Cursor.Scanned` — cursors as reading a token leaves them. Moving on keeps
  this, and at the end of the source it changes nothing;
* `Cursor.ahead` — the cursor some tokens ahead;
* `Cursor.Scanned.tokens_ahead` — what is ahead are the tokens without the
  first ones, but never without the end token.
-/

namespace Reckon.Cursor

/-! ## Scanned cursors -/

/-- A cursor on the first token of a text that ends where the source does. -/
def Scanned (c : Cursor) : Prop :=
  ∃ chars offset, offset + byteLength chars = c.size ∧ c = scan chars offset c.size

theorem scanned_scan {chars : List Char} {offset size : Nat}
    (h : offset + byteLength chars = size) : (scan chars offset size).Scanned := by
  have hSize := (scan_placed h).2.2
  exact ⟨chars, offset, by rw [hSize, h], by rw [hSize]⟩

theorem scanned_ofString (source : String) : (ofString source).Scanned :=
  scanned_scan (by rw [utf8ByteSize_eq, Nat.zero_add])

namespace Scanned

variable {c : Cursor}

theorem placed (h : c.Scanned) : c.Placed := by
  obtain ⟨chars, offset, hSize, hScan⟩ := h
  rw [hScan]
  exact (scan_placed hSize).1

theorem advance (h : c.Scanned) : c.advance.Scanned :=
  scanned_scan h.placed.size_eq

/-- Every number can be read. -/
theorem read (h : c.Scanned) (hKind : c.kind = .number) :
    ∃ literal, Number.read (c.current.lexeme.getD "") = .ok literal := by
  obtain ⟨chars, offset, -, hScan⟩ := h
  rw [hScan] at hKind ⊢
  exact scan_number chars offset c.size hKind

theorem size_advance (h : c.Scanned) : c.advance.size = c.size :=
  (scan_placed h.placed.size_eq).2.2

/-- At the end there is nothing left. -/
theorem eq_end (h : c.Scanned) (hKind : c.kind = .eof) :
    c = ⟨⟨.eof, none, ⟨c.size, c.size⟩⟩, [], c.size, c.size⟩ := by
  obtain ⟨chars, offset, hSize, hScan⟩ := h
  rcases scan_cases chars offset c.size with ⟨-, hEnd⟩ | ⟨t, gap, text, rest, -, hCut, hToken⟩
  · rw [hEnd, hSize] at hScan
    exact hScan
  · rw [hScan, hToken] at hKind
    exact absurd hKind hCut.shape.kind_ne_eof

theorem advance_of_eof (h : c.Scanned) (hKind : c.kind = .eof) : c.advance = c := by
  rw [h.eq_end hKind]
  rfl

theorem bound_of_eof (h : c.Scanned) (hKind : c.kind = .eof) : c.bound = 0 := by
  have hStart : c.current.span.start = c.size :=
    congrArg (fun c : Cursor => c.current.span.start) (h.eq_end hKind)
  rw [bound, hStart, Nat.sub_self]

theorem kind_of_bound (h : c.Scanned) (hBound : c.bound = 0) : c.kind = .eof := by
  by_contra hKind
  have hLt := h.placed.bound_advance_lt hKind
  omega

/-- A round that takes a token leaves enough rounds for the others. -/
theorem bound_advance_le (h : c.Scanned) {n : Nat} (hn : c.bound ≤ n) :
    c.advance.bound ≤ n - 1 := by
  by_cases hKind : c.kind = .eof
  · rw [h.advance_of_eof hKind, h.bound_of_eof hKind]
    exact Nat.zero_le _
  · have hLt := h.placed.bound_advance_lt hKind
    omega

end Scanned

/-! ## Looking ahead -/

/-- The cursor `k` tokens ahead. -/
def ahead (c : Cursor) (k : Nat) : Cursor :=
  advance^[k] c

theorem ahead_zero (c : Cursor) : c.ahead 0 = c := rfl

theorem ahead_succ (c : Cursor) (k : Nat) : c.ahead (k + 1) = c.advance.ahead k := rfl

theorem ahead_ahead (c : Cursor) (k m : Nat) : (c.ahead k).ahead m = c.ahead (k + m) := by
  rw [ahead, ahead, ahead, ← Function.iterate_add_apply, Nat.add_comm]

theorem Scanned.ahead {c : Cursor} (h : c.Scanned) (k : Nat) : (c.ahead k).Scanned := by
  induction k generalizing c with
  | zero => exact h
  | succ k ih => exact ih h.advance

theorem Scanned.size_ahead {c : Cursor} (h : c.Scanned) (k : Nat) : (c.ahead k).size = c.size := by
  induction k generalizing c with
  | zero => rfl
  | succ k ih => rw [ahead_succ, ih h.advance, h.size_advance]

theorem Scanned.ahead_of_eof {c : Cursor} (h : c.Scanned) (hKind : c.kind = .eof) (k : Nat) :
    c.ahead k = c := by
  induction k with
  | zero => rfl
  | succ k ih => rw [ahead_succ, h.advance_of_eof hKind, ih]

theorem Scanned.bound_ahead_le {c : Cursor} (h : c.Scanned) (k : Nat) :
    (c.ahead k).bound ≤ c.bound := by
  induction k generalizing c with
  | zero => exact Nat.le_refl _
  | succ k ih =>
    have hNext := h.bound_advance_le (Nat.le_refl _)
    have hAhead := ih h.advance
    rw [ahead_succ]
    omega

/-! ## Tokens ahead -/

theorem tokensUpTo_of_eof {c : Cursor} (hKind : c.kind = .eof) (n : Nat) :
    tokensUpTo n c = [c.current] := by
  cases n with
  | zero => rfl
  | succ n => rw [tokensUpTo, if_pos hKind]

/-- More rounds than there are tokens make no difference. -/
theorem Scanned.tokensUpTo_eq {c : Cursor} (h : c.Scanned) {n m : Nat} (hn : c.bound ≤ n)
    (hm : c.bound ≤ m) : tokensUpTo n c = tokensUpTo m c := by
  induction n generalizing c m with
  | zero =>
    have hKind := h.kind_of_bound (Nat.le_zero.1 hn)
    rw [tokensUpTo_of_eof hKind, tokensUpTo_of_eof hKind]
  | succ n ih =>
    by_cases hKind : c.kind = .eof
    · rw [tokensUpTo_of_eof hKind, tokensUpTo_of_eof hKind]
    · have hLt := h.placed.bound_advance_lt hKind
      obtain ⟨m, rfl⟩ : ∃ m', m = m' + 1 := ⟨m - 1, by omega⟩
      have hRest : tokensUpTo n c.advance = tokensUpTo m c.advance :=
        ih h.advance (by omega) (by omega)
      rw [tokensUpTo, tokensUpTo, if_neg hKind, if_neg hKind, hRest]

theorem tokens_of_eof {c : Cursor} (hKind : c.kind = .eof) : c.tokens = [c.current] :=
  tokensUpTo_of_eof hKind c.bound

theorem Scanned.tokens_of_ne_eof {c : Cursor} (h : c.Scanned) (hKind : c.kind ≠ .eof) :
    c.tokens = c.current :: c.advance.tokens := by
  have hLt := h.placed.bound_advance_lt hKind
  rw [tokens, tokens, h.tokensUpTo_eq (Nat.le_refl _) (Nat.le_succ c.bound), tokensUpTo,
    if_neg hKind, h.advance.tokensUpTo_eq (Nat.le_of_lt hLt) (Nat.le_refl _)]

/-- How many tokens stand in front of the end token. -/
def last (c : Cursor) : Nat :=
  c.tokens.findIdx fun t => t.kind == .eof

theorem last_of_eof {c : Cursor} (hKind : c.kind = .eof) : c.last = 0 := by
  have hEnd : c.current.kind = .eof := hKind
  simp [last, tokens_of_eof hKind, List.findIdx_cons, hEnd]

theorem Scanned.last_of_ne_eof {c : Cursor} (h : c.Scanned) (hKind : c.kind ≠ .eof) :
    c.last = c.advance.last + 1 := by
  have hNot : (c.current.kind == .eof) = false := beq_eq_false_iff_ne.2 hKind
  rw [last, h.tokens_of_ne_eof hKind, List.findIdx_cons, hNot]
  rfl

/-- The tokens that are ahead. -/
theorem Scanned.tokens_ahead {c : Cursor} (h : c.Scanned) (k : Nat) :
    (c.ahead k).tokens = c.tokens.drop (min k c.last) := by
  induction k generalizing c with
  | zero => rw [Nat.zero_min, List.drop_zero, ahead_zero]
  | succ k ih =>
    by_cases hKind : c.kind = .eof
    · rw [h.ahead_of_eof hKind, last_of_eof hKind, Nat.min_zero, List.drop_zero]
    · rw [ahead_succ, ih h.advance, h.last_of_ne_eof hKind, h.tokens_of_ne_eof hKind,
        Nat.succ_min_succ, List.drop_succ_cons]

theorem Scanned.head?_tokens {c : Cursor} (h : c.Scanned) : c.tokens.head? = some c.current := by
  by_cases hKind : c.kind = .eof
  · rw [tokens_of_eof hKind, List.head?_cons]
  · rw [h.tokens_of_ne_eof hKind, List.head?_cons]

/-- The end token is the last one. -/
theorem Scanned.kind_ahead_last {c : Cursor} (h : c.Scanned) :
    (c.ahead c.last).kind = .eof ∧ c.tokens.length = c.last + 1 := by
  induction hBound : c.bound using Nat.strong_induction_on generalizing c with
  | _ n ih =>
    by_cases hKind : c.kind = .eof
    · rw [last_of_eof hKind, tokens_of_eof hKind]
      exact ⟨hKind, rfl⟩
    · have hLt := h.placed.bound_advance_lt hKind
      obtain ⟨hEnd, hLength⟩ := ih c.advance.bound (by omega) h.advance rfl
      rw [h.last_of_ne_eof hKind, h.tokens_of_ne_eof hKind, List.length_cons, hLength]
      exact ⟨hEnd, rfl⟩

/-- The token that is `k` tokens ahead. -/
theorem Scanned.getElem?_tokens {c : Cursor} (h : c.Scanned) (k : Nat) :
    c.tokens[min k c.last]? = some (c.ahead k).current := by
  rw [← List.head?_drop, ← h.tokens_ahead, (h.ahead k).head?_tokens]

/-- The end token has a single place, the last one. -/
theorem Scanned.kind_eq_eof_iff {c : Cursor} (h : c.Scanned) {i : Nat} {t : Token}
    (hToken : c.tokens[i]? = some t) : t.kind = .eof ↔ i = c.last := by
  obtain ⟨hEnd, hLength⟩ := h.kind_ahead_last
  constructor
  · intro hKind
    obtain ⟨hLt, rfl⟩ := List.getElem?_eq_some_iff.1 hToken
    have hNotBefore : ¬ i < c.last := by
      intro hBefore
      have hNot := List.not_of_lt_findIdx hBefore
      rw [beq_eq_false_iff_ne] at hNot
      exact hNot hKind
    omega
  · rintro rfl
    have hLast := h.getElem?_tokens c.last
    rw [Nat.min_self, hToken] at hLast
    cases hLast
    exact hEnd

/-- What is ahead of a token that has a place. -/
theorem Scanned.current_ahead {c : Cursor} (h : c.Scanned) {k : Nat} {t : Token}
    (ht : c.tokens[k]? = some t) : k ≤ c.last ∧ (c.ahead k).current = t := by
  obtain ⟨hLt, -⟩ := List.getElem?_eq_some_iff.1 ht
  have hLast : k ≤ c.last := by
    rw [h.kind_ahead_last.2] at hLt
    omega
  have hAhead := h.getElem?_tokens k
  rw [Nat.min_eq_left hLast, ht] at hAhead
  exact ⟨hLast, (Option.some.inj hAhead).symm⟩

/-- There is nothing ahead of the end. -/
theorem Scanned.ahead_eq {c : Cursor} (h : c.Scanned) {j k : Nat} (hKind : (c.ahead j).kind = .eof)
    (hjk : j ≤ k) : c.ahead k = c.ahead j := by
  obtain ⟨m, rfl⟩ := Nat.exists_eq_add_of_le hjk
  rw [← ahead_ahead, (h.ahead j).ahead_of_eof hKind]

end Reckon.Cursor
