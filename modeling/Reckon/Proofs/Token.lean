import Mathlib
import Reckon.Token.Cursor

/-!
# Reckon — what a cursor spells

A cursor on a source spells the tokens from its position up to the end of the
source. Everything the reading of formulas needs to know of cursors is in this
relation:

* `Cursor.Spells` — the tokens that a cursor spells, the end token left out;
  every step forward lowers `Cursor.bound`, so the bound covers the tokens;
* `spells_tokens` — a source spells its token table without the end token.
-/

namespace Reckon

/-! ## Bytes -/

theorem foldl_utf8Size (n : Nat) (chars : List Char) :
    chars.foldl (fun n c => n + c.utf8Size) n = n + byteLength chars := by
  unfold byteLength
  induction chars generalizing n with
  | nil => simp
  | cons c rest ih =>
    rw [List.foldl_cons, List.foldl_cons, ih, ih (0 + c.utf8Size)]
    omega

theorem byteLength_cons (c : Char) (rest : List Char) :
    byteLength (c :: rest) = c.utf8Size + byteLength rest := by
  unfold byteLength
  rw [List.foldl_cons, foldl_utf8Size, Nat.zero_add]
  rfl

theorem byteLength_append (first second : List Char) :
    byteLength (first ++ second) = byteLength first + byteLength second := by
  unfold byteLength
  rw [List.foldl_append, foldl_utf8Size]
  rfl

theorem utf8ByteSize_eq (source : String) : source.utf8ByteSize = byteLength source.toList := by
  have hLen : ∀ chars : List Char, String.utf8Len chars = byteLength chars := by
    intro chars
    induction chars with
    | nil => rfl
    | cons c rest ih => rw [byteLength_cons, String.utf8Len_cons, ih, Nat.add_comm]
  rw [← hLen, ← String.utf8ByteSize_ofList, String.ofList_toList]

/-! ## One token -/

theorem skipBlanks_bytes (chars : List Char) (offset : Nat) :
    offset ≤ (skipBlanks chars offset).2 ∧
      (skipBlanks chars offset).2 + byteLength (skipBlanks chars offset).1 =
        offset + byteLength chars := by
  fun_induction skipBlanks chars offset with
  | case1 offset => simp
  | case2 c rest offset hBlank ih =>
    rw [byteLength_cons]
    omega
  | case3 c rest offset hBlank => simp

theorem TokenKind.utf8Size_sign {c : Char} {kind : TokenKind} (h : ofSign? c = some kind) :
    c.utf8Size = 1 := by
  unfold ofSign? at h
  split at h <;> cases h <;> decide

theorem spanNumber_append (chars : List Char) :
    (spanNumber chars).1 ++ (spanNumber chars).2 = chars := by
  unfold spanNumber
  split
  · next rest hRest =>
    rw [List.append_assoc, List.cons_append, List.takeWhile_append_dropWhile, ← hRest,
      List.takeWhile_append_dropWhile]
  · exact List.takeWhile_append_dropWhile

/-- A token whose text matters starts with the character it was found at, and
what is left of the text follows it. -/
theorem spanLexeme_eq (c : Char) (rest : List Char) :
    (spanLexeme c rest).1 ≠ .eof ∧
      ∃ more, (spanLexeme c rest).2.1 = c :: more ∧ more ++ (spanLexeme c rest).2.2 = rest := by
  unfold spanLexeme
  split
  · next hDigit =>
    refine ⟨by simp, ?_⟩
    have hAppend := spanNumber_append (c :: rest)
    cases hLexeme : (spanNumber (c :: rest)).1 with
    | nil =>
      -- the run of digits at least takes `c`
      unfold spanNumber at hLexeme
      split at hLexeme <;> simp [hDigit] at hLexeme
    | cons d more =>
      rw [hLexeme, List.cons_append, List.cons.injEq] at hAppend
      exact ⟨more, by rw [hAppend.1], hAppend.2⟩
  · split
    · next hStart =>
      have hRest : isIdentifierRest c = true := by simp [isIdentifierRest, hStart]
      refine ⟨by simp, rest.takeWhile isIdentifierRest, ?_, ?_⟩
      · simp [spanIdentifier, hRest]
      · simp [spanIdentifier, hRest]
    · exact ⟨by simp, [], rfl, rfl⟩

namespace Cursor

/-- A cursor knows where it stands: the text behind its token makes up the rest
of the source, and every token but the end takes up bytes. -/
structure Placed (c : Cursor) : Prop where
  size_eq : c.offset + byteLength c.rest = c.size
  start_lt : c.kind ≠ .eof → c.current.span.start < c.offset

theorem scan_placed {chars : List Char} {offset size : Nat}
    (h : offset + byteLength chars = size) :
    (scan chars offset size).Placed ∧ offset ≤ (scan chars offset size).current.span.start ∧
      (scan chars offset size).size = size := by
  obtain ⟨hStart, hBytes⟩ := skipBlanks_bytes chars offset
  unfold scan
  generalize skipBlanks chars offset = skipped at hStart hBytes
  obtain ⟨chars', start⟩ := skipped
  cases chars' with
  | nil =>
    refine ⟨⟨?_, fun hKind => absurd rfl hKind⟩, hStart, rfl⟩
    exact hBytes.trans h
  | cons c rest =>
    rw [byteLength_cons] at hBytes
    simp only
    cases hSign : TokenKind.ofSign? c with
    | some kind =>
      have hSize := TokenKind.utf8Size_sign hSign
      refine ⟨⟨?_, fun _ => Nat.lt_succ_self start⟩, hStart, rfl⟩
      simp only at hBytes ⊢
      omega
    | none =>
      obtain ⟨-, more, hLexeme, hRest⟩ := spanLexeme_eq c rest
      generalize spanLexeme c rest = found at hLexeme hRest
      obtain ⟨kind, lexeme, rest'⟩ := found
      have hPos : 0 < c.utf8Size := c.utf8Size_pos
      simp only at hLexeme hRest hBytes ⊢
      subst hLexeme hRest
      rw [byteLength_append] at hBytes
      refine ⟨⟨?_, fun _ => ?_⟩, hStart, trivial⟩
      · simp only [byteLength_cons]
        omega
      · simp only [byteLength_cons]
        omega

theorem ofString_placed (source : String) : (ofString source).Placed :=
  (scan_placed (by rw [utf8ByteSize_eq, Nat.zero_add])).1

theorem Placed.advance {c : Cursor} (h : c.Placed) : c.advance.Placed :=
  (scan_placed h.size_eq).1

/-- Moving on lowers the bound. -/
theorem Placed.bound_advance_lt {c : Cursor} (h : c.Placed) (hKind : c.kind ≠ .eof) :
    c.advance.bound < c.bound := by
  obtain ⟨-, hNext, hSize⟩ := scan_placed h.size_eq
  have hStart := h.start_lt hKind
  have hTotal := h.size_eq
  change c.offset ≤ c.advance.current.span.start at hNext
  change c.advance.size = c.size at hSize
  unfold bound
  omega

/-! ## All tokens -/

/-- The tokens from the cursor on, the end token left out. -/
inductive Spells : Cursor → List Token → Prop
  | stop {c : Cursor} (hKind : c.kind = .eof) : Spells c []
  | next {c : Cursor} {ts : List Token} (hKind : c.kind ≠ .eof)
      (hBound : c.advance.bound < c.bound) (hNext : Spells c.advance ts) :
      Spells c (c.current :: ts)

/-- The kind of the first token, or of the end if there is none. -/
def headKind : List Token → TokenKind
  | [] => .eof
  | t :: _ => t.kind

theorem Spells.kind_eq {c : Cursor} {ts : List Token} (h : c.Spells ts) : c.kind = headKind ts := by
  cases h with
  | stop hKind => exact hKind
  | next _ _ _ => rfl

theorem Spells.tail {c : Cursor} {t : Token} {ts : List Token} (h : c.Spells (t :: ts)) :
    c.current = t ∧ c.advance.Spells ts := by
  cases h with
  | next _ _ hNext => exact ⟨rfl, hNext⟩

theorem Spells.exists_cons {c : Cursor} {ts : List Token} (h : c.Spells ts)
    (hKind : c.kind ≠ .eof) : ∃ us, ts = c.current :: us ∧ c.advance.Spells us := by
  cases h with
  | stop hEnd => exact absurd hEnd hKind
  | next _ _ hNext => exact ⟨_, rfl, hNext⟩

theorem Spells.consume?_eq {c : Cursor} {ts : List Token} (h : c.Spells ts) (kind : TokenKind) :
    c.consume? kind = if headKind ts = kind then some c.advance else none := by
  rw [consume?, h.kind_eq]

/-- The loops of the grammar run out of tokens before they run out of rounds. -/
theorem Spells.length_le_bound {c : Cursor} {ts : List Token} (h : c.Spells ts) :
    ts.length ≤ c.bound := by
  induction h with
  | stop _ => exact Nat.zero_le _
  | next _ hBound _ ih =>
    rw [List.length_cons]
    omega

theorem tokensUpTo_ne_nil (n : Nat) (c : Cursor) : tokensUpTo n c ≠ [] := by
  cases n with
  | zero => simp [tokensUpTo]
  | succ n =>
    rw [tokensUpTo]
    split <;> simp

theorem Placed.spells {c : Cursor} (h : c.Placed) {n : Nat} (hn : c.bound ≤ n) :
    c.Spells (tokensUpTo n c).dropLast := by
  induction n generalizing c with
  | zero =>
    -- only the end token takes up no bytes
    by_cases hKind : c.kind = .eof
    · exact .stop hKind
    · have := h.bound_advance_lt hKind
      omega
  | succ n ih =>
    rw [tokensUpTo]
    by_cases hKind : c.kind = .eof
    · rw [if_pos hKind]
      exact .stop hKind
    · have hBound := h.bound_advance_lt hKind
      rw [if_neg hKind, List.dropLast_cons_of_ne_nil (tokensUpTo_ne_nil n c.advance)]
      exact .next hKind hBound (ih h.advance (by omega))

end Cursor

/-- A source spells its tokens. -/
theorem spells_tokens (source : String) :
    (Cursor.ofString source).Spells (tokens source).dropLast :=
  (Cursor.ofString_placed source).spells (Nat.le_refl _)

end Reckon
