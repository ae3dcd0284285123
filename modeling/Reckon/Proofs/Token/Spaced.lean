import Mathlib
import Reckon.Proofs.Lookahead

/-!
# Reckon — texts that are written token by token

How a source is shared out among tokens says what its tokens are, so a source
can be written for tokens that are given:

* `Cursor.scan_of_cut` — a token is read wherever one can be cut off;
* `tokens_of_covers` — so there is one way only to make up a source of tokens
  and the blanks between them;
* `Spaced` — texts of tokens that are kept apart by blanks. They are read as
  these tokens, whatever the blanks and wherever the tokens stand
  (`Spaced.exists_covers`);
* `exists_source` — all tokens that have a text are tokens of a source.
-/

namespace Reckon

/-! ## Reading one token -/

/-- A run that takes the first part of a text and stops before the second. -/
theorem span_append (p : Char → Bool) (chars rest : List Char)
    (hAll : ∀ c ∈ chars, p c = true) (hEnd : ∀ c ∈ rest.head?, p c = false) :
    (chars ++ rest).takeWhile p = chars ∧ (chars ++ rest).dropWhile p = rest := by
  rw [List.takeWhile_append_of_pos hAll, List.dropWhile_append_of_pos hAll]
  cases rest with
  | nil => exact ⟨List.append_nil chars, rfl⟩
  | cons c rest =>
    have hStop : ¬ p c = true := by simp [hEnd c rfl]
    rw [List.takeWhile_cons_of_neg hStop, List.dropWhile_cons_of_neg hStop, List.append_nil]
    exact ⟨rfl, rfl⟩

theorem ofSign?_eq_none {c : Char} (h : c.isDigit = true ∨ isIdentifierStart c = true) :
    TokenKind.ofSign? c = none := by
  have hSigns : ∀ p ∈ signs, p.1.isDigit = false ∧ isIdentifierStart p.1 = false := by decide
  rw [Option.eq_none_iff_forall_ne_some]
  intro kind hKind
  obtain ⟨hDigit, hStart⟩ := hSigns _ (ofSign?_eq_some_iff.1 hKind)
  simp [hDigit, hStart] at h

theorem IsWordStart.isDigit {c : Char} (h : IsWordStart c) : c.isDigit = false := by
  rw [Bool.eq_false_iff, Ne, isDigit_iff]
  rintro ⟨hLow, hHigh⟩
  rcases h with h | h | h
  · exact absurd (le_trans h.1 hHigh) (by decide)
  · exact absurd (le_trans h.1 hHigh) (by decide)
  · simp only [List.mem_cons, List.not_mem_nil, or_false] at h
    rcases h with rfl | rfl | rfl | rfl
    · exact absurd hHigh (by decide)
    · exact absurd hHigh (by decide)
    · exact absurd hLow (by decide)
    · exact absurd hLow (by decide)

theorem keeps_of_sign {c : Char} {kind : TokenKind} (h : (c, kind) ∈ signs) (text : String) :
    kind.keeps text = none := by
  have hSigns : ∀ p ∈ signs, p.2 ≠ .identifier ∧ p.2 ≠ .number ∧ p.2 ≠ .unknown := by decide
  obtain ⟨hIdentifier, hNumber, hUnknown⟩ := hSigns _ h
  unfold TokenKind.keeps
  split <;> simp_all

/-- Digits are read up to the first other character. -/
theorem spanNumber_whole {digits rest : List Char} (hDigits : ∀ d ∈ digits, IsDigit d)
    (hEnd : ∀ d ∈ rest.head?, ¬ Token.GoesOn .number digits d) :
    spanNumber (digits ++ rest) = (digits, rest) := by
  have hPoint : '.' ∉ digits := fun hMem => absurd (hDigits _ hMem).1 (by decide)
  obtain ⟨hTake, hDrop⟩ := span_append Char.isDigit digits rest
    (fun d hd => isDigit_iff.2 (hDigits d hd))
    (fun d hd => Bool.eq_false_iff.2 fun hIs => hEnd d hd (Or.inl (isDigit_iff.1 hIs)))
  unfold spanNumber
  rw [hTake, hDrop]
  split
  -- the digits have no point yet, so one that follows would go on with them
  · exact absurd (Or.inr ⟨rfl, hPoint⟩) (hEnd '.' rfl)
  · rfl

/-- Behind a point, digits are read once more. -/
theorem spanNumber_fraction {digits places rest : List Char} (hDigits : ∀ d ∈ digits, IsDigit d)
    (hPlaces : ∀ d ∈ places, IsDigit d)
    (hEnd : ∀ d ∈ rest.head?, ¬ Token.GoesOn .number (digits ++ '.' :: places) d) :
    spanNumber (digits ++ '.' :: (places ++ rest)) = (digits ++ '.' :: places, rest) := by
  obtain ⟨hTake, hDrop⟩ := span_append Char.isDigit digits ('.' :: (places ++ rest))
    (fun d hd => isDigit_iff.2 (hDigits d hd)) (by simp)
  obtain ⟨hTake', hDrop'⟩ := span_append Char.isDigit places rest
    (fun d hd => isDigit_iff.2 (hPlaces d hd))
    (fun d hd => Bool.eq_false_iff.2 fun hIs => hEnd d hd (Or.inl (isDigit_iff.1 hIs)))
  simp only [spanNumber, hTake, hDrop, hTake', hDrop']

/-- A text of a kind, in front of nothing that belongs to it, is read as a whole. -/
theorem Token.Shape.read {kind : TokenKind} {text rest : List Char} (h : Token.Shape kind text)
    (hEnd : ∀ d ∈ rest.head?, ¬ Token.GoesOn kind text d) :
    ∃ c more, text = c :: more ∧
      ((TokenKind.ofSign? c = some kind ∧ more = [] ∧ ∀ s, kind.keeps s = none) ∨
        (TokenKind.ofSign? c = none ∧ spanLexeme c (more ++ rest) = (kind, text, rest) ∧
          ∀ s, kind.keeps s = some s)) := by
  -- both ways to write a number start with a digit, and are told apart behind the digits
  have hNumber : ∀ digits more : List Char, digits ≠ [] → (∀ d ∈ digits, IsDigit d) →
      spanNumber (digits ++ more ++ rest) = (digits ++ more, rest) →
      ∃ c tail, digits ++ more = c :: tail ∧ TokenKind.ofSign? c = none ∧
        spanLexeme c (tail ++ rest) = (.number, digits ++ more, rest) := by
    intro digits more hNonempty hDigits hSpan
    obtain ⟨c, tail, rfl⟩ := List.exists_cons_of_ne_nil hNonempty
    have hDigit := isDigit_iff.2 (hDigits c (List.mem_cons_self ..))
    refine ⟨c, tail ++ more, rfl, ofSign?_eq_none (Or.inl hDigit), ?_⟩
    rw [spanLexeme, if_pos hDigit]
    exact congrArg (Prod.mk TokenKind.number) hSpan
  cases h with
  | @sign c kind hSign =>
    exact ⟨c, [], rfl, Or.inl ⟨ofSign?_eq_some_iff.2 hSign, rfl, keeps_of_sign hSign⟩⟩
  | @identifier c more hStart hRest =>
    have hStart' := isIdentifierStart_iff.2 hStart
    obtain ⟨hTake, hDrop⟩ := span_append isIdentifierRest (c :: more) rest
      (List.forall_mem_cons.2 ⟨isIdentifierRest_iff.2 (Or.inl hStart),
        fun d hd => isIdentifierRest_iff.2 (hRest d hd)⟩)
      (fun d hd => Bool.eq_false_iff.2 fun hIs => hEnd d hd (isIdentifierRest_iff.1 hIs))
    refine ⟨c, more, rfl, Or.inr ⟨ofSign?_eq_none (Or.inr hStart'), ?_, fun _ => rfl⟩⟩
    rw [spanLexeme, if_neg (by simp [hStart.isDigit]), if_pos hStart', spanIdentifier,
      ← List.cons_append, hTake, hDrop]
  | whole hNonempty hDigits =>
    obtain ⟨c, tail, hText, hSign, hSpan⟩ := hNumber _ [] hNonempty hDigits
      (by simpa using spanNumber_whole hDigits hEnd)
    rw [List.append_nil] at hText hSpan
    exact ⟨c, tail, hText, Or.inr ⟨hSign, hSpan, fun _ => rfl⟩⟩
  | @fraction digits places hNonempty hDigits hPlaces =>
    obtain ⟨c, tail, hText, hSign, hSpan⟩ := hNumber digits ('.' :: places) hNonempty hDigits
      (by simpa using spanNumber_fraction hDigits hPlaces hEnd)
    exact ⟨c, tail, hText, Or.inr ⟨hSign, hSpan, fun _ => rfl⟩⟩
  | @unknown c hBlank hSign hDigit hStart =>
    have hNone : TokenKind.ofSign? c = none :=
      Option.eq_none_iff_forall_ne_some.2 fun kind hKind =>
        hSign kind (ofSign?_eq_some_iff.1 hKind)
    refine ⟨c, [], rfl, Or.inr ⟨hNone, ?_, fun _ => rfl⟩⟩
    rw [spanLexeme, if_neg (mt isDigit_iff.1 hDigit), if_neg (mt isIdentifierStart_iff.1 hStart)]
    rfl

namespace Cursor

/-- A token is read wherever one can be cut off. -/
theorem scan_of_cut {t : Token} {offset : Nat} {gap text rest : List Char}
    (h : t.Cut offset gap text rest) (size : Nat) :
    scan (gap ++ (text ++ rest)) offset size = ⟨t, rest, t.span.stop, size⟩ := by
  obtain ⟨c, more, rfl, hRead⟩ := h.shape.read h.maximal
  have hFirst := h.shape.isBlank c (List.mem_cons_self ..)
  obtain ⟨hTake, hDrop⟩ := span_append Text.isBlank gap (c :: more ++ rest) h.blank
    (by simpa using hFirst)
  have hSkip : skipBlanks (gap ++ (c :: more ++ rest)) offset =
      (c :: (more ++ rest), t.span.start) := by
    rw [skipBlanks_eq, hTake, hDrop, h.start_eq, List.cons_append]
  -- the token is what its gap and its text make it
  have hStop := h.stop_eq
  have hLexeme := h.lexeme_eq
  obtain ⟨kind, lexeme, ⟨start, stop⟩⟩ := t
  dsimp only at hSkip hStop hLexeme hRead ⊢
  subst hLexeme hStop
  simp only [scan, hSkip]
  rcases hRead with ⟨hSign, rfl, hKeeps⟩ | ⟨hSign, hSpan, hKeeps⟩
  · have hSize := TokenKind.utf8Size_sign hSign
    simp [hSign, hKeeps, byteLength, hSize]
  · simp only [hSign, hSpan, hKeeps]

/-- The tokens that make up a text are the ones that are read. -/
theorem tokens_scan_of_covers {offset size : Nat} {chars : List Char} {ts : List Token}
    (h : Covers offset chars ts) (hSize : offset + byteLength chars = size) :
    (scan chars offset size).tokens = ts := by
  induction h with
  | @stop offset gap hBlank =>
    rcases scan_cases gap offset size with ⟨-, hScan⟩ | ⟨t, gap', text, rest, rfl, hCut, -⟩
    · rw [hScan]
      exact tokens_of_eof rfl
    · -- the text of a token is no blank
      obtain ⟨c, more, rfl⟩ := List.exists_cons_of_ne_nil hCut.shape.ne_nil
      have hNot := hCut.shape.isBlank c (List.mem_cons_self ..)
      rw [hBlank c (by simp)] at hNot
      cases hNot
  | @next offset t gap text rest ts hCut hRest ih =>
    have hScanned := scanned_scan hSize
    have hEnd : t.span.stop + byteLength rest = size := by
      rw [← hSize, hCut.stop_eq, hCut.start_eq, byteLength_append, byteLength_append]
      omega
    rw [scan_of_cut hCut] at hScanned ⊢
    rw [hScanned.tokens_of_ne_eof hCut.shape.kind_ne_eof]
    exact congrArg (t :: ·) (ih hEnd)

end Cursor

/-- There is one way only to make up a source of tokens and the blanks between
them. -/
theorem tokens_of_covers {source : String} {ts : List Token} (h : Covers 0 source.toList ts) :
    tokens source = ts :=
  Cursor.tokens_scan_of_covers h (by rw [utf8ByteSize_eq, Nat.zero_add])

/-! ## Tokens kept apart by blanks -/

/-- The text is a way to write the token. -/
def Token.Writes (t : Token) (text : List Char) : Prop :=
  Token.Shape t.kind text ∧ t.lexeme = t.kind.keeps (String.ofList text)

/-- The tokens are written one after the other, each in front of a blank or the
end. -/
inductive Spaced : List Token → List Char → Prop
  | stop {gap : List Char} (hBlank : ∀ c ∈ gap, Text.isBlank c = true) : Spaced [] gap
  | next {t : Token} {gap text rest : List Char} {ts : List Token}
      (hBlank : ∀ c ∈ gap, Text.isBlank c = true) (hWrites : t.Writes text)
      (hApart : ∀ c ∈ rest.head?, Text.isBlank c = true) (hRest : Spaced ts rest) :
      Spaced (t :: ts) (gap ++ (text ++ rest))

/-- No token goes on with a blank. -/
theorem Token.not_goesOn {kind : TokenKind} {text : List Char} {c : Char}
    (h : Text.isBlank c = true) : ¬ Token.GoesOn kind text c := by
  have hDigit : ¬ IsDigit c := fun hIs => absurd h (by simp [hIs.isBlank])
  have hWord : ¬ IsWordRest c := fun hIs => absurd h (by simp [hIs.isBlank])
  unfold Token.GoesOn
  split
  · exact hWord
  · rintro (hIs | ⟨rfl, -⟩)
    · exact hDigit hIs
    · exact absurd h (by decide)
  · exact id

/-- Tokens that are kept apart are tokens of the text, wherever it starts. -/
theorem Spaced.exists_covers {ts : List Token} {chars : List Char} (h : Spaced ts chars)
    (offset : Nat) : ∃ us e, Covers offset chars (us ++ [e]) ∧ List.Forall₂ Token.Alike ts us := by
  induction h generalizing offset with
  | stop hBlank => exact ⟨[], _, .stop hBlank, .nil⟩
  | @next t gap text rest ts hBlank hWrites hApart hRest ih =>
    obtain ⟨us, e, hCovers, hAlike⟩ := ih (offset + byteLength gap + byteLength text)
    -- the same token where it now stands; a blank or the end behind it makes it maximal
    let placed : Token := ⟨t.kind, t.lexeme,
      ⟨offset + byteLength gap, offset + byteLength gap + byteLength text⟩⟩
    have hCut : placed.Cut offset gap text rest :=
      ⟨hBlank, rfl, rfl, hWrites.1, hWrites.2, fun c hc => Token.not_goesOn (hApart c hc)⟩
    exact ⟨placed :: us, e, .next hCut hCovers, .cons ⟨rfl, rfl⟩ hAlike⟩

/-- Tokens that have a text can be kept apart. -/
theorem exists_spaced {ts : List Token} (h : ∀ t ∈ ts, ∃ text, t.Writes text) :
    ∃ chars, Spaced ts chars ∧ ∀ c ∈ chars.head?, Text.isBlank c = true := by
  induction ts with
  | nil => exact ⟨[], .stop (by simp), by simp⟩
  | cons t ts ih =>
    rw [List.forall_mem_cons] at h
    obtain ⟨⟨text, hWrites⟩, hTail⟩ := h
    obtain ⟨chars, hSpaced, hHead⟩ := ih hTail
    -- one blank in front of each token also keeps it from the one before
    have hSpace : Text.isBlank ' ' = true := by decide
    refine ⟨[' '] ++ (text ++ chars), .next ?_ hWrites hHead hSpaced, ?_⟩
    · simp [hSpace]
    · simp [hSpace]

/-- Tokens that have a text are tokens of a source. -/
theorem exists_source {ts : List Token} (h : ∀ t ∈ ts, ∃ text, t.Writes text) :
    ∃ source us e, tokens source = us ++ [e] ∧ List.Forall₂ Token.Alike ts us := by
  obtain ⟨chars, hSpaced, -⟩ := exists_spaced h
  obtain ⟨us, e, hCovers, hAlike⟩ := hSpaced.exists_covers 0
  refine ⟨String.ofList chars, us, e, tokens_of_covers ?_, hAlike⟩
  rwa [String.toList_ofList]

section Alike

variable {ts us : List Token}

theorem map_kind_of_alike (h : List.Forall₂ Token.Alike ts us) :
    us.map Token.kind = ts.map Token.kind := by
  induction h with
  | nil => rfl
  | cons hHead _ ih => rw [List.map_cons, List.map_cons, hHead.1, ih]

theorem exists_alike (h : List.Forall₂ Token.Alike ts us) {j : Nat} {t : Token}
    (ht : ts[j]? = some t) : ∃ t', us[j]? = some t' ∧ t.Alike t' := by
  obtain ⟨hj, rfl⟩ := List.getElem?_eq_some_iff.1 ht
  have hj' : j < us.length := h.length_eq ▸ hj
  exact ⟨us[j], List.getElem?_eq_getElem hj', h.get hj hj'⟩

end Alike

/-! ## Tokens that have a text -/

/-- The tokens of a source have a text, all but the last one. -/
theorem exists_writes {source : String} {t : Token} (ht : t ∈ tokens source)
    (hKind : t.kind ≠ .eof) : ∃ text, t.Writes text := by
  obtain ⟨-, text, -, -, -, -, hShape, hLexeme, -⟩ := exists_of_mem_tokens ht
  exact ⟨text, hShape hKind, hLexeme⟩

/-- There are tokens of every kind but the last one. -/
theorem TokenKind.exists_writes {kind : TokenKind} (h : kind ≠ .eof) :
    ∃ t : Token, t.kind = kind ∧ ∃ text, t.Writes text := by
  have hShape : ∃ text, Token.Shape kind text := by
    cases kind with
    | plus => exact ⟨['+'], .sign (by decide)⟩
    | minus => exact ⟨['-'], .sign (by decide)⟩
    | star => exact ⟨['*'], .sign (by decide)⟩
    | slash => exact ⟨['/'], .sign (by decide)⟩
    | percent => exact ⟨['%'], .sign (by decide)⟩
    | caret => exact ⟨['^'], .sign (by decide)⟩
    | leftParen => exact ⟨['('], .sign (by decide)⟩
    | rightParen => exact ⟨[')'], .sign (by decide)⟩
    | comma => exact ⟨[','], .sign (by decide)⟩
    | identifier => exact ⟨['x'], .identifier (isIdentifierStart_iff.1 (by decide)) (by simp)⟩
    | number => exact ⟨['1'], .whole (by simp) (by simpa using isDigit_iff.1 (by decide))⟩
    | unknown =>
      refine ⟨['?'], .unknown (by decide) (by simp [signs]) ?_ ?_⟩
      · rw [← isDigit_iff]
        decide
      · rw [← isIdentifierStart_iff]
        decide
    | eof => exact absurd rfl h
  obtain ⟨text, hShape⟩ := hShape
  exact ⟨⟨kind, kind.keeps (String.ofList text), ⟨0, 0⟩⟩, rfl, text, hShape, rfl⟩

/-- There are tokens of any kinds but the last one. -/
theorem exists_written {ts : List Token} (h : ∀ t ∈ ts, t.kind ≠ .eof) :
    ∃ us : List Token, us.map Token.kind = ts.map Token.kind ∧
      ∀ t ∈ us, ∃ text, t.Writes text := by
  induction ts with
  | nil => exact ⟨[], rfl, List.forall_mem_nil _⟩
  | cons t ts ih =>
    rw [List.forall_mem_cons] at h
    obtain ⟨u, hKind, hWrites⟩ := TokenKind.exists_writes h.1
    obtain ⟨us, hKinds, hAll⟩ := ih h.2
    refine ⟨u :: us, ?_, List.forall_mem_cons.2 ⟨hWrites, hAll⟩⟩
    rw [List.map_cons, List.map_cons, hKind, hKinds]

end Reckon
