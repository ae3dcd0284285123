import Mathlib
import Reckon.Proofs.Formula
import Reckon.Proofs.Token

/-!
# Reckon — how tokens share out a source

The tokens of a source and the blanks between them make up the source, and no
token could have gone on. What a token may look like is said here by ranges of
characters and a table of signs, apart from the functions that read tokens:

* `Token.Shape` — the texts of a kind of token; `Token.GoesOn` — the
  characters that would belong to a token if they followed it;
* `Cursor.scan_cases` — all that reading a token can do: it cuts a gap of
  blanks and the text of one token off a text, or finds nothing but blanks;
* `Covers` — gaps and tokens that make up a text, one after the other;
* `partition_tokens` — what this says of the bytes of a source.
-/

namespace Reckon

/-! ## The texts of tokens -/

/-- The digits of numbers. -/
def IsDigit (c : Char) : Prop :=
  '0' ≤ c ∧ c ≤ '9'

/-- The characters that identifiers start with. -/
def IsWordStart (c : Char) : Prop :=
  ('A' ≤ c ∧ c ≤ 'Z') ∨ ('a' ≤ c ∧ c ≤ 'z') ∨ c ∈ ['_', '@', '$', '#']

/-- The characters that identifiers go on with. -/
def IsWordRest (c : Char) : Prop :=
  IsWordStart c ∨ IsDigit c

/-- The signs, with the kinds of their tokens. -/
def signs : List (Char × TokenKind) :=
  [('+', .plus), ('-', .minus), ('*', .star), ('/', .slash), ('%', .percent), ('^', .caret),
   ('(', .leftParen), (')', .rightParen), (',', .comma)]

/-- The texts of a kind of token. -/
inductive Token.Shape : TokenKind → List Char → Prop
  | sign {c : Char} {kind : TokenKind} (hSign : (c, kind) ∈ signs) : Shape kind [c]
  | identifier {c : Char} {more : List Char} (hStart : IsWordStart c)
      (hRest : ∀ d ∈ more, IsWordRest d) : Shape .identifier (c :: more)
  | whole {digits : List Char} (hNonempty : digits ≠ []) (hDigits : ∀ d ∈ digits, IsDigit d) :
      Shape .number digits
  | fraction {digits places : List Char} (hNonempty : digits ≠ [])
      (hDigits : ∀ d ∈ digits, IsDigit d) (hPlaces : ∀ d ∈ places, IsDigit d) :
      Shape .number (digits ++ '.' :: places)
  | unknown {c : Char} (hBlank : Text.isBlank c = false) (hSign : ∀ kind, (c, kind) ∉ signs)
      (hDigit : ¬ IsDigit c) (hStart : ¬ IsWordStart c) : Shape .unknown [c]

/-- The characters that a token would go on with, had it not ended before
them. -/
def Token.GoesOn : TokenKind → List Char → Char → Prop
  | .identifier, _, c => IsWordRest c
  | .number, text, c => IsDigit c ∨ c = '.' ∧ '.' ∉ text
  | _, _, _ => False

/-- What a token keeps of its text. -/
def TokenKind.keeps : TokenKind → String → Option String
  | .identifier, text | .number, text | .unknown, text => some text
  | _, _ => none

/-- The bytes of a source that lie in a span. -/
def Span.slice (s : Span) (source : String) : String :=
  String.Pos.Raw.extract source ⟨s.start⟩ ⟨s.stop⟩

/-! ## Characters -/

theorem isDigit_iff {c : Char} : c.isDigit = true ↔ IsDigit c := by
  simp [IsDigit, Char.isDigit, Char.le_def]

theorem isIdentifierStart_iff {c : Char} : isIdentifierStart c = true ↔ IsWordStart c := by
  simp [isIdentifierStart, IsWordStart, Char.isAlpha, Char.isUpper, Char.isLower, Char.le_def,
    or_assoc]

theorem isIdentifierRest_iff {c : Char} : isIdentifierRest c = true ↔ IsWordRest c := by
  rw [isIdentifierRest, Bool.or_eq_true, isIdentifierStart_iff, isDigit_iff, IsWordRest]

theorem ofSign?_eq_some_iff {c : Char} {kind : TokenKind} :
    TokenKind.ofSign? c = some kind ↔ (c, kind) ∈ signs := by
  constructor
  · intro h
    unfold TokenKind.ofSign? at h
    split at h <;> cases h <;> decide
  · intro h
    simp only [signs, List.mem_cons, Prod.mk.injEq, List.not_mem_nil, or_false] at h
    rcases h with ⟨rfl, rfl⟩ | ⟨rfl, rfl⟩ | ⟨rfl, rfl⟩ | ⟨rfl, rfl⟩ | ⟨rfl, rfl⟩ | ⟨rfl, rfl⟩ |
      ⟨rfl, rfl⟩ | ⟨rfl, rfl⟩ | ⟨rfl, rfl⟩ <;> rfl

/-- Blanks lie outside the range of the characters that tokens are made of. -/
theorem isBlank_eq_false {c : Char} (hLow : '!' ≤ c) (hHigh : c ≤ '~') :
    Text.isBlank c = false := by
  have hLow' : 33 ≤ c.toNat := hLow
  have hHigh' : c.toNat ≤ 126 := hHigh
  simp only [Text.isBlank, Text.inRanges, Text.blankRanges, List.any_cons, List.any_nil,
    Bool.or_false, Bool.or_eq_false_iff, Bool.and_eq_false_iff, decide_eq_false_iff_not]
  omega

theorem IsDigit.isBlank {c : Char} (h : IsDigit c) : Text.isBlank c = false :=
  isBlank_eq_false (le_trans (by decide) h.1) (le_trans h.2 (by decide))

theorem IsWordStart.isBlank {c : Char} (h : IsWordStart c) : Text.isBlank c = false := by
  rcases h with h | h | h
  · exact isBlank_eq_false (le_trans (by decide) h.1) (le_trans h.2 (by decide))
  · exact isBlank_eq_false (le_trans (by decide) h.1) (le_trans h.2 (by decide))
  · simp only [List.mem_cons, List.not_mem_nil, or_false] at h
    rcases h with rfl | rfl | rfl | rfl <;> exact isBlank_eq_false (by decide) (by decide)

theorem IsWordRest.isBlank {c : Char} (h : IsWordRest c) : Text.isBlank c = false :=
  h.elim IsWordStart.isBlank IsDigit.isBlank

namespace Token

theorem Shape.ne_nil {kind : TokenKind} {text : List Char} (h : Shape kind text) : text ≠ [] := by
  cases h with
  | whole hNonempty _ => exact hNonempty
  | _ => simp

theorem Shape.kind_ne_eof {kind : TokenKind} {text : List Char} (h : Shape kind text) :
    kind ≠ .eof := by
  rintro rfl
  cases h with
  | sign hSign => simp [signs] at hSign

/-- There are no blanks in a token. -/
theorem Shape.isBlank {kind : TokenKind} {text : List Char} (h : Shape kind text) :
    ∀ c ∈ text, Text.isBlank c = false := by
  have hDigits : ∀ digits : List Char, (∀ d ∈ digits, IsDigit d) →
      ∀ d ∈ digits, Text.isBlank d = false := fun _ hAll d hd => (hAll d hd).isBlank
  cases h with
  | sign hSign =>
    have hAll : ∀ p ∈ signs, Text.isBlank p.1 = false := by decide
    intro d hd
    rw [List.mem_singleton] at hd
    subst hd
    exact hAll _ hSign
  | identifier hStart hRest =>
    intro d hd
    rcases List.mem_cons.1 hd with rfl | hd
    · exact hStart.isBlank
    · exact (hRest d hd).isBlank
  | whole _ hAll => exact hDigits _ hAll
  | fraction _ hWhole hPlaces =>
    intro d hd
    rcases List.mem_append.1 hd with hd | hd
    · exact hDigits _ hWhole d hd
    · rcases List.mem_cons.1 hd with rfl | hd
      · decide
      · exact hDigits _ hPlaces d hd
  | unknown hBlank _ _ _ =>
    intro d hd
    rw [List.mem_singleton] at hd
    subst hd
    exact hBlank

end Token

/-! ## Reading one token -/

theorem skipBlanks_eq (chars : List Char) (offset : Nat) :
    skipBlanks chars offset =
      (chars.dropWhile Text.isBlank, offset + byteLength (chars.takeWhile Text.isBlank)) := by
  fun_induction skipBlanks chars offset with
  | case1 offset => rfl
  | case2 c rest offset hBlank ih =>
    rw [ih, List.dropWhile_cons_of_pos hBlank, List.takeWhile_cons_of_pos hBlank, byteLength_cons,
      Nat.add_assoc]
  | case3 c rest offset hBlank =>
    rw [List.dropWhile_cons_of_neg hBlank, List.takeWhile_cons_of_neg hBlank]
    rfl

/-- The character behind a run is not of the run's kind. -/
theorem eq_false_of_mem_head?_dropWhile {p : Char → Bool} {chars : List Char} {c : Char}
    (h : c ∈ (chars.dropWhile p).head?) : p c = false := by
  have hHead := List.head?_dropWhile_not p chars
  rw [Option.mem_def.1 h] at hHead
  exact hHead

/-- A number takes all the digits there are, and a point if it has none yet. -/
theorem spanNumber_shape {c : Char} (rest : List Char) (hDigit : c.isDigit = true) :
    Token.Shape .number (spanNumber (c :: rest)).1 ∧
      ∀ d ∈ (spanNumber (c :: rest)).2.head?,
        ¬ Token.GoesOn .number (spanNumber (c :: rest)).1 d := by
  have hDigits : ∀ chars : List Char, ∀ d ∈ chars.takeWhile Char.isDigit, IsDigit d :=
    fun chars d hd => isDigit_iff.1 (List.mem_takeWhile_imp hd)
  have hBehind : ∀ (chars : List Char) (d : Char), d ∈ (chars.dropWhile Char.isDigit).head? →
      ¬ IsDigit d := by
    intro chars d hd hIs
    rw [← isDigit_iff, eq_false_of_mem_head?_dropWhile hd] at hIs
    cases hIs
  have hNonempty : (c :: rest).takeWhile Char.isDigit ≠ [] := by simp [hDigit]
  unfold spanNumber
  split
  · next tail hTail =>
    refine ⟨.fraction hNonempty (hDigits _) (hDigits _), ?_⟩
    rintro d hd (hIs | ⟨-, hPoint⟩)
    · exact hBehind tail d hd hIs
    · exact hPoint (by simp)
  · next hTail =>
    refine ⟨.whole hNonempty (hDigits _), ?_⟩
    rintro d hd (hIs | ⟨rfl, -⟩)
    · exact hBehind (c :: rest) d hd hIs
    · obtain ⟨tail, hEq⟩ := List.head?_eq_some_iff.1 hd
      exact hTail tail hEq

/-- An identifier takes all the characters it can go on with. -/
theorem spanIdentifier_shape {c : Char} (rest : List Char) (hStart : isIdentifierStart c = true) :
    Token.Shape .identifier (spanIdentifier (c :: rest)).1 ∧
      ∀ d ∈ (spanIdentifier (c :: rest)).2.head?,
        ¬ Token.GoesOn .identifier (spanIdentifier (c :: rest)).1 d := by
  have hRest : isIdentifierRest c = true := by simp [isIdentifierRest, hStart]
  refine ⟨?_, ?_⟩
  · rw [spanIdentifier, List.takeWhile_cons_of_pos hRest]
    refine .identifier (isIdentifierStart_iff.1 hStart) fun d hd => ?_
    exact isIdentifierRest_iff.1 (List.mem_takeWhile_imp hd)
  · intro d hd hIs
    have hEnd := eq_false_of_mem_head?_dropWhile hd
    rw [Token.GoesOn, ← isIdentifierRest_iff, hEnd] at hIs
    cases hIs

/-- What is read at a character that is neither a blank nor a sign. -/
theorem spanLexeme_shape {c : Char} (rest : List Char) (hBlank : Text.isBlank c = false)
    (hSign : TokenKind.ofSign? c = none) :
    Token.Shape (spanLexeme c rest).1 (spanLexeme c rest).2.1 ∧
      (∀ text, (spanLexeme c rest).1.keeps text = some text) ∧
      ∀ d ∈ (spanLexeme c rest).2.2.head?,
        ¬ Token.GoesOn (spanLexeme c rest).1 (spanLexeme c rest).2.1 d := by
  unfold spanLexeme
  by_cases hDigit : c.isDigit = true
  · rw [if_pos hDigit]
    obtain ⟨hShape, hEnd⟩ := spanNumber_shape rest hDigit
    exact ⟨hShape, fun _ => rfl, hEnd⟩
  · rw [if_neg hDigit]
    by_cases hStart : isIdentifierStart c = true
    · rw [if_pos hStart]
      obtain ⟨hShape, hEnd⟩ := spanIdentifier_shape rest hStart
      exact ⟨hShape, fun _ => rfl, hEnd⟩
    · rw [if_neg hStart]
      refine ⟨.unknown hBlank ?_ ?_ ?_, fun _ => rfl, fun d _ hIs => hIs⟩
      · intro kind hMem
        rw [← ofSign?_eq_some_iff, hSign] at hMem
        cases hMem
      · rwa [← isDigit_iff]
      · rwa [← isIdentifierStart_iff]

/-- A token is cut off a text that starts at byte `offset`: behind a gap of
blanks and in front of the rest, which starts with nothing that belongs to
it. -/
structure Token.Cut (t : Token) (offset : Nat) (gap text rest : List Char) : Prop where
  blank : ∀ c ∈ gap, Text.isBlank c = true
  start_eq : t.span.start = offset + byteLength gap
  stop_eq : t.span.stop = t.span.start + byteLength text
  shape : Token.Shape t.kind text
  lexeme_eq : t.lexeme = t.kind.keeps (String.ofList text)
  maximal : ∀ c ∈ rest.head?, ¬ Token.GoesOn t.kind text c

/-- All that reading a token can do. -/
theorem Cursor.scan_cases (chars : List Char) (offset size : Nat) :
    ((∀ c ∈ chars, Text.isBlank c = true) ∧
      scan chars offset size =
        ⟨⟨.eof, none, ⟨offset + byteLength chars, offset + byteLength chars⟩⟩, [],
          offset + byteLength chars, size⟩) ∨
    ∃ t gap text rest, chars = gap ++ (text ++ rest) ∧ t.Cut offset gap text rest ∧
      scan chars offset size = ⟨t, rest, t.span.stop, size⟩ := by
  have hGap : ∀ c ∈ chars.takeWhile Text.isBlank, Text.isBlank c = true :=
    fun c hc => List.mem_takeWhile_imp hc
  have hSplit := List.takeWhile_append_dropWhile (p := Text.isBlank) (l := chars)
  have hFirst : ∀ c ∈ (chars.dropWhile Text.isBlank).head?, Text.isBlank c = false :=
    fun c hc => eq_false_of_mem_head?_dropWhile hc
  unfold scan
  rw [skipBlanks_eq]
  generalize chars.takeWhile Text.isBlank = gap at hGap hSplit
  generalize chars.dropWhile Text.isBlank = behind at hSplit hFirst
  subst hSplit
  cases behind with
  | nil =>
    rw [List.append_nil]
    exact Or.inl ⟨hGap, rfl⟩
  | cons c rest =>
    right
    simp only
    cases hSign : TokenKind.ofSign? c with
    | some kind =>
      have hSize := TokenKind.utf8Size_sign hSign
      have hMem := ofSign?_eq_some_iff.1 hSign
      refine ⟨_, gap, [c], rest, rfl, ⟨hGap, rfl, ?_, .sign hMem, ?_, ?_⟩, rfl⟩
      · simp [byteLength, hSize]
      · unfold TokenKind.ofSign? at hSign
        split at hSign <;> cases hSign <;> rfl
      · unfold TokenKind.ofSign? at hSign
        split at hSign <;> cases hSign <;> exact fun _ _ hIs => hIs
    | none =>
      obtain ⟨-, more, hLexeme, hRest⟩ := spanLexeme_eq c rest
      obtain ⟨hShape, hKeeps, hEnd⟩ := spanLexeme_shape rest (hFirst c rfl) hSign
      refine ⟨_, gap, (spanLexeme c rest).2.1, (spanLexeme c rest).2.2, ?_,
        ⟨hGap, rfl, rfl, hShape, (hKeeps _).symm, hEnd⟩, rfl⟩
      rw [hLexeme, List.cons_append, hRest]

/-! ## Reading all tokens -/

/-- A text that starts at byte `offset` is made up of the tokens and gaps of
blanks between them, with the end token behind the last gap. -/
inductive Covers : Nat → List Char → List Token → Prop
  | stop {offset : Nat} {gap : List Char} (hBlank : ∀ c ∈ gap, Text.isBlank c = true) :
      Covers offset gap [⟨.eof, none, ⟨offset + byteLength gap, offset + byteLength gap⟩⟩]
  | next {offset : Nat} {t : Token} {gap text rest : List Char} {ts : List Token}
      (hCut : t.Cut offset gap text rest) (hRest : Covers t.span.stop rest ts) :
      Covers offset (gap ++ (text ++ rest)) (t :: ts)

theorem Cursor.covers_tokensUpTo {n : Nat} {chars : List Char} {offset size : Nat}
    (hSize : offset + byteLength chars = size) (hBound : (scan chars offset size).bound ≤ n) :
    Covers offset chars (tokensUpTo n (scan chars offset size)) := by
  induction n generalizing chars offset with
  | zero =>
    rcases scan_cases chars offset size with ⟨hBlank, hScan⟩ | ⟨t, gap, text, rest, -, hCut, hScan⟩
    · rw [hScan]
      exact .stop hBlank
    · -- only the end token takes up no bytes
      have hKind : (scan chars offset size).kind ≠ .eof := by
        rw [hScan]
        exact hCut.shape.kind_ne_eof
      have := (scan_placed hSize).1.bound_advance_lt hKind
      omega
  | succ n ih =>
    have hPlaced := (scan_placed hSize).1
    rcases scan_cases chars offset size with
      ⟨hBlank, hScan⟩ | ⟨t, gap, text, rest, hChars, hCut, hScan⟩
    · rw [hScan]
      exact .stop hBlank
    · have hKind : (scan chars offset size).kind ≠ .eof := by
        rw [hScan]
        exact hCut.shape.kind_ne_eof
      have hLess := hPlaced.bound_advance_lt hKind
      have hCurrent : (scan chars offset size).current = t := by rw [hScan]
      have hNext : (scan chars offset size).advance = scan rest t.span.stop size := by
        rw [hScan]
        rfl
      have hSize' : t.span.stop + byteLength rest = size := by
        have hEq := hPlaced.size_eq
        rwa [hScan] at hEq
      rw [hNext] at hLess
      rw [tokensUpTo, if_neg hKind, hCurrent, hNext, hChars]
      exact .next hCut (ih hSize' (by omega))

theorem covers_tokens (source : String) : Covers 0 source.toList (tokens source) :=
  Cursor.covers_tokensUpTo (by rw [utf8ByteSize_eq, Nat.zero_add]) (Nat.le_refl _)

/-! ## The bytes of the source -/

namespace Covers

variable {offset : Nat} {chars : List Char} {ts : List Token}

/-- The end token comes last, and nowhere else. -/
theorem exists_init (h : Covers offset chars ts) :
    ∃ init, ts = init ++ [⟨.eof, none, ⟨offset + byteLength chars, offset + byteLength chars⟩⟩] ∧
      ∀ t ∈ init, t.kind ≠ .eof := by
  induction h with
  | stop _ => exact ⟨[], rfl, by simp⟩
  | @next offset t gap text rest ts hCut hRest ih =>
    obtain ⟨init, rfl, hKinds⟩ := ih
    have hEnd : t.span.stop + byteLength rest = offset + byteLength (gap ++ (text ++ rest)) := by
      rw [hCut.stop_eq, hCut.start_eq, byteLength_append, byteLength_append]
      omega
    refine ⟨t :: init, by rw [hEnd, List.cons_append], fun t' ht' => ?_⟩
    rcases List.mem_cons.1 ht' with rfl | ht'
    · exact hCut.shape.kind_ne_eof
    · exact hKinds t' ht'

/-- Every other token is cut off somewhere in the text. -/
theorem exists_cut (h : Covers offset chars ts) {t : Token} (ht : t ∈ ts) (hKind : t.kind ≠ .eof) :
    ∃ front gap text rest, chars = front ++ (gap ++ (text ++ rest)) ∧
      t.Cut (offset + byteLength front) gap text rest := by
  induction h with
  | stop _ =>
    rw [List.mem_singleton] at ht
    subst ht
    exact absurd rfl hKind
  | @next offset u gap text rest ts hCut hRest ih =>
    rcases List.mem_cons.1 ht with rfl | ht
    · exact ⟨[], gap, text, rest, rfl, hCut⟩
    · obtain ⟨front, gap', text', rest', rfl, hCut'⟩ := ih ht
      refine ⟨gap ++ (text ++ front), gap', text', rest', by simp, ?_⟩
      have hOffset : offset + byteLength (gap ++ (text ++ front)) =
          u.span.stop + byteLength front := by
        rw [hCut.stop_eq, hCut.start_eq, byteLength_append, byteLength_append]
        omega
      rwa [hOffset]

/-- No token starts before the text. -/
theorem offset_le (h : Covers offset chars ts) : ∀ t ∈ ts, offset ≤ t.span.start := by
  induction h with
  | stop _ =>
    intro t ht
    rw [List.mem_singleton] at ht
    subst ht
    exact Nat.le_add_right _ _
  | next hCut hRest ih =>
    have hStart := hCut.start_eq
    have hStop := hCut.stop_eq
    intro t' ht'
    rcases List.mem_cons.1 ht' with rfl | ht'
    · omega
    · have hLater := ih t' ht'
      omega

theorem pairwise (h : Covers offset chars ts) :
    ts.Pairwise fun a b => a.span.stop ≤ b.span.start := by
  induction h with
  | stop _ => exact List.pairwise_singleton ..
  | next _ hRest ih => exact List.pairwise_cons.2 ⟨hRest.offset_le, ih⟩

/-- A byte of a character lies in a token just if the character is no blank. -/
theorem mem_span_iff (h : Covers offset chars ts) {before after : List Char} {c : Char}
    (hChars : chars = before ++ c :: after) {byte : Nat} (hLow : offset + byteLength before ≤ byte)
    (hHigh : byte < offset + byteLength before + c.utf8Size) :
    (∃ t ∈ ts, t.span.start ≤ byte ∧ byte < t.span.stop) ↔ Text.isBlank c = false := by
  induction h generalizing before with
  | @stop offset gap hBlank =>
    have hIs := hBlank c (by simp [hChars])
    simp only [List.mem_singleton, exists_eq_left, hIs, Bool.true_eq_false, iff_false]
    omega
  | @next offset t gap text rest ts hCut hRest ih =>
    have hStart := hCut.start_eq
    have hStop := hCut.stop_eq
    rcases append_cons_eq_append hChars with ⟨gap', hGap⟩ | ⟨before', rfl, hBehind⟩
    · -- in the gap, which ends where the first token starts
      have hIs := hCut.blank c (by simp [hGap])
      rw [hGap, byteLength_append, byteLength_cons] at hStart
      have hNone : ¬ ∃ u ∈ t :: ts, u.span.start ≤ byte ∧ byte < u.span.stop := by
        rintro ⟨u, hu, hFrom, -⟩
        rcases List.mem_cons.1 hu with rfl | hu
        · omega
        · have hLater := hRest.offset_le u hu
          omega
      exact iff_of_false hNone (by simp [hIs])
    · rw [byteLength_append] at hLow hHigh
      rcases append_cons_eq_append hBehind with ⟨text', hText⟩ | ⟨before'', rfl, hAfter⟩
      · -- in the text of the first token
        have hIs := hCut.shape.isBlank c (by simp [hText])
        rw [hText, byteLength_append, byteLength_cons] at hStop
        have hSome : ∃ u ∈ t :: ts, u.span.start ≤ byte ∧ byte < u.span.stop :=
          ⟨t, List.mem_cons_self .., by omega, by omega⟩
        exact iff_of_true hSome hIs
      · -- behind the first token
        rw [byteLength_append] at hLow hHigh
        rw [← ih hAfter (by omega) (by omega)]
        constructor
        · rintro ⟨u, hu, hFrom, hTo⟩
          rcases List.mem_cons.1 hu with rfl | hu
          · omega
          · exact ⟨u, hu, hFrom, hTo⟩
        · rintro ⟨u, hu, hSpan⟩
          exact ⟨u, List.mem_cons_of_mem t hu, hSpan⟩

end Covers

theorem utf8Len_eq (chars : List Char) : String.utf8Len chars = byteLength chars := by
  rw [← String.utf8ByteSize_ofList, utf8ByteSize_eq, String.toList_ofList]

/-- The boundaries of characters are the ends of the texts that a source
starts with. -/
theorem isValid_iff (source : String) (offset : Nat) :
    String.Pos.Raw.IsValid source ⟨offset⟩ ↔
      ∃ before after, source.toList = before ++ after ∧ offset = byteLength before := by
  rw [String.Pos.Raw.isValid_iff_exists_take_toList]
  constructor
  · rintro ⟨i, hOffset⟩
    refine ⟨source.toList.take i, source.toList.drop i, (List.take_append_drop ..).symm, ?_⟩
    rwa [utf8ByteSize_eq, String.toList_ofList] at hOffset
  · rintro ⟨before, after, hSource, hOffset⟩
    refine ⟨before.length, ?_⟩
    rw [hSource, List.take_left, utf8ByteSize_eq, String.toList_ofList]
    exact hOffset

section Source

variable {source : String} {before text after : List Char}

theorem get?_of_toList (h : source.toList = before ++ after) :
    String.Pos.Raw.get? source ⟨byteLength before⟩ = after.head? := by
  rw [← String.ofList_toList (s := source), h, ← utf8Len_eq]
  exact String.get?_of_valid before after

theorem Span.slice_of_toList {span : Span} (h : source.toList = before ++ (text ++ after))
    (hStart : span.start = byteLength before) (hStop : span.stop = span.start + byteLength text) :
    span.slice source = String.ofList text := by
  rw [Span.slice, hStop, hStart, ← String.ofList_toList (s := source), h, ← utf8Len_eq,
    ← utf8Len_eq, ← List.append_assoc]
  exact String.extract_of_valid before text after

end Source

/-- Tokens share out the bytes of a source among them and the blanks, and each
of them is as long as it can be. -/
structure Partition (source : String) (ts : List Token) : Prop where
  ends : ∃ init, ts = init ++ [⟨.eof, none, ⟨source.utf8ByteSize, source.utf8ByteSize⟩⟩] ∧
    ∀ t ∈ init, t.kind ≠ .eof
  nonempty : ∀ t ∈ ts, t.kind ≠ .eof → t.span.start < t.span.stop
  ordered : ts.Pairwise fun a b => a.span.stop ≤ b.span.start
  boundaries : ∀ t ∈ ts, String.Pos.Raw.IsValid source ⟨t.span.start⟩ ∧
    String.Pos.Raw.IsValid source ⟨t.span.stop⟩
  covered : ∀ offset c, String.Pos.Raw.IsValid source ⟨offset⟩ →
    String.Pos.Raw.get? source ⟨offset⟩ = some c → ∀ byte, offset ≤ byte →
    byte < offset + c.utf8Size →
    ((∃ t ∈ ts, t.span.start ≤ byte ∧ byte < t.span.stop) ↔ Text.isBlank c = false)
  shapes : ∀ t ∈ ts, t.kind ≠ .eof → Token.Shape t.kind (t.span.slice source).toList
  lexemes : ∀ t ∈ ts, t.lexeme = t.kind.keeps (t.span.slice source)
  maximal : ∀ t ∈ ts, ∀ c, String.Pos.Raw.get? source ⟨t.span.stop⟩ = some c →
    ¬ Token.GoesOn t.kind (t.span.slice source).toList c

theorem eq_end_of_mem_tokens {source : String} {t : Token} (ht : t ∈ tokens source)
    (hKind : t.kind = .eof) : t = ⟨.eof, none, ⟨source.utf8ByteSize, source.utf8ByteSize⟩⟩ := by
  obtain ⟨init, hTokens, hKinds⟩ := (covers_tokens source).exists_init
  rw [hTokens] at ht
  rcases List.mem_append.1 ht with ht | ht
  · exact absurd hKind (hKinds t ht)
  · rw [List.mem_singleton.1 ht, utf8ByteSize_eq, Nat.zero_add]

/-- Where a token lies in its source. The end token lies behind all of it. -/
theorem exists_of_mem_tokens {source : String} {t : Token} (ht : t ∈ tokens source) :
    ∃ before text after, source.toList = before ++ (text ++ after) ∧
      t.span.start = byteLength before ∧ t.span.stop = t.span.start + byteLength text ∧
      (t.kind ≠ .eof → Token.Shape t.kind text) ∧ t.lexeme = t.kind.keeps (String.ofList text) ∧
      ∀ c ∈ after.head?, ¬ Token.GoesOn t.kind text c := by
  by_cases hKind : t.kind = .eof
  · have hEnd := eq_end_of_mem_tokens ht hKind
    subst hEnd
    exact ⟨source.toList, [], [], by simp, utf8ByteSize_eq source, rfl, fun h => absurd rfl h, rfl,
      by simp⟩
  · obtain ⟨front, gap, text, after, hSource, hCut⟩ := (covers_tokens source).exists_cut ht hKind
    refine ⟨front ++ gap, text, after, by rw [hSource, List.append_assoc], ?_, hCut.stop_eq,
      fun _ => hCut.shape, hCut.lexeme_eq, hCut.maximal⟩
    rw [hCut.start_eq, byteLength_append, Nat.zero_add]

/-- The tokens of a source are a partition of it. -/
theorem partition_tokens (source : String) : Partition source (tokens source) := by
  have hCovers := covers_tokens source
  have hEnds := hCovers.exists_init
  rw [Nat.zero_add, ← utf8ByteSize_eq] at hEnds
  refine ⟨hEnds, ?_, hCovers.pairwise, ?_, ?_, ?_, ?_, ?_⟩
  · intro t ht hKind
    obtain ⟨before, text, after, -, -, hStop, hShape, -⟩ := exists_of_mem_tokens ht
    obtain ⟨c, more, rfl⟩ := List.exists_cons_of_ne_nil (hShape hKind).ne_nil
    have hPos := c.utf8Size_pos
    rw [byteLength_cons] at hStop
    omega
  · intro t ht
    obtain ⟨before, text, after, hSource, hStart, hStop, -⟩ := exists_of_mem_tokens ht
    refine ⟨(isValid_iff ..).2 ⟨before, text ++ after, hSource, hStart⟩, ?_⟩
    refine (isValid_iff ..).2 ⟨before ++ text, after, by rw [hSource, List.append_assoc], ?_⟩
    rw [hStop, hStart, byteLength_append]
  · intro offset c hValid hGet byte hLow hHigh
    obtain ⟨before, after, hSource, rfl⟩ := (isValid_iff ..).1 hValid
    rw [get?_of_toList hSource] at hGet
    obtain ⟨after', rfl⟩ := List.head?_eq_some_iff.1 hGet
    exact hCovers.mem_span_iff hSource (by omega) (by omega)
  · intro t ht hKind
    obtain ⟨before, text, after, hSource, hStart, hStop, hShape, -⟩ := exists_of_mem_tokens ht
    rw [Span.slice_of_toList hSource hStart hStop, String.toList_ofList]
    exact hShape hKind
  · intro t ht
    obtain ⟨before, text, after, hSource, hStart, hStop, -, hLexeme, -⟩ := exists_of_mem_tokens ht
    rwa [Span.slice_of_toList hSource hStart hStop]
  · intro t ht c hGet
    obtain ⟨before, text, after, hSource, hStart, hStop, -, -, hEnd⟩ := exists_of_mem_tokens ht
    have hBefore : t.span.stop = byteLength (before ++ text) := by
      rw [hStop, hStart, byteLength_append]
    rw [hBefore, get?_of_toList (by rw [hSource, List.append_assoc])] at hGet
    rw [Span.slice_of_toList hSource hStart hStop, String.toList_ofList]
    exact hEnd c hGet

-- a point belongs to a number only once, and spans count bytes
example : tokens "é1.5.2\u2003€" =
    [⟨.unknown, some "é", ⟨0, 2⟩⟩, ⟨.number, some "1.5", ⟨2, 5⟩⟩, ⟨.unknown, some ".", ⟨5, 6⟩⟩,
     ⟨.number, some "2", ⟨6, 7⟩⟩, ⟨.unknown, some "€", ⟨10, 13⟩⟩, ⟨.eof, none, ⟨13, 13⟩⟩] := by
  decide

end Reckon
