import Mathlib
import Reckon.Proofs.Lookahead
import Reckon.Proofs.Safety

/-!
# Reckon — pulling tokens

Tokens are asked for one kind at a time. However it is asked, the cursor stays
in step with the token table of the source, and what the parser makes of the
tokens that are left does not depend on those that are gone:

* `Cursor.take`, `Cursor.takeAll` — asking for a token of a kind, and for one
  after the other;
* `Cursor.moved` — a cursor on the same text farther on in a source. Reading
  and parsing commute with it (`Cursor.parse_moved`), and a cursor that was
  moved on is one on the remaining text, moved (`Cursor.ahead_eq_moved`);
* `Cursor.parse_congr` — the parser depends on the tokens that are left only;
* `takeAll_refines` — all of it, for every source and all that is asked.
-/

namespace Reckon

namespace Cursor

/-! ## Asking for tokens -/

/-- Takes the token at the cursor if it is of a kind, and says whether it is. -/
def take (c : Cursor) (kind : TokenKind) : Bool × Cursor :=
  match c.consume? kind with
  | some next => (true, next)
  | none => (false, c)

/-- Asks for tokens of kinds, one after the other. -/
def takeAll (c : Cursor) : List TokenKind → List Bool × Cursor
  | [] => ([], c)
  | kind :: kinds =>
    let (answer, next) := c.take kind
    let (answers, stop) := next.takeAll kinds
    (answer :: answers, stop)

theorem take_of_eq {c : Cursor} {kind : TokenKind} (h : c.kind = kind) :
    c.take kind = (true, c.advance) := by
  rw [take, consume?, if_pos h]

theorem take_of_ne {c : Cursor} {kind : TokenKind} (h : c.kind ≠ kind) :
    c.take kind = (false, c) := by
  rw [take, consume?, if_neg h]

/-- Each token that is taken moves the cursor on by one. -/
theorem takeAll_eq_ahead (c : Cursor) (kinds : List TokenKind) :
    (c.takeAll kinds).2 = c.ahead ((c.takeAll kinds).1.count true) := by
  induction kinds generalizing c with
  | nil => rfl
  | cons kind kinds ih =>
    rw [takeAll]
    by_cases hKind : c.kind = kind
    · rw [take_of_eq hKind]
      dsimp only
      rw [ih, List.count_cons_self, ahead_succ]
    · rw [take_of_ne hKind]
      dsimp only
      rw [ih, List.count_cons_of_ne (by decide)]

/-- One more question after others. -/
theorem takeAll_snoc (c : Cursor) (kinds : List TokenKind) (kind : TokenKind) :
    c.takeAll (kinds ++ [kind]) =
      ((c.takeAll kinds).1 ++ [((c.takeAll kinds).2.take kind).1],
        ((c.takeAll kinds).2.take kind).2) := by
  induction kinds generalizing c with
  | nil => rfl
  | cons first kinds ih =>
    rw [List.cons_append, takeAll, takeAll]
    dsimp only
    rw [ih]
    rfl

/-- At the end, asking for the end goes on forever. -/
theorem Scanned.takeAll_eof {c : Cursor} (h : c.Scanned) (hKind : c.kind = .eof) (n : Nat) :
    c.takeAll (List.replicate n .eof) = (List.replicate n true, c) := by
  induction n with
  | zero => rfl
  | succ n ih =>
    rw [List.replicate_succ, takeAll, take_of_eq hKind, h.advance_of_eof hKind]
    dsimp only
    rw [ih, List.replicate_succ]

end Cursor

/-! ## Texts farther on -/

/-- A span, farther on in a source. -/
def Span.moved (s : Span) (n : Nat) : Span :=
  ⟨s.start + n, s.stop + n⟩

/-- A token, farther on in a source. -/
def Token.moved (t : Token) (n : Nat) : Token :=
  { t with span := t.span.moved n }

/-- An error, farther on in a source. -/
def ParseError.moved (e : ParseError) (n : Nat) : ParseError :=
  { e with found := e.found.moved n }

namespace Cursor

/-- A cursor on the same text, farther on in a source. -/
def moved (c : Cursor) (n : Nat) : Cursor :=
  ⟨c.current.moved n, c.rest, c.offset + n, c.size + n⟩

theorem scan_moved (chars : List Char) (offset size n : Nat) :
    scan chars (offset + n) (size + n) = (scan chars offset size).moved n := by
  have hStart : ∀ gap, offset + n + byteLength gap = offset + byteLength gap + n := by
    intro gap
    omega
  unfold scan
  rw [skipBlanks_eq, skipBlanks_eq, hStart]
  generalize chars.takeWhile Text.isBlank = gap
  cases chars.dropWhile Text.isBlank with
  | nil => rfl
  | cons c rest =>
    dsimp only
    cases TokenKind.ofSign? c with
    | some kind =>
      dsimp only
      rw [Nat.add_right_comm _ n 1]
      rfl
    | none =>
      dsimp only
      rw [Nat.add_right_comm _ n]
      rfl

theorem advance_moved (c : Cursor) (n : Nat) : (c.moved n).advance = c.advance.moved n :=
  scan_moved c.rest c.offset c.size n

theorem ahead_moved (c : Cursor) (n k : Nat) : (c.moved n).ahead k = (c.ahead k).moved n := by
  induction k generalizing c with
  | zero => rfl
  | succ k ih => rw [ahead_succ, ahead_succ, advance_moved, ih]

theorem bound_moved (c : Cursor) (n : Nat) : (c.moved n).bound = c.bound :=
  Nat.add_sub_add_right c.size n c.current.span.start

theorem tokens_moved (c : Cursor) (n : Nat) :
    (c.moved n).tokens = c.tokens.map (·.moved n) := by
  have hUpTo : ∀ rounds c,
      tokensUpTo rounds (moved c n) = (tokensUpTo rounds c).map (·.moved n) := by
    intro rounds
    induction rounds with
    | zero => exact fun _ => rfl
    | succ rounds ih =>
      intro c
      rw [tokensUpTo, tokensUpTo, advance_moved, ih]
      -- moving a token does not change its kind
      show (if c.kind = .eof then _ else _) = _
      split <;> rfl
  rw [tokens, tokens, bound_moved, hUpTo]

/-- The parser makes the same of tokens that only differ in where they stand. An
error is at the token in the place of the one where it was. -/
theorem parse_of_relocated {c c' : Cursor} {move : Token → Token} (hc : c.Scanned)
    (hc' : c'.Scanned) (hMove : ∀ t : Token, t.Alike (move t))
    (hTokens : ∀ k, (c'.ahead k).current = move (c.ahead k).current) :
    c'.parse = c.parse.mapError fun e => ⟨e.fault, e.trail, move e.found⟩ := by
  have hAlike : ∀ k, c.Alike c' k := by
    intro k j _
    rw [hTokens j]
    exact hMove _
  cases hParse : c.parse with
  | ok f =>
    obtain ⟨k, hSecond⟩ := parse_ok_follows hc hc' hParse
    exact hSecond (hAlike k)
  | error e =>
    obtain ⟨k, hFound, -, hSecond⟩ := parse_error_follows hc hc' hParse
    rw [hSecond (hAlike k), hTokens k, ← hFound]
    rfl

/-- The parser makes the same of a text farther on. -/
theorem parse_moved {c : Cursor} {n : Nat} (h : c.Scanned) (hMoved : (c.moved n).Scanned) :
    (c.moved n).parse = c.parse.mapError (·.moved n) := by
  have hMove : ∀ t : Token, t.Alike (t.moved n) := fun _ => ⟨rfl, rfl⟩
  refine parse_of_relocated h hMoved hMove fun k => ?_
  rw [ahead_moved]
  rfl

/-! ## What is left of a source -/

/-- Blanks in front of a text make no difference to what is read. -/
theorem scan_gap {gap : List Char} (hBlank : ∀ c ∈ gap, Text.isBlank c = true) (more : List Char)
    (offset size : Nat) :
    scan (gap ++ more) offset size = scan more (offset + byteLength gap) size := by
  unfold scan
  rw [skipBlanks_eq, skipBlanks_eq, List.dropWhile_append_of_pos hBlank,
    List.takeWhile_append_of_pos hBlank, byteLength_append, Nat.add_assoc]

/-- A token is read just as well from where it starts. -/
theorem exists_scan_start (chars : List Char) (offset size : Nat) :
    ∃ gap more, chars = gap ++ more ∧
      (scan chars offset size).current.span.start = offset + byteLength gap ∧
      scan chars offset size = scan more (offset + byteLength gap) size := by
  rcases scan_cases chars offset size with ⟨hBlank, hScan⟩ | ⟨t, gap, text, rest, rfl, hCut, hScan⟩
  · refine ⟨chars, [], by simp, by rw [hScan], ?_⟩
    rw [← scan_gap hBlank, List.append_nil]
  · exact ⟨gap, text ++ rest, rfl, by rw [hScan, hCut.start_eq], scan_gap hCut.blank _ _ _⟩

/-- A cursor that was moved on stands at the start of what is left. -/
theorem exists_scan_ahead (source : String) (k : Nat) :
    ∃ front more, source.toList = front ++ more ∧
      ((ofString source).ahead k).current.span.start = byteLength front ∧
      (ofString source).ahead k = scan more (byteLength front) source.utf8ByteSize := by
  have hText : ∃ front chars, source.toList = front ++ chars ∧
      (ofString source).ahead k = scan chars (byteLength front) source.utf8ByteSize := by
    cases k with
    | zero => exact ⟨[], source.toList, rfl, rfl⟩
    | succ k =>
      obtain ⟨-, front, hSource, hOffset⟩ := onBoundaries_iterate source k
      change ((ofString source).ahead k).offset = _ at hOffset
      have hSize := (scanned_ofString source).size_ahead k
      refine ⟨front, ((ofString source).ahead k).rest, hSource, ?_⟩
      rw [← ahead_ahead, ← hOffset]
      show scan _ _ ((ofString source).ahead k).size = _
      rw [hSize]
      exact congrArg _ (scan_placed (by rw [utf8ByteSize_eq, Nat.zero_add])).2.2
  obtain ⟨front, chars, hSource, hScan⟩ := hText
  obtain ⟨gap, more, rfl, hStart, hSame⟩ :=
    exists_scan_start chars (byteLength front) source.utf8ByteSize
  refine ⟨front ++ gap, more, by rw [hSource, List.append_assoc], ?_, ?_⟩
  · rw [hScan, hStart, byteLength_append]
  · rw [hScan, hSame, byteLength_append]

/-- A cursor that was moved on is a cursor on what is left of the source. -/
theorem ahead_eq_moved (source : String) (k start : Nat)
    (hStart : ((ofString source).ahead k).current.span.start = start) :
    (ofString source).ahead k =
      (ofString (Span.slice ⟨start, source.utf8ByteSize⟩ source)).moved start := by
  obtain ⟨front, more, hSource, hFront, hScan⟩ := exists_scan_ahead source k
  have hSize : source.utf8ByteSize = start + byteLength more := by
    rw [utf8ByteSize_eq, hSource, byteLength_append, ← hFront, hStart]
  have hSplit : source.toList = front ++ (more ++ []) := by rw [List.append_nil, hSource]
  have hSlice : Span.slice ⟨start, source.utf8ByteSize⟩ source = String.ofList more :=
    Span.slice_of_toList hSplit (hStart.symm.trans hFront) hSize
  have hMore : (String.ofList more).utf8ByteSize = byteLength more := by
    rw [utf8ByteSize_eq, String.toList_ofList]
  rw [hScan, hSlice, ofString, ← scan_moved, hMore, String.toList_ofList, hSize, ← hFront, hStart,
    Nat.zero_add, Nat.add_comm]

/-- The tokens that are left of a source, and what the parser makes of them, are
those of the text that is left. -/
theorem left_ahead (source text : String) (k start : Nat)
    (hStart : ((ofString source).ahead k).current.span.start = start)
    (hText : text = Span.slice ⟨start, source.utf8ByteSize⟩ source) :
    ((ofString source).ahead k).tokens = (Reckon.tokens text).map (·.moved start) ∧
      ((ofString source).ahead k).parse = (Reckon.parse text).mapError (·.moved start) := by
  have hScanned := (scanned_ofString source).ahead k
  rw [ahead_eq_moved source k start hStart, ← hText] at hScanned ⊢
  exact ⟨tokens_moved _ start, parse_moved (scanned_ofString _) hScanned⟩

/-- The parser depends on nothing but the tokens that are left. -/
theorem parse_congr {c c' : Cursor} (hc : c.Scanned) (hc' : c'.Scanned)
    (h : c.tokens = c'.tokens) : c.parse = c'.parse := by
  have hSame : ∀ k, (c'.ahead k).current = (c.ahead k).current := by
    intro k
    have hToken := hc.getElem?_tokens k
    have hToken' := hc'.getElem?_tokens k
    rw [last, h] at hToken
    rw [last, hToken] at hToken'
    exact (Option.some.inj hToken').symm
  -- no token is moved, so an error stays as it is
  rw [parse_of_relocated hc hc' (fun _ => ⟨rfl, rfl⟩) hSame]
  cases c.parse <;> rfl

end Cursor

/-! ## Cursors and token tables -/

/-- A cursor in a source after `j` tokens were taken. -/
structure InStep (source : String) (j : Nat) (c : Cursor) : Prop where
  /-- The cursor is at the token with that number, or at the end if there are
  not so many. -/
  current : (tokens source)[min j (Cursor.ofString source).last]? = some c.current
  /-- The tokens from there on are left. -/
  remaining : c.tokens = (tokens source).drop (min j (Cursor.ofString source).last)
  /-- Asking for a kind tells whether the token is of the kind. -/
  answer : ∀ kind, (c.take kind).1 = true ↔ kind = c.current.kind
  /-- A token that is not of the kind stays. -/
  refused : ∀ kind, (c.take kind).1 = false → (c.take kind).2 = c
  /-- The end can be taken any number of times and stays. -/
  ended : c.current.kind = .eof →
    ∀ n, c.takeAll (List.replicate n .eof) = (List.replicate n true, c)
  /-- The text from the current token on has the tokens that are left, and its
  formula or its error, with the token where it stands in the source. -/
  parse : ∀ text, text = Span.slice ⟨c.current.span.start, source.utf8ByteSize⟩ source →
    c.tokens = (tokens text).map (·.moved c.current.span.start) ∧
      c.parse = (parse text).mapError (·.moved c.current.span.start)
  /-- Nothing else matters to the parser than the tokens that are left. -/
  parse_eq : ∀ source' kinds', (((Cursor.ofString source').takeAll kinds').2).tokens = c.tokens →
    ((Cursor.ofString source').takeAll kinds').2.parse = c.parse

theorem inStep_ahead (source : String) (j : Nat) :
    InStep source j ((Cursor.ofString source).ahead j) := by
  have hFirst := Cursor.scanned_ofString source
  have hScanned := hFirst.ahead j
  refine ⟨hFirst.getElem?_tokens j, hFirst.tokens_ahead j, fun kind => ?_, fun kind hNo => ?_,
    fun hKind n => hScanned.takeAll_eof hKind n, fun text hText => ?_,
    fun source' kinds' hTokens => ?_⟩
  · by_cases hKind : ((Cursor.ofString source).ahead j).kind = kind
    · rw [Cursor.take_of_eq hKind]
      exact ⟨fun _ => hKind.symm, fun _ => rfl⟩
    · rw [Cursor.take_of_ne hKind]
      exact ⟨fun hYes => absurd hYes Bool.false_ne_true, fun hEq => absurd hEq.symm hKind⟩
  · by_cases hKind : ((Cursor.ofString source).ahead j).kind = kind
    · rw [Cursor.take_of_eq hKind] at hNo
      cases hNo
    · rw [Cursor.take_of_ne hKind]
  · exact Cursor.left_ahead source text j _ rfl hText
  · rw [Cursor.takeAll_eq_ahead] at hTokens ⊢
    exact Cursor.parse_congr ((Cursor.scanned_ofString source').ahead _) hScanned hTokens

/-- Whatever kinds are asked for, the cursor stays in step with the token table:
it has moved on by one token for each time the answer was yes, and each further
question is put to the cursor where it is. The end token is the last one of the
table and nowhere else. -/
theorem takeAll_refines (source : String) (kinds : List TokenKind) :
    InStep source (((Cursor.ofString source).takeAll kinds).1.count true)
        ((Cursor.ofString source).takeAll kinds).2 ∧
      (∀ kind, (Cursor.ofString source).takeAll (kinds ++ [kind]) =
        (((Cursor.ofString source).takeAll kinds).1 ++
            [(((Cursor.ofString source).takeAll kinds).2.take kind).1],
          (((Cursor.ofString source).takeAll kinds).2.take kind).2)) ∧
      (tokens source).length = (Cursor.ofString source).last + 1 ∧
      ∀ i t, (tokens source)[i]? = some t →
        (t.kind = .eof ↔ i = (Cursor.ofString source).last) := by
  have hFirst := Cursor.scanned_ofString source
  refine ⟨?_, fun kind => Cursor.takeAll_snoc _ kinds kind, hFirst.kind_ahead_last.2,
    fun i t hToken => hFirst.kind_eq_eof_iff hToken⟩
  rw [Cursor.takeAll_eq_ahead]
  exact inStep_ahead source _

/-- Behind a name that was taken and a comma that was not, an open bracket is
read as it is read alone. The error names the end where it is in the source. -/
theorem takeAll_refines_open_bracket :
    ((Cursor.ofString "é f(1").takeAll [.unknown, .comma, .identifier]).2.parse =
      .error ⟨.expected .rightParen, [.root, .expression, .term, .exponent, .factor],
        ⟨.eof, none, ⟨6, 6⟩⟩⟩ := by
  have hParse := ((takeAll_refines "é f(1" [.unknown, .comma, .identifier]).1.parse "(1" rfl).2
  rw [hParse]
  rfl

end Reckon
