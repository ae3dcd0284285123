import Mathlib
import Reckon.Proofs.Grammar.Viable

/-!
# Reckon — blanks do not matter

A token is read up to the first character that does not belong to it, so blanks
end a token but are no part of any. Hence a source can be written again from its
tokens, with other blanks between them, and the parser, which never looks at a
span, cannot tell the two apart:

* `Token.spelling` — the text that a token is written with, which can be told from
  the token alone (`Token.Writes.eq_spelling`);
* `spaced` — texts one after the other with a gap behind each but the last.
  `spaced_spellings` says that spellings with blanks in the gaps keep the tokens
  apart, by induction on the tokens with the gap before the first one left open;
* `parse_of_contents` — one tree, or errors that say the same at the same place,
  for any two sources whose tokens differ in their spans only;
* `blanks_irrelevant` — both of it together.
-/

namespace Reckon

/-! ## Tokens without their places -/

/-- What a token says, wherever it stands. -/
def Token.content (t : Token) : TokenKind × Option String :=
  (t.kind, t.lexeme)

/-- The text that a token is written with: its lexeme, or the sign of its kind. -/
def Token.spelling (t : Token) : String :=
  t.lexeme.getD t.kind.text

/-- The texts of the tokens of a source. The end token has none. -/
def spellings (source : String) : List String :=
  (tokens source).dropLast.map Token.spelling

/-- Texts one after the other, with the first gap behind the first of them and so
on; there is no gap behind the last one. -/
def spaced (gap : Nat → String) : List String → String
  | [] => ""
  | [text] => text
  | text :: next :: more => text ++ gap 0 ++ spaced (fun i => gap (i + 1)) (next :: more)

/-- Runs of white space, none of them empty. -/
def Blanks (gap : Nat → String) : Prop :=
  ∀ i, gap i ≠ "" ∧ (gap i).toList.all Text.isBlank = true

/-- What an error says, except for the place at which it was found. -/
def ParseError.content (e : ParseError) : ParseFault × List Rule × TokenKind × Option String :=
  (e.fault, e.trail, e.found.content)

theorem Token.alike_iff {t t' : Token} : t.Alike t' ↔ t.content = t'.content := by
  rw [Token.content, Token.content, Prod.mk.injEq, Token.Alike]

/-! ## Writing tokens again -/

/-- The text of a sign is how its kind is referred to. -/
theorem text_of_sign {c : Char} {kind : TokenKind} (h : (c, kind) ∈ signs) :
    kind.text.toList = [c] := by
  have hSigns : ∀ p ∈ signs, p.2.text.toList = [p.1] := by decide
  exact hSigns _ h

/-- There is one text only that a token can be written with. -/
theorem Token.Writes.eq_spelling {t : Token} {text : List Char} (h : t.Writes text) :
    text = t.spelling.toList := by
  obtain ⟨kind, lexeme, span⟩ := t
  obtain ⟨hShape, hLexeme⟩ := h
  dsimp only at hShape hLexeme
  subst hLexeme
  unfold Token.spelling
  cases hShape with
  | sign hSign =>
    -- a sign keeps no lexeme, there is only one way to write it
    show _ = (Option.getD (kind.keeps _) kind.text).toList
    rw [keeps_of_sign hSign, Option.getD_none, text_of_sign hSign]
  | identifier _ _ | whole _ _ | fraction _ _ _ | unknown _ _ _ _ =>
    exact String.toList_ofList.symm

/-- Spellings with blanks between them keep their tokens apart, whatever blanks
stand before the first one. -/
theorem spaced_spellings {ts : List Token} (h : ∀ t ∈ ts, ∃ text, t.Writes text)
    (gap : Nat → String) (hGap : Blanks gap) (front : List Char)
    (hFront : ∀ c ∈ front, Text.isBlank c = true) :
    Spaced ts (front ++ (spaced gap (ts.map Token.spelling)).toList) := by
  induction ts generalizing gap front with
  | nil =>
    show Spaced [] (front ++ "".toList)
    rw [String.toList_empty, List.append_nil]
    exact .stop hFront
  | cons t ts ih =>
    rw [List.forall_mem_cons] at h
    obtain ⟨⟨text, hWrites⟩, hRest⟩ := h
    have hText := hWrites.eq_spelling
    cases ts with
    | nil =>
      -- nothing follows the last token
      have hStop : Spaced [] [] := .stop (by simp)
      have hNext := Spaced.next hFront hWrites (by simp) hStop
      rw [List.append_nil, hText] at hNext
      exact hNext
    | cons u ts =>
      -- the gap behind this token is the one in front of those that follow
      obtain ⟨hNonempty, hBlank⟩ := hGap 0
      rw [List.all_eq_true] at hBlank
      have hTail := ih hRest (fun i => gap (i + 1)) (fun i => hGap (i + 1)) _ hBlank
      have hApart : ∀ c ∈ ((gap 0).toList ++ (spaced (fun i => gap (i + 1))
          ((u :: ts).map Token.spelling)).toList).head?, Text.isBlank c = true := by
        obtain ⟨c, more, hChars⟩ := List.exists_cons_of_ne_nil
          (fun hNil => hNonempty (String.toList_eq_nil_iff.1 hNil))
        rw [hChars] at hBlank ⊢
        simpa using hBlank c (List.mem_cons_self ..)
      have hNext := Spaced.next hFront hWrites hApart hTail
      rw [hText] at hNext
      rw [List.map_cons, List.map_cons, spaced, String.toList_append, String.toList_append,
        List.append_assoc]
      exact hNext

/-- The tokens of a source, the end token apart, are those of a text that spaces
them out. -/
theorem contents_of_spaced {source : String} {chars : List Char}
    (h : Spaced (tokens source).dropLast chars) :
    (tokens (String.ofList chars)).map Token.content = (tokens source).map Token.content := by
  obtain ⟨us, e, hCovers, hAlike⟩ := h.exists_covers 0
  have hTokens : tokens (String.ofList chars) = us ++ [e] :=
    tokens_of_covers (by rwa [String.toList_ofList])
  -- both tables end with the end token, and nothing else is left to compare
  obtain ⟨init, hInit, -⟩ := hCovers.exists_init
  obtain ⟨init', hInit', -⟩ := (covers_tokens source).exists_init
  obtain ⟨rfl, hEnd⟩ := List.append_inj' hInit rfl
  have hContents : (tokens source).dropLast.map Token.content = us.map Token.content := by
    refine List.forall₂_eq_eq_eq ▸ List.forall₂_map_left_iff.2 (List.forall₂_map_right_iff.2 ?_)
    exact hAlike.imp fun _ _ => Token.alike_iff.1
  rw [hInit', List.dropLast_concat] at hContents
  rw [hTokens, hInit', List.map_append, List.map_append, hContents, List.singleton_inj.1 hEnd]
  rfl

/-- A source that is written again from its tokens has the same tokens. -/
theorem contents_spaced (source : String) {gap : Nat → String} (hGap : Blanks gap) :
    (tokens (spaced gap (spellings source))).map Token.content =
      (tokens source).map Token.content := by
  have hWrites : ∀ t ∈ (tokens source).dropLast, ∃ text, t.Writes text := by
    intro t ht
    refine exists_writes (List.mem_of_mem_dropLast ht) ?_
    obtain ⟨init, hInit, hKinds⟩ := (covers_tokens source).exists_init
    rw [hInit, List.dropLast_concat] at ht
    exact hKinds t ht
  have hSpaced := spaced_spellings hWrites gap hGap [] (by simp)
  have hContents := contents_of_spaced hSpaced
  rwa [List.nil_append, String.ofList_toList] at hContents

/-- Gaps of one blank each are what joins a list of texts. -/
theorem spaced_blank (texts : List String) :
    spaced (fun _ => " ") texts = " ".intercalate texts := by
  induction texts with
  | nil => rw [spaced, String.intercalate_nil]
  | cons text texts ih =>
    cases texts with
    | nil => rw [spaced, String.intercalate_singleton]
    | cons next more => rw [spaced, ih, String.intercalate_cons_cons]

/-! ## Reading tokens again -/

section Contents

variable {source source' : String}
  (h : (tokens source).map Token.content = (tokens source').map Token.content)
include h

theorem exists_alike_of_contents {j : Nat} {t : Token} (ht : (tokens source)[j]? = some t) :
    ∃ t', (tokens source')[j]? = some t' ∧ t.Alike t' := by
  have hContent : ((tokens source').map Token.content)[j]? = some t.content := by
    rw [← h, List.getElem?_map, ht, Option.map_some]
  rw [List.getElem?_map, Option.map_eq_some_iff] at hContent
  obtain ⟨t', ht', hSame⟩ := hContent
  exact ⟨t', ht', Token.alike_iff.2 hSame.symm⟩

/-- The same formula is read from the same contents. -/
theorem parse_ok_of_contents {f : Formula} (hParse : parse source = .ok f) :
    parse source' = .ok f := by
  have hScanned := Cursor.scanned_ofString source
  have hScanned' := Cursor.scanned_ofString source'
  obtain ⟨k, hFollows⟩ := Cursor.parse_ok_follows hScanned hScanned' hParse
  -- the tokens are alike up to the end, and there is nothing behind it
  have hUpToEnd : (Cursor.ofString source).Alike (Cursor.ofString source')
      (min k (Cursor.ofString source).last) :=
    .of_getElem? hScanned hScanned' (Nat.min_le_right ..) fun _ _ _ ht =>
      exists_alike_of_contents h ht
  exact hFollows (hUpToEnd.of_min hScanned hScanned').1

/-- The same is wrong with the same contents, at the token in the same place. -/
theorem parse_error_of_contents {e : ParseError} (hParse : parse source = .error e) :
    ∃ (k : Nat) (t' : Token), (tokens source)[k]? = some e.found ∧
      (tokens source')[k]? = some t' ∧ e.found.Alike t' ∧
      parse source' = .error ⟨e.fault, e.trail, t'⟩ := by
  obtain ⟨k, hk⟩ := Grammar.exists_getElem? hParse
  obtain ⟨t', ht', hAlike⟩ := exists_alike_of_contents h hk
  obtain ⟨t'', ht'', hParse'⟩ := Grammar.parse_of_alike hParse hk fun j _ t ht =>
    exists_alike_of_contents h ht
  rw [ht'] at ht''
  cases ht''
  exact ⟨k, t', hk, ht', hAlike, hParse'⟩

theorem parse_of_contents :
    (parse source).mapError ParseError.content = (parse source').mapError ParseError.content := by
  cases hParse : parse source with
  | ok f => rw [parse_ok_of_contents h hParse]
  | error e =>
    obtain ⟨k, t', -, -, hAlike, hParse'⟩ := parse_error_of_contents h hParse
    rw [hParse']
    show Except.error (e.fault, e.trail, e.found.content) = .error (e.fault, e.trail, t'.content)
    rw [Token.alike_iff.1 hAlike]

end Contents

/-- **White space between tokens is irrelevant.** Any source, whether it is a
formula or not, can be written again from the texts of its tokens with single
blanks or any other runs of white space between them: it has the same kinds and
lexemes then. And sources with the same kinds and lexemes are read as one tree, or
refused with errors that say the same and name the token in the same place, so that
only their spans can differ. -/
theorem blanks_irrelevant :
    (∀ source gap, Blanks gap →
      (tokens (spaced gap (spellings source))).map Token.content =
        (tokens source).map Token.content) ∧
    (∀ source,
      (tokens (" ".intercalate (spellings source))).map Token.content =
        (tokens source).map Token.content) ∧
    ∀ source source', (tokens source).map Token.content = (tokens source').map Token.content →
      (parse source).mapError ParseError.content = (parse source').mapError ParseError.content ∧
      ∀ e e', parse source = .error e → parse source' = .error e' →
        ∃ k : Nat, (tokens source)[k]? = some e.found ∧ (tokens source')[k]? = some e'.found := by
  refine ⟨fun source gap hGap => contents_spaced source hGap, fun source => ?_, ?_⟩
  · rw [← spaced_blank]
    exact contents_spaced source fun _ => ⟨by decide, by decide⟩
  · intro source source' hContents
    refine ⟨parse_of_contents hContents, fun e e' hParse hParse' => ?_⟩
    obtain ⟨k, t', hk, ht', -, hError⟩ := parse_error_of_contents hContents hParse
    rw [hParse'] at hError
    cases hError
    exact ⟨k, hk, ht'⟩

/-- A number that ends in a point, a name and a character that means nothing are
told apart without any blank. With a tab and a wide blank between them they are the
same tokens, and the source is refused at the name in either form. -/
theorem blanks_irrelevant_wide_gaps :
    Blanks (fun i => if i = 0 then "\t" else "\u3000\n") ∧
      spaced (fun i => if i = 0 then "\t" else "\u3000\n") (spellings "3.x€") =
        "3.\tx\u3000\n€" ∧
      (tokens "3.\tx\u3000\n€").map Token.content =
        [(.number, some "3."), (.identifier, some "x"), (.unknown, some "€"), (.eof, none)] ∧
      (parse "3.\tx\u3000\n€").mapError ParseError.content =
        .error (.expected .eof, [.root], .identifier, some "x") := by
  have hBlanks : Blanks (fun i => if i = 0 then "\t" else "\u3000\n") := by
    intro i
    dsimp only
    split
    · decide
    · decide
  have hText : spaced (fun i => if i = 0 then "\t" else "\u3000\n") (spellings "3.x€") =
      "3.\tx\u3000\n€" := by decide
  have hContents := blanks_irrelevant.1 "3.x€" _ hBlanks
  rw [hText] at hContents
  refine ⟨hBlanks, hText, hContents.trans (by decide), ?_⟩
  rw [(blanks_irrelevant.2.2 _ _ hContents).1]
  rfl

end Reckon
