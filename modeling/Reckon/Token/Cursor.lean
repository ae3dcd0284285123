import Reckon.Text.Blank
import Reckon.Token

/-!
# Reckon — reading tokens

A cursor stands on a token of a source and holds the text that follows it.
Moving it on skips blanks and takes the longest token that starts there, so the
tokens of a source are found one at a time and in order. At the end of the
source a cursor stands on the end token and stays there.

* `Cursor.ofString` — a cursor on the first token of a source;
* `Cursor.advance` — on to the next token;
* `Cursor.consume?` — the same, if the token is of a given kind;
* `tokens` — all tokens of a source, the end token included.
-/

namespace Reckon

/-- Whether an identifier can start with the character. -/
def isIdentifierStart (c : Char) : Bool :=
  c.isAlpha || c == '_' || c == '@' || c == '$' || c == '#'

/-- Whether an identifier can go on with the character. -/
def isIdentifierRest (c : Char) : Bool :=
  isIdentifierStart c || c.isDigit

/-- Splits a number off the front of a text: digits, then a point with the
digits after it if there is one. -/
def spanNumber (chars : List Char) : List Char × List Char :=
  let whole := chars.takeWhile Char.isDigit
  match chars.dropWhile Char.isDigit with
  | '.' :: rest => (whole ++ '.' :: rest.takeWhile Char.isDigit, rest.dropWhile Char.isDigit)
  | rest => (whole, rest)

/-- Splits an identifier off the front of a text. -/
def spanIdentifier (chars : List Char) : List Char × List Char :=
  (chars.takeWhile isIdentifierRest, chars.dropWhile isIdentifierRest)

/-- Kind, characters and rest of a token whose text matters, at the front of a
text that starts with `c`. -/
def spanLexeme (c : Char) (rest : List Char) : TokenKind × List Char × List Char :=
  if c.isDigit then (.number, spanNumber (c :: rest))
  else if isIdentifierStart c then (.identifier, spanIdentifier (c :: rest))
  else (.unknown, [c], rest)

/-- The number of bytes of a text. -/
def byteLength (chars : List Char) : Nat :=
  chars.foldl (fun n c => n + c.utf8Size) 0

/-- Skips the blanks at the front of a text that starts at byte `offset`. -/
def skipBlanks : List Char → Nat → List Char × Nat
  | [], offset => ([], offset)
  | c :: rest, offset =>
    if Text.isBlank c then skipBlanks rest (offset + c.utf8Size) else (c :: rest, offset)

/-- A position in a source. -/
structure Cursor where
  /-- The token at the position. -/
  current : Token
  /-- The text behind that token. -/
  rest : List Char
  /-- The byte at which `rest` starts. -/
  offset : Nat
  /-- The number of bytes of the whole source. -/
  size : Nat
deriving DecidableEq, Repr

namespace Cursor

/-- The cursor on the first token of a text that starts at byte `offset` of a
source of `size` bytes. -/
def scan (chars : List Char) (offset size : Nat) : Cursor :=
  let (chars, start) := skipBlanks chars offset
  match chars with
  | [] => ⟨⟨.eof, none, ⟨start, start⟩⟩, [], start, size⟩
  | c :: rest =>
    match TokenKind.ofSign? c with
    | some kind => ⟨⟨kind, none, ⟨start, start + 1⟩⟩, rest, start + 1, size⟩
    | none =>
      let (kind, lexeme, rest) := spanLexeme c rest
      let stop := start + byteLength lexeme
      ⟨⟨kind, some (String.ofList lexeme), ⟨start, stop⟩⟩, rest, stop, size⟩

/-- The cursor on the first token of a source. -/
def ofString (source : String) : Cursor :=
  scan source.toList 0 source.utf8ByteSize

/-- The cursor on the next token. -/
def advance (c : Cursor) : Cursor :=
  scan c.rest c.offset c.size

/-- The kind of the token at the cursor. -/
def kind (c : Cursor) : TokenKind :=
  c.current.kind

/-- The cursor on the next token, if the token at the cursor is of the kind. -/
def consume? (c : Cursor) (kind : TokenKind) : Option Cursor :=
  if c.kind = kind then some c.advance else none

/-- A bound on the number of tokens from the cursor on, the end token left
out: each of them covers a byte. -/
def bound (c : Cursor) : Nat :=
  c.size - c.current.span.start

/-- The tokens from the cursor on, at most `n` of them before the end token. -/
def tokensUpTo : Nat → Cursor → List Token
  | 0, c => [c.current]
  | n + 1, c => if c.kind = .eof then [c.current] else c.current :: tokensUpTo n c.advance

/-- The tokens from the cursor on, the end token included. -/
def tokens (c : Cursor) : List Token :=
  tokensUpTo c.bound c

end Cursor

/-- The tokens of a source, the end token included. -/
def tokens (source : String) : List Token :=
  (Cursor.ofString source).tokens

end Reckon
