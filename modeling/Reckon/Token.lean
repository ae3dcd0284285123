/-!
# Reckon — tokens

A token is what a formula is written in: an operator sign, a bracket, a comma,
an identifier, a number, a character that means nothing, or the end of the
text. It knows the bytes of the source it covers.
-/

namespace Reckon

/-- A range of bytes of the source, the end not included. -/
structure Span where
  start : Nat
  stop : Nat
deriving DecidableEq, Repr

/-- The range in words: its two ends with two points between them. -/
def Span.text (s : Span) : String :=
  Nat.repr s.start ++ ".." ++ Nat.repr s.stop

/-- The kinds of tokens. -/
inductive TokenKind where
  | plus
  | minus
  | star
  | slash
  | percent
  | caret
  | leftParen
  | rightParen
  | comma
  | identifier
  | number
  | unknown
  | eof
deriving DecidableEq, Repr

namespace TokenKind

/-- How messages refer to a kind: its sign, or a description. -/
def text : TokenKind → String
  | plus => "+"
  | minus => "-"
  | star => "*"
  | slash => "/"
  | percent => "%"
  | caret => "^"
  | leftParen => "("
  | rightParen => ")"
  | comma => ","
  | identifier => "identifier"
  | number => "number"
  | unknown => "unknown"
  | eof => "end of input"

/-- The name of a kind in the token table. -/
def name : TokenKind → String
  | plus => "Plus"
  | minus => "Minus"
  | star => "Star"
  | slash => "Slash"
  | percent => "Percent"
  | caret => "Caret"
  | leftParen => "LeftParen"
  | rightParen => "RightParen"
  | comma => "Comma"
  | identifier => "Identifier"
  | number => "Number"
  | unknown => "Unknown"
  | eof => "Eof"

/-- The kind of a token that is a single sign. -/
def ofSign? : Char → Option TokenKind
  | '+' => some plus
  | '-' => some minus
  | '*' => some star
  | '/' => some slash
  | '%' => some percent
  | '^' => some caret
  | '(' => some leftParen
  | ')' => some rightParen
  | ',' => some comma
  | _ => none

end TokenKind

/-- A token. The lexeme is the source text of an identifier, a number or an
unknown character; the other kinds have none, for there is only one way to
write them. -/
structure Token where
  kind : TokenKind
  lexeme : Option String
  span : Span
deriving DecidableEq, Repr

/-- How messages refer to a token. -/
def Token.text (t : Token) : String :=
  match t.lexeme with
  | some lexeme => t.kind.text ++ " \"" ++ lexeme ++ "\""
  | none => t.kind.text

end Reckon
