import Reckon.Formula
import Reckon.Number.Reading
import Reckon.Token.Cursor

/-!
# Reckon — reading formulas

A formula is read by the rules

    expression := term (('+' | '-') term)*
    term       := exponent (('*' | '/' | '%') exponent)*
    exponent   := factor ('^' exponent)?
    factor     := identifier ('(' parameters? ')')?
                | '(' expression ')'
                | ('+' | '-') factor
                | number
    parameters := expression (',' expression)*

with one token of lookahead. Only brackets and calls nest the rules; chains of
operators and runs of signs are read in a loop. At most `maxRules` rules may be
open at once. What stops the reading is reported together with the rules that
were open and the token they met.

The recursion is on the number of rules that may still be opened. The loops
are bounded by `Cursor.bound`: each round takes a token, and when no token is
left none of them goes on.
-/

namespace Reckon

/-- The rules of the grammar, and the root that asks for a whole formula. -/
inductive Rule where
  | root
  | expression
  | term
  | exponent
  | factor
  | parameters
deriving DecidableEq, Repr

/-- The name of a rule. -/
def Rule.name : Rule → String
  | root => "root"
  | expression => "expression"
  | term => "term"
  | exponent => "exponent"
  | factor => "factor"
  | parameters => "parameters"

/-- How many rules may be open at once. -/
def maxRules : Nat := 512

/-- What is wrong with a source. -/
inductive ParseFault where
  /-- A token of this kind has to stand here. -/
  | expected (kind : TokenKind)
  /-- The text of a number cannot be read. -/
  | invalidNumber (cause : Number.ReadError)
  /-- One more rule would have to be opened than may be. -/
  | tooDeep
deriving DecidableEq, Repr

/-- The fault in words. -/
def ParseFault.message : ParseFault → String
  | expected kind => "Expected \"" ++ kind.text ++ "\""
  | invalidNumber _ => "Invalid number literal"
  | tooDeep => "Expression is nested too deeply"

/-- Why a source is no formula: the fault, the open rules from the root on, and
the token they met. -/
structure ParseError where
  fault : ParseFault
  trail : List Rule
  found : Token
deriving DecidableEq, Repr

/-- The error in words. -/
def ParseError.message (e : ParseError) : String :=
  let lexeme := match e.found.lexeme with
    | some lexeme => " (" ++ lexeme ++ ")"
    | none => ""
  "While parsing " ++ String.intercalate " > " (e.trail.map Rule.name) ++ "\n"
    ++ e.fault.message ++ " at " ++ Nat.repr e.found.span.start
    ++ " but found \"" ++ e.found.kind.text ++ "\"" ++ lexeme

namespace Parse

/-- What a rule yields: its result and the cursor behind it, or why there is
none. -/
abbrev Result (α : Type) := Except ParseError (α × Cursor)

/-- Stops at the token at the cursor. The open rules are given innermost
first. -/
def fail {α : Type} (fault : ParseFault) (rules : List Rule) (c : Cursor) : Except ParseError α :=
  .error ⟨fault, rules.reverse, c.current⟩

/-- The cursor behind a token that has to be of a kind. -/
def expect (kind : TokenKind) (rules : List Rule) (c : Cursor) : Except ParseError Cursor :=
  match c.consume? kind with
  | some next => .ok next
  | none => fail (.expected kind) rules c

/-! ## Loops -/

/-- The operators of an expression. -/
def sumOperator? : TokenKind → Option Operator
  | .plus => some .plus
  | .minus => some .minus
  | _ => none

/-- The operators of a term. -/
def productOperator? : TokenKind → Option Operator
  | .star => some .times
  | .slash => some .divide
  | .percent => some .modulo
  | _ => none

/-- Reads operators and operands behind `left` and folds them to the left. -/
def chain (operator? : TokenKind → Option Operator) (operand : Cursor → Result Formula) :
    Nat → Formula → Cursor → Result Formula
  | 0, left, c => .ok (left, c)
  | n + 1, left, c =>
    match operator? c.kind with
    | none => .ok (left, c)
    | some op =>
      match operand c.advance with
      | .error e => .error e
      | .ok (right, c) => chain operator? operand n (.binary op left right) c

/-- Reads powers behind `last`, the latest operand; `bases` are the operands
before it, the latest first. The powers are folded to the right. -/
def powers (operand : Cursor → Result Formula) :
    Nat → List Formula → Formula → Cursor → Result Formula
  | 0, bases, last, c => .ok (bases.foldl (fun power base => .binary .power base power) last, c)
  | n + 1, bases, last, c =>
    match c.consume? .caret with
    | none => .ok (bases.foldl (fun power base => .binary .power base power) last, c)
    | some c =>
      match operand c with
      | .error e => .error e
      | .ok (next, c) => powers operand n (last :: bases) next c

/-- Reads a run of signs; `before` are the signs before it, the latest first. -/
def signs : Nat → List Operator → Cursor → List Operator × Cursor
  | 0, before, c => (before, c)
  | n + 1, before, c =>
    match sumOperator? c.kind with
    | none => (before, c)
    | some sign => signs n (sign :: before) c.advance

/-- Puts signs in front of a formula, the first of the list innermost. -/
def withSigns (signs : List Operator) (f : Formula) : Formula :=
  signs.foldl (fun operand sign => .unary sign operand) f

/-- Reads further parameters behind `before`, the latest first. -/
def moreParameters (operand : Cursor → Result Formula) :
    Nat → List Formula → Cursor → Result (List Formula)
  | 0, before, c => .ok (before.reverse, c)
  | n + 1, before, c =>
    match c.consume? .comma with
    | none => .ok (before.reverse, c)
    | some c =>
      match operand c with
      | .error e => .error e
      | .ok (p, c) => moreParameters operand n (p :: before) c

/-! ## Rules

Each rule is given the number of rules that may still be opened, itself
included, and the rules that are open, innermost first. -/

/-- Reads a number at the cursor. -/
def number (rules : List Rule) (c : Cursor) : Result Formula :=
  match expect .number rules c with
  | .error e => .error e
  | .ok next =>
    match Number.read (c.current.lexeme.getD "") with
    | .error cause => fail (.invalidNumber cause) rules c
    | .ok literal => .ok (.number literal, next)

/-- A variable, a call, a bracketed formula or a number. The brackets of a call
enclose what `parameters` reads, and all others what `expression` reads. -/
def atom (expression : Cursor → Result Formula) (parameters : Cursor → Result (List Formula))
    (rules : List Rule) (c : Cursor) : Result Formula :=
  match c.kind with
  | .identifier =>
    let name := c.current.lexeme.getD ""
    let c := c.advance
    match c.consume? .leftParen with
    | none => .ok (.var name, c)
    | some c =>
      match parameters c with
      | .error e => .error e
      | .ok (ps, c) =>
        match expect .rightParen rules c with
        | .error e => .error e
        | .ok c => .ok (.call name ps, c)
  | .leftParen =>
    match expression c.advance with
    | .error e => .error e
    | .ok (f, c) =>
      match expect .rightParen rules c with
      | .error e => .error e
      | .ok c => .ok (f, c)
  | _ => number rules c

mutual

/-- Terms joined by plus and minus. -/
def expression : Nat → List Rule → Cursor → Result Formula
  | 0, rules, c => fail .tooDeep (.expression :: rules) c
  | room + 1, rules, c =>
    let rules := .expression :: rules
    match term room rules c with
    | .error e => .error e
    | .ok (left, c) => chain sumOperator? (term room rules) c.bound left c

/-- Powers joined by the operators of a product. -/
def term : Nat → List Rule → Cursor → Result Formula
  | 0, rules, c => fail .tooDeep (.term :: rules) c
  | room + 1, rules, c =>
    let rules := .term :: rules
    match exponent room rules c with
    | .error e => .error e
    | .ok (left, c) => chain productOperator? (exponent room rules) c.bound left c

/-- Factors joined by the operator of powers. -/
def exponent : Nat → List Rule → Cursor → Result Formula
  | 0, rules, c => fail .tooDeep (.exponent :: rules) c
  | room + 1, rules, c =>
    let rules := .exponent :: rules
    match factor room rules c with
    | .error e => .error e
    | .ok (base, c) => powers (factor room rules) c.bound [] base c

/-- A variable, a call, a bracketed formula or a number, behind any signs. -/
def factor : Nat → List Rule → Cursor → Result Formula
  | 0, rules, c => fail .tooDeep (.factor :: rules) c
  | room + 1, rules, c =>
    let rules := .factor :: rules
    let (before, c) := signs c.bound [] c
    match atom (expression room rules) (parameters room rules) rules c with
    | .error e => .error e
    | .ok (f, c) => .ok (withSigns before f, c)

/-- The parameters of a call, up to its closing bracket. -/
def parameters : Nat → List Rule → Cursor → Result (List Formula)
  | 0, rules, c => fail .tooDeep (.parameters :: rules) c
  | room + 1, rules, c =>
    let rules := .parameters :: rules
    if c.kind = .rightParen then .ok ([], c)
    else
      match expression room rules c with
      | .error e => .error e
      | .ok (p, c) => moreParameters (expression room rules) c.bound [p] c

end

end Parse

/-- Reads the tokens from a cursor on as one formula. -/
def Cursor.parse (c : Cursor) : Except ParseError Formula :=
  match Parse.expression (maxRules - 1) [.root] c with
  | .error e => .error e
  | .ok (f, c) =>
    match Parse.expect .eof [.root] c with
    | .error e => .error e
    | .ok _ => .ok f

/-- Reads a source as a formula. -/
def parse (source : String) : Except ParseError Formula :=
  (Cursor.ofString source).parse

end Reckon
