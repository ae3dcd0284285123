import Mathlib
import Reckon.Formula.Parse
import Reckon.Proofs.Token

/-!
# Reckon — the grammar of formulas

Which tokens derive which formula, said without a parser:

    expression := term (('+' | '-') term)*
    term       := exponent (('*' | '/' | '%') exponent)*
    exponent   := factor ('^' exponent)?
    factor     := identifier ('(' parameters? ')')?
                | '(' expression ')'
                | ('+' | '-') factor
                | number
    parameters := expression (',' expression)*

`Expression ts f d` says that the tokens `ts` derive the formula `f` and that
`d` rules are open at once, at most, on the way. A rule is open while the rules
below it are. The repeated operands of a chain are all read under the one rule
that started it, and so are the operands of powers and the operand of a sign:

* **chains** — the formulas of a chain are folded to the left (`Chain`);
* **powers** — an exponent derives the rest of a power, so powers are folded to
  the right, but in the rule that is open already;
* **calls** — a call opens the rule for its parameters even if it has none.
-/

namespace Reckon.Grammar

/-- The signs of a sum. -/
inductive SumSign : TokenKind → Operator → Prop
  | plus : SumSign .plus .plus
  | minus : SumSign .minus .minus

/-- The signs of a product. -/
inductive ProductSign : TokenKind → Operator → Prop
  | times : ProductSign .star .times
  | divide : ProductSign .slash .divide
  | modulo : ProductSign .percent .modulo

/-- `(sign operand)*` behind a formula, folded to the left. -/
inductive Chain (Sign : TokenKind → Operator → Prop)
    (Operand : List Token → Formula → Nat → Prop) : Formula → List Token → Formula → Nat → Prop
  | stop {left : Formula} : Chain Sign Operand left [] left 0
  | link {left right f : Formula} {sign : Token} {op : Operator} {ts us : List Token}
      {d d' : Nat} (hSign : Sign sign.kind op) (hRight : Operand ts right d)
      (hRest : Chain Sign Operand (.binary op left right) us f d') :
      Chain Sign Operand left (sign :: (ts ++ us)) f (max d d')

/-- `(',' operand)*`. -/
inductive Commas (Operand : List Token → Formula → Nat → Prop) :
    List Token → List Formula → Nat → Prop
  | stop : Commas Operand [] [] 0
  | link {p : Formula} {ps : List Formula} {comma : Token} {ts us : List Token} {d d' : Nat}
      (hComma : comma.kind = .comma) (hHead : Operand ts p d) (hRest : Commas Operand us ps d') :
      Commas Operand (comma :: (ts ++ us)) (p :: ps) (max d d')

mutual

inductive Expression : List Token → Formula → Nat → Prop
  | chain {left f : Formula} {ts us : List Token} {d d' : Nat} (hLeft : Term ts left d)
      (hRest : Chain SumSign Term left us f d') : Expression (ts ++ us) f (max d d' + 1)

inductive Term : List Token → Formula → Nat → Prop
  | chain {left f : Formula} {ts us : List Token} {d d' : Nat} (hLeft : Exponent ts left d)
      (hRest : Chain ProductSign Exponent left us f d') : Term (ts ++ us) f (max d d' + 1)

inductive Exponent : List Token → Formula → Nat → Prop
  | factor {f : Formula} {ts : List Token} {d : Nat} (hFactor : Factor ts f d) :
      Exponent ts f (d + 1)
  | power {base exponent : Formula} {caret : Token} {ts us : List Token} {d d' : Nat}
      (hBase : Factor ts base d) (hCaret : caret.kind = .caret)
      (hExponent : Exponent us exponent d') :
      Exponent (ts ++ caret :: us) (.binary .power base exponent) (max (d + 1) d')

inductive Factor : List Token → Formula → Nat → Prop
  | var {name : Token} (hName : name.kind = .identifier) :
      Factor [name] (.var (name.lexeme.getD "")) 1
  | call {ps : List Formula} {name left right : Token} {ts : List Token} {d : Nat}
      (hName : name.kind = .identifier) (hLeft : left.kind = .leftParen)
      (hParameters : Parameters ts ps d) (hRight : right.kind = .rightParen) :
      Factor (name :: left :: (ts ++ [right])) (.call (name.lexeme.getD "") ps) (d + 1)
  | group {f : Formula} {left right : Token} {ts : List Token} {d : Nat}
      (hLeft : left.kind = .leftParen) (hInner : Expression ts f d)
      (hRight : right.kind = .rightParen) : Factor (left :: (ts ++ [right])) f (d + 1)
  | signed {f : Formula} {sign : Token} {op : Operator} {ts : List Token} {d : Nat}
      (hSign : SumSign sign.kind op) (hOperand : Factor ts f d) :
      Factor (sign :: ts) (.unary op f) d
  | number {numeral : Token} {literal : Literal} (hKind : numeral.kind = .number)
      (hRead : Number.read (numeral.lexeme.getD "") = .ok literal) :
      Factor [numeral] (.number literal) 1

inductive Parameters : List Token → List Formula → Nat → Prop
  | none : Parameters [] [] 1
  | some {p : Formula} {ps : List Formula} {ts us : List Token} {d d' : Nat}
      (hHead : Expression ts p d) (hRest : Commas Expression us ps d') :
      Parameters (ts ++ us) (p :: ps) (max d d' + 1)

end

/-- The tokens derive the formula as a whole, under the root. -/
inductive Sentence : List Token → Formula → Nat → Prop
  | root {f : Formula} {ts : List Token} {d : Nat} (h : Expression ts f d) : Sentence ts f (d + 1)

/-! ## Signs -/

theorem sumOperator?_eq_some {kind : TokenKind} {op : Operator} :
    Parse.sumOperator? kind = some op ↔ SumSign kind op := by
  constructor
  · intro h
    unfold Parse.sumOperator? at h
    split at h <;> cases h <;> constructor
  · rintro (_ | _) <;> rfl

theorem productOperator?_eq_some {kind : TokenKind} {op : Operator} :
    Parse.productOperator? kind = some op ↔ ProductSign kind op := by
  constructor
  · intro h
    unfold Parse.productOperator? at h
    split at h <;> cases h <;> constructor
  · rintro (_ | _ | _) <;> rfl

theorem SumSign.ne_eof {kind : TokenKind} {op : Operator} (h : SumSign kind op) :
    kind ≠ .eof := by
  cases h <;> decide

theorem ProductSign.ne_eof {kind : TokenKind} {op : Operator} (h : ProductSign kind op) :
    kind ≠ .eof := by
  cases h <;> decide

/-! ## First tokens and depth -/

theorem Factor.depth_pos {ts : List Token} {f : Formula} {d : Nat} : Factor ts f d → 0 < d
  | .var _ | .call _ _ _ _ | .group _ _ _ | .number _ _ => Nat.succ_pos _
  | .signed _ hOperand => hOperand.depth_pos

/-- A factor has tokens, and does not start with a closing bracket. -/
theorem Factor.head {ts : List Token} {f : Formula} {d : Nat} (h : Factor ts f d) :
    ∃ t us, ts = t :: us ∧ t.kind ≠ .rightParen := by
  cases h with
  | var hName => exact ⟨_, _, rfl, by rw [hName]; decide⟩
  | call hName _ _ _ => exact ⟨_, _, rfl, by rw [hName]; decide⟩
  | group hLeft _ _ => exact ⟨_, _, rfl, by rw [hLeft]; decide⟩
  | signed hSign _ => exact ⟨_, _, rfl, fun hKind => by rw [hKind] at hSign; cases hSign⟩
  | number hKind _ => exact ⟨_, _, rfl, by rw [hKind]; decide⟩

/-- Nor does an expression: it starts with a factor. -/
theorem Expression.head {ts : List Token} {f : Formula} {d : Nat} (h : Expression ts f d) :
    ∃ t us, ts = t :: us ∧ t.kind ≠ .rightParen := by
  obtain ⟨hTerm, -⟩ := h
  obtain ⟨hExponent, -⟩ := hTerm
  cases hExponent with
  | factor hFactor =>
    obtain ⟨t, us, rfl, hKind⟩ := hFactor.head
    exact ⟨t, _, rfl, hKind⟩
  | power hBase _ _ =>
    obtain ⟨t, us, rfl, hKind⟩ := hBase.head
    exact ⟨t, _, rfl, hKind⟩

/-! ## Operands that stand alone -/

theorem Exponent.single {ts : List Token} {f : Formula} {d : Nat} (h : Exponent ts f d) :
    Term ts f (d + 1) := by
  simpa using Term.chain h .stop

theorem Term.single {ts : List Token} {f : Formula} {d : Nat} (h : Term ts f d) :
    Expression ts f (d + 1) := by
  simpa using Expression.chain h .stop

end Reckon.Grammar
