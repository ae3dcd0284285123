import Mathlib
import Reckon.Proofs.Formula
import Reckon.Proofs.Grammar

/-!
# Reckon — what the grammar sees of tokens

A derivation looks at kinds and lexemes only. Tokens that have what it looks at
derive as well, and at the same depth:

* `Carries` — what has to be known of tokens that stand in for others. How the
  formulas are related is left open;
* `Expression.carry` — derivations are carried over to the tokens that stand in,
  by one induction over all rules of the grammar;
* `Expression.of_kinds` — tokens of the same kinds derive some formula, as long as
  their numbers can be read;
* `Expression.ne_eof` — nothing is derived from the end token.
-/

namespace Reckon.Grammar

/-! ## Tokens that stand in for others -/

/-- What is derived from tokens that stand in for others by `R` is related by `S`
to what is derived from the others. -/
structure Carries (R : Token → Token → Prop) (S : Formula → Formula → Prop) : Prop where
  kind : ∀ {t t'}, R t t' → t'.kind = t.kind
  number : ∀ {t t' literal}, R t t' → t.kind = .number →
    Number.read (t.lexeme.getD "") = .ok literal →
    ∃ literal', Number.read (t'.lexeme.getD "") = .ok literal' ∧
      S (.number literal) (.number literal')
  var : ∀ {t t'}, R t t' → t.kind = .identifier →
    S (.var (t.lexeme.getD "")) (.var (t'.lexeme.getD ""))
  binary : ∀ {op left left' right right'}, S left left' → S right right' →
    S (.binary op left right) (.binary op left' right')
  unary : ∀ {op f f'}, S f f' → S (.unary op f) (.unary op f')
  call : ∀ {t t' ps ps'}, R t t' → t.kind = .identifier → List.Forall₂ S ps ps' →
    S (.call (t.lexeme.getD "") ps) (.call (t'.lexeme.getD "") ps')

/-- A derivation is carried over, and keeps its depth. -/
theorem Expression.carry {R : Token → Token → Prop} {S : Formula → Formula → Prop}
    (hR : Carries R S) {ts : List Token} {f : Formula} {d : Nat} (h : Expression ts f d) :
    ∀ ts', List.Forall₂ R ts ts' → ∃ f', S f f' ∧ Expression ts' f' d := by
  -- a chain is carried over behind any formula related to the one it starts behind
  refine @Expression.rec
    (fun ts f d _ => ∀ ts', List.Forall₂ R ts ts' → ∃ f', S f f' ∧ Expression ts' f' d)
    (fun ts f d _ => ∀ ts', List.Forall₂ R ts ts' → ∃ f', S f f' ∧ Term ts' f' d)
    (fun ts f d _ => ∀ ts', List.Forall₂ R ts ts' → ∃ f', S f f' ∧ Exponent ts' f' d)
    (fun ts f d _ => ∀ ts', List.Forall₂ R ts ts' → ∃ f', S f f' ∧ Factor ts' f' d)
    (fun ts ps d _ => ∀ ts', List.Forall₂ R ts ts' →
      ∃ ps', List.Forall₂ S ps ps' ∧ Parameters ts' ps' d)
    (fun left ts f d _ => ∀ left' ts', S left left' → List.Forall₂ R ts ts' →
      ∃ f', S f f' ∧ Chain SumSign Term left' ts' f' d)
    (fun left ts f d _ => ∀ left' ts', S left left' → List.Forall₂ R ts ts' →
      ∃ f', S f f' ∧ Chain ProductSign Exponent left' ts' f' d)
    (fun ts ps d _ => ∀ ts', List.Forall₂ R ts ts' →
      ∃ ps', List.Forall₂ S ps ps' ∧ Commas Expression ts' ps' d)
    ?sum ?product ?factor ?power ?var ?call ?group ?signed ?number ?noParameters ?parameters
    ?sumStop ?sumLink ?productStop ?productLink ?commasStop ?commasLink ts f d h
  case sum | product =>
    intro left f ts us d d' _ _ ihLeft ihRest ts' hAll
    obtain ⟨us', vs', rfl, hFirst, hSecond⟩ := forall₂_of_append hAll
    obtain ⟨left', hSame, hLeft⟩ := ihLeft us' hFirst
    obtain ⟨f', hSame', hRest⟩ := ihRest left' vs' hSame hSecond
    exact ⟨f', hSame', .chain hLeft hRest⟩
  case factor =>
    intro f ts d _ ih ts' hAll
    obtain ⟨f', hSame, hFactor⟩ := ih ts' hAll
    exact ⟨f', hSame, .factor hFactor⟩
  case power =>
    intro base exponent caret ts us d d' _ hCaret _ ihBase ihExponent ts' hAll
    obtain ⟨us', vs', rfl, hFirst, hSecond⟩ := forall₂_of_append hAll
    obtain ⟨caret', ws', hCaret', hThird, rfl⟩ := List.forall₂_cons_left_iff.1 hSecond
    obtain ⟨base', hSame, hBase⟩ := ihBase us' hFirst
    obtain ⟨exponent', hSame', hExponent⟩ := ihExponent ws' hThird
    exact ⟨_, hR.binary hSame hSame', .power hBase ((hR.kind hCaret').trans hCaret) hExponent⟩
  case var =>
    intro name hName ts' hAll
    obtain ⟨name', us', hName', hNone, rfl⟩ := List.forall₂_cons_left_iff.1 hAll
    obtain rfl := List.forall₂_nil_left_iff.1 hNone
    exact ⟨_, hR.var hName' hName, .var ((hR.kind hName').trans hName)⟩
  case call =>
    intro ps name left right ts d hName hLeft _ hRight ih ts' hAll
    obtain ⟨name', us', hName', hBehind, rfl⟩ := List.forall₂_cons_left_iff.1 hAll
    obtain ⟨left', vs', hLeft', hInside, rfl⟩ := List.forall₂_cons_left_iff.1 hBehind
    obtain ⟨ws', xs', rfl, hInner, hEnd⟩ := forall₂_of_append hInside
    obtain ⟨right', ys', hRight', hNone, rfl⟩ := List.forall₂_cons_left_iff.1 hEnd
    obtain rfl := List.forall₂_nil_left_iff.1 hNone
    obtain ⟨ps', hSame, hParameters⟩ := ih ws' hInner
    exact ⟨_, hR.call hName' hName hSame, .call ((hR.kind hName').trans hName)
      ((hR.kind hLeft').trans hLeft) hParameters ((hR.kind hRight').trans hRight)⟩
  case group =>
    intro f left right ts d hLeft _ hRight ih ts' hAll
    obtain ⟨left', us', hLeft', hInside, rfl⟩ := List.forall₂_cons_left_iff.1 hAll
    obtain ⟨vs', ws', rfl, hInner, hEnd⟩ := forall₂_of_append hInside
    obtain ⟨right', xs', hRight', hNone, rfl⟩ := List.forall₂_cons_left_iff.1 hEnd
    obtain rfl := List.forall₂_nil_left_iff.1 hNone
    obtain ⟨f', hSame, hExpression⟩ := ih vs' hInner
    exact ⟨f', hSame,
      .group ((hR.kind hLeft').trans hLeft) hExpression ((hR.kind hRight').trans hRight)⟩
  case signed =>
    intro f sign op ts d hSign _ ih ts' hAll
    obtain ⟨sign', us', hSign', hBehind, rfl⟩ := List.forall₂_cons_left_iff.1 hAll
    obtain ⟨f', hSame, hFactor⟩ := ih us' hBehind
    exact ⟨_, hR.unary hSame, .signed (hR.kind hSign' ▸ hSign) hFactor⟩
  case number =>
    intro numeral literal hKind hRead ts' hAll
    obtain ⟨numeral', us', hNumeral, hNone, rfl⟩ := List.forall₂_cons_left_iff.1 hAll
    obtain rfl := List.forall₂_nil_left_iff.1 hNone
    -- the only place where more than the kind is needed to derive anything
    obtain ⟨literal', hRead', hSame⟩ := hR.number hNumeral hKind hRead
    exact ⟨_, hSame, .number ((hR.kind hNumeral).trans hKind) hRead'⟩
  case noParameters =>
    intro ts' hAll
    obtain rfl := List.forall₂_nil_left_iff.1 hAll
    exact ⟨[], .nil, .none⟩
  case parameters =>
    intro p ps ts us d d' _ _ ihHead ihRest ts' hAll
    obtain ⟨us', vs', rfl, hFirst, hSecond⟩ := forall₂_of_append hAll
    obtain ⟨p', hSame, hHead⟩ := ihHead us' hFirst
    obtain ⟨ps', hSame', hRest⟩ := ihRest vs' hSecond
    exact ⟨_, .cons hSame hSame', .some hHead hRest⟩
  case sumStop | productStop =>
    intro _ left' ts' hSame hAll
    obtain rfl := List.forall₂_nil_left_iff.1 hAll
    exact ⟨left', hSame, .stop⟩
  case sumLink | productLink =>
    intro left right f sign op ts us d d' hSign _ _ ihRight ihRest left' ts' hSame hAll
    obtain ⟨sign', us', hSign', hBehind, rfl⟩ := List.forall₂_cons_left_iff.1 hAll
    obtain ⟨vs', ws', rfl, hFirst, hSecond⟩ := forall₂_of_append hBehind
    obtain ⟨right', hSame', hRight⟩ := ihRight vs' hFirst
    obtain ⟨f', hSame'', hRest⟩ := ihRest _ ws' (hR.binary hSame hSame') hSecond
    exact ⟨f', hSame'', .link (hR.kind hSign' ▸ hSign) hRight hRest⟩
  case commasStop =>
    intro ts' hAll
    obtain rfl := List.forall₂_nil_left_iff.1 hAll
    exact ⟨[], .nil, .stop⟩
  case commasLink =>
    intro p ps comma ts us d d' hComma _ _ ihHead ihRest ts' hAll
    obtain ⟨comma', us', hComma', hBehind, rfl⟩ := List.forall₂_cons_left_iff.1 hAll
    obtain ⟨vs', ws', rfl, hFirst, hSecond⟩ := forall₂_of_append hBehind
    obtain ⟨p', hSame, hHead⟩ := ihHead vs' hFirst
    obtain ⟨ps', hSame', hRest⟩ := ihRest ws' hSecond
    exact ⟨_, .cons hSame hSame', .link ((hR.kind hComma').trans hComma) hHead hRest⟩

/-! ## Kinds -/

/-- The number can be read, if the token is one. -/
def Readable (t : Token) : Prop :=
  t.kind = .number → ∃ literal, Number.read (t.lexeme.getD "") = .ok literal

/-- The tokens have the kinds of others, and their numbers can be read. -/
structure SameKinds (ts us : List Token) : Prop where
  kinds : ts.map Token.kind = us.map Token.kind
  readable : ∀ t ∈ ts, Readable t

theorem SameKinds.forall₂ {ts us : List Token} (h : SameKinds ts us) :
    List.Forall₂ (fun t t' => Readable t' ∧ t'.kind = t.kind) us ts :=
  ((List.forall₂_and_left ts us).2 ⟨h.readable, forall₂_of_map_eq h.kinds⟩).flip

/-- Tokens of the same kinds derive a formula as well, and at the same depth. -/
theorem Expression.of_kinds {ts : List Token} {f : Formula} {d : Nat} (h : Expression ts f d) :
    ∀ ts', SameKinds ts' ts → ∃ f', Expression ts' f' d := by
  have hCarries : Carries (fun t t' => Readable t' ∧ t'.kind = t.kind) fun _ _ => True := by
    refine ⟨And.right, fun hToken hKind _ => ?_, fun _ _ => trivial, fun _ _ => trivial,
      fun _ => trivial, fun _ _ _ => trivial⟩
    obtain ⟨literal', hRead⟩ := hToken.1 (hToken.2.trans hKind)
    exact ⟨literal', hRead, trivial⟩
  intro ts' hSame
  obtain ⟨f', -, hDerives⟩ := h.carry hCarries ts' hSame.forall₂
  exact ⟨f', hDerives⟩

/-- The end token derives nothing. -/
theorem Expression.ne_eof {ts : List Token} {f : Formula} {d : Nat} (h : Expression ts f d) :
    ∀ t ∈ ts, t.kind ≠ .eof := by
  refine @Expression.rec
    (fun ts _ _ _ => ∀ t ∈ ts, t.kind ≠ .eof) (fun ts _ _ _ => ∀ t ∈ ts, t.kind ≠ .eof)
    (fun ts _ _ _ => ∀ t ∈ ts, t.kind ≠ .eof) (fun ts _ _ _ => ∀ t ∈ ts, t.kind ≠ .eof)
    (fun ts _ _ _ => ∀ t ∈ ts, t.kind ≠ .eof) (fun _ ts _ _ _ => ∀ t ∈ ts, t.kind ≠ .eof)
    (fun _ ts _ _ _ => ∀ t ∈ ts, t.kind ≠ .eof) (fun ts _ _ _ => ∀ t ∈ ts, t.kind ≠ .eof)
    ?sum ?product ?factor ?power ?var ?call ?group ?signed ?number ?noParameters ?parameters
    ?sumStop ?sumLink ?productStop ?productLink ?commasStop ?commasLink ts f d h
  case sum | product | parameters =>
    intro _ _ _ _ _ _ _ _ ihFirst ihRest
    exact List.forall_mem_append.2 ⟨ihFirst, ihRest⟩
  case factor =>
    intro _ _ _ _ ih
    exact ih
  case power =>
    intro _ _ caret _ _ _ _ _ hCaret _ ihBase ihExponent
    rw [List.forall_mem_append, List.forall_mem_cons, hCaret]
    exact ⟨ihBase, by decide, ihExponent⟩
  case var =>
    intro name hName
    rw [List.forall_mem_singleton, hName]
    decide
  case call =>
    intro _ name left right _ _ hName hLeft _ hRight ih
    rw [List.forall_mem_cons, List.forall_mem_cons, List.forall_mem_append,
      List.forall_mem_singleton, hName, hLeft, hRight]
    exact ⟨by decide, by decide, ih, by decide⟩
  case group =>
    intro _ left right _ _ hLeft _ hRight ih
    rw [List.forall_mem_cons, List.forall_mem_append, List.forall_mem_singleton, hLeft, hRight]
    exact ⟨by decide, ih, by decide⟩
  case signed =>
    intro _ sign _ _ _ hSign _ ih
    exact List.forall_mem_cons.2 ⟨hSign.ne_eof, ih⟩
  case number =>
    intro numeral _ hKind _
    rw [List.forall_mem_singleton, hKind]
    decide
  case noParameters | commasStop => exact List.forall_mem_nil _
  case sumStop | productStop =>
    intro _
    exact List.forall_mem_nil _
  case sumLink | productLink =>
    intro _ _ _ sign _ _ _ _ _ hSign _ _ ihRight ihRest
    rw [List.forall_mem_cons, List.forall_mem_append]
    exact ⟨hSign.ne_eof, ihRight, ihRest⟩
  case commasLink =>
    intro _ _ comma _ _ _ _ hComma _ _ ihHead ihRest
    rw [List.forall_mem_cons, List.forall_mem_append, hComma]
    exact ⟨by decide, ihHead, ihRest⟩

end Reckon.Grammar
