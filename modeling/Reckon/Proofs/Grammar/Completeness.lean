import Mathlib
import Reckon.Proofs.Grammar.Soundness
import Reckon.Proofs.Number

/-!
# Reckon — what is derived is read

A rule of the parser, started on tokens that the grammar derives a formula
from, reads exactly these tokens as that formula if the derivation stays within
the rules that may be opened. If it does not, then the parser finds out and
says so. For a loop to stop where the derivation does, the token behind must be
one that can follow the rule (`FollowsExpression` and so on).

* `expression_complete` — the rules are complete, by induction on the rules
  that may still be opened;
* `parse_iff_sentence` — reading a source is deriving its tokens.
-/

namespace Reckon.Grammar

open Parse Cursor

/-! ## What follows -/

def FollowsParameters (kind : TokenKind) : Prop :=
  kind = .rightParen

def FollowsExpression (kind : TokenKind) : Prop :=
  kind = .rightParen ∨ kind = .comma ∨ kind = .eof

def FollowsTerm (kind : TokenKind) : Prop :=
  FollowsExpression kind ∨ ∃ op, SumSign kind op

def FollowsExponent (kind : TokenKind) : Prop :=
  FollowsTerm kind ∨ ∃ op, ProductSign kind op

def FollowsFactor (kind : TokenKind) : Prop :=
  FollowsExponent kind ∨ kind = .caret

theorem FollowsExpression.sumOperator? {kind : TokenKind} (h : FollowsExpression kind) :
    Parse.sumOperator? kind = none := by
  rcases h with rfl | rfl | rfl <;> rfl

theorem FollowsTerm.productOperator? {kind : TokenKind} (h : FollowsTerm kind) :
    Parse.productOperator? kind = none := by
  rcases h with (rfl | rfl | rfl) | ⟨op, _ | _⟩ <;> rfl

theorem FollowsExponent.ne_caret {kind : TokenKind} (h : FollowsExponent kind) :
    kind ≠ .caret := by
  rcases h with ((rfl | rfl | rfl) | ⟨op, _ | _⟩) | ⟨op, _ | _ | _⟩ <;> decide

theorem FollowsFactor.ne_leftParen {kind : TokenKind} (h : FollowsFactor kind) :
    kind ≠ .leftParen := by
  rcases h with (((rfl | rfl | rfl) | ⟨op, _ | _⟩) | ⟨op, _ | _ | _⟩) | rfl <;> decide

/-! ## Results -/

/-- The result of a rule on tokens that derive `a`: if the derivation fits, it
is `a` and the tokens behind it are left; if not, the rules are too deep. -/
def Yields {α : Type} (fits : Prop) (r : Result α) (a : α) (rest : List Token) : Prop :=
  (fits → ∃ c, r = .ok (a, c) ∧ c.Spells rest) ∧
    (¬fits → ∃ e, r = .error e ∧ e.fault = .tooDeep)

/-- What is derived with at most `room` rules open is read by `run`. -/
def Complete {α : Type} (Derives : List Token → α → Nat → Prop) (Follows : TokenKind → Prop)
    (room : Nat) (run : Cursor → Result α) : Prop :=
  ∀ ⦃ts a d c rest⦄, Derives ts a d → c.Spells (ts ++ rest) → Follows (headKind rest) →
    Yields (d ≤ room) (run c) a rest

theorem Yields.congr {α : Type} {fits fits' : Prop} {r : Result α} {a : α} {rest : List Token}
    (h : Yields fits r a rest) (hIff : fits' ↔ fits) : Yields fits' r a rest := by
  rwa [propext hIff]

theorem yields_ok {α : Type} {fits : Prop} (hFits : fits) {a : α} {c : Cursor} {rest : List Token}
    (h : c.Spells rest) : Yields fits (.ok (a, c)) a rest :=
  ⟨fun _ => ⟨c, rfl, h⟩, fun hNot => absurd hFits hNot⟩

theorem yields_tooDeep {α : Type} {fits : Prop} (hNot : ¬fits) (rules : List Rule) (c : Cursor)
    (a : α) (rest : List Token) : Yields fits (fail .tooDeep rules c) a rest :=
  ⟨fun hFits => absurd hFits hNot, fun _ => ⟨_, rfl, rfl⟩⟩

/-- One rule after the other: the whole goes on where the first rule stopped,
and fails as the first rule does. -/
theorem Yields.andThen {α β : Type} {fits fits' : Prop} {r : Result α} {a : α}
    {rest : List Token} (h : Yields fits r a rest) {whole : Result β} {b : β} {rest' : List Token}
    (hOk : ∀ c, r = .ok (a, c) → c.Spells rest → Yields fits' whole b rest')
    (hError : ∀ e, r = .error e → whole = .error e) : Yields (fits ∧ fits') whole b rest' := by
  by_cases hFits : fits
  · obtain ⟨c, hRun, hSpells⟩ := h.1 hFits
    exact (hOk c hRun hSpells).congr (and_iff_right hFits)
  · obtain ⟨e, hRun, hFault⟩ := h.2 hFits
    exact ⟨fun hBoth => absurd hBoth.1 hFits, fun _ => ⟨e, hError e hRun, hFault⟩⟩

theorem expect_ok {c : Cursor} {t : Token} {ts : List Token} (hSpells : c.Spells (t :: ts))
    {kind : TokenKind} (hKind : t.kind = kind) (rules : List Rule) :
    expect kind rules c = .ok c.advance := by
  have hConsume : c.consume? kind = some c.advance := by
    rw [hSpells.consume?_eq]
    exact if_pos hKind
  rw [expect, hConsume]

/-! ## Loops -/

theorem Chain.follows {Sign : TokenKind → Operator → Prop}
    {Operand : List Token → Formula → Nat → Prop} {left f : Formula} {ts : List Token} {d : Nat}
    (h : Chain Sign Operand left ts f d) {Follows : TokenKind → Prop} {rest : List Token}
    (hRest : Follows (headKind rest)) :
    Follows (headKind (ts ++ rest)) ∨ ∃ op, Sign (headKind (ts ++ rest)) op := by
  cases h with
  | stop => exact Or.inl hRest
  | link hSign _ _ => exact Or.inr ⟨_, hSign⟩

theorem Commas.follows {ts : List Token} {ps : List Formula} {d : Nat}
    (h : Commas Expression ts ps d) {rest : List Token}
    (hRest : FollowsParameters (headKind rest)) : FollowsExpression (headKind (ts ++ rest)) := by
  cases h with
  | stop => exact Or.inl hRest
  | link hComma _ _ => exact Or.inr (Or.inl hComma)

/-- As long as a token is left, there is a round left for it. -/
theorem exists_round {t : Token} {ts : List Token} {n : Nat} (hn : (t :: ts).length ≤ n) :
    ∃ m, n = m + 1 ∧ ts.length ≤ m := by
  cases n with
  | zero => simp at hn
  | succ m => exact ⟨m, rfl, Nat.le_of_succ_le_succ hn⟩

section

variable {Sign : TokenKind → Operator → Prop} {operator? : TokenKind → Option Operator}
  (hSign : ∀ {kind op}, operator? kind = some op ↔ Sign kind op) {Follows : TokenKind → Prop}
  (hStop : ∀ {kind}, Follows kind → operator? kind = none)
  {Operand : List Token → Formula → Nat → Prop} {room : Nat} {operand : Cursor → Result Formula}
  (hOperand : Complete Operand (fun kind => Follows kind ∨ ∃ op, Sign kind op) room operand)

include hSign hStop hOperand

theorem chain_complete {left f : Formula} {ts : List Token} {d : Nat}
    (h : Chain Sign Operand left ts f d) {c : Cursor} {rest : List Token}
    (hSpells : c.Spells (ts ++ rest)) (hFollows : Follows (headKind rest)) {n : Nat}
    (hn : (ts ++ rest).length ≤ n) :
    Yields (d ≤ room) (chain operator? operand n left c) f rest := by
  induction h generalizing c n with
  | stop =>
    have hNone : operator? c.kind = none := by
      rw [hSpells.kind_eq]
      exact hStop hFollows
    cases n with
    | zero => exact yields_ok (Nat.zero_le _) hSpells
    | succ n =>
      rw [chain, hNone]
      exact yields_ok (Nat.zero_le _) hSpells
  | @link left right f sign op ts us d d' hOp hRight hRest ih =>
    rw [List.cons_append] at hn
    obtain ⟨n, rfl, hLength⟩ := exists_round hn
    have hSome : operator? c.kind = some op := by
      rw [hSpells.kind_eq]
      exact hSign.2 hOp
    have hNext : c.advance.Spells (ts ++ (us ++ rest)) := by
      rw [← List.append_assoc]
      exact hSpells.tail.2
    simp only [chain, hSome]
    refine ((hOperand hRight hNext (hRest.follows hFollows)).andThen (fun c' hRun hSpells' => ?_)
      (fun e hRun => by rw [hRun])).congr max_le_iff
    rw [hRun]
    refine ih hSpells' ?_
    simp only [List.length_append] at hLength ⊢
    omega

/-- An operand and the chain behind it. -/
theorem chained_complete {left f : Formula} {ts us : List Token} {d d' : Nat}
    (hLeft : Operand ts left d) (hRest : Chain Sign Operand left us f d') {c : Cursor}
    {rest : List Token} (hSpells : c.Spells (ts ++ us ++ rest))
    (hFollows : Follows (headKind rest)) :
    Yields (max d d' ≤ room)
      (match operand c with
        | .error e => .error e
        | .ok (left, c) => chain operator? operand c.bound left c) f rest := by
  rw [List.append_assoc] at hSpells
  refine ((hOperand hLeft hSpells (hRest.follows hFollows)).andThen (fun c' hRun hSpells' => ?_)
    (fun e hRun => by rw [hRun])).congr max_le_iff
  rw [hRun]
  exact chain_complete hSign hStop hOperand hRest hSpells' hFollows hSpells'.length_le_bound

end

/-- An operand and the powers behind it, `fuel` rounds of them. After the
operand, which takes a token at least, there has to be a round for each token
that is left. -/
theorem powers_complete {room : Nat} {operand : Cursor → Result Formula}
    (hOperand : Complete Factor FollowsFactor room operand) {rest : List Token}
    (hFollows : FollowsExponent (headKind rest)) {ts : List Token} {f : Formula} {d : Nat}
    (h : Exponent ts f d) {c : Cursor} (fuel : Cursor → Nat) (bases : List Formula)
    (hSpells : c.Spells (ts ++ rest))
    (hFuel : ∀ c' us, c'.Spells us → us.length < (ts ++ rest).length → us.length ≤ fuel c') :
    Yields (d ≤ room + 1)
      (match operand c with
        | .error e => .error e
        | .ok (last, c) => powers operand (fuel c) bases last c)
      (bases.foldl (fun power base => .binary .power base power) f) rest := by
  -- the exponent of a power is shorter than the power
  induction hLength : ts.length using Nat.strong_induction_on generalizing ts f d c fuel bases with
  | _ length ih =>
  cases h with
  | factor hFactor =>
    refine ((hOperand hFactor hSpells (Or.inl hFollows)).andThen (fun c' hRun hSpells' => ?_)
      (fun e hRun => by rw [hRun])).congr
      (Nat.succ_le_succ_iff.trans (and_iff_left trivial).symm)
    rw [hRun]
    have hNone : c'.consume? .caret = none := by
      rw [hSpells'.consume?_eq]
      exact if_neg hFollows.ne_caret
    cases hRounds : fuel c' with
    | zero =>
      simp only [hRounds, powers]
      exact yields_ok trivial hSpells'
    | succ n =>
      simp only [hRounds, powers, hNone]
      exact yields_ok trivial hSpells'
  | @power base e caret ts us d d' hBase hCaret hExponent =>
    rw [List.append_assoc, List.cons_append] at hSpells
    obtain ⟨t, ts', rfl, -⟩ := hBase.head
    refine ((hOperand hBase hSpells (Or.inr hCaret)).andThen (fun c' hRun hSpells' => ?_)
      (fun e hRun => by rw [hRun])).congr (max_le_iff.trans (and_congr_left' Nat.succ_le_succ_iff))
    rw [hRun]
    have hSome : c'.consume? .caret = some c'.advance := by
      rw [hSpells'.consume?_eq]
      exact if_pos hCaret
    simp only [List.length_append, List.length_cons] at hFuel hLength
    have hRounds : (caret :: (us ++ rest)).length ≤ fuel c' := by
      refine hFuel c' _ hSpells' ?_
      simp only [List.length_cons, List.length_append]
      omega
    obtain ⟨n, hn, hLeft⟩ := exists_round hRounds
    simp only [hn, powers, hSome]
    -- the base waits for the rest of the power, and a round is used up
    refine ih us.length (by omega) hExponent (fun _ => n) (base :: bases) hSpells'.tail.2 ?_ rfl
    intro c₁ vs _ hShorter
    omega

theorem moreParameters_complete {room : Nat} {operand : Cursor → Result Formula}
    (hOperand : Complete Expression FollowsExpression room operand) {ts : List Token}
    {ps : List Formula} {d : Nat} (h : Commas Expression ts ps d) {before : List Formula}
    {c : Cursor} {rest : List Token} (hSpells : c.Spells (ts ++ rest))
    (hFollows : FollowsParameters (headKind rest)) {n : Nat} (hn : (ts ++ rest).length ≤ n) :
    Yields (d ≤ room) (moreParameters operand n before c) (before.reverse ++ ps) rest := by
  induction h generalizing before c n with
  | stop =>
    have hNone : c.consume? .comma = none := by
      rw [hSpells.consume?_eq]
      exact if_neg (by rw [List.nil_append, hFollows]; decide)
    rw [List.append_nil]
    cases n with
    | zero => exact yields_ok (Nat.zero_le _) hSpells
    | succ n =>
      simp only [moreParameters, hNone]
      exact yields_ok (Nat.zero_le _) hSpells
  | @link p ps comma ts us d d' hComma hHead hRest ih =>
    rw [List.cons_append] at hn
    obtain ⟨n, rfl, hLength⟩ := exists_round hn
    have hSome : c.consume? .comma = some c.advance := by
      rw [hSpells.consume?_eq]
      exact if_pos hComma
    have hNext : c.advance.Spells (ts ++ (us ++ rest)) := by
      rw [← List.append_assoc]
      exact hSpells.tail.2
    simp only [moreParameters, hSome]
    refine ((hOperand hHead hNext (hRest.follows hFollows)).andThen (fun c' hRun hSpells' => ?_)
      (fun e hRun => by rw [hRun])).congr max_le_iff
    rw [hRun]
    have hYields : Yields (d' ≤ room) (moreParameters operand n (p :: before) c')
        ((p :: before).reverse ++ ps) rest := by
      refine ih hSpells' ?_
      simp only [List.length_append] at hLength ⊢
      omega
    rwa [List.reverse_cons, List.append_assoc, List.singleton_append] at hYields

theorem signs_stop {c : Cursor} (h : sumOperator? c.kind = none) (n : Nat)
    (before : List Operator) : Parse.signs n before c = (before, c) := by
  cases n with
  | zero => rfl
  | succ n => rw [Parse.signs, h]

theorem number_complete {numeral : Token} {literal : Literal} (hKind : numeral.kind = .number)
    (hRead : Number.read (numeral.lexeme.getD "") = .ok literal) {c : Cursor} {rest : List Token}
    (hSpells : c.Spells (numeral :: rest)) (rules : List Rule) :
    Parse.number rules c = .ok (.number literal, c.advance) := by
  obtain ⟨hCurrent, -⟩ := hSpells.tail
  rw [← hCurrent] at hRead
  simp only [Parse.number, expect_ok hSpells hKind, hRead]

section

variable {room : Nat} {expression : Cursor → Result Formula}
  {parameters : Cursor → Result (List Formula)}
  (hExpression : Complete Expression FollowsExpression room expression)
  (hParameters : Complete Parameters FollowsParameters room parameters) (rules : List Rule)

include hExpression hParameters

/-- The signs are read before the atom behind them, and put around it after. -/
theorem atom_complete {rest : List Token} (hFollows : FollowsFactor (headKind rest))
    {ts : List Token} {f : Formula} {d : Nat} (h : Factor ts f d) {c : Cursor} {n : Nat}
    (before : List Operator) (hSpells : c.Spells (ts ++ rest)) (hn : (ts ++ rest).length ≤ n) :
    Yields (d ≤ room + 1)
      (match atom expression parameters rules (Parse.signs n before c).2 with
        | .error e => .error e
        | .ok (g, c') => .ok (withSigns (Parse.signs n before c).1 g, c'))
      (withSigns before f) rest := by
  -- each sign takes a round; without one the atom is read at once
  induction hLength : ts.length using Nat.strong_induction_on generalizing ts f d c n before with
  | _ length ih =>
  cases h with
  | @signed f sign op ts d hSign hOperand =>
    obtain ⟨n, rfl, hLeft⟩ := exists_round hn
    have hSome : sumOperator? c.kind = some op := by
      rw [hSpells.kind_eq]
      exact sumOperator?_eq_some.2 hSign
    simp only [Parse.signs, hSome]
    rw [List.length_cons] at hLength
    exact ih ts.length (by omega) hOperand (op :: before) hSpells.tail.2 hLeft rfl
  | var hName =>
    obtain ⟨hCurrent, hNext⟩ := hSpells.tail
    have hKind : c.kind = .identifier := hSpells.kind_eq.trans hName
    have hNone : c.advance.consume? .leftParen = none := by
      rw [hNext.consume?_eq]
      exact if_neg hFollows.ne_leftParen
    have hSigns := signs_stop (by rw [hKind]; rfl) n before
    simp only [hSigns, atom, hKind, hNone, hCurrent]
    exact yields_ok (by omega) hNext
  | @call ps name left right ts d hName hLeft hDerives hRight =>
    obtain ⟨hCurrent, hNext⟩ := hSpells.tail
    have hKind : c.kind = .identifier := hSpells.kind_eq.trans hName
    have hSome : c.advance.consume? .leftParen = some c.advance.advance := by
      rw [hNext.consume?_eq]
      exact if_pos hLeft
    have hInner : c.advance.advance.Spells (ts ++ right :: rest) := by
      simpa using hNext.tail.2
    have hSigns := signs_stop (by rw [hKind]; rfl) n before
    simp only [hSigns, atom, hKind, hSome]
    refine ((hParameters hDerives hInner hRight).andThen (fun c' hRun hSpells' => ?_)
      (fun e hRun => by simp only [hRun])).congr
      (Nat.succ_le_succ_iff.trans (and_iff_left trivial).symm)
    simp only [hRun, expect_ok hSpells' hRight, hCurrent]
    exact yields_ok trivial hSpells'.tail.2
  | @group f left right ts d hLeft hDerives hRight =>
    have hKind : c.kind = .leftParen := hSpells.kind_eq.trans hLeft
    have hInner : c.advance.Spells (ts ++ right :: rest) := by
      simpa using hSpells.tail.2
    have hSigns := signs_stop (by rw [hKind]; rfl) n before
    simp only [hSigns, atom, hKind]
    refine ((hExpression hDerives hInner (Or.inl hRight)).andThen (fun c' hRun hSpells' => ?_)
      (fun e hRun => by simp only [hRun])).congr
      (Nat.succ_le_succ_iff.trans (and_iff_left trivial).symm)
    simp only [hRun, expect_ok hSpells' hRight]
    exact yields_ok trivial hSpells'.tail.2
  | number hLiteral hRead =>
    have hKind : c.kind = .number := hSpells.kind_eq.trans hLiteral
    have hSigns := signs_stop (by rw [hKind]; rfl) n before
    simp only [hSigns, atom, hKind, number_complete hLiteral hRead hSpells]
    exact yields_ok (by omega) hSpells.tail.2

end

/-! ## Rules -/

mutual

theorem expression_complete (room : Nat) (rules : List Rule) :
    Complete Expression FollowsExpression room (Parse.expression room rules) := by
  intro ts f d c rest hDerives hSpells hFollows
  obtain ⟨hLeft, hRest⟩ := hDerives
  cases room with
  | zero => exact yields_tooDeep (by omega) _ c f rest
  | succ room =>
    rw [Parse.expression]
    exact (chained_complete sumOperator?_eq_some FollowsExpression.sumOperator?
      (term_complete room (.expression :: rules)) hLeft hRest hSpells hFollows).congr
      Nat.succ_le_succ_iff

theorem term_complete (room : Nat) (rules : List Rule) :
    Complete Term FollowsTerm room (Parse.term room rules) := by
  intro ts f d c rest hDerives hSpells hFollows
  obtain ⟨hLeft, hRest⟩ := hDerives
  cases room with
  | zero => exact yields_tooDeep (by omega) _ c f rest
  | succ room =>
    rw [Parse.term]
    exact (chained_complete productOperator?_eq_some FollowsTerm.productOperator?
      (exponent_complete room (.term :: rules)) hLeft hRest hSpells hFollows).congr
      Nat.succ_le_succ_iff

theorem exponent_complete (room : Nat) (rules : List Rule) :
    Complete Exponent FollowsExponent room (Parse.exponent room rules) := by
  intro ts f d c rest hDerives hSpells hFollows
  cases room with
  | zero => exact yields_tooDeep (by cases hDerives <;> omega) _ c f rest
  | succ room =>
    rw [Parse.exponent]
    exact powers_complete (factor_complete room (.exponent :: rules)) hFollows hDerives
      Cursor.bound [] hSpells fun c' us hSpells' _ => hSpells'.length_le_bound

theorem factor_complete (room : Nat) (rules : List Rule) :
    Complete Factor FollowsFactor room (Parse.factor room rules) := by
  intro ts f d c rest hDerives hSpells hFollows
  cases room with
  | zero => exact yields_tooDeep (by have := hDerives.depth_pos; omega) _ c f rest
  | succ room =>
    rw [Parse.factor]
    exact atom_complete (expression_complete room (.factor :: rules))
      (parameters_complete room (.factor :: rules)) (.factor :: rules) hFollows hDerives []
      hSpells hSpells.length_le_bound

theorem parameters_complete (room : Nat) (rules : List Rule) :
    Complete Parameters FollowsParameters room (Parse.parameters room rules) := by
  intro ts ps d c rest hDerives hSpells hFollows
  cases room with
  | zero => exact yields_tooDeep (by cases hDerives <;> omega) _ c ps rest
  | succ room =>
    rw [Parse.parameters]
    cases hDerives with
    | none =>
      have hKind : c.kind = .rightParen := hSpells.kind_eq.trans hFollows
      rw [if_pos hKind]
      exact yields_ok (by omega) hSpells
    | @some p ps ts us d d' hHead hRest =>
      rw [List.append_assoc] at hSpells
      have hKind : c.kind ≠ .rightParen := by
        obtain ⟨t, ts', rfl, hNe⟩ := hHead.head
        rw [hSpells.kind_eq]
        exact hNe
      rw [if_neg hKind]
      refine ((expression_complete room (.parameters :: rules) hHead hSpells
        (hRest.follows hFollows)).andThen (fun c' hRun hSpells' => ?_)
        (fun e hRun => by simp only [hRun])).congr (Nat.succ_le_succ_iff.trans max_le_iff)
      simp only [hRun]
      exact moreParameters_complete (expression_complete room (.parameters :: rules)) hRest
        hSpells' hFollows hSpells'.length_le_bound

end

/-! ## Sources -/

/-- The grammar is unambiguous: tokens derive one formula, at one depth. The
parser tells two depths apart when it is given room for the smaller one. -/
theorem Expression.unique {c : Cursor} {ts : List Token} (hSpells : c.Spells ts)
    {f f' : Formula} {d d' : Nat} (h : Expression ts f d) (h' : Expression ts f' d') :
    f = f' ∧ d = d' := by
  rw [← List.append_nil ts] at hSpells
  have hEnd : FollowsExpression (headKind []) := Or.inr (Or.inr rfl)
  have hNotBelow : ∀ {f f' d d'}, Expression ts f d → Expression ts f' d' → d' ≤ d ∧ f' = f := by
    intro f f' d d' h h'
    obtain ⟨c₁, hRun, -⟩ := (expression_complete d [] h hSpells hEnd).1 (Nat.le_refl d)
    have hYields := expression_complete d [] h' hSpells hEnd
    by_cases hDepth : d' ≤ d
    · obtain ⟨c₂, hRun', -⟩ := hYields.1 hDepth
      rw [hRun] at hRun'
      cases hRun'
      exact ⟨hDepth, rfl⟩
    · obtain ⟨e, hRun', -⟩ := hYields.2 hDepth
      rw [hRun] at hRun'
      cases hRun'
  exact ⟨(hNotBelow h' h).2, Nat.le_antisymm (hNotBelow h' h).1 (hNotBelow h h').1⟩

theorem Sentence.unique {source : String} {f f' : Formula} {d d' : Nat}
    (h : Sentence (tokens source).dropLast f d) (h' : Sentence (tokens source).dropLast f' d') :
    f = f' ∧ d = d' := by
  obtain ⟨hDerives⟩ := h
  obtain ⟨hDerives'⟩ := h'
  obtain ⟨rfl, rfl⟩ := hDerives.unique (spells_tokens source) hDerives'
  exact ⟨rfl, rfl⟩

theorem sentence_of_parse {source : String} {f : Formula} (h : parse source = .ok f) :
    ∃ d, Sentence (tokens source).dropLast f d ∧ d ≤ 512 := by
  unfold parse Cursor.parse at h
  split at h
  · cases h
  · next g c hRun =>
    split at h
    · cases h
    · next c' hEnd =>
      cases h
      obtain ⟨us, vs, d, hTokens, hSpells, hDerives, hDepth⟩ :=
        expression_sound _ _ (spells_tokens source) hRun
      -- the end was expected behind the expression, so no token is left there
      have hKind : c.kind = .eof := by
        by_contra hNe
        simp [expect, consume?, hNe, fail] at hEnd
      have hNil : vs = [] := by
        cases hSpells with
        | stop _ => rfl
        | next hNe _ _ => exact absurd hKind hNe
      rw [hNil, List.append_nil] at hTokens
      rw [hTokens]
      exact ⟨d + 1, .root hDerives, Nat.succ_le_succ hDepth⟩

theorem parse_of_sentence {source : String} {f : Formula} {d : Nat}
    (h : Sentence (tokens source).dropLast f d) :
    (d ≤ 512 → parse source = .ok f) ∧
      (512 < d → ∃ e, parse source = .error e ∧ e.fault = .tooDeep) := by
  obtain ⟨hDerives⟩ := h
  have hSpells := spells_tokens source
  rw [← List.append_nil (tokens source).dropLast] at hSpells
  have hYields := expression_complete (maxRules - 1) [.root] hDerives hSpells (Or.inr (Or.inr rfl))
  unfold parse Cursor.parse
  constructor
  · intro hDepth
    obtain ⟨c, hRun, hEnd⟩ := hYields.1 (Nat.le_of_succ_le_succ hDepth)
    have hExpect : expect .eof [.root] c = .ok c.advance := by
      simp [expect, consume?, hEnd.kind_eq, headKind]
    simp only [hRun, hExpect]
  · intro hDepth
    obtain ⟨e, hRun, hFault⟩ := hYields.2 (fun hLe => absurd (Nat.succ_le_succ hLe) hDepth.not_ge)
    exact ⟨e, by simp only [hRun], hFault⟩

end Reckon.Grammar

namespace Reckon

open Grammar

/-- A source is read as a formula exactly if its tokens derive the formula with
at most 512 rules open at once. Tokens that derive a formula at a greater depth
are too deep, and those that derive none are refused. No source derives two
formulas, or one at two depths, and none of its numbers is misspelt. -/
theorem parse_iff_sentence (source : String) :
    (∀ f, parse source = .ok f ↔ ∃ d, Sentence (tokens source).dropLast f d ∧ d ≤ 512) ∧
      (∀ f d, Sentence (tokens source).dropLast f d → 512 < d →
        ∃ e, parse source = .error e ∧ e.fault = .tooDeep) ∧
      ((¬∃ f d, Sentence (tokens source).dropLast f d) → ∃ e, parse source = .error e) ∧
      (∀ f d f' d', Sentence (tokens source).dropLast f d →
        Sentence (tokens source).dropLast f' d' → f = f' ∧ d = d') ∧
      ∀ t ∈ (tokens source).dropLast, t.kind = .number →
        ∃ literal, Number.read (t.lexeme.getD "") = .ok literal := by
  refine ⟨fun f => ⟨sentence_of_parse, ?_⟩, ?_, ?_, ?_, ?_⟩
  · rintro ⟨d, hSentence, hDepth⟩
    exact (parse_of_sentence hSentence).1 hDepth
  · intro f d hSentence hDepth
    exact (parse_of_sentence hSentence).2 hDepth
  · intro hNone
    cases hParse : parse source with
    | error e => exact ⟨e, rfl⟩
    | ok f =>
      obtain ⟨d, hSentence, -⟩ := sentence_of_parse hParse
      exact absurd ⟨f, d, hSentence⟩ hNone
  · intro f d f' d' h h'
    exact h.unique h'
  · intro t hMem hKind
    exact read_of_mem_tokens hMem hKind

-- A sign belongs to the exponent it stands in front of, and a power binds before a difference.
example : parse "a-b^-f()" = .ok (.binary .minus (.var "a")
    (.binary .power (.var "b") (.unary .minus (.call "f" [])))) := by rfl

end Reckon
