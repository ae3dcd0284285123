import Mathlib
import Reckon.Proofs.Grammar.Completeness
import Reckon.Proofs.Token.Ahead

/-!
# Reckon — what the parser looks at

The parser goes forward token by token and sees kinds and lexemes only. Where
it stops, with a result or with a fault, it has seen the token it stands at and
none behind it:

* `Parse.Follows` — a result from one cursor, and the same result from another
  one if the tokens are alike up to the one at which the first run stops. The
  token at which a fault is found does have the fault (`ParseFault.At`);
* `Parse.Follows.andThen` — one run after the other;
* `Cursor.parse_ok_follows`, `Cursor.parse_error_follows` — the parser follows
  the tokens, by induction on the rules that may still be opened.
-/

namespace Reckon

/-! ## Tokens that are alike -/

/-- Tokens that may only differ in where they stand. -/
def Token.Alike (t t' : Token) : Prop :=
  t.kind = t'.kind ∧ t.lexeme = t'.lexeme

/-- The tokens of two cursors are alike, up to the one that is `k` tokens
ahead. -/
def Cursor.Alike (c c' : Cursor) (k : Nat) : Prop :=
  ∀ j ≤ k, (c.ahead j).current.Alike (c'.ahead j).current

namespace Cursor.Alike

variable {c c' : Cursor} {k m : Nat}

theorem kind_eq (h : c.Alike c' k) : c'.kind = c.kind :=
  (h 0 (Nat.zero_le k)).1.symm

theorem lexeme_eq (h : c.Alike c' k) : c'.current.lexeme = c.current.lexeme :=
  (h 0 (Nat.zero_le k)).2.symm

theorem here (h : c.Alike c' k) : c.Alike c' 0 :=
  fun j hj => h j (by omega)

theorem left (h : c.Alike c' (k + m)) : c.Alike c' k :=
  fun j hj => h j (by omega)

theorem right (h : c.Alike c' (k + m)) : (c.ahead k).Alike (c'.ahead k) m := by
  intro j hj
  rw [ahead_ahead, ahead_ahead]
  exact h (k + j) (by omega)

/-- Tokens are alike as far as one likes if they are up to the end. -/
theorem of_min (hc : c.Scanned) (hc' : c'.Scanned) (h : c.Alike c' (min k c.last)) :
    c.Alike c' k ∧ c'.ahead k = c'.ahead (min k c.last) := by
  rcases Nat.le_total k c.last with hk | hk
  · rw [Nat.min_eq_left hk] at h ⊢
    exact ⟨h, rfl⟩
  · rw [Nat.min_eq_right hk] at h ⊢
    have hEnd : (c.ahead c.last).kind = .eof := hc.kind_ahead_last.1
    have hEnd' : (c'.ahead c.last).kind = .eof := (h c.last (Nat.le_refl _)).1.symm.trans hEnd
    refine ⟨fun j hj => ?_, hc'.ahead_eq hEnd' hk⟩
    rcases Nat.le_total j c.last with hjLast | hjLast
    · exact h j hjLast
    · rw [hc.ahead_eq hEnd hjLast, hc'.ahead_eq hEnd' hjLast]
      exact h c.last (Nat.le_refl _)

/-- Tokens that have places are alike if they are place by place. -/
theorem of_getElem? (hc : c.Scanned) (hc' : c'.Scanned) (hk : k ≤ c.last)
    (h : ∀ j ≤ k, ∀ t, c.tokens[j]? = some t → ∃ t', c'.tokens[j]? = some t' ∧ t.Alike t') :
    c.Alike c' k := by
  intro j hj
  have hToken := hc.getElem?_tokens j
  rw [Nat.min_eq_left (by omega)] at hToken
  obtain ⟨t', hToken', hAlike⟩ := h j hj _ hToken
  rwa [(hc'.current_ahead hToken').2]

end Cursor.Alike

/-- What is true of the token at which a fault is found. -/
def ParseFault.At (c : Cursor) : ParseFault → Prop
  | .expected kind => c.kind ≠ kind
  | .invalidNumber cause =>
    c.kind = .number ∧ Number.read (c.current.lexeme.getD "") = .error cause
  | .tooDeep => True

namespace Parse

/-! ## Two runs -/

/-- The result of a run from `c` comes of moving on to a cursor ahead, and the
run from `c'` has the same result at the same place if the tokens up to there
are alike. -/
def Follows {α : Type} (c c' : Cursor) (x x' : Result α) : Prop :=
  match x with
  | .ok (a, d) => ∃ k, d = c.ahead k ∧ (c.Alike c' k → x' = .ok (a, c'.ahead k))
  | .error e =>
    ∃ k, e.found = (c.ahead k).current ∧ e.fault.At (c.ahead k) ∧
      (c.Alike c' k → x' = .error ⟨e.fault, e.trail, (c'.ahead k).current⟩)

variable {α β : Type} {c c' : Cursor}

/-- A run that does not move. -/
theorem follows_here {a : α} {x' : Result α} (h : c.Alike c' 0 → x' = .ok (a, c')) :
    Follows c c' (.ok (a, c)) x' :=
  ⟨0, rfl, h⟩

theorem follows_fail {fault : ParseFault} {rules : List Rule} {x' : Result α} (hAt : fault.At c)
    (h : c.Alike c' 0 → x' = fail fault rules c') : Follows c c' (fail fault rules c) x' :=
  ⟨0, rfl, hAt, h⟩

/-- The second run only matters if it starts with a token that is alike. -/
theorem Follows.congr {x x' y' : Result α} (hSecond : c.Alike c' 0 → x' = y')
    (h : Follows c c' x y') : Follows c c' x x' := by
  cases x with
  | error e =>
    obtain ⟨k, hFound, hAt, hRun⟩ := h
    exact ⟨k, hFound, hAt, fun hAlike => (hSecond hAlike.here).trans (hRun hAlike)⟩
  | ok r =>
    obtain ⟨k, hMoved, hRun⟩ := h
    exact ⟨k, hMoved, fun hAlike => (hSecond hAlike.here).trans (hRun hAlike)⟩

/-- A run that first takes a token. -/
theorem Follows.step {x x' y' : Result α} (hSecond : c.Alike c' 0 → x' = y')
    (h : Follows c.advance c'.advance x y') : Follows c c' x x' := by
  refine Follows.congr hSecond ?_
  cases x with
  | error e =>
    obtain ⟨k, hFound, hAt, hRun⟩ := h
    refine ⟨1 + k, by rwa [← Cursor.ahead_ahead], by rwa [← Cursor.ahead_ahead], fun hAlike => ?_⟩
    rw [hRun hAlike.right, ← Cursor.ahead_ahead]
    rfl
  | ok r =>
    obtain ⟨k, hMoved, hRun⟩ := h
    refine ⟨1 + k, by rwa [← Cursor.ahead_ahead], fun hAlike => ?_⟩
    rw [hRun hAlike.right, ← Cursor.ahead_ahead]
    rfl

/-- One run after the other. -/
theorem Follows.andThen {x x' : Result α} {g g' : α × Cursor → Result β} (hx : Follows c c' x x')
    (hg : ∀ a k, Follows (c.ahead k) (c'.ahead k) (g (a, c.ahead k)) (g' (a, c'.ahead k))) :
    Follows c c' (x.bind g) (x'.bind g') := by
  cases x with
  | error e =>
    obtain ⟨k, hFound, hAt, hRun⟩ := hx
    refine ⟨k, hFound, hAt, fun hAlike => ?_⟩
    rw [hRun hAlike]
    rfl
  | ok r =>
    obtain ⟨a, d⟩ := r
    obtain ⟨k, rfl, hRun⟩ := hx
    have hNext := hg a k
    show Follows c c' (g (a, c.ahead k)) _
    -- the second run goes on from the place where the first one does
    cases hFirst : g (a, c.ahead k) with
    | error e =>
      rw [hFirst] at hNext
      obtain ⟨m, hFound, hAt, hThen⟩ := hNext
      rw [Cursor.ahead_ahead] at hFound hAt
      refine ⟨k + m, hFound, hAt, fun hAlike => ?_⟩
      rw [hRun hAlike.left, ← Cursor.ahead_ahead]
      exact hThen hAlike.right
    | ok r =>
      rw [hFirst] at hNext
      obtain ⟨m, hMoved, hThen⟩ := hNext
      rw [Cursor.ahead_ahead] at hMoved
      refine ⟨k + m, hMoved, fun hAlike => ?_⟩
      rw [hRun hAlike.left, ← Cursor.ahead_ahead]
      exact hThen hAlike.right

/-! ## Loops -/

/-- A run from a scanned cursor is followed from any other. -/
def Sees (run : Cursor → Result α) : Prop :=
  ∀ c c' : Cursor, c.Scanned → c'.Scanned → Follows c c' (run c) (run c')

/-- A loop of the grammar. As long as the token at the cursor says to go on, the
loop takes it and what `operand` reads, and `next` makes a new state of them. -/
structure Loop {σ τ : Type} (go : TokenKind → Option τ) (operand : Cursor → Result α)
    (next : τ → σ → α → σ) (out : σ → β) (run : Nat → σ → Cursor → Result β) : Prop where
  eof : go .eof = none
  stop : ∀ {c : Cursor} (n : Nat) (s : σ), go c.kind = none → run n s c = .ok (out s, c)
  round : ∀ {c : Cursor} {x : τ} (n : Nat) (s : σ), go c.kind = some x →
    run (n + 1) s c = (operand c.advance).bind fun (a, c) => run n (next x s a) c

/-- A loop over operands that are followed is followed, if both runs have
enough rounds. -/
theorem Loop.follows {σ τ : Type} {go : TokenKind → Option τ} {operand : Cursor → Result α}
    {next : τ → σ → α → σ} {out : σ → β} {run : Nat → σ → Cursor → Result β}
    (h : Loop go operand next out run) (hOperand : Sees operand) {n n' : Nat} {s : σ}
    {c c' : Cursor} (hc : c.Scanned) (hc' : c'.Scanned) (hn : c.bound ≤ n) (hn' : c'.bound ≤ n') :
    Follows c c' (run n s c) (run n' s c') := by
  induction n generalizing s c c' n' with
  | zero =>
    -- without a round there is no token left
    have hGo : go c.kind = none := by rw [hc.kind_of_bound (Nat.le_zero.1 hn), h.eof]
    rw [h.stop 0 s hGo]
    exact follows_here fun hAlike => h.stop n' s (by rw [hAlike.kind_eq, hGo])
  | succ n ih =>
    cases hGo : go c.kind with
    | none =>
      rw [h.stop (n + 1) s hGo]
      exact follows_here fun hAlike => h.stop n' s (by rw [hAlike.kind_eq, hGo])
    | some x =>
      have hRounds : Follows c.advance c'.advance
          ((operand c.advance).bind fun (a, c) => run n (next x s a) c)
          ((operand c'.advance).bind fun (a, c) => run (n' - 1) (next x s a) c) :=
        (hOperand _ _ hc.advance hc'.advance).andThen fun a k =>
          ih (hc.advance.ahead k) (hc'.advance.ahead k)
            (Nat.le_trans (hc.advance.bound_ahead_le k) (hc.bound_advance_le hn))
            (Nat.le_trans (hc'.advance.bound_ahead_le k) (hc'.bound_advance_le hn'))
      rw [h.round n s hGo]
      refine Follows.step (fun hAlike => ?_) hRounds
      have hGo' : go c'.kind = some x := by rw [hAlike.kind_eq, hGo]
      -- the second run is at a token, so it has a round left
      have hBound : c'.bound ≠ 0 := by
        intro hBound
        rw [hc'.kind_of_bound hBound, h.eof] at hGo'
        cases hGo'
      obtain ⟨m, rfl⟩ : ∃ m, n' = m + 1 := ⟨n' - 1, by omega⟩
      exact h.round m s hGo'

/-- Goes on at a token of one kind. -/
def atKind (kind : TokenKind) (found : TokenKind) : Option Unit :=
  if found = kind then some () else none

theorem consume?_eq_map (kind : TokenKind) (c : Cursor) :
    c.consume? kind = (atKind kind c.kind).map fun _ => c.advance := by
  unfold Cursor.consume? atKind
  split <;> rfl

theorem chain_loop {operator? : TokenKind → Option Operator} (hEof : operator? .eof = none)
    (operand : Cursor → Result Formula) :
    Loop operator? operand (fun op left right => .binary op left right) id
      (chain operator? operand) where
  eof := hEof
  stop n left hGo := by
    cases n with
    | zero => rfl
    | succ n =>
      rw [chain, hGo]
      rfl
  round {c} _ n left hGo := by
    rw [chain, hGo]
    cases operand c.advance <;> rfl

/-- The state of the loop are the operands that wait and the latest one. -/
theorem powers_loop (operand : Cursor → Result Formula) :
    Loop (atKind .caret) operand (fun _ s next => (s.2 :: s.1, next))
      (fun s => s.1.foldl (fun power base => .binary .power base power) s.2)
      (fun n s => powers operand n s.1 s.2) where
  eof := rfl
  stop n s hGo := by
    cases n with
    | zero => rfl
    | succ n => rw [powers, consume?_eq_map, hGo, Option.map_none]
  round {c} _ n s hGo := by
    rw [powers, consume?_eq_map, hGo, Option.map_some]
    dsimp only
    cases operand c.advance <;> rfl

theorem moreParameters_loop (operand : Cursor → Result Formula) :
    Loop (atKind .comma) operand (fun _ before p => p :: before) List.reverse
      (moreParameters operand) where
  eof := rfl
  stop n before hGo := by
    cases n with
    | zero => rfl
    | succ n => rw [moreParameters, consume?_eq_map, hGo, Option.map_none]
  round {c} _ n before hGo := by
    rw [moreParameters, consume?_eq_map, hGo, Option.map_some]
    dsimp only
    cases operand c.advance <;> rfl

/-- A run of signs has no operands and never fails. -/
theorem signs_loop :
    Loop sumOperator? (fun c => .ok ((), c)) (fun sign before _ => sign :: before) id
      (fun n before c => .ok (signs n before c)) where
  eof := rfl
  stop n before hGo := by
    rw [Grammar.signs_stop hGo]
    rfl
  round n before hGo := by
    rw [signs, hGo]
    rfl

theorem sees_pure (a : α) : Sees fun c => .ok (a, c) :=
  fun _ _ _ _ => follows_here fun _ => rfl

/-! ## Rules -/

theorem expect_of_eq {kind : TokenKind} {c : Cursor} (h : c.kind = kind) (rules : List Rule) :
    expect kind rules c = .ok c.advance := by
  rw [expect, Cursor.consume?, if_pos h]

theorem expect_of_ne {kind : TokenKind} {c : Cursor} (h : c.kind ≠ kind) (rules : List Rule) :
    expect kind rules c = fail (.expected kind) rules c := by
  rw [expect, Cursor.consume?, if_neg h]

/-- A token that has to be of a kind. -/
theorem expect_follows (kind : TokenKind) (rules : List Rule) (a : α) (c c' : Cursor) :
    Follows c c' ((expect kind rules c).map fun d => (a, d))
      ((expect kind rules c').map fun d => (a, d)) := by
  by_cases hKind : c.kind = kind
  · rw [expect_of_eq hKind]
    refine ⟨1, rfl, fun hAlike => ?_⟩
    rw [expect_of_eq (by rw [hAlike.kind_eq, hKind])]
    rfl
  · rw [expect_of_ne hKind]
    refine ⟨0, rfl, hKind, fun hAlike => ?_⟩
    rw [expect_of_ne (by rwa [hAlike.kind_eq])]
    rfl

section Number

variable {c : Cursor} (rules : List Rule)

theorem number_of_ok (hKind : c.kind = .number) {literal : Literal}
    (hRead : Number.read (c.current.lexeme.getD "") = .ok literal) :
    number rules c = .ok (.number literal, c.advance) := by
  simp only [number, expect_of_eq hKind, hRead]

theorem number_of_error (hKind : c.kind = .number) {cause : Number.ReadError}
    (hRead : Number.read (c.current.lexeme.getD "") = .error cause) :
    number rules c = fail (.invalidNumber cause) rules c := by
  simp only [number, expect_of_eq hKind, hRead]

theorem number_of_ne (hKind : c.kind ≠ .number) :
    number rules c = fail (.expected .number) rules c := by
  rw [number, expect_of_ne hKind]
  rfl

end Number

theorem number_sees (rules : List Rule) : Sees (number rules) := by
  intro c c' _ _
  by_cases hKind : c.kind = .number
  · cases hRead : Number.read (c.current.lexeme.getD "") with
    | error cause =>
      rw [number_of_error rules hKind hRead]
      refine follows_fail ⟨hKind, hRead⟩ fun hAlike => ?_
      exact number_of_error rules (by rw [hAlike.kind_eq, hKind]) (by rw [hAlike.lexeme_eq, hRead])
    | ok literal =>
      rw [number_of_ok rules hKind hRead]
      refine ⟨1, rfl, fun hAlike => ?_⟩
      exact number_of_ok rules (by rw [hAlike.kind_eq, hKind]) (by rw [hAlike.lexeme_eq, hRead])
  · rw [number_of_ne rules hKind]
    exact follows_fail hKind fun hAlike => number_of_ne rules (by rwa [hAlike.kind_eq])

/-- What a name stands for: a call, if a bracket is behind it. -/
def named (parameters : Cursor → Result (List Formula)) (rules : List Rule) (name : String)
    (c : Cursor) : Result Formula :=
  if c.kind = .leftParen then
    (parameters c.advance).bind fun (ps, c) =>
      (expect .rightParen rules c).map fun d => (.call name ps, d)
  else .ok (.var name, c)

section Atom

variable {expression : Cursor → Result Formula} {parameters : Cursor → Result (List Formula)}
  {rules : List Rule} {c : Cursor}

theorem atom_name (h : c.kind = .identifier) :
    atom expression parameters rules c =
      named parameters rules (c.current.lexeme.getD "") c.advance := by
  unfold atom named
  rw [h]
  dsimp only
  by_cases hOpen : c.advance.kind = .leftParen
  · rw [Cursor.consume?, if_pos hOpen, if_pos hOpen]
    dsimp only
    cases parameters c.advance.advance with
    | error e => rfl
    | ok r =>
      dsimp only [Except.bind]
      cases expect .rightParen rules r.2 <;> rfl
  · rw [Cursor.consume?, if_neg hOpen, if_neg hOpen]

theorem atom_group (h : c.kind = .leftParen) :
    atom expression parameters rules c =
      (expression c.advance).bind fun (f, c) =>
        (expect .rightParen rules c).map fun d => (f, d) := by
  unfold atom
  rw [h]
  dsimp only
  cases expression c.advance with
  | error e => rfl
  | ok r =>
    dsimp only [Except.bind]
    cases expect .rightParen rules r.2 <;> rfl

theorem atom_number (hName : c.kind ≠ .identifier) (hGroup : c.kind ≠ .leftParen) :
    atom expression parameters rules c = number rules c := by
  unfold atom
  split
  · exact absurd ‹_› hName
  · exact absurd ‹_› hGroup
  · rfl

theorem named_sees (hParameters : Sees parameters) (name : String) :
    Sees (named parameters rules name) := by
  intro c c' hc hc'
  unfold named
  by_cases hOpen : c.kind = .leftParen
  · rw [if_pos hOpen]
    refine Follows.step (fun hAlike => if_pos (hAlike.kind_eq.trans hOpen)) ?_
    exact (hParameters _ _ hc.advance hc'.advance).andThen fun ps k =>
      expect_follows .rightParen rules (Formula.call name ps) _ _
  · rw [if_neg hOpen]
    exact follows_here fun hAlike => if_neg (hAlike.kind_eq ▸ hOpen)

theorem atom_sees (hExpression : Sees expression) (hParameters : Sees parameters) :
    Sees (atom expression parameters rules) := by
  intro c c' hc hc'
  by_cases hName : c.kind = .identifier
  · rw [atom_name hName]
    refine Follows.step (fun hAlike => ?_) (named_sees hParameters _ _ _ hc.advance hc'.advance)
    rw [atom_name (hAlike.kind_eq.trans hName), hAlike.lexeme_eq]
  · by_cases hGroup : c.kind = .leftParen
    · rw [atom_group hGroup]
      refine Follows.step (fun hAlike => atom_group (hAlike.kind_eq.trans hGroup)) ?_
      exact (hExpression _ _ hc.advance hc'.advance).andThen fun f k =>
        expect_follows .rightParen rules f _ _
    · rw [atom_number hName hGroup]
      exact Follows.congr
        (fun hAlike => atom_number (hAlike.kind_eq ▸ hName) (hAlike.kind_eq ▸ hGroup))
        (number_sees rules c c' hc hc')

end Atom

/-! The rules as one run after the other. -/

theorem expression_succ (room : Nat) (rules : List Rule) (c : Cursor) :
    expression (room + 1) rules c =
      (term room (.expression :: rules) c).bind fun (left, c) =>
        chain sumOperator? (term room (.expression :: rules)) c.bound left c := by
  rw [expression]
  dsimp only
  cases term room (.expression :: rules) c <;> rfl

theorem term_succ (room : Nat) (rules : List Rule) (c : Cursor) :
    term (room + 1) rules c =
      (exponent room (.term :: rules) c).bind fun (left, c) =>
        chain productOperator? (exponent room (.term :: rules)) c.bound left c := by
  rw [term]
  dsimp only
  cases exponent room (.term :: rules) c <;> rfl

theorem exponent_succ (room : Nat) (rules : List Rule) (c : Cursor) :
    exponent (room + 1) rules c =
      (factor room (.exponent :: rules) c).bind fun (base, c) =>
        powers (factor room (.exponent :: rules)) c.bound [] base c := by
  rw [exponent]
  dsimp only
  cases factor room (.exponent :: rules) c <;> rfl

theorem factor_succ (room : Nat) (rules : List Rule) (c : Cursor) :
    factor (room + 1) rules c =
      (Except.ok (signs c.bound [] c) : Result _).bind fun (before, c) =>
        (atom (expression room (.factor :: rules)) (parameters room (.factor :: rules))
          (.factor :: rules) c).bind fun (f, c) => .ok (withSigns before f, c) := by
  rw [factor]
  dsimp only [Except.bind]
  cases atom (expression room (.factor :: rules)) (parameters room (.factor :: rules))
    (.factor :: rules) (signs c.bound [] c).2 <;> rfl

theorem parameters_succ (room : Nat) (rules : List Rule) (c : Cursor) :
    parameters (room + 1) rules c =
      if c.kind = .rightParen then .ok ([], c)
      else
        (expression room (.parameters :: rules) c).bind fun (p, c) =>
          moreParameters (expression room (.parameters :: rules)) c.bound [p] c := by
  rw [parameters]
  dsimp only
  cases expression room (.parameters :: rules) c <;> rfl

mutual

theorem expression_sees (room : Nat) (rules : List Rule) : Sees (expression room rules) := by
  intro c c' hc hc'
  cases room with
  | zero => exact follows_fail trivial fun _ => rfl
  | succ room =>
    have hTerm := term_sees room (.expression :: rules)
    rw [expression_succ, expression_succ]
    exact (hTerm c c' hc hc').andThen fun left k =>
      (chain_loop rfl _).follows hTerm (hc.ahead k) (hc'.ahead k) (Nat.le_refl _) (Nat.le_refl _)

theorem term_sees (room : Nat) (rules : List Rule) : Sees (term room rules) := by
  intro c c' hc hc'
  cases room with
  | zero => exact follows_fail trivial fun _ => rfl
  | succ room =>
    have hExponent := exponent_sees room (.term :: rules)
    rw [term_succ, term_succ]
    exact (hExponent c c' hc hc').andThen fun left k =>
      (chain_loop rfl _).follows hExponent (hc.ahead k) (hc'.ahead k) (Nat.le_refl _)
        (Nat.le_refl _)

theorem exponent_sees (room : Nat) (rules : List Rule) : Sees (exponent room rules) := by
  intro c c' hc hc'
  cases room with
  | zero => exact follows_fail trivial fun _ => rfl
  | succ room =>
    have hFactor := factor_sees room (.exponent :: rules)
    rw [exponent_succ, exponent_succ]
    exact (hFactor c c' hc hc').andThen fun base k =>
      (powers_loop _).follows hFactor (s := ([], base)) (hc.ahead k) (hc'.ahead k) (Nat.le_refl _)
        (Nat.le_refl _)

theorem factor_sees (room : Nat) (rules : List Rule) : Sees (factor room rules) := by
  intro c c' hc hc'
  cases room with
  | zero => exact follows_fail trivial fun _ => rfl
  | succ room =>
    have hAtom : Sees (atom _ _ (.factor :: rules)) :=
      atom_sees (expression_sees room (.factor :: rules)) (parameters_sees room (.factor :: rules))
    have hSigns := signs_loop.follows (s := []) (sees_pure ()) hc hc' (Nat.le_refl _)
      (Nat.le_refl _)
    rw [factor_succ, factor_succ]
    exact hSigns.andThen fun before k =>
      (hAtom _ _ (hc.ahead k) (hc'.ahead k)).andThen fun f m => follows_here fun _ => rfl

theorem parameters_sees (room : Nat) (rules : List Rule) : Sees (parameters room rules) := by
  intro c c' hc hc'
  cases room with
  | zero => exact follows_fail trivial fun _ => rfl
  | succ room =>
    have hExpression := expression_sees room (.parameters :: rules)
    rw [parameters_succ, parameters_succ]
    by_cases hClose : c.kind = .rightParen
    · rw [if_pos hClose]
      exact follows_here fun hAlike => if_pos (hAlike.kind_eq.trans hClose)
    · rw [if_neg hClose]
      refine Follows.congr (fun hAlike => if_neg (hAlike.kind_eq ▸ hClose)) ?_
      exact (hExpression c c' hc hc').andThen fun p k =>
        (moreParameters_loop _).follows hExpression (hc.ahead k) (hc'.ahead k) (Nat.le_refl _)
          (Nat.le_refl _)

end

/-- Reads a whole formula and moves behind the end. -/
def root (c : Cursor) : Result Formula :=
  (expression (maxRules - 1) [.root] c).bind fun (f, c) =>
    (expect .eof [.root] c).map fun d => (f, d)

theorem root_sees : Sees root :=
  fun c c' hc hc' => (expression_sees _ _ c c' hc hc').andThen fun f _ =>
    expect_follows .eof [.root] f _ _

end Parse

namespace Cursor

open Parse

theorem parse_eq_root (c : Cursor) : c.parse = (root c).map Prod.fst := by
  rw [parse, root]
  cases expression (maxRules - 1) [.root] c with
  | error e => rfl
  | ok r =>
    dsimp only [Except.bind]
    cases expect .eof [.root] r.2 <;> rfl

variable {c c' : Cursor}

/-- The same formula is read from any cursor in front of the same kinds and
lexemes. -/
theorem parse_ok_follows (hc : c.Scanned) (hc' : c'.Scanned) {f : Formula} (h : c.parse = .ok f) :
    ∃ k, c.Alike c' k → c'.parse = .ok f := by
  have hRoot := root_sees c c' hc hc'
  rw [parse_eq_root] at h ⊢
  cases hRun : root c with
  | error e =>
    rw [hRun] at h
    cases h
  | ok r =>
    rw [hRun] at h hRoot
    cases h
    obtain ⟨k, -, hSecond⟩ := hRoot
    exact ⟨k, fun hAlike => by rw [hSecond hAlike]; rfl⟩

/-- The error that is reported at a token is reported from any cursor in front
of the same kinds and lexemes up to that token, for the token in its place. -/
theorem parse_error_follows (hc : c.Scanned) (hc' : c'.Scanned) {e : ParseError}
    (h : c.parse = .error e) :
    ∃ k, e.found = (c.ahead k).current ∧ e.fault.At (c.ahead k) ∧
      (c.Alike c' k → c'.parse = .error ⟨e.fault, e.trail, (c'.ahead k).current⟩) := by
  have hRoot := root_sees c c' hc hc'
  rw [parse_eq_root] at h ⊢
  cases hRun : root c with
  | error e' =>
    rw [hRun] at h hRoot
    cases h
    obtain ⟨k, hFound, hAt, hSecond⟩ := hRoot
    exact ⟨k, hFound, hAt, fun hAlike => by rw [hSecond hAlike]; rfl⟩
  | ok r =>
    rw [hRun] at h
    cases h

/-- No number is invalid. -/
theorem parse_ne_invalidNumber (hc : c.Scanned) {e : ParseError} (h : c.parse = .error e)
    (cause : Number.ReadError) : e.fault ≠ .invalidNumber cause := by
  intro hFault
  obtain ⟨k, -, hAt, -⟩ := parse_error_follows hc hc h
  rw [hFault] at hAt
  -- the fault is only found at a number that cannot be read, and there is none
  obtain ⟨hKind, hRefused⟩ := hAt
  obtain ⟨literal, hRead⟩ := (hc.ahead k).read hKind
  rw [hRead] at hRefused
  cases hRefused

end Cursor

end Reckon
