import Mathlib
import Reckon.Proofs.Grammar.Kinds
import Reckon.Proofs.Token.Spaced

/-!
# Reckon — the first token that breaks a formula

A parser that stops too late blames the wrong token, and one that stops too
early refuses a formula. This one does neither: what stands before the token it
reports can be completed to a formula, and with that token it cannot:

* `Grammar.Completes` — where a rule stops with an error, the tokens it has taken
  are the first ones of tokens that the rule derives. Loops are completed for any
  operand that is (`Grammar.completes_loop`), and the rules by induction on the
  rules that may still be opened (`Grammar.expression_completes`);
* `Grammar.not_viable` — if the tokens up to the one that is reported were the
  first ones of a formula, a source could be written that has to be read and to
  be refused;
* `parse_error_first` — what this says of the token that is reported.
-/

namespace Reckon.Grammar

open Parse

/-! ## Completions -/

/-- The tokens derive something. -/
def Derivable {α : Type} (Derives : List Token → α → Nat → Prop) (ts : List Token) : Prop :=
  ∃ a d, Derives ts a d

/-- The error is found where these tokens are left. -/
def StopsAt (e : ParseError) (ts : List Token) : Prop :=
  ∃ c : Cursor, c.Spells ts ∧ e.found = c.current

/-- If a run from `c` stops with an error, the tokens before the error are the
first ones of tokens as they are wanted. -/
def Completes {α : Type} (Wanted : List Token → Prop) (c : Cursor) (x : Result α) : Prop :=
  ∀ ⦃ts e⦄, c.Spells ts → x = .error e →
    ∃ us vs ws, ts = us ++ vs ∧ StopsAt e vs ∧ Wanted (us ++ ws)

section Completes

variable {α β : Type} {Wanted : List Token → Prop} {c : Cursor}

theorem completes_ok (r : α × Cursor) : Completes Wanted c (.ok r) := by
  intro ts e _ hError
  cases hError

/-- A fault at the first token. -/
theorem completes_fail {ws : List Token} (h : Wanted ws) (fault : ParseFault) (rules : List Rule) :
    Completes Wanted c (fail fault rules c : Result α) := by
  intro ts e hSpells hError
  cases hError
  exact ⟨[], ts, ws, rfl, ⟨c, hSpells, rfl⟩, h⟩

theorem completes_expect (ws : List Token) (h : Wanted ws) (kind : TokenKind) (rules : List Rule)
    (a : α) : Completes Wanted c ((expect kind rules c).map fun d => (a, d)) := by
  by_cases hKind : c.kind = kind
  · rw [expect_of_eq hKind]
    exact completes_ok _
  · rw [expect_of_ne hKind]
    exact completes_fail h _ rules

theorem Completes.imp {Given : List Token → Prop} {x : Result α} (h : Completes Given c x)
    (hImp : ∀ {ts}, Given ts → Wanted ts) : Completes Wanted c x := by
  intro ts e hSpells hError
  obtain ⟨us, vs, ws, hTokens, hStops, hGiven⟩ := h hSpells hError
  exact ⟨us, vs, ws, hTokens, hStops, hImp hGiven⟩

/-- A run that first takes a token. -/
theorem Completes.step {x : Result α} (hKind : c.kind ≠ .eof)
    (h : Completes (fun ts => Wanted (c.current :: ts)) c.advance x) : Completes Wanted c x := by
  intro ts e hSpells hError
  obtain ⟨rest, rfl, hNext⟩ := hSpells.exists_cons hKind
  obtain ⟨us, vs, ws, rfl, hStops, hWanted⟩ := h hNext hError
  exact ⟨c.current :: us, vs, ws, rfl, hStops, hWanted⟩

/-- One run after the other. If the first one stops, what it would have derived
is completed further. -/
theorem Completes.andThen {Derives : List Token → α → Nat → Prop} {room : Nat}
    {run : Cursor → Result α} {next : α × Cursor → Result β} (hSound : Sound Derives room run)
    (hRun : Completes (Derivable Derives) c (run c))
    (hEnd : ∀ {us a d}, Derives us a d → ∃ ws, Wanted (us ++ ws))
    (hNext : ∀ {us a d} (c' : Cursor), Derives us a d →
      Completes (fun vs => Wanted (us ++ vs)) c' (next (a, c'))) :
    Completes Wanted c ((run c).bind next) := by
  intro ts e hSpells hError
  cases hFirst : run c with
  | error e' =>
    -- the first run stops: complete it, then do without the second
    rw [hFirst] at hError
    cases hError
    obtain ⟨us, vs, ws, hTokens, hStops, a, d, hDerives⟩ := hRun hSpells hFirst
    obtain ⟨ws', hWanted⟩ := hEnd hDerives
    exact ⟨us, vs, ws ++ ws', hTokens, hStops, by rwa [List.append_assoc] at hWanted⟩
  | ok r =>
    obtain ⟨a, c'⟩ := r
    rw [hFirst] at hError
    -- the second run stops behind what the first one has derived
    obtain ⟨us, vs, d, rfl, hSpells', hDerives, -⟩ := hSound hSpells hFirst
    obtain ⟨us', vs', ws, rfl, hStops, hWanted⟩ := hNext c' hDerives hSpells' hError
    exact ⟨us ++ us', vs', ws, by simp, hStops, by simpa using hWanted⟩

/-- A loop over operands that can be completed. Behind a sign, the loop could end
after the operand. -/
theorem completes_loop {σ τ : Type} {go : TokenKind → Option τ} {operand : Cursor → Result α}
    {next : τ → σ → α → σ} {out : σ → β} {run : Nat → σ → Cursor → Result β}
    (h : Loop go operand next out run) {Derives : List Token → α → Nat → Prop} {room : Nat}
    (hSound : Sound Derives room operand)
    (hOperand : ∀ c, Completes (Derivable Derives) c (operand c)) (hStop : Wanted [])
    (hRound : ∀ {t us vs a d x}, go t.kind = some x → Derives us a d → Wanted vs →
      Wanted (t :: (us ++ vs)))
    {n : Nat} (hn : c.bound ≤ n) (s : σ) : Completes Wanted c (run n s c) := by
  intro ts e hSpells hError
  -- the loop takes a token in each round
  have hLength : ts.length ≤ n := Nat.le_trans hSpells.length_le_bound hn
  clear hn
  induction n generalizing s c ts with
  | zero =>
    have hNil : ts = [] := List.length_eq_zero_iff.1 (Nat.le_zero.1 hLength)
    subst hNil
    rw [h.stop 0 s (by rw [hSpells.kind_eq]; exact h.eof)] at hError
    cases hError
  | succ n ih =>
    cases hGo : go c.kind with
    | none =>
      rw [h.stop (n + 1) s hGo] at hError
      cases hError
    | some x =>
      have hKind : c.kind ≠ .eof := by
        intro hKind
        rw [hKind, h.eof] at hGo
        cases hGo
      obtain ⟨rest, rfl, hNext⟩ := hSpells.exists_cons hKind
      rw [h.round n s hGo] at hError
      cases hFirst : operand c.advance with
      | error e' =>
        rw [hFirst] at hError
        cases hError
        -- the operand is completed, and the loop ends behind it
        obtain ⟨us, vs, ws, rfl, hStops, a, d, hDerives⟩ := hOperand _ hNext hFirst
        refine ⟨c.current :: us, vs, ws, rfl, hStops, ?_⟩
        rw [List.cons_append, ← List.append_nil (us ++ ws)]
        exact hRound hGo hDerives hStop
      | ok r =>
        obtain ⟨a, c'⟩ := r
        rw [hFirst] at hError
        obtain ⟨us, vs, d, rfl, hSpells', hDerives, -⟩ := hSound hNext hFirst
        rw [List.length_cons, List.length_append] at hLength
        obtain ⟨us', vs', ws, rfl, hStops, hWanted⟩ := ih _ hSpells' hError (by omega)
        refine ⟨c.current :: (us ++ us'), vs', ws, by simp, hStops, ?_⟩
        rw [List.cons_append, List.append_assoc]
        exact hRound hGo hDerives hWanted

end Completes

/-! ## Rules that are completed -/

/-- A token that is an operand. -/
def operandToken : Token := ⟨.identifier, some "x", ⟨0, 0⟩⟩

/-- A token that closes a bracket. -/
def closingToken : Token := ⟨.rightParen, none, ⟨0, 0⟩⟩

section Operands

variable {ts : List Token} {f : Formula} {d : Nat}

theorem Exponent.term (h : Exponent ts f d) : Derivable Term ts :=
  ⟨f, _, h.single⟩

theorem Term.expression (h : Term ts f d) : Derivable Expression ts :=
  ⟨f, _, h.single⟩

theorem factor_operandToken : Factor [operandToken] (.var "x") 1 := .var rfl

theorem term_operandToken : Derivable Term [operandToken] :=
  (Exponent.factor factor_operandToken).term

theorem expression_operandToken : Derivable Expression [operandToken] := by
  obtain ⟨f, d, hTerm⟩ := term_operandToken
  exact hTerm.expression

end Operands

/-- The chain behind an operand. -/
theorem chain_completes {Sign : TokenKind → Operator → Prop}
    {operator? : TokenKind → Option Operator} (hEof : operator? .eof = none)
    (hSign : ∀ {kind op}, operator? kind = some op → Sign kind op)
    {Operand : List Token → Formula → Nat → Prop} {room : Nat} {operand : Cursor → Result Formula}
    (hSound : Sound Operand room operand)
    (hOperand : ∀ c, Completes (Derivable Operand) c (operand c)) (left : Formula) (c : Cursor) :
    Completes (fun ts => ∀ left, Derivable (Chain Sign Operand left) ts) c
      (chain operator? operand c.bound left c) := by
  refine completes_loop (chain_loop hEof operand) hSound hOperand ?_ ?_ (Nat.le_refl _) left
  · exact fun left => ⟨left, 0, .stop⟩
  · intro t us vs right d op hGo hRight hRest left
    -- what is wanted of the rest holds behind any formula, so behind this one
    obtain ⟨f, d', hChain⟩ := hRest (.binary op left right)
    exact ⟨f, max d d', .link (hSign hGo) hRight hChain⟩

theorem kind_of_atKind {kind found : TokenKind} {x : Unit} (h : atKind kind found = some x) :
    found = kind := by
  unfold atKind at h
  split at h
  · assumption
  · cases h

/-- The powers behind a factor. -/
theorem powers_completes {room : Nat} {operand : Cursor → Result Formula}
    (hSound : Sound Factor room operand)
    (hOperand : ∀ c, Completes (Derivable Factor) c (operand c)) (base : Formula) (c : Cursor) :
    Completes (fun ts => ∀ us, Derivable Factor us → Derivable Exponent (us ++ ts)) c
      (powers operand c.bound [] base c) := by
  refine completes_loop (powers_loop operand) hSound hOperand ?_ ?_ (Nat.le_refl _) ([], base)
  · rintro us ⟨f, d, hFactor⟩
    rw [List.append_nil]
    exact ⟨f, d + 1, .factor hFactor⟩
  · rintro caret us vs g d _ hGo hFactor hRest us' ⟨f, d', hBase⟩
    obtain ⟨e, d'', hExponent⟩ := hRest us ⟨g, d, hFactor⟩
    exact ⟨_, _, .power hBase (kind_of_atKind hGo) hExponent⟩

/-- The parameters behind the first one. -/
theorem moreParameters_completes {room : Nat} {operand : Cursor → Result Formula}
    (hSound : Sound Expression room operand)
    (hOperand : ∀ c, Completes (Derivable Expression) c (operand c)) (p : Formula) (c : Cursor) :
    Completes (Derivable (Commas Expression)) c (moreParameters operand c.bound [p] c) := by
  refine completes_loop (moreParameters_loop operand) hSound hOperand ⟨[], 0, .stop⟩ ?_
    (Nat.le_refl _) [p]
  rintro comma us vs q d _ hGo hHead ⟨qs, d', hRest⟩
  exact ⟨q :: qs, max d d', .link (kind_of_atKind hGo) hHead hRest⟩

section Atom

variable {room : Nat} {expression : Cursor → Result Formula}
  {parameters : Cursor → Result (List Formula)}

/-- What may be missing of a call is its closing bracket. -/
theorem named_completes (hSound : Sound Parameters room parameters)
    (hParameters : ∀ c, Completes (Derivable Parameters) c (parameters c)) (rules : List Rule)
    {name : Token} (hName : name.kind = .identifier) (c : Cursor) :
    Completes (fun ts => Derivable Factor (name :: ts)) c
      (named parameters rules (name.lexeme.getD "") c) := by
  unfold named
  by_cases hOpen : c.kind = .leftParen
  · rw [if_pos hOpen]
    refine Completes.step (by rw [hOpen]; decide) ?_
    have hClosed : ∀ {us ps d}, Parameters us ps d →
        Derivable Factor (name :: c.current :: (us ++ [closingToken])) :=
      fun hUs => ⟨_, _, .call hName hOpen hUs rfl⟩
    refine Completes.andThen hSound (hParameters _) (fun hUs => ⟨[closingToken], hClosed hUs⟩) ?_
    intro us ps d c' hUs
    exact completes_expect [closingToken] (hClosed hUs) .rightParen rules _
  · rw [if_neg hOpen]
    exact completes_ok _

theorem atom_completes (hSound : Sound Expression room expression)
    (hExpression : ∀ c, Completes (Derivable Expression) c (expression c))
    (hSound' : Sound Parameters room parameters)
    (hParameters : ∀ c, Completes (Derivable Parameters) c (parameters c)) (rules : List Rule)
    (c : Cursor) : Completes (Derivable Factor) c (atom expression parameters rules c) := by
  by_cases hName : c.kind = .identifier
  · rw [atom_name hName]
    exact Completes.step (by rw [hName]; decide) (named_completes hSound' hParameters rules hName _)
  · by_cases hGroup : c.kind = .leftParen
    · rw [atom_group hGroup]
      refine Completes.step (by rw [hGroup]; decide) ?_
      have hClosed : ∀ {us f d}, Expression us f d →
          Derivable Factor (c.current :: (us ++ [closingToken])) :=
        fun hUs => ⟨_, _, .group hGroup hUs rfl⟩
      refine Completes.andThen hSound (hExpression _) (fun hUs => ⟨[closingToken], hClosed hUs⟩) ?_
      intro us f d c' hUs
      exact completes_expect [closingToken] (hClosed hUs) .rightParen rules f
    · rw [atom_number hName hGroup]
      -- any operand could stand in the place of a number
      have hOperand : Derivable Factor [operandToken] := ⟨_, _, factor_operandToken⟩
      by_cases hKind : c.kind = .number
      · cases hRead : Number.read (c.current.lexeme.getD "") with
        | error cause =>
          rw [number_of_error rules hKind hRead]
          exact completes_fail hOperand _ rules
        | ok value =>
          rw [number_of_ok rules hKind hRead]
          exact completes_ok _
      · rw [number_of_ne rules hKind]
        exact completes_fail hOperand _ rules

end Atom

mutual

theorem expression_completes (room : Nat) (rules : List Rule) (c : Cursor) :
    Completes (Derivable Expression) c (Parse.expression room rules c) := by
  cases room with
  | zero => exact completes_fail expression_operandToken _ _
  | succ room =>
    have hSound := term_sound room (.expression :: rules)
    have hTerm := term_completes room (.expression :: rules)
    rw [expression_succ]
    refine Completes.andThen hSound (hTerm c) (fun hUs => ⟨[], ?_⟩) fun {us left d} c' hUs => ?_
    · rw [List.append_nil]
      exact hUs.expression
    -- a term was read, and the chain behind it stops
    · refine (chain_completes rfl sumOperator?_eq_some.1 hSound hTerm left c').imp fun hChain => ?_
      obtain ⟨f, d', hRest⟩ := hChain left
      exact ⟨f, _, .chain hUs hRest⟩

theorem term_completes (room : Nat) (rules : List Rule) (c : Cursor) :
    Completes (Derivable Term) c (Parse.term room rules c) := by
  cases room with
  | zero => exact completes_fail term_operandToken _ _
  | succ room =>
    have hSound := exponent_sound room (.term :: rules)
    have hExponent := exponent_completes room (.term :: rules)
    rw [term_succ]
    refine Completes.andThen hSound (hExponent c) (fun hUs => ⟨[], ?_⟩) fun {us left d} c' hUs => ?_
    · rw [List.append_nil]
      exact hUs.term
    · refine (chain_completes rfl productOperator?_eq_some.1 hSound hExponent left c').imp
        fun hChain => ?_
      obtain ⟨f, d', hRest⟩ := hChain left
      exact ⟨f, _, .chain hUs hRest⟩

theorem exponent_completes (room : Nat) (rules : List Rule) (c : Cursor) :
    Completes (Derivable Exponent) c (Parse.exponent room rules c) := by
  cases room with
  | zero => exact completes_fail ⟨_, _, .factor factor_operandToken⟩ _ _
  | succ room =>
    have hSound := factor_sound room (.exponent :: rules)
    have hFactor := factor_completes room (.exponent :: rules)
    rw [exponent_succ]
    refine Completes.andThen hSound (hFactor c) (fun hUs => ⟨[], ?_⟩) fun {us base d} c' hUs => ?_
    · rw [List.append_nil]
      exact ⟨_, _, .factor hUs⟩
    · exact (powers_completes hSound hFactor base c').imp fun hPowers => hPowers us ⟨base, d, hUs⟩

theorem factor_completes (room : Nat) (rules : List Rule) (c : Cursor) :
    Completes (Derivable Factor) c (Parse.factor room rules c) := by
  cases room with
  | zero => exact completes_fail ⟨_, _, factor_operandToken⟩ _ _
  | succ room =>
    intro ts e hSpells hError
    -- signs are taken for granted, and what is behind them is completed
    obtain ⟨us, vs, rfl, hSpells', hSigns⟩ := signs_sound c.bound [] hSpells
    have hAtom := atom_completes (expression_sound room (.factor :: rules))
      (expression_completes room (.factor :: rules)) (parameters_sound room (.factor :: rules))
      (parameters_completes room (.factor :: rules)) (.factor :: rules)
      (Parse.signs c.bound [] c).2
    rw [factor_succ] at hError
    dsimp only [Except.bind] at hError
    split at hError
    · next e' hRun =>
      cases hError
      obtain ⟨us', vs', ws, rfl, hStops, f, d, hFactor⟩ := hAtom hSpells' hRun
      obtain ⟨g, hSigned, -⟩ := hSigns hFactor
      exact ⟨us ++ us', vs', ws, by simp, hStops, g, d, by simpa using hSigned⟩
    · cases hError

theorem parameters_completes (room : Nat) (rules : List Rule) (c : Cursor) :
    Completes (Derivable Parameters) c (Parse.parameters room rules c) := by
  cases room with
  | zero => exact completes_fail ⟨_, _, .none⟩ _ _
  | succ room =>
    have hSound := expression_sound room (.parameters :: rules)
    have hExpression := expression_completes room (.parameters :: rules)
    rw [parameters_succ]
    by_cases hClose : c.kind = .rightParen
    · rw [if_pos hClose]
      exact completes_ok _
    · rw [if_neg hClose]
      refine Completes.andThen hSound (hExpression c) (fun hUs => ⟨[], ?_⟩)
        fun {us p d} c' hUs => ?_
      · exact ⟨_, _, .some hUs .stop⟩
      · refine (moreParameters_completes hSound hExpression p c').imp fun hCommas => ?_
        obtain ⟨ps, d', hRest⟩ := hCommas
        exact ⟨_, _, .some hUs hRest⟩

end

/-! ## Tokens before an error -/

/-- The tokens are the first ones of tokens that derive a formula. -/
def Viable (ts : List Token) : Prop :=
  ∃ rest f d, Sentence (ts ++ rest) f d

variable {source : String} {e : ParseError}

/-- The tokens before an error are the first ones of a formula. -/
theorem exists_viable (h : parse source = .error e) :
    ∃ us vs, (tokens source).dropLast = us ++ vs ∧ StopsAt e vs ∧ Viable us := by
  have hSpells := spells_tokens source
  have hCompletes : Completes (Derivable Sentence) (Cursor.ofString source)
      (root (Cursor.ofString source)) := by
    refine Completes.andThen (expression_sound _ _) (expression_completes _ _ _)
      (fun hUs => ⟨[], ?_⟩) fun {us f d} c' hUs => ?_
    · rw [List.append_nil]
      exact ⟨_, _, .root hUs⟩
    -- only the end is missing
    · refine completes_expect [] ?_ .eof [.root] f
      rw [List.append_nil]
      exact ⟨_, _, .root hUs⟩
  rw [parse, Cursor.parse_eq_root] at h
  cases hRun : root (Cursor.ofString source) with
  | error e' =>
    rw [hRun] at h
    cases h
    obtain ⟨us, vs, ws, hTokens, hStops, f, d, hSentence⟩ := hCompletes hSpells hRun
    exact ⟨us, vs, hTokens, hStops, ws, f, d, hSentence⟩
  | ok r =>
    rw [hRun] at h
    cases h

/-- An error is found at one of the tokens. -/
theorem exists_getElem? (h : parse source = .error e) :
    ∃ k : Nat, (tokens source)[k]? = some e.found := by
  have hScanned := Cursor.scanned_ofString source
  obtain ⟨k, hFound, -, -⟩ := Cursor.parse_error_follows hScanned hScanned h
  exact ⟨_, by rw [hFound]; exact hScanned.getElem?_tokens k⟩

/-- No token has two places. -/
theorem getElem?_tokens_inj {i j : Nat} {t : Token} (hi : (tokens source)[i]? = some t)
    (hj : (tokens source)[j]? = some t) : i = j := by
  have hScanned := Cursor.scanned_ofString source
  by_cases hKind : t.kind = .eof
  · rw [(hScanned.kind_eq_eof_iff hi).1 hKind, (hScanned.kind_eq_eof_iff hj).1 hKind]
  · -- the token takes up bytes, so it does not stand before itself
    have hBytes : t.span.start < t.span.stop := by
      obtain ⟨-, text, -, -, -, hStop, hShape, -, -⟩ :=
        exists_of_mem_tokens (List.mem_of_getElem? hi)
      obtain ⟨c, more, rfl⟩ := List.exists_cons_of_ne_nil (hShape hKind).ne_nil
      have hPos := c.utf8Size_pos
      rw [hStop, byteLength_cons]
      omega
    have hBefore : ∀ {i j : Nat}, (tokens source)[i]? = some t → (tokens source)[j]? = some t →
        ¬ i < j := by
      intro i j hi hj hLt
      obtain ⟨hi', hti⟩ := List.getElem?_eq_some_iff.1 hi
      obtain ⟨hj', htj⟩ := List.getElem?_eq_some_iff.1 hj
      have hApart := List.pairwise_iff_getElem.1 (covers_tokens source).pairwise i j hi' hj' hLt
      rw [hti, htj] at hApart
      omega
    have hNotLt := hBefore hi hj
    have hNotGt := hBefore hj hi
    omega

/-- The tokens in front of those that an error leaves are the ones before its
place. -/
theorem take_of_stopsAt {us vs : List Token} (hTokens : (tokens source).dropLast = us ++ vs)
    (hStops : StopsAt e vs) {k : Nat} (hk : (tokens source)[k]? = some e.found) :
    (tokens source).take k = us := by
  obtain ⟨c, hSpells, hFound⟩ := hStops
  obtain ⟨init, hInit, -⟩ := (covers_tokens source).exists_init
  rw [hInit, List.dropLast_concat] at hTokens
  have hLength : k = us.length := by
    cases vs with
    | nil =>
      -- the end token was met, and it stands behind all others
      have hEnd : e.found.kind = .eof := by
        rw [hFound]
        exact hSpells.kind_eq
      have hScanned := Cursor.scanned_ofString source
      have hLast := (hScanned.kind_eq_eof_iff hk).1 hEnd
      have hCount : (tokens source).length = _ := hScanned.kind_ahead_last.2
      rw [hInit, hTokens, List.append_nil, List.length_append, List.length_singleton] at hCount
      omega
    | cons t vs =>
      -- the token behind `us` was met
      refine getElem?_tokens_inj hk ?_
      rw [hInit, hTokens, hFound, hSpells.tail.1]
      simp
  rw [hLength, hInit, hTokens, List.append_assoc, List.take_left]

theorem viable_take (h : parse source = .error e) {k : Nat}
    (hk : (tokens source)[k]? = some e.found) : Viable ((tokens source).take k) := by
  obtain ⟨us, vs, hTokens, hStops, hViable⟩ := exists_viable h
  rw [take_of_stopsAt hTokens hStops hk]
  exact hViable

/-! ## Tokens up to an error -/

/-- An error only depends on the tokens up to the one at which it is found. -/
theorem parse_of_alike (h : parse source = .error e) {k : Nat}
    (hk : (tokens source)[k]? = some e.found) {source' : String}
    (hAlike : ∀ j ≤ k, ∀ t, (tokens source)[j]? = some t →
      ∃ t', (tokens source')[j]? = some t' ∧ t.Alike t') :
    ∃ t', (tokens source')[k]? = some t' ∧ parse source' = .error ⟨e.fault, e.trail, t'⟩ := by
  have hScanned := Cursor.scanned_ofString source
  have hScanned' := Cursor.scanned_ofString source'
  obtain ⟨t', ht', -⟩ := hAlike k (Nat.le_refl k) _ hk
  have hCursors := Cursor.Alike.of_getElem? hScanned hScanned' (hScanned.current_ahead hk).1 hAlike
  obtain ⟨k', hFound, -, hSecond⟩ := Cursor.parse_error_follows hScanned hScanned' h
  -- the place at which the parser stops is the one of the token
  have hPlace : min k' (Cursor.ofString source).last = k := by
    refine getElem?_tokens_inj ?_ hk
    rw [hFound]
    exact hScanned.getElem?_tokens k'
  rw [← hPlace] at hCursors
  obtain ⟨hAll, hStay⟩ := hCursors.of_min hScanned hScanned'
  refine ⟨t', ht', (hSecond hAll).trans ?_⟩
  rw [hStay, hPlace, (hScanned'.current_ahead ht').2]

/-- A source is not refused for what it expects if its tokens derive a formula. -/
theorem not_expected {f : Formula} {d : Nat} (h : Sentence (tokens source).dropLast f d)
    (hParse : parse source = .error e) (kind : TokenKind) : e.fault ≠ .expected kind := by
  intro hFault
  by_cases hDepth : d ≤ 512
  · rw [(parse_of_sentence h).1 hDepth] at hParse
    cases hParse
  · obtain ⟨e', hDeep, hFault'⟩ := (parse_of_sentence h).2 (by omega)
    rw [hParse] at hDeep
    cases hDeep
    rw [hFault] at hFault'
    cases hFault'

/-- With the token at which something else is expected, the tokens are the first
ones of no formula. -/
theorem not_viable (h : parse source = .error e) {kind : TokenKind}
    (hFault : e.fault = .expected kind) {k : Nat} (hk : (tokens source)[k]? = some e.found) :
    ¬ Viable ((tokens source).take (k + 1)) := by
  rintro ⟨rest, f, d, hSentence⟩
  obtain ⟨hExpression⟩ := hSentence
  have hNotEof := List.forall_mem_append.1 hExpression.ne_eof
  -- a source with these tokens, and behind them tokens of the same kinds as the rest
  obtain ⟨more, hMore, hMoreWritten⟩ := exists_written hNotEof.2
  have hWritten : ∀ t ∈ (tokens source).take (k + 1) ++ more, ∃ text, t.Writes text :=
    List.forall_mem_append.2
      ⟨fun t ht => exists_writes (List.mem_of_mem_take ht) (hNotEof.1 t ht), hMoreWritten⟩
  obtain ⟨source', us, last, hTokens, hAlike⟩ := exists_source hWritten
  -- its tokens derive a formula
  have hInit : (tokens source').dropLast = us := by rw [hTokens, List.dropLast_concat]
  have hSame : SameKinds us ((tokens source).take (k + 1) ++ rest) := by
    refine ⟨?_, fun t ht hNumber => read_of_mem_tokens (hInit ▸ ht) hNumber⟩
    rw [map_kind_of_alike hAlike, List.map_append, List.map_append, hMore]
  obtain ⟨f', hExpression'⟩ := hExpression.of_kinds us hSame
  have hSentence : Derivable Sentence (tokens source').dropLast := by
    rw [hInit]
    exact ⟨f', _, .root hExpression'⟩
  -- and yet it is refused where the first source is
  have hPlaces : ∀ j ≤ k, ∀ t, (tokens source)[j]? = some t →
      ∃ t', (tokens source')[j]? = some t' ∧ t.Alike t' := by
    intro j hj t ht
    have hTake : ((tokens source).take (k + 1))[j]? = some t := by
      rw [List.getElem?_take_of_lt (Nat.lt_succ_of_le hj), ht]
    rw [← List.getElem?_append_left (List.getElem?_eq_some_iff.1 hTake).1] at hTake
    obtain ⟨t', ht', hAlikeToken⟩ := exists_alike hAlike hTake
    refine ⟨t', ?_, hAlikeToken⟩
    rw [hTokens, List.getElem?_append_left (List.getElem?_eq_some_iff.1 ht').1, ht']
  obtain ⟨t', -, hParse'⟩ := parse_of_alike h hk hPlaces
  obtain ⟨f', d', hDerives⟩ := hSentence
  exact not_expected hDerives hParse' kind hFault

end Reckon.Grammar

namespace Reckon

open Grammar

/-- The token that an error is found at is the first one that breaks the formula.
It has one place among the tokens, and the tokens before it are the first ones of
a formula. If something else is expected in its place, they are so no longer
together with it, and if it is the end they are no formula as they stand. What
comes behind the token makes no difference. -/
theorem parse_error_first (source : String) (e : ParseError) (h : parse source = .error e) :
    ∃ k, (tokens source)[k]? = some e.found ∧
      (∀ j, (tokens source)[j]? = some e.found → j = k) ∧
      Viable ((tokens source).take k) ∧
      (∀ kind, e.fault = .expected kind →
        ¬ Viable ((tokens source).take (k + 1)) ∧
        (e.found.kind = .eof → ¬ ∃ f d, Sentence ((tokens source).take k) f d)) ∧
      ∀ source', (tokens source').take (k + 1) = (tokens source).take (k + 1) →
        parse source' = .error e := by
  obtain ⟨k, hk⟩ := exists_getElem? h
  refine ⟨k, hk, fun j hj => getElem?_tokens_inj hj hk, viable_take h hk, ?_, ?_⟩
  · intro kind hFault
    refine ⟨not_viable h hFault hk, ?_⟩
    rintro hKind ⟨f, d, hSentence⟩
    -- the tokens before the end are all that can derive something
    have hScanned := Cursor.scanned_ofString source
    have hLast := (hScanned.kind_eq_eof_iff hk).1 hKind
    have hCount : (tokens source).length = _ := hScanned.kind_ahead_last.2
    have hTake : (tokens source).take k = (tokens source).dropLast := by
      rw [List.dropLast_eq_take, hCount, hLast]
      rfl
    rw [hTake] at hSentence
    exact not_expected hSentence h kind hFault
  · intro source' hTake
    -- the same tokens are alike, and found in the same place
    have hSame : ∀ j ≤ k, (tokens source')[j]? = (tokens source)[j]? := by
      intro j hj
      rw [← List.getElem?_take_of_lt (Nat.lt_succ_of_le hj), hTake,
        List.getElem?_take_of_lt (Nat.lt_succ_of_le hj)]
    obtain ⟨t', ht', hParse'⟩ := parse_of_alike h hk fun j hj t ht =>
      ⟨t, (hSame j hj).trans ht, rfl, rfl⟩
    rw [hSame k (Nat.le_refl k), hk] at ht'
    cases ht'
    exact hParse'

/-- A list of formulas in brackets is broken by its comma: the name before it could
have been closed, and a formula follows that would be read if it stood alone. -/
theorem parse_error_first_comma :
    parse "2*(a,b)" = .error ⟨.expected .rightParen,
        [.root, .expression, .term, .exponent, .factor], ⟨.comma, none, ⟨4, 5⟩⟩⟩ ∧
      Viable ((tokens "2*(a,b)").take 4) ∧ ¬ Viable ((tokens "2*(a,b)").take 5) := by
  have hParse : parse "2*(a,b)" = .error ⟨.expected .rightParen,
      [.root, .expression, .term, .exponent, .factor], ⟨.comma, none, ⟨4, 5⟩⟩⟩ := by rfl
  obtain ⟨k, -, hPlace, hViable, hExpected, -⟩ := parse_error_first _ _ hParse
  obtain rfl : 4 = k := hPlace 4 rfl
  exact ⟨hParse, hViable, (hExpected .rightParen rfl).1⟩

end Reckon
