import Mathlib
import Reckon.Proofs.Grammar.Viable

/-!
# Reckon — the rules that are open at an error

An error shows the rules that were open when it was found, from the root on.
The parser hands them down from rule to rule, and each rule goes on with its own
list, however many rules have been opened and closed inside it. So the trail fits
the brackets of the source: each factor on it but the last one waits for a
bracket to be closed.

* `Rule.inside` — which rules a rule opens, so a trail has to be a path from rule
  to rule;
* `openBrackets` — the brackets that are open behind tokens;
* `Grammar.Tracks` — a run that is read closes each bracket it opens, and an error
  has to do with the number of brackets that are open where it is found. Runs are
  put together by `Grammar.Tracks.andThen`, `Grammar.tracks_loop` and
  `Grammar.Tracks.bracketed`;
* `Grammar.TrailFrom` — the trail of an error inside a rule. The rules of the
  grammar keep to it (`Grammar.expression_tracks`), by induction on the rules that
  may still be opened;
* `parse_error_trail` — what this says of a source.
-/

namespace Reckon

/-- The rules that a rule opens. -/
def Rule.inside : Rule → List Rule
  | root => [expression]
  | expression => [term]
  | term => [exponent]
  | exponent => [factor]
  | factor => [expression, parameters]
  | parameters => [expression]

/-! ## Brackets -/

/-- How many brackets are open behind tokens if `n` are open in front of them.
There is no such number if a bracket is closed that was not opened. -/
def openBrackets : Nat → List Token → Option Nat
  | n, [] => some n
  | n, t :: ts =>
    match t.kind, n with
    | .leftParen, n => openBrackets (n + 1) ts
    | .rightParen, 0 => none
    | .rightParen, n + 1 => openBrackets n ts
    | _, n => openBrackets n ts

section Brackets

variable {t : Token} {ts us : List Token} {n : Nat}

theorem openBrackets_left (h : t.kind = .leftParen) :
    openBrackets n (t :: ts) = openBrackets (n + 1) ts := by
  simp only [openBrackets, h]

theorem openBrackets_right (h : t.kind = .rightParen) :
    openBrackets (n + 1) (t :: ts) = openBrackets n ts := by
  simp only [openBrackets, h]

theorem openBrackets_other (hLeft : t.kind ≠ .leftParen) (hRight : t.kind ≠ .rightParen) :
    openBrackets n (t :: ts) = openBrackets n ts := by
  cases hKind : t.kind <;> simp_all [openBrackets]

theorem openBrackets_append (n : Nat) (ts us : List Token) :
    openBrackets n (ts ++ us) = (openBrackets n ts).bind (openBrackets · us) := by
  fun_induction openBrackets n ts <;> simp_all [openBrackets]

end Brackets

namespace Grammar

open Parse

/-- The tokens open `m` brackets more than they close, whatever is open in front
of them, and close none of those. -/
def Leaves (ts : List Token) (m : Nat) : Prop :=
  ∀ n, openBrackets n ts = some (n + m)

section Leaves

variable {t : Token} {ts us : List Token} {m m' : Nat}

theorem leaves_nil : Leaves [] 0 :=
  fun _ => rfl

theorem Leaves.append (h : Leaves ts m) (h' : Leaves us m') : Leaves (ts ++ us) (m + m') := by
  intro n
  rw [openBrackets_append, h n, Option.bind_some, h' (n + m), Nat.add_assoc]

theorem leaves_other (hLeft : t.kind ≠ .leftParen) (hRight : t.kind ≠ .rightParen) :
    Leaves [t] 0 :=
  fun _ => openBrackets_other hLeft hRight

theorem leaves_left (h : t.kind = .leftParen) : Leaves [t] 1 :=
  fun _ => openBrackets_left h

/-- A bracket that is closed again leaves none open, unlike its closing alone. -/
theorem Leaves.closed (h : Leaves ts 1) (hRight : t.kind = .rightParen) : Leaves (ts ++ [t]) 0 := by
  intro n
  rw [openBrackets_append, h n, Option.bind_some, openBrackets_right hRight]
  rfl

end Leaves

/-! ## Runs -/

/-- A run in front of tokens. What it reads closes the brackets that it opens. If
it stops, the error fits the number of brackets that have been opened. -/
inductive Tracks {α : Type} (Fits : ParseError → Nat → Prop) (ts : List Token) : Result α → Prop
  | read {a : α} {c : Cursor} {us vs : List Token} (hTokens : ts = us ++ vs)
      (hClosed : Leaves us 0) (hRest : c.Spells vs) : Tracks Fits ts (.ok (a, c))
  | stopped {e : ParseError} {us vs : List Token} {m : Nat} (hTokens : ts = us ++ vs)
      (hOpen : Leaves us m) (hStops : StopsAt e vs) (hFits : Fits e m) : Tracks Fits ts (.error e)

section Tracks

variable {α β : Type} {Fits Fits' : ParseError → Nat → Prop} {t : Token} {ts : List Token}
  {c : Cursor}

theorem tracks_ok (h : c.Spells ts) (a : α) : Tracks Fits ts (.ok (a, c)) :=
  .read rfl leaves_nil h

theorem tracks_fail (h : c.Spells ts) {fault : ParseFault} {rules : List Rule}
    (hFits : Fits ⟨fault, rules.reverse, c.current⟩ 0) :
    Tracks Fits ts (fail fault rules c : Result α) :=
  .stopped rfl leaves_nil ⟨c, h, rfl⟩ hFits

theorem Tracks.imp {x : Result α} (h : Tracks Fits ts x) (hImp : ∀ {e m}, Fits e m → Fits' e m) :
    Tracks Fits' ts x := by
  cases h with
  | read hTokens hClosed hRest => exact .read hTokens hClosed hRest
  | stopped hTokens hOpen hStops hFits => exact .stopped hTokens hOpen hStops (hImp hFits)

/-- A token that is no bracket is taken first. -/
theorem Tracks.step {x : Result α} {kind : TokenKind} (hKind : t.kind = kind)
    (hOther : kind ≠ .leftParen ∧ kind ≠ .rightParen) (h : Tracks Fits ts x) :
    Tracks Fits (t :: ts) x := by
  subst hKind
  have hToken := leaves_other hOther.1 hOther.2
  cases h with
  | read hTokens hClosed hRest =>
    rw [hTokens, ← List.cons_append]
    exact .read rfl (hToken.append hClosed) hRest
  | stopped hTokens hOpen hStops hFits =>
    have hLeaves := hToken.append hOpen
    rw [Nat.zero_add] at hLeaves
    rw [hTokens, ← List.cons_append]
    exact .stopped rfl hLeaves hStops hFits

/-- One run after the other. -/
theorem Tracks.andThen {x : Result α} {next : α × Cursor → Result β} (hx : Tracks Fits ts x)
    (hNext : ∀ a {c : Cursor} {vs}, c.Spells vs → vs.length ≤ ts.length →
      Tracks Fits vs (next (a, c))) :
    Tracks Fits ts (x.bind next) := by
  cases hx with
  | stopped hTokens hOpen hStops hFits => exact .stopped hTokens hOpen hStops hFits
  | @read a c us vs hTokens hClosed hRest =>
    subst hTokens
    have hSecond := hNext a hRest (by simp)
    show Tracks Fits (us ++ vs) (next (a, c))
    generalize next (a, c) = y at hSecond
    -- what was read before leaves no bracket open
    cases hSecond with
    | read hTokens hClosed' hRest' =>
      rw [hTokens, ← List.append_assoc]
      exact .read rfl (hClosed.append hClosed') hRest'
    | stopped hTokens hOpen hStops hFits =>
      have hLeaves := hClosed.append hOpen
      rw [Nat.zero_add] at hLeaves
      rw [hTokens, ← List.append_assoc]
      exact .stopped rfl hLeaves hStops hFits

/-- A loop that goes on at tokens which are no brackets. -/
theorem tracks_loop {σ τ : Type} {go : TokenKind → Option τ} {operand : Cursor → Result α}
    {next : τ → σ → α → σ} {out : σ → β} {run : Nat → σ → Cursor → Result β}
    (h : Loop go operand next out run)
    (hGo : go .leftParen = none ∧ go .rightParen = none)
    (hOperand : ∀ {c : Cursor} {ts}, c.Spells ts → Tracks Fits ts (operand c))
    (hSpells : c.Spells ts) (s : σ) : Tracks Fits ts (run c.bound s c) := by
  -- the loop takes a token in each round
  have hLength : ts.length ≤ c.bound := hSpells.length_le_bound
  generalize c.bound = n at hLength
  induction n generalizing s c ts with
  | zero =>
    have hNil : ts = [] := List.length_eq_zero_iff.1 (Nat.le_zero.1 hLength)
    subst hNil
    rw [h.stop 0 s (by rw [hSpells.kind_eq]; exact h.eof)]
    exact tracks_ok hSpells (out s)
  | succ n ih =>
    cases hHere : go c.kind with
    | none =>
      rw [h.stop (n + 1) s hHere]
      exact tracks_ok hSpells (out s)
    | some x =>
      have hKind : ∀ {kind}, go kind = none → c.kind ≠ kind := by
        intro kind hNone hKind
        rw [hKind, hNone] at hHere
        cases hHere
      obtain ⟨rest, rfl, hRest⟩ := hSpells.exists_cons (hKind h.eof)
      rw [h.round n s hHere]
      refine Tracks.step rfl ⟨hKind hGo.1, hKind hGo.2⟩ ?_
      refine (hOperand hRest).andThen fun a c' vs hSpells' hLess => ?_
      rw [List.length_cons] at hLength
      exact ih hSpells' (next x s a) (by omega)

/-- A run in brackets: while it lasts, one bracket more is open. -/
theorem Tracks.bracketed {x : Result α} (hLeft : t.kind = .leftParen)
    (hx : Tracks (fun e m => Fits e (m + 1)) ts x) {rules : List Rule} (out : α → β)
    (hMissing : ∀ found, Fits ⟨.expected .rightParen, rules.reverse, found⟩ 1) :
    Tracks Fits (t :: ts)
      (x.bind fun (a, c) => (expect .rightParen rules c).map fun d => (out a, d)) := by
  have hToken := leaves_left hLeft
  cases hx with
  | stopped hTokens hOpen hStops hFits =>
    have hLeaves := hToken.append hOpen
    rw [Nat.add_comm] at hLeaves
    rw [hTokens, ← List.cons_append]
    exact .stopped rfl hLeaves hStops hFits
  | @read a c us vs hTokens hClosed hRest =>
    have hLeaves : Leaves (t :: us) 1 := hToken.append hClosed
    rw [hTokens, ← List.cons_append]
    show Tracks Fits (t :: us ++ vs) ((expect .rightParen rules c).map fun d => (out a, d))
    by_cases hRight : c.kind = .rightParen
    · rw [expect_of_eq hRight]
      obtain ⟨rest, rfl, hBehind⟩ := hRest.exists_cons (by rw [hRight]; decide)
      rw [List.append_cons]
      exact .read rfl (hLeaves.closed hRight) hBehind
    · rw [expect_of_ne hRight]
      exact .stopped rfl hLeaves ⟨c, hRest, rfl⟩ (hMissing c.current)

end Tracks

/-! ## Trails -/

/-- What a factor expects while `m` brackets are open: each factor around it waits
for a bracket to be closed, and so does this one if it expects just that. -/
inductive Awaits (trail : List Rule) (m : Nat) : TokenKind → Prop
  | operand (hLast : trail.getLast? = some .factor) (hCount : m + 1 = trail.count .factor) :
      Awaits trail m .number
  | closing (hLast : trail.getLast? = some .factor) (hCount : m = trail.count .factor) :
      Awaits trail m .rightParen

/-- One more rule around those that are open. -/
theorem Awaits.outer {trail : List Rule} {m : Nat} {kind : TokenKind} (h : Awaits trail m kind)
    (rule : Rule) : Awaits (rule :: trail) (m + [rule].count .factor) kind := by
  have hCount : (rule :: trail).count .factor = [rule].count .factor + trail.count .factor :=
    @List.count_append _ _ _ [rule] trail
  have hLast : ∀ {inner}, trail.getLast? = some inner → (rule :: trail).getLast? = some inner := by
    intro inner hInner
    rw [List.getLast?_cons, hInner]
    rfl
  cases h with
  | operand hFactor hOpen => exact .operand (hLast hFactor) (by omega)
  | closing hFactor hOpen => exact .closing (hLast hFactor) (by omega)

/-- An error that was found inside a rule, in front of which `rules` were open,
innermost first, and `room` rules could be opened. Since then `m` brackets were
opened. -/
def TrailFrom (rules : List Rule) (rule : Rule) (room : Nat) (e : ParseError) (m : Nat) : Prop :=
  ∃ inner, e.trail = rules.reverse ++ rule :: inner ∧
    (rule :: inner).IsChain (fun outer inner => inner ∈ outer.inside) ∧
    (e.fault = .tooDeep → inner.length = room) ∧ (e.fault ≠ .tooDeep → inner.length < room) ∧
    ∀ kind, e.fault = .expected kind → Awaits (rule :: inner) m kind

section TrailFrom

variable {rules : List Rule} {rule rule' : Rule} {room m : Nat} {e : ParseError}

/-- There is no room to open the rule. -/
theorem trailFrom_tooDeep (rules : List Rule) (rule : Rule) (found : Token) :
    TrailFrom rules rule 0 ⟨.tooDeep, (rule :: rules).reverse, found⟩ m := by
  refine ⟨[], List.reverse_cons, .singleton rule, fun _ => rfl, fun hFault => absurd rfl hFault, ?_⟩
  rintro kind ⟨⟩

/-- The rule itself has met the fault. -/
theorem trailFrom_here (rules : List Rule) (rule : Rule) {fault : ParseFault} (found : Token)
    (hFault : fault ≠ .tooDeep) (hAwaits : ∀ kind, fault = .expected kind → Awaits [rule] m kind) :
    TrailFrom rules rule (room + 1) ⟨fault, (rule :: rules).reverse, found⟩ m :=
  ⟨[], List.reverse_cons, .singleton rule, fun hDeep => absurd hDeep hFault,
    fun _ => Nat.succ_pos room, hAwaits⟩

/-- A rule that was opened inside another has met the fault. Around it, one more
bracket is open if the other is a factor. -/
theorem TrailFrom.outer (h : TrailFrom (rule :: rules) rule' room e m)
    (hInside : rule' ∈ rule.inside) :
    TrailFrom rules rule (room + 1) e (m + [rule].count .factor) := by
  obtain ⟨inner, hTrail, hPath, hDeep, hRoom, hAwaits⟩ := h
  refine ⟨rule' :: inner, ?_, .cons_cons hInside hPath, fun hFault => ?_, fun hFault => ?_, ?_⟩
  · rw [hTrail, List.reverse_cons, List.append_assoc]
    rfl
  · rw [List.length_cons, hDeep hFault]
  · exact Nat.succ_lt_succ (hRoom hFault)
  · exact fun kind hFault => (hAwaits kind hFault).outer rule

end TrailFrom

/-! ## Rules -/

/-- A run of signs. -/
theorem signs_tracks {Fits : ParseError → Nat → Prop} {c : Cursor} {ts : List Token}
    (h : c.Spells ts) : Tracks Fits ts (.ok (Parse.signs c.bound [] c)) :=
  tracks_loop signs_loop ⟨rfl, rfl⟩ (fun hSpells => tracks_ok hSpells ()) h []

section Atom

variable {room : Nat} {rules : List Rule} {expression : Cursor → Result Formula}
  {parameters : Cursor → Result (List Formula)} {c : Cursor} {ts : List Token}

/-- Behind the bracket that a factor has opened, something else than its closing
is found. -/
theorem trailFrom_unclosed (rules : List Rule) (room : Nat) (found : Token) :
    TrailFrom rules .factor (room + 1)
      ⟨.expected .rightParen, (.factor :: rules).reverse, found⟩ 1 := by
  refine trailFrom_here rules .factor found (by decide) ?_
  rintro kind ⟨⟩
  exact .closing rfl rfl

theorem named_tracks
    (hParameters : ∀ {c : Cursor} {ts}, c.Spells ts →
      Tracks (TrailFrom (.factor :: rules) .parameters room) ts (parameters c))
    (name : String) (h : c.Spells ts) :
    Tracks (TrailFrom rules .factor (room + 1)) ts
      (named parameters (.factor :: rules) name c) := by
  unfold named
  by_cases hOpen : c.kind = .leftParen
  · rw [if_pos hOpen]
    obtain ⟨rest, rfl, hRest⟩ := h.exists_cons (by rw [hOpen]; decide)
    exact ((hParameters hRest).imp fun hTrail => hTrail.outer (by decide)).bracketed hOpen
      (Formula.call name) (trailFrom_unclosed rules room)
  · rw [if_neg hOpen]
    exact tracks_ok h _

theorem atom_tracks
    (hExpression : ∀ {c : Cursor} {ts}, c.Spells ts →
      Tracks (TrailFrom (.factor :: rules) .expression room) ts (expression c))
    (hParameters : ∀ {c : Cursor} {ts}, c.Spells ts →
      Tracks (TrailFrom (.factor :: rules) .parameters room) ts (parameters c))
    (h : c.Spells ts) :
    Tracks (TrailFrom rules .factor (room + 1)) ts
      (atom expression parameters (.factor :: rules) c) := by
  by_cases hName : c.kind = .identifier
  · rw [atom_name hName]
    obtain ⟨rest, rfl, hRest⟩ := h.exists_cons (by rw [hName]; decide)
    exact (named_tracks hParameters _ hRest).step hName (by decide)
  · by_cases hGroup : c.kind = .leftParen
    · rw [atom_group hGroup]
      obtain ⟨rest, rfl, hRest⟩ := h.exists_cons (by rw [hGroup]; decide)
      exact ((hExpression hRest).imp fun hTrail => hTrail.outer (by decide)).bracketed hGroup id
        (trailFrom_unclosed rules room)
    · rw [atom_number hName hGroup]
      by_cases hKind : c.kind = .number
      · cases hRead : Number.read (c.current.lexeme.getD "") with
        | error cause =>
          rw [number_of_error _ hKind hRead]
          refine tracks_fail h (trailFrom_here rules .factor _ (by simp) ?_)
          rintro kind ⟨⟩
        | ok value =>
          rw [number_of_ok _ hKind hRead]
          obtain ⟨rest, rfl, hRest⟩ := h.exists_cons (by rw [hKind]; decide)
          exact (tracks_ok hRest _).step hKind (by decide)
      · -- no bracket has been opened for the operand that is missing
        rw [number_of_ne _ hKind]
        refine tracks_fail h (trailFrom_here rules .factor _ (by decide) ?_)
        rintro kind ⟨⟩
        exact .operand rfl rfl

end Atom

mutual

theorem expression_tracks (room : Nat) (rules : List Rule) {c : Cursor} {ts : List Token}
    (h : c.Spells ts) :
    Tracks (TrailFrom rules .expression room) ts (Parse.expression room rules c) := by
  cases room with
  | zero => exact tracks_fail h (trailFrom_tooDeep rules .expression _)
  | succ room =>
    have hTerm : ∀ {c : Cursor} {ts}, c.Spells ts →
        Tracks (TrailFrom rules .expression (room + 1)) ts
          (Parse.term room (.expression :: rules) c) :=
      fun hSpells => (term_tracks room _ hSpells).imp fun hTrail => hTrail.outer (by decide)
    rw [expression_succ]
    exact (hTerm h).andThen fun left c' vs hSpells _ =>
      tracks_loop (chain_loop rfl _) ⟨rfl, rfl⟩ hTerm hSpells left

theorem term_tracks (room : Nat) (rules : List Rule) {c : Cursor} {ts : List Token}
    (h : c.Spells ts) : Tracks (TrailFrom rules .term room) ts (Parse.term room rules c) := by
  cases room with
  | zero => exact tracks_fail h (trailFrom_tooDeep rules .term _)
  | succ room =>
    have hExponent : ∀ {c : Cursor} {ts}, c.Spells ts →
        Tracks (TrailFrom rules .term (room + 1)) ts (Parse.exponent room (.term :: rules) c) :=
      fun hSpells => (exponent_tracks room _ hSpells).imp fun hTrail => hTrail.outer (by decide)
    rw [term_succ]
    exact (hExponent h).andThen fun left c' vs hSpells _ =>
      tracks_loop (chain_loop rfl _) ⟨rfl, rfl⟩ hExponent hSpells left

theorem exponent_tracks (room : Nat) (rules : List Rule) {c : Cursor} {ts : List Token}
    (h : c.Spells ts) :
    Tracks (TrailFrom rules .exponent room) ts (Parse.exponent room rules c) := by
  cases room with
  | zero => exact tracks_fail h (trailFrom_tooDeep rules .exponent _)
  | succ room =>
    have hFactor : ∀ {c : Cursor} {ts}, c.Spells ts →
        Tracks (TrailFrom rules .exponent (room + 1)) ts
          (Parse.factor room (.exponent :: rules) c) :=
      fun hSpells => (factor_tracks room _ hSpells).imp fun hTrail => hTrail.outer (by decide)
    rw [exponent_succ]
    exact (hFactor h).andThen fun base c' vs hSpells _ =>
      tracks_loop (powers_loop _) ⟨rfl, rfl⟩ hFactor hSpells ([], base)

theorem factor_tracks (room : Nat) (rules : List Rule) {c : Cursor} {ts : List Token}
    (h : c.Spells ts) : Tracks (TrailFrom rules .factor room) ts (Parse.factor room rules c) := by
  cases room with
  | zero => exact tracks_fail h (trailFrom_tooDeep rules .factor _)
  | succ room =>
    rw [factor_succ]
    refine (signs_tracks h).andThen fun before c' vs hSpells _ => ?_
    have hAtom : Tracks (TrailFrom rules .factor (room + 1)) vs _ :=
      atom_tracks (expression_tracks room (.factor :: rules))
        (parameters_tracks room (.factor :: rules)) hSpells
    exact hAtom.andThen fun f c'' ws hSpells' _ => tracks_ok hSpells' _

theorem parameters_tracks (room : Nat) (rules : List Rule) {c : Cursor} {ts : List Token}
    (h : c.Spells ts) :
    Tracks (TrailFrom rules .parameters room) ts (Parse.parameters room rules c) := by
  cases room with
  | zero => exact tracks_fail h (trailFrom_tooDeep rules .parameters _)
  | succ room =>
    have hExpression : ∀ {c : Cursor} {ts}, c.Spells ts →
        Tracks (TrailFrom rules .parameters (room + 1)) ts
          (Parse.expression room (.parameters :: rules) c) :=
      fun hSpells => (expression_tracks room _ hSpells).imp fun hTrail => hTrail.outer (by decide)
    rw [parameters_succ]
    by_cases hClose : c.kind = .rightParen
    · rw [if_pos hClose]
      exact tracks_ok h _
    · rw [if_neg hClose]
      exact (hExpression h).andThen fun p c' vs hSpells _ =>
        tracks_loop (moreParameters_loop _) ⟨rfl, rfl⟩ hExpression hSpells [p]

end

/-! ## Sources -/

variable {source : String} {e : ParseError}

/-- An error of a source: what stands behind an expression is not the end, or the
expression itself stops. -/
theorem exists_trail (h : parse source = .error e) :
    ∃ us vs m, (tokens source).dropLast = us ++ vs ∧ StopsAt e vs ∧ Leaves us m ∧
      (e.fault = .expected .eof ∧ e.trail = [.root] ∧ m = 0 ∨
        TrailFrom [.root] .expression (maxRules - 1) e m) := by
  have hTracks := expression_tracks (maxRules - 1) [.root] (spells_tokens source)
  rw [parse, Cursor.parse] at h
  generalize Parse.expression (maxRules - 1) [.root] (Cursor.ofString source) = x at h hTracks
  cases hTracks with
  | @stopped e' us vs m hTokens hOpen hStops hTrail =>
    cases h
    exact ⟨us, vs, m, hTokens, hStops, hOpen, .inr hTrail⟩
  | @read f c us vs hTokens hClosed hRest =>
    dsimp only at h
    by_cases hEnd : c.kind = .eof
    · rw [expect_of_eq hEnd] at h
      cases h
    · rw [expect_of_ne hEnd] at h
      cases h
      exact ⟨us, vs, 0, hTokens, ⟨c, hRest, rfl⟩, hClosed, .inl ⟨rfl, rfl, rfl⟩⟩

/-- A trail below the root starts at the root, is a path, and is as long as it may
be just if the fault is that it would have to be longer. -/
theorem TrailFrom.root {m : Nat} (h : TrailFrom [.root] .expression (maxRules - 1) e m) :
    e.trail.head? = some .root ∧
      e.trail.IsChain (fun outer inner => inner ∈ outer.inside) ∧
      (e.fault = .tooDeep → e.trail.length = maxRules + 1) ∧
      (e.fault ≠ .tooDeep → e.trail.length ≤ maxRules) ∧
      ∀ kind, e.fault = .expected kind → Awaits e.trail m kind := by
  obtain ⟨inner, hTrail, hPath, hDeep, hRoom, hAwaits⟩ := h
  have hRoot : e.trail = .root :: .expression :: inner := hTrail
  have hLength : e.trail.length = inner.length + 2 := by simp [hRoot]
  have hRules : maxRules = 512 := rfl
  refine ⟨by rw [hRoot]; rfl, ?_, fun hFault => ?_, fun hFault => ?_, fun kind hFault => ?_⟩
  · rw [hRoot]
    exact .cons_cons (by decide) hPath
  · have hInner := hDeep hFault
    omega
  · have hInner := hRoom hFault
    omega
  · rw [hRoot]
    exact (hAwaits kind hFault).outer .root

end Grammar

open Grammar

/-- **The trail of an error is the chain of the rules that are open at the token
it is found at.** It starts at the root and goes from each rule to one that is
opened inside it. If the formula is nested too deeply it has one rule more than
may be open, and otherwise at most as many. What is expected is the end, behind
a whole expression, or an operand or a closing bracket, in a factor: then each
factor of the trail stands for a bracket that is still open at the token, the
last one only if it is its bracket that has to be closed. -/
theorem parse_error_trail (source : String) (e : ParseError) (h : parse source = .error e) :
    ∃ k, (tokens source)[k]? = some e.found ∧
      (∀ j, (tokens source)[j]? = some e.found → j = k) ∧
      e.trail.head? = some .root ∧
      e.trail.IsChain (fun outer inner => inner ∈ outer.inside) ∧
      (e.fault = .tooDeep → e.trail.length = 513) ∧
      (e.fault ≠ .tooDeep → e.trail.length ≤ 512) ∧
      ∀ kind, e.fault = .expected kind →
        (kind = .eof ∧ e.trail = [.root] ∧
          openBrackets 0 ((tokens source).take k) = some 0) ∨
        (kind = .number ∧ e.trail.getLast? = some .factor ∧
          openBrackets 0 ((tokens source).take k) = some (e.trail.count .factor - 1)) ∨
        (kind = .rightParen ∧ e.trail.getLast? = some .factor ∧
          openBrackets 0 ((tokens source).take k) = some (e.trail.count .factor)) := by
  obtain ⟨k, hk⟩ := exists_getElem? h
  obtain ⟨us, vs, m, hTokens, hStops, hOpen, hTrail⟩ := exists_trail h
  refine ⟨k, hk, fun j hj => getElem?_tokens_inj hj hk, ?_⟩
  have hBrackets : openBrackets 0 ((tokens source).take k) = some m := by
    rw [take_of_stopsAt hTokens hStops hk, hOpen 0, Nat.zero_add]
  rw [hBrackets]
  obtain ⟨hFault, hRoot, rfl⟩ | hTrail := hTrail
  · -- the expression was read, so only the root is open
    rw [hRoot, hFault]
    refine ⟨rfl, .singleton _, by simp, by simp, ?_⟩
    rintro kind ⟨⟩
    exact .inl ⟨rfl, rfl, rfl⟩
  · obtain ⟨hHead, hPath, hDeep, hRoom, hAwaits⟩ := hTrail.root
    refine ⟨hHead, hPath, hDeep, hRoom, fun kind hFault => .inr ?_⟩
    cases hAwaits kind hFault with
    | operand hLast hCount => exact .inl ⟨rfl, hLast, by rw [← hCount]; rfl⟩
    | closing hLast hCount => exact .inr ⟨rfl, hLast, by rw [← hCount]⟩

/-- Brackets that were opened and closed before do not count, nor do the commas of
a call: only the outer bracket and the one of `f` are open where an operand is
missing. -/
theorem parse_error_trail_missing_operand :
    parse "(a)+(f(g(1),-" = .error ⟨.expected .number,
        [.root, .expression, .term, .exponent, .factor, .expression, .term, .exponent, .factor,
          .parameters, .expression, .term, .exponent, .factor], ⟨.eof, none, ⟨13, 13⟩⟩⟩ ∧
      openBrackets 0 ((tokens "(a)+(f(g(1),-").take 13) = some 2 := by
  have hParse : parse "(a)+(f(g(1),-" = .error ⟨.expected .number,
      [.root, .expression, .term, .exponent, .factor, .expression, .term, .exponent, .factor,
        .parameters, .expression, .term, .exponent, .factor], ⟨.eof, none, ⟨13, 13⟩⟩⟩ := by rfl
  obtain ⟨k, -, hPlace, -, -, -, -, hExpected⟩ := parse_error_trail _ _ hParse
  obtain rfl : 13 = k := hPlace 13 rfl
  obtain ⟨hKind, -⟩ | ⟨-, -, hOpen⟩ | ⟨hKind, -⟩ := hExpected .number rfl
  · cases hKind
  · exact ⟨hParse, hOpen⟩
  · cases hKind

end Reckon
