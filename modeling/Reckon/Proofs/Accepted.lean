import Mathlib
import Reckon.Proofs.Chunk.Limits
import Reckon.Proofs.Grammar.Completeness
import Reckon.Proofs.Lookahead
import Reckon.Proofs.Number
import Reckon.Proofs.Safety

/-!
# Reckon — what an accepted source gives

The formula of a source that can be read has nothing in it that the tokens of
the source did not bring:

* `Grammar.Built` — a property of formulas that each way of building one hands
  on. `Grammar.Expression.built` carries it through a derivation, by one
  induction over all rules of the grammar;
* `Formula.Stems` — the unary operators of a formula are signs, its names are
  words of the source, and its literals are what its number tokens are read as;
* `parse_stems` — so it is for every source that can be read, and no source is
  refused for a number that cannot be read. Hence compiling fails at most for
  what does not fit into a chunk.
-/

namespace Reckon

namespace Grammar

/-- A property is handed on by each way of building a formula, if the tokens
that are read are among those of `T`. -/
structure Built (T : Token → Prop) (P : Formula → Prop) : Prop where
  number : ∀ t literal, T t → t.kind = .number → Number.read (t.lexeme.getD "") = .ok literal →
    P (.number literal)
  var : ∀ t, T t → t.kind = .identifier → P (.var (t.lexeme.getD ""))
  binary : ∀ op left right, P left → P right → P (.binary op left right)
  unary : ∀ op operand, op = .plus ∨ op = .minus → P operand → P (.unary op operand)
  call : ∀ t ps, T t → t.kind = .identifier → (∀ p ∈ ps, P p) → P (.call (t.lexeme.getD "") ps)

theorem SumSign.plus_or_minus {kind : TokenKind} {op : Operator} (h : SumSign kind op) :
    op = .plus ∨ op = .minus := by
  cases h
  · exact Or.inl rfl
  · exact Or.inr rfl

/-- What each way of building a formula hands on holds of every formula that is
derived. -/
theorem Expression.built {T : Token → Prop} {P : Formula → Prop} (hBuilt : Built T P)
    {ts : List Token} {f : Formula} {d : Nat} (h : Expression ts f d) :
    (∀ t ∈ ts, T t) → P f := by
  -- a chain hands on what holds of the formula it starts behind
  refine @Expression.rec
    (fun ts f _ _ => (∀ t ∈ ts, T t) → P f)
    (fun ts f _ _ => (∀ t ∈ ts, T t) → P f)
    (fun ts f _ _ => (∀ t ∈ ts, T t) → P f)
    (fun ts f _ _ => (∀ t ∈ ts, T t) → P f)
    (fun ts ps _ _ => (∀ t ∈ ts, T t) → ∀ p ∈ ps, P p)
    (fun left ts f _ _ => (∀ t ∈ ts, T t) → P left → P f)
    (fun left ts f _ _ => (∀ t ∈ ts, T t) → P left → P f)
    (fun ts ps _ _ => (∀ t ∈ ts, T t) → ∀ p ∈ ps, P p)
    ?sum ?product ?factor ?power ?var ?call ?group ?signed ?number ?noParameters ?parameters
    ?sumStop ?sumLink ?productStop ?productLink ?commasStop ?commasLink ts f d h
  case sum | product =>
    intro left f ts us d d' _ _ ihLeft ihRest hAll
    rw [List.forall_mem_append] at hAll
    exact ihRest hAll.2 (ihLeft hAll.1)
  case factor =>
    intro f ts d _ ih
    exact ih
  case power =>
    intro base exponent caret ts us d d' _ _ _ ihBase ihExponent hAll
    rw [List.forall_mem_append, List.forall_mem_cons] at hAll
    exact hBuilt.binary _ _ _ (ihBase hAll.1) (ihExponent hAll.2.2)
  case var =>
    intro name hName hAll
    exact hBuilt.var name (hAll name (List.mem_singleton_self name)) hName
  case call =>
    intro ps name left right ts d hName _ _ _ ih hAll
    rw [List.forall_mem_cons, List.forall_mem_cons, List.forall_mem_append] at hAll
    exact hBuilt.call name ps hAll.1 hName (ih hAll.2.2.1)
  case group =>
    intro f left right ts d _ _ _ ih hAll
    rw [List.forall_mem_cons, List.forall_mem_append] at hAll
    exact ih hAll.2.1
  case signed =>
    intro f sign op ts d hSign _ ih hAll
    rw [List.forall_mem_cons] at hAll
    exact hBuilt.unary op f hSign.plus_or_minus (ih hAll.2)
  case number =>
    intro t literal hKind hRead hAll
    exact hBuilt.number t literal (hAll t (List.mem_singleton_self t)) hKind hRead
  case noParameters | commasStop =>
    intro _ p hp
    cases hp
  case parameters =>
    intro p ps ts us d d' _ _ ihHead ihRest hAll
    rw [List.forall_mem_append] at hAll
    exact List.forall_mem_cons.2 ⟨ihHead hAll.1, ihRest hAll.2⟩
  case sumStop | productStop =>
    intro left _ hLeft
    exact hLeft
  case sumLink | productLink =>
    intro left right f sign op ts us d d' _ _ _ ihRight ihRest hAll hLeft
    rw [List.forall_mem_cons, List.forall_mem_append] at hAll
    exact ihRest hAll.2.2 (hBuilt.binary _ _ _ hLeft (ihRight hAll.2.1))
  case commasLink =>
    intro p ps comma ts us d d' _ _ _ ihHead ihRest hAll
    rw [List.forall_mem_cons, List.forall_mem_append] at hAll
    exact List.forall_mem_cons.2 ⟨ihHead hAll.2.1, ihRest hAll.2.2⟩

end Grammar

/-! ## Formulas of sources -/

/-- A name is a word of a source. -/
def IsWordOf (source name : String) : Prop :=
  Token.Shape .identifier name.toList ∧
    ∃ t ∈ tokens source, t.kind = .identifier ∧ t.lexeme = some name

/-- A literal is what a number of a source is read as. -/
def IsNumberOf (source : String) (literal : Literal) : Prop :=
  ∃ t ∈ tokens source, ∃ text, t.kind = .number ∧ t.lexeme = some text ∧
    Token.Shape .number text.toList ∧ Number.read text = .ok literal

/-- A formula stems from a source: its unary operators are signs, its names are
words of the source and its literals are numbers of the source. -/
structure Formula.Stems (source : String) (f : Formula) : Prop where
  signs : f.wellSigned = true
  names : ∀ name ∈ f.names, IsWordOf source name
  literals : ∀ l ∈ f.literals, IsNumberOf source l

theorem IsNumberOf.unsigned {source : String} {literal : Literal}
    (h : IsNumberOf source literal) : Number.Unsigned literal := by
  obtain ⟨t, -, text, -, -, hShape, hRead⟩ := h
  obtain ⟨literal', hRead', hUnsigned⟩ := Number.read_of_shape hShape
  cases hRead'.symm.trans hRead
  exact hUnsigned

section Tokens

variable {source : String} {t : Token}

/-- A token that keeps its text keeps a text of its own shape. -/
theorem shape_of_mem_tokens (ht : t ∈ tokens source)
    (hKeeps : t.kind = .identifier ∨ t.kind = .number) :
    t.lexeme = some (t.lexeme.getD "") ∧ Token.Shape t.kind (t.lexeme.getD "").toList := by
  obtain ⟨before, text, after, -, -, -, hShape, hLexeme, -⟩ := exists_of_mem_tokens ht
  have hText : t.lexeme = some (String.ofList text) := by
    rw [hLexeme]
    rcases hKeeps with hKind | hKind <;> rw [hKind] <;> rfl
  have hEof : t.kind ≠ .eof := by
    rcases hKeeps with hKind | hKind <;> rw [hKind] <;> decide
  rw [hText, Option.getD_some, String.toList_ofList]
  exact ⟨rfl, hShape hEof⟩

theorem isWordOf_lexeme (ht : t ∈ tokens source) (hKind : t.kind = .identifier) :
    IsWordOf source (t.lexeme.getD "") := by
  obtain ⟨hLexeme, hShape⟩ := shape_of_mem_tokens ht (Or.inl hKind)
  rw [hKind] at hShape
  exact ⟨hShape, t, ht, hKind, hLexeme⟩

theorem isNumberOf_read (ht : t ∈ tokens source) (hKind : t.kind = .number) {literal : Literal}
    (hRead : Number.read (t.lexeme.getD "") = .ok literal) : IsNumberOf source literal := by
  obtain ⟨hLexeme, hShape⟩ := shape_of_mem_tokens ht (Or.inr hKind)
  rw [hKind] at hShape
  exact ⟨t, ht, _, hKind, hLexeme, hShape, hRead⟩

end Tokens

namespace Formula

variable {source : String}

/-- Each way of building a formula from the tokens of a source gives one that
stems from it. -/
theorem built_stems (source : String) : Grammar.Built (· ∈ tokens source) (Stems source) where
  number t literal ht hKind hRead := by
    refine ⟨rfl, by simp [names], fun l hl => ?_⟩
    rw [literals, List.mem_singleton] at hl
    rw [hl]
    exact isNumberOf_read ht hKind hRead
  var t ht hKind := by
    refine ⟨rfl, fun name hName => ?_, by simp [literals]⟩
    rw [names, List.mem_singleton] at hName
    rw [hName]
    exact isWordOf_lexeme ht hKind
  binary op left right hLeft hRight := by
    refine ⟨?_, ?_, ?_⟩
    · rw [wellSigned, hLeft.signs, hRight.signs]
      rfl
    · rw [names, List.forall_mem_append]
      exact ⟨hLeft.names, hRight.names⟩
    · rw [literals, List.forall_mem_append]
      exact ⟨hLeft.literals, hRight.literals⟩
  unary op operand hOp hOperand := by
    refine ⟨?_, hOperand.names, hOperand.literals⟩
    rw [wellSigned, hOperand.signs]
    rcases hOp with rfl | rfl <;> rfl
  call t ps ht hKind hAll := by
    refine ⟨wellSignedAll_iff.2 fun p hp => (hAll p hp).signs, ?_, fun l hl => ?_⟩
    · rw [names, List.forall_mem_append, List.forall_mem_singleton, namesAll_eq]
      refine ⟨fun name hName => ?_, isWordOf_lexeme ht hKind⟩
      obtain ⟨p, hp, hName⟩ := List.mem_flatMap.1 hName
      exact (hAll p hp).names name hName
    · rw [literals, literalsAll_eq] at hl
      obtain ⟨p, hp, hl⟩ := List.mem_flatMap.1 hl
      exact (hAll p hp).literals l hl

/-- The formula that is read stems from the source. -/
theorem stems_of_parse {f : Formula} (h : parse source = .ok f) : f.Stems source := by
  obtain ⟨d, hSentence, -⟩ := Grammar.sentence_of_parse h
  cases hSentence with
  | root hExpression =>
    refine hExpression.built (built_stems source) fun t ht => ?_
    -- the end token derives nothing
    exact List.mem_of_mem_dropLast ht

end Formula

/-! ## Compiling what was read -/

/-- What may get too large. -/
def CompileError.OfSize : CompileError → Prop
  | .tooManyConstants | .tooManyIdentifiers | .scratchOverflow _ => True
  | _ => False

namespace Formula

variable {f : Formula} (hSigns : f.wellSigned = true) (name : String)
include hSigns

/-- Without a chunk, signs are all that a formula needs. -/
theorem exists_compile {backend : Backend} (hBackend : backend ≠ .native) :
    ∃ e, f.compile name backend = .ok e := by
  cases backend with
  | native => exact absurd rfl hBackend
  | treeIr =>
    obtain ⟨e, hLower⟩ := lower_ok hSigns
    obtain ⟨v, hCompile⟩ := Core.compile_ok_of_lower hLower name
    exact ⟨v, by rw [compile, hLower]; exact hCompile⟩
  | closure =>
    obtain ⟨c, hCode⟩ := closure_ok hSigns
    exact ⟨_, by rw [compile, hCode]; rfl⟩

/-- With a chunk, its size is all that may be wrong. -/
theorem compile_native_errors {err : CompileError} (h : f.compile name .native = .error err) :
    err.OfSize := by
  rcases toChunk_error_cases (toChunk_of_compile_error h) with rfl | ⟨d, hd, rfl, hSign⟩
  · trivial
  · cases d with
    | literal | name => trivial
    | sign op => exact absurd ((signs_demands f).2 hSigns op hd) (hSign op rfl)

theorem exists_compile_native_iff :
    (∃ e, f.compile name .native = .ok e) ↔
      f.scratchSize ≤ 65535 ∧ (f.literals.map Literal.bits).toFinset.card ≤ 65536 ∧
        f.names.toFinset.card ≤ 65536 := by
  have hChunk : (∃ e, f.compile name .native = .ok e) ↔ ∃ c, f.toChunk name = .ok c := by
    rw [compile_native]
    cases f.toChunk name <;> simp [Except.map]
  rw [hChunk, exists_toChunk_iff, admissible_demands, wordCount, Nat.lt_succ_iff]
  simp only [hSigns, true_and]

end Formula

theorem compile_of_parse {source : String} {f : Formula} (h : parse source = .ok f)
    (name : String) (backend : Backend) :
    compile name source backend = (f.compile name backend).mapError .compile := by
  simp only [compile, h]
  cases f.compile name backend <;> rfl

theorem compile_ok_iff {source : String} {f : Formula} (h : parse source = .ok f)
    (name : String) (backend : Backend) :
    (∃ e, compile name source backend = .ok e) ↔ ∃ e, f.compile name backend = .ok e := by
  rw [compile_of_parse h]
  cases f.compile name backend <;> simp [Except.mapError]

/-- The formula of a source that can be read stems from the source, and its
literals have no sign. It can be compiled, to a chunk just if it fits into one.
No source is refused for one of its numbers. -/
theorem parse_stems (source : String) :
    (∀ f, parse source = .ok f →
      f.Stems source ∧ (∀ l ∈ f.literals, Number.Nonnegative l.value) ∧
      ∀ name, (∃ e, compile name source .treeIr = .ok e) ∧
        (∃ e, compile name source .closure = .ok e) ∧
        ((∃ e, compile name source .native = .ok e) ↔
          f.scratchSize ≤ 65535 ∧
            (f.literals.map Literal.bits).toFinset.card ≤ 65536 ∧
            f.names.toFinset.card ≤ 65536) ∧
        ∀ error, compile name source .native = .error error →
          ∃ cause : CompileError, error = .compile cause ∧ cause.OfSize) ∧
      ∀ e cause, parse source = .error e → e.fault ≠ .invalidNumber cause := by
  constructor
  · intro f hParse
    -- of what the formula stems from, compiling only needs the signs
    have hStems := Formula.stems_of_parse hParse
    refine ⟨hStems, fun l hl => (hStems.literals l hl).unsigned.nonnegative, fun name => ?_⟩
    simp only [compile_ok_iff hParse]
    refine ⟨Formula.exists_compile hStems.signs name (by decide),
      Formula.exists_compile hStems.signs name (by decide),
      Formula.exists_compile_native_iff hStems.signs name, fun error hError => ?_⟩
    rw [compile_of_parse hParse] at hError
    cases hCompile : f.compile name .native with
    | ok e =>
      rw [hCompile] at hError
      cases hError
    | error cause =>
      rw [hCompile] at hError
      cases hError
      exact ⟨cause, rfl, Formula.compile_native_errors hStems.signs name hCompile⟩
  · intro e cause hParse
    exact Cursor.parse_ne_invalidNumber (Cursor.scanned_ofString source) hParse cause

/-- The sign in front of a number is no part of its literal. -/
theorem parse_stems_signed_number :
    parse "-2.50^f(@a)" =
        .ok (.binary .power (.unary .minus (.number (.ofFloat 2.5))) (.call "f" [.var "@a"])) ∧
      Number.Nonnegative 2.5 ∧ IsWordOf "-2.50^f(@a)" "f" ∧
      ∃ e, compile "power" "-2.50^f(@a)" .native = .ok e := by
  have hParse : parse "-2.50^f(@a)" =
      .ok (.binary .power (.unary .minus (.number (.ofFloat 2.5))) (.call "f" [.var "@a"])) := by
    rfl
  obtain ⟨hStems, hLiterals, hCompile⟩ := (parse_stems "-2.50^f(@a)").1 _ hParse
  refine ⟨hParse, hLiterals (.ofFloat 2.5) (by simp [Formula.literals]),
    hStems.names "f" (by simp [Formula.names, Formula.namesAll]),
    (hCompile "power").2.2.1.2 ⟨by decide, ?_, by decide⟩⟩
  simp [Formula.literals, Formula.literalsAll]

end Reckon
