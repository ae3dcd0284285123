import Mathlib
import Reckon.Proofs.Chunk.WellFormed
import Reckon.Proofs.Core.Calls
import Reckon.Proofs.Misplaced
import Reckon.Proofs.Scope
import Reckon.Proofs.Token.Partition

/-!
# Reckon — what a source can lead to

Whatever text is compiled and invoked, the end is a value or an error that is
reported. Nothing that the functions on the way rely on is ever missing:

* `Cursor.OnBoundaries` — a cursor cuts the source at boundaries of characters,
  which `Cursor.onBoundaries_iterate` says of every cursor that is moved on;
* `Formula.compile_errors` — compiling fails for an operator that is no sign
  or, on the way to a chunk, for what gets too large, and for nothing else;
* `Scope.answer_error` — with builtins for functions, no question is aborted;
* `source_safe` — all of it, for every source.
-/

namespace Reckon

/-! ## Cursors -/

/-- A cursor cuts its source at boundaries of characters. The text behind its
token is what stands behind its offset, and the lexeme of the token is what
stands between the ends of the span. A number can be cut anywhere. -/
structure Cursor.OnBoundaries (source : String) (c : Cursor) : Prop where
  offset : String.Pos.Raw.IsValid source ⟨c.offset⟩
  rest : (Span.slice ⟨c.offset, source.utf8ByteSize⟩ source).toList = c.rest
  start : String.Pos.Raw.IsValid source ⟨c.current.span.start⟩
  stop : String.Pos.Raw.IsValid source ⟨c.current.span.stop⟩
  start_le : c.current.span.start ≤ c.current.span.stop
  lexeme : c.current.lexeme = c.kind.keeps (c.current.span.slice source)
  number : c.kind = .number → ∀ byte, c.current.span.start ≤ byte → byte ≤ c.current.span.stop →
    String.Pos.Raw.IsValid source ⟨byte⟩

/-- A number has a byte for each of its characters. -/
theorem Token.Shape.byteLength_number {text : List Char} (h : Token.Shape .number text) :
    ∀ more, more <+: text → byteLength more = more.length := by
  have hDigit : ∀ d, IsDigit d → d.utf8Size = 1 := by
    intro d hd
    have hLow : d.val ≤ '9'.val := hd.2
    have hHigh : '9'.val ≤ 127 := by decide
    exact Char.utf8Size_eq_one_iff.2 (UInt32.le_trans hLow hHigh)
  have hAll : ∀ d ∈ text, d.utf8Size = 1 := by
    intro d hd
    cases h with
    | sign hSign => simp [signs] at hSign
    | whole _ hDigits => exact hDigit d (hDigits d hd)
    | fraction _ hDigits hPlaces =>
      rcases List.mem_append.1 hd with hd | hd
      · exact hDigit d (hDigits d hd)
      · rcases List.mem_cons.1 hd with rfl | hd
        · rfl
        · exact hDigit d (hPlaces d hd)
  intro more hPrefix
  have hMore : ∀ d ∈ more, d.utf8Size = 1 := fun d hd => hAll d (hPrefix.subset hd)
  clear hPrefix
  induction more with
  | nil => rfl
  | cons d more ih =>
    rw [byteLength_cons, List.length_cons, hMore d (List.mem_cons_self ..),
      ih fun c hc => hMore c (List.mem_cons_of_mem d hc), Nat.add_comm]

namespace Cursor

/-- Reading a token cuts a text in three, the middle one being the token's. At
the end of the source it is empty. -/
theorem scan_eq_append (chars : List Char) (offset size : Nat) :
    ∃ gap text, chars = gap ++ (text ++ (scan chars offset size).rest) ∧
      (scan chars offset size).current.span.start = offset + byteLength gap ∧
      (scan chars offset size).current.span.stop = offset + byteLength (gap ++ text) ∧
      (scan chars offset size).offset = (scan chars offset size).current.span.stop ∧
      (scan chars offset size).current.lexeme =
        (scan chars offset size).kind.keeps (String.ofList text) ∧
      ((scan chars offset size).kind = .number → Token.Shape .number text) := by
  rcases scan_cases chars offset size with ⟨-, hScan⟩ | ⟨t, gap, text, rest, hChars, hCut, hScan⟩
  · rw [hScan]
    exact ⟨chars, [], by simp, rfl, by simp, rfl, rfl, by rintro ⟨⟩⟩
  · rw [hScan]
    refine ⟨gap, text, hChars, hCut.start_eq, ?_, rfl, hCut.lexeme_eq, fun hKind => ?_⟩
    · rw [hCut.stop_eq, hCut.start_eq, byteLength_append]
      omega
    · have hShape := hCut.shape
      rwa [show t.kind = .number from hKind] at hShape

/-- A cursor that stands in a source: what is behind its token ends the
source. -/
def StandsIn (c : Cursor) (source : String) : Prop :=
  ∃ front, source.toList = front ++ c.rest ∧ c.offset = byteLength front

theorem scan_onBoundaries {source : String} {front chars : List Char} (size : Nat)
    (hSource : source.toList = front ++ chars) :
    (scan chars (byteLength front) size).OnBoundaries source ∧
      (scan chars (byteLength front) size).StandsIn source := by
  obtain ⟨gap, text, hChars, hStart, hStop, hOffset, hLexeme, hNumber⟩ :=
    scan_eq_append chars (byteLength front) size
  generalize scan chars (byteLength front) size = c at *
  subst hChars
  rw [← byteLength_append] at hStart hStop
  rw [← List.append_assoc] at hStop
  have hBefore : source.toList = (front ++ gap) ++ (text ++ c.rest) := by
    rw [hSource, List.append_assoc]
  have hBehind : source.toList = (front ++ gap ++ text) ++ c.rest := by
    rw [hBefore, List.append_assoc (front ++ gap)]
  have hLength : c.current.span.stop = c.current.span.start + byteLength text := by
    rw [hStop, hStart, byteLength_append (front ++ gap)]
  have hValid : String.Pos.Raw.IsValid source ⟨c.current.span.stop⟩ :=
    (isValid_iff ..).2 ⟨_, _, hBehind, hStop⟩
  refine ⟨⟨?_, ?_, (isValid_iff ..).2 ⟨_, _, hBefore, hStart⟩, hValid, by omega, ?_, ?_⟩, _,
    hBehind, hOffset.trans hStop⟩
  · rwa [hOffset]
  · have hRest : source.toList = (front ++ gap ++ text) ++ (c.rest ++ []) := by
      rw [List.append_nil, hBehind]
    have hSize : source.utf8ByteSize = c.offset + byteLength c.rest := by
      rw [utf8ByteSize_eq, hOffset, hStop, hBehind, ← byteLength_append]
    rw [Span.slice_of_toList hRest (hOffset.trans hStop) hSize, String.toList_ofList]
  · rw [hLexeme, Span.slice_of_toList hBefore hStart hLength]
  · -- a prefix of the number ends at each of its bytes
    intro hKind byte hLow hHigh
    have hBytes := (hNumber hKind).byteLength_number
    have hText := hBytes text List.prefix_rfl
    have hTake := hBytes _ (List.take_prefix (byte - c.current.span.start) text)
    rw [List.length_take] at hTake
    refine (isValid_iff ..).2 ⟨front ++ gap ++ text.take (byte - c.current.span.start),
      text.drop (byte - c.current.span.start) ++ c.rest, ?_, ?_⟩
    · rw [List.append_assoc, ← List.append_assoc (text.take _), List.take_append_drop]
      exact hBefore
    · rw [byteLength_append, hTake, ← hStart]
      omega

/-- Every cursor that comes up while a source is read cuts it at boundaries. -/
theorem onBoundaries_iterate (source : String) (n : Nat) :
    (advance^[n] (ofString source)).OnBoundaries source ∧
      (advance^[n] (ofString source)).StandsIn source := by
  induction n with
  | zero =>
    have hSource : source.toList = [] ++ source.toList := rfl
    exact scan_onBoundaries source.utf8ByteSize hSource
  | succ n ih =>
    obtain ⟨-, front, hSource, hOffset⟩ := ih
    rw [Function.iterate_succ_apply', advance, hOffset]
    exact scan_onBoundaries _ hSource

end Cursor

/-! ## Errors of compiling -/

/-- The errors that are a formula's own fault: an operator that it does not
have, or more of something than can be numbered. The others would tell of a
chunk, a core expression or a count of operands that was made wrongly. -/
def CompileError.OfFormula : CompileError → Prop
  | unknownUnary _ | tooManyConstants | tooManyIdentifiers | scratchOverflow _ => True
  | malformedCall _ | unreadable _ _ | underflow _ | missingOperand | miscount
  | wrongWidth _ => False

namespace Formula

/-- Compiling only fails by the formula's own fault. Each backend fails in its first
part, if at all. -/
theorem compile_errors {f : Formula} {name : String} {backend : Backend} {err : CompileError}
    (h : f.compile name backend = .error err) : err.OfFormula := by
  cases backend with
  | native =>
    -- a chunk demands literals, names and signs, and each demand has its own error
    rcases toChunk_error_cases (toChunk_of_compile_error h) with rfl | ⟨d, -, rfl, -⟩
    · trivial
    · cases d <;> trivial
  | treeIr =>
    rcases error_of_bind h with hLower | ⟨c, hLower, h⟩
    · obtain ⟨op, -, rfl⟩ := f.lower_refuses.error_eq hLower
      trivial
    · -- what was lowered has no call that does not fit
      obtain ⟨e, hCompile⟩ := Core.compile_ok_of_lower hLower name
      rw [hCompile] at h
      cases h
  | closure =>
    rcases error_of_bind h with hCode | ⟨c, -, h⟩
    · obtain ⟨op, -, rfl⟩ := (Closure.compile_refuses f).error_eq hCode
      trivial
    · cases h

end Formula

/-! ## Scopes of builtins -/

namespace Scope

/-- The builtins and the variables that are declared beside them, as far as
their names are not taken. -/
def withBuiltins (declared : List (String × Float)) : Scope :=
  builtins.registerAll (declared.map fun (name, value) => .single (.var name value))

/-- The functions of a scope are builtins. -/
def OnlyBuiltins (s : Scope) : Prop :=
  ∀ name f, s.function? name = some f →
    ∃ body arity, (name, body, arity) ∈ builtinFunctions ∧ f = .builtin body arity

theorem onlyBuiltins_builtins : builtins.OnlyBuiltins := by
  intro name f hFunction
  have hRegister := register_builtins_empty
  rcases empty.register_builtins_eq with ⟨-, hAll, hGains⟩ | ⟨-, x, -, -, hDefines, -⟩
  · rw [hAll] at hRegister
    have hHolds : builtins.Holds (.func name f) := hFunction
    rw [← (Prod.mk.inj hRegister).1, hGains] at hHolds
    rcases hHolds with hEmpty | hMem
    · cases hEmpty
    · simp only [builtinEntries, List.mem_append, List.mem_map] at hMem
      rcases hMem with ⟨entry, -, hEq⟩ | ⟨⟨name', body, arity⟩, hRow, hEq⟩
      · cases hEq
      · cases hEq
        exact ⟨body, arity, hRow, rfl⟩
  · exact absurd hDefines (not_defines_empty x)

theorem function?_register_var (s : Scope) (name : String) (value : Float) :
    (s.register (.single (.var name value))).1.function? = s.function? := by
  by_cases hDefines : s.Defines (.var name value)
  · rw [register_of_defines hDefines]
  · rw [register_of_not_defines hDefines]
    rfl

/-- Declaring variables leaves the functions alone. -/
theorem onlyBuiltins_withBuiltins (declared : List (String × Float)) :
    (withBuiltins declared).OnlyBuiltins := by
  have hStep : ∀ (declared : List (String × Float)) (s : Scope), s.OnlyBuiltins →
      (s.registerAll
        (declared.map fun (name, value) => .single (.var name value))).OnlyBuiltins := by
    intro declared
    induction declared with
    | nil => exact fun _ hs => hs
    | cons x declared ih =>
      intro s hs
      refine ih _ ?_
      rw [OnlyBuiltins, function?_register_var]
      exact hs
  exact hStep declared builtins onlyBuiltins_builtins

/-- With builtins for functions, no question is aborted. -/
theorem answer_error {s : Scope} (h : s.OnlyBuiltins) {lookup : Lookup} {failure : Failure}
    (hAnswer : s.answer lookup = .error failure) : ∃ fault, failure = .fault fault := by
  cases lookup with
  | var name =>
    rw [answer] at hAnswer
    split at hAnswer
    · cases hAnswer
    · cases hAnswer
      exact ⟨_, rfl⟩
  | call name parameters =>
    rw [answer] at hAnswer
    split at hAnswer
    · next f hFunction =>
      obtain ⟨body, arity, hRow, rfl⟩ := h name f hFunction
      have hCall := Callable.call_builtin (needs_of_mem_builtinFunctions _ hRow) name parameters
      split at hCall
      · -- the body finds its parameters
        obtain ⟨value, hValue⟩ := hCall
        rw [hValue] at hAnswer
        cases hAnswer
      · rw [hCall] at hAnswer
        cases hAnswer
        exact ⟨_, rfl⟩
    · cases hAnswer
      exact ⟨_, rfl⟩

end Scope

/-! ## Sources -/

/-- What holds of a source and a scope in which it is evaluated. -/
structure Safe (source : String) (s : Scope) : Prop where
  /-- Compiling and invoking ends with a value or with an error to report. A count of
  operands that is too low or a call of another width than its parameters have would
  be an error of compiling that is not the formula's fault, and a run that misses an
  operand or an identifier would be aborted. So there is none of this. -/
  ends : ∀ name backend,
    (∃ e, compile name source backend = .error (.parse e)) ∨
    (∃ e, compile name source backend = .error (.compile e) ∧ e.OfFormula) ∨
    ∃ evaluator, compile name source backend = .ok evaluator ∧
      ((∃ value, (evaluator.invoke s.env).result = .ok value) ∨
        ∃ fault, (evaluator.invoke s.env).result = .error (.fault fault))
  /-- The source is cut at boundaries of characters only. -/
  cursors : ∀ n, (Cursor.advance^[n] (.ofString source)).OnBoundaries source
  /-- Everything in a chunk can be read, by the assembler and for a listing. -/
  chunks : ∀ f name c, parse source = .ok f → f.toChunk name = .ok c →
    (∃ p, c.assemble = .ok p) ∧ ∃ text, c.listing = .ok text
  /-- The body of a function is run with as many parameters as it needs, and only
  then. -/
  parameters : ∀ name f, s.function? name = some f →
    ∃ body arity, (name, body, arity) ∈ builtinFunctions ∧ f = .builtin body arity ∧
      body.Needs arity ∧ ∀ ps,
        if ps.length = arity then ∃ value, f.call name ps = .ok value
        else f.call name ps = .error (.fault (.invalidCall name ps.length arity))

theorem invoke_ends {f : Formula} {name : String} {backend : Backend} {evaluator : Evaluator}
    (h : f.compile name backend = .ok evaluator) {s : Scope} (hs : s.OnlyBuiltins) :
    (∃ value, (evaluator.invoke s.env).result = .ok value) ∨
      ∃ fault, (evaluator.invoke s.env).result = .error (.fault fault) := by
  have hEnds := (f.eval_asks s.env).outcome_ends
  rw [Evaluator.invoke, Formula.code_eq_eval h]
  cases hResult : (f.eval s.env).outcome.result with
  | ok value => exact Or.inl ⟨value, rfl⟩
  | error failure =>
    -- the failure is the answer to the latest question
    rw [hResult] at hEnds
    obtain ⟨last, before, -, -, hAnswer⟩ := hEnds
    obtain ⟨fault, rfl⟩ := Scope.answer_error hs hAnswer
    exact Or.inr ⟨fault, rfl⟩

/-- Every source is safe with the builtins and any variables. The scope of the
builtins can be made in the first place. -/
theorem source_safe (source : String) (declared : List (String × Float)) :
    Scope.empty.register .builtins = (Scope.builtins, none) ∧
      Safe source (Scope.withBuiltins declared) := by
  have hScope := Scope.onlyBuiltins_withBuiltins declared
  refine ⟨Scope.register_builtins_empty,
    ⟨?_, fun n => (Cursor.onBoundaries_iterate source n).1, ?_, ?_⟩⟩
  · intro name backend
    unfold compile
    cases parse source with
    | error e => exact Or.inl ⟨e, rfl⟩
    | ok f =>
      cases hCompile : f.compile name backend with
      | error e =>
        exact Or.inr (Or.inl ⟨e, by simp only [hCompile], Formula.compile_errors hCompile⟩)
      | ok evaluator =>
        exact Or.inr (Or.inr ⟨evaluator, by simp only [hCompile], invoke_ends hCompile hScope⟩)
  · intro f name c _ hChunk
    obtain ⟨e, hEmit, rfl, -⟩ := f.exists_emitter hChunk
    obtain ⟨lines, -, hListing⟩ := Emitter.listing_finish (f.means_steps hEmit) name
    exact ⟨⟨_, f.assemble_toChunk hChunk⟩, _, hListing⟩
  · intro name f hFunction
    obtain ⟨body, arity, hRow, rfl⟩ := hScope name f hFunction
    have hNeeds := needs_of_mem_builtinFunctions _ hRow
    exact ⟨body, arity, hRow, rfl, hNeeds, Callable.call_builtin hNeeds name⟩

end Reckon
