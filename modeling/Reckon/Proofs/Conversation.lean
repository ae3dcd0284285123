import Mathlib
import Reckon.CommandLine.Report
import Reckon.Proofs.Accepted
import Reckon.Proofs.Misplaced
import Reckon.Proofs.Safety
import Reckon.Proofs.Token.Partition
import Reckon.Proofs.Token.Spaced

/-!
# Reckon — conversations

A conversation answers the lines of its input one at a time, each as if it were
the only one, and as the command that evaluates a single source would:

* `Lines` — the lines of a text, said without reading them. A text has its lines in
  one way only (`Lines.unique`);
* `Sheet.converse_of_line` — what one round of a conversation does;
* `Sheet.converse_lines` — what all its rounds do, by induction on the lines;
* `Answers` — what the evaluation of a single source may report;
* `interpret_congr` — the backends say the same about a source whose formula a chunk
  can hold;
* `conversation_by_lines` — the whole of it, for every input.
-/

namespace Reckon.CommandLine

/-! ## Lines -/

/-- The lines of a text. Each one ends with its line feed, but the last one need not
have any. -/
inductive Lines : List Char → List String → Prop
  | none : Lines [] []
  | last {line : List Char} (hNonempty : line ≠ []) (hFeed : '\n' ∉ line) :
      Lines line [String.ofList line]
  | next {body rest : List Char} {lines : List String} (hFeed : '\n' ∉ body)
      (hRest : Lines rest lines) :
      Lines (body ++ '\n' :: rest) (String.ofList (body ++ ['\n']) :: lines)

theorem ne_feed {body : List Char} (h : '\n' ∉ body) : ∀ c ∈ body, (c != '\n') = true := by
  intro c hc
  rw [bne_iff_ne]
  rintro rfl
  exact h hc

theorem spanLine_last {line : List Char} (h : '\n' ∉ line) : spanLine line = (line, []) := by
  obtain ⟨hTake, hDrop⟩ := span_append (· != '\n') line [] (ne_feed h) (by simp)
  rw [List.append_nil] at hTake hDrop
  simp only [spanLine, hTake, hDrop]

theorem spanLine_next {body : List Char} (h : '\n' ∉ body) (rest : List Char) :
    spanLine (body ++ '\n' :: rest) = (body ++ ['\n'], rest) := by
  obtain ⟨hTake, hDrop⟩ := span_append (· != '\n') body ('\n' :: rest) (ne_feed h) (by simp)
  simp only [spanLine, hTake, hDrop]

namespace Lines

theorem exists_lines (text : List Char) : ∃ lines, Lines text lines := by
  induction text with
  | nil => exact ⟨[], .none⟩
  | cons c text ih =>
    obtain ⟨lines, hLines⟩ := ih
    by_cases hc : '\n' = c
    · subst hc
      exact ⟨_, .next List.not_mem_nil hLines⟩
    · -- the character goes to the front of the first line, if there is one
      cases hLines with
      | none =>
        exact ⟨_, .last (by simp) (List.not_mem_cons_of_ne_of_not_mem hc List.not_mem_nil)⟩
      | last _ hFeed =>
        exact ⟨_, .last (by simp) (List.not_mem_cons_of_ne_of_not_mem hc hFeed)⟩
      | next hFeed hRest =>
        exact ⟨_, .next (List.not_mem_cons_of_ne_of_not_mem hc hFeed) hRest⟩

variable {text : List Char} {lines : List String}

/-- Reading finds the first line. -/
theorem spanLine_eq {line : String} (h : Lines text (line :: lines)) :
    ∃ rest, spanLine text = (line.toList, rest) ∧ line ≠ "" ∧ Lines rest lines := by
  cases h with
  | last hNonempty hFeed =>
    rw [String.toList_ofList]
    exact ⟨[], spanLine_last hFeed, by simpa using hNonempty, .none⟩
  | @next body rest _ hFeed hRest =>
    rw [String.toList_ofList]
    exact ⟨rest, spanLine_next hFeed rest, by simp, hRest⟩

theorem eq_nil (h : Lines text []) : text = [] := by
  cases h
  rfl

theorem ne_nil {line : String} (h : Lines text (line :: lines)) : text ≠ [] := by
  rintro rfl
  obtain ⟨rest, hSpan, hLine, -⟩ := h.spanLine_eq
  have hEmpty : [] = line.toList := congrArg Prod.fst hSpan
  exact hLine (String.toList_eq_nil_iff.1 hEmpty.symm)

/-- A text has its lines in one way only, since both ways are how it is read. -/
theorem unique {lines' : List String} (h : Lines text lines) (h' : Lines text lines') :
    lines' = lines := by
  induction lines generalizing text lines' with
  | nil =>
    cases lines' with
    | nil => rfl
    | cons line' lines' => exact absurd h.eq_nil h'.ne_nil
  | cons line lines ih =>
    cases lines' with
    | nil => exact absurd h'.eq_nil h.ne_nil
    | cons line' lines' =>
      obtain ⟨rest, hSpan, -, hRest⟩ := h.spanLine_eq
      obtain ⟨rest', hSpan', -, hRest'⟩ := h'.spanLine_eq
      obtain ⟨hLine, rfl⟩ := Prod.mk.inj (hSpan'.symm.trans hSpan)
      rw [String.toList_inj.1 hLine, ih hRest hRest']

end Lines

/-! ## Rounds -/

namespace Sheet

variable (backend : Backend) (s : Scope)

/-- A conversation goes on from where a round leaves it, or ends there. -/
theorem converse_of_round {sheet next : Sheet} {more : Bool}
    (h : console.round backend s sheet = (more, next)) :
    converse backend s sheet = if more then converse backend s next else next := by
  rw [converse]
  split
  · next hNext =>
    cases h.symm.trans hNext
    rfl
  · next hLast =>
    cases h.symm.trans hLast
    rfl

/-- At the end of its input, a conversation asks once more and is over. -/
theorem converse_of_end (printed : String) :
    converse backend s ⟨[], printed⟩ = ⟨[], printed ++ prompt⟩ := by
  have hRound : console.round backend s ⟨[], printed⟩ = (false, ⟨[], printed ++ prompt⟩) := by
    rw [round_console]
    exact if_pos rfl
  rw [converse_of_round backend s hRound]
  rfl

/-- A round answers the first line and leaves the others unread. -/
theorem converse_of_line {unread rest : List Char} {line : String}
    (h : spanLine unread = (line.toList, rest)) (hLine : line ≠ "") (printed : String) :
    converse backend s ⟨unread, printed⟩ =
      converse backend s ⟨rest, printed ++ prompt ++ respond backend s line⟩ := by
  have hRound : console.round backend s ⟨unread, printed⟩ =
      (true, ⟨rest, printed ++ prompt ++ respond backend s line⟩) := by
    rw [round_console, h, String.ofList_toList]
    exact if_neg (by simpa using hLine)
  rw [converse_of_round backend s hRound]
  rfl

/-- A conversation reads all of its input and answers each line, whatever has been
printed before. -/
theorem converse_lines {unread : List Char} {lines : List String} (h : Lines unread lines)
    (printed : String) :
    converse backend s ⟨unread, printed⟩ =
      ⟨[], printed ++ String.join (lines.map fun line => prompt ++ respond backend s line)
        ++ prompt⟩ := by
  -- what a line adds is printed already when the lines behind it are answered
  induction lines generalizing unread printed with
  | nil =>
    obtain rfl := h.eq_nil
    rw [converse_of_end, List.map_nil, String.join_nil, String.append_empty]
  | cons line lines ih =>
    obtain ⟨rest, hSpan, hLine, hRest⟩ := h.spanLine_eq
    rw [converse_of_line backend s hSpan hLine, ih hRest, List.map_cons, String.join_cons]
    simp only [String.append_assoc]

end Sheet

/-! ## Lines as sources -/

/-- The text of a line without the blanks around it. -/
structure Trimmed (line source : String) : Prop where
  blanks : ∃ front back, line = front ++ source ++ back ∧
    (∀ c ∈ front.toList, Text.isBlank c = true) ∧ ∀ c ∈ back.toList, Text.isBlank c = true
  first : ∀ c ∈ source.toList.head?, Text.isBlank c = false
  last : ∀ c ∈ source.toList.getLast?, Text.isBlank c = false

theorem trimmed_trim (line : String) : Trimmed line (Text.trim line) := by
  have hFront := List.takeWhile_append_dropWhile (p := Text.isBlank) (l := line.toList)
  have hBack := List.takeWhile_append_dropWhile (p := Text.isBlank)
    (l := (line.toList.dropWhile Text.isBlank).reverse)
  have hInner := congrArg List.reverse hBack
  rw [List.reverse_append, List.reverse_reverse] at hInner
  refine ⟨⟨String.ofList (line.toList.takeWhile Text.isBlank), String.ofList
    ((line.toList.dropWhile Text.isBlank).reverse.takeWhile Text.isBlank).reverse,
    ?_, ?_, ?_⟩, ?_, ?_⟩
  · apply String.toList_inj.1
    rw [Text.trim, ← String.ofList_append, ← String.ofList_append, String.toList_ofList,
      List.append_assoc, hInner, hFront]
  · intro c hc
    rw [String.toList_ofList] at hc
    exact List.mem_takeWhile_imp hc
  · intro c hc
    rw [String.toList_ofList, List.mem_reverse] at hc
    exact List.mem_takeWhile_imp hc
  · intro c hc
    rw [Text.trim, String.toList_ofList] at hc
    -- what is left begins as it did before the blanks behind it were dropped
    have hHead : c ∈ (line.toList.dropWhile Text.isBlank).head? := by
      rw [← hInner, List.head?_append, Option.mem_def.1 hc]
      rfl
    exact eq_false_of_mem_head?_dropWhile hHead
  · intro c hc
    rw [Text.trim, String.toList_ofList, List.getLast?_reverse] at hc
    exact eq_false_of_mem_head?_dropWhile hc

/-- What the evaluation of a source may report: its value, why it cannot be compiled,
or what goes wrong when it is evaluated. -/
inductive Answers (backend : Backend) (source : String) : Report → Prop
  | value {e : Evaluator} {value : Float} (hCompile : compile "expression" source backend = .ok e)
      (hValue : (e.invoke Scope.builtins.env).result = .ok value) :
      Answers backend source ⟨0, Number.text value ++ "\n", none⟩
  | refused {error : Error} (hCompile : compile "expression" source backend = .error error) :
      Answers backend source ⟨1, "Error: " ++ error.message ++ "\n", none⟩
  | failed {e : Evaluator} {fault : Fault}
      (hCompile : compile "expression" source backend = .ok e)
      (hFault : (e.invoke Scope.builtins.env).result = .error (.fault fault)) :
      Answers backend source ⟨1, "Error: " ++ fault.message ++ "\n", none⟩

theorem exists_formula_of_compile {name source : String} {backend : Backend} {e : Evaluator}
    (h : compile name source backend = .ok e) :
    ∃ f, parse source = .ok f ∧ f.compile name backend = .ok e := by
  unfold compile at h
  cases hParse : parse source with
  | error error => simp only [hParse, reduceCtorEq] at h
  | ok f =>
    simp only [hParse] at h
    cases hCompile : f.compile name backend with
    | error error => simp only [hCompile, reduceCtorEq] at h
    | ok evaluator =>
      simp only [hCompile] at h
      cases h
      exact ⟨f, rfl, hCompile⟩

/-- Evaluating a source with no variables declared comes to one of these ends. -/
theorem answers_eval (backend : Backend) (source input : String) :
    Answers backend source (Request.run ⟨.eval source [], backend⟩ input) := by
  show Answers backend source (.ofResult (interpret backend source Scope.builtins))
  unfold interpret
  cases hCompile : compile formulaName source backend with
  | error e => exact .refused hCompile
  | ok e =>
    obtain ⟨f, -, hFormula⟩ := exists_formula_of_compile hCompile
    -- the builtins do not abort
    rcases invoke_ends hFormula Scope.onlyBuiltins_builtins with ⟨value, hValue⟩ | ⟨fault, hFault⟩
    · simp only [hValue]
      exact .value hCompile hValue
    · simp only [hFault]
      exact .failed hCompile hFault

/-- What is printed for a line: the prompt, and what the evaluation of the line alone
would print, unless the line is blank. -/
def exchange (backend : Backend) (line : String) : String :=
  prompt ++ if Text.trim line = "" then ""
    else (Request.run ⟨.eval (Text.trim line) [], backend⟩ "").output

theorem respond_builtins (backend : Backend) (line : String) :
    prompt ++ respond backend Scope.builtins line = exchange backend line := by
  unfold exchange respond
  simp only [String.isEmpty_iff]
  split
  · rfl
  · show _ = prompt ++ (Report.ofResult (interpret backend (Text.trim line) Scope.builtins)).output
    cases interpret backend (Text.trim line) Scope.builtins <;> rfl

/-! ## Backends -/

/-- Whatever the backend, a formula that fits into a chunk is compiled, and it evaluates
as it is defined to. -/
theorem exists_evaluator {source : String} {f : Formula} (hParse : parse source = .ok f)
    (hLimits : f.WithinLimits) (backend : Backend) :
    ∃ e, compile formulaName source backend = .ok e ∧
      ∀ env, e.invoke env = (f.eval env).outcome := by
  have hSigns := (Formula.stems_of_parse hParse).signs
  -- only a chunk has limits to keep
  have hExists : ∃ e, f.compile formulaName backend = .ok e := by
    by_cases hNative : backend = .native
    · rw [hNative]
      exact (Formula.exists_compile_native_iff hSigns _).2
        ⟨hLimits.slots, hLimits.literals, hLimits.names⟩
    · exact Formula.exists_compile hSigns _ hNative
  obtain ⟨e, hCompile⟩ := hExists
  refine ⟨e, ?_, fun env => ?_⟩
  · rw [compile_of_parse hParse, hCompile]
    rfl
  · rw [Evaluator.invoke, Formula.code_eq_eval hCompile]

theorem interpret_congr {source : String} (h : ∀ f, parse source = .ok f → f.WithinLimits)
    (backend backend' : Backend) (s : Scope) :
    interpret backend source s = interpret backend' source s := by
  unfold interpret
  cases hParse : parse source with
  | error e => simp only [compile, hParse]
  | ok f =>
    obtain ⟨e, hCompile, hInvoke⟩ := exists_evaluator hParse (h f hParse) backend
    obtain ⟨e', hCompile', hInvoke'⟩ := exists_evaluator hParse (h f hParse) backend'
    simp only [hCompile, hCompile', hInvoke, hInvoke']

theorem exchange_congr {line : String}
    (h : ∀ f, parse (Text.trim line) = .ok f → f.WithinLimits) (backend backend' : Backend) :
    exchange backend line = exchange backend' line := by
  rw [← respond_builtins, ← respond_builtins]
  unfold respond
  simp only [interpret_congr h backend backend']

/-! ## Conversations -/

/-- The report of a conversation, line by line. -/
theorem run_repl (backend : Backend) {input : String} {lines : List String}
    (h : Lines input.toList lines) :
    Request.run ⟨.repl, backend⟩ input =
      ⟨0, banner backend ++ String.join (lines.map (exchange backend)) ++ prompt, none⟩ := by
  have hLines : lines.map (fun line => prompt ++ respond backend Scope.builtins line) =
      lines.map (exchange backend) :=
    List.map_congr_left fun line _ => respond_builtins backend line
  show Report.ofResult (.ok (transcript backend input)) = _
  rw [transcript, Sheet.converse_lines backend _ h, hLines]
  rfl

/-- A conversation is the banner, for each line of the input an exchange, and a last
prompt. An exchange is what the evaluation of the line alone prints: a value or what is
wrong. A line that is replaced by another one changes its own exchange and nothing else.
Without the banner, conversations are the same with all backends if a chunk can hold
every formula of a line. -/
theorem conversation_by_lines (input : String) :
    ∃ lines, Lines input.toList lines ∧ (∀ lines', Lines input.toList lines' → lines' = lines) ∧
      (∀ backend, Request.run ⟨.repl, backend⟩ input =
        ⟨0, banner backend ++ String.join (lines.map (exchange backend)) ++ prompt, none⟩) ∧
      (∀ line ∈ lines, Trimmed line (Text.trim line) ∧ ∀ backend,
        Answers backend (Text.trim line) (Request.run ⟨.eval (Text.trim line) [], backend⟩ "")) ∧
      (∀ backend before line after, lines = before ++ line :: after →
        ∃ front back, (Request.run ⟨.repl, backend⟩ input).output =
            front ++ exchange backend line ++ back ∧
          ∀ other line', Lines other.toList (before ++ line' :: after) →
            (Request.run ⟨.repl, backend⟩ other).output =
              front ++ exchange backend line' ++ back) ∧
      ((∀ line ∈ lines, ∀ f, parse (Text.trim line) = .ok f → f.WithinLimits) →
        ∃ rest, ∀ backend,
          (Request.run ⟨.repl, backend⟩ input).output = banner backend ++ rest) := by
  obtain ⟨lines, hLines⟩ := Lines.exists_lines input.toList
  refine ⟨lines, hLines, fun lines' h => hLines.unique h, fun backend => run_repl backend hLines,
    fun line _ => ⟨trimmed_trim line, fun backend => answers_eval backend _ _⟩, ?_, ?_⟩
  · intro backend before line after hSplit
    have hOutput : ∀ other line', Lines other.toList (before ++ line' :: after) →
        (Request.run ⟨.repl, backend⟩ other).output =
          banner backend ++ String.join (before.map (exchange backend)) ++
            exchange backend line' ++ (String.join (after.map (exchange backend)) ++ prompt) := by
      intro other line' hOther
      rw [run_repl backend hOther]
      simp only [List.map_append, List.map_cons, String.join_append, String.join_cons,
        String.append_assoc]
    exact ⟨_, _, hOutput input line (hSplit ▸ hLines), hOutput⟩
  · intro hLimits
    refine ⟨String.join (lines.map (exchange .native)) ++ prompt, fun backend => ?_⟩
    have hSame : lines.map (exchange backend) = lines.map (exchange .native) :=
      List.map_congr_left fun line hLine => exchange_congr (hLimits line hLine) backend .native
    rw [run_repl backend hLines, hSame, String.append_assoc]

/-- A blank line, an unknown variable and an open bracket at the end of the input leave
the value of the first line as it is, and one another. Closures and chunks are held to
the same text. -/
theorem conversation_by_lines_after_failures :
    Lines "1+1\n \nx\n(".toList ["1+1\n", " \n", "x\n", "("] ∧
      ∀ backend, (Request.run ⟨.repl, backend⟩ "1+1\n \nx\n(").output = banner backend ++
        ("> 2\n> > Error: Unknown variable: x\n> Error: While parsing root > expression > term > "
          ++ "exponent > factor > expression > term > exponent > factor\n"
          ++ "Expected \"number\" at 1 but found \"end of input\"\n> ") := by
  have hInput : Lines "1+1\n \nx\n(".toList ["1+1\n", " \n", "x\n", "("] :=
    .next (by decide : '\n' ∉ ['1', '+', '1'])
      (.next (by decide : '\n' ∉ [' '])
        (.next (by decide : '\n' ∉ ['x']) (.last (by decide) (by decide : '\n' ∉ ['(']))))
  obtain ⟨lines, -, hUnique, hRun, -, -, hSame⟩ := conversation_by_lines "1+1\n \nx\n("
  obtain rfl := hUnique _ hInput
  have hSum : parse (Text.trim "1+1\n") =
      .ok (.binary .plus (.number (.ofFloat 1)) (.number (.ofFloat 1))) := by
    rfl
  have hBlank : ∃ e, parse (Text.trim " \n") = .error e := ⟨_, rfl⟩
  have hVariable : parse (Text.trim "x\n") = .ok (.var "x") := by rfl
  have hOpen : ∃ e, parse (Text.trim "(") = .error e := ⟨_, rfl⟩
  have hLimits : ∀ line ∈ ["1+1\n", " \n", "x\n", "("], ∀ f,
      parse (Text.trim line) = .ok f → f.WithinLimits := by
    intro line hLine f hParse
    simp only [List.mem_cons, List.not_mem_nil, or_false] at hLine
    rcases hLine with rfl | rfl | rfl | rfl
    · cases hSum.symm.trans hParse
      exact ⟨by decide, (List.toFinset_card_le _).trans (by decide), by decide⟩
    · obtain ⟨e, hError⟩ := hBlank
      cases hError.symm.trans hParse
    · cases hVariable.symm.trans hParse
      exact ⟨by decide, (List.toFinset_card_le _).trans (by decide), by decide⟩
    · obtain ⟨e, hError⟩ := hOpen
      cases hError.symm.trans hParse
  obtain ⟨rest, hRest⟩ := hSame hLimits
  -- closures can be evaluated here, and what they print is what chunks do
  have hClosure := (hRest .closure).symm.trans (congrArg Report.output (hRun .closure))
  rw [String.append_assoc, String.append_right_inj] at hClosure
  refine ⟨hInput, fun backend => ?_⟩
  rw [hRest, hClosure]
  exact congrArg (banner backend ++ ·) (by decide +kernel)

end Reckon.CommandLine
