import Mathlib
import Reckon.Proofs.Blanks
import Reckon.Proofs.Pull

/-!
# Reckon — sources made of sources

Sources that can be read may stand inside a larger one: in brackets, on both
sides of an operator, or as the parameters of a call. Each of them is read there
as it is alone, and the only thing that can go wrong is the depth:

* `tokens_join` — a sign is never a part of another token, so two texts with a
  sign between them have the tokens of both, those of the second one farther on;
* `Grammar.sentence_iff` — a derivation does not see where tokens stand, so what
  a source derives is told by the contents of its tokens;
* `ruleDepth` — how many rules have to be allowed for a source. A derivation has
  this many rules open at once (`Grammar.sentence_ruleDepth`);
* `sources_compose` — brackets add four rules to the deepest source inside, and a
  call adds five.
-/

namespace Reckon

/-! ## Texts on both sides of a sign -/

/-- No token goes on with a sign. -/
theorem Token.not_goesOn_sign {c : Char} {kind : TokenKind} (h : (c, kind) ∈ signs)
    (kind' : TokenKind) (text : List Char) : ¬ Token.GoesOn kind' text c := by
  have hSigns : ∀ p ∈ signs, p.1.isDigit = false ∧ isIdentifierRest p.1 = false ∧ p.1 ≠ '.' := by
    decide
  obtain ⟨hDigit, hWord, hPoint⟩ := hSigns _ h
  unfold Token.GoesOn
  split
  · rw [← isIdentifierRest_iff, hWord]
    decide
  · rintro (hIs | ⟨hIs, -⟩)
    · rw [← isDigit_iff, hDigit] at hIs
      cases hIs
    · exact hPoint hIs
  · exact id

/-- And a sign goes on with nothing. -/
theorem Token.sign_not_goesOn {c : Char} {kind : TokenKind} (h : (c, kind) ∈ signs)
    (text : List Char) (d : Char) : ¬ Token.GoesOn kind text d := by
  have hSigns : ∀ p ∈ signs, p.2 ≠ .identifier ∧ p.2 ≠ .number := by decide
  obtain ⟨hIdentifier, hNumber⟩ := hSigns _ h
  unfold Token.GoesOn
  split
  · exact absurd rfl hIdentifier
  · exact absurd rfl hNumber
  · exact id

namespace Covers

variable {offset : Nat} {chars rest : List Char} {ts us : List Token}

theorem ne_nil (h : Covers offset chars ts) : ts ≠ [] := by
  cases h <;> simp

/-- Behind a sign a text is shared out as if it stood alone. The end token of the
text in front gives way to the sign. -/
theorem join (h : Covers offset chars ts) {c : Char} {kind : TokenKind}
    (hSign : (c, kind) ∈ signs) (hRest : Covers (offset + byteLength chars + 1) rest us) :
    Covers offset (chars ++ c :: rest)
      (ts.dropLast ++
        ⟨kind, none, ⟨offset + byteLength chars, offset + byteLength chars + 1⟩⟩ :: us) := by
  induction h with
  | @stop offset gap hBlank =>
    -- the blanks at the end are now the gap in front of the sign
    have hSize : byteLength [c] = 1 := by
      rw [byteLength_cons, TokenKind.utf8Size_sign (ofSign?_eq_some_iff.2 hSign)]
      rfl
    show Covers offset (gap ++ ([c] ++ rest)) _
    refine .next ⟨hBlank, rfl, ?_, .sign hSign, ?_, ?_⟩ hRest
    · rw [hSize]
    · exact (keeps_of_sign hSign _).symm
    · exact fun d _ => Token.sign_not_goesOn hSign [c] d
  | @next offset t gap text rest' ts hCut hBehind ih =>
    have hStop : t.span.stop + byteLength rest' = offset + byteLength (gap ++ (text ++ rest')) := by
      rw [hCut.stop_eq, hCut.start_eq, byteLength_append, byteLength_append]
      omega
    -- a token in front of the sign is as long as it was at the end of its text
    have hMaximal : ∀ d ∈ (rest' ++ c :: rest).head?, ¬ Token.GoesOn t.kind text d := by
      intro d hd
      cases rest' with
      | nil =>
        obtain rfl : c = d := by simpa using hd
        exact Token.not_goesOn_sign hSign t.kind text
      | cons d' rest' => exact hCut.maximal d (by simpa using hd)
    rw [← hStop] at hRest ⊢
    rw [List.dropLast_cons_of_ne_nil hBehind.ne_nil, List.append_assoc, List.append_assoc]
    exact .next ⟨hCut.blank, hCut.start_eq, hCut.stop_eq, hCut.shape, hCut.lexeme_eq, hMaximal⟩
      (ih hRest)

end Covers

/-- A source is shared out among its tokens wherever it starts. -/
theorem covers_moved (source : String) (n : Nat) :
    Covers n source.toList ((tokens source).map (·.moved n)) := by
  have hSize : 0 + n + byteLength source.toList = source.utf8ByteSize + n := by
    rw [utf8ByteSize_eq]
    omega
  have hCovers := Cursor.covers_tokensUpTo hSize (Nat.le_refl _)
  change Covers _ _ (Cursor.scan source.toList (0 + n) (source.utf8ByteSize + n)).tokens at hCovers
  rw [Cursor.scan_moved, Cursor.tokens_moved, Nat.zero_add] at hCovers
  exact hCovers

/-- The tokens of two texts with a sign between them. -/
theorem tokens_join (first sign second : String) {c : Char} {kind : TokenKind}
    (hText : sign.toList = [c]) (hSign : (c, kind) ∈ signs) :
    tokens (first ++ sign ++ second) =
      (tokens first).dropLast ++
        ⟨kind, none, ⟨first.utf8ByteSize, first.utf8ByteSize + 1⟩⟩ ::
          (tokens second).map (·.moved (first.utf8ByteSize + 1)) := by
  have hFirst := covers_tokens first
  have hSecond := covers_moved second (0 + byteLength first.toList + 1)
  have hJoined := hFirst.join hSign hSecond
  rw [Nat.zero_add, ← utf8ByteSize_eq] at hJoined
  refine tokens_of_covers ?_
  rw [String.toList_append, String.toList_append, hText, List.append_assoc, List.singleton_append]
  exact hJoined

/-! ## Contents -/

/-- What the tokens of a source say, the end token left out. -/
def contents (source : String) : List (TokenKind × Option String) :=
  (tokens source).dropLast.map Token.content

theorem contents_empty : contents "" = [] := by decide

theorem contents_join (first sign second : String) {c : Char} {kind : TokenKind}
    (hText : sign.toList = [c]) (hSign : (c, kind) ∈ signs) :
    contents (first ++ sign ++ second) = contents first ++ (kind, none) :: contents second := by
  have hNonempty : (tokens second).map (·.moved (first.utf8ByteSize + 1)) ≠ [] := by
    simpa using (covers_tokens second).ne_nil
  -- moving a token does not change what it says
  have hMoved : (Token.content ∘ fun t : Token => t.moved (first.utf8ByteSize + 1)) =
      Token.content := rfl
  rw [contents, tokens_join first sign second hText hSign, List.dropLast_append_of_ne_nil (by simp),
    List.dropLast_cons_of_ne_nil hNonempty, List.map_append, List.map_cons, ← List.map_dropLast,
    List.map_map, hMoved]
  rfl

/-- A word is one token. -/
theorem contents_word {name : String} (h : Token.Shape .identifier name.toList) :
    contents name = [(.identifier, some name)] := by
  let word : Token := ⟨.identifier, some name, ⟨0, byteLength name.toList⟩⟩
  have hCut : word.Cut 0 [] name.toList [] := by
    refine ⟨by simp, rfl, (Nat.zero_add _).symm, h, ?_, by simp⟩
    rw [String.ofList_toList]
    rfl
  have hEnd : Covers word.span.stop [] [_] := .stop (by simp)
  have hCovers := Covers.next hCut hEnd
  rw [List.nil_append, List.append_nil] at hCovers
  rw [contents, tokens_of_covers hCovers]
  rfl

/-- A text in brackets, behind another one. -/
theorem contents_brackets (front source : String) :
    contents (front ++ "(" ++ source ++ ")") =
      contents front ++ (.leftParen, none) :: (contents source ++ [(.rightParen, none)]) := by
  have hLeft : ('(', TokenKind.leftParen) ∈ signs := by decide
  have hRight : (')', TokenKind.rightParen) ∈ signs := by decide
  -- nothing follows the closing bracket
  have hClosed := contents_join (front ++ "(" ++ source) ")" "" rfl hRight
  rw [String.append_empty, contents_empty, contents_join front "(" source rfl hLeft] at hClosed
  rw [hClosed, List.append_assoc, List.cons_append]

/-- Texts with commas between them. -/
theorem contents_commas (source : String) (sources : List String) :
    contents (",".intercalate (source :: sources)) =
      contents source ++ sources.flatMap fun s => (.comma, none) :: contents s := by
  have hComma : (',', TokenKind.comma) ∈ signs := by decide
  induction sources generalizing source with
  | nil => rw [String.intercalate_singleton, List.flatMap_nil, List.append_nil]
  | cons next more ih =>
    rw [String.intercalate_cons_cons, contents_join _ _ _ rfl hComma, ih, List.flatMap_cons,
      List.cons_append]

/-- The kind of token that an operator is written with. -/
def Operator.sign : Operator → TokenKind
  | plus => .plus
  | minus => .minus
  | times => .star
  | divide => .slash
  | modulo => .percent
  | power => .caret

theorem Operator.symbol_mem_signs (op : Operator) : (op.symbol, op.sign) ∈ signs := by
  cases op <;> decide

namespace Grammar

/-! ## Derivations from contents -/

/-- Tokens that say the same derive the same. -/
theorem Expression.of_contents {ts us : List Token} {f : Formula} {d : Nat}
    (h : Expression ts f d) (hSame : ts.map Token.content = us.map Token.content) :
    Expression us f d := by
  have hCarries : Carries (fun t t' => t.content = t'.content) Eq := by
    have hKind : ∀ {t t' : Token}, t.content = t'.content → t.kind = t'.kind :=
      fun hToken => congrArg Prod.fst hToken
    have hLexeme : ∀ {t t' : Token}, t.content = t'.content → t.lexeme = t'.lexeme :=
      fun hToken => congrArg Prod.snd hToken
    refine ⟨fun hToken => (hKind hToken).symm, ?_, ?_, ?_, ?_, ?_⟩
    · intro t t' literal hToken _ hRead
      rw [hLexeme hToken] at hRead
      exact ⟨literal, hRead, rfl⟩
    · intro t t' hToken _
      rw [hLexeme hToken]
    · rintro op left _ right _ rfl rfl
      rfl
    · rintro op f _ rfl
      rfl
    · intro t t' ps ps' hToken _ hParameters
      rw [List.forall₂_eq_eq_eq] at hParameters
      rw [hLexeme hToken, hParameters]
  obtain ⟨f', rfl, hDerives⟩ := h.carry hCarries us (forall₂_of_map_eq hSame)
  exact hDerives

/-- Tokens that say something, wherever they stand. -/
def unplaced (cs : List (TokenKind × Option String)) : List Token :=
  cs.map fun c => ⟨c.1, c.2, ⟨0, 0⟩⟩

theorem unplaced_append (cs cs' : List (TokenKind × Option String)) :
    unplaced (cs ++ cs') = unplaced cs ++ unplaced cs' :=
  List.map_append

theorem unplaced_cons (kind : TokenKind) (lexeme : Option String)
    (cs : List (TokenKind × Option String)) :
    unplaced ((kind, lexeme) :: cs) = ⟨kind, lexeme, ⟨0, 0⟩⟩ :: unplaced cs :=
  rfl

/-- What a source derives is told by the contents of its tokens. -/
theorem sentence_iff {source : String} {f : Formula} {d : Nat} :
    Sentence (tokens source).dropLast f d ↔ Sentence (unplaced (contents source)) f d := by
  have hSame : (tokens source).dropLast.map Token.content =
      (unplaced (contents source)).map Token.content := by
    rw [unplaced, List.map_map]
    exact (List.map_id _).symm
  constructor
  · rintro ⟨h⟩
    exact .root (h.of_contents hSame)
  · rintro ⟨h⟩
    exact .root (h.of_contents hSame.symm)

/-- A factor alone is a sentence, four rules further up. -/
theorem Factor.sentence {ts : List Token} {f : Formula} {d : Nat} (h : Factor ts f d) :
    Sentence ts f (d + 4) :=
  .root (Exponent.factor h).single.single

/-- Two factors with an operator between them. Which rule joins them depends on the
operator, but both are below it to the same depth. -/
theorem Factor.binary {ts us : List Token} {left right : Formula} {d d' : Nat}
    (hLeft : Factor ts left d) (hRight : Factor us right d') {op : Operator} {sign : Token}
    (hSign : sign.kind = op.sign) :
    Sentence (ts ++ sign :: us) (.binary op left right) (max d d' + 4) := by
  have hExponent := Exponent.factor hLeft
  have hExponent' := Exponent.factor hRight
  -- the two operands of a chain, and none behind them
  have hSum : SumSign sign.kind op →
      Sentence (ts ++ sign :: us) (.binary op left right) (max d d' + 4) := by
    intro hOp
    have hChain := Expression.chain hExponent.single (.link hOp hExponent'.single .stop)
    rw [List.append_nil] at hChain
    exact .root (by convert hChain using 1; omega)
  have hProduct : ProductSign sign.kind op →
      Sentence (ts ++ sign :: us) (.binary op left right) (max d d' + 4) := by
    intro hOp
    have hChain := (Term.chain hExponent (.link hOp hExponent' .stop)).single
    rw [List.append_nil] at hChain
    exact .root (by convert hChain using 1; omega)
  cases op with
  | plus => exact hSum (hSign ▸ .plus)
  | minus => exact hSum (hSign ▸ .minus)
  | times => exact hProduct (hSign ▸ .times)
  | divide => exact hProduct (hSign ▸ .divide)
  | modulo => exact hProduct (hSign ▸ .modulo)
  | power =>
    have hPower := (Exponent.power hLeft hSign hExponent').single.single
    exact .root (by convert hPower using 1; omega)

end Grammar

/-! ## How deep a source is -/

/-- How many rules have to be allowed for a source to be read, the root included. -/
def ruleDepth (source : String) : Nat :=
  (List.range maxRules).findIdx
    (fun room => (Parse.expression room [.root] (.ofString source)).isOk) + 1

/-- How many rules the deepest of some sources needs. -/
def deepest (sources : List String) : Nat :=
  (sources.map ruleDepth).foldr max 0

theorem deepest_singleton (source : String) : deepest [source] = ruleDepth source :=
  Nat.max_zero _

theorem deepest_cons (source : String) (sources : List String) :
    deepest (source :: sources) = max (ruleDepth source) (deepest sources) :=
  rfl

/-- The source is read as the formula if that takes no more rules than may be open,
and is too deep if it takes more. -/
def ReadWithin (depth : Nat) (source : String) (f : Formula) : Prop :=
  (depth ≤ 512 → parse source = .ok f) ∧
    (512 < depth → ∃ e, parse source = .error e ∧ e.fault = .tooDeep)

namespace Grammar

/-- The rules that a source needs are those that its derivation has open at once. -/
theorem ruleDepth_eq {source : String} {f : Formula} {d : Nat}
    (h : Sentence (tokens source).dropLast f d) (hDepth : d ≤ 512) : ruleDepth source = d := by
  obtain @⟨f, ts, d, hDerives⟩ := h
  have hSpells := spells_tokens source
  rw [← List.append_nil (tokens source).dropLast] at hSpells
  -- a room is enough just if it is no smaller than the depth
  have hEnough : ∀ room,
      (Parse.expression room [.root] (.ofString source)).isOk = decide (d ≤ room) := by
    intro room
    have hYields := expression_complete room [.root] hDerives hSpells (Or.inr (Or.inr rfl))
    by_cases hRoom : d ≤ room
    · obtain ⟨c, hRun, -⟩ := hYields.1 hRoom
      rw [hRun, decide_eq_true hRoom]
      rfl
    · obtain ⟨e, hRun, -⟩ := hYields.2 hRoom
      rw [hRun, decide_eq_false hRoom]
      rfl
  have hLength : d < (List.range maxRules).length := by
    rw [List.length_range]
    exact hDepth
  rw [ruleDepth, (List.findIdx_eq hLength).2]
  refine ⟨?_, fun j hj => ?_⟩
  · rw [List.getElem_range, hEnough, decide_eq_true (Nat.le_refl d)]
  · rw [List.getElem_range, hEnough, decide_eq_false (Nat.not_le_of_lt hj)]

theorem sentence_ruleDepth {source : String} {f : Formula} (h : parse source = .ok f) :
    Sentence (tokens source).dropLast f (ruleDepth source) ∧ ruleDepth source ≤ 512 := by
  obtain ⟨d, hSentence, hDepth⟩ := sentence_of_parse h
  rw [ruleDepth_eq hSentence hDepth]
  exact ⟨hSentence, hDepth⟩

/-- What the contents of a source that can be read derive. -/
theorem sentence_contents {source : String} {f : Formula} (h : parse source = .ok f) :
    Sentence (unplaced (contents source)) f (ruleDepth source) :=
  sentence_iff.1 (sentence_ruleDepth h).1

theorem exists_expression {source : String} {f : Formula} (h : parse source = .ok f) :
    ∃ d, ruleDepth source = d + 1 ∧ Expression (unplaced (contents source)) f d := by
  have hSentence := sentence_contents h
  generalize ruleDepth source = depth at hSentence
  obtain ⟨hExpression⟩ := hSentence
  exact ⟨_, rfl, hExpression⟩

/-! ## Sources inside of others -/

/-- A source in brackets is a factor. -/
theorem factor_brackets {source : String} {f : Formula} {d : Nat}
    (h : Sentence (unplaced (contents source)) f d) :
    Factor (unplaced (contents ("(" ++ source ++ ")"))) f d := by
  obtain ⟨hExpression⟩ := h
  have hContents := contents_brackets "" source
  rw [String.empty_append, contents_empty, List.nil_append] at hContents
  rw [hContents, unplaced_cons, unplaced_append]
  exact .group rfl hExpression rfl

/-- A source in so many brackets. -/
theorem sentence_nested {source : String} {f : Formula} {d : Nat}
    (h : Sentence (unplaced (contents source)) f d) (n : Nat) :
    Sentence (unplaced (contents ((fun s => "(" ++ s ++ ")")^[n] source))) f (d + 4 * n) := by
  induction n with
  | zero => exact h
  | succ n ih =>
    rw [Function.iterate_succ_apply']
    exact (factor_brackets ih).sentence

/-- Behind a first parameter, each of the others has its comma. -/
theorem commas_sources {sources : List String} {formulas : List Formula}
    (h : List.Forall₂ (fun source f => parse source = .ok f) sources formulas) :
    ∃ d, d + 1 = max 1 (deepest sources) ∧
      Commas Expression (unplaced (sources.flatMap fun source => (.comma, none) :: contents source))
        formulas d := by
  induction h with
  | nil => exact ⟨0, rfl, .stop⟩
  | @cons source f sources formulas hHead _ ih =>
    obtain ⟨d, hDepth, hExpression⟩ := exists_expression hHead
    obtain ⟨d', hDepth', hCommas⟩ := ih
    refine ⟨max d d', by rw [deepest_cons]; omega, ?_⟩
    rw [List.flatMap_cons, List.cons_append, unplaced_cons, unplaced_append]
    exact .link rfl hExpression hCommas

/-- The parameters of a call. Their rule is open even if there are none. -/
theorem parameters_sources {sources : List String} {formulas : List Formula}
    (h : List.Forall₂ (fun source f => parse source = .ok f) sources formulas) :
    Parameters (unplaced (contents (",".intercalate sources))) formulas
      (max 1 (deepest sources)) := by
  cases h with
  | nil =>
    rw [String.intercalate_nil, contents_empty]
    exact .none
  | @cons source f sources formulas hHead hTail =>
    obtain ⟨d, hDepth, hExpression⟩ := exists_expression hHead
    obtain ⟨d', hDepth', hCommas⟩ := commas_sources hTail
    have hDeepest : max 1 (deepest (source :: sources)) = max d d' + 1 := by
      rw [deepest_cons]
      omega
    rw [contents_commas, unplaced_append, hDeepest]
    exact .some hExpression hCommas

/-- A call of a name with sources for its parameters is a factor. -/
theorem factor_call {name : String} (hName : Token.Shape .identifier name.toList)
    {sources : List String} {formulas : List Formula}
    (h : List.Forall₂ (fun source f => parse source = .ok f) sources formulas) :
    Factor (unplaced (contents (name ++ "(" ++ ",".intercalate sources ++ ")")))
      (.call name formulas) (max 1 (deepest sources) + 1) := by
  rw [contents_brackets, contents_word hName, List.singleton_append, unplaced_cons, unplaced_cons,
    unplaced_append]
  exact .call rfl rfl (parameters_sources h) rfl

theorem readWithin_of_sentence {source : String} {f : Formula} {d depth : Nat}
    (h : Sentence (unplaced (contents source)) f d) (hDepth : d ≤ 512 ↔ depth ≤ 512) :
    ReadWithin depth source f := by
  obtain ⟨hRead, hTooDeep⟩ := parse_of_sentence (sentence_iff.2 h)
  refine ⟨fun hLe => hRead (hDepth.2 hLe), fun hLt => hTooDeep ?_⟩
  omega

end Grammar

open Grammar

/-- **Sources compose as text.** A source that can be read can be put in brackets,
two of them can be put in brackets on both sides of an operator, and any number of
them can be the parameters of a call. What is read is made of what they are read as.
Nothing can go wrong but the depth, and that it does just if the deepest of the
sources, with four rules more for brackets and five for a call, needs more than 512.
The rules that a source needs are those that its derivation has open at once. -/
theorem sources_compose :
    (∀ source f, parse source = .ok f →
      Sentence (tokens source).dropLast f (ruleDepth source) ∧ ruleDepth source ≤ 512) ∧
    (∀ source f, parse source = .ok f →
      ReadWithin (deepest [source] + 4) ("(" ++ source ++ ")") f) ∧
    (∀ op left right f g, parse left = .ok f → parse right = .ok g →
      ReadWithin (deepest [left, right] + 4)
        ("(" ++ left ++ ")" ++ op.symbol.toString ++ "(" ++ right ++ ")") (.binary op f g)) ∧
    ∀ name sources formulas, Token.Shape .identifier name.toList →
      List.Forall₂ (fun source f => parse source = .ok f) sources formulas →
      ReadWithin (deepest sources + 5) (name ++ "(" ++ ",".intercalate sources ++ ")")
        (.call name formulas) := by
  refine ⟨fun source f => sentence_ruleDepth, ?_, ?_, ?_⟩
  · intro source f hParse
    refine readWithin_of_sentence (factor_brackets (sentence_contents hParse)).sentence ?_
    rw [deepest_singleton]
  · intro op left right f g hLeft hRight
    -- the text is cut at the operator, with brackets on both sides
    have hContents := contents_join ("(" ++ left ++ ")") op.symbol.toString ("(" ++ right ++ ")")
      (String.toList_singleton _) op.symbol_mem_signs
    rw [← String.append_assoc, ← String.append_assoc] at hContents
    refine readWithin_of_sentence (d := max (ruleDepth left) (ruleDepth right) + 4) ?_ ?_
    · rw [hContents, unplaced_append, unplaced_cons]
      exact (factor_brackets (sentence_contents hLeft)).binary
        (factor_brackets (sentence_contents hRight)) rfl
    · rw [deepest_cons, deepest_singleton]
  · intro name sources formulas hName hAll
    refine readWithin_of_sentence (factor_call hName hAll).sentence ?_
    omega

/-- With a number that ends in a point, blanks and a call without parameters, each way
to put sources together. A name can stand in 126 brackets, and not in one more. -/
theorem sources_compose_nested_brackets :
    parse "(2. )^(g())" = .ok (.binary .power (.number (.ofFloat 2)) (.call "g" [])) ∧
      parse "_f(2. ,g())" = .ok (.call "_f" [.number (.ofFloat 2), .call "g" []]) ∧
      parse ((fun s => "(" ++ s ++ ")")^[126] "x") = .ok (.var "x") ∧
      ∃ e, parse ((fun s => "(" ++ s ++ ")")^[127] "x") = .error e ∧ e.fault = .tooDeep := by
  obtain ⟨-, hBrackets, hBinary, hCall⟩ := sources_compose
  have hNumber : parse "2. " = .ok (.number (.ofFloat 2)) := by rfl
  have hNoParameters : parse "g()" = .ok (.call "g" []) := by rfl
  have hDeepest : deepest ["2. ", "g()"] = 6 := by decide +kernel
  have hName : Token.Shape .identifier "_f".toList :=
    .identifier (isIdentifierStart_iff.1 (by decide))
      (by simpa using isIdentifierRest_iff.1 (by decide))
  -- the outermost bracket is the one that is too much
  have hNested := sentence_nested (sentence_contents (by rfl : parse "x" = .ok (.var "x"))) 126
  rw [show ruleDepth "x" = 5 by decide +kernel] at hNested
  have hParse := (parse_of_sentence (sentence_iff.2 hNested)).1 (by decide)
  have hTooDeep := (hBrackets _ _ hParse).2
  rw [deepest_singleton, ruleDepth_eq (sentence_iff.2 hNested) (by decide)] at hTooDeep
  refine ⟨?_, ?_, hParse, ?_⟩
  · exact (hBinary .power "2. " "g()" _ _ hNumber hNoParameters).1 (by rw [hDeepest]; decide)
  · exact (hCall "_f" ["2. ", "g()"] _ hName (.cons hNumber (.cons hNoParameters .nil))).1
      (by rw [hDeepest]; decide)
  · rw [Function.iterate_succ_apply']
    exact hTooDeep (by decide)

end Reckon
