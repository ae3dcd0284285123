import Mathlib
import Reckon.Core.Text
import Reckon.Proofs.Core.Calls
import Reckon.Proofs.Number.Text
import Reckon.Proofs.Text

/-!
# Reckon — the text of a core expression is its own

An expression can be told from its text, whatever its operands are and whatever stands in
its literals. Only constants that are not numbers all have one text, so an expression is
told up to these (`Core.canonical`). The text is a word and what is in brackets behind it:

* `Core.writeOnto_eq` — the word ends at a separator, since no separator is in it
  (`Core.word_spec`). A constant is the only expression without a bracket behind its word,
  and all others are told by it (`Core.Head.word_inj`);
* `Core.operand_tells` — operands are told by how they start: a literal with a quote,
  an array with a bracket, and no expression with either;
* `Core.writeOnto_tells` — the induction over expressions, in which brackets and commas
  show where each of those inside ends.
-/

namespace Reckon

/-- A literal of the same value. It is the same for all literals that are not numbers. -/
def Literal.canonical (l : Literal) : Literal :=
  .ofFloat l.value

theorem Literal.value_canonical (l : Literal) : l.canonical.value = l.value :=
  Float.ofBits_toBits l.value

/-- Only literals that are not numbers are taken for others. -/
theorem Literal.canonical_eq_iff (a b : Literal) :
    a.canonical = b.canonical ↔ a = b ∨ a.value.isNaN = true ∧ b.value.isNaN = true := by
  rw [← Number.value_eq_iff]
  constructor
  · intro h
    rw [← a.value_canonical, h, b.value_canonical]
  · exact congrArg ofFloat

namespace Core

open Text (Stops Tells stops_cons)

/-! ## Lists of operands and elements -/

theorem writeOperands_eq (os : List Operand) (rest : List Char) :
    writeOperands os rest = Text.writeList writeOperand os rest :=
  Text.eq_writeList writeOperand (fun _ => rfl) (fun _ _ _ => rfl) (fun _ => rfl) (fun _ _ _ => rfl)
    os rest

theorem writeElements_eq (es : List Core) (rest : List Char) :
    writeElements es rest = Text.writeList writeOnto es rest :=
  Text.eq_writeList writeOnto (fun _ => rfl) (fun _ _ _ => rfl) (fun _ => rfl) (fun _ _ _ => rfl)
    es rest

/-! ## Words -/

/-- What may follow an expression. -/
def ends : List Char :=
  [',', ')', ']']

/-- The characters between the words of a text. -/
def separators : List Char :=
  ['(', '[', '"'] ++ ends

/-- What an expression other than a constant applies. -/
inductive Head where
  | arith (op : Operator)
  | negate
  | call (method : Method)
deriving DecidableEq

namespace Head

/-- The word that stands for what is applied. -/
def word : Head → String
  | arith op => operatorName op
  | negate => "Negate"
  | call method => "context." ++ method.name

/-- All that can be applied. -/
def all : List Head :=
  [arith .plus, arith .minus, arith .times, arith .divide, arith .modulo, arith .power, negate,
    call .getVariable, call .callFunction]

theorem mem_all (h : Head) : h ∈ all := by
  cases h with
  | arith op => cases op <;> decide
  | negate => decide
  | call method => cases method <;> decide

/-- Different words stand for different heads. -/
theorem word_inj {h h' : Head} (hWord : h.word = h'.word) : h = h' := by
  have hAll : ∀ h ∈ all, ∀ h' ∈ all, h.word = h'.word → h = h' := by decide
  exact hAll h (mem_all h) h' (mem_all h') hWord

theorem word_spec (h : Head) : h.word.toList ≠ [] ∧ ∀ c ∈ h.word.toList, c ∉ separators := by
  have hAll : all.all (fun h => !h.word.toList.isEmpty && h.word.toList.all (· ∉ separators)) =
      true := by
    decide
  simpa using List.all_eq_true.1 hAll h (mem_all h)

end Head

/-- What an expression applies; a constant applies nothing. -/
def head? : Core → Option Head
  | constant _ => none
  | arith op _ _ => some (.arith op)
  | negate _ => some .negate
  | call method _ => some (.call method)

/-- The word that the text of an expression starts with. -/
def word : Core → String
  | constant literal => Number.text literal.value
  | arith op _ _ => (Head.arith op).word
  | negate _ => Head.negate.word
  | call method _ => (Head.call method).word

theorem word_of_head? {e : Core} {h : Head} (he : e.head? = some h) : e.word = h.word := by
  cases e with
  | constant literal => cases he
  | arith op left right => rw [← Option.some.inj he]; rfl
  | negate operand => rw [← Option.some.inj he]; rfl
  | call method operands => rw [← Option.some.inj he]; rfl

/-- Expressions with the same word apply the same, if they apply anything. -/
theorem head_inj {e e' : Core} {h h' : Head} (he : e.head? = some h) (he' : e'.head? = some h')
    (hWord : e.word = e'.word) : h = h' := by
  rw [word_of_head? he, word_of_head? he'] at hWord
  exact Head.word_inj hWord

/-- What is written behind the word, in front of `rest`. -/
def writeInside : Core → List Char → List Char
  | constant _, rest => rest
  | arith _ left right, rest =>
    '(' :: left.writeOnto (',' :: ' ' :: right.writeOnto (')' :: rest))
  | negate operand, rest => '(' :: operand.writeOnto (')' :: rest)
  | call _ operands, rest => '(' :: Text.writeList writeOperand operands (')' :: rest)

theorem writeOnto_eq (e : Core) (rest : List Char) :
    e.writeOnto rest = e.word.toList ++ e.writeInside rest := by
  rw [writeOnto.eq_def]
  cases e with
  | constant literal => rfl
  | arith op left right => rfl
  | negate operand =>
    show "Negate(".toList ++ operand.writeOnto (')' :: rest) = _
    rw [show "Negate(".toList = "Negate".toList ++ ['('] by decide, List.append_assoc]
    rfl
  | call method operands =>
    show "context.".toList ++ (method.name.toList ++ '(' :: writeOperands operands (')' :: rest)) =
      ("context." ++ method.name).toList ++
        '(' :: Text.writeList writeOperand operands (')' :: rest)
    rw [writeOperands_eq, String.toList_append, List.append_assoc]

theorem not_separator_of_isNumeral {c : Char} (h : Number.IsNumeral c) : c ∉ separators := by
  intro hc
  simp only [separators, ends, List.cons_append, List.nil_append, List.mem_cons, List.not_mem_nil,
    or_false] at hc
  rcases hc with rfl | rfl | rfl | rfl | rfl | rfl <;> simp [Number.IsNumeral, IsDigit] at h

/-- No word is empty, and none has a separator in it. -/
theorem word_spec (e : Core) : e.word.toList ≠ [] ∧ ∀ c ∈ e.word.toList, c ∉ separators := by
  cases e with
  | constant literal =>
    refine ⟨Number.text_ne_nil literal.value, fun c hc => ?_⟩
    exact not_separator_of_isNumeral (Number.isNumeral_of_mem_text hc)
  | arith op left right => exact (Head.arith op).word_spec
  | negate operand => exact Head.negate.word_spec
  | call method operands => exact (Head.call method).word_spec

/-- An expression starts with its word, and so with no separator. -/
theorem writeOnto_ne_cons (e : Core) {rest more : List Char} {c : Char} (hc : c ∈ separators) :
    e.writeOnto rest ≠ c :: more := by
  obtain ⟨hNonempty, hWord⟩ := e.word_spec
  obtain ⟨d, word, hCons⟩ := List.exists_cons_of_ne_nil hNonempty
  rw [writeOnto_eq, hCons]
  intro h
  obtain ⟨rfl, -⟩ := List.cons.inj h
  exact hWord d (by simp [hCons]) hc

/-- A separator follows the word, if anything does. -/
theorem stops_writeInside (e : Core) {rest : List Char} (h : Stops ends rest) :
    Stops separators (e.writeInside rest) := by
  cases e with
  | constant literal => exact h.mono (List.subset_append_right ..)
  | arith op left right => exact stops_cons (by decide)
  | negate operand => exact stops_cons (by decide)
  | call method operands => exact stops_cons (by decide)

/-! ## Constants that are not numbers -/

mutual

/-- The expression with the same literal for all its constants that are not numbers. -/
def canonical : Core → Core
  | constant literal => constant literal.canonical
  | arith op left right => arith op left.canonical right.canonical
  | negate operand => negate operand.canonical
  | call method operands => call method (canonicalOperands operands)

/-- The operand with the same literal for all constants in it that are not numbers. -/
def canonicalOperand : Operand → Operand
  | .literal text => .literal text
  | .value e => .value e.canonical
  | .array elements => .array (canonicalElements elements)

/-- The same for several operands. -/
def canonicalOperands : List Operand → List Operand
  | [] => []
  | o :: os => canonicalOperand o :: canonicalOperands os

/-- The same for several expressions. -/
def canonicalElements : List Core → List Core
  | [] => []
  | e :: es => e.canonical :: canonicalElements es

end

theorem canonicalOperands_eq (os : List Operand) :
    canonicalOperands os = os.map canonicalOperand := by
  induction os with
  | nil => rfl
  | cons o os ih => rw [canonicalOperands, ih, List.map_cons]

theorem canonicalElements_eq (es : List Core) : canonicalElements es = es.map canonical := by
  induction es with
  | nil => rfl
  | cons e es ih => rw [canonicalElements, ih, List.map_cons]

theorem writeOperand_canonical {o : Operand}
    (ih : ∀ e ∈ o.expressions, e.canonical.writeOnto = e.writeOnto) :
    writeOperand (canonicalOperand o) = writeOperand o := by
  funext rest
  cases o with
  | literal text => rfl
  | value e => exact congrFun (ih e (List.mem_singleton_self e)) rest
  | array es =>
    show '[' :: writeElements (canonicalElements es) (']' :: rest) = '[' :: writeElements es _
    rw [canonicalElements_eq, writeElements_eq, writeElements_eq]
    exact congrArg ('[' :: ·) (Text.writeList_map writeOnto ih _)

/-- The text shows of a constant only its value. -/
theorem writeOnto_canonical (e : Core) : e.canonical.writeOnto = e.writeOnto := by
  induction e using children_induction with
  | step e ih =>
    funext rest
    rw [writeOnto_eq, writeOnto_eq]
    cases e with
    | constant literal => rw [canonical, word, word, literal.value_canonical]; rfl
    -- the others have their words still, so what is inside decides
    | arith op left right =>
      rw [canonical, writeInside, writeInside, ih left (by simp [children]),
        ih right (by simp [children])]
      rfl
    | negate operand =>
      rw [canonical, writeInside, writeInside, ih operand (by simp [children])]
      rfl
    | call method os =>
      rw [canonical, writeInside, writeInside, canonicalOperands_eq, Text.writeList_map]
      · rfl
      · exact fun o ho => writeOperand_canonical fun e he => ih e (List.mem_flatMap.2 ⟨o, ho, he⟩)

/-! ## Telling expressions -/

/-- Operands are told by how they start, if the expressions in them can be told. -/
theorem operand_tells {o : Operand}
    (ih : ∀ e ∈ o.expressions, Tells writeOnto ends (fun _ => True) canonical e) :
    Tells writeOperand ends (fun _ => True) canonicalOperand o := by
  intro o' rest rest' _ hRest hRest' h
  -- quotes and brackets are separators, which no expression starts with
  cases o with
  | literal text =>
    cases o' with
    | literal text' =>
      obtain ⟨rfl, hRests⟩ := Text.quoteOnto_inj h
      exact ⟨rfl, hRests⟩
    | value e' => exact absurd h.symm (writeOnto_ne_cons e' (by decide))
    | array es' => exact absurd (List.cons.inj h).1 (by decide)
  | value e =>
    cases o' with
    | literal text' => exact absurd h (writeOnto_ne_cons e (by decide))
    | value e' =>
      obtain ⟨hSame, hRests⟩ :=
        ih e (List.mem_singleton_self e) e' rest rest' trivial hRest hRest' h
      exact ⟨congrArg Operand.value hSame, hRests⟩
    | array es' => exact absurd h (writeOnto_ne_cons e (by decide))
  | array es =>
    cases o' with
    | literal text' => exact absurd (List.cons.inj h).1 (by decide)
    | value e' => exact absurd h.symm (writeOnto_ne_cons e' (by decide))
    | array es' =>
      have hElements := (List.cons.inj h).2
      rw [writeElements_eq, writeElements_eq] at hElements
      obtain ⟨hSame, hRests⟩ := Text.writeList_inj (by decide) (by decide) (by decide)
        (fun e _ _ _ => writeOnto_ne_cons e (by decide)) ih (fun _ _ => trivial)
        (fun _ _ => trivial) hElements
      refine ⟨?_, hRests⟩
      rw [canonicalOperand, canonicalOperand, canonicalElements_eq, canonicalElements_eq]
      exact congrArg Operand.array hSame

/-- No operand starts like the end of a list of operands. -/
theorem writeOperand_ne_cons (o : Operand) {rest more : List Char} :
    writeOperand o rest ≠ ')' :: more := by
  cases o with
  | literal text => exact fun h => absurd (List.cons.inj h).1 (by decide)
  | value e => exact writeOnto_ne_cons e (by decide)
  | array es => exact fun h => absurd (List.cons.inj h).1 (by decide)

/-- Every expression can be told from its text, up to constants that are not numbers. -/
theorem writeOnto_tells (e : Core) : Tells writeOnto ends (fun _ => True) canonical e := by
  induction e using children_induction with
  | step e ih =>
    intro e' rest rest' _ hRest hRest' h
    rw [writeOnto_eq, writeOnto_eq] at h
    obtain ⟨hWords, hInside⟩ := Text.word_append_inj e.word_spec.2 e'.word_spec.2
      (e.stops_writeInside hRest) (e'.stops_writeInside hRest') h
    have hWord : e.word = e'.word := String.toList_inj.1 hWords
    -- only a constant has no bracket behind its word, where nothing but an end may follow
    have hBracket : '(' ∉ ends := by decide
    cases e with
    | constant literal =>
      cases e' with
      | constant literal' =>
        have hValue : literal.value = literal'.value := Number.text_inj hWord
        exact ⟨by rw [canonical, canonical, Literal.canonical, Literal.canonical, hValue], hInside⟩
      | arith | negate | call => exact absurd hInside (hRest.ne_cons hBracket)
    | arith op left right =>
      cases e' with
      | constant => exact absurd hInside.symm (hRest'.ne_cons hBracket)
      | arith op' left' right' =>
        -- a comma ends the left operand, a bracket the right one
        cases head_inj rfl rfl hWord
        obtain ⟨hLeft, hComma⟩ := ih left (by simp [children]) left' _ _ trivial
          (stops_cons (by decide)) (stops_cons (by decide)) (List.cons.inj hInside).2
        obtain ⟨hRight, hClose⟩ := ih right (by simp [children]) right' _ _ trivial
          (stops_cons (by decide)) (stops_cons (by decide))
          (List.cons.inj (List.cons.inj hComma).2).2
        exact ⟨by rw [canonical, canonical, hLeft, hRight], (List.cons.inj hClose).2⟩
      | negate | call => cases head_inj rfl rfl hWord
    | negate operand =>
      cases e' with
      | constant => exact absurd hInside.symm (hRest'.ne_cons hBracket)
      | arith => cases head_inj rfl rfl hWord
      | negate operand' =>
        obtain ⟨hOperand, hClose⟩ := ih operand (by simp [children]) operand' _ _ trivial
          (stops_cons (by decide)) (stops_cons (by decide)) (List.cons.inj hInside).2
        exact ⟨by rw [canonical, canonical, hOperand], (List.cons.inj hClose).2⟩
      | call => cases head_inj rfl rfl hWord
    | call method os =>
      cases e' with
      | constant => exact absurd hInside.symm (hRest'.ne_cons hBracket)
      | arith | negate => cases head_inj rfl rfl hWord
      | call method' os' =>
        -- the expressions in an operand are children of the call
        cases head_inj rfl rfl hWord
        have hTells : ∀ o ∈ os, Tells writeOperand ends (fun _ => True) canonicalOperand o :=
          fun o ho => operand_tells fun e he => ih e (List.mem_flatMap.2 ⟨o, ho, he⟩)
        obtain ⟨hSame, hRests⟩ := Text.writeList_inj (by decide) (by decide) (by decide)
          (fun o _ _ _ => writeOperand_ne_cons o) hTells (fun _ _ => trivial)
          (fun _ _ => trivial) (List.cons.inj hInside).2
        refine ⟨?_, hRests⟩
        rw [canonical, canonical, canonicalOperands_eq, canonicalOperands_eq, hSame]

/-! ## Texts -/

/-- Expressions have the same text just if they are the same up to constants that are not
numbers, and so do operands. All other constants are kept bit by bit. -/
theorem text_unambiguous :
    (∀ e e' : Core, e.text = e'.text ↔ e.canonical = e'.canonical) ∧
    (∀ o o' : Operand, operandText o = operandText o' ↔
      canonicalOperand o = canonicalOperand o') ∧
    ∀ a b : Literal, a.canonical = b.canonical ↔
      a = b ∨ a.value.isNaN = true ∧ b.value.isNaN = true := by
  refine ⟨fun e e' => ⟨fun h => ?_, fun h => ?_⟩, fun o o' => ⟨fun h => ?_, fun h => ?_⟩,
    Literal.canonical_eq_iff⟩
  · exact (e.writeOnto_tells e' [] [] trivial (Text.stops_nil _) (Text.stops_nil _)
      (String.ofList_inj.1 h)).1
  · rw [text, text, ← e.writeOnto_canonical, h, e'.writeOnto_canonical]
  · exact (operand_tells (fun e _ => e.writeOnto_tells) o' [] [] trivial (Text.stops_nil _)
      (Text.stops_nil _) (String.ofList_inj.1 h)).1
  · have hWrite : ∀ o : Operand, writeOperand (canonicalOperand o) = writeOperand o :=
      fun o => writeOperand_canonical fun e _ => e.writeOnto_canonical
    rw [operandText, operandText, ← hWrite o, h, hWrite o']

/-- A sign and a payload of not-a-number are not written. -/
example : (constant ⟨0xfff8000000000001⟩).text = (constant ⟨0x7ff8000000000000⟩).text := by
  decide

/-- A quote in a literal does not end it. -/
example : (call .callFunction [.literal "f\", [x]"]).text =
    "context.CallFunction(\"f\\\", [x]\")" := by
  decide

end Core

end Reckon
