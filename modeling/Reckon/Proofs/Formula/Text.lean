import Mathlib
import Reckon.Formula.Text
import Reckon.Proofs.Accepted
import Reckon.Proofs.Number.Text
import Reckon.Proofs.Text
import Reckon.Proofs.Token.Spaced

/-!
# Reckon — the text of a formula is its own

Formulas that stem from sources can be told from their texts, as long as their numbers are
finite: a number that is too large for a double is written like a variable of the name
`inf`.

* `Formula.Legible` — names are words and numbers are digits with at most a point, so a
  name starts with no character that a number starts with;
* `Formula.writeOnto_eq` — a formula is written as a word, which operators do not have,
  and what is in brackets behind it, which only numbers and variables do not have;
* `Formula.writeOnto_tells` — the induction over formulas. A bracket or a blank behind the
  first operand tells unary operators from binary ones.
-/

namespace Reckon.Formula

open Text (Stops Tells stops_cons)

theorem writeFirst_eq (ps : List Formula) (rest : List Char) :
    writeFirst ps rest = Text.writeList writeOnto ps rest :=
  Text.eq_writeList writeOnto (fun _ => rfl) (fun _ _ _ => rfl) (fun _ => rfl) (fun _ _ _ => rfl)
    ps rest

/-! ## Formulas with legible leaves -/

/-- The names of a formula are words, and its numbers are written without signs and
letters. -/
structure Legible (f : Formula) : Prop where
  names : ∀ name ∈ f.names, Token.Shape .identifier name.toList
  literals : ∀ l ∈ f.literals,
    Number.Unsigned l ∧ Token.Shape .number (Number.text l.value).toList

namespace Legible

variable {op : Operator} {f g : Formula} {name : String} {ps : List Formula}

theorem left (h : Legible (.binary op f g)) : f.Legible where
  names n hn := h.names n (List.mem_append_left _ hn)
  literals l hl := h.literals l (List.mem_append_left _ hl)

theorem right (h : Legible (.binary op f g)) : g.Legible where
  names n hn := h.names n (List.mem_append_right _ hn)
  literals l hl := h.literals l (List.mem_append_right _ hl)

theorem operand (h : Legible (.unary op f)) : f.Legible :=
  ⟨h.names, h.literals⟩

theorem parameters (h : Legible (.call name ps)) : ∀ p ∈ ps, p.Legible := by
  intro p hp
  refine ⟨fun n hn => h.names n ?_, fun l hl => h.literals l ?_⟩
  · rw [Formula.names, namesAll_eq]
    exact List.mem_append_left _ (List.mem_flatMap.2 ⟨p, hp, hn⟩)
  · rw [Formula.literals, literalsAll_eq]
    exact List.mem_flatMap.2 ⟨p, hp, hl⟩

end Legible

/-- A formula of a source is legible if its numbers are finite. -/
theorem Stems.legible {source : String} {f : Formula} (h : f.Stems source)
    (hFinite : ∀ l ∈ f.literals, l.value.isFinite = true) : f.Legible where
  names name hn := (h.names name hn).1
  literals l hl :=
    have hUnsigned := (h.literals l hl).unsigned
    ⟨hUnsigned, hUnsigned.nonnegative.text_shape (hFinite l hl)⟩

/-! ## Words -/

/-- What may follow a formula. -/
def ends : List Char :=
  [' ', ')', ',']

/-- The characters between the words of a text. -/
def separators : List Char :=
  '(' :: ends

/-- The word that the text of a formula starts with. -/
def word : Formula → List Char
  | number literal => (Number.text literal.value).toList
  | var name | call name _ => name.toList
  | binary .. | unary .. => []

/-- What is written behind the word, in front of `rest`. -/
def writeInside : Formula → List Char → List Char
  | number _, rest | var _, rest => rest
  | binary op left right, rest =>
    '(' :: op.symbol :: ' ' :: left.writeOnto (' ' :: right.writeOnto (')' :: rest))
  | unary op operand, rest => '(' :: op.symbol :: ' ' :: operand.writeOnto (')' :: rest)
  | call _ ps, rest => '(' :: Text.writeList writeOnto ps (')' :: rest)

theorem writeOnto_eq (f : Formula) (rest : List Char) :
    f.writeOnto rest = f.word ++ f.writeInside rest := by
  rw [writeOnto.eq_def]
  cases f with
  | number literal => rfl
  | var name => rfl
  | binary op left right => rfl
  | unary op operand => rfl
  | call name ps =>
    show name.toList ++ '(' :: writeFirst ps (')' :: rest) = _
    rw [writeFirst_eq]
    rfl

/-- A separator follows the word, if anything does. -/
theorem stops_writeInside (f : Formula) {rest : List Char} (h : Stops ends rest) :
    Stops separators (f.writeInside rest) := by
  cases f with
  | number literal => exact h.mono (List.subset_cons_self ..)
  | var name => exact h.mono (List.subset_cons_self ..)
  | binary op left right => exact stops_cons (by decide)
  | unary op operand => exact stops_cons (by decide)
  | call name ps => exact stops_cons (by decide)

/-- The word of a number starts with a digit and has no separator in it. -/
theorem number_word {t : List Char} (h : Token.Shape .number t) :
    (∃ c more, t = c :: more ∧ IsDigit c) ∧ ∀ c ∈ t, c ∉ separators := by
  refine ⟨Number.exists_digit_of_shape h, fun c hc hSeparator => ?_⟩
  simp only [separators, ends, List.mem_cons, List.not_mem_nil, or_false] at hSeparator
  have hNumeral := Number.digit_or_point_of_shape h c hc
  rcases hSeparator with rfl | rfl | rfl | rfl <;> simp [IsDigit] at hNumeral

/-- A name starts with no digit and has no separator in it. -/
theorem name_word {t : List Char} (h : Token.Shape .identifier t) :
    (∃ c more, t = c :: more ∧ ¬ IsDigit c) ∧ ∀ c ∈ t, c ∉ separators := by
  cases h with
  | sign hSign => simp [signs] at hSign
  | @identifier c more hStart hRest =>
    have hDigit : ¬ IsDigit c := by
      rw [← isDigit_iff, hStart.isDigit]
      decide
    refine ⟨⟨c, more, rfl, hDigit⟩, fun d hd hSeparator => ?_⟩
    have hAll : ∀ d ∈ c :: more, IsWordRest d := List.forall_mem_cons.2 ⟨Or.inl hStart, hRest⟩
    have hWord := hAll d hd
    simp only [separators, ends, List.mem_cons, List.not_mem_nil, or_false] at hSeparator
    rcases hSeparator with rfl | rfl | rfl | rfl <;>
      simp [IsWordRest, IsWordStart, IsDigit] at hWord

theorem not_separator_of_mem_word {f : Formula} (h : f.Legible) : ∀ c ∈ f.word, c ∉ separators := by
  cases f with
  | number literal => exact (number_word (h.literals literal (by simp [literals])).2).2
  | var name => exact (name_word (h.names name (by simp [names]))).2
  | binary op left right => exact fun c hc => by cases hc
  | unary op operand => exact fun c hc => by cases hc
  | call name ps => exact (name_word (h.names name (by simp [names]))).2

/-- Two formulas that start the same text have the same word and the same behind it. -/
theorem words_of_eq {f g : Formula} (hf : f.Legible) (hg : g.Legible) {rest rest' : List Char}
    (hRest : Stops ends rest) (hRest' : Stops ends rest')
    (h : f.writeOnto rest = g.writeOnto rest') :
    f.word = g.word ∧ f.writeInside rest = g.writeInside rest' := by
  rw [writeOnto_eq, writeOnto_eq] at h
  exact Text.word_append_inj (not_separator_of_mem_word hf) (not_separator_of_mem_word hg)
    (f.stops_writeInside hRest) (g.stops_writeInside hRest') h

/-- A number is no name. -/
theorem number_ne_name {t w : List Char} (ht : Token.Shape .number t)
    (hw : Token.Shape .identifier w) : t ≠ w := by
  rintro rfl
  obtain ⟨⟨c, more, rfl, hDigit⟩, -⟩ := number_word ht
  obtain ⟨⟨_, _, hCons, hStart⟩, -⟩ := name_word hw
  cases hCons
  exact hStart hDigit

/-- No formula starts like the end of a list of parameters. -/
theorem writeOnto_ne_cons {f : Formula} (hf : f.Legible) {rest more : List Char} :
    f.writeOnto rest ≠ ')' :: more := by
  -- without a word a formula starts with its own bracket
  have hWord : f.word = [] → ∃ text, f.writeInside rest = '(' :: text := by
    intro hNil
    cases f with
    | number literal => exact absurd hNil (hf.literals literal (by simp [literals])).2.ne_nil
    | var name => exact absurd hNil (hf.names name (by simp [names])).ne_nil
    | binary op left right => exact ⟨_, rfl⟩
    | unary op operand => exact ⟨_, rfl⟩
    | call name ps => exact ⟨_, rfl⟩
  rw [writeOnto_eq]
  intro h
  cases hCons : f.word with
  | nil =>
    obtain ⟨text, hInside⟩ := hWord hCons
    rw [hCons, hInside] at h
    exact absurd (List.cons.inj h).1 (by decide)
  | cons c w =>
    rw [hCons] at h
    obtain ⟨rfl, -⟩ := List.cons.inj h
    exact absurd (not_separator_of_mem_word hf ')' (by simp [hCons])) (by decide)

/-! ## Telling formulas -/

theorem symbol_inj {op op' : Operator} (h : op.symbol = op'.symbol) : op = op' := by
  revert h
  cases op <;> cases op' <;> decide

/-- Every legible formula can be told from its text. -/
theorem writeOnto_tells {f : Formula} (hf : f.Legible) : Tells writeOnto ends Legible id f := by
  induction f with
  | number literal =>
    intro g rest rest' hg hRest hRest' h
    obtain ⟨hUnsigned, hShape⟩ := hf.literals literal (by simp [literals])
    obtain ⟨hWord, hInside⟩ := words_of_eq hf hg hRest hRest' h
    cases g with
    | number literal' =>
      have hValue : literal.value = literal'.value := Number.text_inj (String.toList_inj.1 hWord)
      exact ⟨congrArg number (hUnsigned.value_inj hValue), hInside⟩
    | var name' | call name' =>
      exact absurd hWord (number_ne_name hShape (hg.names name' (by simp [names])))
    | binary | unary => exact absurd hWord hShape.ne_nil
  | var name =>
    intro g rest rest' hg hRest hRest' h
    have hShape := hf.names name (by simp [names])
    obtain ⟨hWord, hInside⟩ := words_of_eq hf hg hRest hRest' h
    cases g with
    | number literal' =>
      exact absurd hWord.symm (number_ne_name (hg.literals literal' (by simp [literals])).2 hShape)
    | var name' => exact ⟨congrArg var (String.toList_inj.1 hWord), hInside⟩
    -- only a call has a bracket behind its name
    | call name' ps' => exact absurd hInside (hRest.ne_cons (by decide))
    | binary | unary => exact absurd hWord hShape.ne_nil
  | binary op left right ihLeft ihRight =>
    intro g rest rest' hg hRest hRest' h
    obtain ⟨hWord, hInside⟩ := words_of_eq hf hg hRest hRest' h
    cases g with
    | number literal' =>
      exact absurd hWord.symm (hg.literals literal' (by simp [literals])).2.ne_nil
    | var name' | call name' => exact absurd hWord.symm (hg.names name' (by simp [names])).ne_nil
    | binary op' left' right' =>
      obtain ⟨hSymbol, hBlank⟩ := List.cons.inj (List.cons.inj hInside).2
      obtain rfl := symbol_inj hSymbol
      obtain ⟨rfl, hSecond⟩ := ihLeft hf.left left' _ _ hg.left (stops_cons (by decide))
        (stops_cons (by decide)) (List.cons.inj hBlank).2
      obtain ⟨rfl, hClose⟩ := ihRight hf.right right' _ _ hg.right (stops_cons (by decide))
        (stops_cons (by decide)) (List.cons.inj hSecond).2
      exact ⟨rfl, (List.cons.inj hClose).2⟩
    | unary op' operand' =>
      -- there is a blank behind the left operand and a bracket behind the only one
      obtain ⟨-, hBlank⟩ := List.cons.inj (List.cons.inj hInside).2
      obtain ⟨-, hSecond⟩ := ihLeft hf.left operand' _ _ hg.operand (stops_cons (by decide))
        (stops_cons (by decide)) (List.cons.inj hBlank).2
      exact absurd (List.cons.inj hSecond).1 (by decide)
  | unary op operand ih =>
    intro g rest rest' hg hRest hRest' h
    obtain ⟨hWord, hInside⟩ := words_of_eq hf hg hRest hRest' h
    cases g with
    | number literal' =>
      exact absurd hWord.symm (hg.literals literal' (by simp [literals])).2.ne_nil
    | var name' | call name' => exact absurd hWord.symm (hg.names name' (by simp [names])).ne_nil
    | binary op' left' right' =>
      obtain ⟨-, hBlank⟩ := List.cons.inj (List.cons.inj hInside).2
      obtain ⟨-, hSecond⟩ := ih hf.operand left' _ _ hg.left (stops_cons (by decide))
        (stops_cons (by decide)) (List.cons.inj hBlank).2
      exact absurd (List.cons.inj hSecond).1 (by decide)
    | unary op' operand' =>
      obtain ⟨hSymbol, hBlank⟩ := List.cons.inj (List.cons.inj hInside).2
      obtain rfl := symbol_inj hSymbol
      obtain ⟨rfl, hClose⟩ := ih hf.operand operand' _ _ hg.operand (stops_cons (by decide))
        (stops_cons (by decide)) (List.cons.inj hBlank).2
      exact ⟨rfl, (List.cons.inj hClose).2⟩
  | call name ps ih =>
    intro g rest rest' hg hRest hRest' h
    have hShape := hf.names name (by simp [names])
    obtain ⟨hWord, hInside⟩ := words_of_eq hf hg hRest hRest' h
    cases g with
    | number literal' =>
      exact absurd hWord.symm (number_ne_name (hg.literals literal' (by simp [literals])).2 hShape)
    | var name' => exact absurd hInside.symm (hRest'.ne_cons (by decide))
    | binary | unary => exact absurd hWord hShape.ne_nil
    | call name' ps' =>
      -- the parameters are told as a list, which also tells how many they are
      obtain rfl := String.toList_inj.1 hWord
      obtain ⟨hSame, hRests⟩ := Text.writeList_inj (by decide) (by decide) (by decide)
        (fun p _ _ hp => writeOnto_ne_cons hp) (fun p hp => ih p hp (hf.parameters p hp))
        hf.parameters hg.parameters (List.cons.inj hInside).2
      rw [List.map_id, List.map_id] at hSame
      exact ⟨congrArg (call name) hSame, hRests⟩

/-! ## Texts of formulas of sources -/

/-- Formulas of sources with finite numbers are the same if their texts are. -/
theorem parsed_text_iff {source source' : String} {f g : Formula} (hf : parse source = .ok f)
    (hg : parse source' = .ok g) (hFinite : ∀ l ∈ f.literals, l.value.isFinite = true)
    (hFinite' : ∀ l ∈ g.literals, l.value.isFinite = true) : f.text = g.text ↔ f = g := by
  refine ⟨fun h => ?_, congrArg text⟩
  have hLegible := (stems_of_parse hf).legible hFinite
  have hLegible' := (stems_of_parse hg).legible hFinite'
  exact (writeOnto_tells hLegible g [] [] hLegible' (Text.stops_nil _) (Text.stops_nil _)
    (String.ofList_inj.1 h)).1

/-- A minus in front of a difference is told from one in front of its first operand. -/
theorem parsed_text_iff_signed_difference :
    let oneAndHalf : Formula := .number (.ofFloat 1.5)
    let f : Formula := .binary .plus (.unary .minus (.binary .minus (.var "x") oneAndHalf))
      (.call "f" [.var "y"])
    let g : Formula := .binary .plus (.binary .minus (.unary .minus (.var "x")) oneAndHalf)
      (.call "f" [.var "y"])
    parse "-(x - 1.50) + f(y)" = .ok f ∧ parse "-x - 1.5 + f((y))" = .ok g ∧ f.text ≠ g.text := by
  intro oneAndHalf f g
  have hf : parse "-(x - 1.50) + f(y)" = .ok f := by rfl
  have hg : parse "-x - 1.5 + f((y))" = .ok g := by rfl
  have hFinite : (Literal.ofFloat 1.5).value.isFinite = true := by decide
  refine ⟨hf, hg, fun hText => ?_⟩
  have hEq := (parsed_text_iff hf hg (by simp [f, oneAndHalf, literals, literalsAll, hFinite])
    (by simp [g, oneAndHalf, literals, literalsAll, hFinite])).1 hText
  simp [f, g] at hEq

/-- What is not finite can be written like a variable. -/
example : (number (.ofFloat (1 / 0))).text = (var "inf").text := by
  decide

end Reckon.Formula
