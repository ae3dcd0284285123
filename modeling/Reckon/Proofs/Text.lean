import Mathlib
import Reckon.Text.Quoted

/-!
# Reckon — texts that can be taken apart

What is written in front of a rest can be told from it as long as the writer leaves
a mark where it ends. This is said here of words, lists and quoted texts, whatever the
things in a list are:

* `Text.word_append_inj` — a word ends at the first mark;
* `Text.Tells` — what a key says of a thing, and what follows the thing, can be told from
  the text of both. With the identity for a key, this is the thing itself;
* `Text.writeList_inj` — a list whose things can be told can be told itself, up to a
  bracket that nothing in it starts with;
* `Text.quoteOnto_inj` — so can a quoted text, whatever characters are in it. An escape
  tells where it ends (`Text.Escapes.append_inj`), and none of them starts with a quote.
-/

namespace Reckon.Text

/-! ## Words -/

/-- What follows a word: a mark comes first if anything does. -/
def Stops (marks rest : List Char) : Prop :=
  ∀ c ∈ rest.head?, c ∈ marks

theorem stops_nil (marks : List Char) : Stops marks [] := by
  simp [Stops]

theorem stops_cons {marks rest : List Char} {c : Char} (h : c ∈ marks) :
    Stops marks (c :: rest) := by
  simpa [Stops] using h

theorem Stops.mem {marks rest : List Char} {c : Char} (h : Stops marks (c :: rest)) : c ∈ marks :=
  h c (by simp)

theorem Stops.ne_cons {marks rest more : List Char} {c : Char} (h : Stops marks rest)
    (hc : c ∉ marks) : rest ≠ c :: more := by
  rintro rfl
  exact hc h.mem

theorem Stops.mono {marks marks' rest : List Char} (hSubset : marks ⊆ marks')
    (h : Stops marks rest) : Stops marks' rest :=
  fun c hc => hSubset (h c hc)

/-- Two words that end at marks and start the same text are the same. -/
theorem word_append_inj {marks w w' rest rest' : List Char} (hw : ∀ c ∈ w, c ∉ marks)
    (hw' : ∀ c ∈ w', c ∉ marks) (hRest : Stops marks rest) (hRest' : Stops marks rest')
    (h : w ++ rest = w' ++ rest') : w = w' ∧ rest = rest' := by
  induction w generalizing w' with
  | nil =>
    cases w' with
    | nil => exact ⟨rfl, h⟩
    | cons c w' => exact absurd h (hRest.ne_cons (hw' c (by simp)))
  | cons c w ih =>
    cases w' with
    | nil => exact absurd h.symm (hRest'.ne_cons (hw c (by simp)))
    | cons c' w' =>
      obtain ⟨rfl, hTail⟩ := List.cons.inj h
      obtain ⟨rfl, hRests⟩ := ih (fun d hd => hw d (by simp [hd]))
        (fun d hd => hw' d (by simp [hd])) hTail
      exact ⟨rfl, hRests⟩

/-! ## Lists -/

section Lists

variable {α : Type} (write : α → List Char → List Char)

/-- Writes things, each behind a comma, in front of `rest`. -/
def writeMore : List α → List Char → List Char
  | [], rest => rest
  | a :: as, rest => ',' :: ' ' :: write a (writeMore as rest)

/-- Writes things with commas between them in front of `rest`. -/
def writeList : List α → List Char → List Char
  | [], rest => rest
  | a :: as, rest => write a (writeMore write as rest)

/-- Writers that obey the same equations write the same. -/
theorem eq_writeList {first more : List α → List Char → List Char}
    (hMoreNil : ∀ rest, more [] rest = rest)
    (hMoreCons : ∀ a as rest, more (a :: as) rest = ',' :: ' ' :: write a (more as rest))
    (hNil : ∀ rest, first [] rest = rest)
    (hCons : ∀ a as rest, first (a :: as) rest = write a (more as rest)) (as : List α)
    (rest : List Char) : first as rest = writeList write as rest := by
  have hMore : ∀ as, more as rest = writeMore write as rest := by
    intro as
    induction as with
    | nil => exact hMoreNil rest
    | cons a as ih => rw [hMoreCons, writeMore, ih]
  cases as with
  | nil => exact hNil rest
  | cons a as => rw [hCons, writeList, hMore]

/-- What writes each thing like another one writes the list of them like that of the
others. -/
theorem writeList_map {g : α → α} {as : List α} (h : ∀ a ∈ as, write (g a) = write a)
    (rest : List Char) : writeList write (as.map g) rest = writeList write as rest := by
  have hMore : ∀ as : List α, (∀ a ∈ as, write (g a) = write a) →
      writeMore write (as.map g) rest = writeMore write as rest := by
    intro as h
    induction as with
    | nil => rfl
    | cons a as ih =>
      obtain ⟨hHead, hTail⟩ := List.forall_mem_cons.1 h
      rw [List.map_cons, writeMore, writeMore, hHead, ih hTail]
  cases as with
  | nil => rfl
  | cons a as =>
    obtain ⟨hHead, hTail⟩ := List.forall_mem_cons.1 h
    rw [List.map_cons, writeList, writeList, hHead, hMore as hTail]

variable {β : Type}

/-- What a key says of a thing, and what follows the thing, can be told from the text of
both, among all things with a property and all that may follow them. -/
def Tells (marks : List Char) (p : α → Prop) (key : α → β) (a : α) : Prop :=
  ∀ (b : α) (rest rest' : List Char), p b → Stops marks rest → Stops marks rest' →
    write a rest = write b rest' → key a = key b ∧ rest = rest'

variable {write} {marks : List Char} {p : α → Prop} {key : α → β} {as bs : List α}
  {close : Char} {rest rest' : List Char}

theorem stops_writeMore (hComma : ',' ∈ marks) (hClose : close ∈ marks) :
    Stops marks (writeMore write as (close :: rest)) := by
  cases as with
  | nil => exact stops_cons hClose
  | cons a as => exact stops_cons hComma

theorem writeMore_inj (hComma : ',' ∈ marks) (hClose : close ∈ marks) (hNe : close ≠ ',')
    (hTells : ∀ a ∈ as, Tells write marks p key a) (hp : ∀ b ∈ bs, p b)
    (h : writeMore write as (close :: rest) = writeMore write bs (close :: rest')) :
    as.map key = bs.map key ∧ rest = rest' := by
  induction as generalizing bs with
  | nil =>
    cases bs with
    | nil => exact ⟨rfl, (List.cons.inj h).2⟩
    | cons b bs => exact absurd (List.cons.inj h).1 hNe
  | cons a as ih =>
    cases bs with
    | nil => exact absurd (List.cons.inj h).1.symm hNe
    | cons b bs =>
      -- behind the comma and the blank, what follows the first thing starts with a mark again
      obtain ⟨-, hBehind⟩ := List.cons.inj (List.cons.inj h).2
      obtain ⟨hKey, hMore⟩ := hTells a (by simp) b _ _ (hp b (by simp))
        (stops_writeMore hComma hClose) (stops_writeMore hComma hClose) hBehind
      obtain ⟨hKeys, hRests⟩ := ih (fun a ha => hTells a (by simp [ha]))
        (fun b hb => hp b (by simp [hb])) hMore
      exact ⟨by rw [List.map_cons, List.map_cons, hKey, hKeys], hRests⟩

/-- Things that can be told, and do not start like what closes their list, make a list
that can be told. -/
theorem writeList_inj (hComma : ',' ∈ marks) (hClose : close ∈ marks) (hNe : close ≠ ',')
    (hStart : ∀ a rest more, p a → write a rest ≠ close :: more)
    (hTells : ∀ a ∈ as, Tells write marks p key a) (hp : ∀ a ∈ as, p a) (hp' : ∀ b ∈ bs, p b)
    (h : writeList write as (close :: rest) = writeList write bs (close :: rest')) :
    as.map key = bs.map key ∧ rest = rest' := by
  cases as with
  | nil =>
    cases bs with
    | nil => exact ⟨rfl, (List.cons.inj h).2⟩
    | cons b bs => exact absurd h.symm (hStart b _ _ (hp' b (by simp)))
  | cons a as =>
    cases bs with
    | nil => exact absurd h (hStart a _ _ (hp a (by simp)))
    | cons b bs =>
      obtain ⟨hKey, hMore⟩ := hTells a (by simp) b _ _ (hp' b (by simp))
        (stops_writeMore hComma hClose) (stops_writeMore hComma hClose) h
      obtain ⟨hKeys, hRests⟩ := writeMore_inj hComma hClose hNe
        (fun a ha => hTells a (by simp [ha])) (fun b hb => hp' b (by simp [hb])) hMore
      exact ⟨by rw [List.map_cons, List.map_cons, hKey, hKeys], hRests⟩

end Lists

/-! ## Hexadecimal digits -/

theorem digitChar_inj : ∀ i < 16, ∀ j < 16, Nat.digitChar i = Nat.digitChar j → i = j := by
  decide

theorem digitChar_ne_brace : ∀ i < 16, Nat.digitChar i ≠ '\x7d' := by
  decide

/-- The last digit is that of the remainder. -/
theorem hexDigits_eq (n : Nat) :
    hexDigits n = (if n < 16 then [] else hexDigits (n / 16)) ++ [Nat.digitChar (n % 16)] := by
  unfold hexDigits
  split
  · rename_i hLt
    rw [Nat.toDigits_of_lt_base hLt, Nat.mod_eq_of_lt hLt, List.nil_append]
  · rename_i hLe
    rw [Nat.toDigits_of_base_le (by decide) (by omega)]

theorem hexDigits_inj {n n' : Nat} (h : hexDigits n = hexDigits n') : n = n' := by
  induction n using Nat.strong_induction_on generalizing n' with
  | h n ih =>
    rw [hexDigits_eq n, hexDigits_eq n'] at h
    obtain ⟨hInit, hLast⟩ := List.append_inj' h rfl
    have hMod := digitChar_inj _ (n.mod_lt (by decide)) _ (n'.mod_lt (by decide))
      (List.singleton_inj.1 hLast)
    -- no number has no digits, so both have one digit or both have more
    split at hInit <;> split at hInit
    · omega
    · exact absurd hInit.symm Nat.toDigits_ne_nil
    · exact absurd hInit Nat.toDigits_ne_nil
    · have hDiv := ih (n / 16) (by omega) hInit
      omega

theorem ne_brace_of_mem_hexDigits {n : Nat} {c : Char} (h : c ∈ hexDigits n) : c ≠ '\x7d' := by
  induction n using Nat.strong_induction_on with
  | h n ih =>
    rw [hexDigits_eq, List.mem_append, List.mem_singleton] at h
    rcases h with h | rfl
    · split at h
      · cases h
      · exact ih (n / 16) (by omega) h
    · exact digitChar_ne_brace _ (n.mod_lt (by decide))

/-! ## Quoted texts -/

/-- The characters with short escapes, and the letters of these. -/
def shortEscapes : List (Char × Char) :=
  [('"', '"'), ('\\', '\\'), ('\n', 'n'), ('\r', 'r'), ('\t', 't'), ('\x00', '0')]

/-- The ways in which a character can be written between quotes. -/
inductive Escapes : Char → List Char → Prop
  | plain {c : Char} (hQuote : c ≠ '"') (hBackslash : c ≠ '\\') : Escapes c [c]
  | short {c letter : Char} (hShort : (c, letter) ∈ shortEscapes) : Escapes c ['\\', letter]
  | code (c : Char) : Escapes c ('\\' :: 'u' :: '\x7b' :: (hexDigits c.toNat ++ ['\x7d']))

theorem escape_escapes (c : Char) : Escapes c (escape c) := by
  unfold escape
  split_ifs with hQuote hBackslash hN hR hT hNull hVisible
  · exact .short (by simp [shortEscapes, hQuote])
  · exact .short (by simp [shortEscapes, hBackslash])
  · exact .short (by simp [shortEscapes, hN])
  · exact .short (by simp [shortEscapes, hR])
  · exact .short (by simp [shortEscapes, hT])
  · have hZero : c = '\x00' := Char.toNat_inj.1 hNull
    exact .short (by simp [shortEscapes, hZero])
  · exact .plain hQuote hBackslash
  · exact .code c

namespace Escapes

variable {c c' : Char} {t t' rest rest' : List Char}

theorem head?_ne (h : Escapes c t) : (t ++ rest).head? ≠ some '"' := by
  cases h with
  | plain hQuote _ => simpa using hQuote
  | short hShort => simp
  | code => simp

/-- One letter stands for one character only. -/
theorem short_inj : ∀ a ∈ shortEscapes, ∀ b ∈ shortEscapes, a.2 = b.2 → a.1 = b.1 := by
  decide

theorem short_ne_u : ∀ a ∈ shortEscapes, a.2 ≠ 'u' := by
  decide

/-- The text of a character tells where it ends. -/
theorem append_inj (h : Escapes c t) (h' : Escapes c' t') (hText : t ++ rest = t' ++ rest') :
    c = c' ∧ rest = rest' := by
  cases h with
  | plain hQuote hBackslash =>
    cases h' with
    | plain => exact List.cons.inj hText
    | short => exact absurd (List.cons.inj hText).1 hBackslash
    | code => exact absurd (List.cons.inj hText).1 hBackslash
  | short hShort =>
    cases h' with
    | plain _ hBackslash => exact absurd (List.cons.inj hText).1.symm hBackslash
    | short hShort' =>
      obtain ⟨hLetter, hRest⟩ := List.cons.inj (List.cons.inj hText).2
      exact ⟨short_inj _ hShort _ hShort' hLetter, hRest⟩
    | code => exact absurd (List.cons.inj (List.cons.inj hText).2).1 (short_ne_u _ hShort)
  | code =>
    cases h' with
    | plain _ hBackslash => exact absurd (List.cons.inj hText).1.symm hBackslash
    | short hShort' =>
      exact absurd (List.cons.inj (List.cons.inj hText).2).1.symm (short_ne_u _ hShort')
    | code =>
      -- the digits end at the brace
      have hDigits : hexDigits c.toNat ++ '\x7d' :: rest =
          hexDigits c'.toNat ++ '\x7d' :: rest' := by
        simpa using hText
      have hNoBrace : ∀ n, ∀ d ∈ hexDigits n, d ∉ ['\x7d'] := fun n d hd => by
        simpa using ne_brace_of_mem_hexDigits hd
      obtain ⟨hHex, hRest⟩ := word_append_inj (hNoBrace _) (hNoBrace _) (stops_cons (by simp))
        (stops_cons (by simp)) hDigits
      exact ⟨Char.toNat_inj.1 (hexDigits_inj hHex), (List.cons.inj hRest).2⟩

end Escapes

theorem escapes_append_inj {cs cs' rest rest' : List Char}
    (h : cs.flatMap escape ++ '"' :: rest = cs'.flatMap escape ++ '"' :: rest') :
    cs = cs' ∧ rest = rest' := by
  induction cs generalizing cs' with
  | nil =>
    cases cs' with
    | nil => exact ⟨rfl, (List.cons.inj h).2⟩
    | cons c cs' =>
      rw [List.flatMap_cons, List.append_assoc] at h
      exact absurd (congrArg List.head? h).symm (escape_escapes c).head?_ne
  | cons c cs ih =>
    rw [List.flatMap_cons, List.append_assoc] at h
    cases cs' with
    | nil => exact absurd (congrArg List.head? h) (escape_escapes c).head?_ne
    | cons c' cs' =>
      rw [List.flatMap_cons, List.append_assoc] at h
      obtain ⟨rfl, hTail⟩ := (escape_escapes c).append_inj (escape_escapes c') h
      obtain ⟨rfl, hRests⟩ := ih hTail
      exact ⟨rfl, hRests⟩

/-- A quoted text tells what is quoted and where it ends. -/
theorem quoteOnto_inj {text text' : String} {rest rest' : List Char}
    (h : quoteOnto text rest = quoteOnto text' rest') : text = text' ∧ rest = rest' := by
  obtain ⟨hChars, hRests⟩ := escapes_append_inj (List.cons.inj h).2
  exact ⟨String.toList_inj.1 hChars, hRests⟩

end Reckon.Text
