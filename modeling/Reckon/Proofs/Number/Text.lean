import Mathlib
import Reckon.Number.Text
import Reckon.Proofs.Number.Shortest

/-!
# Reckon — texts of numbers

Different doubles have different texts. Reading a text back is not needed to see this.
The digits and the point of a text stand for a decimal of the same value as the one that
was written, and such a value lies in the interval around one double only:

* `Number.plain_positional` — wherever the point is placed, the value is that of the
  digits times a power of ten;
* `Number.Written` — what the text of a double looks like: a sign and either a word or a
  decimal that belongs to the double;
* `Number.Written.unique` — doubles with the same text have the same shape, so they are
  the same (`Number.text_inj`).

What surrounds a number in a text is told from it by its characters (`Number.IsNumeral`).
-/

namespace Reckon.Number

/-! ## Digits -/

/-- Digits are read as the number of which they are the decimal digits. -/
theorem ofDigits_eq (n : ℕ) (digits : List Char) :
    ofDigits n digits = Nat.ofDigitChars 10 digits n :=
  Nat.ofDigitChars_eq_foldl.symm

theorem ofDigits_append (n : ℕ) (digits more : List Char) :
    ofDigits n (digits ++ more) = ofDigits (ofDigits n digits) more := by
  rw [ofDigits, ofDigits, ofDigits, List.foldl_append]

theorem ofDigits_replicate_zero (n k : ℕ) : ofDigits n (List.replicate k '0') = 10 ^ k * n := by
  rw [ofDigits_eq, Nat.ofDigitChars_replicate_zero]

theorem ofDigits_toDigits (n : ℕ) : ofDigits 0 (Nat.toDigits 10 n) = n := by
  rw [ofDigits_eq, Nat.ofDigitChars_ten_toDigits]

theorem isDigit_of_mem_replicate {k : ℕ} {c : Char} (h : c ∈ List.replicate k '0') : IsDigit c := by
  rw [List.eq_of_mem_replicate h]
  exact ⟨by decide, by decide⟩

/-! ## Decimals written out -/

/-- The text of a number without sign, and the value that it is read as. -/
structure Denotes (text : List Char) (q : ℚ) : Prop where
  shape : Token.Shape .number text
  value : ∃ d, readDecimal text = some d ∧ d.value = q

theorem denotes_whole (digits : List Char) (hNonempty : digits ≠ [])
    (hDigits : ∀ c ∈ digits, IsDigit c) : Denotes digits (ofDigits 0 digits) where
  shape := .whole hNonempty hDigits
  value := by
    refine ⟨_, readDecimal_whole hNonempty hDigits, ?_⟩
    simp [Decimal.value]

theorem denotes_fraction (digits places : List Char) (hNonempty : digits ≠ [])
    (hDigits : ∀ c ∈ digits, IsDigit c) (hPlaces : ∀ c ∈ places, IsDigit c) :
    Denotes (digits ++ '.' :: places)
      (ofDigits 0 (digits ++ places) * 10 ^ (-(places.length : ℤ))) where
  shape := .fraction hNonempty hDigits hPlaces
  value := ⟨_, readDecimal_fraction hNonempty hDigits hPlaces, rfl⟩

/-- The point in front of, behind or among the digits scales their number. -/
theorem plain_positional {digits : List Char} (hNonempty : digits ≠ [])
    (hDigits : ∀ c ∈ digits, IsDigit c) (whole : ℤ) :
    Denotes (Style.plain.positional digits whole).toList
      (ofDigits 0 digits * 10 ^ (whole - digits.length)) := by
  unfold Style.positional
  split
  · -- zeros between the point and the digits count as places
    rename_i hWhole
    have hZeros : ofDigits 0 ('0' :: (List.replicate (-whole).toNat '0' ++ digits)) =
        ofDigits 0 digits := by
      rw [← List.cons_append, ← List.replicate_succ, ofDigits_append, ofDigits_replicate_zero,
        Nat.mul_zero]
    have hDenotes := denotes_fraction ['0']
      (List.replicate (-whole).toNat '0' ++ digits) (by simp)
      (by simp [IsDigit]) (List.forall_mem_append.2 ⟨fun c => isDigit_of_mem_replicate, hDigits⟩)
    simp only [List.singleton_append, hZeros, List.length_append, List.length_replicate] at hDenotes
    rw [String.toList_ofList]
    convert hDenotes using 3
    omega
  · split
    · -- zeros behind the digits are digits
      rename_i hWhole hLength
      have hDenotes := denotes_whole (digits ++ List.replicate (whole.toNat - digits.length) '0')
        (by simp [hNonempty])
        (List.forall_mem_append.2 ⟨hDigits, fun c => isDigit_of_mem_replicate⟩)
      have hPower : whole - digits.length = ((whole.toNat - digits.length : ℕ) : ℤ) := by omega
      rw [ofDigits_append, ofDigits_replicate_zero] at hDenotes
      rw [hPower, zpow_natCast, mul_comm]
      simpa [Style.plain] using hDenotes
    · rename_i hWhole hLength
      have hDenotes := denotes_fraction (digits.take whole.toNat)
        (digits.drop whole.toNat) (by simp [hNonempty]; omega)
        (fun c hc => hDigits c (List.mem_of_mem_take hc))
        (fun c hc => hDigits c (List.mem_of_mem_drop hc))
      rw [List.take_append_drop, List.length_drop] at hDenotes
      rw [String.toList_ofList]
      convert hDenotes using 3
      omega

/-- The text of a decimal is read as a decimal of the same value. -/
theorem plain_decimal (d : Decimal) : Denotes (Style.plain.decimal d).toList d.value := by
  have hDigits : ∀ c ∈ Nat.toDigits 10 d.coefficient, IsDigit c := fun c hc =>
    isDigit_iff.1 (Nat.isDigit_of_mem_toDigits (by decide) (by decide) hc)
  have hDenotes := plain_positional Nat.toDigits_ne_nil hDigits
    ((Nat.toDigits 10 d.coefficient).length + d.exponent)
  rwa [ofDigits_toDigits, add_sub_cancel_left] at hDenotes

/-! ## Doubles -/

/-- A rational belongs to a finite double: it is zero, or in the interval around it. -/
def Belongs (significand : ℕ) (exponent : ℤ) (q : ℚ) : Prop :=
  if significand = 0 then q = 0 else (Interval.around significand exponent).Holds q

theorem eq_of_belongs {negative negative' : Bool} {m m' : ℕ} {e e' : ℤ} {q : ℚ}
    (hc : (Shape.finite negative m e).Canonical) (hc' : (Shape.finite negative' m' e').Canonical)
    (h : Belongs m e q) (h' : Belongs m' e' q) : m = m' ∧ e = e' := by
  unfold Belongs at h h'
  by_cases hm : m = 0
  · rw [if_pos hm] at h
    by_cases hm' : m' = 0
    · subst hm hm'
      exact ⟨rfl, hc.exponent_eq.trans hc'.exponent_eq.symm⟩
    · -- nothing in the interval around another double is zero
      rw [if_neg hm'] at h'
      exact absurd h (Interval.pos_of_holds_around hm' h').ne'
  · rw [if_neg hm] at h
    by_cases hm' : m' = 0
    · rw [if_pos hm'] at h'
      exact absurd h' (Interval.pos_of_holds_around hm h).ne'
    · rw [if_neg hm'] at h'
      exact Interval.eq_of_holds_around hm hm' hc hc' h h'

/-- Whether a double has a minus in front of its text. -/
def Shape.negative : Shape → Bool
  | .nan => false
  | .infinite negative | .finite negative _ _ => negative

/-- The text of a double behind its sign. -/
inductive Written : Shape → List Char → Prop
  | nan : Written .nan "NaN".toList
  | infinite (negative : Bool) : Written (.infinite negative) "inf".toList
  | finite (negative : Bool) {m : ℕ} {e : ℤ} {text : List Char} {q : ℚ} (hText : Denotes text q)
      (hValue : Belongs m e q) : Written (.finite negative m e) text

/-- A text behind its sign. -/
def signed (negative : Bool) (text : List Char) : List Char :=
  if negative then '-' :: text else text

/-- All that the text of a double can look like. -/
theorem exists_written (x : Float) :
    ∃ t, (text x).toList = signed (Shape.ofFloat x).negative t ∧ Written (.ofFloat x) t := by
  have hSigned : ∀ (negative : Bool) (text : String),
      (if negative then "-" ++ text else text).toList = signed negative text.toList := by
    intro negative text
    cases negative with
    | false => rfl
    | true => exact String.toList_append
  unfold text Style.format
  cases Shape.ofFloat x with
  | nan => exact ⟨_, rfl, .nan⟩
  | infinite negative => exact ⟨_, hSigned .., .infinite negative⟩
  | finite negative m e =>
    dsimp only
    split
    · -- zero has no digits to look for
      rename_i hZero
      have hDenotes := denotes_whole ['0'] (by simp) (by simp [IsDigit])
      refine ⟨_, hSigned .., .finite negative hDenotes ?_⟩
      rw [Belongs, if_pos hZero]
      exact Nat.cast_eq_zero.2 (by decide)
    · rename_i hZero
      refine ⟨_, hSigned .., .finite negative (plain_decimal _) ?_⟩
      rw [Belongs, if_neg hZero]
      exact holds_shortest hZero e

/-! ## Characters -/

/-- The characters of numbers. -/
def IsNumeral (c : Char) : Prop :=
  IsDigit c ∨ c ∈ ['.', '-', 'i', 'n', 'f', 'N', 'a']

/-- A number without sign has digits and at most a point. -/
theorem digit_or_point_of_shape {t : List Char} (h : Token.Shape .number t) :
    ∀ c ∈ t, IsDigit c ∨ c = '.' := by
  cases h with
  | sign hSign => simp [signs] at hSign
  | whole _ hDigits => exact fun c hc => Or.inl (hDigits c hc)
  | fraction _ hDigits hPlaces =>
    intro c hc
    rcases List.mem_append.1 hc with hc | hc
    · exact Or.inl (hDigits c hc)
    · rcases List.mem_cons.1 hc with rfl | hc
      · exact Or.inr rfl
      · exact Or.inl (hPlaces c hc)

section Texts

variable {s s' : Shape} {t t' : List Char}

theorem Written.ne_nil (h : Written s t) : t ≠ [] := by
  cases h with
  | nan => decide
  | infinite negative => decide
  | finite negative hText _ => exact hText.shape.ne_nil

/-- Behind its sign, a number has no minus. -/
theorem Written.isNumeral (h : Written s t) : ∀ c ∈ t, IsNumeral c ∧ c ≠ '-' := by
  cases h with
  | nan => simp [IsNumeral]
  | infinite negative => simp [IsNumeral]
  | finite negative hText _ =>
    intro c hc
    rcases digit_or_point_of_shape hText.shape c hc with hDigit | rfl
    · refine ⟨Or.inl hDigit, ?_⟩
      rintro rfl
      exact absurd hDigit.1 (by decide)
    · exact ⟨Or.inr (by decide), by decide⟩

theorem text_ne_nil (x : Float) : (text x).toList ≠ [] := by
  obtain ⟨t, hText, hWritten⟩ := exists_written x
  rw [hText, signed]
  split
  · exact List.cons_ne_nil _ _
  · exact hWritten.ne_nil

theorem isNumeral_of_mem_text {x : Float} {c : Char} (h : c ∈ (text x).toList) : IsNumeral c := by
  obtain ⟨t, hText, hWritten⟩ := exists_written x
  rw [hText, signed] at h
  split at h
  · rcases List.mem_cons.1 h with rfl | h
    · exact Or.inr (by decide)
    · exact (hWritten.isNumeral c h).1
  · exact (hWritten.isNumeral c h).1

/-! ## Texts apart -/

theorem signed_inj {negative negative' : Bool} (ht : '-' ∉ t) (ht' : '-' ∉ t')
    (h : signed negative t = signed negative' t') : negative = negative' ∧ t = t' := by
  cases negative <;> cases negative' <;>
    simp only [signed, if_true, Bool.false_eq_true, if_false] at h
  · exact ⟨rfl, h⟩
  · exact absurd (h ▸ List.mem_cons_self ..) ht
  · exact absurd (h ▸ List.mem_cons_self ..) ht'
  · exact ⟨rfl, (List.cons.inj h).2⟩

/-- What denotes a value starts with a digit, so it is no word. -/
theorem Denotes.ne_word {q : ℚ} (h : Denotes t q) {c : Char} {more : List Char}
    (hLetter : ¬ IsDigit c) : t ≠ c :: more := by
  rintro rfl
  obtain ⟨_, _, hCons, hDigit⟩ := exists_digit_of_shape h.shape
  cases hCons
  exact hLetter hDigit

theorem Denotes.unique {q q' : ℚ} (h : Denotes t q) (h' : Denotes t q') : q = q' := by
  obtain ⟨d, hRead, hValue⟩ := h.value
  obtain ⟨d', hRead', hValue'⟩ := h'.value
  obtain rfl := Option.some.inj (hRead.symm.trans hRead')
  exact hValue.symm.trans hValue'

/-- Texts and signs tell shapes apart. -/
theorem Written.unique (hc : s.Canonical) (hc' : s'.Canonical) (h : Written s t)
    (h' : Written s' t) (hSign : s.negative = s'.negative) : s = s' := by
  -- the two words start with letters, which no decimal does
  have hN : ¬ IsDigit 'N' := by simp [IsDigit]
  have hI : ¬ IsDigit 'i' := by simp [IsDigit]
  cases h with
  | nan =>
    generalize ht : "NaN".toList = t at h'
    cases h' with
    | nan => rfl
    | infinite negative => exact absurd ht (by decide)
    | finite negative hText _ => exact absurd ht.symm (hText.ne_word hN)
  | infinite negative =>
    generalize ht : "inf".toList = t at h'
    cases h' with
    | nan => exact absurd ht (by decide)
    | infinite negative' => exact congrArg Shape.infinite hSign
    | finite negative' hText _ => exact absurd ht.symm (hText.ne_word hI)
  | finite negative hText hValue =>
    cases h' with
    | nan => exact absurd rfl (hText.ne_word hN)
    | infinite negative' => exact absurd rfl (hText.ne_word hI)
    | finite negative' hText' hValue' =>
      -- the text stands for one rational, and this belongs to one double
      obtain rfl : negative = negative' := hSign
      obtain rfl := hText.unique hText'
      obtain ⟨rfl, rfl⟩ := eq_of_belongs hc hc' hValue hValue'
      rfl

/-- Different doubles have different texts. -/
theorem text_inj {x y : Float} (h : text x = text y) : x = y := by
  obtain ⟨t, hText, hWritten⟩ := exists_written x
  obtain ⟨t', hText', hWritten'⟩ := exists_written y
  rw [h, hText'] at hText
  obtain ⟨hSign, rfl⟩ := signed_inj (fun hc => (hWritten'.isNumeral _ hc).2 rfl)
    (fun hc => (hWritten.isNumeral _ hc).2 rfl) hText
  refine ofFloat_inj ?_
  exact hWritten.unique (ofFloat_canonical x) (ofFloat_canonical y) hWritten' hSign.symm

end Texts

/-- A finite number without sign is written with digits and at most a point. -/
theorem Nonnegative.text_shape {x : Float} (hx : Nonnegative x) (hFinite : x.isFinite = true) :
    Token.Shape .number (text x).toList := by
  obtain ⟨negative, m, e, hShape⟩ := (isFinite_iff x).1 hFinite
  -- the sign bit is not set
  have hSign : negative = false := by
    have hBits := hx.sign
    have hShift : x.toBits.toNat >>> 63 = 0 := by
      unfold signBit at hBits
      rw [Nat.shiftRight_eq_div_pow]
      omega
    simp only [Shape.ofFloat, Shape.ofBits, hShift] at hShape
    split at hShape
    · split at hShape <;> cases hShape
    · split at hShape <;> cases hShape <;> rfl
  obtain ⟨t, hText, hWritten⟩ := exists_written x
  rw [hShape, hSign] at hText hWritten
  rw [hText]
  cases hWritten with
  | finite _ hText _ => exact hText.shape

end Reckon.Number
