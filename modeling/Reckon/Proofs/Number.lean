import Mathlib
import Reckon.Number.Reading
import Reckon.Proofs.Token.Partition

/-!
# Reckon — numbers without a sign

A number in a source is written with digits and a point only. What is read from it
is a literal without a sign, whose double is at least zero:

* `Number.value_eq_iff` — a literal can be told from its value, unless that is not a
  number;
* `Number.Unsigned` — the bit patterns up to that of infinity. Their doubles are
  numbers and not negative (`Number.Unsigned.nonnegative`);
* `Number.read_of_shape` — the text of a number token is read as such a literal;
* `read_of_mem_tokens` — so every number among the tokens of a source can be read.
-/

namespace Reckon

namespace Number

open Float.Model (Format UnpackedFloat)
open Float.Model.UnpackedFloat

/-! ## Bit patterns -/

/-- A pattern that is not a number gives way to the one that stands for all of
them. Any other pattern is kept. -/
theorem toBitVec_value (l : Literal) :
    l.value.toBits.toBitVec =
      if @isNaNBits Format.binary64 l.bits.toBitVec = true then packedNaN Format.binary64
      else l.bits.toBitVec :=
  @pack_unpack Format.binary64 l.bits.toBitVec (by decide)

/-- The bits of a literal are those of its value, if that is a number. -/
theorem toBits_value {l : Literal} (h : l.value.isNaN = false) : l.value.toBits = l.bits := by
  have hBits := toBitVec_value l
  split at hBits
  · -- the pattern that was put in place is not a number either
    have hNaN : l.value.isNaN = true :=
      (isNaN_unpack_iff_of_valid l.value.toModel.valid).2 hBits
    rw [h] at hNaN
    cases hNaN
  · exact UInt64.toBitVec_inj.1 hBits

/-- Literals of one value are the same, unless it is not a number. -/
theorem value_eq_iff (a b : Literal) :
    a.value = b.value ↔ a = b ∨ a.value.isNaN = true ∧ b.value.isNaN = true := by
  constructor
  · intro hValue
    cases hNaN : a.value.isNaN with
    | true => exact Or.inr ⟨rfl, hValue ▸ hNaN⟩
    | false =>
      have hBits : a.bits = b.bits := by
        rw [← toBits_value hNaN, hValue, toBits_value (hValue ▸ hNaN)]
      exact Or.inl (Literal.ext hBits)
  · rintro (rfl | ⟨ha, hb⟩)
    · rfl
    · rw [Float.isNaN_eq_decide_eq_nan, decide_eq_true_eq] at ha hb
      rw [ha, hb]

theorem toNat_unpackExponent (b : BitVec 64) :
    (@unpackExponent Format.binary64 b).toNat = b.toNat / 2 ^ 52 % 2048 := by
  rw [← Nat.shiftRight_eq_div_pow]
  rfl

theorem toNat_unpackMantissa (b : BitVec 64) :
    (@unpackMantissa Format.binary64 b).toNat = b.toNat % 2 ^ 52 := rfl

theorem toNat_unpackSign (b : BitVec 64) :
    (@unpackSign Format.binary64 b).toNat = b.toNat / 2 ^ 63 % 2 := by
  rw [← Nat.shiftRight_eq_div_pow]
  rfl

/-! ## Literals without a sign -/

/-- A literal up to infinity: a number, and without a sign. -/
def Unsigned (l : Literal) : Prop :=
  l.bits.toNat ≤ infinityBits

/-- A double is a number, is not negative and has no sign, so that it is not
the negative zero either. -/
structure Nonnegative (x : Float) : Prop where
  isNaN : x.isNaN = false
  not_lt : ¬ x < 0
  sign : x.toBits.toNat < signBit

/-- With the greatest exponent, only the pattern of infinity is small enough. -/
theorem unpackMantissa_eq_zero {b : BitVec 64} (h : b.toNat ≤ infinityBits)
    (hExponent : @unpackExponent Format.binary64 b = -1#_) :
    @unpackMantissa Format.binary64 b = 0#_ := by
  unfold infinityBits at h
  have hField := congrArg BitVec.toNat hExponent
  rw [toNat_unpackExponent] at hField
  change _ = 2047 at hField
  apply BitVec.eq_of_toNat_eq
  rw [toNat_unpackMantissa]
  show _ = 0
  omega

theorem Unsigned.unpack_value {l : Literal} (h : Unsigned l) :
    l.value.toModel.unpack = unpack Format.binary64 l.bits.toBitVec := by
  have hNumber : ¬ @isNaNBits Format.binary64 l.bits.toBitVec = true := by
    rw [isNaNBits, decide_eq_true_eq]
    exact fun ⟨hExponent, hMantissa⟩ => hMantissa (unpackMantissa_eq_zero h hExponent)
  show unpack Format.binary64 l.value.toBits.toBitVec = _
  rw [toBitVec_value, if_neg hNumber]

/-- What the float model has unpacked is a number with a plus for its sign. -/
def Positive : UnpackedFloat → Prop
  | .infinity s | .zero s | .finite s _ _ _ => s = .positive
  | .notANumber => False

theorem Unsigned.positive {l : Literal} (h : Unsigned l) : Positive l.value.toModel.unpack := by
  rw [h.unpack_value]
  have hSign : @unpackSign Format.binary64 l.bits.toBitVec = 0#1 := by
    have hBits : l.bits.toBitVec.toNat ≤ infinityBits := h
    unfold infinityBits at hBits
    apply BitVec.eq_of_toNat_eq
    rw [toNat_unpackSign]
    show _ = 0
    omega
  have hPositive : Sign.ofBitVec (@unpackSign Format.binary64 l.bits.toBitVec) = .positive := by
    rw [hSign]
    rfl
  -- an infinity, a number near zero or a zero, and any other number have the sign alike
  unfold unpack
  simp only [hPositive]
  split
  · next hExponent =>
    rw [if_pos (unpackMantissa_eq_zero h hExponent)]
    rfl
  · split
    · split <;> rfl
    · rfl

/-- The double of a literal without a sign is a number that is not negative. -/
theorem Unsigned.nonnegative {l : Literal} (h : Unsigned l) : Nonnegative l.value := by
  have hPositive := h.positive
  have hNaN : l.value.isNaN = false := by
    show l.value.toModel.unpack.isNaN = false
    generalize l.value.toModel.unpack = u at hPositive
    cases u with
    | notANumber => cases hPositive
    | infinity s | zero s | finite s m e hm => rfl
  refine ⟨hNaN, fun hLt => ?_, ?_⟩
  · -- with a plus for its sign, nothing is less than zero
    have hZero : (0 : Float).toModel.unpack = .zero .positive := rfl
    have hLess : l.value.toModel.unpack.lt (0 : Float).toModel.unpack = true :=
      of_decide_eq_true hLt
    rw [hZero] at hLess
    generalize l.value.toModel.unpack = u at hPositive hLess
    cases u with
    | notANumber => cases hPositive
    | infinity s | zero s | finite s m e hm =>
      cases hPositive
      cases hLess
  · rw [toBits_value hNaN]
    exact Nat.lt_of_le_of_lt h (by decide)

/-- Without a sign, a literal can be told from its value. -/
theorem Unsigned.value_inj {a b : Literal} (h : Unsigned a) (hValue : a.value = b.value) :
    a = b := by
  rcases (value_eq_iff a b).1 hValue with hSame | ⟨hNaN, -⟩
  · exact hSame
  · rw [h.nonnegative.isNaN] at hNaN
    cases hNaN

/-! ## Reading -/

theorem unsigned_ofMagnitude {bits : Nat} (h : bits ≤ infinityBits) :
    Unsigned (ofMagnitude false bits) :=
  Nat.le_trans (Nat.mod_le bits (2 ^ 64)) h

theorem nearestBits_le (num den : Nat) : nearestBits num den ≤ infinityBits := by
  unfold nearestBits
  split
  · exact Nat.zero_le _
  · exact Nat.min_le_right _ _

theorem Decimal.unsigned_toLiteral (d : Decimal) : Unsigned (d.toLiteral false) := by
  unfold Decimal.toLiteral
  dsimp only
  split
  · exact unsigned_ofMagnitude (nearestBits_le _ _)
  · split
    · exact unsigned_ofMagnitude (Nat.le_refl _)
    · exact unsigned_ofMagnitude (nearestBits_le _ _)

/-- Digits are a decimal. -/
theorem readDecimal_whole {digits : List Char} (hNonempty : digits ≠ [])
    (hDigits : ∀ d ∈ digits, IsDigit d) :
    readDecimal digits = some ⟨ofDigits 0 digits, 0⟩ := by
  have hTake : digits.takeWhile Char.isDigit = digits :=
    List.takeWhile_eq_self_iff.2 fun d hd => isDigit_iff.2 (hDigits d hd)
  have hDrop : digits.dropWhile Char.isDigit = [] :=
    List.dropWhile_eq_nil_iff.2 fun d hd => isDigit_iff.2 (hDigits d hd)
  simp [readDecimal, hTake, hDrop, hNonempty, readPower, ofDigits]

/-- Digits with a point and digits behind it are a decimal. -/
theorem readDecimal_fraction {digits places : List Char} (hNonempty : digits ≠ [])
    (hDigits : ∀ d ∈ digits, IsDigit d) (hPlaces : ∀ d ∈ places, IsDigit d) :
    readDecimal (digits ++ '.' :: places) =
      some ⟨ofDigits 0 (digits ++ places), -places.length⟩ := by
  have hAll : ∀ d ∈ digits, d.isDigit = true := fun d hd => isDigit_iff.2 (hDigits d hd)
  have hTake : places.takeWhile Char.isDigit = places :=
    List.takeWhile_eq_self_iff.2 fun d hd => isDigit_iff.2 (hPlaces d hd)
  have hDrop : places.dropWhile Char.isDigit = [] :=
    List.dropWhile_eq_nil_iff.2 fun d hd => isDigit_iff.2 (hPlaces d hd)
  simp [readDecimal, List.takeWhile_append_of_pos hAll, List.dropWhile_append_of_pos hAll,
    hTake, hDrop, hNonempty, readPower, ofDigits]

/-- Digits with a point among them, or without one, are a decimal. -/
theorem readDecimal_of_shape {text : List Char} (h : Token.Shape .number text) :
    ∃ d, readDecimal text = some d := by
  cases h with
  | sign hSign => simp [signs] at hSign
  | whole hNonempty hDigits => exact ⟨_, readDecimal_whole hNonempty hDigits⟩
  | fraction hNonempty hDigits hPlaces =>
    exact ⟨_, readDecimal_fraction hNonempty hDigits hPlaces⟩

/-- The first character of a number is a digit. -/
theorem exists_digit_of_shape {text : List Char} (h : Token.Shape .number text) :
    ∃ c more, text = c :: more ∧ IsDigit c := by
  cases h with
  | sign hSign => simp [signs] at hSign
  | whole hNonempty hDigits =>
    obtain ⟨c, more, rfl⟩ := List.exists_cons_of_ne_nil hNonempty
    exact ⟨c, more, rfl, hDigits c (List.mem_cons_self ..)⟩
  | fraction hNonempty hDigits _ =>
    obtain ⟨c, more, rfl⟩ := List.exists_cons_of_ne_nil hNonempty
    exact ⟨c, _, rfl, hDigits c (List.mem_cons_self ..)⟩

/-- A digit is no sign. -/
theorem splitSign_of_shape {text : List Char} (h : Token.Shape .number text) :
    splitSign text = (false, text) := by
  obtain ⟨c, more, rfl, hDigit⟩ := exists_digit_of_shape h
  have hMinus : c ≠ '-' := by
    rintro rfl
    exact absurd hDigit.1 (by decide)
  have hPlus : c ≠ '+' := by
    rintro rfl
    exact absurd hDigit.1 (by decide)
  unfold splitSign
  split <;> simp_all

/-- The text of a number is read as a literal without a sign. -/
theorem read_of_shape {text : String} (h : Token.Shape .number text.toList) :
    ∃ literal, read text = .ok literal ∧ Unsigned literal := by
  obtain ⟨d, hDecimal⟩ := readDecimal_of_shape h
  have hNonempty : ¬ text.isEmpty = true := by
    rw [String.isEmpty_iff]
    rintro rfl
    exact h.ne_nil rfl
  refine ⟨d.toLiteral false, ?_, d.unsigned_toLiteral⟩
  simp [read, hNonempty, splitSign_of_shape h, hDecimal]

end Number

/-! ## Numbers of a source -/

/-- A number that was cut off a text can be read. -/
theorem Token.Cut.read {t : Token} {offset : Nat} {gap text rest : List Char}
    (h : t.Cut offset gap text rest) (hKind : t.kind = .number) :
    ∃ literal, Number.read (t.lexeme.getD "") = .ok literal := by
  have hShape := h.shape
  have hLexeme := h.lexeme_eq
  rw [hKind] at hShape hLexeme
  rw [← String.toList_ofList (l := text)] at hShape
  obtain ⟨literal, hRead, -⟩ := Number.read_of_shape hShape
  refine ⟨literal, ?_⟩
  rw [hLexeme]
  exact hRead

theorem Cursor.scan_number (chars : List Char) (offset size : Nat)
    (h : (scan chars offset size).kind = .number) :
    ∃ literal, Number.read ((scan chars offset size).current.lexeme.getD "") = .ok literal := by
  rcases scan_cases chars offset size with ⟨-, hScan⟩ | ⟨t, gap, text, rest, -, hCut, hScan⟩
  · rw [hScan] at h
    cases h
  · rw [hScan] at h ⊢
    exact hCut.read h

/-- No number of a source is misspelt. -/
theorem read_of_mem_tokens {source : String} {t : Token} (hMem : t ∈ (tokens source).dropLast)
    (hKind : t.kind = .number) : ∃ literal, Number.read (t.lexeme.getD "") = .ok literal := by
  obtain ⟨front, gap, text, rest, -, hCut⟩ :=
    (covers_tokens source).exists_cut (List.mem_of_mem_dropLast hMem) (by simp [hKind])
  exact hCut.read hKind

end Reckon
