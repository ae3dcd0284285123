import Mathlib
import Reckon.Proofs.Number

/-!
# Reckon — doubles and their shapes

A double is compared, and written, by what it stands for. The shape of a double
says this with natural numbers, and loses nothing:

* `Number.Shape.Canonical` — each finite double has one shape only: the significand
  is as long as the exponent allows;
* `Number.ofFloat_inj` — doubles of one shape are the same double, since there is
  one pattern only that is not a number;
* `Number.unpack_eq` — comparing doubles goes by their shapes as well;
* `Number.beq_iff` — doubles are equal if they are numbers with the same bits, or
  two zeros.
-/

namespace Reckon.Number

open Float.Model (Format UnpackedFloat)
open Float.Model.UnpackedFloat

/-! ## Shapes -/

namespace Shape

/-- The significand of a finite double is below the next power of two, and at least
the hidden bit unless the exponent is the least one. -/
def Canonical : Shape → Prop
  | .finite _ m p => m < 2 * hiddenBit ∧ leastExponent ≤ p ∧ (p = leastExponent ∨ hiddenBit ≤ m)
  | _ => True

/-- A bit pattern is put together from the sign, the exponent field and the fraction
field. -/
theorem ofBits_fields {bits negative field fraction : Nat}
    (hBits : bits = negative * 2 ^ 63 + field * 2 ^ 52 + fraction) (hField : field < 2048)
    (hFraction : fraction < hiddenBit) :
    ofBits bits =
      if field = 2047 then
        if fraction = 0 then .infinite (decide (1 ≤ negative)) else .nan
      else if field = 0 then .finite (decide (1 ≤ negative)) fraction leastExponent
      else .finite (decide (1 ≤ negative)) (hiddenBit + fraction) ((field : Int) - 1075) := by
  unfold hiddenBit at hFraction
  have hSign : bits >>> 63 = negative := by
    rw [Nat.shiftRight_eq_div_pow]
    omega
  have hMiddle : (bits >>> 52) % 2048 = field := by
    rw [Nat.shiftRight_eq_div_pow]
    omega
  have hLow : bits % hiddenBit = fraction := by
    unfold hiddenBit
    omega
  simp only [ofBits, hSign, hMiddle, hLow]

/-- The fields of a bit pattern. -/
theorem exists_fields {bits : Nat} (h : bits < 2 ^ 64) :
    ∃ negative field fraction, bits = negative * 2 ^ 63 + field * 2 ^ 52 + fraction ∧
      negative < 2 ∧ field < 2048 ∧ fraction < hiddenBit := by
  refine ⟨bits / 2 ^ 63, bits / 2 ^ 52 % 2048, bits % 2 ^ 52, ?_, ?_, ?_, ?_⟩
  · omega
  · omega
  · omega
  · unfold hiddenBit
    omega

theorem ofBits_canonical {bits : Nat} (h : bits < 2 ^ 64) : (ofBits bits).Canonical := by
  obtain ⟨negative, field, fraction, hBits, -, hField, hFraction⟩ := exists_fields h
  rw [ofBits_fields hBits hField hFraction]
  unfold hiddenBit at hFraction
  split
  · split <;> trivial
  · split
    · exact ⟨by unfold hiddenBit; omega, le_refl _, Or.inl rfl⟩
    · refine ⟨?_, ?_, Or.inr (Nat.le_add_right _ _)⟩
      · unfold hiddenBit
        omega
      · unfold leastExponent
        omega

/-- The bit pattern of a shape. The hidden bit of a significand carries into the
exponent field. -/
def bits : Shape → Nat
  | .nan => 0
  | .infinite negative => negative.toNat * 2 ^ 63 + infinityBits
  | .finite negative m p => negative.toNat * 2 ^ 63 + (p - leastExponent).toNat * hiddenBit + m

/-- Apart from what is not a number, there is one pattern only for each shape. -/
theorem bits_ofBits {n : Nat} (h : n < 2 ^ 64) (hNumber : ofBits n ≠ .nan) :
    (ofBits n).bits = n := by
  obtain ⟨negative, field, fraction, hBits, hSign, hField, hFraction⟩ := exists_fields h
  have hToNat : (decide (1 ≤ negative)).toNat = negative := by
    obtain rfl | rfl : negative = 0 ∨ negative = 1 := by omega
    · rfl
    · rfl
  rw [ofBits_fields hBits hField hFraction] at hNumber ⊢
  split at hNumber
  · next hTop =>
    split at hNumber
    · next hZero =>
      rw [if_pos hTop, if_pos hZero, bits, hToNat, infinityBits]
      omega
    · exact absurd rfl hNumber
  · next hTop =>
    rw [if_neg hTop]
    split
    · next hLeast =>
      rw [bits, hToNat, Int.sub_self, Int.toNat_zero]
      omega
    · next hLeast =>
      have hExponent : ((field : Int) - 1075 - leastExponent).toNat = field - 1 := by
        unfold leastExponent
        omega
      rw [bits, hToNat, hExponent]
      unfold hiddenBit
      omega

/-- The sign of a shape as the float model has it. -/
def sign (negative : Bool) : Sign :=
  if negative then .negative else .positive

/-- The shape as the float model has it. -/
def unpacked : Shape → UnpackedFloat
  | .nan => .notANumber
  | .infinite negative => .infinity (sign negative)
  | .finite negative m p =>
    if h : m = 0 then .zero (sign negative)
    else .finite (sign negative) m p (Nat.pos_of_ne_zero h)

/-- The shape of what the float model has unpacked. -/
def ofUnpacked : UnpackedFloat → Shape
  | .notANumber => .nan
  | .infinity s => .infinite (s == .negative)
  | .zero s => .finite (s == .negative) 0 leastExponent
  | .finite s m p _ => .finite (s == .negative) m p

theorem sign_beq (negative : Bool) : (sign negative == .negative) = negative := by
  cases negative <;> rfl

/-- Without a significand, the exponent is the least one. -/
theorem Canonical.exponent_eq {negative : Bool} {p : Int}
    (h : (Shape.finite negative 0 p).Canonical) : p = leastExponent := by
  refine h.2.2.resolve_right ?_
  unfold hiddenBit
  omega

theorem unpacked_eq_zero_iff {s : Shape} (h : s.Canonical) :
    (∃ t, s.unpacked = .zero t) ↔ ∃ negative, s = .finite negative 0 leastExponent := by
  cases s with
  | nan => simp [unpacked]
  | infinite negative => simp [unpacked]
  | finite negative m p =>
    by_cases hm : m = 0
    · subst hm
      simp [unpacked, h.exponent_eq]
    · simp [unpacked, hm]

theorem ofUnpacked_unpacked {s : Shape} (h : s.Canonical) : ofUnpacked s.unpacked = s := by
  cases s with
  | nan => rfl
  | infinite negative => rw [unpacked, ofUnpacked, sign_beq]
  | finite negative m p =>
    by_cases hm : m = 0
    · subst hm
      rw [unpacked, dif_pos rfl, ofUnpacked, sign_beq, h.exponent_eq]
    · rw [unpacked, dif_neg hm, ofUnpacked, sign_beq]

end Shape

theorem toNat_hidden (mantissa : BitVec 52) :
    (1#1 ++ mantissa).toNat = hiddenBit + mantissa.toNat := by
  rw [BitVec.toNat_append, ← Nat.shiftLeft_add_eq_or_of_lt mantissa.isLt]
  rfl

theorem toBits_lt (x : Float) : x.toBits.toNat < 2 ^ 64 :=
  x.toBits.toNat_lt

/-- What is unpacked from a pattern is its shape. -/
theorem unpack_fields {b : BitVec 64} {n k m : Nat}
    (hBits : b.toNat = n * 2 ^ 63 + k * 2 ^ 52 + m) (hn : n < 2) (hk : k < 2048)
    (hm : m < hiddenBit) : unpack Format.binary64 b = (Shape.ofBits b.toNat).unpacked := by
  rw [Shape.ofBits_fields hBits hk hm]
  -- the three fields as numbers
  have hMantissa := toNat_unpackMantissa b
  have hExponent := toNat_unpackExponent b
  have hSign := toNat_unpackSign b
  unfold hiddenBit at hm
  replace hMantissa : (@unpackMantissa Format.binary64 b).toNat = m := by omega
  replace hExponent : (@unpackExponent Format.binary64 b).toNat = k := by omega
  replace hSign : (@unpackSign Format.binary64 b).toNat = n := by omega
  have hTop : @unpackExponent Format.binary64 b = -1#_ ↔ k = 2047 := by
    rw [← BitVec.toNat_inj, hExponent]
    rfl
  have hLeast : @unpackExponent Format.binary64 b = 0#_ ↔ k = 0 := by
    rw [← BitVec.toNat_inj, hExponent]
    rfl
  have hFraction : @unpackMantissa Format.binary64 b = 0#_ ↔ m = 0 := by
    rw [← BitVec.toNat_inj, hMantissa]
    rfl
  have hPositive : @unpackSign Format.binary64 b = 0#1 ↔ n = 0 := by
    rw [← BitVec.toNat_inj, hSign]
    rfl
  have hNegative :
      Sign.ofBitVec (@unpackSign Format.binary64 b) = Shape.sign (decide (1 ≤ n)) := by
    unfold Sign.ofBitVec Shape.sign
    by_cases hn0 : n = 0
    · rw [if_pos (hPositive.2 hn0), if_neg (by simp [hn0])]
    · rw [if_neg (mt hPositive.1 hn0), if_pos (by simp; omega)]
  unfold unpack
  simp only [hTop, hLeast, hFraction, hNegative, hMantissa, hExponent]
  by_cases hk2047 : k = 2047
  · rw [if_pos hk2047, if_pos hk2047]
    by_cases hm0 : m = 0
    · rw [if_pos hm0, if_pos hm0]
      rfl
    · rw [if_neg hm0, if_neg hm0]
      rfl
  · rw [if_neg hk2047, if_neg hk2047]
    by_cases hk0 : k = 0
    · rw [if_pos hk0, if_pos hk0]
      subst hk0
      rfl
    · rw [if_neg hk0, if_neg hk0]
      -- the hidden bit keeps the significand from being zero
      have hNonzero : hiddenBit + m ≠ 0 := by
        unfold hiddenBit
        omega
      have hHidden : (1#1 ++ @unpackMantissa Format.binary64 b).toNat = hiddenBit + m := by
        rw [toNat_hidden, hMantissa]
      simp only [Shape.unpacked, dif_neg hNonzero, hHidden]
      rfl

/-- What is unpacked from a double is its shape. -/
theorem unpack_eq (x : Float) : x.toModel.unpack = (Shape.ofFloat x).unpacked := by
  obtain ⟨n, k, m, hBits, hn, hk, hm⟩ := Shape.exists_fields (toBits_lt x)
  exact unpack_fields (b := x.toModel.toBits.toBitVec) hBits hn hk hm

theorem ofFloat_canonical (x : Float) : (Shape.ofFloat x).Canonical :=
  Shape.ofBits_canonical (toBits_lt x)

theorem bits_ofFloat {x : Float} (h : Shape.ofFloat x ≠ .nan) :
    (Shape.ofFloat x).bits = x.toBits.toNat :=
  Shape.bits_ofBits (toBits_lt x) h

theorem isFinite_iff (x : Float) :
    x.isFinite = true ↔ ∃ negative m p, Shape.ofFloat x = .finite negative m p := by
  show x.toModel.unpack.isFinite = true ↔ _
  rw [unpack_eq]
  cases Shape.ofFloat x with
  | nan => simp [Shape.unpacked, isFinite]
  | infinite negative => simp [Shape.unpacked, isFinite]
  | finite negative m p =>
    by_cases hm : m = 0
    · simp [Shape.unpacked, hm, isFinite]
    · simp [Shape.unpacked, hm, isFinite]

/-- There is one pattern only that is not a number. -/
theorem toBitVec_of_nan {x : Float} (h : Shape.ofFloat x = .nan) :
    x.toBits.toBitVec = packedNaN Format.binary64 := by
  have hUnpack : unpack Format.binary64 x.toModel.toBits.toBitVec = .notANumber := by
    show x.toModel.unpack = _
    rw [unpack_eq, h]
    rfl
  have hFields : @unpackExponent Format.binary64 x.toModel.toBits.toBitVec = -1#_ ∧
      @unpackMantissa Format.binary64 x.toModel.toBits.toBitVec ≠ 0#_ := by
    unfold unpack at hUnpack
    simp only at hUnpack
    split at hUnpack
    · next hTop =>
      split at hUnpack
      · cases hUnpack
      · next hFraction => exact ⟨hTop, hFraction⟩
    · split at hUnpack
      · split at hUnpack <;> cases hUnpack
      · cases hUnpack
  exact x.toModel.valid.eq_packedNaN hFields.1 hFields.2

/-- Doubles of one shape are the same. -/
theorem ofFloat_inj {x y : Float} (h : Shape.ofFloat x = Shape.ofFloat y) : x = y := by
  refine Float.toBits_inj.1 ?_
  by_cases hNan : Shape.ofFloat x = .nan
  · have hPattern : x.toBits.toBitVec = y.toBits.toBitVec :=
      (toBitVec_of_nan hNan).trans (toBitVec_of_nan (h ▸ hNan)).symm
    exact UInt64.toBitVec_inj.1 hPattern
  · have hBits := bits_ofFloat hNan
    rw [h] at hBits hNan
    exact UInt64.toNat_inj.1 (hBits.symm.trans (bits_ofFloat hNan))

/-! ## Equality -/

/-- A zero of either sign. -/
def IsZero (x : Float) : Prop :=
  x.toBits.toNat % signBit = 0

instance (x : Float) : Decidable (IsZero x) :=
  inferInstanceAs (Decidable (_ = _))

/-- Two doubles are the same number: both are numbers, and they have the same bits or
are both zero. -/
structure Equal (x y : Float) : Prop where
  left : x.isNaN = false
  right : y.isNaN = false
  value : x.toBits = y.toBits ∨ (IsZero x ∧ IsZero y)

theorem isZero_iff (x : Float) :
    IsZero x ↔ ∃ negative, Shape.ofFloat x = .finite negative 0 leastExponent := by
  obtain ⟨n, k, m, hBits, hn, hk, hm⟩ := Shape.exists_fields (toBits_lt x)
  show x.toBits.toNat % signBit = 0 ↔ ∃ negative, Shape.ofBits x.toBits.toNat = _
  rw [Shape.ofBits_fields hBits hk hm, hBits]
  unfold signBit hiddenBit at *
  constructor
  · intro hZero
    have hk0 : k = 0 := by omega
    have hm0 : m = 0 := by omega
    subst hk0 hm0
    exact ⟨decide (1 ≤ n), rfl⟩
  · rintro ⟨negative, hShape⟩
    split at hShape
    · split at hShape <;> cases hShape
    · split at hShape
      · simp only [Shape.finite.injEq] at hShape
        omega
      · simp only [Shape.finite.injEq] at hShape
        omega

theorem compare_eq_iff (p q : Int) (m n : Nat) :
    (compare p q).then (compare m n) = .eq ↔ p = q ∧ m = n := by
  rw [Ordering.then_eq_eq, compare_eq_iff_eq, compare_eq_iff_eq]

/-- Of what was unpacked, numbers are equal if they are the same or both zero. -/
theorem beq_unpacked_iff (u v : UnpackedFloat) :
    u.beq v = true ↔ u ≠ .notANumber ∧ v ≠ .notANumber ∧
      (u = v ∨ (∃ s, u = .zero s) ∧ ∃ s, v = .zero s) := by
  unfold UnpackedFloat.beq
  rw [beq_iff_eq]
  cases u with
  | notANumber => simp [UnpackedFloat.compare]
  | infinity s =>
    cases v with
    | infinity s' => cases s <;> cases s' <;> simp [UnpackedFloat.compare, compare]
    | notANumber | zero s' | finite s' m' e' hm' => cases s <;> simp [UnpackedFloat.compare]
  | zero s =>
    cases v with
    | notANumber | zero s' => simp [UnpackedFloat.compare]
    | infinity s' | finite s' m' e' hm' => cases s' <;> simp [UnpackedFloat.compare]
  | finite s m e hm =>
    cases v with
    | notANumber => simp [UnpackedFloat.compare]
    | zero s' => cases s <;> simp [UnpackedFloat.compare]
    | infinity s' => cases s' <;> simp [UnpackedFloat.compare]
    | finite s' m' e' hm' =>
      have hThen := compare_eq_iff e e' m m'
      cases s <;> cases s' <;> simp [UnpackedFloat.compare, hThen, and_comm]

/-- **Comparing doubles.** Two doubles are found to be equal just if they are the same
number. -/
theorem beq_iff (x y : Float) : (x == y) = true ↔ Equal x y := by
  have hUnpack : (x == y) = x.toModel.unpack.beq y.toModel.unpack := rfl
  have hNaN : ∀ z : Float, (Shape.ofFloat z).unpacked ≠ .notANumber ↔ z.isNaN = false := by
    intro z
    have hModel : z.isNaN = z.toModel.unpack.isNaN := rfl
    rw [hModel, unpack_eq]
    cases (Shape.ofFloat z).unpacked <;> simp [isNaN]
  have hZero : ∀ z : Float, (∃ s, (Shape.ofFloat z).unpacked = .zero s) ↔ IsZero z := by
    intro z
    rw [isZero_iff, Shape.unpacked_eq_zero_iff (ofFloat_canonical z)]
  have hSame : (Shape.ofFloat x).unpacked = (Shape.ofFloat y).unpacked ↔ x.toBits = y.toBits := by
    rw [Float.toBits_inj]
    constructor
    · intro h
      refine ofFloat_inj ?_
      rw [← Shape.ofUnpacked_unpacked (ofFloat_canonical x), h,
        Shape.ofUnpacked_unpacked (ofFloat_canonical y)]
    · rintro rfl
      rfl
  rw [hUnpack, unpack_eq, unpack_eq, beq_unpacked_iff, hNaN, hNaN, hZero, hZero, hSame]
  exact ⟨fun ⟨hx, hy, hValue⟩ => ⟨hx, hy, hValue⟩, fun h => ⟨h.left, h.right, h.value⟩⟩

/-! A number is equal to itself, and equality is handed on through a third double. -/

theorem Equal.symm {x y : Float} (h : Equal x y) : Equal y x :=
  ⟨h.right, h.left, h.value.imp Eq.symm And.symm⟩

theorem Equal.trans {x y z : Float} (h : Equal x y) (h' : Equal y z) : Equal x z := by
  refine ⟨h.left, h'.right, ?_⟩
  rcases h.value with hBits | ⟨hx, hy⟩
  · have hSame : x = y := Float.toBits_inj.1 hBits
    rw [hSame]
    exact h'.value
  · rcases h'.value with hBits | ⟨-, hz⟩
    · have hSame : y = z := Float.toBits_inj.1 hBits
      exact Or.inr ⟨hx, hSame ▸ hy⟩
    · exact Or.inr ⟨hx, hz⟩

theorem equal_self_iff (x : Float) : Equal x x ↔ x.isNaN = false :=
  ⟨Equal.left, fun h => ⟨h, h, Or.inl rfl⟩⟩

/-- Without a sign there is one zero only, so doubles are equal if they are the same. -/
theorem Nonnegative.equal_iff {x y : Float} (hx : Nonnegative x) (hy : Nonnegative y) :
    Equal x y ↔ x = y := by
  constructor
  · intro h
    refine Float.toBits_inj.1 ?_
    rcases h.value with hBits | ⟨hZero, hZero'⟩
    · exact hBits
    · have hSign := hx.sign
      have hSign' := hy.sign
      unfold IsZero at hZero hZero'
      rw [Nat.mod_eq_of_lt hSign] at hZero
      rw [Nat.mod_eq_of_lt hSign'] at hZero'
      exact UInt64.toNat_inj.1 (hZero.trans hZero'.symm)
  · rintro rfl
    exact (equal_self_iff x).2 hx.isNaN

end Reckon.Number
