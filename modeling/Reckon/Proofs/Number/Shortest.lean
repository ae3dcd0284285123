import Mathlib
import Reckon.Number.Shortest
import Reckon.Proofs.Number.Shape

/-!
# Reckon — decimals that belong to one double

The decimal that a double is written as need not be the double, it only has to lie in
the interval around it. That it stands for no other double is seen on the rationals:

* `Number.Interval.Holds` — a rational lies in an interval. Scaling an interval to a
  decimal grid scales the rationals in it (`Number.Interval.contains_onGrid`);
* `Number.Interval.holds_around` — the interval around a double, in units of its last
  place. It reaches down by half a unit, or by a quarter where doubles get denser;
* `Number.Interval.eq_of_holds_around` — a rational lies in one such interval at most.
  The interval of a double ends where that of the next one starts, but one of the two
  significands is odd and the point where they meet is missing from its interval;
* `Number.holds_shortest` — the shortest decimal lies in the interval, on whichever
  grid it was found.
-/

namespace Reckon.Number

/-- The rational that a decimal stands for. -/
def Decimal.value (d : Decimal) : ℚ :=
  d.coefficient * 10 ^ d.exponent

/-- A power with a whole exponent is a quotient of powers, one of which is one. -/
theorem zpow_mul_toNat {b : ℚ} (hb : b ≠ 0) (k : ℤ) : b ^ k * b ^ (-k).toNat = b ^ k.toNat := by
  rw [← zpow_natCast, ← zpow_natCast, ← zpow_add₀ hb]
  congr 1
  omega

namespace Interval

/-- A rational lies in an interval. -/
def Holds (i : Interval) (q : ℚ) : Prop :=
  if i.closed then i.low ≤ q * i.unit ∧ q * i.unit ≤ i.high
  else i.low < q * i.unit ∧ q * i.unit < i.high

/-! ## Grids -/

/-- The whole numbers in an interval that is scaled to a grid are the points of the
grid in the interval. -/
theorem contains_onGrid (i : Interval) (k : ℤ) (n : ℕ) :
    (i.onGrid k).contains n = true ↔ i.Holds (n * 10 ^ k) := by
  have hPos : (0 : ℚ) < 10 ^ (-k).toNat := by positivity
  have hScale : ((n * (i.unit * 10 ^ k.toNat) : ℕ) : ℚ) =
      n * 10 ^ k * i.unit * 10 ^ (-k).toNat := by
    push_cast
    rw [← zpow_mul_toNat (by norm_num) k]
    ring
  have hEnd : ∀ a : ℕ, ((a * 10 ^ (-k).toNat : ℕ) : ℚ) = a * 10 ^ (-k).toNat := by
    intro a
    push_cast
    ring
  unfold contains onGrid Holds
  simp only [Nat.pow_eq]
  -- both ends and the point are scaled by the same power of ten, which cancels
  split <;> rw [Bool.and_eq_true, decide_eq_true_eq, decide_eq_true_eq]
  · rw [← Nat.cast_le (α := ℚ), ← Nat.cast_le (α := ℚ), hScale, hEnd, hEnd,
      mul_le_mul_iff_left₀ hPos, mul_le_mul_iff_left₀ hPos]
  · rw [← Nat.cast_lt (α := ℚ), ← Nat.cast_lt (α := ℚ), hScale, hEnd, hEnd,
      mul_lt_mul_iff_left₀ hPos, mul_lt_mul_iff_left₀ hPos]

theorem contains_of_nearest? {i : Interval} {n : ℕ} (h : i.nearest? = some n) :
    i.contains n = true := by
  simp only [nearest?] at h
  split at h
  · rename_i hBelow hAbove
    obtain rfl := Option.some.inj h
    split
    · exact hBelow
    · exact hAbove
  · rename_i hBelow _
    obtain rfl := Option.some.inj h
    exact hBelow
  · rename_i _ hAbove
    obtain rfl := Option.some.inj h
    exact hAbove
  · cases h

/-! ## Ends -/

/-- How far the interval around a double reaches down, in quarters of a unit of the
last place. -/
def reach (significand : ℕ) (exponent : ℤ) : ℕ :=
  if significand = hiddenBit ∧ leastExponent < exponent then 1 else 2

theorem reach_le (m : ℕ) (e : ℤ) : reach m e ≤ 2 := by
  unfold reach
  split <;> omega

section Around

variable {m m' : ℕ} {e e' : ℤ} {q : ℚ}

/-- The interval around a double, with both ends in quarters of a unit of the last
place. -/
theorem holds_around (hm : m ≠ 0) :
    (around m e).Holds q ↔
      if m % 2 = 0 then (4 * m - reach m e) * (2 : ℚ) ^ e ≤ 4 * q ∧ 4 * q ≤ (4 * m + 2) * 2 ^ e
      else (4 * m - reach m e) * (2 : ℚ) ^ e < 4 * q ∧ 4 * q < (4 * m + 2) * 2 ^ e := by
  have hPos : (0 : ℚ) < 2 ^ (-e).toNat := by positivity
  have hReach : (if (decide (m = hiddenBit) && decide (leastExponent < e)) = true then 1 else 2) =
      reach m e := by
    simp [reach]
  have hLow : (((4 * m - reach m e) <<< e.toNat : ℕ) : ℚ) =
      (4 * m - reach m e) * 2 ^ e * 2 ^ (-e).toNat := by
    have := reach_le m e
    rw [Nat.shiftLeft_eq, Nat.cast_mul, Nat.cast_sub (by omega), mul_assoc,
      zpow_mul_toNat (by norm_num)]
    push_cast
    ring
  have hHigh : (((4 * m + 2) <<< e.toNat : ℕ) : ℚ) = (4 * m + 2) * 2 ^ e * 2 ^ (-e).toNat := by
    rw [Nat.shiftLeft_eq, Nat.cast_mul, mul_assoc, zpow_mul_toNat (by norm_num)]
    push_cast
    ring
  have hPoint : q * ((4 <<< (-e).toNat : ℕ) : ℚ) = 4 * q * 2 ^ (-e).toNat := by
    rw [Nat.shiftLeft_eq]
    push_cast
    ring
  -- what is left in front of both ends and the point is the same power of two
  unfold Holds around
  simp only [hReach, hLow, hHigh, hPoint, beq_iff_eq]
  rw [mul_le_mul_iff_left₀ hPos, mul_le_mul_iff_left₀ hPos, mul_lt_mul_iff_left₀ hPos,
    mul_lt_mul_iff_left₀ hPos]

theorem le_of_holds_around (hm : m ≠ 0) (h : (around m e).Holds q) :
    (4 * m - reach m e) * (2 : ℚ) ^ e ≤ 4 * q ∧ 4 * q ≤ (4 * m + 2) * 2 ^ e := by
  rw [holds_around hm] at h
  split at h
  · exact h
  · exact ⟨h.1.le, h.2.le⟩

theorem lt_of_holds_around (hm : m ≠ 0) (hOdd : m % 2 = 1) (h : (around m e).Holds q) :
    (4 * m - reach m e) * (2 : ℚ) ^ e < 4 * q ∧ 4 * q < (4 * m + 2) * 2 ^ e := by
  rwa [holds_around hm, if_neg (by omega)] at h

/-- All of the interval around a double other than zero is above zero. -/
theorem pos_of_holds_around (hm : m ≠ 0) (h : (around m e).Holds q) : 0 < q := by
  have hPos : (0 : ℚ) < 2 ^ e := by positivity
  have hReach : (reach m e : ℚ) ≤ 2 := by exact_mod_cast reach_le m e
  have hOne : (1 : ℚ) ≤ m := by exact_mod_cast Nat.one_le_iff_ne_zero.2 hm
  have hLow : 0 < (4 * m - reach m e) * (2 : ℚ) ^ e := mul_pos (by linarith) hPos
  linarith [(le_of_holds_around hm h).1]

/-- A double lies in the interval around it. -/
theorem holds_around_self (hm : m ≠ 0) : (around m e).Holds (m * 2 ^ e) := by
  have hPos : (0 : ℚ) < 2 ^ e := by positivity
  have hReach : (0 : ℚ) < reach m e := by
    unfold reach
    split <;> norm_num
  have hLow : (4 * m - reach m e) * (2 : ℚ) ^ e < 4 * (m * 2 ^ e) := by nlinarith
  have hHigh : 4 * (m * 2 ^ e) < (4 * m + 2) * (2 : ℚ) ^ e := by nlinarith
  rw [holds_around hm]
  split
  · exact ⟨hLow.le, hHigh.le⟩
  · exact ⟨hLow, hHigh⟩

/-! ## Intervals of different doubles -/

/-- Nothing lies in the intervals around two doubles with the same exponent. -/
theorem apart_of_lt (hm : m ≠ 0) (hLt : m < m') (h : (around m e).Holds q)
    (h' : (around m' e).Holds q) : False := by
  have hPos : (0 : ℚ) < 2 ^ e := by positivity
  have hm' : m' ≠ 0 := by omega
  have hReach := reach_le m' e
  have hEnds : 4 * m' ≤ 4 * m + 2 + reach m' e := by
    have hScaled := (le_of_holds_around hm' h').1.trans (le_of_holds_around hm h).2
    have hEnds := le_of_mul_le_mul_right hScaled hPos
    exact_mod_cast sub_le_iff_le_add.1 hEnds
  -- the two are next to each other, so the end where they meet is missing from one of them
  have hStrict : 4 * m' < 4 * m + 2 + reach m' e := by
    have hScaled : (4 * m' - reach m' e) * (2 : ℚ) ^ e < (4 * m + 2) * 2 ^ e := by
      rcases Nat.mod_two_eq_zero_or_one m with hEven | hOdd
      · have hOdd' : m' % 2 = 1 := by omega
        exact (lt_of_holds_around hm' hOdd' h').1.trans_le (le_of_holds_around hm h).2
      · exact (le_of_holds_around hm' h').1.trans_lt (lt_of_holds_around hm hOdd h).2
    have hEnds := lt_of_mul_lt_mul_right hScaled hPos.le
    exact_mod_cast sub_lt_iff_lt_add.1 hEnds
  omega

/-- Nothing lies in the intervals around two doubles of which the greater one has the
greater exponent. -/
theorem apart_of_exponent_lt (hm : m ≠ 0) (hBelow : m < 2 * hiddenBit) (hAbove : hiddenBit ≤ m')
    (hLeast : leastExponent ≤ e) (hLt : e < e') (h : (around m e).Holds q)
    (h' : (around m' e').Holds q) : False := by
  have hPos : (0 : ℚ) < 2 ^ e := by positivity
  have hHidden : 0 < hiddenBit := by decide
  have hm' : m' ≠ 0 := by omega
  -- the unit of the last place is at least twice as large
  have hUnit : 2 * (2 : ℚ) ^ e ≤ 2 ^ e' := by
    calc 2 * (2 : ℚ) ^ e = 2 ^ (e + 1) := by rw [zpow_add_one₀ (by norm_num)]; ring
      _ ≤ 2 ^ e' := zpow_le_zpow_right₀ (by norm_num) (by omega)
  have hLow : 4 * hiddenBit - 1 ≤ 4 * m' - reach m' e' := by
    unfold reach
    split
    · omega
    · rename_i hWide
      have : m' ≠ hiddenBit := fun hEq => hWide ⟨hEq, by omega⟩
      omega
  have hReach := reach_le m' e'
  have hLow' : (4 * hiddenBit - 1) * (2 * (2 : ℚ) ^ e) ≤ (4 * m' - reach m' e') * 2 ^ e' := by
    have hCast : (4 * hiddenBit - 1 : ℚ) ≤ 4 * m' - reach m' e' := by
      have : 4 * hiddenBit + reach m' e' ≤ 4 * m' + 1 := by omega
      have : (4 * hiddenBit + reach m' e' : ℚ) ≤ 4 * m' + 1 := by exact_mod_cast this
      linarith
    have hNonneg : (0 : ℚ) ≤ 4 * hiddenBit - 1 := by
      have : (1 : ℚ) ≤ hiddenBit := by exact_mod_cast hHidden
      linarith
    exact mul_le_mul hCast hUnit (by positivity) (hNonneg.trans hCast)
  have hPoint := hLow'.trans (le_of_holds_around hm' h').1
  rcases Nat.lt_or_ge (m + 1) (2 * hiddenBit) with hLess | hLast
  · -- the interval ends before that of the last significand
    have hCast : (m + 2 : ℚ) ≤ 2 * hiddenBit := by exact_mod_cast hLess
    have hHigh : (4 * m + 2) * (2 : ℚ) ^ e < (4 * hiddenBit - 1) * (2 * 2 ^ e) := by
      calc (4 * m + 2) * (2 : ℚ) ^ e < (8 * hiddenBit - 2) * 2 ^ e :=
            mul_lt_mul_of_pos_right (by linarith) hPos
        _ = (4 * hiddenBit - 1) * (2 * 2 ^ e) := by ring
    exact absurd (hPoint.trans (le_of_holds_around hm h).2) hHigh.not_ge
  · -- the last significand is odd, so its interval has no ends
    have hLastEq : m + 1 = 2 * hiddenBit := by omega
    have hCast : (m : ℚ) = 2 * hiddenBit - 1 := eq_sub_of_add_eq (by exact_mod_cast hLastEq)
    have hHigh : (4 * m + 2) * (2 : ℚ) ^ e = (4 * hiddenBit - 1) * (2 * 2 ^ e) := by
      rw [hCast]
      ring
    have hOpen := (lt_of_holds_around hm (by omega) h).2
    rw [hHigh] at hOpen
    exact absurd hPoint hOpen.not_ge

/-- A rational lies in the interval around one double at most. -/
theorem eq_of_holds_around {negative negative' : Bool} (hm : m ≠ 0) (hm' : m' ≠ 0)
    (hc : (Shape.finite negative m e).Canonical) (hc' : (Shape.finite negative' m' e').Canonical)
    (h : (around m e).Holds q) (h' : (around m' e').Holds q) : m = m' ∧ e = e' := by
  obtain ⟨hBelow, hLeast, hHidden⟩ := hc
  obtain ⟨hBelow', hLeast', hHidden'⟩ := hc'
  rcases lt_trichotomy e e' with hLt | rfl | hLt
  · exact (apart_of_exponent_lt hm hBelow (hHidden'.resolve_left (by omega)) hLeast hLt h h').elim
  · rcases lt_trichotomy m m' with hLt | rfl | hLt
    · exact (apart_of_lt hm hLt h h').elim
    · exact ⟨rfl, rfl⟩
    · exact (apart_of_lt hm' hLt h' h).elim
  · exact (apart_of_exponent_lt hm' hBelow' (hHidden.resolve_left (by omega)) hLeast' hLt h' h).elim

end Around

end Interval

/-! ## The shortest decimal -/

theorem exactDecimal_value (m : ℕ) (e : ℤ) : (exactDecimal m e).value = m * 2 ^ e := by
  have hExponent : min e 0 = -((-e).toNat : ℤ) := by omega
  have hPower : ((10 : ℚ) ^ (-e).toNat) = 5 ^ (-e).toNat * 2 ^ (-e).toNat := by
    rw [← mul_pow]
    norm_num
  unfold Decimal.value exactDecimal
  simp only [Nat.pow_eq, Nat.shiftLeft_eq]
  rw [hExponent, zpow_neg, zpow_natCast, hPower, Nat.cast_mul, Nat.cast_pow, Nat.cast_ofNat,
    ← zpow_mul_toNat (by norm_num) e]
  push_cast
  field_simp

/-- The shortest decimal of a double lies in the interval around it. -/
theorem holds_shortest {m : ℕ} (hm : m ≠ 0) (e : ℤ) :
    (Interval.around m e).Holds (shortest m e).value := by
  unfold shortest
  extract_lets interval whole candidate
  cases hFound : (List.range maxDigits).findSome? candidate with
  | none =>
    rw [Option.getD_none, exactDecimal_value]
    exact Interval.holds_around_self hm
  | some d =>
    rw [Option.getD_some]
    obtain ⟨digits, -, hCandidate⟩ := List.exists_of_findSome?_eq_some hFound
    obtain ⟨n, hNearest, hDecimal⟩ := Option.map_eq_some_iff.1 hCandidate
    have hHolds := (Interval.contains_onGrid ..).1 (Interval.contains_of_nearest? hNearest)
    -- a ten is written as a one on the next grid, which is the same point
    have hValue : d.value = n * 10 ^ (whole - (digits + 1 : ℕ)) := by
      rw [← hDecimal]
      split
      · rename_i hTen
        simp only [Decimal.value]
        rw [hTen, zpow_add_one₀ (by norm_num)]
        push_cast
        ring
      · rfl
    rw [hValue]
    exact hHolds

end Reckon.Number
