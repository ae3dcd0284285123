/-!
# Reckon — the parts of a double

A double is not a number, an infinity, or a whole significand times a power of
two. `Shape.ofFloat` reads which one off the bit pattern, and `nearest` goes
the other way, from a fraction to the double next to it. Everything exact about
doubles can so be said with natural numbers.

A literal is a bit pattern itself. Not-a-number has many of them, which are so
many literals and the one value.
-/

namespace Reckon

/-- A number as it is written down: the bit pattern of a double. -/
@[ext]
structure Literal where
  bits : UInt64
deriving DecidableEq, Hashable

namespace Literal

/-- The double of a literal. -/
def value (l : Literal) : Float :=
  Float.ofBits l.bits

/-- The literal of a double. -/
def ofFloat (x : Float) : Literal :=
  ⟨x.toBits⟩

end Literal

namespace Number

/-- What a double stands for. A finite one is
`significand * 2 ^ exponent`, negated if `negative`; zero has a sign too. -/
inductive Shape where
  | nan
  | infinite (negative : Bool)
  | finite (negative : Bool) (significand : Nat) (exponent : Int)
deriving DecidableEq, Repr

/-- Significands of normal doubles start at this bit, the 52nd power of two. -/
def hiddenBit : Nat := 0x10000000000000

/-- The exponent of the smallest doubles. -/
def leastExponent : Int := -1074

/-- Reads sign, exponent field and fraction field of a bit pattern. -/
def Shape.ofBits (bits : Nat) : Shape :=
  let negative := decide (1 ≤ bits >>> 63)
  let field := (bits >>> 52) % 2048
  let fraction := bits % hiddenBit
  if field = 2047 then
    if fraction = 0 then .infinite negative else .nan
  else if field = 0 then .finite negative fraction leastExponent
  else .finite negative (hiddenBit + fraction) ((field : Int) - 1075)

/-- What a double stands for. -/
def Shape.ofFloat (x : Float) : Shape :=
  .ofBits x.toBits.toNat

/-! ## From fractions to doubles -/

/-- The whole number nearest to `num / den`; a half goes to the even one. -/
def roundDiv (num den : Nat) : Nat :=
  let whole := num / den
  let double := 2 * (num % den)
  if den < double ∨ (double = den ∧ whole % 2 = 1) then whole + 1 else whole

/-- The greatest `e` such that `2 ^ e` is at most `num / den`. -/
def magnitude (num den : Nat) : Int :=
  let e : Int := num.log2 - den.log2
  if (num <<< (-e).toNat) < (den <<< e.toNat) then e - 1 else e

/-- The bit pattern of infinity. -/
def infinityBits : Nat := 0x7FF0000000000000

/-- The bit pattern that is read as not a number. -/
def nanBits : Nat := 0x7FF8000000000000

/-- The bit that makes a double negative. -/
def signBit : Nat := 0x8000000000000000

/-- The bit pattern of the double nearest to `num / den`; of two, the one with
the even significand. The patterns of positive doubles are ordered as the
doubles are, so a significand that rounds up to the next power of two carries
into the exponent field, and what goes beyond the last double is infinity. -/
def nearestBits (num den : Nat) : Nat :=
  if num = 0 then 0
  else
    let exponent := max (magnitude num den - 52) leastExponent
    let significand := roundDiv (num <<< (-exponent).toNat) (den <<< exponent.toNat)
    min ((exponent - leastExponent).toNat * hiddenBit + significand) infinityBits

/-- A bit pattern without a sign, and the sign. -/
def ofMagnitude (negative : Bool) (bits : Nat) : Literal :=
  ⟨UInt64.ofNat (if negative then signBit + bits else bits)⟩

/-- The double nearest to `num / den`, negated if `negative`. -/
def nearest (negative : Bool) (num den : Nat) : Literal :=
  ofMagnitude negative (nearestBits num den)

/-- The double `significand * 2 ^ exponent`, negated if `negative`. -/
def compose (negative : Bool) (significand : Nat) (exponent : Int) : Float :=
  (nearest negative (significand <<< exponent.toNat) (1 <<< (-exponent).toNat)).value

end Number

end Reckon
