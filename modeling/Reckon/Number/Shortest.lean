import Reckon.Number.Parts

/-!
# Reckon — shortest decimals

A double is written with the fewest digits that read back as the same double.
The reals that read back as a given double form an interval around it, which
belongs to the double up to its two ends if the significand is even. Of the
decimal grids with 1, 2, … 17 digits the first with a point in that interval
is taken, and on it the point nearest to the double; a tie goes up.

All comparisons are made on natural numbers: the interval is held in multiples
of a common unit fraction.
-/

namespace Reckon.Number

/-- The decimal `coefficient * 10 ^ exponent`. -/
structure Decimal where
  coefficient : Nat
  exponent : Int
deriving DecidableEq, Repr

/-- The reals between `low` and `high` around `value`, all three in units of
`1 / unit`. The two ends belong to it if it is `closed`. -/
structure Interval where
  low : Nat
  value : Nat
  high : Nat
  unit : Nat
  closed : Bool
deriving DecidableEq, Repr

namespace Interval

/-- The reals that read back as the double `significand * 2 ^ exponent`. Its
neighbours are one unit of the last place away, except that the one below a
power of two is half as far. -/
def around (significand : Nat) (exponent : Int) : Interval :=
  let up := exponent.toNat
  let down := (-exponent).toNat
  let narrow := decide (significand = hiddenBit) && decide (leastExponent < exponent)
  { low := (4 * significand - (if narrow then 1 else 2)) <<< up
    value := (4 * significand) <<< up
    high := (4 * significand + 2) <<< up
    unit := 4 <<< down
    closed := significand % 2 == 0 }

/-- The interval divided by `10 ^ k`: the points of the grid of step `10 ^ k`
become the whole numbers. -/
def onGrid (i : Interval) (k : Int) : Interval :=
  let down := Nat.pow 10 k.toNat
  let up := Nat.pow 10 (-k).toNat
  { i with low := i.low * up, value := i.value * up, high := i.high * up, unit := i.unit * down }

/-- Whether a whole number lies in the interval. -/
def contains (i : Interval) (n : Nat) : Bool :=
  let x := n * i.unit
  if i.closed then decide (i.low ≤ x) && decide (x ≤ i.high)
  else decide (i.low < x) && decide (x < i.high)

/-- The whole number of the interval that is nearest to its value, out of the
two around the value; a tie goes up. -/
def nearest? (i : Interval) : Option Nat :=
  let n := i.value / i.unit
  match i.contains n, i.contains (n + 1) with
  | true, true => some (if 2 * (i.value - n * i.unit) < i.unit then n else n + 1)
  | true, false => some n
  | false, true => some (n + 1)
  | false, false => none

/-- The number of digits before the decimal point: the value lies between
`10 ^ (p - 1)`, included, and `10 ^ p`. It is zero or negative for a value
below one. -/
def wholeDigits (i : Interval) : Int :=
  let guess : Int := (Nat.repr i.value).length - (Nat.repr i.unit).length
  let grid := i.onGrid guess
  if grid.unit ≤ grid.value then guess + 1 else guess

end Interval

/-- The most digits that a double needs. -/
def maxDigits : Nat := 17

/-- The decimal `significand * 2 ^ exponent` with all its digits. -/
def exactDecimal (significand : Nat) (exponent : Int) : Decimal :=
  ⟨(significand * Nat.pow 5 (-exponent).toNat) <<< exponent.toNat, min exponent 0⟩

/-- The shortest decimal that reads back as `significand * 2 ^ exponent`. Only
a single digit can round up to ten, so one trailing zero is all there can be.
If no grid had a point in the interval, the decimal would be exact; the last
grid always has one. -/
def shortest (significand : Nat) (exponent : Int) : Decimal :=
  let interval := Interval.around significand exponent
  let whole := interval.wholeDigits
  let candidate (digits : Nat) : Option Decimal :=
    let k := whole - (digits + 1 : Nat)
    (interval.onGrid k).nearest?.map fun n =>
      if n = 10 then ⟨1, k + 1⟩ else ⟨n, k⟩
  ((List.range maxDigits).findSome? candidate).getD (exactDecimal significand exponent)

end Reckon.Number
