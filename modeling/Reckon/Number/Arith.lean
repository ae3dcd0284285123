import Reckon.Number.Parts

/-!
# Reckon — arithmetic on doubles

The operations on doubles that are exact and not built in: the remainder, and
rounding to a whole number. Both work on significands and exponents, so that
nothing is lost on the way.
-/

namespace Reckon.Number

/-- The remainder of the division of `x` by `y` with the quotient cut towards
zero. It is exact, has the sign of `x`, and is not a number if there is no
quotient. -/
def remainder (x y : Float) : Float :=
  match Shape.ofFloat x, Shape.ofFloat y with
  | .nan, _ | _, .nan | .infinite _, _ => 0 / 0
  | _, .infinite _ => x
  | .finite negative m p, .finite _ n q =>
    if n = 0 then 0 / 0
    else
      let least := min p q
      let rest := (m <<< (p - least).toNat) % (n <<< (q - least).toNat)
      compose negative rest least

/-- The nearest whole number; a half goes to the even neighbour, and zero keeps
the sign of `x`. -/
def roundHalfEven (x : Float) : Float :=
  match Shape.ofFloat x with
  | .finite negative m p =>
    if 0 ≤ p then x
    else compose negative (roundDiv m (1 <<< (-p).toNat)) 0
  | _ => x

/-- The smaller of two numbers, or the one that is a number. -/
def least (x y : Float) : Float :=
  if x.isNaN then y else if y.isNaN then x else if y < x then y else x

/-- The larger of two numbers, or the one that is a number. -/
def greatest (x y : Float) : Float :=
  if x.isNaN then y else if y.isNaN then x else if x < y then y else x

/-- One with the sign of `x`; zero and not-a-number stay what they are. -/
def signOf (x : Float) : Float :=
  if 0 < x then 1 else if x < 0 then -1 else x * 0

/-- The nearest point of an interval. The lower bound wins if the bounds are
the wrong way round. -/
def clamp (x low high : Float) : Float :=
  if x < low then low else if high < x then high else x

end Reckon.Number
