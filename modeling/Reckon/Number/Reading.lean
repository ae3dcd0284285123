import Reckon.Number.Shortest

/-!
# Reckon — reading numbers

A number is an optional sign followed by one of the words for infinity and not
a number, in any case, or by a decimal: digits with at most one point among or
around them and at least one digit in all, and an optional power of ten. The
decimal is rounded to the nearest double, a tie to the even significand.
-/

namespace Reckon.Number

/-- Why a text is no number. -/
inductive ReadError where
  | empty
  | invalid
deriving DecidableEq, Repr

/-- The text of the error. -/
def ReadError.message : ReadError → String
  | .empty => "cannot parse float from empty string"
  | .invalid => "invalid float literal"

/-- The value of a decimal digit. -/
def digitValue (c : Char) : Nat :=
  c.toNat - '0'.toNat

/-- The number written by decimal digits, continuing after `n`. -/
def ofDigits (n : Nat) (digits : List Char) : Nat :=
  digits.foldl (fun m c => 10 * m + digitValue c) n

/-- Splits a leading sign off; true stands for minus. -/
def splitSign : List Char → Bool × List Char
  | '-' :: rest => (true, rest)
  | '+' :: rest => (false, rest)
  | chars => (false, chars)

/-- The power of ten behind the digits: nothing, or the letter, an optional
sign and at least one digit. -/
def readPower : List Char → Option Int
  | [] => some 0
  | c :: rest =>
    if c = 'e' ∨ c = 'E' then
      let (negative, digits) := splitSign rest
      if digits ≠ [] ∧ digits.all Char.isDigit then
        let n : Int := ofDigits 0 digits
        some (if negative then -n else n)
      else none
    else none

/-- Reads digits, an optional point with digits after it, and an optional
power of ten. -/
def readDecimal (chars : List Char) : Option Decimal :=
  let whole := chars.takeWhile Char.isDigit
  let rest := chars.dropWhile Char.isDigit
  let (fraction, rest) := match rest with
    | '.' :: rest => (rest.takeWhile Char.isDigit, rest.dropWhile Char.isDigit)
    | rest => ([], rest)
  if whole.isEmpty && fraction.isEmpty then none
  else (readPower rest).map fun power =>
    ⟨ofDigits (ofDigits 0 whole) fraction, power - fraction.length⟩

/-- Decimals with more digits than this before the point overflow, and those
with as many zeros after it vanish. -/
def decimalRange : Int := 400

/-- The double nearest to a decimal, negated if `negative`. The two tests on
the number of digits only keep the powers of ten small. -/
def Decimal.toLiteral (negative : Bool) (d : Decimal) : Literal :=
  let whole := (Nat.repr d.coefficient).length + d.exponent
  if d.coefficient = 0 ∨ whole < -decimalRange then nearest negative 0 1
  else if decimalRange < whole then ofMagnitude negative infinityBits
  else
    nearest negative (d.coefficient * Nat.pow 10 d.exponent.toNat) (Nat.pow 10 (-d.exponent).toNat)

/-- The word for infinity or not a number, in any case. -/
def readWord (negative : Bool) (chars : List Char) : Option Literal :=
  let word := String.ofList (chars.map Char.toLower)
  if word = "inf" ∨ word = "infinity" then some (ofMagnitude negative infinityBits)
  else if word = "nan" then some (ofMagnitude negative nanBits)
  else none

/-- Reads a number. -/
def read (text : String) : Except ReadError Literal :=
  if text.isEmpty then .error .empty
  else
    let (negative, chars) := splitSign text.toList
    match (readDecimal chars).map (Decimal.toLiteral negative) <|> readWord negative chars with
    | some l => .ok l
    | none => .error .invalid

end Reckon.Number
