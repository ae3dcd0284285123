import Reckon.Number.Shortest

/-!
# Reckon — the text of a number

Numbers are written with their shortest digits. Two styles differ in what they
do around the digits: values are written out in full and bare, the entries of a
scope keep a fractional part and turn to scientific notation for the very large
and the very small.
-/

namespace Reckon.Number

/-- The decisions of a number format that do not concern the digits. -/
structure Style where
  /-- Follows a whole number. -/
  wholeEnd : String
  /-- Bounds on the number of digits before the point between which a number
  is written out; without bounds it always is. -/
  writtenOut : Option (Int × Int)

/-- Values: written out in full, whole numbers bare. -/
def Style.plain : Style := ⟨"", none⟩

/-- Entries: whole numbers end in `.0`, and what is below `10 ^ -4` or from
`10 ^ 16` on is scientific. -/
def Style.entry : Style := ⟨".0", some (-3, 16)⟩

/-- Digits with the point placed after the first `whole` of them; zeros fill
up on either side. -/
def Style.positional (style : Style) (digits : List Char) (whole : Int) : String :=
  if whole ≤ 0 then
    String.ofList ('0' :: '.' :: (List.replicate (-whole).toNat '0' ++ digits))
  else if digits.length ≤ whole.toNat then
    String.ofList (digits ++ List.replicate (whole.toNat - digits.length) '0') ++ style.wholeEnd
  else
    String.ofList (digits.take whole.toNat ++ '.' :: digits.drop whole.toNat)

/-- Digits with the point after the first of them, and a power of ten. -/
def scientific (digits : List Char) (whole : Int) : String :=
  let fraction := digits.drop 1
  let mantissa := if fraction.isEmpty then digits else digits.take 1 ++ '.' :: fraction
  String.ofList mantissa ++ "e" ++ toString (whole - 1)

/-- The text of a decimal other than zero. -/
def Style.decimal (style : Style) (d : Decimal) : String :=
  let digits := Nat.toDigits 10 d.coefficient
  let whole := digits.length + d.exponent
  match style.writtenOut with
  | some (least, greatest) =>
    if least ≤ whole ∧ whole ≤ greatest then style.positional digits whole
    else scientific digits whole
  | none => style.positional digits whole

/-- The text of a double. -/
def Style.format (style : Style) (x : Float) : String :=
  let signed (negative : Bool) (text : String) := if negative then "-" ++ text else text
  match Shape.ofFloat x with
  | .nan => "NaN"
  | .infinite negative => signed negative "inf"
  | .finite negative significand exponent =>
    if significand = 0 then signed negative ("0" ++ style.wholeEnd)
    else signed negative (style.decimal (shortest significand exponent))

/-- The text of a value. -/
def text (x : Float) : String :=
  Style.plain.format x

/-- The text of a value in the entries of a scope. -/
def entryText (x : Float) : String :=
  Style.entry.format x

end Reckon.Number
