/-!
# Reckon — columns

Listings are set in columns. A column only ever widens a text: one that is
longer than its column is written in full.
-/

namespace Reckon.Text

/-- The text followed by as many blanks as it takes to fill the column. -/
def leftColumn (width : Nat) (text : String) : String :=
  text ++ String.ofList (List.replicate (width - text.length) ' ')

/-- The number preceded by as many copies of `fill` as it takes to fill the
column. -/
def rightColumn (fill : Char) (width : Nat) (n : Nat) : String :=
  let digits := Nat.repr n
  String.ofList (List.replicate (width - digits.length) fill) ++ digits

end Reckon.Text
