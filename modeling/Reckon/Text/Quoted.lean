import Reckon.Text.Visible

/-!
# Reckon — quoted text

A quoted text stands between double quotes. The quote, the backslash and five
control characters have short escapes; every other character that would not
show on its own is written as its code point in braces.
-/

namespace Reckon.Text

/-- The lower-case hexadecimal digits of a number, without leading zeros. -/
def hexDigits (n : Nat) : List Char :=
  Nat.toDigits 16 n

/-- How one character is written between double quotes. -/
def escape (c : Char) : List Char :=
  if c = '"' then ['\\', '"']
  else if c = '\\' then ['\\', '\\']
  else if c = '\n' then ['\\', 'n']
  else if c = '\r' then ['\\', 'r']
  else if c = '\t' then ['\\', 't']
  else if c.toNat = 0 then ['\\', '0']
  else if isVisible c then [c]
  else '\\' :: 'u' :: '\x7b' :: (hexDigits c.toNat ++ ['\x7d'])

/-- Writes a text in double quotes in front of `rest`. -/
def quoteOnto (text : String) (rest : List Char) : List Char :=
  '"' :: (text.toList.flatMap escape ++ '"' :: rest)

/-- The text in double quotes. -/
def quoted (text : String) : String :=
  String.ofList (quoteOnto text [])

end Reckon.Text
