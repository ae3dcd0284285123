import Reckon.Text.Blank
import Reckon.Text.Extender
import Reckon.Text.Unassigned

/-!
# Reckon — characters that show

A quoted text writes a character as itself only if it shows on its own. Four
kinds of code points do not: those that draw nothing (controls, format
characters, separators other than the blank, private use), letters that only
hold the place of a missing one, marks that are drawn onto the character before
them, and those that are not assigned to a character.
-/

namespace Reckon.Text

/-- Code points that draw nothing: the general categories Cc, Cf, Co, Zl, Zp
and Zs, the blank U+0020 apart. -/
def emptyRanges : List (Nat × Nat) :=
  [(0x0, 0x1F), (0x7F, 0xA0), (0xAD, 0xAD), (0x600, 0x605), (0x61C, 0x61C), (0x6DD, 0x6DD),
   (0x70F, 0x70F), (0x890, 0x891), (0x8E2, 0x8E2), (0x1680, 0x1680), (0x180E, 0x180E),
   (0x2000, 0x200F), (0x2028, 0x202F), (0x205F, 0x2064), (0x2066, 0x206F), (0x3000, 0x3000),
   (0xE000, 0xF8FF), (0xFEFF, 0xFEFF), (0xFFF9, 0xFFFB), (0x110BD, 0x110BD),
   (0x110CD, 0x110CD), (0x13430, 0x1343F), (0x1BCA0, 0x1BCA3), (0x1D173, 0x1D17A),
   (0xE0001, 0xE0001), (0xE0020, 0xE007F), (0xF0000, 0xFFFFD), (0x100000, 0x10FFFD)]

/-- Letters that hold the place of a missing one: those that are ignorable by
default. -/
def fillerRanges : List (Nat × Nat) :=
  [(0x115F, 0x1160), (0x3164, 0x3164), (0xFFA0, 0xFFA0)]

/-- Extenders that are letters: the two halfwidth sound marks. They have a
width of their own, so they show. -/
def wideExtenders : List (Nat × Nat) :=
  [(0xFF9E, 0xFF9F)]

/-- Whether a code point is drawn onto the character before it. -/
def isMark (n : Nat) : Bool :=
  (inRanges extendersBasic n || inRanges extendersSupplementary n) && !inRanges wideExtenders n

/-- Whether a code point is assigned to no character. -/
def isUnassigned (n : Nat) : Bool :=
  inRanges unassignedBasic n || inRanges unassignedSupplementary n

/-- Whether a character shows on its own. -/
def isVisible (c : Char) : Bool :=
  let n := c.toNat
  if n < 0x7F then decide (0x20 ≤ n)
  else !(inRanges emptyRanges n || inRanges fillerRanges n || isMark n || isUnassigned n)

end Reckon.Text
