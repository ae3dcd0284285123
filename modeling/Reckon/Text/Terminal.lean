/-!
# Reckon — terminal text

A message can carry the control sequences that style it on a terminal. Where it
does not go to a terminal it is made plain: the sequences are dropped, and with
them all control characters that are not white space.

A sequence starts with the escape character, and what comes next says how it
ends. Cancelling ends any of them, and another escape character starts the next
one. White space inside the short sequences is text, and so is what follows it,
up to the next control character; there the sequence is resumed.
-/

namespace Reckon.Text

/-- Where a reader of terminal text stands. -/
inductive Sequence where
  /-- Outside of all sequences. -/
  | ground
  /-- Behind the escape character. -/
  | escape
  /-- Behind the escape character and signs that announce a letter. -/
  | announced
  /-- In a control sequence, which a letter ends. -/
  | control
  /-- At the start of a device command. -/
  | device
  /-- In the parameters of a device command. -/
  | deviceParameters
  /-- Behind signs that announce the letter of a device command. -/
  | deviceAnnounced
  /-- In a text for the device, which only a terminator ends. -/
  | deviceText
  /-- In a command for the system, which the bell ends. -/
  | system
deriving DecidableEq, Repr

/-- Whether the bytes of a character contain the one that terminates a text for
the device. -/
def hasTerminator (c : Char) : Bool :=
  (String.utf8EncodeChar c).contains 0x9C

namespace Sequence

/-- Where the reader stands behind a character that is not shown. -/
def next (s : Sequence) (c : Char) : Sequence :=
  let n := c.toNat
  let graphic := decide (0x20 ≤ n) && decide (n < 0x7F)
  if n = 0x1B then escape
  else if n = 0x18 ∨ n = 0x1A then ground
  else
    match s with
    | ground => ground
    | escape =>
      if !graphic then escape
      else if n < 0x30 then announced
      else if c = '[' then control
      else if c = ']' then system
      else if c = 'P' then device
      else if c = 'X' ∨ c = '^' ∨ c = '_' then deviceText
      else ground
    | announced => if graphic && decide (0x30 ≤ n) then ground else announced
    | control => if graphic && decide (0x40 ≤ n) then ground else control
    | device =>
      if !graphic then device
      else if n < 0x30 then deviceAnnounced
      else if n < 0x40 then deviceParameters
      else deviceText
    | deviceParameters =>
      if !graphic then deviceParameters
      else if n < 0x30 then deviceAnnounced
      else if n < 0x3C then deviceParameters
      else deviceText
    | deviceAnnounced => if graphic && decide (0x30 ≤ n) then deviceText else deviceAnnounced
    | deviceText => if hasTerminator c then ground else deviceText
    | system => if n = 0x07 then ground else system

/-- Whether white space is text here. -/
def allowsSpace : Sequence → Bool
  | ground | escape | announced | control => true
  | _ => false

/-- Whether a character is text here. -/
def shows (s : Sequence) (c : Char) : Bool :=
  if c.toNat < 0x20 then
    s.allowsSpace && (c == '\t' || c == '\n' || c == '\x0c' || c == '\r')
  else decide (s = ground) && decide (c.toNat ≠ 0x7F)

end Sequence

/-- What is shown of a text from a place on. If the text is open there, all that
would be shown outside of sequences is. -/
def plainFrom : List Char → Sequence → Bool → List Char
  | [], _, _ => []
  | c :: rest, s, isOpen =>
    if (if isOpen then Sequence.ground else s).shows c then
      c :: plainFrom rest (if c.toNat < 0x80 then s else .ground) true
    else plainFrom rest (s.next c) false

/-- The text without control sequences and control characters. -/
def plain (text : String) : String :=
  String.ofList (plainFrom text.toList .ground false)

/-! ## Styles -/

/-- A text in a style, given by the numbers of its control sequences. -/
def styled (codes : List Nat) (text : String) : String :=
  String.join (codes.map fun code => "\x1b[" ++ Nat.repr code ++ "m") ++ text ++ "\x1b[0m"

/-- A text in the style of what is wrong. -/
def wrong (text : String) : String := styled [33] text

/-- A text in the style of what is meant to be typed. -/
def typed (text : String) : String := styled [1] text

/-- A text in the style of what is missing. -/
def missing (text : String) : String := styled [32] text

/-- The word that errors start with, in its style. -/
def errorWord : String := styled [1, 31] "error:"

end Reckon.Text
