import Reckon.Chunk
import Reckon.Number.Text
import Reckon.Text.Column

/-!
# Reckon — listings of chunks

A listing names the chunk, says what room it needs, and then gives each
instruction a line with its offset, its mnemonic and its operands. Operands
that refer to a pool are shown with what they refer to.
-/

namespace Reckon.Chunk

/-- The mnemonic of an instruction. -/
def mnemonic : Instruction → String
  | .constant _ => "OP_CONSTANT"
  | .load _ => "OP_VARIABLE"
  | .arith .plus => "OP_ADD"
  | .arith .minus => "OP_SUBTRACT"
  | .arith .times => "OP_MULTIPLY"
  | .arith .divide => "OP_DIVIDE"
  | .arith .modulo => "OP_MODULO"
  | .arith .power => "OP_POWER"
  | .negate => "OP_NEGATE"
  | .store _ => "OP_STORE"
  | .call .. => "OP_CALL"
  | .finish => "OP_RETURN"

/-- Mnemonic and first operand in their columns. -/
def withOperand (i : Instruction) (operand : UInt16) : String :=
  Text.leftColumn 16 (mnemonic i) ++ " " ++ Text.rightColumn ' ' 4 operand.toNat

/-- An instruction in words. -/
def describe (c : Chunk) (i : Instruction) : Except ReadFault String :=
  match i with
  | .constant index => do
    let literal ← c.constantAt index.toNat
    return withOperand i index ++ " '" ++ Number.text literal.value ++ "'"
  | .load index => do
    let name ← c.identifierAt index.toNat
    return withOperand i index ++ " '" ++ name ++ "'"
  | .store slot => return withOperand i slot
  | .call index start count => do
    let name ← c.identifierAt index.toNat
    return withOperand i index ++ " '" ++ name ++ "' ["
      ++ Nat.repr start.toNat ++ ".." ++ Nat.repr (start.toNat + count.toNat) ++ "]"
  | _ => return mnemonic i

/-- The line of the instruction at an offset, and the offset behind it. -/
def lineAt (c : Chunk) (offset : Nat) : Except ReadFault (String × Nat) := do
  let i ← c.instructionAt offset
  let words ← c.describe i
  return (Text.rightColumn '0' 4 offset ++ " " ++ words ++ "\n", offset + i.size)

/-- Adds the lines from an offset on, at most `n` of them, to a text. -/
def linesOnto (c : Chunk) : Nat → Nat → String → Except ReadFault String
  | 0, _, text => .ok text
  | n + 1, offset, text =>
    if offset < c.code.size then
      match c.lineAt offset with
      | .ok (line, next) => linesOnto c n next (text ++ line)
      | .error e => .error e
    else .ok text

/-- The two lines above the instructions: the name and the room. -/
def heading (c : Chunk) : String :=
  "== " ++ c.name ++ " ==\nscratch slots: " ++ Nat.repr c.scratchSize
    ++ ", stack slots: " ++ Nat.repr c.stackSize ++ "\n"

/-- The listing of a chunk. Each line takes a byte of the code at least. -/
def listing (c : Chunk) : Except ReadFault String :=
  linesOnto c c.code.size 0 c.heading

end Reckon.Chunk
