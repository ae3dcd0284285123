import Reckon.CompileError

/-!
# Reckon — chunks

A chunk is a formula as a stack program in bytes. An instruction is an opcode
byte followed by its operands, words of two bytes with the low byte first.
Constants and identifiers stand in two pools, to which the operands refer, and
parameters of calls in a scratch buffer, whose slots they name.

| instruction                  | bytes                        | effect                        |
|------------------------------|------------------------------|-------------------------------|
| `constant index`             | `00 index`                   | pushes a constant             |
| `load index`                 | `01 index`                   | pushes the value of a variable|
| `arith op`                   | `02` to `07`                 | replaces two operands         |
| `negate`                     | `08`                         | replaces one operand          |
| `store slot`                 | `09 slot`                    | pops into a scratch slot      |
| `call index start count`     | `0a index start count`       | pushes the result of a call   |
| `finish`                     | `0b`                         | ends with the top of the stack|
-/

namespace Reckon

/-- The first byte of an instruction. -/
inductive Opcode where
  | constant
  | load
  | arith (op : Operator)
  | negate
  | store
  | call
  | finish
deriving DecidableEq, Repr

namespace Opcode

/-- The opcodes, in the order of their bytes. -/
def all : List Opcode :=
  [constant, load, arith .plus, arith .minus, arith .times, arith .divide, arith .modulo,
   arith .power, negate, store, call, finish]

/-- The byte of an opcode. -/
def toByte : Opcode → UInt8
  | constant => 0
  | load => 1
  | arith .plus => 2
  | arith .minus => 3
  | arith .times => 4
  | arith .divide => 5
  | arith .modulo => 6
  | arith .power => 7
  | negate => 8
  | store => 9
  | call => 10
  | finish => 11

/-- The opcode of a byte. -/
def ofByte? (byte : UInt8) : Option Opcode :=
  all[byte.toNat]?

/-- The name of an opcode. -/
def name : Opcode → String
  | constant => "Constant"
  | load => "Variable"
  | arith .plus => "Add"
  | arith .minus => "Subtract"
  | arith .times => "Multiply"
  | arith .divide => "Divide"
  | arith .modulo => "Modulo"
  | arith .power => "Power"
  | negate => "Negate"
  | store => "Store"
  | call => "Call"
  | finish => "Return"

/-- What is said about a byte that is no opcode. -/
def unknownMessage (byte : Nat) : String :=
  "Invalid byte " ++ Nat.repr byte ++ " found when expecting OpCode value between 0 and "
    ++ Nat.repr all.length

end Opcode

/-- An instruction with its operands. -/
inductive Instruction where
  | constant (index : UInt16)
  | load (index : UInt16)
  | arith (op : Operator)
  | negate
  | store (slot : UInt16)
  | call (index start count : UInt16)
  | finish
deriving DecidableEq, Repr

namespace Instruction

/-- The two bytes of a word, the low one first. -/
def wordBytes (w : UInt16) : List UInt8 :=
  [w.toUInt8, (w >>> 8).toUInt8]

/-- The bytes of an instruction. -/
def bytes : Instruction → List UInt8
  | constant index => Opcode.constant.toByte :: wordBytes index
  | load index => Opcode.load.toByte :: wordBytes index
  | arith op => [(Opcode.arith op).toByte]
  | negate => [Opcode.negate.toByte]
  | store slot => Opcode.store.toByte :: wordBytes slot
  | call index start count =>
    Opcode.call.toByte :: (wordBytes index ++ wordBytes start ++ wordBytes count)
  | finish => [Opcode.finish.toByte]

/-- How many bytes an instruction has. -/
def size : Instruction → Nat
  | constant _ | load _ | store _ => 3
  | call .. => 7
  | arith _ | negate | finish => 1

end Instruction

/-- A formula as a stack program. -/
structure Chunk where
  name : String
  code : Array UInt8
  constants : Array Literal
  identifiers : Array String
  /-- The number of scratch slots that the calls need. -/
  scratchSize : Nat
  /-- The greatest number of operands on the stack. -/
  stackSize : Nat
deriving DecidableEq

namespace Chunk

/-- The byte at an offset. -/
def byteAt (c : Chunk) (offset : Nat) : Except ReadFault UInt8 :=
  match c.code[offset]? with
  | some byte => .ok byte
  | none => .error .offset

/-- The word at an offset, the low byte first. -/
def wordAt (c : Chunk) (offset : Nat) : Except ReadFault UInt16 := do
  let low ← c.byteAt offset
  let high ← c.byteAt (offset + 1)
  return low.toUInt16 ||| (high.toUInt16 <<< 8)

/-- The constant of an index. -/
def constantAt (c : Chunk) (index : Nat) : Except ReadFault Literal :=
  match c.constants[index]? with
  | some literal => .ok literal
  | none => .error .constant

/-- The identifier of an index. -/
def identifierAt (c : Chunk) (index : Nat) : Except ReadFault String :=
  match c.identifiers[index]? with
  | some name => .ok name
  | none => .error .identifier

/-- The opcode at an offset. -/
def opcodeAt (c : Chunk) (offset : Nat) : Except ReadFault Opcode :=
  match c.code[offset]? with
  | none => .error (.beyond c.code.size offset)
  | some byte =>
    match Opcode.ofByte? byte with
    | some opcode => .ok opcode
    | none => .error (.opcode byte.toNat)

/-- The instruction at an offset. -/
def instructionAt (c : Chunk) (offset : Nat) : Except ReadFault Instruction := do
  match ← c.opcodeAt offset with
  | .constant => return .constant (← c.wordAt (offset + 1))
  | .load => return .load (← c.wordAt (offset + 1))
  | .arith op => return .arith op
  | .negate => return .negate
  | .store => return .store (← c.wordAt (offset + 1))
  | .call =>
    let index ← c.wordAt (offset + 1)
    let start ← c.wordAt (offset + 3)
    let count ← c.wordAt (offset + 5)
    return .call index start count
  | .finish => return .finish

end Chunk

end Reckon
