import Reckon.Formula
import Reckon.Lookup
import Reckon.Text.Column

/-!
# Reckon — compile errors

What can keep a formula, a chunk or a core expression from being compiled.
-/

namespace Reckon

/-- The methods of a scope that compiled code can call. -/
inductive Method where
  | getVariable
  | callFunction
deriving DecidableEq, Repr

namespace Method

/-- The name of a method. -/
def name : Method → String
  | getVariable => "GetVariable"
  | callFunction => "CallFunction"

/-- The operands that a method takes, in words. -/
def signature : Method → String
  | getVariable => "expected a single literal identifier"
  | callFunction => "expected a literal identifier and a new parameter array"

end Method

/-- What can be wrong with a place that is read in a chunk. -/
inductive ReadFault where
  /-- There is no byte at the offset of an operand. -/
  | offset
  /-- There is no constant of this index. -/
  | constant
  /-- There is no identifier of this index. -/
  | identifier
  /-- There is no instruction at `index` in a code of `size` bytes. -/
  | beyond (size index : Nat)
  /-- The byte is no opcode. -/
  | opcode (byte : Nat)
  /-- There is no scratch buffer to take parameters from or to. -/
  | scratch
deriving DecidableEq, Repr

/-- The fault in words. -/
def ReadFault.message : ReadFault → String
  | offset => "Chunk reader should only request valid offsets"
  | constant => "Chunk reader should only request valid constants"
  | identifier => "Chunk reader should only request valid identifiers"
  | beyond size index => outOfBounds size index
  | opcode byte =>
    "Bytecode should contain valid opcodes: OpCodeFromU8Error(" ++ Nat.repr byte ++ ")"
  | scratch => "no scratch buffer"

/-- Why there is no compiled code. -/
inductive CompileError where
  /-- The operator means nothing in front of a single operand. -/
  | unknownUnary (op : Operator)
  | tooManyConstants
  | tooManyIdentifiers
  /-- The calls need more scratch slots than can be addressed. -/
  | scratchOverflow (slots : Nat)
  /-- The operands of a call are not those that its method takes. -/
  | malformedCall (method : Method)
  /-- The chunk cannot be read at an offset. -/
  | unreadable (offset : Nat) (fault : ReadFault)
  /-- An instruction of a chunk finds too few operands. -/
  | underflow (offset : Nat)
  /-- A part of a core expression finds too few operands. -/
  | missingOperand
  /-- More operands are taken than were counted. -/
  | miscount
  /-- A call of a fixed width has another number of parameters. -/
  | wrongWidth (width : Nat)
deriving DecidableEq, Repr

/-- The error in words. -/
def CompileError.message : CompileError → String
  | unknownUnary op => "Unknown unary operator '" ++ String.singleton op.symbol ++ "'"
  | tooManyConstants => "Too many constants in one chunk"
  | tooManyIdentifiers => "Too many identifiers in one chunk"
  | scratchOverflow slots =>
    "Scratch buffer of " ++ Nat.repr slots ++ " slots exceeds the addressable range"
  | malformedCall method =>
    "Malformed IR call to " ++ method.name ++ ": " ++ method.signature
  | unreadable offset fault =>
    "Code generation failed: invalid chunk at " ++ Text.rightColumn '0' 4 offset ++ ": "
      ++ fault.message
  | underflow offset =>
    "Code generation failed: invalid chunk at " ++ Text.rightColumn '0' 4 offset
      ++ ": operand stack underflow"
  | missingOperand => "Operands should be translated before their operator"
  | miscount => "attempt to subtract with overflow"
  | wrongWidth width =>
    "internal error: entered unreachable code: call_fixed is only used with exactly "
      ++ Nat.repr width ++ " parameters"

/-- Checks that `taken` of `counted` operands can be taken. -/
def checkOperands (taken counted : Nat) : Except CompileError Unit :=
  if taken ≤ counted then .ok () else .error .miscount

end Reckon
