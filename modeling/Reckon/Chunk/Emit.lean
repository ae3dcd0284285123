import Reckon.Chunk
import Reckon.Chunk.Pool

/-!
# Reckon — emitting chunks

A formula becomes a chunk in post-order: operands come before what they are
operands of, from left to right. The parameters of a call are stored in
consecutive scratch slots as soon as they are computed. A call whose parameters
start at slot `base` owns the slots from `base` on; its parameter `i` is
computed while the slots before `base + i` are taken, so the calls inside it
start at `base + i`. How many slots that takes is known before any code is
emitted.

Slots, counts and references to the pools have to fit a word. What takes operands
relies on the count of those that are there.
-/

namespace Reckon

namespace Formula

mutual

/-- The end of the scratch slots that a formula uses, if the slots before
`base` are taken; zero if it uses none. -/
def slotsFrom (base : Nat) : Formula → Nat
  | number _ | var _ => 0
  | binary _ left right => max (left.slotsFrom base) (right.slotsFrom base)
  | unary _ operand => operand.slotsFrom base
  | call _ parameters => max (base + parameters.length) (slotsFromAll base parameters)

/-- The same for the parameters of a call, each with a slot more before it. -/
def slotsFromAll (base : Nat) : List Formula → Nat
  | [] => 0
  | p :: ps => max (p.slotsFrom base) (slotsFromAll (base + 1) ps)

end

/-- The number of scratch slots that a formula needs. -/
def scratchSize (f : Formula) : Nat :=
  f.slotsFrom 0

end Formula

/-- The number of words. -/
def wordCount : Nat := 65536

/-- A chunk under construction: the instructions so far, the latest first, the
pools, the number of operands on the stack and the greatest number so far. -/
structure Emitter where
  instructions : List Instruction
  constants : Pool Literal
  identifiers : Pool String
  scratchSize : Nat
  depth : Nat
  peak : Nat

namespace Emitter

/-- An emitter that has not emitted anything. -/
def start (scratchSize : Nat) : Emitter :=
  ⟨[], .empty, .empty, scratchSize, 0, 0⟩

/-- Emits an instruction that pushes a value. -/
def push (e : Emitter) (i : Instruction) : Emitter :=
  { e with
    instructions := i :: e.instructions
    depth := e.depth + 1
    peak := max e.peak (e.depth + 1) }

/-- Emits an instruction that leaves one operand less. -/
def pop (e : Emitter) (i : Instruction) : Emitter :=
  { e with instructions := i :: e.instructions, depth := e.depth - 1 }

/-- Emits an instruction that leaves as many operands as there were. -/
def keep (e : Emitter) (i : Instruction) : Emitter :=
  { e with instructions := i :: e.instructions }

/-- A slot or a count as a word. -/
def slot (e : Emitter) (n : Nat) : Except CompileError UInt16 :=
  if n < wordCount then .ok n.toUInt16 else .error (.scratchOverflow e.scratchSize)

/-- The index of a constant. -/
def constant (e : Emitter) (literal : Literal) : Except CompileError (UInt16 × Emitter) :=
  let (index, pool) := e.constants.intern literal
  if index < wordCount then .ok (index.toUInt16, { e with constants := pool })
  else .error .tooManyConstants

/-- The index of an identifier. -/
def identifier (e : Emitter) (name : String) : Except CompileError (UInt16 × Emitter) :=
  let (index, pool) := e.identifiers.intern name
  if index < wordCount then .ok (index.toUInt16, { e with identifiers := pool })
  else .error .tooManyIdentifiers

/-- Emits a call whose parameters are in their slots. -/
def call (e : Emitter) (name : String) (base count : Nat) : Except CompileError Emitter := do
  let (index, e) ← e.identifier name
  let start ← e.slot base
  let count ← e.slot count
  return e.push (.call index start count)

/-- Moves the latest operand into a slot. -/
def store (e : Emitter) (n : Nat) : Except CompileError Emitter := do
  let slot ← e.slot n
  checkOperands 1 e.depth
  return e.pop (.store slot)

mutual

/-- Emits a formula, with the slots before `base` taken. -/
def formula (base : Nat) : Formula → Emitter → Except CompileError Emitter
  | .number literal, e => do
    let (index, e) ← e.constant literal
    return e.push (.constant index)
  | .var name, e => do
    let (index, e) ← e.identifier name
    return e.push (.load index)
  | .binary op left right, e => do
    let e ← formula base left e
    let e ← formula base right e
    checkOperands 2 e.depth
    return e.pop (.arith op)
  | .unary .plus operand, e => formula base operand e
  | .unary .minus operand, e => do
    let e ← formula base operand e
    checkOperands 1 e.depth
    return e.keep .negate
  | .unary op _, _ => throw (.unknownUnary op)
  | .call name ps, e => do
    let e ← parameters base ps e
    e.call name base ps.length

/-- Emits the parameters of a call and stores them from slot `base` on. -/
def parameters (base : Nat) : List Formula → Emitter → Except CompileError Emitter
  | [], e => return e
  | p :: ps, e => do
    let e ← formula base p e
    let e ← e.store base
    parameters (base + 1) ps e

end

/-- The bytes of instructions that are given the latest first. -/
def encode : List Instruction → List UInt8 → List UInt8
  | [], code => code
  | i :: is, code => encode is (i.bytes ++ code)

/-- Ends the code and closes the chunk. -/
def finish (e : Emitter) (name : String) : Chunk :=
  { name
    code := (encode (.finish :: e.instructions) []).toArray
    constants := e.constants.entries
    identifiers := e.identifiers.entries
    scratchSize := e.scratchSize
    stackSize := e.peak }

end Emitter

/-- The chunk of a formula. That its calls need too many slots is found out
before anything else. -/
def Formula.toChunk (f : Formula) (name : String) : Except CompileError Chunk :=
  if wordCount ≤ f.scratchSize then .error (.scratchOverflow f.scratchSize)
  else do
    let e ← Emitter.formula 0 f (.start f.scratchSize)
    return e.finish name

end Reckon
