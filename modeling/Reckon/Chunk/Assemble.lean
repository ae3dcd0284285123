import Reckon.Chunk
import Reckon.Machine

/-!
# Reckon — from chunks to machine programs

The code of a chunk is read from its start to the instruction that ends it, and
each instruction becomes a step of a machine program whose frame is the scratch
buffer. Constants and identifiers are looked up on the way.
-/

namespace Reckon.Chunk

/-- The step of an instruction; there is none for the last one. -/
def step? (c : Chunk) : Instruction → Except ReadFault (Option Machine.Step)
  | .constant index => return some (.constant (← c.constantAt index.toNat))
  | .load index => return some (.lookup (← c.identifierAt index.toNat))
  | .arith op => return some (.arith op)
  | .negate => return some .negate
  | .store slot => return some (.store slot.toNat)
  | .call index start count =>
    return some (.call (← c.identifierAt index.toNat) start.toNat count.toNat)
  | .finish => return none

/-- Assembles the instructions from an offset on, at most `n` of them. -/
def assembleFrom (c : Chunk) : Nat → Nat → Machine.Assembly → Except CompileError Machine.Program
  | 0, offset, _ => .error (.unreadable offset (.beyond c.code.size offset))
  | n + 1, offset, a =>
    match c.instructionAt offset with
    | .error fault => .error (.unreadable offset fault)
    | .ok i =>
      match c.step? i with
      | .error fault => .error (.unreadable offset fault)
      | .ok none =>
        match a.finish? with
        | some program => .ok program
        | none => .error (.underflow offset)
      | .ok (some step) =>
        match a.add? step with
        | some a =>
          if step.touchesCells && c.scratchSize == 0 then .error (.unreadable offset .scratch)
          else assembleFrom c n (offset + i.size) a
        | none => .error (.underflow offset)

/-- The machine program of a chunk. Each instruction takes a byte at least, so
one more than there are bytes would lie beyond the code. -/
def assemble (c : Chunk) : Except CompileError Machine.Program :=
  c.assembleFrom (c.code.size + 1) 0 { cells := c.scratchSize }

end Reckon.Chunk
