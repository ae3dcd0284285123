import Reckon.Core
import Reckon.Machine

/-!
# Reckon — from core expressions to machine programs

A core expression becomes a machine program in the order of its evaluation.
Each call gets cells of its own for its parameters, and is checked against what
its method takes before anything inside it.
-/

namespace Reckon.Core

/-- Adds a step to a program. -/
def emitStep (a : Machine.Assembly) (step : Machine.Step) :
    Except CompileError Machine.Assembly :=
  match a.add? step with
  | some a => .ok a
  | none => .error .missingOperand

mutual

/-- Adds the steps of an expression. -/
def emit : Core → Machine.Assembly → Except CompileError Machine.Assembly
  | constant literal, a => emitStep a (.constant literal)
  | arith op left right, a => do
    let a ← left.emit a
    let a ← right.emit a
    emitStep a (.arith op)
  | negate operand, a => do
    let a ← operand.emit a
    emitStep a .negate
  | call .getVariable [.literal name], a => emitStep a (.lookup name)
  | call .callFunction [.literal name, .array parameters], a => do
    let start := a.cells
    let a ← emitParameters start parameters (a.reserve parameters.length)
    emitStep a (.call name start parameters.length)
  | call method _, _ => throw (.malformedCall method)

/-- Adds the steps of parameters, and stores them from a cell on. -/
def emitParameters (cell : Nat) :
    List Core → Machine.Assembly → Except CompileError Machine.Assembly
  | [], a => return a
  | p :: ps, a => do
    let a ← p.emit a
    let a ← emitStep a (.store cell)
    emitParameters (cell + 1) ps a

end

/-- The machine program of an expression. -/
def assemble (e : Core) : Except CompileError Machine.Program := do
  let a ← e.emit {}
  match a.finish? with
  | some program => return program
  | none => throw .missingOperand

end Reckon.Core
