import Reckon.Chunk.Pool
import Reckon.Formula
import Reckon.Lookup

/-!
# Reckon — the machine

A machine program is a straight line of steps over an operand stack and a frame
of cells. Constants and lookups push a value, operators replace their operands
by their result, a value can be moved from the stack into a cell, and a call
takes its parameters from a range of cells. A lookup that fails ends the run.

Programs are put together step by step in an `Assembly`, which keeps count of
the operands and refuses a step that would find too few of them. To be run, a
program is linked: its identifiers are numbered, and its steps name them by
their numbers.
-/

namespace Reckon.Machine

/-- A step of a program. It gives the identifier that it looks up as a `ν`, which
is the name unless it is said otherwise. -/
inductive Step (ν : Type := String) where
  | constant (literal : Literal)
  | lookup (name : ν)
  | arith (op : Operator)
  | negate
  /-- Moves the top of the stack into a cell. -/
  | store (cell : Nat)
  /-- Calls a function with the `count` cells from `start` on. -/
  | call (name : ν) (start count : Nat)
deriving DecidableEq

namespace Step

/-- How many operands a step takes from the stack. -/
def pops : Step → Nat
  | constant _ | lookup _ | call .. => 0
  | negate | store _ => 1
  | arith _ => 2

/-- How many values a step leaves on the stack. -/
def pushes : Step → Nat
  | store _ => 0
  | _ => 1

/-- Whether a step reads or writes cells. -/
def touchesCells : Step → Bool
  | store _ => true
  | call _ _ count => 0 < count
  | _ => false

end Step

/-- A program: its steps and the number of cells of its frame. -/
structure Program where
  steps : List Step
  cells : Nat
deriving DecidableEq

/-! ## Running -/

/-- What steps work on: a stack, top first, and the cells of a frame. -/
structure State where
  stack : List Float
  cells : Array Float

/-- What a run says when its steps do not find their operands. No program that
an assembly accepts comes to that. -/
def missingOperand : Failure :=
  .abort "Operands should be translated before their operator"

/-- What a step does. -/
def perform (env : Env) : State → Step → Eval State
  | s, .constant literal => return ⟨literal.value :: s.stack, s.cells⟩
  | s, .lookup name => do
    let value ← env.lookup name
    return ⟨value :: s.stack, s.cells⟩
  | ⟨b :: a :: stack, cells⟩, .arith op => return ⟨op.apply a b :: stack, cells⟩
  | ⟨a :: stack, cells⟩, .negate => return ⟨-a :: stack, cells⟩
  | ⟨a :: stack, cells⟩, .store cell => return ⟨stack, cells.setIfInBounds cell a⟩
  | s, .call name start count => do
    let value ← env.invoke name (s.cells.extract start (start + count)).toList
    return ⟨value :: s.stack, s.cells⟩
  | _, _ => throw missingOperand

/-- An empty stack and a frame of zeros. -/
def State.start (cells : Nat) : State :=
  ⟨[], Array.replicate cells 0⟩

/-- The value that a run leaves. -/
def State.result : State → Eval Float
  | ⟨value :: _, _⟩ => pure value
  | ⟨[], _⟩ => throw missingOperand

/-- Runs a program. -/
def Program.run (p : Program) (env : Env) : Eval Float := do
  let s ← p.steps.foldlM (perform env) (.start p.cells)
  s.result

/-! ## Linking -/

/-- A program whose identifiers are numbers in a table of them. -/
structure Code where
  steps : List (Step Nat)
  cells : Nat
  identifiers : Array String

/-- Gives the identifier of a step its number in a table. -/
def Step.number : Step → StateM (Pool String) (Step Nat)
  | constant literal => return constant literal
  | lookup name => return lookup (← fun table => table.intern name)
  | arith op => return arith op
  | negate => return negate
  | store cell => return store cell
  | call name start count => return call (← fun table => table.intern name) start count

/-- Numbers the identifiers of a program as they come up. -/
def Program.link (p : Program) : Code :=
  let (steps, table) := p.steps.mapM Step.number .empty
  ⟨steps, p.cells, table.entries⟩

namespace Code

/-- The identifier of a number. -/
def identifierAt (c : Code) (i : Nat) : Eval String :=
  match c.identifiers[i]? with
  | some name => pure name
  | none => throw (.abort (outOfBounds c.identifiers.size i))

/-- A step with the name of its identifier. -/
def resolve (c : Code) : Step Nat → Eval Step
  | .constant literal => return .constant literal
  | .lookup i => return .lookup (← c.identifierAt i)
  | .arith op => return .arith op
  | .negate => return .negate
  | .store cell => return .store cell
  | .call i start count => return .call (← c.identifierAt i) start count

/-- Runs linked code, which looks an identifier up when it comes to it. -/
def run (c : Code) (env : Env) : Eval Float := do
  let s ← c.steps.foldlM (fun s step => do perform env s (← c.resolve step)) (.start c.cells)
  s.result

end Code

/-! ## Assembling -/

/-- A program under construction: the steps so far, the latest first, the
number of values they leave on the stack, and the cells taken so far. -/
structure Assembly where
  steps : List Step := []
  depth : Nat := 0
  cells : Nat := 0

namespace Assembly

/-- Adds a step, if it finds its operands. -/
def add? (a : Assembly) (step : Step) : Option Assembly :=
  if step.pops ≤ a.depth then
    some { a with steps := step :: a.steps, depth := a.depth - step.pops + step.pushes }
  else none

/-- Takes `count` fresh cells. The first of them is the number of cells taken
before. -/
def reserve (a : Assembly) (count : Nat) : Assembly :=
  { a with cells := a.cells + count }

/-- The program, once it leaves a value. -/
def finish? (a : Assembly) : Option Program :=
  if 1 ≤ a.depth then some ⟨a.steps.reverse, a.cells⟩ else none

end Assembly

end Reckon.Machine
