import Mathlib
import Reckon.Machine
import Reckon.Proofs.Formula
import Reckon.Proofs.Operands

/-!
# Reckon — what machine programs compute

A run of machine steps is a fold of single steps over a state, the operand
stack and the cells of the frame. That makes it possible to say what a piece of a
program does without saying what follows it:

* `Computes env base size steps evaluation` — from any stack and any frame of
  at least `size` cells, `steps` leave the value of `evaluation` on top of the
  stack and the cells below `base` as they were, or fail as `evaluation` fails;
* `Stores env base size steps evaluations` — the same, but the values end up in
  the cells from `base` on and the stack is left alone.

There is one rule for each kind of step and each way of putting pieces
together. The cells from `base` on may be overwritten by what is computed, so a
call may reuse the cells of calls inside its parameters as long as each
parameter is stored in the cell at which its own computation was allowed to
start (`Computes.storesCons`).

Linking changes nothing of this: every number that it gives to an identifier is
found in the table of the finished code (`Program.run_link`).
-/

namespace Reckon

namespace Machine

/-! ## Single steps -/

instance : TakesOperands Step := ⟨Step.pops, Step.pushes⟩

theorem depthAfter_cons (depth : Nat) (step : Step) (steps : List Step) :
    depthAfter depth (step :: steps) =
      if step.pops ≤ depth then depthAfter (depth - step.pops + step.pushes) steps else none :=
  rfl

/-- The identifier that a step looks up. -/
def Step.name? : Step → Option String
  | lookup name => some name
  | call name _ _ => some name
  | _ => none

/-- A step keeps the number of cells. -/
theorem size_perform {env : Env} {step : Step} {s s' : State} {trace trace' : List Lookup}
    (h : perform env s step trace = .ok s' trace') : s'.cells.size = s.cells.size := by
  obtain ⟨stack, cells⟩ := s
  cases step with
  | constant literal =>
    cases h
    rfl
  | lookup name =>
    obtain ⟨value, trace₁, -, h⟩ := Eval.ok_of_bind h
    cases h
    rfl
  | arith op =>
    match stack with
    | [] | [_] => cases h
    | b :: a :: stack =>
      cases h
      rfl
  | negate =>
    match stack with
    | [] => cases h
    | a :: stack =>
      cases h
      rfl
  | store cell =>
    match stack with
    | [] => cases h
    | a :: stack =>
      cases h
      exact Array.size_setIfInBounds
  | call name start count =>
    obtain ⟨value, trace₁, -, h⟩ := Eval.ok_of_bind h
    cases h
    rfl

/-- A run keeps the number of cells. -/
theorem size_foldlM {env : Env} {steps : List Step} {s s' : State} {trace trace' : List Lookup}
    (h : steps.foldlM (perform env) s trace = .ok s' trace') : s'.cells.size = s.cells.size := by
  induction steps generalizing s trace with
  | nil =>
    cases h
    rfl
  | cons step steps ih =>
    rw [List.foldlM_cons] at h
    obtain ⟨s₁, trace₁, hStep, h⟩ := Eval.ok_of_bind h
    rw [ih h, size_perform hStep]

/-! ## Frames -/

/-- `after` is as large as `before` and agrees with it below `base`. -/
structure Frame (base : Nat) (before after : Array Float) : Prop where
  size_eq : after.size = before.size
  keeps : ∀ i < base, after[i]? = before[i]?

theorem Frame.refl (base : Nat) (cells : Array Float) : Frame base cells cells :=
  ⟨rfl, fun _ _ => rfl⟩

theorem Frame.trans {base : Nat} {a b c : Array Float} (hab : Frame base a b)
    (hbc : Frame base b c) : Frame base a c :=
  ⟨hbc.size_eq.trans hab.size_eq, fun i hi => (hbc.keeps i hi).trans (hab.keeps i hi)⟩

theorem Frame.mono {base lower : Nat} {a b : Array Float} (h : Frame base a b)
    (hLower : lower ≤ base) : Frame lower a b :=
  ⟨h.size_eq, fun i hi => h.keeps i (by omega)⟩

/-- A store leaves the cells below it alone. -/
theorem Frame.set (cell : Nat) (value : Float) (cells : Array Float) :
    Frame cell cells (cells.setIfInBounds cell value) := by
  refine ⟨Array.size_setIfInBounds, ?_⟩
  intro i hi
  rw [Array.getElem?_setIfInBounds_ne (by omega)]

/-! ## Pieces of programs -/

/-- `steps` leave the value of `evaluation` on the stack, and the cells below
`base` as they were, if there are `size` cells at least. -/
def Computes (env : Env) (base size : Nat) (steps : List Step) (evaluation : Eval Float) : Prop :=
  ∀ (stack : List Float) (cells : Array Float) (trace : List Lookup), size ≤ cells.size →
    match evaluation trace with
    | .ok value trace' => ∃ cells', Frame base cells cells' ∧
        steps.foldlM (perform env) ⟨stack, cells⟩ trace = .ok ⟨value :: stack, cells'⟩ trace'
    | .error failure trace' =>
        steps.foldlM (perform env) ⟨stack, cells⟩ trace = .error failure trace'

/-- The cells from `base` on hold `values`. -/
def Holds (base : Nat) (cells : Array Float) (values : List Float) : Prop :=
  ∀ i < values.length, cells[base + i]? = values[i]?

/-- `steps` leave the values of `evaluations` in the cells from `base` on, the
cells below `base` as they were and the stack as well. -/
def Stores (env : Env) (base size : Nat) (steps : List Step) (evaluations : Eval (List Float)) :
    Prop :=
  ∀ (stack : List Float) (cells : Array Float) (trace : List Lookup), size ≤ cells.size →
    match evaluations trace with
    | .ok values trace' => ∃ cells', Frame base cells cells' ∧ Holds base cells' values ∧
        steps.foldlM (perform env) ⟨stack, cells⟩ trace = .ok ⟨stack, cells'⟩ trace'
    | .error failure trace' =>
        steps.foldlM (perform env) ⟨stack, cells⟩ trace = .error failure trace'

/-- What the cells from `base` on hold is what a call reads there. -/
theorem Holds.extract_eq {base : Nat} {cells : Array Float} {values : List Float}
    (h : Holds base cells values) (hSize : base + values.length ≤ cells.size) :
    (cells.extract base (base + values.length)).toList = values := by
  apply List.ext_getElem?
  intro i
  rw [Array.getElem?_toList, Array.getElem?_extract]
  split
  · exact h i (by omega)
  · rw [List.getElem?_eq_none (by omega)]

theorem Holds.cons {base : Nat} {cells : Array Float} {value : Float} {values : List Float}
    (hHead : cells[base]? = some value) (hTail : Holds (base + 1) cells values) :
    Holds base cells (value :: values) := by
  intro i hi
  cases i with
  | zero => simpa using hHead
  | succ i =>
    rw [List.length_cons] at hi
    rw [List.getElem?_cons_succ, ← hTail i (by omega)]
    congr 1
    omega

section Rules

variable {env : Env} {base size : Nat}

theorem Computes.run_ok {steps : List Step} {x : Eval Float} (h : Computes env base size steps x)
    (stack : List Float) {cells : Array Float} (hSize : size ≤ cells.size)
    {trace trace' : List Lookup} {value : Float} (hx : x trace = .ok value trace') :
    ∃ cells', Frame base cells cells' ∧
      steps.foldlM (perform env) ⟨stack, cells⟩ trace = .ok ⟨value :: stack, cells'⟩ trace' := by
  have hRun := h stack cells trace hSize
  rwa [hx] at hRun

theorem Computes.run_error {steps : List Step} {x : Eval Float}
    (h : Computes env base size steps x) {stack : List Float} {cells : Array Float}
    (hSize : size ≤ cells.size) {trace trace' : List Lookup} {failure : Failure}
    (hx : x trace = .error failure trace') :
    steps.foldlM (perform env) ⟨stack, cells⟩ trace = .error failure trace' := by
  have hRun := h stack cells trace hSize
  rwa [hx] at hRun

theorem Stores.run_ok {steps : List Step} {xs : Eval (List Float)}
    (h : Stores env base size steps xs) (stack : List Float) {cells : Array Float}
    (hSize : size ≤ cells.size) {trace trace' : List Lookup} {values : List Float}
    (hxs : xs trace = .ok values trace') :
    ∃ cells', Frame base cells cells' ∧ Holds base cells' values ∧
      steps.foldlM (perform env) ⟨stack, cells⟩ trace = .ok ⟨stack, cells'⟩ trace' := by
  have hRun := h stack cells trace hSize
  rwa [hxs] at hRun

theorem Stores.run_error {steps : List Step} {xs : Eval (List Float)}
    (h : Stores env base size steps xs) {stack : List Float} {cells : Array Float}
    (hSize : size ≤ cells.size) {trace trace' : List Lookup} {failure : Failure}
    (hxs : xs trace = .error failure trace') :
    steps.foldlM (perform env) ⟨stack, cells⟩ trace = .error failure trace' := by
  have hRun := h stack cells trace hSize
  rwa [hxs] at hRun

theorem Computes.mono {steps : List Step} {x : Eval Float} (h : Computes env base size steps x)
    {lower larger : Nat} (hLower : lower ≤ base) (hLarger : size ≤ larger) :
    Computes env lower larger steps x := by
  intro stack cells trace hSize
  cases hx : x trace with
  | error failure trace' => exact h.run_error (Nat.le_trans hLarger hSize) hx
  | ok value trace' =>
    obtain ⟨cells', hFrame, hExec⟩ := h.run_ok stack (Nat.le_trans hLarger hSize) hx
    exact ⟨cells', hFrame.mono hLower, hExec⟩

theorem computes_constant (literal : Literal) :
    Computes env base size [.constant literal] (pure literal.value) :=
  fun _ cells _ _ => ⟨cells, Frame.refl base cells, rfl⟩

theorem computes_lookup (name : String) :
    Computes env base size [.lookup name] (env.lookup name) := by
  intro stack cells trace _
  rw [List.foldlM_cons, perform, bind_assoc, Eval.bind_apply]
  cases hx : env.lookup name trace with
  | error failure trace' => rfl
  | ok value trace' => exact ⟨cells, Frame.refl base cells, rfl⟩

theorem Computes.arith {left right : List Step} {x y : Eval Float} (op : Operator)
    (hLeft : Computes env base size left x) (hRight : Computes env base size right y) :
    Computes env base size (left ++ right ++ [.arith op])
      (do let a ← x; let b ← y; return op.apply a b) := by
  intro stack cells trace hSize
  rw [List.append_assoc, List.foldlM_append, Eval.bind_apply, Eval.bind_apply]
  cases hx : x trace with
  | error failure trace' => rw [hLeft.run_error hSize hx]
  | ok a trace₁ =>
    obtain ⟨cells₁, hFrame₁, hExec₁⟩ := hLeft.run_ok stack hSize hx
    -- the right operand is computed above the value of the left one
    have hSize₁ : size ≤ cells₁.size := by
      rw [hFrame₁.size_eq]
      exact hSize
    simp only [hExec₁, List.foldlM_append, Eval.bind_apply]
    cases hy : y trace₁ with
    | error failure trace' => rw [hRight.run_error hSize₁ hy]
    | ok b trace₂ =>
      obtain ⟨cells₂, hFrame₂, hExec₂⟩ := hRight.run_ok (a :: stack) hSize₁ hy
      refine ⟨cells₂, hFrame₁.trans hFrame₂, ?_⟩
      rw [hExec₂]
      rfl

theorem Computes.negate {steps : List Step} {x : Eval Float}
    (h : Computes env base size steps x) :
    Computes env base size (steps ++ [.negate]) (do let a ← x; return -a) := by
  intro stack cells trace hSize
  rw [List.foldlM_append, Eval.bind_apply, Eval.bind_apply]
  cases hx : x trace with
  | error failure trace' => rw [h.run_error hSize hx]
  | ok a trace₁ =>
    obtain ⟨cells₁, hFrame, hExec⟩ := h.run_ok stack hSize hx
    refine ⟨cells₁, hFrame, ?_⟩
    rw [hExec]
    rfl

theorem stores_nil : Stores env base size [] (pure []) :=
  fun _ cells _ _ => ⟨cells, Frame.refl base cells, by simp [Holds], rfl⟩

/-- A parameter that was computed above `base` may be stored at `base`: what
was stored before it lies below, and what comes after it starts above. -/
theorem Computes.storesCons {steps rest : List Step} {x : Eval Float} {xs : Eval (List Float)}
    (hHead : Computes env base size steps x) (hBase : base < size)
    (hTail : Stores env (base + 1) size rest xs) :
    Stores env base size (steps ++ [.store base] ++ rest)
      (do let value ← x; let values ← xs; return value :: values) := by
  intro stack cells trace hSize
  rw [List.append_assoc, List.foldlM_append, Eval.bind_apply, Eval.bind_apply]
  cases hx : x trace with
  | error failure trace' => rw [hHead.run_error hSize hx]
  | ok value trace₁ =>
    obtain ⟨cells₁, hFrame₁, hExec₁⟩ := hHead.run_ok stack hSize hx
    let cells₂ := cells₁.setIfInBounds base value
    have hFrame₂ : Frame base cells cells₂ := hFrame₁.trans (Frame.set base value cells₁)
    have hSize₂ : size ≤ cells₂.size := by
      rw [hFrame₂.size_eq]
      exact hSize
    have hStore : ([Step.store base] ++ rest).foldlM (perform env) ⟨value :: stack, cells₁⟩ =
        rest.foldlM (perform env) ⟨stack, cells₂⟩ := rfl
    simp only [hExec₁, hStore, Eval.bind_apply]
    cases hxs : xs trace₁ with
    | error failure trace' => rw [hTail.run_error hSize₂ hxs]
    | ok values trace₂ =>
      obtain ⟨cells₃, hFrame₃, hHolds, hExec₃⟩ := hTail.run_ok stack hSize₂ hxs
      refine ⟨cells₃, hFrame₂.trans (hFrame₃.mono (by omega)), Holds.cons ?_ hHolds, hExec₃⟩
      -- the store was in bounds, and the later parameters kept it
      rw [hFrame₃.keeps base (by omega)]
      exact Array.getElem?_setIfInBounds_self_of_lt (by rw [hFrame₁.size_eq]; omega)

theorem Stores.computesCall {steps : List Step} {xs : Eval (List Float)} (name : String)
    {count : Nat} (h : Stores env base size steps xs) (hFits : base + count ≤ size)
    (hCount : ∀ trace values trace', xs trace = .ok values trace' → values.length = count) :
    Computes env base size (steps ++ [.call name base count])
      (do let values ← xs; env.invoke name values) := by
  intro stack cells trace hSize
  rw [List.foldlM_append, Eval.bind_apply, Eval.bind_apply]
  cases hxs : xs trace with
  | error failure trace' => rw [h.run_error hSize hxs]
  | ok values trace₁ =>
    obtain ⟨cells₁, hFrame, hHolds, hExec⟩ := h.run_ok stack hSize hxs
    have hLength : values.length = count := hCount trace values trace₁ hxs
    -- the call reads back what its parameters have stored
    have hRead : (cells₁.extract base (base + count)).toList = values := by
      rw [← hLength]
      exact hHolds.extract_eq (by rw [hFrame.size_eq]; omega)
    simp only [hExec, List.foldlM_cons, perform, hRead, Eval.bind_apply]
    cases hInvoke : env.invoke name values trace₁ with
    | error failure trace' => rfl
    | ok value trace' => exact ⟨cells₁, hFrame, rfl⟩

end Rules

/-- A program whose steps compute an evaluation runs as it does. -/
theorem Program.run_eq_of_computes {env : Env} {p : Program} {base : Nat} {x : Eval Float}
    (h : Computes env base p.cells p.steps x) : p.run env = x := by
  funext trace
  have hSize : p.cells ≤ (Array.replicate p.cells (0 : Float)).size := by simp
  rw [Program.run, State.start, Eval.bind_apply]
  cases hx : x trace with
  | error failure trace' => rw [h.run_error hSize hx]
  | ok value trace' =>
    obtain ⟨cells', -, hExec⟩ := h.run_ok [] hSize hx
    rw [hExec]
    rfl

end Machine

/-! ## Linking -/

/-- An entry of an array stays where it is when the array grows. -/
theorem getElem?_mono {α : Type} {a b : Array α} (h : a.toList <+: b.toList) {i : Nat} {x : α}
    (hx : a[i]? = some x) : b[i]? = some x := by
  rw [← Array.getElem?_toList] at hx ⊢
  have hLt : i < a.toList.length := (List.getElem?_eq_some_iff.1 hx).1
  rw [List.prefix_iff_getElem?.1 h i hLt, ← hx, List.getElem?_eq_getElem hLt]

namespace Pool

variable {α : Type} [BEq α] [Hashable α] [LawfulBEq α]

/-- The number that a thing gets is its number. -/
theorem getElem?_intern (p : Pool α) (a : α) :
    (p.intern a).2.entries[(p.intern a).1]? = some a := by
  unfold intern
  split
  · next i h => exact (p.index_iff a i).1 h
  · next h => simp

/-- Old entries keep their numbers. -/
theorem entries_prefix_intern (p : Pool α) (a : α) :
    p.entries.toList <+: (p.intern a).2.entries.toList := by
  unfold intern
  split
  · exact List.prefix_rfl
  · simp

end Pool

namespace Machine

/-- A numbered step stands for a step: any code whose table begins with `table`
finds the name of the identifier under its number. -/
def StandsFor (table : Pool String) (numbered : Step Nat) (step : Step) : Prop :=
  ∀ c : Code, table.entries.toList <+: c.identifiers.toList → c.resolve numbered = pure step

theorem Code.identifierAt_eq {c : Code} {i : Nat} {name : String}
    (h : c.identifiers[i]? = some name) : c.identifierAt i = pure name := by
  rw [identifierAt, h]

/-- A step is numbered with a table that has its identifier by then. -/
theorem Step.standsFor_number (step : Step) (table : Pool String) :
    table.entries.toList <+: (step.number table).2.entries.toList ∧
      StandsFor (step.number table).2 (step.number table).1 step := by
  cases step with
  | lookup name =>
    refine ⟨table.entries_prefix_intern name, fun c hTable => ?_⟩
    have hName := Code.identifierAt_eq (getElem?_mono hTable (table.getElem?_intern name))
    show (do return Step.lookup (← c.identifierAt (table.intern name).1)) = _
    rw [hName]
    rfl
  | call name start count =>
    refine ⟨table.entries_prefix_intern name, fun c hTable => ?_⟩
    have hName := Code.identifierAt_eq (getElem?_mono hTable (table.getElem?_intern name))
    show (do return Step.call (← c.identifierAt (table.intern name).1) start count) = _
    rw [hName]
    rfl
  | constant | arith | negate | store => exact ⟨List.prefix_rfl, fun _ _ => rfl⟩

/-- The finished table has the identifiers of all steps. -/
theorem standsFor_mapM (steps : List Step) (table : Pool String) :
    table.entries.toList <+: (steps.mapM Step.number table).2.entries.toList ∧
      List.Forall₂ (StandsFor (steps.mapM Step.number table).2)
        (steps.mapM Step.number table).1 steps := by
  induction steps generalizing table with
  | nil => exact ⟨List.prefix_rfl, .nil⟩
  | cons step steps ih =>
    obtain ⟨hHead, hStep⟩ := step.standsFor_number table
    obtain ⟨hTail, hSteps⟩ := ih (step.number table).2
    rw [List.mapM_cons]
    -- the number of the step was given when the table was shorter
    exact ⟨hHead.trans hTail, .cons (fun c hTable => hStep c (hTail.trans hTable)) hSteps⟩

/-- Steps that stand for others do what these do. -/
theorem foldlM_resolve {c : Code} {numbered : List (Step Nat)} {steps : List Step}
    (h : List.Forall₂ (fun n step => c.resolve n = pure step) numbered steps) (env : Env)
    (s : State) :
    numbered.foldlM (fun s n => do perform env s (← c.resolve n)) s =
      steps.foldlM (perform env) s := by
  induction h generalizing s with
  | nil => rfl
  | cons hHead _ ih =>
    rw [List.foldlM_cons, List.foldlM_cons, hHead, pure_bind]
    congr 1
    funext s₁
    exact ih s₁

/-- A linked program runs as it did before. -/
theorem Program.run_link (p : Program) (env : Env) : p.link.run env = p.run env := by
  obtain ⟨-, hSteps⟩ := standsFor_mapM p.steps .empty
  have hResolve : List.Forall₂ (fun n step => p.link.resolve n = pure step) p.link.steps p.steps :=
    hSteps.imp fun n step h => h p.link List.prefix_rfl
  rw [Code.run, Program.run, foldlM_resolve hResolve]
  rfl

end Machine

end Reckon
