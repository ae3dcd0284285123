import Mathlib
import Reckon.Core.Assemble
import Reckon.Proofs.Machine

/-!
# Reckon — what lowered formulas compute

Lowering a formula and assembling the core expression gives every call cells of
its own. The cells of a call lie above those that were taken before it and
below those of the calls inside its parameters, so nothing that is computed
between a store and its call can overwrite it:

* `Core.emit_computes` — the steps of a lowered formula compute its value and
  leave alone the cells that were taken before;
* `Core.run_assemble` — the program of a lowered formula runs as its evaluation;
* `Core.exists_lower` — there are no other programs of core expressions.
-/

namespace Reckon

namespace Core

open Machine (Assembly Computes Stores)

/-- What adding a step does to a program under construction. -/
theorem emitStep_eq {a a' : Assembly} {step : Machine.Step} (h : emitStep a step = .ok a') :
    a'.steps = step :: a.steps ∧ a'.cells = a.cells := by
  rw [emitStep, Assembly.add?] at h
  split at h
  · next a₁ hAdd =>
    cases h
    split at hAdd
    · cases hAdd
      exact ⟨rfl, rfl⟩
    · cases hAdd
  · cases h

/-- The steps added between two states of a program under construction compute
a formula, with the cells that were taken before left alone. -/
def Adds (f : Formula) (a a' : Assembly) : Prop :=
  a.cells ≤ a'.cells ∧ ∃ steps, a'.steps = steps.reverse ++ a.steps ∧
    ∀ env, Computes env a.cells a'.cells steps (f.eval env)

/-- A single step without cells of its own. -/
theorem adds_step {f : Formula} {a a' : Assembly} {step : Machine.Step}
    (h : emitStep a step = .ok a')
    (hStep : ∀ env, Computes env a.cells a.cells [step] (f.eval env)) : Adds f a a' := by
  obtain ⟨hSteps, hCells⟩ := emitStep_eq h
  refine ⟨by omega, [step], hSteps, fun env => ?_⟩
  rw [hCells]
  exact hStep env

/-- There is one core expression for each parameter. -/
theorem length_lowerAll {ps : List Formula} {es : List Core}
    (h : Formula.lowerAll ps = .ok es) : es.length = ps.length := by
  induction ps generalizing es with
  | nil =>
    cases h
    rfl
  | cons p ps ih =>
    rw [Formula.lowerAll] at h
    obtain ⟨e, hHead, h⟩ := ok_of_bind h
    obtain ⟨es', hTail, h⟩ := ok_of_bind h
    cases h
    rw [List.length_cons, List.length_cons, ih hTail]

theorem emitParameters_stores {ps : List Formula}
    (ih : ∀ p ∈ ps, ∀ {e : Core} {a a' : Assembly}, p.lower = .ok e → e.emit a = .ok a' →
      Adds p a a')
    {es : List Core} (hLower : Formula.lowerAll ps = .ok es) {cell : Nat} {a a' : Assembly}
    (hEmit : emitParameters cell es a = .ok a') (hCells : cell + ps.length ≤ a.cells) :
    a.cells ≤ a'.cells ∧ ∃ steps, a'.steps = steps.reverse ++ a.steps ∧
      ∀ env, Stores env cell a'.cells steps (Formula.evalAll env ps) := by
  induction ps generalizing es cell a with
  | nil =>
    cases hLower
    cases hEmit
    exact ⟨Nat.le_refl _, [], rfl, fun env => Machine.stores_nil⟩
  | cons p ps ihTail =>
    rw [Formula.lowerAll] at hLower
    obtain ⟨e, hLowerHead, hLower⟩ := ok_of_bind hLower
    obtain ⟨es', hLowerTail, hLower⟩ := ok_of_bind hLower
    cases hLower
    rw [emitParameters] at hEmit
    obtain ⟨a₁, hEmitHead, hEmit⟩ := ok_of_bind hEmit
    obtain ⟨a₂, hStore, hEmit⟩ := ok_of_bind hEmit
    rw [List.length_cons] at hCells
    obtain ⟨hLe₁, steps₁, hSteps₁, hComputes⟩ :=
      ih p (List.mem_cons_self ..) hLowerHead hEmitHead
    obtain ⟨hSteps₂, hCells₂⟩ := emitStep_eq hStore
    obtain ⟨hLe₂, steps₂, hSteps', hStores⟩ :=
      ihTail (fun q hq => ih q (List.mem_cons_of_mem p hq)) hLowerTail hEmit (by omega)
    refine ⟨by omega, steps₁ ++ [.store cell] ++ steps₂, ?_, ?_⟩
    · rw [hSteps', hSteps₂, hSteps₁]
      simp
    · intro env
      rw [Formula.evalAll]
      -- the parameter itself used only cells that were free
      exact ((hComputes env).mono (by omega) (by omega)).storesCons (by omega) (hStores env)

/-- The steps of a lowered formula compute it. -/
theorem emit_computes {f : Formula} {e : Core} {a a' : Assembly} (hLower : f.lower = .ok e)
    (hEmit : e.emit a = .ok a') : Adds f a a' := by
  induction f generalizing e a a' with
  | number literal =>
    cases hLower
    exact adds_step hEmit fun env => Machine.computes_constant literal
  | var name =>
    cases hLower
    exact adds_step hEmit fun env => Machine.computes_lookup name
  | binary op left right ihLeft ihRight =>
    rw [Formula.lower] at hLower
    obtain ⟨eLeft, hLowerLeft, hLower⟩ := ok_of_bind hLower
    obtain ⟨eRight, hLowerRight, hLower⟩ := ok_of_bind hLower
    cases hLower
    rw [emit] at hEmit
    obtain ⟨a₁, hEmitLeft, hEmit⟩ := ok_of_bind hEmit
    obtain ⟨a₂, hEmitRight, hEmit⟩ := ok_of_bind hEmit
    -- the right operand takes its cells above those of the left one
    obtain ⟨hLe₁, steps₁, hSteps₁, hComputes₁⟩ := ihLeft hLowerLeft hEmitLeft
    obtain ⟨hLe₂, steps₂, hSteps₂, hComputes₂⟩ := ihRight hLowerRight hEmitRight
    obtain ⟨hSteps₃, hCells₃⟩ := emitStep_eq hEmit
    refine ⟨by omega, steps₁ ++ steps₂ ++ [.arith op], ?_, ?_⟩
    · rw [hSteps₃, hSteps₂, hSteps₁]
      simp
    · intro env
      rw [Formula.eval]
      exact ((hComputes₁ env).mono (by omega) (by omega)).arith op
        ((hComputes₂ env).mono (by omega) (by omega))
  | unary op operand ih =>
    cases op with
    | plus =>
      rw [Formula.lower] at hLower
      obtain ⟨hLe, steps, hSteps, hComputes⟩ := ih hLower hEmit
      refine ⟨hLe, steps, hSteps, fun env => ?_⟩
      rw [Formula.eval_plus]
      exact hComputes env
    | minus =>
      rw [Formula.lower] at hLower
      obtain ⟨eOperand, hLowerOperand, hLower⟩ := ok_of_bind hLower
      cases hLower
      rw [emit] at hEmit
      obtain ⟨a₁, hEmitOperand, hEmit⟩ := ok_of_bind hEmit
      obtain ⟨hLe, steps, hSteps, hComputes⟩ := ih hLowerOperand hEmitOperand
      obtain ⟨hSteps₁, hCells₁⟩ := emitStep_eq hEmit
      refine ⟨by omega, steps ++ [.negate], ?_, ?_⟩
      · rw [hSteps₁, hSteps]
        simp
      · intro env
        rw [Formula.eval, hCells₁]
        exact (hComputes env).negate
    | times | divide | modulo | power =>
      rw [Formula.lower] at hLower
      · cases hLower
      all_goals simp
  | call name ps ih =>
    rw [Formula.lower] at hLower
    obtain ⟨es, hLowerAll, hLower⟩ := ok_of_bind hLower
    cases hLower
    rw [callFunction, emit] at hEmit
    obtain ⟨a₁, hEmitAll, hEmit⟩ := ok_of_bind hEmit
    -- the cells of the call are set aside before its parameters are looked at
    have hLength := length_lowerAll hLowerAll
    have hReserve : (a.reserve es.length).cells = a.cells + ps.length := by
      rw [Assembly.reserve, hLength]
    obtain ⟨hLe, steps, hSteps, hStores⟩ :=
      emitParameters_stores (fun p hp => ih p hp) hLowerAll hEmitAll (by omega)
    obtain ⟨hSteps₁, hCells₁⟩ := emitStep_eq hEmit
    refine ⟨by omega, steps ++ [.call name a.cells es.length], ?_, ?_⟩
    · rw [hSteps₁, hSteps]
      simp [Assembly.reserve]
    · intro env
      rw [Formula.eval, hCells₁, hLength]
      exact (hStores env).computesCall name (by omega) fun _ _ _ h => Formula.length_evalAll h

/-- The program of a lowered formula runs as its evaluation. -/
theorem run_assemble {f : Formula} {e : Core} {p : Machine.Program} (hLower : f.lower = .ok e)
    (h : e.assemble = .ok p) (env : Env) : p.run env = f.eval env := by
  rw [assemble] at h
  obtain ⟨a, hEmit, h⟩ := ok_of_bind h
  obtain ⟨-, steps, hSteps, hComputes⟩ := emit_computes hLower hEmit
  rw [Assembly.finish?] at h
  split at h
  · next p' hFinish =>
    cases h
    split at hFinish
    · cases hFinish
      apply Machine.Program.run_eq_of_computes
      have hReverse : a.steps.reverse = steps := by
        rw [hSteps]
        simp
      rw [hReverse]
      exact hComputes env
    · cases hFinish
  · cases h

/-! ## Where assembled expressions come from -/

mutual

/-- Every core expression that can be assembled is a lowered formula: a call
with other operands than its method takes is refused wherever it stands. -/
theorem exists_lower {a a' : Assembly} :
    ∀ e : Core, e.emit a = .ok a' → ∃ f : Formula, f.lower = .ok e
  | .constant literal, _ => ⟨.number literal, rfl⟩
  | .arith op left right, h => by
    rw [emit] at h
    obtain ⟨a₁, hLeft, h⟩ := ok_of_bind h
    obtain ⟨a₂, hRight, -⟩ := ok_of_bind h
    obtain ⟨f, hf⟩ := exists_lower left hLeft
    obtain ⟨g, hg⟩ := exists_lower right hRight
    refine ⟨.binary op f g, ?_⟩
    rw [Formula.lower, hf, hg]
    rfl
  | .negate operand, h => by
    rw [emit] at h
    obtain ⟨a₁, hOperand, -⟩ := ok_of_bind h
    obtain ⟨f, hf⟩ := exists_lower operand hOperand
    refine ⟨.unary .minus f, ?_⟩
    rw [Formula.lower, hf]
    rfl
  | .call .getVariable [.literal name], _ => ⟨.var name, rfl⟩
  | .call .callFunction [.literal name, .array es], h => by
    rw [emit] at h
    obtain ⟨a₁, hParameters, -⟩ := ok_of_bind h
    obtain ⟨ps, hps⟩ := exists_lowerAll es hParameters
    refine ⟨.call name ps, ?_⟩
    rw [Formula.lower, hps]
    rfl
  -- what is left are the operands that a method does not take
  | .call .getVariable [], h | .call .getVariable (.value _ :: _), h
  | .call .getVariable (.array _ :: _), h | .call .getVariable (.literal _ :: _ :: _), h
  | .call .callFunction [], h | .call .callFunction (.value _ :: _), h
  | .call .callFunction (.array _ :: _), h | .call .callFunction [.literal _], h
  | .call .callFunction (.literal _ :: .literal _ :: _), h
  | .call .callFunction (.literal _ :: .value _ :: _), h
  | .call .callFunction (.literal _ :: .array _ :: _ :: _), h => by cases h

theorem exists_lowerAll {cell : Nat} {a a' : Assembly} :
    ∀ es : List Core, emitParameters cell es a = .ok a' →
      ∃ ps : List Formula, Formula.lowerAll ps = .ok es
  | [], _ => ⟨[], rfl⟩
  | e :: es, h => by
    rw [emitParameters] at h
    obtain ⟨a₁, hHead, h⟩ := ok_of_bind h
    obtain ⟨a₂, -, hTail⟩ := ok_of_bind h
    obtain ⟨p, hp⟩ := exists_lower e hHead
    obtain ⟨ps, hps⟩ := exists_lowerAll es hTail
    refine ⟨p :: ps, ?_⟩
    rw [Formula.lowerAll, hp, hps]
    rfl

end

end Core

end Reckon
