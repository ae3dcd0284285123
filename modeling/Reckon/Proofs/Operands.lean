import Mathlib
import Reckon.CompileError

/-!
# Reckon — counting operands

The steps of machine programs and those of flat programs both work on a stack,
and how many values a step takes from it and leaves on it is known without
running it. So the values can be counted along a list of steps of either kind:

* `depthAfter` — the number of values behind steps, if all of them find what they
  take;
* `tally` — what is kept while steps are added one by one, the number of values
  and the greatest number so far. It is the greatest one indeed
  (`tally_isGreatest`).
-/

namespace Reckon

theorem checkOperands_ok {taken counted : Nat} (h : taken ≤ counted) :
    checkOperands taken counted = .ok () :=
  if_pos h

/-- Steps of which it is known how many values they take and leave. -/
class TakesOperands (ι : Type) where
  pops : ι → Nat
  pushes : ι → Nat

open TakesOperands

variable {ι : Type} [TakesOperands ι]

/-- The number of values behind steps that find `depth` of them; none if one of
the steps finds too few. -/
def depthAfter : Nat → List ι → Option Nat
  | depth, [] => some depth
  | depth, step :: steps =>
    if pops step ≤ depth then depthAfter (depth - pops step + pushes step) steps else none

theorem depthAfter_append (depth : Nat) (first second : List ι) :
    depthAfter depth (first ++ second) =
      (depthAfter depth first).bind fun depth => depthAfter depth second := by
  induction first generalizing depth with
  | nil => rfl
  | cons step first ih =>
    rw [List.cons_append, depthAfter, depthAfter]
    split
    · exact ih _
    · rfl

/-- The number of values and the greatest number so far, behind one more step. -/
def tally (count : Nat × Nat) (step : ι) : Nat × Nat :=
  (count.1 - pops step + pushes step, max count.2 (count.1 - pops step + pushes step))

/-- The number of values is kept. -/
theorem fst_foldl_tally {steps : List ι} {depth final : Nat}
    (hDepth : depthAfter depth steps = some final) (peak : Nat) :
    (steps.foldl tally (depth, peak)).1 = final := by
  induction steps generalizing depth peak with
  | nil =>
    cases hDepth
    rfl
  | cons step steps ih =>
    rw [depthAfter] at hDepth
    split_ifs at hDepth
    exact ih hDepth _

/-- The greatest number of values that there are behind any of the steps is
kept. -/
theorem tally_isGreatest {steps : List ι} {depth final peak : Nat}
    (hDepth : depthAfter depth steps = some final) (hPeak : depth ≤ peak) :
    IsGreatest (insert peak {n | ∃ front, front <+: steps ∧ depthAfter depth front = some n})
      (steps.foldl tally (depth, peak)).2 := by
  induction steps generalizing depth peak with
  | nil =>
    refine ⟨Set.mem_insert _ _, ?_⟩
    rintro n (rfl | ⟨front, hFront, hCount⟩)
    · exact Nat.le_refl _
    · rw [List.prefix_nil] at hFront
      subst hFront
      cases hCount
      exact hPeak
  | cons step steps ih =>
    rw [depthAfter] at hDepth
    split_ifs at hDepth with hPops
    rw [List.foldl_cons, tally]
    dsimp only
    -- what is counted behind the step is counted from the number that it leaves
    have hCons : ∀ front, depthAfter depth (step :: front) =
        depthAfter (depth - pops step + pushes step) front := by
      intro front
      rw [depthAfter, if_pos hPops]
    generalize depth - pops step + pushes step = next at hDepth hCons
    obtain ⟨hMem, hUpper⟩ := ih hDepth (Nat.le_max_right peak next)
    have hBound := hUpper (Set.mem_insert _ _)
    constructor
    · rcases hMem with hEq | ⟨front, hFront, hCount⟩
      · -- the peak is the old one, or it is reached by this step
        rw [hEq]
        rcases Nat.le_total next peak with hLe | hLe
        · exact Or.inl (Nat.max_eq_left hLe)
        · refine Or.inr ⟨[step], ⟨steps, rfl⟩, ?_⟩
          rw [hCons, Nat.max_eq_right hLe]
          rfl
      · exact Or.inr ⟨step :: front, List.cons_prefix_cons.2 ⟨rfl, hFront⟩, by rw [hCons, hCount]⟩
    · rintro n (rfl | ⟨front, hFront, hCount⟩)
      · exact Nat.le_trans (Nat.le_max_left _ _) hBound
      · cases front with
        | nil =>
          cases hCount
          exact Nat.le_trans (Nat.le_trans hPeak (Nat.le_max_left _ _)) hBound
        | cons s front =>
          obtain ⟨rfl, hRest⟩ := List.cons_prefix_cons.1 hFront
          rw [hCons] at hCount
          exact hUpper (Or.inr ⟨front, hRest, hCount⟩)

end Reckon
