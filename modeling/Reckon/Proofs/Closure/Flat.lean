import Mathlib
import Reckon.Proofs.Closure
import Reckon.Proofs.Misplaced

/-!
# Reckon — flat programs and nested functions

Above a height, a formula becomes a flat program instead of nested functions.
Nothing that can be observed depends on it, and the program is laid out soundly
whatever the formula looks like, tall on one side and low on the other:

* `Flat.depthAfter_of_foldlM` — steps that are performed leave stacks of exactly
  the lengths that are counted without running them;
* `Flat.Sound` — what holds of a flat program and all its runs. Every program
  that is made of a formula is sound (`Flat.sound_of_flatten`);
* `threshold_unobservable` — both ways of compiling do the same, and all flat
  programs are sound.
-/

namespace Reckon.Closure

namespace Flat

/-! ## Lengths of stacks -/

/-- A step that is performed has found its operands, and leaves one value in
their place. -/
theorem length_perform {env : Env} {step : Step} {stack stack' : List Float}
    {trace trace' : List Lookup} (h : perform env stack step trace = .ok stack' trace') :
    step.pops ≤ stack.length ∧ stack'.length = stack.length - step.pops + 1 := by
  cases step with
  | run c =>
    obtain ⟨value, trace₁, -, h⟩ := Eval.ok_of_bind h
    cases h
    exact ⟨Nat.zero_le _, rfl⟩
  | arith op =>
    rcases stack with _ | ⟨b, _ | ⟨a, stack⟩⟩
    · cases h
    · cases h -- one operand is missing still
    · cases h
      exact ⟨Nat.le_add_left 2 stack.length, rfl⟩
  | negate =>
    cases stack with
    | nil => cases h
    | cons a stack =>
      cases h
      exact ⟨Nat.le_add_left 1 stack.length, rfl⟩
  | call name count =>
    rw [perform] at h
    split at h
    · next hCount =>
      obtain ⟨value, trace₁, -, h⟩ := Eval.ok_of_bind h
      cases h
      exact ⟨hCount, by rw [List.length_cons, List.length_drop, Step.pops]⟩
    · cases h

/-- Steps that are performed leave as many values as are counted. -/
theorem depthAfter_of_foldlM {env : Env} {steps : List Step} {stack stack' : List Float}
    {trace trace' : List Lookup}
    (h : steps.foldlM (perform env) stack trace = .ok stack' trace') :
    depthAfter stack.length steps = some stack'.length := by
  induction steps generalizing stack trace with
  | nil =>
    cases h
    rfl
  | cons step steps ih =>
    rw [List.foldlM_cons] at h
    obtain ⟨stack₁, trace₁, hStep, h⟩ := Eval.ok_of_bind h
    obtain ⟨hPops, hLength⟩ := length_perform hStep
    rw [depthAfter_cons, if_pos hPops, ← hLength]
    exact ih h

/-! ## Programs -/

/-- The lengths of the stack between the steps of a run, up to where it fails. -/
def lengths (p : Flat) (env : Env) : Set Nat :=
  {n | ∃ front stack trace, front <+: p.steps.reverse ∧
    front.foldlM (perform env) [] [] = .ok stack trace ∧ stack.length = n}

/-- What holds of a flat program of a formula. -/
structure Sound (f : Formula) (p : Flat) : Prop where
  /-- A run performs all steps from an empty stack. -/
  run_eq : ∀ env, p.run env = p.steps.reverse.foldlM (perform env) [] >>= top
  /-- A step that runs nested functions runs those of a low subformula. -/
  nested : ∀ c, .run c ∈ p.steps → ∃ g ∈ f.preorder, g.levels ≤ 64 ∧ nest g = .ok c
  /-- A step that is reached finds the values that it takes. -/
  fed : ∀ env before step after stack trace trace', p.steps.reverse = before ++ step :: after →
    before.foldlM (perform env) [] trace = .ok stack trace' → step.pops ≤ stack.length
  /-- One value is left at the end. -/
  single : ∀ env stack trace trace',
    p.steps.reverse.foldlM (perform env) [] trace = .ok stack trace' → stack.length = 1
  /-- The stack never gets longer than the program says. -/
  bounded : ∀ env, p.stackSize ∈ upperBounds (p.lengths env)
  /-- If the run has a value, the stack gets as long as that. -/
  reached : ∀ env value, (p.run env).outcome.result = .ok value →
    IsGreatest (p.lengths env) p.stackSize

/-- A run with a value has performed all steps. -/
theorem exists_performed {p : Flat} {env : Env} {value : Float}
    (h : (p.run env).outcome.result = .ok value) :
    ∃ stack trace, p.steps.reverse.foldlM (perform env) [] [] = .ok stack trace := by
  rw [Eval.outcome] at h
  cases hRun : p.run env [] with
  | error failure trace =>
    rw [hRun] at h
    cases h
  | ok value' trace =>
    obtain ⟨stack, trace₁, hSteps, -⟩ := Eval.ok_of_bind hRun
    exact ⟨stack, trace₁, hSteps⟩

/-- All the steps before some of those that are performed are performed. -/
theorem exists_performed_prefix {env : Env} {front steps : List Step} (hFront : front <+: steps)
    {stack stack' : List Float} {trace trace' : List Lookup}
    (h : steps.foldlM (perform env) stack trace = .ok stack' trace') :
    ∃ stack₁ trace₁, front.foldlM (perform env) stack trace = .ok stack₁ trace₁ := by
  obtain ⟨rest, rfl⟩ := hFront
  rw [List.foldlM_append] at h
  obtain ⟨stack₁, trace₁, hSteps, -⟩ := Eval.ok_of_bind h
  exact ⟨stack₁, trace₁, hSteps⟩

/-- The program of a formula is sound. -/
theorem sound_of_flatten {f : Formula} {p : Flat} (h : flatten f {} = .ok p) : p.Sound f := by
  obtain ⟨steps, hLays⟩ := flatten_lays h
  have hSteps : p.steps = steps.reverse := by
    rw [hLays.eq_foldl, steps_foldl_add, List.append_nil]
  have hDepth : depthAfter 0 steps = some 1 := hLays.depth_eq 0
  -- the program keeps the tally of its steps
  have hTally : p.stackSize = (steps.foldl tally (0, 0)).2 := by
    rw [hLays.eq_foldl]
    exact congrArg Prod.snd (tally_foldl_add steps {})
  have hGreatest := tally_isGreatest hDepth (Nat.le_refl 0)
  rw [← hTally] at hGreatest
  have hBounded : ∀ env, p.stackSize ∈ upperBounds (p.lengths env) := by
    rintro env n ⟨front, stack, trace, hFront, hPerformed, rfl⟩
    rw [hSteps, List.reverse_reverse] at hFront
    exact hGreatest.2 (Or.inr ⟨front, hFront, depthAfter_of_foldlM hPerformed⟩)
  refine ⟨fun _ => rfl, fun c hc => ?_, ?_, ?_, hBounded,
    fun env value hValue => ⟨?_, hBounded env⟩⟩
  · -- the formula is the only one that was laid out
    rw [hSteps, List.mem_reverse] at hc
    obtain ⟨g, hg, hMade⟩ := hLays.made _ hc
    rw [List.mem_singleton] at hg
    subst hg
    exact hMade
  · intro env before step after stack trace trace' hSplit hPerformed
    rw [hSteps, List.reverse_reverse] at hSplit
    -- the count goes on behind `before` with the length of the stack that is there
    have hCount : depthAfter 0 before = some stack.length := depthAfter_of_foldlM hPerformed
    rw [hSplit, depthAfter_append, hCount, Option.bind_some, depthAfter_cons] at hDepth
    split_ifs at hDepth with hPops
    exact hPops
  · intro env stack trace trace' hPerformed
    have hCount := depthAfter_of_foldlM hPerformed
    rw [hSteps, List.reverse_reverse, List.length_nil, hDepth] at hCount
    exact (Option.some.inj hCount).symm
  · -- a run with a value comes by every step, also by the one with the greatest count
    obtain ⟨stack, trace, hPerformed⟩ := exists_performed hValue
    rcases hGreatest.1 with hZero | ⟨front, hFront, hCount⟩
    · -- an empty stack is there at the start
      refine ⟨[], [], [], List.nil_prefix, rfl, ?_⟩
      exact hZero.symm
    · rw [← List.reverse_reverse steps, ← hSteps] at hFront
      obtain ⟨stack₁, trace₁, hPerformed₁⟩ := exists_performed_prefix hFront hPerformed
      refine ⟨front, stack₁, trace₁, hFront, hPerformed₁, ?_⟩
      have hLength := depthAfter_of_foldlM hPerformed₁
      rw [List.length_nil, hCount] at hLength
      exact (Option.some.inj hLength).symm

end Flat

/-- Where nested functions end and a flat program begins cannot be observed. If
the unary operators of a formula are signs, then both its nested functions and
its flat program can be made, whatever its height; they do the same in every
environment, lookups included, and so does what the formula is compiled to. All
flat programs are sound. -/
theorem threshold_unobservable (f : Formula) :
    (f.wellSigned = true → ∃ c p code, nest f = .ok c ∧ Flat.flatten f {} = .ok p ∧
      compile f = .ok code ∧ ∀ env, p.run env = c env ∧ code env = c env) ∧
    ∀ p, Flat.flatten f {} = .ok p → p.Sound f := by
  refine ⟨fun hSigned => ?_, fun p => Flat.sound_of_flatten⟩
  obtain ⟨c, hNest⟩ := Formula.nest_ok hSigned
  obtain ⟨p, hFlatten⟩ := Formula.flatten_ok hSigned {}
  obtain ⟨code, hCode⟩ := Formula.closure_ok hSigned
  refine ⟨c, p, code, hNest, hFlatten, hCode, fun env => ?_⟩
  rw [Flat.run_eq_eval hFlatten, nest_eq hNest, compile_eq hCode]
  exact ⟨rfl, rfl⟩

set_option maxRecDepth 2000 in
/-- Two levels above the greatest height of nested functions, a difference of a
call and variables is a program of five steps, and needs a stack of two. -/
theorem threshold_unobservable_tall_difference :
    let f : Formula := (List.replicate 64 "x").foldl
      (fun left name => .binary .minus left (.var name)) (.call "f" [.var "y", .var "x"])
    f.levels = 66 ∧ ∃ c p code, nest f = .ok c ∧ Flat.flatten f {} = .ok p ∧
      compile f = .ok code ∧ (∀ env, p.run env = c env ∧ code env = c env) ∧
      p.Sound f ∧ p.steps.length = 5 ∧ p.stackSize = 2 := by
  intro f
  obtain ⟨hSame, hSound⟩ := threshold_unobservable f
  obtain ⟨c, p, code, hNest, hFlatten, hCode, hRuns⟩ := hSame rfl
  refine ⟨rfl, c, p, code, hNest, hFlatten, hCode, hRuns, hSound p hFlatten, ?_⟩
  have hShape : (Flat.flatten f {}).map (fun p => (p.steps.length, p.stackSize)) = .ok (5, 2) := rfl
  rw [hFlatten] at hShape
  exact Prod.mk.inj (Except.ok.inj hShape)

end Reckon.Closure
