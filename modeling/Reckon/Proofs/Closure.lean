import Mathlib
import Reckon.Closure
import Reckon.Proofs.Formula.Order
import Reckon.Proofs.Operands

/-!
# Reckon — what closures compute

Nested functions are the evaluation of the formula they were made from, and so
is a flat program, wherever the two meet inside the formula:

* `Closure.nest_eq` — the nested functions of a formula are its evaluation;
* `Flat.Lays` — what is laid out for formulas: steps that evaluate them above any
  values, and leave one value for each of them. It is put together from what is
  laid out for the children of a formula;
* `Flat.flatten_lays` — flattening a formula lays it out, so that the count of
  values is right (`Flat.depth_flatten`);
* `Closure.compile_eq` — nested functions and flat programs together.
-/

namespace Reckon

namespace Formula

theorem evalAll_singleton (env : Env) (f : Formula) :
    evalAll env [f] = do
      let value ← f.eval env
      return [value] := by
  simp [evalAll]

theorem evalAll_append (env : Env) (fs gs : List Formula) :
    evalAll env (fs ++ gs) = do
      let values ← evalAll env fs
      let more ← evalAll env gs
      return values ++ more := by
  induction fs with
  | nil => simp [evalAll]
  | cons f fs ih => simp [evalAll, ih]

end Formula

namespace Closure

/-! ## Nested functions -/

/-- A call of a fixed width is only made from so many closures. -/
theorem callWith_eq (name : String) (parameters : List Closure) :
    callWith name parameters = .ok (callMany name parameters) := by
  unfold callWith
  split
  · next hLength =>
    rw [List.length_eq_zero_iff.1 hLength]
    rfl
  iterate 8
    next hLength => exact if_pos hLength
  rfl

theorem nest_call (name : String) (ps : List Formula) :
    nest (.call name ps) = do
      let parameters ← nestAll ps
      return callMany name parameters := by
  rw [nest]
  simp only [callWith_eq]
  rfl

theorem nestAll_eq {ps : List Formula}
    (ih : ∀ p ∈ ps, ∀ {c : Closure}, nest p = .ok c → c = fun env => p.eval env)
    {cs : List Closure} (h : nestAll ps = .ok cs) (env : Env) :
    runAll env cs = Formula.evalAll env ps := by
  induction ps generalizing cs with
  | nil =>
    cases h
    rfl
  | cons p ps ihTail =>
    rw [nestAll] at h
    obtain ⟨c, hHead, h⟩ := ok_of_bind h
    obtain ⟨cs', hTail, h⟩ := ok_of_bind h
    cases h
    have hc := ih p (List.mem_cons_self ..) hHead
    subst hc
    rw [runAll, Formula.evalAll, ihTail (fun q hq => ih q (List.mem_cons_of_mem p hq)) hTail]

/-- The nested functions of a formula are its evaluation. -/
theorem nest_eq {f : Formula} {c : Closure} (h : nest f = .ok c) : c = fun env => f.eval env := by
  induction f generalizing c with
  | number literal =>
    cases h
    rfl
  | var name =>
    cases h
    rfl
  | binary op left right ihLeft ihRight =>
    rw [nest] at h
    obtain ⟨cLeft, hLeft, h⟩ := ok_of_bind h
    obtain ⟨cRight, hRight, h⟩ := ok_of_bind h
    cases h
    rw [ihLeft hLeft, ihRight hRight]
    rfl
  | unary op operand ih =>
    rw [nest] at h
    obtain ⟨cOperand, hOperand, h⟩ := ok_of_bind h
    have hc := ih hOperand
    subst hc
    cases op with
    | plus =>
      cases h
      funext env
      exact (Formula.eval_plus env operand).symm
    | minus =>
      cases h
      rfl
    | times | divide | modulo | power => cases h -- no function is made for these signs
  | call name ps ih =>
    rw [nest_call] at h
    obtain ⟨cs, hParameters, h⟩ := ok_of_bind h
    cases h
    funext env
    rw [callMany, Formula.eval, nestAll_eq (fun p hp => ih p hp) hParameters env]

/-! ## Flat programs -/

instance : TakesOperands Step := ⟨Step.pops, fun _ => 1⟩

namespace Flat

theorem depthAfter_cons (depth : Nat) (step : Step) (steps : List Step) :
    depthAfter depth (step :: steps) =
      if step.pops ≤ depth then depthAfter (depth - step.pops + 1) steps else none :=
  rfl

theorem steps_foldl_add (steps : List Step) (p : Flat) :
    (steps.foldl add p).steps = steps.reverse ++ p.steps := by
  induction steps generalizing p with
  | nil => rfl
  | cons step steps ih =>
    rw [List.foldl_cons, ih, List.reverse_cons, List.append_assoc]
    rfl

/-- A program keeps the tally of the steps that are added. -/
theorem tally_foldl_add (steps : List Step) (p : Flat) :
    ((steps.foldl add p).depth, (steps.foldl add p).stackSize) =
      steps.foldl tally (p.depth, p.stackSize) := by
  induction steps generalizing p with
  | nil => rfl
  | cons step steps ih =>
    rw [List.foldl_cons, ih]
    rfl

theorem depth_foldl_add {steps : List Step} {p : Flat} {final : Nat}
    (h : depthAfter p.depth steps = some final) : (steps.foldl add p).depth = final := by
  rw [← fst_foldl_tally h p.stackSize, ← tally_foldl_add]

/-- The nested functions of a step were made from a subformula that is low
enough. -/
def MadeFrom (f : Formula) : Step → Prop
  | .run c => ∃ g ∈ f.preorder, g.levels ≤ maxNested ∧ nest g = .ok c
  | _ => True

/-- The steps that are laid out for formulas: they leave one value for each of
them, whatever is on the stack below, and the value of the last one on top. -/
structure Lays (fs : List Formula) (p p' : Flat) (steps : List Step) : Prop where
  eq_foldl : p' = steps.foldl add p
  depth_eq : ∀ depth, depthAfter depth steps = some (depth + fs.length)
  runs : ∀ env stack, steps.foldlM (perform env) stack = do
    let values ← Formula.evalAll env fs
    return values.reverse ++ stack
  made : ∀ step ∈ steps, ∃ f ∈ fs, MadeFrom f step

theorem MadeFrom.of_child {f g : Formula} (hg : g ∈ f.children) {step : Step}
    (h : MadeFrom g step) : MadeFrom f step := by
  cases step with
  | run c =>
    obtain ⟨low, hLow, hHeight, hNest⟩ := h
    exact ⟨low, Formula.mem_preorder_of_child hg hLow, hHeight, hNest⟩
  | _ => trivial

theorem lays_nil (p : Flat) : Lays [] p p [] :=
  ⟨rfl, fun _ => rfl, fun _ _ => rfl, by simp⟩

theorem Lays.append {fs gs : List Formula} {p p₁ p₂ : Flat} {first second : List Step}
    (h : Lays fs p p₁ first) (h' : Lays gs p₁ p₂ second) :
    Lays (fs ++ gs) p p₂ (first ++ second) := by
  refine ⟨by rw [List.foldl_append, ← h.eq_foldl, h'.eq_foldl], fun depth => ?_,
    fun env stack => ?_, fun step hStep => ?_⟩
  · rw [depthAfter_append, h.depth_eq, Option.bind_some, h'.depth_eq, List.length_append,
      Nat.add_assoc]
  · rw [List.foldlM_append, h.runs, Formula.evalAll_append]
    simp [h'.runs]
  · rcases List.mem_append.1 hStep with hStep | hStep
    · obtain ⟨f, hf, hMade⟩ := h.made step hStep
      exact ⟨f, List.mem_append_left gs hf, hMade⟩
    · obtain ⟨f, hf, hMade⟩ := h'.made step hStep
      exact ⟨f, List.mem_append_right fs hf, hMade⟩

/-- A formula that is low enough is a single step. -/
theorem lays_nest {f : Formula} (hFits : f.fits maxNested = true) {p p' : Flat}
    (h : (do let c ← nest f; return p.add (.run c)) = .ok p') : ∃ steps, Lays [f] p p' steps := by
  obtain ⟨c, hNest, h⟩ := ok_of_bind h
  cases h
  refine ⟨[.run c], rfl, fun _ => rfl, fun env stack => ?_, fun step hStep => ?_⟩
  · rw [Formula.evalAll_singleton, nest_eq hNest]
    simp [perform]
  · rw [List.mem_singleton] at hStep
    subst hStep
    exact ⟨f, List.mem_singleton_self f, f, f.self_mem_preorder, Formula.fits_iff.1 hFits, hNest⟩

/-- A step behind what is laid out for the children of a formula takes one value
for each of them, and leaves the value of the formula. -/
theorem Lays.parent {f : Formula} {p p₁ : Flat} {steps : List Step}
    (h : Lays f.children p p₁ steps) (step : Step) (hPops : step.pops = f.children.length)
    (hRun : ∀ env stack, (do
        let values ← Formula.evalAll env f.children
        perform env (values.reverse ++ stack) step) = do
      let value ← f.eval env
      return value :: stack)
    (hStep : MadeFrom f step) : Lays [f] p (p₁.add step) (steps ++ [step]) := by
  refine ⟨by rw [List.foldl_append, ← h.eq_foldl]; rfl, fun depth => ?_, fun env stack => ?_, ?_⟩
  · -- the count goes up by one for each child, and the step takes them all
    rw [depthAfter_append, h.depth_eq, Option.bind_some, ← hPops, depthAfter_cons,
      if_pos (Nat.le_add_left ..), Nat.add_sub_cancel]
    rfl
  · rw [List.foldlM_append, h.runs, Formula.evalAll_singleton]
    simpa using hRun env stack
  · intro step' hMem
    refine ⟨f, List.mem_singleton_self f, ?_⟩
    rcases List.mem_append.1 hMem with hMem | hMem
    · obtain ⟨g, hg, hMade⟩ := h.made step' hMem
      exact hMade.of_child hg
    · rw [List.mem_singleton.1 hMem]
      exact hStep

/-- A call takes the values of its parameters from the stack. -/
theorem perform_call (env : Env) (name : String) (ps : List Formula) (stack : List Float) :
    (do let values ← Formula.evalAll env ps
        perform env (values.reverse ++ stack) (.call name ps.length)) = do
      let value ← (Formula.call name ps).eval env
      return value :: stack := by
  rw [Formula.eval, bind_assoc]
  funext trace
  rw [Eval.bind_apply, Eval.bind_apply]
  -- the number of values on top is known only when the parameters have been evaluated
  cases hValues : Formula.evalAll env ps trace with
  | error failure trace' => rfl
  | ok values trace' =>
    have hLength := Formula.length_evalAll hValues
    dsimp only
    rw [perform, ← hLength, if_pos (by simp), List.take_left' (by simp),
      List.drop_left' (by simp), List.reverse_reverse]

theorem flattenAll_lays {fs : List Formula}
    (ih : ∀ f ∈ fs, ∀ {p p' : Flat}, flatten f p = .ok p' → ∃ steps, Lays [f] p p' steps)
    {p p' : Flat} (h : flattenAll fs p = .ok p') : ∃ steps, Lays fs p p' steps := by
  induction fs generalizing p with
  | nil =>
    cases h
    exact ⟨[], lays_nil _⟩
  | cons f fs ihTail =>
    rw [flattenAll] at h
    obtain ⟨p₁, hHead, h⟩ := ok_of_bind h
    obtain ⟨steps₁, hLays₁⟩ := ih f (List.mem_cons_self ..) hHead
    obtain ⟨steps₂, hLays₂⟩ := ihTail (fun g hg => ih g (List.mem_cons_of_mem f hg)) h
    exact ⟨steps₁ ++ steps₂, hLays₁.append hLays₂⟩

/-- A formula that is not low enough for nested functions is flattened node by
node; either way it is laid out. -/
theorem flatten_lays {f : Formula} {p p' : Flat} (h : flatten f p = .ok p') :
    ∃ steps, Lays [f] p p' steps := by
  induction f generalizing p p' with
  | number literal => exact lays_nest (f := .number literal) rfl h
  | var name => exact lays_nest (f := .var name) rfl h
  | binary op left right ihLeft ihRight =>
    rw [flatten] at h
    split at h
    · next hFits => exact lays_nest hFits h
    · obtain ⟨p₁, hLeft, h⟩ := ok_of_bind h
      obtain ⟨p₂, hRight, h⟩ := ok_of_bind h
      obtain ⟨-, -, h⟩ := ok_of_bind h
      cases h
      obtain ⟨steps₁, hLays₁⟩ := ihLeft hLeft
      obtain ⟨steps₂, hLays₂⟩ := ihRight hRight
      have hChildren : Lays (Formula.binary op left right).children p p₂ (steps₁ ++ steps₂) :=
        hLays₁.append hLays₂
      refine ⟨_, hChildren.parent (.arith op) rfl (fun env stack => ?_) trivial⟩
      simp [Formula.children, Formula.evalAll, Formula.eval, perform]
  | unary op operand ih =>
    rw [flatten.eq_def] at h
    dsimp only at h
    split at h
    · next hFits => exact lays_nest hFits h
    · cases op with
      | plus =>
        -- the value of the operand is the value of the whole
        obtain ⟨steps, hLays⟩ := ih h
        refine ⟨steps, hLays.eq_foldl, hLays.depth_eq, fun env stack => ?_, fun step hStep => ?_⟩
        · rw [hLays.runs, Formula.evalAll_singleton, Formula.evalAll_singleton, Formula.eval_plus]
        · obtain ⟨g, hg, hMade⟩ := hLays.made step hStep
          exact ⟨_, List.mem_singleton_self _, hMade.of_child hg⟩
      | minus =>
        obtain ⟨p₁, hOperand, h⟩ := ok_of_bind h
        obtain ⟨-, -, h⟩ := ok_of_bind h
        cases h
        obtain ⟨steps, hLays⟩ := ih hOperand
        have hChildren : Lays (Formula.unary .minus operand).children p p₁ steps := hLays
        refine ⟨_, hChildren.parent .negate rfl (fun env stack => ?_) trivial⟩
        simp [Formula.children, Formula.evalAll, Formula.eval, perform]
      | times | divide | modulo | power => cases h
  | call name ps ih =>
    rw [flatten] at h
    split at h
    · next hFits => exact lays_nest hFits h
    · obtain ⟨p₁, hParameters, h⟩ := ok_of_bind h
      obtain ⟨-, -, h⟩ := ok_of_bind h
      cases h
      obtain ⟨steps, hLays⟩ := flattenAll_lays (fun f hf => ih f hf) hParameters
      have hChildren : Lays (Formula.call name ps).children p p₁ steps := hLays
      exact ⟨_, hChildren.parent (.call name ps.length) rfl
        (fun env => perform_call env name ps) trivial⟩

/-! ## Counts of values -/

theorem Lays.depth {fs : List Formula} {p p' : Flat} {steps : List Step}
    (h : Lays fs p p' steps) : p'.depth = p.depth + fs.length := by
  rw [h.eq_foldl]
  exact depth_foldl_add (h.depth_eq p.depth)

/-- Flattening a formula adds one to the count of a program. -/
theorem depth_flatten {f : Formula} {p p' : Flat} (h : flatten f p = .ok p') :
    p'.depth = p.depth + 1 := by
  obtain ⟨steps, hLays⟩ := flatten_lays h
  exact hLays.depth

theorem depth_flattenAll {fs : List Formula} {p p' : Flat} (h : flattenAll fs p = .ok p') :
    p'.depth = p.depth + fs.length := by
  obtain ⟨steps, hLays⟩ := flattenAll_lays (fun f _ => flatten_lays) h
  exact hLays.depth

/-! The checks of the count never fail, so flattening can be told without them. -/

theorem flatten_binary {op : Operator} {left right : Formula}
    (hTall : ¬ (Formula.binary op left right).fits maxNested = true) (p : Flat) :
    flatten (.binary op left right) p = do
      let p ← flatten left p
      let p ← flatten right p
      return p.add (.arith op) := by
  rw [flatten, if_neg hTall]
  cases hLeft : flatten left p with
  | error err => rfl
  | ok p₁ =>
    show (flatten right p₁ >>= _) = (flatten right p₁ >>= _)
    cases hRight : flatten right p₁ with
    | error err => rfl
    | ok p₂ =>
      -- each of the two has added one to the count
      have hDepth₁ := depth_flatten hLeft
      have hDepth₂ := depth_flatten hRight
      show (checkOperands 2 p₂.depth >>= _) = _
      rw [checkOperands_ok (by omega)]
      rfl

theorem flatten_minus {operand : Formula}
    (hTall : ¬ (Formula.unary .minus operand).fits maxNested = true) (p : Flat) :
    flatten (.unary .minus operand) p = do
      let p ← flatten operand p
      return p.add .negate := by
  rw [flatten, if_neg hTall]
  cases hOperand : flatten operand p with
  | error err => rfl
  | ok p₁ =>
    have hDepth := depth_flatten hOperand
    show (checkOperands 1 p₁.depth >>= _) = _
    rw [checkOperands_ok (by omega)]
    rfl

theorem flatten_call {name : String} {ps : List Formula}
    (hTall : ¬ (Formula.call name ps).fits maxNested = true) (p : Flat) :
    flatten (.call name ps) p = do
      let p ← flattenAll ps p
      return p.add (.call name ps.length) := by
  rw [flatten, if_neg hTall]
  cases hParameters : flattenAll ps p with
  | error err => rfl
  | ok p₁ =>
    have hDepth := depth_flattenAll hParameters
    show (checkOperands ps.length p₁.depth >>= _) = _
    rw [checkOperands_ok (by omega)]
    rfl

/-- A run of the flat program of a formula is its evaluation. -/
theorem run_eq_eval {f : Formula} {p : Flat} (h : flatten f {} = .ok p) (env : Env) :
    p.run env = f.eval env := by
  obtain ⟨steps, hLays⟩ := flatten_lays h
  have hSteps : p.steps.reverse = steps := by
    rw [hLays.eq_foldl, steps_foldl_add, List.append_nil, List.reverse_reverse]
  rw [run, hSteps, hLays.runs, Formula.evalAll_singleton]
  simp [top]

end Flat

/-- A formula as a closure is its evaluation. -/
theorem compile_eq {f : Formula} {c : Closure} (h : compile f = .ok c) :
    c = fun env => f.eval env := by
  rw [compile] at h
  split at h
  · exact nest_eq h
  · obtain ⟨p, hFlatten, h⟩ := ok_of_bind h
    cases h
    funext env
    exact Flat.run_eq_eval hFlatten env

end Closure

end Reckon
