import Mathlib
import Reckon.Formula.Eval

/-!
# Reckon — formulas and their evaluation

* `Formula.induction` — what holds of a formula once it holds of the formulas
  right below it holds of every formula; `induction` uses it for formulas;
* `Eval.Asks` — an evaluation asks one question after the other and stops at
  the first one without an answer; `Formula.eval_asks` says that the evaluation
  of a formula does.
-/

namespace Reckon

/-- A sequence of two computations succeeds only if both do. -/
theorem ok_of_bind {ε α β : Type} {x : Except ε α} {f : α → Except ε β} {b : β}
    (h : (x >>= f) = .ok b) : ∃ a, x = .ok a ∧ f a = .ok b := by
  cases x with
  | error e => cases h
  | ok a => exact ⟨a, rfl, h⟩

/-- A sequence of two computations fails only if one of them does. -/
theorem error_of_bind {ε α β : Type} {x : Except ε α} {f : α → Except ε β} {e : ε}
    (h : (x >>= f) = .error e) : x = .error e ∨ ∃ a, x = .ok a ∧ f a = .error e := by
  cases x with
  | error e' =>
    cases h
    exact Or.inl rfl
  | ok a => exact Or.inr ⟨a, rfl, h⟩

/-- A list that is split around an element and into two parts has the element
in one of the parts. -/
theorem append_cons_eq_append {α : Type} {before after first second : List α} {x : α}
    (h : first ++ second = before ++ x :: after) :
    (∃ rest, first = before ++ x :: rest) ∨
      ∃ rest, before = first ++ rest ∧ second = rest ++ x :: after := by
  rcases List.append_eq_append_iff.1 h with ⟨rest, hBefore, hSecond⟩ | ⟨rest, hFirst, hAfter⟩
  · exact Or.inr ⟨rest, hBefore, hSecond⟩
  · cases rest with
    | nil => exact Or.inr ⟨[], by simpa using hFirst.symm, by simpa using hAfter.symm⟩
    | cons y rest =>
      rw [List.cons_append, List.cons.injEq] at hAfter
      exact Or.inl ⟨rest, by rw [hFirst, hAfter.1]⟩

/-- A list that is related to two parts has parts that are related to them. -/
theorem forall₂_of_append {α β : Type} {R : α → β → Prop} {before after : List α} {bs : List β}
    (h : List.Forall₂ R (before ++ after) bs) :
    ∃ front rest, bs = front ++ rest ∧ List.Forall₂ R before front ∧ List.Forall₂ R after rest := by
  have hFlip := h.flip
  exact ⟨bs.take before.length, bs.drop before.length, (List.take_append_drop ..).symm,
    (List.forall₂_take_append bs before after hFlip).flip,
    (List.forall₂_drop_append bs before after hFlip).flip⟩

/-- What two lists have in common is the same element by element. -/
theorem forall₂_of_map_eq {α β γ : Type} {f : α → γ} {g : β → γ} {as : List α} {bs : List β}
    (h : as.map f = bs.map g) : List.Forall₂ (fun a b => f a = g b) as bs := by
  have hMapped : List.Forall₂ Eq (as.map f) (bs.map g) := by
    rw [List.forall₂_eq_eq_eq]
    exact h
  exact List.forall₂_map_right_iff.1 (List.forall₂_map_left_iff.1 hMapped)

/-- Induction on formulas. The parameters of a call are covered one by one. -/
@[induction_eliminator]
theorem Formula.induction {motive : Formula → Prop}
    (number : ∀ literal, motive (.number literal))
    (var : ∀ name, motive (.var name))
    (binary : ∀ op left right, motive left → motive right → motive (.binary op left right))
    (unary : ∀ op operand, motive operand → motive (.unary op operand))
    (call : ∀ name parameters, (∀ p ∈ parameters, motive p) → motive (.call name parameters)) :
    ∀ f, motive f
  | .number literal => number literal
  | .var name => var name
  | .binary op left right =>
    binary op left right (Formula.induction number var binary unary call left)
      (Formula.induction number var binary unary call right)
  | .unary op operand => unary op operand (Formula.induction number var binary unary call operand)
  | .call name parameters =>
    call name parameters fun p _ => Formula.induction number var binary unary call p
termination_by f => sizeOf f
decreasing_by
  all_goals simp_wf
  · omega
  · have hLt := List.sizeOf_lt_of_mem ‹p ∈ parameters›
    omega

/-! ## Sequences of evaluations -/

/-- What a sequence of two evaluations does to the trace. -/
theorem Eval.bind_apply {α β : Type} (x : Eval α) (f : α → Eval β) (trace : List Lookup) :
    (x >>= f) trace = match x trace with
      | .ok value trace => f value trace
      | .error failure trace => .error failure trace := by
  cases h : x trace <;> simp [bind, EStateM.bind, h]

/-- A sequence of two evaluations has a value only if both have one. -/
theorem Eval.ok_of_bind {α β : Type} {x : Eval α} {f : α → Eval β} {trace trace' : List Lookup}
    {b : β} (h : (x >>= f) trace = .ok b trace') :
    ∃ a trace₁, x trace = .ok a trace₁ ∧ f a trace₁ = .ok b trace' := by
  rw [Eval.bind_apply] at h
  cases hx : x trace with
  | error failure trace₁ =>
    rw [hx] at h
    cases h
  | ok a trace₁ =>
    rw [hx] at h
    exact ⟨a, trace₁, rfl, h⟩

namespace Formula

/-- A plus in front of a formula does nothing. -/
theorem eval_plus (env : Env) (f : Formula) : (unary .plus f).eval env = f.eval env := by
  simp [eval]

/-- There is one value for each parameter. -/
theorem length_evalAll {env : Env} {ps : List Formula} {trace trace' : List Lookup}
    {values : List Float} (h : evalAll env ps trace = .ok values trace') :
    values.length = ps.length := by
  induction ps generalizing trace values with
  | nil =>
    cases h
    rfl
  | cons p ps ih =>
    rw [evalAll] at h
    obtain ⟨value, trace₁, -, h⟩ := Eval.ok_of_bind h
    obtain ⟨rest, trace₂, hRest, h⟩ := Eval.ok_of_bind h
    cases h
    rw [List.length_cons, List.length_cons, ih hRest]

end Formula

/-! ## Questions and answers -/

/-- Every lookup of a trace, the latest first, had a value for its answer when it
was made. -/
def Env.Answers (env : Env) : List Lookup → Prop
  | [] => True
  | lookup :: before => (∃ value, env.answer before lookup = .ok value) ∧ env.Answers before

/-- Asking ended rightly: with a value if every lookup was answered, else with
the failure of the latest one, the first that was not. The latest lookup stands
first. -/
def Env.Ends {α : Type} (env : Env) (asked : List Lookup) : Except Failure α → Prop
  | .ok _ => env.Answers asked
  | .error failure =>
    ∃ last before, asked = last :: before ∧ env.Answers before ∧
      env.answer before last = .error failure

/-- Asking that ended with a failure did so at the last lookup. -/
theorem Env.Ends.exists_last {env : Env} {trace : List Lookup} {failure : Failure}
    (h : env.Ends trace.reverse (.error failure : Except Failure Float)) :
    ∃ before last, trace = before ++ [last] ∧ env.Answers before.reverse ∧
      env.answer before.reverse last = .error failure := by
  obtain ⟨last, before, hTrace, hBefore, hLast⟩ := h
  refine ⟨before.reverse, last, ?_, ?_, ?_⟩
  · rw [← List.reverse_reverse trace, hTrace, List.reverse_cons]
  · rwa [List.reverse_reverse]
  · rwa [List.reverse_reverse]

/-- How an evaluation leaves off with a result and a trace. -/
def Eval.ending {α : Type} (trace : List Lookup) : Except Failure α →
    EStateM.Result Failure (List Lookup) α
  | .ok value => .ok value trace
  | .error failure => .error failure trace

/-- An evaluation puts its questions behind those that were asked before, which
were all answered, and ends rightly. -/
def Eval.Asks {α : Type} (env : Env) (x : Eval α) : Prop :=
  ∀ trace, env.Answers trace → ∃ asked result,
    x trace = Eval.ending (asked ++ trace) result ∧ env.Ends (asked ++ trace) result

namespace Eval

variable {env : Env}

theorem asks_pure {α : Type} (value : α) : Asks env (pure value : Eval α) :=
  fun _ hTrace => ⟨[], .ok value, rfl, hTrace⟩

theorem asks_ask (lookup : Lookup) : Asks env (env.ask lookup) := by
  intro trace hTrace
  refine ⟨[lookup], env.answer trace lookup, ?_, ?_⟩
  · unfold Env.ask
    cases env.answer trace lookup <;> rfl
  · cases hAnswer : env.answer trace lookup with
    | error failure => exact ⟨lookup, trace, rfl, hTrace, hAnswer⟩
    | ok value => exact ⟨⟨value, hAnswer⟩, hTrace⟩

theorem Asks.bind {α β : Type} {x : Eval α} {f : α → Eval β} (hx : Asks env x)
    (hf : ∀ value, Asks env (f value)) : Asks env (x >>= f) := by
  intro trace hTrace
  obtain ⟨asked₁, result₁, hRun₁, hEnds₁⟩ := hx trace hTrace
  rw [bind_apply, hRun₁]
  cases result₁ with
  | error failure => exact ⟨asked₁, .error failure, rfl, hEnds₁⟩
  | ok value =>
    -- the first part was answered in full, so the second goes on from there
    obtain ⟨asked₂, result₂, hRun₂, hEnds₂⟩ := hf value (asked₁ ++ trace) hEnds₁
    refine ⟨asked₂ ++ asked₁, result₂, ?_, ?_⟩
    · rw [List.append_assoc]
      exact hRun₂
    · rw [List.append_assoc]
      exact hEnds₂

/-- The outcome of an evaluation is how it ends. -/
theorem Asks.outcome_ends {x : Eval Float} (h : Asks env x) :
    env.Ends x.outcome.trace.reverse x.outcome.result := by
  obtain ⟨asked, result, hRun, hEnds⟩ := h [] trivial
  rw [List.append_nil] at hRun hEnds
  rw [Eval.outcome, hRun]
  cases result with
  | error failure => simpa [ending] using hEnds
  | ok value => simpa [ending] using hEnds

end Eval

namespace Formula

theorem evalAll_asks {env : Env} {ps : List Formula} (h : ∀ p ∈ ps, Eval.Asks env (p.eval env)) :
    Eval.Asks env (evalAll env ps) := by
  induction ps with
  | nil => exact Eval.asks_pure []
  | cons p ps ih =>
    rw [evalAll]
    refine (h p (List.mem_cons_self ..)).bind fun value => ?_
    refine (ih fun q hq => h q (List.mem_cons_of_mem p hq)).bind fun values => ?_
    exact Eval.asks_pure (value :: values)

/-- Evaluating a formula stops at the first question without an answer. -/
theorem eval_asks (env : Env) (f : Formula) : Eval.Asks env (f.eval env) := by
  induction f with
  | number literal => exact Eval.asks_pure literal.value
  | var name => exact Eval.asks_ask (.var name)
  | binary op left right ihLeft ihRight =>
    rw [eval]
    exact ihLeft.bind fun a => ihRight.bind fun b => Eval.asks_pure (op.apply a b)
  | unary op operand ih =>
    rw [eval]
    exact ih.bind fun a => Eval.asks_pure (if op = .minus then -a else a)
  | call name ps ih =>
    rw [eval]
    exact (evalAll_asks ih).bind fun values => Eval.asks_ask (.call name values)

end Formula

end Reckon
