import Mathlib
import Reckon.Proofs.Formula

/-!
# Reckon — evaluations as dialogues

An evaluation is a dialogue with its environment: it puts a question, goes on in
a way that depends on the answer, and has a value in the end. Written down as a
tree of questions the dialogue no longer speaks of any environment, so two
environments can be compared along one and the same evaluation:

* `Formula.dialogue` — the dialogue of a formula. Evaluating the formula is
  holding this dialogue (`Formula.eval_eq_run`);
* `Dialogue.outcome_congr` — environments that answer alike whatever was asked
  in the first of them, when it was asked, have the same outcome;
* `Dialogue.trace_prefix` — if they answer alike up to the last question, that
  question is still asked, and all those before it.
-/

namespace Reckon

/-- A dialogue: it is over, or it puts a question and goes on from the value that
is the answer. Any other answer ends it, so only values need to be covered. -/
inductive Dialogue (α : Type) where
  | done (result : α)
  | ask (lookup : Lookup) (next : Float → Dialogue α)

namespace Dialogue

variable {α β : Type}

/-- Goes on with another dialogue. -/
def bind : Dialogue α → (α → Dialogue β) → Dialogue β
  | done result, f => f result
  | ask lookup next, f => .ask lookup fun value => (next value).bind f

instance : Monad Dialogue where
  pure := done
  bind := bind

/-- Holds a dialogue with an environment. -/
def run (env : Env) : Dialogue α → Eval α
  | done result => pure result
  | ask lookup next => do
    let value ← env.ask lookup
    (next value).run env

/-- The outcome of a dialogue that ends with a number, behind what was asked
before, the latest first. -/
def outcome (env : Env) : Dialogue Float → List Lookup → Outcome
  | done value, _ => ⟨.ok value, []⟩
  | ask lookup next, asked =>
    match env.answer asked lookup with
    | .ok value =>
      let later := (next value).outcome env (lookup :: asked)
      ⟨later.result, lookup :: later.trace⟩
    | .error failure => ⟨.error failure, [lookup]⟩

theorem run_bind (env : Env) (d : Dialogue α) (f : α → Dialogue β) :
    (d >>= f).run env = d.run env >>= fun result => (f result).run env := by
  induction d with
  | done result => rfl
  | ask lookup next ih =>
    show (env.ask lookup >>= fun value => (next value >>= f).run env) = _
    simp only [ih, run, bind_assoc]

/-- A single question is a dialogue. -/
theorem run_ask (env : Env) (lookup : Lookup) : (ask lookup pure).run env = env.ask lookup :=
  bind_pure (env.ask lookup)

/-- What a dialogue does to the questions that were asked before it. -/
theorem run_apply (env : Env) (d : Dialogue Float) (asked : List Lookup) :
    d.run env asked =
      Eval.ending ((d.outcome env asked).trace.reverse ++ asked) (d.outcome env asked).result := by
  induction d generalizing asked with
  | done value => rfl
  | ask lookup next ih =>
    rw [run, Eval.bind_apply, Env.ask, outcome]
    cases hAnswer : env.answer asked lookup with
    | error failure => rfl
    | ok value =>
      -- the question just asked is the latest one for the rest of the dialogue
      simp only [ih, List.reverse_cons, List.append_assoc, List.singleton_append]

/-- The two ways of saying what comes of a dialogue agree. -/
theorem outcome_run (env : Env) (d : Dialogue Float) :
    (d.run env).outcome = d.outcome env [] := by
  rw [Eval.outcome, run_apply]
  cases hOutcome : d.outcome env [] with
  | mk result trace =>
    cases result <;> simp [Eval.ending]

/-! ## Two environments -/

variable {env env' : Env} {asked : List Lookup}

theorem outcome_of_ok {lookup : Lookup} {value : Float} (h : env.answer asked lookup = .ok value)
    (next : Float → Dialogue Float) :
    (ask lookup next).outcome env asked =
      ⟨((next value).outcome env (lookup :: asked)).result,
        lookup :: ((next value).outcome env (lookup :: asked)).trace⟩ := by
  rw [outcome, h]

theorem outcome_of_error {lookup : Lookup} {failure : Failure}
    (h : env.answer asked lookup = .error failure) (next : Float → Dialogue Float) :
    (ask lookup next).outcome env asked = ⟨.error failure, [lookup]⟩ := by
  rw [outcome, h]

/-- Two environments answer alike all the questions of a trace, each behind those
before it. -/
def Alike (env env' : Env) (asked trace : List Lookup) : Prop :=
  ∀ before lookup, before ++ [lookup] <+: trace →
    env'.answer (before.reverse ++ asked) lookup = env.answer (before.reverse ++ asked) lookup

theorem Alike.head {lookup : Lookup} {trace : List Lookup}
    (h : Alike env env' asked (lookup :: trace)) :
    env'.answer asked lookup = env.answer asked lookup :=
  h [] lookup ⟨trace, rfl⟩

theorem Alike.tail {lookup : Lookup} {trace : List Lookup}
    (h : Alike env env' asked (lookup :: trace)) : Alike env env' (lookup :: asked) trace := by
  intro before lookup' hPrefix
  have hBoth := h (lookup :: before) lookup' ((List.prefix_cons_inj lookup).2 hPrefix)
  simpa using hBoth

/-- A second environment that answers what the first one was asked as the first
one did is asked the same questions, and has the same outcome. -/
theorem outcome_congr {d : Dialogue Float} (h : Alike env env' asked (d.outcome env asked).trace) :
    d.outcome env' asked = d.outcome env asked := by
  induction d generalizing asked with
  | done value => rfl
  | ask lookup next ih =>
    cases hAnswer : env.answer asked lookup with
    | error failure =>
      rw [outcome_of_error hAnswer] at h ⊢
      rw [outcome_of_error (h.head.trans hAnswer)]
    | ok value =>
      rw [outcome_of_ok hAnswer] at h ⊢
      rw [outcome_of_ok (h.head.trans hAnswer), ih value h.tail]

/-- If the two answer alike up to the last question, this one is still asked,
whatever becomes of it. -/
theorem trace_prefix {d : Dialogue Float} {before : List Lookup} {last : Lookup}
    (hTrace : (d.outcome env asked).trace = before ++ [last]) (h : Alike env env' asked before) :
    (d.outcome env asked).trace <+: (d.outcome env' asked).trace := by
  induction d generalizing before asked with
  | done value => exact List.nil_prefix
  | ask lookup next ih =>
    -- the first question is the same in any environment
    have hFirst : ∃ more, ((ask lookup next).outcome env' asked).trace = lookup :: more := by
      cases hAnswer : env'.answer asked lookup with
      | error failure => exact ⟨[], by rw [outcome_of_error hAnswer]⟩
      | ok value => exact ⟨_, by rw [outcome_of_ok hAnswer]⟩
    cases hAnswer : env.answer asked lookup with
    | error failure =>
      obtain ⟨more, hMore⟩ := hFirst
      rw [outcome_of_error hAnswer, hMore]
      exact ⟨more, rfl⟩
    | ok value =>
      rw [outcome_of_ok hAnswer] at hTrace ⊢
      cases before with
      | nil =>
        -- it was the only one
        have hNone : ((next value).outcome env (lookup :: asked)).trace = [] :=
          (List.cons.inj hTrace).2
        obtain ⟨more, hMore⟩ := hFirst
        rw [hNone, hMore]
        exact ⟨more, rfl⟩
      | cons first before =>
        rw [List.cons_append, List.cons.injEq] at hTrace
        obtain ⟨rfl, hLater⟩ := hTrace
        rw [outcome_of_ok (h.head.trans hAnswer)]
        exact (List.prefix_cons_inj lookup).2 (ih value hLater h.tail)

end Dialogue

/-! ## Formulas -/

namespace Formula

mutual

/-- The questions of a formula. -/
def dialogue : Formula → Dialogue Float
  | number literal => pure literal.value
  | var name => .ask (.var name) pure
  | binary op left right => do
    let a ← left.dialogue
    let b ← right.dialogue
    return op.apply a b
  | unary op operand => do
    let a ← operand.dialogue
    return if op = .minus then -a else a
  | call name parameters => do
    let values ← dialogueAll parameters
    .ask (.call name values) pure

/-- The questions of formulas, from left to right. -/
def dialogueAll : List Formula → Dialogue (List Float)
  | [] => pure []
  | p :: ps => do
    let value ← p.dialogue
    let values ← dialogueAll ps
    return value :: values

end

theorem evalAll_eq_run {env : Env} {ps : List Formula}
    (ih : ∀ p ∈ ps, p.eval env = p.dialogue.run env) :
    evalAll env ps = (dialogueAll ps).run env := by
  induction ps with
  | nil => rfl
  | cons p ps ihTail =>
    have hHead := ih p (List.mem_cons_self ..)
    have hTail := ihTail fun q hq => ih q (List.mem_cons_of_mem p hq)
    rw [evalAll, dialogueAll, hHead, hTail]
    simp only [Dialogue.run_bind]
    rfl

/-- Evaluating a formula is holding its dialogue. -/
theorem eval_eq_run (env : Env) (f : Formula) : f.eval env = f.dialogue.run env := by
  induction f with
  | number literal => rfl
  | var name => exact (Dialogue.run_ask env (.var name)).symm
  | binary op left right ihLeft ihRight =>
    rw [eval, dialogue, ihLeft, ihRight]
    simp only [Dialogue.run_bind]
    rfl
  | unary op operand ih =>
    rw [eval, dialogue, ih]
    simp only [Dialogue.run_bind]
    rfl
  | call name ps ih =>
    rw [eval, dialogue, evalAll_eq_run ih, Dialogue.run_bind]
    congr 1
    funext values
    exact (Dialogue.run_ask env (.call name values)).symm

end Formula

end Reckon
