import Mathlib
import Reckon.Proofs.Agreement
import Reckon.Proofs.Dialogue
import Reckon.Proofs.Scope

/-!
# Reckon — evaluators in a scope that grows

Registering names never changes what an evaluation has learnt so far, since a
name keeps its meaning. An evaluation that came to an end stays as it is, and
one that missed a name takes the same way up to the question for this name:

* `Evaluator.Made.exists_formula` — whatever an evaluator was made of, it
  evaluates some formula;
* `Scope.Knows` — the questions about names that a scope has;
  `Scope.Gains.answer_eq` says that they are answered for good;
* `Evaluator.Survives` — what becomes of an evaluation in a scope that has grown;
* `Evaluator.survives_registrations` — this is so for every run of
  registrations.
-/

namespace Reckon

/-! ## Evaluators -/

/-- The evaluators that the backends make, out of formulas or out of core
expressions. -/
inductive Evaluator.Made : Evaluator → Prop
  | formula {f : Formula} {name : String} {backend : Backend} {e : Evaluator}
      (hCompile : f.compile name backend = .ok e) : Made e
  | core {c : Core} {name : String} {e : Evaluator} (hCompile : c.compile name = .ok e) : Made e

namespace Evaluator.Made

variable {e : Evaluator}

/-- Whatever an evaluator was made of, it evaluates a formula. -/
theorem exists_formula (h : e.Made) : ∃ f : Formula, ∀ env, e.code env = f.eval env := by
  cases h with
  | @formula f name backend e hCompile => exact ⟨f, Formula.code_eq_eval hCompile⟩
  | @core c name e hCompile =>
    -- a core expression that was assembled is a lowered formula
    obtain ⟨program, hAssemble, -⟩ := ok_of_bind hCompile
    rw [Core.assemble] at hAssemble
    obtain ⟨a, hEmit, -⟩ := ok_of_bind hAssemble
    obtain ⟨f, hLower⟩ := c.exists_lower hEmit
    exact ⟨f, Core.code_eq_eval hLower hCompile⟩

/-- Invoking an evaluator is holding one dialogue with every environment. -/
theorem exists_dialogue (h : e.Made) :
    ∃ d : Dialogue Float, ∀ env, e.invoke env = d.outcome env [] := by
  obtain ⟨f, hCode⟩ := h.exists_formula
  refine ⟨f.dialogue, fun env => ?_⟩
  rw [invoke, hCode, f.eval_eq_run, Dialogue.outcome_run]

theorem ends (h : e.Made) (env : Env) :
    env.Ends (e.invoke env).trace.reverse (e.invoke env).result := by
  obtain ⟨f, hCode⟩ := h.exists_formula
  rw [invoke, hCode]
  exact (f.eval_asks env).outcome_ends

/-- An evaluation that failed did so at its last question. -/
theorem exists_last (h : e.Made) {env : Env} {failure : Failure}
    (hResult : (e.invoke env).result = .error failure) :
    ∃ before last, (e.invoke env).trace = before ++ [last] ∧ env.Answers before.reverse ∧
      env.answer before.reverse last = .error failure := by
  have hEnds := h.ends env
  rw [hResult] at hEnds
  exact hEnds.exists_last

end Evaluator.Made

/-! ## Answers of a scope -/

/-- The failure is that a name is not declared. -/
def Failure.IsUnknown : Failure → Prop
  | fault (.unknownVariable _) | fault (.unknownFunction _) => True
  | fault (.invalidCall _ _ _) | abort _ => False

/-- A function that is found may fail, but not for want of a name. -/
theorem Callable.not_isUnknown {f : Callable} {name : String} {parameters : List Float}
    {failure : Failure} (h : f.call name parameters = .error failure) : ¬ failure.IsUnknown := by
  -- what runs, a body or a function of the host, can only abort
  have hAbort : ∀ x : Except String Float, x.mapError .abort = .error failure →
      ¬ failure.IsUnknown := by
    rintro (message | value) hx <;> cases hx
    exact id
  cases f with
  | builtin body arity =>
    rw [call] at h
    split at h
    · exact hAbort _ h
    · cases h
      exact id
  | host f => exact hAbort _ h

namespace Scope

variable {s t : Scope}

/-- The name that a question is about is declared. -/
def Knows (s : Scope) : Lookup → Prop
  | .var name => ∃ value, s.get? name = some value
  | .call name _ => ∃ f, s.function? name = some f

theorem answer_var (s : Scope) (name : String) :
    s.answer (.var name) = match s.get? name with
      | some value => .ok value
      | none => .error (.fault (.unknownVariable name)) :=
  rfl

theorem answer_call (s : Scope) (name : String) (parameters : List Float) :
    s.answer (.call name parameters) = match s.function? name with
      | some f => f.call name parameters
      | none => .error (.fault (.unknownFunction name)) :=
  rfl

/-- What is declared is answered for good. -/
theorem Gains.answer_eq {xs : List Entry} (h : s.Gains t xs) {lookup : Lookup}
    (hKnows : s.Knows lookup) : t.answer lookup = s.answer lookup := by
  cases lookup with
  | var name =>
    obtain ⟨value, hGet⟩ := hKnows
    have hLater : t.get? name = some value := h.holds (x := .var name value) hGet
    rw [answer_var, answer_var, hGet, hLater]
  | call name parameters =>
    obtain ⟨f, hFunction⟩ := hKnows
    have hLater : t.function? name = some f := h.holds (x := .func name f) hFunction
    rw [answer_call, answer_call, hFunction, hLater]

/-- A question that fails otherwise than by an unknown name is about a name that
is declared, and so is one that is answered. -/
theorem knows_of_answer {lookup : Lookup}
    (h : ∀ failure, s.answer lookup = .error failure → ¬ failure.IsUnknown) :
    s.Knows lookup := by
  by_contra hUnknown
  cases lookup with
  | var name =>
    have hGet : s.get? name = none := by
      rw [Option.eq_none_iff_forall_ne_some]
      exact fun value hSome => hUnknown ⟨value, hSome⟩
    exact h (.fault (.unknownVariable name)) (by rw [answer_var, hGet]) trivial
  | call name parameters =>
    have hFunction : s.function? name = none := by
      rw [Option.eq_none_iff_forall_ne_some]
      exact fun f hSome => hUnknown ⟨f, hSome⟩
    exact h (.fault (.unknownFunction name)) (by rw [answer_call, hFunction]) trivial

theorem knows_of_answers {asked : List Lookup} (h : s.env.Answers asked) :
    ∀ lookup ∈ asked, s.Knows lookup := by
  induction asked with
  | nil => exact List.forall_mem_nil _
  | cons lookup before ih =>
    obtain ⟨⟨value, hAnswer⟩, hBefore⟩ := h
    refine List.forall_mem_cons.2 ⟨knows_of_answer fun failure hError => ?_, ih hBefore⟩
    cases hAnswer.symm.trans hError

/-- Only the question for a variable finds that the variable is unknown. -/
theorem answer_unknownVariable {lookup : Lookup} {name : String} :
    s.answer lookup = .error (.fault (.unknownVariable name)) ↔
      lookup = .var name ∧ s.get? name = none := by
  constructor
  · intro hError
    cases lookup with
    | var name' =>
      rw [answer_var] at hError
      split at hError
      · cases hError
      · next hGet =>
        cases hError
        exact ⟨rfl, hGet⟩
    | call name' parameters =>
      rw [answer_call] at hError
      split at hError
      · exact absurd trivial (Callable.not_isUnknown hError)
      · cases hError
  · rintro ⟨rfl, hGet⟩
    rw [answer_var, hGet]

/-- Only a call of a function finds that the function is unknown. -/
theorem answer_unknownFunction {lookup : Lookup} {name : String} :
    s.answer lookup = .error (.fault (.unknownFunction name)) ↔
      (∃ parameters, lookup = .call name parameters) ∧ s.function? name = none := by
  constructor
  · intro hError
    cases lookup with
    | var name' =>
      rw [answer_var] at hError
      split at hError <;> cases hError
    | call name' parameters =>
      rw [answer_call] at hError
      split at hError
      · exact absurd trivial (Callable.not_isUnknown hError)
      · next hFunction =>
        cases hError
        exact ⟨⟨parameters, rfl⟩, hFunction⟩
  · rintro ⟨⟨parameters, rfl⟩, hFunction⟩
    rw [answer_call, hFunction]

end Scope

/-! ## Evaluations -/

namespace Evaluator

variable {e : Evaluator} {s t : Scope} {xs : List Entry}

/-- Environments that answer alike what the first of them was asked, when it was
asked, are not told apart. -/
theorem Made.invoke_congr (h : e.Made) {env env' : Env}
    (hAlike : Dialogue.Alike env env' [] (e.invoke env).trace) : e.invoke env' = e.invoke env := by
  obtain ⟨d, hInvoke⟩ := h.exists_dialogue
  rw [hInvoke] at hAlike
  rw [hInvoke, hInvoke]
  exact Dialogue.outcome_congr hAlike

/-- Scopes answer whatever was asked before. -/
theorem alike_env {trace : List Lookup} (h : ∀ lookup ∈ trace, t.answer lookup = s.answer lookup) :
    Dialogue.Alike s.env t.env [] trace := by
  rintro before lookup ⟨after, rfl⟩
  exact h lookup (by simp)

/-- An evaluation that missed no name is the same in the grown scope: all it
asked was about names that were there. -/
theorem Made.invoke_eq (h : e.Made) (hGains : s.Gains t xs)
    (hSettled : ∀ failure, (e.invoke s.env).result = .error failure → ¬ failure.IsUnknown) :
    e.invoke t.env = e.invoke s.env := by
  refine h.invoke_congr (alike_env fun lookup hMem => ?_)
  apply hGains.answer_eq
  cases hResult : (e.invoke s.env).result with
  | ok value =>
    have hAnswers := h.ends s.env
    rw [hResult] at hAnswers
    exact Scope.knows_of_answers hAnswers lookup (List.mem_reverse.2 hMem)
  | error failure =>
    obtain ⟨before, last, hTrace, hBefore, hLast⟩ := h.exists_last hResult
    rw [hTrace, List.mem_append, List.mem_singleton] at hMem
    rcases hMem with hMem | rfl
    · exact Scope.knows_of_answers hBefore lookup (List.mem_reverse.2 hMem)
    · -- the failure at the last question is the result
      apply Scope.knows_of_answer
      intro failure' hError
      cases hLast.symm.trans hError
      exact hSettled failure hResult

/-- An evaluation that failed at its last question goes the same way up to this
question in the grown scope. If the question fails there in the same way,
nothing has changed. -/
theorem Made.trace_prefix (h : e.Made) (hGains : s.Gains t xs) {failure : Failure}
    (hResult : (e.invoke s.env).result = .error failure) :
    ∃ before last, (e.invoke s.env).trace = before ++ [last] ∧
      s.answer last = .error failure ∧
      (e.invoke s.env).trace <+: (e.invoke t.env).trace ∧
      (t.answer last = .error failure → e.invoke t.env = e.invoke s.env) := by
  obtain ⟨before, last, hTrace, hBefore, hLast⟩ := h.exists_last hResult
  -- what was answered is about names that the scope has
  have hAlike : ∀ lookup ∈ before, t.answer lookup = s.answer lookup := fun lookup hMem =>
    hGains.answer_eq (Scope.knows_of_answers hBefore lookup (List.mem_reverse.2 hMem))
  refine ⟨before, last, hTrace, hLast, ?_, ?_⟩
  · obtain ⟨d, hInvoke⟩ := h.exists_dialogue
    rw [hInvoke] at hTrace
    rw [hInvoke, hInvoke]
    exact Dialogue.trace_prefix hTrace (alike_env hAlike)
  · intro hStill
    refine h.invoke_congr (alike_env fun lookup hMem => ?_)
    rw [hTrace, List.mem_append, List.mem_singleton] at hMem
    rcases hMem with hMem | rfl
    · exact hAlike lookup hMem
    · exact hStill.trans hLast.symm

/-- What becomes of an evaluation in a scope `s` when the scope has grown
to `t`. -/
structure Survives (e : Evaluator) (s t : Scope) : Prop where
  /-- A value stays, and so do the questions that led to it. -/
  value : ∀ value, (e.invoke s.env).result = .ok value → e.invoke t.env = e.invoke s.env
  /-- So does a call with a wrong number of parameters. -/
  invalidCall : ∀ name given expected,
    (e.invoke s.env).result = .error (.fault (.invalidCall name given expected)) →
    e.invoke t.env = e.invoke s.env
  /-- And so does the abort of a function of the host. -/
  abort : ∀ message, (e.invoke s.env).result = .error (.abort message) →
    e.invoke t.env = e.invoke s.env
  /-- A variable that was missing is asked for again, after the same questions,
  and it is missed again just if it is still not there. -/
  unknownVariable : ∀ name,
    (e.invoke s.env).result = .error (.fault (.unknownVariable name)) →
    (∃ before, (e.invoke s.env).trace = before ++ [.var name]) ∧
      (e.invoke s.env).trace <+: (e.invoke t.env).trace ∧
      ((e.invoke t.env).result = .error (.fault (.unknownVariable name)) ↔ t.get? name = none)
  /-- The same for a function, which is called again with the same parameters. -/
  unknownFunction : ∀ name,
    (e.invoke s.env).result = .error (.fault (.unknownFunction name)) →
    (∃ before parameters, (e.invoke s.env).trace = before ++ [.call name parameters]) ∧
      (e.invoke s.env).trace <+: (e.invoke t.env).trace ∧
      ((e.invoke t.env).result = .error (.fault (.unknownFunction name)) ↔
        t.function? name = none)

theorem Made.survives (h : e.Made) (hGains : s.Gains t xs) : e.Survives s t := by
  refine ⟨?_, ?_, ?_, ?_, ?_⟩
  · intro value hResult
    exact h.invoke_eq hGains fun failure hError => by rw [hResult] at hError; cases hError
  · intro name given expected hResult
    exact h.invoke_eq hGains fun failure hError => by rw [hResult] at hError; cases hError; exact id
  · intro message hResult
    exact h.invoke_eq hGains fun failure hError => by rw [hResult] at hError; cases hError; exact id
  · intro name hResult
    obtain ⟨before, last, hTrace, hLast, hPrefix, hSame⟩ := h.trace_prefix hGains hResult
    obtain ⟨rfl, -⟩ := Scope.answer_unknownVariable.1 hLast
    refine ⟨⟨before, hTrace⟩, hPrefix, ?_, ?_⟩
    · -- whichever question found the variable missing, it asked for it
      intro hAgain
      obtain ⟨_, last', -, -, hLast'⟩ := h.exists_last hAgain
      exact (Scope.answer_unknownVariable.1 hLast').2
    · intro hMissing
      rw [hSame (Scope.answer_unknownVariable.2 ⟨rfl, hMissing⟩), hResult]
  · intro name hResult
    obtain ⟨before, last, hTrace, hLast, hPrefix, hSame⟩ := h.trace_prefix hGains hResult
    obtain ⟨⟨parameters, rfl⟩, -⟩ := Scope.answer_unknownFunction.1 hLast
    refine ⟨⟨before, parameters, hTrace⟩, hPrefix, ?_, ?_⟩
    · intro hAgain
      obtain ⟨_, last', -, -, hLast'⟩ := h.exists_last hAgain
      exact (Scope.answer_unknownFunction.1 hLast').2
    · intro hMissing
      rw [hSame (Scope.answer_unknownFunction.2 ⟨⟨parameters, rfl⟩, hMissing⟩), hResult]

/-- Evaluators of all backends survive every run of registrations, failing ones
included, whatever scope it started from. More generally, an evaluator does not
tell two scopes apart that answer alike what the first of them was asked. The same
is true of any environments, whose answers may depend on what was asked before. -/
theorem survives_registrations (h : e.Made) :
    (∀ (s : Scope) (run : List Registration), e.Survives s (s.registerAll run)) ∧
      (∀ s t : Scope, (∀ lookup ∈ (e.invoke s.env).trace, t.answer lookup = s.answer lookup) →
        e.invoke t.env = e.invoke s.env) ∧
      ∀ env env' : Env,
        (∀ before lookup, before ++ [lookup] <+: (e.invoke env).trace →
          env'.answer before.reverse lookup = env.answer before.reverse lookup) →
        e.invoke env' = e.invoke env := by
  refine ⟨fun s run => ?_, fun s t hAlike => h.invoke_congr (alike_env hAlike),
    fun env env' hAlike => h.invoke_congr ?_⟩
  · obtain ⟨xs, hGains⟩ := s.gains_registerAll run
    exact h.survives hGains
  · intro before lookup hPrefix
    rw [List.append_nil]
    exact hAlike before lookup hPrefix

/-- A variable is missed at first, between one that is there and a function that
is not. Declaring the first variable again fails, but the one that was missed is
declared then, and the evaluation goes on behind the question for it. -/
theorem survives_registrations_late_variable :
    let f : Formula := .binary .plus (.var "x") (.call "f" [.var "y"])
    let s : Scope := { vars := [("x", 1)] }
    let t := s.registerAll [.single (.var "x" 5), .single (.var "y" 2)]
    ∃ e, f.compile "late" .closure = .ok e ∧
      (e.invoke s.env).result = .error (.fault (.unknownVariable "y")) ∧
      (∃ before, (e.invoke s.env).trace = before ++ [.var "y"]) ∧
      (e.invoke s.env).trace <+: (e.invoke t.env).trace ∧
      (e.invoke t.env).result ≠ .error (.fault (.unknownVariable "y")) := by
  intro f s t
  obtain ⟨e, hCompile⟩ : ∃ e, f.compile "late" .closure = .ok e := ⟨_, rfl⟩
  have hMissed : (e.invoke s.env).result = .error (.fault (.unknownVariable "y")) := by
    cases hCompile
    rfl
  obtain ⟨hSurvives, -, -⟩ := survives_registrations (.formula hCompile)
  obtain ⟨hLast, hPrefix, hAgain⟩ := (hSurvives s _).unknownVariable "y" hMissed
  refine ⟨e, hCompile, hMissed, hLast, hPrefix, ?_⟩
  rw [Ne, hAgain]
  decide

end Evaluator

end Reckon
