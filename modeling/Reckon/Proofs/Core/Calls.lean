import Mathlib
import Reckon.Core.Identity
import Reckon.Evaluator
import Reckon.Proofs.Core

/-!
# Reckon — calls that a method takes

A core expression is built by hand as freely as its type allows: a call may have
any operands, and operands of any call may hide further calls. Compiling checks
each call on the way, in between adding steps:

* `Core.calls` — all calls in an expression, each before those inside it;
* `MethodCall.fits` — the operands are those that the method takes;
* `Core.Settles` — adding steps ends with the error of the first call that does
  not fit, or with a certain number of operands. `Core.emit_settles` says that
  this is what the steps of an expression do, whatever was added before, so no
  step ever finds too few operands;
* `Core.compile_calls_fit` — which expressions can be compiled, what is said of
  the others, and that the first ones are the lowered formulas.
-/

namespace Reckon

/-! ## Calls -/

/-- A method and the operands that it is called with. -/
structure MethodCall where
  method : Method
  operands : List Operand

namespace MethodCall

/-- Whether the operands are those that the method takes: one literal for a
variable, a literal and a new array for a function. -/
def fits : MethodCall → Bool
  | ⟨.getVariable, [.literal _]⟩ => true
  | ⟨.callFunction, [.literal _, .array _]⟩ => true
  | _ => false

theorem eq_of_fits {c : MethodCall} (h : c.fits = true) :
    (∃ name, c = ⟨.getVariable, [.literal name]⟩) ∨
      ∃ name parameters, c = ⟨.callFunction, [.literal name, .array parameters]⟩ := by
  unfold fits at h
  split at h
  · exact Or.inl ⟨_, rfl⟩
  · exact Or.inr ⟨_, _, rfl⟩
  · cases h

end MethodCall

namespace Core

theorem sizeOf_lt_of_mem_children {e e' : Core} (h : e' ∈ e.children) : sizeOf e' < sizeOf e := by
  cases e with
  | constant literal => simp [children] at h
  | arith op left right =>
    obtain rfl | rfl := List.mem_pair.1 h
    · simp; omega
    · simp
  | negate operand =>
    rw [children, List.mem_singleton] at h
    simp [h]
  | call method operands =>
    obtain ⟨o, ho, h⟩ := List.mem_flatMap.1 h
    have hOperand := List.sizeOf_lt_of_mem ho
    cases o with
    | literal text => simp [Operand.expressions] at h
    | value e =>
      rw [Operand.expressions, List.mem_singleton] at h
      simp [h] at hOperand ⊢
      omega
    | array elements =>
      have hElement : sizeOf e' < sizeOf elements := List.sizeOf_lt_of_mem h
      simp at hOperand ⊢
      omega

/-- What holds of an expression once it holds of its children holds of every
expression. -/
theorem children_induction {motive : Core → Prop}
    (step : ∀ e, (∀ e' ∈ e.children, motive e') → motive e) (e : Core) : motive e :=
  step e fun e' h =>
    have := sizeOf_lt_of_mem_children h
    children_induction step e'
termination_by sizeOf e

mutual

/-- The calls in an expression, each before those inside its operands. -/
def calls : Core → List MethodCall
  | constant _ => []
  | arith _ left right => left.calls ++ right.calls
  | negate operand => operand.calls
  | call method operands => ⟨method, operands⟩ :: callsIn operands

/-- The calls inside operands, from left to right. -/
def callsIn : List Operand → List MethodCall
  | [] => []
  | .literal _ :: os => callsIn os
  | .value e :: os => e.calls ++ callsIn os
  | .array elements :: os => callsAll elements ++ callsIn os

/-- The calls in expressions, from left to right. -/
def callsAll : List Core → List MethodCall
  | [] => []
  | e :: es => e.calls ++ callsAll es

end

/-! ## What comes of adding steps -/

open Machine (Assembly Step)

/-- Adding steps ends with the error of the first call that does not fit. If all
of them do, the steps are added and leave as many operands as `depth` says. -/
inductive Settles (calls : List MethodCall) (depth : Nat) : Except CompileError Assembly → Prop
  | refused {c : MethodCall} (hFirst : calls.find? (fun c => !c.fits) = some c) :
      Settles calls depth (.error (.malformedCall c.method))
  | added {a : Assembly} (hFit : ∀ c ∈ calls, c.fits = true) (hDepth : a.depth = depth) :
      Settles calls depth (.ok a)

section Settles

variable {first second calls : List MethodCall} {depth depth' : Nat}
  {x : Except CompileError Assembly}

theorem find?_eq_none_of_fit (h : ∀ c ∈ calls, c.fits = true) :
    calls.find? (fun c => !c.fits) = none := by
  rw [List.find?_eq_none]
  intro c hc
  simp [h c hc]

/-- One part of the steps after the other. The calls of the second part are only
looked at if those of the first one fit. -/
theorem Settles.bind {f : Assembly → Except CompileError Assembly} (hx : Settles first depth x)
    (hf : ∀ a : Assembly, a.depth = depth → Settles second depth' (f a)) :
    Settles (first ++ second) depth' (x >>= f) := by
  cases hx with
  | refused hFirst =>
    refine .refused ?_
    rw [List.find?_append, hFirst]
    rfl
  | @added a hFit hDepth =>
    have hNext := hf a hDepth
    show Settles (first ++ second) depth' (f a)
    generalize f a = y at hNext
    cases hNext with
    | refused hSecond =>
      refine .refused ?_
      rw [List.find?_append, find?_eq_none_of_fit hFit, hSecond]
      rfl
    | added hFit' hDepth' => exact .added (List.forall_mem_append.2 ⟨hFit, hFit'⟩) hDepth'

/-- A call that fits makes no difference to what is inside it. -/
theorem Settles.cons {c : MethodCall} (hFits : c.fits = true) (hx : Settles calls depth x) :
    Settles (c :: calls) depth x := by
  cases hx with
  | refused hFirst =>
    refine .refused ?_
    rw [List.find?_cons_of_neg (by simp [hFits]), hFirst]
  | added hFit hDepth => exact .added (List.forall_mem_cons.2 ⟨hFits, hFit⟩) hDepth

/-- A step that finds its operands is added, and calls nothing that could be
refused. -/
theorem settles_emitStep (a : Assembly) {step : Step} (h : step.pops ≤ a.depth)
    (hDepth : a.depth - step.pops + step.pushes = depth) :
    Settles [] depth (emitStep a step) := by
  rw [emitStep, Assembly.add?, if_pos h]
  exact .added (by simp) hDepth

/-- Steps can be added just if all calls fit. -/
theorem Settles.exists_ok_iff (h : Settles calls depth x) :
    (∃ a, x = .ok a) ↔ ∀ c ∈ calls, c.fits = true := by
  cases h with
  | @refused c hFirst =>
    refine iff_of_false ?_ fun hFit => ?_
    · rintro ⟨a, ha⟩
      cases ha
    · rw [find?_eq_none_of_fit hFit] at hFirst
      cases hFirst
  | added hFit _ => exact iff_of_true ⟨_, rfl⟩ hFit

/-- The only error is that of the first call that does not fit. -/
theorem Settles.error_iff (h : Settles calls depth x) (err : CompileError) :
    x = .error err ↔ ∃ before c after, calls = before ++ c :: after ∧
      (∀ d ∈ before, d.fits = true) ∧ c.fits = false ∧ err = .malformedCall c.method := by
  cases h with
  | @refused c hFirst =>
    obtain ⟨hUnfit, before, after, hCalls, hBefore⟩ := List.find?_eq_some_iff_append.1 hFirst
    rw [Bool.not_eq_true'] at hUnfit
    constructor
    · intro hErr
      cases hErr
      exact ⟨before, c, after, hCalls, by simpa using hBefore, hUnfit, rfl⟩
    · rintro ⟨before', c', after', rfl, hBefore', hUnfit', rfl⟩
      -- what is found first does not depend on how the calls are split
      rw [List.find?_append, find?_eq_none_of_fit hBefore', Option.none_or,
        List.find?_cons_of_pos (by simp [hUnfit'])] at hFirst
      cases hFirst
      rfl
  | added hFit _ =>
    constructor
    · intro hErr
      cases hErr
    · rintro ⟨before, c, after, rfl, -, hUnfit, -⟩
      rw [hFit c (by simp)] at hUnfit
      cases hUnfit

end Settles

/-! ## Expressions -/

/-- A call that does not fit is refused before anything inside it is looked at. -/
theorem emit_of_not_fits {method : Method} {operands : List Operand}
    (h : (MethodCall.mk method operands).fits = false) (a : Assembly) :
    (call method operands).emit a = .error (.malformedCall method) := by
  rw [emit]
  · rfl
  · rintro name rfl rfl
    cases h
  · rintro name parameters rfl rfl
    cases h

theorem emitParameters_settles {es : List Core}
    (ih : ∀ e ∈ es, ∀ a : Assembly, Settles e.calls (a.depth + 1) (e.emit a)) (cell : Nat)
    (a : Assembly) : Settles (callsAll es) a.depth (emitParameters cell es a) := by
  induction es generalizing cell a with
  | nil => exact .added (by simp [callsAll]) rfl
  | cons e es ihTail =>
    rw [callsAll, emitParameters]
    refine (ih e (List.mem_cons_self ..) a).bind fun a₁ hDepth₁ => ?_
    -- the store takes away what the parameter has left
    have hStore : Settles [] a.depth (emitStep a₁ (.store cell)) :=
      settles_emitStep a₁ (by simp [Step.pops]; omega) (by simp [Step.pops, Step.pushes]; omega)
    rw [← List.nil_append (callsAll es)]
    refine hStore.bind fun a₂ hDepth₂ => ?_
    rw [← hDepth₂]
    exact ihTail (fun e' he' => ih e' (List.mem_cons_of_mem e he')) (cell + 1) a₂

/-- The steps of an expression are added up to the first call that does not fit,
and all of them leave one operand more, whatever was there before. -/
theorem emit_settles (e : Core) (a : Assembly) : Settles e.calls (a.depth + 1) (e.emit a) := by
  induction e using children_induction generalizing a with
  | step e ih =>
    cases e with
    | constant literal => exact settles_emitStep a (Nat.zero_le _) rfl
    | arith op left right =>
      rw [calls, emit, ← List.append_nil right.calls]
      refine (ih left (by simp [children]) a).bind fun a₁ hDepth₁ => ?_
      refine (ih right (by simp [children]) a₁).bind fun a₂ hDepth₂ => ?_
      exact settles_emitStep a₂ (by simp [Step.pops]; omega)
        (by simp [Step.pops, Step.pushes]; omega)
    | negate operand =>
      rw [calls, emit, ← List.append_nil operand.calls]
      refine (ih operand (by simp [children]) a).bind fun a₁ hDepth₁ => ?_
      exact settles_emitStep a₁ (by simp [Step.pops]; omega)
        (by simp [Step.pops, Step.pushes]; omega)
    | call method operands =>
      cases hFits : (MethodCall.mk method operands).fits with
      | false =>
        rw [emit_of_not_fits hFits]
        refine .refused (c := ⟨method, operands⟩) ?_
        rw [calls, List.find?_cons_of_pos (by simp [hFits])]
      | true =>
        -- the call itself is in order, so what is inside it decides
        obtain ⟨name, hCall⟩ | ⟨name, parameters, hCall⟩ := MethodCall.eq_of_fits hFits
        · cases hCall
          have hLookup : Settles [] (a.depth + 1) (emitStep a (.lookup name)) :=
            settles_emitStep a (Nat.zero_le _) rfl
          exact hLookup.cons hFits
        · cases hCall
          have hInside : (call .callFunction [.literal name, .array parameters]).children =
              parameters := by simp [children, Operand.expressions]
          have hCalls : callsIn [.literal name, .array parameters] =
              callsAll parameters ++ [] := by simp [callsIn]
          rw [hInside] at ih
          rw [calls, hCalls, emit]
          refine Settles.cons hFits ?_
          refine (emitParameters_settles ih a.cells (a.reserve parameters.length)).bind
            fun a₁ hDepth₁ => ?_
          -- setting cells aside leaves the operands as they are
          have hDepth : a₁.depth = a.depth := hDepth₁
          exact settles_emitStep a₁ (Nat.zero_le _) (by simp [Step.pops, Step.pushes, hDepth])

/-- Adding the steps decides: what is left by them can always be finished. -/
theorem compile_iff_emit (e : Core) (name : String) :
    ((∃ v, e.compile name = .ok v) ↔ ∃ a, e.emit {} = .ok a) ∧
      ∀ err, e.compile name = .error err ↔ e.emit {} = .error err := by
  have hSettles := e.emit_settles {}
  cases hEmit : e.emit {} with
  | error err =>
    have hCompile : e.compile name = .error err := by
      rw [compile, assemble, hEmit]
      rfl
    simp [hCompile]
  | ok a =>
    -- the value of the expression is the one operand that is left
    have hDepth : a.depth = 1 := by
      rw [hEmit] at hSettles
      cases hSettles with
      | added _ hDepth => exact hDepth
    have hFinish : a.finish? = some ⟨a.steps.reverse, a.cells⟩ := if_pos (by omega)
    have hCompile : e.compile name =
        .ok ⟨name, .treeIr, (Machine.Program.mk a.steps.reverse a.cells).link.run⟩ := by
      rw [compile, assemble, hEmit]
      simp only [bind, Except.bind, hFinish]
      rfl
    simp [hCompile]

/-! ## Lowered formulas -/

theorem callsAll_fit {ps : List Formula}
    (ih : ∀ p ∈ ps, ∀ {e : Core}, p.lower = .ok e → ∀ c ∈ e.calls, c.fits = true)
    {es : List Core} (h : Formula.lowerAll ps = .ok es) : ∀ c ∈ callsAll es, c.fits = true := by
  induction ps generalizing es with
  | nil =>
    cases h
    exact List.forall_mem_nil _
  | cons p ps ihTail =>
    rw [Formula.lowerAll] at h
    obtain ⟨e, hHead, h⟩ := ok_of_bind h
    obtain ⟨es', hTail, h⟩ := ok_of_bind h
    cases h
    rw [callsAll, List.forall_mem_append]
    exact ⟨ih p (List.mem_cons_self ..) hHead,
      ihTail (fun q hq => ih q (List.mem_cons_of_mem p hq)) hTail⟩

/-- Lowering makes no calls but those that fit. -/
theorem calls_fit {f : Formula} {e : Core} (h : f.lower = .ok e) :
    ∀ c ∈ e.calls, c.fits = true := by
  induction f generalizing e with
  | number literal =>
    cases h
    exact List.forall_mem_nil _
  | var name =>
    cases h
    exact List.forall_mem_singleton.2 rfl
  | binary op left right ihLeft ihRight =>
    rw [Formula.lower] at h
    obtain ⟨eLeft, hLeft, h⟩ := ok_of_bind h
    obtain ⟨eRight, hRight, h⟩ := ok_of_bind h
    cases h
    rw [calls, List.forall_mem_append]
    exact ⟨ihLeft hLeft, ihRight hRight⟩
  | unary op operand ih =>
    cases op with
    | plus => exact ih h
    | minus =>
      rw [Formula.lower] at h
      obtain ⟨eOperand, hOperand, h⟩ := ok_of_bind h
      cases h
      rw [calls]
      exact ih hOperand
    | times | divide | modulo | power => cases h
  | call name ps ih =>
    rw [Formula.lower] at h
    obtain ⟨es, hParameters, h⟩ := ok_of_bind h
    cases h
    -- the call itself has the operands of its method, so its parameters decide
    have hInside : callsIn [.literal name, .array es] = callsAll es := by simp [callsIn]
    rw [callFunction, calls, hInside, List.forall_mem_cons]
    exact ⟨rfl, callsAll_fit (fun p hp => ih p hp) hParameters⟩

/-- The core expression of a formula can be compiled. -/
theorem compile_ok_of_lower {f : Formula} {e : Core} (h : f.lower = .ok e) (name : String) :
    ∃ v, e.compile name = .ok v :=
  (e.compile_iff_emit name).1.2 ((e.emit_settles {}).exists_ok_iff.2 (calls_fit h))

/-- **An expression can be compiled just if each call in it, however deep inside
other calls, has the operands that its method takes; and those expressions are
the lowered formulas.** For any other one the first call that does not fit is
reported, with its method and what this takes. The steps find their operands
either way: each part leaves one operand more than there was before it, and
never is an operand missing. -/
theorem compile_calls_fit (e : Core) (name : String) :
    ((∃ v, e.compile name = .ok v) ↔ ∀ c ∈ e.calls, c.fits = true) ∧
    ((∀ c ∈ e.calls, c.fits = true) ↔ ∃ f : Formula, f.lower = .ok e) ∧
    (∀ err, e.compile name = .error err ↔
      ∃ before c after, e.calls = before ++ c :: after ∧ (∀ d ∈ before, d.fits = true) ∧
        c.fits = false ∧ err = .malformedCall c.method) ∧
    (∀ method, (CompileError.malformedCall method).message =
      "Malformed IR call to " ++ method.name ++ ": " ++ method.signature) ∧
    (∀ a a', e.emit a = .ok a' → a'.depth = a.depth + 1) ∧
    ∀ a, e.emit a ≠ .error .missingOperand := by
  have hSettles := e.emit_settles {}
  obtain ⟨hCompiled, hReported⟩ := e.compile_iff_emit name
  refine ⟨hCompiled.trans hSettles.exists_ok_iff, ?_, ?_, fun _ => rfl, ?_, ?_⟩
  · constructor
    · intro hFit
      obtain ⟨a, hEmit⟩ := hSettles.exists_ok_iff.2 hFit
      exact exists_lower e hEmit
    · rintro ⟨f, hLower⟩
      exact calls_fit hLower
  · exact fun err => (hReported err).trans (hSettles.error_iff err)
  · intro a a' hEmit
    have hHere := e.emit_settles a
    rw [hEmit] at hHere
    cases hHere with
    | added _ hDepth => exact hDepth
  · intro a hMissing
    obtain ⟨-, c, -, -, -, -, hErr⟩ := ((e.emit_settles a).error_iff _).1 hMissing
    cases hErr

-- the call of a function is in order, and the first of its parameters is not
example : (callFunction "f" [call .getVariable [.value (call .callFunction [])],
    call .callFunction []]).compile "t" = .error (.malformedCall .getVariable) := rfl

end Core

end Reckon
