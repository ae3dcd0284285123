import Mathlib
import Reckon.Proofs.Agreement
import Reckon.Proofs.Dialogue
import Reckon.Proofs.Formula.Order

/-!
# Reckon — the order of the questions

What a formula asks for, and in which order, stands in the formula. Answers
decide how far an evaluation comes and with which parameters a function is
called, but not which question is next:

* `Inquiry` — a question without the values that are known only when it is
  asked: the name, and for a function the number of parameters;
* `Formula.script` — the inquiries of the nodes of a formula, in postorder;
* `Dialogue.Scripted` — a dialogue that keeps to a script, whatever it is
  answered. `Formula.dialogue_scripted` says that the dialogue of a formula does;
* `Formula.trace_script` — so the trace of every evaluator is the beginning of
  the script, and all of it if there is a value.
-/

namespace Reckon

/-- What is asked for, without the values of parameters. -/
inductive Inquiry where
  | var (name : String)
  /-- A function, with the number of its parameters. -/
  | call (name : String) (count : Nat)
deriving DecidableEq, Repr

/-- The name that is asked for. -/
def Inquiry.name : Inquiry → String
  | var name => name
  | call name _ => name

/-- What a lookup asks for. -/
def Lookup.inquiry : Lookup → Inquiry
  | var name => .var name
  | call name parameters => .call name parameters.length

namespace Formula

/-- What a node asks for, if it asks at all. -/
def inquiry? : Formula → Option Inquiry
  | var name => some (.var name)
  | call name parameters => some (.call name parameters.length)
  | number _ | binary .. | unary .. => none

/-- What the nodes of a formula ask for, one entry for each node that asks. -/
def script (f : Formula) : List Inquiry :=
  f.postorder.filterMap inquiry?

theorem script_eq (f : Formula) :
    f.script = f.children.flatMap script ++ f.inquiry?.toList := by
  have hSelf : [f].filterMap inquiry? = f.inquiry?.toList := by
    cases hAsks : f.inquiry? <;> simp [hAsks]
  rw [script, postorder_eq, List.filterMap_append, hSelf, List.filterMap_flatMap]
  rfl

end Formula

/-! ## Dialogues that keep to a script -/

namespace Dialogue

variable {α β : Type}

/-- Whatever the answers are, the dialogue asks what its script says, in that
order, and if it is not ended before, it ends with the script and with a result
that has a property. -/
inductive Scripted (P : α → Prop) : List Inquiry → Dialogue α → Prop
  | done {result : α} (hResult : P result) : Scripted P [] (done result)
  | ask {lookup : Lookup} {next : Float → Dialogue α} {script : List Inquiry}
      (hNext : ∀ value, Scripted P script (next value)) :
      Scripted P (lookup.inquiry :: script) (ask lookup next)

/-- One dialogue after the other: the second may rely on what holds of the
result of the first. -/
theorem Scripted.bind {P : α → Prop} {Q : β → Prop} {first second : List Inquiry} {d : Dialogue α}
    {f : α → Dialogue β} (hd : Scripted P first d) (hf : ∀ a, P a → Scripted Q second (f a)) :
    Scripted Q (first ++ second) (d >>= f) := by
  induction hd with
  | done hResult => exact hf _ hResult
  | ask _ ih => exact .ask fun value => ih value

/-- The trace is the beginning of the script, and all of it if there is a value:
only an answer that is no value cuts the script short. -/
theorem Scripted.trace {P : Float → Prop} {script : List Inquiry} {d : Dialogue Float}
    (h : Scripted P script d) (env : Env) (asked : List Lookup) :
    (d.outcome env asked).trace.map Lookup.inquiry <+: script ∧
      ∀ value, (d.outcome env asked).result = .ok value →
        (d.outcome env asked).trace.map Lookup.inquiry = script := by
  induction h generalizing asked with
  | done _ => exact ⟨List.nil_prefix, fun _ _ => rfl⟩
  | @ask lookup next script _ ih =>
    cases hAnswer : env.answer asked lookup with
    | error failure =>
      -- the lookup that failed is the last one of the trace
      rw [outcome_of_error hAnswer]
      refine ⟨⟨script, rfl⟩, fun value hValue => ?_⟩
      cases hValue
    | ok answer =>
      obtain ⟨hPrefix, hWhole⟩ := ih answer (lookup :: asked)
      rw [outcome_of_ok hAnswer]
      refine ⟨(List.prefix_cons_inj _).2 hPrefix, fun value hValue => ?_⟩
      rw [List.map_cons, hWhole value hValue]

end Dialogue

/-! ## Formulas -/

namespace Formula

theorem dialogueAll_scripted {ps : List Formula}
    (ih : ∀ p ∈ ps, Dialogue.Scripted (fun _ => True) p.script p.dialogue) :
    Dialogue.Scripted (fun values => values.length = ps.length) (ps.flatMap script)
      (dialogueAll ps) := by
  induction ps with
  | nil => exact .done rfl
  | cons p ps ihTail =>
    have hHead := ih p (List.mem_cons_self ..)
    have hTail := ihTail fun q hq => ih q (List.mem_cons_of_mem p hq)
    rw [dialogueAll, List.flatMap_cons]
    refine hHead.bind fun value _ => ?_
    -- putting the values together asks for nothing
    rw [← List.append_nil (ps.flatMap script)]
    refine hTail.bind fun values hLength => .done ?_
    rw [List.length_cons, List.length_cons, hLength]

/-- The dialogue of a formula keeps to its script. -/
theorem dialogue_scripted (f : Formula) :
    Dialogue.Scripted (fun _ => True) f.script f.dialogue := by
  induction f with
  | number literal => exact .done trivial
  | var name =>
    show Dialogue.Scripted _ [(Lookup.var name).inquiry] (.ask (.var name) pure)
    exact .ask fun value => .done trivial
  | binary op left right ihLeft ihRight =>
    have hScript : (binary op left right).script = left.script ++ (right.script ++ []) := by
      simp [script_eq (binary op left right), children, inquiry?]
    rw [dialogue, hScript]
    exact ihLeft.bind fun a _ => ihRight.bind fun b _ => .done trivial
  | unary op operand ih =>
    have hScript : (unary op operand).script = operand.script ++ [] := by
      simp [script_eq (unary op operand), children, inquiry?]
    rw [dialogue, hScript]
    exact ih.bind fun a _ => .done trivial
  | call name ps ih =>
    rw [dialogue, script_eq, children, inquiry?]
    refine (dialogueAll_scripted ih).bind fun values hLength => ?_
    -- the function is asked with as many values as there are parameters
    have hInquiry : Inquiry.call name ps.length = (Lookup.call name values).inquiry := by
      rw [Lookup.inquiry, hLength]
    rw [hInquiry]
    exact .ask fun value => .done trivial

/-- The names of the script are the names of the formula. -/
theorem map_name_script (f : Formula) : f.script.map Inquiry.name = f.names := by
  induction f with
  | number literal => rfl
  | var name => rfl
  | binary op left right ihLeft ihRight =>
    simp [script_eq (binary op left right), children, inquiry?, names, ihLeft, ihRight]
  | unary op operand ih => simp [script_eq (unary op operand), children, inquiry?, names, ih]
  | call name ps ih =>
    have hAll : (ps.flatMap script).map Inquiry.name = namesAll ps := by
      rw [namesAll_eq, List.map_flatMap]
      exact List.flatMap_congr ih
    rw [script_eq, children, inquiry?, List.map_append, hAll, names]
    rfl

/-- Whatever the backend and the environment, the lookups of an evaluator are
the beginning of the script of its formula, with the right number of parameters
for each call. If there is a value, they are the whole script. If there is none,
the last one is the one that failed, and all before it were answered. -/
theorem trace_script {f : Formula} {name : String} {backend : Backend} {e : Evaluator}
    (h : f.compile name backend = .ok e) (env : Env) :
    (e.invoke env).trace.map Lookup.inquiry <+: f.script ∧
      f.script.map Inquiry.name = f.names ∧
      (∀ value, (e.invoke env).result = .ok value →
        (e.invoke env).trace.map Lookup.inquiry = f.script) ∧
      ∀ failure, (e.invoke env).result = .error failure →
        ∃ before last, (e.invoke env).trace = before ++ [last] ∧ env.Answers before.reverse ∧
          env.answer before.reverse last = .error failure := by
  have hInvoke : e.invoke env = f.dialogue.outcome env [] := by
    rw [Evaluator.invoke, code_eq_eval h, eval_eq_run, Dialogue.outcome_run]
  -- that an evaluation ends with the lookup that failed is known of all of them
  have hEnds := (f.eval_asks env).outcome_ends
  rw [← code_eq_eval h] at hEnds
  change env.Ends (e.invoke env).trace.reverse (e.invoke env).result at hEnds
  obtain ⟨hPrefix, hWhole⟩ := f.dialogue_scripted.trace env []
  rw [← hInvoke] at hPrefix hWhole
  refine ⟨hPrefix, f.map_name_script, hWhole, fun failure hFailure => ?_⟩
  rw [hFailure] at hEnds
  exact hEnds.exists_last

/-- A variable that is asked for twice and a call between calls. The environment
answers two questions and no more, so `g` fails, and nothing behind it is asked
for. -/
theorem trace_script_failing_call :
    let f : Formula := .binary .plus
      (.call "f" [.var "x", .call "g" [.var "x", .number (.ofFloat 1)]]) (.var "y")
    let env : Env := ⟨fun asked _ => if asked.length < 2 then .ok 1 else .error (.abort "no")⟩
    f.script = [.var "x", .var "x", .call "g" 2, .call "f" 2, .var "y"] ∧
      ∃ e, f.compile "twice" .closure = .ok e ∧
        (e.invoke env).trace.map Lookup.inquiry <+: f.script ∧
        (e.invoke env).trace.map Lookup.inquiry = [.var "x", .var "x", .call "g" 2] := by
  intro f env
  have hCompile : ∃ e, f.compile "twice" .closure = .ok e ∧
      (e.invoke env).trace.map Lookup.inquiry = [.var "x", .var "x", .call "g" 2] := ⟨_, rfl, rfl⟩
  obtain ⟨e, hCompile, hTrace⟩ := hCompile
  exact ⟨rfl, e, hCompile, (trace_script hCompile env).1, hTrace⟩

end Formula

end Reckon
