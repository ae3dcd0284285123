import Mathlib
import Reckon.Evaluator
import Reckon.Proofs.Chunk.Scratch
import Reckon.Proofs.Closure
import Reckon.Proofs.Core

/-!
# Reckon — agreement of the backends

Whatever the backend, the code of an evaluator is the evaluation of the formula
it was compiled from (`Formula.code_eq_eval`). Results and traces of all
backends are therefore the same, in every environment.
-/

namespace Reckon

/-- The code of an evaluator of a core expression is the evaluation of the formula
that the expression is lowered from. -/
theorem Core.code_eq_eval {f : Formula} {c : Core} {name : String} {e : Evaluator}
    (hLower : f.lower = .ok c) (h : c.compile name = .ok e) (env : Env) :
    e.code env = f.eval env := by
  obtain ⟨program, hAssemble, h⟩ := ok_of_bind h
  cases h
  show program.link.run env = f.eval env
  rw [Machine.Program.run_link]
  exact Core.run_assemble hLower hAssemble env

/-- The chunk of a formula can be assembled and linked, so whether there is an
evaluator is decided by whether there is a chunk. -/
theorem Formula.compile_native (f : Formula) (name : String) :
    f.compile name .native = (f.toChunk name).map fun _ =>
      ⟨name, .native, (Machine.Program.mk (f.steps 0) f.scratchSize).link.run⟩ := by
  rw [compile]
  cases hChunk : f.toChunk name with
  | error err => rfl
  | ok c =>
    show (c.assemble >>= fun p => pure (Evaluator.mk name .native p.link.run)) = _
    rw [f.assemble_toChunk hChunk]
    rfl

theorem Formula.toChunk_of_compile_error {f : Formula} {name : String} {err : CompileError}
    (h : f.compile name .native = .error err) : f.toChunk name = .error err := by
  rw [compile_native] at h
  rcases error_of_bind h with hChunk | ⟨c, -, h⟩
  · exact hChunk
  · cases h

/-- The code of an evaluator is the evaluation of its formula. -/
theorem Formula.code_eq_eval {f : Formula} {name : String} {backend : Backend} {e : Evaluator}
    (h : f.compile name backend = .ok e) (env : Env) : e.code env = f.eval env := by
  cases backend with
  | native =>
    rw [compile_native] at h
    obtain ⟨chunk, -, h⟩ := ok_of_bind h
    cases h
    -- linking changes nothing, and the steps of a formula compute it in the slots it needs
    show (Machine.Program.mk (f.steps 0) f.scratchSize).link.run env = f.eval env
    rw [Machine.Program.run_link]
    exact Machine.Program.run_eq_of_computes (f.computes_steps env (Nat.le_refl _))
  | treeIr =>
    obtain ⟨core, hLower, h⟩ := ok_of_bind h
    exact Core.code_eq_eval hLower h env
  | closure =>
    obtain ⟨code, hCode, h⟩ := ok_of_bind h
    cases h
    show code env = f.eval env
    rw [Closure.compile_eq hCode]

/-- An evaluator of any backend does what evaluating the formula from left to
right does: it has the same value or the same failure, and makes the same
lookups in the same order. It makes no lookup behind the first one that is not
answered. Hence any two backends that compile the formula agree. -/
theorem Formula.invoke_compile {f : Formula} {name : String} {backend : Backend} {e : Evaluator}
    (h : f.compile name backend = .ok e) (env : Env) :
    e.invoke env = (f.eval env).outcome ∧
      env.Ends (e.invoke env).trace.reverse (e.invoke env).result ∧
      ∀ name' backend' e', f.compile name' backend' = .ok e' → e'.invoke env = e.invoke env := by
  have hInvoke : ∀ {name backend e}, f.compile name backend = .ok e →
      e.invoke env = (f.eval env).outcome := by
    intro name backend e hCompile
    rw [Evaluator.invoke, code_eq_eval hCompile]
  refine ⟨hInvoke h, ?_, ?_⟩
  · rw [hInvoke h]
    exact (f.eval_asks env).outcome_ends
  · intro name' backend' e' h'
    rw [hInvoke h, hInvoke h']

/-- A call inside a parameter of a call, compiled in all three ways. -/
theorem Formula.invoke_compile_nested_calls :
    let f : Formula :=
      .call "f" [.var "x", .call "g" [.unary .minus (.var "y"), .number (.ofFloat 1)]]
    ∃ native treeIr closure, f.compile "nested" .native = .ok native ∧
      f.compile "nested" .treeIr = .ok treeIr ∧ f.compile "nested" .closure = .ok closure ∧
      ∀ env, native.invoke env = (f.eval env).outcome ∧ treeIr.invoke env = native.invoke env ∧
        closure.invoke env = native.invoke env := by
  intro f
  obtain ⟨c, hChunk⟩ := toChunk_ok (f := f) "nested" rfl (by decide) (by decide) (by decide)
  have hNative : f.compile "nested" .native =
      .ok ⟨"nested", .native, (Machine.Program.mk (f.steps 0) f.scratchSize).link.run⟩ := by
    rw [compile_native, hChunk]
    rfl
  refine ⟨_, _, _, hNative, rfl, rfl, fun env => ?_⟩
  obtain ⟨hOutcome, -, hAgree⟩ := invoke_compile hNative env
  exact ⟨hOutcome, hAgree "nested" .treeIr _ rfl, hAgree "nested" .closure _ rfl⟩

end Reckon
