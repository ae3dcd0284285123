import Mathlib
import Reckon.Core
import Reckon.Proofs.Chunk.Pools

/-!
# Reckon — getting a formula back from its code

Compiling a formula loses the pluses in front of operands and nothing else. So
the formula without them can be read off the compiled code:

* `Formula.erasePlus` — a formula without its pluses; it is emitted and lowered
  like the formula itself (`Emitter.formula_erasePlus`,
  `Formula.lower_erasePlus`);
* `Machine.rebuild` — runs steps on formulas in place of numbers. Stored
  parameters are kept apart until the call that takes them, the latest first,
  which makes the numbers of their slots superfluous;
* `decompile` — the formula of a code and its two pools;
* `Core.raise?` — the formula of a core expression.

Both ways back undo compiling up to pluses (`Formula.decompile_toChunk`,
`Formula.raise?_lower`), so two formulas that differ in more than pluses differ
in their code.
-/

namespace Reckon

/-! ## Formulas without pluses -/

namespace Formula

mutual

/-- The formula without the pluses in front of operands. -/
def erasePlus : Formula → Formula
  | number literal => number literal
  | var name => var name
  | binary op left right => binary op left.erasePlus right.erasePlus
  | unary .plus operand => operand.erasePlus
  | unary op operand => unary op operand.erasePlus
  | call name parameters => call name (erasePlusAll parameters)

/-- The formulas without the pluses in front of operands. -/
def erasePlusAll : List Formula → List Formula
  | [] => []
  | p :: ps => p.erasePlus :: erasePlusAll ps

end

theorem length_erasePlusAll (ps : List Formula) : (erasePlusAll ps).length = ps.length := by
  induction ps with
  | nil => rfl
  | cons p ps ih => rw [erasePlusAll, List.length_cons, List.length_cons, ih]

theorem slotsFromAll_erasePlusAll {ps : List Formula}
    (ih : ∀ p ∈ ps, ∀ base, p.erasePlus.slotsFrom base = p.slotsFrom base) (base : Nat) :
    slotsFromAll base (erasePlusAll ps) = slotsFromAll base ps := by
  induction ps generalizing base with
  | nil => rfl
  | cons p ps ihTail =>
    rw [erasePlusAll, slotsFromAll, slotsFromAll, ih p (List.mem_cons_self ..),
      ihTail fun q hq => ih q (List.mem_cons_of_mem p hq)]

theorem slotsFrom_erasePlus (f : Formula) (base : Nat) :
    f.erasePlus.slotsFrom base = f.slotsFrom base := by
  induction f generalizing base with
  | number literal => rfl
  | var name => rfl
  | binary op left right ihLeft ihRight =>
    rw [erasePlus, slotsFrom, slotsFrom, ihLeft, ihRight]
  | unary op operand ih => cases op <;> exact ih base
  | call name ps ih =>
    rw [erasePlus, slotsFrom, slotsFrom, length_erasePlusAll, slotsFromAll_erasePlusAll ih]

end Formula

namespace Emitter

theorem parameters_erasePlusAll {ps : List Formula}
    (ih : ∀ p ∈ ps, ∀ base e, formula base p.erasePlus e = formula base p e) (base : Nat)
    (e : Emitter) : parameters base (Formula.erasePlusAll ps) e = parameters base ps e := by
  induction ps generalizing base e with
  | nil => rfl
  | cons p ps ihTail =>
    rw [Formula.erasePlusAll, parameters, parameters, ih p (List.mem_cons_self ..)]
    congr 1
    funext e₁
    congr 1
    funext e₂
    exact ihTail (fun q hq => ih q (List.mem_cons_of_mem p hq)) (base + 1) e₂

/-- A plus in front of an operand emits nothing. -/
theorem formula_erasePlus (f : Formula) (base : Nat) (e : Emitter) :
    formula base f.erasePlus e = formula base f e := by
  induction f generalizing base e with
  | number literal => rfl
  | var name => rfl
  | binary op left right ihLeft ihRight =>
    rw [Formula.erasePlus, formula, formula, ihLeft]
    congr 1
    funext e₁
    rw [ihRight]
  | unary op operand ih =>
    cases op with
    | plus => exact ih base e
    | minus => rw [Formula.erasePlus, formula, formula, ih]; simp
    | times | divide | modulo | power => rfl
  | call name ps ih =>
    rw [Formula.erasePlus, formula, formula, Formula.length_erasePlusAll,
      parameters_erasePlusAll ih]

/-- What is emitted has no signs but plus and minus. -/
theorem wellSigned_of_parameters {ps : List Formula}
    (ih : ∀ p ∈ ps, ∀ {base : Nat} {e e' : Emitter}, formula base p e = .ok e' →
      p.wellSigned = true)
    {base : Nat} {e e' : Emitter} (h : parameters base ps e = .ok e') :
    Formula.wellSignedAll ps = true := by
  induction ps generalizing base e with
  | nil => rfl
  | cons p ps ihTail =>
    rw [parameters] at h
    obtain ⟨e₁, hHead, h⟩ := ok_of_bind h
    obtain ⟨e₂, -, hTail⟩ := ok_of_bind h
    rw [Formula.wellSignedAll, ih p (List.mem_cons_self ..) hHead,
      ihTail (fun q hq => ih q (List.mem_cons_of_mem p hq)) hTail]
    rfl

theorem wellSigned_of_formula {f : Formula} {base : Nat} {e e' : Emitter}
    (h : formula base f e = .ok e') : f.wellSigned = true := by
  induction f generalizing base e e' with
  | number literal => rfl
  | var name => rfl
  | binary op left right ihLeft ihRight =>
    rw [formula] at h
    obtain ⟨e₁, hLeft, h⟩ := ok_of_bind h
    obtain ⟨e₂, hRight, -⟩ := ok_of_bind h
    rw [Formula.wellSigned, ihLeft hLeft, ihRight hRight]
    rfl
  | unary op operand ih =>
    cases op with
    | plus =>
      rw [formula] at h
      rw [Formula.wellSigned, ih h]
      rfl
    | minus =>
      rw [formula] at h
      obtain ⟨e₁, hOperand, -⟩ := ok_of_bind h
      rw [Formula.wellSigned, ih hOperand]
      rfl
    | times | divide | modulo | power => cases h
  | call name ps ih =>
    rw [formula] at h
    obtain ⟨e₁, hParameters, -⟩ := ok_of_bind h
    exact wellSigned_of_parameters (fun p hp => ih p hp) hParameters

end Emitter

/-! ## Formulas from steps -/

namespace Machine

/-- What steps are run on in place of numbers: the formulas on the stack, and
the parameters that wait for their calls, both with the latest first. -/
structure Parts where
  stack : List Formula
  waiting : List Formula

/-- Runs a step on formulas. -/
def Step.rebuild : Step → Parts → Option Parts
  | .constant literal, ⟨stack, waiting⟩ => some ⟨.number literal :: stack, waiting⟩
  | .lookup name, ⟨stack, waiting⟩ => some ⟨.var name :: stack, waiting⟩
  | .arith op, ⟨b :: a :: stack, waiting⟩ => some ⟨.binary op a b :: stack, waiting⟩
  | .negate, ⟨a :: stack, waiting⟩ => some ⟨.unary .minus a :: stack, waiting⟩
  | .store _, ⟨a :: stack, waiting⟩ => some ⟨stack, a :: waiting⟩
  | .call name _ count, ⟨stack, waiting⟩ =>
    if count ≤ waiting.length then
      some ⟨.call name (waiting.take count).reverse :: stack, waiting.drop count⟩
    else none
  | _, _ => none

/-- Runs steps on formulas, one after the other. -/
def rebuild (steps : List Step) (parts : Parts) : Option Parts :=
  steps.foldlM (fun parts step => step.rebuild parts) parts

theorem rebuild_append (first second : List Step) (parts : Parts) :
    rebuild (first ++ second) parts = (rebuild first parts).bind (rebuild second) := by
  unfold rebuild
  rw [List.foldlM_append]
  rfl

end Machine

open Machine (Parts rebuild rebuild_append)

/-- The formula that steps make from nothing. -/
def Formula.ofSteps? (steps : List Machine.Step) : Option Formula :=
  match rebuild steps ⟨[], []⟩ with
  | some ⟨[f], []⟩ => some f
  | _ => none

/-- The formula of a code and its pools. For the assembler it matters only that
there is a scratch buffer, not how large it is. -/
def decompile (code : Array UInt8) (constants : Array Literal) (identifiers : Array String) :
    Option Formula :=
  match (Chunk.mk "" code constants identifiers 1 0).assemble with
  | .ok program => Formula.ofSteps? program.steps
  | .error _ => none

namespace Formula

theorem rebuild_parameterSteps {ps : List Formula}
    (ih : ∀ p ∈ ps, p.wellSigned = true → ∀ base stack waiting,
      rebuild (p.steps base) ⟨stack, waiting⟩ = some ⟨p.erasePlus :: stack, waiting⟩)
    (hSigned : wellSignedAll ps = true) (base : Nat) (stack waiting : List Formula) :
    rebuild (parameterSteps base ps) ⟨stack, waiting⟩ =
      some ⟨stack, (erasePlusAll ps).reverse ++ waiting⟩ := by
  induction ps generalizing base waiting with
  | nil => rfl
  | cons p ps ihTail =>
    rw [wellSignedAll, Bool.and_eq_true] at hSigned
    rw [parameterSteps, rebuild_append, rebuild_append, ih p (List.mem_cons_self ..) hSigned.1]
    -- the store makes the parameter wait behind those before it
    show rebuild (parameterSteps (base + 1) ps) ⟨stack, p.erasePlus :: waiting⟩ = _
    rw [ihTail (fun q hq => ih q (List.mem_cons_of_mem p hq)) hSigned.2]
    simp [erasePlusAll]

/-- The steps of a formula make the formula without its pluses, whatever is
there before. -/
theorem rebuild_steps {f : Formula} (hSigned : f.wellSigned = true) (base : Nat)
    (stack waiting : List Formula) :
    rebuild (f.steps base) ⟨stack, waiting⟩ = some ⟨f.erasePlus :: stack, waiting⟩ := by
  induction f generalizing base stack waiting with
  | number literal => rfl
  | var name => rfl
  | binary op left right ihLeft ihRight =>
    rw [wellSigned, Bool.and_eq_true] at hSigned
    rw [steps, rebuild_append, rebuild_append, ihLeft hSigned.1]
    show (rebuild (right.steps base) ⟨left.erasePlus :: stack, waiting⟩).bind _ = _
    rw [ihRight hSigned.2]
    rfl
  | unary op operand ih =>
    rw [wellSigned, Bool.and_eq_true] at hSigned
    rw [steps, rebuild_append, ih hSigned.2]
    cases op with
    | plus => rfl
    | minus => rfl
    | times | divide | modulo | power => simp at hSigned
  | call name ps ih =>
    rw [wellSigned] at hSigned
    rw [steps, rebuild_append, rebuild_parameterSteps ih hSigned]
    have hLength : (erasePlusAll ps).reverse.length = ps.length := by
      rw [List.length_reverse, length_erasePlusAll]
    -- the latest parameters that wait are those of this call
    have hCall : (Machine.Step.call name base ps.length).rebuild
        ⟨stack, (erasePlusAll ps).reverse ++ waiting⟩ =
        some ⟨.call name (erasePlusAll ps) :: stack, waiting⟩ := by
      rw [Machine.Step.rebuild, if_pos (by rw [List.length_append]; omega),
        List.take_left' hLength, List.drop_left' hLength, List.reverse_reverse]
    rw [Option.bind_some, rebuild, List.foldlM_cons, hCall, erasePlus]
    rfl

theorem ofSteps?_steps {f : Formula} (hSigned : f.wellSigned = true) :
    ofSteps? (f.steps 0) = some f.erasePlus := by
  rw [ofSteps?, rebuild_steps hSigned]

/-- Code and pools of a chunk say what the formula was, but for its pluses. -/
theorem decompile_toChunk {f : Formula} {name : String} {c : Chunk} (h : f.toChunk name = .ok c) :
    decompile c.code c.constants c.identifiers = some f.erasePlus := by
  obtain ⟨e, hEmit, rfl, -⟩ := f.exists_emitter h
  have hMeans := f.means_steps hEmit
  generalize hc : Chunk.mk "" (e.finish name).code (e.finish name).constants
    (e.finish name).identifiers 1 0 = c
  -- nothing but the size of the scratch buffer tells the two chunks apart
  have hStep : ∀ i, c.step? i = (e.finish name).step? i := by
    intro i
    subst hc
    cases i <;> rfl
  have hReads : c.Reads 0 (e.instructions.reverse ++ [.finish]) c.code.size := by
    subst hc
    apply Chunk.reads_of_code
    show (Emitter.encode (.finish :: e.instructions) []).toArray.toList = _
    rw [List.toList_toArray, Emitter.encode_eq, List.append_nil, List.reverse_cons]
  have hLength := hReads.length_le
  rw [List.length_append, List.length_singleton] at hLength
  have hScratch : c.scratchSize = 1 := by
    subst hc
    rfl
  have hAssemble : c.assemble = .ok ⟨f.steps 0, 1⟩ := by
    rw [Chunk.assemble, hScratch]
    refine Chunk.assembleFrom_eq (hMeans.imp fun i step hi => ?_) hReads (by omega)
      (f.depthAfter_steps 0 0) (by omega) ?_
    · rw [hStep]
      exact hi.step? name
    · intro step _ _
      omega
  rw [decompile, hc, hAssemble]
  exact ofSteps?_steps (Emitter.wellSigned_of_formula hEmit)

end Formula

/-! ## Formulas from core expressions -/

namespace Core

mutual

/-- The formula of a core expression, if its calls are such as lowering makes. -/
def raise? : Core → Option Formula
  | constant literal => some (.number literal)
  | arith op left right => do
    let left ← left.raise?
    let right ← right.raise?
    return .binary op left right
  | negate operand => do
    let operand ← operand.raise?
    return .unary .minus operand
  | call .getVariable [.literal name] => some (.var name)
  | call .callFunction [.literal name, .array parameters] => do
    let parameters ← raiseAll? parameters
    return .call name parameters
  | call _ _ => none

/-- The formulas of core expressions. -/
def raiseAll? : List Core → Option (List Formula)
  | [] => some []
  | e :: es => do
    let f ← e.raise?
    let fs ← raiseAll? es
    return f :: fs

end

end Core

namespace Formula

theorem lowerAll_erasePlusAll {ps : List Formula}
    (ih : ∀ p ∈ ps, p.erasePlus.lower = p.lower) : lowerAll (erasePlusAll ps) = lowerAll ps := by
  induction ps with
  | nil => rfl
  | cons p ps ihTail =>
    rw [erasePlusAll, lowerAll, lowerAll, ih p (List.mem_cons_self ..),
      ihTail fun q hq => ih q (List.mem_cons_of_mem p hq)]

/-- A formula and the formula without its pluses are lowered alike. -/
theorem lower_erasePlus (f : Formula) : f.erasePlus.lower = f.lower := by
  induction f with
  | number literal => rfl
  | var name => rfl
  | binary op left right ihLeft ihRight => rw [erasePlus, lower, lower, ihLeft, ihRight]
  | unary op operand ih =>
    cases op with
    | plus => exact ih
    | minus => rw [erasePlus, lower, lower, ih]; simp
    | times | divide | modulo | power => rfl
  | call name ps ih => rw [erasePlus, lower, lower, lowerAll_erasePlusAll ih]

theorem raiseAll?_lowerAll {ps : List Formula}
    (ih : ∀ p ∈ ps, ∀ {e : Core}, p.lower = .ok e → e.raise? = some p.erasePlus)
    {es : List Core} (h : lowerAll ps = .ok es) : Core.raiseAll? es = some (erasePlusAll ps) := by
  induction ps generalizing es with
  | nil =>
    cases h
    rfl
  | cons p ps ihTail =>
    rw [lowerAll] at h
    obtain ⟨e, hHead, h⟩ := ok_of_bind h
    obtain ⟨es', hTail, h⟩ := ok_of_bind h
    cases h
    rw [Core.raiseAll?, ih p (List.mem_cons_self ..) hHead,
      ihTail (fun q hq => ih q (List.mem_cons_of_mem p hq)) hTail]
    rfl

/-- A lowered formula says what the formula was, but for its pluses. -/
theorem raise?_lower {f : Formula} {e : Core} (h : f.lower = .ok e) :
    e.raise? = some f.erasePlus := by
  induction f generalizing e with
  | number literal =>
    cases h
    rfl
  | var name =>
    cases h
    rfl
  | binary op left right ihLeft ihRight =>
    rw [lower] at h
    obtain ⟨eLeft, hLeft, h⟩ := ok_of_bind h
    obtain ⟨eRight, hRight, h⟩ := ok_of_bind h
    cases h
    rw [Core.raise?, ihLeft hLeft, ihRight hRight]
    rfl
  | unary op operand ih =>
    cases op with
    | plus =>
      rw [lower] at h
      exact ih h
    | minus =>
      rw [lower] at h
      obtain ⟨eOperand, hOperand, h⟩ := ok_of_bind h
      cases h
      rw [Core.raise?, ih hOperand]
      rfl
    | times | divide | modulo | power => cases h
  | call name ps ih =>
    rw [lower] at h
    obtain ⟨es, hParameters, h⟩ := ok_of_bind h
    cases h
    rw [Core.callFunction, Core.raise?, raiseAll?_lowerAll (fun p hp => ih p hp) hParameters]
    rfl

/-! ## What compiled code says about its formula -/

/-- Two formulas have the same chunk, byte by byte and bit by bit, exactly if
they are the same but for pluses in front of operands, and so it is with their
core expressions. The formula without its pluses can be got back from the code
and the pools of its chunk. -/
theorem compiled_alike_iff (f g : Formula) :
    (∀ name name' c d, f.toChunk name = .ok c → g.toChunk name' = .ok d →
      (c.code = d.code ∧ c.constants.map Literal.bits = d.constants.map Literal.bits ∧
        c.identifiers = d.identifiers ∧ c.scratchSize = d.scratchSize ∧
        c.stackSize = d.stackSize ↔ f.erasePlus = g.erasePlus)) ∧
    (∀ a b, f.lower = .ok a → g.lower = .ok b → (a = b ↔ f.erasePlus = g.erasePlus)) ∧
    ∀ name c, f.toChunk name = .ok c →
      decompile c.code c.constants c.identifiers = some f.erasePlus := by
  refine ⟨?_, ?_, fun name c => decompile_toChunk⟩
  · intro name name' c d hf hg
    constructor
    · rintro ⟨hCode, hConstants, hIdentifiers, -, -⟩
      have hSame : c.constants = d.constants :=
        (Array.map_inj_right fun _ _ => Literal.ext).1 hConstants
      have hDecompiled := decompile_toChunk hf
      rw [hCode, hSame, hIdentifiers, decompile_toChunk hg] at hDecompiled
      exact (Option.some.inj hDecompiled).symm
    · intro hErase
      obtain ⟨e, hEmit, rfl, -⟩ := f.exists_emitter hf
      obtain ⟨e', hEmit', rfl, -⟩ := g.exists_emitter hg
      -- both emitters have emitted the formula without pluses
      rw [scratchSize, ← slotsFrom_erasePlus, ← Emitter.formula_erasePlus] at hEmit hEmit'
      rw [hErase, hEmit'] at hEmit
      cases hEmit
      exact ⟨rfl, rfl, rfl, rfl, rfl⟩
  · intro a b hf hg
    constructor
    · rintro rfl
      exact Option.some.inj ((raise?_lower hf).symm.trans (raise?_lower hg))
    · intro hErase
      rw [← f.lower_erasePlus, hErase, g.lower_erasePlus, hg] at hf
      exact (Except.ok.inj hf).symm

/-- The same sum with its pluses in different places: in front of a variable
and a parameter, or in front of the other parameter. -/
theorem compiled_alike_iff_moved_pluses :
    let f : Formula := .binary .minus (.unary .plus (.var "x"))
      (.call "f" [.unary .plus (.number (.ofFloat 1)), .var "y"])
    let g : Formula := .binary .minus (.var "x")
      (.call "f" [.number (.ofFloat 1), .unary .plus (.var "y")])
    ∃ c d a, f.toChunk "f" = .ok c ∧ g.toChunk "g" = .ok d ∧ f.lower = .ok a ∧ g.lower = .ok a ∧
      c.code = d.code ∧ decompile d.code d.constants d.identifiers = some f.erasePlus := by
  intro f g
  obtain ⟨c, hf⟩ := toChunk_ok (f := f) "f" rfl (by decide) (by decide) (by decide)
  obtain ⟨d, hg⟩ := toChunk_ok (f := g) "g" rfl (by decide) (by decide) (by decide)
  obtain ⟨hChunks, -, -⟩ := compiled_alike_iff f g
  obtain ⟨-, -, hDecompile⟩ := compiled_alike_iff g f
  exact ⟨c, d, _, hf, hg, rfl, rfl, ((hChunks "f" "g" c d hf hg).2 rfl).1, hDecompile "g" d hg⟩

end Formula

end Reckon
