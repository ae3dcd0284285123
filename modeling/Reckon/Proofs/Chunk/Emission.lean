import Mathlib
import Reckon.Chunk.Assemble
import Reckon.Proofs.Chunk.Bytes
import Reckon.Proofs.Machine

/-!
# Reckon — what is emitted for a formula

Emitting a formula writes instructions whose operands are numbers of pool
entries, counts operands on the way, and can fail. All of it but the failures
is said by the machine steps that the instructions stand for:

* `Formula.steps base f` — the steps of a formula whose calls start at slot
  `base`, with names and values in place of numbers of pool entries;
* `Emitter.Emits e e' steps` — everything that happens between two emitters:
  the new instructions stand for `steps`, the pools only grow, and the counters
  follow the steps one by one;
* `Emitter.formula_emits` — emitting a formula emits its steps. So the count of
  operands is right (`Emitter.depth_formula`), and what takes operands finds them
  counted (`Emitter.formula_binary`, `Emitter.formula_minus`);
* `Formula.assemble_toChunk` — the chunk of a formula is assembled to its steps.
-/

namespace Reckon

/-! ## The steps of a formula -/

namespace Formula

mutual

/-- The steps of a formula, if the slots before `base` are taken. -/
def steps (base : Nat) : Formula → List Machine.Step
  | number literal => [.constant literal]
  | var name => [.lookup name]
  | binary op left right => left.steps base ++ right.steps base ++ [.arith op]
  | unary op operand => operand.steps base ++ if op = .minus then [.negate] else []
  | call name parameters =>
    parameterSteps base parameters ++ [.call name base parameters.length]

/-- The steps of parameters that are stored from slot `base` on. -/
def parameterSteps (base : Nat) : List Formula → List Machine.Step
  | [] => []
  | p :: ps => p.steps base ++ [.store base] ++ parameterSteps (base + 1) ps

end

end Formula

namespace Emitter

/-- An instruction stands for a step: its operands are the numbers that the
pools of the emitter have for what is in the step. -/
inductive Means (e : Emitter) : Instruction → Machine.Step → Prop
  | constant {index : UInt16} {literal : Literal}
      (entry : e.constants.entries[index.toNat]? = some literal) :
      Means e (.constant index) (.constant literal)
  | load {index : UInt16} {name : String}
      (entry : e.identifiers.entries[index.toNat]? = some name) :
      Means e (.load index) (.lookup name)
  | arith (op : Operator) : Means e (.arith op) (.arith op)
  | negate : Means e .negate .negate
  | store (slot : UInt16) : Means e (.store slot) (.store slot.toNat)
  | call {index : UInt16} {name : String} (start count : UInt16)
      (entry : e.identifiers.entries[index.toNat]? = some name) :
      Means e (.call index start count) (.call name start.toNat count.toNat)

/-- How a step changes the number of operands and the greatest number so
far. -/
def tally : Nat × Nat → Machine.Step → Nat × Nat
  | (depth, peak), .arith _ | (depth, peak), .store _ => (depth - 1, peak)
  | (depth, peak), .negate => (depth, peak)
  | (depth, peak), _ => (depth + 1, max peak (depth + 1))

/-- What happens from one emitter to another: instructions for `steps` are
emitted, and nothing else. -/
structure Emits (e e' : Emitter) (steps : List Machine.Step) : Prop where
  code : ∃ is, e'.instructions = is.reverse ++ e.instructions ∧ List.Forall₂ e'.Means is steps
  constants : e.constants.entries.toList <+: e'.constants.entries.toList
  identifiers : e.identifiers.entries.toList <+: e'.identifiers.entries.toList
  scratchSize : e'.scratchSize = e.scratchSize
  counters : (e'.depth, e'.peak) = steps.foldl tally (e.depth, e.peak)

/-- Instructions keep their meaning when the pools grow. -/
theorem Means.mono {e e' : Emitter} {i : Instruction} {step : Machine.Step} (h : e.Means i step)
    (hConstants : e.constants.entries.toList <+: e'.constants.entries.toList)
    (hIdentifiers : e.identifiers.entries.toList <+: e'.identifiers.entries.toList) :
    e'.Means i step := by
  cases h with
  | constant hEntry => exact .constant (getElem?_mono hConstants hEntry)
  | load hEntry => exact .load (getElem?_mono hIdentifiers hEntry)
  | arith op => exact .arith op
  | negate => exact .negate
  | store slot => exact .store slot
  | call start count hEntry => exact .call start count (getElem?_mono hIdentifiers hEntry)

theorem Emits.refl (e : Emitter) : Emits e e [] :=
  ⟨⟨[], rfl, .nil⟩, List.prefix_rfl, List.prefix_rfl, rfl, rfl⟩

theorem Emits.trans {e e₁ e₂ : Emitter} {steps₁ steps₂ : List Machine.Step}
    (h₁ : Emits e e₁ steps₁) (h₂ : Emits e₁ e₂ steps₂) : Emits e e₂ (steps₁ ++ steps₂) := by
  obtain ⟨is₁, hCode₁, hMeans₁⟩ := h₁.code
  obtain ⟨is₂, hCode₂, hMeans₂⟩ := h₂.code
  refine ⟨⟨is₁ ++ is₂, ?_, ?_⟩, h₁.constants.trans h₂.constants,
    h₁.identifiers.trans h₂.identifiers, h₂.scratchSize.trans h₁.scratchSize, ?_⟩
  · rw [hCode₂, hCode₁, List.reverse_append, List.append_assoc]
  · -- what the first part refers to is still there after the second
    have hKept := hMeans₁.imp fun i step h => h.mono h₂.constants h₂.identifiers
    exact List.rel_append hKept hMeans₂
  · rw [h₂.counters, h₁.counters, List.foldl_append]

/-! ## Single instructions -/

theorem toNat_of_slot {e : Emitter} {n : Nat} {slot : UInt16} (h : e.slot n = .ok slot) :
    slot.toNat = n := by
  rw [Emitter.slot] at h
  split at h
  · next hLt =>
    cases h
    exact UInt16.toNat_ofNat_of_lt' hLt
  · cases h

/-- Emitting a single instruction, whatever it does to the counters. -/
theorem emits_single {e : Emitter} {i : Instruction} {step : Machine.Step} (h : e.Means i step)
    {depth peak : Nat} (hTally : tally (e.depth, e.peak) step = (depth, peak)) :
    Emits e { e with instructions := i :: e.instructions, depth, peak } [step] :=
  ⟨⟨[i], rfl, .cons (h.mono List.prefix_rfl List.prefix_rfl) .nil⟩, List.prefix_rfl,
    List.prefix_rfl, rfl, hTally.symm⟩

/-- Interning a constant emits nothing. -/
theorem constant_emits {e e₁ : Emitter} {literal : Literal} {index : UInt16}
    (h : e.constant literal = .ok (index, e₁)) :
    Emits e e₁ [] ∧ e₁.constants.entries[index.toNat]? = some literal := by
  rw [Emitter.constant] at h
  dsimp only at h
  split at h
  · next hLt =>
    cases h
    refine ⟨⟨⟨[], rfl, .nil⟩, Pool.entries_prefix_intern _ _, List.prefix_rfl, rfl, rfl⟩, ?_⟩
    rw [UInt16.toNat_ofNat_of_lt' hLt]
    exact Pool.getElem?_intern _ _
  · cases h

/-- Interning an identifier emits nothing. -/
theorem identifier_emits {e e₁ : Emitter} {name : String} {index : UInt16}
    (h : e.identifier name = .ok (index, e₁)) :
    Emits e e₁ [] ∧ e₁.identifiers.entries[index.toNat]? = some name := by
  rw [Emitter.identifier] at h
  dsimp only at h
  split at h
  · next hLt =>
    cases h
    refine ⟨⟨⟨[], rfl, .nil⟩, List.prefix_rfl, Pool.entries_prefix_intern _ _, rfl, rfl⟩, ?_⟩
    rw [UInt16.toNat_ofNat_of_lt' hLt]
    exact Pool.getElem?_intern _ _
  · cases h

theorem call_emits {e e' : Emitter} {name : String} {base count : Nat}
    (h : e.call name base count = .ok e') : Emits e e' [.call name base count] := by
  obtain ⟨⟨index, e₁⟩, hIndex, h⟩ := ok_of_bind h
  obtain ⟨start, hStart, h⟩ := ok_of_bind h
  obtain ⟨total, hTotal, h⟩ := ok_of_bind h
  cases h
  obtain ⟨hIntern, hEntry⟩ := identifier_emits hIndex
  -- start and count fit into words, so the instruction says the same as the step
  have hMeans : e₁.Means (.call index start total) (.call name start.toNat total.toNat) :=
    .call start total hEntry
  rw [toNat_of_slot hStart, toNat_of_slot hTotal] at hMeans
  exact hIntern.trans (emits_single hMeans rfl)

theorem store_emits {e e' : Emitter} {n : Nat} (h : e.store n = .ok e') :
    Emits e e' [.store n] := by
  obtain ⟨slot, hSlot, h⟩ := ok_of_bind h
  obtain ⟨-, -, h⟩ := ok_of_bind h
  cases h
  have hMeans : e.Means (.store slot) (.store slot.toNat) := .store slot
  rw [toNat_of_slot hSlot] at hMeans
  exact emits_single hMeans rfl

/-! ## Formulas -/

theorem parameters_emits {ps : List Formula}
    (ih : ∀ p ∈ ps, ∀ {base : Nat} {e e' : Emitter}, formula base p e = .ok e' →
      Emits e e' (p.steps base))
    {base : Nat} {e e' : Emitter} (h : parameters base ps e = .ok e') :
    Emits e e' (Formula.parameterSteps base ps) := by
  induction ps generalizing base e with
  | nil =>
    cases h
    exact Emits.refl _
  | cons p ps ihTail =>
    rw [parameters] at h
    obtain ⟨e₁, hHead, h⟩ := ok_of_bind h
    obtain ⟨e₂, hStore, h⟩ := ok_of_bind h
    have hFront := (ih p (List.mem_cons_self ..) hHead).trans (store_emits hStore)
    exact hFront.trans (ihTail (fun q hq => ih q (List.mem_cons_of_mem p hq)) h)

/-- Emitting a formula emits its steps. -/
theorem formula_emits {base : Nat} {f : Formula} {e e' : Emitter}
    (h : formula base f e = .ok e') : Emits e e' (f.steps base) := by
  induction f generalizing base e e' with
  | number literal =>
    rw [formula] at h
    obtain ⟨⟨index, e₁⟩, hIndex, h⟩ := ok_of_bind h
    cases h
    obtain ⟨hIntern, hEntry⟩ := constant_emits hIndex
    exact hIntern.trans (emits_single (.constant hEntry) rfl)
  | var name =>
    rw [formula] at h
    obtain ⟨⟨index, e₁⟩, hIndex, h⟩ := ok_of_bind h
    cases h
    obtain ⟨hIntern, hEntry⟩ := identifier_emits hIndex
    exact hIntern.trans (emits_single (.load hEntry) rfl)
  | binary op left right ihLeft ihRight =>
    rw [formula] at h
    obtain ⟨e₁, hLeft, h⟩ := ok_of_bind h
    obtain ⟨e₂, hRight, h⟩ := ok_of_bind h
    obtain ⟨-, -, h⟩ := ok_of_bind h
    cases h
    exact ((ihLeft hLeft).trans (ihRight hRight)).trans (emits_single (.arith op) rfl)
  | unary op operand ih =>
    rw [Formula.steps]
    cases op with
    | plus =>
      rw [formula] at h
      simpa using ih h
    | minus =>
      rw [formula] at h
      obtain ⟨e₁, hOperand, h⟩ := ok_of_bind h
      obtain ⟨-, -, h⟩ := ok_of_bind h
      cases h
      exact (ih hOperand).trans (emits_single .negate rfl)
    | times | divide | modulo | power =>
      -- no other sign is emitted
      rw [formula] at h
      · cases h
      all_goals simp
  | call name ps ih =>
    rw [formula] at h
    obtain ⟨e₁, hParameters, h⟩ := ok_of_bind h
    exact (parameters_emits (fun p hp => ih p hp) hParameters).trans (call_emits h)

end Emitter

/-! ## Operands and slots of the steps -/

namespace Formula

theorem depthAfter_parameterSteps {ps : List Formula}
    (ih : ∀ p ∈ ps, ∀ base depth, depthAfter depth (p.steps base) = some (depth + 1))
    (base depth : Nat) : depthAfter depth (parameterSteps base ps) = some depth := by
  induction ps generalizing base with
  | nil => rfl
  | cons p ps ihTail =>
    rw [parameterSteps, depthAfter_append, depthAfter_append, ih p (List.mem_cons_self ..)]
    -- the store takes away what the parameter has left
    show depthAfter depth (parameterSteps (base + 1) ps) = some depth
    exact ihTail (fun q hq => ih q (List.mem_cons_of_mem p hq)) (base + 1)

/-- The steps of a formula find their operands, and leave one more. -/
theorem depthAfter_steps (f : Formula) (base depth : Nat) :
    depthAfter depth (f.steps base) = some (depth + 1) := by
  induction f generalizing base depth with
  | number literal => rfl
  | var name => rfl
  | binary op left right ihLeft ihRight =>
    rw [steps, depthAfter_append, depthAfter_append, ihLeft]
    show (depthAfter (depth + 1) (right.steps base)).bind _ = _
    rw [ihRight]
    rfl
  | unary op operand ih =>
    rw [steps, depthAfter_append, ih]
    split <;> rfl
  | call name ps ih =>
    rw [steps, depthAfter_append, depthAfter_parameterSteps (fun p hp => ih p hp)]
    rfl

/-- A formula whose steps touch slots from `base` on needs one of them. -/
theorem lt_slotsFrom_of_touches {f : Formula} {base : Nat} {step : Machine.Step}
    (hMem : step ∈ f.steps base) (hTouches : step.touchesCells = true) :
    base < f.slotsFrom base := by
  induction f generalizing base with
  | number literal =>
    rw [steps, List.mem_singleton] at hMem
    subst hMem
    cases hTouches
  | var name =>
    rw [steps, List.mem_singleton] at hMem
    subst hMem
    cases hTouches
  | binary op left right ihLeft ihRight =>
    rw [steps, List.mem_append, List.mem_append, List.mem_singleton] at hMem
    rw [slotsFrom]
    rcases hMem with (hMem | hMem) | rfl
    · have := ihLeft hMem
      omega
    · have := ihRight hMem
      omega
    · cases hTouches
  | unary op operand ih =>
    rw [steps, List.mem_append] at hMem
    rcases hMem with hMem | hMem
    · exact ih hMem
    · split at hMem
      · rw [List.mem_singleton] at hMem
        subst hMem
        cases hTouches
      · cases hMem
  | call name ps ih =>
    -- a call without parameters touches nothing
    rw [slotsFrom]
    cases ps with
    | nil =>
      rw [steps, parameterSteps, List.nil_append, List.mem_singleton] at hMem
      subst hMem
      cases hTouches
    | cons p ps =>
      rw [List.length_cons]
      omega

end Formula

/-! ## Counts of operands -/

namespace Emitter

/-- The count of an emitter is the number of operands. -/
theorem fst_tally {steps : List Machine.Step} {depth final peak : Nat}
    (hDepth : depthAfter depth steps = some final) :
    (steps.foldl tally (depth, peak)).1 = final := by
  induction steps generalizing depth peak with
  | nil =>
    cases hDepth
    rfl
  | cons step steps ih =>
    rw [Machine.depthAfter_cons] at hDepth
    split_ifs at hDepth with hPops
    have hNext : (tally (depth, peak) step).1 = depth - step.pops + step.pushes := by
      cases step <;> simp [tally, Machine.Step.pops, Machine.Step.pushes] at hPops ⊢ <;> omega
    exact ih (hNext ▸ hDepth)

/-- Emitting a formula adds one to the count, whatever the count was. Hence an
instruction that takes operands, which is emitted right behind the formulas
that make them, never brings the count below zero. -/
theorem depth_formula {base : Nat} {f : Formula} {e e' : Emitter}
    (h : formula base f e = .ok e') : e'.depth = e.depth + 1 := by
  have hCounters := (formula_emits h).counters
  have hDepth := congrArg Prod.fst hCounters
  rwa [fst_tally (f.depthAfter_steps base e.depth)] at hDepth

/-- A binary operator finds both its operands counted. -/
theorem formula_binary (base : Nat) (op : Operator) (left right : Formula) (e : Emitter) :
    formula base (.binary op left right) e = do
      let e ← formula base left e
      let e ← formula base right e
      return e.pop (.arith op) := by
  rw [formula]
  cases hLeft : formula base left e with
  | error err => rfl
  | ok e₁ =>
    show (formula base right e₁ >>= _) = (formula base right e₁ >>= _)
    cases hRight : formula base right e₁ with
    | error err => rfl
    | ok e₂ =>
      -- each of the two has added one to the count
      have hDepth₁ := depth_formula hLeft
      have hDepth₂ := depth_formula hRight
      show (checkOperands 2 e₂.depth >>= _) = _
      rw [checkOperands_ok (by omega)]
      rfl

/-- A minus finds its operand counted. -/
theorem formula_minus (base : Nat) (operand : Formula) (e : Emitter) :
    formula base (.unary .minus operand) e = do
      let e ← formula base operand e
      return e.keep .negate := by
  rw [formula]
  cases hOperand : formula base operand e with
  | error err => rfl
  | ok e₁ =>
    have hDepth := depth_formula hOperand
    show (checkOperands 1 e₁.depth >>= _) = _
    rw [checkOperands_ok (by omega)]
    rfl

/-- What stands behind a formula is stored. -/
theorem store_formula {base : Nat} {f : Formula} {e e' : Emitter} (h : formula base f e = .ok e')
    (n : Nat) :
    e'.store n = do
      let slot ← e'.slot n
      return e'.pop (.store slot) := by
  have hDepth := depth_formula h
  rw [store, checkOperands_ok (by omega)]
  rfl

end Emitter

/-! ## Assembling -/

namespace Chunk

/-- Reading an instruction takes a byte at least. -/
theorem Reads.length_le {c : Chunk} {offset stop : Nat} {is : List Instruction}
    (h : c.Reads offset is stop) : offset + is.length ≤ stop := by
  induction h with
  | done offset => simp
  | next head tail ih =>
    rename_i i is
    have hPos := i.size_pos
    rw [List.length_cons]
    omega

/-- A code that is read as instructions with a meaning, which find their
operands and their scratch buffer, is assembled to what they mean. -/
theorem assembleFrom_eq {c : Chunk} {is : List Instruction} {steps : List Machine.Step}
    (hSteps : List.Forall₂ (fun i step => c.step? i = .ok (some step)) is steps)
    {offset stop n depth : Nat} {a : Machine.Assembly}
    (hReads : c.Reads offset (is ++ [.finish]) stop) (hFuel : is.length < n)
    (hDepth : depthAfter a.depth steps = some depth) (hValue : 1 ≤ depth)
    (hScratch : ∀ step ∈ steps, step.touchesCells = true → c.scratchSize ≠ 0) :
    c.assembleFrom n offset a = .ok ⟨a.steps.reverse ++ steps, a.cells⟩ := by
  induction hSteps generalizing offset n a with
  | nil =>
    -- only the instruction that ends the code is left, and it finds the value
    obtain ⟨n, rfl⟩ := Nat.exists_eq_add_one.2 hFuel
    cases hReads with
    | next hHead hTail =>
      cases hDepth
      rw [assembleFrom, hHead]
      dsimp only [step?]
      rw [Machine.Assembly.finish?, if_pos hValue, List.append_nil]
      rfl
  | cons hStep hSteps ih =>
    rename_i i step is steps
    obtain ⟨n, rfl⟩ := Nat.exists_eq_add_one.2 (Nat.zero_lt_of_lt hFuel)
    cases hReads with
    | next hHead hTail =>
      rw [Machine.depthAfter_cons] at hDepth
      split at hDepth
      · next hPops =>
        rw [assembleFrom, hHead]
        dsimp only
        rw [hStep]
        dsimp only
        rw [Machine.Assembly.add?, if_pos hPops]
        have hBuffer : (step.touchesCells && c.scratchSize == 0) = false := by
          cases hTouches : step.touchesCells with
          | false => rfl
          | true => simpa using hScratch step (List.mem_cons_self ..) hTouches
        dsimp only
        rw [hBuffer, if_neg (by simp)]
        rw [ih hTail (by rw [List.length_cons] at hFuel; omega) hDepth
          (fun s hs => hScratch s (List.mem_cons_of_mem step hs))]
        simp
      · cases hDepth

end Chunk

/-- The chunk of a formula comes from an emitter that emitted it. -/
theorem Formula.exists_emitter {f : Formula} {name : String} {c : Chunk}
    (h : f.toChunk name = .ok c) :
    ∃ e, Emitter.formula 0 f (.start f.scratchSize) = .ok e ∧ c = e.finish name ∧
      f.scratchSize < wordCount := by
  rw [Formula.toChunk] at h
  split at h
  · cases h
  · next hFits =>
    obtain ⟨e, hEmit, h⟩ := ok_of_bind h
    cases h
    exact ⟨e, hEmit, rfl, by omega⟩

namespace Emitter

theorem encode_eq (is : List Instruction) (code : List UInt8) :
    encode is code = is.reverse.flatMap Instruction.bytes ++ code := by
  induction is generalizing code with
  | nil => rfl
  | cons i is ih =>
    rw [encode, ih, List.reverse_cons, List.flatMap_append, List.append_assoc]
    simp

/-- The code of a chunk is read as the instructions that were emitted. -/
theorem reads_finish (e : Emitter) (name : String) :
    (e.finish name).Reads 0 (e.instructions.reverse ++ [.finish]) (e.finish name).code.size := by
  apply Chunk.reads_of_code
  show (encode (.finish :: e.instructions) []).toArray.toList = _
  rw [List.toList_toArray, encode_eq, List.append_nil, List.reverse_cons]

theorem constantAt_finish {e : Emitter} {index : Nat} {literal : Literal}
    (h : e.constants.entries[index]? = some literal) (name : String) :
    (e.finish name).constantAt index = .ok literal := by
  have hEntry : (e.finish name).constants[index]? = some literal := h
  rw [Chunk.constantAt, hEntry]

theorem identifierAt_finish {e : Emitter} {index : Nat} {identifier : String}
    (h : e.identifiers.entries[index]? = some identifier) (name : String) :
    (e.finish name).identifierAt index = .ok identifier := by
  have hEntry : (e.finish name).identifiers[index]? = some identifier := h
  rw [Chunk.identifierAt, hEntry]

/-- What an instruction means to the emitter is what it means in the chunk. -/
theorem Means.step? {e : Emitter} {i : Instruction} {step : Machine.Step} (h : e.Means i step)
    (name : String) : (e.finish name).step? i = .ok (some step) := by
  cases h with
  | constant hEntry =>
    rw [Chunk.step?, constantAt_finish hEntry]
    rfl
  | load hEntry =>
    rw [Chunk.step?, identifierAt_finish hEntry]
    rfl
  | arith op => rfl
  | negate => rfl
  | store slot => rfl
  | call start count hEntry =>
    rw [Chunk.step?, identifierAt_finish hEntry]
    rfl

end Emitter

/-- All the instructions of a formula stand for its steps. -/
theorem Formula.means_steps {f : Formula} {size : Nat} {e : Emitter}
    (h : Emitter.formula 0 f (.start size) = .ok e) :
    List.Forall₂ e.Means e.instructions.reverse (f.steps 0) := by
  obtain ⟨is, hCode, hMeans⟩ := (Emitter.formula_emits h).code
  have hAll : e.instructions = is.reverse := hCode.trans (List.append_nil _)
  rwa [hAll, List.reverse_reverse]

/-- The chunk of a formula is assembled to the steps of the formula. -/
theorem Formula.assemble_toChunk {f : Formula} {name : String} {c : Chunk}
    (h : f.toChunk name = .ok c) : c.assemble = .ok ⟨f.steps 0, f.scratchSize⟩ := by
  obtain ⟨e, hEmit, rfl, -⟩ := f.exists_emitter h
  have hScratch : (e.finish name).scratchSize = f.scratchSize :=
    (Emitter.formula_emits hEmit).scratchSize
  have hReads := e.reads_finish name
  have hLength := hReads.length_le
  rw [List.length_append, List.length_singleton] at hLength
  rw [Chunk.assemble, hScratch]
  refine Chunk.assembleFrom_eq ((f.means_steps hEmit).imp fun i step hi => hi.step? name) hReads
    (by omega) (f.depthAfter_steps 0 0) (by omega) ?_
  intro step hStep hTouches
  rw [hScratch]
  exact Nat.ne_of_gt (Formula.lt_slotsFrom_of_touches hStep hTouches)

end Reckon
