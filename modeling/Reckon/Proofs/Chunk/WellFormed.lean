import Mathlib
import Reckon.Chunk.Listing
import Reckon.Proofs.Chunk.Pools

/-!
# Reckon — well-formed chunks

Three records are kept by hand while a formula is emitted: bytes of varying
length, pools, and a count of operands. They stay in step:

* **bytes** — both readers of a code, the assembler and the listing, visit the
  instructions that were emitted and nothing else (`Chunk.Reads.visits`,
  `Chunk.Reads.linesOnto_ok`);
* **pools** — every operand that refers to a pool finds its entry there;
* **operands** — no instruction finds fewer operands than it takes, one is left
  at the end, and the size of the stack is the greatest number there ever was
  (`Emitter.isGreatest_height`).

All of it is put together in `Formula.toChunk_wellFormed`.
-/

namespace Reckon

open Machine (Step)

namespace Instruction

/-- How an instruction changes the number of operands. -/
def effect : Instruction → Int
  | constant _ | load _ | call .. => 1
  | arith _ | store _ => -1
  | negate | finish => 0

/-- How many operands an instruction takes from the stack or looks at. -/
def operands : Instruction → Nat
  | constant _ | load _ | call .. => 0
  | negate | store _ | finish => 1
  | arith _ => 2

/-- The number of operands behind some code, if there was none before it. -/
def height (code : List Instruction) : Int :=
  (code.map effect).sum

/-- The number of bytes of some code. -/
def codeSize (code : List Instruction) : Nat :=
  (code.map size).sum

/-- The count that an emitter keeps. It cannot fall below zero, so it is wrong
from then on if an instruction takes an operand that is not there. -/
def count : Nat → Instruction → Nat
  | n, constant _ | n, load _ | n, call .. => n + 1
  | n, arith _ | n, store _ => n - 1
  | n, negate | n, finish => n

theorem codeSize_cons (i : Instruction) (code : List Instruction) :
    codeSize (i :: code) = i.size + codeSize code := by
  simp [codeSize]

theorem codeSize_append (first second : List Instruction) :
    codeSize (first ++ second) = codeSize first + codeSize second := by
  simp [codeSize]

end Instruction

open Instruction (height codeSize)

/-! ## Bytes -/

namespace Chunk

theorem Reads.stop_eq {c : Chunk} {offset stop : Nat} {code : List Instruction}
    (h : c.Reads offset code stop) : stop = offset + codeSize code := by
  induction h with
  | done offset => rfl
  | next head tail ih =>
    rw [Instruction.codeSize_cons]
    omega

/-- Each instruction is found behind the bytes of those before it. -/
theorem Reads.visits {c : Chunk} {offset stop : Nat} {before after : List Instruction}
    {i : Instruction} (h : c.Reads offset (before ++ i :: after) stop) :
    c.instructionAt (offset + codeSize before) = .ok i := by
  induction before generalizing offset with
  | nil =>
    cases h with
    | next head tail => exact head
  | cons j before ih =>
    cases h with
    | next head tail =>
      rw [Instruction.codeSize_cons, ← Nat.add_assoc]
      exact ih tail

/-- An instruction starts with the byte of an opcode. -/
theorem byte_of_instructionAt {c : Chunk} {offset : Nat} {i : Instruction}
    (h : c.instructionAt offset = .ok i) :
    ∃ byte, c.code[offset]? = some byte ∧ byte.toNat < Opcode.all.length := by
  obtain ⟨opcode, hOpcode, -⟩ := ok_of_bind h
  unfold opcodeAt at hOpcode
  split at hOpcode
  · cases hOpcode
  · next byte hByte =>
    split at hOpcode
    · next opcode' hKnown => exact ⟨byte, hByte, (List.getElem?_eq_some_iff.1 hKnown).1⟩
    · cases hOpcode

theorem lineAt_ok {c : Chunk} {offset : Nat} {i : Instruction}
    (h : c.instructionAt offset = .ok i) (hWords : ∃ words, c.describe i = .ok words) :
    ∃ line, c.lineAt offset = .ok (line, offset + i.size) := by
  obtain ⟨words, hWords⟩ := hWords
  refine ⟨Text.rightColumn '0' 4 offset ++ " " ++ words ++ "\n", ?_⟩
  rw [lineAt, h]
  show (c.describe i >>= fun words => pure (_, offset + i.size)) = _
  rw [hWords]
  rfl

/-- A code that is read to its end has a line for every instruction. -/
theorem Reads.linesOnto_ok {c : Chunk} {offset : Nat} {code : List Instruction}
    (h : c.Reads offset code c.code.size) (hWords : ∀ i ∈ code, ∃ words, c.describe i = .ok words)
    {n : Nat} (hn : code.length ≤ n) (text : String) :
    ∃ lines : List String, lines.length = code.length ∧
      c.linesOnto n offset text = .ok (lines.foldl (· ++ ·) text) := by
  generalize hStop : c.code.size = stop at h
  induction h generalizing n text with
  | done offset =>
    refine ⟨[], rfl, ?_⟩
    cases n with
    | zero => rfl
    | succ n =>
      -- the walk is at the end of the code
      rw [linesOnto, if_neg (by omega)]
      rfl
  | @next offset stop i code head tail ih =>
    obtain ⟨n, rfl⟩ := Nat.exists_eq_add_one.2 (Nat.zero_lt_of_lt hn)
    have hInside : offset < c.code.size := by
      have hLength := (Reads.next head tail).length_le
      rw [List.length_cons] at hLength
      omega
    obtain ⟨line, hLine⟩ := lineAt_ok head (hWords i (List.mem_cons_self ..))
    obtain ⟨lines, hLength, hLines⟩ := ih (fun j hj => hWords j (List.mem_cons_of_mem i hj))
      (Nat.le_of_succ_le_succ hn) (text ++ line) hStop
    refine ⟨line :: lines, by rw [List.length_cons, List.length_cons, hLength], ?_⟩
    rw [linesOnto, if_pos hInside, hLine]
    exact hLines

end Chunk

/-! ## Operands -/

theorem exists_of_forall₂ {α β : Type} {R : α → β → Prop} {as : List α} {bs : List β}
    (h : List.Forall₂ R as bs) {a : α} (hMem : a ∈ as) : ∃ b ∈ bs, R a b := by
  induction h with
  | nil => cases hMem
  | cons hHead _ ih =>
    rcases List.mem_cons.1 hMem with rfl | hMem
    · exact ⟨_, List.mem_cons_self .., hHead⟩
    · obtain ⟨b, hb, hRel⟩ := ih hMem
      exact ⟨b, List.mem_cons_of_mem _ hb, hRel⟩

namespace Emitter

/-- An instruction counts as its step does. -/
theorem Means.operands_eq {e : Emitter} {i : Instruction} {step : Step} (h : e.Means i step) :
    i.operands = step.pops ∧ i.effect = step.pushes - step.pops := by
  cases h <;> exact ⟨rfl, rfl⟩

/-- Where the steps find their operands, both counts of them are right. -/
theorem height_eq {e : Emitter} {code : List Instruction} {steps : List Step}
    (hMeans : List.Forall₂ e.Means code steps) {depth final : Nat}
    (hDepth : depthAfter depth steps = some final) :
    (final : Int) = depth + height code ∧ code.foldl Instruction.count depth = final := by
  induction hMeans generalizing depth with
  | nil =>
    cases hDepth
    exact ⟨by simp [height], rfl⟩
  | @cons i step code steps hHead hTail ih =>
    rw [Machine.depthAfter_cons] at hDepth
    split_ifs at hDepth with hPops
    obtain ⟨hHeight, hCount⟩ := ih hDepth
    obtain ⟨-, hEffect⟩ := hHead.operands_eq
    have hNext : i.count depth = depth - step.pops + step.pushes := by
      cases hHead <;> simp [Instruction.count, Step.pops, Step.pushes] at hPops ⊢ <;> omega
    constructor
    · rw [hHeight]
      simp only [height, List.map_cons, List.sum_cons, hEffect]
      omega
    · rw [List.foldl_cons, hNext, hCount]

theorem tally_eq {depth peak : Nat} {step : Step} (hPops : step.pops ≤ depth)
    (hPeak : depth ≤ peak) :
    tally (depth, peak) step = Reckon.tally (depth, peak) step := by
  show _ = (depth - step.pops + step.pushes, max peak (depth - step.pops + step.pushes))
  cases step <;> simp [tally, Step.pops, Step.pushes] at hPops ⊢ <;> omega

/-- An emitter keeps the tally of the steps that its instructions stand for. -/
theorem foldl_tally {steps : List Step} {depth final peak : Nat}
    (hDepth : depthAfter depth steps = some final) (hPeak : depth ≤ peak) :
    steps.foldl tally (depth, peak) = steps.foldl Reckon.tally (depth, peak) := by
  induction steps generalizing depth peak with
  | nil => rfl
  | cons step steps ih =>
    rw [Machine.depthAfter_cons] at hDepth
    split_ifs at hDepth with hPops
    rw [List.foldl_cons, List.foldl_cons, tally_eq hPops hPeak]
    exact ih hDepth (Nat.le_max_right _ _)

theorem Means.describe {e : Emitter} {i : Instruction} {step : Step} (h : e.Means i step)
    (name : String) : ∃ words, (e.finish name).describe i = .ok words := by
  cases h with
  | constant hEntry =>
    rw [Chunk.describe, constantAt_finish hEntry]
    exact ⟨_, rfl⟩
  | load hEntry =>
    rw [Chunk.describe, identifierAt_finish hEntry]
    exact ⟨_, rfl⟩
  | arith op => exact ⟨_, rfl⟩
  | negate => exact ⟨_, rfl⟩
  | store slot => exact ⟨_, rfl⟩
  | call start count hEntry =>
    rw [Chunk.describe, identifierAt_finish hEntry]
    exact ⟨_, rfl⟩

theorem exists_means {e : Emitter} {code : List Instruction} {steps : List Step}
    (h : List.Forall₂ e.Means code steps) {i : Instruction} (hMem : i ∈ code) :
    ∃ step, e.Means i step := by
  obtain ⟨step, -, hStep⟩ := exists_of_forall₂ h hMem
  exact ⟨step, hStep⟩

/-- What is true at each point of an emitted code. -/
theorem exists_depth {e : Emitter} {before after : List Instruction} {steps : List Step}
    (hMeans : List.Forall₂ e.Means (before ++ after) steps) {final : Nat}
    (hDepth : depthAfter 0 steps = some final) :
    ∃ front rest depth, steps = front ++ rest ∧ List.Forall₂ e.Means after rest ∧
      depthAfter 0 front = some depth ∧ depthAfter depth rest = some final ∧
      height before = depth ∧ before.foldl Instruction.count 0 = depth := by
  obtain ⟨front, rest, rfl, hFront, hRest⟩ := forall₂_of_append hMeans
  rw [depthAfter_append] at hDepth
  obtain ⟨depth, hBefore, hAfter⟩ := Option.bind_eq_some_iff.1 hDepth
  obtain ⟨hHeight, hCount⟩ := height_eq hFront hBefore
  exact ⟨front, rest, depth, rfl, hRest, hBefore, hAfter, by omega, hCount⟩

end Emitter

/-! ## Chunks -/

/-- A chunk holds `code`, and the instruction that ends it behind that. -/
structure Chunk.WellFormed (c : Chunk) (code : List Instruction) : Prop where
  /-- Both readers find each instruction where those before it end, and go on
  to where it ends itself. It does not start with the sentinel, which is the
  first byte behind those of the opcodes. -/
  visits : ∀ before i after, code ++ [.finish] = before ++ i :: after →
    c.instructionAt (codeSize before) = .ok i ∧
      (∃ line, c.lineAt (codeSize before) = .ok (line, codeSize (before ++ [i]))) ∧
      ∃ byte, c.code[codeSize before]? = some byte ∧ byte.toNat < Opcode.all.length
  /-- The last instruction ends where the code does. -/
  ends : codeSize (code ++ [.finish]) = c.code.size
  /-- The chunk can be listed, in a line for each instruction. -/
  listed : ∃ lines : List String, lines.length = code.length + 1 ∧
    c.listing = .ok (lines.foldl (· ++ ·) c.heading)
  /-- No other instruction ends the code. -/
  finish_notMem : .finish ∉ code
  constant_lt : ∀ index, .constant index ∈ code → index.toNat < c.constants.size
  load_lt : ∀ index, .load index ∈ code → index.toNat < c.identifiers.size
  call_lt : ∀ index start count, .call index start count ∈ code →
    index.toNat < c.identifiers.size
  /-- Every instruction finds its operands. -/
  operands_le : ∀ before i after, code ++ [.finish] = before ++ i :: after →
    (i.operands : Int) ≤ height before
  /-- One operand is left, the value. -/
  height_eq_one : height code = 1
  /-- The size of the stack is the greatest height. -/
  isGreatest : IsGreatest {n : Int | ∃ before, before <+: code ∧ height before = n} c.stackSize

namespace Emitter

variable {e : Emitter} {steps : List Step}
  (hMeans : List.Forall₂ e.Means e.instructions.reverse steps)
  (hDepth : depthAfter 0 steps = some 1)

include hMeans

theorem describe_finish (name : String) {i : Instruction}
    (hMem : i ∈ e.instructions.reverse ++ [.finish]) :
    ∃ words, (e.finish name).describe i = .ok words := by
  rcases List.mem_append.1 hMem with hMem | hMem
  · obtain ⟨step, hStep⟩ := exists_means hMeans hMem
    exact hStep.describe name
  · rw [List.mem_singleton] at hMem
    subst hMem
    exact ⟨_, rfl⟩

theorem visits_finish (name : String) {before after : List Instruction} {i : Instruction}
    (hSplit : e.instructions.reverse ++ [.finish] = before ++ i :: after) :
    (e.finish name).instructionAt (codeSize before) = .ok i ∧
      (∃ line, (e.finish name).lineAt (codeSize before) = .ok (line, codeSize (before ++ [i]))) ∧
      ∃ byte, (e.finish name).code[codeSize before]? = some byte ∧
        byte.toNat < Opcode.all.length := by
  have hReads := e.reads_finish name
  have hWords := describe_finish hMeans name (i := i) (by rw [hSplit]; simp)
  rw [hSplit] at hReads
  have hVisit := hReads.visits
  rw [Nat.zero_add] at hVisit
  refine ⟨hVisit, ?_, Chunk.byte_of_instructionAt hVisit⟩
  have hNext : codeSize (before ++ [i]) = codeSize before + i.size := by
    rw [Instruction.codeSize_append]
    simp [codeSize]
  rw [hNext]
  exact Chunk.lineAt_ok hVisit hWords

theorem listing_finish (name : String) :
    ∃ lines : List String, lines.length = e.instructions.reverse.length + 1 ∧
      (e.finish name).listing = .ok (lines.foldl (· ++ ·) (e.finish name).heading) := by
  have hReads := e.reads_finish name
  have hLength := hReads.length_le
  rw [Nat.zero_add] at hLength
  obtain ⟨lines, hLines, hListing⟩ := hReads.linesOnto_ok
    (fun i hi => describe_finish hMeans name hi) hLength (e.finish name).heading
  exact ⟨lines, by rw [hLines, List.length_append, List.length_singleton], hListing⟩

include hDepth

theorem operands_le {before after : List Instruction} {i : Instruction}
    (hSplit : e.instructions.reverse ++ [.finish] = before ++ i :: after) :
    (i.operands : Int) ≤ height before := by
  rcases append_cons_eq_append hSplit with ⟨rest, hIn⟩ | ⟨rest, rfl, hIn⟩
  · rw [hIn] at hMeans
    obtain ⟨front, back, depth, rfl, hBack, -, hAfter, hHeight, -⟩ := exists_depth hMeans hDepth
    cases hBack with
    | cons hHead _ =>
      rw [Machine.depthAfter_cons] at hAfter
      split_ifs at hAfter with hPops
      rw [hHeight, hHead.operands_eq.1]
      exact Int.ofNat_le.2 hPops
  · -- the last instruction finds the value
    cases rest with
    | nil =>
      cases hIn
      have hHeight := (height_eq hMeans hDepth).1
      rw [List.append_nil]
      show ((1 : Nat) : Int) ≤ height e.instructions.reverse
      omega
    | cons j rest => simp at hIn

theorem isGreatest_height {peak : Nat} (hPeak : peak = (steps.foldl tally (0, 0)).2) :
    IsGreatest {n : Int | ∃ before, before <+: e.instructions.reverse ∧ height before = n}
      (peak : Int) := by
  obtain ⟨hMem, hUpper⟩ := tally_isGreatest hDepth (Nat.le_refl 0)
  rw [← foldl_tally hDepth (Nat.le_refl 0), ← hPeak] at hMem hUpper
  constructor
  · rcases hMem with hZero | ⟨front, ⟨rest, rfl⟩, hCount⟩
    · exact ⟨[], List.nil_prefix, by rw [hZero]; rfl⟩
    · obtain ⟨before, after, hCode, hFront, -⟩ := forall₂_of_append hMeans.flip
      rw [hCode]
      exact ⟨before, List.prefix_append before after, by
        have hHeight := (height_eq hFront.flip hCount).1
        omega⟩
  · rintro n ⟨before, ⟨after, hCode⟩, rfl⟩
    rw [← hCode] at hMeans
    obtain ⟨front, rest, depth, rfl, -, hFront, -, hHeight, -⟩ := exists_depth hMeans hDepth
    rw [hHeight]
    exact Int.ofNat_le.2 (hUpper (Or.inr ⟨front, List.prefix_append front rest, hFront⟩))

end Emitter

namespace Formula

/-- The chunk of a formula holds the instructions that were emitted for it and
is well-formed. So it is assembled without an error, one step for each of these
instructions. The emitter counts the operands right: at each point of the code
its count is their number, and the emission of any formula adds one to it. -/
theorem toChunk_wellFormed {f : Formula} {name : String} {c : Chunk}
    (h : f.toChunk name = .ok c) :
    ∃ e p, Emitter.formula 0 f (.start f.scratchSize) = .ok e ∧ c = e.finish name ∧
      c.WellFormed e.instructions.reverse ∧ c.assemble = .ok p ∧
      List.Forall₂ (fun i step => c.step? i = .ok (some step)) e.instructions.reverse p.steps ∧
      (∀ before, before <+: e.instructions.reverse →
        (before.foldl Instruction.count 0 : Nat) = height before) ∧
      e.depth = e.instructions.reverse.foldl Instruction.count 0 ∧
      ∀ base g e₁ e₂, Emitter.formula base g e₁ = .ok e₂ → e₂.depth = e₁.depth + 1 := by
  have hAssemble := f.assemble_toChunk h
  obtain ⟨e, hEmit, rfl, -⟩ := f.exists_emitter h
  have hMeans := f.means_steps hEmit
  have hDepth := f.depthAfter_steps 0 0
  have hCounters := (Emitter.formula_emits hEmit).counters
  obtain ⟨hHeight, hCount⟩ := Emitter.height_eq hMeans hDepth
  have hWellFormed : (e.finish name).WellFormed e.instructions.reverse := by
    refine ⟨fun before i after => Emitter.visits_finish hMeans name, ?_,
      Emitter.listing_finish hMeans name, ?_, ?_, ?_, ?_,
      fun before i after => Emitter.operands_le hMeans hDepth, by omega,
      Emitter.isGreatest_height hMeans hDepth (congrArg Prod.snd hCounters)⟩
    · have hStop := (e.reads_finish name).stop_eq
      omega
    · -- no step is meant by the instruction that ends a code
      intro hMem
      obtain ⟨step, hStep⟩ := Emitter.exists_means hMeans hMem
      cases hStep
    · intro index hMem
      obtain ⟨step, hStep⟩ := Emitter.exists_means hMeans hMem
      cases hStep with
      | constant hEntry => exact (Array.getElem?_eq_some_iff.1 hEntry).1
    · intro index hMem
      obtain ⟨step, hStep⟩ := Emitter.exists_means hMeans hMem
      cases hStep with
      | load hEntry => exact (Array.getElem?_eq_some_iff.1 hEntry).1
    · intro index start count hMem
      obtain ⟨step, hStep⟩ := Emitter.exists_means hMeans hMem
      cases hStep with
      | call _ _ hEntry => exact (Array.getElem?_eq_some_iff.1 hEntry).1
  refine ⟨e, ⟨f.steps 0, f.scratchSize⟩, hEmit, rfl, hWellFormed, hAssemble,
    hMeans.imp fun i step hi => hi.step? name, ?_, ?_, ?_⟩
  · rintro before ⟨after, hCode⟩
    rw [← hCode] at hMeans
    obtain ⟨-, -, depth, -, -, -, -, hBefore, hBeforeCount⟩ := Emitter.exists_depth hMeans hDepth
    rw [hBeforeCount, hBefore]
  · rw [hCount, Emitter.depth_formula hEmit]
    rfl
  · intro base g e₁ e₂ hStep
    exact Emitter.depth_formula hStep

/-- A sum whose second operand is a call with a call among its parameters. -/
theorem toChunk_wellFormed_nested_calls :
    let f : Formula := .binary .plus (.number (.ofFloat 1))
      (.call "f" [.var "x", .call "g" [.unary .minus (.var "y"), (.number (.ofFloat 2))]])
    ∃ c e p, f.toChunk "nested" = .ok c ∧ Emitter.formula 0 f (.start 3) = .ok e ∧
      c.WellFormed e.instructions.reverse ∧ c.assemble = .ok p ∧ p.steps.length = 12 ∧
      e.depth = 1 := by
  intro f
  obtain ⟨c, hChunk⟩ := toChunk_ok (f := f) "nested" rfl (by decide) (by decide) (by decide)
  obtain ⟨e, p, hEmit, -, hWellFormed, hAssemble, -, -, -, hCount⟩ := toChunk_wellFormed hChunk
  rw [f.assemble_toChunk hChunk] at hAssemble
  cases hAssemble
  exact ⟨c, e, _, hChunk, hEmit, hWellFormed, f.assemble_toChunk hChunk, rfl,
    hCount 0 f _ e hEmit⟩

end Formula

end Reckon
