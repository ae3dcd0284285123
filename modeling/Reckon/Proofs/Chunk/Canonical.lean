import Mathlib
import Reckon.Proofs.Chunk.Limits
import Reckon.Proofs.Chunk.WellFormed
import Reckon.Proofs.Formula.Order
import Reckon.Proofs.Recovery

/-!
# Reckon — what is in the pools of a chunk

An operand that is a number of a pool entry says nothing by itself: it is right
only together with the pool. So pools and code are looked at together, from the
formula that they were made of:

* **pools** — the entries are the literals and the names of the formula, each
  where it first comes up (`Pool.entries_internAll`, `Emitter.formula_interned`);
* **references** — each entry is the operand of some instruction, and each such
  operand has an entry (`Pool.lt_size_iff`);
* **nodes** — the instructions that are no stores belong to the nodes that are no
  unary pluses, in postorder (`Formula.steps_isFor`). What stands in the bytes of
  an instruction leads through the pools to what is in its node
  (`Chunk.Stands`).

All of it is put together in `Formula.toChunk_canonical`.
-/

namespace Reckon

open Machine (Step)

/-! ## Distinct things -/

section Distinct

variable {α β : Type} [BEq α] [LawfulBEq α] [BEq β] [LawfulBEq β]

theorem eraseDups_concat (xs : List α) (a : α) :
    (xs ++ [a]).eraseDups = if a ∈ xs then xs.eraseDups else xs.eraseDups ++ [a] := by
  have hOne : [a].eraseDups = [a] := List.eraseDups_cons
  rw [List.eraseDups_append]
  by_cases h : a ∈ xs
  · simp [List.removeAll, h]
  · simp [List.removeAll, h, hOne]

theorem eraseDups_map {f : α → β} (hf : Function.Injective f) (xs : List α) :
    (xs.map f).eraseDups = xs.eraseDups.map f := by
  induction xs using List.reverseRecOn with
  | nil => rfl
  | append_singleton xs a ih =>
    rw [List.map_append, List.map_singleton, eraseDups_concat, eraseDups_concat, ih]
    by_cases h : a ∈ xs <;> simp [List.mem_map_of_injective hf, h]

end Distinct

namespace Pool

variable {α : Type} [BEq α] [Hashable α] [LawfulBEq α]

theorem entries_intern (p : Pool α) (a : α) :
    (p.intern a).2.entries.toList =
      if a ∈ p.entries.toList then p.entries.toList else p.entries.toList ++ [a] := by
  unfold intern
  split
  · next i h =>
    have hEntry := (p.index_iff a i).1 h
    rw [if_pos (Array.mem_toList_iff.2 (Array.mem_of_getElem? hEntry))]
  · next h =>
    have hNew : a ∉ p.entries.toList := by
      intro hMem
      obtain ⟨i, hi⟩ := List.mem_iff_getElem?.1 hMem
      rw [Array.getElem?_toList] at hi
      rw [(p.index_iff a i).2 hi] at h
      cases h
    rw [if_neg hNew, Array.toList_push]

/-- The entries of a pool are the things that were numbered, each where it first
came up. -/
theorem entries_internAll (xs : List α) :
    ((empty : Pool α).internAll xs).entries.toList = xs.eraseDups := by
  induction xs using List.reverseRecOn with
  | nil => rfl
  | append_singleton xs a ih =>
    have hNext : (empty : Pool α).internAll (xs ++ [a]) =
        (((empty : Pool α).internAll xs).intern a).2 := internAll_append _ xs [a]
    rw [hNext, entries_intern, eraseDups_concat, ih]
    simp only [List.mem_eraseDups]

/-- If things are referred to by their numbers, each number is used. -/
theorem lt_size_iff {p : Pool α} {xs : List α} (hEntries : p.entries.toList = xs.eraseDups)
    {indices : List Nat} (h : List.Forall₂ (fun i x => p.entries[i]? = some x) indices xs)
    (index : Nat) : index < p.entries.size ↔ index ∈ indices := by
  constructor
  · intro hLt
    have hEntry : p.entries[index]? = some p.entries[index] := Array.getElem?_eq_getElem hLt
    have hMem : p.entries[index] ∈ xs := by
      rw [← List.mem_eraseDups, ← hEntries]
      exact Array.getElem_mem_toList hLt
    -- the thing is referred to, and by the only number it has
    obtain ⟨i, hi, hRefers⟩ := exists_of_forall₂ h.flip hMem
    have hIndex := (p.index_iff _ i).2 hRefers
    rw [(p.index_iff _ index).2 hEntry] at hIndex
    cases hIndex
    exact hi
  · intro hMem
    obtain ⟨x, -, hEntry⟩ := exists_of_forall₂ h hMem
    exact (Array.getElem?_eq_some_iff.1 hEntry).1

end Pool

/-! ## Pools -/

/-- A demand that is met gives the pools its literal or its name. -/
theorem pools_of_meet {p q : Pools} {d : Demand} (h : meet p d = .ok q) :
    q = (p.1.internAll (Demand.literals [d]), p.2.internAll (Demand.names [d])) := by
  cases d with
  | literal l | name s | sign op =>
    rw [meet] at h
    split at h
    · cases h
      rfl
    · cases h

theorem pools_of_foldlM_meet {p q : Pools} {ds : List Demand} (h : ds.foldlM meet p = .ok q) :
    q = (p.1.internAll (Demand.literals ds), p.2.internAll (Demand.names ds)) := by
  induction ds generalizing p with
  | nil =>
    cases h
    rfl
  | cons d ds ih =>
    rw [List.foldlM_cons] at h
    obtain ⟨p₁, hHead, hTail⟩ := ok_of_bind h
    have hAll := ih hTail
    rw [pools_of_meet hHead, ← Pool.internAll_append, ← Pool.internAll_append,
      ← Demand.literals_append, ← Demand.names_append] at hAll
    exact hAll

/-- When a formula is emitted, the pools get its literals and its names. -/
theorem Emitter.formula_interned {f : Formula} {base : Nat} {e e' : Emitter}
    (hSlots : f.slotsFrom base < wordCount) (h : formula base f e = .ok e') :
    Interned e e' f.literals f.names := by
  have hMeets := formula_meets (e := e) hSlots
  rw [h] at hMeets
  have hPools := pools_of_foldlM_meet hMeets.symm
  rw [Formula.literals_demands, Formula.names_demands] at hPools
  exact ⟨congrArg Prod.fst hPools, congrArg Prod.snd hPools⟩

/-! ## References -/

namespace Instruction

/-- The number of the constant that an instruction refers to. -/
def constant? : Instruction → Option Nat
  | constant index => some index.toNat
  | _ => none

/-- The number of the identifier that an instruction refers to. -/
def identifier? : Instruction → Option Nat
  | load index | call index _ _ => some index.toNat
  | _ => none

end Instruction

/-- The literal in a step. -/
def Machine.Step.literal? : Step → Option Literal
  | constant literal => some literal
  | _ => none

namespace Formula

/-- What the steps of parameters hold is what those of each parameter hold, if
there is nothing in a store. -/
theorem filterMap_parameterSteps {α : Type} {part? : Step → Option α}
    (hStore : ∀ cell, part? (.store cell) = none) {parts : Formula → List α} {ps : List Formula}
    (ih : ∀ p ∈ ps, ∀ base, (p.steps base).filterMap part? = parts p) (base : Nat) :
    (parameterSteps base ps).filterMap part? = ps.flatMap parts := by
  induction ps generalizing base with
  | nil => rfl
  | cons p ps ihTail =>
    have hHead := ih p (List.mem_cons_self ..) base
    have hTail := ihTail (fun q hq => ih q (List.mem_cons_of_mem p hq)) (base + 1)
    rw [parameterSteps, List.filterMap_append, List.filterMap_append, hHead, hTail,
      List.filterMap_cons_none (hStore base), List.filterMap_nil, List.append_nil,
      List.flatMap_cons]

/-- The steps of a formula hold its literals. -/
theorem literals_steps (f : Formula) (base : Nat) :
    (f.steps base).filterMap Step.literal? = f.literals := by
  induction f generalizing base with
  | number literal => rfl
  | var name => rfl
  | binary op left right ihLeft ihRight =>
    simp [steps, literals, ihLeft, ihRight, Step.literal?]
  | unary op operand ih =>
    rw [steps, List.filterMap_append, ih, literals]
    split <;> simp [Step.literal?]
  | call name ps ih =>
    have hParameters := filterMap_parameterSteps (fun _ => rfl) ih base
    simp [steps, literals, literalsAll_eq, hParameters, Step.literal?]

/-- The steps of a formula hold its names, in the order of their lookups. -/
theorem names_steps (f : Formula) (base : Nat) :
    (f.steps base).filterMap Step.name? = f.names := by
  induction f generalizing base with
  | number literal => rfl
  | var name => rfl
  | binary op left right ihLeft ihRight => simp [steps, names, ihLeft, ihRight, Step.name?]
  | unary op operand ih =>
    rw [steps, List.filterMap_append, ih, names]
    split <;> simp [Step.name?]
  | call name ps ih =>
    have hParameters := filterMap_parameterSteps (fun _ => rfl) ih base
    simp [steps, names, namesAll_eq, hParameters, Step.name?]

end Formula

namespace Emitter

variable {e : Emitter} {code : List Instruction} {steps : List Step}

/-- The constants that a code refers to are the literals in what it stands for. -/
theorem constants_of_means (h : List.Forall₂ e.Means code steps) :
    List.Forall₂ (fun index literal => e.constants.entries[index]? = some literal)
      (code.filterMap Instruction.constant?) (steps.filterMap Step.literal?) := by
  refine List.rel_filterMap (fun i step hi => ?_) h
  cases hi with
  | constant hEntry => exact .some hEntry
  | _ => exact .none

theorem identifiers_of_means (h : List.Forall₂ e.Means code steps) :
    List.Forall₂ (fun index name => e.identifiers.entries[index]? = some name)
      (code.filterMap Instruction.identifier?) (steps.filterMap Step.name?) := by
  refine List.rel_filterMap (fun i step hi => ?_) h
  cases hi with
  | load hEntry | call _ _ hEntry => exact .some hEntry
  | _ => exact .none

end Emitter

/-! ## Nodes -/

namespace Machine.Step

/-- Whether a step moves a parameter into its cell. -/
def isStore : Step → Bool
  | store _ => true
  | _ => false

/-- The step that makes the value of a node of the values below it. -/
inductive IsFor : Step → Formula → Prop
  | number (literal : Literal) : IsFor (constant literal) (.number literal)
  | var (name : String) : IsFor (lookup name) (.var name)
  | binary (op : Operator) (left right : Formula) : IsFor (arith op) (.binary op left right)
  | minus (operand : Formula) : IsFor negate (.unary .minus operand)
  | call (name : String) (start : Nat) (parameters : List Formula) :
      IsFor (call name start parameters.length) (.call name parameters)

end Machine.Step

namespace Formula

/-- Whether the node is a unary plus, which leaves the value below it as it is. -/
def isPlus : Formula → Bool
  | unary .plus _ => true
  | _ => false

theorem parameterSteps_isFor {ps : List Formula}
    (ih : ∀ p ∈ ps, ∀ base, List.Forall₂ Step.IsFor
      ((p.steps base).filter fun step => !step.isStore) (p.postorder.filter fun g => !g.isPlus))
    (base : Nat) :
    List.Forall₂ Step.IsFor ((parameterSteps base ps).filter fun step => !step.isStore)
      ((postorderAll ps).filter fun g => !g.isPlus) := by
  induction ps generalizing base with
  | nil => exact .nil
  | cons p ps ihTail =>
    have hHead := ih p (List.mem_cons_self ..) base
    have hTail := ihTail (fun q hq => ih q (List.mem_cons_of_mem p hq)) (base + 1)
    have hStore : [Step.store base].filter (fun step => !step.isStore) = [] := rfl
    rw [parameterSteps, postorderAll, List.filter_append, List.filter_append, List.filter_append,
      hStore, List.append_nil]
    exact List.rel_append hHead hTail

/-- But for the stores, there is one step for each node that is no unary plus, in
postorder. -/
theorem steps_isFor {f : Formula} (hSigned : f.wellSigned = true) (base : Nat) :
    List.Forall₂ Step.IsFor ((f.steps base).filter fun step => !step.isStore)
      (f.postorder.filter fun g => !g.isPlus) := by
  induction f generalizing base with
  | number literal => exact .cons (.number literal) .nil
  | var name => exact .cons (.var name) .nil
  | binary op left right ihLeft ihRight =>
    rw [wellSigned, Bool.and_eq_true] at hSigned
    simp only [steps, postorder, List.filter_append]
    refine List.rel_append (List.rel_append (ihLeft hSigned.1 base) (ihRight hSigned.2 base)) ?_
    exact .cons (.binary op left right) .nil
  | unary op operand ih =>
    rw [wellSigned, Bool.and_eq_true] at hSigned
    simp only [steps, postorder, List.filter_append]
    refine List.rel_append (ih hSigned.2 base) ?_
    cases op with
    | plus =>
      -- neither a step nor a node that counts
      exact .nil
    | minus => exact .cons (.minus operand) .nil
    | times | divide | modulo | power => simp at hSigned
  | call name ps ih =>
    rw [wellSigned, wellSignedAll_iff] at hSigned
    simp only [steps, postorder, List.filter_append]
    -- the call itself is the last one, as a step and as a node
    refine List.rel_append (parameterSteps_isFor (fun p hp => ih p hp (hSigned p hp)) base) ?_
    exact .cons (.call name base ps) .nil

end Formula

namespace Instruction

/-- Whether an instruction moves a parameter into its slot. -/
def isStore : Instruction → Bool
  | store _ => true
  | _ => false

/-- The first byte of an instruction. -/
def opcode : Instruction → Opcode
  | constant _ => .constant
  | load _ => .load
  | arith op => .arith op
  | negate => .negate
  | store _ => .store
  | call .. => .call
  | finish => .finish

/-- The operands of an instruction, in their order. -/
def words : Instruction → List UInt16
  | constant index | load index => [index]
  | store slot => [slot]
  | call index start count => [index, start, count]
  | arith _ | negate | finish => []

/-- Instructions with the offsets that they have if the first one is at `offset`. -/
def sites (offset : Nat) : List Instruction → List (Nat × Instruction)
  | [] => []
  | i :: code => (offset, i) :: sites (offset + i.size) code

theorem map_snd_sites (offset : Nat) (code : List Instruction) :
    (sites offset code).map Prod.snd = code := by
  induction code generalizing offset with
  | nil => rfl
  | cons i code ih => rw [sites, List.map_cons, ih]

end Instruction

namespace Chunk

open Instruction (sites)

theorem Reads.instructionAt_site {c : Chunk} {offset stop : Nat} {code rest : List Instruction}
    (h : c.Reads offset (code ++ rest) stop) :
    ∀ site ∈ sites offset code, c.instructionAt site.1 = .ok site.2 := by
  induction code generalizing offset with
  | nil => exact List.forall_mem_nil _
  | cons i code ih =>
    cases h with
    | next head tail => exact List.forall_mem_cons.2 ⟨head, ih tail⟩

/-- What stands at an offset of a code belongs to a node: the opcode is that of
the node, and the word behind it, by way of a pool, leads to the number or to the
name in the node. -/
inductive Stands (c : Chunk) (offset : Nat) : Formula → Prop
  | number {literal : Literal} {index : UInt16} (hOpcode : c.opcodeAt offset = .ok .constant)
      (hIndex : c.wordAt (offset + 1) = .ok index)
      (hEntry : c.constantAt index.toNat = .ok literal) : Stands c offset (.number literal)
  | var {name : String} {index : UInt16} (hOpcode : c.opcodeAt offset = .ok .load)
      (hIndex : c.wordAt (offset + 1) = .ok index)
      (hEntry : c.identifierAt index.toNat = .ok name) : Stands c offset (.var name)
  | binary {op : Operator} {left right : Formula} (hOpcode : c.opcodeAt offset = .ok (.arith op)) :
      Stands c offset (.binary op left right)
  | minus {operand : Formula} (hOpcode : c.opcodeAt offset = .ok .negate) :
      Stands c offset (.unary .minus operand)
  | call {name : String} {parameters : List Formula} {index count : UInt16}
      (hOpcode : c.opcodeAt offset = .ok .call) (hIndex : c.wordAt (offset + 1) = .ok index)
      (hEntry : c.identifierAt index.toNat = .ok name)
      (hCount : c.wordAt (offset + 5) = .ok count) (hLength : count.toNat = parameters.length) :
      Stands c offset (.call name parameters)

/-- An instruction is read from its opcode and from the words behind that. -/
theorem parts_of_instructionAt {c : Chunk} {offset : Nat} {i : Instruction}
    (h : c.instructionAt offset = .ok i) :
    c.opcodeAt offset = .ok i.opcode ∧
      ∀ k w, i.words[k]? = some w → c.wordAt (offset + 1 + 2 * k) = .ok w := by
  obtain ⟨opcode, hOpcode, h⟩ := ok_of_bind h
  rw [hOpcode]
  cases opcode with
  | constant | load | store =>
    obtain ⟨word, hWord, h⟩ := ok_of_bind h
    cases h
    refine ⟨rfl, fun k w hk => ?_⟩
    obtain rfl | k := k
    · cases hk
      exact hWord
    · cases hk
  | arith op | negate | finish =>
    cases h
    refine ⟨rfl, fun k w hk => ?_⟩
    cases hk
  | call =>
    obtain ⟨index, hIndex, h⟩ := ok_of_bind h
    obtain ⟨start, hStart, h⟩ := ok_of_bind h
    obtain ⟨count, hCount, h⟩ := ok_of_bind h
    cases h
    refine ⟨rfl, fun k w hk => ?_⟩
    obtain _ | _ | _ | k := k
    · cases hk
      exact hIndex
    · cases hk
      exact hStart
    · cases hk
      exact hCount
    · cases hk

end Chunk

/-- What is read at an offset belongs to the node that its step is for. -/
theorem Emitter.Means.stands {e : Emitter} {i : Instruction} {step : Step} (h : e.Means i step)
    {node : Formula} (hNode : step.IsFor node) (name : String) {offset : Nat}
    (hRead : (e.finish name).instructionAt offset = .ok i) :
    (e.finish name).Stands offset node := by
  obtain ⟨hOpcode, hWords⟩ := Chunk.parts_of_instructionAt hRead
  cases h with
  | constant hEntry =>
    cases hNode
    exact .number hOpcode (hWords 0 _ rfl) (constantAt_finish hEntry name)
  | load hEntry =>
    cases hNode
    exact .var hOpcode (hWords 0 _ rfl) (identifierAt_finish hEntry name)
  | arith op =>
    cases hNode
    exact .binary hOpcode
  | negate =>
    cases hNode
    exact .minus hOpcode
  | store slot => cases hNode
  | call start count hEntry =>
    -- the count of the instruction is that of the step
    generalize hCount : count.toNat = n at hNode
    cases hNode
    exact .call hOpcode (hWords 0 _ rfl) (identifierAt_finish hEntry name) (hWords 2 _ rfl) hCount

theorem Emitter.Means.isStore_eq {e : Emitter} {i : Instruction} {step : Step}
    (h : e.Means i step) : i.isStore = step.isStore := by
  cases h <;> rfl

theorem forall₂_trans {α β γ : Type} {R : α → β → Prop} {S : β → γ → Prop} {T : α → γ → Prop}
    (hT : ∀ {a b c}, R a b → S b c → T a c) {as : List α} {bs : List β} {cs : List γ}
    (h : List.Forall₂ R as bs) (h' : List.Forall₂ S bs cs) : List.Forall₂ T as cs := by
  induction h generalizing cs with
  | nil =>
    cases h'
    exact .nil
  | cons hHead _ ih =>
    cases h' with
    | cons hHead' hTail' => exact .cons (hT hHead hHead') (ih hTail')

open Instruction (sites)

/-- The instructions that were emitted stand where the nodes of the formula have
them. -/
theorem Formula.sites_stand {f : Formula} {size : Nat} {e : Emitter}
    (h : Emitter.formula 0 f (.start size) = .ok e) (name : String) :
    List.Forall₂ (fun site node => (e.finish name).Stands site.1 node)
      ((sites 0 e.instructions.reverse).filter fun site => !site.2.isStore)
      (f.postorder.filter fun g => !g.isPlus) := by
  have hMeans := f.means_steps h
  have hReads := (e.reads_finish name).instructionAt_site
  -- each site is read as an instruction that stands for a step
  rw [← Instruction.map_snd_sites 0 e.instructions.reverse, List.forall₂_map_left_iff] at hMeans
  have hSites := (List.forall₂_and_left _ _).2 ⟨hReads, hMeans⟩
  have hStores : ∀ (site : Nat × Instruction) step,
      (e.finish name).instructionAt site.1 = .ok site.2 ∧ e.Means site.2 step →
        ((!site.2.isStore) = true ↔ (!step.isStore) = true) := by
    rintro site step ⟨-, hStep⟩
    rw [hStep.isStore_eq]
  have hFiltered := List.rel_filter hStores hSites
  -- and what stands for a step that is no store is for a node
  have hNodes := f.steps_isFor (Emitter.wellSigned_of_formula h) 0
  exact forall₂_trans (fun hSite hNode => hSite.2.stands hNode name hSite.1) hFiltered hNodes

namespace Formula

/-- **The pools of a chunk hold what the formula needs, once and in order, and the
code refers to all of it.** Constants are told apart by their bits, and their pool
is the list of the distinct ones from left to right. The pool of identifiers is the
list of the distinct names of variables and functions, in postorder.
In the code, which is read from its start to its end, the numbers that refer to a
pool are those of its entries. Its instructions that are no stores belong to the
nodes of the formula that are no unary pluses, in postorder: the word behind the
opcode is read with its low byte first, and the entry of that number is the literal
or the name of the node. -/
theorem toChunk_canonical {f : Formula} {name : String} {c : Chunk}
    (h : f.toChunk name = .ok c) :
    (c.constants.toList.map Literal.bits).Nodup ∧
    c.constants.toList.map Literal.bits = (f.literals.map Literal.bits).eraseDups ∧
    c.identifiers.toList.Nodup ∧
    c.identifiers.toList = f.names.eraseDups ∧
    ∃ code, c.Reads 0 (code ++ [.finish]) c.code.size ∧
      (∀ index, index < c.constants.size ↔ index ∈ code.filterMap Instruction.constant?) ∧
      (∀ index, index < c.identifiers.size ↔ index ∈ code.filterMap Instruction.identifier?) ∧
      List.Forall₂ (fun site node => c.Stands site.1 node)
        ((sites 0 code).filter fun site => !site.2.isStore)
        (f.postorder.filter fun g => !g.isPlus) := by
  obtain ⟨e, hEmit, rfl, hSlots⟩ := f.exists_emitter h
  have hInterned := Emitter.formula_interned hSlots hEmit
  have hMeans := f.means_steps hEmit
  have hConstants : e.constants.entries.toList = f.literals.eraseDups := by
    rw [hInterned.constants]
    exact Pool.entries_internAll f.literals
  have hIdentifiers : e.identifiers.entries.toList = f.names.eraseDups := by
    rw [hInterned.identifiers]
    exact Pool.entries_internAll f.names
  refine ⟨?_, ?_, e.identifiers.nodup_entries, hIdentifiers, e.instructions.reverse,
    e.reads_finish name, fun index => ?_, fun index => ?_, f.sites_stand hEmit name⟩
  · exact e.constants.nodup_entries.map bits_injective
  · rw [eraseDups_map bits_injective, ← hConstants]
    rfl
  -- the operands of the code, one by one, are numbers of what the formula holds
  · have hRefer := Emitter.constants_of_means hMeans
    rw [f.literals_steps 0] at hRefer
    exact Pool.lt_size_iff hConstants hRefer index
  · have hRefer := Emitter.identifiers_of_means hMeans
    rw [f.names_steps 0] at hRefer
    exact Pool.lt_size_iff hIdentifiers hRefer index

/-- Both zeros have an entry, and so has each of two patterns of not-a-number. A
literal that comes up again has none of its own, and `g` is at once a variable and
the function that is called with it. -/
theorem toChunk_canonical_shared_entries :
    let f : Formula := .call "g" [.binary .plus (.number ⟨0⟩) (.var "g"),
      .call "h" [.number ⟨0x8000000000000000⟩, .unary .plus (.var "x"), .number ⟨0⟩],
      .number ⟨0x7ff8000000000000⟩, .number ⟨0x7ff8000000000001⟩]
    ∃ c, f.toChunk "shared" = .ok c ∧
      c.constants.toList.map Literal.bits =
        [0, 0x8000000000000000, 0x7ff8000000000000, 0x7ff8000000000001] ∧
      c.identifiers.toList = ["g", "x", "h"] := by
  intro f
  obtain ⟨c, hChunk⟩ := toChunk_ok (f := f) "shared" rfl (by decide) (by decide) (by decide)
  obtain ⟨-, hConstants, -, hIdentifiers, -⟩ := toChunk_canonical hChunk
  refine ⟨c, hChunk, ?_, ?_⟩
  · rw [hConstants]
    rfl
  · rw [hIdentifiers]
    rfl

end Formula

end Reckon
