import Mathlib
import Reckon.Proofs.Chunk.Pools

/-!
# Reckon — when a formula has no chunk

Two things keep a formula from having a chunk. Its calls need more scratch slots
than there are words, which is found out before anything is emitted, or it makes
a demand that cannot be met at the moment it comes up:

* `Formula.demands` — the literals, names and signs of a formula in the order in
  which they come up while it is emitted;
* `Admissible` — demands that can be met: the signs mean something, and neither
  the literals nor the names are too many. This is said by counting distinct
  ones and without pools;
* `Emitter.formula_meets` — if there are enough slots, emitting a formula is
  meeting its demands one after the other (`meet`), so it fails with nothing
  else;
* `Formula.toChunk_limits` — when there is a chunk, and which error there is
  otherwise.
-/

namespace Reckon

/-! ## Demands -/

/-- What may come up while a formula is emitted and can be refused. -/
inductive Demand where
  | literal (l : Literal)
  | name (s : String)
  | sign (op : Operator)

namespace Demand

/-- The error that belongs to a demand. -/
def error : Demand → CompileError
  | literal _ => .tooManyConstants
  | name _ => .tooManyIdentifiers
  | sign op => .unknownUnary op

/-- The literals among demands. -/
def literals (ds : List Demand) : List Literal :=
  ds.filterMap fun
    | literal l => some l
    | _ => none

/-- The names among demands. -/
def names (ds : List Demand) : List String :=
  ds.filterMap fun
    | name s => some s
    | _ => none

theorem literals_append (ds es : List Demand) :
    literals (ds ++ es) = literals ds ++ literals es :=
  List.filterMap_append

theorem names_append (ds es : List Demand) : names (ds ++ es) = names ds ++ names es :=
  List.filterMap_append

end Demand

namespace Formula

mutual

/-- The demands of a formula in the order in which they come up. A sign comes up
before its operand, and the name of a function behind its parameters. -/
def demands : Formula → List Demand
  | number literal => [.literal literal]
  | var name => [.name name]
  | binary _ left right => left.demands ++ right.demands
  | unary op operand => .sign op :: operand.demands
  | call name parameters => demandsAll parameters ++ [.name name]

/-- The demands of formulas, from left to right. -/
def demandsAll : List Formula → List Demand
  | [] => []
  | p :: ps => p.demands ++ demandsAll ps

end

mutual

theorem literals_demands : (f : Formula) → Demand.literals f.demands = f.literals
  | number _ | var _ => rfl
  | binary _ left right => by
    rw [demands, Demand.literals_append, literals_demands left, literals_demands right, literals]
  | unary _ operand => literals_demands operand
  | call _ parameters => by
    rw [demands, Demand.literals_append, literals_demandsAll parameters, literals]
    exact List.append_nil _

theorem literals_demandsAll : (ps : List Formula) →
    Demand.literals (demandsAll ps) = literalsAll ps
  | [] => rfl
  | p :: ps => by
    rw [demandsAll, Demand.literals_append, literals_demands p, literals_demandsAll ps, literalsAll]

end

mutual

theorem names_demands : (f : Formula) → Demand.names f.demands = f.names
  | number _ | var _ => rfl
  | binary _ left right => by
    rw [demands, Demand.names_append, names_demands left, names_demands right, names]
  | unary _ operand => names_demands operand
  | call _ parameters => by
    rw [demands, Demand.names_append, names_demandsAll parameters, names]
    rfl

theorem names_demandsAll : (ps : List Formula) → Demand.names (demandsAll ps) = namesAll ps
  | [] => rfl
  | p :: ps => by
    rw [demandsAll, Demand.names_append, names_demands p, names_demandsAll ps, namesAll]

end

mutual

theorem signs_demands : (f : Formula) →
    ((∀ op, .sign op ∈ f.demands → op = .plus ∨ op = .minus) ↔ f.wellSigned = true)
  | number _ | var _ => by simp [demands, wellSigned]
  | binary _ left right => by
    rw [wellSigned, Bool.and_eq_true, ← signs_demands left, ← signs_demands right]
    simp only [demands, List.mem_append, or_imp, forall_and]
  | unary op operand => by
    rw [wellSigned, Bool.and_eq_true, ← signs_demands operand]
    simp [demands]
  | call _ parameters => by
    rw [wellSigned, ← signs_demandsAll parameters]
    simp [demands]

theorem signs_demandsAll : (ps : List Formula) →
    ((∀ op, .sign op ∈ demandsAll ps → op = .plus ∨ op = .minus) ↔ wellSignedAll ps = true)
  | [] => by simp [demandsAll, wellSignedAll]
  | p :: ps => by
    rw [wellSignedAll, Bool.and_eq_true, ← signs_demands p, ← signs_demandsAll ps]
    simp only [demandsAll, List.mem_append, or_imp, forall_and]

end

end Formula

/-- Demands that can be met, all of them together. -/
structure Admissible (ds : List Demand) : Prop where
  signs : ∀ op, .sign op ∈ ds → op = .plus ∨ op = .minus
  literals : ((Demand.literals ds).map Literal.bits).toFinset.card ≤ 65536
  names : (Demand.names ds).toFinset.card ≤ 65536

/-! ## Pools -/

namespace Pool

variable {α : Type} [BEq α] [Hashable α] [LawfulBEq α]

/-- Nothing has two numbers. -/
theorem nodup_entries (p : Pool α) : p.entries.toList.Nodup := by
  rw [List.nodup_iff_injective_getElem]
  rintro ⟨i, hi⟩ ⟨j, hj⟩ hEq
  have hi' : p.entries[i]? = some p.entries.toList[i] := by simp
  have hj' : p.entries[j]? = some p.entries.toList[i] := by
    rw [show p.entries.toList[i] = p.entries.toList[j] from hEq]; simp
  have hIndex := (p.index_iff _ i).2 hi'
  rw [(p.index_iff _ j).2 hj'] at hIndex
  simpa using hIndex.symm

theorem mem_entries_intern (p : Pool α) (a b : α) :
    b ∈ (p.intern a).2.entries ↔ b ∈ p.entries ∨ b = a := by
  unfold intern
  split
  · next i hi =>
    have := (p.index_iff a i).1 hi
    constructor
    · exact Or.inl
    · rintro (h | rfl)
      · exact h
      · exact Array.mem_of_getElem? this
  · simp

/-- A pool of few things has a number for a further one just if it still is one
of few things with it. -/
theorem fst_intern_lt_iff (p : Pool α) (a : α) {limit : Nat} (h : p.entries.size ≤ limit) :
    (p.intern a).1 < limit ↔ (p.intern a).2.entries.size ≤ limit := by
  constructor
  · unfold intern
    split
    · exact fun _ => h
    · simp
  · exact Nat.lt_of_lt_of_le (p.fst_intern_lt a)

/-- The entries of a pool are the things of a list. -/
def Lists (p : Pool α) (xs : List α) : Prop :=
  ∀ a, a ∈ p.entries ↔ a ∈ xs

theorem lists_empty : (empty : Pool α).Lists [] := by
  intro a
  simp [empty]

theorem Lists.intern {p : Pool α} {xs : List α} (h : p.Lists xs) (a : α) :
    (p.intern a).2.Lists (xs ++ [a]) := by
  intro b
  rw [mem_entries_intern, h, List.mem_append, List.mem_singleton]

theorem Lists.size_eq [DecidableEq α] {p : Pool α} {xs : List α} (h : p.Lists xs) :
    p.entries.size = xs.toFinset.card := by
  have hSame : xs.toFinset = p.entries.toList.toFinset := by
    ext a
    simp only [List.mem_toFinset, Array.mem_toList_iff, h a]
  rw [hSame, List.toFinset_card_of_nodup p.nodup_entries, Array.length_toList]

/-- A further thing has a number that fits a word just if, together with it,
there are no more things than words. -/
theorem Lists.intern_lt_iff [DecidableEq α] {p : Pool α} {xs : List α} (h : p.Lists xs)
    (hFew : xs.toFinset.card ≤ 65536) (a : α) :
    (p.intern a).1 < wordCount ↔ (xs ++ [a]).toFinset.card ≤ 65536 := by
  rw [fst_intern_lt_iff p a (h.size_eq ▸ hFew : p.entries.size ≤ wordCount), (h.intern a).size_eq]
  exact Iff.rfl

end Pool

/-- Literals are told apart by their bits. -/
theorem bits_injective : Function.Injective Literal.bits :=
  fun _ _ hBits => Literal.ext hBits

theorem card_bits (ls : List Literal) :
    (ls.map Literal.bits).toFinset.card = ls.toFinset.card := by
  have hImage : (ls.map Literal.bits).toFinset = ls.toFinset.image Literal.bits := by
    ext bits
    simp
  rw [hImage, Finset.card_image_of_injective _ bits_injective]

/-! ## Meeting demands -/

/-- The pools of a chunk under construction. -/
abbrev Pools := Pool Literal × Pool String

/-- Meets a demand, if possible. -/
def meet (p : Pools) : Demand → Except CompileError Pools
  | .literal l =>
    if (p.1.intern l).1 < wordCount then .ok ((p.1.intern l).2, p.2) else .error .tooManyConstants
  | .name s =>
    if (p.2.intern s).1 < wordCount then .ok (p.1, (p.2.intern s).2) else .error .tooManyIdentifiers
  | .sign op => if op = .plus ∨ op = .minus then .ok p else .error (.unknownUnary op)

theorem foldlM_meet_singleton (p : Pools) (d : Demand) : [d].foldlM meet p = meet p d := by
  rw [List.foldlM_cons]
  exact bind_pure (meet p d)

namespace Emitter

/-- The pools of an emitter. -/
def pools (e : Emitter) : Pools :=
  (e.constants, e.identifiers)

/-- One part of an emission after the other. -/
theorem map_pools_bind {x : Except CompileError Emitter} {g : Emitter → Except CompileError Emitter}
    {y : Except CompileError Pools} {k : Pools → Except CompileError Pools}
    (hx : x.map pools = y) (hg : ∀ e, x = .ok e → (g e).map pools = k e.pools) :
    (x >>= g).map pools = y >>= k := by
  subst hx
  cases x with
  | error err => rfl
  | ok e => exact hg e rfl

/-- An instruction behind an emission asks for nothing. -/
theorem map_pools_pure {x : Except CompileError Emitter} {g : Emitter → Emitter}
    (hg : ∀ e, (g e).pools = e.pools) : (x >>= fun e => pure (g e)).map pools = x.map pools := by
  cases x with
  | error err => rfl
  | ok e => exact congrArg Except.ok (hg e)

theorem number_meets (e : Emitter) (literal : Literal) (base : Nat) :
    (formula base (.number literal) e).map pools = meet e.pools (.literal literal) := by
  rw [formula]
  by_cases hIndex : (e.constants.intern literal).1 < wordCount
  · have hConstant : e.constant literal = .ok ((e.constants.intern literal).1.toUInt16,
        { e with constants := (e.constants.intern literal).2 }) := if_pos hIndex
    have hMeet : meet e.pools (.literal literal) =
        .ok ((e.constants.intern literal).2, e.identifiers) := if_pos hIndex
    rw [hConstant, hMeet]
    rfl
  · have hConstant : e.constant literal = .error .tooManyConstants := if_neg hIndex
    have hMeet : meet e.pools (.literal literal) = .error .tooManyConstants := if_neg hIndex
    rw [hConstant, hMeet]
    rfl

/-- Something is emitted that refers to a name. -/
theorem identifier_meets (e : Emitter) (name : String)
    {g : UInt16 × Emitter → Except CompileError Emitter}
    (hg : ∀ r, ∃ e', g r = .ok e' ∧ e'.pools = r.2.pools) :
    (e.identifier name >>= g).map pools = meet e.pools (.name name) := by
  by_cases hIndex : (e.identifiers.intern name).1 < wordCount
  · have hIdentifier : e.identifier name = .ok ((e.identifiers.intern name).1.toUInt16,
        { e with identifiers := (e.identifiers.intern name).2 }) := if_pos hIndex
    have hMeet : meet e.pools (.name name) =
        .ok (e.constants, (e.identifiers.intern name).2) := if_pos hIndex
    rw [hIdentifier, hMeet]
    obtain ⟨e', hEmit, hPools⟩ := hg _
    show (g _).map pools = _
    rw [hEmit]
    exact congrArg Except.ok hPools
  · have hIdentifier : e.identifier name = .error .tooManyIdentifiers := if_neg hIndex
    have hMeet : meet e.pools (.name name) = .error .tooManyIdentifiers := if_neg hIndex
    rw [hIdentifier, hMeet]
    rfl

/-- A call whose slots have numbers only asks for its name. -/
theorem call_meets (e : Emitter) (name : String) {base count : Nat}
    (hSlots : base + count < wordCount) :
    (e.call name base count).map pools = meet e.pools (.name name) := by
  refine identifier_meets e name fun r =>
    ⟨r.2.push (.call r.1 base.toUInt16 count.toUInt16), ?_, rfl⟩
  simp only [slot_ok r.2 (show base < wordCount by omega),
    slot_ok r.2 (show count < wordCount by omega)]
  rfl

/-- The steps of parameters. -/
theorem parameters_meets {ps : List Formula}
    (ih : ∀ p ∈ ps, ∀ {base : Nat} {e : Emitter}, p.slotsFrom base < wordCount →
      (formula base p e).map pools = p.demands.foldlM meet e.pools)
    {base : Nat} {e : Emitter} (hLength : base + ps.length < wordCount)
    (hSlots : Formula.slotsFromAll base ps < wordCount) :
    (parameters base ps e).map pools = (Formula.demandsAll ps).foldlM meet e.pools := by
  induction ps generalizing base e with
  | nil => rfl
  | cons p ps ihTail =>
    rw [List.length_cons] at hLength
    rw [Formula.slotsFromAll, max_lt_iff] at hSlots
    rw [parameters, Formula.demandsAll, List.foldlM_append]
    refine map_pools_bind (ih p (List.mem_cons_self ..) hSlots.1) fun e₁ hEmit => ?_
    -- storing the parameter asks for nothing
    rw [store_ok hEmit (show base < wordCount by omega)]
    show (parameters (base + 1) ps (e₁.pop (.store base.toUInt16))).map pools = _
    exact ihTail (fun q hq => ih q (List.mem_cons_of_mem p hq)) (by omega) hSlots.2

/-- Emitting a formula that has enough slots is meeting its demands. -/
theorem formula_meets {f : Formula} {base : Nat} {e : Emitter}
    (hSlots : f.slotsFrom base < wordCount) :
    (formula base f e).map pools = f.demands.foldlM meet e.pools := by
  induction f generalizing base e with
  | number literal => rw [number_meets, Formula.demands, foldlM_meet_singleton]
  | var name =>
    rw [formula, Formula.demands, foldlM_meet_singleton]
    exact identifier_meets e name fun r => ⟨r.2.push (.load r.1), rfl, rfl⟩
  | binary op left right ihLeft ihRight =>
    rw [Formula.slotsFrom, max_lt_iff] at hSlots
    rw [formula_binary, Formula.demands, List.foldlM_append]
    refine map_pools_bind (ihLeft hSlots.1) fun e₁ _ => ?_
    rw [← ihRight hSlots.2]
    exact map_pools_pure fun _ => rfl
  | unary op operand ih =>
    rw [Formula.slotsFrom] at hSlots
    rw [Formula.demands, List.foldlM_cons]
    cases op with
    | plus => exact ih hSlots
    | minus =>
      rw [formula_minus]
      have hSame := map_pools_pure (x := formula base operand e) (g := (keep · .negate))
        fun _ => rfl
      exact hSame.trans (ih hSlots)
    | times | divide | modulo | power => rfl
  | call name ps ih =>
    rw [Formula.slotsFrom, max_lt_iff] at hSlots
    rw [formula, Formula.demands, List.foldlM_append]
    refine map_pools_bind (parameters_meets (fun p hp => ih p hp) hSlots.1 hSlots.2) fun e₁ _ => ?_
    rw [call_meets e₁ name hSlots.1, foldlM_meet_singleton]

end Emitter

/-! ## Which demands are met -/

theorem admissible_nil : Admissible [] := by
  constructor <;> simp [Demand.literals, Demand.names]

/-- The first ones of few literals are few. -/
theorem Demand.few_literals_left {ds es : List Demand}
    (h : ((Demand.literals (ds ++ es)).map Literal.bits).toFinset.card ≤ 65536) :
    ((Demand.literals ds).map Literal.bits).toFinset.card ≤ 65536 := by
  rw [Demand.literals_append, List.map_append, List.toFinset_append] at h
  exact Nat.le_trans (Finset.card_le_card Finset.subset_union_left) h

/-- The first ones of few names are few. -/
theorem Demand.few_names_left {ds es : List Demand}
    (h : (Demand.names (ds ++ es)).toFinset.card ≤ 65536) :
    (Demand.names ds).toFinset.card ≤ 65536 := by
  rw [Demand.names_append, List.toFinset_append] at h
  exact Nat.le_trans (Finset.card_le_card Finset.subset_union_left) h

/-- The first ones of demands that can be met can be met. -/
theorem Admissible.left {ds es : List Demand} (h : Admissible (ds ++ es)) : Admissible ds where
  signs op hop := h.signs op (List.mem_append_left es hop)
  literals := Demand.few_literals_left h.literals
  names := Demand.few_names_left h.names

/-- A sign can be met whatever came before. -/
theorem Admissible.snoc_sign {ds : List Demand} (h : Admissible ds) {op : Operator}
    (hSign : op = .plus ∨ op = .minus) : Admissible (ds ++ [.sign op]) := by
  refine ⟨fun op' hop => ?_, ?_, ?_⟩
  · rcases List.mem_append.1 hop with hop | hop
    · exact h.signs op' hop
    · cases List.mem_singleton.1 hop
      exact hSign
  · simpa [Demand.literals] using h.literals
  · simpa [Demand.names] using h.names

/-- Demands that cannot all be met have a first one that is too much. -/
theorem exists_of_not_admissible {ds : List Demand} (h : ¬ Admissible ds) :
    ∃ before d after, ds = before ++ d :: after ∧ Admissible before ∧
      ¬ Admissible (before ++ [d]) := by
  induction ds using List.reverseRecOn with
  | nil => exact absurd admissible_nil h
  | append_singleton ds d ih =>
    by_cases hInit : Admissible ds
    · exact ⟨ds, d, [], rfl, hInit, h⟩
    · obtain ⟨before, d', after, rfl, hBefore, hNot⟩ := ih hInit
      exact ⟨before, d', after ++ [d], by simp, hBefore, hNot⟩

/-- The pools have the literals and the names of demands. -/
structure Represents (p : Pools) (seen : List Demand) : Prop where
  literals : p.1.Lists (Demand.literals seen)
  names : p.2.Lists (Demand.names seen)

theorem represents_start (n : Nat) : Represents (Emitter.start n).pools [] :=
  ⟨Pool.lists_empty, Pool.lists_empty⟩

variable {p : Pools} {seen : List Demand}

/-- A demand is met if it can be met together with those before. -/
theorem Represents.meet_ok {d : Demand} (h : Represents p seen) (hAll : Admissible (seen ++ [d])) :
    ∃ p', meet p d = .ok p' ∧ Represents p' (seen ++ [d]) := by
  obtain ⟨-, hLiterals, hNames⟩ := hAll.left
  cases d with
  | literal l =>
    have hFew := hAll.literals
    rw [card_bits] at hLiterals hFew
    rw [Demand.literals_append] at hFew
    refine ⟨_, if_pos ((h.literals.intern_lt_iff hLiterals l).2 hFew), ?_, ?_⟩
    · rw [Demand.literals_append]
      exact h.literals.intern l
    · simpa [Demand.names] using h.names
  | name s =>
    have hFew := hAll.names
    rw [Demand.names_append] at hFew
    refine ⟨_, if_pos ((h.names.intern_lt_iff hNames s).2 hFew), ?_, ?_⟩
    · simpa [Demand.literals] using h.literals
    · rw [Demand.names_append]
      exact h.names.intern s
  | sign op =>
    have hSign := hAll.signs op (List.mem_append_right seen (List.mem_singleton_self _))
    refine ⟨p, if_pos hSign, ?_, ?_⟩
    · simpa [Demand.literals] using h.literals
    · simpa [Demand.names] using h.names

/-- A demand that is too much together with those before is refused. -/
theorem Represents.meet_error {d : Demand} (h : Represents p seen) (hSeen : Admissible seen)
    (hNot : ¬ Admissible (seen ++ [d])) : meet p d = .error d.error := by
  -- a demand of one kind leaves the others as they are
  cases d with
  | literal l =>
    have hLiterals := hSeen.literals
    refine if_neg fun hIndex =>
      hNot ⟨by simpa using hSeen.signs, ?_, by simpa [Demand.names] using hSeen.names⟩
    rw [card_bits] at hLiterals ⊢
    rw [Demand.literals_append]
    exact (h.literals.intern_lt_iff hLiterals l).1 hIndex
  | name s =>
    refine if_neg fun hIndex =>
      hNot ⟨by simpa using hSeen.signs, by simpa [Demand.literals] using hSeen.literals, ?_⟩
    rw [Demand.names_append]
    exact (h.names.intern_lt_iff hSeen.names s).1 hIndex
  | sign op => exact if_neg fun hSign => hNot (hSeen.snoc_sign hSign)

/-- Demands are met one after the other if they can be met together. -/
theorem Represents.foldlM_ok (ds : List Demand) (h : Represents p seen)
    (hAll : Admissible (seen ++ ds)) :
    ∃ p', ds.foldlM meet p = .ok p' ∧ Represents p' (seen ++ ds) := by
  induction ds generalizing p seen with
  | nil => exact ⟨p, rfl, by rwa [List.append_nil]⟩
  | cons d ds ih =>
    rw [List.append_cons] at hAll
    obtain ⟨p₁, hFirst, hSeen₁⟩ := h.meet_ok hAll.left
    obtain ⟨p₂, hRest, hSeen₂⟩ := ih hSeen₁ hAll
    rw [List.foldlM_cons, hFirst]
    exact ⟨p₂, hRest, by rwa [List.append_cons]⟩

/-- The first demand that is too much is refused. -/
theorem Represents.foldlM_error {before : List Demand} {d : Demand} (after : List Demand)
    (h : Represents p []) (hBefore : Admissible before) (hNot : ¬ Admissible (before ++ [d])) :
    (before ++ d :: after).foldlM meet p = .error d.error := by
  obtain ⟨p₁, hMet, hSeen⟩ := h.foldlM_ok before hBefore
  rw [List.foldlM_append, hMet]
  show (d :: after).foldlM meet p₁ = _
  rw [List.foldlM_cons, hSeen.meet_error hBefore hNot]
  rfl

/-- Nothing but a demand is ever refused. -/
theorem exists_of_foldlM_error {ds : List Demand} {p : Pools} {err : CompileError}
    (h : ds.foldlM meet p = .error err) : ∃ d ∈ ds, err = d.error := by
  induction ds generalizing p with
  | nil => cases h
  | cons d ds ih =>
    rw [List.foldlM_cons] at h
    cases hFirst : meet p d with
    | error err' =>
      rw [hFirst] at h
      cases h
      refine ⟨d, List.mem_cons_self .., ?_⟩
      cases d <;>
      · rw [meet] at hFirst
        split at hFirst
        · cases hFirst
        · cases hFirst
          rfl
    | ok p₁ =>
      rw [hFirst] at h
      obtain ⟨d', hd', hErr⟩ := ih h
      exact ⟨d', List.mem_cons_of_mem d hd', hErr⟩

theorem Demand.error_ne_scratchOverflow (d : Demand) (n : Nat) : d.error ≠ .scratchOverflow n := by
  cases d <;> exact nofun

/-! ## Chunks -/

namespace Formula

/-- Which demands of a formula can be met is said by its signs, literals and
names. -/
theorem admissible_demands (f : Formula) :
    Admissible f.demands ↔ f.wellSigned = true ∧
      (f.literals.map Literal.bits).toFinset.card ≤ 65536 ∧
      f.names.toFinset.card ≤ 65536 := by
  constructor
  · rintro ⟨hSigns, hLiterals, hNames⟩
    rw [literals_demands] at hLiterals
    rw [names_demands] at hNames
    exact ⟨f.signs_demands.1 hSigns, hLiterals, hNames⟩
  · rintro ⟨hSigned, hLiterals, hNames⟩
    exact ⟨f.signs_demands.2 hSigned, by rwa [literals_demands], by rwa [names_demands]⟩

/-- With enough slots, emission refuses nothing but a demand. -/
theorem emission_ne_scratchOverflow {f : Formula} {base : Nat}
    (hSlots : f.slotsFrom base < wordCount) (e : Emitter) (n : Nat) :
    Emitter.formula base f e ≠ .error (.scratchOverflow n) := by
  intro hError
  have hMeet := Emitter.formula_meets (e := e) hSlots
  rw [hError] at hMeet
  obtain ⟨d, -, hErr⟩ := exists_of_foldlM_error hMeet.symm
  exact d.error_ne_scratchOverflow n hErr.symm

/-- A formula with enough slots has a chunk if its demands can be met. -/
theorem exists_toChunk {f : Formula} (name : String) (hSlots : f.scratchSize < wordCount)
    (hAll : Admissible f.demands) : ∃ c, f.toChunk name = .ok c := by
  obtain ⟨p, hMet, -⟩ := (represents_start f.scratchSize).foldlM_ok f.demands hAll
  rw [← Emitter.formula_meets hSlots] at hMet
  cases hEmit : Emitter.formula 0 f (.start f.scratchSize) with
  | error err =>
    rw [hEmit] at hMet
    cases hMet
  | ok e =>
    refine ⟨e.finish name, ?_⟩
    rw [toChunk, if_neg (by omega), hEmit]
    rfl

/-- A formula with enough slots has the error of the first demand that is too
much. -/
theorem toChunk_of_first {f : Formula} (name : String) (hSlots : f.scratchSize < wordCount)
    {before after : List Demand} {d : Demand} (hDemands : f.demands = before ++ d :: after)
    (hBefore : Admissible before) (hNot : ¬ Admissible (before ++ [d])) :
    f.toChunk name = .error d.error := by
  have hRefused := (represents_start f.scratchSize).foldlM_error after hBefore hNot
  rw [← hDemands, ← Emitter.formula_meets hSlots] at hRefused
  rw [toChunk, if_neg (by omega)]
  cases hEmit : Emitter.formula 0 f (.start f.scratchSize) with
  | error err =>
    rw [hEmit] at hRefused
    cases hRefused
    rfl
  | ok e =>
    rw [hEmit] at hRefused
    cases hRefused

theorem toChunk_of_slots {f : Formula} (name : String) (hSlots : ¬ f.scratchSize < wordCount) :
    f.toChunk name = .error (.scratchOverflow f.scratchSize) :=
  if_pos (Nat.le_of_not_lt hSlots)

theorem exists_toChunk_iff (f : Formula) (name : String) :
    (∃ c, f.toChunk name = .ok c) ↔ f.scratchSize < wordCount ∧ Admissible f.demands := by
  constructor
  · rintro ⟨c, hChunk⟩
    have hSlots : f.scratchSize < wordCount := by
      by_contra hSlots
      rw [toChunk_of_slots name hSlots] at hChunk
      cases hChunk
    refine ⟨hSlots, by_contra fun hNot => ?_⟩
    obtain ⟨before, d, after, hDemands, hBefore, hNot⟩ := exists_of_not_admissible hNot
    rw [toChunk_of_first name hSlots hDemands hBefore hNot] at hChunk
    cases hChunk
  · rintro ⟨hSlots, hAll⟩
    exact exists_toChunk name hSlots hAll

theorem toChunk_error_iff {f : Formula} (name : String) (hSlots : f.scratchSize < wordCount)
    (err : CompileError) :
    f.toChunk name = .error err ↔
      ∃ before d after, f.demands = before ++ d :: after ∧ Admissible before ∧
        ¬ Admissible (before ++ [d]) ∧ err = d.error := by
  constructor
  · intro hError
    have hNot : ¬ Admissible f.demands := by
      intro hAll
      obtain ⟨c, hChunk⟩ := exists_toChunk name hSlots hAll
      rw [hChunk] at hError
      cases hError
    obtain ⟨before, d, after, hDemands, hBefore, hNot⟩ := exists_of_not_admissible hNot
    rw [toChunk_of_first name hSlots hDemands hBefore hNot] at hError
    cases hError
    exact ⟨before, d, after, hDemands, hBefore, hNot, rfl⟩
  · rintro ⟨before, d, after, hDemands, hBefore, hNot, rfl⟩
    exact toChunk_of_first name hSlots hDemands hBefore hNot

/-- All that can keep a formula from having a chunk: its slots are too many, or one
of its demands cannot be met, which is no sign then. -/
theorem toChunk_error_cases {f : Formula} {name : String} {err : CompileError}
    (h : f.toChunk name = .error err) :
    err = .scratchOverflow f.scratchSize ∨ ∃ d ∈ f.demands, err = d.error ∧
      ∀ op, d = .sign op → ¬ (op = .plus ∨ op = .minus) := by
  by_cases hSlots : f.scratchSize < wordCount
  · obtain ⟨before, d, after, hDemands, hBefore, hNot, hErr⟩ :=
      (toChunk_error_iff name hSlots _).1 h
    refine Or.inr ⟨d, by simp [hDemands], hErr, ?_⟩
    rintro op rfl hSign
    exact hNot (hBefore.snoc_sign hSign)
  · rw [toChunk_of_slots name hSlots] at h
    cases h
    exact Or.inl rfl

theorem toChunk_scratchOverflow_iff (f : Formula) (name : String) (n : Nat) :
    f.toChunk name = .error (.scratchOverflow n) ↔ n = f.scratchSize ∧ wordCount ≤ n := by
  constructor
  · intro hError
    have hSlots : ¬ f.scratchSize < wordCount := by
      intro hSlots
      obtain ⟨-, d, -, -, -, -, hErr⟩ := (toChunk_error_iff name hSlots _).1 hError
      exact d.error_ne_scratchOverflow n hErr.symm
    rw [toChunk_of_slots name hSlots] at hError
    cases hError
    exact ⟨rfl, Nat.le_of_not_lt hSlots⟩
  · rintro ⟨rfl, hSlots⟩
    exact toChunk_of_slots name (Nat.not_lt_of_le hSlots)

/-- A formula has a chunk just if its calls need no more than 65535 slots, its
unary operators are signs, and there are at most 65536 literals with different
bits and at most 65536 different names. That the slots are too many is the
error whatever else is wrong, and with enough slots it comes up nowhere in the
emission. Otherwise the error is that of the first demand that cannot be met
together with the ones before it. -/
theorem toChunk_limits (f : Formula) (name : String) :
    ((∃ c, f.toChunk name = .ok c) ↔
      f.scratchSize ≤ 65535 ∧ f.wellSigned = true ∧
        (f.literals.map Literal.bits).toFinset.card ≤ 65536 ∧
        f.names.toFinset.card ≤ 65536) ∧
    (∀ n, f.toChunk name = .error (.scratchOverflow n) ↔ n = f.scratchSize ∧ 65535 < n) ∧
    (f.scratchSize ≤ 65535 →
      (∀ e n, Emitter.formula 0 f e ≠ .error (.scratchOverflow n)) ∧
      ∀ err, f.toChunk name = .error err ↔
        ∃ before d after, f.demands = before ++ d :: after ∧ Admissible before ∧
          ¬ Admissible (before ++ [d]) ∧ err = d.error) := by
  have hLimit : f.scratchSize ≤ 65535 ↔ f.scratchSize < wordCount := Nat.lt_succ_iff.symm
  rw [← admissible_demands, hLimit]
  refine ⟨f.exists_toChunk_iff name, f.toChunk_scratchOverflow_iff name, fun hSlots => ⟨?_, ?_⟩⟩
  · exact fun e n => emission_ne_scratchOverflow hSlots e n
  · exact toChunk_error_iff name hSlots

/-- Of two operators that are no signs, the one that comes up first is at
fault, though the numbers before it stand in a call. -/
theorem toChunk_limits_two_signs :
    (Formula.binary .plus (.call "f" [.number (.ofFloat 1), .unary .times (.var "x")])
      (.unary .power (.number (.ofFloat 2)))).toChunk "t" = .error (.unknownUnary .times) := by
  have hLimits := toChunk_limits
    (.binary .plus (.call "f" [.number (.ofFloat 1), .unary .times (.var "x")])
      (.unary .power (.number (.ofFloat 2)))) "t"
  refine ((hLimits.2.2 (by decide)).2 _).2
    ⟨[.literal (.ofFloat 1)], .sign .times, _, rfl, ⟨?_, ?_, ?_⟩, ?_, rfl⟩
  · simp
  · simp [Demand.literals]
  · simp [Demand.names]
  · intro hAdmissible
    simpa using hAdmissible.signs .times (by simp)

end Formula

end Reckon
