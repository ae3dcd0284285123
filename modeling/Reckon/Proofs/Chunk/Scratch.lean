import Mathlib
import Reckon.Proofs.Chunk.Pools

/-!
# Reckon — the scratch slots of a chunk

A call whose parameters start at slot `base` stores parameter `i` in slot
`base + i` and lets the calls inside that parameter start there too. They
overwrite slots of the enclosing call, but only slots that it has not stored
into yet. Three things follow:

* `Formula.computes_steps` — the steps of a formula compute its value;
* `Formula.calls_sited` — whenever a call is reached, the latest store to each
  of its slots is that of its own parameter, and what it reads there are the
  values of its parameters in their order;
* `Formula.scratchSize_eq_need`, `Formula.store_mem_of_lt` — the slots that are
  set aside are those that are needed, and the last of them is stored into.
-/

namespace Reckon.Formula

open Machine (Step Computes Stores perform)

/-! ## What the steps compute -/

theorem computes_parameterSteps {env : Env} {ps : List Formula}
    (ih : ∀ p ∈ ps, ∀ {base size : Nat}, p.slotsFrom base ≤ size →
      Computes env base size (p.steps base) (p.eval env))
    {base size : Nat} (hLength : base + ps.length ≤ size) (hSlots : slotsFromAll base ps ≤ size) :
    Stores env base size (parameterSteps base ps) (evalAll env ps) := by
  induction ps generalizing base with
  | nil => exact Machine.stores_nil
  | cons p ps ihTail =>
    rw [slotsFromAll] at hSlots
    rw [List.length_cons] at hLength
    rw [parameterSteps, evalAll]
    have hHead : Computes env base size (p.steps base) (p.eval env) :=
      ih p (List.mem_cons_self ..) (by omega)
    have hTail : Stores env (base + 1) size (parameterSteps (base + 1) ps) (evalAll env ps) :=
      ihTail (fun q hq => ih q (List.mem_cons_of_mem p hq)) (by omega) (by omega)
    exact hHead.storesCons (by omega) hTail

/-- The steps of a formula compute its value, and leave the slots before `base`
alone. -/
theorem computes_steps (env : Env) (f : Formula) {base size : Nat} (h : f.slotsFrom base ≤ size) :
    Computes env base size (f.steps base) (f.eval env) := by
  induction f generalizing base size with
  | number literal => exact Machine.computes_constant literal
  | var name => exact Machine.computes_lookup name
  | binary op left right ihLeft ihRight =>
    rw [slotsFrom] at h
    rw [steps, eval]
    exact (ihLeft (by omega)).arith op (ihRight (by omega))
  | unary op operand ih =>
    rw [slotsFrom] at h
    rw [steps, eval]
    split
    · exact (ih h).negate
    · -- any other sign adds no step
      rw [List.append_nil, bind_pure]
      exact ih h
  | call name ps ih =>
    rw [slotsFrom] at h
    rw [steps, eval]
    have hStores : Stores env base size (parameterSteps base ps) (evalAll env ps) :=
      computes_parameterSteps (fun p hp => ih p hp) (by omega) (by omega)
    exact hStores.computesCall name (by omega) fun _ _ _ hValues => length_evalAll hValues

/-! ## How many slots are needed -/

mutual

/-- The number of slots that a formula needs. A call needs one for each
parameter; while parameter `i` is computed, `i` of them hold the ones before
it. -/
def need : Formula → Nat
  | number _ | var _ => 0
  | binary _ left right => max left.need right.need
  | unary _ operand => operand.need
  | call _ parameters => max parameters.length (needAfter 0 parameters)

/-- The greatest need of parameters, `held` of which are there already. -/
def needAfter (held : Nat) : List Formula → Nat
  | [] => 0
  | p :: ps => max (held + p.need) (needAfter (held + 1) ps)

end

/-- The slots before `base` do not count as needed. -/
theorem max_slotsFromAll {ps : List Formula}
    (ih : ∀ p ∈ ps, ∀ base, max base (p.slotsFrom base) = base + p.need) (base held : Nat) :
    max (base + held + ps.length) (slotsFromAll (base + held) ps) =
      base + max (held + ps.length) (needAfter held ps) := by
  induction ps generalizing held with
  | nil => simp [slotsFromAll, needAfter]
  | cons p ps ihTail =>
    have hHead := ih p (List.mem_cons_self ..) (base + held)
    have hTail := ihTail (fun q hq => ih q (List.mem_cons_of_mem p hq)) (held + 1)
    rw [← Nat.add_assoc] at hTail
    rw [slotsFromAll, needAfter, List.length_cons]
    omega

theorem max_slotsFrom (f : Formula) (base : Nat) :
    max base (f.slotsFrom base) = base + f.need := by
  induction f generalizing base with
  | number literal => simp [slotsFrom, need]
  | var name => simp [slotsFrom, need]
  | binary op left right ihLeft ihRight =>
    have hLeft := ihLeft base
    have hRight := ihRight base
    rw [slotsFrom, need]
    omega
  | unary op operand ih => exact ih base
  | call name ps ih =>
    have hAll := max_slotsFromAll ih base 0
    rw [slotsFrom, need]
    simp only [Nat.add_zero, Nat.zero_add] at hAll
    omega

theorem scratchSize_eq_need (f : Formula) : f.scratchSize = f.need := by
  have h := f.max_slotsFrom 0
  rw [scratchSize]
  omega

/-! ## Which slots are used -/

/-- A step stays within the slots from `base` to `stop`. -/
def Within (base stop : Nat) : Step → Prop
  | .store cell => base ≤ cell ∧ cell < stop
  | .call _ start count => base ≤ start ∧ start + count ≤ stop
  | _ => True

theorem Within.mono {base stop lower larger : Nat} {step : Step} (h : Within base stop step)
    (hLower : lower ≤ base) (hLarger : stop ≤ larger) : Within lower larger step := by
  cases step with
  | store cell => exact ⟨by have := h.1; omega, by have := h.2; omega⟩
  | call name start count => exact ⟨by have := h.1; omega, by have := h.2; omega⟩
  | constant | lookup | arith | negate => trivial

theorem within_parameterSteps {ps : List Formula}
    (ih : ∀ p ∈ ps, ∀ {base : Nat} {step : Step}, step ∈ p.steps base →
      Within base (p.slotsFrom base) step)
    {base : Nat} {step : Step} (h : step ∈ parameterSteps base ps) :
    Within base (max (base + ps.length) (slotsFromAll base ps)) step := by
  induction ps generalizing base with
  | nil => cases h
  | cons p ps ihTail =>
    rw [parameterSteps, List.mem_append, List.mem_append, List.mem_singleton] at h
    rw [slotsFromAll, List.length_cons]
    rcases h with (h | rfl) | h
    · exact (ih p (List.mem_cons_self ..) h).mono (Nat.le_refl base) (by omega)
    · exact ⟨Nat.le_refl base, by omega⟩
    · exact (ihTail (fun q hq => ih q (List.mem_cons_of_mem p hq)) h).mono (by omega) (by omega)

/-- The steps of a formula use no slots but those it sets aside. -/
theorem within_steps {f : Formula} {base : Nat} {step : Step} (h : step ∈ f.steps base) :
    Within base (f.slotsFrom base) step := by
  induction f generalizing base step with
  | number literal =>
    rw [steps, List.mem_singleton] at h
    subst h
    trivial
  | var name =>
    rw [steps, List.mem_singleton] at h
    subst h
    trivial
  | binary op left right ihLeft ihRight =>
    rw [steps, List.mem_append, List.mem_append, List.mem_singleton] at h
    rw [slotsFrom]
    rcases h with (h | h) | rfl
    · exact (ihLeft h).mono (Nat.le_refl base) (by omega)
    · exact (ihRight h).mono (Nat.le_refl base) (by omega)
    · trivial
  | unary op operand ih =>
    rw [steps, List.mem_append] at h
    rcases h with h | h
    · exact ih h
    · split at h
      · rw [List.mem_singleton] at h
        subst h
        trivial
      · cases h
  | call name ps ih =>
    rw [steps, List.mem_append, List.mem_singleton] at h
    rw [slotsFrom]
    rcases h with h | rfl
    · exact within_parameterSteps (fun p hp => ih p hp) h
    · exact ⟨Nat.le_refl base, by omega⟩

/-- The last of the slots that parameters set aside is stored into. -/
theorem store_mem_parameterSteps {ps : List Formula}
    (ih : ∀ p ∈ ps, ∀ {base : Nat}, base < p.slotsFrom base →
      Step.store (p.slotsFrom base - 1) ∈ p.steps base)
    {base : Nat} (hNonempty : ps ≠ []) :
    Step.store (max (base + ps.length) (slotsFromAll base ps) - 1) ∈ parameterSteps base ps := by
  induction ps generalizing base with
  | nil => exact absurd rfl hNonempty
  | cons p ps ihTail =>
    rw [parameterSteps, slotsFromAll, List.length_cons, List.mem_append, List.mem_append,
      List.mem_singleton]
    by_cases hHead : max (base + 1 + ps.length) (slotsFromAll (base + 1) ps) < p.slotsFrom base
    · -- the first parameter reaches further than the others
      have hTop : max (base + (ps.length + 1)) (max (p.slotsFrom base)
          (slotsFromAll (base + 1) ps)) = p.slotsFrom base := by omega
      rw [hTop]
      exact Or.inl (Or.inl (ih p (List.mem_cons_self ..) (by omega)))
    · -- one of the others does, or it is the slot of the first parameter itself
      have hTop : max (base + (ps.length + 1)) (max (p.slotsFrom base)
          (slotsFromAll (base + 1) ps)) =
          max (base + 1 + ps.length) (slotsFromAll (base + 1) ps) := by omega
      rw [hTop]
      cases ps with
      | nil => exact Or.inl (Or.inr rfl)
      | cons q qs =>
        exact Or.inr (ihTail (fun r hr => ih r (List.mem_cons_of_mem p hr)) (by simp))

/-- The last of the slots that a formula sets aside is stored into. -/
theorem store_mem_of_lt {f : Formula} {base : Nat} (h : base < f.slotsFrom base) :
    Step.store (f.slotsFrom base - 1) ∈ f.steps base := by
  induction f generalizing base with
  | number literal => cases h
  | var name => cases h
  | binary op left right ihLeft ihRight =>
    rw [slotsFrom] at h
    rw [steps, slotsFrom, List.mem_append, List.mem_append]
    by_cases hLe : right.slotsFrom base ≤ left.slotsFrom base
    · rw [Nat.max_eq_left hLe] at h ⊢
      exact Or.inl (Or.inl (ihLeft h))
    · rw [Nat.max_eq_right (by omega)] at h ⊢
      exact Or.inl (Or.inr (ihRight h))
  | unary op operand ih =>
    rw [steps, List.mem_append]
    exact Or.inl (ih h)
  | call name ps ih =>
    rw [steps, List.mem_append]
    cases ps with
    | nil => simp [slotsFrom, slotsFromAll] at h
    | cons p ps =>
      exact Or.inl (store_mem_parameterSteps (fun q hq => ih q hq) (by simp))

/-! ## Where steps come from

A path leads from the root of a formula to one of its nodes; it lists which
child is taken at each node. -/

/-- The node at the end of a path. -/
def subformula? : Formula → List Nat → Option Formula
  | f, [] => some f
  | f, i :: path => f.children[i]?.bind fun child => child.subformula? path

theorem subformula?_snoc (f : Formula) (path : List Nat) (i : Nat) :
    f.subformula? (path ++ [i]) = (f.subformula? path).bind fun g => g.children[i]? := by
  induction path generalizing f with
  | nil =>
    show f.children[i]?.bind (fun child => some child) = f.children[i]?
    cases f.children[i]? <;> rfl
  | cons j path ih =>
    rw [List.cons_append, subformula?, subformula?, Option.bind_assoc]
    congr 1
    funext child
    exact ih child

/-- What a step is for: the node at a path, or the storing of a parameter of
the call at a path. -/
inductive Origin where
  | node (path : List Nat)
  | parameter (path : List Nat) (index : Nat)

mutual

/-- The steps of a formula that stands at a path, with their origins. -/
def sited (base : Nat) (path : List Nat) : Formula → List (Origin × Step)
  | number literal => [(.node path, .constant literal)]
  | var name => [(.node path, .lookup name)]
  | binary op left right =>
    left.sited base (path ++ [0]) ++ right.sited base (path ++ [1]) ++ [(.node path, .arith op)]
  | unary op operand =>
    operand.sited base (path ++ [0]) ++ if op = .minus then [(.node path, .negate)] else []
  | call name parameters =>
    sitedParameters base path 0 parameters ++ [(.node path, .call name base parameters.length)]

/-- The same for the parameters of the call at a path, from number `index`
on. -/
def sitedParameters (base : Nat) (path : List Nat) (index : Nat) :
    List Formula → List (Origin × Step)
  | [] => []
  | p :: ps =>
    p.sited base (path ++ [index]) ++ [(.parameter path index, .store base)]
      ++ sitedParameters (base + 1) path (index + 1) ps

end

theorem map_sitedParameters {ps : List Formula}
    (ih : ∀ p ∈ ps, ∀ base path, (p.sited base path).map Prod.snd = p.steps base)
    (base : Nat) (path : List Nat) (index : Nat) :
    (sitedParameters base path index ps).map Prod.snd = parameterSteps base ps := by
  induction ps generalizing base index with
  | nil => rfl
  | cons p ps ihTail =>
    rw [sitedParameters, parameterSteps, List.map_append, List.map_append,
      ih p (List.mem_cons_self ..), ihTail fun q hq => ih q (List.mem_cons_of_mem p hq)]
    rfl

/-- The steps with origins are the steps. -/
theorem map_sited (f : Formula) (base : Nat) (path : List Nat) :
    (f.sited base path).map Prod.snd = f.steps base := by
  induction f generalizing base path with
  | number literal => rfl
  | var name => rfl
  | binary op left right ihLeft ihRight =>
    rw [sited, steps, List.map_append, List.map_append, ihLeft, ihRight]
    rfl
  | unary op operand ih =>
    rw [sited, steps, List.map_append, ih]
    split <;> rfl
  | call name ps ih =>
    rw [sited, steps, List.map_append, map_sitedParameters ih]
    rfl

/-- The latest store to a slot is the one with the origin. -/
def WrittenBy (code : List (Origin × Step)) (slot : Nat) (origin : Origin) : Prop :=
  ∃ before after, code = before ++ (origin, .store slot) :: after ∧
    ∀ other, (other, Step.store slot) ∉ after

theorem WrittenBy.prepend {code : List (Origin × Step)} {slot : Nat} {origin : Origin}
    (h : WrittenBy code slot origin) (front : List (Origin × Step)) :
    WrittenBy (front ++ code) slot origin := by
  obtain ⟨before, after, rfl, hAfter⟩ := h
  exact ⟨front ++ before, after, by rw [List.append_assoc], hAfter⟩

/-- Behind the steps of its parameters, each slot of a call was last written by
its own parameter: the parameters before it were stored below, and the ones
after it use slots above. -/
theorem writtenBy_sitedParameters {ps : List Formula} {base : Nat} {path : List Nat}
    {index i : Nat} (h : i < ps.length) :
    WrittenBy (sitedParameters base path index ps) (base + i) (.parameter path (index + i)) := by
  induction ps generalizing base index i with
  | nil => cases h
  | cons p ps ih =>
    rw [sitedParameters]
    cases i with
    | zero =>
      refine ⟨p.sited base (path ++ [index]), sitedParameters (base + 1) path (index + 1) ps,
        ?_, ?_⟩
      · rw [List.append_assoc]
        rfl
      · -- a later store to this slot would be a step of the other parameters
        intro other hMem
        have hStep : Step.store base ∈ parameterSteps (base + 1) ps := by
          rw [← map_sitedParameters (fun q _ => q.map_sited) (base + 1) path (index + 1)]
          exact List.mem_map_of_mem hMem
        have hWithin := within_parameterSteps (fun q _ => within_steps) hStep
        have := hWithin.1
        omega
    | succ i =>
      rw [List.length_cons] at h
      have hTail : WrittenBy (sitedParameters (base + 1) path (index + 1) ps) (base + 1 + i)
          (.parameter path (index + 1 + i)) := ih (by omega)
      rw [show base + (i + 1) = base + 1 + i by omega,
        show index + (i + 1) = index + 1 + i by omega]
      exact hTail.prepend _

/-! ## What calls read -/

/-- What is true of a call of `root` that is reached behind `code`, in a frame
of at least `size` slots: it is the call at its path, its slots were last
written by its own parameters, and it reads their values in their order. -/
structure CallReads (root : Formula) (size : Nat) (code : List (Origin × Step)) (path : List Nat)
    (name : String) (start count : Nat) (ps : List Formula) : Prop where
  site : root.subformula? path = some (.call name ps)
  count_eq : ps.length = count
  written : ∀ i < count, WrittenBy code (start + i) (.parameter path i)
  reads : ∀ env s s' trace trace', size ≤ s.cells.size →
    (code.map Prod.snd).foldlM (perform env) s trace = .ok s' trace' →
    ∃ asked, evalAll env ps asked = .ok (s'.cells.extract start (start + count)).toList trace'

/-- What runs before makes no difference. -/
theorem CallReads.prepend {root : Formula} {size : Nat} {code : List (Origin × Step)}
    {path : List Nat} {name : String} {start count : Nat} {ps : List Formula}
    (h : CallReads root size code path name start count ps) (front : List (Origin × Step)) :
    CallReads root size (front ++ code) path name start count ps := by
  refine ⟨h.site, h.count_eq, fun i hi => (h.written i hi).prepend front, ?_⟩
  intro env s s' trace trace' hSize hExec
  rw [List.map_append, List.foldlM_append] at hExec
  obtain ⟨s₁, trace₁, hFront, hExec⟩ := Eval.ok_of_bind hExec
  exact h.reads env s₁ s' trace₁ trace' (by rw [Machine.size_foldlM hFront]; exact hSize) hExec

/-- Every call in a piece of code reads its own parameters. -/
def Calls (root : Formula) (size : Nat) (code : List (Origin × Step)) : Prop :=
  ∀ before origin name start count after,
    code = before ++ (origin, .call name start count) :: after →
    ∃ path ps, origin = .node path ∧ CallReads root size before path name start count ps

theorem Calls.append {root : Formula} {size : Nat} {first second : List (Origin × Step)}
    (hFirst : Calls root size first) (hSecond : Calls root size second) :
    Calls root size (first ++ second) := by
  intro before origin name start count after h
  rcases append_cons_eq_append h with ⟨rest, hIn⟩ | ⟨rest, rfl, hIn⟩
  · exact hFirst before origin name start count rest hIn
  · obtain ⟨path, ps, hOrigin, hReads⟩ := hSecond rest origin name start count after hIn
    exact ⟨path, ps, hOrigin, hReads.prepend first⟩

/-- Appending a call needs a look at what it reads there. -/
theorem Calls.snoc {root : Formula} {size : Nat} {code : List (Origin × Step)}
    (h : Calls root size code) {path : List Nat} {name : String} {start count : Nat}
    {ps : List Formula} (hReads : CallReads root size code path name start count ps) :
    Calls root size (code ++ [(.node path, .call name start count)]) := by
  intro before origin name' start' count' after hSplit
  rcases append_cons_eq_append hSplit with ⟨rest, hIn⟩ | ⟨rest, rfl, hIn⟩
  · exact h before origin name' start' count' rest hIn
  · cases rest with
    | nil =>
      cases hIn
      exact ⟨path, ps, rfl, by rwa [List.append_nil]⟩
    | cons x rest => simp at hIn

/-- Steps other than calls read no slots. -/
theorem calls_single {root : Formula} {size : Nat} {origin : Origin} {step : Step}
    (h : ∀ name start count, step ≠ .call name start count) :
    Calls root size [(origin, step)] := by
  intro before origin' name start count after hSplit
  have hMem : (origin', Step.call name start count) ∈ [(origin, step)] := by
    rw [hSplit]
    simp
  rw [List.mem_singleton, Prod.mk.injEq] at hMem
  exact absurd hMem.2.symm (h name start count)

theorem calls_nil {root : Formula} {size : Nat} : Calls root size [] := by
  intro before origin name start count after hSplit
  simp at hSplit

theorem calls_sitedParameters {root : Formula} {size : Nat} {path : List Nat} {ps : List Formula}
    (ih : ∀ p ∈ ps, ∀ {base : Nat} {path : List Nat}, root.subformula? path = some p →
      p.slotsFrom base ≤ size → Calls root size (p.sited base path))
    {base index : Nat}
    (hSites : ∀ i p, ps[i]? = some p → root.subformula? (path ++ [index + i]) = some p)
    (hSlots : slotsFromAll base ps ≤ size) :
    Calls root size (sitedParameters base path index ps) := by
  induction ps generalizing base index with
  | nil => exact calls_nil
  | cons p ps ihTail =>
    rw [slotsFromAll] at hSlots
    rw [sitedParameters]
    have hHead : Calls root size (p.sited base (path ++ [index])) :=
      ih p (List.mem_cons_self ..) (hSites 0 p rfl) (by omega)
    have hTail : Calls root size (sitedParameters (base + 1) path (index + 1) ps) := by
      refine ihTail (fun q hq => ih q (List.mem_cons_of_mem p hq)) ?_ (by omega)
      intro i q hq
      rw [show index + 1 + i = index + (i + 1) by omega]
      exact hSites (i + 1) q hq
    exact (hHead.append (calls_single (by simp))).append hTail

/-- Every call in the code of a formula, wherever the formula stands, reads its
own parameters. -/
theorem calls_sited {root f : Formula} {size base : Nat} {path : List Nat}
    (hSite : root.subformula? path = some f) (hSlots : f.slotsFrom base ≤ size) :
    Calls root size (f.sited base path) := by
  induction f generalizing base path with
  | number literal => exact calls_single (by simp)
  | var name => exact calls_single (by simp)
  | binary op left right ihLeft ihRight =>
    rw [slotsFrom] at hSlots
    rw [sited]
    have hLeft : Calls root size (left.sited base (path ++ [0])) :=
      ihLeft (by rw [subformula?_snoc, hSite]; rfl) (by omega)
    have hRight : Calls root size (right.sited base (path ++ [1])) :=
      ihRight (by rw [subformula?_snoc, hSite]; rfl) (by omega)
    exact (hLeft.append hRight).append (calls_single (by simp))
  | unary op operand ih =>
    rw [sited]
    refine (ih (by rw [subformula?_snoc, hSite]; rfl) hSlots).append ?_
    split
    · exact calls_single (by simp)
    · exact calls_nil
  | call name ps ih =>
    rw [slotsFrom] at hSlots
    rw [sited]
    have hSites : ∀ i p, ps[i]? = some p → root.subformula? (path ++ [0 + i]) = some p := by
      intro i p hp
      rw [Nat.zero_add, subformula?_snoc, hSite]
      exact hp
    refine (calls_sitedParameters (fun p hp => ih p hp) hSites (by omega)).snoc
      ⟨hSite, rfl, ?_, ?_⟩
    · intro i hi
      have hWritten : WrittenBy (sitedParameters base path 0 ps) (base + i)
          (.parameter path (0 + i)) := writtenBy_sitedParameters hi
      rwa [Nat.zero_add] at hWritten
    · -- the parameters have just been stored
      intro env s s' trace trace' hSize hExec
      rw [map_sitedParameters fun p _ => p.map_sited] at hExec
      have hStores : Stores env base size (parameterSteps base ps) (evalAll env ps) :=
        computes_parameterSteps (fun p _ => p.computes_steps env) (by omega) (by omega)
      cases hValues : evalAll env ps trace with
      | error failure trace₁ =>
        rw [hStores.run_error hSize hValues] at hExec
        cases hExec
      | ok values trace₁ =>
        obtain ⟨cells', hFrame, hHolds, hRun⟩ := hStores.run_ok s.stack hSize hValues
        rw [hRun] at hExec
        cases hExec
        have hLength := length_evalAll hValues
        rw [← hLength, hHolds.extract_eq (by rw [hFrame.size_eq]; omega)]
        exact ⟨trace, hValues⟩

/-! ## The scratch slots of a chunk -/

/-- The scratch slots of a chunk are used soundly and none is set aside in vain.
The chunk is replayed as the steps of its formula. Whenever a call is reached,
each of its slots was last written by the store of its own parameter, so that
it reads the values of its parameters in their order. Stores and calls stay
within the slots that are set aside. If there are any stores, the last slot is
that of one of them, and the number of slots is what the formula needs. -/
theorem toChunk_scratch {f : Formula} {name : String} {c : Chunk} (h : f.toChunk name = .ok c) :
    ∃ p, c.assemble = .ok p ∧ p.cells = c.scratchSize ∧ (f.sited 0 []).map Prod.snd = p.steps ∧
      (∀ before origin function start count after,
        f.sited 0 [] = before ++ (origin, .call function start count) :: after →
        ∃ path ps, origin = .node path ∧
          f.subformula? path = some (.call function ps) ∧ ps.length = count ∧
          (∀ i < count, WrittenBy before (start + i) (.parameter path i)) ∧
          ∀ env s trace trace',
            (before.map Prod.snd).foldlM (perform env) (.start p.cells) trace = .ok s trace' →
            ∃ asked, evalAll env ps asked =
              .ok (s.cells.extract start (start + count)).toList trace') ∧
      (∀ slot, Step.store slot ∈ p.steps → slot < c.scratchSize) ∧
      (∀ function start count, Step.call function start count ∈ p.steps →
        start + count ≤ c.scratchSize) ∧
      ((∀ slot, Step.store slot ∉ p.steps) ∧ c.scratchSize = 0 ∨
        ∃ top, IsGreatest {slot | Step.store slot ∈ p.steps} top ∧ c.scratchSize = top + 1) ∧
      c.scratchSize = f.need := by
  obtain ⟨e, hEmit, rfl, -⟩ := f.exists_emitter h
  have hSize : (e.finish name).scratchSize = f.scratchSize :=
    (Emitter.formula_emits hEmit).scratchSize
  have hStores : ∀ slot, Step.store slot ∈ f.steps 0 → slot < f.scratchSize :=
    fun slot hMem => (within_steps hMem).2
  refine ⟨⟨f.steps 0, f.scratchSize⟩, f.assemble_toChunk h, hSize.symm, f.map_sited 0 [], ?_, ?_,
    ?_, ?_, ?_⟩
  · intro before origin function start count after hSplit
    have hCalls : Calls f f.scratchSize (f.sited 0 []) := calls_sited rfl (Nat.le_refl _)
    obtain ⟨path, ps, hOrigin, hReads⟩ := hCalls before origin function start count after hSplit
    refine ⟨path, ps, hOrigin, hReads.site, hReads.count_eq, hReads.written, ?_⟩
    intro env s trace trace' hExec
    exact hReads.reads env _ s trace trace' (by simp [Machine.State.start]) hExec
  · rw [hSize]
    exact hStores
  · rw [hSize]
    exact fun function start count hMem => (within_steps hMem).2
  · rw [hSize]
    rcases Nat.eq_zero_or_pos f.scratchSize with hZero | hPos
    · refine Or.inl ⟨fun slot hMem => ?_, hZero⟩
      have := hStores slot hMem
      omega
    · refine Or.inr ⟨f.scratchSize - 1, ⟨store_mem_of_lt hPos, ?_⟩, by omega⟩
      intro slot hMem
      have := hStores slot hMem
      omega
  · rw [hSize, scratchSize_eq_need]

/-- A call inside the second parameter of a call shares a slot with it. -/
theorem toChunk_scratch_nested_calls :
    let f : Formula :=
      .call "f" [.var "x", .call "g" [.unary .minus (.var "y"), .number (.ofFloat 1)]]
    ∃ c p, f.toChunk "nested" = .ok c ∧ c.assemble = .ok p ∧ c.scratchSize = 3 ∧
      (∀ slot, Step.store slot ∈ p.steps → slot < 3) ∧
      ∀ env s trace trace',
        [.lookup "x", .store 0, .lookup "y", .negate, .store 1, .constant (.ofFloat 1),
          .store 2].foldlM (perform env) (.start 3) trace = .ok s trace' →
        ∃ asked, evalAll env [.unary .minus (.var "y"), .number (.ofFloat 1)] asked =
          .ok (s.cells.extract 1 3).toList trace' := by
  intro f
  obtain ⟨c, hChunk⟩ := toChunk_ok (f := f) "nested" rfl (by decide) (by decide) (by decide)
  obtain ⟨p, hAssemble, hCells, -, hCalls, hStores, -, -, hNeed⟩ := toChunk_scratch hChunk
  have hSize : c.scratchSize = 3 := hNeed
  rw [hSize] at hCells hStores
  refine ⟨c, p, hChunk, hAssemble, hSize, hStores, ?_⟩
  intro env s trace trace' hExec
  rw [← hCells] at hExec
  obtain ⟨path, ps, hOrigin, hSite, -, -, hReads⟩ := hCalls
    ((f.sited 0 []).take 7) (.node [1]) "g" 1 2 ((f.sited 0 []).drop 8) rfl
  cases hOrigin
  cases hSite
  exact hReads env s trace trace' hExec

end Reckon.Formula
