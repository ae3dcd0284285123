import Mathlib
import Reckon.Scope.Builtins

/-!
# Reckon — what registering does to a scope

A scope is used through a run of registrations: single names, and the table of
builtins as a whole. A single one is all or nothing. The table is not: it is
gone through entry by entry and left at the first clash, so a failure leaves a
part of it behind. What is there once stays:

* `Scope.Defines s x` — the name of the entry `x` is taken in its namespace;
* `Scope.Gains s t xs` — `t` holds what `s` holds and the entries `xs`, and
  nothing else;
* `Scope.registerEach_eq` — where the entries of a table differ in their names,
  going through it adds the entries before the first clash, and that clash is
  with what was there before;
* `Scope.gains_registerAll` — a run of registrations only ever adds.

The main result is `Scope.registrations_only_add`.

The table of builtin functions gives each body with the number of its parameters.
That the two go together is `needs_of_mem_builtinFunctions`.
-/

namespace Reckon

/-! ## Bodies and their counts -/

namespace Body

/-- The body has a value just if there are `n` parameters at least. -/
def Needs (body : Body) (n : Nat) : Prop :=
  ∀ parameters, (∃ value, body.apply parameters = .ok value) ↔ n ≤ parameters.length

theorem needs_one (f : Float → Float) : (one f).Needs 1 := by
  rintro (_ | ⟨a, more⟩)
  · exact ⟨nofun, nofun⟩
  · exact ⟨fun _ => by simp, fun _ => ⟨f a, rfl⟩⟩

theorem needs_two (f : Float → Float → Float) : (two f).Needs 2 := by
  rintro (_ | ⟨a, _ | ⟨b, more⟩⟩)
  · exact ⟨nofun, nofun⟩
  · exact ⟨nofun, nofun⟩
  · exact ⟨fun _ => by simp, fun _ => ⟨f a b, rfl⟩⟩

theorem needs_three (f : Float → Float → Float → Float) : (three f).Needs 3 := by
  rintro (_ | ⟨a, _ | ⟨b, _ | ⟨c, more⟩⟩⟩)
  · exact ⟨nofun, nofun⟩
  · exact ⟨nofun, nofun⟩
  · exact ⟨nofun, nofun⟩
  · exact ⟨fun _ => by simp, fun _ => ⟨f a b c, rfl⟩⟩

end Body

/-- A builtin whose body needs as many parameters as are asked for has a value for so
many, and complains of any other number. -/
theorem Callable.call_builtin {body : Body} {arity : Nat} (h : body.Needs arity) (name : String)
    (parameters : List Float) :
    if parameters.length = arity then
      ∃ value, (builtin body arity).call name parameters = .ok value
    else
      (builtin body arity).call name parameters =
        .error (.fault (.invalidCall name parameters.length arity)) := by
  split
  · next hLength =>
    obtain ⟨value, hValue⟩ := (h parameters).2 hLength.ge
    refine ⟨value, ?_⟩
    rw [call, if_pos hLength, hValue]
    rfl
  · next hLength => rw [call, if_neg hLength]

/-- The two columns of the table of builtin functions match: the number of
parameters that is asked for is the one that the body needs. -/
theorem needs_of_mem_builtinFunctions :
    ∀ row ∈ builtinFunctions, row.2.1.Needs row.2.2 := by
  simp only [builtinFunctions, List.forall_mem_cons, Body.needs_one, Body.needs_two,
    Body.needs_three, true_and]
  exact List.forall_mem_nil _

/-! ## Entries -/

/-- A name with what it means in one of the two namespaces. -/
inductive Entry where
  | var (name : String) (value : Float)
  | func (name : String) (f : Callable)

namespace Entry

/-- The namespace of an entry, the one of the variables being `true`, and its
name there. -/
def key : Entry → Bool × String
  | var name _ => (true, name)
  | func name _ => (false, name)

/-- The complaint that the name of an entry is taken. -/
def taken : Entry → RegistrationError
  | var name _ => .variableTaken name
  | func name _ => .functionTaken name

end Entry

/-- The entries of the builtins: the constants, then the functions. -/
def builtinEntries : List Entry :=
  builtinVariables.map (fun (name, value) => .var name value) ++
    builtinFunctions.map fun (name, body, arity) => .func name (.builtin body arity)

/-- What can be asked of a scope that is being set up. -/
inductive Registration where
  | single (entry : Entry)
  | builtins

namespace Scope

/-- Declares an entry. -/
def declare (s : Scope) : Entry → Except RegistrationError Scope
  | .var name value => s.declareVariable name value
  | .func name f => s.declareFunction name f

/-- The scope behind a registration, and the error if it failed. -/
def register (s : Scope) : Registration → Scope × Option RegistrationError
  | .single x =>
    match s.declare x with
    | .ok t => (t, none)
    | .error e => (s, some e)
  | .builtins => s.declareBuiltins

/-- The scope behind a run of registrations, whether they fail or not. -/
def registerAll (s : Scope) (run : List Registration) : Scope :=
  run.foldl (fun s r => (s.register r).1) s

/-- Registers entries one by one, up to the first failure. -/
def registerEach (s : Scope) : List Entry → Scope × Option RegistrationError
  | [] => (s, none)
  | x :: xs =>
    match s.register (.single x) with
    | (t, none) => registerEach t xs
    | (t, some e) => (t, some e)

/-- Puts an entry in front of the others of its namespace. -/
def insert (s : Scope) : Entry → Scope
  | .var name value => { s with vars := (name, value) :: s.vars }
  | .func name f => { s with funcs := (name, f) :: s.funcs }

/-- A scope holds an entry: looking up its name gives its meaning. -/
def Holds (s : Scope) : Entry → Prop
  | .var name value => s.get? name = some value
  | .func name f => s.function? name = some f

/-- The name of an entry means something in its namespace, the same or not. -/
def Defines (s : Scope) (x : Entry) : Prop :=
  ∃ y, s.Holds y ∧ y.key = x.key

/-- `t` holds the entries that `s` holds, the entries `xs`, and no others. -/
def Gains (s t : Scope) (xs : List Entry) : Prop :=
  ∀ y, t.Holds y ↔ s.Holds y ∨ y ∈ xs

/-! ## Single entries -/

theorem defines_var (s : Scope) (name : String) (value : Float) :
    s.Defines (.var name value) ↔ ∃ value', s.get? name = some value' := by
  constructor
  · rintro ⟨y, hHolds, hKey⟩
    cases y with
    | var name' value' =>
      cases hKey
      exact ⟨value', hHolds⟩
    | func name' f => cases hKey
  · rintro ⟨value', hGet⟩
    exact ⟨.var name value', hGet, rfl⟩

theorem defines_func (s : Scope) (name : String) (f : Callable) :
    s.Defines (.func name f) ↔ ∃ f', s.function? name = some f' := by
  constructor
  · rintro ⟨y, hHolds, hKey⟩
    cases y with
    | var name' value => cases hKey
    | func name' f' =>
      cases hKey
      exact ⟨f', hHolds⟩
  · rintro ⟨f', hFunction⟩
    exact ⟨.func name f', hFunction, rfl⟩

/-- An entry whose name is taken is refused. -/
theorem declare_of_defines {s : Scope} {x : Entry} (h : s.Defines x) :
    s.declare x = .error x.taken := by
  cases x with
  | var name value =>
    obtain ⟨value', hGet⟩ := (s.defines_var name value).1 h
    rw [declare, declareVariable, hGet]
    rfl
  | func name f =>
    obtain ⟨f', hFunction⟩ := (s.defines_func name f).1 h
    rw [declare, declareFunction, hFunction]
    rfl

/-- Any other entry is put in front. -/
theorem declare_of_not_defines {s : Scope} {x : Entry} (h : ¬ s.Defines x) :
    s.declare x = .ok (s.insert x) := by
  cases x with
  | var name value =>
    have hGet : s.get? name = none := by
      rw [Option.eq_none_iff_forall_ne_some]
      exact fun value' hSome => h ((s.defines_var name value).2 ⟨value', hSome⟩)
    rw [declare, declareVariable, hGet]
    rfl
  | func name f =>
    have hFunction : s.function? name = none := by
      rw [Option.eq_none_iff_forall_ne_some]
      exact fun f' hSome => h ((s.defines_func name f).2 ⟨f', hSome⟩)
    rw [declare, declareFunction, hFunction]
    rfl

theorem register_of_defines {s : Scope} {x : Entry} (h : s.Defines x) :
    s.register (.single x) = (s, some x.taken) := by
  rw [register, declare_of_defines h]

theorem register_of_not_defines {s : Scope} {x : Entry} (h : ¬ s.Defines x) :
    s.register (.single x) = (s.insert x, none) := by
  rw [register, declare_of_not_defines h]

/-- What a scope holds behind a new entry, name by name. -/
theorem holds_insert (s : Scope) (x y : Entry) :
    (s.insert x).Holds y ↔ if y.key = x.key then y = x else s.Holds y := by
  cases x with
  | var name value =>
    cases y with
    | var name' value' =>
      by_cases hName : name' = name
      · simp [insert, Holds, get?, Entry.key, hName, eq_comm]
      · have hOther : (name' == name) = false := by simpa using hName
        simp [insert, Holds, get?, Entry.key, hName, List.lookup_cons, hOther]
    | func name' f => simp [insert, Holds, function?, Entry.key]
  | func name f =>
    cases y with
    | var name' value => simp [insert, Holds, get?, Entry.key]
    | func name' f' =>
      by_cases hName : name' = name
      · simp [insert, Holds, function?, Entry.key, hName, eq_comm]
      · have hOther : (name' == name) = false := by simpa using hName
        simp [insert, Holds, function?, Entry.key, hName, List.lookup_cons, hOther]

/-- A new entry is gained, and nothing else. -/
theorem gains_insert {s : Scope} {x : Entry} (h : ¬ s.Defines x) : s.Gains (s.insert x) [x] := by
  intro y
  rw [holds_insert, List.mem_singleton]
  split
  · next hKey =>
    constructor
    · exact Or.inr
    · rintro (hHolds | hEq)
      · exact absurd ⟨y, hHolds, hKey⟩ h
      · exact hEq
  · next hKey =>
    constructor
    · exact Or.inl
    · rintro (hHolds | rfl)
      · exact hHolds
      · exact absurd rfl hKey

/-! ## Runs -/

theorem Gains.refl (s : Scope) : s.Gains s [] := by
  intro y
  simp

theorem Gains.trans {s t u : Scope} {xs ys : List Entry} (hst : s.Gains t xs)
    (htu : t.Gains u ys) : s.Gains u (xs ++ ys) := by
  intro y
  rw [htu, hst, List.mem_append, or_assoc]

theorem Gains.holds {s t : Scope} {xs : List Entry} (h : s.Gains t xs) {x : Entry}
    (hx : s.Holds x) : t.Holds x :=
  (h x).2 (Or.inl hx)

/-- What is taken behind a new entry was taken before, or is its name. -/
theorem defines_insert {s : Scope} {x y : Entry} (hKey : y.key ≠ x.key) :
    (s.insert x).Defines y ↔ s.Defines y := by
  constructor
  · rintro ⟨z, hHolds, hz⟩
    rw [holds_insert, if_neg (by rw [hz]; exact hKey)] at hHolds
    exact ⟨z, hHolds, hz⟩
  · rintro ⟨z, hHolds, hz⟩
    refine ⟨z, ?_, hz⟩
    rw [holds_insert, if_neg (by rw [hz]; exact hKey)]
    exact hHolds

/-- Going through entries of different names ends at the first one whose name
was taken before. The ones in front of it are there, and the rest is not. -/
theorem registerEach_eq {xs : List Entry} (hNames : (xs.map Entry.key).Nodup) (s : Scope) :
    ((∀ x ∈ xs, ¬ s.Defines x) ∧ s.registerEach xs = (xs.foldl insert s, none) ∧
      s.Gains (xs.foldl insert s) xs) ∨
    ∃ before x after, xs = before ++ x :: after ∧ s.Defines x ∧ (∀ y ∈ before, ¬ s.Defines y) ∧
      s.registerEach xs = (before.foldl insert s, some x.taken) ∧
      s.Gains (before.foldl insert s) before := by
  induction xs generalizing s with
  | nil => exact Or.inl ⟨by simp, rfl, Gains.refl s⟩
  | cons x xs ih =>
    rw [List.map_cons, List.nodup_cons] at hNames
    by_cases hDefines : s.Defines x
    · refine Or.inr ⟨[], x, xs, rfl, hDefines, by simp, ?_, Gains.refl s⟩
      rw [registerEach, register_of_defines hDefines]
      rfl
    · have hHead := gains_insert hDefines
      have hStep : s.registerEach (x :: xs) = (s.insert x).registerEach xs := by
        rw [registerEach, register_of_not_defines hDefines]
      -- the new entry makes no difference to the others, since its name is another one
      have hOthers : ∀ y ∈ xs, ((s.insert x).Defines y ↔ s.Defines y) := by
        intro y hy
        apply defines_insert
        intro hKey
        exact hNames.1 (hKey ▸ List.mem_map_of_mem hy)
      rcases ih hNames.2 (s.insert x) with ⟨hFree, hEach, hGains⟩ | h
      · refine Or.inl ⟨?_, by rw [hStep, hEach, List.foldl_cons], hHead.trans hGains⟩
        intro y hy
        rcases List.mem_cons.1 hy with rfl | hy
        · exact hDefines
        · exact fun hTaken => hFree y hy ((hOthers y hy).2 hTaken)
      · obtain ⟨before, z, after, rfl, hTaken, hFree, hEach, hGains⟩ := h
        refine Or.inr ⟨x :: before, z, after, rfl, (hOthers z (by simp)).1 hTaken, ?_, ?_,
          hHead.trans hGains⟩
        · intro y hy
          rcases List.mem_cons.1 hy with rfl | hy
          · exact hDefines
          · exact fun hOld => hFree y hy ((hOthers y (by simp [hy])).2 hOld)
        · rw [hStep, hEach, List.foldl_cons]

/-! ## Builtins -/

theorem registerEach_append (s : Scope) (xs ys : List Entry) :
    s.registerEach (xs ++ ys) =
      match s.registerEach xs with
      | (t, none) => t.registerEach ys
      | (t, some e) => (t, some e) := by
  induction xs generalizing s with
  | nil => rfl
  | cons x xs ih =>
    rw [List.cons_append, registerEach, registerEach]
    cases s.register (.single x) with
    | mk t clash =>
      cases clash with
      | none => exact ih t
      | some e => rfl

theorem declareVariables_eq (s : Scope) (table : List (String × Float)) :
    s.declareVariables table =
      s.registerEach (table.map fun (name, value) => .var name value) := by
  induction table generalizing s with
  | nil => rfl
  | cons row table ih =>
    obtain ⟨name, value⟩ := row
    rw [declareVariables, List.map_cons, registerEach, register, declare]
    cases s.declareVariable name value with
    | ok t => exact ih t
    | error e => rfl

theorem declareFunctions_eq (s : Scope) (table : List (String × Callable)) :
    s.declareFunctions table =
      s.registerEach (table.map fun (name, f) => .func name f) := by
  induction table generalizing s with
  | nil => rfl
  | cons row table ih =>
    obtain ⟨name, f⟩ := row
    rw [declareFunctions, List.map_cons, registerEach, register, declare]
    cases s.declareFunction name f with
    | ok t => exact ih t
    | error e => rfl

/-- The builtins are registered entry by entry. -/
theorem declareBuiltins_eq (s : Scope) : s.declareBuiltins = s.registerEach builtinEntries := by
  rw [declareBuiltins, declareVariables_eq, builtinEntries, registerEach_append]
  split
  · next hClash => rw [hClash]
  · next hNone =>
    rw [hNone]
    dsimp only
    rw [declareFunctions_eq, List.map_map]
    rfl

/-- No two builtins of a namespace have the same name. -/
theorem nodup_builtinEntries : (builtinEntries.map Entry.key).Nodup := by
  decide +kernel

/-- The builtins are all registered if none of their names was taken before.
Otherwise the first of them that was ends the registration, and exactly those
in front of it are gained. -/
theorem register_builtins_eq (s : Scope) :
    ((∀ x ∈ builtinEntries, ¬ s.Defines x) ∧
      s.register .builtins = (builtinEntries.foldl insert s, none) ∧
      s.Gains (builtinEntries.foldl insert s) builtinEntries) ∨
    ∃ before x after, builtinEntries = before ++ x :: after ∧ s.Defines x ∧
      (∀ y ∈ before, ¬ s.Defines y) ∧
      s.register .builtins = (before.foldl insert s, some x.taken) ∧
      s.Gains (before.foldl insert s) before := by
  rw [register, declareBuiltins_eq]
  exact registerEach_eq nodup_builtinEntries s

theorem not_defines_empty (x : Entry) : ¬ empty.Defines x := by
  rintro ⟨y, hHolds, -⟩
  cases y <;> cases hHolds

/-- The scope of the builtins is made without a clash. -/
theorem register_builtins_empty : empty.register .builtins = (builtins, none) := by
  rcases empty.register_builtins_eq with ⟨-, hRegister, -⟩ | ⟨before, x, after, -, hDefines, -⟩
  · have hBuiltins : builtins = (empty.register .builtins).1 := rfl
    rw [hBuiltins, hRegister]
  · exact absurd hDefines (not_defines_empty x)

/-! ## All that can happen -/

/-- A registration only adds. -/
theorem gains_register (s : Scope) (r : Registration) : ∃ xs, s.Gains (s.register r).1 xs := by
  cases r with
  | single x =>
    by_cases hDefines : s.Defines x
    · rw [register_of_defines hDefines]
      exact ⟨[], Gains.refl s⟩
    · rw [register_of_not_defines hDefines]
      exact ⟨[x], gains_insert hDefines⟩
  | builtins =>
    rcases s.register_builtins_eq with ⟨-, hRegister, hGains⟩ | ⟨before, x, after, -, -, -, h⟩
    · rw [hRegister]
      exact ⟨builtinEntries, hGains⟩
    · rw [h.1]
      exact ⟨before, h.2⟩

/-- A run of registrations only adds. -/
theorem gains_registerAll (s : Scope) (run : List Registration) :
    ∃ xs, s.Gains (s.registerAll run) xs := by
  induction run generalizing s with
  | nil => exact ⟨[], Gains.refl s⟩
  | cons r run ih =>
    obtain ⟨xs, hHead⟩ := s.gains_register r
    obtain ⟨ys, hTail⟩ := ih (s.register r).1
    exact ⟨xs ++ ys, hHead.trans hTail⟩

/-- Wherever a run of registrations has come to:

* a single registration fails exactly if the name is taken in its namespace,
  and then changes nothing; else its entry is gained and nothing else;
* the builtins are registered one by one. If that fails, it was at the first of
  them whose name had been taken before, and exactly those in front of it are
  gained;
* what a name means it means for the rest of the run;
* the builtins can be registered in the scope without any names. -/
theorem registrations_only_add (run : List Registration) :
    let s := empty.registerAll run
    (∀ x, ((s.register (.single x)).2 = none ↔ ¬ s.Defines x) ∧
      (s.Defines x → s.register (.single x) = (s, some x.taken)) ∧
      (¬ s.Defines x → s.register (.single x) = (s.insert x, none) ∧ s.Gains (s.insert x) [x])) ∧
    s.register .builtins = s.registerEach builtinEntries ∧
    (∀ e, (s.register .builtins).2 = some e → ∃ before x after,
      builtinEntries = before ++ x :: after ∧ e = x.taken ∧ s.Defines x ∧
        (∀ y ∈ before, ¬ s.Defines y) ∧ s.Gains (s.register .builtins).1 before) ∧
    ((s.register .builtins).2 = none →
      (∀ x ∈ builtinEntries, ¬ s.Defines x) ∧ s.Gains (s.register .builtins).1 builtinEntries) ∧
    (∀ later name value, s.get? name = some value →
      (empty.registerAll (run ++ later)).get? name = some value) ∧
    (∀ later name f, s.function? name = some f →
      (empty.registerAll (run ++ later)).function? name = some f) ∧
    empty.register .builtins = (builtins, none) := by
  intro s
  have hLater : ∀ later x, s.Holds x → (empty.registerAll (run ++ later)).Holds x := by
    intro later x hHolds
    obtain ⟨xs, hGains⟩ := s.gains_registerAll later
    rw [registerAll, List.foldl_append]
    exact hGains.holds hHolds
  refine ⟨fun x => ⟨?_, register_of_defines, fun h => ⟨register_of_not_defines h, gains_insert h⟩⟩,
    s.declareBuiltins_eq, ?_, ?_, fun later name value => hLater later (.var name value),
    fun later name f => hLater later (.func name f), register_builtins_empty⟩
  · by_cases hDefines : s.Defines x
    · simp [register_of_defines hDefines, hDefines]
    · simp [register_of_not_defines hDefines, hDefines]
  · intro e hError
    rcases s.register_builtins_eq with ⟨-, hRegister, -⟩ | h
    · rw [hRegister] at hError
      cases hError
    · obtain ⟨before, x, after, hTable, hDefines, hFree, hRegister, hGains⟩ := h
      rw [hRegister] at hError ⊢
      cases hError
      exact ⟨before, x, after, hTable, rfl, hDefines, hFree, hGains⟩
  · intro hNone
    rcases s.register_builtins_eq with ⟨hFree, hRegister, hGains⟩ | h
    · rw [hRegister]
      exact ⟨hFree, hGains⟩
    · obtain ⟨before, x, after, -, -, -, hRegister, -⟩ := h
      rw [hRegister] at hNone
      cases hNone

/-- A variable has the name of the third builtin, so the first two of them are
gained and the variable keeps its value. -/
theorem registrations_only_add_tau_taken :
    let run : List Registration := [.single (.var "tau" 3)]
    let s := empty.registerAll run
    (s.register .builtins).2 = some (.variableTaken "tau") ∧
      (∃ before x after, builtinEntries = before ++ x :: after ∧ x.taken = .variableTaken "tau" ∧
        s.Defines x ∧ s.Gains (s.register .builtins).1 before) ∧
      (empty.registerAll (run ++ [.builtins])).get? "tau" = some 3 := by
  intro run s
  have hClash : (s.register .builtins).2 = some (.variableTaken "tau") := by decide
  obtain ⟨-, -, hFailed, -, hVariables, -, -⟩ := registrations_only_add run
  obtain ⟨before, x, after, hTable, hTaken, hDefines, -, hGains⟩ := hFailed _ hClash
  exact ⟨hClash, ⟨before, x, after, hTable, hTaken.symm, hDefines, hGains⟩,
    hVariables [.builtins] "tau" 3 rfl⟩

end Scope

end Reckon
