import Std.Data.HashMap

/-!
# Reckon — pools

A pool numbers distinct things in the order in which they first come up. It is
looked up from both sides: `entries` gives the thing of a number, `index` the
number of a thing, and the two always agree.
-/

namespace Reckon

/-- A pool of things, numbered from zero. -/
structure Pool (α : Type) [BEq α] [Hashable α] [LawfulBEq α] where
  entries : Array α
  index : Std.HashMap α Nat
  /-- The two directions agree. -/
  index_iff : ∀ (a : α) (i : Nat), index[a]? = some i ↔ entries[i]? = some a

namespace Pool

variable {α : Type} [BEq α] [Hashable α] [LawfulBEq α]

/-- The pool without entries. -/
def empty : Pool α where
  entries := #[]
  index := ∅
  index_iff := by simp

/-- The number of a thing; a thing that is new gets the next one. -/
def intern (p : Pool α) (a : α) : Nat × Pool α :=
  match h : p.index[a]? with
  | some i => (i, p)
  | none =>
    (p.entries.size,
      { entries := p.entries.push a
        index := p.index.insert a p.entries.size
        index_iff := by
          intro b i
          have hab := p.index_iff a i
          have hb := p.index_iff b i
          grind })

end Pool

end Reckon
