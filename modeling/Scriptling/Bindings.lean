/-
  Bindings — finite maps from names.

  * `Bindings.get?_set`: what is found after a name is bound;
  * `Bindings.names`: the bound names, each once, ordered by code points.
-/
import Std.Data.TreeMap

namespace Scriptling

/-- What names are bound to. -/
structure Bindings (α : Type) where
  map : Std.TreeMap String α

namespace Bindings

variable {α : Type}

/-- No name is bound. -/
def empty : Bindings α := ⟨∅⟩

/-- What a name is bound to. -/
def get? (b : Bindings α) (x : String) : Option α := b.map[x]?

/-- The name is bound. -/
def contains (b : Bindings α) (x : String) : Bool := (b.get? x).isSome

/-- Binds a name, in place of what it was bound to. -/
def set (b : Bindings α) (x : String) (v : α) : Bindings α := ⟨b.map.insert x v⟩

/-- The bound names in order. -/
def names (b : Bindings α) : List String := b.map.keys

@[simp] theorem get?_empty (x : String) : (empty : Bindings α).get? x = none :=
  Std.TreeMap.getElem?_emptyc

theorem get?_set (b : Bindings α) (x y : String) (v : α) :
    (b.set x v).get? y = if y = x then some v else b.get? y := by
  simp only [get?, set, Std.TreeMap.getElem?_insert, Std.compare_eq_iff_eq, eq_comm (a := y)]

theorem mem_names {b : Bindings α} {x : String} : x ∈ b.names ↔ b.contains x = true := by
  rw [names, Std.TreeMap.mem_keys, contains, get?, Std.TreeMap.isSome_getElem?_iff_mem]

theorem pairwise_names (b : Bindings α) : b.names.Pairwise (· < ·) := by
  have ordered : b.names.Pairwise fun x y => compare x y = .lt := Std.TreeMap.ordered_keys
  exact ordered.imp fun h => compareOfLessAndEq_eq_lt.1 h

end Bindings

end Scriptling
