import Mathlib.Data.Int.Bitwise
import Mathlib.Data.List.Perm.Basic
import Mathlib.Order.Lattice

/-!
# Objects with numbers

A list of objects, some of which are gone. One object changes and the others stay.
-/

namespace Ns3.Lib

variable {α : Type*} {l : List (Option α)} {i j : Nat} {a b : α}

/-- The objects that are there. -/
def present (l : List (Option α)) : List α := l.filterMap id

/-- The objects but the one with number `i`. -/
def presentBut (l : List (Option α)) (i : Nat) : List α := present (l.set i none)

theorem mem_present (hget : l[i]? = some (some a)) : a ∈ present l :=
  List.mem_filterMap.mpr ⟨some a, List.mem_of_getElem? hget, rfl⟩

theorem mem_presentBut (hget : l[j]? = some (some a)) (hij : j ≠ i) : a ∈ presentBut l i := by
  refine mem_present (i := j) ?_
  rw [List.getElem?_set_ne (Ne.symm hij)]
  exact hget

/-- An object comes in place of another. -/
theorem present_set (hlt : i < l.length) (a : α) :
    (present (l.set i (some a))).Perm (a :: presentBut l i) := by
  rw [present, presentBut, present, List.set_eq_take_append_cons_drop, List.set_eq_take_append_cons_drop,
    if_pos hlt, if_pos hlt, List.filterMap_append, List.filterMap_append]
  exact List.perm_middle

theorem lt_of_getElem? (hget : l[i]? = some (some a)) : i < l.length :=
  (List.getElem?_eq_some_iff.mp hget).1

/-- What is there is put there. -/
theorem set_of_getElem? {β : Type*} {l : List β} {b : β} (hget : l[i]? = some b) : l.set i b = l := by
  apply List.ext_getElem?
  intro k
  by_cases hk : i = k
  · rw [← hk, List.getElem?_set_self (List.getElem?_eq_some_iff.mp hget).1, hget]
  · rw [List.getElem?_set_ne hk]

/-- An object and the others. -/
theorem present_perm (hget : l[i]? = some (some a)) : (present l).Perm (a :: presentBut l i) := by
  have := present_set (lt_of_getElem? hget) a
  rw [set_of_getElem? hget] at this
  exact this

theorem present_map {β : Type*} (f : α → β) (l : List (Option α)) :
    present (l.map (Option.map f)) = (present l).map f := by
  rw [present, present, List.filterMap_map, List.map_filterMap]
  rfl

/-- A new object. -/
theorem present_push (l : List (Option α)) (a : α) : (present (l ++ [some a])).Perm (a :: present l) := by
  rw [present, List.filterMap_append]
  exact List.perm_append_singleton a _

end Ns3.Lib
