import Mathlib.Data.Int.Bitwise
import Mathlib.Data.List.Basic
import Mathlib.Logic.Function.Basic
import Mathlib.Order.Lattice

/-!
# Two lists and where things are in them

Things wait in the first of two lists, in the second one, or in neither, and each knows where it is. The
moves between the lists keep this: a thing comes in at the end of the first list, goes from the front of the
first list to the end of the second one, from the front of the second list to its end, or out.
-/

namespace Ns3.Lib

inductive Place where
  | out
  | first
  | second
deriving DecidableEq, Repr

variable {K : Type*} [DecidableEq K]

/-- Each thing is in the list that it thinks it is in, once, and in no other. -/
structure Listed (place : K → Place) (first second : List K) : Prop where
  first : ∀ k, first.count k = if place k = .first then 1 else 0
  second : ∀ k, second.count k = if place k = .second then 1 else 0

namespace Listed

variable {place : K → Place} {first second : List K} {k : K}

theorem empty : Listed (fun _ : K => .out) [] [] where
  first _ := rfl
  second _ := rfl

theorem mem_first (h : Listed place first second) : k ∈ first ↔ place k = .first := by
  rw [← List.count_pos_iff, h.first k]
  split
  · next heq => simp [heq]
  · next hne => simp [hne]

theorem mem_second (h : Listed place first second) : k ∈ second ↔ place k = .second := by
  rw [← List.count_pos_iff, h.second k]
  split
  · next heq => simp [heq]
  · next hne => simp [hne]

/-- A thing that is in neither list comes in. -/
theorem enter (h : Listed place first second) (hout : place k = .out) :
    Listed (Function.update place k .first) (first ++ [k]) second where
  first j := by
    rw [List.count_append, List.count_singleton, h.first j]
    by_cases hj : j = k
    · subst hj
      simp [hout]
    · simp [Function.update_of_ne hj, Ne.symm hj]
  second j := by
    rw [h.second j]
    by_cases hj : j = k
    · subst hj
      simp [hout]
    · simp [Function.update_of_ne hj]

/-- The front of the first list goes to the second one. -/
theorem demote (h : Listed place (k :: first) second) :
    Listed (Function.update place k .second) first (second ++ [k]) := by
  have hk : place k = .first := h.mem_first.mp List.mem_cons_self
  constructor
  · intro j
    have hcount := h.first j
    rw [List.count_cons] at hcount
    by_cases hj : j = k
    · subst hj
      simp [hk] at hcount ⊢
      exact hcount
    · simpa [Function.update_of_ne hj, Ne.symm hj] using hcount
  · intro j
    rw [List.count_append, List.count_singleton, h.second j]
    by_cases hj : j = k
    · subst hj
      simp [hk]
    · simp [Function.update_of_ne hj, Ne.symm hj]

/-- The front of the second list goes to its end. -/
theorem rotate (h : Listed place first (k :: second)) : Listed place first (second ++ [k]) where
  first := h.first
  second j := by
    rw [← h.second j, List.count_append, List.count_singleton, List.count_cons]

/-- The front of the second list goes out. -/
theorem leave (h : Listed place first (k :: second)) : Listed (Function.update place k .out) first second := by
  have hk : place k = .second := h.mem_second.mp List.mem_cons_self
  constructor
  · intro j
    rw [h.first j]
    by_cases hj : j = k
    · subst hj
      simp [hk]
    · simp [Function.update_of_ne hj]
  · intro j
    have hcount := h.second j
    rw [List.count_cons] at hcount
    by_cases hj : j = k
    · subst hj
      simp [hk] at hcount ⊢
      exact hcount
    · simpa [Function.update_of_ne hj, Ne.symm hj] using hcount

end Listed

end Ns3.Lib
