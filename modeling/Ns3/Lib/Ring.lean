import Mathlib.Data.Int.Bitwise
import Mathlib.Data.List.Rotate
import Mathlib.Data.Nat.ModEq
import Mathlib.Order.Lattice

/-!
# Rings of cells

A list of cells that is used as a ring: the cell at a distance from the head is found modulo the size, and a new
cell takes the place of the head, which moves on. What the ring holds is the list rotated to its head; a new cell
is then one at the end.
-/

namespace Ns3.Lib

variable {α : Type*} {cells : List α} {head d : Nat}

/-- The place of the cell at a distance. -/
def ringIndex (cells : List α) (head d : Nat) : Nat := (head + d) % cells.length

/-- The new cell `x` in place of the head, `n` times: the cells and the head. -/
def ringPush (x : α) : Nat → List α × Nat → List α × Nat
  | 0, (cells, head) => (cells, head)
  | n + 1, (cells, head) => ringPush x n (cells.set head x, (head + 1) % cells.length)

theorem ringIndex_inj {e : Nat} (hd : d < cells.length) (he : e < cells.length) :
    ringIndex cells head d = ringIndex cells head e ↔ d = e := by
  refine ⟨fun h => ?_, congrArg _⟩
  have hmod : d % cells.length = e % cells.length := Nat.ModEq.add_left_cancel' head h
  rw [Nat.mod_eq_of_lt hd, Nat.mod_eq_of_lt he] at hmod
  exact hmod

theorem getElem?_ringIndex (hd : d < cells.length) :
    cells[ringIndex cells head d]? = (cells.rotate head)[d]? := by
  rw [List.getElem?_rotate hd, Nat.add_comm]
  rfl

theorem set_ringIndex (hd : d < cells.length) (x : α) :
    (cells.set (ringIndex cells head d) x).rotate head = (cells.rotate head).set d x := by
  apply List.ext_getElem?
  intro i
  by_cases hi : i < cells.length
  · have hindex : ringIndex cells head d = (head + i) % cells.length ↔ d = i := ringIndex_inj hd hi
    rw [List.getElem?_rotate (by rw [List.length_set]; exact hi), List.length_set, List.getElem?_set,
      List.getElem?_set, List.getElem?_rotate hi, Nat.add_comm i, List.length_rotate]
    have hlt : ringIndex cells head d < cells.length := Nat.mod_lt _ (Nat.zero_lt_of_lt hd)
    by_cases heq : d = i
    · rw [if_pos (hindex.mpr heq), if_pos heq, if_pos hlt, if_pos hd]
    · rw [if_neg (mt hindex.mp heq), if_neg heq]
  · have hle := Nat.le_of_not_lt hi
    rw [List.getElem?_eq_none (by rw [List.length_rotate, List.length_set]; exact hle),
      List.getElem?_eq_none (by rw [List.length_set, List.length_rotate]; exact hle)]

/-- A new cell is the last one. -/
theorem rotate_push (h : head < cells.length) (x : α) :
    (cells.set head x).rotate ((head + 1) % cells.length) = (cells.rotate head).tail ++ [x] := by
  have hset : (cells.set head x).rotate head = (cells.rotate head).set 0 x := by
    have hindex : ringIndex cells head 0 = head := Nat.mod_eq_of_lt h
    rw [← set_ringIndex (Nat.zero_lt_of_lt h), hindex]
  have hlength : (cells.set head x).length = cells.length := List.length_set
  rw [← hlength, List.rotate_mod, ← List.rotate_rotate, hset]
  cases hrotate : cells.rotate head with
  | nil =>
    rw [List.rotate_eq_nil_iff] at hrotate
    subst hrotate
    exact absurd h (Nat.not_lt_zero _)
  | cons a l =>
    rw [List.set_cons_zero, List.rotate_cons_succ, List.rotate_zero]
    rfl

/-- As many new cells as there is room for are the last ones, and the others are left. -/
theorem rotate_ringPush (h : head < cells.length) (x : α) {n : Nat} (hn : n ≤ cells.length) :
    (ringPush x n (cells, head)).1.length = cells.length ∧ (ringPush x n (cells, head)).2 < cells.length ∧
      (ringPush x n (cells, head)).1.rotate (ringPush x n (cells, head)).2 =
        (cells.rotate head).drop n ++ List.replicate n x := by
  induction n generalizing cells head with
  | zero => exact ⟨rfl, h, by rw [List.drop_zero, List.replicate_zero, List.append_nil]; rfl⟩
  | succ n ih =>
    have hlength : (cells.set head x).length = cells.length := List.length_set
    have hhead : (head + 1) % cells.length < (cells.set head x).length := by
      rw [hlength]
      exact Nat.mod_lt _ (Nat.zero_lt_of_lt h)
    obtain ⟨hsame, hlt, hrotate⟩ := ih hhead (by rw [hlength]; exact Nat.le_of_succ_le hn)
    rw [hlength] at hsame hlt
    refine ⟨hsame, hlt, hrotate.trans ?_⟩
    have htail : n ≤ (cells.rotate head).tail.length := by
      rw [List.length_tail, List.length_rotate]
      exact Nat.le_pred_of_lt hn
    rw [rotate_push h, List.drop_append_of_le_length htail, List.drop_tail, List.append_assoc]
    rfl

end Ns3.Lib
