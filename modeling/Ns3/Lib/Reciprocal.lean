import Mathlib.Data.Int.Bitwise
import Mathlib.Data.Nat.Basic
import Mathlib.Order.Lattice
import Mathlib.Tactic.Ring

/-!
# Reciprocals rounded up

Instead of dividing by `v`, one multiplies by a reciprocal of it that is rounded up, scaled by `N`. The
quotient is exact for what is small enough, and never far off.
-/

namespace Ns3.Lib

/-- `c` is `N / v`, rounded up. -/
structure Reciprocal (N v c : ℕ) : Prop where
  le : N ≤ v * c
  lt : v * c < N + v

namespace Reciprocal

variable {N v c : ℕ}

theorem pos (h : Reciprocal N v c) : 0 < v := by
  have hle := h.le
  have hlt := h.lt
  omega

theorem div_le (h : Reciprocal N v c) (hN : 0 < N) (a : ℕ) : a / v ≤ a * c / N := by
  rw [Nat.le_div_iff_mul_le hN]
  have hquo : a / v * v ≤ a := Nat.div_mul_le_self a v
  calc a / v * N ≤ a / v * (v * c) := Nat.mul_le_mul_left _ h.le
    _ = a / v * v * c := by ring
    _ ≤ a * c := Nat.mul_le_mul_right c hquo

theorem le_div_succ (h : Reciprocal N v c) {a : ℕ} (ha : a ≤ N) : a * c / N ≤ a / v + 1 := by
  have hv := h.pos
  rcases Nat.eq_zero_or_pos a with rfl | hpos
  · simp
  rw [← Nat.lt_succ_iff, Nat.div_lt_iff_lt_mul (Nat.lt_of_lt_of_le hpos ha)]
  refine Nat.lt_of_mul_lt_mul_left (a := v) ?_
  have hquo : a < v * (a / v + 1) := Nat.lt_mul_div_succ a hv
  calc v * (a * c) = a * (v * c) := by ring
    _ < a * (N + v) := Nat.mul_lt_mul_of_pos_left h.lt hpos
    _ = a * N + v * a := by ring
    _ ≤ v * (a / v + 1) * N + v * N :=
      Nat.add_le_add (Nat.mul_le_mul_right N hquo.le) (Nat.mul_le_mul_left v ha)
    _ = v * ((a / v + 1).succ * N) := by rw [Nat.succ_eq_add_one]; ring

/-- What the rounding adds does not reach the next integer. -/
theorem div_eq (h : Reciprocal N v c) {t : ℕ} (ht : t * v ≤ N) (hN : 0 < N) : t * c / N = t / v := by
  have hv := h.pos
  refine Nat.le_antisymm ?_ (h.div_le hN t)
  rcases Nat.eq_zero_or_pos t with rfl | hpos
  · simp
  rw [← Nat.lt_succ_iff, Nat.div_lt_iff_lt_mul hN]
  refine Nat.lt_of_mul_lt_mul_left (a := v) ?_
  have hquo : t + 1 ≤ v * (t / v + 1) := Nat.lt_mul_div_succ t hv
  calc v * (t * c) = t * (v * c) := by ring
    _ < t * (N + v) := Nat.mul_lt_mul_of_pos_left h.lt hpos
    _ = t * N + t * v := by ring
    _ ≤ t * N + N := Nat.add_le_add_left ht _
    _ = (t + 1) * N := by ring
    _ ≤ v * (t / v + 1) * N := Nat.mul_le_mul_right N hquo
    _ = v * ((t / v).succ * N) := by rw [Nat.succ_eq_add_one]; ring

end Reciprocal

end Ns3.Lib
