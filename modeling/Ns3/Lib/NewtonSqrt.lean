import Mathlib.Data.Int.Bitwise
import Mathlib.Order.Lattice
import Mathlib.Tactic.Linarith
import Mathlib.Tactic.Ring

/-!
# Newton steps for a reciprocal square root

An approximation `r` of `M / √c` in whole numbers becomes `r (3 - c r² / M²) / 2`, rounded down. From wherever a step
starts, it does not come out above what it approximates.
-/

namespace Ns3.Lib

variable {M N c r r' : ℕ}

/-- Of all pairs with one sum, `2 y = z` has the largest product `y z²`. -/
theorem mul_sq_le (y z : ℕ) : 27 * (y * z ^ 2) ≤ 4 * (y + z) ^ 3 := by
  zify
  have hfactor : 4 * ((y : ℤ) + z) ^ 3 - 27 * (y * z ^ 2) = (2 * y - z) ^ 2 * (y + 4 * z) := by ring
  have hpos : (0 : ℤ) ≤ (2 * y - z) ^ 2 * (y + 4 * z) := by positivity
  omega

/-- A step that is not negative comes out at most at the root. -/
theorem newton_sq_le (hN : 0 < N) (hy : c * r ^ 2 ≤ 3 * N) (hstep : 2 * N * r' ≤ (3 * N - c * r ^ 2) * r) :
    c * r' ^ 2 ≤ N := by
  obtain ⟨z, hz⟩ := Nat.exists_eq_add_of_le hy
  rw [hz, Nat.add_sub_cancel_left] at hstep
  have hcubic := mul_sq_le (c * r ^ 2) z
  rw [← hz] at hcubic
  have hsq : (2 * N * r') ^ 2 ≤ (z * r) ^ 2 := Nat.pow_le_pow_left hstep 2
  have hscaled : (4 * N ^ 2) * (c * r' ^ 2) ≤ (4 * N ^ 2) * N := by
    calc (4 * N ^ 2) * (c * r' ^ 2) = c * (2 * N * r') ^ 2 := by ring
      _ ≤ c * (z * r) ^ 2 := Nat.mul_le_mul_left c hsq
      _ = c * r ^ 2 * z ^ 2 := by ring
      _ ≤ (4 * N ^ 2) * N := by
        have hcube : 4 * (3 * N) ^ 3 = 27 * ((4 * N ^ 2) * N) := by ring
        omega
  exact Nat.le_of_mul_le_mul_left hscaled (by positivity)

/-- The root of 1 is not reached from below. -/
theorem newton_lt (hc : 0 < c) (hr : r < M) (hstep : 2 * M ^ 2 * r' ≤ (3 * M ^ 2 - c * r ^ 2) * r) : r' < M := by
  by_contra hge
  have hone : 3 * M ^ 2 - c * r ^ 2 ≤ 3 * M ^ 2 - r ^ 2 :=
    Nat.sub_le_sub_left (Nat.le_mul_of_pos_left _ hc) _
  have hrsq : r ^ 2 ≤ M ^ 2 := Nat.pow_le_pow_left (Nat.le_of_lt hr) 2
  have hle : 2 * M ^ 2 * M ≤ (3 * M ^ 2 - r ^ 2) * r := by
    calc 2 * M ^ 2 * M ≤ 2 * M ^ 2 * r' := Nat.mul_le_mul_left _ (Nat.le_of_not_lt hge)
      _ ≤ (3 * M ^ 2 - c * r ^ 2) * r := hstep
      _ ≤ (3 * M ^ 2 - r ^ 2) * r := Nat.mul_le_mul_right r hone
  obtain ⟨k, rfl⟩ := Nat.exists_eq_add_of_lt hr
  obtain ⟨z, hz⟩ := Nat.exists_eq_add_of_le (Nat.le_trans hrsq (Nat.le_mul_of_pos_left ((r + k + 1) ^ 2) (by decide : 0 < 3)))
  rw [hz, Nat.add_sub_cancel_left] at hle
  -- (M - r)² (2 M + r) is not 0
  have hpos : 0 < (k + 1) ^ 2 * (2 * (r + k + 1) + r) := by positivity
  zify at hle hz hpos
  have hz' : (z : ℤ) = 3 * (r + k + 1) ^ 2 - r ^ 2 := by linarith
  rw [hz'] at hle
  nlinarith

/-- A step that takes away at most 2 leaves something. -/
theorem newton_pos {Q : ℕ} (hr : 0 < r) (hc : c ≤ 4 * Q) (hy : c * r ^ 2 ≤ 2 * (4 * Q)) :
    2 * Q ≤ (3 * (4 * Q) - c * r ^ 2) / 4 * r := by
  by_cases hone : r = 1
  · rw [hone, Nat.one_pow, Nat.mul_one, Nat.mul_one]
    omega
  · have hquarter : Q ≤ (3 * (4 * Q) - c * r ^ 2) / 4 := by omega
    calc 2 * Q = Q * 2 := Nat.mul_comm 2 Q
      _ ≤ (3 * (4 * Q) - c * r ^ 2) / 4 * r := Nat.mul_le_mul hquarter (by omega)

end Ns3.Lib
