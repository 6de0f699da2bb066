import Mathlib.Data.Int.Bitwise
import Mathlib.Data.Nat.Basic
import Mathlib.Order.Lattice

/-!
# Sizes as 32-bit words

Natural numbers below half the range of a word, and what words do with them.
-/

namespace Ns3.Lib

theorem lt_size {n : Nat} (h : n < 2 ^ 31) : n < UInt32.size :=
  Nat.lt_trans h (by decide)

theorem toNat_ofNat {n : Nat} (h : n < 2 ^ 31) : (UInt32.ofNat n).toNat = n :=
  UInt32.toNat_ofNat_of_lt' (lt_size h)

/-- The smaller of two sizes. -/
theorem min_ofNat (m : UInt32) {n : Nat} (hn : n < 2 ^ 32) :
    min m (UInt32.ofNat n) = UInt32.ofNat (min m.toNat n) := by
  have hto : (UInt32.ofNat n).toNat = n := UInt32.toNat_ofNat_of_lt' hn
  change (if m ≤ UInt32.ofNat n then m else UInt32.ofNat n) = _
  by_cases hle : m ≤ UInt32.ofNat n
  · have := UInt32.le_iff_toNat_le.mp hle
    rw [if_pos hle, Nat.min_eq_left (by omega), UInt32.ofNat_toNat]
  · have := UInt32.lt_iff_toNat_lt.mp (UInt32.not_le.mp hle)
    rw [if_neg hle, Nat.min_eq_right (by omega)]

theorem toNat_min (m n : UInt32) : (min m n).toNat = min m.toNat n.toNat := by
  have hmin := min_ofNat m n.toNat_lt
  rw [UInt32.ofNat_toNat] at hmin
  rw [hmin, UInt32.toNat_ofNat_of_lt' (Nat.lt_of_le_of_lt (Nat.min_le_right _ _) n.toNat_lt)]

theorem min_le_left (m n : UInt32) : min m n ≤ m := by
  change (if m ≤ n then m else n) ≤ m
  split
  · exact UInt32.le_refl m
  · next h => exact UInt32.le_of_lt (UInt32.not_le.mp h)

/-- A size is 0 as a word only if it is. -/
theorem ofNat_eq_zero {n : Nat} (h : n < 2 ^ 31) : UInt32.ofNat n = 0 ↔ n = 0 := by
  rw [← UInt32.toNat_inj, toNat_ofNat h]
  rfl

end Ns3.Lib
