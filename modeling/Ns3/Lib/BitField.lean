import Mathlib.Data.Int.Bitwise
import Mathlib.Data.Nat.Bitwise
import Mathlib.Data.UInt
import Mathlib.Order.Lattice

/-!
# Fields of a byte

A field of `w` bits from bit `s` on is read by a mask and a shift to the right, and written by a shift to the left and a
mask. Fields that do not overlap are put together with `|||`, which adds them.
-/

namespace Ns3.Lib

theorem and_mask (x s w : Nat) : x &&& (2 ^ w - 1) * 2 ^ s = x / 2 ^ s % 2 ^ w * 2 ^ s := by
  apply Nat.eq_of_testBit_eq
  intro i
  rw [Nat.testBit_and, Nat.testBit_mul_two_pow, Nat.testBit_mul_two_pow, Nat.testBit_two_pow_sub_one,
    Nat.testBit_mod_two_pow, ← Nat.shiftRight_eq_div_pow, Nat.testBit_shiftRight]
  by_cases hi : s ≤ i
  · rw [Nat.add_sub_of_le hi, decide_eq_true hi, Bool.true_and, Bool.true_and, Bool.and_comm]
  · rw [decide_eq_false hi, Bool.false_and, Bool.false_and, Bool.and_false]

/-- What is below the bits of the left part is added to it. -/
theorem or_eq_add {a b s : Nat} (ha : a % 2 ^ s = 0) (hb : b < 2 ^ s) : a ||| b = a + b := by
  obtain ⟨c, rfl⟩ := Nat.dvd_of_mod_eq_zero ha
  exact (Nat.two_pow_add_eq_or_of_lt hb c).symm

section Byte

variable {mask shift : UInt8} {s w : Nat}

theorem readField (b : UInt8) (hmask : mask.toNat = (2 ^ w - 1) * 2 ^ s) (hshift : shift.toNat = s) (hs : s < 8) :
    ((b &&& mask) >>> shift).toNat = b.toNat / 2 ^ s % 2 ^ w := by
  rw [UInt8.toNat_shiftRight, UInt8.toNat_and, hmask, and_mask, hshift, Nat.mod_eq_of_lt hs, Nat.shiftRight_eq_div_pow,
    Nat.mul_div_cancel _ (Nat.two_pow_pos s)]

theorem writeField {x : UInt8} (hmask : mask.toNat = (2 ^ w - 1) * 2 ^ s) (hshift : shift.toNat = s) (hs : s + w ≤ 8)
    (hw : 0 < w) (hx : x.toNat < 2 ^ w) : ((x <<< shift) &&& mask).toNat = x.toNat * 2 ^ s := by
  have hlt : x.toNat * 2 ^ s < 2 ^ 8 :=
    calc x.toNat * 2 ^ s < 2 ^ w * 2 ^ s := Nat.mul_lt_mul_of_pos_right hx (Nat.two_pow_pos s)
      _ = 2 ^ (s + w) := by rw [Nat.pow_add, Nat.mul_comm]
      _ ≤ 2 ^ 8 := Nat.pow_le_pow_right (by decide) hs
  rw [UInt8.toNat_and, UInt8.toNat_shiftLeft, hmask, hshift, Nat.mod_eq_of_lt (show s < 8 by omega), Nat.shiftLeft_eq,
    Nat.mod_eq_of_lt hlt, and_mask, Nat.mul_div_cancel _ (Nat.two_pow_pos s), Nat.mod_eq_of_lt hx]

end Byte

end Ns3.Lib
