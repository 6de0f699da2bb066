import Mathlib.Data.Int.Bitwise
import Mathlib.Data.Nat.Basic
import Mathlib.Order.Lattice
import Mathlib.Tactic.Ring

/-!
# Binary long division

The digits of a quotient, some of them behind the point, with the remainder and the divisor they leave.
A round doubles the remainder or halves the divisor, each for one digit that is due, and then divides.
The remainder and the divisor may be short of the same power of two.
-/

namespace Ns3.Lib

/-- `quo` has `digits` binary digits of `a / b` behind the point and `shift` more are due from `rem / den`. -/
structure LongDivision (a b quo rem den digits shift : ℕ) : Prop where
  value : ∃ e, b = den * 2 ^ e ∧ a * 2 ^ (digits + shift) = quo * 2 ^ shift * b + rem * 2 ^ e
  rem_lt : rem < den * 2 ^ shift

namespace LongDivision

variable {a b quo rem den digits shift : ℕ}

/-- The integer part. -/
theorem start (a : ℕ) {b : ℕ} (hb : 0 < b) : LongDivision a b (a / b) (a % b) b 0 0 := by
  refine ⟨⟨0, ?_, ?_⟩, ?_⟩
  · rw [pow_zero, Nat.mul_one]
  · rw [pow_zero, Nat.mul_one, Nat.mul_one, Nat.mul_one, Nat.mul_comm, Nat.div_add_mod]
  · rw [pow_zero, Nat.mul_one]
    exact Nat.mod_lt a hb

theorem double_rem (h : LongDivision a b quo rem den digits shift) :
    LongDivision a b quo (2 * rem) den digits (shift + 1) := by
  obtain ⟨⟨e, hb, ha⟩, hlt⟩ := h
  refine ⟨⟨e, hb, ?_⟩, ?_⟩
  · calc a * 2 ^ (digits + (shift + 1)) = 2 * (a * 2 ^ (digits + shift)) := by ring
      _ = 2 * (quo * 2 ^ shift * b + rem * 2 ^ e) := by rw [ha]
      _ = quo * 2 ^ (shift + 1) * b + 2 * rem * 2 ^ e := by ring
  · calc 2 * rem < 2 * (den * 2 ^ shift) := Nat.mul_lt_mul_of_pos_left hlt (by decide)
      _ = den * 2 ^ (shift + 1) := by ring

theorem halve_den (h : LongDivision a b quo rem (2 * den) digits shift) :
    LongDivision a b quo rem den digits (shift + 1) := by
  obtain ⟨⟨e, hb, ha⟩, hlt⟩ := h
  refine ⟨⟨e + 1, ?_, ?_⟩, ?_⟩
  · rw [hb]
    ring
  · calc a * 2 ^ (digits + (shift + 1)) = 2 * (a * 2 ^ (digits + shift)) := by ring
      _ = 2 * (quo * 2 ^ shift * b + rem * 2 ^ e) := by rw [ha]
      _ = quo * 2 ^ (shift + 1) * b + rem * 2 ^ (e + 1) := by ring
  · calc rem < 2 * den * 2 ^ shift := hlt
      _ = den * 2 ^ (shift + 1) := by ring

/-- The digits that are due are appended. -/
theorem divide (h : LongDivision a b quo rem den digits shift) (hden : 0 < den) :
    LongDivision a b (quo * 2 ^ shift + rem / den) (rem % den) den (digits + shift) 0 := by
  obtain ⟨⟨e, hb, ha⟩, -⟩ := h
  refine ⟨⟨e, hb, ?_⟩, ?_⟩
  · calc a * 2 ^ (digits + shift + 0) = quo * 2 ^ shift * b + rem * 2 ^ e := ha
      _ = quo * 2 ^ shift * b + (den * (rem / den) + rem % den) * 2 ^ e := by rw [Nat.div_add_mod]
      _ = (quo * 2 ^ shift + rem / den) * 2 ^ 0 * b + rem % den * 2 ^ e := by
        rw [hb]
        ring
  · rw [pow_zero, Nat.mul_one]
    exact Nat.mod_lt rem hden

theorem den_pos (h : LongDivision a b quo rem den digits shift) (hb : 0 < b) : 0 < den := by
  obtain ⟨⟨e, hden, -⟩, -⟩ := h
  exact Nat.pos_of_ne_zero fun hzero => absurd hb (by rw [hden, hzero, Nat.zero_mul]; decide)

theorem den_le (h : LongDivision a b quo rem den digits shift) : den ≤ b := by
  obtain ⟨⟨e, hden, -⟩, -⟩ := h
  rw [hden]
  exact Nat.le_mul_of_pos_right den (Nat.two_pow_pos e)

/-- The digits so far, without a carry out of the quotient's own. -/
theorem digits_eq (h : LongDivision a b quo rem den digits 0) (hb : 0 < b) : quo = a * 2 ^ digits / b := by
  obtain ⟨⟨e, hden, ha⟩, hlt⟩ := h
  have hrem : rem * 2 ^ e < b := by
    rw [hden]
    exact Nat.mul_lt_mul_of_pos_right (by rwa [pow_zero, Nat.mul_one] at hlt) (Nat.two_pow_pos e)
  rw [Nat.add_zero, pow_zero, Nat.mul_one] at ha
  rw [ha, Nat.mul_comm quo b, Nat.mul_add_div hb, Nat.div_eq_of_lt hrem, Nat.add_zero]

/-- Without a remainder the digits to come are zeros. -/
theorem pad (h : LongDivision a b quo 0 den digits shift) (hb : 0 < b) (k : ℕ) :
    quo * 2 ^ k = a * 2 ^ (digits + k) / b := by
  obtain ⟨⟨e, -, ha⟩, -⟩ := h
  have hscaled : a * 2 ^ digits * 2 ^ shift = quo * b * 2 ^ shift := by
    calc a * 2 ^ digits * 2 ^ shift = a * 2 ^ (digits + shift) := by ring
      _ = quo * 2 ^ shift * b + 0 * 2 ^ e := ha
      _ = quo * b * 2 ^ shift := by ring
  have hall : a * 2 ^ digits = quo * b := Nat.eq_of_mul_eq_mul_right (Nat.two_pow_pos shift) hscaled
  rw [pow_add, ← Nat.mul_assoc, hall, show quo * b * 2 ^ k = quo * 2 ^ k * b by ring, Nat.mul_div_cancel _ hb]

end LongDivision

end Ns3.Lib
