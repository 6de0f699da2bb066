import Mathlib.Data.Int.Bitwise
import Mathlib.Data.Nat.ModEq
import Mathlib.Order.Lattice

/-!
# One's complement sums

Bytes are added as words of 16 bits, low byte first, and the carries are added back in until there are
none. What remains stands for the sum modulo 65535, and is 0 only when nothing was added; so a sum with
its complement is all ones.
-/

namespace Ns3.Lib

/-- The sum of the words; a last byte without a partner counts by itself. -/
def wordSum : List UInt8 → Nat
  | [] => 0
  | [b] => b.toNat
  | b :: c :: rest => b.toNat + 256 * c.toNat + wordSum rest

/-- Carries are added back in until there are none. -/
def endAround (n : Nat) : Nat :=
  if n < 65536 then n else endAround (n % 65536 + n / 65536)
termination_by n
decreasing_by omega

theorem wordSum_append {a : List UInt8} (b : List UInt8) (heven : a.length % 2 = 0) :
    wordSum (a ++ b) = wordSum a + wordSum b := by
  induction a using wordSum.induct with
  | case1 => simp [wordSum]
  | case2 x => simp at heven
  | case3 x y rest ih =>
    have hrest : rest.length % 2 = 0 := by
      simp only [List.length_cons] at heven
      omega
    show _ + wordSum (rest ++ b) = _
    rw [ih hrest, wordSum]
    omega

theorem wordSum_le (a : List UInt8) : wordSum a ≤ 65535 * ((a.length + 1) / 2) := by
  induction a using wordSum.induct with
  | case1 => exact Nat.zero_le _
  | case2 x =>
    have hx := x.toNat_lt
    simp only [wordSum, List.length_cons, List.length_nil]
    omega
  | case3 x y rest ih =>
    have hx := x.toNat_lt
    have hy := y.toNat_lt
    simp only [wordSum, List.length_cons]
    omega

theorem endAround_lt (n : Nat) : endAround n < 65536 := by
  induction n using endAround.induct with
  | case1 n h => rwa [endAround, if_pos h]
  | case2 n h ih => rwa [endAround, if_neg h]

/-- Adding the carries back in keeps the sum modulo 65535. -/
theorem endAround_mod (n : Nat) : endAround n % 65535 = n % 65535 := by
  induction n using endAround.induct with
  | case1 n h => rw [endAround, if_pos h]
  | case2 n h ih =>
    rw [endAround, if_neg h, ih]
    omega

theorem endAround_eq_zero {n : Nat} : endAround n = 0 ↔ n = 0 := by
  induction n using endAround.induct with
  | case1 n h => rw [endAround, if_pos h]
  | case2 n h ih =>
    rw [endAround, if_neg h, ih]
    omega

theorem endAround_of_lt {n : Nat} (h : n < 65536) : endAround n = n := by
  rw [endAround, if_pos h]

/-- All ones. -/
theorem endAround_eq_ones {n : Nat} : endAround n = 65535 ↔ 0 < n ∧ n % 65535 = 0 := by
  have hlt := endAround_lt n
  have hmod := endAround_mod n
  have hzero := @endAround_eq_zero n
  omega

/-- A sum with its complement is all ones. -/
theorem endAround_compl {n : Nat} (h : 0 < n) :
    endAround (n + (65535 - endAround n)) = 65535 := by
  have hmod := endAround_mod n
  have hlt := endAround_lt n
  rw [endAround_eq_ones]
  omega

/-- With only the low byte of its complement a sum is all ones if the high byte is 0. -/
theorem endAround_low (n : Nat) :
    endAround (n + (65535 - endAround n) % 256) = 65535 ↔ (65535 - endAround n) / 256 = 0 := by
  have hmod := endAround_mod n
  have hlt := endAround_lt n
  have hzero := @endAround_eq_zero n
  rw [endAround_eq_ones]
  omega

end Ns3.Lib
