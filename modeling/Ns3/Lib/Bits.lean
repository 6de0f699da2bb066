import Mathlib.Data.Int.Bitwise
import Mathlib.Data.List.GetD
import Mathlib.Order.Lattice

/-!
# Bits of words

A list of words as one sequence of bits, the low bits of the first word first.
-/

namespace Ns3.Lib

section Bits

variable {w : Nat} {ws ws' : List (BitVec w)} {x y : BitVec w} {p q : Nat}

/-- A bit of a list of words, false behind the last one. -/
def bitAt (ws : List (BitVec w)) (p : Nat) : Bool := (ws.getD (p / w) 0).getLsbD (p % w)

theorem bitAt_word (hq : q < w) (i : Nat) : bitAt ws (w * i + q) = (ws.getD i 0).getLsbD q := by
  have hpos : 0 < w := Nat.zero_lt_of_lt hq
  rw [bitAt, Nat.mul_add_div hpos, Nat.div_eq_of_lt hq, Nat.add_zero, Nat.mul_add_mod,
    Nat.mod_eq_of_lt hq]

theorem bitAt_append_left (hp : p < w * ws.length) : bitAt (ws ++ ws') p = bitAt ws p := by
  rw [bitAt, bitAt, List.getD_append _ _ _ _ (Nat.div_lt_of_lt_mul hp)]

theorem bitAt_append_right (hp : w * ws.length ≤ p) :
    bitAt (ws ++ ws') p = bitAt ws' (p - w * ws.length) := by
  rw [bitAt, bitAt, Nat.sub_mul_mod hp]
  rcases Nat.eq_zero_or_pos w with rfl | hpos
  · exact (BitVec.getLsbD_of_ge _ _ (Nat.zero_le _)).trans (BitVec.getLsbD_of_ge _ _ (Nat.zero_le _)).symm
  · rw [List.getD_append_right _ _ _ _ ((Nat.le_div_iff_mul_le hpos).mpr (Nat.mul_comm w _ ▸ hp)),
      Nat.sub_mul_div_of_le _ _ _ hp]

theorem bitAt_of_ge (hp : w * ws.length ≤ p) : bitAt ws p = false := by
  rcases Nat.eq_zero_or_pos w with rfl | hpos
  · exact BitVec.getLsbD_of_ge _ _ (Nat.zero_le _)
  · rw [bitAt, List.getD_eq_default _ _ ((Nat.le_div_iff_mul_le hpos).mpr (Nat.mul_comm w _ ▸ hp))]
    exact BitVec.getLsbD_zero

/-- One word, with nothing behind it. -/
theorem bitAt_singleton (x : BitVec w) (p : Nat) : bitAt [x] p = x.getLsbD p := by
  by_cases hp : p < w
  · rw [bitAt, Nat.div_eq_of_lt hp, Nat.mod_eq_of_lt hp]
    rfl
  · have hge : w * [x].length ≤ p := by
      rw [List.length_singleton, Nat.mul_one]
      exact Nat.le_of_not_lt hp
    rw [bitAt_of_ge hge, BitVec.getLsbD_of_ge _ _ (Nat.le_of_not_lt hp)]

theorem bitAt_append (ws ws' : List (BitVec w)) (p : Nat) : bitAt (ws ++ ws') p =
    if p < w * ws.length then bitAt ws p else bitAt ws' (p - w * ws.length) := by
  split
  · next hp => exact bitAt_append_left hp
  · next hp => exact bitAt_append_right (Nat.le_of_not_lt hp)

theorem bitAt_pair (x y : BitVec w) (p : Nat) :
    bitAt [x, y] p = if p < w then x.getLsbD p else y.getLsbD (p - w) := by
  have := bitAt_append [x] [y] p
  rw [bitAt_singleton, bitAt_singleton, List.length_singleton, Nat.mul_one] at this
  exact this

end Bits

end Ns3.Lib
