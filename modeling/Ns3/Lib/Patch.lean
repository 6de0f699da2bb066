import Mathlib.Data.List.GetD
import Ns3.Lib.Chunks

/-!
# Memory that is written

A memory gives a value at each position. Writing a list at a position changes the positions it
covers, so a slice that it does not meet is read as before.
-/

namespace Ns3.Lib

variable {α : Type*}

/-- The memory with a list written at `a`. -/
def patch (mem : Nat → α) (a : Nat) (p : List α) : Nat → α := fun i =>
  if a ≤ i then p.getD (i - a) (mem i) else mem i

@[simp] theorem slice_zero (mem : Nat → α) (a : Nat) : slice mem a 0 = [] := rfl

theorem slice_congr {mem mem' : Nat → α} {a n : Nat} (h : ∀ i, a ≤ i → i < a + n → mem' i = mem i) :
    slice mem' a n = slice mem a n := by
  apply List.map_congr_left
  intro i hi
  exact h _ (Nat.le_add_right a i) (Nat.add_lt_add_left (List.mem_range.mp hi) a)

@[simp] theorem patch_nil (mem : Nat → α) (a : Nat) : patch mem a [] = mem := by
  funext i
  simp [patch]

/-- Outside of what is written. -/
theorem patch_outside {mem : Nat → α} {a i : Nat} {p : List α} (h : i < a ∨ a + p.length ≤ i) :
    patch mem a p i = mem i := by
  rw [patch]
  split
  · rw [List.getD_eq_default]
    omega
  · rfl

/-- Equal slices have equal parts. -/
theorem slice_part {mem mem' : Nat → α} {a b n k m : Nat} (heq : slice mem' b n = slice mem a n)
    (hle : k + m ≤ n) : slice mem' (b + k) m = slice mem (a + k) m := by
  rw [← take_drop_slice mem' hle, heq, take_drop_slice mem hle]

theorem drop_slice (mem : Nat → α) (a n k : Nat) :
    (slice mem a n).drop k = slice mem (a + k) (n - k) := by
  apply List.ext_getElem?
  intro i
  rw [List.getElem?_drop, getElem?_slice, getElem?_slice, Nat.add_assoc]
  by_cases h : k + i < n
  · rw [if_pos h, if_pos (by omega)]
  · rw [if_neg h, if_neg (by omega)]

theorem take_slice (mem : Nat → α) (a n k : Nat) :
    (slice mem a n).take k = slice mem a (min k n) := by
  apply List.ext_getElem?
  intro i
  rw [List.getElem?_take, getElem?_slice, getElem?_slice]
  by_cases h : i < k
  · rw [if_pos h]
    by_cases h' : i < n
    · rw [if_pos h', if_pos (by omega)]
    · rw [if_neg h', if_neg (by omega)]
  · rw [if_neg h, if_neg (by omega)]

/-- What is written is read back. -/
theorem slice_patch (mem : Nat → α) (a : Nat) (p : List α) : slice (patch mem a p) a p.length = p := by
  apply List.ext_getElem?
  intro i
  rw [getElem?_slice]
  split
  · next h =>
    rw [patch, if_pos (Nat.le_add_right a i), Nat.add_sub_cancel_left, List.getD_eq_getElem _ _ h,
      List.getElem?_eq_getElem h]
  · next h => exact (List.getElem?_eq_none (Nat.le_of_not_lt h)).symm

/-- Writing a list piece by piece. -/
theorem patch_append (mem : Nat → α) (a : Nat) (p q : List α) :
    patch (patch mem a p) (a + p.length) q = patch mem a (p ++ q) := by
  funext i
  simp only [patch]
  by_cases hi : a ≤ i
  · rw [if_pos hi, if_pos hi]
    by_cases hq : a + p.length ≤ i
    · rw [if_pos hq, List.getD_append_right _ _ _ _ (by omega),
        List.getD_eq_default _ _ (n := i - a) (by omega), Nat.sub_add_eq]
    · rw [if_neg hq, List.getD_append _ _ _ _ (by omega)]
  · rw [if_neg hi, if_neg hi, if_neg (by omega)]

end Ns3.Lib
