import Mathlib.Data.Int.Bitwise
import Mathlib.Order.Lattice

/-!
# A shift register with feedback

Bits are fed into a register one after the other; when the bit that leaves it is set, a polynomial is added. The register
is linear in its content and in the bits. When the polynomial has its highest bit, two strings of bits leave different
contents behind, if they differ within as many consecutive bits as the register has.
-/

namespace Ns3.Lib

namespace ShiftRegister

variable {w : Nat} (poly : BitVec w)

/-- One place to the right. -/
def shift (r : BitVec w) : BitVec w := if r.getLsbD 0 then (r >>> 1) ^^^ poly else r >>> 1

/-- A bit is fed in. -/
def feed (r : BitVec w) (bit : Bool) : BitVec w := shift poly (r ^^^ (BitVec.ofBool bit).setWidth w)

/-- Bits are fed in one after the other. -/
def run (r : BitVec w) (bits : List Bool) : BitVec w := bits.foldl (feed poly) r

variable {poly} {r r' : BitVec w} {bits bits' : List Bool}

@[simp] theorem run_nil : run poly r [] = r := rfl

@[simp] theorem run_cons (bit : Bool) : run poly r (bit :: bits) = run poly (feed poly r bit) bits := rfl

theorem run_append : run poly r (bits ++ bits') = run poly (run poly r bits) bits' := List.foldl_append

/-! ### Linearity -/

theorem shift_xor (a b : BitVec w) : shift poly (a ^^^ b) = shift poly a ^^^ shift poly b := by
  have hcancel : ∀ x y : BitVec w, x ^^^ y = (x ^^^ poly) ^^^ (y ^^^ poly) := by
    intro x y
    rw [BitVec.xor_assoc, BitVec.xor_comm poly, BitVec.xor_assoc y, BitVec.xor_self, BitVec.xor_zero]
  rw [shift, shift, shift, BitVec.getLsbD_xor, BitVec.ushiftRight_xor_distrib]
  cases a.getLsbD 0 <;> cases b.getLsbD 0
  · rfl
  · exact BitVec.xor_assoc _ _ _
  · show (a >>> 1 ^^^ b >>> 1) ^^^ poly = (a >>> 1 ^^^ poly) ^^^ b >>> 1
    rw [BitVec.xor_assoc, BitVec.xor_assoc, BitVec.xor_comm (b >>> 1)]
  · exact hcancel _ _

theorem setWidth_ofBool_xor (b b' : Bool) :
    (BitVec.ofBool (b ^^ b')).setWidth w = (BitVec.ofBool b).setWidth w ^^^ (BitVec.ofBool b').setWidth w := by
  cases b <;> cases b' <;> simp

theorem feed_xor (poly r r' : BitVec w) (bit bit' : Bool) :
    feed poly (r ^^^ r') (bit ^^ bit') = feed poly r bit ^^^ feed poly r' bit' := by
  rw [feed, feed, feed, ← shift_xor, setWidth_ofBool_xor]
  congr 1
  rw [BitVec.xor_assoc, BitVec.xor_assoc, ← BitVec.xor_assoc r', BitVec.xor_comm r', BitVec.xor_assoc]

/-- The difference of two contents is that of the difference of the bits. -/
theorem run_xor (poly r r' : BitVec w) (hlength : bits.length = bits'.length) :
    run poly (r ^^^ r') (bits.zipWith xor bits') = run poly r bits ^^^ run poly r' bits' := by
  induction bits generalizing r r' bits' with
  | nil =>
    obtain rfl := List.length_eq_zero_iff.mp hlength.symm
    rfl
  | cons bit bits ih =>
    cases bits' with
    | nil => cases hlength
    | cons bit' bits' =>
      rw [List.zipWith_cons_cons, run_cons, run_cons, run_cons, feed_xor]
      exact ih _ _ (Nat.succ.inj hlength)

/-- A content and bits that are fed in, apart. -/
theorem run_add (poly r : BitVec w) (bits : List Bool) :
    run poly r bits = run poly r (List.replicate bits.length false) ^^^ run poly 0#w bits := by
  have hbits : ∀ bits : List Bool, (List.replicate bits.length false).zipWith xor bits = bits := by
    intro bits
    induction bits with
    | nil => rfl
    | cons bit bits ih => rw [List.length_cons, List.replicate_succ, List.zipWith_cons_cons, ih, Bool.false_xor]
  have hfed := run_xor poly r 0#w (List.length_replicate (n := bits.length) (a := false))
  rw [hbits, BitVec.xor_zero] at hfed
  exact hfed

theorem run_clear_xor (poly r r' : BitVec w) (n : Nat) : run poly (r ^^^ r') (List.replicate n false) =
    run poly r (List.replicate n false) ^^^ run poly r' (List.replicate n false) := by
  have hclear : (List.replicate n false).zipWith xor (List.replicate n false) = List.replicate n false := by
    rw [List.zipWith_replicate', Bool.xor_self]
  have hfed := run_xor poly r r' (rfl : (List.replicate n false).length = _)
  rw [hclear] at hfed
  exact hfed

/-! ### What stays in the register -/

theorem shift_of_even (hbit : r.getLsbD 0 = false) : shift poly r = r >>> 1 := by
  rw [shift, hbit]
  exact if_neg Bool.false_ne_true

theorem feed_false : feed poly r false = shift poly r := by
  simp [feed]

/-- Clear bits leave the register as they are. -/
theorem run_of_clear {n : Nat} (hclear : ∀ i < n, r.getLsbD i = false) : run poly r (List.replicate n false) = r >>> n := by
  induction n generalizing r with
  | zero => simp
  | succ n ih =>
    have hrest : ∀ i < n, (r >>> 1).getLsbD i = false := fun i hi => by
      rw [BitVec.getLsbD_ushiftRight]
      exact hclear (1 + i) (by omega)
    rw [List.replicate_succ, run_cons, feed_false, shift_of_even (hclear 0 (Nat.succ_pos n)), ih hrest, ← BitVec.shiftRight_add,
      Nat.add_comm]

/-- When the polynomial was added, the highest bit is set. -/
theorem added_high (hpoly : poly.msb = true) : (r >>> 1 ^^^ poly).getLsbD (w - 1) = true := by
  rw [BitVec.getLsbD_xor, BitVec.getLsbD_ushiftRight, BitVec.getLsbD_of_ge _ (1 + (w - 1)) (by omega), Bool.false_xor,
    ← BitVec.msb_eq_getLsbD_last]
  exact hpoly

/-- A register with a set bit from `k + 1` on has one from `k` on when a bit has been fed in. -/
theorem feed_high (hpoly : poly.msb = true) {k : Nat} (bit : Bool) (hhigh : ∃ i, k + 1 ≤ i ∧ r.getLsbD i = true) :
    ∃ i, k ≤ i ∧ (feed poly r bit).getLsbD i = true := by
  obtain ⟨i, hi, hset⟩ := hhigh
  have hlt := BitVec.lt_of_getLsbD hset
  have hfed : (r ^^^ (BitVec.ofBool bit).setWidth w).getLsbD i = true := by
    rw [BitVec.getLsbD_xor, hset, BitVec.getLsbD_setWidth, BitVec.getLsbD_of_ge _ i (by omega), Bool.and_false, Bool.xor_false]
  rw [feed, shift]
  split
  · exact ⟨w - 1, by omega, added_high hpoly⟩
  · refine ⟨i - 1, by omega, ?_⟩
    rw [BitVec.getLsbD_ushiftRight, Nat.add_sub_cancel' (by omega)]
    exact hfed

theorem run_high (hpoly : poly.msb = true) (hhigh : ∃ i, bits.length ≤ i ∧ r.getLsbD i = true) : run poly r bits ≠ 0#w := by
  induction bits generalizing r with
  | nil =>
    obtain ⟨i, -, hset⟩ := hhigh
    rintro rfl
    simp at hset
  | cons bit bits ih => exact ih (feed_high hpoly bit hhigh)

theorem feed_zero_false : feed poly 0#w false = 0#w := by
  rw [feed_false, shift_of_even BitVec.getLsbD_zero]
  exact BitVec.zero_ushiftRight

theorem feed_zero_true (hw : 0 < w) : feed poly 0#w true = poly := by
  have hone : (0#w ^^^ (BitVec.ofBool true).setWidth w).getLsbD 0 = true := by
    simp [hw]
  rw [feed, shift, if_pos hone]
  apply BitVec.eq_of_getLsbD_eq
  intro i _
  simp [Nat.add_comm 1 i]

/-- Bits that are not all clear do not leave an empty register empty, when it has as many places. -/
theorem run_zero_ne (hpoly : poly.msb = true) (hlength : bits.length ≤ w) (hset : true ∈ bits) : run poly 0#w bits ≠ 0#w := by
  induction bits with
  | nil => cases hset
  | cons bit bits ih =>
    rw [List.length_cons] at hlength
    cases bit with
    | false =>
      rw [run_cons, feed_zero_false]
      exact ih (by omega) ((List.mem_cons.mp hset).resolve_left Bool.noConfusion)
    | true =>
      rw [run_cons, feed_zero_true (by omega)]
      refine run_high hpoly ⟨w - 1, by omega, ?_⟩
      rw [← BitVec.msb_eq_getLsbD_last]
      exact hpoly

theorem shift_ne_zero (hpoly : poly.msb = true) {i : Nat} (hset : r.getLsbD i = true) : shift poly r ≠ 0#w := by
  intro hzero
  rw [shift] at hzero
  split at hzero
  · have hhigh := added_high (r := r) hpoly
    rw [hzero, BitVec.getLsbD_zero] at hhigh
    cases hhigh
  · rename_i heven
    have hpos : i ≠ 0 := by
      rintro rfl
      exact heven hset
    have hbit : (r >>> 1).getLsbD (i - 1) = true := by
      rw [BitVec.getLsbD_ushiftRight, Nat.add_sub_cancel' (Nat.one_le_iff_ne_zero.mpr hpos)]
      exact hset
    rw [hzero, BitVec.getLsbD_zero] at hbit
    cases hbit

/-- Nothing is lost of a content when bits are fed in. -/
theorem feed_injective (hpoly : poly.msb = true) (bit : Bool) : Function.Injective (feed poly · bit) := by
  intro a b heq
  have hzero : shift poly (a ^^^ b) = 0#w := by
    have hdiff := feed_xor poly a b bit bit
    rw [show feed poly a bit = feed poly b bit from heq, BitVec.xor_self, Bool.xor_self, feed_false] at hdiff
    exact hdiff
  refine BitVec.xor_eq_zero_iff.mp (BitVec.eq_of_getLsbD_eq fun i _ => ?_)
  rw [BitVec.getLsbD_zero]
  exact Bool.eq_false_of_not_eq_true fun htrue => shift_ne_zero hpoly htrue hzero

theorem run_injective (hpoly : poly.msb = true) (bits : List Bool) : Function.Injective (run poly · bits) := by
  induction bits with
  | nil => exact fun _ _ heq => heq
  | cons bit bits ih => exact fun a b heq => feed_injective hpoly bit (ih heq)

theorem zipWith_xor_eq {a b : List Bool} (hlength : a.length = b.length) (hclear : true ∉ a.zipWith xor b) : a = b := by
  induction a generalizing b with
  | nil => exact (List.length_eq_zero_iff.mp hlength.symm).symm
  | cons bit a ih =>
    cases b with
    | nil => cases hlength
    | cons bit' b =>
      rw [List.zipWith_cons_cons, List.mem_cons, not_or] at hclear
      obtain rfl : bit = bit' := by
        cases bit <;> cases bit' <;> first | rfl | exact absurd rfl hclear.1
      rw [ih (Nat.succ.inj hlength) hclear.2]

/-- Two strings of bits that differ within as many consecutive bits as the register has. -/
theorem run_burst (hpoly : poly.msb = true) {before a b behind : List Bool} (hlength : a.length = b.length)
    (hshort : a.length ≤ w) (heq : run poly r (before ++ a ++ behind) = run poly r (before ++ b ++ behind)) : a = b := by
  rw [run_append, run_append, run_append, run_append] at heq
  have hsame := run_injective hpoly behind heq
  refine zipWith_xor_eq hlength fun hset => ?_
  have hdiff := run_xor poly (run poly r before) (run poly r before) hlength
  rw [hsame, BitVec.xor_self, BitVec.xor_self] at hdiff
  refine run_zero_ne hpoly ?_ hset hdiff
  rw [List.length_zipWith, hlength, Nat.min_self]
  omega

end ShiftRegister

end Ns3.Lib
