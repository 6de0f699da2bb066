import Mathlib.Data.Int.Basic
import Mathlib.Data.Int.Bitwise
import Mathlib.Data.Nat.Bits
import Mathlib.Order.Lattice
import Mathlib.Tactic.Ring
import Mathlib.Tactic.SplitIfs

/-!
# Fixed point numbers

`int64x64_t` over the native 128-bit integers: a signed word with 64 fraction bits. A product is put
together from those of the halves, and the half above the word is masked with `HP_MASK_HI`, which is
the complement of a 64-bit mask in 64 bits. Signed negation wraps. Source:
`src/core/model/int64x64-128.h`, `int64x64-128.cc`.
-/

namespace Ns3.Core

/-- `int64x64_t`. -/
structure Int64x64 where
  v : BitVec 128
  deriving DecidableEq, Repr

def HP_MASK_LO : BitVec 64 := 0xffffffffffffffff

def HP_MASK_HI : BitVec 64 := ~~~HP_MASK_LO

namespace Int64x64

/-- A word masked with one of 64 bits, which is zero extended. -/
def mask (a : BitVec 128) (m : BitVec 64) : BitVec 128 := a &&& m.setWidth 128

def outputSign (sa sb : BitVec 128) : Bool × BitVec 128 × BitVec 128 :=
  let negA := sa.slt 0
  let negB := sb.slt 0
  let ua := if negA then -sa else sa
  let ub := if negB then -sb else sb
  ((negA && !negB) || (!negA && negB), ua, ub)

/-- No result is an abort. -/
def umul (a b : BitVec 128) : Option (BitVec 128) :=
  let aL := mask a HP_MASK_LO
  let bL := mask b HP_MASK_LO
  let aH := mask (a >>> 64) HP_MASK_LO
  let bH := mask (b >>> 64) HP_MASK_LO
  let loPart := aL * bL
  let midPart := aL * bH + aH * bL
  let hiPart := aH * bH
  if mask hiPart HP_MASK_HI ≠ 0 then none
  else
    let result := (loPart >>> 64) + mask midPart HP_MASK_LO
    let res1 := (midPart >>> 64) + mask hiPart HP_MASK_LO
    some (result + (res1 <<< 64))

def mul (a o : Int64x64) : Option Int64x64 :=
  let (negative, ua, ub) := outputSign a.v o.v
  (umul ua ub).map fun result => ⟨if negative then -result else result⟩

/-- The number in units of the last place. -/
def raw (a : Int64x64) : ℤ := a.v.toInt

/-! ### Words as numbers -/

theorem mask_lo (a : BitVec 128) : (mask a HP_MASK_LO).toNat = a.toNat % 2 ^ 64 := by
  rw [mask, BitVec.toNat_and]
  exact Nat.and_two_pow_sub_one_eq_mod a.toNat 64

/-- The mask for the high half has no bits. -/
theorem mask_hi (a : BitVec 128) : mask a HP_MASK_HI = 0 := by
  rw [mask, show HP_MASK_HI.setWidth 128 = 0 from rfl]
  exact BitVec.and_zero

theorem toNat_high (a : BitVec 128) : (a >>> 64).toNat = a.toNat / 2 ^ 64 := by
  rw [BitVec.toNat_ushiftRight, Nat.shiftRight_eq_div_pow]

theorem slt_zero (a : BitVec 128) : a.slt 0 = true ↔ a.toInt < 0 := by
  rw [BitVec.slt_iff_toInt_lt]
  rfl

/-- The magnitude of a signed word. -/
theorem toNat_magnitude (a : BitVec 128) : (if a.slt 0 then -a else a).toNat = a.toInt.natAbs := by
  have ha := a.isLt
  have hint := BitVec.toInt_eq_toNat_cond a
  split
  · next h =>
    have hneg := (slt_zero a).mp h
    rw [BitVec.toNat_neg]
    split at hint <;> omega
  · next h =>
    have hneg : ¬a.toInt < 0 := fun h' => h ((slt_zero a).mpr h')
    split at hint <;> omega

theorem natAbs_le (a : BitVec 128) : a.toInt.natAbs ≤ 2 ^ 127 := by
  have ha := a.isLt
  have hint := BitVec.toInt_eq_toNat_cond a
  split at hint <;> omega

theorem toNat_shiftLeft (a : BitVec 128) (k : ℕ) : (a <<< k).toNat = a.toNat * 2 ^ k % 2 ^ 128 := by
  rw [BitVec.toNat_shiftLeft, Nat.shiftLeft_eq]

/-- A word that is a number modulo its size is that number exactly within the range of its sign. -/
theorem toInt_eq_iff {x : BitVec 128} {z : ℤ} (hx : (x.toNat : ℤ) % 2 ^ 128 = z % 2 ^ 128) :
    x.toInt = z ↔ -2 ^ 127 ≤ z ∧ z < 2 ^ 127 := by
  have hlt := x.isLt
  have hint := BitVec.toInt_eq_toNat_cond x
  split at hint <;> omega

/-! ### Products -/

theorem mul_halves (a b : ℕ) : a * b =
    a / 2 ^ 64 * (b / 2 ^ 64) * 2 ^ 128 + (a % 2 ^ 64 * (b / 2 ^ 64) + a / 2 ^ 64 * (b % 2 ^ 64)) * 2 ^ 64 +
      a % 2 ^ 64 * (b % 2 ^ 64) := by
  calc a * b = (2 ^ 64 * (a / 2 ^ 64) + a % 2 ^ 64) * (2 ^ 64 * (b / 2 ^ 64) + b % 2 ^ 64) := by
        rw [Nat.div_add_mod, Nat.div_add_mod]
    _ = _ := by ring

/-- The product of the code is the exact one without what does not fit the word. -/
theorem umul_eq {a b : BitVec 128} (ha : a.toNat ≤ 2 ^ 127) (hb : b.toNat ≤ 2 ^ 127) :
    ∃ r, umul a b = some r ∧ r.toNat = a.toNat * b.toNat / 2 ^ 64 % 2 ^ 128 := by
  refine ⟨_, if_neg (not_not.mpr (mask_hi _)), ?_⟩
  have haL : a.toNat % 2 ^ 64 ≤ 2 ^ 64 - 1 := by omega
  have hbL : b.toNat % 2 ^ 64 ≤ 2 ^ 64 - 1 := by omega
  have haH : a.toNat / 2 ^ 64 ≤ 2 ^ 63 := by omega
  have hbH : b.toNat / 2 ^ 64 ≤ 2 ^ 63 := by omega
  have hlo := Nat.mul_le_mul haL hbL
  have hmid1 := Nat.mul_le_mul haL hbH
  have hmid2 := Nat.mul_le_mul haH hbL
  have hhi := Nat.mul_le_mul haH hbH
  have hall := mul_halves a.toNat b.toNat
  have haH' : a.toNat / 2 ^ 64 % 2 ^ 64 = a.toNat / 2 ^ 64 := by omega
  have hbH' : b.toNat / 2 ^ 64 % 2 ^ 64 = b.toNat / 2 ^ 64 := by omega
  simp only [BitVec.toNat_add, toNat_shiftLeft, toNat_high, mask_lo, BitVec.toNat_mul, haH', hbH']
  generalize a.toNat % 2 ^ 64 * (b.toNat % 2 ^ 64) = lo at *
  generalize a.toNat % 2 ^ 64 * (b.toNat / 2 ^ 64) = mid1 at *
  generalize a.toNat / 2 ^ 64 * (b.toNat % 2 ^ 64) = mid2 at *
  generalize a.toNat / 2 ^ 64 * (b.toNat / 2 ^ 64) = hi at *
  rw [hall]
  omega

/-- The product over the integers, cut off behind the last place. -/
def product (a b : Int64x64) : ℤ :=
  a.raw.sign * b.raw.sign * (a.raw.natAbs * b.raw.natAbs / 2 ^ 64 : ℕ)

/-- The sign of a product or of a quotient, for a magnitude that vanishes with the operands. -/
theorem sign_mul_sign (a o : Int64x64) {m : ℕ} (ha : a.raw = 0 → m = 0) (ho : o.raw = 0 → m = 0) :
    a.raw.sign * o.raw.sign * (m : ℤ) = if (outputSign a.v o.v).1 then -(m : ℤ) else m := by
  have hnegA : a.v.slt 0 = decide (a.raw < 0) := Bool.eq_iff_iff.mpr ((slt_zero a.v).trans decide_eq_true_iff.symm)
  have hnegO : o.v.slt 0 = decide (o.raw < 0) := Bool.eq_iff_iff.mpr ((slt_zero o.v).trans decide_eq_true_iff.symm)
  rw [outputSign, hnegA, hnegO]
  dsimp only
  obtain ha0 | ha0 | ha0 := Int.lt_trichotomy a.raw 0
  · obtain ho0 | ho0 | ho0 := Int.lt_trichotomy o.raw 0
    · simp [Int.sign_eq_neg_one_of_neg ha0, Int.sign_eq_neg_one_of_neg ho0, ha0, ho0]
    · simp [ho ho0]
    · simp [Int.sign_eq_neg_one_of_neg ha0, Int.sign_eq_one_of_pos ho0, ha0, Int.not_lt.mpr (Int.le_of_lt ho0)]
  · simp [ha ha0]
  · obtain ho0 | ho0 | ho0 := Int.lt_trichotomy o.raw 0
    · simp [Int.sign_eq_one_of_pos ha0, Int.sign_eq_neg_one_of_neg ho0, ho0, Int.not_lt.mpr (Int.le_of_lt ha0)]
    · simp [ho ho0]
    · simp [Int.sign_eq_one_of_pos ha0, Int.sign_eq_one_of_pos ho0, Int.not_lt.mpr (Int.le_of_lt ha0),
        Int.not_lt.mpr (Int.le_of_lt ho0)]

/-- A word with the sign of the result. -/
theorem toNat_signed (negative : Bool) {r : BitVec 128} {m : ℕ} (hr : r.toNat = m % 2 ^ 128) :
    ((if negative then -r else r).toNat : ℤ) % 2 ^ 128 = (if negative then -(m : ℤ) else m) % 2 ^ 128 := by
  cases negative with
  | false =>
    show (r.toNat : ℤ) % _ = (m : ℤ) % _
    omega
  | true =>
    show ((-r).toNat : ℤ) % _ = -(m : ℤ) % _
    rw [BitVec.toNat_neg]
    omega

/-- A product aborts or is exact exactly when it fits the word: the test for an overflow never holds. -/
theorem mul_exact_iff (a o : Int64x64) :
    (a.mul o = none ∨ ∃ r, a.mul o = some r ∧ r.raw = product a o) ↔
      -2 ^ 127 ≤ product a o ∧ product a o < 2 ^ 127 := by
  obtain ⟨r, hmul, hr⟩ := umul_eq
    (show (outputSign a.v o.v).2.1.toNat ≤ 2 ^ 127 from (toNat_magnitude a.v).trans_le (natAbs_le a.v))
    (show (outputSign a.v o.v).2.2.toNat ≤ 2 ^ 127 from (toNat_magnitude o.v).trans_le (natAbs_le o.v))
  have hsome : a.mul o = some ⟨if (outputSign a.v o.v).1 then -r else r⟩ := congrArg (Option.map _) hmul
  have hmag : r.toNat = a.raw.natAbs * o.raw.natAbs / 2 ^ 64 % 2 ^ 128 := by
    rw [hr, show (outputSign a.v o.v).2.1.toNat = _ from toNat_magnitude a.v,
      show (outputSign a.v o.v).2.2.toNat = _ from toNat_magnitude o.v]
    rfl
  have hsign : product a o = _ := sign_mul_sign a o (fun h => by rw [h]; simp) (fun h => by rw [h]; simp)
  have hfits := toInt_eq_iff (toNat_signed (outputSign a.v o.v).1 hmag)
  rw [← hsign] at hfits
  rw [← hfits, hsome]
  simp only [reduceCtorEq, false_or, Option.some.injEq, exists_eq_left', raw]

/-- 2^32 times 2^32 is returned as 0. -/
theorem not_mul_exact_high :
    mul ⟨1#128 <<< 96⟩ ⟨1#128 <<< 96⟩ = some ⟨0⟩ ∧ product ⟨1#128 <<< 96⟩ ⟨1#128 <<< 96⟩ = 2 ^ 128 ∧
      ¬(mul ⟨1#128 <<< 96⟩ ⟨1#128 <<< 96⟩ = none ∨ ∃ r, mul ⟨1#128 <<< 96⟩ ⟨1#128 <<< 96⟩ = some r ∧
        r.raw = product ⟨1#128 <<< 96⟩ ⟨1#128 <<< 96⟩) := by
  have hmul : mul ⟨1#128 <<< 96⟩ ⟨1#128 <<< 96⟩ = some ⟨0⟩ := by decide +kernel
  have hproduct : product ⟨1#128 <<< 96⟩ ⟨1#128 <<< 96⟩ = 2 ^ 128 := by decide +kernel
  refine ⟨hmul, hproduct, ?_⟩
  rw [hmul, hproduct]
  rintro (h | ⟨r, hr, hraw⟩)
  · cases h
  · rw [← Option.some.inj hr] at hraw
    exact absurd hraw (by decide)

end Int64x64

end Ns3.Core
