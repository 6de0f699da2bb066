import Mathlib.Algebra.Order.Group.Abs
import Mathlib.Algebra.Order.Group.Int
import Ns3.Core.Udiv
import Ns3.Lib.Reciprocal

/-!
# Multiplication by an inverse

`Invert` divides 1 by an integer to 128 fraction bits and adds one in the last place unless the product
with the integer is 1. `MulByInvert` multiplies by the result and leaves out the lowest of the partial
products. Source: `src/core/model/int64x64-128.cc`, `int64x64-128.h`.
-/

namespace Ns3.Core.Int64x64

open Ns3.Lib

/-- An `int64_t` as a fixed point number. -/
def ofInt64 (v : BitVec 64) : Int64x64 := ⟨v.signExtend 128 <<< 64⟩

/-- From explicit high and low values. -/
def ofHighLow (hi lo : BitVec 64) : Int64x64 := ⟨(hi.signExtend 128 <<< 64) ||| lo.setWidth 128⟩

def getHigh (a : Int64x64) : BitVec 64 := (a.v.sshiftRight 64).setWidth 64

/-- Truncated toward zero. -/
def getInt (a : Int64x64) : BitVec 64 :=
  let negative := a.v.slt 0
  let value := if negative then -a.v else a.v
  let retval := (value >>> 64).setWidth 64
  if negative then -retval else retval

def umulByInvert (a b : BitVec 128) : BitVec 128 :=
  let ah := a >>> 64
  let bh := b >>> 64
  let al := mask a HP_MASK_LO
  let bl := mask b HP_MASK_LO
  let hi := ah * bh
  let mid := ah * bl + al * bh
  hi + (mid >>> 64)

def mulByInvert (a o : Int64x64) : Int64x64 :=
  let negResult := a.v.slt 0
  let result := umulByInvert (if negResult then -a.v else a.v) o.v
  ⟨if negResult then -result else result⟩

/-- No result is a division that is cut off after `limit` turns. -/
def invert (limit : ℕ) (v : BitVec 64) : Option Int64x64 :=
  (udiv limit (1#128 <<< 64) (v.setWidth 128)).map fun s =>
    let result : Int64x64 := ⟨s.result⟩
    let tmp := (ofHighLow v 0).mulByInvert result
    if tmp.getHigh ≠ 1 then ⟨result.v + 1⟩ else result

/-! ### Non-negative numbers -/

theorem slt_zero_of_lt {a : BitVec 128} (ha : a.toNat < 2 ^ 127) : a.slt 0 = false := by
  rw [← Bool.not_eq_true, slt_zero, BitVec.toInt_eq_toNat_of_lt (by omega)]
  omega

theorem raw_of_lt {a : Int64x64} (ha : a.v.toNat < 2 ^ 127) : a.raw = a.v.toNat :=
  BitVec.toInt_eq_toNat_of_lt (by omega)

theorem toNat_of_raw {a : Int64x64} (ha : 0 ≤ a.raw) : a.v.toNat < 2 ^ 127 ∧ a.raw = a.v.toNat := by
  have hlt := a.v.isLt
  have hint := BitVec.toInt_eq_toNat_cond a.v
  have hraw : a.raw = a.v.toInt := rfl
  split at hint <;> omega

theorem toNat_ofInt64 {v : BitVec 64} (hv : v.toNat < 2 ^ 63) : (ofInt64 v).v.toNat = v.toNat * 2 ^ 64 := by
  have hmsb : v.msb = false := BitVec.msb_eq_false_iff_two_mul_lt.mpr (by omega)
  show (v.signExtend 128 <<< 64).toNat = _
  rw [toNat_shiftLeft, BitVec.signExtend_eq_setWidth_of_msb_false hmsb, BitVec.toNat_setWidth]
  omega

theorem ofHighLow_zero (hi : BitVec 64) : ofHighLow hi 0 = ofInt64 hi := by
  rw [ofHighLow, ofInt64, show (0 : BitVec 64).setWidth 128 = 0#128 from rfl, BitVec.or_zero]

theorem getHigh_toNat (a : Int64x64) : a.getHigh.toNat = a.v.toNat / 2 ^ 64 := by
  have hsigned : a.getHigh = (a.v >>> 64).setWidth 64 := by
    refine BitVec.eq_of_getLsbD_eq fun i hi => ?_
    have hi' : 64 + i < 128 := by omega
    simp only [getHigh, BitVec.getLsbD_setWidth, BitVec.getLsbD_sshiftRight, BitVec.getLsbD_ushiftRight, hi', if_true]
    simp only [show ¬128 ≤ i by omega, decide_false, Bool.not_false, Bool.true_and]
  have hlt := a.v.isLt
  rw [hsigned, BitVec.toNat_setWidth, toNat_high]
  omega

theorem getInt_of_lt {a : Int64x64} (ha : a.v.toNat < 2 ^ 127) : a.getInt.toNat = a.v.toNat / 2 ^ 64 := by
  rw [getInt, slt_zero_of_lt ha]
  show ((a.v >>> 64).setWidth 64).toNat = _
  rw [BitVec.toNat_setWidth, toNat_high]
  omega

/-- The partial products but the lowest. -/
theorem umulByInvert_eq {a b : BitVec 128} (ha : a.toNat ≤ 2 ^ 127) (hb : b.toNat ≤ 2 ^ 127) :
    (umulByInvert a b).toNat = a.toNat / 2 ^ 64 * (b.toNat / 2 ^ 64) +
      (a.toNat / 2 ^ 64 * (b.toNat % 2 ^ 64) + a.toNat % 2 ^ 64 * (b.toNat / 2 ^ 64)) / 2 ^ 64 := by
  have haL : a.toNat % 2 ^ 64 ≤ 2 ^ 64 - 1 := by omega
  have hbL : b.toNat % 2 ^ 64 ≤ 2 ^ 64 - 1 := by omega
  have haH : a.toNat / 2 ^ 64 ≤ 2 ^ 63 := by omega
  have hbH : b.toNat / 2 ^ 64 ≤ 2 ^ 63 := by omega
  have hmid1 := Nat.mul_le_mul haL hbH
  have hmid2 := Nat.mul_le_mul haH hbL
  have hhi := Nat.mul_le_mul haH hbH
  rw [umulByInvert]
  simp only [BitVec.toNat_add, toNat_high, mask_lo, BitVec.toNat_mul]
  omega

/-- It is the exact product without the part below the last place, or one less. -/
theorem umulByInvert_bounds {a b : BitVec 128} (ha : a.toNat ≤ 2 ^ 127) (hb : b.toNat ≤ 2 ^ 127) :
    (umulByInvert a b).toNat ≤ a.toNat * b.toNat / 2 ^ 128 ∧
      a.toNat * b.toNat / 2 ^ 128 ≤ (umulByInvert a b).toNat + 1 := by
  have haL : a.toNat % 2 ^ 64 ≤ 2 ^ 64 - 1 := by omega
  have hbL : b.toNat % 2 ^ 64 ≤ 2 ^ 64 - 1 := by omega
  have hlo := Nat.mul_le_mul haL hbL
  rw [umulByInvert_eq ha hb, mul_halves a.toNat b.toNat]
  omega

theorem mul_div_add_mod (t b : ℕ) {B : ℕ} (hB : 0 < B) : t * (b / B) + t * (b % B) / B = t * b / B := by
  calc t * (b / B) + t * (b % B) / B = (B * (t * (b / B)) + t * (b % B)) / B := (Nat.mul_add_div hB _ _).symm
    _ = t * (B * (b / B) + b % B) / B := by
      congr 1
      ring
    _ = t * b / B := by rw [Nat.div_add_mod]

/-- The product with an integer. -/
theorem umulByInvert_ofInt64 {t : BitVec 64} (ht : t.toNat < 2 ^ 63) {b : BitVec 128} (hb : b.toNat ≤ 2 ^ 127) :
    (umulByInvert (ofInt64 t).v b).toNat = t.toNat * b.toNat / 2 ^ 64 := by
  have ha := toNat_ofInt64 ht
  have hhigh : t.toNat * 2 ^ 64 / 2 ^ 64 = t.toNat := Nat.mul_div_cancel _ (Nat.two_pow_pos 64)
  have hlow : t.toNat * 2 ^ 64 % 2 ^ 64 = 0 := Nat.mul_mod_left _ _
  rw [umulByInvert_eq (by omega) hb, ha, hhigh, hlow, Nat.zero_mul, Nat.add_zero]
  exact mul_div_add_mod t.toNat b.toNat (Nat.two_pow_pos 64)

/-- For a number that is not negative. -/
theorem mulByInvert_v {a : Int64x64} (ha : a.v.toNat < 2 ^ 127) (o : Int64x64) :
    (a.mulByInvert o).v = umulByInvert a.v o.v := by
  rw [mulByInvert, slt_zero_of_lt ha]
  rfl

/-- The inverse is rounded up. -/
theorem invert_eq {limit : ℕ} (hlimit : 64 < limit) {v : BitVec 64} (hv : 1 < v.toNat) (hv' : v.toNat < 2 ^ 63) :
    ∃ inv, invert limit v = some inv ∧ inv.v.toNat ≤ 2 ^ 127 ∧ Reciprocal (2 ^ 128) v.toNat inv.v.toNat := by
  have hwide : (v.setWidth 128).toNat = v.toNat := by
    rw [BitVec.toNat_setWidth]
    omega
  have hpos : 0 < (v.setWidth 128).toNat := by omega
  have hwide' : (v.setWidth 128).toNat ≤ 2 ^ 127 := by omega
  have hone : (1#128 <<< 64).toNat = 2 ^ 64 := by decide
  have hfit : (1#128 <<< 64).toNat * 2 ^ 64 < 2 ^ 128 * (v.setWidth 128).toNat := by
    rw [hone, hwide]
    omega
  obtain ⟨s, hs, hresult, -⟩ := udiv_eq hpos hwide' hfit hlimit
  rw [hone, hwide] at hresult
  have hfloor : s.result.toNat = 2 ^ 128 / v.toNat := hresult
  have hhalf : s.result.toNat ≤ 2 ^ 127 := by
    rw [hfloor]
    exact Nat.div_le_of_le_mul (by omega)
  have hdiv := Nat.div_add_mod (2 ^ 128) v.toNat
  have hmod := Nat.mod_lt (2 ^ 128) (Nat.zero_lt_of_lt hv)
  rw [← hfloor] at hdiv
  have htmp : ((ofHighLow v 0).mulByInvert ⟨s.result⟩).getHigh.toNat = v.toNat * s.result.toNat / 2 ^ 128 := by
    have hint := toNat_ofInt64 hv'
    rw [getHigh_toNat, ofHighLow_zero, mulByInvert_v (by omega), umulByInvert_ofInt64 hv' hhalf,
      Nat.div_div_eq_div_mul, ← Nat.pow_add]
  have hhigh : (1 : BitVec 64).toNat = 1 := rfl
  refine ⟨_, congrArg (Option.map _) hs, ?_⟩
  dsimp only
  split
  · next hnot =>
    -- the product with the integer is below 1, so something was cut off
    have hrest : 0 < 2 ^ 128 % v.toNat := by
      refine Nat.pos_of_ne_zero fun hzero => hnot (BitVec.eq_of_toNat_eq ?_)
      rw [htmp, hhigh]
      omega
    have hmore : s.result.toNat < 2 ^ 127 := by
      refine Nat.lt_of_mul_lt_mul_left (a := v.toNat) ?_
      omega
    have hsucc : (s.result + 1).toNat = s.result.toNat + 1 := by
      rw [BitVec.toNat_add, show (1 : BitVec 128).toNat = 1 from rfl]
      exact Nat.mod_eq_of_lt (by omega)
    rw [hsucc]
    exact ⟨by omega, by rw [Nat.mul_succ]; omega, by rw [Nat.mul_succ]; omega⟩
  · next hone' =>
    rw [not_not] at hone'
    rw [hone', hhigh] at htmp
    refine ⟨hhalf, ?_, ?_⟩
    · show 2 ^ 128 ≤ v.toNat * s.result.toNat
      omega
    · show v.toNat * s.result.toNat < _
      omega

/-- The integer part of an integer divided by another. -/
theorem getInt_mulByInvert {v : ℕ} {inv : Int64x64} (hinv : inv.v.toNat ≤ 2 ^ 127)
    (h : Reciprocal (2 ^ 128) v inv.v.toNat) (hv : v < 2 ^ 63) {t : BitVec 64} (ht : t.toNat < 2 ^ 63) :
    ((ofInt64 t).mulByInvert inv).getInt.toNat = t.toNat / v := by
  have hlt : (ofInt64 t).v.toNat < 2 ^ 127 := by
    rw [toNat_ofInt64 ht]
    omega
  have hproduct := umulByInvert_ofInt64 ht hinv
  have hsmall : t.toNat * inv.v.toNat ≤ 2 ^ 63 * 2 ^ 127 := Nat.mul_le_mul ht.le hinv
  have hfits : t.toNat * v ≤ 2 ^ 63 * 2 ^ 63 := Nat.mul_le_mul ht.le hv.le
  have hpos : ((ofInt64 t).mulByInvert inv).v.toNat < 2 ^ 127 := by
    rw [mulByInvert_v hlt, hproduct]
    omega
  rw [getInt_of_lt hpos, mulByInvert_v hlt, hproduct, Nat.div_div_eq_div_mul, ← Nat.pow_add]
  exact h.div_eq (hfits.trans (by decide)) (Nat.two_pow_pos _)

/-- A number divided by an integer is at most one off in the last place. -/
theorem raw_mulByInvert {v : ℕ} {inv : Int64x64} (hinv : inv.v.toNat ≤ 2 ^ 127)
    (h : Reciprocal (2 ^ 128) v inv.v.toNat) (hv : 1 < v) {a : Int64x64} (ha : 0 ≤ a.raw) :
    |(a.mulByInvert inv).raw - a.raw / v| ≤ 1 := by
  obtain ⟨hlt, hraw⟩ := toNat_of_raw ha
  obtain ⟨hupper, hlower⟩ := umulByInvert_bounds hlt.le hinv
  have hle := h.le_div_succ (a := a.v.toNat) (by omega)
  have hge := h.div_le (Nat.two_pow_pos 128) a.v.toNat
  have hhalf : a.v.toNat / v ≤ a.v.toNat / 2 := Nat.div_le_div_left hv (by decide)
  have hresult : (a.mulByInvert inv).raw = (umulByInvert a.v inv.v).toNat := by
    have hv' := mulByInvert_v hlt inv
    rw [raw_of_lt (by rw [hv']; omega), hv']
  rw [hresult, hraw, abs_le, ← Int.natCast_ediv]
  omega

end Ns3.Core.Int64x64
