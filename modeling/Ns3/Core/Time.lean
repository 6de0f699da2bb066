import Mathlib.Algebra.Order.Field.Rat
import Ns3.Core.Inverse

/-!
# Times

A `Time` counts the current resolution. What converts it to another unit is set up for each resolution
by `SetResolution`, whose doubles are exact. Source: `src/core/model/nstime.h`, `time.cc`.
-/

namespace Ns3.Core

open Ns3.Lib

/-- `Time::Unit`. -/
inductive TimeUnit where
  | Y
  | D
  | H
  | MIN
  | S
  | MS
  | US
  | NS
  | PS
  | FS
  deriving DecidableEq, Repr

/-- `UNIT_POWER`. -/
def TimeUnit.power : TimeUnit → ℤ
  | .Y => 17
  | .D => 17
  | .H => 17
  | .MIN => 16
  | .S => 15
  | .MS => 12
  | .US => 9
  | .NS => 6
  | .PS => 3
  | .FS => 0

/-- `UNIT_COEFF`. -/
def TimeUnit.coeff : TimeUnit → ℕ
  | .Y => 315360
  | .D => 864
  | .H => 36
  | .MIN => 6
  | _ => 1

/-- How to convert between a unit and the current one. -/
structure Information where
  toMul : Bool
  fromMul : Bool
  factor : BitVec 64
  timeTo : Int64x64
  timeFrom : Int64x64

/-- A real without a fractional part converted to `int64_t`, which is undefined outside its range. -/
def realToInt64 (x : ℕ) : Option (BitVec 64) := if x < 2 ^ 63 then some (BitVec.ofNat 64 x) else none

/-- What `SetResolution` notes for a unit `i`. -/
def setResolution (limit : ℕ) (unit i : TimeUnit) : Option Information := do
  let shift := i.power - unit.power
  let quotient :=
    if i.coeff > unit.coeff then i.coeff / unit.coeff
    else if i.coeff < unit.coeff then unit.coeff / i.coeff
    else 1
  let factor ← realToInt64 (10 ^ shift.natAbs * quotient)
  let realFactor : ℚ := 10 ^ shift * i.coeff / unit.coeff
  if shift = 0 ∧ quotient = 1 then
    return ⟨true, true, factor, Int64x64.ofInt64 1, Int64x64.ofInt64 1⟩
  else if realFactor > 1 then
    let inverse ← Int64x64.invert limit factor
    return ⟨false, true, factor, inverse, Int64x64.ofInt64 factor⟩
  else
    let inverse ← Int64x64.invert limit factor
    return ⟨true, false, factor, Int64x64.ofInt64 factor, inverse⟩

structure Time where
  m_data : BitVec 64

namespace Time

def toInteger (t : Time) (info : Information) : BitVec 64 :=
  if info.toMul then t.m_data * info.factor else t.m_data.sdiv info.factor

/-- `To`. A product may abort. -/
def toUnit (t : Time) (info : Information) : Option Int64x64 :=
  let retval := Int64x64.ofInt64 t.m_data
  if info.toMul then retval.mul info.timeTo else some (retval.mulByInvert info.timeTo)

end Time

theorem TimeUnit.coeff_pos (u : TimeUnit) : 0 < u.coeff := by
  cases u <;> decide

theorem realToInt64_eq_some {x : ℕ} {f : BitVec 64} (h : realToInt64 x = some f) : f.toNat = x ∧ x < 2 ^ 63 := by
  unfold realToInt64 at h
  split at h
  · next hx =>
    rw [← Option.some.inj h, BitVec.toNat_ofNat]
    omega
  · cases h

/-- A factor of 1 is that of the resolution itself. -/
theorem one_lt_factor {shift : ℤ} {quotient : ℕ} (hpos : 0 < quotient) (h : ¬(shift = 0 ∧ quotient = 1)) :
    1 < 10 ^ shift.natAbs * quotient := by
  by_cases hshift : shift = 0
  · have hquotient : quotient ≠ 1 := fun hone => h ⟨hshift, hone⟩
    rw [hshift, Int.natAbs_zero, Nat.pow_zero, Nat.one_mul]
    omega
  · have hpow : 10 ≤ 10 ^ shift.natAbs := Nat.le_self_pow (Int.natAbs_ne_zero.mpr hshift) 10
    exact Nat.lt_of_lt_of_le (by omega) (Nat.le_mul_of_pos_right _ hpos)

/-- A unit that is converted by division has a factor above 1, and the inverse of it. -/
theorem setResolution_inverse {limit : ℕ} {unit i : TimeUnit} {info : Information}
    (h : setResolution limit unit i = some info) (hdiv : info.toMul = false) :
    1 < info.factor.toNat ∧ info.factor.toNat < 2 ^ 63 ∧
      Int64x64.invert limit info.factor = some info.timeTo := by
  have hpos : 0 < if i.coeff > unit.coeff then i.coeff / unit.coeff
      else if i.coeff < unit.coeff then unit.coeff / i.coeff else 1 := by
    split
    · next hgt => exact Nat.div_pos hgt.le unit.coeff_pos
    · split
      · next hlt => exact Nat.div_pos hlt.le i.coeff_pos
      · exact Nat.one_pos
  unfold setResolution at h
  dsimp only at h
  generalize (if i.coeff > unit.coeff then i.coeff / unit.coeff
    else if i.coeff < unit.coeff then unit.coeff / i.coeff else 1) = quotient at h hpos
  obtain ⟨factor, hfactor, h⟩ := Option.bind_eq_some_iff.mp h
  obtain ⟨hvalue, hlt⟩ := realToInt64_eq_some hfactor
  split at h
  · cases h
    cases hdiv
  · next hother =>
    have hone := one_lt_factor hpos hother
    split at h
    · obtain ⟨inverse, hinverse, h⟩ := Option.bind_eq_some_iff.mp h
      cases h
      exact ⟨hone.trans_eq hvalue.symm, hvalue.trans_lt hlt, hinverse⟩
    · obtain ⟨inverse, hinverse, h⟩ := Option.bind_eq_some_iff.mp h
      cases h
      cases hdiv

theorem toNat_of_toInt {t : BitVec 64} (ht : 0 ≤ t.toInt) : t.toNat < 2 ^ 63 ∧ t.toInt = t.toNat := by
  have hlt := t.isLt
  have hint := BitVec.toInt_eq_toNat_cond t
  split at hint <;> omega

/-- Truncating division of a time that is not negative. -/
theorem Time.toInteger_toNat {t : Time} {info : Information} (hdiv : info.toMul = false)
    (ht : t.m_data.toNat < 2 ^ 63) (hfactor : info.factor.toNat < 2 ^ 63) :
    (t.toInteger info).toNat = t.m_data.toNat / info.factor.toNat := by
  have hmsb : t.m_data.msb = false := BitVec.msb_eq_false_iff_two_mul_lt.mpr (by omega)
  have hmsb' : info.factor.msb = false := BitVec.msb_eq_false_iff_two_mul_lt.mpr (by omega)
  rw [toInteger, if_neg (by rw [hdiv]; decide), BitVec.sdiv_eq, hmsb, hmsb']
  exact BitVec.toNat_udiv

namespace Int64x64

/-- Dividing by way of the inverse is dividing: exactly for integers and for times in any unit, and to
the last place for all that is not negative. -/
theorem inverse_division (limit : ℕ) (hlimit : 64 < limit) :
    (∀ v : BitVec 64, 1 < v.toNat → v.toNat < 2 ^ 63 → ∃ inv, invert limit v = some inv ∧
      (∀ t : BitVec 64, 0 ≤ t.toInt → ((ofInt64 t).mulByInvert inv).getInt.toInt = t.toInt / v.toNat) ∧
      ∀ a : Int64x64, 0 ≤ a.raw → |(a.mulByInvert inv).raw - a.raw / v.toNat| ≤ 1) ∧
    ∀ (unit i : TimeUnit) (info : Information), setResolution limit unit i = some info → info.toMul = false →
      ∀ t : Time, 0 ≤ t.m_data.toInt → (t.toUnit info).map getInt = some (t.toInteger info) := by
  constructor
  · intro v hv hv'
    obtain ⟨inv, hinvert, hinv, hreciprocal⟩ := invert_eq hlimit hv hv'
    refine ⟨inv, hinvert, fun t ht => ?_, fun a ha => raw_mulByInvert hinv hreciprocal hv ha⟩
    obtain ⟨hlt, hint⟩ := toNat_of_toInt ht
    have hresult := getInt_mulByInvert hinv hreciprocal hv' hlt
    have hle : t.toNat / v.toNat ≤ t.toNat := Nat.div_le_self _ _
    rw [BitVec.toInt_eq_toNat_of_lt (by omega), hresult, hint, Int.natCast_ediv]
  · intro unit i info hinfo hdiv t ht
    obtain ⟨hv, hv', hinvert⟩ := setResolution_inverse hinfo hdiv
    obtain ⟨inv, hinvert', hinv, hreciprocal⟩ := invert_eq hlimit hv hv'
    have hinverse : info.timeTo = inv := Option.some.inj (hinvert.symm.trans hinvert')
    obtain ⟨hlt, -⟩ := toNat_of_toInt ht
    rw [Time.toUnit, if_neg (by rw [hdiv]; decide), hinverse]
    refine congrArg some (BitVec.eq_of_toNat_eq ?_)
    rw [getInt_mulByInvert hinv hreciprocal hv' hlt, Time.toInteger_toNat hdiv hlt hv']

/-- 1999999999 nanoseconds are 1 second. -/
theorem inverse_division_second :
    (∃ inv, invert 65 1000000000 = some inv ∧
      ((ofInt64 1999999999).mulByInvert inv).getInt.toInt =
        (1999999999 : BitVec 64).toInt / (1000000000 : BitVec 64).toNat ∧
      |(mulByInvert ⟨7⟩ inv).raw - raw ⟨7⟩ / (1000000000 : BitVec 64).toNat| ≤ 1) ∧
    ∃ info, setResolution 65 .NS .S = some info ∧ info.toMul = false ∧
      (Time.toUnit ⟨1999999999⟩ info).map getInt = some (Time.toInteger ⟨1999999999⟩ info) := by
  obtain ⟨hinteger, hunit⟩ := inverse_division 65 (by decide)
  obtain ⟨inv, hinv, ht, ha⟩ := hinteger 1000000000 (by decide) (by decide)
  obtain ⟨info, hinfo, hdiv⟩ : ∃ info, setResolution 65 .NS .S = some info ∧ info.toMul = false :=
    Option.map_eq_some_iff.mp
      (show (setResolution 65 .NS .S).map Information.toMul = some false by decide +kernel)
  exact ⟨⟨inv, hinv, ht 1999999999 (by decide), ha ⟨7⟩ (by decide)⟩, info, hinfo, hdiv,
    hunit .NS .S info hinfo hdiv ⟨1999999999⟩ (by decide)⟩

end Int64x64

end Ns3.Core
