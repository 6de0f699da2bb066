import Ns3.Core.Int64x64
import Ns3.Lib.LongDivision
import Ns3.Lib.Loop

/-!
# Fixed point division

`Udiv` divides the remainder by the divisor as often as it takes to have 64 fraction bits. Before each
division it doubles the remainder up to the top bit of the word and halves the divisor, one fraction bit
for each. Source: `src/core/model/int64x64-128.cc`.
-/

namespace Ns3.Core.Int64x64

open Ns3.Lib

def HP128_MASK_HI_BIT : BitVec 128 := 1#128 <<< 127

def DIGITS : ℕ := 64

/-- The variables of `Udiv`. -/
structure Division where
  rem : BitVec 128
  den : BitVec 128
  result : BitVec 128
  digis : ℕ := 0
  shift : ℕ := 0
  deriving DecidableEq, Repr

namespace Division

/-- Trailing zeros of the divisor are skipped, at most `more` of them. -/
def skipTrailing : ℕ → Division → Division
  | 0, s => s
  | more + 1, s =>
    if s.den &&& 1 = 0 then skipTrailing more { s with shift := s.shift + 1, den := s.den >>> 1 } else s

/-- Leading zeros of the remainder are skipped, at most `more` of them. -/
def skipLeading : ℕ → Division → Division
  | 0, s => s
  | more + 1, s =>
    if s.rem &&& HP128_MASK_HI_BIT = 0 then
      skipLeading more { s with shift := s.shift + 1, rem := s.rem <<< 1 }
    else s

/-- Bits of the divisor are cast off, at most `more` of them. -/
def castOff : ℕ → Division → Division
  | 0, s => s
  | more + 1, s =>
    if s.den &&& 1 = 0 ∨ s.rem < s.den then castOff more { s with shift := s.shift + 1, den := s.den >>> 1 }
    else s

def divide (s : Division) : Division :=
  { s with
    rem := s.rem % s.den
    result := (s.result <<< s.shift) + s.rem / s.den
    digis := s.digis + s.shift
    shift := 0 }

/-- One turn of the outer loop. -/
def round (s : Division) : Turn Division Division :=
  if s.digis < DIGITS ∧ s.rem ≠ 0 then
    let s := skipLeading (DIGITS - (s.digis + s.shift)) s
    let s := castOff (DIGITS - (s.digis + s.shift)) s
    .again s.divide
  else .leave s

def start (a b : BitVec 128) : Division :=
  skipTrailing DIGITS { rem := a % b, den := b, result := a / b }

/-- When it has run out of remainder. -/
def finish (s : Division) : Division :=
  if s.digis < DIGITS then
    { s with shift := DIGITS - s.digis, result := s.result <<< (DIGITS - s.digis) }
  else s

end Division

/-- `Udiv`, its loop cut off after `limit` turns. -/
def udiv (limit : ℕ) (a b : BitVec 128) : Option Division :=
  (turns Division.round limit (Division.start a b)).map Division.finish

def div (limit : ℕ) (a o : Int64x64) : Option Int64x64 :=
  let (negative, ua, ub) := outputSign a.v o.v
  (udiv limit ua ub).map fun s => ⟨if negative then -s.result else s.result⟩

namespace Division

/-- The division over the integers that the variables stand for, with a divisor that a remainder with
the top bit is not below. -/
structure Stands (a b : ℕ) (s : Division) : Prop where
  long : LongDivision a b s.result.toNat s.rem.toNat s.den.toNat s.digis s.shift
  due : s.digis + s.shift ≤ 64

variable {a b : ℕ} {s : Division}

theorem and_one_eq_zero (x : BitVec 128) : x &&& 1 = 0 ↔ x.toNat % 2 = 0 := by
  rw [← BitVec.toNat_inj, BitVec.toNat_and]
  show x.toNat &&& 1 = 0 ↔ _
  rw [Nat.and_one_is_mod]

theorem toNat_halve {x : BitVec 128} (h : x.toNat % 2 = 0) : x.toNat = 2 * (x >>> 1).toNat := by
  rw [BitVec.toNat_ushiftRight, Nat.shiftRight_eq_div_pow]
  omega

theorem and_hi_eq_zero (x : BitVec 128) : x &&& HP128_MASK_HI_BIT = 0 ↔ x.toNat < 2 ^ 127 := by
  have hbit : x &&& HP128_MASK_HI_BIT = 0 ↔ x.msb = false := by
    rw [show HP128_MASK_HI_BIT = BitVec.twoPow 128 127 from rfl, BitVec.and_twoPow, BitVec.msb_eq_getLsbD_last]
    split <;> simp_all
  rw [hbit, BitVec.msb_eq_false_iff_two_mul_lt]
  omega

theorem toNat_double {x : BitVec 128} (h : x.toNat < 2 ^ 127) : (x <<< 1).toNat = 2 * x.toNat := by
  rw [toNat_shiftLeft]
  omega

theorem Stands.skipTrailing (h : Stands a b s) (more : ℕ) (hmore : s.digis + s.shift + more ≤ 64) :
    Stands a b (skipTrailing more s) := by
  induction more generalizing s with
  | zero => exact h
  | succ more ih =>
    unfold Division.skipTrailing
    split
    · next heven =>
      have hden := toNat_halve ((and_one_eq_zero s.den).mp heven)
      refine ih ⟨?_, show s.digis + (s.shift + 1) ≤ 64 by omega⟩
        (show s.digis + (s.shift + 1) + more ≤ 64 by omega)
      exact (show LongDivision a b _ _ (2 * _) _ _ from hden ▸ h.long).halve_den
    · exact h

/-- Leading zeros are skipped until no digit is missing or the top bit is set. -/
theorem Stands.skipLeading (h : Stands a b s) (more : ℕ) (hmore : s.digis + s.shift + more ≤ 64) :
    Stands a b (skipLeading more s) ∧ (skipLeading more s).digis = s.digis ∧
      s.shift ≤ (skipLeading more s).shift ∧
      ((skipLeading more s).shift = s.shift + more ∨ 2 ^ 127 ≤ (skipLeading more s).rem.toNat) := by
  induction more generalizing s with
  | zero => exact ⟨h, rfl, Nat.le_refl _, .inl rfl⟩
  | succ more ih =>
    unfold Division.skipLeading
    split
    · next hlead =>
      have hrem := toNat_double ((and_hi_eq_zero s.rem).mp hlead)
      obtain ⟨hs, hdigis, hle, hend⟩ := ih (s := { s with shift := s.shift + 1, rem := s.rem <<< 1 })
        ⟨hrem ▸ h.long.double_rem, show s.digis + (s.shift + 1) ≤ 64 by omega⟩
        (show s.digis + (s.shift + 1) + more ≤ 64 by omega)
      refine ⟨hs, hdigis, Nat.le_of_succ_le hle, hend.imp_left fun hend => ?_⟩
      rw [hend]
      show s.shift + 1 + more = _
      omega
    · next hlead =>
      exact ⟨h, rfl, Nat.le_refl _, .inr (Nat.le_of_not_lt fun hlt => hlead ((and_hi_eq_zero s.rem).mpr hlt))⟩

/-- Only zeros are cast off: a remainder with the top bit is not below the divisor. -/
theorem Stands.castOff (h : Stands a b s) (hb : b ≤ 2 ^ 127) (more : ℕ) (hmore : s.digis + s.shift + more ≤ 64)
    (hrem : more = 0 ∨ 2 ^ 127 ≤ s.rem.toNat) :
    Stands a b (castOff more s) ∧ (castOff more s).digis = s.digis ∧ s.shift ≤ (castOff more s).shift := by
  induction more generalizing s with
  | zero => exact ⟨h, rfl, Nat.le_refl _⟩
  | succ more ih =>
    have htop : 2 ^ 127 ≤ s.rem.toNat := hrem.resolve_left (Nat.succ_ne_zero more)
    have hnot : ¬s.rem < s.den := by
      intro hlt
      have hlt' := BitVec.lt_def.mp hlt
      have hle := h.long.den_le
      omega
    unfold Division.castOff
    split
    · next hcast =>
      have heven := hcast.resolve_right hnot
      have hden := toNat_halve ((and_one_eq_zero s.den).mp heven)
      obtain ⟨hs, hdigis, hle⟩ := ih (s := { s with shift := s.shift + 1, den := s.den >>> 1 })
        ⟨(show LongDivision a b _ _ (2 * _) _ _ from hden ▸ h.long).halve_den,
          show s.digis + (s.shift + 1) ≤ 64 by omega⟩
        (show s.digis + (s.shift + 1) + more ≤ 64 by omega) (.inr htop)
      exact ⟨hs, hdigis, Nat.le_of_succ_le hle⟩
    · exact ⟨h, rfl, Nat.le_refl _⟩

/-- The word has room for the digits of a quotient that fits. -/
theorem Stands.divide (h : Stands a b s) (hb : 0 < b) (hfit : a * 2 ^ 64 < 2 ^ 128 * b) :
    Stands a b s.divide := by
  have hlong := h.long.divide (h.long.den_pos hb)
  have hroom : s.result.toNat * 2 ^ s.shift + s.rem.toNat / s.den.toNat < 2 ^ 128 := by
    rw [hlong.digits_eq hb, Nat.div_lt_iff_lt_mul hb]
    exact Nat.lt_of_le_of_lt (Nat.mul_le_mul_left a (Nat.pow_le_pow_right (by decide) h.due)) hfit
  have hresult : s.divide.result.toNat = s.result.toNat * 2 ^ s.shift + s.rem.toNat / s.den.toNat := by
    show ((s.result <<< s.shift) + s.rem / s.den).toNat = _
    rw [BitVec.toNat_add, toNat_shiftLeft, BitVec.toNat_udiv, Nat.mod_add_mod, Nat.mod_eq_of_lt hroom]
  refine ⟨?_, h.due⟩
  rw [hresult, show s.divide.rem.toNat = s.rem.toNat % s.den.toNat from BitVec.toNat_umod]
  exact hlong

/-- A round produces at least one digit. -/
theorem Stands.round (h : Stands a b s) (hb : 0 < b) (hb' : b ≤ 2 ^ 127) (hfit : a * 2 ^ 64 < 2 ^ 128 * b)
    {s' : Division} (hround : s.round = .again s') : Stands a b s' ∧ 64 - s'.digis < 64 - s.digis := by
  unfold Division.round at hround
  split at hround
  · next hmore =>
    have hdigis : s.digis < 64 := hmore.1
    have hdue := h.due
    have hdigits : DIGITS = 64 := rfl
    obtain ⟨hlead, hdigis1, hle1, hend⟩ := h.skipLeading (DIGITS - (s.digis + s.shift)) (by omega)
    have hdue1 := hlead.due
    have hlt1 := hlead.long.rem_lt
    have hden1 := hlead.long.den_le
    dsimp only at hround
    generalize Division.skipLeading (DIGITS - (s.digis + s.shift)) s = s1 at *
    -- with no digit due the remainder is below the divisor
    have hshift1 : 0 < s1.shift := by
      refine Nat.pos_of_ne_zero fun hzero => ?_
      rw [hzero, Nat.pow_zero, Nat.mul_one] at hlt1
      omega
    obtain ⟨hcast, hdigis2, hle2⟩ := hlead.castOff hb' (DIGITS - (s1.digis + s1.shift))
      (by omega) (by omega)
    cases hround
    refine ⟨hcast.divide hb hfit, ?_⟩
    show 64 - (_ + _) < _
    omega
  · cases hround

theorem Stands.start {a b : BitVec 128} (hb : 0 < b.toNat) : Stands a.toNat b.toNat (start a b) := by
  refine Stands.skipTrailing (s := { rem := a % b, den := b, result := a / b }) ⟨?_, Nat.zero_le 64⟩
    _ (Nat.le_refl 64)
  show LongDivision _ _ (a / b).toNat (a % b).toNat _ _ _
  rw [BitVec.toNat_udiv, BitVec.toNat_umod]
  exact LongDivision.start a.toNat hb

/-- What is left when the loop ends are digits that are zeros. -/
theorem Stands.finish (h : Stands a b s) (hb : 0 < b) (hfit : a * 2 ^ 64 < 2 ^ 128 * b) {t : Division}
    (hround : s.round = .leave t) :
    t.finish.result.toNat = a * 2 ^ 64 / b ∧ t.finish.digis + t.finish.shift = 64 := by
  have hdue := h.due
  unfold Division.round at hround
  split at hround
  · cases hround
  · next hend =>
    cases hround
    unfold Division.finish
    split
    · next hmore =>
      have hrem : s.rem = 0 := not_not.mp fun hrem => hend ⟨hmore, hrem⟩
      have hdigits : s.digis + (DIGITS - s.digis) = 64 := Nat.add_sub_of_le (Nat.le_of_lt hmore)
      have hpad := (show LongDivision a b _ 0 _ _ _ from hrem ▸ h.long).pad hb (DIGITS - s.digis)
      rw [hdigits] at hpad
      refine ⟨?_, hdigits⟩
      show (s.result <<< (DIGITS - s.digis)).toNat = _
      rw [toNat_shiftLeft, hpad]
      exact Nat.mod_eq_of_lt ((Nat.div_lt_iff_lt_mul hb).mpr hfit)
    · next hmore =>
      have hdigits : DIGITS = 64 := rfl
      have hshift : s.shift = 0 := by omega
      have hdigis : s.digis = 64 := by omega
      have hlong := h.long
      rw [hshift, hdigis] at hlong
      exact ⟨hlong.digits_eq hb, by rw [hshift, hdigis]⟩

end Division

/-- `Udiv` is exact to 64 fraction bits, where the quotient fits the word. -/
theorem udiv_eq {a b : BitVec 128} (hb : 0 < b.toNat) (hb' : b.toNat ≤ 2 ^ 127)
    (hfit : a.toNat * 2 ^ 64 < 2 ^ 128 * b.toNat) {limit : ℕ} (hlimit : 64 < limit) :
    ∃ s, udiv limit a b = some s ∧ s.result.toNat = a.toNat * 2 ^ 64 / b.toNat ∧ s.digis + s.shift = 64 := by
  have hagain : ∀ s s', Division.Stands a.toNat b.toNat s → s.round = .again s' →
      Division.Stands a.toNat b.toNat s' ∧ 64 - s'.digis < 64 - s.digis :=
    fun s s' hs hround => hs.round hb hb' hfit hround
  have hstart := Division.Stands.start (a := a) hb
  obtain ⟨t, ht⟩ := turns_of_measure Division.round (fun s => 64 - s.digis) hagain hstart
    (Nat.lt_of_le_of_lt (Nat.sub_le _ _) hlimit)
  refine ⟨t.finish, congrArg (Option.map _) ht, ?_⟩
  exact turns_of_invariant (J := fun t => t.finish.result.toNat = _ ∧ t.finish.digis + t.finish.shift = 64)
    (fun s s' hs hround => (hagain s s' hs hround).1) (fun s t hs hround => hs.finish hb hfit hround) hstart ht

/-- The quotient over the integers, cut off behind the last place. -/
def quotient (a b : Int64x64) : ℤ :=
  a.raw.sign * b.raw.sign * (a.raw.natAbs * 2 ^ 64 / b.raw.natAbs : ℕ)

/-- A division is exact: the loop ends with 64 fraction bits, however often it may turn from 65 times on. -/
theorem div_exact (a b : Int64x64) (hb : b.v ≠ 0) (hfit : a.raw.natAbs < 2 ^ 63 * b.raw.natAbs) (limit : ℕ)
    (hlimit : 64 < limit) :
    (∃ r, div limit a b = some r ∧ r.raw = quotient a b) ∧
      ∃ s, udiv limit (outputSign a.v b.v).2.1 (outputSign a.v b.v).2.2 = some s ∧ s.digis + s.shift = 64 := by
  have ha : (outputSign a.v b.v).2.1.toNat = a.raw.natAbs := toNat_magnitude a.v
  have hmag : (outputSign a.v b.v).2.2.toNat = b.raw.natAbs := toNat_magnitude b.v
  have hraw : b.raw ≠ 0 := fun h => hb (BitVec.toInt_inj.mp h)
  have hpos : 0 < b.raw.natAbs := Int.natAbs_pos.mpr hraw
  obtain ⟨s, hs, hresult, hdigits⟩ := udiv_eq (a := (outputSign a.v b.v).2.1) (b := (outputSign a.v b.v).2.2)
    (by omega) (hmag.trans_le (natAbs_le b.v)) (by omega) hlimit
  rw [ha, hmag] at hresult
  have hlt : a.raw.natAbs * 2 ^ 64 / b.raw.natAbs < 2 ^ 127 := (Nat.div_lt_iff_lt_mul hpos).mpr (by omega)
  refine ⟨⟨⟨if (outputSign a.v b.v).1 then -s.result else s.result⟩, congrArg (Option.map _) hs, ?_⟩,
    s, hs, hdigits⟩
  have hsign : quotient a b = _ := sign_mul_sign a b (fun h => by rw [h]; simp) (fun h => absurd h hraw)
  rw [hsign]
  refine (toInt_eq_iff (toNat_signed (outputSign a.v b.v).1 ?_)).mpr ?_
  · rw [hresult, Nat.mod_eq_of_lt (by omega)]
  · split <;> omega

/-- -7 by 2 is -3.5. -/
theorem div_exact_half :
    (∃ r, div 65 ⟨-(7#128 <<< 64)⟩ ⟨2#128 <<< 64⟩ = some r ∧
        r.raw = quotient ⟨-(7#128 <<< 64)⟩ ⟨2#128 <<< 64⟩) ∧
      ∃ s, udiv 65 (outputSign (-(7#128 <<< 64)) (2#128 <<< 64)).2.1
        (outputSign (-(7#128 <<< 64)) (2#128 <<< 64)).2.2 = some s ∧ s.digis + s.shift = 64 :=
  div_exact ⟨-(7#128 <<< 64)⟩ ⟨2#128 <<< 64⟩ (by decide) (by decide +kernel) 65 (by decide)

end Ns3.Core.Int64x64
