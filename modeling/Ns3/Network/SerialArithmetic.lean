import Ns3.Network.SequenceNumber
import Mathlib.Data.BitVec
import Mathlib.Tactic.Ring

/-!
# Serial-number arithmetic

The template `SequenceNumber<NUMERIC_TYPE, SIGNED_TYPE>` of `src/network/utils/sequence-number.h` over any width. Both types
are words of the same width, the signed one read in two's complement. Subtraction and comparison distinguish cases on the
raw values. The first is the difference of the words in all of them; the second puts the first number ahead when that
difference is less than half the sequence space, and when it is half of it and the raw value is the smaller one.
-/

namespace Ns3.Network

/-- `SequenceNumber`, of `w` bits. -/
structure SequenceNumber (w : Nat) where
  m_value : BitVec w := 0
deriving DecidableEq, Repr

namespace SequenceNumber

variable {w : Nat} {a b : SequenceNumber w} {delta : BitVec w}

/-- `maxValue`. -/
def maxValue (w : Nat) : BitVec w := BitVec.allOnes w

/-- `halfMaxValue`. -/
def halfMaxValue (w : Nat) : BitVec w := BitVec.ofNat w ((2 ^ w - 1) / 2)

/-- `operator+ (SIGNED_TYPE delta)`. -/
def add (a : SequenceNumber w) (delta : BitVec w) : SequenceNumber w := ⟨a.m_value + delta⟩

/-- `operator-` between sequence numbers. The least signed number is its own negation. -/
def diff (a b : SequenceNumber w) : BitVec w :=
  if b.m_value < a.m_value then
    let diff := a.m_value - b.m_value
    if diff < halfMaxValue w then diff else -(maxValue w - a.m_value + 1 + b.m_value)
  else
    let diff := b.m_value - a.m_value
    if diff < halfMaxValue w then -diff else maxValue w - b.m_value + 1 + a.m_value

/-- `operator>`. -/
def gt (a b : SequenceNumber w) : Bool :=
  (b.m_value < a.m_value && a.m_value - b.m_value ≤ halfMaxValue w) ||
    (a.m_value < b.m_value && halfMaxValue w < b.m_value - a.m_value)

/-- `operator==`. -/
def eq (a b : SequenceNumber w) : Bool := a.m_value == b.m_value

/-- `operator<`. -/
def lt (a b : SequenceNumber w) : Bool := !a.gt b && a.m_value != b.m_value

/-! ### Subtraction -/

theorem maxValue_eq (w : Nat) : maxValue w = -1 := BitVec.neg_one_eq_allOnes.symm

/-- All branches of the subtraction are the difference of the words. -/
theorem diff_eq (a b : SequenceNumber w) : a.diff b = a.m_value - b.m_value := by
  unfold diff
  rw [maxValue_eq]
  by_cases hgt : b.m_value < a.m_value
  · rw [if_pos hgt]
    by_cases hnear : a.m_value - b.m_value < halfMaxValue w
    · exact if_pos hnear
    · refine (if_neg hnear).trans ?_
      ring
  · rw [if_neg hgt]
    by_cases hnear : b.m_value - a.m_value < halfMaxValue w
    · refine (if_pos hnear).trans ?_
      ring
    · refine (if_neg hnear).trans ?_
      ring

theorem add_diff (a : SequenceNumber w) (delta : BitVec w) : (a.add delta).diff a = delta := by
  rw [diff_eq]
  show a.m_value + delta - a.m_value = delta
  ring

theorem diff_add (a : SequenceNumber w) (delta : BitVec w) : a.diff (a.add delta) = -delta := by
  rw [diff_eq]
  show a.m_value - (a.m_value + delta) = -delta
  ring

/-! ### Comparison -/

/-- Half the sequence space. -/
def half (w : Nat) : Nat := 2 ^ (w - 1)

theorem two_pow_eq (hw : 0 < w) : 2 ^ w = half w + half w := by
  rw [half, ← Nat.two_mul, ← Nat.pow_succ', Nat.succ_eq_add_one, Nat.sub_add_cancel hw]

theorem half_pos (w : Nat) : 0 < half w := Nat.two_pow_pos _

theorem halfMaxValue_toNat (hw : 0 < w) : (halfMaxValue w).toNat = half w - 1 := by
  have hspace := two_pow_eq hw
  have hpos := half_pos w
  rw [halfMaxValue, BitVec.toNat_ofNat, Nat.mod_eq_of_lt (by omega), hspace]
  omega

theorem toInt_pos_iff (hw : 0 < w) (x : BitVec w) : 0 < x.toInt ↔ 0 < x.toNat ∧ x.toNat < half w := by
  have hspace := two_pow_eq hw
  have hlt := x.isLt
  rw [BitVec.toInt_eq_toNat_cond]
  split
  · omega
  · omega

theorem sub_toNat_of_lt {x y : BitVec w} (h : x.toNat < y.toNat) : (x - y).toNat = 2 ^ w - (y.toNat - x.toNat) := by
  have hy := y.isLt
  rw [BitVec.toNat_sub, Nat.mod_eq_of_lt (by omega)]
  omega

/-- The first number is ahead by less than half the space, or by half the space with the smaller value. -/
theorem gt_iff (hw : 0 < w) (a b : SequenceNumber w) :
    a.gt b = true ↔ 0 < (a.diff b).toInt ∨ (a.diff b).toNat = half w ∧ a.m_value < b.m_value := by
  have hspace := two_pow_eq hw
  have hpos := half_pos w
  have ha := a.m_value.isLt
  have hb := b.m_value.isLt
  have hmax := halfMaxValue_toNat hw
  rw [gt, Bool.or_eq_true, Bool.and_eq_true, Bool.and_eq_true, decide_eq_true_eq, decide_eq_true_eq, decide_eq_true_eq,
    decide_eq_true_eq, toInt_pos_iff hw, diff_eq, BitVec.lt_def, BitVec.lt_def, BitVec.le_def, BitVec.lt_def, hmax]
  rcases Nat.lt_trichotomy a.m_value.toNat b.m_value.toNat with hlt | heq | hgt
  · have hab := sub_toNat_of_lt hlt
    have hba : (b.m_value - a.m_value).toNat = _ := BitVec.toNat_sub_of_le (Nat.le_of_lt hlt)
    omega
  · rw [BitVec.eq_of_toNat_eq heq, BitVec.sub_self, BitVec.toNat_zero]
    omega
  · have hba := sub_toNat_of_lt hgt
    have hab : (a.m_value - b.m_value).toNat = _ := BitVec.toNat_sub_of_le (Nat.le_of_lt hgt)
    omega

theorem eq_iff (a b : SequenceNumber w) : a.eq b = true ↔ a.m_value = b.m_value := beq_iff_eq

theorem lt_iff (a b : SequenceNumber w) : a.lt b = true ↔ ¬ a.gt b = true ∧ a.m_value ≠ b.m_value := by
  rw [lt, Bool.and_eq_true, Bool.not_eq_true', bne_iff_ne, Bool.not_eq_true]

/-- Of two different numbers exactly one is ahead. -/
theorem gt_iff_not_gt (hw : 0 < w) (hne : a.m_value ≠ b.m_value) : a.gt b = true ↔ ¬ b.gt a = true := by
  have hspace := two_pow_eq hw
  have hne' : a.m_value.toNat ≠ b.m_value.toNat := fun heq => hne (BitVec.eq_of_toNat_eq heq)
  rw [gt_iff hw, gt_iff hw, toInt_pos_iff hw, toInt_pos_iff hw, diff_eq, diff_eq, BitVec.lt_def, BitVec.lt_def]
  rcases Nat.lt_or_gt_of_ne hne' with hlt | hgt
  · have hab := sub_toNat_of_lt hlt
    have hba : (b.m_value - a.m_value).toNat = _ := BitVec.toNat_sub_of_le (Nat.le_of_lt hlt)
    omega
  · have hba := sub_toNat_of_lt hgt
    have hab : (a.m_value - b.m_value).toNat = _ := BitVec.toNat_sub_of_le (Nat.le_of_lt hgt)
    omega

/-- Exactly one of the numbers is behind the other one, or they are equal. -/
def Trichotomous (a b : SequenceNumber w) : Prop :=
  (a.lt b = true ∧ ¬ a.eq b = true ∧ ¬ b.lt a = true) ∨ (¬ a.lt b = true ∧ a.eq b = true ∧ ¬ b.lt a = true) ∨
    (¬ a.lt b = true ∧ ¬ a.eq b = true ∧ b.lt a = true)

theorem trichotomous (hw : 0 < w) (a b : SequenceNumber w) : Trichotomous a b := by
  rw [Trichotomous, lt_iff, lt_iff, eq_iff]
  by_cases heq : a.m_value = b.m_value
  · exact .inr (.inl ⟨fun h => h.2 heq, heq, fun h => h.2 heq.symm⟩)
  · have hgt := gt_iff_not_gt hw heq
    by_cases hab : a.gt b = true
    · exact .inr (.inr ⟨fun h => h.1 hab, heq, hgt.mp hab, Ne.symm heq⟩)
    · exact .inl ⟨⟨hab, heq⟩, heq, fun h => hab (hgt.mpr h.1)⟩

/-- A number that is increased is ahead, and the difference is what it is increased by. -/
def Advances (a : SequenceNumber w) (delta : BitVec w) : Prop :=
  (a.add delta).gt a = true ∧ ((a.add delta).diff a).toInt = delta.toInt ∧ (a.diff (a.add delta)).toInt = -delta.toInt

theorem advances (hw : 0 < w) (a : SequenceNumber w) (hdelta : 0 < delta.toInt) : a.Advances delta := by
  refine ⟨?_, ?_, ?_⟩
  · rw [gt_iff hw, add_diff]
    exact .inl hdelta
  · rw [add_diff]
  · have hmin : delta ≠ BitVec.intMin w := by
      rintro rfl
      have hneg := BitVec.toInt_intMin_le (0#w)
      rw [BitVec.toInt_zero] at hneg
      omega
    rw [diff_add, BitVec.toInt_neg_of_ne_intMin hmin]

/-- What serial-number arithmetic asks of `a` and `b`: the order is total, an increase goes ahead by as much, and a number
is greater when the difference is positive. -/
def Serial (a b : SequenceNumber w) : Prop :=
  Trichotomous a b ∧ (∀ delta, 0 < delta.toInt → a.Advances delta) ∧ (a.gt b = true ↔ 0 < (a.diff b).toInt)

end SequenceNumber

/-- The comparison and the difference agree on two numbers unless they are half the space apart and the raw value of the
first one is the smaller one. -/
theorem serial_arithmetic (w : Nat) (a b : SequenceNumber w) (hw : 0 < w) :
    SequenceNumber.Serial a b ↔ ¬ ((a.m_value - b.m_value).toNat = 2 ^ (w - 1) ∧ a.m_value < b.m_value) := by
  have hgt := SequenceNumber.gt_iff hw a b
  constructor
  · rintro ⟨-, -, hiff⟩ hhalf
    have hpos := hiff.mp (hgt.mpr (.inr (by rwa [SequenceNumber.diff_eq])))
    have hlt := ((SequenceNumber.toInt_pos_iff hw _).mp hpos).2
    rw [SequenceNumber.diff_eq, hhalf.1] at hlt
    exact Nat.lt_irrefl _ hlt
  · intro hhalf
    refine ⟨SequenceNumber.trichotomous hw a b, fun delta hdelta => SequenceNumber.advances hw a hdelta, ?_⟩
    rw [hgt, SequenceNumber.diff_eq]
    exact or_iff_left hhalf

theorem serial_arithmetic_widths :
    (SequenceNumber.Serial (⟨200⟩ : SequenceNumber 8) ⟨100⟩ ↔
      ¬ (((200 : BitVec 8) - 100).toNat = 2 ^ 7 ∧ (200 : BitVec 8) < 100)) ∧
    (SequenceNumber.Serial (⟨0⟩ : SequenceNumber 16) ⟨65535⟩ ↔
      ¬ (((0 : BitVec 16) - 65535).toNat = 2 ^ 15 ∧ (0 : BitVec 16) < 65535)) ∧
    (SequenceNumber.Serial (⟨5⟩ : SequenceNumber 32) ⟨0xfffffff0⟩ ↔
      ¬ (((5 : BitVec 32) - 0xfffffff0).toNat = 2 ^ 31 ∧ (5 : BitVec 32) < 0xfffffff0)) :=
  ⟨serial_arithmetic 8 ⟨200⟩ ⟨100⟩ (by decide), serial_arithmetic 16 ⟨0⟩ ⟨65535⟩ (by decide),
    serial_arithmetic 32 ⟨5⟩ ⟨0xfffffff0⟩ (by decide)⟩

/-- Of 0 and 2^31 the first one is greater, but the difference is the least signed number. -/
theorem not_serial_arithmetic_half : ¬ ∀ a b : SequenceNumber 32, SequenceNumber.Serial a b := by
  intro hall
  have hpos := (hall ⟨0⟩ ⟨0x80000000⟩).2.2.mp (by decide)
  exact absurd hpos (by decide)

/-! ### The numbers of 32 bits -/

namespace SequenceNumber32

/-- A `SequenceNumber32` as an instance of the template. -/
def toSequenceNumber (a : SequenceNumber32) : SequenceNumber 32 := ⟨a.m_value.toBitVec⟩

theorem toSequenceNumber_diff (a b : SequenceNumber32) :
    a.toSequenceNumber.diff b.toSequenceNumber = (a.diff b).toBitVec := SequenceNumber.diff_eq _ _

theorem toSequenceNumber_add (a : SequenceNumber32) (n : UInt32) :
    a.toSequenceNumber.add n.toBitVec = (a.add n).toSequenceNumber := rfl

theorem toSequenceNumber_gt (a b : SequenceNumber32) : a.toSequenceNumber.gt b.toSequenceNumber = a.gt b := rfl

end SequenceNumber32

end Ns3.Network
