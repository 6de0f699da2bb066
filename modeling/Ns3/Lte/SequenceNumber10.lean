import Mathlib.Data.Int.Bitwise
import Mathlib.Data.Nat.Basic
import Mathlib.Order.Lattice

/-!
# Sequence numbers of 10 bits

`SequenceNumber10` of `src/lte/model/lte-rlc-sequence-number.h`: numbers that wrap at 1024 and are compared by how far
they are past a modulus base, which each of them carries. Two that are compared have to have one base. A comparison has
no result where the program stops.

A window gives its sequence numbers numbers that do not wrap, of which they are the remainders.
-/

namespace Ns3.Lte

/-- `m_windowSize`, of `LteRlcUm` and `LteRlcAm`. -/
def windowSize : Nat := 512

/-- `SequenceNumber10`. -/
structure SequenceNumber10 where
  m_value : Nat := 0
  m_modulusBase : Nat := 0
deriving DecidableEq, Repr

namespace SequenceNumber10

/-- `SequenceNumber10 (uint16_t value)`. -/
def ofValue (value : Nat) : SequenceNumber10 := { m_value := value % 1024 }

/-- `operator= (uint16_t value)`. -/
def assign (n : SequenceNumber10) (value : Nat) : SequenceNumber10 := { n with m_value := value % 1024 }

/-- `SetModulusBase`. -/
def setModulusBase (n modulusBase : SequenceNumber10) : SequenceNumber10 :=
  { n with m_modulusBase := modulusBase.m_value }

/-- `operator++`. -/
def incr (n : SequenceNumber10) : SequenceNumber10 := { n with m_value := (n.m_value + 1) % 1024 }

/-- `operator+ (uint16_t delta)`. -/
def add (n : SequenceNumber10) (delta : Nat) : SequenceNumber10 :=
  { n with m_value := (n.m_value + delta) % 1024 }

/-- `operator- (uint16_t delta)`. The remainder is an `int`, which becomes a `uint16_t`. -/
def sub (n : SequenceNumber10) (delta : Nat) : SequenceNumber10 :=
  { n with m_value := (((n.m_value : Int) - delta).tmod 1024 % 2 ^ 16).toNat % 1024 }

/-- What is compared: an `int` that becomes a `uint16_t`. -/
def offset (n : SequenceNumber10) : Nat :=
  (((n.m_value : Int) - n.m_modulusBase).tmod 1024 % 2 ^ 16).toNat

/-- `operator>`. -/
def gt (a b : SequenceNumber10) : Option Bool :=
  if a.m_modulusBase = b.m_modulusBase then some (decide (b.offset < a.offset)) else none

/-- `operator<=`. -/
def le (a b : SequenceNumber10) : Option Bool := (a.gt b).map not

/-- `operator>=`. -/
def ge (a b : SequenceNumber10) : Option Bool := (a.gt b).map fun gt => gt || a.m_value == b.m_value

/-- `operator<`. -/
def lt (a b : SequenceNumber10) : Option Bool := (a.gt b).map fun gt => !gt && a.m_value != b.m_value

/-- The number is that of `x`, and its base that of `base`. -/
structure Stands (n : SequenceNumber10) (base x : Nat) : Prop where
  value : n.m_value = x % 1024
  modulusBase : n.m_modulusBase = base % 1024

variable {a b n : SequenceNumber10} {base x y z delta : Nat}

theorem Stands.setModulusBase {base' : Nat} (h : n.Stands base' x) (hb : b.m_value = z % 1024) :
    (n.setModulusBase b).Stands z x := ⟨h.value, hb⟩

/-- A base that is set again. -/
theorem Stands.setModulusBase_eq (h : n.Stands z x) (hb : b.m_value = z % 1024) : n.setModulusBase b = n := by
  rw [SequenceNumber10.setModulusBase, hb, ← h.modulusBase]

theorem Stands.incr (h : n.Stands base x) : n.incr.Stands base (x + 1) where
  value := by
    show (n.m_value + 1) % 1024 = _
    rw [h.value, Nat.mod_add_mod]
  modulusBase := h.modulusBase

theorem Stands.add (h : n.Stands base x) (delta : Nat) : (n.add delta).Stands base (x + delta) where
  value := by
    show (n.m_value + delta) % 1024 = _
    rw [h.value, Nat.mod_add_mod]
  modulusBase := h.modulusBase

theorem sub_value (h : n.m_value = x % 1024) (hle : delta ≤ x) : (n.sub delta).m_value = (x - delta) % 1024 := by
  show (((n.m_value : Int) - delta).tmod 1024 % 2 ^ 16).toNat % 1024 = _
  rw [h]
  have hlt := Nat.mod_lt x (by decide : 0 < 1024)
  by_cases hneg : delta ≤ x % 1024
  · rw [← Int.ofNat_sub hneg, Int.tmod_eq_emod_of_nonneg (Int.natCast_nonneg _)]
    omega
  · have hcast : ((x % 1024 : Nat) : Int) - delta = -((delta - x % 1024 : Nat) : Int) := by omega
    rw [hcast, Int.neg_tmod, Int.tmod_eq_emod_of_nonneg (Int.natCast_nonneg _)]
    omega

/-- The numbers of a window are compared like their offsets. -/
theorem Stands.offset (h : n.Stands base x) (hle : base ≤ x) (hlt : x < base + 1024) :
    n.offset = if base % 1024 ≤ x % 1024 then x - base else 64512 + (x - base) := by
  show (((n.m_value : Int) - n.m_modulusBase).tmod 1024 % 2 ^ 16).toNat = _
  rw [h.value, h.modulusBase]
  split
  · next hwrap =>
    rw [← Int.ofNat_sub hwrap, Int.tmod_eq_emod_of_nonneg (Int.natCast_nonneg _)]
    omega
  · next hwrap =>
    have hcast : ((x % 1024 : Nat) : Int) - (base % 1024 : Nat) = -((base % 1024 - x % 1024 : Nat) : Int) := by omega
    rw [hcast, Int.neg_tmod, Int.tmod_eq_emod_of_nonneg (Int.natCast_nonneg _)]
    omega

section Comparison

variable (ha : a.Stands base x) (hb : b.Stands base y) (hx : base ≤ x) (hx' : x < base + 1024) (hy : base ≤ y)
  (hy' : y < base + 1024)
include ha hb hx hx' hy hy'

theorem Stands.gt_eq : a.gt b = some (decide (y < x)) := by
  rw [gt, if_pos (ha.modulusBase.trans hb.modulusBase.symm), ha.offset hx hx', hb.offset hy hy']
  congr 2
  split
  · split
    · apply propext
      omega
    · apply propext
      omega
  · split
    · apply propext
      omega
    · apply propext
      omega

theorem Stands.value_eq_iff : a.m_value = b.m_value ↔ x = y := by
  rw [ha.value, hb.value]
  omega

theorem Stands.le_eq : a.le b = some (decide (x ≤ y)) := by
  rw [le, ha.gt_eq hb hx hx' hy hy', Option.map_some, ← decide_not]
  simp only [Nat.not_lt]

theorem Stands.ge_eq : a.ge b = some (decide (y ≤ x)) := by
  have hvalue := ha.value_eq_iff hb hx hx' hy hy'
  rw [ge, ha.gt_eq hb hx hx' hy hy', Option.map_some, Option.some_inj, Bool.eq_iff_iff]
  simp only [Bool.or_eq_true, decide_eq_true_eq, beq_iff_eq, hvalue]
  omega

theorem Stands.lt_eq : a.lt b = some (decide (x < y)) := by
  have hvalue := ha.value_eq_iff hb hx hx' hy hy'
  rw [lt, ha.gt_eq hb hx hx' hy hy', Option.map_some, Option.some_inj, Bool.eq_iff_iff]
  simp only [Bool.and_eq_true, Bool.not_eq_true', decide_eq_false_iff_not, bne_iff_ne, decide_eq_true_eq, ne_eq,
    hvalue]
  omega

end Comparison

end SequenceNumber10

end Ns3.Lte
