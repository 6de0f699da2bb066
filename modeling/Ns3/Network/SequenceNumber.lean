import Mathlib.Data.Int.Bitwise
import Mathlib.Data.Nat.Basic
import Mathlib.Order.Lattice

/-!
# Sequence numbers

`SequenceNumber<uint32_t, int32_t>`: 32-bit numbers that wrap, compared by which of the two
is less than half the sequence space behind the other. `advance` places the positions of a
byte stream in the sequence space; positions less than half the space apart compare like
their sequence numbers. Source: `src/network/utils/sequence-number.h`.
-/

namespace Ns3.Network

/-- `SequenceNumber32`. -/
structure SequenceNumber32 where
  m_value : UInt32 := 0
  deriving DecidableEq, Repr

namespace SequenceNumber32

/-- `halfMaxValue`. -/
def halfMaxValue : UInt32 := 0x7fffffff

/-- `operator>`, `sequence-number.h:262–268`. -/
def gt (a b : SequenceNumber32) : Bool :=
  (a.m_value > b.m_value && a.m_value - b.m_value ≤ halfMaxValue) ||
    (b.m_value > a.m_value && b.m_value - a.m_value > halfMaxValue)

/-- `operator<=`. -/
def le (a b : SequenceNumber32) : Bool := !a.gt b

/-- `operator>=`. -/
def ge (a b : SequenceNumber32) : Bool := a.gt b || a == b

/-- `operator<`. -/
def lt (a b : SequenceNumber32) : Bool := !a.gt b && a != b

/-- `operator+` and `operator+=`, whose second operand wraps modulo 2^32 whatever its type. -/
def add (a : SequenceNumber32) (n : UInt32) : SequenceNumber32 := ⟨a.m_value + n⟩

/-- `operator-=`. -/
def sub (a : SequenceNumber32) (n : UInt32) : SequenceNumber32 := ⟨a.m_value - n⟩

/-- `operator-` between sequence numbers, read as `uint32_t`. All four branches of the source
are the difference modulo 2^32. -/
def diff (a b : SequenceNumber32) : UInt32 := a.m_value - b.m_value

/-- The sequence number `p` places after `s`. -/
def advance (s : SequenceNumber32) (p : Nat) : SequenceNumber32 := s.add (UInt32.ofNat p)

variable {s : SequenceNumber32} {p q : Nat}

@[simp] theorem advance_zero (s : SequenceNumber32) : s.advance 0 = s := by
  simp [advance, add]

@[simp] theorem advance_advance (s : SequenceNumber32) (p q : Nat) :
    (s.advance p).advance q = s.advance (p + q) := by
  simp [advance, add, UInt32.ofNat_add, UInt32.add_assoc]

@[simp] theorem add_advance (s : SequenceNumber32) (p : Nat) (n : UInt32) :
    (s.advance p).add n = s.advance (p + n.toNat) := by
  rw [← advance_advance]
  simp [advance]

/-- A number is its difference from another one past that one. -/
theorem add_diff (a b : SequenceNumber32) : b.add (a.diff b) = a := by
  have hval : ∀ u v : UInt32, v + (u - v) = u := by
    intro u v
    grind
  rw [add, diff, hval]

theorem add_diff_self (a : SequenceNumber32) (n : UInt32) : (a.add n).diff a = n := by
  rw [diff, add]
  grind

/-- A number less its difference from another one is that one. -/
theorem sub_diff (a b : SequenceNumber32) : a.sub (a.diff b) = b := by
  have hval : ∀ u v : UInt32, u - (u - v) = v := by
    intro u v
    grind
  rw [sub, diff, hval]

theorem sub_advance {n : UInt32} (h : n.toNat ≤ p) :
    (s.advance p).sub n = s.advance (p - n.toNat) := by
  obtain ⟨q, rfl⟩ := Nat.exists_eq_add_of_le h
  have hval : ∀ u v : UInt32, u + (v + n) - n = u + v := by
    intro u v
    grind
  rw [Nat.add_sub_cancel_left, Nat.add_comm, advance, advance, add, add, sub, UInt32.ofNat_add,
    UInt32.ofNat_toNat, hval]

theorem add_toNat (s : SequenceNumber32) (n : UInt32) : s.add n = s.advance n.toNat := by
  rw [advance, UInt32.ofNat_toNat]

theorem advance_sub (s : SequenceNumber32) (p : Nat) : (s.sub (UInt32.ofNat p)).advance p = s := by
  rw [advance, sub, add, UInt32.sub_add_cancel]

private theorem toNat_advance (s : SequenceNumber32) (p : Nat) :
    (s.advance p).m_value.toNat = (s.m_value.toNat + p) % 2 ^ 32 := by
  simp [advance, add]

/-- The first operand is ahead by less than half the space, or by half the space with the
smaller value. -/
theorem gt_iff (a b : SequenceNumber32) :
    a.gt b = true ↔ 0 < (a.diff b).toNat ∧ ((a.diff b).toNat < 2 ^ 31 ∨
      (a.diff b).toNat = 2 ^ 31 ∧ a.m_value < b.m_value) := by
  have ha := a.m_value.toNat_lt
  have hb := b.m_value.toNat_lt
  simp only [gt, diff, Bool.or_eq_true, Bool.and_eq_true, decide_eq_true_eq, halfMaxValue,
    gt_iff_lt, UInt32.lt_iff_toNat_lt, UInt32.le_iff_toNat_le, UInt32.toNat_sub,
    UInt32.reduceToNat]
  omega

/-- Of two different numbers one is ahead. -/
theorem gt_total {a b : SequenceNumber32} (hne : a ≠ b) : a.gt b = true ∨ b.gt a = true := by
  have ha := a.m_value.toNat_lt
  have hb := b.m_value.toNat_lt
  have hne' : a.m_value.toNat ≠ b.m_value.toNat := by
    intro heq
    apply hne
    rw [← add_diff a b, diff, UInt32.toNat_inj.mp heq, UInt32.sub_self, add, UInt32.add_zero]
  simp only [gt_iff, diff, UInt32.lt_iff_toNat_lt, UInt32.toNat_sub]
  omega

/-- Of two numbers not both are ahead. -/
theorem gt_asymm {a b : SequenceNumber32} (h : a.gt b = true) : b.gt a = false := by
  have ha := a.m_value.toNat_lt
  have hb := b.m_value.toNat_lt
  rw [Bool.eq_false_iff]
  intro h'
  rw [gt_iff] at h h'
  simp only [diff, UInt32.lt_iff_toNat_lt, UInt32.toNat_sub] at h h'
  omega

theorem gt_irrefl (a : SequenceNumber32) : a.gt a = false := by
  rw [Bool.eq_false_iff]
  intro h
  rw [gt_asymm h] at h
  cases h

/-- A number that is not behind another one is it or is ahead of it. -/
theorem eq_or_gt_of_lt_eq_false {a b : SequenceNumber32} (h : a.lt b = false) :
    a = b ∨ a.gt b = true := by
  rw [lt, Bool.and_eq_false_iff, Bool.not_eq_false', bne_eq_false_iff_eq] at h
  exact h.symm

theorem ge_of_lt_eq_false {a b : SequenceNumber32} (h : a.lt b = false) : a.ge b = true := by
  rw [ge, Bool.or_eq_true, beq_iff_eq]
  exact (eq_or_gt_of_lt_eq_false h).symm

theorem lt_eq_false_of_le {a b : SequenceNumber32} (h : b.le a = true) : a.lt b = false := by
  rw [le, Bool.not_eq_true', Bool.eq_false_iff] at h
  rw [lt, Bool.and_eq_false_iff, Bool.not_eq_false', bne_eq_false_iff_eq]
  by_cases heq : a = b
  · exact .inr heq
  · exact .inl ((gt_total heq).resolve_right h)

/-- The difference of two positions. -/
theorem toNat_diff_advance (h : q ≤ p) (hlt : p < q + 2 ^ 32) :
    ((s.advance p).diff (s.advance q)).toNat = p - q := by
  have hs := s.m_value.toNat_lt
  simp only [diff, UInt32.toNat_sub, toNat_advance]
  omega

/-- The difference of two positions taken the other way. -/
theorem toNat_diff_advance_of_lt (h : p < q) (hlt : q < p + 2 ^ 32) :
    ((s.advance p).diff (s.advance q)).toNat = 2 ^ 32 - (q - p) := by
  have hs := s.m_value.toNat_lt
  simp only [diff, UInt32.toNat_sub, toNat_advance]
  omega

/-- Every number is at a position less than the whole space behind another one. -/
theorem exists_advance (s a : SequenceNumber32) : ∃ x < 2 ^ 32, a = s.advance x := by
  refine ⟨(a.diff s).toNat, UInt32.toNat_lt _, ?_⟩
  rw [advance, UInt32.ofNat_toNat, add_diff]

/-- Positions less than half the space apart compare like their sequence numbers. -/
theorem gt_advance (hpq : p < q + 2 ^ 31) (hqp : q < p + 2 ^ 31) :
    (s.advance p).gt (s.advance q) = decide (q < p) := by
  rw [Bool.eq_iff_iff, gt_iff, decide_eq_true_eq]
  by_cases hle : q ≤ p
  · rw [toNat_diff_advance hle (by omega)]
    omega
  · rw [toNat_diff_advance_of_lt (by omega) (by omega)]
    omega

/-- Positions less than half the space apart have different sequence numbers. -/
theorem advance_inj (hpq : p < q + 2 ^ 31) (hqp : q < p + 2 ^ 31) :
    s.advance p = s.advance q ↔ p = q := by
  constructor
  · intro h
    have h1 := congrArg (fun a => UInt32.toNat a.m_value) h
    simp only [toNat_advance] at h1
    omega
  · rintro rfl
    rfl

theorem le_advance (hpq : p < q + 2 ^ 31) (hqp : q < p + 2 ^ 31) :
    (s.advance p).le (s.advance q) = decide (p ≤ q) := by
  rw [le, gt_advance hpq hqp, ← decide_not]
  simp only [Nat.not_lt]

theorem lt_advance (hpq : p < q + 2 ^ 31) (hqp : q < p + 2 ^ 31) :
    (s.advance p).lt (s.advance q) = decide (p < q) := by
  rw [lt, gt_advance hpq hqp, Bool.eq_iff_iff]
  simp [advance_inj hpq hqp]
  omega

theorem ge_advance (hpq : p < q + 2 ^ 31) (hqp : q < p + 2 ^ 31) :
    (s.advance p).ge (s.advance q) = decide (q ≤ p) := by
  rw [ge, gt_advance hpq hqp, Bool.eq_iff_iff]
  simp [advance_inj hpq hqp]
  omega

/-- Positions up to one that a number does not reach compare as below it. -/
theorem le_of_ge_eq_false (hq : q < 2 ^ 32) (hge : s.ge (s.advance q) = false) (hpq : p ≤ q) :
    (s.advance p).le (s.advance q) = true := by
  rw [ge, Bool.or_eq_false_iff] at hge
  by_cases hp : p = 0
  · rw [hp, advance_zero, le, hge.1]
    rfl
  · have hne := (gt_iff s (s.advance q)).not.mp (Bool.eq_false_iff.mp hge.1)
    have hdiff := toNat_diff_advance_of_lt (s := s) (p := 0) (q := q) (by omega) (by omega)
    rw [advance_zero] at hdiff
    rw [hdiff] at hne
    rw [le_advance (by omega) (by omega), decide_eq_true_eq]
    exact hpq

/-- A number that compares as between two positions less than half the space apart is one of
the positions between them. -/
theorem exists_advance_of_between {a : SequenceNumber32} (hpq : p ≤ q) (hqp : q < p + 2 ^ 31)
    (hp : a.lt (s.advance p) = false) (hq : a.lt (s.advance q) = true) :
    ∃ r, p ≤ r ∧ r < q ∧ a = s.advance r := by
  obtain ⟨x, hx, rfl⟩ := (s.advance p).exists_advance a
  rw [advance_advance] at hp hq ⊢
  have hdiff : ((s.advance (p + x)).diff (s.advance p)).toNat = x := by
    rw [toNat_diff_advance (by omega) (by omega)]
    omega
  by_cases hlt : x < 2 ^ 31
  · rw [lt_advance (by omega) (by omega), decide_eq_true_eq] at hq
    exact ⟨p + x, by omega, hq, rfl⟩
  · -- half the space away, the number is past the second position too
    rw [lt, Bool.and_eq_false_iff, Bool.not_eq_false', bne_eq_false_iff_eq] at hp
    rw [lt, Bool.and_eq_true, Bool.not_eq_true', bne_iff_ne, Bool.eq_false_iff] at hq
    exfalso
    rcases hp with hp | hp
    · have hgt := (gt_iff _ _).mp hp
      rw [hdiff] at hgt
      have hx' : x = 2 ^ 31 := by omega
      by_cases heq : p = q
      · subst heq
        exact hq.1 hp
      · apply hq.1
        rw [gt_iff, toNat_diff_advance (by omega) (by omega)]
        omega
    · rw [hp] at hdiff
      simp only [diff, UInt32.sub_self, UInt32.toNat_zero] at hdiff
      omega

/-- A number above a position and not above another one is one of the positions between. -/
theorem exists_advance_of_gt {a : SequenceNumber32} (hpq : p ≤ q) (hqp : q < p + 2 ^ 31)
    (hp : a.gt (s.advance p) = true) (hq : a.le (s.advance q) = true) :
    ∃ r, a = s.advance r ∧ p < r ∧ r ≤ q := by
  by_cases heq : a = s.advance q
  · subst heq
    rw [gt_advance (by omega) (by omega), decide_eq_true_eq] at hp
    exact ⟨q, rfl, hp, Nat.le_refl _⟩
  · have hlt : a.lt (s.advance q) = true := by
      rw [lt, Bool.and_eq_true, bne_iff_ne]
      exact ⟨hq, heq⟩
    obtain ⟨r, h1, h2, rfl⟩ := exists_advance_of_between hpq hqp (by rw [lt, hp]; rfl) hlt
    rw [gt_advance (by omega) (by omega), decide_eq_true_eq] at hp
    exact ⟨r, rfl, hp, Nat.le_of_lt h2⟩

/-! ### Numbers moved together -/

/-- Two numbers half the space apart, which only their values order, keep their order when `k` is
added to both. -/
def Rigid (k : UInt32) (a b : SequenceNumber32) : Prop :=
  a.diff b = 0x80000000 → (a.m_value < b.m_value ↔ a.m_value + k < b.m_value + k)

instance (k : UInt32) (a b : SequenceNumber32) : Decidable (Rigid k a b) :=
  inferInstanceAs (Decidable (_ → _))

section Rigid

variable {k : UInt32} {a b : SequenceNumber32}

theorem diff_add (k : UInt32) (a b : SequenceNumber32) : (a.add k).diff (b.add k) = a.diff b := by
  have hval : ∀ u v w : UInt32, u + w - (v + w) = u - v := by
    intro u v w
    grind
  rw [diff, add, add, hval, diff]

theorem add_inj (k : UInt32) : a.add k = b.add k ↔ a = b := by
  constructor
  · intro h
    rw [← add_diff a b, ← diff_add k, h, diff, UInt32.sub_self, add, UInt32.add_zero]
  · rintro rfl
    rfl

theorem advance_add (s : SequenceNumber32) (p : Nat) (k : UInt32) :
    (s.advance p).add k = (s.add k).advance p := by
  have hval : ∀ u v w : UInt32, u + v + w = u + w + v := by
    intro u v w
    grind
  rw [advance, advance, add, add, add, add, hval]

theorem gt_add (h : Rigid k a b) : (a.add k).gt (b.add k) = a.gt b := by
  rw [Bool.eq_iff_iff, gt_iff, gt_iff, diff_add]
  refine and_congr_right fun _ => or_congr_right (and_congr_right fun heq => ?_)
  exact (h (UInt32.toNat_inj.mp heq)).symm

theorem ge_add (h : Rigid k a b) : (a.add k).ge (b.add k) = a.ge b := by
  rw [ge, ge, gt_add h, Bool.eq_iff_iff]
  simp [add_inj]

theorem le_add (h : Rigid k a b) : (a.add k).le (b.add k) = a.le b := by
  rw [le, le, gt_add h]

theorem lt_add (h : Rigid k a b) : (a.add k).lt (b.add k) = a.lt b := by
  rw [lt, lt, gt_add h, Bool.eq_iff_iff]
  simp [add_inj]

/-- Positions less than half the space apart are ordered by it. -/
theorem rigid_advance (hpq : p < q + 2 ^ 31) (hqp : q < p + 2 ^ 31) :
    Rigid k (s.advance p) (s.advance q) := by
  intro h
  have hval := congrArg UInt32.toNat h
  simp only [UInt32.reduceToNat] at hval
  by_cases hle : q ≤ p
  · rw [toNat_diff_advance hle (by omega)] at hval
    omega
  · rw [toNat_diff_advance_of_lt (by omega) (by omega)] at hval
    omega

end Rigid

end SequenceNumber32

end Ns3.Network
