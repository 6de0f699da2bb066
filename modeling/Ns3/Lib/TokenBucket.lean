import Mathlib.Algebra.BigOperators.Group.List.Basic
import Mathlib.Algebra.Order.BigOperators.Group.List
import Mathlib.Algebra.Order.Ring.Defs
import Mathlib.Data.Int.Bitwise
import Mathlib.Order.Lattice
import Mathlib.Tactic.Linarith
import Mathlib.Tactic.Ring

/-!
# Token buckets

A bucket of a given capacity fills at a given rate, and what is taken out is paid for with tokens. Its level
need only be known at the last withdrawal: as long as each withdrawal is paid from at most the tokens that
came in since then and the bucket can hold, no interval of time sees more than the capacity and what came
in during the interval. If what came in may be overestimated by `ε` at each withdrawal, an interval sees at
most `ε` more for each of its withdrawals but the first.
-/

namespace Ns3.Lib

variable {K : Type*} [LinearOrder K]

/-- Withdrawals, each with its time, the latest first. -/
abbrev Withdrawals (K : Type*) := List (K × K)

/-- How often something was taken in an interval of time. -/
def withdrawals (H : Withdrawals K) (s t : K) : ℕ := H.countP fun e => s ≤ e.1 && e.1 ≤ t

theorem withdrawals_cons_of_mem {H : Withdrawals K} {s t u a : K} (hs : s ≤ u) (ht : u ≤ t) :
    withdrawals ((u, a) :: H) s t = withdrawals H s t + 1 := by
  simp [withdrawals, hs, ht]

theorem withdrawals_cons_of_not_mem {H : Withdrawals K} {s t u a : K} (h : ¬ (s ≤ u ∧ u ≤ t)) :
    withdrawals ((u, a) :: H) s t = withdrawals H s t := by
  rw [withdrawals, List.countP_cons_of_neg]
  · rfl
  · simpa using h

/-- Nothing was taken in an interval behind all withdrawals. -/
theorem withdrawals_eq_zero {H : Withdrawals K} {s t : K} (h : ∀ e ∈ H, e.1 < s) :
    withdrawals H s t = 0 := by
  rw [withdrawals, List.countP_eq_zero]
  intro e he
  simp [not_le.mpr (h e he)]

/-- An interval may end with the last withdrawal. -/
theorem withdrawals_of_le {H : Withdrawals K} {s t T : K} (h : ∀ e ∈ H, e.1 ≤ T) (ht : T ≤ t) :
    withdrawals H s t = withdrawals H s T := by
  rw [withdrawals, withdrawals]
  refine List.countP_congr fun e he => ?_
  simp [h e he, (h e he).trans ht]

variable [CommRing K]

/-- What was taken in an interval of time, both ends included. -/
def taken (H : Withdrawals K) (s t : K) : K :=
  ((H.filter fun e => s ≤ e.1 && e.1 ≤ t).map Prod.snd).sum

theorem taken_nil (s t : K) : taken ([] : Withdrawals K) s t = 0 := rfl

theorem taken_cons_of_mem {H : Withdrawals K} {s t u a : K} (hs : s ≤ u) (ht : u ≤ t) :
    taken ((u, a) :: H) s t = a + taken H s t := by
  simp [taken, hs, ht]

theorem taken_cons_of_not_mem {H : Withdrawals K} {s t u a : K} (h : ¬ (s ≤ u ∧ u ≤ t)) :
    taken ((u, a) :: H) s t = taken H s t := by
  rw [taken, List.filter_cons_of_neg]
  · rfl
  · simpa using h

/-- What was taken, if nothing was. -/
theorem taken_of_withdrawals {H : Withdrawals K} {s t : K} (h : withdrawals H s t = 0) :
    taken H s t = 0 := by
  rw [withdrawals, List.countP_eq_length_filter, List.length_eq_zero_iff] at h
  rw [taken, h]
  rfl

theorem taken_of_le {H : Withdrawals K} {s t T : K} (h : ∀ e ∈ H, e.1 ≤ T) (ht : T ≤ t) :
    taken H s t = taken H s T := by
  rw [taken, taken]
  congr 2
  refine List.filter_congr fun e he => ?_
  simp [h e he, (h e he).trans ht]

variable [IsStrictOrderedRing K]

/-- A bucket of capacity `c` and rate `ρ` with at most `L` tokens at the time `T` of its last withdrawal, of
which all but the first may have cost `ε` too little. -/
structure Conforms (c ρ ε : K) (H : Withdrawals K) (T L : K) : Prop where
  past : ∀ e ∈ H, e.1 ≤ T
  since : ∀ s, s ≤ T → taken H s T + L ≤ c + ρ * (T - s) + ε * (withdrawals H s T - 1 : ℕ)
  within : ∀ s t, s ≤ t → taken H s t ≤ c + ρ * (t - s) + ε * (withdrawals H s t - 1 : ℕ)

variable {c ρ ε T L : K} {H : Withdrawals K}

/-- A bucket that nothing was taken from, with its capacity as its level. -/
theorem Conforms.full (hc : 0 ≤ c) (hρ : 0 ≤ ρ) (T : K) : Conforms c ρ ε [] T c where
  past := by simp
  since s hs := by
    have hcredit := mul_nonneg hρ (sub_nonneg.mpr hs)
    simp only [taken_nil, withdrawals, List.countP_nil, zero_add, Nat.zero_sub, Nat.cast_zero, mul_zero]
    linarith
  within s t hst := by
    have hcredit := mul_nonneg hρ (sub_nonneg.mpr hst)
    simp only [taken_nil, withdrawals, List.countP_nil, Nat.zero_sub, Nat.cast_zero, mul_zero]
    linarith

/-- A withdrawal that is paid for with what the bucket held, what came in since and `ε`, and never with more
than the capacity. -/
theorem Conforms.withdraw (h : Conforms c ρ ε H T L) (hρ : 0 ≤ ρ) {t a L' : K} (ht : T ≤ t) (hL' : 0 ≤ L')
    (hcapacity : L' + a ≤ c) (hcredit : L' + a ≤ L + ρ * (t - T) + ε) :
    Conforms c ρ ε ((t, a) :: H) t L' := by
  have hpast : ∀ e ∈ (t, a) :: H, e.1 ≤ t := by
    intro e he
    cases List.mem_cons.mp he with
    | inl heq => exact heq ▸ le_rfl
    | inr hmem => exact (h.past e hmem).trans ht
  have hsince : ∀ s, s ≤ t → taken ((t, a) :: H) s t + L' ≤
      c + ρ * (t - s) + ε * (withdrawals ((t, a) :: H) s t - 1 : ℕ) := by
    intro s hs
    rw [taken_cons_of_mem hs le_rfl, withdrawals_cons_of_mem hs le_rfl, Nat.add_sub_cancel]
    by_cases hnone : withdrawals H s t = 0
    · -- the first withdrawal of the interval is paid for with what the bucket can hold
      have hgain := mul_nonneg hρ (sub_nonneg.mpr hs)
      rw [taken_of_withdrawals hnone, hnone, Nat.cast_zero, mul_zero]
      linarith
    · -- the interval reaches back to the last withdrawal
      have hsT : s ≤ T := by
        by_contra hlt
        exact hnone (withdrawals_eq_zero fun e he => (h.past e he).trans_lt (not_le.mp hlt))
      have hold := h.since s hsT
      rw [← taken_of_le h.past ht, ← withdrawals_of_le h.past ht] at hold
      have hsplit : ρ * (t - s) = ρ * (T - s) + ρ * (t - T) := by ring
      have hone : ((withdrawals H s t : ℕ) : K) = (withdrawals H s t - 1 : ℕ) + 1 := by
        rw [← Nat.cast_succ, Nat.succ_eq_add_one, Nat.sub_add_cancel (Nat.pos_of_ne_zero hnone)]
      rw [hone, mul_add, mul_one]
      linarith
  refine ⟨hpast, hsince, fun s u hsu => ?_⟩
  by_cases hin : s ≤ t ∧ t ≤ u
  · have hlast := hsince s hin.1
    have hmore : ρ * (t - s) ≤ ρ * (u - s) := mul_le_mul_of_nonneg_left (sub_le_sub_right hin.2 s) hρ
    rw [taken_of_le hpast hin.2, withdrawals_of_le hpast hin.2]
    linarith
  · rw [taken_cons_of_not_mem hin, withdrawals_cons_of_not_mem hin]
    exact h.within s u hsu

end Ns3.Lib
