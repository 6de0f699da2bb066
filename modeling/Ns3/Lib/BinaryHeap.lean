import Mathlib.Data.Int.Bitwise
import Mathlib.Logic.Equiv.Basic
import Mathlib.Order.Basic
import Mathlib.Order.Lattice

/-!
# Binary heaps

A tree laid out in the places `1, …, n`, where the parent of place `i` is `i / 2`. What one exchange does to the order,
when only the edge into one place, or only the edges out of it, may be wrong.
-/

namespace Ns3.Lib

variable {κ : Type*} {f : ℕ → κ} {n k c i : ℕ}

/-- The places of the tree with what two of them hold exchanged. -/
def exchanged (f : ℕ → κ) (a b : ℕ) : ℕ → κ := fun i => f (Equiv.swap a b i)

theorem exchanged_left (a b : ℕ) : exchanged f a b a = f b := by rw [exchanged, Equiv.swap_apply_left]

theorem exchanged_right (a b : ℕ) : exchanged f a b b = f a := by rw [exchanged, Equiv.swap_apply_right]

theorem exchanged_ne {a b : ℕ} (ha : i ≠ a) (hb : i ≠ b) : exchanged f a b i = f i := by
  rw [exchanged, Equiv.swap_apply_of_ne_of_ne ha hb]

variable [LinearOrder κ]

/-- No place of the tree comes before its parent. -/
def HeapOrdered (f : ℕ → κ) (n : ℕ) : Prop := ∀ i, 2 ≤ i → i ≤ n → f (i / 2) ≤ f i

/-- Only the edge into place `k` may be wrong, and the children of `k` may hang from its parent. -/
structure RisingAt (f : ℕ → κ) (n k : ℕ) : Prop where
  above : ∀ i, 2 ≤ i → i ≤ n → i ≠ k → f (i / 2) ≤ f i
  beyond : ∀ i, 2 ≤ i → i ≤ n → i / 2 = k → 2 ≤ k → f (k / 2) ≤ f i

/-- Only the edges out of place `k` may be wrong, and the children of `k` may hang from its parent. -/
structure SinkingAt (f : ℕ → κ) (n k : ℕ) : Prop where
  above : ∀ i, 2 ≤ i → i ≤ n → i / 2 ≠ k → f (i / 2) ≤ f i
  beyond : ∀ i, 2 ≤ i → i ≤ n → i / 2 = k → 2 ≤ k → f (k / 2) ≤ f i

/-- The first place of the tree is a least one. -/
theorem HeapOrdered.root_le (h : HeapOrdered f n) (hi : 1 ≤ i) (hn : i ≤ n) : f 1 ≤ f i := by
  induction i using Nat.strongRecOn with
  | ind i ih =>
    by_cases hroot : i = 1
    · rw [hroot]
    · have hparent := ih (i / 2) (by omega) (by omega) (by omega)
      exact hparent.trans (h i (by omega) hn)

theorem HeapOrdered.mono {m : ℕ} (h : HeapOrdered f n) (hm : m ≤ n) : HeapOrdered f m :=
  fun i h2 hi => h i h2 (Nat.le_trans hi hm)

/-- A value put into place `k` that is not before the parent of `k` can only be too large for it. -/
theorem HeapOrdered.sinkingAt {g : ℕ → κ} (h : HeapOrdered f n) (hg : ∀ i, 1 ≤ i → i ≤ n → i ≠ k → g i = f i)
    (hk : 2 ≤ k → k ≤ n → f (k / 2) ≤ g k) : SinkingAt g n k where
  above := by
    intro i h2 hi hne
    rw [hg (i / 2) (by omega) (by omega) hne]
    by_cases hik : i = k
    · rw [hik]
      exact hk (by omega) (by omega)
    · rw [hg i (by omega) hi hik]
      exact h i h2 hi
  beyond := by
    intro i h2 hi hchild hk2
    rw [hg (k / 2) (by omega) (by omega) (by omega), hg i (by omega) hi (by omega)]
    have hup := h k hk2 (by omega)
    have hdown := h i h2 hi
    rw [hchild] at hdown
    exact hup.trans hdown

/-- A value put behind the tree can only be too small for its place. -/
theorem HeapOrdered.risingAt {g : ℕ → κ} (h : HeapOrdered f n) (hg : ∀ i, 1 ≤ i → i ≤ n → g i = f i) :
    RisingAt g (n + 1) (n + 1) where
  above := by
    intro i h2 hi hne
    rw [hg (i / 2) (by omega) (by omega), hg i (by omega) (by omega)]
    exact h i h2 (by omega)
  beyond := by
    intro i h2 hi hchild
    omega

namespace RisingAt

theorem ordered (h : RisingAt f n k) (hk : 2 ≤ k → f (k / 2) ≤ f k) : HeapOrdered f n := by
  intro i h2 hi
  by_cases hik : i = k
  · rw [hik]
    exact hk (by omega)
  · exact h.above i h2 hi hik

/-- What is too small changes places with its parent. -/
theorem exchange (h : RisingAt f n k) (hk : 2 ≤ k) (hn : k ≤ n) (hlt : f k < f (k / 2)) :
    RisingAt (exchanged f k (k / 2)) n (k / 2) where
  above := by
    intro i h2 hi hne
    by_cases hik : i = k
    · rw [hik, exchanged_left, exchanged_right]
      exact hlt.le
    rw [exchanged_ne hik hne]
    by_cases hchild : i / 2 = k
    · rw [hchild, exchanged_left]
      exact h.beyond i h2 hi hchild hk
    by_cases hsibling : i / 2 = k / 2
    · have hup := h.above i h2 hi hik
      rw [hsibling] at hup ⊢
      rw [exchanged_right]
      exact hlt.le.trans hup
    · rw [exchanged_ne hchild hsibling]
      exact h.above i h2 hi hik
  beyond := by
    intro i h2 hi hchild hk2
    have hgrand := h.above (k / 2) hk2 (by omega) (by omega)
    rw [exchanged_ne (by omega) (by omega)]
    by_cases hik : i = k
    · rw [hik, exchanged_left]
      exact hgrand
    · rw [exchanged_ne hik (by omega)]
      have hup := h.above i h2 hi hik
      rw [hchild] at hup
      exact hgrand.trans hup

end RisingAt

namespace SinkingAt

theorem ordered (h : SinkingAt f n k) (hk : ∀ i, 2 ≤ i → i ≤ n → i / 2 = k → f k ≤ f i) : HeapOrdered f n := by
  intro i h2 hi
  by_cases hchild : i / 2 = k
  · rw [hchild]
    exact hk i h2 hi hchild
  · exact h.above i h2 hi hchild

/-- What is too large changes places with a least child. -/
theorem exchange (h : SinkingAt f n k) (hc : 2 ≤ c) (hn : c ≤ n) (hchild : c / 2 = k) (hle : f c ≤ f k)
    (hleast : ∀ i, 2 ≤ i → i ≤ n → i / 2 = k → f c ≤ f i) : SinkingAt (exchanged f k c) n c where
  above := by
    intro i h2 hi hne
    by_cases hic : i = c
    · rw [hic, hchild, exchanged_left, exchanged_right]
      exact hle
    by_cases hik : i = k
    · rw [hik, exchanged_left, exchanged_ne (by omega) (by omega)]
      exact h.beyond c hc hn hchild (by omega)
    rw [exchanged_ne hik hic]
    by_cases hsibling : i / 2 = k
    · rw [hsibling, exchanged_left]
      exact hleast i h2 hi hsibling
    · rw [exchanged_ne hsibling hne]
      exact h.above i h2 hi hsibling
  beyond := by
    intro i h2 hi hgrand _
    rw [hchild, exchanged_left, exchanged_ne (by omega) (by omega)]
    have hup := h.above i h2 hi (by omega)
    rwa [hgrand] at hup

end SinkingAt

end Ns3.Lib
