import Mathlib.Data.Int.Bitwise
import Mathlib.Data.List.Perm.Basic
import Mathlib.Data.Nat.ModEq
import Mathlib.Order.Lattice

/-!
# Calendar queues

Entries of a calendar that has its days in turn on a fixed number of pages. What a search from page to page may conclude
from the day it has come to.
-/

namespace Ns3.Lib

/-! ### Pages -/

section

variable {α : Type*} {pages : List (List α)} {page page' : List α} {i : ℕ} {x : α}

/-- One entry more on a page. -/
theorem flatten_set_add (hi : pages[i]? = some page) (hpage : page'.Perm (x :: page)) :
    (pages.set i page').flatten.Perm (x :: pages.flatten) := by
  induction pages generalizing i with
  | nil => cases hi
  | cons p pages ih =>
    cases i with
    | zero =>
      obtain rfl := Option.some.inj hi
      exact hpage.append_right pages.flatten
    | succ i =>
      have hrest := (ih hi).append_left p
      exact hrest.trans List.perm_middle

/-- One entry less on a page. -/
theorem flatten_set_remove (hi : pages[i]? = some page) (hpage : page.Perm (x :: page')) :
    pages.flatten.Perm (x :: (pages.set i page').flatten) := by
  obtain ⟨hlt, rfl⟩ := List.getElem?_eq_some_iff.mp hi
  have hback : (pages.set i page').set i pages[i] = pages := by rw [List.set_set, List.set_getElem_self hlt]
  have hadd : ((pages.set i page').set i pages[i]).flatten.Perm _ := flatten_set_add (List.getElem?_set_self hlt) hpage
  rwa [hback] at hadd

end

/-! ### Days -/

section

variable {n d L k : ℕ}

/-- Of the days on a page no more than a year ahead, only one is not in the past. -/
theorem day_eq (hk : k < n) (hmod : d % n = (L + k) % n) (hlow : L ≤ d) (hle : d ≤ L + k) : d = L + k := by
  obtain ⟨m, rfl⟩ := Nat.exists_eq_add_of_le hlow
  have hmod' : m ≡ k [MOD n] := Nat.ModEq.add_left_cancel' L hmod
  have hm := Nat.ModEq.eq_of_lt_of_lt hmod' (by omega) hk
  rw [hm]

/-- The search comes back to its first page after a year. -/
theorem page_eq_iff (hk : k < n) : (L + (k + 1)) % n = L % n ↔ k + 1 = n := by
  constructor
  · intro hmod
    have hmod' : k + 1 ≡ 0 [MOD n] := Nat.ModEq.add_left_cancel' L hmod
    have hdvd := (Nat.modEq_zero_iff_dvd).mp hmod'
    exact Nat.le_antisymm hk (Nat.le_of_dvd (Nat.succ_pos k) hdvd)
  · rintro rfl
    exact Nat.add_mod_right L (k + 1)

/-- Every page comes up within a year. -/
theorem exists_page {i : ℕ} (hi : i < n) : ∃ j < n, (L + j) % n = i := by
  have hmod : L % n < n := Nat.mod_lt _ (by omega)
  have hsplit := Nat.mod_add_div L n
  refine ⟨(i + (n - L % n)) % n, Nat.mod_lt _ (by omega), ?_⟩
  have hsum : L + (i + (n - L % n)) = i + n + n * (L / n) := by omega
  rw [Nat.add_mod_mod, hsum, Nat.add_mul_mod_self_left, Nat.add_mod_right, Nat.mod_eq_of_lt hi]

/-- Where the end of a day is computed with a width that may wrap, a time on the page is before it exactly when it is not
after that day. -/
theorem lt_wrapped_iff {M W t : ℕ} (hW : 0 < W) (hWM : W < 2 * M) (ht : t < M) (hk : k < n)
    (hmod : t / W % n = (L + k) % n) (hlow : L ≤ t / W) : t < (L + k + 1) * W % (2 * M) ↔ t / W ≤ L + k := by
  rw [← Nat.lt_succ_iff, Nat.div_lt_iff_lt_mul hW]
  constructor
  · exact fun hlt => hlt.trans_le (Nat.mod_le _ _)
  · intro hlt
    have hday : t / W = L + k := by
      have hle := (Nat.div_lt_iff_lt_mul hW).mpr hlt
      exact day_eq hk hmod hlow (by omega)
    -- the end of a day that has begun does not wrap
    have hend : (L + k + 1) * W < 2 * M := by
      rw [← hday, Nat.add_mul, Nat.one_mul]
      have hbegun := Nat.div_mul_le_self t W
      rcases Nat.lt_or_ge M W with hlarge | hsmall
      · rw [Nat.div_eq_of_lt (by omega), Nat.zero_mul]
        omega
      · omega
    rwa [Nat.mod_eq_of_lt hend]

end

section

variable {α κ : Type*} [LinearOrder κ] {rank : α → κ} {day : α → ℕ} {page : ℕ → List α} {n L k : ℕ} {e : α}

/-- The first entry that the search meets on its own day is the first of all. -/
theorem least_of_first_hit (hday : ∀ a b, rank a ≤ rank b → day a ≤ day b) (hpage : ∀ i, ∀ x ∈ page i, day x % n = i)
    (hlow : ∀ i, ∀ x ∈ page i, L ≤ day x) (hleast : ∀ x ∈ page ((L + k) % n), rank e ≤ rank x) (hhit : day e ≤ L + k)
    (hmiss : ∀ j < k, ∀ x ∈ page ((L + j) % n), L + j < day x) : ∀ i, ∀ x ∈ page i, rank e ≤ rank x := by
  intro i x hx
  by_contra hlt
  have hle : day x ≤ L + k := (hday x e (not_le.mp hlt).le).trans hhit
  have hge := hlow i x hx
  obtain ⟨j, hj⟩ := Nat.exists_eq_add_of_le hge
  have hin : x ∈ page ((L + j) % n) := by
    rw [← hj, hpage i x hx]
    exact hx
  rcases Nat.lt_or_ge j k with hjk | hjk
  · have hafter := hmiss j hjk x hin
    omega
  · obtain rfl : j = k := by omega
    exact hlt (hleast x hin)

end

end Ns3.Lib
