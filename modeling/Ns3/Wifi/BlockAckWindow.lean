import Mathlib.Data.Set.Insert
import Ns3.Lib.Ring

/-!
# The window of a block ack

`BlockAckWindow` of `src/wifi/model/block-ack-window.cc` and the distances of `block-ack-agreement.cc`. Sequence
numbers are those of 12 bits: `SEQNO_SPACE_SIZE` is 4096, and `SEQNO_SPACE_HALF_SIZE` is 2048. A window that only
moves forwards gives them numbers that do not wrap, of which they are the remainders, and keeps a mark for each
number in it.

A function has no result where the program stops.
-/

namespace Ns3.Wifi

open Ns3.Lib

/-- `BlockAckAgreement::GetDistance`: an `int` that becomes a `size_t`. -/
def getDistance (seqNumber startingSeqNumber : Nat) : Nat :=
  (((seqNumber : Int) - startingSeqNumber + 4096).tmod 4096 % 2 ^ 64).toNat

/-- `BlockAckWindow`. -/
structure BlockAckWindow where
  m_winStart : Nat := 0
  m_window : List Bool := []
  m_head : Nat := 0
deriving DecidableEq, Repr

namespace BlockAckWindow

/-- `Init`. -/
def init (winStart winSize : Nat) : BlockAckWindow := ⟨winStart, List.replicate winSize false, 0⟩

/-- `Reset`. -/
def reset (winStart : Nat) (w : BlockAckWindow) : BlockAckWindow := init winStart w.m_window.length

/-- `GetWinSize`. -/
def getWinSize (w : BlockAckWindow) : Nat := w.m_window.length

/-- `At`, where it is read. -/
def bitAt (distance : Nat) (w : BlockAckWindow) : Option Bool :=
  if distance < w.m_window.length then w.m_window[ringIndex w.m_window w.m_head distance]? else none

/-- `At`, where it is set. -/
def setBitAt (distance : Nat) (w : BlockAckWindow) : Option BlockAckWindow :=
  if distance < w.m_window.length then
    some { w with m_window := w.m_window.set (ringIndex w.m_window w.m_head distance) true }
  else none

/-- `Advance`. -/
def advance (count : Nat) (w : BlockAckWindow) : BlockAckWindow :=
  if w.m_window.length ≤ count then w.reset ((w.m_winStart + count) % 4096)
  else
    let ring := ringPush false count (w.m_window, w.m_head)
    ⟨(w.m_winStart + count) % 4096, ring.1, ring.2⟩

end BlockAckWindow

/-! ### Numbers that do not wrap -/

section Distance

variable {seq a n : Nat}

theorem getDistance_eq (hseq : seq < 4096) (ha : a < 4096) :
    getDistance seq a = (seq + 4096 - a) % 4096 := by
  have hcast : (seq : Int) - a + 4096 = ((seq + 4096 - a : Nat) : Int) := by omega
  rw [getDistance, hcast, Int.tmod_eq_emod_of_nonneg (Int.natCast_nonneg _)]
  omega

theorem getDistance_lt (hseq : seq < 4096) (ha : a < 4096) :
    getDistance seq a < 4096 := by
  rw [getDistance_eq hseq ha]
  exact Nat.mod_lt _ (by decide)

/-- The distance of two numbers that are not too far from one another. -/
theorem getDistance_mod (hle : a ≤ n) (hlt : n < a + 4096) :
    getDistance (n % 4096) (a % 4096) = n - a := by
  rw [getDistance_eq (Nat.mod_lt _ (by decide)) (Nat.mod_lt _ (by decide))]
  omega

/-- The number of a sequence number, for a window that starts at the number `a`. -/
theorem add_getDistance_mod (hseq : seq < 4096) (a : Nat) :
    (a + getDistance seq (a % 4096)) % 4096 = seq := by
  rw [getDistance_eq hseq (Nat.mod_lt _ (by decide))]
  omega

end Distance

/-! ### What a window holds -/

/-- The window has `size` bits from the number `start` on, which are set for the marked numbers. -/
structure Tracks (w : BlockAckWindow) (size start : Nat) (marked : Set Nat) : Prop where
  winStart : w.m_winStart = start % 4096
  length : w.m_window.length = size
  head_lt : w.m_head < size
  bits : ∀ i < size, ∃ b, (w.m_window.rotate w.m_head)[i]? = some b ∧ (b = true ↔ start + i ∈ marked)
  below : ∀ n ∈ marked, n < start + size

namespace Tracks

variable {w : BlockAckWindow} {size start i count : Nat} {marked : Set Nat}

theorem init {winStart : Nat} (h : winStart < 4096) (hsize : 0 < size) :
    Tracks (BlockAckWindow.init winStart size) size winStart ∅ where
  winStart := (Nat.mod_eq_of_lt h).symm
  length := List.length_replicate
  head_lt := hsize
  bits i hi := by
    refine ⟨false, ?_, iff_of_false Bool.false_ne_true (Set.notMem_empty _)⟩
    show ((List.replicate size false).rotate 0)[i]? = _
    rw [List.rotate_zero, List.getElem?_replicate, if_pos hi]
  below _ hn := hn.elim

theorem bitAt (h : Tracks w size start marked) (hi : i < size) :
    ∃ b, w.bitAt i = some b ∧ (b = true ↔ start + i ∈ marked) := by
  have hlt : i < w.m_window.length := h.length.symm ▸ hi
  rw [BlockAckWindow.bitAt, if_pos hlt, getElem?_ringIndex hlt]
  exact h.bits i hi

/-- A bit that is set marks its number. -/
theorem setBitAt (h : Tracks w size start marked) (hi : i < size) :
    ∃ w', w.setBitAt i = some w' ∧ Tracks w' size start (insert (start + i) marked) := by
  have hlt : i < w.m_window.length := h.length.symm ▸ hi
  refine ⟨_, if_pos hlt, h.winStart, List.length_set.trans h.length, h.head_lt, fun j hj => ?_, fun n hn => ?_⟩
  · show ∃ b, ((w.m_window.set (ringIndex w.m_window w.m_head i) true).rotate w.m_head)[j]? = some b ∧ _
    rw [set_ringIndex hlt]
    by_cases heq : i = j
    · subst heq
      refine ⟨true, ?_, iff_of_true rfl (Set.mem_insert _ _)⟩
      rw [List.getElem?_set_self (by rw [List.length_rotate]; exact hlt)]
    · obtain ⟨b, hb, hmarked⟩ := h.bits j hj
      refine ⟨b, ?_, hmarked.trans ?_⟩
      · rw [List.getElem?_set_ne heq, hb]
      · rw [Set.mem_insert_iff, or_iff_right (by omega)]
  · obtain rfl | hn := hn
    · exact Nat.add_lt_add_left hi _
    · exact h.below n hn

/-- A window behind all marked numbers. -/
theorem reset (h : Tracks w size start marked) (next : Nat) (hnext : start + size ≤ next) :
    Tracks (w.reset (next % 4096)) size next marked := by
  have hbelow : ∀ n ∈ marked, n < next := fun n hn => (h.below n hn).trans_le hnext
  have hempty := init (Nat.mod_lt next (by decide : 0 < 4096)) (Nat.zero_lt_of_lt h.head_lt)
  rw [BlockAckWindow.reset, h.length]
  refine ⟨rfl, hempty.length, hempty.head_lt, fun i hi => ?_, fun n hn => (hbelow n hn).trans_le (Nat.le_add_right _ _)⟩
  obtain ⟨b, hb, hmarked⟩ := hempty.bits i hi
  refine ⟨b, hb, hmarked.trans (iff_of_false (Set.notMem_empty _) fun hmem => ?_)⟩
  exact absurd (hbelow _ hmem) (by omega)

/-- The window moves on. -/
theorem advance (h : Tracks w size start marked) (count : Nat) :
    Tracks (w.advance count) size (start + count) marked := by
  have hstart : (w.m_winStart + count) % 4096 = (start + count) % 4096 := by
    rw [h.winStart, Nat.mod_add_mod]
  rw [BlockAckWindow.advance]
  by_cases hle : w.m_window.length ≤ count
  · rw [if_pos hle, hstart]
    exact h.reset _ (Nat.add_le_add_left (h.length ▸ hle) _)
  · rw [if_neg hle]
    have hlt := Nat.lt_of_not_le hle
    obtain ⟨hlength, hhead, hrotate⟩ := rotate_ringPush (h.length.symm ▸ h.head_lt) false hlt.le
    refine ⟨hstart, hlength.trans h.length, h.length ▸ hhead, fun i hi => ?_, fun n hn => ?_⟩
    · show ∃ b, ((ringPush false count (w.m_window, w.m_head)).1.rotate
        (ringPush false count (w.m_window, w.m_head)).2)[i]? = some b ∧ _
      have hdrop : ((w.m_window.rotate w.m_head).drop count).length = size - count := by
        rw [List.length_drop, List.length_rotate, h.length]
      rw [hrotate]
      by_cases hin : i < size - count
      · obtain ⟨b, hb, hmarked⟩ := h.bits (count + i) (by omega)
        refine ⟨b, ?_, ?_⟩
        · rw [List.getElem?_append_left (hdrop.symm ▸ hin), List.getElem?_drop, hb]
        · rw [hmarked, Nat.add_assoc]
      · refine ⟨false, ?_, iff_of_false Bool.false_ne_true fun hmem => ?_⟩
        · rw [List.getElem?_append_right (hdrop.symm ▸ Nat.le_of_not_lt hin), hdrop, List.getElem?_replicate,
            if_pos (by omega)]
        · exact absurd (h.below _ hmem) (by omega)
    · exact (h.below n hn).trans_le (by omega)

end Tracks

end Ns3.Wifi
