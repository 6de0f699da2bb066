import Mathlib.Data.Int.Bitwise
import Mathlib.Data.List.Perm.Basic
import Mathlib.Logic.Function.Basic
import Mathlib.Order.Lattice

/-!
# Counted blocks

Blocks that count their holders, and a list of blocks that nobody holds.
-/

namespace Ns3.Lib

section Counted

variable {ι : Type*} [DecidableEq ι] {count : ι → Nat} {holders holders' : List ι} {i : ι}

/-- What each block counts are its holders. -/
def Counted (count : ι → Nat) (holders : List ι) : Prop := ∀ i, count i = holders.count i

theorem Counted.perm (h : Counted count holders) (hp : holders.Perm holders') :
    Counted count holders' := fun i => (h i).trans (hp.count_eq i)

/-- One more holder. -/
theorem Counted.retain (h : Counted count holders) (i : ι) :
    Counted (Function.update count i (count i + 1)) (i :: holders) := by
  intro j
  by_cases hij : j = i
  · rw [hij, Function.update_self, List.count_cons_self, h i]
  · rw [Function.update_of_ne hij, List.count_cons_of_ne (Ne.symm hij), h j]

/-- A holder less. -/
theorem Counted.release (h : Counted count (i :: holders)) :
    Counted (Function.update count i (count i - 1)) holders := by
  intro j
  by_cases hij : j = i
  · rw [hij, Function.update_self, h i, List.count_cons_self, Nat.add_sub_cancel]
  · rw [Function.update_of_ne hij, h j, List.count_cons_of_ne (Ne.symm hij)]

theorem Counted.pos (h : Counted count holders) (hi : i ∈ holders) : 0 < count i := by
  rw [h i]
  exact List.count_pos_iff.mpr hi

theorem Counted.not_mem (h : Counted count holders) (hzero : count i = 0) : i ∉ holders := by
  intro hi
  have := h.pos hi
  omega

/-- A block that nobody holds gets a holder. -/
theorem Counted.claim (h : Counted count holders) (hzero : count i = 0) :
    Counted (Function.update count i 1) (i :: holders) := by
  have := h.retain i
  rw [hzero] at this
  exact this

/-- A block with one holder has no other. -/
theorem Counted.alone (h : Counted count (i :: holders)) (hone : count i = 1) : i ∉ holders := by
  intro hi
  have hcount := h i
  rw [hone, List.count_cons_self] at hcount
  have := List.count_pos_iff.mpr hi
  omega

end Counted

section Spare

variable {count count' : Nat → Nat} {next : Nat} {spare l : List Nat} {i : Nat}

/-- Blocks from `next` on are not yet there; those in `spare` are there, once, and nobody holds them. -/
structure Spare (count : Nat → Nat) (next : Nat) (spare : List Nat) : Prop where
  fresh : ∀ i, next ≤ i → count i = 0
  free : ∀ i ∈ spare, i < next ∧ count i = 0
  nodup : spare.Nodup

/-- A block that is not in the list has a count. -/
theorem Spare.update (h : Spare count next spare) {n : Nat} (hlt : i < next) (hnot : i ∉ spare) :
    Spare (Function.update count i n) next spare where
  fresh := fun j hj => by
    rw [Function.update_of_ne (by omega)]
    exact h.fresh j hj
  free := fun j hj => by
    have hij : j ≠ i := fun heq => hnot (heq ▸ hj)
    rw [Function.update_of_ne hij]
    exact h.free j hj
  nodup := h.nodup

/-- A part of the list. -/
theorem Spare.sublist (h : Spare count next spare) (hl : l.Sublist spare) : Spare count next l :=
  ⟨h.fresh, fun i hi => h.free i (hl.subset hi), hl.nodup h.nodup⟩

/-- A new block. -/
theorem Spare.grow (h : Spare count next spare) : Spare count (next + 1) spare :=
  ⟨fun i hi => h.fresh i (Nat.le_of_succ_le hi), fun i hi => ⟨Nat.lt_succ_of_lt (h.free i hi).1,
    (h.free i hi).2⟩, h.nodup⟩

/-- A block that nobody holds any more. -/
theorem Spare.cons (h : Spare count next spare) (hlt : i < next) (hzero : count i = 0)
    (hnot : i ∉ spare) : Spare count next (i :: spare) where
  fresh := h.fresh
  free := fun j hj => by
    rcases List.mem_cons.mp hj with rfl | hj
    · exact ⟨hlt, hzero⟩
    · exact h.free j hj
  nodup := List.nodup_cons.mpr ⟨hnot, h.nodup⟩

/-- A block with a holder is there and not in the list. -/
theorem Spare.of_pos (h : Spare count next spare) (hpos : 0 < count i) : i < next ∧ i ∉ spare := by
  constructor
  · by_contra hge
    have := h.fresh i (Nat.le_of_not_lt hge)
    omega
  · intro hi
    have := (h.free i hi).2
    omega

end Spare

end Ns3.Lib
