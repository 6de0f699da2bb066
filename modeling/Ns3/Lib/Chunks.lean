import Mathlib.Algebra.BigOperators.Group.List.Basic
import Mathlib.Data.Int.Bitwise
import Mathlib.Data.List.Basic
import Mathlib.Order.Lattice

/-!
# Chunks of a stream

A chunk is a run of values that starts at a position of a stream. A layout is a list of
chunks, none of them empty, each ending before the next one starts; it covers the positions
of its chunks, and carries a stream when each chunk is the slice of the stream at its start.
-/

namespace Ns3.Lib

/-- A run of values with the position of the first. -/
abbrev Chunk (α : Type*) := Nat × List α

variable {α : Type*}

/-- The position behind the last value. -/
def Chunk.stop (c : Chunk α) : Nat := c.1 + c.2.length

/-- Chunks in order, none empty and no two overlapping. -/
structure Layout (cs : List (Chunk α)) : Prop where
  nonempty : ∀ c ∈ cs, c.2 ≠ []
  spaced : cs.Pairwise fun c c' => c.stop ≤ c'.1

/-- The position is one of a chunk. -/
def Covers (cs : List (Chunk α)) (p : Nat) : Prop := ∃ c ∈ cs, c.1 ≤ p ∧ p < c.stop

/-- The number of values in the chunks. -/
def total (cs : List (Chunk α)) : Nat := (cs.map fun c => c.2.length).sum

/-- The `n` values of the stream from position `a` on. -/
def slice (stream : Nat → α) (a n : Nat) : List α := (List.range n).map fun i => stream (a + i)

/-- Every chunk is the slice of the stream at its start. -/
def Carries (stream : Nat → α) (cs : List (Chunk α)) : Prop :=
  ∀ c ∈ cs, c.2 = slice stream c.1 c.2.length

/-! ### Slices -/

@[simp] theorem length_slice (stream : Nat → α) (a n : Nat) : (slice stream a n).length = n := by
  simp [slice]

theorem getElem?_slice (stream : Nat → α) (a n i : Nat) :
    (slice stream a n)[i]? = if i < n then some (stream (a + i)) else none := by
  rw [slice, List.getElem?_map]
  split
  · next h => rw [List.getElem?_range h, Option.map_some]
  · next h => rw [List.getElem?_eq_none (by simpa using h), Option.map_none]

/-- Part of a slice. -/
theorem take_drop_slice (stream : Nat → α) {a n k m : Nat} (h : k + m ≤ n) :
    ((slice stream a n).drop k).take m = slice stream (a + k) m := by
  apply List.ext_getElem?
  intro i
  rw [List.getElem?_take, List.getElem?_drop, getElem?_slice, getElem?_slice]
  split
  · rw [if_pos (by omega), Nat.add_assoc]
  · rfl

/-- Two slices on end. -/
theorem slice_append (stream : Nat → α) (a n m : Nat) :
    slice stream a n ++ slice stream (a + n) m = slice stream a (n + m) := by
  apply List.ext_getElem?
  intro i
  rw [List.getElem?_append, getElem?_slice, getElem?_slice, getElem?_slice, length_slice]
  by_cases h : i < n
  · rw [if_pos h, if_pos h, if_pos (by omega)]
  · rw [if_neg h]
    by_cases h' : i - n < m
    · rw [if_pos h', if_pos (by omega)]
      congr 2
      omega
    · rw [if_neg h', if_neg (by omega)]

/-! ### Layouts -/

variable {c : Chunk α} {cs cs' : List (Chunk α)} {p : Nat}

@[simp] theorem total_nil : total ([] : List (Chunk α)) = 0 := rfl

@[simp] theorem total_cons (c : Chunk α) (cs : List (Chunk α)) :
    total (c :: cs) = c.2.length + total cs := by
  simp [total]

theorem total_perm (h : cs.Perm cs') : total cs = total cs' := (h.map _).sum_eq

@[simp] theorem not_covers_nil (p : Nat) : ¬ Covers ([] : List (Chunk α)) p := by
  simp [Covers]

@[simp] theorem covers_cons (c : Chunk α) (cs : List (Chunk α)) (p : Nat) :
    Covers (c :: cs) p ↔ (c.1 ≤ p ∧ p < c.stop) ∨ Covers cs p := by
  simp [Covers]

theorem covers_perm (h : cs.Perm cs') : Covers cs p ↔ Covers cs' p := by
  simp only [Covers, h.mem_iff]

theorem Layout.nil : Layout ([] : List (Chunk α)) := ⟨by simp, List.Pairwise.nil⟩

theorem layout_cons (c : Chunk α) (cs : List (Chunk α)) :
    Layout (c :: cs) ↔ c.2 ≠ [] ∧ (∀ c' ∈ cs, c.stop ≤ c'.1) ∧ Layout cs := by
  constructor
  · rintro ⟨hne, hsp⟩
    obtain ⟨hc, hcs⟩ := List.pairwise_cons.mp hsp
    exact ⟨hne c (by simp), hc, fun c' hc' => hne c' (by simp [hc']), hcs⟩
  · rintro ⟨hc, hle, hne, hsp⟩
    exact ⟨List.forall_mem_cons.mpr ⟨hc, hne⟩, List.pairwise_cons.mpr ⟨hle, hsp⟩⟩

/-- A chunk of a layout ends behind its start. -/
theorem Layout.lt_stop (h : Layout cs) (hc : c ∈ cs) : c.1 < c.stop := by
  have := List.length_pos_iff.mpr (h.nonempty c hc)
  rw [Chunk.stop]
  omega

/-- Chunks left out leave a layout. -/
theorem Layout.sublist (h : Layout cs) (hsub : cs'.Sublist cs) : Layout cs' :=
  ⟨fun c hc => h.nonempty c (hsub.subset hc), h.spaced.sublist hsub⟩

/-- Chunks left out leave no more values. -/
theorem total_le_of_sublist (hsub : cs'.Sublist cs) : total cs' ≤ total cs := by
  induction hsub with
  | slnil => exact Nat.le_refl _
  | cons c _ ih =>
    rw [total_cons]
    omega
  | cons_cons c _ ih =>
    rw [total_cons, total_cons]
    omega

theorem Carries.sublist {stream : Nat → α} (h : Carries stream cs) (hsub : cs'.Sublist cs) :
    Carries stream cs' := fun c hc => h c (hsub.subset hc)

/-- The chunks of a layout fit between their bounds. -/
theorem Layout.total_le (h : Layout cs) {lo hi : Nat} (hlo : ∀ c ∈ cs, lo ≤ c.1)
    (hhi : ∀ c ∈ cs, c.stop ≤ hi) : total cs ≤ hi - lo := by
  induction cs generalizing lo with
  | nil => simp
  | cons c cs ih =>
    obtain ⟨-, hle, hcs⟩ := (layout_cons c cs).mp h
    have htail := ih hcs hle fun c' hc' => hhi c' (by simp [hc'])
    have h1 := hlo c (by simp)
    have h2 := hhi c (by simp)
    rw [total_cons]
    simp only [Chunk.stop] at h2 htail
    omega

end Ns3.Lib
