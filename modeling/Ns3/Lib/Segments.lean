import Mathlib.Data.Int.Bitwise
import Mathlib.Data.List.Basic
import Mathlib.Order.Lattice

/-!
# Segments of a list of items

A mark is a place in a list of items. What is between two marks is cut into pieces: the rest of the item at the first
mark, whole items, and the first values of the item at the second one. With what of the first item is behind the
first mark the pieces are again the items, whatever the cuts were.
-/

namespace Ns3.Lib

/-- An item, and how much of it is behind. -/
structure Mark where
  item : Nat := 0
  offset : Nat := 0
deriving DecidableEq, Repr

variable {α : Type*}

/-- The values of the item at the mark that are behind. -/
def Mark.begun (c : Mark) (items : List (List α)) : List α := (items[c.item]?.getD []).take c.offset

/-- The mark is at an item, within one or behind the last one. -/
def Mark.Within (items : List (List α)) (c : Mark) : Prop :=
  c.item ≤ items.length ∧ (c.offset ≠ 0 → ∃ item, items[c.item]? = some item ∧ c.offset < item.length)

theorem Mark.Within.take_append {items : List (List α)} {c : Mark} (h : c.Within items) (added : List (List α)) :
    (items ++ added).take c.item = items.take c.item :=
  List.take_append_of_le_length h.1

theorem Mark.Within.begun_append {items : List (List α)} {c : Mark} (h : c.Within items) (hne : c.offset ≠ 0)
    (added : List (List α)) : c.begun (items ++ added) = c.begun items := by
  obtain ⟨item, hitem, -⟩ := h.2 hne
  rw [Mark.begun, List.getElem?_append_left (List.getElem?_eq_some_iff.mp hitem).1]
  rfl

/-- The pieces that items are cut into between two marks. -/
inductive CutInto (items : List (List α)) : Mark → List (List α) → Mark → Prop where
  | part {c : Mark} {item : List α} {n : Nat} (hitem : items[c.item]? = some item) (hpos : c.offset < n)
      (hlt : n < item.length) : CutInto items c [(item.drop c.offset).take (n - c.offset)] ⟨c.item, n⟩
  | last {c : Mark} {item : List α} (hitem : items[c.item]? = some item) (hlt : c.offset < item.length) :
      CutInto items c [item.drop c.offset] ⟨c.item + 1, 0⟩
  | more {c c' : Mark} {item : List α} {pieces : List (List α)} (hitem : items[c.item]? = some item)
      (hlt : c.offset < item.length) (hmore : CutInto items ⟨c.item + 1, 0⟩ pieces c') :
      CutInto items c (item.drop c.offset :: pieces) c'

namespace CutInto

variable {items : List (List α)} {c c' : Mark} {pieces : List (List α)}

theorem ne_nil (h : CutInto items c pieces c') : pieces ≠ [] := by
  cases h <;> exact List.cons_ne_nil _ _

/-- What is added behind the items changes nothing. -/
theorem append (h : CutInto items c pieces c') (added : List (List α)) : CutInto (items ++ added) c pieces c' := by
  have hkeep : ∀ {i : Nat} {item : List α}, items[i]? = some item → (items ++ added)[i]? = some item := by
    intro i item hitem
    rw [List.getElem?_append_left (List.getElem?_eq_some_iff.mp hitem).1]
    exact hitem
  induction h with
  | part hitem hpos hlt => exact .part (hkeep hitem) hpos hlt
  | last hitem hlt => exact .last (hkeep hitem) hlt
  | more hitem hlt _ ih => exact .more (hkeep hitem) hlt ih

theorem item_le (h : CutInto items c pieces c') : c.item ≤ c'.item := by
  induction h with
  | part => exact Nat.le_refl _
  | last => exact Nat.le_succ _
  | more _ _ _ ih => exact Nat.le_of_succ_le ih

theorem begun_of_zero (h : c.offset = 0) : c.begun items = [] := by
  rw [Mark.begun, h, List.take_zero]

theorem take_succ_item {i : Nat} {item : List α} (hitem : items[i]? = some item) :
    items.take (i + 1) = items.take i ++ [item] := by
  rw [List.take_add_one, hitem]
  rfl

theorem begun_append_drop {item : List α} (hitem : items[c.item]? = some item) :
    c.begun items ++ item.drop c.offset = item := by
  rw [Mark.begun, hitem]
  exact List.take_append_drop _ _

/-- The pieces joined to what is behind the first mark: items that are complete, and then what is behind the second
one, if that is within an item. -/
theorem joined (h : CutInto items c pieces c') :
    ∃ first rest, pieces = first :: rest ∧
      (c'.offset = 0 → items.take c'.item = items.take c.item ++ (c.begun items ++ first) :: rest) ∧
      (c'.offset ≠ 0 → items.take c'.item = items.take c.item ++ ((c.begun items ++ first) :: rest).dropLast ∧
        ((c.begun items ++ first) :: rest).getLast? = some (c'.begun items)) := by
  induction h with
  | @part c item n hitem hpos hlt =>
    refine ⟨_, [], rfl, fun hzero => absurd hzero (by simp only; omega), fun _ => ⟨by simp, ?_⟩⟩
    have htake : item.take c.offset ++ (item.drop c.offset).take (n - c.offset) = item.take n := by
      rw [← List.take_add, Nat.add_sub_cancel' hpos.le]
    simp [Mark.begun, hitem, htake]
  | last hitem hlt =>
    refine ⟨_, [], rfl, fun _ => ?_, fun hne => absurd rfl hne⟩
    rw [take_succ_item hitem, begun_append_drop hitem]
  | @more c c' item pieces hitem hlt hmore ih =>
    obtain ⟨first, rest, rfl, hclosed, hopen⟩ := ih
    rw [begun_of_zero (c := ⟨c.item + 1, 0⟩) rfl, List.nil_append] at hclosed hopen
    refine ⟨_, first :: rest, rfl, fun hzero => ?_, fun hne => ?_⟩
    · rw [hclosed hzero, take_succ_item hitem, begun_append_drop hitem, List.append_assoc]
      rfl
    · obtain ⟨htake, hlast⟩ := hopen hne
      rw [htake, take_succ_item hitem, begun_append_drop hitem, List.append_assoc]
      refine ⟨rfl, ?_⟩
      rw [List.getLast?_cons_cons]
      exact hlast

theorem within (h : CutInto items c pieces c') : c'.Within items := by
  induction h with
  | part hitem _ hlt => exact ⟨(List.getElem?_eq_some_iff.mp hitem).1.le, fun _ => ⟨_, hitem, hlt⟩⟩
  | last hitem _ => exact ⟨(List.getElem?_eq_some_iff.mp hitem).1, fun hne => absurd rfl hne⟩
  | more _ _ _ ih => exact ih

end CutInto

end Ns3.Lib
