import Ns3.Lib.BinaryHeap
import Ns3.Core.Scheduler

/-!
# The heap scheduler

Events in an array, the children of place `i` in places `2 * i` and `2 * i + 1`. `Remove` fills the place of an event with
the last one and moves that down only. Source: `src/core/model/heap-scheduler.cc`.
-/

namespace Ns3.Core

open Ns3.Lib

/-- `HeapScheduler`, whose first item is never used. -/
structure HeapScheduler where
  m_heap : Array Event
  deriving DecidableEq, Repr

namespace HeapScheduler

/-- The item that the constructor wastes. -/
def empty : Event := ⟨0, ⟨0, 0, 0⟩⟩

/-- `HeapScheduler::HeapScheduler`. -/
def new : HeapScheduler := ⟨#[empty]⟩

/-- `HeapScheduler::Parent`. -/
def parent (id : Nat) : Nat := id / 2

/-- `HeapScheduler::LeftChild`. -/
def leftChild (id : Nat) : Nat := id * 2

/-- `HeapScheduler::RightChild`. -/
def rightChild (id : Nat) : Nat := id * 2 + 1

/-- `HeapScheduler::Root`. -/
def root : Nat := 1

variable (h : HeapScheduler)

/-- `m_heap[id]`, for an index inside the array. -/
def item (id : Nat) : Event := h.m_heap.getD id empty

/-- `HeapScheduler::Last`. -/
def last : Nat := h.m_heap.size - 1

/-- `HeapScheduler::IsBottom`. -/
def isBottom (id : Nat) : Prop := h.m_heap.size ≤ id

instance (id : Nat) : Decidable (h.isBottom id) := inferInstanceAs (Decidable (h.m_heap.size ≤ id))

/-- `HeapScheduler::IsEmpty`. -/
def isEmpty : Prop := h.m_heap.size = 1

instance : Decidable h.isEmpty := inferInstanceAs (Decidable (h.m_heap.size = 1))

/-- `HeapScheduler::Exch`, for indices inside the array. -/
def exch (a b : Nat) : HeapScheduler := ⟨h.m_heap.swapIfInBounds a b⟩

/-- `m_heap.pop_back ()`. -/
def popBack : HeapScheduler := ⟨h.m_heap.pop⟩

/-- `HeapScheduler::IsLessStrictly`. -/
def isLessStrictly (a b : Nat) : Prop := h.item a < h.item b

instance (a b : Nat) : Decidable (h.isLessStrictly a b) := inferInstanceAs (Decidable (h.item a < h.item b))

/-- `HeapScheduler::Smallest`. -/
def smallest (a b : Nat) : Nat := if h.isLessStrictly a b then a else b

theorem isLessStrictly_irrefl (a : Nat) : ¬ h.isLessStrictly a a := fun hlt => lt_irrefl _ (Event.lt_iff.mp hlt)

@[simp] theorem size_exch (a b : Nat) : (h.exch a b).m_heap.size = h.m_heap.size := Array.size_swapIfInBounds

/-- The loop of `HeapScheduler::BottomUp`. -/
def bottomUpFrom (h : HeapScheduler) (index : Nat) : HeapScheduler :=
  if _hup : index ≠ root ∧ h.isLessStrictly index (parent index) then
    (h.exch index (parent index)).bottomUpFrom (parent index)
  else h
termination_by index
decreasing_by
  have hpos : index ≠ 0 := by
    rintro rfl
    exact h.isLessStrictly_irrefl 0 _hup.2
  show index / 2 < index
  omega

/-- `HeapScheduler::BottomUp`. -/
def bottomUp : HeapScheduler := h.bottomUpFrom h.last

theorem smallest_pos {index : Nat} (hindex : 0 < index) : index < h.smallest (leftChild index) (rightChild index) := by
  unfold smallest leftChild rightChild
  split
  · omega
  · omega

/-- `HeapScheduler::TopDown`. -/
def topDown (h : HeapScheduler) (index : Nat) (hindex : 0 < index) : HeapScheduler :=
  if _hright : ¬ h.isBottom (rightChild index) then
    let tmp := h.smallest (leftChild index) (rightChild index)
    if h.isLessStrictly index tmp then h
    else (h.exch index tmp).topDown tmp (hindex.trans (h.smallest_pos hindex))
  else if h.isBottom index then h
  else if h.isBottom (leftChild index) then h
  else if h.isLessStrictly index (leftChild index) then h
  else h.exch index (leftChild index)
termination_by h.m_heap.size - index
decreasing_by
  have hlt := h.smallest_pos hindex
  have hsize : index * 2 + 1 < h.m_heap.size := Nat.not_le.mp _hright
  show (h.exch index (h.smallest _ _)).m_heap.size - h.smallest _ _ < _
  rw [size_exch]
  omega

/-- `HeapScheduler::Insert`. -/
def insert (ev : Event) : HeapScheduler := (HeapScheduler.mk (h.m_heap.push ev)).bottomUp

/-- `HeapScheduler::PeekNext`. -/
def peekNext : Option Event := if h.isEmpty then none else some (h.item root)

/-- `HeapScheduler::RemoveNext`. -/
def removeNext : Option (Event × HeapScheduler) :=
  if h.isEmpty then none
  else some (h.item root, (h.exch root h.last).popBack.topDown root Nat.one_pos)

/-- Where the loop of `HeapScheduler::Remove` finds the uid of an event. -/
def position (ev : Event) : Option Nat :=
  (List.range' 1 (h.m_heap.size - 1)).find? fun i => ev.key.m_uid = (h.item i).key.m_uid

theorem position_some {h : HeapScheduler} {ev : Event} {i : Nat} (hi : h.position ev = some i) :
    0 < i ∧ i < h.m_heap.size ∧ (h.item i).uid = ev.uid := by
  have hmem := List.mem_of_find?_eq_some hi
  have huid := List.find?_some hi
  rw [List.mem_range'_1] at hmem
  rw [decide_eq_true_eq] at huid
  exact ⟨hmem.1, by omega, huid.symm⟩

/-- `HeapScheduler::Remove`. -/
def remove (ev : Event) : HeapScheduler :=
  match hi : h.position ev with
  | some i => (h.exch i h.last).popBack.topDown i (position_some hi).1
  | none => h

end HeapScheduler

/-- `HeapScheduler` as a scheduler. -/
def heapScheduler : Scheduler HeapScheduler where
  insert := HeapScheduler.insert
  peekNext := HeapScheduler.peekNext
  removeNext := HeapScheduler.removeNext
  remove := HeapScheduler.remove

namespace HeapScheduler

/-- The events in the heap. -/
def stored (h : HeapScheduler) : List Event := h.m_heap.toList.tail

/-- No event in the heap is before the one above it. -/
def Ordered (h : HeapScheduler) : Prop := ∀ i, 2 ≤ i → i < h.m_heap.size → ¬ h.item (i / 2) > h.item i

/-- The ranks of the places. -/
def ranks (h : HeapScheduler) (i : ℕ) : ℕ ×ₗ ℕ := (h.item i).rank

variable {h : HeapScheduler} {a b i n index : ℕ} {ev : Event}

theorem ordered_iff (hn : h.m_heap.size = n + 1) : h.Ordered ↔ HeapOrdered h.ranks n := by
  refine forall₂_congr fun i _ => ?_
  rw [hn, Nat.lt_succ_iff]
  exact imp_congr_right fun _ => Event.not_lt_iff

/-! ### Exchanged items -/

theorem item_eq (hi : i < h.m_heap.size) : h.item i = h.m_heap[i] := by
  rw [item, Array.getD_eq_getD_getElem?, Array.getElem?_eq_getElem hi, Option.getD_some]

theorem item_exch (ha : a < h.m_heap.size) (hb : b < h.m_heap.size) (i : ℕ) :
    (h.exch a b).item i = h.item (Equiv.swap a b i) := by
  by_cases hi : i < h.m_heap.size
  · have hswap : Equiv.swap a b i < h.m_heap.size := by
      rw [Equiv.swap_apply_def]
      split_ifs
      · exact hb
      · exact ha
      · exact hi
    have hlt : i < (h.m_heap.swapIfInBounds a b).size := by
      rw [Array.size_swapIfInBounds]
      exact hi
    rw [item_eq (h := h.exch a b) hlt, item_eq hswap]
    show (h.m_heap.swapIfInBounds a b)[i] = _
    rw [Array.getElem_swapIfInBounds]
    grind
  · have hia : i ≠ a := by omega
    have hib : i ≠ b := by omega
    rw [Equiv.swap_apply_of_ne_of_ne hia hib, item, item, Array.getD_eq_getD_getElem?, Array.getD_eq_getD_getElem?,
      Array.getElem?_eq_none (by rw [size_exch]; omega), Array.getElem?_eq_none (by omega)]

theorem ranks_exch (ha : a < h.m_heap.size) (hb : b < h.m_heap.size) : (h.exch a b).ranks = exchanged h.ranks a b := by
  funext i
  rw [ranks, item_exch ha hb, exchanged, ranks]

theorem toList_eq (hpos : 0 < h.m_heap.size) : h.m_heap.toList = h.item 0 :: h.stored := by
  obtain ⟨⟨items⟩⟩ := h
  cases items with
  | nil => cases hpos
  | cons x items => rfl

/-- A heap whose items are another's, the one that is not used in its place. -/
structure Rearranged (h h' : HeapScheduler) : Prop where
  size : h'.m_heap.size = h.m_heap.size
  stored : h'.stored.Perm h.stored

namespace Rearranged

theorem refl (h : HeapScheduler) : Rearranged h h := ⟨rfl, List.Perm.refl _⟩

theorem trans {h₁ h₂ h₃ : HeapScheduler} (h12 : Rearranged h₁ h₂) (h23 : Rearranged h₂ h₃) : Rearranged h₁ h₃ :=
  ⟨h23.size.trans h12.size, h23.stored.trans h12.stored⟩

theorem exch (ha : 0 < a) (hb : 0 < b) (ha' : a < h.m_heap.size) (hb' : b < h.m_heap.size) :
    Rearranged h (h.exch a b) where
  size := size_exch h a b
  stored := by
    have hperm : (h.exch a b).m_heap.toList.Perm h.m_heap.toList := by
      show (h.m_heap.swapIfInBounds a b).toList.Perm _
      rw [Array.swapIfInBounds_def, dif_pos ha', dif_pos hb']
      exact (Array.swap_perm ha' hb').toList
    have hhead : (h.exch a b).item 0 = h.item 0 := by
      rw [item_exch ha' hb', Equiv.swap_apply_of_ne_of_ne (by omega) (by omega)]
    rw [toList_eq (by rw [size_exch]; omega), toList_eq (by omega), hhead] at hperm
    exact hperm.cons_inv

end Rearranged

/-! ### The two loops -/

/-- `BottomUp` puts in order a heap whose last item only may be too small for its place. -/
theorem bottomUpFrom_spec (hn : h.m_heap.size = n + 1) (hrising : RisingAt h.ranks n index) (hpos : 0 < index)
    (hle : index ≤ n) : HeapOrdered (h.bottomUpFrom index).ranks n ∧ Rearranged h (h.bottomUpFrom index) := by
  induction h, index using bottomUpFrom.induct with
  | case1 h index hup ih =>
    have hne : index ≠ 1 := hup.1
    have hparent : parent index = index / 2 := rfl
    have hlt : h.ranks index < h.ranks (index / 2) := Event.lt_iff.mp hup.2
    have hmove := hrising.exchange (by omega) hle hlt
    rw [bottomUpFrom, dif_pos hup]
    rw [← ranks_exch (by omega) (by omega)] at hmove
    have hrest := ih (by rw [size_exch, hn]) hmove (by omega) (by omega)
    exact ⟨hrest.1, (Rearranged.exch hpos (by omega) (by omega) (by omega)).trans hrest.2⟩
  | case2 h index hup =>
    rw [bottomUpFrom, dif_neg hup]
    refine ⟨hrising.ordered fun h2 => ?_, Rearranged.refl h⟩
    have hne : index ≠ 1 := by omega
    exact Event.not_lt_iff.mp fun hlt => hup ⟨hne, hlt⟩

/-- The smaller of two children is not after either. -/
theorem smallest_le (a b : ℕ) : h.ranks (h.smallest a b) ≤ h.ranks a ∧ h.ranks (h.smallest a b) ≤ h.ranks b := by
  unfold smallest
  split
  · next hlt => exact ⟨le_refl _, (Event.lt_iff.mp hlt).le⟩
  · next hlt => exact ⟨Event.not_lt_iff.mp hlt, le_refl _⟩

/-- `TopDown` puts in order a heap where one item only may be too large for its place. -/
theorem topDown_spec (hpos : 0 < index) (hn : h.m_heap.size = n + 1) (hsinking : SinkingAt h.ranks n index) :
    HeapOrdered (h.topDown index hpos).ranks n ∧ Rearranged h (h.topDown index hpos) := by
  induction h, index, hpos using topDown.induct with
  | case1 h index hpos hright tmp hless =>
    have hlt : h.ranks index < h.ranks tmp := Event.lt_iff.mp hless
    have hle := smallest_le (h := h) (leftChild index) (rightChild index)
    rw [topDown, dif_pos hright, if_pos hless]
    refine ⟨hsinking.ordered fun i _ hi hchild => ?_, Rearranged.refl h⟩
    rcases (by omega : i = index * 2 ∨ i = index * 2 + 1) with rfl | rfl
    · exact hlt.le.trans hle.1
    · exact hlt.le.trans hle.2
  | case2 h index hpos hright tmp hless ih =>
    have hsize : index * 2 + 1 < h.m_heap.size := Nat.not_le.mp hright
    have htmp : tmp = index * 2 ∨ tmp = index * 2 + 1 := by
      exact ite_eq_or_eq (h.isLessStrictly (leftChild index) (rightChild index)) (leftChild index) (rightChild index)
    have hle := smallest_le (h := h) (leftChild index) (rightChild index)
    have hmove := hsinking.exchange (c := tmp) (by omega) (by omega) (by omega) (Event.not_lt_iff.mp hless) (by
      intro i _ _ hchild
      rcases (by omega : i = index * 2 ∨ i = index * 2 + 1) with rfl | rfl
      · exact hle.1
      · exact hle.2)
    rw [← ranks_exch (by omega) (by omega)] at hmove
    rw [topDown, dif_pos hright, if_neg hless]
    have hrest := ih (by rw [size_exch, hn]) hmove
    exact ⟨hrest.1, (Rearranged.exch hpos (by omega) (by omega) (by omega)).trans hrest.2⟩
  | case3 h index hpos hright hbottom =>
    have hsize : h.m_heap.size ≤ index := hbottom
    rw [topDown, dif_neg hright, if_pos hbottom]
    exact ⟨hsinking.ordered fun i _ hi hchild => by omega, Rearranged.refl h⟩
  | case4 h index hpos hright hbottom hleft =>
    have hsize : h.m_heap.size ≤ index * 2 := hleft
    rw [topDown, dif_neg hright, if_neg hbottom, if_pos hleft]
    exact ⟨hsinking.ordered fun i _ hi hchild => by omega, Rearranged.refl h⟩
  | case5 h index hpos hright hbottom hleft hless =>
    have hsize : h.m_heap.size ≤ index * 2 + 1 := Decidable.not_not.mp hright
    rw [topDown, dif_neg hright, if_neg hbottom, if_neg hleft, if_pos hless]
    refine ⟨hsinking.ordered fun i _ hi hchild => ?_, Rearranged.refl h⟩
    obtain rfl : i = index * 2 := by omega
    exact (Event.lt_iff.mp hless).le
  | case6 h index hpos hright hbottom hleft hless =>
    have hsize : h.m_heap.size ≤ index * 2 + 1 := Decidable.not_not.mp hright
    have hin : leftChild index < h.m_heap.size := Nat.not_le.mp hleft
    have hchild : leftChild index = index * 2 := rfl
    have hmove := hsinking.exchange (c := leftChild index) (by omega) (by omega) (by omega) (Event.not_lt_iff.mp hless) (by
      intro i _ _ hi
      obtain rfl : i = leftChild index := by omega
      exact le_refl _)
    rw [← ranks_exch (by omega) (by omega)] at hmove
    rw [topDown, dif_neg hright, if_neg hbottom, if_neg hleft, if_neg hless]
    -- the left child is the last item, so that nothing is below it
    exact ⟨hmove.ordered fun i _ _ _ => by omega, Rearranged.exch hpos (by omega) (by omega) (by omega)⟩

/-- `TopDown` leaves an item that is before everything below it. -/
theorem topDown_of_less (hpos : 0 < index)
    (hless : ∀ c, c < h.m_heap.size → c / 2 = index → h.isLessStrictly index c) : h.topDown index hpos = h := by
  rw [topDown]
  split
  · next hright =>
    have hsize : index * 2 + 1 < h.m_heap.size := Nat.not_le.mp hright
    refine if_pos ?_
    unfold smallest
    split
    · exact hless (index * 2) (by omega) (by omega)
    · exact hless (index * 2 + 1) hsize (by omega)
  · split
    · rfl
    · split
      · rfl
      · next hleft =>
        have hin : index * 2 < h.m_heap.size := Nat.not_le.mp hleft
        exact if_pos (hless (index * 2) hin (by omega))

/-! ### The last item taken away -/

theorem item_popBack (hi : i + 1 < h.m_heap.size) : h.popBack.item i = h.item i := by
  have hlt : i < h.popBack.m_heap.size := by
    show i < h.m_heap.pop.size
    rw [Array.size_pop]
    omega
  rw [item_eq hlt, item_eq (by omega)]
  exact Array.getElem_pop hlt

/-- The last item in place `i`, where it is not `i` itself. -/
def refilled (h : HeapScheduler) (i : ℕ) : HeapScheduler := (h.exch i h.last).popBack

theorem size_refilled (hn : h.m_heap.size = n + 1) (i : ℕ) : (h.refilled i).m_heap.size = n := by
  show (h.exch i h.last).m_heap.pop.size = n
  rw [Array.size_pop, size_exch, hn, Nat.add_sub_cancel]

theorem item_refilled (hn : h.m_heap.size = n + 1) (hi : i ≤ n) {j : ℕ} (hj : j < n) :
    (h.refilled i).item j = if j = i then h.item n else h.item j := by
  have hlast : h.last = n := by
    rw [last, hn]
    rfl
  rw [refilled, item_popBack (by rw [size_exch]; omega), item_exch (by omega) (by omega), hlast]
  split
  · next hji => rw [hji, Equiv.swap_apply_left]
  · next hji => rw [Equiv.swap_apply_of_ne_of_ne hji (by omega)]

/-- What has been taken out of the heap is the item in place `i`. -/
theorem stored_refilled (hn : h.m_heap.size = n + 1) (hpos : 0 < i) (hi : i ≤ n) :
    (h.item i :: (h.refilled i).stored).Perm h.stored := by
  have hlast : h.last = n := by
    rw [last, hn]
    rfl
  have hswap := Rearranged.exch (h := h) hpos (b := h.last) (by omega) (by omega) (by omega)
  have hsize : (h.exch i h.last).m_heap.toList.length = n + 1 := by rw [Array.length_toList, size_exch, hn]
  have hend : (h.exch i h.last).stored.getLast? = some (h.item i) := by
    show (h.exch i h.last).m_heap.toList.tail.getLast? = _
    rw [List.getLast?_eq_getElem?, List.getElem?_tail, List.length_tail, hsize, Array.getElem?_toList]
    have hin : n < (h.exch i h.last).m_heap.size := by rw [size_exch, hn]; omega
    rw [(by omega : n + 1 - 1 - 1 + 1 = n), Array.getElem?_eq_getElem hin, ← item_eq hin, item_exch (by omega) (by omega),
      hlast, Equiv.swap_apply_right]
  have hstored : (h.refilled i).stored = (h.exch i h.last).stored.dropLast := by
    show (h.exch i h.last).m_heap.pop.toList.tail = (h.exch i h.last).m_heap.toList.tail.dropLast
    rw [Array.toList_pop, List.tail_dropLast]
  rw [hstored]
  have happend : (h.exch i h.last).stored.dropLast ++ [h.item i] = (h.exch i h.last).stored :=
    List.dropLast_append_getLast? _ hend
  have hperm := (List.perm_append_singleton (h.item i) (h.exch i h.last).stored.dropLast).symm
  rw [happend] at hperm
  exact hperm.trans hswap.stored

/-! ### Calls -/

/-- The last item may take the place of the event: it is not before the item above that place. -/
def Settles (h : HeapScheduler) (ev : Event) : Prop :=
  ∀ i, h.position ev = some i → i = h.last ∨ i = root ∨ ¬ h.isLessStrictly h.last (parent i)

/-- An ordered heap of the stored events. -/
structure Heaps (h : HeapScheduler) (stored : List Event) : Prop where
  size : 0 < h.m_heap.size
  ordered : h.Ordered
  holds : h.stored.Perm stored
  distinct : DistinctUids stored

theorem length_stored (h : HeapScheduler) : h.stored.length = h.m_heap.size - 1 := by
  rw [stored, List.length_tail, Array.length_toList]

theorem stored_getElem? (h : HeapScheduler) (i : ℕ) : h.stored[i]? = h.m_heap[i + 1]? := by
  rw [stored, List.getElem?_tail, Array.getElem?_toList]

theorem mem_stored : ev ∈ h.stored ↔ ∃ i, 0 < i ∧ i < h.m_heap.size ∧ h.item i = ev := by
  rw [List.mem_iff_getElem?]
  constructor
  · rintro ⟨i, hi⟩
    rw [stored_getElem?] at hi
    obtain ⟨hlt, heq⟩ := Array.getElem?_eq_some_iff.mp hi
    exact ⟨i + 1, Nat.succ_pos i, hlt, by rw [item_eq hlt, heq]⟩
  · rintro ⟨i, hpos, hlt, rfl⟩
    refine ⟨i - 1, ?_⟩
    rw [stored_getElem?, Nat.sub_add_cancel hpos, Array.getElem?_eq_getElem hlt, item_eq hlt]

namespace Heaps

variable {stored : List Event}

theorem start : Heaps new [] where
  size := Nat.one_pos
  ordered := fun i h2 hi => absurd (Nat.lt_of_le_of_lt h2 hi) (by decide)
  holds := List.Perm.refl _
  distinct := List.Pairwise.nil

theorem firstOf (hh : h.Heaps stored) (hne : 1 < h.m_heap.size) : FirstOf stored (h.item root) := by
  obtain ⟨n, hn⟩ : ∃ n, h.m_heap.size = n + 1 := ⟨h.m_heap.size - 1, by omega⟩
  refine ⟨hh.holds.mem_iff.mp (mem_stored.mpr ⟨root, Nat.one_pos, hne, rfl⟩), fun e he => ?_⟩
  obtain ⟨i, hpos, hi, rfl⟩ := mem_stored.mp (hh.holds.mem_iff.mpr he)
  exact Event.not_lt_iff.mpr (((ordered_iff hn).mp hh.ordered).root_le hpos (by omega))

theorem isEmpty_iff (hh : h.Heaps stored) : h.isEmpty ↔ stored = [] := by
  have hlength := hh.holds.length_eq
  have hsize := hh.size
  rw [length_stored] at hlength
  rw [isEmpty, ← List.length_eq_zero_iff]
  omega

theorem insert (hh : h.Heaps stored) (hev : ∀ e ∈ stored, e.uid ≠ ev.uid) : (h.insert ev).Heaps (ev :: stored) := by
  obtain ⟨n, hn⟩ : ∃ n, h.m_heap.size = n + 1 := ⟨h.m_heap.size - 1, by have := hh.size; omega⟩
  have hpush : (HeapScheduler.mk (h.m_heap.push ev)).m_heap.size = n + 1 + 1 := by
    show (h.m_heap.push ev).size = _
    rw [Array.size_push, hn]
  have hsame : ∀ i, 1 ≤ i → i ≤ n → (HeapScheduler.mk (h.m_heap.push ev)).ranks i = h.ranks i := by
    intro i _ hi
    rw [ranks, ranks, item_eq (by omega), item_eq (h := h) (by omega)]
    exact congrArg Event.rank (Array.getElem_push_lt (by omega))
  have hrising := ((ordered_iff hn).mp hh.ordered).risingAt hsame
  have hspec := bottomUpFrom_spec hpush hrising (by omega) (le_refl _)
  have hlast : (HeapScheduler.mk (h.m_heap.push ev)).last = n + 1 := by
    rw [last, hpush]
    rfl
  have hinsert : h.insert ev = (HeapScheduler.mk (h.m_heap.push ev)).bottomUpFrom (n + 1) := by
    rw [HeapScheduler.insert, bottomUp, hlast]
  have hstored : (HeapScheduler.mk (h.m_heap.push ev)).stored = h.stored ++ [ev] := by
    show (h.m_heap.push ev).toList.tail = h.m_heap.toList.tail ++ [ev]
    have hne : h.m_heap.toList ≠ [] := by
      rw [toList_eq hh.size]
      exact List.cons_ne_nil _ _
    rw [Array.toList_push, List.tail_append_of_ne_nil hne]
  rw [hinsert]
  have hsize := hspec.2.size.trans hpush
  refine ⟨by omega, (ordered_iff hsize).mpr hspec.1, ?_, List.pairwise_cons.mpr ⟨fun e he => (hev e he).symm, hh.distinct⟩⟩
  have hperm := hspec.2.stored
  rw [hstored] at hperm
  exact hperm.trans ((List.perm_append_singleton ev _).trans (hh.holds.cons ev))

/-- The event in place `i` goes, where the last item may take its place. -/
theorem refilled (hh : h.Heaps stored) (hpos : 0 < i) (hi : i < h.m_heap.size)
    (hsettles : i = h.last ∨ i = root ∨ ¬ h.isLessStrictly h.last (parent i)) :
    ((h.refilled i).topDown i hpos).Heaps (stored.erase (h.item i)) := by
  obtain ⟨n, hn⟩ : ∃ n, h.m_heap.size = n + 1 + 1 := ⟨h.m_heap.size - 2, by omega⟩
  have hlast : h.last = n + 1 := by
    rw [last, hn]
    rfl
  have hsize := size_refilled hn i
  have hordered := ((ordered_iff hn).mp hh.ordered).mono (Nat.le_succ n)
  have hsinking : SinkingAt (h.refilled i).ranks n i := by
    refine hordered.sinkingAt (fun j _ hj hne => ?_) fun h2 hin => ?_
    · rw [ranks, item_refilled hn (by omega) (by omega), if_neg hne]
      rfl
    · have hne : ¬ i = n + 1 := by omega
      have hroot : ¬ i = 1 := by omega
      rw [hlast] at hsettles
      rw [ranks, ranks, item_refilled hn (by omega) (by omega), if_pos rfl]
      exact Event.not_lt_iff.mp ((hsettles.resolve_left hne).resolve_left hroot)
  have hspec := topDown_spec hpos hsize hsinking
  have hperm := stored_refilled hn hpos (by omega : i ≤ n + 1)
  refine ⟨?_, (ordered_iff (hspec.2.size.trans hsize)).mpr hspec.1, ?_, hh.distinct.sublist List.erase_sublist⟩
  · rw [hspec.2.size, hsize]
    exact Nat.succ_pos n
  · have herase := (hperm.trans hh.holds).erase (h.item i)
    rw [List.erase_cons_head] at herase
    exact hspec.2.stored.trans herase

/-- Otherwise that item stays there, out of order. -/
theorem not_ordered (hh : h.Heaps stored) (hpos : 0 < i) (hi : i < h.m_heap.size)
    (hsettles : ¬ (i = h.last ∨ i = root ∨ ¬ h.isLessStrictly h.last (parent i))) :
    ¬ ((h.refilled i).topDown i hpos).Ordered := by
  obtain ⟨n, hn⟩ : ∃ n, h.m_heap.size = n + 1 + 1 := ⟨h.m_heap.size - 2, by omega⟩
  have hlast : h.last = n + 1 := by
    rw [last, hn]
    rfl
  rw [not_or, not_or, Decidable.not_not, hlast] at hsettles
  obtain ⟨hne, hroot, hless⟩ := hsettles
  have hroot : i ≠ 1 := hroot
  have hsize := size_refilled hn i
  have hordered := (ordered_iff hn).mp hh.ordered
  have hitem : (h.refilled i).item i = h.item (n + 1) := by rw [item_refilled hn (by omega) (by omega), if_pos rfl]
  have hparent : (h.refilled i).item (i / 2) = h.item (i / 2) := by
    rw [item_refilled hn (by omega) (by omega), if_neg (by omega)]
  -- the parent is not after the children, so the item is before them and `TopDown` leaves it
  have hstays : (h.refilled i).topDown i hpos = h.refilled i := by
    refine topDown_of_less hpos fun c hc hchild => ?_
    have hup := hordered i (by omega) (by omega)
    have hdown := hordered c (by omega) (by omega)
    rw [hchild] at hdown
    show (h.refilled i).item i < (h.refilled i).item c
    rw [hitem, item_refilled hn (by omega) (by omega), if_neg (by omega)]
    exact Event.lt_iff.mpr ((Event.lt_iff.mp hless).trans_le (hup.trans hdown))
  intro hafter
  rw [hstays] at hafter
  apply hafter i (by omega) (by omega)
  rw [hitem, hparent]
  exact hless

/-- The loop of `Remove` finds a stored event. -/
theorem position_stored (hh : h.Heaps stored) (hev : ev ∈ stored) :
    ∃ i, h.position ev = some i ∧ 0 < i ∧ i < h.m_heap.size ∧ h.item i = ev := by
  obtain ⟨j, hpos, hj, hitem⟩ := mem_stored.mp (hh.holds.mem_iff.mpr hev)
  cases hi : h.position ev with
  | none =>
    rw [position, List.find?_eq_none] at hi
    have hne := hi j (List.mem_range'_1.mpr ⟨hpos, by omega⟩)
    rw [hitem] at hne
    exact absurd (decide_eq_true rfl) hne
  | some i =>
    obtain ⟨hpos, hlt, huid⟩ := position_some hi
    have hmem := hh.holds.mem_iff.mp (mem_stored.mpr ⟨i, hpos, hlt, rfl⟩)
    exact ⟨i, rfl, hpos, hlt, hh.distinct.eq_of_uid hmem hev huid⟩

theorem remove_eq {i : ℕ} (hi : h.position ev = some i) :
    h.remove ev = (h.refilled i).topDown i (position_some hi).1 := by
  unfold HeapScheduler.remove
  split
  · next j hj =>
    obtain rfl : j = i := Option.some.inj (hj.symm.trans hi)
    rfl
  · next hnone => rw [hnone] at hi; cases hi

end Heaps

end HeapScheduler

/-- What a call needs of the heap. -/
def SchedulerCall.Settled (h : HeapScheduler) : SchedulerCall → Prop
  | .insert _ => True
  | .peekNext => True
  | .removeNext => True
  | .remove ev => h.Settles ev

namespace HeapScheduler.Heaps

variable {h : HeapScheduler} {stored : List Event} {c : SchedulerCall}

/-- A call leaves the heap in order exactly when the last item may take the place of what is removed, and then it answers
with the first event. -/
theorem call (hh : h.Heaps stored) (hc : c.Allowed stored) :
    c.Right stored (heapScheduler.call h c).2 ∧
      ((heapScheduler.call h c).1.Ordered ↔ c.Settled h) ∧
      (c.Settled h → (heapScheduler.call h c).1.Heaps (c.keeps stored (heapScheduler.call h c).2)) := by
  cases c with
  | insert ev =>
    have hafter := hh.insert hc
    exact ⟨rfl, iff_of_true hafter.ordered trivial, fun _ => hafter⟩
  | peekNext =>
    have hne : ¬ h.isEmpty := fun hempty => hc (hh.isEmpty_iff.mp hempty)
    have hsize := hh.size
    refine ⟨⟨h.item root, if_neg hne, hh.firstOf ?_⟩, iff_of_true hh.ordered trivial, fun _ => hh⟩
    exact Nat.lt_of_le_of_ne hsize fun heq => hne heq.symm
  | removeNext =>
    have hne : ¬ h.isEmpty := fun hempty => hc (hh.isEmpty_iff.mp hempty)
    have hsize : 1 < h.m_heap.size := Nat.lt_of_le_of_ne hh.size fun heq => hne heq.symm
    have hcall : heapScheduler.call h .removeNext = ((h.refilled root).topDown root Nat.one_pos, some (h.item root)) := by
      have hnext : heapScheduler.removeNext h = some (h.item root, (h.refilled root).topDown root Nat.one_pos) := if_neg hne
      simp only [Scheduler.call, hnext]
    have hafter := hh.refilled Nat.one_pos hsize (.inr (.inl rfl))
    rw [hcall]
    exact ⟨⟨h.item root, rfl, hh.firstOf hsize⟩, iff_of_true hafter.ordered trivial, fun _ => hafter⟩
  | remove ev =>
    obtain ⟨i, hi, hpos, hlt, hitem⟩ := hh.position_stored hc
    have hcall : (heapScheduler.call h (.remove ev)).1 = (h.refilled i).topDown i hpos := remove_eq hi
    have hsettled : SchedulerCall.Settled h (.remove ev) ↔
        (i = h.last ∨ i = root ∨ ¬ h.isLessStrictly h.last (parent i)) := by
      constructor
      · exact fun hs => hs i hi
      · intro hs j hj
        obtain rfl : i = j := Option.some.inj (hi.symm.trans hj)
        exact hs
    rw [hcall, hsettled]
    have hafter := fun hs => hh.refilled hpos hlt hs
    rw [hitem] at hafter
    refine ⟨rfl, ⟨fun hordered => ?_, fun hs => (hafter hs).ordered⟩, hafter⟩
    exact Decidable.not_not.mp fun hs => hh.not_ordered hpos hlt hs hordered

end HeapScheduler.Heaps

/-! ### Two schedulers side by side -/

/-- Each of these calls may be made when it comes, the list scheduler answering. -/
def AllowedRun (l : ListScheduler) (stored : List Event) : List SchedulerCall → Prop
  | [] => True
  | c :: calls =>
    c.Allowed stored ∧ AllowedRun (listScheduler.call l c).1 (c.keeps stored (listScheduler.call l c).2) calls

/-- Both schedulers answer each of these calls with the first of the stored events, and each leaves the heap in order. -/
def HeapRefines (h : HeapScheduler) (l : ListScheduler) (stored : List Event) : List SchedulerCall → Prop
  | [] => True
  | c :: calls =>
    (heapScheduler.call h c).2 = (listScheduler.call l c).2 ∧ c.Right stored (listScheduler.call l c).2 ∧
      (heapScheduler.call h c).1.Ordered ∧
      HeapRefines (heapScheduler.call h c).1 (listScheduler.call l c).1 (c.keeps stored (listScheduler.call l c).2) calls

/-- Whenever one of these calls removes an event, the last item of the heap is not before what is above its place. -/
def SettledRun (h : HeapScheduler) : List SchedulerCall → Prop
  | [] => True
  | c :: calls => c.Settled h ∧ SettledRun (heapScheduler.call h c).1 calls

theorem heapRefines_iff {h : HeapScheduler} {l : ListScheduler} {stored : List Event} (hh : h.Heaps stored)
    (hl : l.Lists stored) (calls : List SchedulerCall) (hallowed : AllowedRun l stored calls) :
    HeapRefines h l stored calls ↔ SettledRun h calls := by
  induction calls generalizing h l stored with
  | nil => exact Iff.rfl
  | cons c calls ih =>
    obtain ⟨hc, hcalls⟩ := hallowed
    obtain ⟨hright, hordered, hafter⟩ := hh.call hc
    obtain ⟨hright', hafter'⟩ := hl.call hc
    have hsame := hright.unique hh.distinct hright'
    rw [hsame] at hafter
    constructor
    · rintro ⟨-, -, hord, hrest⟩
      have hs := hordered.mp hord
      exact ⟨hs, (ih (hafter hs) hafter' hcalls).mp hrest⟩
    · rintro ⟨hs, hrest⟩
      exact ⟨hsame, hright', hordered.mpr hs, (ih (hafter hs) hafter' hcalls).mpr hrest⟩

/-- From empty schedulers the heap refines the list exactly in the runs in which every removed event can be replaced by the
last item, which `Remove` never moves up. -/
theorem heap_scheduler (calls : List SchedulerCall) (hallowed : AllowedRun ⟨[]⟩ [] calls) :
    HeapRefines HeapScheduler.new ⟨[]⟩ [] calls ↔ SettledRun HeapScheduler.new calls :=
  heapRefines_iff .start .start calls hallowed

/-- What a run of calls returns. -/
def Scheduler.answers {σ : Type} (S : Scheduler σ) (s : σ) : List SchedulerCall → List (Option Event)
  | [] => []
  | c :: calls => (S.call s c).2 :: S.answers (S.call s c).1 calls

theorem HeapRefines.answers {h : HeapScheduler} {l : ListScheduler} {stored : List Event} {calls : List SchedulerCall}
    (hrefines : HeapRefines h l stored calls) : heapScheduler.answers h calls = listScheduler.answers l calls := by
  induction calls generalizing h l stored with
  | nil => rfl
  | cons c calls ih =>
    rw [Scheduler.answers, Scheduler.answers, hrefines.1, ih hrefines.2.2.2]

instance SchedulerCall.decidableAllowed (stored : List Event) (c : SchedulerCall) : Decidable (c.Allowed stored) :=
  match c with
  | .insert ev => inferInstanceAs (Decidable (∀ e ∈ stored, e.uid ≠ ev.uid))
  | .peekNext => inferInstanceAs (Decidable (stored ≠ []))
  | .removeNext => inferInstanceAs (Decidable (stored ≠ []))
  | .remove ev => inferInstanceAs (Decidable (ev ∈ stored))

instance decidableAllowedRun (l : ListScheduler) (stored : List Event) (calls : List SchedulerCall) :
    Decidable (AllowedRun l stored calls) :=
  match calls with
  | [] => .isTrue trivial
  | c :: calls =>
    have := decidableAllowedRun (listScheduler.call l c).1 (c.keeps stored (listScheduler.call l c).2) calls
    inferInstanceAs (Decidable (_ ∧ _))

/-- Seven events, one of them removed whose place the last one takes below a later one. -/
def lateCalls : List SchedulerCall :=
  [.insert ⟨1, ⟨1, 1, 0⟩⟩, .insert ⟨2, ⟨10, 2, 0⟩⟩, .insert ⟨3, ⟨2, 3, 0⟩⟩, .insert ⟨4, ⟨11, 4, 0⟩⟩,
    .insert ⟨5, ⟨12, 5, 0⟩⟩, .insert ⟨6, ⟨20, 6, 0⟩⟩, .insert ⟨7, ⟨3, 7, 0⟩⟩, .remove ⟨4, ⟨11, 4, 0⟩⟩,
    .removeNext, .removeNext, .peekNext]

theorem heap_scheduler_three :
    HeapRefines HeapScheduler.new ⟨[]⟩ []
        [.insert ⟨1, ⟨5, 1, 0⟩⟩, .insert ⟨2, ⟨4, 2, 0⟩⟩, .insert ⟨3, ⟨6, 3, 0⟩⟩, .remove ⟨1, ⟨5, 1, 0⟩⟩, .removeNext] ↔
      SettledRun HeapScheduler.new
        [.insert ⟨1, ⟨5, 1, 0⟩⟩, .insert ⟨2, ⟨4, 2, 0⟩⟩, .insert ⟨3, ⟨6, 3, 0⟩⟩, .remove ⟨1, ⟨5, 1, 0⟩⟩, .removeNext] :=
  heap_scheduler _ (by decide)

/-- The heap returns the event of time 10 while that of time 3 is stored. -/
theorem not_heap_scheduler_late :
    AllowedRun ⟨[]⟩ [] lateCalls ∧ ¬ HeapRefines HeapScheduler.new ⟨[]⟩ [] lateCalls := by
  refine ⟨by decide +kernel, fun hrefines => ?_⟩
  have hsame := hrefines.answers
  revert hsame
  decide +kernel

end Ns3.Core
