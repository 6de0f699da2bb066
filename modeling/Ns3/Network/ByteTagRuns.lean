import Ns3.Network.ByteTagShare

/-!
# Tags of bytes

What tags a list reports for a byte, through every run of calls on packets.
-/

namespace Ns3.Network

/-! ### 32 bits -/

/-- A value of `int32_t`. -/
def Fits32 (x : Int) : Prop := -2 ^ 31 ≤ x ∧ x < 2 ^ 31

instance (x : Int) : Decidable (Fits32 x) := inferInstanceAs (Decidable (_ ∧ _))

theorem int32_eq {x : Int} (h : Fits32 x) : int32 x = x := by
  obtain ⟨h1, h2⟩ := h
  rw [int32]
  omega

/-- Arithmetic goes through a conversion. -/
theorem int32_add (x y : Int) : int32 (x + int32 y) = int32 (x + y) := by
  simp only [int32]
  omega

/-! ### The tags of a byte -/

/-- The tag of an item that covers the byte `k`. -/
def TagItem.at (e : TagItem) (k : Int) : Option ByteTag :=
  if e.start ≤ k ∧ k < e.stop then some e.tag else none

/-- The tags of the items that cover the byte `k`. -/
def tagsAt (es : List TagItem) (k : Int) : List ByteTag := es.filterMap fun e => e.at k

section Tags

variable {h h' : TagHeap} {live : List ByteTagList} {l : ByteTagList} {es es' : List TagItem}
  {e : TagItem} {k a b : Int} {f : TagItem → Option TagItem}

theorem TagItem.at_of_not (hnot : ¬ (e.start ≤ k ∧ k < e.stop)) : e.at k = none := if_neg hnot

theorem tagsAt_append : tagsAt (es ++ es') k = tagsAt es k ++ tagsAt es' k :=
  List.filterMap_append ..

/-- Items that are changed one by one cover a byte where the old ones covered one. -/
theorem tagsAt_filterMap {k' : Int} (hf : ∀ e ∈ es, (f e).bind (fun e => e.at k') = e.at k) :
    tagsAt (es.filterMap f) k' = tagsAt es k := by
  rw [tagsAt, tagsAt, List.filterMap_filterMap]
  exact List.filterMap_congr hf

theorem tagsAt_eq_nil (hes : ∀ e ∈ es, ¬ (e.start ≤ k ∧ k < e.stop)) : tagsAt es k = [] := by
  rw [tagsAt, List.filterMap_eq_nil_iff]
  exact fun e he => TagItem.at_of_not (hes e he)

/-- No sum with the adjustment overflows: those of the items, and those of the offsets of a packet of
`size` bytes. -/
structure ByteTagList.Exact (h : TagHeap) (l : ByteTagList) (size : Nat) : Prop where
  adjustment : Fits32 l.m_adjustment
  first : Fits32 (-l.m_adjustment)
  last : Fits32 (size - l.m_adjustment)
  items : ∀ e ∈ l.items h, Fits32 (e.start + l.m_adjustment) ∧ Fits32 (e.stop + l.m_adjustment)

/-- The bounds that a list keeps for its items. -/
def ByteTagList.Bounds (l : ByteTagList) (es : List TagItem) : Prop :=
  ∀ e ∈ es, l.m_minStart ≤ e.start ∧ e.stop ≤ l.m_maxEnd

/-- A list of a packet of `size` bytes reports `tags`. -/
structure ByteTagList.Sound (h : TagHeap) (l : ByteTagList) (size : Nat) (tags : Nat → List ByteTag) :
    Prop where
  exact : l.Exact h size
  bounds : l.Bounds (l.items h)
  covers : ∀ k : Nat, k < size → tagsAt (l.items h) (k - l.m_adjustment) = tags k

/-- An item cut to what an iterator is asked for. -/
theorem ByteTagList.itemIn_at (hs : Fits32 (e.start + l.m_adjustment))
    (ht : Fits32 (e.stop + l.m_adjustment)) (ha : a ≤ k) (hb : k < b) :
    (l.itemIn a b e).bind (fun e => e.at k) = e.at (k - l.m_adjustment) := by
  rw [itemIn, int32_eq hs, int32_eq ht]
  split
  · rw [TagItem.at_of_not (by omega)]
    rfl
  · simp only [Option.bind_some, TagItem.at]
    congr 1
    rw [eq_iff_iff]
    omega

/-- What an iterator returns lies between the offsets it is asked for. -/
theorem ByteTagList.within_itemsIn (he : e ∈ l.itemsIn h a b) : a ≤ e.start ∧ e.stop ≤ b := by
  obtain ⟨e₀, -, heq⟩ := List.mem_filterMap.mp he
  rw [itemIn] at heq
  split at heq
  · cases heq
  · obtain rfl := Option.some.inj heq
    exact ⟨Int.le_max_right _ _, Int.min_le_right _ _⟩

theorem ByteTagList.tagsAt_itemsIn
    (hfits : ∀ e ∈ l.items h, Fits32 (e.start + l.m_adjustment) ∧ Fits32 (e.stop + l.m_adjustment))
    (ha : a ≤ k) (hb : k < b) : tagsAt (l.itemsIn h a b) k = tagsAt (l.items h) (k - l.m_adjustment) :=
  tagsAt_filterMap fun e he => itemIn_at (hfits e he).1 (hfits e he).2 ha hb

/-- Items as an iterator returns them lie where it is asked for, and are those of the list cut there. -/
theorem ByteTagList.mem_itemsIn
    (hfits : ∀ e ∈ l.items h, Fits32 (e.start + l.m_adjustment) ∧ Fits32 (e.stop + l.m_adjustment))
    (he : e ∈ l.itemsIn h a b) :
    a ≤ e.start ∧ e.start < b ∧ a < e.stop ∧ e.stop ≤ b ∨ b ≤ a := by
  obtain ⟨e₀, he₀, heq⟩ := List.mem_filterMap.mp he
  rw [itemIn, int32_eq (hfits e₀ he₀).1, int32_eq (hfits e₀ he₀).2] at heq
  split at heq
  · cases heq
  · obtain rfl := Option.some.inj heq
    dsimp only
    omega

/-! ### Bounds -/

theorem ByteTagList.add_bounds (hb : l.Bounds es) (tag : ByteTag) (start stop : Int) :
    (l.add h tag start stop).2.Bounds
      (es ++ [⟨tag, int32 (start - l.m_adjustment), int32 (stop - l.m_adjustment)⟩]) := by
  generalize he : (⟨tag, int32 (start - l.m_adjustment), int32 (stop - l.m_adjustment)⟩ : TagItem) = e
  have hmin : (l.add h tag start stop).2.m_minStart = if e.start < l.m_minStart then e.start
      else l.m_minStart := by
    rw [← he]
    rfl
  have hmax : (l.add h tag start stop).2.m_maxEnd = if l.m_maxEnd < e.stop then e.stop
      else l.m_maxEnd := by
    rw [← he]
    rfl
  intro e' he'
  rw [hmin, hmax]
  rcases List.mem_append.mp he' with he' | he'
  · have := hb e' he'
    split <;> split <;> omega
  · rw [List.mem_singleton.mp he']
    split <;> split <;> omega

theorem ByteTagList.addItems_fields (hb : l.Bounds es) (es' : List TagItem) :
    (l.addItems h es').2.m_adjustment = l.m_adjustment ∧
      (l.addItems h es').2.Bounds (es ++ es'.map fun e =>
        ⟨e.tag, int32 (e.start - l.m_adjustment), int32 (e.stop - l.m_adjustment)⟩) := by
  induction es' generalizing h l es with
  | nil =>
    rw [List.map_nil, List.append_nil]
    exact ⟨rfl, hb⟩
  | cons e es' ih =>
    have := ih (h := (l.add h e.tag e.start e.stop).1) (add_bounds (h := h) hb e.tag e.start e.stop)
    rw [List.append_assoc] at this
    exact this

theorem ByteTagList.rebuild_fields (h : TagHeap) (l : ByteTagList) (es : List TagItem) :
    (l.rebuild h es).2.m_adjustment = 0 ∧
      (l.rebuild h es).2.Bounds (es.map fun e => ⟨e.tag, int32 e.start, int32 e.stop⟩) := by
  have := addItems_fields (h := h) (show ByteTagList.Bounds {} [] from fun _ he => nomatch he) es
  simp only [Int.sub_zero, List.nil_append] at this
  exact this

/-! ### Growth -/

/-- A new list of the items that `f` leaves of those an iterator returns. -/
theorem ByteTagList.cut_made (hh : h.Holds (l :: live)) {f : TagItem → Option TagItem}
    (hf : ∀ e ∈ (l.allItems h).filterMap f, 0 ≤ e.start ∧ e.start < 2 ^ 31 ∧ 0 ≤ e.stop ∧
      e.stop < 2 ^ 31) (size : Nat) (hsize : size < 2 ^ 30) :
    h.Made (l.rebuild h ((l.allItems h).filterMap f)).1 live
        (l.rebuild h ((l.allItems h).filterMap f)).2 ((l.allItems h).filterMap f) ∧
      (l.rebuild h ((l.allItems h).filterMap f)).2.m_adjustment = 0 ∧
      (l.rebuild h ((l.allItems h).filterMap f)).2.Bounds ((l.allItems h).filterMap f) ∧
      (l.rebuild h ((l.allItems h).filterMap f)).2.Exact
        (l.rebuild h ((l.allItems h).filterMap f)).1 size := by
  generalize (l.allItems h).filterMap f = es at *
  have hsame : es.map (fun e => (⟨e.tag, int32 e.start, int32 e.stop⟩ : TagItem)) = es := by
    refine (List.map_congr_left fun e he => ?_).trans (List.map_id es)
    obtain ⟨h1, h2, h3, h4⟩ := hf e he
    rw [int32_eq ⟨by omega, h2⟩, int32_eq ⟨by omega, h4⟩]
    rfl
  have hm := rebuild_made hh es
  obtain ⟨hadj, hb⟩ := rebuild_fields h l es
  rw [hsame] at hm hb
  refine ⟨hm, hadj, hb, ?_, ?_, ?_, fun e he => ?_⟩
  · rw [hadj]
    decide
  · rw [hadj]
    decide
  · rw [hadj, Fits32]
    omega
  · rw [hm.items] at he
    obtain ⟨h1, h2, h3, h4⟩ := hf e he
    rw [hadj, Fits32, Fits32]
    omega

/-- The sum with the adjustment for a packet that gets `n` bytes more at its end. -/
def ByteTagList.Grows (l : ByteTagList) (size n : Nat) : Prop :=
  l.m_maxEnd ≤ size - l.m_adjustment → Fits32 ((size + n : Nat) - l.m_adjustment)

/-- Before `n` bytes are added behind `size` bytes: no item covers them. -/
theorem ByteTagList.addAtEnd_made {size n : Nat} (hh : h.Holds (l :: live)) (hx : l.Exact h size)
    (hb : l.Bounds (l.items h)) (hg : l.Grows size n) (hsize : size + n < 2 ^ 30) :
    ∃ es, h.Made (l.addAtEnd h size).1 live (l.addAtEnd h size).2 es ∧
      (l.addAtEnd h size).2.Exact (l.addAtEnd h size).1 (size + n) ∧ (l.addAtEnd h size).2.Bounds es ∧
      ∀ k : Nat, tagsAt es (k - (l.addAtEnd h size).2.m_adjustment) =
        if k < size then tagsAt (l.items h) (k - l.m_adjustment) else [] := by
  rw [addAtEnd, int32_eq hx.last]
  split
  · next hmax =>
    refine ⟨_, ⟨hh, fun _ _ => rfl, rfl⟩, ⟨hx.adjustment, hx.first, hg hmax, hx.items⟩, hb,
      fun k => ?_⟩
    dsimp only
    split
    · rfl
    · refine tagsAt_eq_nil fun e he => ?_
      have := (hb e he).2
      omega
  · have hitems := fun e (he : e ∈ l.allItems h) => mem_itemsIn hx.items he
    have hin : ∀ e ∈ (l.allItems h).filterMap (fun e => if (size : Int) ≤ e.start then none
        else if (size : Int) < e.stop then some { e with stop := size } else some e),
        0 ≤ e.start ∧ e.start < 2 ^ 31 ∧ 0 ≤ e.stop ∧ e.stop < 2 ^ 31 ∧ e.stop ≤ size := by
      intro e he
      obtain ⟨e₀, he₀, heq⟩ := List.mem_filterMap.mp he
      have := hitems e₀ he₀
      split at heq
      · cases heq
      · split at heq
        · obtain rfl := Option.some.inj heq
          dsimp only
          omega
        · obtain rfl := Option.some.inj heq
          omega
    obtain ⟨hm, hadj, hb', hx'⟩ := cut_made hh (fun e he => ⟨(hin e he).1, (hin e he).2.1,
      (hin e he).2.2.1, (hin e he).2.2.2.1⟩) (size + n) hsize
    refine ⟨_, hm, hx', hb', fun k => ?_⟩
    rw [hadj, Int.sub_zero]
    split
    · next hk =>
      rw [← tagsAt_itemsIn hx.items (a := 0) (b := 2 ^ 31 - 1) (by omega) (by omega)]
      refine tagsAt_filterMap fun e he => ?_
      split
      · rw [TagItem.at_of_not (by omega)]
        rfl
      · split
        · simp only [Option.bind_some, TagItem.at]
          congr 1
          rw [eq_iff_iff]
          omega
        · rfl
    · next hk =>
      refine tagsAt_eq_nil fun e he => ?_
      have := hin e he
      omega

/-- After bytes are added before the others: no item covers them. -/
theorem ByteTagList.addAtStart_made {size n : Nat} (hh : h.Holds (l :: live)) (hx : l.Exact h size)
    (hb : l.Bounds (l.items h)) (hn : n ≤ size) (hsize : size < 2 ^ 30) :
    ∃ es, h.Made (l.addAtStart h n).1 live (l.addAtStart h n).2 es ∧
      (l.addAtStart h n).2.Exact (l.addAtStart h n).1 size ∧ (l.addAtStart h n).2.Bounds es ∧
      ∀ k : Int, k < 2 ^ 31 - 1 → tagsAt es (k - (l.addAtStart h n).2.m_adjustment) =
        if k < n then [] else tagsAt (l.items h) (k - l.m_adjustment) := by
  have hfits : Fits32 (n - l.m_adjustment) := by
    have h1 := hx.first
    have h2 := hx.last
    rw [Fits32] at *
    omega
  rw [addAtStart, int32_eq hfits]
  split
  · next hmin =>
    refine ⟨_, ⟨hh, fun _ _ => rfl, rfl⟩, hx, hb, fun k hk => ?_⟩
    dsimp only
    split
    · refine tagsAt_eq_nil fun e he => ?_
      have := (hb e he).1
      omega
    · rfl
  · have hitems := fun e (he : e ∈ l.allItems h) => mem_itemsIn hx.items he
    have hin : ∀ e ∈ (l.allItems h).filterMap (fun e => if e.stop ≤ (n : Int) then none
        else if e.start < (n : Int) then some { e with start := (n : Int) } else some e),
        0 ≤ e.start ∧ e.start < 2 ^ 31 ∧ 0 ≤ e.stop ∧ e.stop < 2 ^ 31 ∧ n ≤ e.start := by
      intro e he
      obtain ⟨e₀, he₀, heq⟩ := List.mem_filterMap.mp he
      have := hitems e₀ he₀
      split at heq
      · cases heq
      · split at heq
        · obtain rfl := Option.some.inj heq
          dsimp only
          omega
        · obtain rfl := Option.some.inj heq
          omega
    obtain ⟨hm, hadj, hb', hx'⟩ := cut_made hh (fun e he => ⟨(hin e he).1, (hin e he).2.1,
      (hin e he).2.2.1, (hin e he).2.2.2.1⟩) size hsize
    refine ⟨_, hm, hx', hb', fun k hk => ?_⟩
    rw [hadj, Int.sub_zero]
    split
    · next hkn =>
      refine tagsAt_eq_nil fun e he => ?_
      have := hin e he
      omega
    · next hkn =>
      rw [← tagsAt_itemsIn hx.items (a := 0) (b := 2 ^ 31 - 1) (by omega) (by omega)]
      refine tagsAt_filterMap fun e he => ?_
      split
      · rw [TagItem.at_of_not (by omega)]
        rfl
      · split
        · simp only [Option.bind_some, TagItem.at]
          congr 1
          rw [eq_iff_iff]
          omega
        · rfl

end Tags

/-! ### Packets as bytes with their tags -/

/-- A packet of `size` bytes; the byte `k` has the tags `tags k`, in the order in which they were put
on it. -/
structure TaggedBytes where
  size : Nat
  tags : Nat → List ByteTag

namespace TaggedBytes

/-- `n` bytes more before the others. -/
def addAtStart (q : TaggedBytes) (n : Nat) : TaggedBytes :=
  ⟨q.size + n, fun k => if k < n then [] else q.tags (k - n)⟩

/-- `n` bytes less before the others. -/
def removeAtStart (q : TaggedBytes) (n : Nat) : TaggedBytes := ⟨q.size - n, fun k => q.tags (k + n)⟩

/-- `n` bytes more behind the others. -/
def addAtEnd (q : TaggedBytes) (n : Nat) : TaggedBytes :=
  ⟨q.size + n, fun k => if k < q.size then q.tags k else []⟩

/-- `n` bytes less behind the others. -/
def removeAtEnd (q : TaggedBytes) (n : Nat) : TaggedBytes := { q with size := q.size - n }

/-- `length` of the bytes. -/
def fragment (q : TaggedBytes) (start length : Nat) : TaggedBytes := ⟨length, fun k => q.tags (k + start)⟩

/-- The bytes of another packet behind those of this one. -/
def append (q r : TaggedBytes) : TaggedBytes :=
  ⟨q.size + r.size, fun k => if k < q.size then q.tags k else r.tags (k - q.size)⟩

/-- A tag is put on some bytes. -/
def tag (q : TaggedBytes) (t : ByteTag) (start stop : Nat) : TaggedBytes :=
  { q with tags := fun k => if start ≤ k ∧ k < stop then q.tags k ++ [t] else q.tags k }

end TaggedBytes

/-- A packet reports for its bytes the tags they have. -/
structure TaggedPacket.Stands (h : TagHeap) (p : TaggedPacket) (q : TaggedBytes) : Prop where
  size : p.size = q.size
  size_lt : q.size < 2 ^ 30
  sound : p.m_byteTagList.Sound h q.size q.tags

section Packets

variable {h h' : TagHeap} {live : List ByteTagList} {l l' : ByteTagList} {p : TaggedPacket}
  {q r : TaggedBytes} {n : Nat} {es : List TagItem} {tags : Nat → List ByteTag}

theorem ByteTagList.Exact.congr {size : Nat} (hx : l.Exact h size) (heq : l.items h' = l.items h) :
    l.Exact h' size := ⟨hx.adjustment, hx.first, hx.last, heq ▸ hx.items⟩

theorem TaggedPacket.Stands.congr (hs : p.Stands h q)
    (heq : p.m_byteTagList.items h' = p.m_byteTagList.items h) : p.Stands h' q :=
  ⟨hs.size, hs.size_lt, hs.sound.exact.congr heq, heq ▸ hs.sound.bounds, heq ▸ hs.sound.covers⟩

/-- What the iterator of a packet reports for a byte. -/
theorem TaggedPacket.Stands.byteTags (hs : p.Stands h q) {k : Nat} (hk : k < q.size) :
    tagsAt (p.byteTags h) k = q.tags k := by
  rw [TaggedPacket.byteTags, ByteTagList.tagsAt_itemsIn hs.sound.exact.items (by omega)
    (by rw [hs.size]; omega)]
  exact hs.sound.covers k hk

theorem TaggedPacket.Stands.within {e : TagItem} (hs : p.Stands h q) (he : e ∈ p.byteTags h) :
    0 ≤ e.start ∧ e.stop ≤ q.size := by
  rw [← hs.size]
  exact ByteTagList.within_itemsIn he

/-- A list moves, and uses its block as before. -/
theorem TagHeap.Holds.adjust (hh : h.Holds (l :: live)) (x : Int) : h.Holds (l.adjust x :: live) := by
  refine ⟨hh.inv, fun c hc => ?_⟩
  rcases List.mem_cons.mp hc with rfl | hc
  · have := hh.ok l List.mem_cons_self
    exact ⟨this.used, this.front⟩
  · exact hh.ok c (List.mem_cons_of_mem _ hc)

theorem addHeader_stands (hh : h.Holds (p.m_byteTagList :: live)) (hs : p.Stands h q)
    (hfits : Fits32 (p.m_byteTagList.m_adjustment + n))
    (hx : (p.m_byteTagList.adjust n).Exact h (q.size + n)) (hn : q.size + n < 2 ^ 30) :
    ∃ es, h.Made (p.addHeader h n).1 live (p.addHeader h n).2.m_byteTagList es ∧
      (p.addHeader h n).2.Stands (p.addHeader h n).1 (q.addAtStart n) := by
  have hadj : (p.m_byteTagList.adjust n).m_adjustment = p.m_byteTagList.m_adjustment + n :=
    int32_eq hfits
  obtain ⟨es, hm, hx', hb', hcov⟩ := ByteTagList.addAtStart_made (n := n) (hh.adjust n) hx
    hs.sound.bounds (Nat.le_add_left _ _) hn
  refine ⟨es, hm, congrArg (· + n) hs.size, hn, hx', hm.items ▸ hb', fun k hk => ?_⟩
  have hitems : (p.addHeader h n).2.m_byteTagList.items (p.addHeader h n).1 = es := hm.items
  change k < q.size + n at hk
  rw [hitems]
  refine (hcov k (by omega)).trans ?_
  rw [TaggedBytes.addAtStart]
  dsimp only
  by_cases hkn : k < n
  · rw [if_pos hkn, if_pos (by omega)]
  · rw [if_neg hkn, if_neg (by omega), hadj, ← hs.sound.covers (k - n) (by omega)]
    congr 1
    omega

theorem removeAtStart_stands (hs : p.Stands h q) (hfits : Fits32 (p.m_byteTagList.m_adjustment - n))
    (hx : (p.removeAtStart n).m_byteTagList.Exact h (q.size - n)) :
    (p.removeAtStart n).Stands h (q.removeAtStart n) := by
  have hadj : (p.removeAtStart n).m_byteTagList.m_adjustment = p.m_byteTagList.m_adjustment - n := by
    change int32 (_ + int32 (-n)) = _
    rw [int32_add, ← Int.sub_eq_add_neg, int32_eq hfits]
  refine ⟨congrArg (· - n) hs.size, Nat.lt_of_le_of_lt (Nat.sub_le _ _) hs.size_lt, hx, hs.sound.bounds,
    fun k hk => ?_⟩
  change k < q.size - n at hk
  change _ = q.tags (k + n)
  rw [hadj, ← hs.sound.covers (k + n) (by omega)]
  change tagsAt (p.m_byteTagList.items h) _ = _
  congr 1
  omega

theorem addTrailer_stands (hh : h.Holds (p.m_byteTagList :: live)) (hs : p.Stands h q)
    (hg : p.m_byteTagList.Grows q.size n) (hn : q.size + n < 2 ^ 30) :
    ∃ es, h.Made (p.addTrailer h n).1 live (p.addTrailer h n).2.m_byteTagList es ∧
      (p.addTrailer h n).2.Stands (p.addTrailer h n).1 (q.addAtEnd n) := by
  obtain ⟨es, hm, hx, hb', hcov⟩ := ByteTagList.addAtEnd_made hh hs.sound.exact hs.sound.bounds hg hn
  have hadded : q.addAtEnd n = ⟨p.size + n, (q.addAtEnd n).tags⟩ := by
    rw [hs.size]
    rfl
  rw [← hs.size] at hm hx hb' hcov
  rw [hadded]
  refine ⟨es, hm, rfl, hs.size ▸ hn, hx, hm.items ▸ hb', fun k hk => ?_⟩
  have hitems : (p.addTrailer h n).2.m_byteTagList.items (p.addTrailer h n).1 = es := hm.items
  rw [hitems]
  refine (hcov k).trans ?_
  rw [TaggedBytes.addAtEnd, hs.size]
  dsimp only
  split
  · next hkq => exact hs.sound.covers k hkq
  · rfl

theorem removeAtEnd_stands (hs : p.Stands h q) (n : Nat) :
    (p.removeAtEnd n).Stands h (q.removeAtEnd n) := by
  have hx := hs.sound.exact
  refine ⟨congrArg (· - n) hs.size, Nat.lt_of_le_of_lt (Nat.sub_le _ _) hs.size_lt,
    ⟨hx.adjustment, hx.first, ?_, hx.items⟩, hs.sound.bounds, fun k hk => ?_⟩
  · have h1 := hx.first
    have h2 := hx.last
    change Fits32 ((q.size - n : Nat) - p.m_byteTagList.m_adjustment)
    rw [Fits32] at *
    omega
  · exact hs.sound.covers k (Nat.lt_of_lt_of_le hk (Nat.sub_le _ _))

theorem createFragment_stands {start length : Nat} (hh : h.Holds live) (hmem : p.m_byteTagList ∈ live)
    (hs : p.Stands h q) (hfits : Fits32 (p.m_byteTagList.m_adjustment - start))
    (hx : (p.createFragment h start length).2.m_byteTagList.Exact h length)
    (hle : start + length ≤ q.size) :
    ∃ es, h.Made (p.createFragment h start length).1 live
        (p.createFragment h start length).2.m_byteTagList es ∧
      (p.createFragment h start length).2.Stands (p.createFragment h start length).1
        (q.fragment start length) := by
  have hm := ByteTagList.copy_made hh hmem
  have hsize := hs.size_lt
  have hadj : (p.createFragment h start length).2.m_byteTagList.m_adjustment =
      p.m_byteTagList.m_adjustment - start := by
    change int32 (_ + int32 (-start)) = _
    rw [int32_add, ← Int.sub_eq_add_neg, int32_eq hfits]
  have hitems : (p.createFragment h start length).2.m_byteTagList.items
      (p.createFragment h start length).1 = p.m_byteTagList.items h := hm.items
  refine ⟨_, ⟨hm.holds.adjust _, hm.keeps, hitems⟩, rfl, ?_, hx.congr hitems, ?_, fun k hk => ?_⟩
  · change length < 2 ^ 30
    omega
  · rw [hitems]
    exact hs.sound.bounds
  · change k < length at hk
    change _ = q.tags (k + start)
    rw [hitems, hadj, ← hs.sound.covers (k + start) (by omega)]
    congr 1
    omega

theorem addByteTagAt_stands {start stop : Nat} (hh : h.Holds (p.m_byteTagList :: live))
    (hs : p.Stands h q) (tag : ByteTag) (hle : start ≤ stop) (hstop : stop ≤ q.size) :
    ∃ es, h.Made (p.addByteTagAt h tag start stop).1 live
        (p.addByteTagAt h tag start stop).2.m_byteTagList es ∧
      (p.addByteTagAt h tag start stop).2.Stands (p.addByteTagAt h tag start stop).1
        (q.tag tag start stop) := by
  have hx := hs.sound.exact
  have hsize := hs.size_lt
  have h1 := hx.first
  have h2 := hx.last
  have hstart : int32 start = start := int32_eq (by rw [Fits32]; omega)
  have hstop' : int32 stop = stop := int32_eq (by rw [Fits32]; omega)
  have hfits : Fits32 (start - p.m_byteTagList.m_adjustment) ∧ Fits32 (stop - p.m_byteTagList.m_adjustment) := by
    rw [Fits32] at *
    rw [Fits32]
    omega
  have hm := ByteTagList.add_made hh tag start stop
  have hb := ByteTagList.add_bounds (h := h) hs.sound.bounds tag start stop
  rw [int32_eq hfits.1, int32_eq hfits.2] at hm hb
  rw [TaggedPacket.addByteTagAt, hstart, hstop']
  have hadj : (p.m_byteTagList.add h tag start stop).2.m_adjustment = p.m_byteTagList.m_adjustment := rfl
  refine ⟨_, hm, hs.size, hsize, ⟨hx.adjustment, hx.first, hx.last, fun e he => ?_⟩,
    hm.items ▸ hb, fun k hk => ?_⟩
  · change Fits32 (_ + p.m_byteTagList.m_adjustment) ∧ Fits32 (_ + p.m_byteTagList.m_adjustment)
    dsimp only at he
    rw [hm.items] at he
    rcases List.mem_append.mp he with he | he
    · exact hx.items e he
    · rw [List.mem_singleton.mp he]
      dsimp only
      rw [Int.sub_add_cancel, Int.sub_add_cancel, Fits32, Fits32]
      omega
  · have hk' : k < q.size := hk
    dsimp only
    rw [hm.items, hadj, tagsAt_append, hs.sound.covers k hk', TaggedBytes.tag]
    dsimp only
    by_cases hin : start ≤ k ∧ k < stop
    · have hthis : TagItem.at ⟨tag, start - p.m_byteTagList.m_adjustment,
          stop - p.m_byteTagList.m_adjustment⟩ (k - p.m_byteTagList.m_adjustment) = some tag :=
        if_pos (by dsimp only; omega)
      rw [if_pos hin]
      simp only [tagsAt, List.filterMap_cons, List.filterMap_nil, hthis]
    · rw [if_neg hin, tagsAt_eq_nil, List.append_nil]
      intro e he
      rw [List.mem_singleton.mp he]
      dsimp only
      omega

/-- No sum of `AddAtEnd` with the list of another packet overflows. -/
def TaggedPacket.Appends (h : TagHeap) (p r : TaggedPacket) : Prop :=
  p.m_byteTagList.Grows p.size r.size ∧
    let (h, l) := p.m_byteTagList.addAtEnd h p.size
    let (h, copy) := r.m_byteTagList.copy h
    let (h, copy) := copy.addAtStart h 0
    let moved := copy.adjust p.size
    Fits32 (copy.m_adjustment + p.size) ∧
      (∀ e ∈ moved.items h, Fits32 (e.start + moved.m_adjustment) ∧ Fits32 (e.stop + moved.m_adjustment)) ∧
      ∀ e ∈ moved.allItems h, Fits32 (e.start - l.m_adjustment) ∧ Fits32 (e.stop - l.m_adjustment)

theorem addAtEnd_stands {p' : TaggedPacket} {q' : TaggedBytes} (hh : h.Holds (p.m_byteTagList :: live))
    (hmem : p'.m_byteTagList ∈ live) (hs : p.Stands h q) (hs' : p'.Stands h q') (happ : p.Appends h p')
    (hn : q.size + q'.size < 2 ^ 30) :
    ∃ es, h.Made (p.addAtEnd h p').1 live (p.addAtEnd h p').2.m_byteTagList es ∧
      (p.addAtEnd h p').2.Stands (p.addAtEnd h p').1 (q.append q') := by
  rw [TaggedPacket.Appends] at happ
  obtain ⟨hg, happ⟩ := happ
  rw [hs.size, hs'.size] at hg
  obtain ⟨es₁, hm₁, hx₁, hb₁, hcov₁⟩ := ByteTagList.addAtEnd_made hh hs.sound.exact hs.sound.bounds hg hn
  rw [← hs'.size] at hx₁
  rw [← hs.size] at hm₁ hx₁ hb₁ hcov₁
  simp only [TaggedPacket.addAtEnd, TaggedPacket.appended]
  generalize p.m_byteTagList.addAtEnd h p.size = r at *
  obtain ⟨h₁, l₁⟩ := r
  dsimp only at *
  -- the copy of the other list
  have hs₁ := hs'.congr (hm₁.keeps _ hmem)
  have hm₂ := ByteTagList.copy_made hm₁.holds (List.mem_cons_of_mem l₁ hmem)
  have hcopy : (p'.m_byteTagList.copy h₁).2 = p'.m_byteTagList := rfl
  generalize p'.m_byteTagList.copy h₁ = r at *
  obtain ⟨h₂, c₂⟩ := r
  dsimp only at *
  subst hcopy
  obtain ⟨es₃, hm₃, hx₃, hb₃, hcov₃⟩ := ByteTagList.addAtStart_made (n := 0) hm₂.holds
    (hs₁.sound.exact.congr hm₂.items) (hm₂.items ▸ hs₁.sound.bounds) (Nat.zero_le _) hs'.size_lt
  rw [Int.natCast_zero] at hm₃ hx₃ hb₃ hcov₃
  generalize p'.m_byteTagList.addAtStart h₂ 0 = r at *
  obtain ⟨h₃, c₃⟩ := r
  dsimp only at *
  obtain ⟨hfits, hitems, hadded⟩ := happ
  have hadj : (c₃.adjust p.size).m_adjustment = c₃.m_adjustment + p.size := int32_eq hfits
  -- its items, moved behind the bytes of the packet
  have hall := fun k (hk : (0 : Int) ≤ k) (hk' : k < 2 ^ 31 - 1) =>
    ByteTagList.tagsAt_itemsIn hitems hk hk'
  have hbounds := fun e (he : e ∈ (c₃.adjust p.size).allItems h₃) => ByteTagList.mem_itemsIn hitems he
  change ∀ k, _ → _ → tagsAt ((c₃.adjust p.size).allItems h₃) k = _ at hall
  generalize (c₃.adjust p.size).allItems h₃ = es at *
  have hh₃ : h₃.Holds (l₁ :: c₃ :: live) := hm₃.holds.perm (.swap l₁ c₃ live)
  have hl₁ : l₁.items h₃ = es₁ := by
    rw [hm₃.keeps l₁ List.mem_cons_self, hm₂.keeps l₁ List.mem_cons_self, hm₁.items]
  have hm₄ := ByteTagList.addItems_made hh₃ es
  obtain ⟨hadj₄, hb₄⟩ := ByteTagList.addItems_fields (h := h₃) hb₁ es
  have hsame : es.map (fun e => (⟨e.tag, int32 (e.start - l₁.m_adjustment),
      int32 (e.stop - l₁.m_adjustment)⟩ : TagItem)) = es.map fun e =>
      ⟨e.tag, e.start - l₁.m_adjustment, e.stop - l₁.m_adjustment⟩ :=
    List.map_congr_left fun e he => by rw [int32_eq (hadded e he).1, int32_eq (hadded e he).2]
  rw [hl₁, hsame] at hm₄
  rw [hsame] at hb₄
  generalize l₁.addItems h₃ es = r at *
  obtain ⟨h₄, l₄⟩ := r
  dsimp only at *
  obtain ⟨hh₅, hk₅⟩ := ByteTagList.deallocate_holds (hm₄.holds.perm (.swap c₃ l₄ live))
  have hitems₅ := (hk₅ l₄ List.mem_cons_self).trans hm₄.items
  have hdata : (c₃.adjust p.size).m_data = c₃.m_data := rfl
  rw [hdata]
  refine ⟨_, ⟨hh₅, ?_, hitems₅⟩, ?_, hn, ⟨?_, ?_, ?_, fun e he => ?_⟩, ?_, fun k hk => ?_⟩
  · intro c hc
    rw [hk₅ c (List.mem_cons_of_mem l₄ hc), hm₄.keeps c (List.mem_cons_of_mem c₃ hc),
      hm₃.keeps c (List.mem_cons_of_mem l₁ hc), hm₂.keeps c (List.mem_cons_of_mem l₁ hc),
      hm₁.keeps c hc]
  · change p.size + p'.size = q.size + q'.size
    rw [hs.size, hs'.size]
  · change Fits32 l₄.m_adjustment
    rw [hadj₄]
    exact hx₁.adjustment
  · change Fits32 (-l₄.m_adjustment)
    rw [hadj₄]
    exact hx₁.first
  · change Fits32 ((q.size + q'.size : Nat) - l₄.m_adjustment)
    rw [hadj₄, ← hs.size, ← hs'.size]
    exact hx₁.last
  · dsimp only at he ⊢
    rw [hitems₅] at he
    rw [hadj₄]
    rcases List.mem_append.mp he with he | he
    · exact hx₁.items e (by rw [hm₁.items]; exact he)
    · obtain ⟨e₀, he₀, rfl⟩ := List.mem_map.mp he
      dsimp only
      rw [Int.sub_add_cancel, Int.sub_add_cancel, Fits32, Fits32]
      have := hbounds e₀ he₀
      omega
  · rw [hitems₅]
    exact hb₄
  · have hk' : k < q.size + q'.size := hk
    have hlt := hs'.size_lt
    have hmoved : tagsAt (es.map fun e => ⟨e.tag, e.start - l₁.m_adjustment, e.stop - l₁.m_adjustment⟩)
        (k - l₁.m_adjustment) = tagsAt es k := by
      rw [← List.filterMap_eq_map]
      refine tagsAt_filterMap fun e _ => ?_
      simp only [Function.comp_apply, Option.bind_some, TagItem.at]
      congr 1
      rw [eq_iff_iff]
      omega
    dsimp only
    rw [hitems₅, hadj₄, tagsAt_append, hmoved, hcov₁ k, hall k (by omega) (by omega), hadj]
    have hmoved' : (k : Int) - (c₃.m_adjustment + p.size) = k - p.size - c₃.m_adjustment := by omega
    have hitems₃ : (c₃.adjust p.size).items h₃ = es₃ := hm₃.items
    rw [hmoved', hitems₃, hcov₃ _ (by omega), TaggedBytes.append]
    dsimp only
    rw [hs.size]
    by_cases hkq : k < q.size
    · rw [if_pos hkq, if_pos hkq, if_pos (by omega), List.append_nil, hs.sound.covers k hkq]
    · rw [if_neg hkq, if_neg hkq, if_neg (by omega), List.nil_append, hm₂.items,
        ← hs₁.sound.covers (k - q.size) (by omega)]
      congr 1
      omega

end Packets

end Ns3.Network
