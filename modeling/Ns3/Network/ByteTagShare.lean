import Ns3.Lib.RefCount
import Ns3.Network.ByteTagList

/-!
# Byte tag lists that share blocks

A list changes the items of no other list, and its own as its name says.
-/

namespace Ns3.Network

open Ns3.Lib

/-! ### Items in a block -/

namespace TagItem

variable {es es' : List TagItem} {e : TagItem} {used : Nat}

theorem length_pos (e : TagItem) : 0 < e.length := by
  rw [length]
  omega

@[simp] theorem total_nil : total [] = 0 := rfl

@[simp] theorem total_cons : total (e :: es) = e.length + total es := rfl

@[simp] theorem total_append : total (es ++ es') = total es + total es' := by
  rw [total, List.map_append, List.sum_append]
  rfl

/-- The items that fill the first bytes. -/
theorem upTo_append (h : total es = used) : upTo used (es ++ es') = es := by
  induction es generalizing used with
  | nil =>
    subst h
    cases es' with
    | nil => rfl
    | cons e es' => rfl
  | cons e es ih =>
    rw [total_cons] at h
    have := e.length_pos
    rw [List.cons_append, upTo, if_pos (by omega), ih (by omega)]

end TagItem

/-! ### The heap -/

/-- What blocks count are their holders, and the bytes in use are those of their items. -/
structure TagHeap.Inv (h : TagHeap) (holders : List Nat) : Prop where
  counted : Counted (fun i => (h.blocks i).count) holders
  spare : Spare (fun i => (h.blocks i).count) h.next h.freeList
  dirty : ∀ i, (h.blocks i).dirty = TagItem.total (h.blocks i).items

namespace TagHeap

variable {h h' : TagHeap} {holders holders' : List Nat} {i j size used : Nat} {d : ByteTagListData}
  {e : TagItem}

@[simp] theorem set_self (h : TagHeap) (i : Nat) (d : ByteTagListData) : (h.set i d).blocks i = d :=
  Function.update_self ..

theorem set_ne (d : ByteTagListData) (hij : j ≠ i) : (h.set i d).blocks j = h.blocks j :=
  Function.update_of_ne hij ..

theorem set_count (h : TagHeap) (i : Nat) (d : ByteTagListData) :
    (fun j => ((h.set i d).blocks j).count) =
      Function.update (fun j => (h.blocks j).count) i d.count := by
  funext j
  by_cases hij : j = i
  · rw [hij, set_self, Function.update_self]
  · rw [set_ne _ hij, Function.update_of_ne hij]

theorem set_dirty (hi : ∀ j, (h.blocks j).dirty = TagItem.total (h.blocks j).items)
    (hd : d.dirty = TagItem.total d.items) (j : Nat) :
    ((h.set i d).blocks j).dirty = TagItem.total ((h.set i d).blocks j).items := by
  by_cases hij : j = i
  · rw [hij, set_self]
    exact hd
  · rw [set_ne _ hij]
    exact hi j

theorem Inv.perm (hi : h.Inv holders) (hp : holders.Perm holders') : h.Inv holders' :=
  ⟨hi.counted.perm hp, hi.spare, hi.dirty⟩

/-- A block with other items. -/
theorem Inv.set_items (hi : h.Inv holders) (hcount : d.count = (h.blocks i).count)
    (hd : d.dirty = TagItem.total d.items) : (h.set i d).Inv holders := by
  have heq : (fun j => ((h.set i d).blocks j).count) = fun j => (h.blocks j).count := by
    rw [set_count, hcount]
    exact Function.update_eq_self i _
  exact ⟨heq ▸ hi.counted, heq ▸ hi.spare, set_dirty hi.dirty hd⟩

/-- A block of `size` bytes at least that nobody held, held now, and empty. -/
structure Taken (h h' : TagHeap) (i : Nat) (holders : List Nat) : Prop where
  inv : h'.Inv (i :: holders)
  unused : i ∉ holders
  same : ∀ j, j ≠ i → h'.blocks j = h.blocks j
  empty : (h'.blocks i).items = []

theorem allocateFrom_taken (hi : h.Inv holders) {l : List Nat} (hl : l.Sublist h.freeList) :
    h.Taken (h.allocateFrom size l).2 (h.allocateFrom size l).1 holders := by
  induction l with
  | nil =>
    have hzero := hi.spare.fresh h.next (Nat.le_refl _)
    refine ⟨⟨?_, ?_, set_dirty hi.dirty rfl⟩, hi.counted.not_mem hzero, fun j hj => set_ne _ hj, ?_⟩
    · change Counted (fun j => ((h.set h.next ⟨size, 1, 0, []⟩).blocks j).count) (h.next :: holders)
      rw [set_count]
      exact hi.counted.claim hzero
    · change Spare (fun j => ((h.set h.next ⟨size, 1, 0, []⟩).blocks j).count) (h.next + 1) []
      rw [set_count]
      exact ((hi.spare.sublist (List.nil_sublist _)).grow).update (Nat.lt_succ_self _)
        List.not_mem_nil
    · exact congrArg ByteTagListData.items (set_self h h.next _)
  | cons i rest ih =>
    obtain ⟨hlt, hzero⟩ := hi.spare.free i (hl.subset List.mem_cons_self)
    have hrest : rest.Sublist h.freeList := (List.sublist_cons_self i rest).trans hl
    rw [allocateFrom]
    split
    · refine ⟨⟨?_, ?_, set_dirty hi.dirty rfl⟩, hi.counted.not_mem hzero, fun j hj => set_ne _ hj, ?_⟩
      · change Counted (fun j => ((h.set i ⟨(h.blocks i).size, 1, 0, []⟩).blocks j).count) (i :: holders)
        rw [set_count]
        exact hi.counted.claim hzero
      · change Spare (fun j => ((h.set i ⟨(h.blocks i).size, 1, 0, []⟩).blocks j).count) h.next rest
        rw [set_count]
        exact (hi.spare.sublist hrest).update hlt (List.nodup_cons.mp (hl.nodup hi.spare.nodup)).1
      · exact congrArg ByteTagListData.items (set_self h i _)
    · exact ih hrest

theorem Inv.allocate (hi : h.Inv holders) (size : Nat) :
    h.Taken (h.allocate size).2 (h.allocate size).1 holders :=
  allocateFrom_taken hi (List.Sublist.refl _)

/-- Counting changes no items. -/
theorem items_set_count (h : TagHeap) (i n j : Nat) :
    ((h.set i { h.blocks i with count := n }).blocks j).items = (h.blocks j).items := by
  by_cases hij : j = i
  · rw [hij, set_self]
  · rw [set_ne _ hij]

theorem Inv.retain (hi : h.Inv holders) {o : Option Nat} (ho : ∀ i ∈ o, i ∈ holders) :
    (h.retain o).Inv (o.toList ++ holders) ∧
      ∀ j, ((h.retain o).blocks j).items = (h.blocks j).items := by
  cases o with
  | none => exact ⟨hi, fun _ => rfl⟩
  | some i =>
    have hpos := hi.counted.pos (ho i rfl)
    obtain ⟨hlt, hnot⟩ := hi.spare.of_pos hpos
    refine ⟨⟨?_, ?_, set_dirty hi.dirty (hi.dirty i)⟩, items_set_count h i _⟩
    · rw [TagHeap.retain, set_count]
      exact hi.counted.retain i
    · rw [TagHeap.retain, set_count]
      exact hi.spare.update hlt hnot

theorem Inv.deallocate {o : Option Nat} (hi : h.Inv (o.toList ++ holders)) :
    (h.deallocate o).Inv holders ∧ ∀ j, ((h.deallocate o).blocks j).items = (h.blocks j).items := by
  cases o with
  | none => exact ⟨hi, fun _ => rfl⟩
  | some i =>
    have hpos := hi.counted.pos (List.mem_cons_self (a := i))
    obtain ⟨hlt, hnot⟩ := hi.spare.of_pos hpos
    have hless : (h.set i { h.blocks i with count := (h.blocks i).count - 1 }).Inv holders := by
      refine ⟨?_, ?_, set_dirty hi.dirty (hi.dirty i)⟩
      · rw [set_count]
        exact Counted.release hi.counted
      · rw [set_count]
        exact hi.spare.update hlt hnot
    rw [TagHeap.deallocate]
    dsimp only
    split
    · next hzero =>
      split
      · exact ⟨⟨hless.counted, hless.spare, hless.dirty⟩, items_set_count h i _⟩
      · exact ⟨⟨hless.counted, hless.spare.cons hlt hzero hnot, hless.dirty⟩, items_set_count h i _⟩
    · exact ⟨⟨hless.counted, hless.spare, hless.dirty⟩, items_set_count h i _⟩

end TagHeap

/-! ### Lists -/

/-- The bytes a list uses are those of items at the front of its block. -/
structure ByteTagList.Ok (h : TagHeap) (l : ByteTagList) : Prop where
  used : TagItem.total (l.items h) = l.m_used
  front : ∀ i, l.m_data = some i → ∃ es, (h.blocks i).items = l.items h ++ es

/-- A heap with the lists on it. -/
structure TagHeap.Holds (h : TagHeap) (live : List ByteTagList) : Prop where
  inv : h.Inv (live.filterMap ByteTagList.m_data)
  ok : ∀ l ∈ live, l.Ok h

/-- Lists have the items that they had. -/
def TagHeap.Keeps (h h' : TagHeap) (live : List ByteTagList) : Prop := ∀ c ∈ live, c.items h' = c.items h

/-- A heap with one more list on it, and the items of that. -/
structure TagHeap.Made (h h' : TagHeap) (live : List ByteTagList) (l : ByteTagList)
    (es : List TagItem) : Prop where
  holds : h'.Holds (l :: live)
  keeps : h.Keeps h' live
  items : l.items h' = es

section Lists

variable {h h' h'' : TagHeap} {live live' : List ByteTagList} {l l' c o : ByteTagList} {tag : ByteTag}
  {start stop : Int} {i j used : Nat} {e : TagItem} {es : List TagItem}

theorem TagHeap.Keeps.trans (hk : h.Keeps h' live) (hk' : h'.Keeps h'' live) : h.Keeps h'' live :=
  fun c hc => (hk' c hc).trans (hk c hc)

theorem TagHeap.Made.after (hk : h.Keeps h' live) (hm : h'.Made h'' live l es) :
    h.Made h'' live l es := ⟨hm.holds, hk.trans hm.keeps, hm.items⟩

theorem TagHeap.Holds.perm (hh : h.Holds live) (hp : live.Perm live') : h.Holds live' :=
  ⟨hh.inv.perm (hp.filterMap _), fun l hl => hh.ok l (hp.mem_iff.mpr hl)⟩

/-- A list whose block has the same items. -/
theorem ByteTagList.same_items (h' : TagHeap) (heq : ∀ i, c.m_data = some i → (h'.blocks i).items = (h.blocks i).items) :
    c.items h' = c.items h ∧ (c.Ok h → c.Ok h') := by
  have hitems : c.items h' = c.items h := by
    rw [items, items]
    cases hd : c.m_data with
    | none => rfl
    | some i => exact congrArg _ (heq i hd)
  refine ⟨hitems, fun hok => ⟨hitems ▸ hok.used, fun i hd => ?_⟩⟩
  rw [heq i hd, hitems]
  exact hok.front i hd

theorem ByteTagList.mem_data (hl : l ∈ live) (hd : l.m_data = some i) :
    i ∈ live.filterMap ByteTagList.m_data := List.mem_filterMap.mpr ⟨l, hl, hd⟩

theorem ByteTagList.filterMap_data_cons (l : ByteTagList) (live : List ByteTagList) :
    (l :: live).filterMap ByteTagList.m_data =
      l.m_data.toList ++ live.filterMap ByteTagList.m_data := by
  cases hd : l.m_data with
  | none => rw [List.filterMap_cons_none hd]; rfl
  | some i => rw [List.filterMap_cons_some hd]; rfl

theorem ByteTagList.copy_made (hh : h.Holds live) (ho : o ∈ live) :
    h.Made (o.copy h).1 live (o.copy h).2 (o.items h) := by
  obtain ⟨hinv, hitems⟩ := hh.inv.retain fun i hi => ByteTagList.mem_data ho hi
  have hsame := fun c : ByteTagList => c.same_items (h := h) (o.copy h).1 fun i _ => hitems i
  refine ⟨⟨?_, fun l hl => ?_⟩, fun c _ => (hsame c).1, (hsame o).1⟩
  · rw [ByteTagList.filterMap_data_cons]
    exact hinv
  · rcases List.mem_cons.mp hl with rfl | hl
    · exact (hsame _).2 (hh.ok _ ho)
    · exact (hsame l).2 (hh.ok l hl)

theorem ByteTagList.deallocate_holds (hh : h.Holds (l :: live)) :
    (h.deallocate l.m_data).Holds live ∧ h.Keeps (h.deallocate l.m_data) live := by
  have hinv := hh.inv
  rw [ByteTagList.filterMap_data_cons] at hinv
  obtain ⟨hinv, hitems⟩ := hinv.deallocate
  have hsame := fun c : ByteTagList =>
    c.same_items (h := h) (h.deallocate l.m_data) fun i _ => hitems i
  exact ⟨⟨hinv, fun c hc => (hsame c).2 (hh.ok c (List.mem_cons_of_mem l hc))⟩, fun c _ => (hsame c).1⟩

theorem ByteTagList.assign_made (hh : h.Holds (l :: live)) (ho : o ∈ live) :
    h.Made (l.assign h o).1 live (l.assign h o).2 (o.items h) := by
  obtain ⟨hh', hk⟩ := ByteTagList.deallocate_holds hh
  have hm := ByteTagList.copy_made hh' ho
  rw [hk o ho] at hm
  exact .after hk hm

/-- A new item is written behind those of a list, in a block where no other list looks at more. -/
theorem ByteTagList.write_made (hinv : h.Inv (i :: live.filterMap ByteTagList.m_data))
    (hok : ∀ c ∈ live, c.Ok h) (hused : TagItem.total (es ++ [e]) = used)
    (hothers : ∀ c ∈ live, c.m_data = some i → (h.blocks i).items = es)
    (hdata : l.m_data = some i) (hl : l.m_used = used) :
    h.Made (h.write i used (es ++ [e])) live l (es ++ [e]) := by
  have hblock : ((h.write i used (es ++ [e])).blocks i).items = es ++ [e] := by
    rw [TagHeap.write, TagHeap.set_self]
  have hitems : l.items (h.write i used (es ++ [e])) = es ++ [e] := by
    rw [ByteTagList.items, hdata]
    dsimp only
    rw [hblock, hl, ← List.append_nil (es ++ [e]), TagItem.upTo_append hused, List.append_nil]
  have hkeep : ∀ c ∈ live, c.items (h.write i used (es ++ [e])) = c.items h ∧
      c.Ok (h.write i used (es ++ [e])) := by
    intro c hc
    have hc' := hok c hc
    by_cases hci : c.m_data = some i
    · -- what the other list uses is in the block as before, with the new item behind
      obtain ⟨rest, hrest⟩ := hc'.front i hci
      have hnew : ((h.write i used (es ++ [e])).blocks i).items = c.items h ++ (rest ++ [e]) := by
        rw [hblock, ← hothers c hc hci, hrest, List.append_assoc]
      have hsame : c.items (h.write i used (es ++ [e])) = c.items h := by
        rw [ByteTagList.items, hci]
        dsimp only
        rw [hnew, TagItem.upTo_append hc'.used]
      refine ⟨hsame, ⟨hsame ▸ hc'.used, fun k hk => ?_⟩⟩
      rw [hci] at hk
      rw [← Option.some.inj hk, hsame]
      exact ⟨_, hnew⟩
    · have := ByteTagList.same_items (c := c) (h := h) (h.write i used (es ++ [e]))
        fun k hk => by
          have hne : k ≠ i := fun heq => hci (heq ▸ hk)
          rw [TagHeap.write, TagHeap.set_ne _ hne]
      exact ⟨this.1, this.2 hc'⟩
  refine ⟨⟨?_, fun c hc => ?_⟩, fun c hc => (hkeep c hc).1, hitems⟩
  · rw [ByteTagList.filterMap_data_cons, hdata]
    exact hinv.set_items rfl hused.symm
  · rcases List.mem_cons.mp hc with rfl | hc
    · refine ⟨(congrArg TagItem.total hitems).trans (hused.trans hl.symm), fun k hk => ?_⟩
      rw [hdata] at hk
      rw [← Option.some.inj hk, hitems, hblock]
      exact ⟨[], (List.append_nil _).symm⟩
    · exact (hkeep c hc).2

theorem ByteTagList.add_made (hh : h.Holds (l :: live)) (tag : ByteTag) (start stop : Int) :
    h.Made (l.add h tag start stop).1 live (l.add h tag start stop).2
      (l.items h ++ [⟨tag, int32 (start - l.m_adjustment), int32 (stop - l.m_adjustment)⟩]) := by
  have hl := hh.ok l List.mem_cons_self
  have hlive : ∀ c ∈ live, c.Ok h := fun c hc => hh.ok c (List.mem_cons_of_mem l hc)
  have hinv := hh.inv
  rw [ByteTagList.filterMap_data_cons] at hinv
  rw [ByteTagList.add]
  generalize he : (⟨tag, int32 (start - l.m_adjustment), int32 (stop - l.m_adjustment)⟩ : TagItem) = e
  have htotal : TagItem.total (l.items h ++ [e]) = l.m_used + e.length := by
    rw [TagItem.total_append, hl.used]
    rfl
  cases hd : l.m_data with
  | none =>
    rw [hd] at hinv
    have ht := TagHeap.Inv.allocate hinv (l.m_used + e.length)
    dsimp only
    generalize h.allocate (l.m_used + e.length) = r at *
    obtain ⟨i, h₁⟩ := r
    dsimp only at *
    have hunused : ∀ c ∈ live, c.m_data ≠ some i := fun c hc hci =>
      ht.unused (ByteTagList.mem_data hc hci)
    have hsame := fun c (hc : c ∈ live) => c.same_items (h := h) h₁ fun k hk => by
      have hne : k ≠ i := fun heq => hunused c hc (heq ▸ hk)
      rw [ht.same k hne]
    exact .after (fun c hc => (hsame c hc).1) (ByteTagList.write_made ht.inv
      (fun c hc => (hsame c hc).2 (hlive c hc)) htotal
      (fun c hc hci => absurd hci (hunused c hc)) rfl rfl)
  | some i =>
    rw [hd] at hinv
    obtain ⟨rest, hrest⟩ := hl.front i hd
    dsimp only
    split
    · -- to a block of the list's own
      have ht := TagHeap.Inv.allocate hinv (l.m_used + e.length)
      generalize h.allocate (l.m_used + e.length) = r at *
      obtain ⟨j, h₁⟩ := r
      dsimp only at *
      have hne : i ≠ j := fun heq => ht.unused (heq ▸ List.mem_cons_self)
      have hunused : ∀ c ∈ live, c.m_data ≠ some j := fun c hc hci =>
        ht.unused (List.mem_cons_of_mem i (ByteTagList.mem_data hc hci))
      obtain ⟨hinv₂, hitems₂⟩ := TagHeap.Inv.deallocate (o := some i)
        (ht.inv.perm (List.Perm.swap i j _))
      have hsame := fun c (hc : c ∈ live) => c.same_items (h := h) (h₁.deallocate (some i))
        fun k hk => by
          have hne : k ≠ j := fun heq => hunused c hc (heq ▸ hk)
          rw [hitems₂, ht.same k hne]
      exact .after (fun c hc => (hsame c hc).1) (ByteTagList.write_made hinv₂
        (fun c hc => (hsame c hc).2 (hlive c hc)) htotal
        (fun c hc hci => absurd hci (hunused c hc)) rfl rfl)
    · next hin =>
      have hthis : ∀ c ∈ live, c.m_data = some i → (h.blocks i).items = l.items h := by
        intro c hc hci
        -- two lists on the block: the list uses all that is in use
        have hmem : i ∈ live.filterMap ByteTagList.m_data := ByteTagList.mem_data hc hci
        have hdirty : (h.blocks i).dirty = l.m_used := by
          by_contra hne
          have hone : (h.blocks i).count = 1 := by
            by_contra hne'
            exact hin (.inr ⟨hne', hne⟩)
          exact Counted.alone hinv.counted hone hmem
        rw [hinv.dirty, hrest, TagItem.total_append, hl.used] at hdirty
        have hnil : rest = [] := by
          cases rest with
          | nil => rfl
          | cons e' rest =>
            have := e'.length_pos
            rw [TagItem.total_cons] at hdirty
            omega
        rw [hrest, hnil, List.append_nil]
      exact ByteTagList.write_made hinv hlive htotal hthis rfl rfl

/-- Items added one after the other. -/
theorem ByteTagList.addItems_made (hh : h.Holds (l :: live)) (es : List TagItem) :
    h.Made (l.addItems h es).1 live (l.addItems h es).2 (l.items h ++ es.map fun e =>
      ⟨e.tag, int32 (e.start - l.m_adjustment), int32 (e.stop - l.m_adjustment)⟩) := by
  induction es generalizing h l with
  | nil => exact ⟨hh, fun _ _ => rfl, (List.append_nil _).symm⟩
  | cons e es ih =>
    have hm := ByteTagList.add_made hh e.tag e.start e.stop
    have hm' := ih hm.holds
    rw [hm.items, List.append_assoc] at hm'
    exact .after hm.keeps hm'

/-- The items of a new list that takes the place of another. -/
theorem ByteTagList.rebuild_made (hh : h.Holds (l :: live)) (es : List TagItem) :
    h.Made (l.rebuild h es).1 live (l.rebuild h es).2
      (es.map fun e => ⟨e.tag, int32 e.start, int32 e.stop⟩) := by
  have hempty : h.Holds ({} :: l :: live) := by
    refine ⟨?_, fun c hc => ?_⟩
    · rw [ByteTagList.filterMap_data_cons]
      exact hh.inv
    · rcases List.mem_cons.mp hc with rfl | hc
      · exact ⟨rfl, nofun⟩
      · exact hh.ok c hc
  have hm₁ := ByteTagList.addItems_made hempty es
  simp only [Int.sub_zero] at hm₁
  rw [ByteTagList.rebuild]
  generalize ByteTagList.addItems h {} es = r at *
  obtain ⟨h₁, list⟩ := r
  dsimp only at *
  have hm₂ := ByteTagList.assign_made (hm₁.holds.perm (.swap l list live)) (o := list) List.mem_cons_self
  have heq : (l.assign h₁ list).2 = list := rfl
  rw [hm₁.items, heq] at hm₂
  obtain ⟨hh₃, hk₃⟩ := ByteTagList.deallocate_holds (hm₂.holds.perm (.swap list list live))
  refine ⟨hh₃, ?_, (hk₃ list List.mem_cons_self).trans (hm₂.items.trans (List.nil_append _))⟩
  intro c hc
  exact (hk₃ c (List.mem_cons_of_mem list hc)).trans ((hm₂.keeps c (List.mem_cons_of_mem list hc)).trans
    (hm₁.keeps c (List.mem_cons_of_mem l hc)))

end Lists

end Ns3.Network
