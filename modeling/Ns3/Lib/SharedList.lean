import Mathlib.Data.List.Range
import Ns3.Lib.RefCount
import Ns3.Lib.Slots

/-!
# Lists that share cells

Linked lists whose tails may be those of other lists. A cell counts the pointers to it: a cell with
one pointer belongs to the list that it is on, and can be taken out, changed and put back; others can
only be left.
-/

namespace Ns3.Lib

/-- A cell of a linked list, with the number of pointers to it. -/
structure Cell (α : Type*) where
  next : Option Nat
  count : Nat
  value : α
  deriving DecidableEq, Repr

section Cells

variable {α : Type*} {h : List (Option (Cell α))} {c d : Cell α} {i j n : Nat} {o p : Option Nat}

/-! ### Cells -/

/-- The cell with a number, when it is there. -/
def cellAt (h : List (Option (Cell α))) (i : Nat) : Option (Cell α) := h[i]?.join

/-- What a cell counts. -/
def countAt (h : List (Option (Cell α))) (i : Nat) : Nat := ((cellAt h i).map Cell.count).getD 0

/-- The pointers of cells. -/
def nexts (h : List (Option (Cell α))) : List Nat := (present h).filterMap Cell.next

/-- A new pointer to a cell. -/
def retain (h : List (Option (Cell α))) : Option Nat → List (Option (Cell α))
  | none => h
  | some i => h.modify i (Option.map fun c => { c with count := c.count + 1 })

theorem cellAt_eq : cellAt h i = some c ↔ h[i]? = some (some c) := Option.join_eq_some_iff

theorem lt_of_cellAt (hc : cellAt h i = some c) : i < h.length := lt_of_getElem? (cellAt_eq.mp hc)

theorem cellAt_set_self (hi : i < h.length) (x : Option (Cell α)) : cellAt (h.set i x) i = x := by
  rw [cellAt, List.getElem?_set_self hi]
  rfl

theorem cellAt_set_ne (hij : i ≠ j) (x : Option (Cell α)) : cellAt (h.set i x) j = cellAt h j := by
  rw [cellAt, cellAt, List.getElem?_set_ne hij]

theorem cellAt_push_of_lt (hi : i < h.length) (x : Option (Cell α)) :
    cellAt (h ++ [x]) i = cellAt h i := by
  rw [cellAt, cellAt, List.getElem?_append_left hi]

theorem cellAt_push_self (h : List (Option (Cell α))) (x : Option (Cell α)) :
    cellAt (h ++ [x]) h.length = x := by
  rw [cellAt, List.getElem?_concat_length]
  rfl

theorem set_cellAt (hc : cellAt h i = some c) : h.set i (some c) = h :=
  set_of_getElem? (cellAt_eq.mp hc)

theorem countAt_eq (hc : cellAt h i = some c) : countAt h i = c.count := by
  rw [countAt, hc]
  rfl

theorem countAt_set (hi : i < h.length) (x : Option (Cell α)) :
    countAt (h.set i x) = Function.update (countAt h) i ((x.map Cell.count).getD 0) := by
  funext j
  by_cases hij : i = j
  · subst hij
    rw [countAt, cellAt_set_self hi, Function.update_self]
  · rw [countAt, cellAt_set_ne hij, Function.update_of_ne (Ne.symm hij)]
    rfl

theorem retain_some (hc : cellAt h i = some c) :
    retain h (some i) = h.set i (some { c with count := c.count + 1 }) := by
  rw [retain, List.modify_eq_set_getElem?, cellAt_eq.mp hc]
  rfl

/-- A pointer to a cell less. -/
def release (h : List (Option (Cell α))) (i : Nat) : List (Option (Cell α)) :=
  h.modify i (Option.map fun c => { c with count := c.count - 1 })

theorem release_eq (hc : cellAt h i = some c) :
    release h i = h.set i (some { c with count := c.count - 1 }) := by
  rw [release, List.modify_eq_set_getElem?, cellAt_eq.mp hc]
  rfl

theorem nexts_set (hi : i < h.length) (c : Cell α) :
    (nexts (h.set i (some c))).Perm (c.next.toList ++ nexts (h.set i none)) := by
  have hp := (present_set hi c).filterMap Cell.next
  cases hn : c.next with
  | none =>
    rw [List.filterMap_cons_none hn] at hp
    exact hp
  | some j =>
    rw [List.filterMap_cons_some hn] at hp
    exact hp

theorem nexts_perm (hc : cellAt h i = some c) :
    (nexts h).Perm (c.next.toList ++ nexts (h.set i none)) := by
  have := nexts_set (lt_of_cellAt hc) c
  rw [set_cellAt hc] at this
  exact this

theorem nexts_push_none (h : List (Option (Cell α))) : nexts (h ++ [none]) = nexts h := by
  rw [nexts, present, List.filterMap_append]
  exact congrArg _ (List.append_nil _)

/-- A cell that points to another one is among those with pointers. -/
theorem mem_nexts (hc : cellAt h i = some c) (hn : c.next = some j) : j ∈ nexts h :=
  List.mem_filterMap.mpr ⟨c, mem_present (cellAt_eq.mp hc), hn⟩

end Cells

section Chains

variable {α V : Type*} {R : α → V → Prop} {h h' : List (Option (Cell α))} {c d : Cell α} {i j n : Nat}
  {p q : Option Nat} {v : V} {vs ws us : List V} {heads : List (Option Nat × List V)} {ids : List Nat}
  {m : Option Nat}

/-! ### Chains -/

/-- The cells from a pointer on stand for the values of a list. -/
inductive Chain (R : α → V → Prop) (h : List (Option (Cell α))) : Option Nat → List V → Prop
  | nil : Chain R h none []
  | cons {i : Nat} {c : Cell α} {v : V} {vs : List V} (hc : cellAt h i = some c) (hr : R c.value v)
      (hvs : Chain R h c.next vs) : Chain R h (some i) (v :: vs)

/-- Cells on the way are as they were but for what they count. -/
theorem Chain.keep (P : Option Nat → Prop) (hp : P p)
    (hkeep : ∀ j c, P (some j) → cellAt h j = some c →
      P c.next ∧ ∃ c', cellAt h' j = some c' ∧ c'.next = c.next ∧ c'.value = c.value)
    (hch : Chain R h p vs) : Chain R h' p vs := by
  induction hch with
  | nil => exact .nil
  | cons hc hr _ ih =>
    obtain ⟨hn, c', hc', hnext, hvalue⟩ := hkeep _ _ hp hc
    refine .cons hc' (hvalue ▸ hr) ?_
    rw [hnext]
    exact ih hn

theorem Chain.recount (hc : cellAt h i = some c) (n : Nat) (hch : Chain R h p vs) :
    Chain R (h.set i (some { c with count := n })) p vs := by
  refine hch.keep (fun _ => True) trivial fun j d _ hd => ⟨trivial, ?_⟩
  by_cases hij : i = j
  · subst hij
    rw [hc] at hd
    obtain rfl := Option.some.inj hd
    exact ⟨_, cellAt_set_self (lt_of_cellAt hc) _, rfl, rfl⟩
  · exact ⟨d, (cellAt_set_ne hij _).trans hd, rfl, rfl⟩

theorem Chain.retain (hch : Chain R h p vs) (q : Option Nat) (hq : Chain R h q ws) :
    Chain R (retain h q) p vs := by
  cases hq with
  | nil => exact hch
  | cons hc _ _ =>
    rw [retain_some hc]
    exact hch.recount hc _

/-- Chains from one pointer have one length. -/
theorem Chain.length_eq (hch : Chain R h p vs) (hch' : Chain R h p ws) : vs.length = ws.length := by
  induction hch generalizing ws with
  | nil =>
    cases hch'
    rfl
  | cons hc _ _ ih =>
    cases hch' with
    | cons hc' _ hws =>
      obtain rfl := Option.some.inj (hc.symm.trans hc')
      exact congrArg (· + 1) (ih hws)

/-- A chain passes a cell once, so that it is no longer than there are cells. -/
theorem Chain.length_le (hch : Chain R h p vs) : vs.length ≤ h.length := by
  have hids : ∃ ids : List Nat, ids.length = vs.length ∧ ids.Nodup ∧
      ∀ i ∈ ids, i < h.length ∧ ∃ ws, Chain R h (some i) ws ∧ ws.length ≤ vs.length := by
    induction hch with
    | nil => exact ⟨[], rfl, List.nodup_nil, nofun⟩
    | @cons i c v vs hc hr hvs ih =>
      obtain ⟨ids, hlen, hnodup, hmem⟩ := ih
      refine ⟨i :: ids, congrArg (· + 1) hlen, List.nodup_cons.mpr ⟨fun hi => ?_, hnodup⟩,
        fun j hj => ?_⟩
      · obtain ⟨-, ws, hws, hle⟩ := hmem i hi
        have := hws.length_eq (.cons hc hr hvs)
        rw [List.length_cons] at this
        omega
      · rcases List.mem_cons.mp hj with rfl | hj
        · exact ⟨lt_of_cellAt hc, _, .cons hc hr hvs, Nat.le_refl _⟩
        · obtain ⟨hlt, ws, hws, hle⟩ := hmem j hj
          exact ⟨hlt, ws, hws, Nat.le_succ_of_le hle⟩
  obtain ⟨ids, hlen, hnodup, hmem⟩ := hids
  have hsub : ids ⊆ List.range h.length := fun i hi => List.mem_range.mpr (hmem i hi).1
  have := (List.subperm_of_subset hnodup hsub).length_le
  rw [List.length_range] at this
  omega

/-! ### Lists with their pointers -/

/-- All pointers: those of lists, and those of cells. -/
def pointers (h : List (Option (Cell α))) (heads : List (Option Nat × List V)) : List Nat :=
  heads.filterMap Prod.fst ++ nexts h

/-- Each cell counts the pointers to it, of which there are some, and from the pointers of lists on
there are the values of the lists. -/
structure Shared (R : α → V → Prop) (h : List (Option (Cell α))) (heads : List (Option Nat × List V)) :
    Prop where
  counted : Counted (countAt h) (pointers h heads)
  pos : ∀ i c, cellAt h i = some c → 0 < c.count
  chain : ∀ q ∈ heads, Chain R h q.1 q.2

theorem filterMap_fst_cons (p : Option Nat) (vs : List V) (heads : List (Option Nat × List V)) :
    ((p, vs) :: heads).filterMap Prod.fst = p.toList ++ heads.filterMap Prod.fst := by
  cases p <;> rfl

theorem Shared.perm {heads' : List (Option Nat × List V)} (hs : Shared R h heads)
    (hp : heads.Perm heads') : Shared R h heads' :=
  ⟨hs.counted.perm ((hp.filterMap _).append_right _), hs.pos,
    fun q hq => hs.chain q (hp.mem_iff.mpr hq)⟩

theorem Shared.first (hs : Shared R h ((p, vs) :: heads)) : Chain R h p vs :=
  hs.chain (p, vs) List.mem_cons_self

/-- A list stands for other values, that its cells stand for as well. -/
theorem Shared.reread (hs : Shared R h ((p, vs) :: heads)) (hws : Chain R h p ws) :
    Shared R h ((p, ws) :: heads) := by
  refine ⟨?_, hs.pos, fun q hq => ?_⟩
  · have := hs.counted
    rw [pointers, filterMap_fst_cons] at *
    exact this
  · rcases List.mem_cons.mp hq with rfl | hq
    · exact hws
    · exact hs.chain q (List.mem_cons_of_mem _ hq)

/-- The list without cells. -/
theorem Shared.nil (hs : Shared R h heads) : Shared R h ((none, []) :: heads) := by
  refine ⟨hs.counted, hs.pos, fun q hq => ?_⟩
  rcases List.mem_cons.mp hq with rfl | hq
  · exact .nil
  · exact hs.chain q hq

theorem Shared.of_nil (hs : Shared R h ((none, vs) :: heads)) : Shared R h heads :=
  ⟨hs.counted, hs.pos, fun q hq => hs.chain q (List.mem_cons_of_mem _ hq)⟩

/-- The cell that a list starts with, owned by the list alone, is taken out. -/
theorem Shared.take (hs : Shared R h ((some i, v :: vs) :: heads)) (hc : cellAt h i = some c)
    (hone : c.count = 1) : R c.value v ∧ Shared R (h.set i none) ((c.next, vs) :: heads) := by
  have hlt := lt_of_cellAt hc
  have hcount := hs.counted
  rw [pointers, filterMap_fst_cons] at hcount
  have halone := Counted.alone hcount ((countAt_eq hc).trans hone)
  have hmem : ∀ q ∈ heads, q.1 ≠ some i := fun q hq heq =>
    halone (List.mem_append_left _ (List.mem_filterMap.mpr ⟨q, hq, heq⟩))
  have hnext : ∀ j d, cellAt h j = some d → d.next ≠ some i := fun j d hd heq =>
    halone (List.mem_append_right _ (mem_nexts hd heq))
  have hkeep : ∀ q ws, q ≠ some i → Chain R h q ws → Chain R (h.set i none) q ws := by
    intro q ws hq hch
    refine hch.keep (· ≠ some i) hq fun j d hj hd => ⟨hnext j d hd, d, ?_, rfl, rfl⟩
    have hij : i ≠ j := fun heq => hj (congrArg some heq.symm)
    exact (cellAt_set_ne hij _).trans hd
  cases hs.first with
  | cons hc' hr hvs =>
    obtain rfl := Option.some.inj (hc.symm.trans hc')
    refine ⟨hr, ?_, fun j d hd => ?_, fun q hq => ?_⟩
    · rw [countAt_set hlt, pointers, filterMap_fst_cons]
      have hperm := (nexts_perm hc).append_left (heads.filterMap Prod.fst)
      have := Counted.release (hcount.perm ((hperm.cons i).trans (List.perm_append_comm_assoc _ _ _ |>.cons i)))
      rw [countAt_eq hc, hone, ← List.append_assoc] at this
      exact this
    · by_cases hij : i = j
      · subst hij
        rw [cellAt_set_self hlt] at hd
        cases hd
      · rw [cellAt_set_ne hij] at hd
        exact hs.pos j d hd
    · rcases List.mem_cons.mp hq with rfl | hq
      · exact hkeep _ _ (hnext i c hc) hvs
      · exact hkeep _ _ (hmem q hq) (hs.chain q (List.mem_cons_of_mem _ hq))

/-- A cell is put before a list. -/
theorem Shared.put (hs : Shared R h ((c.next, vs) :: heads)) (hlt : i < h.length)
    (hnone : cellAt h i = none) (hone : c.count = 1) (hr : R c.value v) :
    Shared R (h.set i (some c)) ((some i, v :: vs) :: heads) := by
  have hzero : countAt h i = 0 := by
    rw [countAt, hnone]
    rfl
  have hself : h.set i none = h := by
    apply set_of_getElem?
    rw [cellAt, List.getElem?_eq_getElem hlt] at hnone
    rw [List.getElem?_eq_getElem hlt]
    exact congrArg some hnone
  have hkeep : ∀ q ws, Chain R h q ws → Chain R (h.set i (some c)) q ws := by
    intro q ws hch
    refine hch.keep (fun _ => True) trivial fun j d _ hd => ⟨trivial, d, ?_, rfl, rfl⟩
    have hij : i ≠ j := by
      rintro rfl
      rw [hnone] at hd
      cases hd
    exact (cellAt_set_ne hij _).trans hd
  refine ⟨?_, fun j d hd => ?_, fun q hq => ?_⟩
  · have := hs.counted.claim hzero
    rw [pointers, filterMap_fst_cons] at this
    rw [countAt_set hlt, pointers, filterMap_fst_cons]
    have hperm := nexts_set hlt c
    rw [hself] at hperm
    have hclaim : Counted (Function.update (countAt h) i ((some c).map Cell.count |>.getD 0))
        (i :: (c.next.toList ++ heads.filterMap Prod.fst ++ nexts h)) := by
      change Counted (Function.update _ i c.count) _
      rw [hone]
      exact this
    refine hclaim.perm (List.Perm.cons i ?_)
    rw [List.append_assoc]
    exact (List.perm_append_comm_assoc _ _ _).trans (hperm.symm.append_left _)
  · by_cases hij : i = j
    · subst hij
      rw [cellAt_set_self hlt] at hd
      rw [← Option.some.inj hd, hone]
      exact Nat.one_pos
    · rw [cellAt_set_ne hij] at hd
      exact hs.pos j d hd
  · rcases List.mem_cons.mp hq with rfl | hq
    · exact .cons (cellAt_set_self hlt _) hr (hkeep _ _ hs.first)
    · exact hkeep _ _ (hs.chain q (List.mem_cons_of_mem _ hq))

/-- A cell with another pointer to it. -/
theorem Shared.retain (hs : Shared R h heads) (hch : Chain R h p vs) :
    Shared R (retain h p) ((p, vs) :: heads) := by
  have hch' := hch.retain p hch
  have hchains : ∀ q ∈ (p, vs) :: heads, Chain R (Ns3.Lib.retain h p) q.1 q.2 := by
    intro q hq
    rcases List.mem_cons.mp hq with rfl | hq
    · exact hch'
    · exact (hs.chain q hq).retain p hch
  cases hch with
  | nil => exact hs.nil
  | @cons i c v vs hc hr hvs =>
    have hlt := lt_of_cellAt hc
    rw [retain_some hc] at hchains ⊢
    refine ⟨?_, fun j d hd => ?_, hchains⟩
    · have hperm := (nexts_perm hc).trans (nexts_set hlt { c with count := c.count + 1 }).symm
      have := (hs.counted.retain i).perm ((hperm.append_left _).cons i)
      rw [countAt_eq hc] at this
      rw [countAt_set hlt, pointers, filterMap_fst_cons]
      exact this
    · by_cases hij : i = j
      · subst hij
        rw [cellAt_set_self hlt] at hd
        rw [← Option.some.inj hd]
        exact Nat.succ_pos _
      · rw [cellAt_set_ne hij] at hd
        exact hs.pos j d hd

/-- A list leaves a cell that others point to. -/
theorem Shared.drop (hs : Shared R h ((some i, vs) :: heads)) (hc : cellAt h i = some c)
    (hmany : 1 < c.count) : Shared R (release h i) heads := by
  have hlt := lt_of_cellAt hc
  rw [release_eq hc]
  refine ⟨?_, fun j d hd => ?_, fun q hq => (hs.chain q (List.mem_cons_of_mem _ hq)).recount hc _⟩
  · have hcount := hs.counted
    have hperm := (nexts_perm hc).trans (nexts_set hlt { c with count := c.count - 1 }).symm
    rw [pointers, filterMap_fst_cons] at hcount
    have := (Counted.release hcount).perm (hperm.append_left _)
    rw [countAt_eq hc] at this
    rw [countAt_set hlt]
    exact this
  · by_cases hij : i = j
    · subst hij
      rw [cellAt_set_self hlt] at hd
      rw [← Option.some.inj hd]
      exact Nat.sub_pos_of_lt hmany
    · rw [cellAt_set_ne hij] at hd
      exact hs.pos j d hd

/-- A list leaves a cell that others point to for the one behind it. -/
theorem Shared.step (hs : Shared R h ((some i, v :: vs) :: heads)) (hc : cellAt h i = some c)
    (hmany : 1 < c.count) : R c.value v ∧
      Chain R (release h i) c.next vs ∧
      Shared R (Ns3.Lib.retain (release h i) c.next) ((c.next, vs) :: heads) := by
  cases hs.first with
  | cons hc' hr hvs =>
    obtain rfl := Option.some.inj (hc.symm.trans hc')
    have hvs' : Chain R (release h i) c.next vs := by
      rw [release_eq hc]
      exact hvs.recount hc _
    exact ⟨hr, hvs', (hs.drop hc hmany).retain hvs'⟩

theorem Shared.room (hs : Shared R h heads) : Shared R (h ++ [none]) heads := by
  have hsame : ∀ j, cellAt (h ++ [none]) j = cellAt h j := by
    intro j
    by_cases hj : j < h.length
    · exact cellAt_push_of_lt hj _
    · rw [cellAt, cellAt, List.getElem?_append_right (Nat.le_of_not_lt hj),
        List.getElem?_eq_none (Nat.le_of_not_lt hj)]
      cases j - h.length <;> rfl
  refine ⟨?_, fun j d hd => hs.pos j d (hsame j ▸ hd), fun q hq => ?_⟩
  · have hcount : countAt (h ++ [none]) = countAt h := by
      funext j
      rw [countAt, hsame]
      rfl
    rw [hcount, pointers, nexts_push_none]
    exact hs.counted
  · exact (hs.chain q hq).keep (fun _ => True) trivial fun j d _ hd =>
      ⟨trivial, d, (hsame j).trans hd, rfl, rfl⟩

/-- A new cell before a list. -/
theorem Shared.push (hs : Shared R h ((c.next, vs) :: heads)) (hone : c.count = 1)
    (hr : R c.value v) : Shared R (h ++ [some c]) ((some h.length, v :: vs) :: heads) := by
  have := hs.room.put (c := c) (i := h.length) (by rw [List.length_append]; exact Nat.lt_succ_self _)
    (cellAt_push_self h none) hone hr
  rw [List.set_append_right _ _ (Nat.le_refl _), Nat.sub_self] at this
  exact this

/-! ### Cells behind a cursor -/

/-- The heap without some cells. -/
def hide (h : List (Option (Cell α))) (ids : List Nat) : List (Option (Cell α)) :=
  ids.foldr (fun i h => h.set i none) h

/-- The cells between the pointer of a list and a cursor, the last one first. They belong to the list,
and stand for the values that it has there. -/
inductive Zipper (R : α → V → Prop) (h : List (Option (Cell α))) (m : Option Nat) :
    List Nat → List V → Option Nat → Prop
  | head : Zipper R h m [] [] m
  | node {ids : List Nat} {us : List V} {i : Nat} {c : Cell α} {u : V}
      (hz : Zipper R h m ids us (some i)) (hc : cellAt h i = some c) (hone : c.count = 1)
      (hr : R c.value u) (hnew : i ∉ ids) : Zipper R h m (i :: ids) (u :: us) c.next

/-- A pointer is stored where the cursor was read from. -/
def link (h : List (Option (Cell α))) (m x : Option Nat) :
    Option Nat → List (Option (Cell α)) × Option Nat
  | none => (h, x)
  | some i => (h.modify i (Option.map fun c => { c with next := x }), m)

theorem link_some (hc : cellAt h i = some c) (m x : Option Nat) :
    link h m x (some i) = (h.set i (some { c with next := x }), m) := by
  rw [link, List.modify_eq_set_getElem?, cellAt_eq.mp hc]
  rfl

theorem hide_set (hi : i ∉ ids) (x : Option (Cell α)) : hide (h.set i x) ids = (hide h ids).set i x := by
  induction ids with
  | nil => rfl
  | cons j ids ih =>
    obtain ⟨hij, hi⟩ := not_or.mp (fun hor => hi (List.mem_cons.mpr hor))
    change (hide (h.set i x) ids).set j none = ((hide h ids).set j none).set i x
    rw [ih hi, List.set_comm _ _ hij]

theorem length_hide (h : List (Option (Cell α))) (ids : List Nat) : (hide h ids).length = h.length := by
  induction ids with
  | nil => rfl
  | cons j ids ih => exact List.length_set.trans ih

theorem hide_push (hids : ∀ i ∈ ids, i < h.length) (x : Option (Cell α)) :
    hide (h ++ [x]) ids = hide h ids ++ [x] := by
  induction ids with
  | nil => rfl
  | cons j ids ih =>
    change (hide (h ++ [x]) ids).set j none = (hide h ids).set j none ++ [x]
    rw [ih fun i hi => hids i (List.mem_cons_of_mem _ hi),
      List.set_append_left _ _ ((length_hide h ids).symm ▸ hids j List.mem_cons_self)]

theorem cellAt_hide (h : List (Option (Cell α))) (hi : i ∉ ids) :
    cellAt (hide h ids) i = cellAt h i := by
  induction ids with
  | nil => rfl
  | cons j ids ih =>
    obtain ⟨hij, hi⟩ := not_or.mp (fun hor => hi (List.mem_cons.mpr hor))
    exact (cellAt_set_ne (Ne.symm hij) _).trans (ih hi)

theorem not_mem_of_hide (hc : cellAt (hide h ids) i = some c) : i ∉ ids := by
  induction ids with
  | nil => exact List.not_mem_nil
  | cons j ids ih =>
    have hlt := lt_of_cellAt hc
    rw [hide, List.foldr_cons, List.length_set] at hlt
    have hij : j ≠ i := by
      rintro rfl
      have := (cellAt_set_self hlt none).symm.trans hc
      cases this
    refine fun hmem => (List.mem_cons.mp hmem).elim (fun heq => hij heq.symm) (ih ?_)
    exact (cellAt_set_ne hij _).symm.trans hc

theorem Zipper.lt (hz : Zipper R h m ids us p) : ∀ i ∈ ids, i < h.length := by
  induction hz with
  | head => exact nofun
  | node _ hc _ _ _ ih =>
    intro j hj
    rcases List.mem_cons.mp hj with rfl | hj
    · exact lt_of_cellAt hc
    · exact ih j hj

/-- Other cells change. -/
theorem Zipper.congr (hz : Zipper R h m ids us p) (hsame : ∀ i ∈ ids, cellAt h' i = cellAt h i) :
    Zipper R h' m ids us p := by
  induction hz with
  | head => exact .head
  | node _ hc hone hr hnew ih =>
    exact .node (ih fun i hi => hsame i (List.mem_cons_of_mem _ hi))
      ((hsame _ List.mem_cons_self).trans hc) hone hr hnew

theorem Zipper.set (hz : Zipper R h m ids us p) (hi : i ∉ ids) (x : Option (Cell α)) :
    Zipper R (h.set i x) m ids us p := by
  refine hz.congr fun j hj => cellAt_set_ne ?_ _
  rintro rfl
  exact hi hj

/-- The cursor moves over a cell that belongs to the list. -/
theorem Zipper.next (hz : Zipper R h m ids us (some i))
    (hs : Shared R (hide h ids) ((some i, v :: vs) :: heads)) (hc : cellAt h i = some c)
    (hone : c.count = 1) :
    Zipper R h m (i :: ids) (v :: us) c.next ∧ Shared R (hide h (i :: ids)) ((c.next, vs) :: heads) := by
  have hnew : i ∉ ids := by
    cases hs.first with
    | cons hc' _ _ => exact not_mem_of_hide hc'
  obtain ⟨hr, hs'⟩ := hs.take ((cellAt_hide h hnew).trans hc) hone
  exact ⟨.node hz hc hone hr hnew, hs'⟩

/-- The cells behind the cursor are put back before what is there. -/
theorem Zipper.close (hz : Zipper R h m ids us p) (hs : Shared R (hide h ids) ((p, vs) :: heads)) :
    Shared R h ((m, us.reverse ++ vs) :: heads) := by
  induction hz generalizing vs with
  | head => exact hs
  | @node ids us i c u hz hc hone hr hnew ih =>
    have hcell : cellAt (hide h ids) i = some c := (cellAt_hide h hnew).trans hc
    have hlt : i < (hide h ids).length := lt_of_cellAt hcell
    have := hs.put (i := i) (by rw [hide, List.foldr_cons, List.length_set]; exact hlt)
      (cellAt_set_self hlt none) hone hr
    rw [hide, List.foldr_cons, List.set_set] at this
    change Shared R ((hide h ids).set i (some c)) _ at this
    rw [set_cellAt hcell] at this
    rw [List.reverse_cons, List.append_assoc]
    exact ih this

/-- Another pointer comes where the cursor was read from. -/
theorem Zipper.link (hz : Zipper R h m ids us p) (x : Option Nat) :
    Zipper R (link h m x ids.head?).1 (link h m x ids.head?).2 ids us x ∧
      hide (link h m x ids.head?).1 ids = hide h ids := by
  cases hz with
  | head => exact ⟨.head, rfl⟩
  | @node ids us i c u hz hc hone hr hnew =>
    have hlt := lt_of_cellAt hc
    rw [List.head?_cons, link_some hc]
    refine ⟨.node (hz.set hnew _) (cellAt_set_self hlt _) hone hr hnew, ?_⟩
    change (hide (h.set i _) ids).set i none = (hide h ids).set i none
    rw [hide_set hnew, List.set_set]

theorem hide_modify (hi : i ∉ ids) (f : Option (Cell α) → Option (Cell α)) :
    hide (h.modify i f) ids = (hide h ids).modify i f := by
  induction ids with
  | nil => rfl
  | cons j ids ih =>
    obtain ⟨hij, hi⟩ := not_or.mp (fun hor => hi (List.mem_cons.mpr hor))
    change (hide (h.modify i f) ids).set j none = ((hide h ids).set j none).modify i f
    rw [ih hi]
    apply List.ext_getElem?
    intro k
    rw [List.getElem?_modify, List.getElem?_set, List.getElem?_set, List.getElem?_modify,
      List.length_modify]
    grind

theorem cellAt_modify (hij : i ≠ j) (f : Option (Cell α) → Option (Cell α)) :
    cellAt (h.modify i f) j = cellAt h j := by
  rw [cellAt, cellAt, List.getElem?_modify_ne _ _ hij]

/-- A pointer to a cell that is not hidden. -/
theorem hide_retain (hch : Chain R (hide h ids) p vs) : hide (retain h p) ids = retain (hide h ids) p := by
  cases hch with
  | nil => rfl
  | cons hc _ _ => exact hide_modify (not_mem_of_hide hc) _

theorem Zipper.retain (hz : Zipper R h m ids us q) (hch : Chain R (hide h ids) p vs) :
    Zipper R (retain h p) m ids us q := by
  cases hch with
  | nil => exact hz
  | cons hc _ _ =>
    refine hz.congr fun j hj => cellAt_modify ?_ _
    rintro rfl
    exact not_mem_of_hide hc hj

theorem length_retain (h : List (Option (Cell α))) (p : Option Nat) :
    (retain h p).length = h.length := by
  cases p with
  | none => rfl
  | some i => exact List.length_modify ..

theorem retain_push (hch : Chain R h p vs) (x : Option (Cell α)) :
    retain (h ++ [x]) p = retain h p ++ [x] := by
  cases hch with
  | nil => rfl
  | cons hc _ _ =>
    have hlt := lt_of_cellAt hc
    rw [retain_some hc, retain_some ((cellAt_push_of_lt hlt x).trans hc), List.set_append_left _ _ hlt]

theorem Chain.push (hch : Chain R h p vs) (x : Option (Cell α)) : Chain R (h ++ [x]) p vs :=
  hch.keep (fun _ => True) trivial fun _ d _ hd =>
    ⟨trivial, d, (cellAt_push_of_lt (lt_of_cellAt hd) x).trans hd, rfl, rfl⟩

/-! ### Cursors -/

/-- A list that starts at `m`, with a cursor in it: `us` are the values behind the cursor, the last one
first, `vs` those from the cursor on, and `prevNext` is the cell from which the cursor was read. -/
def Cursor (R : α → V → Prop) (h : List (Option (Cell α))) (m prevNext : Option Nat) (us : List V)
    (p : Option Nat) (vs : List V) (heads : List (Option Nat × List V)) : Prop :=
  ∃ ids : List Nat, ids.head? = prevNext ∧ Zipper R h m ids us p ∧
    Shared R (hide h ids) ((p, vs) :: heads)

variable {prevNext : Option Nat} {w : V}

theorem Shared.cursor (hs : Shared R h ((m, vs) :: heads)) : Cursor R h m none [] m vs heads :=
  ⟨[], rfl, .head, hs⟩

/-- The list, read from its start. -/
theorem Cursor.close (hk : Cursor R h m prevNext us p vs heads) :
    Shared R h ((m, us.reverse ++ vs) :: heads) := by
  obtain ⟨ids, -, hz, hs⟩ := hk
  exact hz.close hs

/-- The list from the cursor on. -/
theorem Cursor.chain (hk : Cursor R h m prevNext us p vs heads) : Chain R h p vs := by
  obtain ⟨ids, -, -, hs⟩ := hk
  exact hs.first.keep (fun _ => True) trivial fun j d _ hd =>
    ⟨trivial, d, (cellAt_hide h (not_mem_of_hide hd)).symm.trans hd, rfl, rfl⟩

theorem Cursor.nil (hk : Cursor R h m prevNext us none vs heads) : vs = [] := by
  obtain ⟨ids, -, -, hs⟩ := hk
  cases hs.first
  rfl

/-- The cell at the cursor. -/
theorem Cursor.cell (hk : Cursor R h m prevNext us (some i) vs heads) :
    ∃ c v vs', cellAt h i = some c ∧ vs = v :: vs' ∧ R c.value v ∧ 0 < c.count := by
  obtain ⟨ids, -, -, hs⟩ := hk
  cases hs.first with
  | @cons _ c v vs' hc hr _ =>
    exact ⟨c, v, vs', (cellAt_hide h (not_mem_of_hide hc)).symm.trans hc, rfl, hr, hs.pos i c hc⟩

theorem Cursor.length_le (hk : Cursor R h m prevNext us p vs heads) : vs.length ≤ h.length := by
  have := hk.close.first.length_le
  rw [List.length_append] at this
  omega

/-- Over a cell that belongs to the list. -/
theorem Cursor.next (hk : Cursor R h m prevNext us (some i) (v :: vs) heads) (hc : cellAt h i = some c)
    (hone : c.count = 1) : Cursor R h m (some i) (v :: us) c.next vs heads := by
  obtain ⟨ids, -, hz, hs⟩ := hk
  obtain ⟨hz', hs'⟩ := hz.next hs hc hone
  exact ⟨i :: ids, rfl, hz', hs'⟩

/-- A cell that belongs to the list gets another value. -/
theorem Cursor.change (hk : Cursor R h m prevNext us (some i) (v :: vs) heads)
    (hc : cellAt h i = some c) (hone : c.count = 1) (hd : d.next = c.next) (hone' : d.count = 1)
    (hr : R d.value w) : Cursor R (h.set i (some d)) m prevNext us (some i) (w :: vs) heads := by
  obtain ⟨ids, hids, hz, hs⟩ := hk
  have hnew : i ∉ ids := by
    cases hs.first with
    | cons hc' _ _ => exact not_mem_of_hide hc'
  have hcell := (cellAt_hide h hnew).trans hc
  obtain ⟨-, hs'⟩ := hs.take hcell hone
  have hlt : i < (hide h ids).length := lt_of_cellAt hcell
  have := Shared.put (c := d) (hd ▸ hs') (by rw [List.length_set]; exact hlt)
    (cellAt_set_self hlt none) hone' hr
  rw [List.set_set] at this
  refine ⟨ids, hids, hz.set hnew _, ?_⟩
  rw [hide_set hnew]
  exact this

/-- A cell that belongs to the list is taken out. -/
theorem Cursor.unlink (hk : Cursor R h m prevNext us (some i) (v :: vs) heads)
    (hc : cellAt h i = some c) (hone : c.count = 1) :
    Cursor R ((link h m c.next prevNext).1.set i none) (link h m c.next prevNext).2 prevNext us c.next vs
      heads := by
  obtain ⟨ids, rfl, hz, hs⟩ := hk
  have hnew : i ∉ ids := by
    cases hs.first with
    | cons hc' _ _ => exact not_mem_of_hide hc'
  obtain ⟨-, hs'⟩ := hs.take ((cellAt_hide h hnew).trans hc) hone
  obtain ⟨hz', hhide⟩ := hz.link c.next
  refine ⟨ids, rfl, hz'.set hnew none, ?_⟩
  rw [hide_set hnew, hhide]
  exact hs'

/-- A list leaves a cell that others point to. -/
theorem Cursor.leave (hk : Cursor R h m prevNext us (some i) (v :: vs) heads)
    (hc : cellAt h i = some c) (hmany : 1 < c.count) :
    Cursor R (retain (release (link h m c.next prevNext).1 i) c.next) (link h m c.next prevNext).2
      prevNext us c.next vs heads := by
  obtain ⟨ids, rfl, hz, hs⟩ := hk
  have hnew : i ∉ ids := by
    cases hs.first with
    | cons hc' _ _ => exact not_mem_of_hide hc'
  obtain ⟨-, hch, hs'⟩ := hs.step ((cellAt_hide h hnew).trans hc) hmany
  obtain ⟨hz', hhide⟩ := hz.link c.next
  have hrelease : hide (release (link h m c.next ids.head?).1 i) ids = release (hide h ids) i := by
    rw [release, hide_modify hnew, hhide]
    rfl
  rw [← hrelease] at hch hs'
  refine ⟨ids, rfl, ?_, ?_⟩
  · refine Zipper.retain (hz'.congr fun j hj => cellAt_modify ?_ _) hch
    rintro rfl
    exact hnew hj
  · rw [hide_retain hch]
    exact hs'

/-- A list leaves a cell that others point to for a new one. The cell behind is then one that others
point to as well. -/
theorem Cursor.copy (hk : Cursor R h m prevNext us (some i) (v :: vs) heads)
    (hc : cellAt h i = some c) (hmany : 1 < c.count) (hd : d.next = c.next) (hone : d.count = 1)
    (hr : R d.value w) :
    Cursor R (link (retain (release h i ++ [some d]) c.next) m (some h.length) prevNext).1
        (link (retain (release h i ++ [some d]) c.next) m (some h.length) prevNext).2 (some h.length)
        (w :: us) c.next vs heads ∧
      ∀ j, c.next = some j → ∃ c', cellAt (link (retain (release h i ++ [some d]) c.next) m
        (some h.length) prevNext).1 j = some c' ∧ 1 < c'.count := by
  obtain ⟨ids, rfl, hz, hs⟩ := hk
  have hnew : i ∉ ids := by
    cases hs.first with
    | cons hc' _ _ => exact not_mem_of_hide hc'
  obtain ⟨-, hch, hs'⟩ := hs.step ((cellAt_hide h hnew).trans hc) hmany
  have hpos := (hs.drop ((cellAt_hide h hnew).trans hc) hmany).pos
  have hrelease : hide (release h i) ids = release (hide h ids) i := hide_modify hnew _
  rw [← hrelease] at hch hs' hpos
  have hlen : (release h i).length = h.length := List.length_modify ..
  have hlt : ∀ j ∈ ids, j < (release h i).length := fun j hj => hlen.symm ▸ hz.lt j hj
  have hfresh : h.length ∉ ids := fun hmem => Nat.lt_irrefl _ (hz.lt _ hmem)
  -- the heap without the cells behind the cursor
  have hpush := hide_push hlt (some d)
  have hch' : Chain R (hide (release h i ++ [some d]) ids) c.next vs := hpush ▸ hch.push (some d)
  have hz' : Zipper R (retain (release h i ++ [some d]) c.next) m ids us (some i) := by
    refine Zipper.retain (hz.congr fun j hj => ?_) hch'
    have hij : i ≠ j := fun heq => hnew (heq ▸ hj)
    exact (cellAt_push_of_lt (hlt j hj) _).trans (cellAt_modify hij _)
  obtain ⟨hz₁, hhide⟩ := hz'.link (some h.length)
  rw [hide_retain hch', hpush, retain_push hch] at hhide
  have hlast : (retain (hide (release h i) ids) c.next).length = h.length := by
    rw [length_retain, length_hide, hlen]
  have hcell : cellAt (link (retain (release h i ++ [some d]) c.next) m (some h.length) ids.head?).1
      h.length = some d := by
    rw [← cellAt_hide _ hfresh, hhide, ← hlast]
    exact cellAt_push_self _ _
  have hz₂ := Zipper.node hz₁ hcell hone hr hfresh
  rw [hd] at hz₂
  refine ⟨⟨h.length :: ids, rfl, hz₂, ?_⟩, fun j hj => ?_⟩
  · change Shared R ((hide (link _ m _ _).1 ids).set h.length none) _
    rw [hhide, List.set_append_right _ _ (Nat.le_of_eq hlast), hlast, Nat.sub_self]
    exact hs'.room
  · rw [hj] at hch hhide
    cases hch with
    | @cons _ c₀ _ _ hc₀ _ _ =>
      have hlt₀ := lt_of_cellAt hc₀
      have hpos : 0 < c₀.count := hpos j c₀ hc₀
      rw [retain_some hc₀] at hhide
      refine ⟨{ c₀ with count := c₀.count + 1 }, ?_, Nat.succ_lt_succ hpos⟩
      rw [← cellAt_hide _ (not_mem_of_hide hc₀), hj, hhide, cellAt_push_of_lt (by
        rw [List.length_set]
        exact hlt₀), cellAt_set_self hlt₀]

end Chains

end Ns3.Lib
