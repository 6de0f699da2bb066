import Ns3.Network.PacketTagList

/-!
# Packet tags through runs of calls

Each list of tags behaves as a list of its own, and each node counts the pointers to it.
-/

namespace Ns3.Network

open Ns3.Lib PacketTagList

/-- A stored tag starts with the bytes of a value. -/
def TagMethods.Stores {V : Type*} (k : TagMethods V) (d : StoredTag) (v : V) : Prop :=
  d.tid = k.tid v ∧ k.serialize v <+: d.data

section Nodes

variable {V : Type*} {k : TagMethods V} {h h' : TagNodes} {m p prevNext : Option Nat} {us vs ws : List V}
  {v w : V} {heads : List (Option Nat × List V)} {tid fuel i : Nat} {d : StoredTag} {c : TagData}

theorem TagMethods.stores_store (k : TagMethods V) (v : V) : k.Stores (k.store v) v :=
  ⟨rfl, List.prefix_refl _⟩

theorem TagMethods.Stores.load (hd : k.Stores d v) : k.load d = v := by
  obtain ⟨htid, rest, hdata⟩ := hd
  rw [TagMethods.load, htid, ← hdata]
  exact k.deserialize_serialize v rest

/-! ### Traversal -/

/-- The first value of a type. -/
def TagMethods.first (k : TagMethods V) (tid : Nat) (vs : List V) : Option V :=
  vs.find? fun v => k.tid v = tid

theorem find_spec (tid : Nat) (hch : Chain k.Stores h p vs) (hfuel : vs.length < fuel) :
    ∃ o, find h tid fuel p = some o ∧ Option.Rel k.Stores o (k.first tid vs) := by
  induction hch generalizing fuel with
  | nil =>
    obtain ⟨fuel, rfl⟩ := Nat.exists_eq_succ_of_ne_zero (Nat.ne_of_gt hfuel)
    exact ⟨none, rfl, .none⟩
  | @cons i c v vs hc hr _ ih =>
    obtain ⟨fuel, rfl⟩ := Nat.exists_eq_succ_of_ne_zero (Nat.ne_of_gt (Nat.zero_lt_of_lt hfuel))
    rw [find, hc, Option.bind_some, TagMethods.first, List.find?_cons]
    by_cases htid : k.tid v = tid
    · refine ⟨some c.value, if_pos (hr.1.trans htid), ?_⟩
      rw [decide_eq_true htid]
      exact .some hr
    · obtain ⟨o, heq, hrel⟩ := ih (Nat.lt_of_succ_lt_succ hfuel)
      refine ⟨o, (if_neg fun hn => htid (hr.1.symm.trans hn)).trans heq, ?_⟩
      rw [decide_eq_false htid]
      exact hrel

/-- The search stops at a cursor behind which there is no tag of the type. -/
inductive Stops (k : TagMethods V) (h : TagNodes) (m : Option Nat) (tid : Nat) (all : List V)
    (heads : List (Option Nat × List V)) : Search → Prop
  | absent (hall : ∀ v ∈ all, k.tid v ≠ tid) : Stops k h m tid all heads .absent
  | merge {prevNext : Option Nat} {cur : Nat} {us vs : List V} {c : TagData}
      (hk : Cursor k.Stores h m prevNext us (some cur) vs heads) (hall : us.reverse ++ vs = all)
      (hus : ∀ u ∈ us, k.tid u ≠ tid) (hc : cellAt h cur = some c) (hmany : 1 < c.count) :
      Stops k h m tid all heads (.merge prevNext cur)
  | found {prevNext : Option Nat} {cur : Nat} {us vs : List V} {v : V} {c : TagData}
      (hk : Cursor k.Stores h m prevNext us (some cur) (v :: vs) heads)
      (hall : us.reverse ++ v :: vs = all) (hus : ∀ u ∈ us, k.tid u ≠ tid) (hv : k.tid v = tid)
      (hc : cellAt h cur = some c) (hone : c.count = 1) : Stops k h m tid all heads (.found prevNext cur)

theorem search_spec (hk : Cursor k.Stores h m prevNext us p vs heads) (hus : ∀ u ∈ us, k.tid u ≠ tid)
    (hfuel : vs.length < fuel) :
    ∃ r, search h tid fuel prevNext p = some r ∧ Stops k h m tid (us.reverse ++ vs) heads r := by
  induction fuel generalizing prevNext us p vs with
  | zero => exact absurd hfuel (Nat.not_lt_zero _)
  | succ fuel ih =>
    cases p with
    | none =>
      obtain rfl := hk.nil
      refine ⟨_, rfl, .absent fun v hv => hus v ?_⟩
      rw [List.append_nil] at hv
      exact List.mem_reverse.mp hv
    | some cur =>
      obtain ⟨c, v, vs, hc, rfl, hr, hpos⟩ := hk.cell
      rw [search, hc, Option.bind_some]
      by_cases hmany : 1 < c.count
      · exact ⟨_, if_pos hmany, .merge hk rfl hus hc hmany⟩
      · have hone : c.count = 1 := by omega
        rw [if_neg hmany]
        by_cases htid : k.tid v = tid
        · exact ⟨_, if_pos (hr.1.trans htid), .found hk rfl hus htid hc hone⟩
        · rw [if_neg fun hn => htid (hr.1.symm.trans hn)]
          obtain ⟨r, heq, hstop⟩ := ih (hk.next hc hone) (List.forall_mem_cons.mpr ⟨htid, hus⟩)
            (Nat.lt_of_succ_lt_succ hfuel)
          rw [List.reverse_cons, List.append_assoc] at hstop
          exact ⟨r, heq, hstop⟩

/-- Merges are copied up to the type. -/
theorem copyTo_spec (hk : Cursor k.Stores h m prevNext us p vs heads) (hus : ∀ u ∈ us, k.tid u ≠ tid)
    (hfuel : vs.length < fuel) (hmany : ∀ i, p = some i → ∀ c, cellAt h i = some c → 1 < c.count)
    (hin : ∃ v ∈ vs, k.tid v = tid) :
    ∃ h' m' prevNext' cur us' v vs' c, copyTo h m tid fuel prevNext p = some (h', m', prevNext', cur) ∧
      Cursor k.Stores h' m' prevNext' us' (some cur) (v :: vs') heads ∧
      us'.reverse ++ v :: vs' = us.reverse ++ vs ∧ (∀ u ∈ us', k.tid u ≠ tid) ∧ k.tid v = tid ∧
      cellAt h' cur = some c ∧ 1 < c.count := by
  induction fuel generalizing h m prevNext us p vs with
  | zero => exact absurd hfuel (Nat.not_lt_zero _)
  | succ fuel ih =>
    cases p with
    | none =>
      obtain rfl := hk.nil
      obtain ⟨v, hv, -⟩ := hin
      cases hv
    | some cur =>
      obtain ⟨c, v, vs, hc, rfl, hr, hpos⟩ := hk.cell
      have hc1 := hmany cur rfl c hc
      rw [copyTo, hc, Option.bind_some, if_neg (Nat.not_le.mpr hc1)]
      by_cases htid : k.tid v = tid
      · rw [if_pos (hr.1.trans htid)]
        exact ⟨h, m, prevNext, cur, us, v, vs, c, rfl, hk, rfl, hus, htid, hc, hc1⟩
      · rw [if_neg fun hn => htid (hr.1.symm.trans hn)]
        obtain ⟨hk', hbehind⟩ := hk.copy (d := { c with count := 1 }) hc hc1 rfl rfl hr
        have hlen : (release h cur).length = h.length := List.length_modify ..
        obtain ⟨w, hw, hwtid⟩ := hin
        have hin' : ∃ v ∈ vs, k.tid v = tid := by
          rcases List.mem_cons.mp hw with rfl | hw
          · exact absurd hwtid htid
          · exact ⟨w, hw, hwtid⟩
        dsimp only
        rw [hlen]
        have hmany' : ∀ i, c.next = some i → ∀ c', cellAt (link (retain (release h cur ++
            [some { c with count := 1 }]) c.next) m (some h.length) prevNext).1 i = some c' →
            1 < c'.count := by
          intro i hi c' hc'
          obtain ⟨c₀, hc₀, hcount⟩ := hbehind i hi
          rw [← Option.some.inj (hc₀.symm.trans hc')]
          exact hcount
        obtain ⟨h', m', prevNext', cur', us', v', vs', c', heq, hk'', hall, hus', hv', hc', hm'⟩ :=
          ih hk' (List.forall_mem_cons.mpr ⟨htid, hus⟩) (Nat.lt_of_succ_lt_succ hfuel) hmany' hin'
        refine ⟨h', m', prevNext', cur', us', v', vs', c', heq, hk'', ?_, hus', hv', hc', hm'⟩
        rw [hall, List.reverse_cons, List.append_assoc]
        rfl

theorem first_eq_none (hall : ∀ v ∈ vs, k.tid v ≠ tid) : k.first tid vs = none :=
  List.find?_eq_none.mpr fun v hv htid => hall v hv (of_decide_eq_true htid)

theorem ne_of_first (hnone : k.first tid vs = none) : ∀ v ∈ vs, k.tid v ≠ tid := fun v hv htid =>
  List.find?_eq_none.mp hnone v hv (decide_eq_true htid)

/-- A value of the type behind values of others. -/
theorem first_append (hus : ∀ u ∈ us, k.tid u ≠ tid) (hv : k.tid v = tid) :
    k.first tid (us.reverse ++ v :: vs) = some v := by
  have hnone : k.first tid us.reverse = none := first_eq_none fun u hu => hus u (List.mem_reverse.mp hu)
  rw [TagMethods.first] at hnone ⊢
  rw [List.find?_append, hnone, Option.none_or, List.find?_cons, decide_eq_true hv]

/-- The writer of `COWTraverse` is called at a cursor on the type, before the first merge or at a
merge. -/
structure Target (k : TagMethods V) (h : TagNodes) (m : Option Nat) (tid : Nat) (all : List V)
    (heads : List (Option Nat × List V)) (h' : TagNodes) (m' : Option Nat) (preMerge : Bool)
    (prevNext : Option Nat) (cur : Nat) (us : List V) (v : V) (vs : List V) (c : TagData) : Prop where
  cursor : Cursor k.Stores h' m' prevNext us (some cur) (v :: vs) heads
  all : us.reverse ++ v :: vs = all
  before : ∀ u ∈ us, k.tid u ≠ tid
  found : k.tid v = tid
  cell : cellAt h' cur = some c
  place : preMerge = true ∧ c.count = 1 ∧ h' = h ∧ m' = m ∧
      search h tid (h.length + 1) none m = some (.found prevNext cur) ∨
    preMerge = false ∧ 1 < c.count

/-- `COWTraverse` finds no tag of the type and changes nothing, or calls its writer. -/
theorem cowTraverse_spec (hs : Shared k.Stores h ((m, vs) :: heads)) (tid : Nat) :
    ((∀ v ∈ vs, k.tid v ≠ tid) ∧ ∀ {β : Type} (writer : TagNodes → Option Nat → Bool → Nat → Option Nat →
        Option (β × TagNodes × Option Nat)), cowTraverse h m tid writer = some (none, h, m)) ∨
      ∃ h' m' preMerge prevNext cur us v vs' c,
        Target k h m tid vs heads h' m' preMerge prevNext cur us v vs' c ∧
        ∀ {β : Type} (writer : TagNodes → Option Nat → Bool → Nat → Option Nat →
          Option (β × TagNodes × Option Nat)), cowTraverse h m tid writer =
            (writer h' m' preMerge cur prevNext).map fun (b, r) => (some b, r) := by
  have hlen := Nat.lt_succ_of_le hs.first.length_le
  obtain ⟨r, hsearch, hstop⟩ := search_spec hs.cursor (show ∀ u ∈ [], k.tid u ≠ tid from nofun) hlen
  rw [List.reverse_nil, List.nil_append] at hstop
  cases hstop with
  | absent hall =>
    refine .inl ⟨hall, fun writer => ?_⟩
    rw [cowTraverse, hsearch]
    rfl
  | @found prevNext cur us vs' v c hk hall hus hv hc hone =>
    refine .inr ⟨h, m, true, prevNext, cur, us, v, vs', c, ⟨hk, hall, hus, hv, hc,
      .inl ⟨rfl, hone, rfl, rfl, hsearch⟩⟩, fun writer => ?_⟩
    rw [cowTraverse, hsearch]
    rfl
  | @merge prevNext cur us vs' c hk hall hus hc hmany =>
    have hfuel := Nat.lt_succ_of_le hk.length_le
    obtain ⟨o, hfind, hrel⟩ := find_spec tid hk.chain hfuel
    by_cases hin : ∃ v ∈ vs', k.tid v = tid
    · obtain ⟨h', m', prevNext', cur', us', v', vs'', c', hcopy, hk', hall', hus', hv', hc', hmany'⟩ :=
        copyTo_spec hk hus hfuel (fun i hi c' hc' => by
          obtain rfl := Option.some.inj hi
          rw [← Option.some.inj (hc.symm.trans hc')]
          exact hmany) hin
      refine .inr ⟨h', m', false, prevNext', cur', us', v', vs'', c', ⟨hk', hall'.trans hall, hus', hv',
        hc', .inr ⟨rfl, hmany'⟩⟩, fun writer => ?_⟩
      cases o with
      | none =>
        obtain ⟨v, hv, htid⟩ := hin
        cases hfirst : k.first tid vs' with
        | none => exact absurd htid (ne_of_first hfirst v hv)
        | some w =>
          rw [hfirst] at hrel
          cases hrel
      | some d =>
        rw [cowTraverse, hsearch, Option.bind_some]
        dsimp only
        rw [hfind, Option.bind_some]
        dsimp only
        rw [hcopy]
        rfl
    · have hnot : ∀ v ∈ vs', k.tid v ≠ tid := fun v hv htid => hin ⟨v, hv, htid⟩
      rw [first_eq_none hnot] at hrel
      cases hrel
      refine .inl ⟨fun v hv => ?_, fun writer => ?_⟩
      · rw [← hall] at hv
        rcases List.mem_append.mp hv with hv | hv
        · exact hus v (List.mem_reverse.mp hv)
        · exact hnot v hv
      · rw [cowTraverse, hsearch, Option.bind_some]
        dsimp only
        rw [hfind]
        rfl

/-! ### Operations -/

/-- The value of a type is overwritten where it is. -/
def TagMethods.overwrite (k : TagMethods V) (w : V) : List V → List V
  | [] => []
  | v :: vs => if k.tid v = k.tid w then w :: vs else v :: k.overwrite w vs

theorem overwrite_append (hus : ∀ u ∈ us, k.tid u ≠ k.tid w) (hv : k.tid v = k.tid w) :
    k.overwrite w (us ++ v :: vs) = us ++ w :: vs := by
  induction us with
  | nil => exact if_pos hv
  | cons u us ih =>
    rw [List.cons_append, TagMethods.overwrite, if_neg (hus u List.mem_cons_self),
      ih fun u hu => hus u (List.mem_cons_of_mem _ hu)]
    rfl

/-- The list without the first value of a type. -/
def TagMethods.erase (k : TagMethods V) (tid : Nat) (vs : List V) : List V :=
  vs.eraseP fun v => k.tid v = tid

theorem erase_append (hus : ∀ u ∈ us, k.tid u ≠ tid) (hv : k.tid v = tid) :
    k.erase tid (us ++ v :: vs) = us ++ vs := by
  rw [TagMethods.erase, List.eraseP_append_right _ fun u hu => by simpa using hus u hu,
    List.eraseP_cons_of_pos (by simpa using hv)]

theorem remove_spec (hs : Shared k.Stores h ((m, vs) :: heads)) (tid : Nat) :
    ∃ o h' m', remove h m tid = some (o, h', m') ∧ Option.Rel k.Stores o (k.first tid vs) ∧
      Shared k.Stores h' ((m', k.erase tid vs) :: heads) := by
  obtain ⟨hall, heq⟩ | ⟨h', m', preMerge, prevNext, cur, us, v, vs', c, ht, heq⟩ :=
    cowTraverse_spec hs tid
  · refine ⟨none, h, m, heq _, ?_, ?_⟩
    · rw [first_eq_none hall]
      exact .none
    · rw [TagMethods.erase, List.eraseP_of_forall_not fun v hv => by simpa using hall v hv]
      exact hs
  · have hus : ∀ u ∈ us.reverse, k.tid u ≠ tid := fun u hu => ht.before u (List.mem_reverse.mp hu)
    obtain ⟨c', v', vs'', hc', hvs, hr, -⟩ := ht.cursor.cell
    obtain ⟨rfl, rfl⟩ := List.cons.inj hvs
    obtain rfl := Option.some.inj (ht.cell.symm.trans hc')
    have hfirst : k.first tid vs = some v := by
      rw [← ht.all]
      exact first_append ht.before ht.found
    have herase : k.erase tid vs = us.reverse ++ vs' := by
      rw [← ht.all]
      exact erase_append hus ht.found
    rw [hfirst, herase]
    rcases ht.place with ⟨rfl, hone, -⟩ | ⟨rfl, hmany⟩
    · refine ⟨some c.value, _, _, ?_, .some hr, (ht.cursor.unlink hc' hone).close⟩
      rw [remove, heq, removeWriter, hc']
      rfl
    · refine ⟨some c.value, _, _, ?_, .some hr, (ht.cursor.leave hc' hmany).close⟩
      rw [remove, heq, removeWriter, hc']
      rfl

theorem add_spec (hs : Shared k.Stores h ((m, vs) :: heads)) (hnew : ∀ w ∈ vs, k.tid w ≠ k.tid v) :
    ∃ h' m', add h m (k.store v) = some (h', m') ∧ Shared k.Stores h' ((m', v :: vs) :: heads) := by
  obtain ⟨o, hfind, hrel⟩ := find_spec (k.tid v) hs.first (Nat.lt_succ_of_le hs.first.length_le)
  rw [first_eq_none hnew] at hrel
  cases hrel
  refine ⟨_, _, ?_, Shared.push (c := ⟨m, 1, k.store v⟩) hs rfl (k.stores_store v)⟩
  rw [add]
  change Option.bind (find h (k.tid v) _ _) _ = _
  rw [hfind]
  rfl

/-- A value that replaces one before the first merge has no more bytes than that. -/
def Replaces (h : TagNodes) (m : Option Nat) (tag : StoredTag) : Prop :=
  ∀ prevNext cur, search h tag.tid (h.length + 1) none m = some (.found prevNext cur) →
    ∀ c, cellAt h cur = some c → tag.data.length ≤ c.value.data.length

theorem replace_spec (hs : Shared k.Stores h ((m, vs) :: heads)) (hfits : Replaces h m (k.store v)) :
    ∃ h' m', replace h m (k.store v) = some ((k.first (k.tid v) vs).isSome, h', m') ∧
      Shared k.Stores h' ((m', if (k.first (k.tid v) vs).isSome then k.overwrite v vs else v :: vs) ::
        heads) := by
  obtain ⟨hall, heq⟩ | ⟨h', m', preMerge, prevNext, cur, us, v', vs', c, ht, heq⟩ :=
    cowTraverse_spec hs (k.tid v)
  · obtain ⟨h', m', hadd, hs'⟩ := add_spec hs hall
    rw [first_eq_none hall]
    refine ⟨h', m', ?_, hs'⟩
    rw [replace]
    change Option.bind (cowTraverse h m (k.tid v) _) _ = _
    rw [heq, Option.bind_some]
    dsimp only
    rw [hadd]
    rfl
  · have hus : ∀ u ∈ us.reverse, k.tid u ≠ k.tid v := fun u hu => ht.before u (List.mem_reverse.mp hu)
    have hfirst : k.first (k.tid v) vs = some v' := by
      rw [← ht.all]
      exact first_append ht.before ht.found
    have hover : k.overwrite v vs = us.reverse ++ v :: vs' := by
      rw [← ht.all]
      exact overwrite_append hus ht.found
    rw [hfirst, hover]
    have hc := ht.cell
    rcases ht.place with ⟨rfl, hone, rfl, rfl, hsearch⟩ | ⟨rfl, hmany⟩
    · have hle := hfits prevNext cur hsearch c hc
      obtain ⟨c', v'', vs'', hc', hvs, hr, -⟩ := ht.cursor.cell
      obtain rfl := Option.some.inj (hc.symm.trans hc')
      obtain ⟨rfl, rfl⟩ := List.cons.inj hvs
      have hr' : k.Stores ⟨c.value.tid, (k.store v).data ++
          c.value.data.drop (k.store v).data.length⟩ v :=
        ⟨hr.1.trans ht.found, List.prefix_append _ _⟩
      refine ⟨_, _, ?_, (ht.cursor.change (d := ⟨c.next, c.count, ⟨c.value.tid, (k.store v).data ++
        c.value.data.drop (k.store v).data.length⟩⟩) hc hone rfl hone hr').close⟩
      rw [replace]
      change Option.bind (cowTraverse _ _ (k.tid v) _) _ = _
      rw [heq, replaceWriter, hc, Option.bind_some, if_pos rfl, if_pos hle]
      rfl
    · have hk := (ht.cursor.copy (d := ⟨c.next, 1, k.store v⟩) hc hmany rfl rfl (k.stores_store v)).1
      have hclose := hk.close
      rw [List.reverse_cons, List.append_assoc] at hclose
      refine ⟨_, _, ?_, hclose⟩
      have hlen : (release h' cur).length = h'.length := List.length_modify ..
      rw [replace]
      change Option.bind (cowTraverse _ _ (k.tid v) _) _ = _
      rw [heq, replaceWriter, hc, Option.bind_some, if_neg Bool.false_ne_true]
      dsimp only
      rw [hlen]
      rfl

theorem free_eq (h : TagNodes) (prev : Option Nat) : free h prev = hide h prev.toList := by
  cases prev <;> rfl

/-- Otherwise the assertion fails. -/
theorem replaces_of_replace {tag : StoredTag} {r : Bool × TagNodes × Option Nat}
    (heq : replace h m tag = some r) : Replaces h m tag := by
  intro prevNext cur hsearch c hc
  by_contra hlt
  rw [replace, cowTraverse, hsearch, Option.bind_some] at heq
  dsimp only at heq
  rw [replaceWriter, hc, Option.bind_some, if_pos rfl, if_neg hlt] at heq
  cases heq

theorem removeAllFrom_spec (prev : Option Nat) (hs : Shared k.Stores (free h prev) ((p, vs) :: heads))
    (hfuel : vs.length < fuel) :
    ∃ h', removeAllFrom h fuel prev p = some h' ∧ Shared k.Stores h' heads := by
  induction fuel generalizing h prev p vs with
  | zero => exact absurd hfuel (Nat.not_lt_zero _)
  | succ fuel ih =>
    have hfirst := hs.first
    cases hfirst with
    | nil => exact ⟨_, rfl, hs.of_nil⟩
    | @cons cur c v vs hc hr hvs =>
      have hpos := hs.pos cur c hc
      have hnew : cur ∉ prev.toList := not_mem_of_hide (free_eq h prev ▸ hc)
      have hc' : cellAt h cur = some c := by
        rw [← cellAt_hide h hnew, ← free_eq]
        exact hc
      have hrelease : free (release h cur) prev = release (free h prev) cur := by
        rw [free_eq, free_eq]
        exact hide_modify hnew _
      rw [removeAllFrom, hc', Option.bind_some]
      dsimp only
      rw [hrelease]
      by_cases hmany : 1 < c.count
      · exact ⟨_, if_pos (by omega), hs.drop hc hmany⟩
      · have hone : c.count = 1 := by omega
        rw [if_neg (by omega)]
        refine ih (some cur) ?_ (Nat.lt_of_succ_lt_succ hfuel)
        rw [release_eq hc]
        change Shared _ (((free h prev).set cur _).set cur none) _
        rw [List.set_set]
        exact (hs.take hc hone).2

theorem removeAll_spec (hs : Shared k.Stores h ((m, vs) :: heads)) :
    ∃ h', removeAll h m = some h' ∧ Shared k.Stores h' heads :=
  removeAllFrom_spec none hs (Nat.lt_succ_of_le hs.first.length_le)

theorem assign_spec (hs : Shared k.Stores h ((m, vs) :: heads)) (ho : (p, ws) ∈ heads) :
    ∃ h' m', PacketTagList.assign h m p = some (h', m') ∧ Shared k.Stores h' ((m', ws) :: heads) := by
  by_cases heq : m = p
  · subst heq
    exact ⟨h, m, if_pos rfl, hs.reread (hs.chain _ (List.mem_cons_of_mem _ ho))⟩
  · obtain ⟨h', hremove, hs'⟩ := removeAll_spec hs
    refine ⟨retain h' p, p, ?_, hs'.retain (hs'.chain _ ho)⟩
    rw [PacketTagList.assign, if_neg heq, hremove]
    rfl

theorem peek_spec (hs : Shared k.Stores h heads) (hm : (m, vs) ∈ heads) (tid : Nat) :
    (peek h m tid).map (Option.map k.load) = some (k.first tid vs) := by
  have hch : Chain k.Stores h m vs := hs.chain _ hm
  obtain ⟨o, hfind, hrel⟩ := find_spec tid hch (Nat.lt_succ_of_le hch.length_le)
  rw [peek, hfind]
  generalize k.first tid vs = first at *
  cases hrel with
  | none => rfl
  | some hd => exact congrArg (fun v => some (some v)) hd.load

end Nodes

/-! ### Runs -/

section Runs

variable {V : Type*} {k : TagMethods V} {s s' : PacketTagLists} {a : List (Option (List V))}
  {call : TagCall V} {calls : List (TagCall V)} {i j : Nat} {m m' : Option Nat} {vs ws : List V}
  {h : TagNodes}

/-- The values of an object. -/
def PacketTagLists.valuesAt (a : List (Option (List V))) (i : Nat) : List V := a[i]?.join.getD []

/-- What an operation returns and does to lists of values. -/
def TagCall.apply (k : TagMethods V) (a : List (Option (List V))) :
    TagCall V → TagResult V × List (Option (List V))
  | construct => (.done, a ++ [some []])
  | copy i => (.done, a ++ [some (PacketTagLists.valuesAt a i)])
  | assign i j => (.done, a.set i (some (PacketTagLists.valuesAt a j)))
  | add i v => (.done, a.set i (some (v :: PacketTagLists.valuesAt a i)))
  | remove i tid => (.value (k.first tid (PacketTagLists.valuesAt a i)),
    a.set i (some (k.erase tid (PacketTagLists.valuesAt a i))))
  | replace i v =>
    let vs := PacketTagLists.valuesAt a i
    let found := (k.first (k.tid v) vs).isSome
    (.found found, a.set i (some (if found then k.overwrite v vs else v :: vs)))
  | peek i tid => (.value (k.first tid (PacketTagLists.valuesAt a i)), a)
  | destroy i => (.done, a.set i none)

/-- The object exists. -/
def PacketTagLists.Live (a : List (Option (List V))) (i : Nat) : Prop := ∃ vs, a[i]? = some (some vs)

/-- An operation is one that a program can call: objects exist, and a tag is added to a list without
one of its type. -/
def TagCall.Valid (k : TagMethods V) (a : List (Option (List V))) : TagCall V → Prop
  | construct => True
  | assign i j => PacketTagLists.Live a i ∧ PacketTagLists.Live a j
  | add i v => PacketTagLists.Live a i ∧ ∀ w ∈ PacketTagLists.valuesAt a i, k.tid w ≠ k.tid v
  | copy i | remove i _ | replace i _ | peek i _ | destroy i => PacketTagLists.Live a i

/-- A value that replaces one in place has no more bytes than that. -/
def TagCall.Fits (k : TagMethods V) (s : PacketTagLists) : TagCall V → Prop
  | replace i v => ∀ m, s.get i = some m → Replaces s.nodes m (k.store v)
  | _ => True

/-- The lists of a program with the values that they stand for. -/
structure PacketTagLists.Tracks (k : TagMethods V) (s : PacketTagLists) (a : List (Option (List V)))
    (l : List (Option (Option Nat × List V))) : Prop where
  objects : s.objects = l.map (Option.map fun q => ⟨q.1⟩)
  values : a = l.map (Option.map Prod.snd)
  shared : Shared k.Stores s.nodes (present l)

namespace PacketTagLists

variable {l : List (Option (Option Nat × List V))}

theorem Tracks.get (ht : s.Tracks k a l) (hl : Live a i) :
    ∃ m, s.get i = some m ∧ l[i]? = some (some (m, valuesAt a i)) := by
  obtain ⟨vs, hvs⟩ := hl
  have hvs' := hvs
  rw [ht.values, List.getElem?_map] at hvs'
  rw [valuesAt, hvs, PacketTagLists.get, ht.objects, List.getElem?_map]
  cases hq : l[i]? with
  | none =>
    rw [hq] at hvs'
    cases hvs'
  | some q =>
    rw [hq] at hvs'
    cases q with
    | none => cases hvs'
    | some q =>
      obtain rfl : q.2 = vs := Option.some.inj (Option.some.inj hvs')
      exact ⟨q.1, rfl, rfl⟩

/-- The list of an object before the others. -/
theorem Tracks.split (ht : s.Tracks k a l) (hq : l[i]? = some (some (m, vs))) :
    Shared k.Stores s.nodes ((m, vs) :: presentBut l i) :=
  ht.shared.perm (present_perm hq)

theorem Tracks.put (ht : s.Tracks k a l) (hq : l[i]? = some (some (m, vs)))
    (hs : Shared k.Stores h ((m', ws) :: presentBut l i)) :
    (s.put i (h, m')).Tracks k (a.set i (some ws)) (l.set i (some (m', ws))) := by
  refine ⟨?_, ?_, hs.perm (present_set (lt_of_getElem? hq) _).symm⟩
  · rw [List.map_set, ← ht.objects]
    rfl
  · rw [List.map_set, ← ht.values]
    rfl

theorem Tracks.push (ht : s.Tracks k a l) (hs : Shared k.Stores h ((m, vs) :: present l)) :
    (s.push (h, m)).Tracks k (a ++ [some vs]) (l ++ [some (m, vs)]) := by
  refine ⟨?_, ?_, hs.perm (present_push l _).symm⟩
  · rw [List.map_append, ← ht.objects]
    rfl
  · rw [List.map_append, ← ht.values]
    rfl

end PacketTagLists

open PacketTagLists in
/-- An operation returns, and does, what it does to lists of values. -/
theorem TagCall.run_apply {l : List (Option (Option Nat × List V))} (ht : s.Tracks k a l)
    (hv : call.Valid k a) (hf : call.Fits k s) :
    ∃ s' l', call.run k s = some ((call.apply k a).1, s') ∧ s'.Tracks k (call.apply k a).2 l' := by
  cases call with
  | construct => exact ⟨_, _, rfl, ht.push ht.shared.nil⟩
  | copy i =>
    obtain ⟨m, hget, hq⟩ := ht.get hv
    refine ⟨_, _, ?_, ht.push (ht.shared.retain (ht.shared.chain _ (mem_present hq)))⟩
    rw [TagCall.run, hget]
    rfl
  | assign i j =>
    obtain ⟨m, hget, hq⟩ := ht.get hv.1
    obtain ⟨o, hget', hq'⟩ := ht.get hv.2
    by_cases hij : j = i
    · subst hij
      obtain rfl : m = o := by
        rw [hq] at hq'
        exact congrArg Prod.fst (Option.some.inj (Option.some.inj hq'))
      refine ⟨s.put j (s.nodes, m), _, ?_, ht.put hq (ht.split hq)⟩
      rw [TagCall.run, hget]
      change Option.map _ (PacketTagList.assign s.nodes m m) = _
      rw [PacketTagList.assign, if_pos rfl]
      rfl
    · obtain ⟨h', m', heq, hs⟩ := assign_spec (ht.split hq) (mem_presentBut hq' hij)
      refine ⟨_, _, ?_, ht.put hq hs⟩
      rw [TagCall.run, hget, hget']
      change Option.map _ (PacketTagList.assign s.nodes m o) = _
      rw [heq]
      rfl
  | add i v =>
    obtain ⟨m, hget, hq⟩ := ht.get hv.1
    obtain ⟨h', m', heq, hs⟩ := add_spec (ht.split hq) hv.2
    refine ⟨_, _, ?_, ht.put hq hs⟩
    rw [TagCall.run, hget, Option.bind_some, heq]
    rfl
  | remove i tid =>
    obtain ⟨m, hget, hq⟩ := ht.get hv
    obtain ⟨o, h', m', heq, hrel, hs⟩ := remove_spec (ht.split hq) tid
    refine ⟨_, _, ?_, ht.put hq hs⟩
    rw [TagCall.run, hget, Option.bind_some, heq, TagCall.apply]
    generalize k.first tid (valuesAt a i) = first at *
    cases hrel with
    | none => rfl
    | some hd => rw [← hd.load]; rfl
  | replace i v =>
    obtain ⟨m, hget, hq⟩ := ht.get hv
    obtain ⟨h', m', heq, hs⟩ := replace_spec (ht.split hq) (hf m hget)
    refine ⟨_, _, ?_, ht.put hq hs⟩
    rw [TagCall.run, hget, Option.bind_some, heq]
    rfl
  | peek i tid =>
    obtain ⟨m, hget, hq⟩ := ht.get hv
    refine ⟨s, l, ?_, ht⟩
    have hpeek := peek_spec ht.shared (mem_present hq) tid
    rw [TagCall.run, hget, Option.bind_some, TagCall.apply]
    generalize PacketTagList.peek s.nodes m tid = o at *
    cases o with
    | none => cases hpeek
    | some d =>
      rw [Option.map_some] at hpeek ⊢
      rw [Option.some.inj hpeek]
  | destroy i =>
    obtain ⟨m, hget, hq⟩ := ht.get hv
    obtain ⟨h', heq, hs⟩ := removeAll_spec (ht.split hq)
    refine ⟨⟨h', s.objects.set i none⟩, l.set i none, ?_, ?_, ?_, hs⟩
    · rw [TagCall.run, hget, Option.bind_some, heq]
      rfl
    · rw [List.map_set, ← ht.objects]
      rfl
    · rw [List.map_set, ← ht.values]
      rfl

theorem TagCall.fits_of_run {r : TagResult V × PacketTagLists} (heq : call.run k s = some r) :
    call.Fits k s := by
  cases call with
  | replace i v =>
    intro m hget
    rw [TagCall.run, hget, Option.bind_some] at heq
    obtain ⟨r', heq', -⟩ := Option.map_eq_some_iff.mp heq
    exact replaces_of_replace heq'
  | _ => exact trivial

/-- No list has two values of one type. -/
def PacketTagLists.Distinct (k : TagMethods V) (a : List (Option (List V))) : Prop :=
  ∀ vs, some vs ∈ a → (vs.map k.tid).Nodup

namespace PacketTagLists

theorem Distinct.at (hd : Distinct k a) (i : Nat) : ((valuesAt a i).map k.tid).Nodup := by
  rw [valuesAt]
  cases ho : a[i]? with
  | none => exact List.nodup_nil
  | some o =>
    cases o with
    | none => exact List.nodup_nil
    | some vs => exact hd vs (List.mem_of_getElem? ho)

theorem Distinct.set (hd : Distinct k a) (i : Nat) {o : Option (List V)}
    (ho : ∀ vs ∈ o, (vs.map k.tid).Nodup) : Distinct k (a.set i o) := by
  intro vs hvs
  rcases List.mem_or_eq_of_mem_set hvs with hvs | heq
  · exact hd vs hvs
  · exact ho vs heq.symm

theorem Distinct.push (hd : Distinct k a) (hvs : (vs.map k.tid).Nodup) :
    Distinct k (a ++ [some vs]) := by
  intro ws hws
  rcases List.mem_append.mp hws with hws | hws
  · exact hd ws hws
  · obtain rfl := Option.some.inj (List.mem_singleton.mp hws)
    exact hvs

end PacketTagLists

theorem nodup_cons {v : V} (hd : (vs.map k.tid).Nodup) (hnew : ∀ w ∈ vs, k.tid w ≠ k.tid v) :
    ((v :: vs).map k.tid).Nodup := by
  refine List.nodup_cons.mpr ⟨fun hmem => ?_, hd⟩
  obtain ⟨w, hw, heq⟩ := List.mem_map.mp hmem
  exact hnew w hw heq

theorem map_overwrite (w : V) : (k.overwrite w vs).map k.tid = vs.map k.tid := by
  induction vs with
  | nil => rfl
  | cons v vs ih =>
    rw [TagMethods.overwrite]
    split
    · next htid => exact congrArg (· :: _) htid.symm
    · exact congrArg (_ :: ·) ih

open PacketTagLists in
theorem TagCall.apply_distinct (hd : Distinct k a) (hv : call.Valid k a) :
    Distinct k (call.apply k a).2 := by
  cases call with
  | construct => exact hd.push List.nodup_nil
  | copy i => exact hd.push (hd.at i)
  | assign i j =>
    refine hd.set i fun vs hvs => ?_
    obtain rfl := Option.some.inj hvs
    exact hd.at j
  | add i v =>
    refine hd.set i fun vs hvs => ?_
    obtain rfl := Option.some.inj hvs
    exact nodup_cons (hd.at i) hv.2
  | remove i tid =>
    refine hd.set i fun vs hvs => ?_
    obtain rfl := Option.some.inj hvs
    exact ((List.eraseP_sublist ..).map k.tid).nodup (hd.at i)
  | replace i v =>
    refine hd.set i fun vs hvs => ?_
    obtain rfl := Option.some.inj hvs
    cases hfirst : k.first (k.tid v) (valuesAt a i) with
    | none => exact nodup_cons (hd.at i) (ne_of_first hfirst)
    | some w =>
      change ((k.overwrite v (valuesAt a i)).map k.tid).Nodup
      rw [map_overwrite]
      exact hd.at i
  | peek i tid => exact hd
  | destroy i => exact hd.set i nofun

/-- The results of a run of operations and the lists after it. -/
def PacketTagLists.runs (k : TagMethods V) (s : PacketTagLists) :
    List (TagCall V) → Option (List (TagResult V) × PacketTagLists)
  | [] => some ([], s)
  | call :: calls => (call.run k s).bind fun (r, s) =>
    (runs k s calls).map fun (rs, s) => (r :: rs, s)

/-- What a run of operations returns and does to lists of values. -/
def TagCall.applies (k : TagMethods V) (a : List (Option (List V))) :
    List (TagCall V) → List (TagResult V) × List (Option (List V))
  | [] => ([], a)
  | call :: calls =>
    let (r, a) := call.apply k a
    let (rs, a) := applies k a calls
    (r :: rs, a)

/-- The operations can be called one after the other. -/
def TagCall.ValidRun (k : TagMethods V) (a : List (Option (List V))) : List (TagCall V) → Prop
  | [] => True
  | call :: calls => call.Valid k a ∧ ValidRun k (call.apply k a).2 calls

/-- Values that replace others in place have no more bytes than those, in each step of a run. -/
def TagCall.FitsRun (k : TagMethods V) (s : PacketTagLists) : List (TagCall V) → Prop
  | [] => True
  | call :: calls => call.Fits k s ∧ ∀ r ∈ call.run k s, FitsRun k r.2 calls

open PacketTagLists in
theorem TagCall.runs_apply {l : List (Option (Option Nat × List V))} (ht : s.Tracks k a l)
    (hd : Distinct k a) (hv : TagCall.ValidRun k a calls) (hf : TagCall.FitsRun k s calls) :
    ∃ s' l', runs k s calls = some ((TagCall.applies k a calls).1, s') ∧
      s'.Tracks k (TagCall.applies k a calls).2 l' ∧ Distinct k (TagCall.applies k a calls).2 := by
  induction calls generalizing s a l with
  | nil => exact ⟨s, l, rfl, ht, hd⟩
  | cons call calls ih =>
    obtain ⟨s₁, l₁, heq, ht₁⟩ := TagCall.run_apply ht hv.1 hf.1
    obtain ⟨s', l', heq', ht', hd'⟩ :=
      ih ht₁ (TagCall.apply_distinct hd hv.1) hv.2 (hf.2 _ heq)
    refine ⟨s', l', ?_, ht', hd'⟩
    rw [runs, heq, Option.bind_some]
    dsimp only
    rw [heq']
    rfl

theorem TagCall.fitsRun_of_runs {r : List (TagResult V) × PacketTagLists}
    (heq : PacketTagLists.runs k s calls = some r) : TagCall.FitsRun k s calls := by
  induction calls generalizing s r with
  | nil => exact trivial
  | cons call calls ih =>
    obtain ⟨r₁, heq₁, heq'⟩ := Option.bind_eq_some_iff.mp heq
    obtain ⟨r₂, heq₂, -⟩ := Option.map_eq_some_iff.mp heq'
    refine ⟨TagCall.fits_of_run heq₁, fun r' hr' => ?_⟩
    obtain rfl := Option.some.inj (heq₁.symm.trans hr')
    exact ih heq₂

/-- How many lists and nodes point to a node. -/
def PacketTagLists.references (s : PacketTagLists) (i : Nat) : Nat :=
  ((present s.objects).countP fun l => l.m_next == some i) +
    (present s.nodes).countP fun c => c.next == some i

theorem PacketTagLists.Tracks.references {l : List (Option (Option Nat × List V))}
    (ht : s.Tracks k a l) (i : Nat) : countAt s.nodes i = s.references i := by
  rw [ht.shared.counted i, pointers, List.count_append, List.count_filterMap, nexts,
    List.count_filterMap, PacketTagLists.references, ht.objects, present_map, List.countP_map]
  rfl

/-- In a run of valid operations, exactly when values that replace others in place have no more bytes
than those: all operations return, with the results that lists of values give, where no list has two
values of one type; and each node counts the pointers to it, of which there are some, and there are
none to a node that is freed. -/
theorem PacketTagLists.runs_iff (hv : TagCall.ValidRun k [] calls) :
    TagCall.FitsRun k {} calls ↔
      ∃ s, runs k {} calls = some ((TagCall.applies k [] calls).1, s) ∧
        (∀ i, Option.Rel (fun m vs => (vs.map k.tid).Nodup ∧
            ∀ tid, (peek s.nodes m tid).map (Option.map k.load) = some (k.first tid vs))
          (s.get i) (TagCall.applies k [] calls).2[i]?.join) ∧
        (∀ i c, cellAt s.nodes i = some c → c.count = s.references i ∧ 0 < c.count) ∧
        ∀ i, cellAt s.nodes i = none → s.references i = 0 := by
  constructor
  · intro hf
    have hs : Shared k.Stores ([] : TagNodes) [] := by
      refine ⟨fun _ => rfl, fun i c hc => ?_, fun q hq => absurd hq List.not_mem_nil⟩
      rw [cellAt, List.getElem?_nil] at hc
      cases hc
    obtain ⟨s, l, heq, ht, hd⟩ := TagCall.runs_apply (a := []) (l := []) ⟨rfl, rfl, hs⟩
      (fun vs hvs => absurd hvs List.not_mem_nil) hv hf
    refine ⟨s, heq, fun i => ?_, fun i c hc => ⟨?_, ht.shared.pos i c hc⟩, fun i hnone => ?_⟩
    · have hget : s.get i = l[i]?.join.map Prod.fst := by
        rw [PacketTagLists.get, ht.objects, List.getElem?_map]
        rcases l[i]? with _ | _ | _ <;> rfl
      have hvalues : (TagCall.applies k [] calls).2[i]?.join = l[i]?.join.map Prod.snd := by
        rw [ht.values, List.getElem?_map]
        rcases l[i]? with _ | _ | _ <;> rfl
      rw [hget, hvalues]
      cases hq : l[i]?.join with
      | none => exact .none
      | some q =>
        have hq' : l[i]? = some (some q) := Option.join_eq_some_iff.mp hq
        refine .some ⟨hd q.2 ?_, peek_spec ht.shared (mem_present hq')⟩
        rw [ht.values]
        exact List.mem_map.mpr ⟨_, List.mem_of_getElem? hq', rfl⟩
    · rw [← ht.references, countAt_eq hc]
    · rw [← ht.references, countAt, hnone]
      rfl
  · rintro ⟨s, heq, -⟩
    exact TagCall.fitsRun_of_runs heq

/-- The tags of `DeviceNameTag`: a name, with a byte for its length before it. -/
def deviceNameTag : TagMethods { name : List UInt8 // name.length < 256 } where
  tid _ := 0
  serialize name := UInt8.ofNat name.1.length :: name.1
  deserialize _ data := match data with
    | [] => ⟨[], by decide⟩
    | l :: rest => ⟨rest.take l.toNat,
      Nat.lt_of_le_of_lt (List.length_take_le _ _) (UInt8.toNat_lt l)⟩
  deserialize_serialize name rest := by
    apply Subtype.ext
    have hlen : (UInt8.ofNat name.1.length).toNat = name.1.length := by
      rw [UInt8.toNat_ofNat']
      exact Nat.mod_eq_of_lt name.2
    change (name.1 ++ rest).take _ = name.1
    rw [hlen, List.take_left]

/-- A name is replaced by a longer one, in the buffer of the old one. -/
def longerName : List (TagCall { name : List UInt8 // name.length < 256 }) :=
  [.construct, .add 0 ⟨[97], by decide⟩, .replace 0 ⟨[98, 98], by decide⟩, .peek 0 0]

theorem PacketTagLists.runs_longerName : TagCall.ValidRun deviceNameTag [] longerName ∧
    (TagCall.applies deviceNameTag [] longerName).1 =
      [.done, .done, .found true, .value (some ⟨[98, 98], by decide⟩)] ∧
    runs deviceNameTag {} longerName = none := by
  refine ⟨⟨trivial, ⟨⟨[], rfl⟩, nofun⟩, ⟨_, rfl⟩, ⟨_, rfl⟩, trivial⟩, rfl, rfl⟩

/-- A list and a copy of it share a tag; one of them replaces it by a longer one. -/
def copiedName : List (TagCall { name : List UInt8 // name.length < 256 }) :=
  [.construct, .add 0 ⟨[97], by decide⟩, .copy 0, .replace 0 ⟨[98, 98], by decide⟩]

theorem PacketTagLists.runs_iff_copiedName :
    TagCall.FitsRun deviceNameTag {} copiedName ↔
      ∃ s, runs deviceNameTag {} copiedName =
          some ((TagCall.applies deviceNameTag [] copiedName).1, s) ∧
        (∀ i, Option.Rel (fun m vs => (vs.map deviceNameTag.tid).Nodup ∧
            ∀ tid, (peek s.nodes m tid).map (Option.map deviceNameTag.load) =
              some (deviceNameTag.first tid vs))
          (s.get i) (TagCall.applies deviceNameTag [] copiedName).2[i]?.join) ∧
        (∀ i c, cellAt s.nodes i = some c → c.count = s.references i ∧ 0 < c.count) ∧
        ∀ i, cellAt s.nodes i = none → s.references i = 0 :=
  PacketTagLists.runs_iff ⟨trivial, ⟨⟨[], rfl⟩, nofun⟩, ⟨_, rfl⟩, ⟨_, rfl⟩, trivial⟩

end Runs

end Ns3.Network
