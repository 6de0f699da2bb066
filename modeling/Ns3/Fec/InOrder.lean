import Ns3.Fec.RouterRuns

/-!
# Deliveries in order

Delivered in the order they were entered, packets that were passed over stay missing. So the
loss count of a packet is a count over the missing packets before it, an early return is
followed by early returns of all later packets of the round, and until the first one the
group tables have seen every delivery.
-/

namespace Ns3.Fec

variable {H : Type} {log : List (Record H)} {D D' D'' : Deliveries} {tag : FecTag}

/-- The missing packets of a round before a serial and below a bound. -/
def lostBefore (log : List (Record H)) (D : Deliveries) (rid serial bound : UInt32) : Nat :=
  (missing log D rid).countP fun m => decide (m.serial_ < serial) && decide (m.serial_ < bound)

/-- A packet of the round was delivered after more losses than the round has groups. -/
def Overrun (log : List (Record H)) (D : Deliveries) (bound : UInt32 → UInt32) (rid : UInt32)
    (nGroups : UInt8) : Prop :=
  ∃ e ∈ entered log rid, D rid e.serial_ = true ∧
    nGroups.toNat < lostBefore log D rid e.serial_ (bound e.serial_)

/-- Every packet of the round delivered so far was entered before this one. -/
def Latest (log : List (Record H)) (D : Deliveries) (tag : FecTag) : Prop :=
  ∀ e ∈ entered log tag.m_roundId, D tag.m_roundId e.serial_ = true → e.serial_ < tag.m_serial

/-- The missing packets before a serial do not depend on later deliveries. -/
theorem lostBefore_add (log : List (Record H)) (D : Deliveries) {rid serial : UInt32}
    (bound : UInt32) (h : rid = tag.m_roundId → serial ≤ tag.m_serial) :
    lostBefore log (D.add tag) rid serial bound = lostBefore log D rid serial bound := by
  rw [lostBefore, lostBefore, missing, missing, List.countP_filter, List.countP_filter]
  apply List.countP_congr
  intro e _
  by_cases hlt : e.serial_ < serial
  · have hne : ¬ (rid = tag.m_roundId ∧ e.serial_ = tag.m_serial) := by
      rintro ⟨hrid, hser⟩
      have := h hrid
      grind
    have hD : D.add tag rid e.serial_ = D rid e.serial_ := by
      rw [Deliveries.add, ← Bool.decide_and, decide_eq_false hne, Bool.or_false]
    rw [hD]
  · simp [hlt]

/-- Few packets are before a serial. -/
theorem lostBefore_lt (hlog : WellLogged log) (D : Deliveries) (rid serial bound : UInt32) :
    lostBefore log D rid serial bound < 2 ^ 32 := by
  have hle : lostBefore log D rid serial bound ≤
      ((entered log rid).map (marked D rid)).countP (lost serial) := by
    rw [lostBefore, missing, List.countP_filter, List.countP_map]
    apply List.countP_mono_left
    intro e _ he
    simp only [Bool.and_eq_true, Bool.not_eq_true', decide_eq_true_eq] at he
    simp [lost, marked, he.1.1, he.2]
  have hasc : Ascending ((entered log rid).map (marked D rid)) := by
    simpa [Ascending, List.pairwise_map] using hlog.ascending rid
  exact (hle.trans (hasc.countP_lost_le serial)).trans_lt serial.toNat_lt

/-- More packets are missing before a later serial. -/
theorem lostBefore_mono (log : List (Record H)) (D : Deliveries) (rid : UInt32)
    {a b k k' : UInt32} (hab : a ≤ b) (hk : k ≤ k') :
    lostBefore log D rid a k ≤ lostBefore log D rid b k' := by
  apply List.countP_mono_left
  intro m _ hm
  simp only [Bool.and_eq_true, decide_eq_true_eq] at hm ⊢
  grind

/-- The loss count of a packet counts the missing packets before it. -/
theorem lostSum_eq {bound : UInt32} (hb : tag.m_type ≠ 1 → bound ≤ tag.m_serial) :
    lostSum log D tag bound =
      UInt32.ofNat (lostBefore log D tag.m_roundId tag.m_serial bound) := by
  rw [← lostBefore_add log D bound (fun _ => UInt32.le_refl _), lostSum, lostBefore]
  congr 1
  apply List.countP_congr
  intro e he
  have hne : e.serial_ ≠ tag.m_serial := by
    intro hser
    have hmiss := (List.mem_filter.mp he).2
    simp [Deliveries.add, hser] at hmiss
  simp only [Bool.and_eq_true, decide_eq_true_eq, reached]
  constructor
  · rintro ⟨hbound, hreach⟩
    by_cases h1 : tag.m_type = 1
    · have := hreach h1
      grind
    · have := hb h1
      grind
  · rintro ⟨hlt, hbound⟩
    exact ⟨hbound, fun _ => UInt32.le_of_lt hlt⟩

/-- The losses the group phase counts are among those the round phase counts, when the group
tables saw what was delivered of the group. -/
theorem groupLost_length_le {bound : UInt32}
    (hseen : ∀ e ∈ entered log tag.m_roundId, e.gid_ = tag.m_groupId → e.serial_ < tag.m_serial →
      e.serial_ < bound ∧
        (D tag.m_roundId e.serial_ = true → D' tag.m_roundId e.serial_ = true)) :
    (groupLost log D' tag).length ≤ lostBefore log D tag.m_roundId tag.m_serial bound := by
  simp only [groupLost, lostBefore, missing, ← List.countP_eq_length_filter, List.countP_filter]
  apply List.countP_mono_left
  intro e he hlost
  simp only [Bool.and_eq_true, Bool.not_eq_true', Bool.or_eq_false_iff, decide_eq_true_eq] at hlost ⊢
  obtain ⟨⟨hlt, hgid⟩, hc, hD'⟩ := hlost
  obtain ⟨hbound, himp⟩ := hseen e he hgid hlt
  refine ⟨⟨hlt, hbound⟩, hc, ?_⟩
  rw [Bool.eq_false_iff]
  intro hD
  rw [himp hD] at hD'
  cases hD'

/-- A packet is cut short by an early return exactly when the losses before it exceed the
group count. -/
theorem early_iff (hlog : WellLogged log) {bound : UInt32}
    (hb : tag.m_type ≠ 1 → bound ≤ tag.m_serial) :
    tag.m_nGroups.toUInt32 < lostSum log D tag bound ↔
      tag.m_nGroups.toNat < lostBefore log D tag.m_roundId tag.m_serial bound := by
  rw [lostSum_eq hb, ← not_iff_not, not_lt_ofNat_iff (lostBefore_lt hlog D _ _ _), not_lt]

/-- Once a round is overrun, every later packet of it is cut short. -/
theorem Overrun.early {bound : UInt32 → UInt32} (hbound : ∀ a b, a ≤ b → bound a ≤ bound b)
    (ho : Overrun log D bound tag.m_roundId tag.m_nGroups) (hlatest : Latest log D tag) :
    tag.m_nGroups.toNat <
      lostBefore log D tag.m_roundId tag.m_serial (bound tag.m_serial) := by
  obtain ⟨e, he, hD, hlt⟩ := ho
  have hle := UInt32.le_of_lt (hlatest e he hD)
  exact hlt.trans_le (lostBefore_mono log D _ hle (hbound _ _ hle))

/-- An overrun round stays overrun. -/
theorem Overrun.add {bound : UInt32 → UInt32} {rid : UInt32} {nGroups : UInt8}
    (ho : Overrun log D bound rid nGroups) (hlatest : Latest log D tag) :
    Overrun log (D.add tag) bound rid nGroups := by
  obtain ⟨e, he, hD, hlt⟩ := ho
  refine ⟨e, he, by simp [Deliveries.add, hD], ?_⟩
  rw [lostBefore_add]
  · exact hlt
  · rintro rfl
    exact UInt32.le_of_lt (hlatest e he hD)

/-- A packet that is cut short overruns its round. -/
theorem Overrun.of_early {bound : UInt32 → UInt32} {r : Record H} (hr : r ∈ log)
    (htag : r.TaggedBy tag)
    (hlt : tag.m_nGroups.toNat <
      lostBefore log D tag.m_roundId tag.m_serial (bound tag.m_serial)) :
    Overrun log (D.add tag) bound tag.m_roundId tag.m_nGroups := by
  refine ⟨r.info, mem_entered hr htag.rid.symm, ?_, ?_⟩
  · simp [Deliveries.add, htag.serial]
  · rw [lostBefore_add, ← htag.serial]
    · exact hlt
    · exact fun _ => htag.serial ▸ UInt32.le_refl _

/-- Entering more packets takes no loss back. -/
theorem Overrun.append {bound : UInt32 → UInt32} {rid : UInt32} {nGroups : UInt8}
    (ho : Overrun log D bound rid nGroups) (log' : List (Record H)) :
    Overrun (log ++ log') D bound rid nGroups := by
  obtain ⟨e, he, hD, hlt⟩ := ho
  refine ⟨e, ?_, hD, hlt.trans_le ?_⟩
  · rw [entered_append]
    exact List.mem_append_left _ he
  · simp only [lostBefore, missing, entered_append, List.filter_append, List.countP_append]
    exact Nat.le_add_right _ _

/-- What a pass reports that finds the packet's round: the loss count, an early return when the
losses exceed the group count, and the losses in the group unless the round was popped. -/
theorem Outcome.reports {bound : UInt32} {request : Bool} {s : FecTables H} {d : Decoded H}
    (ho : Outcome log D D' tag bound request s d D'')
    (hfound : ∀ t q, s.rt_ = t :: q → ¬ tag.m_roundId < t.rid_) :
    d.sumlost = lostSum log D tag bound ∧
      (d.group = none ∧ tag.m_nGroups.toUInt32 < lostSum log D tag bound ∨
        ∃ g, d.group = some g ∧ ¬ tag.m_nGroups.toUInt32 < lostSum log D tag bound ∧
          (g.nlost = 0 ∨ g.nlost = UInt32.ofNat (groupLost log D' tag).length ∧
            ∃ t ∈ s.rt_, t.rid_ = tag.m_roundId ∧ ¬ IsLast tag t.nGroups_)) := by
  cases ho with
  | stale t q hrt hlt => exact absurd hlt (hfound t q hrt)
  | early old t q hrt hrid hsum => exact ⟨rfl, .inl ⟨rfl, hsum⟩⟩
  | last old t q hrt hrid hsum => exact ⟨rfl, .inr ⟨_, rfl, hsum, .inl rfl⟩⟩
  | data old t q hrt hrid hsum htype =>
    exact ⟨rfl, .inr ⟨_, rfl, hsum, .inr ⟨rfl, t, by simp [hrt], hrid, fun hlast => htype hlast.1⟩⟩⟩
  | fec old t q hrt hrid hsum htype hlast =>
    exact ⟨rfl, .inr ⟨_, rfl, hsum, .inr ⟨rfl, t, by simp [hrt], hrid, hlast⟩⟩⟩

/-- The group tables have seen the data packets delivered, in every round that is queued and
not overrun. -/
def Seen (log : List (Record H)) (D D' : Deliveries) (bound : UInt32 → UInt32)
    (rt : List (RoundFecTable H)) : Prop :=
  ∀ t ∈ rt, ∀ e ∈ entered log t.rid_, e.type_ = false → D t.rid_ e.serial_ = true →
    D' t.rid_ e.serial_ = true ∨ Overrun log D bound t.rid_ t.nGroups_

/-- Entering packets and opening rounds keeps the group tables up to date. -/
theorem Seen.grow {R later : List (RoundFecTable H)} {t : RoundFecTable H}
    {Q : List (GroupFecTable H)} {T : GroupFecTable H} (h : Live log D D' R t Q T)
    {bound : UInt32 → UInt32} (hseen : Seen log D D' bound (R ++ [t])) {es : List (PacketInfo H)}
    (habove : ∀ e ∈ entered log t.rid_, ∀ e' ∈ es, e.serial_ < e'.serial_)
    (hlater : ∀ u ∈ later, t.rid_ < u.rid_) :
    Seen (log ++ recordsOf t.rid_ t.nGroups_ es) D D' bound (R ++ t.push es :: later) := by
  have hnew : ∀ e ∈ es, D t.rid_ e.serial_ = false := by
    intro e he
    apply h.not_got
    intro e' he'
    have := habove e' he' e he
    grind
  -- a delivered packet was entered before, in a round that was there
  have hold : ∀ u ∈ R ++ t.push es :: later,
      ∀ e ∈ entered (log ++ recordsOf t.rid_ t.nGroups_ es) u.rid_, D u.rid_ e.serial_ = true →
        e ∈ entered log u.rid_ ∧ ∃ v ∈ R ++ [t], v.rid_ = u.rid_ ∧ v.nGroups_ = u.nGroups_ := by
    intro u hu e he hD
    obtain ⟨r, hr, hrid, hser⟩ := h.got_sent _ _ hD
    have hmem : e ∈ entered log u.rid_ := by
      rw [entered_recordsOf] at he
      split at he
      · next heq =>
        rcases List.mem_append.mp he with he | he
        · exact he
        · rw [heq, hnew e he] at hD
          cases hD
      · exact he
    refine ⟨hmem, ?_⟩
    rcases List.mem_append.mp hu with hu | hu
    · exact ⟨u, by simp [hu], rfl, rfl⟩
    · rcases List.mem_cons.mp hu with rfl | hu
      · exact ⟨t, by simp, rfl, rfl⟩
      · have := h.past r hr
        have := hlater u hu
        grind
  intro u hu e he htype hD
  obtain ⟨hmem, v, hv, hrid, hn⟩ := hold u hu e he hD
  rw [← hrid] at hmem hD ⊢
  rw [← hn]
  exact (hseen v hv e hmem htype hD).imp id fun ho => ho.append _

/-- Deliveries in order keep the group tables up to date. -/
theorem Seen.pass {R : List (RoundFecTable H)} {t : RoundFecTable H} {Q : List (GroupFecTable H)}
    {T : GroupFecTable H} (h : Live log D D' R t Q T) {bound : UInt32 → UInt32}
    (hseen : Seen log D D' bound (R ++ [t])) {r : Record H} (hr : r ∈ log)
    (htag : r.TaggedBy tag) (hlatest : Latest log D tag)
    (hb : tag.m_type ≠ 1 → bound tag.m_serial ≤ tag.m_serial) {request : Bool} {d : Decoded H}
    (ho : Outcome log D D' tag (bound tag.m_serial) request ⟨R ++ [t], Q ++ [T]⟩ d D'') :
    Seen log (D.add tag) D'' bound d.tables.rt_ := by
  -- the tables left are of rounds that were there, with their group counts
  have hold : ∀ u ∈ d.tables.rt_, ∃ v ∈ R ++ [t], v.rid_ = u.rid_ ∧ v.nGroups_ = u.nGroups_ := by
    intro u hu
    rcases ho.rounds with ⟨-, -, -, -, heq, -⟩ | ⟨old, v, q, hrt, -, -, ⟨-, hd⟩ | hd⟩
    · exact ⟨u, by rw [heq] at hu; exact hu, rfl, rfl⟩
    · have hrt' : R ++ [t] = old ++ v :: q := hrt
      exact ⟨u, by rw [hrt']; simp [hd ▸ hu], rfl, rfl⟩
    · have hrt' : R ++ [t] = old ++ v :: q := hrt
      rw [hd] at hu
      rcases List.mem_cons.mp hu with rfl | hu
      · exact ⟨v, by rw [hrt']; simp, rfl, rfl⟩
      · exact ⟨u, by rw [hrt']; simp [hu], rfl, rfl⟩
  have hmono : ∀ rid serial, D' rid serial = true → D'' rid serial = true := by
    intro rid serial hD'
    rcases ho.groups with ⟨-, rfl⟩ | ⟨-, -, -, -, -, -, -, rfl, -⟩
    · exact hD'
    · simp [Deliveries.add, hD']
  intro u hu e he htype hD
  obtain ⟨v, hv, hvrid, hvn⟩ := hold u hu
  rw [← hvrid] at he hD
  rw [← hvrid, ← hvn]
  by_cases hDold : D v.rid_ e.serial_ = true
  · exact (hseen v hv e he htype hDold).imp (hmono _ _) fun hover => hover.add hlatest
  · -- the packet delivered just now
    simp only [Deliveries.add, hDold, Bool.false_or, Bool.and_eq_true, decide_eq_true_eq] at hD
    obtain ⟨hrid, hser⟩ := hD
    have hn : tag.m_nGroups = v.nGroups_ := by
      rw [htag.nGroups]
      exact h.nGroups v hv r hr (htag.rid.symm.trans hrid.symm)
    have hadd : D'.add tag v.rid_ e.serial_ = true := by simp [Deliveries.add, hrid, hser]
    cases ho with
    | stale w q hrt hlt =>
      exfalso
      have hrt' : R ++ [t] = w :: q := hrt
      have hsorted := h.rt_sorted
      change (R ++ [t]).Pairwise _ at hsorted
      rw [hrt'] at hv hsorted
      rcases List.mem_cons.mp hv with rfl | hv
      · rw [hrid] at hlt
        exact UInt32.lt_irrefl _ hlt
      · have := (List.pairwise_cons.mp hsorted).1 v hv
        grind
    | early old w q hrt hwrid hsum =>
      right
      rw [hrid, ← hn]
      exact Overrun.of_early hr htag ((early_iff h.logged hb).mp hsum)
    | last old w q hrt hwrid hsum hlast =>
      exfalso
      have hown := (h.logged.ascending v.rid_).eq_of_serial he
        (mem_entered hr (htag.rid.symm.trans hrid.symm)) (hser.trans htag.serial)
      rw [hown, htag.type.mp hlast.1] at htype
      cases htype
    | data => exact .inl hadd
    | fec => exact .inl hadd

end Ns3.Fec
