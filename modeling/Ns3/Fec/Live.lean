import Ns3.Fec.Log

/-!
# Tables of a running encoder

Encoder and decoder share the tables, so packets are delivered while later ones are still
being entered. `Live` is what holds of the tables all along: they show the log, the last
table of both queues is that of the round being entered, a round of the log is in the
round queue unless the queue is past it, and a group's list is only cleared by the
delivery of the group's FEC packet. Entering packets, opening a round and passing a
delivered packet keep it.
-/

namespace Ns3.Fec

variable {H : Type}

/-- The tables `R ++ [t]` and `Q ++ [T]` while the round of `t` and `T` is being entered. -/
structure Live (log : List (Record H)) (D D' : Deliveries) (R : List (RoundFecTable H))
    (t : RoundFecTable H) (Q : List (GroupFecTable H)) (T : GroupFecTable H) : Prop
    extends Tracks log D D' ⟨R ++ [t], Q ++ [T]⟩ where
  logged : WellLogged log
  group_rid : T.rid_ = t.rid_
  past : ∀ r ∈ log, r.rid ≤ t.rid_
  whole : ∀ g, T.gi_ g =
    ((entered log T.rid_).filter fun e => e.gid_ = g).map (marked D' T.rid_)
  present : ∀ r ∈ log, (∀ k ∈ (R ++ [t]).map RoundFecTable.rid_, r.rid < k) ∨
    r.rid ∈ (R ++ [t]).map RoundFecTable.rid_
  got_sent : ∀ rid serial, D rid serial = true → ∃ r ∈ log, r.rid = rid ∧ r.info.serial_ = serial
  seen_got : ∀ rid serial, D' rid serial = true → D rid serial = true
  cleared : ∀ U ∈ Q ++ [T], ∀ g, U.gi_ g = [] → (∀ e ∈ entered log U.rid_, e.gid_ ≠ g) ∨
    ∃ e ∈ entered log U.rid_, e.gid_ = g ∧ e.type_ = true ∧ D' U.rid_ e.serial_ = true

/-- Nothing is delivered. -/
def noDeliveries : Deliveries := fun _ _ => false

/-- The tables of the first round. -/
theorem Live.first (rid : UInt32) (nGroups : UInt8) :
    Live (H := H) [] noDeliveries noDeliveries [] ⟨rid, nGroups, []⟩ []
      ⟨rid, nGroups, fun _ => []⟩ :=
  { rt_sorted := by simp
    gt_sorted := by simp
    rt := by simp [entered]
    nGroups := by simp
    covers := by simp
    gt := by simp
    logged := List.Pairwise.nil
    group_rid := rfl
    past := by simp
    whole := by simp [entered]
    present := by simp
    got_sent := by simp [noDeliveries]
    seen_got := by simp [noDeliveries]
    cleared := by simp [entered] }

namespace Live

variable {log : List (Record H)} {D D' : Deliveries} {R : List (RoundFecTable H)}
  {t : RoundFecTable H} {Q : List (GroupFecTable H)} {T : GroupFecTable H}

/-- No round table is past the last. -/
theorem rid_le (h : Live log D D' R t Q T) : ∀ u ∈ R ++ [t], u.rid_ ≤ t.rid_ := by
  intro u hu
  rcases List.mem_append.mp hu with hu | hu
  · exact UInt32.le_of_lt ((List.pairwise_append.mp h.rt_sorted).2.2 u hu t (by simp))
  · rw [List.mem_singleton.mp hu]
    exact UInt32.le_refl _

/-- No group table is past the last. -/
theorem group_rid_le (h : Live log D D' R t Q T) : ∀ U ∈ Q ++ [T], U.rid_ ≤ t.rid_ := by
  intro U hU
  rw [← h.group_rid]
  rcases List.mem_append.mp hU with hU | hU
  · exact UInt32.le_of_lt ((List.pairwise_append.mp h.gt_sorted).2.2 U hU T (by simp))
  · rw [List.mem_singleton.mp hU]
    exact UInt32.le_refl _

/-- What is not entered is not delivered. -/
theorem not_got (h : Live log D D' R t Q T) {rid serial : UInt32}
    (hnew : ∀ e ∈ entered log rid, e.serial_ ≠ serial) : D rid serial = false := by
  rw [Bool.eq_false_iff]
  intro hD
  obtain ⟨r, hr, hrid, hser⟩ := h.got_sent rid serial hD
  exact hnew r.info (mem_entered hr hrid) hser

/-- A well-ordered log extended by later entries of one round. -/
private theorem wellLogged_append (hlog : WellLogged log) {rid : UInt32} (nGroups : UInt8)
    {es : List (PacketInfo H)} (hes : Ascending es)
    (habove : ∀ e ∈ entered log rid, ∀ e' ∈ es, e.serial_ < e'.serial_) :
    WellLogged (log ++ recordsOf rid nGroups es) := by
  refine List.pairwise_append.mpr ⟨hlog, ?_, ?_⟩
  · have hpair : es.Pairwise fun a b => a.serial_ < b.serial_ := hes
    rw [recordsOf, List.pairwise_map]
    refine hpair.imp ?_
    intro a b hab _
    exact hab
  · intro r hr r' hr' hrid
    obtain ⟨e, he, rfl⟩ := List.mem_map.mp hr'
    exact habove r.info (mem_entered hr hrid) e he

/-- Entering later packets of the open round. -/
theorem enter (h : Live log D D' R t Q T) {es : List (PacketInfo H)} (hes : Ascending es)
    (habove : ∀ e ∈ entered log t.rid_, ∀ e' ∈ es, e.serial_ < e'.serial_)
    (hflag : ∀ e ∈ es, e.flag_ = false) :
    Live (log ++ recordsOf t.rid_ t.nGroups_ es) D D' R (t.push es) Q (T.push es) := by
  have hD : ∀ e ∈ es, D t.rid_ e.serial_ = false := by
    intro e he
    apply h.not_got
    intro e' he'
    have := habove e' he' e he
    grind
  have hD' : ∀ e ∈ es, D' t.rid_ e.serial_ = false := by
    intro e he
    rw [Bool.eq_false_iff]
    intro hseen
    have := h.seen_got _ _ hseen
    rw [hD e he] at this
    cases this
  have hsame : ∀ k, k ≠ t.rid_ →
      entered (log ++ recordsOf t.rid_ t.nGroups_ es) k = entered log k := by
    intro k hk
    rw [entered_recordsOf, if_neg hk]
  have hmore : entered (log ++ recordsOf t.rid_ t.nGroups_ es) t.rid_ =
      entered log t.rid_ ++ es := by
    rw [entered_recordsOf, if_pos rfl]
  exact
    { toTracks := h.toTracks.push h.group_rid h.whole hflag hD hD'
      logged := wellLogged_append h.logged t.nGroups_ hes habove
      group_rid := h.group_rid
      past := by
        intro r hr
        rcases List.mem_append.mp hr with hr | hr
        · exact h.past r hr
        · obtain ⟨e, he, rfl⟩ := List.mem_map.mp hr
          exact UInt32.le_refl _
      whole := by
        intro g
        have hold := h.whole g
        have hes' : (es.filter fun e => e.gid_ = g).map (marked D' t.rid_) =
            es.filter fun e => e.gid_ = g := by
          rw [List.map_congr_left (g := id), List.map_id]
          intro e he
          simp [marked, hD' e (List.mem_filter.mp he).1]
        rw [h.group_rid] at hold
        simp only [GroupFecTable.rid_push, GroupFecTable.gi_push, h.group_rid, hmore,
          List.filter_append, List.map_append, hold, hes']
      present := by
        intro r hr
        have hrids : (R ++ [t.push es]).map RoundFecTable.rid_ =
            (R ++ [t]).map RoundFecTable.rid_ := by simp
        rw [hrids]
        rcases List.mem_append.mp hr with hr | hr
        · exact h.present r hr
        · obtain ⟨e, he, rfl⟩ := List.mem_map.mp hr
          exact .inr (List.mem_map_of_mem (by simp))
      got_sent := by
        intro rid serial hgot
        obtain ⟨r, hr, hrid⟩ := h.got_sent rid serial hgot
        exact ⟨r, by simp [hr], hrid⟩
      seen_got := h.seen_got
      cleared := by
        intro U hU g hnil
        rcases List.mem_append.mp hU with hU | hU
        · have hne : U.rid_ ≠ t.rid_ := by
            have := (List.pairwise_append.mp h.gt_sorted).2.2 U hU T (by simp)
            rw [← h.group_rid]
            grind
          rw [hsame U.rid_ hne]
          exact h.cleared U (by simp [hU]) g hnil
        · left
          rw [List.mem_singleton.mp hU] at hnil ⊢
          simp only [GroupFecTable.gi_push, List.append_eq_nil_iff, h.whole g, h.group_rid,
            List.map_eq_nil_iff, List.filter_eq_nil_iff, decide_eq_true_eq] at hnil
          simp only [GroupFecTable.rid_push, h.group_rid, hmore, List.mem_append]
          rintro e (he | he)
          · exact hnil.1 e he
          · exact hnil.2 e he }

/-- Opening a later round. -/
theorem openRound (h : Live log D D' R t Q T) {rid : UInt32} (nGroups : UInt8)
    (hlt : t.rid_ < rid) :
    Live log D D' (R ++ [t]) ⟨rid, nGroups, []⟩ (Q ++ [T]) ⟨rid, nGroups, fun _ => []⟩ := by
  have hnew : ∀ r ∈ log, r.rid ≠ rid := by
    intro r hr
    have := h.past r hr
    grind
  have hnil : entered log rid = [] := by
    rw [entered, List.map_eq_nil_iff, List.filter_eq_nil_iff]
    intro r hr
    simp [hnew r hr]
  have htracks := h.toTracks.openRound nGroups
    (fun u hu => by have := h.rid_le u hu; grind)
    (fun U hU => by have := h.group_rid_le U hU; grind) hnew
  exact
    { toTracks := htracks
      logged := h.logged
      group_rid := rfl
      past := fun r hr => by have := h.past r hr; grind
      whole := by simp [hnil]
      present := by
        intro r hr
        have hr' := h.past r hr
        rw [List.map_append]
        rcases h.present r hr with hall | hmem
        · left
          intro k hk
          rcases List.mem_append.mp hk with hk | hk
          · exact hall k hk
          · rw [List.mem_singleton.mp hk]
            grind
        · exact .inr (List.mem_append_left _ hmem)
      got_sent := h.got_sent
      seen_got := h.seen_got
      cleared := by
        intro U hU g hU'
        rcases List.mem_append.mp hU with hU | hU
        · exact h.cleared U hU g hU'
        · left
          rw [List.mem_singleton.mp hU]
          simp [hnil] }

end Live

/-! ### Delivering a packet -/

section Pass

variable {log : List (Record H)} {D D' D'' : Deliveries} {tag : FecTag} {bound : UInt32}
  {request : Bool} {s : FecTables H} {d : Decoded H}

/-- What a pass does to the round queue, and what it asks for. -/
theorem Outcome.rounds (ho : Outcome log D D' tag bound request s d D'') :
    (∃ t q, s.rt_ = t :: q ∧ tag.m_roundId < t.rid_ ∧ d.tables.rt_ = s.rt_ ∧ d.asked = []) ∨
      ∃ old t q, s.rt_ = old ++ t :: q ∧ t.rid_ = tag.m_roundId ∧
        d.asked = askedIn tag bound request t.pi_ ∧
        (IsLast tag t.nGroups_ ∧ d.tables.rt_ = q ∨
          d.tables.rt_ = { t with pi_ := passed tag bound request t.pi_ } :: q) := by
  cases ho with
  | stale t q hrt hlt => exact .inl ⟨t, q, hrt, hlt, rfl, rfl⟩
  | early old t q hrt hrid hsum =>
    refine .inr ⟨old, t, q, hrt, hrid, rfl, ?_⟩
    by_cases hlast : IsLast tag t.nGroups_
    · exact .inl ⟨hlast, roundAfter_of_last hlast _ _⟩
    · exact .inr (roundAfter_of_not_last hlast _ _)
  | last old t q hrt hrid hsum hlast hq =>
    exact .inr ⟨old, t, q, hrt, hrid, rfl, .inl ⟨hlast, rfl⟩⟩
  | data old t q hrt hrid hsum htype => exact .inr ⟨old, t, q, hrt, hrid, rfl, .inr rfl⟩
  | fec old t q hrt hrid hsum htype => exact .inr ⟨old, t, q, hrt, hrid, rfl, .inr rfl⟩

/-- What a pass does to the group queue. -/
theorem Outcome.groups (ho : Outcome log D D' tag bound request s d D'') :
    (d.tables.gt_ = s.gt_ ∧ D'' = D') ∨ ∃ old T rest pi, s.gt_ = old ++ T :: rest ∧
      T.rid_ = tag.m_roundId ∧ d.tables.gt_ = T.setGroup tag.m_groupId pi :: rest ∧
      D'' = D'.add tag ∧ (tag.m_type = 2 ∧ pi = [] ∨ tag.m_type ≠ 2 ∧
        pi = (T.gi_ tag.m_groupId).map (mark tag.m_serial) ∧ T.gi_ tag.m_groupId ≠ []) := by
  cases ho with
  | stale t q hrt hlt => exact .inl ⟨rfl, rfl⟩
  | early old t q hrt hrid hsum => exact .inl ⟨rfl, rfl⟩
  | last old t q hrt hrid hsum hlast hq => exact .inl ⟨rfl, rfl⟩
  | data old t q hrt hrid hsum htype oldg T rest hgt hT hne =>
    exact .inr ⟨oldg, T, rest, _, hgt, hT, rfl, rfl, .inr ⟨htype, rfl, hne⟩⟩
  | fec old t q hrt hrid hsum htype hlast oldg T rest hgt hT hne =>
    exact .inr ⟨oldg, T, rest, _, hgt, hT, rfl, rfl, .inl ⟨htype, rfl⟩⟩

/-- The FEC packet of the last group pops its round. -/
theorem Outcome.popped (ho : Outcome log D D' tag bound request s d D'')
    (hfound : ∀ t q, s.rt_ = t :: q → ¬ tag.m_roundId < t.rid_)
    (hlast : ∀ t ∈ s.rt_, t.rid_ = tag.m_roundId → IsLast tag t.nGroups_) :
    ∃ old t, s.rt_ = old ++ t :: d.tables.rt_ ∧ t.rid_ = tag.m_roundId := by
  cases ho with
  | stale t q hrt hlt => exact absurd hlt (hfound t q hrt)
  | early old t q hrt hrid hsum =>
    have hl := hlast t (by simp [hrt]) hrid
    exact ⟨old, t, by rw [roundAfter_of_last hl]; exact hrt, hrid⟩
  | last old t q hrt hrid hsum => exact ⟨old, t, hrt, hrid⟩
  | data old t q hrt hrid hsum htype =>
    exact absurd (hlast t (by simp [hrt]) hrid).1 htype
  | fec old t q hrt hrid hsum htype hl =>
    exact absurd (hlast t (by simp [hrt]) hrid) hl

/-- Only an FEC packet recovers anything. -/
theorem Outcome.recovered_type (ho : Outcome log D D' tag bound request s d D'')
    {e : PacketInfo H} (he : d.group.bind GroupOutcome.recovered = some e) : tag.m_type = 2 := by
  cases ho with
  | stale => cases he
  | early => cases he
  | last => cases he
  | data => cases he
  | fec old t q hrt hrid hsum htype => exact htype

/-- A pass only pops rounds from the front. -/
theorem Outcome.rids_suffix (ho : Outcome log D D' tag bound request s d D'') :
    d.tables.rt_.map RoundFecTable.rid_ <:+ s.rt_.map RoundFecTable.rid_ := by
  rcases ho.rounds with ⟨-, -, -, -, heq, -⟩ | ⟨old, t, q, hrt, -, -, ⟨-, hd⟩ | hd⟩
  · exact heq ▸ List.suffix_rfl
  · rw [hrt, hd, List.append_cons]
    exact (List.suffix_append _ _).map _
  · rw [hrt, hd, List.map_append]
    exact List.suffix_append _ _

end Pass

private theorem last_of_split {T : Type} {old q R : List T} {t u : T}
    (h : old ++ u :: q = R ++ [t]) : (q = [] ∧ u = t) ∨ ∃ q', q = q' ++ [t] := by
  rcases List.eq_nil_or_concat q with rfl | ⟨q', b, rfl⟩
  · exact .inl ⟨rfl, List.singleton_inj.mp (List.append_inj_right' h rfl)⟩
  · right
    refine ⟨q', ?_⟩
    have h' : (old ++ u :: q') ++ [b] = R ++ [t] := by simpa using h
    have := List.append_inj_right' h' rfl
    rw [List.concat_eq_append, this]

namespace Live

variable {log : List (Record H)} {D D' D'' : Deliveries} {R : List (RoundFecTable H)}
  {t : RoundFecTable H} {Q : List (GroupFecTable H)} {T : GroupFecTable H} {tag : FecTag}
  {bound : UInt32} {request : Bool} {d : Decoded H}

/-- The open round stays last. -/
private theorem last_round (ho : Outcome log D D' tag bound request ⟨R ++ [t], Q ++ [T]⟩ d D'')
    (hfec : tag.m_type = 2 → tag.m_roundId < t.rid_) :
    ∃ R' t', d.tables.rt_ = R' ++ [t'] ∧ t'.rid_ = t.rid_ ∧ t'.nGroups_ = t.nGroups_ := by
  rcases ho.rounds with ⟨-, -, -, -, heq, -⟩ | ⟨old, u, q, hrt, hrid, -, ⟨hlast, hd⟩ | hd⟩
  · exact ⟨R, t, heq, rfl, rfl⟩
  · rcases last_of_split hrt.symm with ⟨-, rfl⟩ | ⟨q', rfl⟩
    · have := hfec hlast.1
      rw [hrid] at this
      exact absurd this (UInt32.lt_irrefl _)
    · exact ⟨q', t, hd, rfl, rfl⟩
  · rcases last_of_split hrt.symm with ⟨rfl, rfl⟩ | ⟨q', rfl⟩
    · exact ⟨[], _, hd, rfl, rfl⟩
    · exact ⟨_ :: q', t, hd, rfl, rfl⟩

/-- The open round's group table stays last, with exact lists, and a list is empty only for
a reason. -/
private theorem last_group (h : Live log D D' R t Q T) {r : Record H} (hr : r ∈ log)
    (htag : r.TaggedBy tag) (hfec : tag.m_type = 2 → tag.m_roundId < t.rid_)
    (ho : Outcome log D D' tag bound request ⟨R ++ [t], Q ++ [T]⟩ d D'') :
    ∃ Q' T', d.tables.gt_ = Q' ++ [T'] ∧ T'.rid_ = T.rid_ ∧
      (∀ g, T'.gi_ g =
        ((entered log T.rid_).filter fun e => e.gid_ = g).map (marked D'' T.rid_)) := by
  rcases ho.groups with ⟨heq, rfl⟩ | ⟨old, U, rest, pi, hgt, hU, hd, rfl, hpi⟩
  · exact ⟨Q, T, heq, rfl, h.whole⟩
  · rcases last_of_split hgt.symm with ⟨rfl, rfl⟩ | ⟨rest', rfl⟩
    · refine ⟨[], _, hd, rfl, ?_⟩
      intro g
      rcases hpi with ⟨htype, -⟩ | ⟨-, rfl, -⟩
      · have := hfec htype
        rw [← h.group_rid, hU] at this
        exact absurd this (UInt32.lt_irrefl _)
      · have hstep := (h.toTracks.after h.logged hr htag ho).gt
        rw [hd] at hstep
        rcases hstep _ (List.mem_singleton_self _) g with hnil | heq
        · have hnil' : U.gi_ g = [] := by
            rw [GroupFecTable.gi_setGroup] at hnil
            split at hnil
            · next hg =>
              rw [hg]
              exact List.map_eq_nil_iff.mp hnil
            · exact hnil
          rw [h.whole g, List.map_eq_nil_iff] at hnil'
          rw [hnil, hnil']
          rfl
        · exact heq
    · refine ⟨_ :: rest', T, hd, rfl, ?_⟩
      intro g
      have hne : T.rid_ ≠ tag.m_roundId := by
        have hsorted := h.gt_sorted
        rw [hgt] at hsorted
        have := (List.pairwise_cons.mp (List.pairwise_append.mp hsorted).2.1).1 T (by simp)
        rw [← hU]
        grind
      rw [h.whole g]
      exact List.map_congr_left fun e _ => (marked_add_of_ne D' hne e).symm

private theorem cleared_pass (h : Live log D D' R t Q T) {r : Record H} (hr : r ∈ log)
    (htag : r.TaggedBy tag)
    (ho : Outcome log D D' tag bound request ⟨R ++ [t], Q ++ [T]⟩ d D'') :
    ∀ U ∈ d.tables.gt_, ∀ g, U.gi_ g = [] → (∀ e ∈ entered log U.rid_, e.gid_ ≠ g) ∨
      ∃ e ∈ entered log U.rid_, e.gid_ = g ∧ e.type_ = true ∧ D'' U.rid_ e.serial_ = true := by
  rcases ho.groups with ⟨heq, rfl⟩ | ⟨old, V, rest, pi, hgt, hV, hd, rfl, hpi⟩
  · rw [heq]
    exact h.cleared
  · have hgt' : Q ++ [T] = old ++ V :: rest := hgt
    have hmono : ∀ U ∈ old ++ V :: rest, ∀ g, U.gi_ g = [] → (∀ e ∈ entered log U.rid_, e.gid_ ≠ g) ∨
        ∃ e ∈ entered log U.rid_, e.gid_ = g ∧ e.type_ = true ∧
          D'.add tag U.rid_ e.serial_ = true := by
      intro U hU g hnil
      rw [← hgt'] at hU
      rcases h.cleared U hU g hnil with hnone | ⟨e, he, hge, htype, hseen⟩
      · exact .inl hnone
      · exact .inr ⟨e, he, hge, htype, by simp [Deliveries.add, hseen]⟩
    intro U hU g hnil
    rw [hd] at hU
    rcases List.mem_cons.mp hU with rfl | hU
    · rw [GroupFecTable.gi_setGroup] at hnil
      split at hnil
      · next hg =>
        rcases hpi with ⟨htype, -⟩ | ⟨-, rfl, hne⟩
        · -- the FEC packet itself was delivered
          refine .inr ⟨r.info, mem_entered hr (htag.rid.symm.trans hV.symm), ?_,
            htag.type.mp htype, ?_⟩
          · rw [hg, htag.gid]
          · simp [Deliveries.add, hV, htag.serial]
        · exact absurd (List.map_eq_nil_iff.mp hnil) hne
      · exact hmono V (by simp) g hnil
    · exact hmono U (by simp [hU]) g hnil

/-- Delivering a packet of the log. -/
theorem pass (h : Live log D D' R t Q T) {r : Record H} (hr : r ∈ log) (htag : r.TaggedBy tag)
    (hfec : tag.m_type = 2 → tag.m_roundId < t.rid_)
    (ho : Outcome log D D' tag bound request ⟨R ++ [t], Q ++ [T]⟩ d D'') :
    ∃ R' t' Q' T', d.tables = ⟨R' ++ [t'], Q' ++ [T']⟩ ∧ t'.rid_ = t.rid_ ∧
      t'.nGroups_ = t.nGroups_ ∧ Live log (D.add tag) D'' R' t' Q' T' := by
  obtain ⟨R', t', hrt, hrid, hn⟩ := last_round ho hfec
  obtain ⟨Q', T', hgt, hgrid, hwhole⟩ := h.last_group hr htag hfec ho
  have htables : d.tables = ⟨R' ++ [t'], Q' ++ [T']⟩ := by
    rw [← hrt, ← hgt]
  have htracks := h.toTracks.after h.logged hr htag ho
  have hcleared := h.cleared_pass hr htag ho
  obtain ⟨pre, hpre⟩ := ho.rids_suffix
  rw [htables] at htracks hpre
  rw [hgt] at hcleared
  refine ⟨R', t', Q', T', htables, hrid, hn, ?_⟩
  exact
    { toTracks := htracks
      logged := h.logged
      group_rid := by rw [hgrid, hrid, h.group_rid]
      past := by
        rw [hrid]
        exact h.past
      whole := by
        rw [hgrid]
        exact hwhole
      present := by
        intro r' hr'
        have hsorted : (pre ++ (R' ++ [t']).map RoundFecTable.rid_).Pairwise (· < ·) := by
          rw [hpre, List.pairwise_map]
          exact h.rt_sorted
        have hall := (List.pairwise_append.mp hsorted).2.2
        have hold := h.present r' hr'
        rw [← hpre] at hold
        rcases hold with hlt | hmem
        · exact .inl fun k hk => hlt k (List.mem_append_right _ hk)
        · rcases List.mem_append.mp hmem with hmem | hmem
          · exact .inl (hall _ hmem)
          · exact .inr hmem
      got_sent := by
        intro rid serial hgot
        by_cases hold : D rid serial = true
        · exact h.got_sent rid serial hold
        · simp only [Deliveries.add, hold, Bool.false_or, Bool.and_eq_true,
            decide_eq_true_eq] at hgot
          exact ⟨r, hr, htag.rid.symm.trans hgot.1.symm, htag.serial.symm.trans hgot.2.symm⟩
      seen_got := by
        intro rid serial hseen
        rcases ho.groups with ⟨-, rfl⟩ | ⟨-, -, -, -, -, -, -, rfl, -⟩
        · simp [Deliveries.add, h.seen_got _ _ hseen]
        · simp only [Deliveries.add, Bool.or_eq_true] at hseen ⊢
          exact hseen.imp (h.seen_got _ _) id
      cleared := hcleared }

end Live

end Ns3.Fec
