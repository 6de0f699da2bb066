import Ns3.Fec.Scan

/-!
# Tables as views of a log

The log of an encoder holds every packet entered, in order, with its round. The round
tables show the log of their rounds with the packets delivered so far marked; the group
tables show it group by group, with the packets that reached `MarkGroupFecTable` marked,
until the group's FEC packet clears its list. `Tracks` says so, and `Outcome` what a pass
over such tables leaves, in terms of the entries still missing.
-/

namespace Ns3.Fec

variable {H : Type}

/-- A packet of the log: its round, the group count of its tag, and its entry. -/
structure Record (H : Type) where
  rid : UInt32
  nGroups : UInt8
  info : PacketInfo H

/-- The tag a record's packet carries. -/
structure Record.TaggedBy (r : Record H) (tag : FecTag) : Prop where
  serial : tag.m_serial = r.info.serial_
  rid : tag.m_roundId = r.rid
  gid : tag.m_groupId = r.info.gid_
  nGroups : tag.m_nGroups = r.nGroups
  type : tag.m_type = 2 ↔ r.info.type_ = true

/-- The entries of a round, as entered. -/
def entered (log : List (Record H)) (rid : UInt32) : List (PacketInfo H) :=
  (log.filter fun r => r.rid = rid).map Record.info

/-- Deliveries by round and serial. -/
abbrev Deliveries := UInt32 → UInt32 → Bool

/-- One more delivery. -/
def Deliveries.add (D : Deliveries) (tag : FecTag) : Deliveries :=
  fun rid serial => D rid serial || (decide (rid = tag.m_roundId) && decide (serial = tag.m_serial))

/-- An entry with the deliveries marked. -/
def marked (D : Deliveries) (rid : UInt32) (e : PacketInfo H) : PacketInfo H :=
  { e with check_ := e.check_ || D rid e.serial_ }

/-- The entries of a round that are neither delivered nor entered as received. -/
def missing (log : List (Record H)) (D : Deliveries) (rid : UInt32) : List (PacketInfo H) :=
  (entered log rid).filter fun e => !(e.check_ || D rid e.serial_)

/-- Every round was entered in ascending serial order. -/
def WellLogged (log : List (Record H)) : Prop :=
  log.Pairwise fun r r' => r.rid = r'.rid → r.info.serial_ < r'.info.serial_

/-- The tables show the log: `D` in the round tables, `D'` in the group tables. -/
structure Tracks (log : List (Record H)) (D D' : Deliveries) (s : FecTables H) : Prop where
  rt_sorted : s.rt_.Pairwise fun t u => t.rid_ < u.rid_
  gt_sorted : s.gt_.Pairwise fun t u => t.rid_ < u.rid_
  rt : ∀ t ∈ s.rt_, t.pi_.map unflag = (entered log t.rid_).map (marked D t.rid_)
  nGroups : ∀ t ∈ s.rt_, ∀ r ∈ log, r.rid = t.rid_ → r.nGroups = t.nGroups_
  covers : ∀ t ∈ s.rt_, ∃ T ∈ s.gt_, T.rid_ = t.rid_
  gt : ∀ T ∈ s.gt_, ∀ g, T.gi_ g = [] ∨
    T.gi_ g = ((entered log T.rid_).filter fun e => e.gid_ = g).map (marked D' T.rid_)

/-- The entries of a round of a well-ordered log are ascending. -/
theorem WellLogged.ascending {log : List (Record H)} (h : WellLogged log) (rid : UInt32) :
    Ascending (entered log rid) := by
  rw [entered, Ascending, List.pairwise_map]
  have hfilter := List.Pairwise.filter (fun r : Record H => decide (r.rid = rid)) h
  refine hfilter.imp_of_mem ?_
  intro a b ha hb hab
  have hra : a.rid = rid := by simpa using (List.mem_filter.mp ha).2
  have hrb : b.rid = rid := by simpa using (List.mem_filter.mp hb).2
  exact hab (hra.trans hrb.symm)

/-- A record's entry is among those of its round. -/
theorem mem_entered {log : List (Record H)} {r : Record H} (hr : r ∈ log) {rid : UInt32}
    (hrid : r.rid = rid) : r.info ∈ entered log rid := by
  apply List.mem_map_of_mem
  simp [hr, hrid]

/-- An entry of a round comes from a record of the round. -/
theorem exists_of_mem_entered {log : List (Record H)} {rid : UInt32} {e : PacketInfo H}
    (he : e ∈ entered log rid) : ∃ r ∈ log, r.rid = rid ∧ r.info = e := by
  obtain ⟨r, hr, rfl⟩ := List.mem_map.mp he
  obtain ⟨hmem, hrid⟩ := List.mem_filter.mp hr
  exact ⟨r, hmem, by simpa using hrid, rfl⟩

/-- Rounds of two logs one after the other. -/
theorem entered_append (log log' : List (Record H)) (rid : UInt32) :
    entered (log ++ log') rid = entered log rid ++ entered log' rid := by
  simp [entered]

@[simp] theorem serial_marked (D : Deliveries) (rid : UInt32) (e : PacketInfo H) :
    (marked D rid e).serial_ = e.serial_ := rfl

@[simp] theorem gid_marked (D : Deliveries) (rid : UInt32) (e : PacketInfo H) :
    (marked D rid e).gid_ = e.gid_ := rfl

@[simp] theorem serial_unflag (e : PacketInfo H) : (unflag e).serial_ = e.serial_ := rfl

@[simp] theorem gid_unflag (e : PacketInfo H) : (unflag e).gid_ = e.gid_ := rfl

@[simp] theorem check_unflag (e : PacketInfo H) : (unflag e).check_ = e.check_ := rfl

/-- Marking a delivered entry is marking the delivery. -/
theorem mark_marked (D : Deliveries) (tag : FecTag) {rid : UInt32} (h : rid = tag.m_roundId)
    (e : PacketInfo H) : mark tag.m_serial (marked D rid e) = marked (D.add tag) rid e := by
  subst h
  unfold mark marked Deliveries.add
  by_cases he : e.serial_ = tag.m_serial
  · simp [he]
  · simp [he]

/-- A delivery concerns its own round only. -/
theorem marked_add_of_ne (D : Deliveries) {tag : FecTag} {rid : UInt32}
    (h : rid ≠ tag.m_roundId) (e : PacketInfo H) : marked (D.add tag) rid e = marked D rid e := by
  simp [marked, Deliveries.add, h]

theorem unflag_mark (serial : UInt32) (e : PacketInfo H) :
    unflag (mark serial e) = mark serial (unflag e) := by
  unfold mark unflag
  split <;> rfl

/-- The lost entries of a marked list are the missing ones below the bound. -/
theorem filter_lost_marked (D : Deliveries) (rid bound : UInt32) (es : List (PacketInfo H)) :
    (es.map (marked D rid)).filter (lost bound) =
      (es.filter fun e => !(e.check_ || D rid e.serial_)).filter
        fun e => decide (e.serial_ < bound) := by
  induction es with
  | nil => rfl
  | cons e es ih =>
    rw [List.map_cons, List.filter_cons, List.filter_cons, ih]
    cases hc : e.check_ with
    | true => simp [lost, marked, hc]
    | false =>
      cases hd : D rid e.serial_ with
      | true => simp [lost, marked, hc, hd]
      | false =>
        have he : marked D rid e = e := by
          unfold marked
          rw [hc, hd]
          cases e
          simp_all
        rw [he]
        by_cases hlt : e.serial_ < bound
        · simp [lost, hc, hlt]
        · simp [lost, hc, hlt]

namespace Tracks

variable {log : List (Record H)} {D D' : Deliveries} {s : FecTables H}

/-- The entries of a round table are ascending. -/
theorem ascending (h : Tracks log D D' s) (hlog : WellLogged log) {t : RoundFecTable H}
    (ht : t ∈ s.rt_) : Ascending t.pi_ := by
  have hasc : Ascending (t.pi_.map unflag) := by
    rw [h.rt t ht]
    simpa [Ascending, List.pairwise_map] using hlog.ascending t.rid_
  simpa [Ascending, List.pairwise_map] using hasc

/-- The lists of a group table are ascending. -/
theorem group_ascending (h : Tracks log D D' s) (hlog : WellLogged log) {T : GroupFecTable H}
    (hT : T ∈ s.gt_) (g : UInt8) : Ascending (T.gi_ g) := by
  rcases h.gt T hT g with hnil | heq
  · rw [hnil]
    exact List.Pairwise.nil
  · rw [heq]
    have hasc := (hlog.ascending T.rid_).filter fun e => decide (e.gid_ = g)
    simpa [Ascending, List.pairwise_map] using hasc

/-- A packet of the log is in the table of its round. -/
theorem mem_table (h : Tracks log D D' s) {r : Record H} (hr : r ∈ log) {t : RoundFecTable H}
    (ht : t ∈ s.rt_) (hrid : t.rid_ = r.rid) :
    ∃ e ∈ t.pi_, e.serial_ = r.info.serial_ ∧ e.gid_ = r.info.gid_ := by
  have hmem := mem_entered hr hrid.symm
  have hmem' : marked D t.rid_ r.info ∈ t.pi_.map unflag := by
    rw [h.rt t ht]
    exact List.mem_map_of_mem hmem
  obtain ⟨e, he, heq⟩ := List.mem_map.mp hmem'
  have hser : (unflag e).serial_ = (marked D t.rid_ r.info).serial_ := by rw [heq]
  have hgid : (unflag e).gid_ = (marked D t.rid_ r.info).gid_ := by rw [heq]
  exact ⟨e, he, hser, hgid⟩

/-- A packet of the log is in its group's list, unless the list was cleared. -/
theorem mem_group (h : Tracks log D D' s) {r : Record H} (hr : r ∈ log) {T : GroupFecTable H}
    (hT : T ∈ s.gt_) (hrid : T.rid_ = r.rid) (hne : T.gi_ r.info.gid_ ≠ []) :
    ∃ e ∈ T.gi_ r.info.gid_, e.serial_ = r.info.serial_ := by
  rcases h.gt T hT r.info.gid_ with hnil | heq
  · exact absurd hnil hne
  · refine ⟨marked D' T.rid_ r.info, ?_, rfl⟩
    rw [heq]
    apply List.mem_map_of_mem
    rw [List.mem_filter]
    exact ⟨mem_entered hr hrid.symm, by simp⟩

private theorem split_of_mem {T : Type} {ridOf : T → UInt32} {q : List T}
    (hq : q.Pairwise fun t u => ridOf t < ridOf u) {t : T} (ht : t ∈ q) :
    ∃ old rest, q = old ++ t :: rest ∧ ∀ o ∈ old, ridOf o < ridOf t := by
  obtain ⟨old, rest, rfl⟩ := List.append_of_mem ht
  refine ⟨old, rest, rfl, ?_⟩
  intro o ho
  exact (List.pairwise_append.mp hq).2.2 o ho t (by simp)

/-- `MarkRoundFecTable` finds a packet of the log whose round is in the queue. -/
theorem listed (h : Tracks log D D' s) (hlog : WellLogged log) {r : Record H} (hr : r ∈ log)
    {tag : FecTag} (htag : r.TaggedBy tag) {t : RoundFecTable H} (ht : t ∈ s.rt_)
    (hrid : t.rid_ = tag.m_roundId) :
    ∃ q, Listed tag s.rt_ t q (t.pi_.map (mark tag.m_serial)) := by
  obtain ⟨old, q, hq, ho⟩ := split_of_mem h.rt_sorted ht
  obtain ⟨e, he, hser, hgid⟩ := h.mem_table hr ht (hrid.trans htag.rid)
  refine ⟨q, ⟨⟨old, hq, fun o hmem => hrid ▸ ho o hmem⟩, hrid, ?_⟩⟩
  exact markRoundEntry_of_mem (h.ascending hlog ht)
    ⟨e, he, hser.trans htag.serial.symm, hgid.trans htag.gid.symm⟩

/-- `MarkGroupFecTable` finds a packet of the log whose group's list was not cleared. -/
theorem groupListed (h : Tracks log D D' s) (hlog : WellLogged log) {r : Record H}
    (hr : r ∈ log) {tag : FecTag} (htag : r.TaggedBy tag) {T : GroupFecTable H} (hT : T ∈ s.gt_)
    (hrid : T.rid_ = tag.m_roundId) (hne : T.gi_ tag.m_groupId ≠ []) :
    ∃ rest, GroupListed tag s.gt_ T rest ((T.gi_ tag.m_groupId).map (mark tag.m_serial))
      (UInt32.ofNat ((T.gi_ tag.m_groupId).countP (lost tag.m_serial))) := by
  obtain ⟨old, rest, hq, ho⟩ := split_of_mem h.gt_sorted hT
  rw [htag.gid] at hne
  obtain ⟨e, he, hser⟩ := h.mem_group hr hT (hrid.trans htag.rid) hne
  rw [← htag.gid] at he
  refine ⟨rest, ⟨⟨old, hq, fun o hmem => hrid ▸ ho o hmem⟩, hrid, ?_⟩⟩
  rw [markGroupEntry_of_mem (h.group_ascending hlog hT _) ⟨e, he, hser.trans htag.serial.symm⟩]
  simp

end Tracks

/-! ### What a pass leaves -/

/-- The loss count of a packet: the missing entries of its round, once it is delivered
itself, that are below the bound and within its scan. -/
def lostSum (log : List (Record H)) (D : Deliveries) (tag : FecTag) (bound : UInt32) : UInt32 :=
  UInt32.ofNat ((missing log (D.add tag) tag.m_roundId).countP fun e =>
    decide (e.serial_ < bound) && reached tag e)

/-- The missing entries of a packet's group before the packet. -/
def groupLost (log : List (Record H)) (D' : Deliveries) (tag : FecTag) : List (PacketInfo H) :=
  ((missing log D' tag.m_roundId).filter fun e => e.gid_ = tag.m_groupId).filter
    fun e => decide (e.serial_ < tag.m_serial)

/-- The FEC packet of the round's last group. -/
def IsLast (tag : FecTag) (nGroups : UInt8) : Prop :=
  tag.m_type = 2 ∧ tag.m_groupId.toNat + 1 = nGroups.toNat

instance (tag : FecTag) (nGroups : UInt8) : Decidable (IsLast tag nGroups) :=
  inferInstanceAs (Decidable (_ ∧ _))

/-- The last group's FEC packet removes the round. -/
theorem roundAfter_of_last {tag : FecTag} {t : RoundFecTable H} (h : IsLast tag t.nGroups_)
    (q : List (RoundFecTable H)) (pi : List (PacketInfo H)) : roundAfter tag t q pi = q := if_pos h

/-- Any other packet leaves its round in front. -/
theorem roundAfter_of_not_last {tag : FecTag} {t : RoundFecTable H} (h : ¬ IsLast tag t.nGroups_)
    (q : List (RoundFecTable H)) (pi : List (PacketInfo H)) :
    roundAfter tag t q pi = { t with pi_ := pi } :: q := if_neg h

/-- The entries of a round table after the pass of a packet of the round. -/
def passed (tag : FecTag) (bound : UInt32) (request : Bool) (pi : List (PacketInfo H)) :
    List (PacketInfo H) :=
  (pi.map (mark tag.m_serial)).map (flagAsked tag bound request)

/-- The entries a packet's pass asks a retransmission for. -/
def askedIn (tag : FecTag) (bound : UInt32) (request : Bool) (pi : List (PacketInfo H)) :
    List (PacketInfo H) :=
  (pi.map (mark tag.m_serial)).filter (asks tag bound request)

/-- Everything a pass can do to tables that show the log, and the deliveries the group
tables show after it. -/
inductive Outcome (log : List (Record H)) (D D' : Deliveries) (tag : FecTag) (bound : UInt32)
    (request : Bool) (s : FecTables H) : Decoded H → Deliveries → Prop where
  /-- The round queue is past the packet's round. -/
  | stale (t : RoundFecTable H) (q : List (RoundFecTable H)) (hrt : s.rt_ = t :: q)
      (hlt : tag.m_roundId < t.rid_) :
      Outcome log D D' tag bound request s ⟨s, 0, [], some ⟨0, 0, none⟩⟩ D'
  /-- More losses than groups. -/
  | early (old : List (RoundFecTable H)) (t : RoundFecTable H) (q : List (RoundFecTable H))
      (hrt : s.rt_ = old ++ t :: q) (hrid : t.rid_ = tag.m_roundId)
      (hsum : tag.m_nGroups.toUInt32 < lostSum log D tag bound) :
      Outcome log D D' tag bound request s
        ⟨⟨roundAfter tag t q (passed tag bound request t.pi_), s.gt_⟩, lostSum log D tag bound,
          askedIn tag bound request t.pi_, none⟩ D'
  /-- The FEC packet of the last group pops its round, and the group phase finds it gone. -/
  | last (old : List (RoundFecTable H)) (t : RoundFecTable H) (q : List (RoundFecTable H))
      (hrt : s.rt_ = old ++ t :: q) (hrid : t.rid_ = tag.m_roundId)
      (hsum : ¬ tag.m_nGroups.toUInt32 < lostSum log D tag bound) (hlast : IsLast tag t.nGroups_)
      (hq : q ≠ []) :
      Outcome log D D' tag bound request s
        ⟨⟨q, s.gt_⟩, lostSum log D tag bound, askedIn tag bound request t.pi_,
          some ⟨0, 0, none⟩⟩ D'
  /-- A data packet is marked in its group. -/
  | data (old : List (RoundFecTable H)) (t : RoundFecTable H) (q : List (RoundFecTable H))
      (hrt : s.rt_ = old ++ t :: q) (hrid : t.rid_ = tag.m_roundId)
      (hsum : ¬ tag.m_nGroups.toUInt32 < lostSum log D tag bound) (htype : tag.m_type ≠ 2)
      (oldg : List (GroupFecTable H)) (T : GroupFecTable H) (rest : List (GroupFecTable H))
      (hgt : s.gt_ = oldg ++ T :: rest) (hT : T.rid_ = tag.m_roundId)
      (hne : T.gi_ tag.m_groupId ≠ []) :
      Outcome log D D' tag bound request s
        ⟨⟨{ t with pi_ := passed tag bound request t.pi_ } :: q,
            T.setGroup tag.m_groupId ((T.gi_ tag.m_groupId).map (mark tag.m_serial)) :: rest⟩,
          lostSum log D tag bound, askedIn tag bound request t.pi_,
          some ⟨UInt32.ofNat (groupLost log D' tag).length, 0, none⟩⟩ (D'.add tag)
  /-- An FEC packet of another group clears the group's list; when one entry is missing there,
  it is recovered. -/
  | fec (old : List (RoundFecTable H)) (t : RoundFecTable H) (q : List (RoundFecTable H))
      (hrt : s.rt_ = old ++ t :: q) (hrid : t.rid_ = tag.m_roundId)
      (hsum : ¬ tag.m_nGroups.toUInt32 < lostSum log D tag bound) (htype : tag.m_type = 2)
      (hlast : ¬ IsLast tag t.nGroups_)
      (oldg : List (GroupFecTable H)) (T : GroupFecTable H) (rest : List (GroupFecTable H))
      (hgt : s.gt_ = oldg ++ T :: rest) (hT : T.rid_ = tag.m_roundId)
      (hne : T.gi_ tag.m_groupId ≠ []) :
      Outcome log D D' tag bound request s
        ⟨⟨{ t with pi_ := passed tag bound request t.pi_ } :: q,
            T.setGroup tag.m_groupId [] :: rest⟩,
          lostSum log D tag bound, askedIn tag bound request t.pi_,
          some ⟨UInt32.ofNat (groupLost log D' tag).length,
            UInt32.ofNat (groupLost log D' tag).length,
            if UInt32.ofNat (groupLost log D' tag).length = 1 then
              (groupLost log D' tag).getLast?
            else none⟩⟩ (D'.add tag)

namespace Tracks

variable {log : List (Record H)} {D D' : Deliveries} {s : FecTables H} {tag : FecTag}

/-- A round table after its packet's deliveries are marked. -/
theorem map_unflag_mark (h : Tracks log D D' s) {t : RoundFecTable H} (ht : t ∈ s.rt_)
    (hrid : t.rid_ = tag.m_roundId) :
    (t.pi_.map (mark tag.m_serial)).map unflag =
      (entered log t.rid_).map (marked (D.add tag) t.rid_) := by
  have hcomm : (t.pi_.map (mark tag.m_serial)).map unflag =
      (t.pi_.map unflag).map (mark tag.m_serial) := by
    simp [List.map_map, Function.comp_def, unflag_mark]
  rw [hcomm, h.rt t ht, List.map_map]
  exact List.map_congr_left fun e _ => mark_marked D tag hrid e

/-- The scan's count in terms of the log. -/
theorem countP_scan (h : Tracks log D D' s) {t : RoundFecTable H} (ht : t ∈ s.rt_)
    (hrid : t.rid_ = tag.m_roundId) (bound : UInt32) :
    ((t.pi_.map (mark tag.m_serial)).countP fun e => lost bound e && reached tag e) =
      (missing log (D.add tag) tag.m_roundId).countP fun e =>
        decide (e.serial_ < bound) && reached tag e := by
  have hflag : ((t.pi_.map (mark tag.m_serial)).countP fun e => lost bound e && reached tag e) =
      ((t.pi_.map (mark tag.m_serial)).map unflag).countP fun e =>
        lost bound e && reached tag e := by
    rw [List.countP_map (f := unflag)]
    rfl
  rw [hflag, h.map_unflag_mark ht hrid, List.countP_map, ← hrid, missing, List.countP_filter]
  apply List.countP_congr
  intro e _
  simp only [Function.comp, lost, marked, reached, Bool.and_eq_true, decide_eq_true_eq,
    Bool.not_eq_true']
  constructor
  · rintro ⟨⟨hc, hb⟩, hr⟩
    exact ⟨⟨of_decide_eq_true hb, of_decide_eq_true hr⟩, hc⟩
  · rintro ⟨⟨hb, hr⟩, hc⟩
    exact ⟨⟨hc, decide_eq_true hb⟩, decide_eq_true hr⟩

/-- The group phase's count and recovery in terms of the log. -/
theorem filter_group (h : Tracks log D D' s) {T : GroupFecTable H} (hT : T ∈ s.gt_)
    (hrid : T.rid_ = tag.m_roundId) (hne : T.gi_ tag.m_groupId ≠ []) :
    (T.gi_ tag.m_groupId).filter (lost tag.m_serial) = groupLost log D' tag := by
  rcases h.gt T hT tag.m_groupId with hnil | heq
  · exact absurd hnil hne
  · rw [heq, filter_lost_marked, hrid, groupLost, missing, List.filter_filter,
      List.filter_filter, List.filter_filter, List.filter_filter]
    apply List.filter_congr
    intro e _
    simp only [Bool.and_comm, Bool.and_left_comm]

/-- The scan of a packet of the log, in terms of the log. -/
theorem scan_eq (h : Tracks log D D' s) (hlog : WellLogged log) {r : Record H} (hr : r ∈ log)
    (htag : r.TaggedBy tag) {t : RoundFecTable H} (ht : t ∈ s.rt_)
    (hrid : t.rid_ = tag.m_roundId) (bound : UInt32) (request : Bool) :
    scanRound tag bound request (t.pi_.map (mark tag.m_serial)) 0 =
      ⟨lostSum log D tag bound, passed tag bound request t.pi_, askedIn tag bound request t.pi_⟩ := by
  have hown : tag.m_type = 1 →
      ∃ o ∈ t.pi_.map (mark tag.m_serial), o.serial_ = tag.m_serial := by
    intro _
    obtain ⟨e, he, hser, -⟩ := h.mem_table hr ht (hrid.trans htag.rid)
    exact ⟨mark tag.m_serial e, List.mem_map_of_mem he, by simp [hser, htag.serial]⟩
  rw [scanRound_eq ((h.ascending hlog ht).mark _) bound request 0 hown, h.countP_scan ht hrid]
  simp [lostSum, passed, askedIn]

private theorem mem_of_split {T : Type} {q old rest : List T} {t : T} (h : q = old ++ t :: rest) :
    t ∈ q := by
  rw [h]
  simp

private theorem checkGroup_marked (h : Tracks log D D' s) (hlog : WellLogged log) {r : Record H}
    (hr : r ∈ log) (htag : r.TaggedBy tag) {T : GroupFecTable H} (hT : T ∈ s.gt_)
    (hrid : T.rid_ = tag.m_roundId) (hne : T.gi_ tag.m_groupId ≠ []) (nlost : UInt32) :
    checkGroupEntry tag.m_serial nlost ((T.gi_ tag.m_groupId).map (mark tag.m_serial)) 0 none =
      some (UInt32.ofNat (groupLost log D' tag).length,
        if nlost = 1 ∧ UInt32.ofNat (groupLost log D' tag).length = 1 then
          (groupLost log D' tag).getLast?
        else none) := by
  have hasc := h.group_ascending hlog hT tag.m_groupId
  have hfilter : ((T.gi_ tag.m_groupId).map (mark tag.m_serial)).filter (lost tag.m_serial) =
      groupLost log D' tag := by
    rw [← h.filter_group hT hrid hne]
    generalize T.gi_ tag.m_groupId = es
    induction es with
    | nil => rfl
    | cons e es ih =>
      rw [List.map_cons, List.filter_cons, List.filter_cons, ih]
      by_cases he : e.serial_ = tag.m_serial
      · have hlt : ¬ e.serial_ < tag.m_serial := by grind
        simp [lost, hlt]
      · rw [mark_of_ne he]
  have hmem : ∃ e ∈ (T.gi_ tag.m_groupId).map (mark tag.m_serial), e.serial_ = tag.m_serial := by
    rw [htag.gid] at hne ⊢
    obtain ⟨e, he, hser⟩ := h.mem_group hr hT (hrid.trans htag.rid) hne
    exact ⟨mark tag.m_serial e, List.mem_map_of_mem he, by simp [hser, htag.serial]⟩
  rw [checkGroupEntry_of_mem (hasc.mark _) hmem, List.countP_eq_length_filter, hfilter]
  simp

private theorem groupCount (h : Tracks log D D' s) {T : GroupFecTable H} (hT : T ∈ s.gt_)
    (hrid : T.rid_ = tag.m_roundId) (hne : T.gi_ tag.m_groupId ≠ []) :
    UInt32.ofNat ((T.gi_ tag.m_groupId).countP (lost tag.m_serial)) =
      UInt32.ofNat (groupLost log D' tag).length := by
  rw [List.countP_eq_length_filter, h.filter_group hT hrid hne]

/-- A pass that returns does what `Outcome` allows. -/
theorem outcome (h : Tracks log D D' s) (hlog : WellLogged log) {r : Record H} (hr : r ∈ log)
    (htag : r.TaggedBy tag) {bound : UInt32} {request : Bool} {d : Decoded H}
    (hd : decode tag bound request s = .ok d) :
    ∃ D'', Outcome log D D' tag bound request s d D'' := by
  cases (decode_ok_iff _ _ _ _ _).mp hd with
  | stale t q hrt hlt => exact ⟨D', .stale t q hrt hlt⟩
  | early t q pi hl rs hrs hsum =>
    obtain ⟨old, hsplit, ho⟩ := hl.split
    have ht := mem_of_split hsplit
    obtain ⟨q', hl'⟩ := h.listed hlog hr htag ht hl.rid
    have hpi : pi = t.pi_.map (mark tag.m_serial) :=
      Option.some.inj (hl.marked.symm.trans hl'.marked)
    subst hpi hrs
    rw [h.scan_eq hlog hr htag ht hl.rid] at hsum ⊢
    exact ⟨D', .early old t q hsplit hl.rid hsum⟩
  | group t q pi hl rs hrs hsum t' q' hrt g hg =>
    obtain ⟨old, hsplit, ho⟩ := hl.split
    have ht := mem_of_split hsplit
    obtain ⟨_, hl'⟩ := h.listed hlog hr htag ht hl.rid
    have hpi : pi = t.pi_.map (mark tag.m_serial) :=
      Option.some.inj (hl.marked.symm.trans hl'.marked)
    subst hpi hrs
    rw [h.scan_eq hlog hr htag ht hl.rid] at hsum hrt ⊢
    by_cases hlast : IsLast tag t.nGroups_
    · -- the round is popped, and the next one is in front
      rw [roundAfter_of_last hlast] at hrt
      subst hrt
      have hnext : tag.m_roundId < t'.rid_ := by
        have hsorted := h.rt_sorted
        rw [hsplit] at hsorted
        have := (List.pairwise_cons.mp (List.pairwise_append.mp hsorted).2.1).1 t' (by simp)
        rw [← hl.rid]
        exact this
      cases hg with
      | closed hlt => exact ⟨D', .last old t _ hsplit hl.rid hsum hlast (by simp)⟩
      | data hlt => exact absurd hnext hlt
      | fec hlt => exact absurd hnext hlt
    · rw [roundAfter_of_not_last hlast] at hrt
      obtain ⟨rfl, rfl⟩ := List.cons.inj hrt
      have hfront : ¬ tag.m_roundId < t.rid_ := by
        rw [hl.rid]
        exact UInt32.lt_irrefl _
      cases hg with
      | closed hlt => exact absurd hlt hfront
      | data hlt htype T rest gi nlost hgl =>
        obtain ⟨oldg, hgt, -⟩ := hgl.split
        have hT := mem_of_split hgt
        have hne : T.gi_ tag.m_groupId ≠ [] := by
          intro hnil
          have := hgl.marked
          rw [hnil] at this
          cases this
        obtain ⟨_, hgl'⟩ := h.groupListed hlog hr htag hT hgl.rid hne
        have hgi := Option.some.inj (hgl.marked.symm.trans hgl'.marked)
        obtain ⟨rfl, rfl⟩ := Prod.mk.inj hgi
        rw [groupCount h hT hgl.rid hne]
        exact ⟨_, .data old t q hsplit hl.rid hsum htype oldg T rest hgt hgl.rid hne⟩
      | fec hlt htype T rest gi nlost hgl mlost recovered hc =>
        obtain ⟨oldg, hgt, -⟩ := hgl.split
        have hT := mem_of_split hgt
        have hne : T.gi_ tag.m_groupId ≠ [] := by
          intro hnil
          have := hgl.marked
          rw [hnil] at this
          cases this
        obtain ⟨_, hgl'⟩ := h.groupListed hlog hr htag hT hgl.rid hne
        have hgi := Option.some.inj (hgl.marked.symm.trans hgl'.marked)
        obtain ⟨rfl, rfl⟩ := Prod.mk.inj hgi
        rw [groupCount h hT hgl.rid hne,
          checkGroup_marked h hlog hr htag hT hgl.rid hne] at hc
        obtain ⟨rfl, rfl⟩ := Prod.mk.inj (Option.some.inj hc)
        rw [groupCount h hT hgl.rid hne]
        simp only [and_self]
        exact ⟨_, .fec old t q hsplit hl.rid hsum htype hlast oldg T rest hgt hgl.rid hne⟩

/-- A pass returns when the packet's round is in the queue and, unless the losses exceed the
group count, its group's list was not cleared; behind the last FEC packet's round there
must be another. -/
theorem returns (h : Tracks log D D' s) (hlog : WellLogged log) {r : Record H} (hr : r ∈ log)
    (htag : r.TaggedBy tag) (bound : UInt32) (request : Bool) {t : RoundFecTable H}
    (ht : t ∈ s.rt_) (hrid : t.rid_ = tag.m_roundId)
    (hnext : IsLast tag t.nGroups_ → ∃ u ∈ s.rt_, tag.m_roundId < u.rid_)
    (hgroup : ¬ tag.m_nGroups.toUInt32 < lostSum log D tag bound → ¬ IsLast tag t.nGroups_ →
      ∀ T ∈ s.gt_, T.rid_ = tag.m_roundId → T.gi_ tag.m_groupId ≠ []) :
    ∃ d, decode tag bound request s = .ok d := by
  obtain ⟨q, hl⟩ := h.listed hlog hr htag ht hrid
  have hscan := h.scan_eq hlog hr htag ht hrid bound request
  by_cases hsum : tag.m_nGroups.toUInt32 < lostSum log D tag bound
  · exact ⟨_, (decode_ok_iff _ _ _ _ _).mpr (.early t q _ hl _ hscan hsum)⟩
  by_cases hlast : IsLast tag t.nGroups_
  · obtain ⟨old, hsplit, ho⟩ := hl.split
    obtain ⟨u, hu, hlt⟩ := hnext hlast
    have huq : u ∈ q := by
      rw [hsplit] at hu
      rcases List.mem_append.mp hu with hu | hu
      · have := ho u hu
        exact absurd hlt (by grind)
      · rcases List.mem_cons.mp hu with rfl | hu
        · exact absurd hlt (by grind)
        · exact hu
    cases q with
    | nil => cases huq
    | cons t' q' =>
      have hsorted := h.rt_sorted
      rw [hsplit] at hsorted
      have hlt' := (List.pairwise_cons.mp (List.pairwise_append.mp hsorted).2.1).1 t' (by simp)
      rw [hrid] at hlt'
      exact ⟨_, (decode_ok_iff _ _ _ _ _).mpr (.group t _ _ hl _ hscan hsum t' q'
        (roundAfter_of_last hlast _ _) _ (.closed hlt'))⟩
  · obtain ⟨T, hT, hTrid⟩ := h.covers t ht
    have hTr := hTrid.trans hrid
    have hne := hgroup hsum hlast T hT hTr
    obtain ⟨rest, hgl⟩ := h.groupListed hlog hr htag hT hTr hne
    have hfront : ¬ tag.m_roundId <
        ({ t with pi_ := passed tag bound request t.pi_ } : RoundFecTable H).rid_ := by
      change ¬ tag.m_roundId < t.rid_
      rw [hrid]
      exact UInt32.lt_irrefl _
    have hg : ∃ g, GroupStep tag { t with pi_ := passed tag bound request t.pi_ } s.gt_ g := by
      by_cases htype : tag.m_type = 2
      · have hc := checkGroup_marked h hlog hr htag hT hTr hne
          (UInt32.ofNat ((T.gi_ tag.m_groupId).countP (lost tag.m_serial)))
        exact ⟨_, .fec hfront htype T rest _ _ hgl _ _ hc⟩
      · exact ⟨_, .data hfront htype T rest _ _ hgl⟩
    obtain ⟨g, hg⟩ := hg
    exact ⟨_, (decode_ok_iff _ _ _ _ _).mpr (.group t q _ hl _ hscan hsum _ _
      (roundAfter_of_not_last hlast _ _) g hg)⟩

/-- A pass over a packet whose group's list was cleared never returns, unless the losses
exceed the group count. -/
theorem strands (h : Tracks log D D' s) (hlog : WellLogged log) {r : Record H} (hr : r ∈ log)
    (htag : r.TaggedBy tag) (bound : UInt32) (request : Bool) {t : RoundFecTable H}
    (ht : t ∈ s.rt_) (hrid : t.rid_ = tag.m_roundId)
    (hsum : ¬ tag.m_nGroups.toUInt32 < lostSum log D tag bound) (hlast : ¬ IsLast tag t.nGroups_)
    {T : GroupFecTable H} (hT : T ∈ s.gt_) (hTrid : T.rid_ = tag.m_roundId)
    (hnil : T.gi_ tag.m_groupId = []) : decode tag bound request s = .error .noReturn := by
  obtain ⟨q, hl⟩ := h.listed hlog hr htag ht hrid
  have hscan := h.scan_eq hlog hr htag ht hrid bound request
  obtain ⟨old, rest, hgt, ho⟩ := split_of_mem h.gt_sorted hT
  have hfront : ¬ tag.m_roundId < t.rid_ := by
    rw [hrid]
    exact UInt32.lt_irrefl _
  have hgroup := groupPhase_noReturn (t := { t with pi_ := passed tag bound request t.pi_ })
    hfront q rest (fun o hmem => hTrid ▸ ho o hmem) hTrid (by rw [hnil]; rfl)
  rw [decode_listed hl, hscan, if_neg hsum, roundAfter_of_not_last hlast, hgt, hgroup]
  rfl

/-! ### Tables after a pass -/

private theorem sorted_suffix {T : Type} {ridOf : T → UInt32} {q old rest : List T} {t : T}
    (hq : q.Pairwise fun t u => ridOf t < ridOf u) (h : q = old ++ t :: rest) :
    rest.Pairwise (fun t u => ridOf t < ridOf u) ∧ ∀ u ∈ rest, ridOf t < ridOf u := by
  rw [h] at hq
  have hcons := List.pairwise_cons.mp (List.pairwise_append.mp hq).2.1
  exact ⟨hcons.2, hcons.1⟩

private theorem not_mem_old {T : Type} {ridOf : T → UInt32} {q old rest : List T} {t u : T}
    (hq : q.Pairwise fun t u => ridOf t < ridOf u) (h : q = old ++ t :: rest) (hu : u ∈ q)
    (hle : ¬ ridOf u < ridOf t) : u ∈ t :: rest := by
  rw [h] at hq hu
  rcases List.mem_append.mp hu with ho | hr
  · exact absurd ((List.pairwise_append.mp hq).2.2 u ho t (by simp)) hle
  · exact hr

/-- The round tables behind a packet's round, with any set of later ones, still show the log
when the packet is delivered. -/
private theorem rt_of_suffix (h : Tracks log D D' s) {old q : List (RoundFecTable H)}
    {t : RoundFecTable H} (hrt : s.rt_ = old ++ t :: q) (hrid : t.rid_ = tag.m_roundId) :
    ∀ u ∈ q, u ∈ s.rt_ ∧ tag.m_roundId < u.rid_ ∧
      u.pi_.map unflag = (entered log u.rid_).map (marked (D.add tag) u.rid_) := by
  intro u hu
  have hmem : u ∈ s.rt_ := by
    rw [hrt]
    simp [hu]
  have hlt := (sorted_suffix h.rt_sorted hrt).2 u hu
  rw [hrid] at hlt
  refine ⟨hmem, hlt, ?_⟩
  rw [h.rt u hmem]
  have hne : u.rid_ ≠ tag.m_roundId := by grind
  exact List.map_congr_left fun e _ => (marked_add_of_ne D hne e).symm

private theorem rt_passed (h : Tracks log D D' s) {t : RoundFecTable H} (ht : t ∈ s.rt_)
    (hrid : t.rid_ = tag.m_roundId) (bound : UInt32) (request : Bool) :
    (passed tag bound request t.pi_).map unflag =
      (entered log t.rid_).map (marked (D.add tag) t.rid_) := by
  rw [← h.map_unflag_mark ht hrid, passed, List.map_map]
  exact List.map_congr_left fun e _ => unflag_flagAsked _ _ _ e

/-- The round part of `Tracks` after a pass that keeps the packet's round in front. -/
private theorem keep_round (h : Tracks log D D' s) {old q : List (RoundFecTable H)}
    {t : RoundFecTable H} (hrt : s.rt_ = old ++ t :: q) (hrid : t.rid_ = tag.m_roundId)
    (bound : UInt32) (request : Bool) {gt : List (GroupFecTable H)} {D'' : Deliveries}
    (hsorted : gt.Pairwise fun t u => t.rid_ < u.rid_)
    (hcovers : ∀ u ∈ t :: q, ∃ T ∈ gt, T.rid_ = u.rid_)
    (hgt : ∀ T ∈ gt, ∀ g, T.gi_ g = [] ∨
      T.gi_ g = ((entered log T.rid_).filter fun e => e.gid_ = g).map (marked D'' T.rid_)) :
    Tracks log (D.add tag) D'' ⟨{ t with pi_ := passed tag bound request t.pi_ } :: q, gt⟩ := by
  have ht := mem_of_split hrt
  have hsuf := sorted_suffix h.rt_sorted hrt
  have hq := rt_of_suffix h hrt hrid
  refine ⟨List.pairwise_cons.mpr ⟨hsuf.2, hsuf.1⟩, hsorted, ?_, ?_, ?_, hgt⟩
  · intro u hu
    rcases List.mem_cons.mp hu with rfl | hu
    · exact rt_passed h ht hrid bound request
    · exact (hq u hu).2.2
  · intro u hu
    rcases List.mem_cons.mp hu with rfl | hu
    · exact h.nGroups t ht
    · exact h.nGroups u (hq u hu).1
  · intro u hu
    rcases List.mem_cons.mp hu with rfl | hu
    · exact hcovers t (by simp)
    · exact hcovers u (by simp [hu])

/-- The same for a pass that pops the packet's round. -/
private theorem pop_round (h : Tracks log D D' s) {old q : List (RoundFecTable H)}
    {t : RoundFecTable H} (hrt : s.rt_ = old ++ t :: q) (hrid : t.rid_ = tag.m_roundId) :
    Tracks log (D.add tag) D' ⟨q, s.gt_⟩ := by
  have hq := rt_of_suffix h hrt hrid
  refine ⟨(sorted_suffix h.rt_sorted hrt).1, h.gt_sorted, ?_, ?_, ?_, h.gt⟩
  · exact fun u hu => (hq u hu).2.2
  · exact fun u hu => h.nGroups u (hq u hu).1
  · exact fun u hu => h.covers u (hq u hu).1

/-- The group part after a pass that replaces the packet's list by `pi`. -/
private theorem set_group (h : Tracks log D D' s) {old q : List (RoundFecTable H)}
    {t : RoundFecTable H} (hrt : s.rt_ = old ++ t :: q) (hrid : t.rid_ = tag.m_roundId)
    (bound : UInt32) (request : Bool) {oldg rest : List (GroupFecTable H)} {T : GroupFecTable H}
    (hgt : s.gt_ = oldg ++ T :: rest) (hT : T.rid_ = tag.m_roundId)
    {pi : List (PacketInfo H)}
    (hpi : pi = [] ∨ pi = (T.gi_ tag.m_groupId).map (mark tag.m_serial))
    (hgid : ∀ e ∈ entered log tag.m_roundId, e.serial_ = tag.m_serial → e.gid_ = tag.m_groupId) :
    Tracks log (D.add tag) (D'.add tag)
      ⟨{ t with pi_ := passed tag bound request t.pi_ } :: q,
        T.setGroup tag.m_groupId pi :: rest⟩ := by
  have hmemT := mem_of_split hgt
  have hsufg := sorted_suffix h.gt_sorted hgt
  refine keep_round h hrt hrid bound request (List.pairwise_cons.mpr ⟨hsufg.2, hsufg.1⟩) ?_ ?_
  · intro u hu
    have humem : u ∈ s.rt_ := by
      rw [hrt]
      exact List.mem_append_right _ hu
    obtain ⟨U, hU, hUrid⟩ := h.covers u humem
    have hle : ¬ U.rid_ < T.rid_ := by
      rw [hUrid, hT]
      rcases List.mem_cons.mp hu with rfl | hu
      · rw [hrid]
        exact UInt32.lt_irrefl _
      · have := ((rt_of_suffix h hrt hrid) u hu).2.1
        grind
    rcases List.mem_cons.mp (not_mem_old h.gt_sorted hgt hU hle) with rfl | hU
    · exact ⟨U.setGroup tag.m_groupId pi, by simp, hUrid⟩
    · exact ⟨U, by simp [hU], hUrid⟩
  · intro U hU g
    rcases List.mem_cons.mp hU with rfl | hU
    · by_cases hg : g = tag.m_groupId
      · subst hg
        simp only [GroupFecTable.gi_setGroup, if_true, GroupFecTable.rid_setGroup]
        rcases hpi with rfl | rfl
        · exact .inl rfl
        · rcases h.gt T hmemT tag.m_groupId with hnil | heq
          · exact .inl (by rw [hnil]; rfl)
          · right
            rw [heq, List.map_map]
            exact List.map_congr_left fun e _ => mark_marked D' tag hT e
      · simp only [GroupFecTable.gi_setGroup, if_neg hg, GroupFecTable.rid_setGroup]
        rcases h.gt T hmemT g with hnil | heq
        · exact .inl hnil
        · right
          rw [heq]
          apply List.map_congr_left
          intro e he
          -- another group has no entry of the packet's serial
          obtain ⟨hmem, hge⟩ := List.mem_filter.mp he
          have hge' : e.gid_ = g := by simpa using hge
          have hser : e.serial_ ≠ tag.m_serial := by
            intro hser
            exact hg (hge'.symm.trans (hgid e (hT ▸ hmem) hser))
          simp [marked, Deliveries.add, hser]
    · have hlt := hsufg.2 U hU
      have hmemU : U ∈ s.gt_ := by
        rw [hgt]
        simp [hU]
      have hne : U.rid_ ≠ tag.m_roundId := by grind
      rcases h.gt U hmemU g with hnil | heq
      · exact .inl hnil
      · right
        rw [heq]
        exact List.map_congr_left fun e _ => (marked_add_of_ne D' hne e).symm

/-- Tables that show the log still show it after a pass, with the packet delivered. -/
theorem after (h : Tracks log D D' s) (hlog : WellLogged log) {r : Record H} (hr : r ∈ log)
    (htag : r.TaggedBy tag) {bound : UInt32} {request : Bool} {d : Decoded H} {D'' : Deliveries}
    (ho : Outcome log D D' tag bound request s d D'') : Tracks log (D.add tag) D'' d.tables := by
  have hgid : ∀ e ∈ entered log tag.m_roundId,
      e.serial_ = tag.m_serial → e.gid_ = tag.m_groupId := by
    intro e he hser
    have hown := mem_entered hr htag.rid.symm
    have := (hlog.ascending tag.m_roundId).eq_of_serial he hown (hser.trans htag.serial)
    rw [this, htag.gid]
  cases ho with
  | stale t q hrt hlt =>
    refine ⟨h.rt_sorted, h.gt_sorted, ?_, h.nGroups, h.covers, h.gt⟩
    intro u hu
    have hne : u.rid_ ≠ tag.m_roundId := by
      rw [hrt] at hu
      rcases List.mem_cons.mp hu with rfl | hu
      · grind
      · have hsorted := h.rt_sorted
        rw [hrt] at hsorted
        have := (List.pairwise_cons.mp hsorted).1 u hu
        grind
    rw [h.rt u hu]
    exact List.map_congr_left fun e _ => (marked_add_of_ne D hne e).symm
  | early old t q hrt hrid hsum =>
    by_cases hlast : IsLast tag t.nGroups_
    · rw [roundAfter_of_last hlast]
      exact pop_round h hrt hrid
    · rw [roundAfter_of_not_last hlast]
      refine keep_round h hrt hrid bound request h.gt_sorted ?_ h.gt
      intro u hu
      exact h.covers u (by rw [hrt]; exact List.mem_append_right _ hu)
  | last old t q hrt hrid hsum hlast hq => exact pop_round h hrt hrid
  | data old t q hrt hrid hsum htype oldg T rest hgt hT hne =>
    exact set_group h hrt hrid bound request hgt hT (.inr rfl) hgid
  | fec old t q hrt hrid hsum htype hlast oldg T rest hgt hT hne =>
    exact set_group h hrt hrid bound request hgt hT (.inl rfl) hgid

end Tracks

/-! ### Tables after the encoder's steps -/

/-- The records of entries of one round. -/
def recordsOf (rid : UInt32) (nGroups : UInt8) (es : List (PacketInfo H)) : List (Record H) :=
  es.map fun e => ⟨rid, nGroups, e⟩

/-- The entries of a round after more packets of a round. -/
theorem entered_recordsOf (log : List (Record H)) (rid : UInt32) (nGroups : UInt8)
    (es : List (PacketInfo H)) (k : UInt32) :
    entered (log ++ recordsOf rid nGroups es) k =
      if k = rid then entered log k ++ es else entered log k := by
  rw [entered_append]
  by_cases hk : k = rid
  · subst hk
    simp [entered, recordsOf, List.filter_map, Function.comp_def]
  · have hk' : ¬ rid = k := fun h => hk h.symm
    simp [entered, recordsOf, List.filter_map, Function.comp_def, hk, hk']

namespace Tracks

variable {log : List (Record H)} {D D' : Deliveries} {s : FecTables H}

/-- Entering undelivered packets in the last tables extends the log. -/
theorem push {R : List (RoundFecTable H)} {t : RoundFecTable H} {Q : List (GroupFecTable H)}
    {T : GroupFecTable H} (h : Tracks log D D' ⟨R ++ [t], Q ++ [T]⟩) (hT : T.rid_ = t.rid_)
    (hlive : ∀ g, T.gi_ g =
      ((entered log T.rid_).filter fun e => e.gid_ = g).map (marked D' T.rid_))
    {es : List (PacketInfo H)} (hflag : ∀ e ∈ es, e.flag_ = false)
    (hD : ∀ e ∈ es, D t.rid_ e.serial_ = false) (hD' : ∀ e ∈ es, D' t.rid_ e.serial_ = false) :
    Tracks (log ++ recordsOf t.rid_ t.nGroups_ es) D D' ⟨R ++ [t.push es], Q ++ [T.push es]⟩ := by
  have hne : ∀ u ∈ R, u.rid_ ≠ t.rid_ := by
    intro u hu
    have := (List.pairwise_append.mp h.rt_sorted).2.2 u hu t (by simp)
    grind
  have hneg : ∀ U ∈ Q, U.rid_ ≠ t.rid_ := by
    intro U hU
    have := (List.pairwise_append.mp h.gt_sorted).2.2 U hU T (by simp)
    grind
  have hmarked : es.map (marked D t.rid_) = es := by
    rw [List.map_congr_left (g := id), List.map_id]
    intro e he
    simp [marked, hD e he]
  have hunflag : es.map unflag = es := by
    rw [List.map_congr_left (g := id), List.map_id]
    intro e he
    have := hflag e he
    cases e
    simp_all [unflag]
  refine ⟨?_, ?_, ?_, ?_, ?_, ?_⟩
  · have hsorted := List.pairwise_append.mp h.rt_sorted
    refine List.pairwise_append.mpr ⟨hsorted.1, List.pairwise_singleton _ _, ?_⟩
    intro u hu v hv
    rw [List.mem_singleton.mp hv]
    exact hsorted.2.2 u hu t (by simp)
  · have hsorted := List.pairwise_append.mp h.gt_sorted
    refine List.pairwise_append.mpr ⟨hsorted.1, List.pairwise_singleton _ _, ?_⟩
    intro u hu v hv
    rw [List.mem_singleton.mp hv]
    exact hsorted.2.2 u hu T (by simp)
  · intro u hu
    rw [entered_recordsOf]
    rcases List.mem_append.mp hu with hu | hu
    · rw [if_neg (hne u hu)]
      exact h.rt u (by simp [hu])
    · rw [List.mem_singleton.mp hu]
      simp only [RoundFecTable.rid_push, RoundFecTable.pi_push, if_true, List.map_append]
      rw [h.rt t (by simp), hmarked, hunflag]
  · intro u hu r hr hrid
    rcases List.mem_append.mp hr with hr | hr
    · rcases List.mem_append.mp hu with hu | hu
      · exact h.nGroups u (by simp [hu]) r hr hrid
      · rw [List.mem_singleton.mp hu] at hrid ⊢
        exact h.nGroups t (by simp) r hr hrid
    · obtain ⟨e, he, rfl⟩ := List.mem_map.mp hr
      rcases List.mem_append.mp hu with hu | hu
      · exact absurd hrid.symm (hne u hu)
      · rw [List.mem_singleton.mp hu]
        rfl
  · intro u hu
    rcases List.mem_append.mp hu with hu | hu
    · obtain ⟨U, hU, hUrid⟩ := h.covers u (by simp [hu])
      rcases List.mem_append.mp hU with hU | hU
      · exact ⟨U, by simp [hU], hUrid⟩
      · rw [List.mem_singleton.mp hU] at hUrid
        exact ⟨T.push es, by simp, hUrid⟩
    · rw [List.mem_singleton.mp hu]
      exact ⟨T.push es, by simp, hT⟩
  · intro U hU g
    rw [entered_recordsOf]
    rcases List.mem_append.mp hU with hU | hU
    · rw [if_neg (hneg U hU)]
      exact h.gt U (by simp [hU]) g
    · right
      rw [List.mem_singleton.mp hU]
      simp only [GroupFecTable.rid_push, GroupFecTable.gi_push, hT, if_true, List.filter_append,
        List.map_append]
      rw [hlive g, hT]
      congr 1
      symm
      rw [List.map_congr_left (g := id), List.map_id]
      intro e he
      simp [marked, hD' e (List.mem_filter.mp he).1]

/-- Opening a later round of which nothing is entered leaves the log as it is. -/
theorem openRound (h : Tracks log D D' s) {rid : UInt32} (nGroups : UInt8)
    (hrt : ∀ t ∈ s.rt_, t.rid_ < rid) (hgt : ∀ T ∈ s.gt_, T.rid_ < rid)
    (hnew : ∀ r ∈ log, r.rid ≠ rid) : Tracks log D D' (s.pushTables rid nGroups) := by
  have hnil : entered log rid = [] := by
    rw [entered, List.map_eq_nil_iff, List.filter_eq_nil_iff]
    intro r hr
    simp [hnew r hr]
  refine ⟨?_, ?_, ?_, ?_, ?_, ?_⟩
  · refine List.pairwise_append.mpr ⟨h.rt_sorted, by simp, ?_⟩
    intro t ht u hu
    rw [List.mem_singleton.mp hu]
    exact hrt t ht
  · refine List.pairwise_append.mpr ⟨h.gt_sorted, by simp, ?_⟩
    intro t ht u hu
    rw [List.mem_singleton.mp hu]
    exact hgt t ht
  · intro t ht
    rcases List.mem_append.mp ht with ht | ht
    · exact h.rt t ht
    · rw [List.mem_singleton.mp ht]
      simp [hnil]
  · intro t ht r hr hrid
    rcases List.mem_append.mp ht with ht | ht
    · exact h.nGroups t ht r hr hrid
    · rw [List.mem_singleton.mp ht] at hrid
      exact absurd hrid (hnew r hr)
  · intro t ht
    rcases List.mem_append.mp ht with ht | ht
    · obtain ⟨T, hT, hTrid⟩ := h.covers t ht
      exact ⟨T, List.mem_append_left _ hT, hTrid⟩
    · rw [List.mem_singleton.mp ht]
      exact ⟨⟨rid, nGroups, fun _ => []⟩, List.mem_append_right _ (by simp), rfl⟩
  · intro T hT g
    rcases List.mem_append.mp hT with hT | hT
    · exact h.gt T hT g
    · rw [List.mem_singleton.mp hT]
      exact .inl rfl

end Tracks

end Ns3.Fec
