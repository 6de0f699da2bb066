import Ns3.Fec.RouterRuns
import Ns3.Fec.InOrder

/-!
# The routers' packets in order

What is known when every packet delivered was sent after those delivered before it: its round
is still queued, its group's list is not cleared, so `Recv` returns, and the group tables are
up to date in every round that is not overrun.
-/

namespace Ns3.Fec

/-- Sending order is asymmetric. -/
theorem InFlight.Before.asymm {x y : InFlight} (h : x.Before y) : ¬ y.Before x := by
  rcases h with hlt | ⟨heq, hlt⟩ <;> rintro (hlt' | ⟨heq', hlt'⟩) <;> grind

namespace RouterNet

/-- The packet was sent after all those delivered so far. -/
def InOrder (n : RouterNet) (x : InFlight) : Prop := ∀ y ∈ n.got, y.Before x

instance (n : RouterNet) (x : InFlight) : Decidable (n.InOrder x) :=
  inferInstanceAs (Decidable (∀ y ∈ n.got, _))

/-- The round of every packet that may come next is in the round queue. -/
def Queued (n : RouterNet) : Prop := ∀ z ∈ n.sent, n.InOrder z → z.tag.m_roundId ∈ n.rids

variable {s : Shape} {n : RouterNet} {D' D'' : Deliveries} {i : Nat}
  {R : List (RoundFecTable RouterHdr)} {t : RoundFecTable RouterHdr}
  {Q : List (GroupFecTable RouterHdr)} {T : GroupFecTable RouterHdr}

/-- A delivered packet shows as delivered. -/
theorem delivered_of_mem {y : InFlight} (hy : y ∈ n.got) :
    n.delivered y.tag.m_roundId y.tag.m_serial = true := by
  rw [delivered, List.any_eq_true]
  exact ⟨y, hy, by simp⟩

/-- The packets sent of the open round are entered. -/
theorem Good.serial_le (h : Good s n D' i R t Q T) {y : InFlight} (hy : y ∈ n.sent)
    (hrid : y.tag.m_roundId = t.rid_) : y.tag.m_serial.toNat ≤ i :=
  h.below y.record.info (mem_entered (List.mem_map_of_mem hy) hrid)

/-- No packet was sent of a later round. -/
theorem Good.rid_le (h : Good s n D' i R t Q T) {y : InFlight} (hy : y ∈ n.sent) :
    y.tag.m_roundId ≤ t.rid_ := h.live.past y.record (List.mem_map_of_mem hy)

/-- A packet sent just now is of the open round, behind those entered. -/
theorem of_mem_records {es : List (PacketInfo RouterHdr)} {xs : List InFlight}
    (records : xs.map InFlight.record = recordsOf t.rid_ s.nGroups es)
    (above : ∀ e ∈ es, i < e.serial_.toNat) {x : InFlight} (hx : x ∈ xs) :
    x.tag.m_roundId = t.rid_ ∧ i < x.tag.m_serial.toNat := by
  have hmem : x.record ∈ recordsOf t.rid_ s.nGroups es := records ▸ List.mem_map_of_mem hx
  obtain ⟨e, he, heq⟩ := List.mem_map.mp hmem
  exact ⟨congrArg Record.rid heq.symm,
    (congrArg (fun r => r.info.serial_.toNat) heq).symm ▸ above e he⟩

/-- Sending keeps the rounds of the packets to come queued. -/
theorem Queued.send (hq : Queued n) (h : Good s n D' i R t Q T) {n' : RouterNet}
    (hgrown : Grown s n i R t n') : Queued n' := by
  have hrids := (hgrown.rids h).1
  obtain ⟨es, xs, later, hsent, hrecords, habove, -, -, -, hgot, -, -⟩ := hgrown
  intro z hz hin
  rw [hsent] at hz
  rcases List.mem_append.mp hz with hz | hz
  · exact hrids _ (hq z hz fun y hy => hin y (hgot ▸ hy))
  · rw [(of_mem_records hrecords habove hz).1]
    exact hrids _ (by rw [h.rids_eq]; exact List.mem_map_of_mem (by simp))

/-- The rounds left by a pass in order: all but those before the packet's, and the packet's
own one when the packet is its last. -/
private theorem Good.queued_after (hs : Fits s) (h : Good s n D' i R t Q T) {x z : InFlight}
    (hx : x ∈ n.sent) (hz : z ∈ n.sent) (hxz : x.Before z) {old q : List (RoundFecTable RouterHdr)}
    {u : RoundFecTable RouterHdr} (hsplit : R ++ [t] = old ++ u :: q)
    (hrid : u.rid_ = x.tag.m_roundId) (hzq : z.tag.m_roundId ∈ n.rids)
    {rt : List (RoundFecTable RouterHdr)} {pi : List (PacketInfo RouterHdr)}
    (hrt : IsLast x.tag u.nGroups_ ∧ rt = q ∨ rt = { u with pi_ := pi } :: q) :
    z.tag.m_roundId ∈ rt.map RoundFecTable.rid_ := by
  rw [h.rids_eq, hsplit] at hzq
  obtain ⟨v, hv, hvrid⟩ := List.mem_map.mp hzq
  have hsorted := h.live.rt_sorted
  change (R ++ [t]).Pairwise _ at hsorted
  rw [hsplit] at hsorted
  have hge : ¬ z.tag.m_roundId < x.tag.m_roundId := by
    intro hlt
    rcases hxz with hlt' | ⟨heq, -⟩ <;> grind
  have hvq : v ∈ u :: q := by
    rcases List.mem_append.mp hv with hv | hv
    · have := (List.pairwise_append.mp hsorted).2.2 v hv u (by simp)
      rw [hvrid, hrid] at this
      exact absurd this hge
    · exact hv
  rw [← hvrid]
  rcases hrt with ⟨⟨htype, hgid⟩, rfl⟩ | rfl
  · rcases List.mem_cons.mp hvq with rfl | hvq
    · -- nothing of the round comes after its last FEC packet
      have hsame : x.tag.m_roundId = z.tag.m_roundId := hrid.symm.trans hvrid
      have hlt : x.tag.m_serial < z.tag.m_serial := by
        rcases hxz with hlt | ⟨-, hlt⟩
        · rw [hsame] at hlt
          exact absurd hlt (UInt32.lt_irrefl _)
        · exact hlt
      have hn : v.nGroups_ = s.nGroups := by
        have hvmem : v ∈ R ++ [t] := by
          rw [hsplit]
          simp
        rw [← h.groups hx]
        exact (h.live.nGroups v hvmem x.record (List.mem_map_of_mem hx) hrid.symm).symm
      have hxser := (h.fec_serial hs hx htype).2
      rw [hn] at hgid
      rw [UInt32.lt_iff_toNat_lt] at hlt
      have hgroups : s.nGroups.toNat = s.groups := rfl
      rcases h.types hz with h1 | h2
      · have := h.data_serial hs hz h1
        omega
      · have := h.fec_serial hs hz h2
        omega
    · exact List.mem_map_of_mem hvq
  · rcases List.mem_cons.mp hvq with rfl | hvq
    · simp
    · exact List.mem_cons_of_mem _ (List.mem_map_of_mem hvq)

/-- In order, the queue is never past the packet's round. -/
theorem Queued.not_past (hq : Queued n) (h : Good s n D' i R t Q T) {x : InFlight} (hx : x ∈ n.sent)
    (hin : n.InOrder x) {u : RoundFecTable RouterHdr} {q : List (RoundFecTable RouterHdr)}
    (hrt : R ++ [t] = u :: q) : ¬ x.tag.m_roundId < u.rid_ := by
  have hqueued := hq x hx hin
  rw [h.rids_eq] at hqueued
  have hsorted := h.live.rt_sorted
  change (R ++ [t]).Pairwise _ at hsorted
  rw [hrt] at hqueued hsorted
  obtain ⟨w, hw, hwrid⟩ := List.mem_map.mp hqueued
  rcases List.mem_cons.mp hw with rfl | hw
  · grind
  · have := (List.pairwise_cons.mp hsorted).1 w hw
    grind

/-- In order, a pass finds the packet's round. -/
theorem Queued.outcome (hq : Queued n) (h : Good s n D' i R t Q T) {x : InFlight} (hx : x ∈ n.sent)
    (hin : n.InOrder x) {request : Bool} {d : Decoded RouterHdr}
    (ho : Outcome n.log n.delivered D' x.tag (s.fwin * s.nGroups.toUInt32) request
      ⟨R ++ [t], Q ++ [T]⟩ d D'') :
    ∃ old u q, R ++ [t] = old ++ u :: q ∧ u.rid_ = x.tag.m_roundId ∧
      d.asked = askedIn x.tag (s.fwin * s.nGroups.toUInt32) request u.pi_ ∧
      (IsLast x.tag u.nGroups_ ∧ d.tables.rt_ = q ∨
        d.tables.rt_ =
          { u with pi_ := passed x.tag (s.fwin * s.nGroups.toUInt32) request u.pi_ } :: q) := by
  rcases ho.rounds with ⟨v, q, hvq, hlt, -, -⟩ | hround
  · exact absurd hlt (hq.not_past h hx hin hvq)
  · exact hround

/-- Delivering in order keeps the rounds of the packets to come queued. -/
theorem Queued.deliver (hq : Queued n) (hs : Fits s) (h : Good s n D' i R t Q T) {x : InFlight}
    (hx : x ∈ n.sent) (hin : n.InOrder x) {request : Bool} {d : Decoded RouterHdr}
    (ho : Outcome n.log n.delivered D' x.tag (s.fwin * s.nGroups.toUInt32) request
      ⟨R ++ [t], Q ++ [T]⟩ d D'') {fec : FecRouterAgent} (htables : fec.toFecTables = d.tables) :
    Queued (n.deliver x fec) := by
  obtain ⟨old, u, q, hsplit, hrid, -, hrt⟩ := hq.outcome h hx hin ho
  intro z hz hzin
  have hxz : x.Before z := hzin x (List.mem_append_right _ (by simp))
  have hzq := hq z hz fun y hy => hzin y (List.mem_append_left _ hy)
  have hrt' : (n.deliver x fec).l3.m_fec.rt_ = d.tables.rt_ := congrArg FecTables.rt_ htables
  rw [rids, hrt']
  exact h.queued_after hs hx hz hxz hsplit hrid hzq hrt

/-- In order, every packet delivered of the round has a smaller serial. -/
theorem Good.latest (h : Good s n D' i R t Q T) {x : InFlight} (hin : n.InOrder x) :
    Latest n.log n.delivered x.tag := by
  intro e he hD
  obtain ⟨r, hr, hr', rfl⟩ := exists_of_mem_entered he
  obtain ⟨y, hy, rfl⟩ := List.mem_map.mp hr
  have hyrid : y.tag.m_roundId = x.tag.m_roundId := hr'
  rw [← hyrid] at hD
  rcases hin y (h.mem_got hy hD) with hlt | ⟨-, hlt⟩
  · rw [hyrid] at hlt
    exact absurd hlt (UInt32.lt_irrefl _)
  · exact hlt

/-- In order, no packet is stranded. -/
theorem Good.not_stranded (hs : Fits s) (h : Good s n D' i R t Q T) {x : InFlight} (hx : x ∈ n.sent)
    (hin : n.InOrder x) : ¬ n.l3.m_fec.Stranded x.tag := by
  rintro ⟨htype, -, U, hU, hrid, hnil⟩
  rw [congrArg FecTables.gt_ h.filling.tables] at hU
  rcases h.live.cleared U hU _ hnil with hnone | ⟨e, he, -, hfec, hseen⟩
  · exact hnone _ (mem_entered (List.mem_map_of_mem hx) hrid.symm) rfl
  · obtain ⟨r, hr, hr', rfl⟩ := exists_of_mem_entered he
    obtain ⟨y, hy, rfl⟩ := List.mem_map.mp hr
    have hyrid : y.tag.m_roundId = U.rid_ := hr'
    have hD := h.live.seen_got _ _ hseen
    rw [← hyrid] at hD
    have hyser := (h.fec_serial hs hy (y.taggedBy.type.mpr hfec)).2
    have hxser := h.data_serial hs hx htype
    -- the group's FEC packet comes after all data packets
    rcases hin y (h.mem_got hy hD) with hlt | ⟨-, hlt⟩
    · rw [hyrid, hrid] at hlt
      exact UInt32.lt_irrefl _ hlt
    · rw [UInt32.lt_iff_toNat_lt] at hlt
      omega

/-- An FEC packet is above the loss bound. -/
theorem Good.bound_le (hs : Fits s) (h : Good s n D' i R t Q T) {x : InFlight} (hx : x ∈ n.sent)
    (htype : x.tag.m_type ≠ 1) : s.fwin * s.nGroups.toUInt32 ≤ x.tag.m_serial := by
  have h2 := (h.types hx).resolve_left htype
  rw [UInt32.le_iff_toNat_le, s.toNat_window, (h.fec_serial hs hx h2).2]
  omega

/-- The group tables saw the data packets delivered, in rounds that are not overrun. -/
def UpToDate (s : Shape) (n : RouterNet) (D' : Deliveries) : Prop :=
  Seen n.log n.delivered D' (fun _ => s.fwin * s.nGroups.toUInt32) n.l3.m_fec.rt_

/-- Sending keeps the group tables up to date. -/
theorem UpToDate.send (hu : UpToDate s n D') (h : Good s n D' i R t Q T) {n' : RouterNet}
    (hgrown : Grown s n i R t n') : UpToDate s n' D' := by
  obtain ⟨es, xs, later, hsent, hrecords, habove, -, hrounds, hfresh, hgot, -, -⟩ := hgrown
  have hlog : n'.log = n.log ++ recordsOf t.rid_ t.nGroups_ es := by
    rw [log, hsent, List.map_append, hrecords, h.filling.table_nGroups]
    rfl
  have hD : n'.delivered = n.delivered := by
    funext rid serial
    rw [delivered, hgot]
    rfl
  have hold : n.l3.m_fec.rt_ = R ++ [t] := congrArg FecTables.rt_ h.filling.tables
  rw [UpToDate, hold] at hu
  rw [UpToDate, hlog, hD, hrounds]
  refine Seen.grow h.live hu ?_ fun v hv => (hfresh v hv).1
  intro e he e' he'
  have h1 := h.below e he
  have h2 := habove e' he'
  rw [UInt32.lt_iff_toNat_lt]
  omega

/-- Delivering in order keeps the group tables up to date. -/
theorem UpToDate.deliver (hu : UpToDate s n D') (hs : Fits s) (h : Good s n D' i R t Q T)
    {x : InFlight} (hx : x ∈ n.sent) (hin : n.InOrder x) {request : Bool} {d : Decoded RouterHdr}
    (ho : Outcome n.log n.delivered D' x.tag (s.fwin * s.nGroups.toUInt32) request
      ⟨R ++ [t], Q ++ [T]⟩ d D'') {fec : FecRouterAgent} (htables : fec.toFecTables = d.tables) :
    UpToDate s (n.deliver x fec) D'' := by
  have hold : n.l3.m_fec.rt_ = R ++ [t] := congrArg FecTables.rt_ h.filling.tables
  have hrt : (n.deliver x fec).l3.m_fec.rt_ = d.tables.rt_ := congrArg FecTables.rt_ htables
  rw [UpToDate, hold] at hu
  rw [UpToDate, delivered_deliver, hrt]
  exact Seen.pass h.live hu (List.mem_map_of_mem hx) x.taggedBy (h.latest hin)
    (h.bound_le hs hx) ho

/-- A packet that is not cut short finds its round not overrun. -/
theorem Good.not_overrun (hs : Fits s) (h : Good s n D' i R t Q T) {x : InFlight} (hx : x ∈ n.sent)
    (hin : n.InOrder x) (hcalm : ¬ x.tag.m_nGroups.toUInt32 <
      lostSum n.log n.delivered x.tag (s.fwin * s.nGroups.toUInt32)) :
    ¬ Overrun n.log n.delivered (fun _ => s.fwin * s.nGroups.toUInt32) x.tag.m_roundId s.nGroups := by
  intro hover
  apply hcalm
  have hover' : Overrun n.log n.delivered (fun _ => s.fwin * s.nGroups.toUInt32)
      x.tag.m_roundId x.tag.m_nGroups := by
    rw [h.groups hx]
    exact hover
  rw [early_iff h.live.logged (h.bound_le hs hx)]
  exact hover'.early (fun _ _ _ => UInt32.le_refl _) (h.latest hin)

/-- The group count of a queued round is that of its packets. -/
theorem Good.table_nGroups (h : Good s n D' i R t Q T) {x : InFlight} (hx : x ∈ n.sent)
    {u : RoundFecTable RouterHdr} (hu : u ∈ R ++ [t]) (hrid : u.rid_ = x.tag.m_roundId) :
    u.nGroups_ = s.nGroups := by
  rw [← h.groups hx]
  exact (h.live.nGroups u hu x.record (List.mem_map_of_mem hx) hrid.symm).symm

/-- A data packet delivered of a round that is not overrun was seen by the group tables. -/
theorem UpToDate.seen (hu : UpToDate s n D') (hs : Fits s) (h : Good s n D' i R t Q T)
    (hq : Queued n) {x : InFlight} (hx : x ∈ n.sent) (hin : n.InOrder x)
    (hcalm : ¬ x.tag.m_nGroups.toUInt32 <
      lostSum n.log n.delivered x.tag (s.fwin * s.nGroups.toUInt32))
    {e : PacketInfo RouterHdr} (he : e ∈ entered n.log x.tag.m_roundId) (htype : e.type_ = false)
    (hD : n.delivered x.tag.m_roundId e.serial_ = true) :
    D' x.tag.m_roundId e.serial_ = true := by
  obtain ⟨u, hu', hrid⟩ := List.mem_map.mp (hq x hx hin)
  have hold : n.l3.m_fec.rt_ = R ++ [t] := congrArg FecTables.rt_ h.filling.tables
  have hn := h.table_nGroups hx (by rw [← hold]; exact hu') hrid
  rw [← hrid] at he hD ⊢
  refine (hu u hu' e he htype hD).resolve_right ?_
  rw [hrid, hn]
  exact h.not_overrun hs hx hin hcalm

/-- The last data packet of a round is in the last group. -/
theorem Good.last_data (hs : Fits s) (h : Good s n D' i R t Q T) {z : InFlight} (hz : z ∈ n.sent)
    (htype : z.tag.m_type = 1) (hser : z.tag.m_serial.toNat = s.window) :
    z.tag.m_groupId.toNat + 1 = s.groups := by
  rcases h.numbers z hz with ⟨j, hj, htag⟩ | ⟨j, hj, htag⟩
  · have hj' : j + 1 = s.window := by
      rw [← hser, htag]
      exact (toNat_serial_dataEntry hs hj {}).symm
    have hmod : j % s.groups + 1 = s.groups := by
      have hzero := s.window_mod
      rw [← hj', succ_mod s.groups_pos] at hzero
      split at hzero
      · next hend => exact hend
      · omega
    rw [htag, Shape.dataTag, UInt8.toNat_ofNat', Nat.mod_eq_of_lt]
    · exact hmod
    · have := s.groups_lt
      omega
  · rw [htag] at htype
    cases htype

/-- The group phase of a packet that is not cut short counts few losses. -/
theorem UpToDate.groupLost_le (hu : UpToDate s n D') (hs : Fits s) (h : Good s n D' i R t Q T)
    (hq : Queued n) {x : InFlight} (hx : x ∈ n.sent) (hin : n.InOrder x)
    (hlast : ¬ IsLast x.tag s.nGroups) (hcalm : ¬ x.tag.m_nGroups.toUInt32 <
      lostSum n.log n.delivered x.tag (s.fwin * s.nGroups.toUInt32)) :
    (groupLost n.log D' x.tag).length ≤ x.tag.m_nGroups.toNat := by
  have hseen : ∀ e ∈ entered n.log x.tag.m_roundId, e.gid_ = x.tag.m_groupId →
      e.serial_ < x.tag.m_serial → e.serial_ < s.fwin * s.nGroups.toUInt32 ∧
        (n.delivered x.tag.m_roundId e.serial_ = true → D' x.tag.m_roundId e.serial_ = true) := by
    intro e he hgid hlt
    obtain ⟨r, hr, hr', rfl⟩ := exists_of_mem_entered he
    obtain ⟨z, hz, rfl⟩ := List.mem_map.mp hr
    have hzrid : z.tag.m_roundId = x.tag.m_roundId := hr'
    have hzgid : z.tag.m_groupId = x.tag.m_groupId := hgid
    have hzlt : z.tag.m_serial.toNat < x.tag.m_serial.toNat := UInt32.lt_iff_toNat_lt.mp hlt
    have hztype : z.tag.m_type = 1 := by
      rcases h.types hz with h1 | h2
      · exact h1
      · rcases h.types hx with h1 | h2'
        · have := (h.fec_serial hs hz h2).2
          have := h.data_serial hs hx h1
          omega
        · rw [h.eq_of_group hs hz hx h2 h2' hzrid hzgid] at hzlt
          exact absurd hzlt (Nat.lt_irrefl _)
    refine ⟨?_, ?_⟩
    · rw [UInt32.lt_iff_toNat_lt, s.toNat_window]
      have hzle := h.data_serial hs hz hztype
      refine lt_of_le_of_ne hzle fun heq => ?_
      have hgroup := h.last_data hs hz hztype heq
      rcases h.types hx with h1 | h2
      · have := h.data_serial hs hx h1
        change z.tag.m_serial.toNat = _ at heq
        omega
      · rw [hzgid] at hgroup
        exact hlast ⟨h2, hgroup⟩
    · exact hu.seen hs h hq hx hin hcalm he (by simp [InFlight.record, hztype])
  rw [early_iff h.live.logged (h.bound_le hs hx)] at hcalm
  exact (groupLost_length_le hseen).trans (Nat.le_of_not_lt hcalm)

/-- What the pass of a packet in order reports. -/
theorem UpToDate.reports (hu : UpToDate s n D') (hs : Fits s) (h : Good s n D' i R t Q T)
    (hq : Queued n) {x : InFlight} (hx : x ∈ n.sent) (hin : n.InOrder x) {request : Bool}
    {d : Decoded RouterHdr}
    (ho : Outcome n.log n.delivered D' x.tag (s.fwin * s.nGroups.toUInt32) request
      ⟨R ++ [t], Q ++ [T]⟩ d D'') :
    d.sumlost = UInt32.ofNat (lostBefore n.log n.delivered x.tag.m_roundId x.tag.m_serial
        (s.fwin * s.nGroups.toUInt32)) ∧
      (d.group = none ∧ x.tag.m_nGroups.toNat < lostBefore n.log n.delivered x.tag.m_roundId
          x.tag.m_serial (s.fwin * s.nGroups.toUInt32) ∨
        ∃ g, d.group = some g ∧ ¬ x.tag.m_nGroups.toUInt32 <
            lostSum n.log n.delivered x.tag (s.fwin * s.nGroups.toUInt32) ∧
          ¬ x.tag.m_nGroups.toUInt32 < g.nlost) := by
  obtain ⟨hsum, hgroup⟩ := ho.reports fun u q hrt => hq.not_past h hx hin hrt
  refine ⟨hsum.trans (lostSum_eq (h.bound_le hs hx)), ?_⟩
  rcases hgroup with ⟨hnone, hearly⟩ | ⟨g, hg, hcalm, hnlost⟩
  · exact .inl ⟨hnone, (early_iff h.live.logged (h.bound_le hs hx)).mp hearly⟩
  · refine .inr ⟨g, hg, hcalm, ?_⟩
    rcases hnlost with hzero | ⟨hnlost, u, hu', hrid, hlast⟩
    · rw [hzero]
      grind
    · rw [h.table_nGroups hx hu' hrid] at hlast
      have hle := hu.groupLost_le hs h hq hx hin hlast hcalm
      rw [hnlost, not_lt_ofNat_iff]
      · exact hle
      · exact hle.trans_lt (x.tag.m_nGroups.toNat_lt.trans (by decide))

/-- What the pass of a packet in order recovers is a missing data packet before it, in a round
that is not overrun. -/
theorem UpToDate.recovered (hu : UpToDate s n D') (hs : Fits s) (h : Good s n D' i R t Q T)
    (hq : Queued n) {x : InFlight} (hx : x ∈ n.sent) (hin : n.InOrder x) {request : Bool}
    {d : Decoded RouterHdr}
    (ho : Outcome n.log n.delivered D' x.tag (s.fwin * s.nGroups.toUInt32) request
      ⟨R ++ [t], Q ++ [T]⟩ d D'') {e : PacketInfo RouterHdr}
    (he : d.group.bind GroupOutcome.recovered = some e) :
    x.tag.m_type = 2 ∧ e ∈ missing n.log n.delivered x.tag.m_roundId ∧ e.type_ = false ∧
      e.serial_ < x.tag.m_serial ∧
      ¬ Overrun n.log n.delivered (fun _ => s.fwin * s.nGroups.toUInt32) x.tag.m_roundId
        s.nGroups := by
  have hcalm : ¬ x.tag.m_nGroups.toUInt32 <
      lostSum n.log n.delivered x.tag (s.fwin * s.nGroups.toUInt32) := by
    obtain ⟨-, ⟨hnone, -⟩ | ⟨g, -, hcalm, -⟩⟩ := hu.reports hs h hq hx hin ho
    · rw [hnone] at he
      cases he
    · exact hcalm
  obtain ⟨-, hunseen, z, hz, rfl, hzrid, -, hztype⟩ := h.recovered hs hx ho he
  have htype : x.tag.m_type = 2 := ho.recovered_type he
  have hmem : z.record.info ∈ entered n.log x.tag.m_roundId :=
    mem_entered (List.mem_map_of_mem hz) hzrid
  have hdata : z.record.info.type_ = false := by simp [InFlight.record, hztype]
  refine ⟨htype, List.mem_filter.mpr ⟨hmem, ?_⟩, hdata, ?_, h.not_overrun hs hx hin hcalm⟩
  · have hD : n.delivered x.tag.m_roundId z.record.info.serial_ = false := by
      rw [Bool.eq_false_iff]
      intro hD
      rw [hu.seen hs h hq hx hin hcalm hmem hdata hD] at hunseen
      cases hunseen
    rw [hD]
    rfl
  · have hzser := h.data_serial hs hz hztype
    rw [UInt32.lt_iff_toNat_lt, (h.fec_serial hs hx htype).2]
    change z.tag.m_serial.toNat < _
    omega

end RouterNet

end Ns3.Fec
