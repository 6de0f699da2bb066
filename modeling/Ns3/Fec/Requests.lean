import Ns3.Fec.RouterOrder

/-!
# Retransmission requests of the decoding router

With `SendRxRequest` ON a data packet's scan queues a request for every lost entry before it
that was not asked for yet. In-order delivery makes the requests exact: the flags of the
entries say which packets were asked for, each of these is lost for good, and every data
packet that a later one of its round overtakes is asked for.
-/

namespace Ns3.Fec

/-- The round and serial a queued packet asks for. -/
def requestKey (p : Packet) : UInt32 × UInt32 :=
  ((p.peekPacketTag {}).m_roundId, (p.peekPacketTag {}).m_serial)

/-- The tag of a queued request. -/
@[simp] theorem tag_lostPacketInfo (rid : UInt32) (pi : PacketInfo RouterHdr) :
    (FecRouterAgent.lostPacketInfo rid pi).tag =
      some { m_type := 5, m_serial := pi.serial_, m_roundId := rid, m_groupId := pi.gid_ } := by
  simp [FecRouterAgent.lostPacketInfo]

@[simp] theorem requestKey_lostPacketInfo (rid : UInt32) (pi : PacketInfo RouterHdr) :
    requestKey (FecRouterAgent.lostPacketInfo rid pi) = (rid, pi.serial_) := by
  simp [requestKey, Packet.peekPacketTag]

/-- A queued packet asks the sender of `x` for `x` again. -/
structure AsksFor (p : Packet) (x : InFlight) : Prop where
  tag : p.tag = some
    { m_type := 5
      m_serial := x.tag.m_serial
      m_roundId := x.tag.m_roundId
      m_groupId := x.tag.m_groupId }
  headers : ∃ ip tcp, p.headers = [.ipv4 ip, .tcp tcp] ∧
    ip.m_source = x.hdr.ip_.m_destination ∧ ip.m_destination = x.hdr.ip_.m_source ∧
    tcp.m_sourcePort = x.hdr.tcp_.m_destinationPort ∧
    tcp.m_destinationPort = x.hdr.tcp_.m_sourcePort ∧
    tcp.m_ackNumber = x.hdr.tcp_.m_sequenceNumber

/-- The request made from a data packet's entry asks for the packet. -/
theorem asksFor_lostPacketInfo {x : InFlight} (htype : x.tag.m_type = 1) :
    AsksFor (FecRouterAgent.lostPacketInfo x.tag.m_roundId x.record.info) x := by
  have hhdr : x.record.info.hdr_ = x.hdr := by
    have hne : ¬ x.tag.m_type = 2 := by
      rw [htype]
      decide
    simp [InFlight.record, hne]
  refine ⟨tag_lostPacketInfo _ _, _, _, rfl, ?_⟩
  simp [hhdr]

namespace RouterNet

/-- A packet was asked for. -/
def Requested (n : RouterNet) (rid serial : UInt32) : Prop :=
  (rid, serial) ∈ n.l3.m_fec.lpq_.map requestKey

/-- Requests and flags of a run that delivers in order. -/
structure Requesting (n : RouterNet) : Prop where
  mode : n.l3.m_fec.m_sendRxRequest = .ON
  queued : n.Queued
  flags : ∀ t ∈ n.l3.m_fec.rt_, ∀ e ∈ t.pi_, e.flag_ = true ↔ n.Requested t.rid_ e.serial_
  once : (n.l3.m_fec.lpq_.map requestKey).Nodup
  sound : ∀ p ∈ n.l3.m_fec.lpq_, ∃ x ∈ n.sent, x.tag.m_type = 1 ∧ x ∉ n.got ∧
    (∃ y ∈ n.got, x.Before y) ∧
    p = FecRouterAgent.lostPacketInfo x.tag.m_roundId x.record.info
  complete : ∀ x ∈ n.sent, x.tag.m_type = 1 → x ∉ n.got → ∀ y ∈ n.got, y.tag.m_type = 1 →
    y.tag.m_roundId = x.tag.m_roundId → x.Before y → n.Requested x.tag.m_roundId x.tag.m_serial

variable {s : Shape} {n : RouterNet} {D' D'' : Deliveries} {i : Nat}
  {R : List (RoundFecTable RouterHdr)} {t : RoundFecTable RouterHdr}
  {Q : List (GroupFecTable RouterHdr)} {T : GroupFecTable RouterHdr}

/-- What was asked for was sent. -/
theorem Requesting.exists_sent (hr : Requesting n) {rid serial : UInt32}
    (h : n.Requested rid serial) : ∃ x ∈ n.sent, x.tag.m_type = 1 ∧ x ∉ n.got ∧
      (∃ y ∈ n.got, x.Before y) ∧ x.tag.m_roundId = rid ∧ x.tag.m_serial = serial := by
  obtain ⟨p, hp, hkey⟩ := List.mem_map.mp h
  obtain ⟨x, hx, htype, hgot, hy, rfl⟩ := hr.sound p hp
  rw [requestKey_lostPacketInfo] at hkey
  obtain ⟨rfl, rfl⟩ := Prod.mk.inj hkey
  exact ⟨x, hx, htype, hgot, hy, rfl, rfl⟩

/-- Sending keeps requests and flags in step. -/
private theorem Requesting.send (hr : Requesting n) (h : Good s n D' i R t Q T) {n' : RouterNet}
    (hgrown : Grown s n i R t n') : Requesting n' := by
  have hqueued := hr.queued.send h hgrown
  obtain ⟨es, xs, later, hsent, hrecords, habove, hflags, hrounds, hfresh, hgot, hreq, hmode⟩ :=
    hgrown
  have hold : n.l3.m_fec.rt_ = R ++ [t] := congrArg FecTables.rt_ h.filling.tables
  have hbefore : ∀ y ∈ n.sent, ∀ x ∈ xs, ¬ x.Before y := by
    intro y hy x hx
    obtain ⟨hrid, hlt⟩ := of_mem_records hrecords habove hx
    have hle := h.rid_le hy
    rintro (hlt' | ⟨heq, hlt'⟩)
    · rw [hrid] at hlt'
      grind
    · have := h.serial_le hy (heq.symm.trans hrid)
      rw [UInt32.lt_iff_toNat_lt] at hlt'
      omega
  have hsame : ∀ rid serial, n'.Requested rid serial ↔ n.Requested rid serial := by
    intro rid serial
    rw [Requested, hreq]
    rfl
  exact
    { mode := hmode.trans hr.mode
      queued := hqueued
      flags := by
        intro u hu e he
        rw [hsame]
        rw [hrounds] at hu
        rcases List.mem_append.mp hu with hu | hu
        · exact hr.flags u (by simp [hold, hu]) e he
        · rcases List.mem_cons.mp hu with rfl | hu
          · rcases List.mem_append.mp he with he | he
            · exact hr.flags t (by simp [hold]) e he
            · rw [hflags e he]
              refine ⟨fun hf => absurd hf (by simp), fun hreq => ?_⟩
              obtain ⟨x, hx, -, -, -, hrid, hser⟩ := hr.exists_sent hreq
              have h1 := h.serial_le hx hrid
              have h2 := habove e he
              rw [hser] at h1
              omega
          · rw [(hfresh u hu).2] at he
            cases he
      once := by
        rw [hreq]
        exact hr.once
      sound := by
        intro p hp
        rw [hreq] at hp
        obtain ⟨x, hx, hrest⟩ := hr.sound p hp
        rw [hgot]
        exact ⟨x, by rw [hsent]; exact List.mem_append_left _ hx, hrest⟩
      complete := by
        intro x hx htype hx' y hy hytype hrid hxy
        rw [hsame]
        rw [hgot] at hx' hy
        rw [hsent] at hx
        rcases List.mem_append.mp hx with hx | hx
        · exact hr.complete x hx htype hx' y hy hytype hrid hxy
        · exact absurd hxy (hbefore y (h.got_sent y hy) x hx) }

/-- The entry of a packet that is not delivered reads as it was entered. -/
private theorem marked_record {D : Deliveries} {z : InFlight} {rid : UInt32}
    (hD : D rid z.tag.m_serial = false) : marked D rid z.record.info = z.record.info := by
  have hD' : D rid z.record.info.serial_ = false := hD
  simp [marked, hD']

/-- An unmarked entry of a packet's round, once the packet is marked, is that of another
undelivered packet. -/
private theorem Good.unmarked (h : Good s n D' i R t Q T) {x : InFlight}
    {u : RoundFecTable RouterHdr} (hu : u ∈ R ++ [t]) (hrid : u.rid_ = x.tag.m_roundId)
    {e : PacketInfo RouterHdr} (he : e ∈ u.pi_.map (mark x.tag.m_serial))
    (hc : e.check_ = false) :
    ∃ z ∈ n.sent, z.tag.m_roundId = x.tag.m_roundId ∧ unflag e = z.record.info ∧
      z ∉ n.got ∧ z ≠ x := by
  have hmem : unflag e ∈ (u.pi_.map (mark x.tag.m_serial)).map unflag := List.mem_map_of_mem he
  rw [h.live.map_unflag_mark hu hrid] at hmem
  obtain ⟨info, hinfo, heq⟩ := List.mem_map.mp hmem
  obtain ⟨r, hr, hr', rfl⟩ := exists_of_mem_entered hinfo
  obtain ⟨z, hz, rfl⟩ := List.mem_map.mp hr
  have hzrid : z.tag.m_roundId = x.tag.m_roundId := (show z.tag.m_roundId = u.rid_ from hr').trans hrid
  have hD : (n.delivered.add x.tag) u.rid_ z.tag.m_serial = false := by
    have hcheck := congrArg PacketInfo.check_ heq
    rw [check_unflag, hc] at hcheck
    simpa [marked, InFlight.record] using hcheck
  refine ⟨z, hz, hzrid, ?_, ?_, ?_⟩
  · rw [← heq, marked_record hD]
  · intro hgot
    have := delivered_of_mem hgot
    rw [hzrid, ← hrid] at this
    simp [Deliveries.add, this] at hD
  · rintro rfl
    simp [Deliveries.add, hrid] at hD

/-- And every other undelivered packet of the round has one. -/
private theorem Good.exists_unmarked (h : Good s n D' i R t Q T) {x z : InFlight}
    {u : RoundFecTable RouterHdr} (hu : u ∈ R ++ [t]) (hrid : u.rid_ = x.tag.m_roundId)
    (hx : x ∈ n.sent) (hz : z ∈ n.sent) (hzrid : z.tag.m_roundId = x.tag.m_roundId)
    (hgot : z ∉ n.got) (hne : z ≠ x) :
    ∃ e ∈ u.pi_.map (mark x.tag.m_serial), unflag e = z.record.info := by
  have hD : (n.delivered.add x.tag) u.rid_ z.tag.m_serial = false := by
    rw [Bool.eq_false_iff]
    intro hD
    simp only [Deliveries.add, Bool.or_eq_true, Bool.and_eq_true, decide_eq_true_eq] at hD
    rcases hD with hD | ⟨-, hser⟩
    · rw [hrid, ← hzrid] at hD
      exact hgot (h.mem_got hz hD)
    · exact hne (h.eq_of_serial hz hx hzrid hser)
  have hmem : z.record.info ∈ (entered n.log u.rid_).map (marked (n.delivered.add x.tag) u.rid_) := by
    rw [← marked_record hD]
    exact List.mem_map_of_mem (mem_entered (List.mem_map_of_mem hz) (hzrid.trans hrid.symm))
  rw [← h.live.map_unflag_mark hu hrid] at hmem
  exact List.mem_map.mp hmem

/-- A packet asked for by the pass of `x` is a lost data packet before `x`, not asked for
yet. -/
private theorem Requesting.asked (hs : Fits s) (hr : Requesting n) (h : Good s n D' i R t Q T)
    {x : InFlight} (hx : x ∈ n.sent) {u : RoundFecTable RouterHdr} (hu : u ∈ R ++ [t])
    (hrid : u.rid_ = x.tag.m_roundId) {e : PacketInfo RouterHdr}
    (he : e ∈ askedIn x.tag (s.fwin * s.nGroups.toUInt32) true u.pi_) :
    x.tag.m_type = 1 ∧ ¬ n.Requested x.tag.m_roundId e.serial_ ∧
      ∃ z ∈ n.sent, z.tag.m_roundId = x.tag.m_roundId ∧ e = z.record.info ∧ z ∉ n.got ∧ z ≠ x ∧
        z.tag.m_type = 1 ∧ z.Before x := by
  obtain ⟨hmem, hasks⟩ := List.mem_filter.mp he
  simp only [asks, lost, reached, Bool.and_eq_true, Bool.not_eq_true', decide_eq_true_eq] at hasks
  obtain ⟨⟨⟨⟨⟨hc, hbound⟩, hreach⟩, htype⟩, hflag⟩, -⟩ := hasks
  obtain ⟨z, hz, hzrid, hze, hzgot, hzne⟩ := h.unmarked hu hrid hmem hc
  have heq : e = z.record.info := by
    rw [← hze]
    cases e
    simp_all [unflag]
  have hser : z.tag.m_serial = e.serial_ := by
    rw [heq]
    rfl
  refine ⟨htype, ?_, z, hz, hzrid, heq, hzgot, hzne, ?_, ?_⟩
  · obtain ⟨e', he', rfl⟩ := List.mem_map.mp hmem
    have hold : n.l3.m_fec.rt_ = R ++ [t] := congrArg FecTables.rt_ h.filling.tables
    have hiff := hr.flags u (by rw [hold]; exact hu) e' he'
    rw [flag_mark] at hflag
    rw [serial_mark, ← hrid, ← hiff, hflag]
    simp
  · rcases h.types hz with h1 | h2
    · exact h1
    · -- the FEC packets are above the bound
      have := (h.fec_serial hs hz h2).2
      rw [UInt32.lt_iff_toNat_lt, s.toNat_window, ← hser] at hbound
      omega
  · right
    refine ⟨hzrid, ?_⟩
    have hle := hreach htype
    rw [← hser] at hle
    have hne : z.tag.m_serial ≠ x.tag.m_serial := fun hsame =>
      hzne (h.eq_of_serial hz hx hzrid hsame)
    grind

/-- Delivering in order keeps requests and flags in step. -/
private theorem Requesting.receive (hs : Fits s) (hr : Requesting n) (h : Good s n D' i R t Q T)
    {x : InFlight} (hx : x ∈ n.sent) (hin : n.InOrder x) (ipHeader : Ipv4Header)
    {d : Decoded RouterHdr} (ho : Outcome n.log n.delivered D' x.tag
      (s.fwin * s.nGroups.toUInt32) (n.l3.m_fec.m_sendRxRequest = .ON) ⟨R ++ [t], Q ++ [T]⟩ d D'') :
    Requesting (n.receive x (n.l3.m_fec.settle x.packet ipHeader x.tag d)) := by
  have hon : decide (n.l3.m_fec.m_sendRxRequest = .ON) = true := by simp [hr.mode]
  rw [hon] at ho
  obtain ⟨hset, htables, hlpq⟩ := n.l3.m_fec.settle_agent x.packet ipHeader x.tag d
  have hqueued := hr.queued.deliver hs h hx hin ho htables
  obtain ⟨old, u, q, hsplit, hrid, hasked, hrt⟩ := hr.queued.outcome h hx hin ho
  have hu : u ∈ R ++ [t] := by
    rw [hsplit]
    simp
  have hold : n.l3.m_fec.rt_ = R ++ [t] := congrArg FecTables.rt_ h.filling.tables
  have hlost := fun e he => hr.asked hs h hx hu hrid (hasked ▸ he : e ∈ askedIn _ _ _ _)
  have hasc := (h.live.ascending h.live.logged hu).mark x.tag.m_serial
  have hkeys : (n.l3.m_fec.lpq_ ++ d.asked.map (FecRouterAgent.lostPacketInfo x.tag.m_roundId)).map
      requestKey = n.l3.m_fec.lpq_.map requestKey ++
        d.asked.map fun e => (x.tag.m_roundId, e.serial_) := by
    simp [Function.comp_def]
  generalize hn' : n.receive x (n.l3.m_fec.settle x.packet ipHeader x.tag d) = n'
  have hrt' : n'.l3.m_fec.rt_ = d.tables.rt_ := by
    rw [← hn']
    exact congrArg FecTables.rt_ htables
  have hlpq' : n'.l3.m_fec.lpq_ =
      n.l3.m_fec.lpq_ ++ d.asked.map (FecRouterAgent.lostPacketInfo x.tag.m_roundId) := by
    rw [← hn']
    exact hlpq
  have hgot' : n'.got = n.got ++ [x] := by rw [← hn']; rfl
  have hsent' : n'.sent = n.sent := by rw [← hn']; rfl
  have hrequested : ∀ rid serial, n'.Requested rid serial ↔
      n.Requested rid serial ∨ rid = x.tag.m_roundId ∧ ∃ e ∈ d.asked, e.serial_ = serial := by
    intro rid serial
    rw [Requested, hlpq', hkeys, List.mem_append]
    refine or_congr Iff.rfl ?_
    simp only [List.mem_map, Prod.mk.injEq]
    constructor
    · rintro ⟨e, he, hr', hser⟩
      exact ⟨hr'.symm, e, he, hser⟩
    · rintro ⟨hr', e, he, hser⟩
      exact ⟨e, he, hr'.symm, hser⟩
  exact
    { mode := by
        rw [← hn']
        exact hset.sendRxRequest.trans hr.mode
      queued := hn' ▸ hqueued
      flags := by
        intro v hv e he
        rw [hrequested]
        rw [hrt'] at hv
        have hlater : ∀ v ∈ q, ∀ e ∈ v.pi_, e.flag_ = true ↔
            n.Requested v.rid_ e.serial_ ∨ v.rid_ = x.tag.m_roundId ∧
              ∃ e' ∈ d.asked, e'.serial_ = e.serial_ := by
          intro v hv e he
          have hne : v.rid_ ≠ x.tag.m_roundId := by
            have hsorted := h.live.rt_sorted
            change (R ++ [t]).Pairwise _ at hsorted
            rw [hsplit] at hsorted
            have := (List.pairwise_cons.mp (List.pairwise_append.mp hsorted).2.1).1 v hv
            rw [← hrid]
            grind
          simp only [hne, false_and, or_false]
          exact hr.flags v (by simp [hold, hsplit, hv]) e he
        rcases hrt with ⟨-, hrt⟩ | hrt
        · rw [hrt] at hv
          exact hlater v hv e he
        · rw [hrt] at hv
          rcases List.mem_cons.mp hv with rfl | hv
          · obtain ⟨e₁, he₁, rfl⟩ := List.mem_map.mp he
            obtain ⟨e₀, he₀, heq⟩ := List.mem_map.mp he₁
            have hflag := hr.flags u (by rw [hold]; exact hu) e₀ he₀
            have hser : (flagAsked x.tag (s.fwin * s.nGroups.toUInt32) true e₁).serial_ =
                e₁.serial_ := by
              unfold flagAsked
              split <;> rfl
            have hin' : (∃ e' ∈ d.asked, e'.serial_ = e₁.serial_) ↔
                asks x.tag (s.fwin * s.nGroups.toUInt32) true e₁ = true := by
              rw [hasked]
              constructor
              · rintro ⟨e', he', hser'⟩
                obtain ⟨hmem', hasks'⟩ := List.mem_filter.mp he'
                rwa [← hasc.eq_of_serial hmem' he₁ hser']
              · exact fun hasks => ⟨e₁, List.mem_filter.mpr ⟨he₁, hasks⟩, rfl⟩
            have hser₀ : e₁.serial_ = e₀.serial_ := by
              rw [← heq, serial_mark]
            have hflag₀ : e₁.flag_ = e₀.flag_ := by
              rw [← heq, flag_mark]
            simp only [hser, hin', hrid, true_and]
            rw [hrid] at hflag
            rw [hser₀, ← hflag, ← hflag₀]
            unfold flagAsked
            split
            · next hasks => simp [hasks]
            · next hasks => simp [hasks]
          · exact hlater v hv e he
      once := by
        rw [hlpq', hkeys]
        refine List.nodup_append.mpr ⟨hr.once, ?_, ?_⟩
        · rw [List.Nodup, List.pairwise_map, hasked]
          refine (List.Pairwise.filter _ hasc).imp ?_
          intro a b hab heq
          have := (Prod.mk.inj heq).2
          grind
        · intro k hk k' hk' heq
          obtain ⟨e, he, rfl⟩ := List.mem_map.mp hk'
          rw [heq] at hk
          exact (hlost e he).2.1 hk
      sound := by
        intro p hp
        rw [hlpq'] at hp
        rw [hsent', hgot']
        rcases List.mem_append.mp hp with hp | hp
        · obtain ⟨z, hz, htype, hzgot, ⟨y, hy, hzy⟩, hpz⟩ := hr.sound p hp
          refine ⟨z, hz, htype, ?_, ⟨y, by simp [hy], hzy⟩, hpz⟩
          intro hmem
          rcases List.mem_append.mp hmem with hmem | hmem
          · exact hzgot hmem
          · rw [List.mem_singleton.mp hmem] at hzy
            exact hzy.asymm (hin y hy)
        · obtain ⟨e, he, rfl⟩ := List.mem_map.mp hp
          obtain ⟨-, -, z, hz, hzrid, rfl, hzgot, hzne, htype, hzx⟩ := hlost e he
          exact ⟨z, hz, htype, by simp [hzgot, hzne], ⟨x, by simp, hzx⟩, by rw [hzrid]⟩
      complete := by
        intro z hz htype hzgot y hy hytype hyrid hzy
        rw [hsent'] at hz
        rw [hgot', List.mem_append, List.mem_singleton, not_or] at hzgot
        rw [hrequested]
        rw [hgot'] at hy
        rcases List.mem_append.mp hy with hy | hy
        · exact .inl (hr.complete z hz htype hzgot.1 y hy hytype hyrid hzy)
        · rw [List.mem_singleton.mp hy] at hytype hyrid hzy
          obtain ⟨e, he, hez⟩ := h.exists_unmarked hu hrid hx hz hyrid.symm hzgot.1 hzgot.2
          have hser : e.serial_ = z.tag.m_serial := by
            have := congrArg PacketInfo.serial_ hez
            exact this
          have hc : e.check_ = false := by
            have := congrArg PacketInfo.check_ hez
            exact this
          have hlt : e.serial_ < x.tag.m_serial := by
            rw [hser]
            rcases hzy with hlt | ⟨-, hlt⟩
            · rw [hyrid] at hlt
              exact absurd hlt (UInt32.lt_irrefl _)
            · exact hlt
          have hbound : e.serial_ < s.fwin * s.nGroups.toUInt32 := by
            have := h.serial_le_bound hs hx hytype
            grind
          by_cases hflag : e.flag_ = true
          · left
            obtain ⟨e₀, he₀, rfl⟩ := List.mem_map.mp he
            rw [flag_mark] at hflag
            have := (hr.flags u (by rw [hold]; exact hu) e₀ he₀).mp hflag
            rwa [hrid, ← serial_mark x.tag.m_serial e₀, hser, hyrid] at this
          · right
            refine ⟨hyrid.symm, e, ?_, hser⟩
            rw [hasked]
            refine List.mem_filter.mpr ⟨he, ?_⟩
            have hle : e.serial_ ≤ x.tag.m_serial := UInt32.le_of_lt hlt
            simp [asks, lost, reached, hc, hbound, hytype, hflag, hle] }

/-- Every step of a run in order keeps requests and flags in step. -/
private theorem kept_requesting (hs : Fits s) {fec : FecRouterAgent} (hfec : Fresh s fec)
    (hmode : fec.m_sendRxRequest = .ON) (hempty : fec.lpq_ = []) :
    Kept s fec InOrder fun n _ => Requesting n where
  first := by
    have htables := (Fresh.start (l := .setFec fec) hfec hfec.fwin hfec.nGroups rfl).tables
    have hsame : (Ipv4L3ProtocolwithFecEncode.setFec fec).start.m_fec.lpq_ = fec.lpq_ ∧
        (Ipv4L3ProtocolwithFecEncode.setFec fec).start.m_fec.m_sendRxRequest =
          fec.m_sendRxRequest := by
      rw [Ipv4L3ProtocolwithFecEncode.start]
      split <;> exact ⟨rfl, rfl⟩
    exact
      { mode := hsame.2.trans hmode
        queued := by simp [Queued]
        flags := by simp [htables]
        once := by simp [hsame.1, hempty]
        sound := by simp [hsame.1, hempty]
        complete := by simp }
  send := fun h hr _ hgrown => hr.send h hgrown
  receive := fun h hr _ hx _ hin ipHeader _ _ ho _ => hr.receive hs h hx hin ipHeader ho

end RouterNet

open RouterNet

/-- The requests of a run that delivers in order, of which `Recv` puts all in `lpq_` and
nothing is taken out: no packet is asked for twice, every one asked for is a data packet not
received so far, and every data packet not received of whose round a later data packet was is
asked for. -/
theorem requests_exact (s : Shape) (hs : Fits s) (fec : FecRouterAgent) (hfec : Fresh s fec)
    (hmode : fec.m_sendRxRequest = .ON) (hempty : fec.lpq_ = []) (n : RouterNet)
    (hn : Reached Sendable InOrder fec n) :
    (n.l3.m_fec.lpq_.map requestKey).Nodup ∧
      (∀ p ∈ n.l3.m_fec.lpq_, ∃ x ∈ n.sent, x.tag.m_type = 1 ∧ x ∉ n.got ∧ AsksFor p x) ∧
      ∀ x ∈ n.sent, x.tag.m_type = 1 → x ∉ n.got →
        (∃ y ∈ n.got, y.tag.m_type = 1 ∧ y.tag.m_roundId = x.tag.m_roundId ∧ x.Before y) →
          ∃ p ∈ n.l3.m_fec.lpq_, AsksFor p x := by
  rcases hn.good hs hfec (kept_requesting hs hfec hmode hempty) with
    rfl | ⟨D', i, R, t, Q, T, h, hr⟩
  · have hnil : (Ipv4L3ProtocolwithFecEncode.setFec fec).m_fec.lpq_ = [] := hempty
    simp [hnil]
  · refine ⟨hr.once, ?_, ?_⟩
    · intro p hp
      obtain ⟨x, hx, htype, hgot, -, rfl⟩ := hr.sound p hp
      exact ⟨x, hx, htype, hgot, asksFor_lostPacketInfo htype⟩
    · rintro x hx htype hgot ⟨y, hy, hytype, hyrid, hxy⟩
      obtain ⟨p, hp, hkey⟩ := List.mem_map.mp (hr.complete x hx htype hgot y hy hytype hyrid hxy)
      obtain ⟨z, hz, hztype, -, -, rfl⟩ := hr.sound p hp
      rw [requestKey_lostPacketInfo] at hkey
      obtain ⟨hrid, hser⟩ := Prod.mk.inj hkey
      obtain rfl : z = x := h.eq_of_serial hz hx hrid hser
      exact ⟨_, hp, asksFor_lostPacketInfo htype⟩

/-- The second data packet of a round arrives, and the first is asked for. -/
theorem requests_exact_two : ∃ n : RouterNet, Shape.two.fullFlight 1 ∈ n.got ∧
    (n.l3.m_fec.lpq_.map requestKey).Nodup ∧
      (∀ p ∈ n.l3.m_fec.lpq_, ∃ x ∈ n.sent, x.tag.m_type = 1 ∧ x ∉ n.got ∧ AsksFor p x) ∧
      ∀ x ∈ n.sent, x.tag.m_type = 1 → x ∉ n.got →
        (∃ y ∈ n.got, y.tag.m_type = 1 ∧ y.tag.m_roundId = x.tag.m_roundId ∧ x.Before y) →
          ∃ p ∈ n.l3.m_fec.lpq_, AsksFor p x := by
  have h0 : Reached Sendable InOrder twoAgent _ := .start
  have h1 := h0.step (.send fullCall ⟨by decide, by decide, by decide⟩ _ _ rfl)
  have h2 := h1.step (.send fullCall ⟨by decide, by decide, by decide⟩ _ _ rfl)
  have h3 := h2.step
    (.receive (Shape.two.fullFlight 1) (by decide) (by decide) (by decide) {} _ rfl)
  exact ⟨_, by decide, requests_exact Shape.two (by unfold Fits; decide) twoAgent fresh_twoAgent
    rfl rfl _ h3⟩

/-- A packet of 990 bytes to which `Send` prepends its header. -/
def countedCall : SendCall := { out := { prepends := true }, packet := { payload := 990 } }

/-- Counting an untagged packet in round 1 starts the data packets of round 2 at serial 2. Its
second data packet is received, and the first, whose serial is the loss bound, not asked for. -/
theorem not_requests_exact_990 : ∃ n, Reached Any InOrder twoAgent n ∧
    twoAgent.m_sendRxRequest = .ON ∧ ∃ x ∈ n.sent, ∃ y ∈ n.got, x.tag.m_type = 1 ∧
      x ∉ n.got ∧ y.tag.m_type = 1 ∧ y.tag.m_roundId = x.tag.m_roundId ∧ x.Before y ∧
      n.l3.m_fec.lpq_ = [] := by
  have h0 : Reached Any InOrder twoAgent _ := .start
  have h1 := h0.step (.send fullCall trivial _ _ rfl)
  have h2 := h1.step (.send countedCall trivial _ _ rfl)
  have h3 := h2.step (.send fullCall trivial _ _ rfl)
  have h4 := h3.step (.send fullCall trivial _ _ rfl)
  have h5 := h4.step (.receive (Shape.two.dataFlight 2 fullCall 2) (by decide) (by decide)
    (by decide) {} _ rfl)
  refine ⟨_, h5, rfl, ⟨fullCall.packet.addPacketTag ⟨1, 2, 2, 1, 2⟩, fullCall.hdr⟩, by decide,
    Shape.two.dataFlight 2 fullCall 2, by decide, by decide, by decide, by decide, by decide,
    by decide, rfl⟩

end Ns3.Fec
