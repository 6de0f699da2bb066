import Ns3.Fec.Live
import Ns3.Fec.Rounds

/-!
# The encoding and the decoding router

A packet tagged by the encoder reaches the decoder at any later time, in any order, or
not at all; the two routers share one agent object. `RouterNet` is the encoder's
protocol with its agent, the packets sent and the packets delivered. `Good` is what holds
between any two steps: the encoder is in the data part of a round and the tables are
`Live` for what was sent and delivered.
-/

namespace Ns3.Fec

/-- A tagged packet on its way, with the headers its entry keeps. -/
structure InFlight where
  packet : Packet
  hdr : RouterHdr
  deriving DecidableEq, Repr

namespace InFlight

/-- The tag the decoder reads. -/
def tag (x : InFlight) : FecTag := x.packet.peekPacketTag {}

/-- The packet as the encoder entered it. -/
def record (x : InFlight) : Record RouterHdr :=
  { rid := x.tag.m_roundId
    nGroups := x.tag.m_nGroups
    info :=
      { serial_ := x.tag.m_serial
        check_ := false
        gid_ := x.tag.m_groupId
        type_ := decide (x.tag.m_type = 2)
        hdr_ := if x.tag.m_type = 2 then {} else x.hdr
        flag_ := false } }

/-- A packet carries the tag of its record. -/
theorem taggedBy (x : InFlight) : x.record.TaggedBy x.tag :=
  ⟨rfl, rfl, rfl, rfl, by simp [record]⟩

end InFlight

/-- The tagged packets among those one call sent. -/
def transmitted (hdr : RouterHdr) (out : List Sent) : List InFlight :=
  ((out.map Sent.packet).filter fun p => p.tag.isSome).map fun p => ⟨p, hdr⟩

/-- The two routers, the tagged packets sent so far and those passed to `Recv`. -/
structure RouterNet where
  l3 : Ipv4L3ProtocolwithFecEncode
  sent : List InFlight := []
  got : List InFlight := []

namespace RouterNet

/-- Everything entered so far. -/
def log (n : RouterNet) : List (Record RouterHdr) := n.sent.map InFlight.record

/-- Everything passed to `Recv` so far. -/
def delivered (n : RouterNet) : Deliveries := fun rid serial =>
  n.got.any fun x => decide (rid = x.tag.m_roundId) && decide (serial = x.tag.m_serial)

/-- The call is one `SendRealOut` can be in step on: the packet carries no tag yet, the two
size tests agree on it, and the round it may complete is not the last of the 32-bit round
ids. -/
structure Sendable (n : RouterNet) (c : SendCall) : Prop where
  untagged : c.packet.tag = none
  agrees : c.Agrees n.l3.m_segmentSize
  rid_ne : n.l3.m_fec.m_roundId ≠ 0xffffffff

/-- What `SendRealOut` leaves. -/
def send (n : RouterNet) (c : SendCall) (l3 : Ipv4L3ProtocolwithFecEncode) (out : List Sent) :
    RouterNet :=
  { n with l3 := l3, sent := n.sent ++ transmitted c.hdr out }

/-- The net once a packet was passed to `Recv`, with the agent left behind. -/
def deliver (n : RouterNet) (x : InFlight) (fec : FecRouterAgent) : RouterNet :=
  { n with l3 := { n.l3 with m_fec := fec }, got := n.got ++ [x] }

/-- What `Recv` leaves. -/
def receive (n : RouterNet) (x : InFlight) (r : FecRouterAgent.Received) : RouterNet :=
  n.deliver x r.agent

/-- One step from a net: a call of `SendRealOut` that `calls` allows, or the delivery of a
packet that was not delivered yet and that `arrivals` allows. -/
inductive Step (calls : RouterNet → SendCall → Prop) (arrivals : RouterNet → InFlight → Prop)
    (n : RouterNet) : RouterNet → Prop where
  | send (c : SendCall) (hc : calls n c) (l3 : Ipv4L3ProtocolwithFecEncode) (out : List Sent)
      (hok : n.l3.sendRealOut c = .ok (l3, out)) : Step calls arrivals n (n.send c l3 out)
  | receive (x : InFlight) (hsent : x ∈ n.sent) (hgot : x ∉ n.got) (hx : arrivals n x)
      (ipHeader : Ipv4Header) (r : FecRouterAgent.Received)
      (hok : n.l3.m_fec.recv x.packet ipHeader = .ok r) : Step calls arrivals n (n.receive x r)

/-- The nets reached from a fresh agent. -/
inductive Reached (calls : RouterNet → SendCall → Prop) (arrivals : RouterNet → InFlight → Prop)
    (fec : FecRouterAgent) : RouterNet → Prop where
  | start : Reached calls arrivals fec { l3 := .setFec fec }
  | step {n n' : RouterNet} (h : Reached calls arrivals fec n) (hstep : Step calls arrivals n n') :
      Reached calls arrivals fec n'

/-- Nothing is restricted. -/
def Any {T : Type} (_ : RouterNet) (_ : T) : Prop := True

/-- A configuration whose serials fit 32 bits. -/
def Fits (s : Shape) : Prop := s.window + s.groups < 2 ^ 32

end RouterNet

/-- The tag is that of a data or of an FEC packet of a round. -/
def Shape.Numbers (s : Shape) (tag : FecTag) : Prop :=
  (∃ i < s.window, tag = s.dataTag tag.m_roundId i) ∨
    ∃ j < s.groups, tag = s.fecTag tag.m_roundId j

/-- One packet was sent before another. -/
def InFlight.Before (y x : InFlight) : Prop :=
  y.tag.m_roundId < x.tag.m_roundId ∨
    y.tag.m_roundId = x.tag.m_roundId ∧ y.tag.m_serial < x.tag.m_serial

instance (y x : InFlight) : Decidable (y.Before x) := inferInstanceAs (Decidable (_ ∨ _))

namespace RouterNet

/-- The state between two steps: `i` data packets of the open round are out, and `D'` is
what the group tables saw delivered. -/
structure Good (s : Shape) (n : RouterNet) (D' : Deliveries) (i : Nat)
    (R : List (RoundFecTable RouterHdr)) (t : RoundFecTable RouterHdr)
    (Q : List (GroupFecTable RouterHdr)) (T : GroupFecTable RouterHdr) : Prop where
  filling : Filling s n.l3 i R t Q T
  live : Live n.log n.delivered D' R t Q T
  got_sent : ∀ x ∈ n.got, x ∈ n.sent
  below : ∀ e ∈ entered n.log t.rid_, e.serial_.toNat ≤ i
  closed : ∀ x ∈ n.sent, x.tag.m_type = 2 → x.tag.m_roundId < t.rid_
  numbers : ∀ x ∈ n.sent, s.Numbers x.tag
  order : n.sent.Pairwise InFlight.Before

end RouterNet

/-! ### What one call sends -/

section Transmitted

variable {s : Shape}

/-- Data packet `i` as it goes out. -/
def Shape.dataFlight (s : Shape) (rid : UInt32) (c : SendCall) (i : Nat) : InFlight :=
  ⟨c.packet.addPacketTag (s.dataTag rid i), c.hdr⟩

/-- FEC packet `j` as it goes out. -/
def Shape.fecFlight (s : Shape) (size rid : UInt32) (h : TcpHeader) (hdr : RouterHdr) (j : Nat) :
    InFlight := ⟨s.fecPacket size rid h j, hdr⟩

@[simp] theorem tag_dataFlight (rid : UInt32) (c : SendCall) (i : Nat) :
    (s.dataFlight rid c i).tag = s.dataTag rid i := by
  simp [Shape.dataFlight, InFlight.tag]

@[simp] theorem tag_fecFlight (size rid : UInt32) (h : TcpHeader) (hdr : RouterHdr) (j : Nat) :
    (s.fecFlight size rid h hdr j).tag = s.fecTag rid j := by
  simp [Shape.fecFlight, InFlight.tag, Shape.fecPacket, Packet.peekPacketTag]

/-- The record of a data packet. -/
theorem record_dataFlight (rid : UInt32) (c : SendCall) (i : Nat) :
    (s.dataFlight rid c i).record = ⟨rid, s.nGroups, s.dataEntry i c.hdr⟩ := by
  simp only [InFlight.record, tag_dataFlight]
  rfl

/-- The record of an FEC packet. -/
theorem record_fecFlight (size rid : UInt32) (h : TcpHeader) (hdr : RouterHdr) (j : Nat) :
    (s.fecFlight size rid h hdr j).record = ⟨rid, s.nGroups, s.fecEntry j⟩ := by
  simp only [InFlight.record, tag_fecFlight]
  rfl

/-- Untagged packets are not on their way to the decoder. -/
theorem transmitted_untagged (hdr : RouterHdr) {out : List Sent}
    (h : ∀ x ∈ out, x.packet.tag = none) : transmitted hdr out = [] := by
  rw [transmitted, List.map_eq_nil_iff, List.filter_eq_nil_iff]
  intro p hp
  obtain ⟨x, hx, rfl⟩ := List.mem_map.mp hp
  simp [h x hx]

/-- A data packet goes out alone or before the FEC packets of its round. -/
theorem transmitted_data (rid : UInt32) (c : SendCall) (i : Nat) (fec : FecRouterAgent)
    (out : List Sent) :
    transmitted c.hdr (⟨c.packet.addPacketTag (s.dataTag rid i), fec⟩ :: out) =
      s.dataFlight rid c i :: transmitted c.hdr out := by
  rw [transmitted, List.map_cons, List.filter_cons_of_pos (by simp), List.map_cons]
  rfl

/-- The FEC packets of a round all go out. -/
theorem transmitted_fecs (hdr : RouterHdr) {out : List Sent} {size rid : UInt32} {h : TcpHeader}
    (hout : out.map Sent.packet = (List.range s.groups).map (s.fecPacket size rid h)) :
    transmitted hdr out = (List.range s.groups).map (s.fecFlight size rid h hdr) := by
  rw [transmitted, hout, List.filter_eq_self.mpr, List.map_map]
  · rfl
  · intro p hp
    obtain ⟨j, -, rfl⟩ := List.mem_map.mp hp
    simp [Shape.fecPacket]

/-- The serial of data packet `i`. -/
theorem toNat_serial_dataEntry (hs : RouterNet.Fits s) {i : Nat} (hi : i < s.window)
    (hdr : RouterHdr) : (s.dataEntry i hdr).serial_.toNat = i + 1 := by
  rw [Shape.dataEntry, UInt32.toNat_ofNat']
  exact Nat.mod_eq_of_lt (by unfold RouterNet.Fits at hs; omega)

/-- The serial of FEC packet `j`. -/
theorem toNat_serial_fecEntry (hs : RouterNet.Fits s) {j : Nat} (hj : j < s.groups) :
    (s.fecEntry j).serial_.toNat = s.window + j + 1 := by
  rw [Shape.fecEntry, UInt32.toNat_ofNat']
  exact Nat.mod_eq_of_lt (by unfold RouterNet.Fits at hs; omega)

/-- The last packets of a round are entered in ascending serial order. -/
theorem ascending_close (hs : RouterNet.Fits s) {i : Nat} (hi : i < s.window) (hdr : RouterHdr) :
    Ascending (s.dataEntry i hdr :: s.fecEntries) := by
  refine List.pairwise_cons.mpr ⟨?_, ?_⟩
  · intro e he
    obtain ⟨j, hj, rfl⟩ := List.mem_map.mp he
    rw [UInt32.lt_iff_toNat_lt, toNat_serial_dataEntry hs hi,
      toNat_serial_fecEntry hs (List.mem_range.mp hj)]
    omega
  · rw [Shape.fecEntries, List.pairwise_map]
    refine List.Pairwise.imp_of_mem ?_ (List.pairwise_lt_range (n := s.groups))
    intro j k hj hk hjk
    rw [UInt32.lt_iff_toNat_lt, toNat_serial_fecEntry hs (List.mem_range.mp hj),
      toNat_serial_fecEntry hs (List.mem_range.mp hk)]
    omega

end Transmitted

namespace RouterNet

variable {s : Shape} {n : RouterNet} {D' : Deliveries} {i : Nat}
  {R : List (RoundFecTable RouterHdr)} {t : RoundFecTable RouterHdr}
  {Q : List (GroupFecTable RouterHdr)} {T : GroupFecTable RouterHdr}

theorem log_send (n : RouterNet) (c : SendCall) (l3 : Ipv4L3ProtocolwithFecEncode)
    (out : List Sent) :
    (n.send c l3 out).log = n.log ++ (transmitted c.hdr out).map InFlight.record := by
  simp [log, send]

/-- The packets of one round entered and sent, with the round left open. -/
private theorem Good.grow (h : Good s n D' i R t Q T) {es : List (PacketInfo RouterHdr)}
    (hes : Ascending es) (hserial : ∀ e ∈ es, i < e.serial_.toNat)
    (hflag : ∀ e ∈ es, e.flag_ = false) {xs : List InFlight}
    (hxs : xs.map InFlight.record = recordsOf t.rid_ s.nGroups es) :
    Live (n.log ++ xs.map InFlight.record) n.delivered D' R (t.push es) Q (T.push es) := by
  rw [hxs, ← h.filling.table_nGroups]
  refine h.live.enter hes ?_ hflag
  intro e he e' he'
  have h1 := h.below e he
  have h2 := hserial e' he'
  rw [UInt32.lt_iff_toNat_lt]
  omega

/-- What is entered later is sent later. -/
private theorem Good.order_append (h : Good s n D' i R t Q T) {es : List (PacketInfo RouterHdr)}
    (hes : Ascending es) (hserial : ∀ e ∈ es, i < e.serial_.toNat) {xs : List InFlight}
    (hxs : xs.map InFlight.record = recordsOf t.rid_ s.nGroups es) :
    (n.sent ++ xs).Pairwise InFlight.Before := by
  have hrid : ∀ x ∈ xs, x.tag.m_roundId = t.rid_ ∧ i < x.tag.m_serial.toNat := by
    intro x hx
    have hmem : x.record ∈ recordsOf t.rid_ s.nGroups es := hxs ▸ List.mem_map_of_mem hx
    obtain ⟨e, he, heq⟩ := List.mem_map.mp hmem
    exact ⟨congrArg Record.rid heq.symm,
      (congrArg (fun r => r.info.serial_.toNat) heq).symm ▸ hserial e he⟩
  refine List.pairwise_append.mpr ⟨h.order, ?_, ?_⟩
  · have hpair : xs.Pairwise fun x y => x.tag.m_serial < y.tag.m_serial := by
      have hasc : (xs.map InFlight.record).Pairwise fun r r' => r.info.serial_ < r'.info.serial_ := by
        rw [hxs, recordsOf, List.pairwise_map]
        exact hes
      rw [List.pairwise_map] at hasc
      exact hasc
    refine hpair.imp_of_mem ?_
    intro x y hx hy hxy
    exact .inr ⟨(hrid x hx).1.trans (hrid y hy).1.symm, hxy⟩
  · intro y hy x hx
    obtain ⟨hxr, hxs⟩ := hrid x hx
    have hpast : y.tag.m_roundId ≤ t.rid_ := h.live.past y.record (List.mem_map_of_mem hy)
    by_cases heq : y.tag.m_roundId = t.rid_
    · right
      have hbelow : y.tag.m_serial.toNat ≤ i :=
        h.below y.record.info (mem_entered (List.mem_map_of_mem hy) heq)
      rw [UInt32.lt_iff_toNat_lt]
      exact ⟨heq.trans hxr.symm, by omega⟩
    · left
      rw [hxr]
      grind

/-- The rounds of the round queue. -/
def rids (n : RouterNet) : List UInt32 := n.l3.m_fec.rt_.map RoundFecTable.rid_

theorem Good.rids_eq (h : Good s n D' i R t Q T) :
    n.rids = (R ++ [t]).map RoundFecTable.rid_ :=
  congrArg (fun tables => tables.rt_.map RoundFecTable.rid_) h.filling.tables

/-- Everything a call of `SendRealOut` adds: packets `xs` with entries `es` in the open round,
and empty tables of later rounds. -/
inductive Grown (s : Shape) (n : RouterNet) (i : Nat) (R : List (RoundFecTable RouterHdr))
    (t : RoundFecTable RouterHdr) : RouterNet → Prop where
  | intro (n' : RouterNet) (es : List (PacketInfo RouterHdr)) (xs : List InFlight)
      (later : List (RoundFecTable RouterHdr)) (sent : n'.sent = n.sent ++ xs)
      (records : xs.map InFlight.record = recordsOf t.rid_ s.nGroups es)
      (above : ∀ e ∈ es, i < e.serial_.toNat) (flags : ∀ e ∈ es, e.flag_ = false)
      (rounds : n'.l3.m_fec.rt_ = R ++ t.push es :: later)
      (fresh : ∀ u ∈ later, t.rid_ < u.rid_ ∧ u.pi_ = []) (got : n'.got = n.got)
      (requests : n'.l3.m_fec.lpq_ = n.l3.m_fec.lpq_)
      (mode : n'.l3.m_fec.m_sendRxRequest = n.l3.m_fec.m_sendRxRequest) : Grown s n i R t n'

/-- No round leaves the queue, and only later ones enter it. -/
theorem Grown.rids {n' : RouterNet} (hg : Grown s n i R t n') (h : Good s n D' i R t Q T) :
    (∀ k ∈ n.rids, k ∈ n'.rids) ∧ ∀ k ∈ n'.rids, k ∈ n.rids ∨ t.rid_ < k := by
  obtain ⟨es, xs, later, -, -, -, -, hrounds, hfresh, -, -, -⟩ := hg
  rw [h.rids_eq, RouterNet.rids, hrounds]
  simp only [List.map_append, List.map_cons, List.map_nil, RoundFecTable.rid_push,
    List.mem_append, List.mem_cons, List.not_mem_nil, or_false]
  refine ⟨fun k hk => hk.imp id .inl, ?_⟩
  rintro k (hk | hk | hk)
  · exact .inl (.inl hk)
  · exact .inl (.inr hk)
  · obtain ⟨u, hu, rfl⟩ := List.mem_map.mp hk
    exact .inr (hfresh u hu).1

/-- A call of `SendRealOut` from a good state. -/
theorem Good.sendStep (h : Good s n D' i R t Q T) {c : SendCall} (hc : n.Sendable c)
    {l3 : Ipv4L3ProtocolwithFecEncode} {out : List Sent}
    (hok : n.l3.sendRealOut c = .ok (l3, out)) : SendStep s n.l3 i R t Q T c l3 out := by
  obtain ⟨l', out', hok', hstep⟩ := sendRealOut_step h.filling hc.agrees
  obtain ⟨rfl, rfl⟩ := Prod.mk.inj (Except.ok.inj (hok'.symm.trans hok))
  exact hstep

/-- A call of `SendRealOut` that is in step keeps the state good. -/
theorem Good.send (hs : Fits s) (h : Good s n D' i R t Q T) {c : SendCall} (hc : n.Sendable c)
    {l3 : Ipv4L3ProtocolwithFecEncode} {out : List Sent}
    (hstep : SendStep s n.l3 i R t Q T c l3 out) :
    (∃ i' R' t' Q' T', Good s (n.send c l3 out) D' i' R' t' Q' T') ∧
      Grown s n i R t (n.send c l3 out) := by
  have hrid := h.filling.rid
  cases hstep with
  | idle hidle _ hout =>
    have hnil : transmitted c.hdr out = [] := by
      apply transmitted_untagged
      intro x hx
      rw [hout x hx, hc.untagged]
    have hsame : n.send c n.l3 out = n := by simp [RouterNet.send, hnil]
    rw [hsame]
    exact ⟨⟨i, R, t, Q, T, h⟩, .intro n [] [] [] (by simp) rfl (by simp) (by simp)
      (by simpa using congrArg FecTables.rt_ h.filling.tables) (by simp) rfl rfl rfl⟩
  | data htagged hi l' hl' =>
    subst hl'
    have hsent : transmitted c.hdr [⟨c.packet.addPacketTag (s.dataTag n.l3.m_fec.m_roundId i),
        (n.l3.afterData s i ⟨R ++ [t.push [s.dataEntry i c.hdr]],
          Q ++ [T.push [s.dataEntry i c.hdr]]⟩).m_fec⟩] = [s.dataFlight t.rid_ c i] := by
      rw [transmitted_data, hrid]
      rfl
    have hrec : [s.dataFlight t.rid_ c i].map InFlight.record =
        recordsOf t.rid_ s.nGroups [s.dataEntry i c.hdr] := by
      simp [recordsOf, record_dataFlight]
    have hser := toNat_serial_dataEntry hs h.filling.lt c.hdr
    have hes : Ascending [s.dataEntry i c.hdr] := List.pairwise_singleton _ _
    have habove : ∀ e ∈ [s.dataEntry i c.hdr], i < e.serial_.toNat := by simp [hser]
    have hlive := h.grow hes habove (by simp [Shape.dataEntry]) hrec
    refine ⟨⟨i + 1, R, t.push [s.dataEntry i c.hdr], Q, T.push [s.dataEntry i c.hdr], ?_⟩,
      .intro _ [s.dataEntry i c.hdr] [s.dataFlight t.rid_ c i] [] (by rw [RouterNet.send, hsent])
        hrec habove (by simp [Shape.dataEntry]) rfl (by simp) rfl rfl rfl⟩
    exact
      { filling := h.filling.afterData hi _
        live := by
          rw [log_send, hsent]
          exact hlive
        got_sent := fun x hx => List.mem_append_left _ (h.got_sent x hx)
        below := by
          intro e he
          rw [log_send, hsent, hrec, RoundFecTable.rid_push, entered_recordsOf, if_pos rfl] at he
          rcases List.mem_append.mp he with he | he
          · have := h.below e he
            omega
          · rw [List.mem_singleton.mp he]
            exact Nat.le_of_eq hser
        closed := by
          intro x hx
          simp only [RouterNet.send, hsent, List.mem_append, List.mem_singleton] at hx
          rcases hx with hx | rfl
          · exact h.closed x hx
          · intro htype
            rw [tag_dataFlight] at htype
            cases htype
        numbers := by
          intro x hx
          simp only [RouterNet.send, hsent, List.mem_append, List.mem_singleton] at hx
          rcases hx with hx | rfl
          · exact h.numbers x hx
          · rw [tag_dataFlight]
            exact .inl ⟨i, h.filling.lt, rfl⟩
        order := by
          simp only [RouterNet.send, hsent]
          exact h.order_append hes habove hrec }
  | close htagged hi l' hl' hd fecs hfecs hrec =>
    subst hl'
    have hsent : transmitted c.hdr (⟨c.packet.addPacketTag (s.dataTag n.l3.m_fec.m_roundId i),
        (n.l3.afterData s i ⟨R ++ [t.push [s.dataEntry i c.hdr]],
          Q ++ [T.push [s.dataEntry i c.hdr]]⟩).m_fec⟩ :: fecs) =
        s.dataFlight t.rid_ c i :: (List.range s.groups).map
          (s.fecFlight n.l3.m_fec.m_segmentSize t.rid_ hd c.hdr) := by
      rw [transmitted_data, transmitted_fecs c.hdr hfecs, hrid]
    have hfecrec : ((List.range s.groups).map
        (s.fecFlight n.l3.m_fec.m_segmentSize t.rid_ hd c.hdr)).map InFlight.record =
        recordsOf t.rid_ s.nGroups s.fecEntries := by
      rw [List.map_map, recordsOf, Shape.fecEntries, List.map_map]
      exact List.map_congr_left fun j _ => record_fecFlight _ _ _ _ j
    have htags : ∀ x ∈ (List.range s.groups).map
        (s.fecFlight n.l3.m_fec.m_segmentSize t.rid_ hd c.hdr),
        ∃ j < s.groups, x.tag = s.fecTag t.rid_ j := by
      intro x hx
      obtain ⟨j, hj, rfl⟩ := List.mem_map.mp hx
      exact ⟨j, List.mem_range.mp hj, tag_fecFlight _ _ _ _ j⟩
    generalize (List.range s.groups).map
      (s.fecFlight n.l3.m_fec.m_segmentSize t.rid_ hd c.hdr) = xs at hsent hfecrec htags
    have hrecs : (s.dataFlight t.rid_ c i :: xs).map InFlight.record =
        recordsOf t.rid_ s.nGroups (s.dataEntry i c.hdr :: s.fecEntries) := by
      rw [List.map_cons, hfecrec, record_dataFlight]
      rfl
    have hes := ascending_close hs h.filling.lt c.hdr
    have habove : ∀ e ∈ s.dataEntry i c.hdr :: s.fecEntries, i < e.serial_.toNat := by
      intro e he
      rcases List.mem_cons.mp he with rfl | he
      · rw [toNat_serial_dataEntry hs h.filling.lt]
        exact Nat.lt_succ_self i
      · obtain ⟨j, hj, rfl⟩ := List.mem_map.mp he
        rw [toNat_serial_fecEntry hs (List.mem_range.mp hj)]
        have := h.filling.lt
        omega
    have hflag : ∀ e ∈ s.dataEntry i c.hdr :: s.fecEntries, e.flag_ = false := by
      intro e he
      rcases List.mem_cons.mp he with rfl | he
      · rfl
      · obtain ⟨j, -, rfl⟩ := List.mem_map.mp he
        rfl
    have hlive := h.grow hes habove hflag hrecs
    have hnext : t.rid_ < n.l3.m_fec.m_roundId + 1 := by
      have := hc.rid_ne
      rw [hrid]
      grind
    have hopen := hlive.openRound s.nGroups hnext
    refine ⟨⟨0, R ++ [t.push (s.dataEntry i c.hdr :: s.fecEntries)],
      ⟨n.l3.m_fec.m_roundId + 1, s.nGroups, []⟩,
      Q ++ [T.push (s.dataEntry i c.hdr :: s.fecEntries)],
      ⟨n.l3.m_fec.m_roundId + 1, s.nGroups, fun _ => []⟩, ?_⟩,
      .intro _ _ _ [⟨n.l3.m_fec.m_roundId + 1, s.nGroups, []⟩] (by rw [RouterNet.send, hsent])
        hrecs habove hflag (by simp [RouterNet.send, Ipv4L3ProtocolwithFecEncode.opened])
        (by simpa using hnext) rfl rfl rfl⟩
    exact
      { filling := h.filling.opened _ _ _ _
        live := by
          rw [log_send, hsent]
          exact hopen
        got_sent := fun x hx => List.mem_append_left _ (h.got_sent x hx)
        below := by
          intro e he
          obtain ⟨r, hr, hrid', -⟩ := exists_of_mem_entered he
          rw [log_send, hsent] at hr
          have := hlive.past r hr
          rw [hrid'] at this
          exact absurd hnext (UInt32.not_lt.mpr this)
        closed := by
          intro x hx htype
          simp only [RouterNet.send, hsent, List.mem_append, List.mem_cons] at hx
          rcases hx with hx | rfl | hx
          · exact UInt32.lt_trans (h.closed x hx htype) hnext
          · rw [tag_dataFlight] at htype
            cases htype
          · obtain ⟨j, -, htag⟩ := htags x hx
            rw [htag]
            exact hnext
        numbers := by
          intro x hx
          simp only [RouterNet.send, hsent, List.mem_append, List.mem_cons] at hx
          rcases hx with hx | rfl | hx
          · exact h.numbers x hx
          · rw [tag_dataFlight]
            exact .inl ⟨i, h.filling.lt, rfl⟩
          · obtain ⟨j, hj, htag⟩ := htags x hx
            rw [htag]
            exact .inr ⟨j, hj, rfl⟩
        order := by
          simp only [RouterNet.send, hsent]
          exact h.order_append hes habove hrecs }

/-! ### What is known of a packet sent -/

/-- Every packet is a data or an FEC packet. -/
theorem Good.types (h : Good s n D' i R t Q T) {x : InFlight} (hx : x ∈ n.sent) :
    x.tag.m_type = 1 ∨ x.tag.m_type = 2 := by
  rcases h.numbers x hx with ⟨j, -, htag⟩ | ⟨j, -, htag⟩
  · rw [htag]
    exact .inl rfl
  · rw [htag]
    exact .inr rfl

/-- Every tag carries the group count. -/
theorem Good.groups (h : Good s n D' i R t Q T) {x : InFlight} (hx : x ∈ n.sent) :
    x.tag.m_nGroups = s.nGroups := by
  rcases h.numbers x hx with ⟨j, -, htag⟩ | ⟨j, -, htag⟩ <;> rw [htag] <;> rfl

/-- Data packets have the serials of the window. -/
theorem Good.data_serial (hs : Fits s) (h : Good s n D' i R t Q T) {x : InFlight}
    (hx : x ∈ n.sent) (htype : x.tag.m_type = 1) : x.tag.m_serial.toNat ≤ s.window := by
  rcases h.numbers x hx with ⟨j, hj, htag⟩ | ⟨j, hj, htag⟩
  · rw [htag]
    exact (toNat_serial_dataEntry hs hj {}).trans_le hj
  · rw [htag] at htype
    cases htype

/-- The FEC packets have the serials after the window, in group order. -/
theorem Good.fec_serial (hs : Fits s) (h : Good s n D' i R t Q T) {x : InFlight}
    (hx : x ∈ n.sent) (htype : x.tag.m_type = 2) :
    x.tag.m_groupId.toNat < s.groups ∧
      x.tag.m_serial.toNat = s.window + x.tag.m_groupId.toNat + 1 := by
  rcases h.numbers x hx with ⟨j, hj, htag⟩ | ⟨j, hj, htag⟩
  · rw [htag] at htype
    cases htype
  · have hgid : (s.fecTag x.tag.m_roundId j).m_groupId.toNat = j := by
      rw [Shape.fecTag, UInt8.toNat_ofNat']
      exact Nat.mod_eq_of_lt (hj.trans s.groups_lt)
    rw [htag, hgid]
    exact ⟨hj, toNat_serial_fecEntry hs hj⟩

/-! ### Deliveries -/

theorem delivered_deliver (n : RouterNet) (x : InFlight) (fec : FecRouterAgent) :
    (n.deliver x fec).delivered = n.delivered.add x.tag := by
  funext rid serial
  simp [delivered, deliver, Deliveries.add]

/-- The loss bound of a packet sent is the round's window. -/
theorem Good.bound (h : Good s n D' i R t Q T) {x : InFlight} (hx : x ∈ n.sent) :
    n.l3.m_fec.m_fwin * x.tag.m_nGroups.toUInt32 = s.fwin * s.nGroups.toUInt32 := by
  rw [h.filling.fec_fwin, h.groups hx]

/-- Table calls that return are a pass with one of the outcomes. -/
theorem Good.decoded (h : Good s n D' i R t Q T) {x : InFlight} (hx : x ∈ n.sent)
    {d : Decoded RouterHdr}
    (hd : decode x.tag (n.l3.m_fec.m_fwin * x.tag.m_nGroups.toUInt32)
      (n.l3.m_fec.m_sendRxRequest = .ON) n.l3.m_fec.toFecTables = .ok d) :
    ∃ D'', Outcome n.log n.delivered D' x.tag (s.fwin * s.nGroups.toUInt32)
      (n.l3.m_fec.m_sendRxRequest = .ON) ⟨R ++ [t], Q ++ [T]⟩ d D'' := by
  rw [h.bound hx, h.filling.tables] at hd
  exact h.live.toTracks.outcome h.live.logged (List.mem_map_of_mem hx) x.taggedBy hd

/-- A call of `Recv` that returns is a pass with one of the outcomes. -/
theorem Good.outcome (h : Good s n D' i R t Q T) {x : InFlight} (hx : x ∈ n.sent)
    {ipHeader : Ipv4Header} {r : FecRouterAgent.Received}
    (hok : n.l3.m_fec.recv x.packet ipHeader = .ok r) :
    ∃ d D'', Outcome n.log n.delivered D' x.tag (s.fwin * s.nGroups.toUInt32)
        (n.l3.m_fec.m_sendRxRequest = .ON) ⟨R ++ [t], Q ++ [T]⟩ d D'' ∧
      r = n.l3.m_fec.settle x.packet ipHeader x.tag d := by
  obtain ⟨d, hd, hr⟩ := (FecRouterAgent.recv_ok_iff _ _ _ _).mp hok
  obtain ⟨D'', ho⟩ := h.decoded hx hd
  exact ⟨d, D'', ho, hr⟩

/-- A delivery that leaves the settings alone and the tables as the table calls left them
keeps the state good, and adds no round to the queue. -/
theorem Good.deliver (h : Good s n D' i R t Q T) {x : InFlight} (hx : x ∈ n.sent)
    {d : Decoded RouterHdr} {D'' : Deliveries}
    (ho : Outcome n.log n.delivered D' x.tag (s.fwin * s.nGroups.toUInt32)
        (n.l3.m_fec.m_sendRxRequest = .ON) ⟨R ++ [t], Q ++ [T]⟩ d D'')
    {fec : FecRouterAgent} (hset : FecRouterAgent.SameSettings fec n.l3.m_fec)
    (hsettled : fec.toFecTables = d.tables) :
    (∃ R' t' Q' T', Good s (n.deliver x fec) D'' i R' t' Q' T') ∧
      ∀ k ∈ (n.deliver x fec).rids, k ∈ n.rids := by
  obtain ⟨R', t', Q', T', htables, hrid, hn, hlive⟩ :=
    h.live.pass (List.mem_map_of_mem hx) x.taggedBy (h.closed x hx) ho
  have hl := h.filling
  refine ⟨⟨R', t', Q', T', ?_⟩, ?_⟩
  case refine_2 =>
    intro k hk
    rw [h.rids_eq]
    rw [rids, RouterNet.deliver, hsettled] at hk
    exact ho.rids_suffix.subset hk
  exact
    { filling :=
        { fwin := hl.fwin
          nGroups := hl.nGroups
          fec_fwin := hset.fwin.trans hl.fec_fwin
          fec_nGroups := hset.nGroups.trans hl.fec_nGroups
          init := hl.init
          fc := hl.fc
          lt := hl.lt
          ic := hl.ic
          serial := hset.serial.trans hl.serial
          gid := hset.groupId.trans hl.gid
          tables := hsettled.trans htables
          rid := hrid.trans (hl.rid.trans hset.roundId.symm)
          group_rid := hlive.group_rid.trans (hrid.trans (hl.rid.trans hset.roundId.symm))
          table_nGroups := hn.trans hl.table_nGroups }
      live := by
        rw [delivered_deliver]
        exact hlive
      got_sent := by
        intro y hy
        rcases List.mem_append.mp hy with hy | hy
        · exact h.got_sent y hy
        · rw [List.mem_singleton.mp hy]
          exact hx
      below := by
        rw [hrid]
        exact h.below
      closed := by
        rw [hrid]
        exact h.closed
      numbers := h.numbers
      order := h.order }

/-- A delivery whose outcome is known keeps the state good, and adds no round to the queue. -/
theorem Good.receive (h : Good s n D' i R t Q T) {x : InFlight} (hx : x ∈ n.sent)
    (ipHeader : Ipv4Header) {d : Decoded RouterHdr} {D'' : Deliveries}
    (ho : Outcome n.log n.delivered D' x.tag (s.fwin * s.nGroups.toUInt32)
        (n.l3.m_fec.m_sendRxRequest = .ON) ⟨R ++ [t], Q ++ [T]⟩ d D'') :
    (∃ R' t' Q' T',
      Good s (n.receive x (n.l3.m_fec.settle x.packet ipHeader x.tag d)) D'' i R' t' Q' T') ∧
      ∀ k ∈ (n.receive x (n.l3.m_fec.settle x.packet ipHeader x.tag d)).rids, k ∈ n.rids := by
  obtain ⟨hset, hsettled, -⟩ := n.l3.m_fec.settle_agent x.packet ipHeader x.tag d
  exact h.deliver hx ho hset hsettled

/-! ### Reached nets -/

/-- The first round as the first packet opens it. -/
theorem Good.first {fec : FecRouterAgent} (hfec : Fresh s fec) :
    Good s { l3 := (Ipv4L3ProtocolwithFecEncode.setFec fec).start } noDeliveries 0 []
      ⟨1, s.nGroups, []⟩ [] ⟨1, s.nGroups, fun _ => []⟩ :=
  { filling := Fresh.start (l := .setFec fec) hfec hfec.fwin hfec.nGroups rfl
    live := Live.first 1 s.nGroups
    got_sent := by simp
    below := by simp [entered, log]
    closed := by simp
    numbers := by simp
    order := List.Pairwise.nil }

/-- The first call of `SendRealOut` does nothing, or grows the net the first packet opens. -/
theorem first_send {fec : FecRouterAgent} (hs : Fits s) (hfec : Fresh s fec) {c : SendCall}
    (hc : Sendable { l3 := .setFec fec } c) {l3 : Ipv4L3ProtocolwithFecEncode} {out : List Sent}
    (hok : (Ipv4L3ProtocolwithFecEncode.setFec fec).sendRealOut c = .ok (l3, out)) :
    RouterNet.send { l3 := .setFec fec } c l3 out = { l3 := .setFec fec } ∨
      (∃ i R t Q T, Good s (RouterNet.send { l3 := .setFec fec } c l3 out) noDeliveries i R t Q T) ∧
        Grown s { l3 := (Ipv4L3ProtocolwithFecEncode.setFec fec).start } 0 [] ⟨1, s.nGroups, []⟩
          (RouterNet.send { l3 := .setFec fec } c l3 out) := by
  by_cases hf : c.Forwards
  · right
    rw [sendRealOut_start hf] at hok
    have hsame : (Ipv4L3ProtocolwithFecEncode.setFec fec).start.m_segmentSize =
          (Ipv4L3ProtocolwithFecEncode.setFec fec).m_segmentSize ∧
        (Ipv4L3ProtocolwithFecEncode.setFec fec).start.m_fec.m_roundId =
          (Ipv4L3ProtocolwithFecEncode.setFec fec).m_fec.m_roundId := by
      rw [Ipv4L3ProtocolwithFecEncode.start]
      split <;> exact ⟨rfl, rfl⟩
    have hc' : Sendable { l3 := (Ipv4L3ProtocolwithFecEncode.setFec fec).start } c :=
      ⟨hc.untagged, by rw [hsame.1]; exact hc.agrees, by rw [hsame.2]; exact hc.rid_ne⟩
    have hg := Good.first hfec
    exact hg.send hs hc' (hg.sendStep hc' hok)
  · left
    have hidle := sendRealOut_of_not_forwards hf (Ipv4L3ProtocolwithFecEncode.setFec fec)
    obtain ⟨rfl, rfl⟩ := Prod.mk.inj (Except.ok.inj (hidle.symm.trans hok))
    simp [RouterNet.send, transmitted]

/-- A property of a net and of what its group tables saw that every step from a good state
keeps. -/
structure Kept (s : Shape) (fec : FecRouterAgent) (arrivals : RouterNet → InFlight → Prop)
    (P : RouterNet → Deliveries → Prop) : Prop where
  first : P { l3 := (Ipv4L3ProtocolwithFecEncode.setFec fec).start } noDeliveries
  send : ∀ {n : RouterNet} {D' : Deliveries} {i : Nat} {R : List (RoundFecTable RouterHdr)}
    {t : RoundFecTable RouterHdr} {Q : List (GroupFecTable RouterHdr)}
    {T : GroupFecTable RouterHdr}, Good s n D' i R t Q T → P n D' →
    ∀ n', Grown s n i R t n' → P n' D'
  receive : ∀ {n : RouterNet} {D' : Deliveries} {i : Nat} {R : List (RoundFecTable RouterHdr)}
    {t : RoundFecTable RouterHdr} {Q : List (GroupFecTable RouterHdr)}
    {T : GroupFecTable RouterHdr}, Good s n D' i R t Q T → P n D' →
    ∀ x ∈ n.sent, x ∉ n.got → arrivals n x → ∀ (ipHeader : Ipv4Header) (d : Decoded RouterHdr)
      (D'' : Deliveries), Outcome n.log n.delivered D' x.tag (s.fwin * s.nGroups.toUInt32)
        (n.l3.m_fec.m_sendRxRequest = .ON) ⟨R ++ [t], Q ++ [T]⟩ d D'' →
      (∀ k ∈ (n.receive x (n.l3.m_fec.settle x.packet ipHeader x.tag d)).rids, k ∈ n.rids) →
      P (n.receive x (n.l3.m_fec.settle x.packet ipHeader x.tag d)) D''

/-- In every net reached nothing was sent yet, or the state is good and has every property
that steps keep. -/
theorem Reached.good {arrivals : RouterNet → InFlight → Prop}
    {P : RouterNet → Deliveries → Prop} {fec : FecRouterAgent} (hs : Fits s) (hfec : Fresh s fec)
    (hP : Kept s fec arrivals P) {n : RouterNet} (h : Reached Sendable arrivals fec n) :
    n = { l3 := .setFec fec } ∨ ∃ D' i R t Q T, Good s n D' i R t Q T ∧ P n D' := by
  induction h with
  | start => exact .inl rfl
  | step h hstep ih =>
    cases hstep with
    | send c hc l3 out hok =>
      rcases ih with rfl | ⟨D', i, R, t, Q, T, hg, hp⟩
      · rcases first_send hs hfec hc hok with hsame | ⟨⟨i, R, t, Q, T, hg'⟩, hgrown⟩
        · exact .inl hsame
        · exact .inr ⟨_, i, R, t, Q, T, hg', hP.send (Good.first hfec) hP.first _ hgrown⟩
      · have hsend := hg.sendStep hc hok
        obtain ⟨⟨i', R', t', Q', T', hg'⟩, hgrown⟩ := hg.send hs hc hsend
        exact .inr ⟨D', i', R', t', Q', T', hg', hP.send hg hp _ hgrown⟩
    | receive x hsent hgot hx ipHeader r hok =>
      rcases ih with rfl | ⟨D', i, R, t, Q, T, hg, hp⟩
      · cases hsent
      · obtain ⟨d, D'', ho, rfl⟩ := hg.outcome hsent hok
        obtain ⟨⟨R', t', Q', T', hg'⟩, hrids⟩ := hg.receive hsent ipHeader ho
        exact .inr ⟨D'', i, R', t', Q', T', hg',
          hP.receive hg hp x hsent hgot hx ipHeader d D'' ho hrids⟩

end RouterNet

end Ns3.Fec
