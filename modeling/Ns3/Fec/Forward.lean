import Ns3.Fec.Requests

/-!
# The decoding router

`Ipv4L3ProtocolwithFecDecode::IpForward` passes every packet above the segment size to
`FecRouterAgent::Recv` and forwards it, leaves it in the transit queue, or hands out the whole
queue before it. `Moved` lists what a call does to a packet and to the queue, and from it
follows that no packet is lost or duplicated, whatever the tables hold.
Source: `contrib/fec/model/ipv4-l3-protocol-with-fec-decode.cc:1055–1201`.
-/

namespace Ns3.Fec

/-- `Packet::PeekHeader` for an IPv4 header. -/
def Packet.peekIpv4Header (p : Packet) : Ipv4Header :=
  match p.headers with
  | .ipv4 h :: _ => h
  | _ => {}

/-- A packet with the IPv4 header it came with. -/
structure Carried where
  packet : Packet
  header : Ipv4Header
  deriving DecidableEq

namespace Carried

/-- The packet's tag. -/
def tag (c : Carried) : FecTag := c.packet.peekPacketTag {}

/-- The packet as `SendRealOut` gets it. -/
def hop (c : Carried) : Carried := { c with header.m_ttl := c.header.m_ttl - 1 }

end Carried

/-- Which function hands a packet on. -/
inductive Via where
  | IpForward
  | Free
  | SendRxRequest
  deriving DecidableEq

/-- A packet at the end of `IpForward` or at the call of `Transmit`. -/
structure Departure where
  via : Via
  carried : Carried
  deriving DecidableEq

/-- `Transmit`, and the end of `IpForward`: the packet `SendRealOut` is called with, or none
when the time to live has run out and the packet is dropped. -/
def Departure.transmit (d : Departure) : Option Carried :=
  let c := d.carried.hop
  if c.header.m_ttl = 0 then none else some c

/-- A packet of the transit queue, its IPv4 header taken off. -/
def TransitQueue.carried (tq : TransitQueue) : Carried :=
  ⟨tq.p_.removeIpv4Header, tq.p_.peekIpv4Header⟩

/-- The FEC state of `Ipv4L3ProtocolwithFecDecode`
(`ipv4-l3-protocol-with-fec-decode.h:644–647`). -/
structure Ipv4L3ProtocolwithFecDecode where
  m_fec : FecRouterAgent
  rid_ : UInt32 := 1

namespace FecRouterAgent

/-- `while (m_fec->TransitQueueSize () > 0) Free ();`: each `Free` hands on the front. -/
def freeAll (a : FecRouterAgent) : FecRouterAgent × List Departure :=
  ({ a with tq_ := [] }, a.tq_.map fun tq => ⟨.Free, tq.carried⟩)

/-- `while (m_fec->LostPacketQueueSize () > 0) SendRxRequest ();`. -/
def sendRxRequests (a : FecRouterAgent) : FecRouterAgent × List Departure :=
  ({ a with lpq_ := [] },
    a.lpq_.map fun p => ⟨.SendRxRequest, p.removeIpv4Header, p.peekIpv4Header⟩)

end FecRouterAgent

/-- What a call of `IpForward` leaves: the protocol, the packets handed on, and the entry
`CreateRecoveryPacket` was called for. -/
structure Forwarded where
  l3 : Ipv4L3ProtocolwithFecDecode
  out : List Departure
  recovered : Option (PacketInfo RouterHdr)

namespace Ipv4L3ProtocolwithFecDecode

/-- `if (rid_ < rid)`: the packets kept of an older round go first. -/
def changeRound (l : Ipv4L3ProtocolwithFecDecode) (rid : UInt32) :
    Ipv4L3ProtocolwithFecDecode × List Departure :=
  if l.rid_ < rid then (⟨l.m_fec.freeAll.1, rid⟩, l.m_fec.freeAll.2) else (l, [])

/-- `IpForward`, `ipv4-l3-protocol-with-fec-decode.cc:1083–1129`, once `Recv` has returned. -/
def afterRecv (l : Ipv4L3ProtocolwithFecDecode) (changed : List Departure) (c : Carried)
    (r : FecRouterAgent.Received) : Forwarded :=
  let (fec, requested) := r.agent.sendRxRequests
  if r.code = 1 then ⟨{ l with m_fec := fec }, changed ++ requested, r.recovered⟩
  else
    let (fec, freed) := if r.code = 2 then fec.freeAll else (fec, [])
    let direct := if c.tag.m_type = 2 then [] else [⟨.IpForward, c⟩]
    ⟨{ l with m_fec := fec }, changed ++ requested ++ freed ++ direct, r.recovered⟩

/-- `IpForward`, `ipv4-l3-protocol-with-fec-decode.cc:1055–1129`. Routes exist, and priority
tags and the ICMP error of a dropped packet are left out. -/
def ipForward (l : Ipv4L3ProtocolwithFecDecode) (p : Packet) (header : Ipv4Header) :
    Except Fault Forwarded :=
  let c : Carried := ⟨p, header⟩
  if p.getSize > l.m_fec.m_segmentSize.toNat ∧ l.m_fec.m_fwin > 0 then do
    let (l, changed) := l.changeRound c.tag.m_roundId
    let r ← l.m_fec.recv p header
    return l.afterRecv changed c r
  else .ok ⟨l, [⟨.IpForward, c⟩], none⟩

end Ipv4L3ProtocolwithFecDecode

@[simp] theorem tq_freeAll (a : FecRouterAgent) : a.freeAll.1.tq_ = [] := rfl

@[simp] theorem tq_sendRxRequests (a : FecRouterAgent) : a.sendRxRequests.1.tq_ = a.tq_ := rfl

/-! ### The transit queue after `Recv` -/

/-- The packet `CreateRecoveryPacket` makes of an FEC packet for the entry `e`. -/
def Carried.recovery (c : Carried) (e : PacketInfo RouterHdr) : Carried :=
  ⟨(c.packet.removePacketTag.removeTcpHeader.removeIpv4Header.addPacketTag
    (FecRouterAgent.recoveryTag c.tag e.serial_)).addHeader (.tcp e.hdr_.tcp_), e.hdr_.ip_⟩

@[simp] theorem Carried.tag_recovery (c : Carried) (e : PacketInfo RouterHdr) :
    (c.recovery e).tag = FecRouterAgent.recoveryTag c.tag e.serial_ := by
  simp [Carried.recovery, Carried.tag, Packet.peekPacketTag]

/-- The transit queue with a packet put in. -/
def enqueue (serial : UInt32) (c : Carried) (tq : List TransitQueue) : List TransitQueue :=
  insertTransitQueue ⟨serial, c.packet.addHeader (.ipv4 c.header)⟩ tq

/-- The transit queue with the recovered packet, if there is one. -/
def withRecovered (c : Carried) (e : Option (PacketInfo RouterHdr)) (tq : List TransitQueue) :
    List TransitQueue :=
  match e with
  | some e => enqueue e.serial_ (c.recovery e) tq
  | none => tq

/-- What is put in comes out again. -/
@[simp] theorem carried_addHeader (serial : UInt32) (c : Carried) :
    TransitQueue.carried ⟨serial, c.packet.addHeader (.ipv4 c.header)⟩ = c := rfl

/-- One more packet is in the queue. -/
theorem map_carried_enqueue (serial : UInt32) (c : Carried) (tq : List TransitQueue) :
    ((enqueue serial c tq).map TransitQueue.carried).Perm
      (tq.map TransitQueue.carried ++ [c]) := by
  have h := (insertTransitQueue_perm ⟨serial, c.packet.addHeader (.ipv4 c.header)⟩ tq).map
    TransitQueue.carried
  exact h.trans (List.perm_append_singleton c _).symm

/-- The recovered packet is in the queue. -/
theorem map_carried_withRecovered (c : Carried) (e : Option (PacketInfo RouterHdr))
    (tq : List TransitQueue) :
    ((withRecovered c e tq).map TransitQueue.carried).Perm
      (tq.map TransitQueue.carried ++ (e.map c.recovery).toList) := by
  cases e with
  | none => simp [withRecovered]
  | some e => exact map_carried_enqueue e.serial_ (c.recovery e) tq

/-- Everything a call of `IpForward` does with its packet `c` and the queue `tq` that `Recv`
leaves but for the packet itself: what it hands on and what it keeps. -/
inductive Moved (mode : StoreMode) (nGroups : UInt8) (c : Carried) (d : Decoded RouterHdr)
    (tq : List TransitQueue) : List Carried → List TransitQueue → Prop where
  /-- A data packet behind a loss is stored. -/
  | stored (htype : c.tag.m_type = 1) (hmode : mode = .USE) (hsum : 0 < d.sumlost)
      (g : GroupOutcome RouterHdr) (hg : d.group = some g)
      (hn : ¬ c.tag.m_nGroups.toUInt32 < g.nlost) :
      Moved mode nGroups c d tq [] (enqueue c.tag.m_serial c tq)
  /-- A packet that is no FEC packet is handed on alone. -/
  | passed (htype : c.tag.m_type ≠ 2)
      (hcalm : c.tag.m_type = 1 → mode = .USE →
        d.sumlost = 0 ∧ ∃ g, d.group = some g ∧ ¬ c.tag.m_nGroups.toUInt32 < g.nlost) :
      Moved mode nGroups c d tq [c] tq
  /-- Too many losses: the queue is handed on before the packet. -/
  | flushed (htype : c.tag.m_type ≠ 2)
      (hlost : d.group = none ∨ ∃ g, d.group = some g ∧ c.tag.m_nGroups.toUInt32 < g.nlost) :
      Moved mode nGroups c d tq (tq.map TransitQueue.carried ++ [c]) []
  /-- An FEC packet that leaves the queue alone. -/
  | absorbed (htype : c.tag.m_type = 2) : Moved mode nGroups c d tq [] tq
  /-- An FEC packet for which the queue is handed on. -/
  | cleared (htype : c.tag.m_type = 2)
      (hlost : d.group = none ∨ (∃ g, d.group = some g ∧ c.tag.m_nGroups.toUInt32 < g.nlost) ∨
        c.tag.m_groupId.toNat + 1 = nGroups.toNat) :
      Moved mode nGroups c d tq (tq.map TransitQueue.carried) []

namespace Moved

variable {mode : StoreMode} {nGroups : UInt8} {c : Carried} {d : Decoded RouterHdr}
  {tq tq' : List TransitQueue} {left : List Carried}

/-- The queue and the packet are handed on or kept, each once. -/
theorem perm (h : Moved mode nGroups c d tq left tq') :
    (left ++ tq'.map TransitQueue.carried).Perm
      (tq.map TransitQueue.carried ++ if c.tag.m_type = 2 then [] else [c]) := by
  cases h with
  | stored htype hmode hsum g hg hn =>
    have h2 : ¬ c.tag.m_type = 2 := by
      rw [htype]
      decide
    rw [if_neg h2, List.nil_append]
    exact map_carried_enqueue c.tag.m_serial c tq
  | passed htype hcalm =>
    rw [if_neg htype]
    exact List.perm_append_comm
  | flushed htype hlost =>
    rw [if_neg htype, List.map_nil, List.append_nil]
  | absorbed htype =>
    rw [if_pos htype, List.nil_append, List.append_nil]
  | cleared htype hlost =>
    rw [if_pos htype, List.map_nil]

/-- What is kept was in the queue or is the packet stored. -/
theorem mem_kept (h : Moved mode nGroups c d tq left tq') {q : TransitQueue} (hq : q ∈ tq') :
    q ∈ tq ∨ q = ⟨c.tag.m_serial, c.packet.addHeader (.ipv4 c.header)⟩ := by
  cases h with
  | stored htype hmode hsum g hg hn => exact (mem_insertTransitQueue.mp hq).symm
  | passed htype hcalm => exact .inl hq
  | flushed htype hlost => cases hq
  | absorbed htype => exact .inl hq
  | cleared htype hlost => cases hq

end Moved

/-- The recovered packet is the only one put in. -/
theorem mem_withRecovered {c : Carried} {e : Option (PacketInfo RouterHdr)} {tq : List TransitQueue}
    {q : TransitQueue} (hq : q ∈ withRecovered c e tq) :
    q ∈ tq ∨ ∃ e', e = some e' ∧ q.serial_ = e'.serial_ ∧ q.carried = c.recovery e' := by
  cases e with
  | none => exact .inl hq
  | some e =>
    rcases mem_insertTransitQueue.mp hq with rfl | hq
    · exact .inr ⟨e, rfl, rfl, rfl⟩
    · exact .inl hq

/-- The packets handed on that were received or recovered. -/
def ownDepartures (out : List Departure) : List Carried :=
  (out.filter fun d => d.via ≠ .SendRxRequest).map Departure.carried

@[simp] theorem ownDepartures_append (out out' : List Departure) :
    ownDepartures (out ++ out') = ownDepartures out ++ ownDepartures out' := by
  simp [ownDepartures]

@[simp] theorem ownDepartures_freeAll (a : FecRouterAgent) :
    ownDepartures a.freeAll.2 = a.tq_.map TransitQueue.carried := by
  simp [ownDepartures, FecRouterAgent.freeAll, List.filter_map, Function.comp_def]

@[simp] theorem ownDepartures_sendRxRequests (a : FecRouterAgent) :
    ownDepartures a.sendRxRequests.2 = [] := by
  simp [ownDepartures, FecRouterAgent.sendRxRequests, List.filter_map, Function.comp_def]

/-- How `Recv` leaves the queue and its code. -/
private inductive Settled (mode : StoreMode) (nGroups : UInt8) (c : Carried) (d : Decoded RouterHdr)
    (tq : List TransitQueue) : UInt32 → List TransitQueue → Prop where
  | stored (htype : c.tag.m_type = 1) (hmode : mode = .USE) (hsum : 0 < d.sumlost)
      (g : GroupOutcome RouterHdr) (hg : d.group = some g)
      (hn : ¬ c.tag.m_nGroups.toUInt32 < g.nlost) :
      Settled mode nGroups c d tq 1 (enqueue c.tag.m_serial c tq)
  | waits (htype : c.tag.m_type = 2) : Settled mode nGroups c d tq 1 tq
  | lost (hlost : d.group = none ∨ (∃ g, d.group = some g ∧ c.tag.m_nGroups.toUInt32 < g.nlost) ∨
      c.tag.m_type = 2 ∧ c.tag.m_groupId.toNat + 1 = nGroups.toNat) : Settled mode nGroups c d tq 2 tq
  | calm (hcalm : c.tag.m_type = 1 → mode = .USE →
      d.sumlost = 0 ∧ ∃ g, d.group = some g ∧ ¬ c.tag.m_nGroups.toUInt32 < g.nlost) :
      Settled mode nGroups c d tq 0 tq

private theorem settle_settled (a : FecRouterAgent) (c : Carried) (d : Decoded RouterHdr) :
    Settled a.m_storeMode a.m_nGroups c d
      (withRecovered c (d.group.bind GroupOutcome.recovered) a.tq_)
      (a.settle c.packet c.header c.tag d).code (a.settle c.packet c.header c.tag d).agent.tq_ := by
  cases hg : d.group with
  | none =>
    simp only [FecRouterAgent.settle, hg]
    exact .lost (.inl hg)
  | some g =>
    obtain ⟨nlost, flag, recovered⟩ := g
    have hzero : c.tag.m_type = 1 → a.m_storeMode = .USE →
        ¬ (d.sumlost > 0 ∧ c.tag.m_type = 1 ∧ a.m_storeMode = .USE) → d.sumlost = 0 := by
      grind
    cases recovered with
    | none =>
      simp only [FecRouterAgent.settle, hg, Option.bind_some, withRecovered]
      split_ifs with hn hstore hwait hlast
      · exact .lost (.inr (.inl ⟨_, hg, hn⟩))
      · exact .stored hstore.2.1 hstore.2.2 hstore.1 _ hg hn
      · exact .waits hwait.2.2.1
      · exact .lost (.inr (.inr hlast))
      · exact .calm fun htype hmode => ⟨hzero htype hmode hstore, _, hg, hn⟩
    | some e =>
      simp only [FecRouterAgent.settle, hg, Option.bind_some, withRecovered]
      split_ifs with hn hstore hwait hlast
      · exact .lost (.inr (.inl ⟨_, hg, hn⟩))
      · exact .stored hstore.2.1 hstore.2.2 hstore.1 _ hg hn
      · exact .waits hwait.2.2.1
      · exact .lost (.inr (.inr hlast))
      · exact .calm fun htype hmode => ⟨hzero htype hmode hstore, _, hg, hn⟩

@[simp] theorem ownDepartures_direct (c : Carried) : ownDepartures [⟨.IpForward, c⟩] = [c] := rfl

namespace Ipv4L3ProtocolwithFecDecode

/-- The part of the queue a packet of round `rid` finds. -/
def kept (l : Ipv4L3ProtocolwithFecDecode) (rid : UInt32) : List TransitQueue :=
  if l.rid_ < rid then [] else l.m_fec.tq_

/-- The part of the queue that goes because a packet of round `rid` came. -/
def released (l : Ipv4L3ProtocolwithFecDecode) (rid : UInt32) : List Carried :=
  if l.rid_ < rid then l.m_fec.tq_.map TransitQueue.carried else []

/-- Nothing of the queue is lost when the round changes. -/
theorem released_append_kept (l : Ipv4L3ProtocolwithFecDecode) (rid : UInt32) :
    l.released rid ++ (l.kept rid).map TransitQueue.carried =
      l.m_fec.tq_.map TransitQueue.carried := by
  unfold released kept
  split <;> simp

/-- A call of `IpForward` for the packet `c`: `d` is what the table calls left, and `left`
what is handed on besides the older round. -/
structure Passage (l : Ipv4L3ProtocolwithFecDecode) (c : Carried) (r : Forwarded)
    (d : Decoded RouterHdr) (left : List Carried) : Prop where
  decoded : decode c.tag (l.m_fec.m_fwin * c.tag.m_nGroups.toUInt32)
    (l.m_fec.m_sendRxRequest = .ON) l.m_fec.toFecTables = .ok d
  moved : Moved l.m_fec.m_storeMode l.m_fec.m_nGroups c d
    (withRecovered c (d.group.bind GroupOutcome.recovered) (l.kept c.tag.m_roundId)) left
    r.l3.m_fec.tq_
  out : ownDepartures r.out = l.released c.tag.m_roundId ++ left
  settings : FecRouterAgent.SameSettings r.l3.m_fec l.m_fec
  tables : r.l3.m_fec.toFecTables = d.tables
  rid : r.l3.rid_ = if l.rid_ < c.tag.m_roundId then c.tag.m_roundId else l.rid_
  recovered : r.recovered = d.group.bind GroupOutcome.recovered

/-- Changing the round touches the queue and `rid_` only. -/
private theorem changeRound_agent (l : Ipv4L3ProtocolwithFecDecode) (rid : UInt32) :
    FecRouterAgent.SameSettings (l.changeRound rid).1.m_fec l.m_fec ∧
      (l.changeRound rid).1.m_fec.toFecTables = l.m_fec.toFecTables := by
  unfold changeRound
  split <;> exact ⟨⟨rfl, rfl, rfl, rfl, rfl, rfl, rfl, rfl⟩, rfl⟩

private theorem changeRound_queue (l : Ipv4L3ProtocolwithFecDecode) (rid : UInt32) :
    (l.changeRound rid).1.m_fec.tq_ = l.kept rid ∧
      (l.changeRound rid).1.rid_ = (if l.rid_ < rid then rid else l.rid_) ∧
      ownDepartures (l.changeRound rid).2 = l.released rid := by
  unfold changeRound kept released
  split
  · exact ⟨rfl, rfl, ownDepartures_freeAll _⟩
  · exact ⟨rfl, rfl, rfl⟩

/-- What follows `Recv` touches the queues only. -/
private theorem afterRecv_agent (l : Ipv4L3ProtocolwithFecDecode) (changed : List Departure)
    (c : Carried) (r : FecRouterAgent.Received) :
    FecRouterAgent.SameSettings (l.afterRecv changed c r).l3.m_fec r.agent ∧
      (l.afterRecv changed c r).l3.m_fec.toFecTables = r.agent.toFecTables ∧
      (l.afterRecv changed c r).l3.rid_ = l.rid_ ∧
      (l.afterRecv changed c r).recovered = r.recovered := by
  unfold afterRecv
  dsimp only
  split_ifs <;> exact ⟨⟨rfl, rfl, rfl, rfl, rfl, rfl, rfl, rfl⟩, rfl, rfl, rfl⟩

/-- What is handed on and what is kept once `Recv` has returned. -/
private theorem afterRecv_queue (l : Ipv4L3ProtocolwithFecDecode) (changed : List Departure)
    (c : Carried) (r : FecRouterAgent.Received) :
    (l.afterRecv changed c r).l3.m_fec.tq_ = (if r.code = 2 then [] else r.agent.tq_) ∧
      ownDepartures (l.afterRecv changed c r).out = ownDepartures changed ++
        ((if r.code = 2 then r.agent.tq_.map TransitQueue.carried else []) ++
          if r.code = 1 ∨ c.tag.m_type = 2 then [] else [c]) := by
  unfold afterRecv
  by_cases h1 : r.code = 1
  · have h2 : ¬ r.code = 2 := by
      rw [h1]
      decide
    simp [h1]
  · by_cases h2 : r.code = 2
    · by_cases htype : c.tag.m_type = 2 <;> simp [h2, htype]
    · by_cases htype : c.tag.m_type = 2 <;> simp [h1, h2, htype]

/-- What `IpForward` does once `Recv` has returned. -/
private theorem afterRecv_moved (l : Ipv4L3ProtocolwithFecDecode) (changed : List Departure)
    (c : Carried) (d : Decoded RouterHdr) :
    ∃ left, Moved l.m_fec.m_storeMode l.m_fec.m_nGroups c d
        (withRecovered c (d.group.bind GroupOutcome.recovered) l.m_fec.tq_) left
        (l.afterRecv changed c (l.m_fec.settle c.packet c.header c.tag d)).l3.m_fec.tq_ ∧
      ownDepartures (l.afterRecv changed c (l.m_fec.settle c.packet c.header c.tag d)).out =
        ownDepartures changed ++ left := by
  have hsettled := settle_settled l.m_fec c d
  obtain ⟨hqueue, hout⟩ :=
    l.afterRecv_queue changed c (l.m_fec.settle c.packet c.header c.tag d)
  rw [hqueue, hout]
  refine ⟨_, ?_, rfl⟩
  generalize (l.m_fec.settle c.packet c.header c.tag d).agent.tq_ = tq' at hsettled ⊢
  generalize (l.m_fec.settle c.packet c.header c.tag d).code = code at hsettled ⊢
  cases hsettled with
  | stored htype hmode hsum g hg hn => exact .stored htype hmode hsum g hg hn
  | waits htype => exact .absorbed htype
  | lost hlost =>
    by_cases htype : c.tag.m_type = 2
    · simpa [htype] using Moved.cleared htype (hlost.imp id fun h => h.imp id And.right)
    · have hwhy : d.group = none ∨ ∃ g, d.group = some g ∧ c.tag.m_nGroups.toUInt32 < g.nlost :=
        hlost.imp id fun h => h.resolve_right fun hlast => htype hlast.1
      simpa [htype] using Moved.flushed htype hwhy
  | calm hcalm =>
    by_cases htype : c.tag.m_type = 2
    · simpa [htype] using Moved.absorbed htype
    · simpa [htype] using Moved.passed htype hcalm

/-- `IpForward` is the table calls, and `afterRecv` when these return. -/
theorem ipForward_eq_map {l : Ipv4L3ProtocolwithFecDecode} {c : Carried}
    (hsize : c.packet.getSize > l.m_fec.m_segmentSize.toNat) (hfwin : l.m_fec.m_fwin > 0) :
    l.ipForward c.packet c.header =
      (decode c.tag (l.m_fec.m_fwin * c.tag.m_nGroups.toUInt32) (l.m_fec.m_sendRxRequest = .ON)
        l.m_fec.toFecTables).map fun d =>
          (l.changeRound c.tag.m_roundId).1.afterRecv (l.changeRound c.tag.m_roundId).2 c
            ((l.changeRound c.tag.m_roundId).1.m_fec.settle c.packet c.header c.tag d) := by
  obtain ⟨p, h⟩ := c
  obtain ⟨hset, htables⟩ := l.changeRound_agent (Carried.tag ⟨p, h⟩).m_roundId
  have hrecv := (l.changeRound (Carried.tag ⟨p, h⟩).m_roundId).1.m_fec.recv_eq_map p h
  rw [hset.fwin, hset.sendRxRequest, htables] at hrecv
  simp only [ipForward, if_pos (And.intro hsize hfwin), bind, Except.bind, pure, Except.pure, hrecv]
  simp only [Carried.tag]
  cases decode (p.peekPacketTag {}) (l.m_fec.m_fwin * (p.peekPacketTag {}).m_nGroups.toUInt32)
    (l.m_fec.m_sendRxRequest = .ON) l.m_fec.toFecTables <;> rfl

/-- A call of `IpForward` that passes its packet to `Recv` and returns. -/
theorem ipForward_passage {l : Ipv4L3ProtocolwithFecDecode} {c : Carried}
    (hsize : c.packet.getSize > l.m_fec.m_segmentSize.toNat) (hfwin : l.m_fec.m_fwin > 0)
    {r : Forwarded} (hok : l.ipForward c.packet c.header = .ok r) :
    ∃ d left, Passage l c r d left := by
  rw [ipForward_eq_map hsize hfwin] at hok
  cases hd : decode c.tag (l.m_fec.m_fwin * c.tag.m_nGroups.toUInt32)
      (l.m_fec.m_sendRxRequest = .ON) l.m_fec.toFecTables with
  | error f =>
    rw [hd] at hok
    cases hok
  | ok d =>
    rw [hd] at hok
    obtain rfl := Except.ok.inj hok
    obtain ⟨hset, -⟩ := l.changeRound_agent c.tag.m_roundId
    obtain ⟨htq, hrid, hchanged⟩ := l.changeRound_queue c.tag.m_roundId
    generalize l.changeRound c.tag.m_roundId = changed at hset htq hrid hchanged ⊢
    obtain ⟨left, hmoved, hout⟩ := changed.1.afterRecv_moved changed.2 c d
    obtain ⟨hset', hsettled, -⟩ := changed.1.m_fec.settle_agent c.packet c.header c.tag d
    obtain ⟨hset'', htables, hrid', hrecovered⟩ := changed.1.afterRecv_agent changed.2 c
      (changed.1.m_fec.settle c.packet c.header c.tag d)
    rw [hset.storeMode, hset.nGroups, htq] at hmoved
    rw [hchanged] at hout
    exact ⟨d, left, hd, hmoved, hout, hset''.trans (hset'.trans hset), htables.trans hsettled,
      hrid'.trans hrid, hrecovered.trans (changed.1.m_fec.settle_recovered _ _ _ _)⟩

end Ipv4L3ProtocolwithFecDecode

end Ns3.Fec
