import Ns3.Fec.RouterAgent

/-!
# The encoding router

`Ipv4L3ProtocolwithFecEncode::SendRealOut` tags data packets, counts them down in `fc_`
and, when `fc_` reaches 0, sends one FEC packet per group and opens the next round.
Source: `contrib/fec/model/ipv4-l3-protocol-with-fec-encode.cc:965–1038,1913–1944`.
-/

namespace Ns3.Fec
open Ns3.Lib

/-- The FEC state of `Ipv4L3ProtocolwithFecEncode`
(`ipv4-l3-protocol-with-fec-encode.h:641–647`). -/
structure Ipv4L3ProtocolwithFecEncode where
  m_fec : FecRouterAgent
  m_fwin : UInt32
  m_nGroups : UInt8
  m_segmentSize : UInt32
  init_ : Bool := true
  fc_ : UInt32 := -1
  ic_ : UInt32 := -1

/-- What `SendRealOut` depends on besides the packet: whether there is a route and the
interface is up, its MTU, whether `Send` puts the IPv4 header on the same packet object
before it returns (`Ipv4QueueDiscItem::AddHeader`), and what `PeekHeader` makes of bytes
that are no TCP header, before and after the send. -/
structure Egress where
  route : Bool := true
  isUp : Bool := true
  mtu : Nat := 1500
  prepends : Bool := false
  noTcp : TcpHeader := {}
  noTcpAfter : TcpHeader := {}

/-- One call of `SendRealOut`. -/
structure SendCall where
  out : Egress := {}
  packet : Packet
  ipHeader : Ipv4Header := {}

/-- A packet handed to the interface, with the agent as it was when it went out. -/
structure Sent where
  packet : Packet
  m_fec : FecRouterAgent

namespace Ipv4L3ProtocolwithFecEncode

/-- `SetFec`. -/
def setFec (fec : FecRouterAgent) : Ipv4L3ProtocolwithFecEncode :=
  { m_fec := fec
    m_fwin := fec.m_fwin
    m_nGroups := fec.m_nGroups
    m_segmentSize := fec.m_segmentSize }

/-- `RedundancyControl`. -/
def redundancyControl (l : Ipv4L3ProtocolwithFecEncode) : Ipv4L3ProtocolwithFecEncode :=
  { l with
    fc_ := l.m_fwin * l.m_nGroups.toUInt32
    ic_ := l.m_nGroups.toUInt32
    m_fec := l.m_fec.updateFecTable }

/-- One turn of `while (fc_ == 0)`, with what has been sent so far. -/
def fecTurn (h : TcpHeader) :
    Ipv4L3ProtocolwithFecEncode × List Sent →
      Turn (Ipv4L3ProtocolwithFecEncode × List Sent)
        (Except Fault (Ipv4L3ProtocolwithFecEncode × List Sent))
  | (l, sent) =>
    if l.fc_ = 0 then
      match l.m_fec.createFecPacket h with
      | .error f => .leave (.error f)
      | .ok (fec, p) =>
        let l := { l with m_fec := fec, ic_ := l.ic_ - 1 }
        .again (if l.ic_ = 0 then l.redundancyControl else l, sent ++ [⟨p, fec⟩])
    else .leave (.ok (l, sent))

/-- `while (fc_ == 0)`. The loop leaves by the turn after `ic_` has reached 0, or never
(`sendFecPackets_diverges`). -/
def sendFecPackets (h : TcpHeader) (l : Ipv4L3ProtocolwithFecEncode) (sent : List Sent) :
    Except Fault (Ipv4L3ProtocolwithFecEncode × List Sent) :=
  (turns (fecTurn h) ((l.ic_ - 1).toNat + 2) (l, sent)).getD (.error .noReturn)

/-- The data part of `SendRealOut`: a packet above the segment size is tagged before it
is sent, and one that is above it after it was sent is counted. -/
def sendData (l : Ipv4L3ProtocolwithFecEncode) (c : SendCall) :
    Except Fault (Ipv4L3ProtocolwithFecEncode × Packet) := do
  let (fec, packet) ←
    if c.packet.getSize > l.m_segmentSize.toNat then
      l.m_fec.createDataPacket c.packet (c.packet.peekTcpHeader c.out.noTcp) c.ipHeader
    else pure (l.m_fec, c.packet)
  let after := if c.out.prepends then packet.addHeader (.ipv4 c.ipHeader) else packet
  let fc := if after.getSize > l.m_segmentSize.toNat then l.fc_ - 1 else l.fc_
  return ({ l with m_fec := fec, fc_ := fc }, packet)

/-- `SendRealOut`. Fragments carry no FEC tag and are left out. -/
def sendRealOut (l : Ipv4L3ProtocolwithFecEncode) (c : SendCall) :
    Except Fault (Ipv4L3ProtocolwithFecEncode × List Sent) :=
  if c.out.route = false ∨ c.out.isUp = false then .ok (l, [])
  else if c.packet.getSize + c.ipHeader.getSerializedSize > c.out.mtu then .ok (l, [])
  else do
    let l :=
      if l.m_fwin ≠ 0 ∧ l.init_ then { l.redundancyControl with init_ := false } else l
    let (l, packet) ← l.sendData c
    let after := if c.out.prepends then packet.addHeader (.ipv4 c.ipHeader) else packet
    sendFecPackets (after.peekTcpHeader c.out.noTcpAfter) l [⟨packet, l.m_fec⟩]

/-- A run of calls, with everything it sends in order. -/
def sendAll (l : Ipv4L3ProtocolwithFecEncode) :
    List SendCall → Except Fault (Ipv4L3ProtocolwithFecEncode × List Sent)
  | [] => .ok (l, [])
  | c :: cs => do
    let (l, sent) ← l.sendRealOut c
    let (l, sent') ← l.sendAll cs
    return (l, sent ++ sent')

end Ipv4L3ProtocolwithFecEncode

/-! ### What the encoder leaves alone -/

/-- What the encoder leaves alone. -/
structure FecRouterAgent.SameDecoder (a b : FecRouterAgent) : Prop where
  tq : a.tq_ = b.tq_
  lpq : a.lpq_ = b.lpq_
  fwin : a.m_fwin = b.m_fwin
  nGroups : a.m_nGroups = b.m_nGroups
  segmentSize : a.m_segmentSize = b.m_segmentSize
  sendRxRequest : a.m_sendRxRequest = b.m_sendRxRequest
  storeMode : a.m_storeMode = b.m_storeMode

namespace FecRouterAgent

theorem SameDecoder.refl (a : FecRouterAgent) : SameDecoder a a :=
  ⟨rfl, rfl, rfl, rfl, rfl, rfl, rfl⟩

theorem SameDecoder.trans {a b c : FecRouterAgent} (h : SameDecoder a b) (h' : SameDecoder b c) :
    SameDecoder a c :=
  { tq := h.tq.trans h'.tq
    lpq := h.lpq.trans h'.lpq
    fwin := h.fwin.trans h'.fwin
    nGroups := h.nGroups.trans h'.nGroups
    segmentSize := h.segmentSize.trans h'.segmentSize
    sendRxRequest := h.sendRxRequest.trans h'.sendRxRequest
    storeMode := h.storeMode.trans h'.storeMode }

private theorem createDataPacket_same {a a' : FecRouterAgent} {packet p : Packet}
    {tcpHeader : TcpHeader} {ipHeader : Ipv4Header}
    (h : a.createDataPacket packet tcpHeader ipHeader = .ok (a', p)) : SameDecoder a' a := by
  simp only [createDataPacket, bind, Except.bind, pure, Except.pure] at h
  split at h
  · rw [Except.ok.injEq, Prod.mk.injEq] at h
    obtain ⟨rfl, -⟩ := h
    exact ⟨rfl, rfl, rfl, rfl, rfl, rfl, rfl⟩
  · split at h
    · cases h
    · rw [Except.ok.injEq, Prod.mk.injEq] at h
      obtain ⟨rfl, -⟩ := h
      exact ⟨rfl, rfl, rfl, rfl, rfl, rfl, rfl⟩

private theorem createFecPacket_same {a a' : FecRouterAgent} {h : TcpHeader} {p : Packet}
    (hok : a.createFecPacket h = .ok (a', p)) : SameDecoder a' a := by
  simp only [createFecPacket, bind, Except.bind, pure, Except.pure] at hok
  cases hpush : a.toFecTables.pushEntry a.fecEntry with
  | error f =>
    rw [hpush] at hok
    cases hok
  | ok tables =>
    rw [hpush] at hok
    dsimp only at hok
    split_ifs at hok <;> obtain ⟨rfl, -⟩ := Prod.mk.inj (Except.ok.inj hok) <;>
      exact ⟨rfl, rfl, rfl, rfl, rfl, rfl, rfl⟩

end FecRouterAgent

namespace Ipv4L3ProtocolwithFecEncode

private theorem sendFecPackets_same {h : TcpHeader} {l l' : Ipv4L3ProtocolwithFecEncode}
    {sent out : List Sent} (hok : l.sendFecPackets h sent = .ok (l', out)) :
    FecRouterAgent.SameDecoder l'.m_fec l.m_fec := by
  rw [sendFecPackets] at hok
  cases hturns : turns (fecTurn h) ((l.ic_ - 1).toNat + 2) (l, sent) with
  | none =>
    rw [hturns] at hok
    cases hok
  | some r =>
    rw [hturns] at hok
    refine turns_of_invariant
      (I := fun x : Ipv4L3ProtocolwithFecEncode × List Sent =>
        FecRouterAgent.SameDecoder x.1.m_fec l.m_fec)
      (J := fun r : Except Fault (Ipv4L3ProtocolwithFecEncode × List Sent) =>
        ∀ x, r = .ok x → FecRouterAgent.SameDecoder x.1.m_fec l.m_fec)
      ?_ ?_ (FecRouterAgent.SameDecoder.refl _) hturns _ hok
    · rintro ⟨m, sent⟩ x hm hbody
      simp only [fecTurn] at hbody
      split at hbody
      · cases hp : m.m_fec.createFecPacket h with
        | error f => simp [hp] at hbody
        | ok r =>
          simp only [hp, Turn.again.injEq] at hbody
          subst hbody
          have hsame := (FecRouterAgent.createFecPacket_same hp).trans hm
          dsimp only
          split
          · exact ⟨hsame.tq, hsame.lpq, hsame.fwin, hsame.nGroups, hsame.segmentSize,
              hsame.sendRxRequest, hsame.storeMode⟩
          · exact hsame
      · cases hbody
    · rintro ⟨m, sent⟩ r hm hbody x rfl
      simp only [fecTurn] at hbody
      split at hbody
      · split at hbody <;> cases hbody
      · cases hbody
        exact hm

private theorem sendData_same {l l' : Ipv4L3ProtocolwithFecEncode} {c : SendCall} {p : Packet}
    (hok : l.sendData c = .ok (l', p)) : FecRouterAgent.SameDecoder l'.m_fec l.m_fec := by
  simp only [sendData, bind, Except.bind, pure, Except.pure] at hok
  split at hok
  · cases hcreate : l.m_fec.createDataPacket c.packet (c.packet.peekTcpHeader c.out.noTcp)
        c.ipHeader with
    | error f =>
      rw [hcreate] at hok
      cases hok
    | ok r =>
      rw [hcreate, Except.ok.injEq, Prod.mk.injEq] at hok
      obtain ⟨rfl, -⟩ := hok
      exact FecRouterAgent.createDataPacket_same hcreate
  · rw [Except.ok.injEq, Prod.mk.injEq] at hok
    obtain ⟨rfl, -⟩ := hok
    exact FecRouterAgent.SameDecoder.refl _

/-- `SendRealOut` leaves what the decoder needs alone. -/
theorem sendRealOut_same {l l' : Ipv4L3ProtocolwithFecEncode} {c : SendCall} {out : List Sent}
    (hok : l.sendRealOut c = .ok (l', out)) : FecRouterAgent.SameDecoder l'.m_fec l.m_fec := by
  have hopen : ∀ m : Ipv4L3ProtocolwithFecEncode, FecRouterAgent.SameDecoder
      (if m.m_fwin ≠ 0 ∧ m.init_ then { m.redundancyControl with init_ := false } else m).m_fec
      m.m_fec := by
    intro m
    split
    · exact ⟨rfl, rfl, rfl, rfl, rfl, rfl, rfl⟩
    · exact FecRouterAgent.SameDecoder.refl _
  simp only [sendRealOut] at hok
  split at hok
  · obtain ⟨rfl, -⟩ := Prod.mk.inj (Except.ok.inj hok)
    exact FecRouterAgent.SameDecoder.refl _
  split at hok
  · obtain ⟨rfl, -⟩ := Prod.mk.inj (Except.ok.inj hok)
    exact FecRouterAgent.SameDecoder.refl _
  · have hl := hopen l
    generalize (if l.m_fwin ≠ 0 ∧ l.init_ then { l.redundancyControl with init_ := false } else l) =
      m at hok hl
    simp only [bind, Except.bind] at hok
    cases hdata : m.sendData c with
    | error f =>
      rw [hdata] at hok
      cases hok
    | ok r =>
      rw [hdata] at hok
      exact (sendFecPackets_same hok).trans ((sendData_same hdata).trans hl)

end Ipv4L3ProtocolwithFecEncode

end Ns3.Fec
