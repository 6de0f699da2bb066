import Ns3.Fec.Decode
import Ns3.Fec.TransitQueue

/-!
# The router's agent

`FecRouterAgent` as an encoder (`UpdateFecTable`, `CreateDataPacket`, `CreateFecPacket`)
and as a decoder (`Recv`, `CreateRecoveryPacket`, `LostPacketInfo`). The encoding and the
decoding router of a path share one object, so one state holds both. Counters that only
printing reads are left out.
Source: `contrib/fec/model/fec-router-agent.h`, `contrib/fec/model/fec-router-agent.cc`.
-/

namespace Ns3.Fec

/-- `FecRouterAgent::SendRxRequest`, `fec-router-agent.h:58–62`. -/
inductive SendRxRequest where
  | OFF
  | ON
  deriving DecidableEq, Repr

/-- `FecRouterAgent::StoreMode`, `fec-router-agent.h:64–68`. -/
inductive StoreMode where
  | DISUSE
  | USE
  deriving DecidableEq, Repr

/-- The two headers an entry keeps at the router. -/
structure RouterHdr where
  tcp_ : TcpHeader := {}
  ip_ : Ipv4Header := {}
  deriving DecidableEq, Repr

/-- `FecRouterAgent`, with the defaults of its attributes and of its constructor
(`fec-router-agent.cc:26–73`). -/
structure FecRouterAgent extends FecTables RouterHdr where
  tq_ : List TransitQueue := []
  lpq_ : List Packet := []
  m_fwin : UInt32 := 0
  m_nGroups : UInt8 := 1
  m_segmentSize : UInt32 := 1000
  m_sendRxRequest : SendRxRequest := .ON
  m_storeMode : StoreMode := .USE
  m_serial : UInt32 := 1
  m_roundId : UInt32 := 1
  m_groupId : UInt8 := 0

namespace FecRouterAgent

/-- `FecRouterAgent::UpdateFecTable`, `fec-router-agent.cc:241–255`. -/
def updateFecTable (a : FecRouterAgent) : FecRouterAgent :=
  { a with toFecTables := a.toFecTables.pushTables a.m_roundId a.m_nGroups }

/-- The tag of the packet entered as `pi`. -/
def tagOf (a : FecRouterAgent) (type : UInt8) (pi : PacketInfo RouterHdr) : FecTag :=
  { m_type := type
    m_serial := pi.serial_
    m_roundId := a.m_roundId
    m_groupId := pi.gid_
    m_nGroups := a.m_nGroups }

/-- The entry `CreateDataPacket` makes. -/
def dataEntry (a : FecRouterAgent) (tcpHeader : TcpHeader) (ipHeader : Ipv4Header) :
    PacketInfo RouterHdr :=
  { serial_ := a.m_serial
    check_ := false
    gid_ := if a.m_nGroups = 1 then 0 else a.m_groupId
    type_ := false
    hdr_ := ⟨tcpHeader, ipHeader⟩
    flag_ := false }

/-- `FecRouterAgent::CreateDataPacket`, `fec-router-agent.cc:94–150`. `tcpHeader` is the
header peeked from the packet. -/
def createDataPacket (a : FecRouterAgent) (packet : Packet) (tcpHeader : TcpHeader)
    (ipHeader : Ipv4Header) : Except Fault (FecRouterAgent × Packet) := do
  let pi := a.dataEntry tcpHeader ipHeader
  let tables ← if a.m_fwin = 0 then .ok a.toFecTables else a.toFecTables.pushEntry pi
  let packet := packet.addPacketTag (a.tagOf 1 pi)
  let gid := if a.m_nGroups > 1 then
      if pi.gid_ + 1 = a.m_nGroups then 0 else pi.gid_ + 1
    else pi.gid_
  return ({ a with toFecTables := tables, m_groupId := gid, m_serial := a.m_serial + 1 }, packet)

/-- The entry `CreateFecPacket` makes; its headers are never set. -/
def fecEntry (a : FecRouterAgent) : PacketInfo RouterHdr :=
  { serial_ := a.m_serial
    check_ := false
    gid_ := a.m_groupId
    type_ := true
    hdr_ := {}
    flag_ := false }

/-- The TCP header of an FEC packet, copied from `h` but for the sequence number. -/
def fecHeader (h : TcpHeader) : TcpHeader :=
  { m_flags := h.m_flags
    m_sequenceNumber := 0
    m_ackNumber := h.m_ackNumber
    m_sourcePort := h.m_sourcePort
    m_destinationPort := h.m_destinationPort
    m_windowSize := h.m_windowSize }

/-- `FecRouterAgent::CreateFecPacket`, `fec-router-agent.cc:152–212`. `h` is the header
peeked from the packet before. -/
def createFecPacket (a : FecRouterAgent) (h : TcpHeader) :
    Except Fault (FecRouterAgent × Packet) := do
  let p : Packet := { payload := a.m_segmentSize.toNat }
  let tables ← a.toFecTables.pushEntry a.fecEntry
  let p := (p.addPacketTag (a.tagOf 2 a.fecEntry)).addHeader (.tcp (fecHeader h))
  let a := { a with toFecTables := tables }
  if a.m_nGroups > 1 then
    let a := { a with m_groupId := a.m_groupId + 1, m_serial := a.m_serial + 1 }
    if a.m_groupId = a.m_nGroups then
      return ({ a with m_serial := 1, m_groupId := 0, m_roundId := a.m_roundId + 1 }, p)
    else return (a, p)
  else if a.m_nGroups = 1 then
    return ({ a with m_serial := 1, m_groupId := 0, m_roundId := a.m_roundId + 1 }, p)
  else return (a, p)

/-- The tag of a recovered packet. -/
def recoveryTag (tag : FecTag) (rec_serial : UInt32) : FecTag :=
  { m_type := 4
    m_serial := rec_serial
    m_roundId := tag.m_roundId
    m_groupId := tag.m_groupId }

/-- `FecRouterAgent::CreateRecoveryPacket`, `fec-router-agent.cc:214–239`: the FEC packet
becomes the lost one. -/
def createRecoveryPacket (a : FecRouterAgent) (packet : Packet) (tcpHeader : TcpHeader)
    (ipHeader : Ipv4Header) (tag : FecTag) (rec_serial : UInt32) : FecRouterAgent :=
  let packet := packet.removePacketTag.removeTcpHeader.removeIpv4Header
  let packet := ((packet.addPacketTag (recoveryTag tag rec_serial)).addHeader
    (.tcp tcpHeader)).addHeader (.ipv4 ipHeader)
  { a with tq_ := insertTransitQueue ⟨rec_serial, packet⟩ a.tq_ }

/-- The packet `LostPacketInfo` queues for the lost entry `pi` of round `roundId`,
`fec-router-agent.cc:562–597`. -/
def lostPacketInfo (roundId : UInt32) (pi : PacketInfo RouterHdr) : Packet :=
  let newTcpHeader : TcpHeader :=
    { m_flags := TcpHeader.ECE
      m_sequenceNumber := pi.hdr_.tcp_.m_ackNumber
      m_ackNumber := pi.hdr_.tcp_.m_sequenceNumber
      m_sourcePort := pi.hdr_.tcp_.m_destinationPort
      m_destinationPort := pi.hdr_.tcp_.m_sourcePort
      m_windowSize := pi.hdr_.tcp_.m_windowSize }
  let newIpHeader : Ipv4Header :=
    { m_source := pi.hdr_.ip_.m_destination
      m_destination := pi.hdr_.ip_.m_source
      m_protocol := pi.hdr_.ip_.m_protocol
      m_payloadSize := pi.hdr_.ip_.m_payloadSize
      m_ttl := 64
      m_tos := 0 }
  let newTag : FecTag :=
    { m_type := 5, m_serial := pi.serial_, m_roundId := roundId, m_groupId := pi.gid_ }
  ((({} : Packet).addPacketTag newTag).addHeader (.tcp newTcpHeader)).addHeader
    (.ipv4 newIpHeader)

/-- What a call of `Recv` leaves: the agent, the returned code, and the entry
`CreateRecoveryPacket` was called for. -/
structure Received where
  agent : FecRouterAgent
  code : UInt32
  recovered : Option (PacketInfo RouterHdr)

/-- `FecRouterAgent::Recv`, `fec-router-agent.cc:272–287`, once the table calls have left `d`. -/
def settle (a : FecRouterAgent) (packet : Packet) (ipHeader : Ipv4Header) (tag : FecTag)
    (d : Decoded RouterHdr) : Received :=
  let a := { a with
    toFecTables := d.tables
    lpq_ := a.lpq_ ++ d.asked.map (lostPacketInfo tag.m_roundId) }
  match d.group with
  | none => ⟨a, 2, none⟩
  | some g =>
    let a := match g.recovered with
      | some e => a.createRecoveryPacket packet e.hdr_.tcp_ e.hdr_.ip_ tag e.serial_
      | none => a
    if g.nlost > tag.m_nGroups.toUInt32 then ⟨a, 2, g.recovered⟩
    else if d.sumlost > 0 ∧ tag.m_type = 1 ∧ a.m_storeMode = .USE then
      let p := packet.addHeader (.ipv4 ipHeader)
      ⟨{ a with tq_ := insertTransitQueue ⟨tag.m_serial, p⟩ a.tq_ }, 1, g.recovered⟩
    else if d.sumlost - g.nlost > 0 ∧ g.flag = 1 ∧ tag.m_type = 2 ∧
        tag.m_groupId.toNat + 1 < a.m_nGroups.toNat then
      ⟨a, 1, g.recovered⟩
    else if tag.m_type = 2 ∧ tag.m_groupId.toNat + 1 = a.m_nGroups.toNat then
      ⟨a, 2, g.recovered⟩
    else ⟨a, 0, g.recovered⟩

/-- `FecRouterAgent::Recv`, `fec-router-agent.cc:257–288`. The table calls come first; what
they queue for retransmission and recovery is queued by `settle`. -/
def recv (a : FecRouterAgent) (packet : Packet) (ipHeader : Ipv4Header) :
    Except Fault Received := do
  let tag := packet.peekPacketTag {}
  let fwin := a.m_fwin * tag.m_nGroups.toUInt32
  let d ← decode tag fwin (a.m_sendRxRequest = .ON) a.toFecTables
  return a.settle packet ipHeader tag d

/-- What `Recv` leaves alone. -/
structure SameSettings (a b : FecRouterAgent) : Prop where
  fwin : a.m_fwin = b.m_fwin
  nGroups : a.m_nGroups = b.m_nGroups
  segmentSize : a.m_segmentSize = b.m_segmentSize
  sendRxRequest : a.m_sendRxRequest = b.m_sendRxRequest
  storeMode : a.m_storeMode = b.m_storeMode
  serial : a.m_serial = b.m_serial
  roundId : a.m_roundId = b.m_roundId
  groupId : a.m_groupId = b.m_groupId

/-- Settings left alone twice are left alone. -/
theorem SameSettings.trans {a b c : FecRouterAgent} (h : SameSettings a b) (h' : SameSettings b c) :
    SameSettings a c :=
  { fwin := h.fwin.trans h'.fwin
    nGroups := h.nGroups.trans h'.nGroups
    segmentSize := h.segmentSize.trans h'.segmentSize
    sendRxRequest := h.sendRxRequest.trans h'.sendRxRequest
    storeMode := h.storeMode.trans h'.storeMode
    serial := h.serial.trans h'.serial
    roundId := h.roundId.trans h'.roundId
    groupId := h.groupId.trans h'.groupId }

/-- `Recv` changes queues and tables only: the tables as the table calls left them, the
request queue by what they asked for. -/
theorem settle_agent (a : FecRouterAgent) (packet : Packet) (ipHeader : Ipv4Header) (tag : FecTag)
    (d : Decoded RouterHdr) :
    SameSettings (a.settle packet ipHeader tag d).agent a ∧
      (a.settle packet ipHeader tag d).agent.toFecTables = d.tables ∧
      (a.settle packet ipHeader tag d).agent.lpq_ =
        a.lpq_ ++ d.asked.map (lostPacketInfo tag.m_roundId) := by
  rw [settle]
  cases d.group with
  | none => exact ⟨⟨rfl, rfl, rfl, rfl, rfl, rfl, rfl, rfl⟩, rfl, rfl⟩
  | some g =>
    obtain ⟨nlost, flag, recovered⟩ := g
    cases recovered with
    | none =>
      dsimp only
      split_ifs <;> exact ⟨⟨rfl, rfl, rfl, rfl, rfl, rfl, rfl, rfl⟩, rfl, rfl⟩
    | some e =>
      dsimp only
      split_ifs <;> exact ⟨⟨rfl, rfl, rfl, rfl, rfl, rfl, rfl, rfl⟩, rfl, rfl⟩

/-- What `Recv` reports as recovered is what the table calls reported. -/
theorem settle_recovered (a : FecRouterAgent) (packet : Packet) (ipHeader : Ipv4Header)
    (tag : FecTag) (d : Decoded RouterHdr) :
    (a.settle packet ipHeader tag d).recovered = d.group.bind GroupOutcome.recovered := by
  rw [settle]
  cases d.group with
  | none => rfl
  | some g =>
    dsimp only
    split_ifs <;> rfl

/-- `Recv` is the table calls, and `settle` when these return. -/
theorem recv_eq_map (a : FecRouterAgent) (packet : Packet) (ipHeader : Ipv4Header) :
    a.recv packet ipHeader =
      (decode (packet.peekPacketTag {})
        (a.m_fwin * (packet.peekPacketTag {}).m_nGroups.toUInt32) (a.m_sendRxRequest = .ON)
        a.toFecTables).map (a.settle packet ipHeader (packet.peekPacketTag {})) := by
  simp only [recv, bind, Except.bind, pure, Except.pure]
  cases decode (packet.peekPacketTag {})
    (a.m_fwin * (packet.peekPacketTag {}).m_nGroups.toUInt32) (a.m_sendRxRequest = .ON)
    a.toFecTables <;> rfl

/-- `Recv` returns exactly when the table calls do. -/
theorem recv_ok_iff (a : FecRouterAgent) (packet : Packet) (ipHeader : Ipv4Header) (r : Received) :
    a.recv packet ipHeader = .ok r ↔
      ∃ d, decode (packet.peekPacketTag {})
          (a.m_fwin * (packet.peekPacketTag {}).m_nGroups.toUInt32) (a.m_sendRxRequest = .ON)
          a.toFecTables = .ok d ∧
        r = a.settle packet ipHeader (packet.peekPacketTag {}) d := by
  rw [recv_eq_map]
  cases decode (packet.peekPacketTag {})
      (a.m_fwin * (packet.peekPacketTag {}).m_nGroups.toUInt32) (a.m_sendRxRequest = .ON)
      a.toFecTables with
  | error f => simp [Except.map]
  | ok d => simp [Except.map, eq_comm]

end FecRouterAgent

end Ns3.Fec
