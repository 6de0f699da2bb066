import Ns3.Fec.Decode
import Ns3.Fec.TransitQueue
import Mathlib.Data.Rat.Defs

/-!
# The end host's agent

`FecAgent` as an encoder (`CreateDataPacket`, `CreateFecPacket`, `RedundancyControl`)
and as a decoder (`Recv`, `CreateRecoveryPacket`). One object serves both ends of a
connection, so one state holds both. Counters that only printing reads are left out.
Source: `contrib/fec/model/fec-agent.h`, `contrib/fec/model/fec-agent.cc`.
-/

namespace Ns3.Fec

/-- `FecAgent::FecMode`, `fec-agent.h:62–66`. -/
inductive FecMode where
  | Static
  | Dynamic
  deriving DecidableEq, Repr

/-- `FecAgent::BoundMode`, `fec-agent.h:68–72`. -/
inductive BoundMode where
  | OUT
  | IN
  deriving DecidableEq, Repr

/-- `FecAgent::AckMode`, `fec-agent.h:74–78`. -/
inductive AckMode where
  | Send
  | Suppression
  deriving DecidableEq, Repr

/-- `SequenceNumber32::operator<`: the difference is negative as a signed word
(`src/network/utils/sequence-number.h`). -/
def seqLt (a b : UInt32) : Prop := 0x80000000 ≤ a - b

instance (a b : UInt32) : Decidable (seqLt a b) := inferInstanceAs (Decidable (_ ≤ _))

/-- `FecAgent`, with the defaults of its attributes and of its constructor
(`fec-agent.cc:36–115`). The rate control value is a `double` below or above 1. -/
structure FecAgent extends FecTables TcpHeader where
  tq_ : List TransitQueue := []
  m_fecMode : FecMode := .Static
  m_boundMode : BoundMode := .IN
  m_ackMode : AckMode := .Suppression
  m_fwin : UInt32 := 0
  m_fmax : UInt32 := 0
  m_nGroups : UInt8 := 1
  m_srcId : UInt32 := 0
  m_segmentSize : UInt32 := 1000
  m_rateControlValue : ℚ := 1
  m_roundId : UInt32 := 1
  m_groupId : UInt8 := 0
  m_serial : UInt32 := 0
  fwin : UInt32 := 0
  ackSendId : UInt32 := 0
  nGroups : UInt8 := 0

namespace FecAgent

/-- The group id after one more packet of a round of `nGroups` groups. -/
def nextGroup (gid nGroups : UInt8) : UInt8 := if gid + 1 = nGroups then 0 else gid + 1

/-- The entry and the tag `CreateDataPacket` makes: a sequence number already sent
before is entered as received and tagged as a retransmission. -/
def dataEntry (a : FecAgent) (tcpHeader : TcpHeader) (highTxMark : UInt32) :
    PacketInfo TcpHeader :=
  { serial_ := tcpHeader.m_sequenceNumber
    check_ := decide (seqLt tcpHeader.m_sequenceNumber highTxMark)
    gid_ := if a.m_nGroups = 1 then 0 else a.m_groupId
    type_ := false
    hdr_ := tcpHeader
    flag_ := false }

/-- The tag of the packet entered as `pi`. -/
def tagOf (a : FecAgent) (type : UInt8) (pi : PacketInfo TcpHeader) : FecTag :=
  { m_type := type
    m_serial := pi.serial_
    m_roundId := a.m_roundId
    m_groupId := pi.gid_
    m_nGroups := a.nGroups }

/-- `FecAgent::CreateDataPacket`, `fec-agent.cc:121–172`. -/
def createDataPacket (a : FecAgent) (packet : Packet) (tcpHeader : TcpHeader)
    (highTxMark : UInt32) : Except Fault (FecAgent × Packet) :=
  if a.m_fwin = 0 then .ok (a, packet)
  else do
    let pi := a.dataEntry tcpHeader highTxMark
    let tables ← a.toFecTables.pushEntry pi
    let tag := a.tagOf (if pi.check_ then 3 else 1) pi
    return ({ a with
        toFecTables := tables
        m_groupId := if a.nGroups > 1 then nextGroup pi.gid_ a.nGroups else pi.gid_
        m_serial := pi.serial_ + 1 }, packet.addPacketTag tag)

/-- The entry `CreateFecPacket` makes; its header is never set. -/
def fecEntry (a : FecAgent) : PacketInfo TcpHeader :=
  { serial_ := a.m_serial
    check_ := false
    gid_ := a.m_groupId
    type_ := true
    hdr_ := {}
    flag_ := false }

/-- `FecAgent::CreateFecPacket`, `fec-agent.cc:174–221`. -/
def createFecPacket (a : FecAgent) : Except Fault (FecAgent × Packet) := do
  let packet : Packet := { payload := a.m_segmentSize.toNat }
  let tables ← a.toFecTables.pushEntry a.fecEntry
  let packet := packet.addPacketTag (a.tagOf 2 a.fecEntry)
  let a := { a with toFecTables := tables }
  if a.nGroups > 1 then
    let a := { a with m_groupId := a.m_groupId + 1, m_serial := a.m_serial + 1 }
    if a.m_groupId = a.nGroups then
      return ({ a with m_groupId := 0, m_roundId := a.m_roundId + 1 }, packet)
    else return (a, packet)
  else if a.nGroups = 1 then
    return ({ a with m_groupId := 0, m_roundId := a.m_roundId + 1 }, packet)
  else return (a, packet)

/-- The window and group count `RedundancyControl` chooses for a round,
`fec-agent.cc:236–294`. -/
def roundWindow (a : FecAgent) (cwnd : UInt32) : Except Fault (UInt32 × UInt8) :=
  if a.m_segmentSize = 0 then .error .divByZero
  else
    let win := cwnd / a.m_segmentSize
    let configured := a.m_nGroups.toUInt32
    match a.m_fecMode, a.m_boundMode with
    | .Static, .OUT => .ok (a.m_fwin * configured, a.m_nGroups)
    | .Static, .IN =>
      if win < a.m_fwin * configured + configured then .ok (win, 1)
      else .ok (a.m_fwin * configured, a.m_nGroups)
    | .Dynamic, .OUT =>
      let nGroups := if win < configured then 1 else a.m_nGroups
      if nGroups = 0 then .error .divByZero
      else
        let fc := win / nGroups.toUInt32
        let fc := if a.m_fmax ≠ 0 ∧ fc ≥ a.m_fmax then a.m_fmax else fc
        .ok (fc * nGroups.toUInt32, nGroups)
    | .Dynamic, .IN =>
      if win < a.m_fwin * configured + configured then .ok (win, 1)
      else if a.m_nGroups = 0 then .error .divByZero
      else
        let fc := (win - configured) / configured
        let fc := if a.m_fmax ≠ 0 ∧ fc ≥ a.m_fmax then a.m_fmax else fc
        .ok (fc * configured, a.m_nGroups)

/-- `FecAgent::RedundancyControl`, `fec-agent.cc:231–313`. -/
def redundancyControl (a : FecAgent) (cwnd : UInt32) : Except Fault (FecAgent × UInt32) := do
  let w ← a.roundWindow cwnd
  return ({ a with
      toFecTables := a.toFecTables.pushTables a.m_roundId w.2
      fwin := w.1
      nGroups := w.2 }, w.1)

/-- `FecAgent::Reset`, `fec-agent.cc:323–330`. -/
def reset (a : FecAgent) : FecAgent := { a with m_roundId := a.m_roundId + 1, m_groupId := 0 }

/-- The tag of a recovered packet. -/
def recoveryTag (tag : FecTag) (rec_serial : UInt32) : FecTag :=
  { m_type := 4
    m_serial := rec_serial
    m_roundId := tag.m_roundId
    m_groupId := tag.m_groupId }

/-- `FecAgent::CreateRecoveryPacket`, `fec-agent.cc:657–683`: the FEC packet becomes the
lost one. -/
def createRecoveryPacket (a : FecAgent) (packet : Packet) (oldTcpHeader : TcpHeader)
    (tag : FecTag) (rec_serial : UInt32) : FecAgent :=
  let packet := (packet.removePacketTag.removeTcpHeader.addPacketTag
    (recoveryTag tag rec_serial)).addHeader (.tcp oldTcpHeader)
  { a with tq_ := insertTransitQueue ⟨rec_serial, packet⟩ a.tq_ }

/-- What a call of `Recv` leaves: the agent, the returned code, and the entry
`CreateRecoveryPacket` was called for. -/
structure Received where
  agent : FecAgent
  code : UInt32
  recovered : Option (PacketInfo TcpHeader)

/-- `FecAgent::Recv`, `fec-agent.cc:364–385`, once the table calls have left `d`. -/
def settle (a : FecAgent) (packet : Packet) (ipHeader : Ipv4Header) (tag : FecTag)
    (d : Decoded TcpHeader) : Received :=
  let a := { a with toFecTables := d.tables }
  match d.group with
  | none => ⟨a, 2, none⟩
  | some g =>
    let a := match g.recovered with
      | some e => a.createRecoveryPacket packet e.hdr_ tag e.serial_
      | none => a
    if g.nlost > tag.m_nGroups.toUInt32 then ⟨a, 2, g.recovered⟩
    else
      let a := if tag.m_type = 3 then { a with ackSendId := tag.m_roundId } else a
      if a.ackSendId = tag.m_roundId ∧ tag.m_type ≠ 2 then ⟨a, 2, g.recovered⟩
      else if d.sumlost > 0 ∧ tag.m_type = 1 ∧ a.m_ackMode = .Suppression then
        let p := packet.addHeader (.ipv4 ipHeader)
        ⟨{ a with tq_ := insertTransitQueue ⟨tag.m_serial, p⟩ a.tq_ }, 1, g.recovered⟩
      else if d.sumlost - g.nlost > 0 ∧ g.flag = 1 ∧ tag.m_type = 2 ∧
          tag.m_groupId.toNat + 1 < a.m_nGroups.toNat then
        ⟨a, 1, g.recovered⟩
      else if tag.m_type = 2 ∧ tag.m_groupId.toNat + 1 = a.m_nGroups.toNat then
        ⟨a, 2, g.recovered⟩
      else ⟨a, 0, g.recovered⟩

/-- `FecAgent::Recv`, `fec-agent.cc:348–386`. The table calls come first; what they hand to
`CreateRecoveryPacket` is queued by `settle`. -/
def recv (a : FecAgent) (packet : Packet) (ipHeader : Ipv4Header) : Except Fault Received := do
  let tag := packet.peekPacketTag {}
  let d ← decode tag tag.m_serial false a.toFecTables
  return a.settle packet ipHeader tag d

end FecAgent

end Ns3.Fec
