import Mathlib.Data.Int.Bitwise
import Mathlib.Data.Nat.Notation
import Mathlib.Order.Lattice
import Mathlib.Tactic.Common

/-!
# Tags, headers and packets

The data the FEC code reads and writes: the FEC tag with its byte codec
(`contrib/fec/model/fec-tag.cc`), the TCP and IPv4 header fields it touches, and a
packet as a stack of headers over a payload of known length. Payload contents are
never read by the modelled code, so only their length is kept.
-/

namespace Ns3.Fec

/-- `FecTag`, `contrib/fec/model/fec-tag.h:51–63`. `m_type` is 1 for data, 2 for a
redundant (FEC) packet, 3 for a retransmission, 4 for a recovered packet, 5 for a
retransmission request and 6 for the ACK of a recovered packet. -/
structure FecTag where
  m_type : UInt8 := 0
  m_serial : UInt32 := 0
  m_roundId : UInt32 := 0
  m_groupId : UInt8 := 0
  m_nGroups : UInt8 := 0
  deriving DecidableEq, Repr

namespace FecTag

/-- `TagBuffer::WriteU32`: low byte first. -/
def writeU32 (data : UInt32) : List UInt8 :=
  [data.toUInt8, (data >>> 8).toUInt8, (data >>> 16).toUInt8, (data >>> 24).toUInt8]

/-- `TagBuffer::ReadU32` on the next four bytes. -/
def readU32 (byte0 byte1 byte2 byte3 : UInt8) : UInt32 :=
  ((byte3.toUInt32 <<< 8 ||| byte2.toUInt32) <<< 8 ||| byte1.toUInt32) <<< 8 ||| byte0.toUInt32

/-- `FecTag::Serialize`, `contrib/fec/model/fec-tag.cc:34–42`. -/
def serialize (tag : FecTag) : List UInt8 :=
  [tag.m_type] ++ writeU32 tag.m_serial ++ writeU32 tag.m_roundId ++
    [tag.m_groupId, tag.m_nGroups]

/-- `FecTag::Deserialize`, `contrib/fec/model/fec-tag.cc:44–52`, overwriting `tag`.
A buffer of another length never occurs: `GetSerializedSize` is 11. -/
def deserialize (tag : FecTag) : List UInt8 → FecTag
  | [t, s0, s1, s2, s3, r0, r1, r2, r3, g, n] =>
    ⟨t, readU32 s0 s1 s2 s3, readU32 r0 r1 r2 r3, g, n⟩
  | _ => tag

/-- Reading back four written bytes gives the word. -/
theorem readU32_writeU32 (data : UInt32) :
    readU32 data.toUInt8 (data >>> 8).toUInt8 (data >>> 16).toUInt8 (data >>> 24).toUInt8 =
      data := by
  apply UInt32.toBitVec_inj.mp
  apply BitVec.eq_of_getLsbD_eq
  intro i hi
  simp only [readU32, UInt32.toBitVec_or, UInt32.toBitVec_shiftLeft, UInt8.toBitVec_toUInt32,
    UInt32.toBitVec_toUInt8, UInt32.toBitVec_shiftRight]
  simp
  -- one byte of the word at a time
  rcases Nat.lt_or_ge i 8 with h8 | h8
  · simp [h8]
    intro
    omega
  · have hi8 : ¬ i < 8 := by omega
    rcases Nat.lt_or_ge i 16 with h16 | h16
    · have he : 8 + (i - 8) = i := by omega
      simp [hi8, he]
      grind
    · rcases Nat.lt_or_ge i 24 with h24 | h24
      · have he : 16 + (i - 8 - 8) = i := by omega
        simp [hi8, he]
        grind
      · have he : 24 + (i - 8 - 8 - 8) = i := by omega
        simp [hi8, he]
        grind

/-- The codec loses nothing: every field comes back with its full width. -/
theorem deserialize_serialize (tag old : FecTag) : deserialize old tag.serialize = tag := by
  simp only [serialize, writeU32, List.cons_append, List.nil_append, deserialize,
    readU32_writeU32]

end FecTag

/-- The fields of `TcpHeader` that the modelled code reads or sets, with the
constructor's defaults (`src/internet/model/tcp-header.cc:35–48`). Options are kept
by their total length. -/
structure TcpHeader where
  m_sourcePort : UInt16 := 0
  m_destinationPort : UInt16 := 0
  m_sequenceNumber : UInt32 := 0
  m_ackNumber : UInt32 := 0
  m_flags : UInt8 := 0
  m_windowSize : UInt16 := 0xffff
  m_optionsLen : Nat := 0
  deriving DecidableEq, Repr

/-- `TcpHeader::GetSerializedSize`: 20 bytes and the options, padded to whole words
(`src/internet/model/tcp-header.cc:444–460`). -/
def TcpHeader.getSerializedSize (h : TcpHeader) : Nat := (20 + h.m_optionsLen + 3) / 4 * 4

/-- `TcpHeader::ECE`, `src/internet/model/tcp-header.h:288`. -/
def TcpHeader.ECE : UInt8 := 64

/-- The fields of `Ipv4Header` that the modelled code reads or sets
(`src/internet/model/ipv4-header.cc:33–46`). -/
structure Ipv4Header where
  m_source : UInt32 := 0
  m_destination : UInt32 := 0
  m_protocol : UInt8 := 0
  m_payloadSize : UInt16 := 0
  m_ttl : UInt8 := 0
  m_tos : UInt8 := 0
  deriving DecidableEq, Repr

/-- `Ipv4Header::GetSerializedSize`: `m_headerSize` is always `5*4`. -/
def Ipv4Header.getSerializedSize (_ : Ipv4Header) : Nat := 20

/-- A header on a packet. -/
inductive Header where
  | tcp (h : TcpHeader)
  | ipv4 (h : Ipv4Header)
  deriving DecidableEq, Repr

/-- Length of a header on the wire. -/
def Header.size : Header → Nat
  | .tcp h => h.getSerializedSize
  | .ipv4 h => h.getSerializedSize

/-- A packet: headers from the outermost inwards, payload length, and its FEC tag. -/
structure Packet where
  headers : List Header := []
  payload : Nat := 0
  tag : Option FecTag := none
  deriving DecidableEq, Repr

namespace Packet

/-- `Packet::GetSize`. Packet tags do not count. -/
def getSize (p : Packet) : Nat := (p.headers.map Header.size).sum + p.payload

/-- `Packet::AddHeader`. -/
def addHeader (p : Packet) (h : Header) : Packet := { p with headers := h :: p.headers }

/-- `Packet::RemoveHeader` for a TCP header. The modelled callers have one in front. -/
def removeTcpHeader (p : Packet) : Packet :=
  match p.headers with
  | .tcp _ :: hs => { p with headers := hs }
  | _ => p

/-- `Packet::RemoveHeader` for an IPv4 header. `Ipv4Header::Deserialize` refuses bytes
whose first nibble is not 4, such as a zero-filled payload, and then nothing is removed
(`src/internet/model/ipv4-header.cc:432–436`). -/
def removeIpv4Header (p : Packet) : Packet :=
  match p.headers with
  | .ipv4 _ :: hs => { p with headers := hs }
  | _ => p

/-- `Packet::PeekHeader` for a TCP header; `other` is what the deserializer makes of
bytes that are no TCP header. -/
def peekTcpHeader (p : Packet) (other : TcpHeader) : TcpHeader :=
  match p.headers with
  | .tcp h :: _ => h
  | _ => other

/-- `Packet::AddPacketTag`: the tag list keeps the serialized tag. -/
def addPacketTag (p : Packet) (tag : FecTag) : Packet :=
  { p with tag := some (FecTag.deserialize tag tag.serialize) }

/-- `Packet::RemovePacketTag`. -/
def removePacketTag (p : Packet) : Packet := { p with tag := none }

/-- `Packet::PeekPacketTag`: overwrites `tag` when the packet has one. -/
def peekPacketTag (p : Packet) (tag : FecTag) : FecTag := p.tag.getD tag

@[simp] theorem tag_addPacketTag (p : Packet) (tag : FecTag) :
    (p.addPacketTag tag).tag = some tag := by
  simp [addPacketTag, FecTag.deserialize_serialize]

@[simp] theorem headers_addPacketTag (p : Packet) (tag : FecTag) :
    (p.addPacketTag tag).headers = p.headers := rfl

@[simp] theorem payload_addPacketTag (p : Packet) (tag : FecTag) :
    (p.addPacketTag tag).payload = p.payload := rfl

@[simp] theorem peekPacketTag_addPacketTag (p : Packet) (tag old : FecTag) :
    (p.addPacketTag tag).peekPacketTag old = tag := by
  simp [peekPacketTag]

@[simp] theorem tag_addHeader (p : Packet) (h : Header) : (p.addHeader h).tag = p.tag := rfl

@[simp] theorem payload_addHeader (p : Packet) (h : Header) :
    (p.addHeader h).payload = p.payload := rfl

@[simp] theorem headers_addHeader (p : Packet) (h : Header) :
    (p.addHeader h).headers = h :: p.headers := rfl

@[simp] theorem tag_removeTcpHeader (p : Packet) : p.removeTcpHeader.tag = p.tag := by
  unfold removeTcpHeader
  split <;> rfl

@[simp] theorem payload_removeTcpHeader (p : Packet) : p.removeTcpHeader.payload = p.payload := by
  unfold removeTcpHeader
  split <;> rfl

@[simp] theorem payload_removeIpv4Header (p : Packet) :
    p.removeIpv4Header.payload = p.payload := by
  unfold removeIpv4Header
  split <;> rfl

@[simp] theorem tag_removeIpv4Header (p : Packet) : p.removeIpv4Header.tag = p.tag := by
  unfold removeIpv4Header
  split <;> rfl

@[simp] theorem payload_removePacketTag (p : Packet) :
    p.removePacketTag.payload = p.payload := rfl

@[simp] theorem headers_removePacketTag (p : Packet) :
    p.removePacketTag.headers = p.headers := rfl

/-- Tagging leaves the size alone. -/
@[simp] theorem getSize_addPacketTag (p : Packet) (tag : FecTag) :
    (p.addPacketTag tag).getSize = p.getSize := rfl

/-- A header adds its own length. -/
@[simp] theorem getSize_addHeader (p : Packet) (h : Header) :
    (p.addHeader h).getSize = h.size + p.getSize := by
  simp [getSize, addHeader, Nat.add_assoc]

end Packet

end Ns3.Fec
