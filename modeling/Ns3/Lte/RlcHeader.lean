import Mathlib.Data.UInt
import Ns3.Lte.SequenceNumber10

/-!
# The header of an RLC UM PDU

`LteRlcHeader` of `src/lte/model/lte-rlc-header.cc`, and the fields of extension bits and length indicators behind the
fixed part, which the header of an AM PDU has as well: two of them in three bytes, and the last one in two when their
number is odd. Packets are the bytes of their buffers.

A function has no result where the program stops, or reads behind the end of a packet.
-/

namespace Ns3.Lte

/-- The bytes of a packet. -/
abbrev Bytes := List UInt8

/-- `Packet::AddHeader`: the header is written from the start of a packet with `size` bytes more in front. -/
def addHeader (size : Nat) (header packet : Bytes) : Option Bytes :=
  if header.length ≤ size + packet.length then
    some (header ++ (List.replicate size 0 ++ packet).drop header.length)
  else none

/-- `DATA_FIELD_FOLLOWS`. -/
def dataFieldFollows : UInt8 := 0

/-- `E_LI_FIELDS_FOLLOWS`. -/
def eLiFieldsFollows : UInt8 := 1

/-- `FIRST_BYTE`. -/
def firstByte : UInt8 := 0x00

/-- `NO_FIRST_BYTE`. -/
def noFirstByte : UInt8 := 0x02

/-- `LAST_BYTE`. -/
def lastByte : UInt8 := 0x00

/-- `NO_LAST_BYTE`. -/
def noLastByte : UInt8 := 0x01

/-! ### Sequence numbers -/

/-- The bits of a sequence number that go into the first byte of a header. -/
def highBits (n : SequenceNumber10) : UInt8 := UInt8.ofNat ((n.m_value >>> 8) &&& 0x0003)

/-- The bits of a sequence number that are the second byte of a header. -/
def lowBits (n : SequenceNumber10) : UInt8 := UInt8.ofNat (n.m_value &&& 0x00FF)

/-- The sequence number of a header that is new is assigned what the first two bytes hold. -/
def readSequenceNumber (byte1 byte2 : UInt8) : SequenceNumber10 :=
  (SequenceNumber10.ofValue 0xfffa).assign (((byte1 &&& 0x03).toNat <<< 8) ||| byte2.toNat)

/-! ### Extension bits and length indicators -/

/-- The first byte of an odd field. -/
def oddByte (oddE : UInt8) (oddLi : UInt16) : UInt8 :=
  ((oddE <<< 7) &&& (0x80 : UInt8)) ||| ((oddLi >>> 4) &&& 0x007F).toUInt8

/-- The two bytes of the last field, when it is an odd one. -/
def oddField (oddE : UInt8) (oddLi : UInt16) : Bytes :=
  [oddByte oddE oddLi, ((oddLi <<< 4) &&& 0x00F0).toUInt8]

/-- The three bytes of two fields. -/
def evenField (oddE : UInt8) (oddLi : UInt16) (evenE : UInt8) (evenLi : UInt16) : Bytes :=
  [oddByte oddE oddLi,
    ((oddLi <<< 4) &&& 0x00F0).toUInt8 ||| ((evenE <<< 3) &&& (0x08 : UInt8)) |||
      ((evenLi >>> 8) &&& 0x0007).toUInt8,
    (evenLi &&& 0x00FF).toUInt8]

/-- The loop of `Serialize`. -/
def writeFields : List UInt8 → List UInt16 → Bytes
  | oddE :: evenE :: it1, oddLi :: evenLi :: it2 => evenField oddE oddLi evenE evenLi ++ writeFields it1 it2
  | oddE :: _, oddLi :: _ => oddField oddE oddLi
  | _, _ => []

/-- The loop of `Deserialize`: the bits, the indicators and by how much the header is longer. -/
def readFields : Bytes → Option (List UInt8 × List UInt16 × UInt16)
  | byte1 :: byte2 :: rest =>
    let oddE := (byte1 &&& 0x80) >>> 7
    let oddLi := ((byte1 &&& 0x7F).toUInt16 <<< 4) ||| ((byte2 &&& 0xF0).toUInt16 >>> 4)
    if oddE = eLiFieldsFollows then
      match rest with
      | byte3 :: rest =>
        let evenE := (byte2 &&& 0x08) >>> 3
        let evenLi := ((byte2 &&& 0x07).toUInt16 <<< 8) ||| (byte3 &&& 0xFF).toUInt16
        if evenE = eLiFieldsFollows then
          (readFields rest).map fun fields =>
            (oddE :: evenE :: fields.1, oddLi :: evenLi :: fields.2.1, fields.2.2 + 3)
        else some ([oddE, evenE], [oddLi, evenLi], 3)
      | [] => none
    else some ([oddE], [oddLi], 2)
  | _ => none

/-- What a further extension bit adds to the length of a header: the length indicator before it. -/
def fieldLength (extensionBits : List UInt8) : UInt16 := if extensionBits.length % 2 = 1 then 1 else 2

/-! ### The header -/

/-- `LteRlcHeader`. -/
structure LteRlcHeader where
  m_headerLength : UInt16 := 0
  m_framingInfo : UInt8 := 0xff
  m_sequenceNumber : SequenceNumber10 := .ofValue 0xfffa
  m_extensionBits : List UInt8 := []
  m_lengthIndicators : List UInt16 := []
deriving DecidableEq, Repr

namespace LteRlcHeader

/-- `SetFramingInfo`. -/
def setFramingInfo (framingInfo : UInt8) (h : LteRlcHeader) : LteRlcHeader :=
  { h with m_framingInfo := framingInfo &&& 0x03 }

/-- `SetSequenceNumber`. -/
def setSequenceNumber (sequenceNumber : SequenceNumber10) (h : LteRlcHeader) : LteRlcHeader :=
  { h with m_sequenceNumber := sequenceNumber }

/-- `PushExtensionBit`. -/
def pushExtensionBit (extensionBit : UInt8) (h : LteRlcHeader) : LteRlcHeader :=
  let bits := h.m_extensionBits ++ [extensionBit]
  { h with
    m_extensionBits := bits
    m_headerLength := if bits.length = 1 then 2 else h.m_headerLength + fieldLength bits }

/-- `PushLengthIndicator`. -/
def pushLengthIndicator (lengthIndicator : UInt16) (h : LteRlcHeader) : LteRlcHeader :=
  { h with m_lengthIndicators := h.m_lengthIndicators ++ [lengthIndicator] }

/-- `GetSerializedSize`. -/
def getSerializedSize (h : LteRlcHeader) : Nat := h.m_headerLength.toNat

/-- `Serialize`. -/
def serialize (h : LteRlcHeader) : Option Bytes :=
  match h.m_extensionBits with
  | [] => none
  | it1 :: bits =>
    some ((((h.m_framingInfo <<< 3) &&& (0x18 : UInt8)) ||| ((it1 <<< 2) &&& (0x04 : UInt8)) |||
        highBits h.m_sequenceNumber) ::
      lowBits h.m_sequenceNumber :: writeFields bits h.m_lengthIndicators)

/-- `Deserialize`, into a header that is new. -/
def deserialize : Bytes → Option LteRlcHeader
  | byte1 :: byte2 :: rest =>
    let extensionBit := (byte1 &&& 0x04) >>> 2
    let h : LteRlcHeader :=
      { m_headerLength := 2
        m_framingInfo := (byte1 &&& 0x18) >>> 3
        m_sequenceNumber := readSequenceNumber byte1 byte2
        m_extensionBits := [extensionBit] }
    if extensionBit = dataFieldFollows then some h
    else
      (readFields rest).map fun fields =>
        { h with
          m_headerLength := 2 + fields.2.2
          m_extensionBits := extensionBit :: fields.1
          m_lengthIndicators := fields.2.1 }
  | _ => none

end LteRlcHeader

end Ns3.Lte
