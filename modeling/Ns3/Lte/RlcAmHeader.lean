import Ns3.Lte.RlcHeader

/-!
# The header of an RLC AM PDU

`LteRlcAmHeader` of `src/lte/model/lte-rlc-am-header.cc`. A data PDU has two bytes more than a UM PDU in its fixed
part. The header of a control PDU holds the sequence numbers that a STATUS report acknowledges and misses: each missing
one takes 12 bits, with its two extension bits.

A function has no result where the program stops, or reads behind the end of a packet.
-/

namespace Ns3.Lte

/-- `CONTROL_PDU`. -/
def controlPdu : UInt8 := 0

/-- `DATA_PDU`. -/
def dataPdu : UInt8 := 1

/-- `STATUS_PDU`. -/
def statusPdu : UInt8 := 0

/-- `PDU`, of the resegmentation flag. -/
def wholePdu : UInt8 := 0

/-- `SEGMENT`. -/
def pduSegment : UInt8 := 1

/-- `STATUS_REPORT_NOT_REQUESTED`. -/
def statusReportNotRequested : UInt8 := 0

/-- `STATUS_REPORT_IS_REQUESTED`. -/
def statusReportIsRequested : UInt8 := 1

/-- `LAST_PDU_SEGMENT`. -/
def lastPduSegment : UInt8 := 1

/-- `LteRlcAmHeader`. -/
structure LteRlcAmHeader where
  m_headerLength : UInt16 := 0
  m_dataControlBit : UInt8 := 0xff
  m_resegmentationFlag : UInt8 := 0xff
  m_pollingBit : UInt8 := 0xff
  m_framingInfo : UInt8 := 0xff
  m_sequenceNumber : SequenceNumber10 := .ofValue 0xfffa
  m_lastSegmentFlag : UInt8 := 0
  m_segmentOffset : UInt16 := 0xffff
  m_extensionBits : List UInt8 := []
  m_lengthIndicators : List UInt16 := []
  m_controlPduType : UInt8 := 0xff
  m_ackSn : SequenceNumber10 := .ofValue 0xffff
  m_nackSnList : List Nat := []
deriving DecidableEq, Repr

/-- The loop of `Serialize` over the missing sequence numbers, whose first one has left its highest bit behind. -/
def writeNacks (oddNack : Nat) : List Nat → Bytes
  | [] => [UInt8.ofNat ((oddNack >>> 1) &&& 0xFF), UInt8.ofNat ((oddNack <<< 7) &&& 0x80)]
  | [evenNack] =>
    [UInt8.ofNat ((oddNack >>> 1) &&& 0xFF),
      UInt8.ofNat (((oddNack <<< 7) &&& 0x80) ||| 0x40 ||| ((evenNack >>> 5) &&& 0x1F)),
      UInt8.ofNat ((evenNack <<< 3) &&& 0xF8)]
  | evenNack :: nextNack :: nacks =>
    UInt8.ofNat ((oddNack >>> 1) &&& 0xFF) ::
      UInt8.ofNat (((oddNack <<< 7) &&& 0x80) ||| 0x40 ||| ((evenNack >>> 5) &&& 0x1F)) ::
      UInt8.ofNat (((evenNack <<< 3) &&& 0xF8) ||| 0x04 ||| ((nextNack >>> 9) &&& 0x01)) :: writeNacks nextNack nacks

/-- The loop of `Deserialize` over further missing sequence numbers, and by how much the header is longer. -/
def readNacks (byte : UInt8) : Bytes → Option (List Nat × UInt16)
  | nextByte :: rest =>
    let nack := ((byte &&& 0x1F).toNat <<< 5) ||| ((nextByte &&& 0xF8) >>> 3).toNat
    if (nextByte &&& 0x04) >>> 2 = 1 then
      match rest with
      | nextByte' :: finalByte :: rest =>
        let nack' := ((nextByte &&& 0x01).toNat <<< 9) ||| (nextByte'.toNat <<< 1) |||
          ((finalByte &&& 0x80) >>> 7).toNat
        if (finalByte &&& 0x40) >>> 6 = 1 then
          (readNacks finalByte rest).map fun nacks => (nack :: nack' :: nacks.1, nacks.2 + 3)
        else some ([nack, nack'], 3)
      | _ => none
    else some ([nack], 1)
  | [] => none

namespace LteRlcAmHeader

/-- `SetDataPdu`. -/
def setDataPdu (h : LteRlcAmHeader) : LteRlcAmHeader := { h with m_headerLength := 4, m_dataControlBit := dataPdu }

/-- `SetControlPdu`. -/
def setControlPdu (controlPduType : UInt8) (h : LteRlcAmHeader) : LteRlcAmHeader :=
  { h with m_headerLength := 2, m_dataControlBit := controlPdu, m_controlPduType := controlPduType }

/-- `SetFramingInfo`. -/
def setFramingInfo (framingInfo : UInt8) (h : LteRlcAmHeader) : LteRlcAmHeader :=
  { h with m_framingInfo := framingInfo &&& 0x03 }

/-- `SetSequenceNumber`. -/
def setSequenceNumber (sequenceNumber : SequenceNumber10) (h : LteRlcAmHeader) : LteRlcAmHeader :=
  { h with m_sequenceNumber := sequenceNumber }

/-- `SetResegmentationFlag`. -/
def setResegmentationFlag (resegFlag : UInt8) (h : LteRlcAmHeader) : LteRlcAmHeader :=
  { h with m_resegmentationFlag := resegFlag &&& 0x01 }

/-- `SetPollingBit`. -/
def setPollingBit (pollingBit : UInt8) (h : LteRlcAmHeader) : LteRlcAmHeader :=
  { h with m_pollingBit := pollingBit &&& 0x01 }

/-- `SetLastSegmentFlag`. -/
def setLastSegmentFlag (lsf : UInt8) (h : LteRlcAmHeader) : LteRlcAmHeader :=
  { h with m_lastSegmentFlag := lsf &&& 0x01 }

/-- `SetSegmentOffset`. -/
def setSegmentOffset (segmentOffset : UInt16) (h : LteRlcAmHeader) : LteRlcAmHeader :=
  { h with m_segmentOffset := segmentOffset &&& 0x7FFF }

/-- `PushExtensionBit`. -/
def pushExtensionBit (extensionBit : UInt8) (h : LteRlcAmHeader) : LteRlcAmHeader :=
  let bits := h.m_extensionBits ++ [extensionBit]
  { h with
    m_extensionBits := bits
    m_headerLength := if 1 < bits.length then h.m_headerLength + fieldLength bits else h.m_headerLength }

/-- `PushLengthIndicator`. -/
def pushLengthIndicator (lengthIndicator : UInt16) (h : LteRlcAmHeader) : LteRlcAmHeader :=
  { h with m_lengthIndicators := h.m_lengthIndicators ++ [lengthIndicator] }

/-- `SetAckSn`. -/
def setAckSn (ackSn : SequenceNumber10) (h : LteRlcAmHeader) : LteRlcAmHeader := { h with m_ackSn := ackSn }

/-- `OneMoreNackWouldFitIn`. -/
def oneMoreNackWouldFitIn (bytes : UInt16) (h : LteRlcAmHeader) : Bool :=
  if h.m_nackSnList.length % 2 = 0 then h.m_headerLength < bytes
  else (h.m_headerLength.toNat : Int) < bytes.toNat - 1

/-- `PushNack`. -/
def pushNack (nack : Nat) (h : LteRlcAmHeader) : LteRlcAmHeader :=
  let nacks := h.m_nackSnList ++ [nack]
  { h with
    m_nackSnList := nacks
    m_headerLength := if nacks.length % 2 = 0 then h.m_headerLength + 1 else h.m_headerLength + 2 }

/-- `IsNackPresent`. -/
def isNackPresent (nack : SequenceNumber10) (h : LteRlcAmHeader) : Bool := h.m_nackSnList.contains nack.m_value

/-- `GetSerializedSize`. -/
def getSerializedSize (h : LteRlcAmHeader) : Nat := h.m_headerLength.toNat

/-- `Serialize`. -/
def serialize (h : LteRlcAmHeader) : Option Bytes :=
  if h.m_dataControlBit = dataPdu then
    match h.m_extensionBits with
    | [] => none
    | it1 :: bits =>
      some ((((dataPdu <<< 7) &&& (0x80 : UInt8)) ||| ((h.m_resegmentationFlag <<< 6) &&& (0x40 : UInt8)) |||
          ((h.m_pollingBit <<< 5) &&& (0x20 : UInt8)) ||| ((h.m_framingInfo <<< 3) &&& (0x18 : UInt8)) |||
          ((it1 <<< 2) &&& (0x04 : UInt8)) ||| highBits h.m_sequenceNumber) ::
        lowBits h.m_sequenceNumber ::
        (((h.m_lastSegmentFlag <<< 7) &&& (0x80 : UInt8)) ||| ((h.m_segmentOffset >>> 8) &&& 0x007F).toUInt8) ::
        (h.m_segmentOffset &&& 0x00FF).toUInt8 :: writeFields bits h.m_lengthIndicators)
  else
    let byte1 := ((controlPdu <<< 7) &&& (0x80 : UInt8)) ||| ((h.m_controlPduType <<< 4) &&& (0x70 : UInt8)) |||
      UInt8.ofNat ((h.m_ackSn.m_value >>> 6) &&& 0x0F)
    match h.m_nackSnList with
    | [] => some [byte1, UInt8.ofNat ((h.m_ackSn.m_value <<< 2) &&& 0xFC)]
    | oddNack :: nacks =>
      some (byte1 :: UInt8.ofNat (((h.m_ackSn.m_value <<< 2) &&& 0xFC) ||| 0x02 ||| ((oddNack >>> 9) &&& 0x01)) ::
        writeNacks oddNack nacks)

/-- `Deserialize` of a data PDU, behind its first byte. -/
def deserializeData (byte1 : UInt8) : Bytes → Option LteRlcAmHeader
  | byte2 :: byte3 :: byte4 :: rest =>
    let extensionBit := (byte1 &&& 0x04) >>> 2
    let h : LteRlcAmHeader :=
      { m_headerLength := 4
        m_dataControlBit := (byte1 &&& 0x80) >>> 7
        m_resegmentationFlag := (byte1 &&& 0x40) >>> 6
        m_pollingBit := (byte1 &&& 0x20) >>> 5
        m_framingInfo := (byte1 &&& 0x18) >>> 3
        m_sequenceNumber := readSequenceNumber byte1 byte2
        m_lastSegmentFlag := (byte3 &&& 0x80) >>> 7
        m_segmentOffset := ((byte3 &&& 0x7F) ||| byte4).toUInt16
        m_extensionBits := [extensionBit] }
    if extensionBit = dataFieldFollows then some h
    else
      (readFields rest).map fun fields =>
        { h with
          m_headerLength := 4 + fields.2.2
          m_extensionBits := extensionBit :: fields.1
          m_lengthIndicators := fields.2.1 }
  | _ => none

/-- `Deserialize` of a control PDU, behind its first byte. -/
def deserializeControl (byte1 : UInt8) : Bytes → Option LteRlcAmHeader
  | byte2 :: rest =>
    let h : LteRlcAmHeader :=
      { m_headerLength := 2
        m_dataControlBit := (byte1 &&& 0x80) >>> 7
        m_controlPduType := (byte1 &&& 0x70) >>> 4
        m_ackSn := (SequenceNumber10.ofValue 0xffff).assign
          (((byte1 &&& 0x0F).toNat <<< 6) ||| ((byte2 &&& 0xFC) >>> 2).toNat) }
    if (byte2 &&& 0x02) >>> 1 = 1 then
      match rest with
      | byte3 :: byte4 :: rest =>
        let nack := ((byte2 &&& 0x01).toNat <<< 9) ||| (byte3.toNat <<< 1) ||| ((byte4 &&& 0x80) >>> 7).toNat
        if (byte4 &&& 0x40) >>> 6 = 1 then
          (readNacks byte4 rest).map fun nacks =>
            { h with m_headerLength := 4 + nacks.2, m_nackSnList := nack :: nacks.1 }
        else some { h with m_headerLength := 4, m_nackSnList := [nack] }
      | _ => none
    else some h
  | [] => none

/-- `Deserialize`, into a header that is new. -/
def deserialize : Bytes → Option LteRlcAmHeader
  | byte1 :: rest =>
    if (byte1 &&& 0x80) >>> 7 = dataPdu then deserializeData byte1 rest else deserializeControl byte1 rest
  | [] => none

end LteRlcAmHeader

end Ns3.Lte
