import Ns3.Lib.Loop
import Ns3.Lte.DataField
import Ns3.Lte.RlcAmHeader

/-!
# The transmitting side of an AM RLC entity

What `LteRlcAm` of `src/lte/model/lte-rlc-am.cc` does with SDUs (147–192), in a transmit opportunity for data
(292–761), with a STATUS report (1031–1131) and when the poll retransmit timer expires (1701–1744).

A function has no result where the program stops: where an assertion fails, a position is not in a buffer, or the first
of no segments is looked at.
-/

namespace Ns3.Lte

open Ns3.Lib

/-- The transmitting side of `LteRlcAm`. A timer is given by whether it is running. -/
structure AmTransmitter where
  m_maxTxBufferSize : Nat := 10 * 1024
  m_txOpportunityForRetxAlwaysBigEnough : Bool := false
  m_pollPdu : Nat := 1
  m_pollByte : Nat := 50
  m_txonBuffer : List Sdu := []
  m_txonBufferSize : Nat := 0
  m_txedBuffer : List (Option Bytes) := List.replicate 1024 none
  m_txedBufferSize : Nat := 0
  m_retxBuffer : List (Option Bytes) := List.replicate 1024 none
  m_retxBufferSize : Nat := 0
  m_vtA : SequenceNumber10 := {}
  m_vtMs : SequenceNumber10 := SequenceNumber10.add {} windowSize
  m_vtS : SequenceNumber10 := {}
  m_pollSn : SequenceNumber10 := {}
  m_pduWithoutPoll : Nat := 0
  m_byteWithoutPoll : Nat := 0
  m_pollRetransmitTimer : Bool := false
  m_pollRetransmitTimerJustExpired : Bool := false

namespace AmTransmitter

/-- `DoTransmitPdcpPdu`. -/
def transmitPdcpPdu (p : Bytes) (tx : AmTransmitter) : AmTransmitter :=
  if add32 tx.m_txonBufferSize p.length ≤ tx.m_maxTxBufferSize ∨ tx.m_maxTxBufferSize = 0 then
    { tx with
      m_txonBuffer := tx.m_txonBuffer ++ [⟨p, .fullSdu⟩]
      m_txonBufferSize := add32 tx.m_txonBufferSize p.length }
  else tx

/-! ### A transmit opportunity -/

/-- The header asks for a STATUS report, and the timer is started again. -/
def poll (header : LteRlcAmHeader) (tx : AmTransmitter) : LteRlcAmHeader × AmTransmitter :=
  (header.setPollingBit statusReportIsRequested,
    { tx with
      m_pollRetransmitTimerJustExpired := false
      m_pduWithoutPoll := 0
      m_byteWithoutPoll := 0
      m_pollSn := tx.m_vtS.sub 1
      m_pollRetransmitTimer := true })

/-- The header asks for no STATUS report, unless one is needed, or the window is at its end. -/
def pollWhen (needed : Bool) (header : LteRlcAmHeader) (tx : AmTransmitter) :
    Option (LteRlcAmHeader × AmTransmitter) :=
  let header := header.setPollingBit statusReportNotRequested
  if needed then some (tx.poll header)
  else
    (tx.m_vtS.ge tx.m_vtMs).map fun (ge : Bool) =>
      if ge ∨ tx.m_pollRetransmitTimerJustExpired then tx.poll header else (header, tx)

/-- The body of the loop that looks for a PDU to retransmit. -/
def retxTurn (tx : AmTransmitter) (sn : SequenceNumber10) :
    Option (Turn SequenceNumber10 (Option (Nat × Bytes))) :=
  (sn.lt tx.m_vtS).bind fun lt =>
    if lt then
      tx.m_retxBuffer[sn.m_value]?.map fun
        | some pdu => .leave (some (sn.m_value, pdu))
        | none => .again sn.incr
    else some (.leave none)

/-- A PDU is retransmitted if it fits: the data field is left as is, but the header is built again. -/
def retransmit (bytes seqNumberValue : Nat) (pdu : Bytes) (tx : AmTransmitter) :
    Option (Option Bytes × AmTransmitter) :=
  if pdu.length ≤ bytes ∨ tx.m_txOpportunityForRetxAlwaysBigEnough then
    (LteRlcAmHeader.deserialize pdu).bind fun header =>
    let packet := pdu.drop header.getSerializedSize
    let last := decide (tx.m_retxBufferSize = add32 packet.length header.getSerializedSize)
    (tx.pollWhen (tx.m_txonBuffer.isEmpty && last) header).bind fun (header, tx) =>
    header.serialize.bind fun bytes =>
    (addHeader header.getSerializedSize bytes packet).map fun packet =>
      (some packet, { tx with
        m_txedBuffer := tx.m_txedBuffer.set seqNumberValue (some pdu)
        m_txedBufferSize := add32 tx.m_txedBufferSize pdu.length
        m_retxBuffer := tx.m_retxBuffer.set seqNumberValue none
        m_retxBufferSize := sub32 tx.m_retxBufferSize pdu.length })
  else some (none, tx)

/-- Sending data from the retransmission buffer. -/
def sendRetx (limit bytes : Nat) (tx : AmTransmitter) : Option (Option Bytes × AmTransmitter) :=
  (tx.m_vtA.lt tx.m_vtS).bind fun lt =>
    if lt then
      (rounds tx.retxTurn limit tx.m_vtA).bind fun found =>
        found.bind fun (seqNumberValue, pdu) => tx.retransmit bytes seqNumberValue pdu
    else none

/-- The header of a new PDU, but for its sequence number, its framing info and its polling bit. -/
def newHeader (filled : Filled) : LteRlcAmHeader :=
  let header := LteRlcAmHeader.setDataPdu {}
  let header := filled.extensionBits.foldl (fun h bit => h.pushExtensionBit bit) header
  let header := filled.lengthIndicators.foldl (fun h li => h.pushLengthIndicator li) header
  ((header.setResegmentationFlag wholePdu).setLastSegmentFlag lastPduSegment).setSegmentOffset 0

/-- A new PDU is built from its data field, and stored into the transmitted PDU buffer. -/
def sendFilled (filled : Filled) (tx : AmTransmitter) : Option (Option Bytes × AmTransmitter) :=
  let sn := tx.m_vtS
  let tx := { tx with
    m_txonBuffer := filled.txBuffer
    m_txonBufferSize := filled.txBufferSize
    m_vtS := tx.m_vtS.incr }
  (sn.lt tx.m_vtMs).bind fun below =>
  (sn.ge tx.m_vtA).bind fun above =>
  if below ∧ above then
    filled.dataField.head?.bind fun first =>
    filled.dataField.getLast?.bind fun last =>
    let packet := joined filled.dataField
    let header := ((newHeader filled).setSequenceNumber sn).setFramingInfo (framingInfo first last)
    let tx := { tx with
      m_pduWithoutPoll := add32 tx.m_pduWithoutPoll 1
      m_byteWithoutPoll := add32 tx.m_byteWithoutPoll packet.length }
    let needed := decide (tx.m_pollPdu ≤ tx.m_pduWithoutPoll ∨ tx.m_pollByte ≤ tx.m_byteWithoutPoll ∨
      tx.m_txonBuffer = [] ∧ tx.m_retxBufferSize = 0)
    (tx.pollWhen needed header).bind fun (header, tx) =>
    header.serialize.bind fun bytes =>
    (addHeader header.getSerializedSize bytes packet).bind fun packet =>
    if sn.m_value < tx.m_txedBuffer.length then
      some (some packet, { tx with
        m_txedBuffer := tx.m_txedBuffer.set sn.m_value (some packet)
        m_txedBufferSize := add32 tx.m_txedBufferSize packet.length })
    else none
  else none

/-- Sending data from the transmission buffer. -/
def sendTxon (bytes : Nat) (tx : AmTransmitter) : Option (Option Bytes × AmTransmitter) :=
  if 7 ≤ bytes then
    (tx.m_vtS.le tx.m_vtMs).bind fun le =>
    if le then
      if tx.m_vtS.m_value = tx.m_vtMs.m_value then some (none, tx)
      else
        match tx.m_txonBuffer with
        | [] => some (none, tx)
        | sdu :: txBuffer =>
          tx.sendFilled (fill sdu (bytes - 4) 1 (sub32 tx.m_txonBufferSize sdu.bytes.length) txBuffer)
    else none
  else none

/-- `DoNotifyTxOpportunity`, for data. -/
def notifyTxOpportunity (limit bytes : Nat) (tx : AmTransmitter) : Option (Option Bytes × AmTransmitter) :=
  if 0 < tx.m_retxBufferSize then tx.sendRetx limit bytes
  else if 0 < tx.m_txonBufferSize then tx.sendTxon bytes
  else some (none, tx)

/-! ### A STATUS PDU -/

/-- A PDU moves from the transmitted to the retransmission buffer. -/
def moveToRetx (seqNumberValue : Nat) (pdu : Bytes) (tx : AmTransmitter) : AmTransmitter :=
  { tx with
    m_retxBuffer := tx.m_retxBuffer.set seqNumberValue (some pdu)
    m_retxBufferSize := add32 tx.m_retxBufferSize pdu.length
    m_txedBuffer := tx.m_txedBuffer.set seqNumberValue none
    m_txedBufferSize := sub32 tx.m_txedBufferSize pdu.length }

/-- A sequence number that is NACKed. Its PDU has to be in the retransmission buffer then. -/
def nack (seqNumberValue : Nat) (tx : AmTransmitter) : Option AmTransmitter :=
  tx.m_txedBuffer[seqNumberValue]?.bind fun txed =>
    let tx := match txed with
      | some pdu => tx.moveToRetx seqNumberValue pdu
      | none => tx
    tx.m_retxBuffer[seqNumberValue]?.bind fun retx => if retx.isSome then some tx else none

/-- A sequence number that is ACKed. Its PDU may not be in both buffers. -/
def ack (seqNumberValue : Nat) (tx : AmTransmitter) : Option AmTransmitter :=
  tx.m_txedBuffer[seqNumberValue]?.bind fun txed =>
  tx.m_retxBuffer[seqNumberValue]?.bind fun retx =>
    match txed, retx with
    | some _, some _ => none
    | some pdu, none => some { tx with
        m_txedBufferSize := sub32 tx.m_txedBufferSize pdu.length
        m_txedBuffer := tx.m_txedBuffer.set seqNumberValue none }
    | none, some pdu => some { tx with
        m_retxBufferSize := sub32 tx.m_retxBufferSize pdu.length
        m_retxBuffer := tx.m_retxBuffer.set seqNumberValue none }
    | none, none => some tx

/-- VT(A) is one more, VT(MS) with it, and the base of the others. -/
def incrVtA (tx : AmTransmitter) : AmTransmitter :=
  let vtA := tx.m_vtA.incr
  { tx with
    m_vtA := vtA.setModulusBase vtA
    m_vtMs := (vtA.add windowSize).setModulusBase vtA
    m_vtS := tx.m_vtS.setModulusBase vtA }

/-- The state of the loop over the sequence numbers from VT(A) on. -/
structure Acking where
  sn : SequenceNumber10
  ackSn : SequenceNumber10
  incrementVtA : Bool
  tx : AmTransmitter

/-- The poll retransmit timer is cancelled by a report about POLL_SN. -/
def cancelPoll (seqNumberValue : Nat) (tx : AmTransmitter) : AmTransmitter :=
  if tx.m_pollRetransmitTimer ∧ seqNumberValue = tx.m_pollSn.m_value then { tx with m_pollRetransmitTimer := false }
  else tx

/-- Behind a sequence number: VT(A) has followed it unless one before it was NACKed. -/
def Acking.next (s : Acking) : Acking :=
  if s.incrementVtA then
    let tx := s.tx.incrVtA
    { s with
      tx
      ackSn := s.ackSn.setModulusBase tx.m_vtA
      sn := (s.sn.setModulusBase tx.m_vtA).incr }
  else { s with sn := s.sn.incr }

/-- The body of the loop. -/
def ackTurn (header : LteRlcAmHeader) (s : Acking) : Option (Turn Acking AmTransmitter) :=
  (s.sn.lt s.ackSn).bind fun acked =>
  (if acked then s.sn.lt s.tx.m_vtS else some false).bind fun sent =>
    if sent then
      let tx := s.tx.cancelPoll s.sn.m_value
      if header.isNackPresent s.sn then
        (tx.nack s.sn.m_value).map fun tx => .again { s with tx, incrementVtA := false }.next
      else (tx.ack s.sn.m_value).map fun tx => .again { s with tx }.next
    else some (.leave s.tx)

/-- `DoReceivePdu`, of a STATUS PDU. -/
def receiveStatus (limit : Nat) (header : LteRlcAmHeader) (tx : AmTransmitter) : Option AmTransmitter :=
  let vtA := tx.m_vtA.setModulusBase tx.m_vtA
  let tx := { tx with
    m_vtA := vtA
    m_vtS := tx.m_vtS.setModulusBase vtA
    m_vtMs := tx.m_vtMs.setModulusBase vtA }
  rounds (ackTurn header) limit ⟨vtA, header.m_ackSn.setModulusBase vtA, true, tx⟩

/-! ### The poll retransmit timer -/

/-- The body of the loop that moves all PDUs to the retransmission buffer. -/
def expireTurn (s : SequenceNumber10 × AmTransmitter) :
    Option (Turn (SequenceNumber10 × AmTransmitter) AmTransmitter) :=
  (s.1.lt s.2.m_vtS).bind fun lt =>
    if lt then
      s.2.m_txedBuffer[s.1.m_value]?.map fun
        | some pdu => .again (s.1.incr, s.2.moveToRetx s.1.m_value pdu)
        | none => .again (s.1.incr, s.2)
    else some (.leave s.2)

/-- `ExpirePollRetransmitTimer`. -/
def expirePollRetransmitTimer (limit : Nat) (tx : AmTransmitter) : Option AmTransmitter :=
  let tx := { tx with m_pollRetransmitTimer := false, m_pollRetransmitTimerJustExpired := true }
  (tx.m_vtS.le tx.m_vtMs).bind fun le =>
    if le then
      if tx.m_txonBufferSize = 0 ∧ tx.m_retxBufferSize = 0 ∨ tx.m_vtS.m_value = tx.m_vtMs.m_value then
        rounds expireTurn limit (tx.m_vtA, tx)
      else some tx
    else none

end AmTransmitter

end Ns3.Lte
