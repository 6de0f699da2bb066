import Mathlib.Data.List.AList
import Ns3.Lib.Loop
import Ns3.Lte.RlcAmHeader
import Ns3.Lte.SduReassembly

/-!
# The receiving side of an AM RLC entity

What `LteRlcAm` of `src/lte/model/lte-rlc-am.cc` does with data PDUs (844–1030), when t-Reordering expires
(1659–1699) and for a STATUS report (216–290). Each loop goes round at most `limit` times, which is a parameter.

A function has no result where the program stops.
-/

namespace Ns3.Lte

open Ns3.Lib

/-- `PduBuffer`, of `LteRlcAm`. -/
structure PduBuffer where
  m_byteSegments : List Bytes := []
  m_pduComplete : Bool := false
deriving DecidableEq, Repr

/-- The receiving side of `LteRlcAm`. A timer is given by whether it is running. -/
structure AmReceiver where
  m_rxonBuffer : AList fun _ : Nat => PduBuffer := ∅
  m_vrR : SequenceNumber10 := {}
  m_vrMr : SequenceNumber10 := SequenceNumber10.add {} windowSize
  m_vrX : SequenceNumber10 := {}
  m_vrMs : SequenceNumber10 := {}
  m_vrH : SequenceNumber10 := {}
  m_reorderingTimer : Bool := false
  m_statusPduRequested : Bool := false
  m_statusPduBufferSize : Nat := 0
  m_statusProhibitTimer : Bool := false
  reassembly : Reassembly := {}

/-- `LteRlcAm::ReassembleAndDeliver`. -/
def amReassembleAndDeliver (packet : Bytes) (r : Reassembly) : Option Reassembly :=
  (LteRlcAmHeader.deserialize packet).bind fun h =>
    r.reassembleAndDeliver false ⟨h.m_framingInfo, h.m_sequenceNumber, h.m_extensionBits, h.m_lengthIndicators⟩
      (packet.drop h.getSerializedSize)

namespace AmReceiver

/-- `IsInsideReceivingWindow`. -/
def isInsideReceivingWindow (seqNumber : SequenceNumber10) (rx : AmReceiver) : Option (Bool × AmReceiver) :=
  let rx := { rx with
    m_vrR := rx.m_vrR.setModulusBase rx.m_vrR
    m_vrMr := rx.m_vrMr.setModulusBase rx.m_vrR }
  let seqNumber := seqNumber.setModulusBase rx.m_vrR
  (rx.m_vrR.le seqNumber).bind fun low =>
    if low then (seqNumber.lt rx.m_vrMr).map (·, rx) else some (false, rx)

/-- A PDU is found in the buffer, and is complete. -/
def complete (buffer : AList fun _ : Nat => PduBuffer) (sn : Nat) : Bool :=
  match buffer.lookup sn with
  | some pdu => pdu.m_pduComplete
  | none => false

/-! ### A data PDU -/

/-- STATUS PDU is requested. -/
def requestStatus (header : LteRlcAmHeader) (rx : AmReceiver) : AmReceiver :=
  if header.m_pollingBit = statusReportIsRequested then
    { rx with m_statusPduRequested := true, m_statusPduBufferSize := 4 }
  else rx

/-- Place the PDU in the reception buffer, when the segment was not received before. -/
def place (seqNumber : SequenceNumber10) (packet : Bytes) (rx : AmReceiver) : Option AmReceiver :=
  match rx.m_rxonBuffer.lookup seqNumber.m_value with
  | some pdu => if pdu.m_byteSegments.length = 1 then some rx else none
  | none => some { rx with m_rxonBuffer := rx.m_rxonBuffer.insert seqNumber.m_value ⟨[packet], true⟩ }

/-- Update VR(H) to x + 1. -/
def updateVrH (seqNumber : SequenceNumber10) (rx : AmReceiver) : Option AmReceiver :=
  (seqNumber.ge rx.m_vrH).map fun ge => if ge then { rx with m_vrH := seqNumber.add 1 } else rx

/-- The body of the loop that updates VR(MS), which began at `firstVrMs`. -/
def vrMsTurn (buffer : AList fun _ : Nat => PduBuffer) (firstVrMs : Nat) (vrMs : SequenceNumber10) :
    Option (Turn SequenceNumber10 SequenceNumber10) :=
  if complete buffer vrMs.m_value then
    if firstVrMs = vrMs.incr.m_value then none else some (.again vrMs.incr)
  else some (.leave vrMs)

/-- Update VR(MS). -/
def updateVrMs (limit : Nat) (rx : AmReceiver) : Option AmReceiver :=
  (rounds (vrMsTurn rx.m_rxonBuffer rx.m_vrMs.m_value) limit rx.m_vrMs).map fun vrMs => { rx with m_vrMs := vrMs }

/-- VR(R) is one more, and the base of the others with it. -/
def incrVrR (rx : AmReceiver) : AmReceiver :=
  let vrR := rx.m_vrR.incr.setModulusBase rx.m_vrR.incr
  { rx with
    m_vrR := vrR
    m_vrX := rx.m_vrX.setModulusBase vrR
    m_vrMs := rx.m_vrMs.setModulusBase vrR
    m_vrH := rx.m_vrH.setModulusBase vrR }

/-- The body of the loop that reassembles and delivers, which began at `firstVrR`. -/
def deliverTurn (firstVrR : Nat) (rx : AmReceiver) : Option (Turn AmReceiver AmReceiver) :=
  match rx.m_rxonBuffer.lookup rx.m_vrR.m_value with
  | none => some (.leave rx)
  | some pdu =>
    if pdu.m_pduComplete then
      match pdu.m_byteSegments with
      | [packet] =>
        (amReassembleAndDeliver packet rx.reassembly).bind fun r =>
          let rx := { rx with reassembly := r, m_rxonBuffer := rx.m_rxonBuffer.erase rx.m_vrR.m_value }.incrVrR
          if firstVrR = rx.m_vrR.m_value then none else some (.again rx)
      | _ => none
    else some (.leave rx)

/-- When x = VR(R), reassemble and deliver, and update VR(MR). -/
def deliver (limit : Nat) (seqNumber : SequenceNumber10) (rx : AmReceiver) : Option AmReceiver :=
  if seqNumber.m_value = rx.m_vrR.m_value ∧ complete rx.m_rxonBuffer seqNumber.m_value then
    (rounds (deliverTurn rx.m_vrR.m_value) limit rx).map fun rx =>
      { rx with m_vrMr := rx.m_vrR.add windowSize }
  else some rx

/-- Stop and reset t-Reordering. -/
def stopReordering (rx : AmReceiver) : Option AmReceiver :=
  if rx.m_reorderingTimer then
    if rx.m_vrX.m_value = rx.m_vrR.m_value then some { rx with m_reorderingTimer := false }
    else
      (rx.isInsideReceivingWindow rx.m_vrX).map fun (inside, rx) =>
        if !inside ∧ rx.m_vrX.m_value ≠ rx.m_vrMr.m_value then { rx with m_reorderingTimer := false } else rx
  else some rx

/-- Start t-Reordering. -/
def startReordering (rx : AmReceiver) : Option AmReceiver :=
  if rx.m_reorderingTimer then some rx
  else
    (rx.m_vrH.gt rx.m_vrR).map fun gt =>
      if gt then { rx with m_reorderingTimer := true, m_vrX := rx.m_vrH } else rx

/-- `DoReceivePdu`, of a data PDU. -/
def receiveData (limit : Nat) (header : LteRlcAmHeader) (packet : Bytes) (rx : AmReceiver) : Option AmReceiver :=
  let seqNumber := header.m_sequenceNumber.setModulusBase rx.m_vrR
  if header.m_resegmentationFlag = pduSegment ∨ header.m_resegmentationFlag = wholePdu then
    ((rx.requestStatus header).isInsideReceivingWindow seqNumber).bind fun (inside, rx) =>
      if inside then
        (rx.place seqNumber packet).bind fun rx =>
        (rx.updateVrH seqNumber).bind fun rx =>
        (rx.updateVrMs limit).bind fun rx =>
        (rx.deliver limit seqNumber).bind fun rx =>
        rx.stopReordering.bind startReordering
      else some rx
  else none

/-! ### The timers -/

/-- `ExpireReorderingTimer`. -/
def expireReorderingTimer (limit : Nat) (rx : AmReceiver) : Option AmReceiver :=
  (rounds (vrMsTurn rx.m_rxonBuffer rx.m_vrX.m_value) limit rx.m_vrX).bind fun vrMs =>
    (rx.m_vrH.gt vrMs).map fun gt =>
      let rx := { rx with m_vrMs := vrMs, m_reorderingTimer := false, m_statusPduRequested := true }
      if gt then { rx with m_reorderingTimer := true, m_vrX := rx.m_vrH } else rx

/-! ### A STATUS PDU -/

/-- The body of the loop that looks for sequence numbers to NACK. -/
def nackTurn (bytes : UInt16) (rx : AmReceiver) (s : SequenceNumber10 × LteRlcAmHeader) :
    Option (Turn (SequenceNumber10 × LteRlcAmHeader) (SequenceNumber10 × LteRlcAmHeader)) :=
  (s.1.lt rx.m_vrMs).map fun (lt : Bool) =>
    if lt ∧ s.2.oneMoreNackWouldFitIn bytes then
      .again (s.1.incr, if complete rx.m_rxonBuffer s.1.m_value then s.2 else s.2.pushNack s.1.m_value)
    else .leave s

/-- The body of the loop that looks for the first sequence number behind that is not reported as received. -/
def ackSnTurn (rx : AmReceiver) (sn : SequenceNumber10) : Option (Turn SequenceNumber10 SequenceNumber10) :=
  (sn.lt rx.m_vrMs).map fun (lt : Bool) =>
    if lt ∧ complete rx.m_rxonBuffer sn.m_value then .again sn.incr else .leave sn

/-- `DoNotifyTxOpportunity`, for a STATUS PDU. -/
def sendStatus (limit bytes : Nat) (rx : AmReceiver) : Option (Bytes × AmReceiver) :=
  if rx.m_statusPduBufferSize ≤ bytes then
    let header := LteRlcAmHeader.setControlPdu statusPdu {}
    (rounds (rx.nackTurn (UInt16.ofNat bytes)) limit (rx.m_vrR, header)).bind fun (sn, header) =>
    (rounds rx.ackSnTurn limit sn).bind fun sn =>
    (sn.le rx.m_vrMs).bind fun le =>
    if le then
      let header := header.setAckSn sn
      header.serialize.bind fun bytes =>
      (addHeader header.getSerializedSize bytes []).map fun packet =>
        (packet, { rx with
          m_statusPduRequested := false
          m_statusPduBufferSize := 0
          m_statusProhibitTimer := true })
    else none
  else none

end AmReceiver

end Ns3.Lte
