import Mathlib.Data.List.AList
import Mathlib.Data.List.Sort
import Ns3.Lib.Loop
import Ns3.Lte.SduReassembly

/-!
# The receiving side of a UM RLC entity

What `LteRlcUm` of `src/lte/model/lte-rlc-um.cc` does with PDUs (413–597, 1067–1121) and when t-Reordering expires
(1151–1187). The reception buffer is a map that is ordered by its keys. Each loop goes round at most `limit` times,
which is a parameter.

A function has no result where the program stops.
-/

namespace Ns3.Lte

open Ns3.Lib

/-- The receiving side of `LteRlcUm`. A timer is given by whether it is running. -/
structure UmReceiver where
  m_rxBuffer : AList fun _ : Nat => Bytes := ∅
  m_vrUr : SequenceNumber10 := {}
  m_vrUx : SequenceNumber10 := {}
  m_vrUh : SequenceNumber10 := {}
  m_reorderingTimer : Bool := false
  reassembly : Reassembly := {}

/-- `&&`, of comparisons that may stop the program. -/
def andAlso (a b : Option Bool) : Option Bool := a.bind fun (holds : Bool) => if holds then b else some false

/-- `||`, of comparisons that may stop the program. -/
def orElse (a b : Option Bool) : Option Bool := a.bind fun (holds : Bool) => if holds then some true else b

/-- `LteRlcUm::ReassembleAndDeliver`. -/
def umReassembleAndDeliver (packet : Bytes) (r : Reassembly) : Option Reassembly :=
  (LteRlcHeader.deserialize packet).bind fun h =>
    r.reassembleAndDeliver true ⟨h.m_framingInfo, h.m_sequenceNumber, h.m_extensionBits, h.m_lengthIndicators⟩
      (packet.drop h.getSerializedSize)

namespace UmReceiver

/-- `IsInsideReorderingWindow`. -/
def isInsideReorderingWindow (seqNumber : SequenceNumber10) (rx : UmReceiver) : Option (Bool × UmReceiver) :=
  let vrUh := rx.m_vrUh.setModulusBase (rx.m_vrUh.sub windowSize)
  let seqNumber := seqNumber.setModulusBase (vrUh.sub windowSize)
  (andAlso ((vrUh.sub windowSize).le seqNumber) (seqNumber.lt vrUh)).map (·, { rx with m_vrUh := vrUh })

/-- The loop of `ReassembleOutsideWindow`, from the first one of the keys on. -/
def reassembleOutside : List Nat → UmReceiver → Option UmReceiver
  | [], rx => some rx
  | sn :: sns, rx =>
    (rx.isInsideReorderingWindow (.ofValue sn)).bind fun inside =>
      if inside.1 then some inside.2
      else
        (inside.2.m_rxBuffer.lookup sn).bind fun packet =>
        (umReassembleAndDeliver packet inside.2.reassembly).bind fun r =>
          reassembleOutside sns { inside.2 with reassembly := r, m_rxBuffer := inside.2.m_rxBuffer.erase sn }

/-- `ReassembleOutsideWindow`. -/
def reassembleOutsideWindow (rx : UmReceiver) : Option UmReceiver :=
  rx.reassembleOutside (rx.m_rxBuffer.keys.insertionSort (· ≤ ·))

/-- The body of the loop of `ReassembleSnInterval`. -/
def intervalTurn (highSeqNumber : SequenceNumber10) (s : SequenceNumber10 × UmReceiver) :
    Option (Turn (SequenceNumber10 × UmReceiver) UmReceiver) :=
  (s.1.lt highSeqNumber).bind fun (lt : Bool) =>
    if lt then
      match s.2.m_rxBuffer.lookup s.1.m_value with
      | some packet =>
        (umReassembleAndDeliver packet s.2.reassembly).map fun r =>
          .again (s.1.incr, { s.2 with reassembly := r, m_rxBuffer := s.2.m_rxBuffer.erase s.1.m_value })
      | none => some (.again (s.1.incr, s.2))
    else some (.leave s.2)

/-- `ReassembleSnInterval`. -/
def reassembleSnInterval (limit : Nat) (lowSeqNumber highSeqNumber : SequenceNumber10) (rx : UmReceiver) :
    Option UmReceiver :=
  rounds (intervalTurn highSeqNumber) limit (lowSeqNumber, rx)

/-! ### A PDU -/

/-- The modulus bases that a PDU is compared with. -/
def setBases (rx : UmReceiver) : UmReceiver :=
  let vrUh := rx.m_vrUh.setModulusBase (rx.m_vrUh.sub windowSize)
  { rx with m_vrUr := rx.m_vrUr.setModulusBase (rx.m_vrUh.sub windowSize), m_vrUh := vrUh }

/-- The PDU is discarded: it has been received before, or is below VR(UR). -/
def discards (seqNumber : SequenceNumber10) (rx : UmReceiver) : Option Bool :=
  orElse
    (andAlso (rx.m_vrUr.lt seqNumber)
      (andAlso (seqNumber.lt rx.m_vrUh) (some (rx.m_rxBuffer.lookup seqNumber.m_value).isSome)))
    (andAlso ((rx.m_vrUh.sub windowSize).le seqNumber) (seqNumber.lt rx.m_vrUr))

/-- Place PDU in the reception buffer. -/
def place (seqNumber : SequenceNumber10) (packet : Bytes) (rx : UmReceiver) : UmReceiver :=
  { rx with m_rxBuffer := rx.m_rxBuffer.insert seqNumber.m_value packet }

/-- When SN is outside the reordering window, the window moves on. -/
def moveWindow (seqNumber : SequenceNumber10) (rx : UmReceiver) : Option UmReceiver :=
  (rx.isInsideReorderingWindow seqNumber).bind fun inside =>
    if inside.1 then some inside.2
    else
      ({ inside.2 with m_vrUh := seqNumber.add 1 } : UmReceiver).reassembleOutsideWindow.bind fun rx =>
      (rx.isInsideReorderingWindow rx.m_vrUr).map fun inside =>
        if inside.1 then inside.2
        else { inside.2 with m_vrUr := inside.2.m_vrUh.sub windowSize }

/-- The body of the loop that counts on from VR(UR), in a `uint16_t`. -/
def newVrUrTurn (buffer : AList fun _ : Nat => Bytes) (newVrUr : Nat) : Turn Nat Nat :=
  if (buffer.lookup newVrUr).isSome then .again ((newVrUr + 1) % 2 ^ 16) else .leave newVrUr

/-- When the reception buffer contains SN = VR(UR), reassemble and deliver. -/
def deliver (limit : Nat) (rx : UmReceiver) : Option UmReceiver :=
  if (rx.m_rxBuffer.lookup rx.m_vrUr.m_value).isSome then
    (rounds (fun n => some (newVrUrTurn rx.m_rxBuffer n)) limit ((rx.m_vrUr.m_value + 1) % 2 ^ 16)).bind fun newVrUr =>
      { rx with m_vrUr := rx.m_vrUr.assign newVrUr }.reassembleSnInterval limit rx.m_vrUr (rx.m_vrUr.assign newVrUr)
  else some rx

/-- The modulus bases for the comparisons that t-Reordering depends on. -/
def setTimerBases (rx : UmReceiver) : UmReceiver :=
  { rx with
    m_vrUr := rx.m_vrUr.setModulusBase (rx.m_vrUh.sub windowSize)
    m_vrUx := rx.m_vrUx.setModulusBase (rx.m_vrUh.sub windowSize)
    m_vrUh := rx.m_vrUh.setModulusBase (rx.m_vrUh.sub windowSize) }

/-- Stop reordering timer. -/
def stopReordering (rx : UmReceiver) : Option UmReceiver :=
  if rx.m_reorderingTimer then
    (rx.m_vrUx.le rx.m_vrUr).bind fun (le : Bool) =>
      if le then some { rx with m_reorderingTimer := false }
      else
        (rx.isInsideReorderingWindow rx.m_vrUx).map fun inside =>
          if !inside.1 ∧ inside.2.m_vrUx.m_value ≠ inside.2.m_vrUh.m_value then
            { inside.2 with m_reorderingTimer := false }
          else inside.2
  else some rx

/-- Start reordering timer. -/
def startReordering (rx : UmReceiver) : Option UmReceiver :=
  if rx.m_reorderingTimer then some rx
  else
    (rx.m_vrUh.gt rx.m_vrUr).map fun (gt : Bool) =>
      if gt then { rx with m_reorderingTimer := true, m_vrUx := rx.m_vrUh } else rx

/-- `DoReceivePdu`, behind the header. -/
def receive (limit : Nat) (header : LteRlcHeader) (packet : Bytes) (rx : UmReceiver) : Option UmReceiver :=
  let rx := rx.setBases
  let seqNumber := header.m_sequenceNumber.setModulusBase (rx.m_vrUh.sub windowSize)
  (rx.discards seqNumber).bind fun (discarded : Bool) =>
    if discarded then some rx
    else
      ((rx.place seqNumber packet).moveWindow seqNumber).bind fun rx =>
      (rx.deliver limit).bind fun rx =>
      rx.setTimerBases.stopReordering.bind startReordering

/-- `DoReceivePdu`. -/
def receivePdu (limit : Nat) (packet : Bytes) (rx : UmReceiver) : Option UmReceiver :=
  (LteRlcHeader.deserialize packet).bind fun header => rx.receive limit header packet

/-! ### The timer -/

/-- The body of the loop of `ExpireReorderingTimer`. -/
def vrUxTurn (buffer : AList fun _ : Nat => Bytes) (newVrUr : SequenceNumber10) :
    Turn SequenceNumber10 SequenceNumber10 :=
  if (buffer.lookup newVrUr.m_value).isSome then .again newVrUr.incr else .leave newVrUr

/-- `ExpireReorderingTimer`, of a timer that is no more running then. -/
def expireReorderingTimer (limit : Nat) (rx : UmReceiver) : Option UmReceiver :=
  (rounds (fun n => some (vrUxTurn rx.m_rxBuffer n)) limit rx.m_vrUx).bind fun newVrUr =>
  ({ rx with m_vrUr := newVrUr, m_reorderingTimer := false }.reassembleSnInterval limit rx.m_vrUr newVrUr).bind
    startReordering

end UmReceiver

end Ns3.Lte
