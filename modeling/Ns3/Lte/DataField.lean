import Ns3.Lte.RlcHeader

/-!
# The data field of a PDU

How `DoNotifyTxOpportunity` takes SDUs from the transmission buffer, which `LteRlcUm` and `LteRlcAm` do alike:
`src/lte/model/lte-rlc-um.cc:144–327` and `src/lte/model/lte-rlc-am.cc:443–622`. SDUs are concatenated, each but the
last one with a length indicator, until one is segmented or taken to the end. The 32 bits of a buffer size may wrap.
-/

namespace Ns3.Lte

/-- `SduStatus_t`, of `LteRlcSduStatusTag`. -/
inductive SduStatus where
  | fullSdu
  | firstSegment
  | middleSegment
  | lastSegment
  | anySegment
deriving DecidableEq, Repr

/-- An SDU or a segment of one, with its status tag. -/
structure Sdu where
  bytes : Bytes
  status : SduStatus
deriving DecidableEq, Repr

/-- `+=` on a `uint32_t`. -/
def add32 (a b : Nat) : Nat := (a + b) % 2 ^ 32

/-- `-=` on a `uint32_t`. -/
def sub32 (a b : Nat) : Nat := (a + (2 ^ 32 - b % 2 ^ 32)) % 2 ^ 32

/-- What the loop leaves: the data field, what was pushed onto the header, the transmission buffer and its size. -/
structure Filled where
  dataField : List Sdu := []
  extensionBits : List UInt8 := []
  lengthIndicators : List UInt16 := []
  txBuffer : List Sdu
  txBufferSize : Nat
deriving DecidableEq, Repr

/-- The status tag of the segment that is taken and of the one that is given back. -/
def splitStatus (status : SduStatus) : SduStatus × SduStatus :=
  match status with
  | .fullSdu => (.firstSegment, .lastSegment)
  | .lastSegment => (.middleSegment, .lastSegment)
  | status => (status, status)

/-- The status tag of a segment that is the whole of what there was. -/
def wholeStatus (status : SduStatus) : SduStatus :=
  match status with
  | .firstSegment => .fullSdu
  | .middleSegment => .lastSegment
  | status => status

/-- The minimum size is taken, and what remains is given back. -/
def segment (firstSegment : Sdu) (nextSegmentSize txBufferSize : Nat) (txBuffer : List Sdu) : Filled :=
  let currSegmentSize := min firstSegment.bytes.length nextSegmentSize
  let newSegment := firstSegment.bytes.take currSegmentSize
  let rest := firstSegment.bytes.drop currSegmentSize
  let tags := splitStatus firstSegment.status
  if 0 < rest.length then
    { dataField := [⟨newSegment, tags.1⟩]
      extensionBits := [dataFieldFollows]
      txBuffer := ⟨rest, tags.2⟩ :: txBuffer
      txBufferSize := add32 txBufferSize rest.length }
  else
    { dataField := [⟨newSegment, wholeStatus tags.1⟩]
      extensionBits := [dataFieldFollows]
      txBuffer
      txBufferSize }

/-- The SDU is the last one of the data field. -/
def takeLast (firstSegment : Sdu) (txBufferSize : Nat) (txBuffer : List Sdu) : Filled :=
  { dataField := [firstSegment], extensionBits := [dataFieldFollows], txBuffer, txBufferSize }

/-- What the length indicator of a segment takes in the header. -/
def lengthIndicatorSize (nextSegmentId : Nat) : Nat := if nextSegmentId % 2 = 1 then 2 else 1

/-- The loop, with `firstSegment` taken from the front of the transmission buffer. Its last branch takes the next one. -/
def fill (firstSegment : Sdu) (nextSegmentSize nextSegmentId txBufferSize : Nat) : List Sdu → Filled
  | [] =>
    if 0 < firstSegment.bytes.length ∧ 0 < nextSegmentSize then
      if nextSegmentSize < firstSegment.bytes.length ∨ 2047 < firstSegment.bytes.length then
        segment firstSegment nextSegmentSize txBufferSize []
      else takeLast firstSegment txBufferSize []
    else { txBuffer := [], txBufferSize }
  | sdu :: txBuffer =>
    if 0 < firstSegment.bytes.length ∧ 0 < nextSegmentSize then
      if nextSegmentSize < firstSegment.bytes.length ∨ 2047 < firstSegment.bytes.length then
        segment firstSegment nextSegmentSize txBufferSize (sdu :: txBuffer)
      else if nextSegmentSize - firstSegment.bytes.length ≤ 2 then takeLast firstSegment txBufferSize (sdu :: txBuffer)
      else
        let next := fill sdu (nextSegmentSize - (lengthIndicatorSize nextSegmentId + firstSegment.bytes.length))
          (nextSegmentId + 1) (sub32 txBufferSize sdu.bytes.length) txBuffer
        { next with
          dataField := firstSegment :: next.dataField
          extensionBits := eLiFieldsFollows :: next.extensionBits
          lengthIndicators := UInt16.ofNat firstSegment.bytes.length :: next.lengthIndicators }
    else { txBuffer := sdu :: txBuffer, txBufferSize }

/-- The framing info of a data field, from the status tags of its first and of its last segment. -/
def framingInfo (first last : Sdu) : UInt8 :=
  (if first.status = .fullSdu ∨ first.status = .firstSegment then firstByte else noFirstByte) |||
    (if last.status = .fullSdu ∨ last.status = .lastSegment then lastByte else noLastByte)

/-- The packet that the data field is added up to. -/
def joined (dataField : List Sdu) : Bytes := dataField.flatMap Sdu.bytes

end Ns3.Lte
