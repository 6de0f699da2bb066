import Ns3.Wifi.BlockAckWindow

/-!
# The recipient of a block ack

`RecipientBlockAckAgreement` of `src/wifi/model/recipient-block-ack-agreement.cc`, with the types of
`block-ack-agreement.cc` and the `CtrlBAckResponseHeader` of `ctrl-headers.cc` that a bitmap is filled in. The
MPDUs that are passed to the `MacRxMiddle` are a result.

A function has no result where the program stops.
-/

namespace Ns3.Wifi

open Ns3.Lib

/-! ### The header of a block ack -/

/-- `BlockAckType::Variant`. -/
inductive BlockAckVariant where
  | basic
  | compressed
  | extendedCompressed
  | multiTid
  | multiSta
deriving DecidableEq, Repr

/-- `BlockAckType`. -/
structure BlockAckType where
  m_variant : BlockAckVariant
  m_bitmapLen : List UInt8
deriving DecidableEq, Repr

/-- `BaInfoInstance`, without the address of a station that is not associated. -/
structure BaInfoInstance where
  m_aidTidInfo : UInt16
  m_startingSeq : Nat
  m_bitmap : List UInt8
deriving DecidableEq, Repr

/-- `CtrlBAckResponseHeader`, as far as its bitmaps go. -/
structure CtrlBAckResponseHeader where
  m_baType : BlockAckType
  m_baInfo : List BaInfoInstance
deriving DecidableEq, Repr

namespace CtrlBAckResponseHeader

variable (index : Nat) (header : CtrlBAckResponseHeader)

/-- `SetType`. -/
def ofType (type : BlockAckType) : CtrlBAckResponseHeader :=
  ⟨type, type.m_bitmapLen.map fun bitmapLen => ⟨0, 0, List.replicate bitmapLen.toNat 0⟩⟩

/-- The number of MPDUs in a bitmap. -/
def nAckedMpdus (bitmapLen : UInt8) : Nat :=
  if header.m_baType.m_variant = .basic then bitmapLen.toNat * 8 / 16 else bitmapLen.toNat * 8

/-- `IsInBitmap`. -/
def isInBitmap (seq : Nat) : Option Bool := do
  let bitmapLen ← header.m_baType.m_bitmapLen[index]?
  let info ← header.m_baInfo[index]?
  pure (((seq : Int) - info.m_startingSeq + 4096).tmod 4096 < header.nAckedMpdus bitmapLen)

/-- `IndexInBitmap`. -/
def indexInBitmap (seq : Nat) (info : BaInfoInstance) : Nat :=
  if info.m_startingSeq ≤ seq then seq - info.m_startingSeq else 4096 - info.m_startingSeq + seq

/-- The header with the instance at the index. -/
def withInfo (info : BaInfoInstance) : CtrlBAckResponseHeader :=
  { header with m_baInfo := header.m_baInfo.set index info }

/-- `SetStartingSequence` and `ResetBitmap`. -/
def restart (startingSeq : Nat) : Option CtrlBAckResponseHeader := do
  let bitmapLen ← header.m_baType.m_bitmapLen[index]?
  let info ← header.m_baInfo[index]?
  pure (header.withInfo index
    { info with m_startingSeq := startingSeq, m_bitmap := List.replicate bitmapLen.toNat 0 })

/-- `SetReceivedPacket`. -/
def setReceivedPacket (seq : Nat) : Option CtrlBAckResponseHeader := do
  let inBitmap ← header.isInBitmap index seq
  if inBitmap then do
    let info ← header.m_baInfo[index]?
    let i := indexInBitmap seq info
    match header.m_baType.m_variant with
    | .basic => pure (header.withInfo index { info with m_bitmap := info.m_bitmap.modify (i * 2) (· ||| 0x01) })
    | .compressed | .extendedCompressed | .multiSta =>
      pure (header.withInfo index
        { info with m_bitmap := info.m_bitmap.modify (i / 8) (· ||| 1 <<< UInt8.ofNat (i % 8)) })
    | .multiTid => none
  else pure header

/-- `GetAckType` and `GetTidInfo` of an acknowledgement of all MPDUs. -/
def allAck (info : BaInfoInstance) : Bool :=
  header.m_baType.m_variant = .multiSta ∧ (info.m_aidTidInfo >>> 11) &&& 0x0001 ≠ 0 ∧
    (info.m_aidTidInfo >>> 12) &&& 0x000f = 14

/-- `IsPacketReceived`. -/
def isPacketReceived (seq : Nat) : Option Bool := do
  let info ← header.m_baInfo[index]?
  if header.allAck info then pure true
  else do
    let inBitmap ← header.isInBitmap index seq
    if inBitmap then
      match header.m_baType.m_variant with
      | .basic => pure false
      | .compressed | .extendedCompressed | .multiSta => do
        let i := indexInBitmap seq info
        let byte ← info.m_bitmap[i / 8]?
        pure (byte &&& 1 <<< UInt8.ofNat (i % 8) ≠ 0)
      | .multiTid => none
    else pure false

end CtrlBAckResponseHeader

/-! ### The agreement -/

/-- `WifiMacQueueItem`: the sequence number of the header, and the packet. -/
structure Mpdu (Packet : Type) where
  m_seqSeq : Nat
  m_packet : Packet
deriving DecidableEq, Repr

/-- `RecipientBlockAckAgreement`. The buffered MPDUs are in the order of their map, whose keys are their sequence
numbers. -/
structure RecipientBlockAckAgreement (Packet : Type) where
  m_htSupported : Bool
  m_bufferSize : Nat
  m_scoreboard : BlockAckWindow
  m_winStartB : Nat
  m_winSizeB : Nat
  m_bufferedMpdus : List (Mpdu Packet)
deriving DecidableEq, Repr

namespace BlockAckWindow

/-- What `NotifyReceivedMpdu` does to the scoreboard. -/
def receiveMpdu (mpduSeqNumber : Nat) (w : BlockAckWindow) : Option BlockAckWindow :=
  let distance := getDistance mpduSeqNumber w.m_winStart % 2 ^ 16
  if distance < w.getWinSize then w.setBitAt distance
  else if distance < 2048 then
    let w := w.advance (distance - w.getWinSize + 1)
    w.setBitAt (w.getWinSize - 1)
  else some w

/-- What `NotifyReceivedBar` does to the scoreboard. -/
def receiveBar (startingSequenceNumber : Nat) (w : BlockAckWindow) : BlockAckWindow :=
  let distance := getDistance startingSequenceNumber w.m_winStart % 2 ^ 16
  if 0 < distance ∧ distance < w.getWinSize then w.advance distance
  else if 0 < distance ∧ distance < 2048 then w.reset startingSequenceNumber
  else w

/-- The loop of `FillBlockAckBitmap`, for the distances from `i` on. -/
def fill (index ssn : Nat) (w : BlockAckWindow) :
    Nat → Nat → CtrlBAckResponseHeader → Option CtrlBAckResponseHeader
  | 0, _, header => some header
  | n + 1, i, header =>
    (w.bitAt i).bind fun received =>
      (if received then header.setReceivedPacket index ((ssn + i) % 4096) else some header).bind
        (w.fill index ssn n (i + 1))

end BlockAckWindow

namespace RecipientBlockAckAgreement

variable {Packet : Type}

/-- The constructor. -/
def create (bufferSize startingSeq : Nat) (htSupported : Bool) : RecipientBlockAckAgreement Packet where
  m_htSupported := htSupported
  m_bufferSize := bufferSize
  m_scoreboard := .init startingSeq bufferSize
  m_winStartB := startingSeq
  m_winSizeB := bufferSize
  m_bufferedMpdus := []

/-- `GetBlockAckType`. -/
def getBlockAckType (agreement : RecipientBlockAckAgreement Packet) : BlockAckType :=
  if !agreement.m_htSupported then ⟨.basic, [128]⟩
  else if 64 < agreement.m_bufferSize then ⟨.compressed, [32]⟩
  else ⟨.compressed, [8]⟩

/-- `FillBlockAckBitmap`. -/
def fillBlockAckBitmap (index : Nat) (header : CtrlBAckResponseHeader)
    (agreement : RecipientBlockAckAgreement Packet) : Option CtrlBAckResponseHeader :=
  match header.m_baType.m_variant with
  | .basic | .multiTid => none
  | .compressed | .extendedCompressed | .multiSta => do
    let ssn := agreement.m_scoreboard.m_winStart
    let header ← header.restart index ssn
    agreement.m_scoreboard.fill index ssn agreement.m_scoreboard.getWinSize 0 header

/-- `Compare`, for the window start to which the keys point. -/
def compare (winStartB a b : Nat) : Bool :=
  ((a : Int) - winStartB + 4096).tmod 4096 < ((b : Int) - winStartB + 4096).tmod 4096

/-- `insert` of the map. -/
def insert (winStartB : Nat) (mpdu : Mpdu Packet) : List (Mpdu Packet) → List (Mpdu Packet)
  | [] => [mpdu]
  | m :: ms =>
    if compare winStartB mpdu.m_seqSeq m.m_seqSeq then mpdu :: m :: ms
    else if compare winStartB m.m_seqSeq mpdu.m_seqSeq then m :: insert winStartB mpdu ms
    else m :: ms

/-- The loop of `PassBufferedMpdusUntilFirstLost`: the MPDUs passed, the window start and those left. -/
def untilFirstLost : Nat → List (Mpdu Packet) → List (Mpdu Packet) × Nat × List (Mpdu Packet)
  | winStartB, [] => ([], winStartB, [])
  | winStartB, m :: ms =>
    if m.m_seqSeq = winStartB then
      let (passed, winStartB, left) := untilFirstLost ((winStartB + 1) % 4096) ms
      (m :: passed, winStartB, left)
    else ([], winStartB, m :: ms)

/-- `PassBufferedMpdusUntilFirstLost`. -/
def passBufferedMpdusUntilFirstLost (agreement : RecipientBlockAckAgreement Packet) :
    List (Mpdu Packet) × RecipientBlockAckAgreement Packet :=
  let (passed, winStartB, left) := untilFirstLost agreement.m_winStartB agreement.m_bufferedMpdus
  (passed, { agreement with m_winStartB := winStartB, m_bufferedMpdus := left })

/-- `PassBufferedMpdusWithSeqNumberLessThan`. -/
def passBufferedMpdusWithSeqNumberLessThan (newWinStartB : Nat) (agreement : RecipientBlockAckAgreement Packet) :
    List (Mpdu Packet) × RecipientBlockAckAgreement Packet :=
  let less := fun m : Mpdu Packet =>
    decide (getDistance m.m_seqSeq agreement.m_winStartB < getDistance newWinStartB agreement.m_winStartB)
  (agreement.m_bufferedMpdus.takeWhile less,
    { agreement with m_winStartB := newWinStartB, m_bufferedMpdus := agreement.m_bufferedMpdus.dropWhile less })

/-- The two of them, one after the other. -/
def passBufferedMpdus (newWinStartB : Nat) (agreement : RecipientBlockAckAgreement Packet) :
    List (Mpdu Packet) × RecipientBlockAckAgreement Packet :=
  let (passed, agreement) := agreement.passBufferedMpdusWithSeqNumberLessThan newWinStartB
  let (passed', agreement) := agreement.passBufferedMpdusUntilFirstLost
  (passed ++ passed', agreement)

/-- `SN - WinSizeB + 1`, which becomes a `uint16_t`. -/
def startOfWindow (seq winSizeB : Nat) : Nat := (((seq : Int) - winSizeB + 1) % 2 ^ 16).toNat

/-- The part of `NotifyReceivedMpdu` about the reordering buffer. -/
def storeMpdu (mpdu : Mpdu Packet) (agreement : RecipientBlockAckAgreement Packet) :
    List (Mpdu Packet) × RecipientBlockAckAgreement Packet :=
  let distance := getDistance mpdu.m_seqSeq agreement.m_winStartB % 2 ^ 16
  let stored := { agreement with
    m_bufferedMpdus := insert agreement.m_winStartB mpdu agreement.m_bufferedMpdus }
  if distance < agreement.m_winSizeB then stored.passBufferedMpdusUntilFirstLost
  else if distance < 2048 then stored.passBufferedMpdus (startOfWindow mpdu.m_seqSeq agreement.m_winSizeB)
  else ([], agreement)

/-- The part of `NotifyReceivedBar` about the reordering buffer. -/
def moveToBar (startingSequenceNumber : Nat) (agreement : RecipientBlockAckAgreement Packet) :
    List (Mpdu Packet) × RecipientBlockAckAgreement Packet :=
  let distance := getDistance startingSequenceNumber agreement.m_winStartB % 2 ^ 16
  if 0 < distance ∧ distance < 2048 then agreement.passBufferedMpdus startingSequenceNumber
  else ([], agreement)

/-- `NotifyReceivedMpdu`. -/
def notifyReceivedMpdu (mpdu : Mpdu Packet) (agreement : RecipientBlockAckAgreement Packet) :
    Option (List (Mpdu Packet) × RecipientBlockAckAgreement Packet) := do
  let scoreboard ← agreement.m_scoreboard.receiveMpdu mpdu.m_seqSeq
  pure (storeMpdu mpdu { agreement with m_scoreboard := scoreboard })

/-- `Flush`. -/
def flush (agreement : RecipientBlockAckAgreement Packet) :
    List (Mpdu Packet) × RecipientBlockAckAgreement Packet :=
  agreement.passBufferedMpdus agreement.m_scoreboard.m_winStart

/-- `NotifyReceivedBar`. -/
def notifyReceivedBar (startingSequenceNumber : Nat) (agreement : RecipientBlockAckAgreement Packet) :
    List (Mpdu Packet) × RecipientBlockAckAgreement Packet :=
  moveToBar startingSequenceNumber
    { agreement with m_scoreboard := agreement.m_scoreboard.receiveBar startingSequenceNumber }

/-- What is called on an agreement. -/
inductive Call (Packet : Type) where
  | mpdu (mpdu : Mpdu Packet)
  | bar (startingSequenceNumber : Nat)
  | flush
deriving DecidableEq, Repr

/-- One call: the MPDUs passed up, and the agreement. -/
def call (agreement : RecipientBlockAckAgreement Packet) :
    Call Packet → Option (List (Mpdu Packet) × RecipientBlockAckAgreement Packet)
  | .mpdu mpdu => agreement.notifyReceivedMpdu mpdu
  | .bar startingSequenceNumber => some (agreement.notifyReceivedBar startingSequenceNumber)
  | .flush => some agreement.flush

/-- Calls one after the other, with all MPDUs passed up. -/
def calls (agreement : RecipientBlockAckAgreement Packet) :
    List (Call Packet) → Option (List (Mpdu Packet) × RecipientBlockAckAgreement Packet)
  | [] => some ([], agreement)
  | c :: cs => do
    let (passed, agreement) ← agreement.call c
    let (passed', agreement) ← agreement.calls cs
    pure (passed ++ passed', agreement)

end RecipientBlockAckAgreement

end Ns3.Wifi
