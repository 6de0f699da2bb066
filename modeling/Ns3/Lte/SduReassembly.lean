import Mathlib.Tactic.SplitIfs
import Ns3.Lte.RlcHeader

/-!
# The SDUs of a sequence of PDUs

`ReassembleAndDeliver`, which `LteRlcUm` and `LteRlcAm` have almost alike: `src/lte/model/lte-rlc-um.cc:599–1064` and
`src/lte/model/lte-rlc-am.cc:1164–1587`. The data field of a PDU is split into SDUs, of which the first one may go on
with what was kept of the PDU before, and the last one may be kept for the PDU behind.

A function has no result where the program stops.
-/

namespace Ns3.Lte

/-- `ReassemblingState_t`. -/
inductive ReassemblingState where
  | none
  | waitingS0Full
  | waitingSiSf
deriving DecidableEq, Repr

/-- What `LteRlcUm` and `LteRlcAm` have for the reassembly, and the SDUs that `m_rlcSapUser` has received. -/
structure Reassembly where
  m_sdusBuffer : List Bytes := []
  m_reassemblingState : ReassemblingState := .waitingS0Full
  m_keepS0 : Option Bytes := none
  m_expectedSeqNumber : SequenceNumber10 := {}
  received : List Bytes := []
deriving DecidableEq, Repr

/-- The fields that split a data field, with the framing info and the sequence number of the header. -/
structure DataFields where
  framingInfo : UInt8
  sequenceNumber : SequenceNumber10
  extensionBits : List UInt8
  lengthIndicators : List UInt16
deriving DecidableEq, Repr

/-- The loop that builds the list of SDUs. -/
def buildSdus : List UInt8 → List UInt16 → Bytes → Option (List Bytes)
  | [], _, _ => none
  | extensionBit :: extensionBits, lengthIndicators, packet =>
    if extensionBit = 0 then some [packet]
    else
      lengthIndicators.head?.bind fun lengthIndicator =>
        if lengthIndicator.toNat ≤ packet.length then
          if extensionBit = 1 then
            (buildSdus extensionBits lengthIndicators.tail (packet.drop lengthIndicator.toNat)).map
              (packet.take lengthIndicator.toNat :: ·)
          else some [packet.take lengthIndicator.toNat]
        else none

namespace Reassembly

/-- Deliver one or multiple PDUs. -/
def deliverAll (r : Reassembly) : Reassembly :=
  { r with received := r.received ++ r.m_sdusBuffer, m_sdusBuffer := [] }

/-- Deliver full PDUs, and keep S0. -/
def keepLast (r : Reassembly) : Option Reassembly :=
  r.m_sdusBuffer.getLast?.map fun last =>
    { r with received := r.received ++ r.m_sdusBuffer.dropLast, m_keepS0 := some last, m_sdusBuffer := [] }

/-- Discard SI or SN. -/
def discardFirst (r : Reassembly) : Option Reassembly :=
  match r.m_sdusBuffer with
  | [] => none
  | _ :: sdus => some { r with m_sdusBuffer := sdus }

/-- Add SI or SN to the kept S0. -/
def addToKept (r : Reassembly) : Option Reassembly :=
  match r.m_keepS0, r.m_sdusBuffer with
  | some kept, sdu :: sdus => some { r with m_keepS0 := some (kept ++ sdu), m_sdusBuffer := sdus }
  | _, _ => none

/-- Deliver the kept S0, which stays where it is. -/
def deliverKept (r : Reassembly) : Option Reassembly :=
  r.m_keepS0.map fun kept => { r with received := r.received ++ [kept] }

/-- Discard S0. -/
def discardKept (r : Reassembly) : Reassembly := { r with m_keepS0 := none }

/-- The state that the reassembly waits in. -/
def waitIn (state : ReassemblingState) (r : Reassembly) : Reassembly := { r with m_reassemblingState := state }

/-- `FIRST_BYTE | LAST_BYTE`. -/
def fullSdus (r : Reassembly) : Reassembly := (r.waitIn .waitingS0Full).deliverAll

/-- `FIRST_BYTE | NO_LAST_BYTE`. -/
def firstSegment (r : Reassembly) : Option Reassembly := (r.waitIn .waitingSiSf).keepLast

/-- `NO_FIRST_BYTE | LAST_BYTE`, when the SDU did not begin here. -/
def lostHead (r : Reassembly) : Option Reassembly := (r.waitIn .waitingS0Full).discardFirst.map deliverAll

/-- `NO_FIRST_BYTE | NO_LAST_BYTE`, when the SDU did not begin here. -/
def lostMiddle (r : Reassembly) : Option Reassembly :=
  let r := r.waitIn (if r.m_sdusBuffer.length = 1 then .waitingS0Full else .waitingSiSf)
  r.discardFirst.bind fun r => if 0 < r.m_sdusBuffer.length then r.keepLast else some r

/-- `NO_FIRST_BYTE | LAST_BYTE`, when S0 was kept. -/
def lastSegment (r : Reassembly) : Option Reassembly :=
  (r.waitIn .waitingS0Full).addToKept.bind fun r => r.deliverKept.map deliverAll

/-- `NO_FIRST_BYTE | NO_LAST_BYTE`, when S0 was kept. -/
def middleSegment (r : Reassembly) : Option Reassembly :=
  let r := r.waitIn .waitingSiSf
  if r.m_sdusBuffer.length = 1 then r.addToKept
  else r.addToKept.bind fun r => r.deliverKept.bind keepLast

/-- No losses. `discards` says if an SDU that did not begin here is discarded, as `LteRlcUm` does. -/
def withoutLosses (discards : Bool) (framingInfo : UInt8) (r : Reassembly) : Option Reassembly :=
  match r.m_reassemblingState with
  | .waitingS0Full =>
    if framingInfo = firstByte ||| lastByte then some r.fullSdus
    else if framingInfo = firstByte ||| noLastByte then r.firstSegment
    else if discards ∧ framingInfo = noFirstByte ||| lastByte then r.lostHead
    else if discards ∧ framingInfo = noFirstByte ||| noLastByte then r.lostMiddle
    else some r
  | .waitingSiSf =>
    if framingInfo = noFirstByte ||| lastByte then r.lastSegment
    else if framingInfo = noFirstByte ||| noLastByte then r.middleSegment
    else some r
  | .none => some r

/-- There are losses. -/
def withLosses (framingInfo : UInt8) (r : Reassembly) : Option Reassembly :=
  match r.m_reassemblingState with
  | .waitingS0Full =>
    if framingInfo = firstByte ||| lastByte then some r.fullSdus
    else if framingInfo = firstByte ||| noLastByte then r.firstSegment
    else if framingInfo = noFirstByte ||| lastByte then r.lostHead
    else if framingInfo = noFirstByte ||| noLastByte then r.lostMiddle
    else some r
  | .waitingSiSf =>
    if framingInfo = firstByte ||| lastByte then some r.discardKept.fullSdus
    else if framingInfo = firstByte ||| noLastByte then r.discardKept.firstSegment
    else if framingInfo = noFirstByte ||| lastByte then r.discardKept.lostHead
    else if framingInfo = noFirstByte ||| noLastByte then r.discardKept.lostMiddle
    else some r
  | .none => some r

/-- The sequence number is not the expected one. -/
def expectedSnLost (sequenceNumber : SequenceNumber10) (r : Reassembly) : Bool :=
  sequenceNumber.m_value != r.m_expectedSeqNumber.m_value

/-- The next sequence number is expected, and the SDUs of the PDU are in the list. -/
def expectNext (sequenceNumber : SequenceNumber10) (sdus : List Bytes) (r : Reassembly) : Reassembly :=
  { r with
    m_expectedSeqNumber :=
      if r.expectedSnLost sequenceNumber then sequenceNumber.add 1 else r.m_expectedSeqNumber.incr
    m_sdusBuffer := r.m_sdusBuffer ++ sdus }

/-- `ReassembleAndDeliver` behind the removal of the header. -/
def reassembleAndDeliver (discards : Bool) (fields : DataFields) (packet : Bytes) (r : Reassembly) :
    Option Reassembly :=
  (buildSdus fields.extensionBits fields.lengthIndicators packet).bind fun sdus =>
    if r.expectedSnLost fields.sequenceNumber then
      (r.expectNext fields.sequenceNumber sdus).withLosses fields.framingInfo
    else (r.expectNext fields.sequenceNumber sdus).withoutLosses discards fields.framingInfo

end Reassembly

/-! ### The reassembly goes on -/

theorem buildSdus_ne_nil {extensionBits : List UInt8} {lengthIndicators : List UInt16} {packet : Bytes}
    {sdus : List Bytes} (h : buildSdus extensionBits lengthIndicators packet = some sdus) : sdus ≠ [] := by
  cases extensionBits with
  | nil => cases h
  | cons extensionBit extensionBits =>
    rw [buildSdus] at h
    split at h
    · rw [← Option.some.inj h]
      exact List.cons_ne_nil _ _
    · obtain ⟨lengthIndicator, -, h⟩ := Option.bind_eq_some_iff.mp h
      split at h
      · split at h
        · obtain ⟨_, -, rfl⟩ := Option.map_eq_some_iff.mp h
          exact List.cons_ne_nil _ _
        · rw [← Option.some.inj h]
          exact List.cons_ne_nil _ _
      · cases h

namespace Reassembly

/-- S0 is kept when the reassembly waits for the rest of it. -/
def Ready (r : Reassembly) : Prop := r.m_reassemblingState = .waitingSiSf → r.m_keepS0.isSome

variable {r : Reassembly}

theorem ready_waitingS0Full (h : r.m_reassemblingState = .waitingS0Full) : r.Ready :=
  fun hsf => absurd (h.symm.trans hsf) (by decide)

/-- The reassembly has a result, in which it is ready. -/
def GoesOn (r : Option Reassembly) : Prop := ∃ r', r = some r' ∧ r'.Ready

theorem keepLast_goesOn (h : r.m_sdusBuffer ≠ []) : GoesOn r.keepLast := by
  rw [keepLast, List.getLast?_eq_some_getLast h, Option.map_some]
  exact ⟨_, rfl, fun _ => Option.isSome_some⟩

theorem discardFirst_eq {sdu : Bytes} {sdus : List Bytes} (hbuffer : r.m_sdusBuffer = sdu :: sdus) :
    r.discardFirst = some { r with m_sdusBuffer := sdus } := by
  rw [discardFirst, hbuffer]

theorem lostHead_goesOn (h : r.m_sdusBuffer ≠ []) : GoesOn r.lostHead := by
  obtain ⟨sdu, sdus, hbuffer⟩ := List.exists_cons_of_ne_nil h
  rw [lostHead, discardFirst_eq (r := r.waitIn .waitingS0Full) hbuffer]
  exact ⟨_, rfl, ready_waitingS0Full rfl⟩

theorem lostMiddle_goesOn (h : r.m_sdusBuffer ≠ []) : GoesOn r.lostMiddle := by
  obtain ⟨sdu, sdus, hbuffer⟩ := List.exists_cons_of_ne_nil h
  rw [lostMiddle, hbuffer]
  cases sdus with
  | nil =>
    refine ⟨{ r with m_reassemblingState := .waitingS0Full, m_sdusBuffer := [] }, ?_, ready_waitingS0Full rfl⟩
    simp [discardFirst, waitIn, hbuffer]
  | cons next sdus =>
    obtain ⟨r', hr', hready⟩ := keepLast_goesOn
      (r := { r with m_reassemblingState := .waitingSiSf, m_sdusBuffer := next :: sdus }) (List.cons_ne_nil _ _)
    refine ⟨r', ?_, hready⟩
    simpa [discardFirst, waitIn, hbuffer] using hr'

theorem addToKept_eq {kept sdu : Bytes} {sdus : List Bytes} (hkept : r.m_keepS0 = some kept)
    (hbuffer : r.m_sdusBuffer = sdu :: sdus) :
    r.addToKept = some { r with m_keepS0 := some (kept ++ sdu), m_sdusBuffer := sdus } := by
  rw [addToKept, hkept, hbuffer]

theorem lastSegment_goesOn (h : r.m_sdusBuffer ≠ []) (hkept : r.m_keepS0.isSome) : GoesOn r.lastSegment := by
  obtain ⟨sdu, sdus, hbuffer⟩ := List.exists_cons_of_ne_nil h
  obtain ⟨kept, hkept⟩ := Option.isSome_iff_exists.mp hkept
  rw [lastSegment, addToKept_eq (r := r.waitIn .waitingS0Full) hkept hbuffer]
  exact ⟨_, rfl, ready_waitingS0Full rfl⟩

theorem middleSegment_goesOn (h : r.m_sdusBuffer ≠ []) (hkept : r.m_keepS0.isSome) : GoesOn r.middleSegment := by
  obtain ⟨sdu, sdus, hbuffer⟩ := List.exists_cons_of_ne_nil h
  obtain ⟨kept, hkept⟩ := Option.isSome_iff_exists.mp hkept
  have hadd := addToKept_eq (r := r.waitIn .waitingSiSf) hkept hbuffer
  rw [middleSegment]
  split
  · exact ⟨_, hadd, fun _ => rfl⟩
  · next hlength =>
    have hne : sdus ≠ [] := by
      rintro rfl
      exact hlength (by rw [show (r.waitIn .waitingSiSf).m_sdusBuffer = [sdu] from hbuffer]; rfl)
    rw [hadd, Option.bind_some]
    exact keepLast_goesOn hne

theorem withoutLosses_goesOn (hr : r.Ready) (h : r.m_sdusBuffer ≠ []) (discards : Bool) (framingInfo : UInt8) :
    GoesOn (r.withoutLosses discards framingInfo) := by
  rw [withoutLosses]
  split
  · split_ifs
    · exact ⟨_, rfl, ready_waitingS0Full rfl⟩
    · exact keepLast_goesOn h
    · exact lostHead_goesOn h
    · exact lostMiddle_goesOn h
    · exact ⟨r, rfl, hr⟩
  · next hsf =>
    split_ifs
    · exact lastSegment_goesOn h (hr hsf)
    · exact middleSegment_goesOn h (hr hsf)
    · exact ⟨r, rfl, hr⟩
  · exact ⟨r, rfl, hr⟩

theorem withLosses_goesOn (hr : r.Ready) (h : r.m_sdusBuffer ≠ []) (framingInfo : UInt8) :
    GoesOn (r.withLosses framingInfo) := by
  rw [withLosses]
  split
  · split_ifs
    · exact ⟨_, rfl, ready_waitingS0Full rfl⟩
    · exact keepLast_goesOn h
    · exact lostHead_goesOn h
    · exact lostMiddle_goesOn h
    · exact ⟨r, rfl, hr⟩
  · split_ifs
    · exact ⟨_, rfl, ready_waitingS0Full rfl⟩
    · exact keepLast_goesOn h
    · exact lostHead_goesOn h
    · exact lostMiddle_goesOn h
    · exact ⟨r, rfl, hr⟩
  · exact ⟨r, rfl, hr⟩

/-- A PDU that can be split is reassembled. -/
theorem reassembleAndDeliver_goesOn (hr : r.Ready) {fields : DataFields} {packet : Bytes} {sdus : List Bytes}
    (hsdus : buildSdus fields.extensionBits fields.lengthIndicators packet = some sdus) (discards : Bool) :
    GoesOn (r.reassembleAndDeliver discards fields packet) := by
  have hne : (r.expectNext fields.sequenceNumber sdus).m_sdusBuffer ≠ [] :=
    List.append_ne_nil_of_right_ne_nil _ (buildSdus_ne_nil hsdus)
  have hready : (r.expectNext fields.sequenceNumber sdus).Ready := hr
  rw [reassembleAndDeliver, hsdus, Option.bind_some]
  split
  · exact withLosses_goesOn hready hne _
  · exact withoutLosses_goesOn hready hne _ _

end Reassembly

end Ns3.Lte
