import Mathlib.Algebra.Order.Floor.Semifield
import Mathlib.Data.Rat.Floor
import Mathlib.Tactic.Linarith
import Ns3.Fec.Agent
import Ns3.Tcp.CongState
import Ns3.Tcp.PrrRecovery
import Ns3.Tcp.TxNextSeg

/-!
# The window under rate control

In `CA_OPEN` an ACK of new data lets `TcpNewReno` increase the window, and when it is the ACK of
a recovered packet the window is then multiplied by the rate control value and truncated. Nothing
keeps the product above a segment, as `GetSsThresh` keeps the threshold above two, and a window
below a segment is one that `SendPendingData` waits with. The quotient of doubles in
`CongestionAvoidance` is exact in its integral part. Source:
`src/internet/model/tcp-congestion-ops.cc:165–236`, `src/internet/model/tcp-socket-base.cc`.
-/

namespace Ns3.Tcp

open Ns3.Network Ns3.Lib Ns3.Fec

namespace TcpNewReno

/-- `SlowStart`, and the segments it returns. -/
def slowStart (tcb : TcpSocketState) (segmentsAcked : UInt32) : TcpSocketState × UInt32 :=
  if segmentsAcked ≥ 1 then
    ({ tcb with m_cWnd := tcb.m_cWnd + tcb.m_segmentSize }, segmentsAcked - 1)
  else (tcb, 0)

/-- `CongestionAvoidance`. A quotient by zero converts to no `uint32_t`. -/
def congestionAvoidance (tcb : TcpSocketState) (segmentsAcked : UInt32) : Option TcpSocketState :=
  if segmentsAcked > 0 then
    if tcb.m_cWnd = 0 then none
    else
      let adder : ℚ := (tcb.m_segmentSize * tcb.m_segmentSize).toNat / tcb.m_cWnd.toNat
      some { tcb with m_cWnd := tcb.m_cWnd + UInt32.ofNat ⌊max 1 adder⌋₊ }
  else some tcb

/-- `IncreaseWindow`. -/
def increaseWindow (tcb : TcpSocketState) (segmentsAcked : UInt32) : Option TcpSocketState :=
  let started := if tcb.m_cWnd < tcb.m_ssThresh then slowStart tcb segmentsAcked else (tcb, segmentsAcked)
  if started.1.m_cWnd ≥ started.1.m_ssThresh then congestionAvoidance started.1 started.2
  else some started.1

end TcpNewReno

/-- A sender with FEC in `CA_OPEN`: what an ACK of new data reads and writes. -/
structure OpenSender where
  m_tcb : TcpSocketState
  m_fec : FecAgent
  m_bytesAckedNotProcessed : UInt32 := 0
  headSequence : SequenceNumber32

/-- An ACK, and whether it is handled by `ProcessAckofRecoveredPacket`. -/
structure OpenAck where
  ackNumber : SequenceNumber32
  recovered : Bool
  deriving DecidableEq, Repr

namespace OpenSender

/-- The segments acknowledged and the bytes not processed, `tcp-socket-base.cc:2019–2029`. -/
def countAcked (s : OpenSender) (bytesAcked : UInt32) : UInt32 × UInt32 :=
  let segsAcked := bytesAcked / s.m_tcb.m_segmentSize
  let notProcessed := s.m_bytesAckedNotProcessed + bytesAcked % s.m_tcb.m_segmentSize
  if notProcessed ≥ s.m_tcb.m_segmentSize then (segsAcked + 1, notProcessed - s.m_tcb.m_segmentSize)
  else (segsAcked, notProcessed)

/-- What both functions do with an ACK of new data in `CA_OPEN`; `control` is what becomes of the
window increased. -/
def ackNewData (control : UInt32 → UInt32) (s : OpenSender) (ackNumber : SequenceNumber32) :
    Option OpenSender :=
  let acked := s.countAcked (ackNumber.diff s.headSequence)
  (TcpNewReno.increaseWindow s.m_tcb acked.1).map fun tcb =>
    { s with
      m_tcb := { tcb with m_cWnd := control tcb.m_cWnd, m_cWndInfl := control tcb.m_cWnd }
      m_bytesAckedNotProcessed := acked.2
      headSequence := ackNumber }

/-- `ProcessAck`, `tcp-socket-base.cc:2015–2233`. -/
def processAck (s : OpenSender) (ackNumber : SequenceNumber32) : Option OpenSender :=
  s.ackNewData id ackNumber

/-- `ProcessAckofRecoveredPacket`, `tcp-socket-base.cc:3553–3773`. -/
def processAckofRecoveredPacket (s : OpenSender) (ackNumber : SequenceNumber32) : Option OpenSender :=
  s.ackNewData (fun cWnd => UInt32.ofNat ⌊cWnd.toNat * s.m_fec.m_rateControlValue⌋₊) ackNumber

/-- The sender after an ACK. -/
def receive (s : OpenSender) (ack : OpenAck) : Option OpenSender :=
  if ack.recovered then s.processAckofRecoveredPacket ack.ackNumber else s.processAck ack.ackNumber

end OpenSender

namespace TcpSocketBase

/-- `AvailableWindow`, `tcp-socket-base.cc:3990–4002`. -/
def availableWindow (s : TcpSocketBase) (cWnd : UInt32) : UInt32 :=
  let win := min s.m_rWnd cWnd
  let inflight := s.m_txBuffer.bytesInFlight
  if inflight > win then 0 else win - inflight

/-- The receiver's window is open, nothing is in flight, and there is more than a segment that was
not sent. -/
structure Waiting (s : TcpSocketBase) (mss : UInt32) : Prop where
  held : Held s.m_txBuffer
  congState : s.m_congState = .caOpen
  segmentSize : s.m_segmentSize = mss
  bufferSegmentSize : s.m_txBuffer.m_segmentSize = mss
  flight : s.m_txBuffer.bytesInFlight = 0
  kept : ∀ i ∈ s.m_txBuffer.m_sentList, i.m_lost = false
  window : s.m_txBuffer.m_sentSize.toNat + mss.toNat ≤ s.m_rWnd.toNat
  unsent : mss.toNat < span s.m_txBuffer.m_appList

/-- The first turn of `SendPendingData` sends new data. -/
def Sends (s : TcpSocketBase) (cWnd : UInt32) : Prop :=
  ∃ s', s.sendPendingData [s.availableWindow cWnd] = some s' ∧
    s.m_txBuffer.m_sentSize < s'.m_txBuffer.m_sentSize

end TcpSocketBase

namespace OpenSender

/-- The window holds a segment, so that data that waits is sent. -/
def CanSend (s : OpenSender) : Prop :=
  s.m_tcb.m_segmentSize ≤ s.m_tcb.m_cWnd ∧
    ∀ socket : TcpSocketBase, socket.Waiting s.m_tcb.m_segmentSize → socket.Sends s.m_tcb.m_cWnd

/-- After every ACK of a run the sender can send. -/
def NeverStarves (s : OpenSender) : List OpenAck → Prop
  | [] => True
  | ack :: acks => ∃ s', s.receive ack = some s' ∧ s'.CanSend ∧ s'.NeverStarves acks

end OpenSender

/-- An ACK of at least one new segment. -/
def OpenAck.AcksSegment (mss : UInt32) (head : SequenceNumber32) (ack : OpenAck) : Prop :=
  ack.ackNumber.gt head ∧ mss ≤ ack.ackNumber.diff head

/-- Each ACK of a run acknowledges at least one new segment. -/
def AcksSegments (mss : UInt32) : SequenceNumber32 → List OpenAck → Prop
  | _, [] => True
  | head, ack :: acks => ack.AcksSegment mss head ∧ AcksSegments mss ack.ackNumber acks

/-- The window holds a segment, and the threshold two. -/
structure TcpSocketState.Sized (tcb : TcpSocketState) : Prop where
  segment_pos : 0 < tcb.m_segmentSize.toNat
  segment_le : tcb.m_segmentSize.toNat ≤ 65535
  thresh : 2 * tcb.m_segmentSize.toNat ≤ tcb.m_ssThresh.toNat
  window : tcb.m_segmentSize.toNat ≤ tcb.m_cWnd.toNat

/-- The window that `IncreaseWindow` leaves over the integers. -/
def TcpSocketState.grown (tcb : TcpSocketState) (segmentsAcked : ℕ) : ℕ :=
  let slow := tcb.m_cWnd.toNat < tcb.m_ssThresh.toNat
  let cWnd := if slow then tcb.m_cWnd.toNat + tcb.m_segmentSize.toNat else tcb.m_cWnd.toNat
  let left := if slow then segmentsAcked - 1 else segmentsAcked
  if tcb.m_ssThresh.toNat ≤ cWnd ∧ 0 < left then cWnd + max 1 (tcb.m_segmentSize.toNat ^ 2 / cWnd) else cWnd

namespace OpenSender

/-- The segments that an ACK counts. -/
def segsAcked (s : OpenSender) (ack : OpenAck) : UInt32 :=
  (s.countAcked (ack.ackNumber.diff s.headSequence)).1

/-- No ACK of a run finds the window so near `2 ^ 32` that its increase wraps. -/
def Unwrapped (s : OpenSender) : List OpenAck → Prop
  | [] => True
  | ack :: acks =>
    s.m_tcb.grown (s.segsAcked ack).toNat < 2 ^ 32 ∧
      ∀ s', s.receive ack = some s' → s'.Unwrapped acks

/-- A run starts with a rate control value below 1 and a window of at least a segment. -/
structure Starts (s : OpenSender) : Prop where
  rate_pos : 0 < s.m_fec.m_rateControlValue
  rate_lt : s.m_fec.m_rateControlValue < 1
  sized : s.m_tcb.Sized

end OpenSender

/-! ### The increase -/

section Increase

variable {tcb : TcpSocketState} {n : UInt32}

/-- Congestion avoidance adds the integral part of the quotient, or 1. -/
theorem congestionAvoidance_eq (hn : 0 < n.toNat) (hseg : tcb.m_segmentSize.toNat ≤ 65535)
    (hcwnd : 0 < tcb.m_cWnd.toNat) :
    TcpNewReno.congestionAvoidance tcb n = some { tcb with
      m_cWnd := tcb.m_cWnd + UInt32.ofNat (max 1 (tcb.m_segmentSize.toNat ^ 2 / tcb.m_cWnd.toNat)) } := by
  have hpos : n > 0 := UInt32.lt_iff_toNat_lt.mpr hn
  have hne : tcb.m_cWnd ≠ 0 := by
    intro h0
    rw [h0] at hcwnd
    exact absurd hcwnd (by decide)
  have hsquare : (tcb.m_segmentSize * tcb.m_segmentSize).toNat = tcb.m_segmentSize.toNat ^ 2 := by
    have hle := Nat.mul_le_mul hseg hseg
    rw [UInt32.toNat_mul, Nat.mod_eq_of_lt (Nat.lt_of_le_of_lt hle (by decide)), Nat.pow_two]
  have hfloor : ⌊max 1 ((tcb.m_segmentSize.toNat ^ 2 : ℕ) / tcb.m_cWnd.toNat : ℚ)⌋₊ =
      max 1 (tcb.m_segmentSize.toNat ^ 2 / tcb.m_cWnd.toNat) := by
    rw [Nat.floor_mono.map_max, Nat.floor_one, Nat.floor_div_eq_div]
  rw [TcpNewReno.congestionAvoidance, if_pos hpos, if_neg hne, hsquare]
  dsimp only
  rw [hfloor]

/-- What it adds is at most a segment. -/
theorem adder_le {seg c : ℕ} (hseg : 0 < seg) (hc : seg ≤ c) : max 1 (seg ^ 2 / c) ≤ seg := by
  have hdiv : seg ^ 2 / c ≤ seg := by
    calc seg ^ 2 / c ≤ seg ^ 2 / seg := Nat.div_le_div_left hc hseg
      _ = seg := by rw [Nat.pow_two, Nat.mul_div_cancel _ hseg]
  exact max_le hseg hdiv

/-- A window to which at most a segment is added wraps to less than a segment. -/
theorem toNat_add_or (c : UInt32) {a seg : ℕ} (ha : a ≤ seg) (hseg : seg ≤ 65535) :
    if c.toNat + a < 2 ^ 32 then (c + UInt32.ofNat a).toNat = c.toNat + a
    else (c + UInt32.ofNat a).toNat < seg := by
  have hc := c.toNat_lt
  rw [UInt32.toNat_add, toNat_ofNat (by omega)]
  split <;> omega

theorem grown_slow {n : ℕ} (h : tcb.m_cWnd.toNat < tcb.m_ssThresh.toNat) :
    tcb.grown n =
      if tcb.m_ssThresh.toNat ≤ tcb.m_cWnd.toNat + tcb.m_segmentSize.toNat ∧ 0 < n - 1 then
        tcb.m_cWnd.toNat + tcb.m_segmentSize.toNat +
          max 1 (tcb.m_segmentSize.toNat ^ 2 / (tcb.m_cWnd.toNat + tcb.m_segmentSize.toNat))
      else tcb.m_cWnd.toNat + tcb.m_segmentSize.toNat := by
  unfold TcpSocketState.grown
  dsimp only
  rw [if_pos h, if_pos h]

theorem grown_avoid {n : ℕ} (h : ¬tcb.m_cWnd.toNat < tcb.m_ssThresh.toNat) (hn : 0 < n) :
    tcb.grown n = tcb.m_cWnd.toNat + max 1 (tcb.m_segmentSize.toNat ^ 2 / tcb.m_cWnd.toNat) := by
  unfold TcpSocketState.grown
  dsimp only
  rw [if_neg h, if_neg h, if_pos ⟨Nat.le_of_not_lt h, hn⟩]

/-- Slow start, and what is left to congestion avoidance. -/
theorem increaseWindow_slow (h : tcb.Sized) (hn : 0 < n.toNat) (hslow : tcb.m_cWnd.toNat < tcb.m_ssThresh.toNat) :
    ∃ w, TcpNewReno.increaseWindow tcb n = some { tcb with m_cWnd := w } ∧
      if tcb.grown n.toNat < 2 ^ 32 then w.toNat = tcb.grown n.toNat
      else w.toNat < tcb.m_segmentSize.toNat := by
  obtain ⟨hseg, hseg', hthresh, hwindow⟩ := h
  have hn1 : n ≥ 1 := UInt32.le_iff_toNat_le.mpr hn
  have hleft : (n - 1).toNat = n.toNat - 1 := UInt32.toNat_sub_of_le _ _ hn1
  have hstart := toNat_add_or tcb.m_cWnd (Nat.le_refl _) hseg'
  rw [UInt32.ofNat_toNat] at hstart
  rw [TcpNewReno.increaseWindow, if_pos (UInt32.lt_iff_toNat_lt.mpr hslow), TcpNewReno.slowStart, if_pos hn1,
    grown_slow hslow]
  dsimp only
  by_cases hfit : tcb.m_cWnd.toNat + tcb.m_segmentSize.toNat < 2 ^ 32
  · rw [if_pos hfit] at hstart
    by_cases hreach : tcb.m_ssThresh ≤ tcb.m_cWnd + tcb.m_segmentSize
    · have hreach' := UInt32.le_iff_toNat_le.mp hreach
      rw [hstart] at hreach'
      rw [if_pos hreach]
      by_cases hmore : 0 < n.toNat - 1
      · have hadd := toNat_add_or (tcb.m_cWnd + tcb.m_segmentSize)
          (adder_le hseg (Nat.le_add_left tcb.m_segmentSize.toNat tcb.m_cWnd.toNat)) hseg'
        rw [hstart] at hadd
        have havoid := @congestionAvoidance_eq { tcb with m_cWnd := tcb.m_cWnd + tcb.m_segmentSize } (n - 1)
          (hleft.symm ▸ hmore) hseg' (by dsimp only; omega)
        dsimp only at havoid
        rw [hstart] at havoid
        rw [havoid, if_pos ⟨hreach', hmore⟩]
        exact ⟨_, rfl, hadd⟩
      · have hdone : ¬(n - 1 > 0) := fun h => hmore (hleft ▸ UInt32.lt_iff_toNat_lt.mp h)
        rw [TcpNewReno.congestionAvoidance, if_neg hdone, if_neg fun h => hmore h.2]
        refine ⟨_, rfl, ?_⟩
        rw [if_pos hfit]
        exact hstart
    · have hreach' : ¬tcb.m_ssThresh.toNat ≤ tcb.m_cWnd.toNat + tcb.m_segmentSize.toNat := by
        rw [← hstart]
        exact fun h => hreach (UInt32.le_iff_toNat_le.mpr h)
      rw [if_neg hreach, if_neg fun h => hreach' h.1]
      refine ⟨_, rfl, ?_⟩
      rw [if_pos hfit]
      exact hstart
  · -- the sum wraps to less than the threshold
    rw [if_neg hfit] at hstart
    have hreach : ¬tcb.m_ssThresh ≤ tcb.m_cWnd + tcb.m_segmentSize := by
      rw [UInt32.le_iff_toNat_le]
      omega
    rw [if_neg hreach]
    refine ⟨_, rfl, ?_⟩
    rw [if_neg (by split <;> omega)]
    exact hstart

/-- The increase is the one over the integers, or wraps to less than a segment. -/
theorem increaseWindow_eq (h : tcb.Sized) (hn : 0 < n.toNat) :
    ∃ w, TcpNewReno.increaseWindow tcb n = some { tcb with m_cWnd := w } ∧
      if tcb.grown n.toNat < 2 ^ 32 then w.toNat = tcb.grown n.toNat
      else w.toNat < tcb.m_segmentSize.toNat := by
  by_cases hslow : tcb.m_cWnd.toNat < tcb.m_ssThresh.toNat
  · exact increaseWindow_slow h hn hslow
  · have hreach : tcb.m_ssThresh ≤ tcb.m_cWnd := UInt32.le_iff_toNat_le.mpr (Nat.le_of_not_lt hslow)
    rw [TcpNewReno.increaseWindow, if_neg fun h => hslow (UInt32.lt_iff_toNat_lt.mp h), if_pos hreach,
      congestionAvoidance_eq hn h.segment_le (Nat.lt_of_lt_of_le h.segment_pos h.window), grown_avoid hslow hn]
    exact ⟨_, rfl, toNat_add_or tcb.m_cWnd (adder_le h.segment_pos h.window) h.segment_le⟩

/-- The increase leaves at least two segments. -/
theorem two_le_grown (h : tcb.Sized) (n : ℕ) : 2 * tcb.m_segmentSize.toNat ≤ tcb.grown n := by
  obtain ⟨hseg, -, hthresh, hwindow⟩ := h
  unfold TcpSocketState.grown
  dsimp only
  split_ifs <;> omega

/-- For one segment it adds at most a segment. -/
theorem grown_one_le (h : tcb.Sized) : tcb.grown 1 ≤ tcb.m_cWnd.toNat + tcb.m_segmentSize.toNat := by
  obtain ⟨hseg, -, hthresh, hwindow⟩ := h
  have hadd := adder_le hseg hwindow
  unfold TcpSocketState.grown
  dsimp only
  split_ifs <;> omega

end Increase

/-! ### One ACK -/

section Step

variable {s s' : OpenSender} {ack : OpenAck}

/-- A segment is counted, and the count does not wrap. -/
theorem segsAcked_pos (hseg : 0 < s.m_tcb.m_segmentSize.toNat)
    (hack : ack.AcksSegment s.m_tcb.m_segmentSize s.headSequence) : 0 < (s.segsAcked ack).toNat := by
  obtain ⟨hgt, hle⟩ := hack
  have hfew := (SequenceNumber32.gt_iff _ _).mp hgt
  have hbytes : (ack.ackNumber.diff s.headSequence).toNat ≤ 2 ^ 31 := by omega
  unfold OpenSender.segsAcked
  generalize ack.ackNumber.diff s.headSequence = bytesAcked at *
  have hsegs : 0 < bytesAcked.toNat / s.m_tcb.m_segmentSize.toNat :=
    Nat.div_pos (UInt32.le_iff_toNat_le.mp hle) hseg
  have hfit : bytesAcked.toNat / s.m_tcb.m_segmentSize.toNat ≤ 2 ^ 31 :=
    Nat.le_trans (Nat.div_le_self _ _) hbytes
  simp only [OpenSender.countAcked]
  split
  · rw [UInt32.toNat_add, UInt32.toNat_div]
    show 0 < (_ + 1) % _
    omega
  · rwa [UInt32.toNat_div]

/-- What an ACK makes of a sender, with the window `w` that the increase leaves. -/
structure OpenSender.Received (s : OpenSender) (ack : OpenAck) (w : ℕ) (s' : OpenSender) : Prop where
  fec : s'.m_fec = s.m_fec
  segmentSize : s'.m_tcb.m_segmentSize = s.m_tcb.m_segmentSize
  ssThresh : s'.m_tcb.m_ssThresh = s.m_tcb.m_ssThresh
  head : s'.headSequence = ack.ackNumber
  left : s'.m_bytesAckedNotProcessed = (s.countAcked (ack.ackNumber.diff s.headSequence)).2
  cWnd : s'.m_tcb.m_cWnd.toNat = if ack.recovered then ⌊w * s.m_fec.m_rateControlValue⌋₊ else w

/-- A value below 1 does not take a window out of its range. -/
theorem floor_mul_le {v : ℚ} (hv : v < 1) (w : ℕ) : ⌊w * v⌋₊ ≤ w := by
  refine Nat.floor_le_of_le ?_
  have hw : (0 : ℚ) ≤ w := Nat.cast_nonneg w
  exact mul_le_of_le_one_right hw hv.le

/-- An ACK is received: the window is increased, and scaled when a packet was recovered. -/
theorem OpenSender.Starts.receive (h : s.Starts) (hack : ack.AcksSegment s.m_tcb.m_segmentSize s.headSequence) :
    ∃ s' w, s.receive ack = some s' ∧ s.Received ack w s' ∧
      if s.m_tcb.grown (s.segsAcked ack).toNat < 2 ^ 32 then w = s.m_tcb.grown (s.segsAcked ack).toNat
      else w < s.m_tcb.m_segmentSize.toNat := by
  obtain ⟨w, hincrease, hw⟩ := increaseWindow_eq h.sized (segsAcked_pos h.sized.segment_pos hack)
  unfold OpenSender.receive
  cases hrecovered : ack.recovered with
  | true =>
    have hlt : ⌊w.toNat * s.m_fec.m_rateControlValue⌋₊ < 2 ^ 32 :=
      Nat.lt_of_le_of_lt (floor_mul_le h.rate_lt _) w.toNat_lt
    rw [if_pos rfl, OpenSender.processAckofRecoveredPacket, OpenSender.ackNewData]
    change ∃ s' w, (TcpNewReno.increaseWindow s.m_tcb (s.segsAcked ack)).map _ = some s' ∧ _
    rw [hincrease]
    refine ⟨_, w.toNat, rfl, ⟨rfl, rfl, rfl, rfl, rfl, ?_⟩, hw⟩
    rw [if_pos hrecovered]
    exact UInt32.toNat_ofNat_of_lt hlt
  | false =>
    rw [if_neg Bool.false_ne_true, OpenSender.processAck, OpenSender.ackNewData]
    change ∃ s' w, (TcpNewReno.increaseWindow s.m_tcb (s.segsAcked ack)).map _ = some s' ∧ _
    rw [hincrease]
    refine ⟨_, w.toNat, rfl, ⟨rfl, rfl, rfl, rfl, rfl, ?_⟩, hw⟩
    rw [if_neg (by rw [hrecovered]; exact Bool.false_ne_true)]
    rfl

/-- A sender that still holds a segment goes on. -/
theorem OpenSender.Received.starts (h : s.Starts) {w : ℕ} (hr : s.Received ack w s')
    (hwindow : s.m_tcb.m_segmentSize.toNat ≤ s'.m_tcb.m_cWnd.toNat) : s'.Starts where
  rate_pos := hr.fec ▸ h.rate_pos
  rate_lt := hr.fec ▸ h.rate_lt
  sized :=
    { segment_pos := hr.segmentSize ▸ h.sized.segment_pos
      segment_le := hr.segmentSize ▸ h.sized.segment_le
      thresh := by
        rw [hr.segmentSize, hr.ssThresh]
        exact h.sized.thresh
      window := hr.segmentSize ▸ hwindow }

/-- With a value of a half or more the window holds a segment after an ACK exactly when the increase did not
wrap. -/
theorem OpenSender.Received.window_iff (h : s.Starts) (hhalf : 1 / 2 ≤ s.m_fec.m_rateControlValue) {w : ℕ}
    (hr : s.Received ack w s')
    (hw : if s.m_tcb.grown (s.segsAcked ack).toNat < 2 ^ 32 then w = s.m_tcb.grown (s.segsAcked ack).toNat
      else w < s.m_tcb.m_segmentSize.toNat) :
    s.m_tcb.m_segmentSize.toNat ≤ s'.m_tcb.m_cWnd.toNat ↔ s.m_tcb.grown (s.segsAcked ack).toNat < 2 ^ 32 := by
  have htwo := two_le_grown h.sized (s.segsAcked ack).toNat
  rw [hr.cWnd]
  split at hw
  · next hfit =>
    refine iff_of_true ?_ hfit
    rw [← hw] at htwo
    split
    · refine Nat.le_floor ?_
      have htwo' : (2 * s.m_tcb.m_segmentSize.toNat : ℚ) ≤ w := by exact_mod_cast htwo
      have hscaled := mul_le_mul_of_nonneg_left hhalf (Nat.cast_nonneg (α := ℚ) w)
      linarith
    · omega
  · next hfit =>
    refine iff_of_false (Nat.not_le.mpr (Nat.lt_of_le_of_lt ?_ hw)) hfit
    split
    · exact floor_mul_le h.rate_lt w
    · exact Nat.le_refl _

end Step

/-! ### Sending -/

section Sending

variable {b : TcpTxBuffer} {s : TcpSocketBase} {mss cWnd : UInt32}

/-- New data is copied to the list of what was sent. -/
theorem Held.copy_new (h : Held b) (hpos : 0 < mss.toNat) (hle : mss.toNat ≤ span b.m_appList) :
    ∃ item b', b.copyFromSequence mss b.sentEnd = some (some item, b') ∧ b.m_sentSize < b'.m_sentSize := by
  have hheld : b.held = span b.m_sentList + span b.m_appList := rfl
  obtain ⟨item, mid, post, happ, hends, heq⟩ := h.getNewSegment_eq hpos hle
  have hcopied : Copied b (span b.m_sentList) mss.toNat _ := .sentNew happ rfl hends
  have hsegment := hcopied.segment h hpos
  generalize takeOut [] item mid post 0 mss.toNat b.m_retrans b.nextNode = f at heq hsegment
  have hcopy : b.copyFromSequence mss b.sentEnd = some (some (b.sentNew f).1, (b.sentNew f).2) := by
    rw [h.sentEnd, TcpTxBuffer.copyFromSequence, copyWithin_succ,
      h.copyBranch_eq (by omega) mss (s := mss.toNat) (by omega), if_neg (by omega), if_neg (by omega), if_pos rfl]
    dsimp only
    rw [heq]
    rfl
  have hsmall := hsegment.held.small
  have hmore : span b.m_sentList < span (b.sentNew f).2.m_sentList := by
    show span b.m_sentList < span (b.m_sentList ++ [_])
    rw [span_append, span_cons]
    exact Nat.lt_add_of_pos_right (Nat.add_pos_left hsegment.pos _)
  refine ⟨_, _, hcopy, ?_⟩
  rw [hsegment.held.sentSize, h.sentSize, UInt32.lt_iff_toNat_lt, toNat_ofNat (by omega), toNat_ofNat (by omega)]
  exact hmore

/-- The range of the next segment, when nothing is lost and the receiver has room. -/
theorem TcpSocketBase.Waiting.nextSeg_eq (h : s.Waiting mss) :
    s.m_txBuffer.nextSeg s.m_rWnd (s.m_sackEnabled && s.m_congState == .caRecovery) =
      some (s.m_txBuffer.sentEnd, s.m_txBuffer.sentEnd.add mss) := by
  have hheld : s.m_txBuffer.held = span s.m_txBuffer.m_sentList + span s.m_txBuffer.m_appList := rfl
  have hsmall := h.held.small
  have hunsent := h.unsent
  have hwindow := h.window
  have hfind : s.m_txBuffer.m_sentList.find? TcpTxItem.wanted = none := by
    rw [List.find?_eq_none]
    intro i hi
    rw [TcpTxItem.wanted, h.kept i hi, Bool.and_false]
    exact Bool.false_ne_true
  have hsize : 0 < s.m_txBuffer.sizeFromSequence s.m_txBuffer.sentEnd := by
    rw [h.held.sentEnd, h.held.sizeFromSequence (by omega), UInt32.lt_iff_toNat_lt, toNat_ofNat (by omega)]
    show 0 < _
    omega
  have hroom : s.m_txBuffer.m_sentSize ≤ s.m_rWnd := UInt32.le_iff_toNat_le.mpr (by omega)
  have hmin : min mss (s.m_rWnd - s.m_txBuffer.m_sentSize) = mss := by
    rw [← UInt32.toNat_inj, toNat_min, UInt32.toNat_sub_of_le _ _ hroom]
    omega
  rw [h.congState, Bool.and_comm, TcpTxBuffer.nextSeg, nextLost_eq _ none h.held.starts, hfind]
  show (if 0 < s.m_txBuffer.sizeFromSequence s.m_txBuffer.sentEnd then _ else _) = _
  rw [if_pos hsize, if_pos hroom, h.bufferSegmentSize, hmin]

/-- Data that waits is sent exactly when the window holds a segment. -/
theorem TcpSocketBase.Waiting.sends_iff (h : s.Waiting mss) (hpos : 0 < mss.toNat) : s.Sends cWnd ↔ mss ≤ cWnd := by
  have hheld : s.m_txBuffer.held = span s.m_txBuffer.m_sentList + span s.m_txBuffer.m_appList := rfl
  have hsmall := h.held.small
  have hunsent := h.unsent
  have hwindow := h.window
  have havailable : s.availableWindow cWnd = min s.m_rWnd cWnd := by
    rw [availableWindow, h.flight]
    show (if 0 > min s.m_rWnd cWnd then 0 else min s.m_rWnd cWnd - 0) = _
    rw [if_neg (UInt32.not_lt.mpr UInt32.zero_le), UInt32.sub_zero]
  have hmin := toNat_min s.m_rWnd cWnd
  have hsize : s.m_txBuffer.m_size ≠ 0 := by
    rw [h.held.size, Ne, ← UInt32.toNat_inj, toNat_ofNat (by omega)]
    show ¬_ = 0
    omega
  have hdata : (s.m_txBuffer.sizeFromSequence s.m_txBuffer.sentEnd).toNat = span s.m_txBuffer.m_appList := by
    rw [h.held.sentEnd, h.held.sizeFromSequence (by omega), toNat_ofNat (by omega)]
    omega
  rw [Sends, sendPendingData, if_neg hsize, sendWithin, havailable]
  dsimp only
  rw [h.nextSeg_eq]
  dsimp only
  rw [h.segmentSize, SequenceNumber32.add_diff_self]
  by_cases hle : mss ≤ cWnd
  · have hle' := UInt32.le_iff_toNat_le.mp hle
    obtain ⟨item, b', hcopy, hmore⟩ := h.held.copy_new hpos hunsent.le
    have hopen : min s.m_rWnd cWnd ≠ 0 := by
      rw [Ne, ← UInt32.toNat_inj, hmin]
      show ¬_ = 0
      omega
    have hsilly : ¬(min s.m_rWnd cWnd < mss) := by
      rw [UInt32.lt_iff_toNat_lt, hmin]
      omega
    have hnagle : ¬(s.m_txBuffer.sizeFromSequence s.m_txBuffer.sentEnd < mss) := by
      rw [UInt32.lt_iff_toNat_lt, hdata]
      omega
    have hwhole : min (min (min s.m_rWnd cWnd) mss) mss = mss := by
      rw [← UInt32.toNat_inj, toNat_min, toNat_min, hmin]
      omega
    refine iff_of_true ?_ hle
    rw [if_neg hopen, if_neg (by simp [hsilly]), if_neg (by simp [hnagle]), hwhole, sendDataPacket, hcopy]
    exact ⟨_, rfl, hmore⟩
  · have hlt' : cWnd.toNat < mss.toNat := by
      rw [UInt32.le_iff_toNat_le] at hle
      omega
    refine iff_of_false ?_ hle
    rintro ⟨s', heq, hmore⟩
    suffices s' = s by exact absurd (this ▸ hmore) (UInt32.lt_irrefl _)
    by_cases hopen : min s.m_rWnd cWnd = 0
    · rw [if_pos hopen] at heq
      exact (Option.some.inj heq).symm
    · have hsilly : min s.m_rWnd cWnd < mss := by
        rw [UInt32.lt_iff_toNat_lt, hmin]
        omega
      have hmoredata : s.m_txBuffer.sizeFromSequence s.m_txBuffer.sentEnd > min s.m_rWnd cWnd := by
        rw [gt_iff_lt, UInt32.lt_iff_toNat_lt, hmin, hdata]
        omega
      rw [if_neg hopen, if_pos (by simp [hsilly, hmoredata])] at heq
      exact (Option.some.inj heq).symm

end Sending

/-! ### Runs -/

section Runs

variable {s s' : OpenSender} {ack : OpenAck} {acks : List OpenAck}

theorem OpenSender.canSend_iff (hpos : 0 < s.m_tcb.m_segmentSize.toNat) :
    s.CanSend ↔ s.m_tcb.m_segmentSize.toNat ≤ s.m_tcb.m_cWnd.toNat :=
  ⟨fun h => UInt32.le_iff_toNat_le.mp h.1, fun h =>
    ⟨UInt32.le_iff_toNat_le.mpr h, fun _ hwaiting => (hwaiting.sends_iff hpos).mpr (UInt32.le_iff_toNat_le.mpr h)⟩⟩

/-- What runs say of their first ACK, when it is received. -/
theorem OpenSender.neverStarves_cons (hreceive : s.receive ack = some s') :
    s.NeverStarves (ack :: acks) ↔ s'.CanSend ∧ s'.NeverStarves acks := by
  constructor
  · rintro ⟨s₁, hs₁, hall⟩
    obtain rfl := Option.some.inj (hs₁.symm.trans hreceive)
    exact hall
  · exact fun hall => ⟨s', hreceive, hall⟩

theorem OpenSender.unwrapped_cons (hreceive : s.receive ack = some s') :
    s.Unwrapped (ack :: acks) ↔ s.m_tcb.grown (s.segsAcked ack).toNat < 2 ^ 32 ∧ s'.Unwrapped acks := by
  refine and_congr Iff.rfl ⟨fun h => h s' hreceive, fun h s₁ hs₁ => ?_⟩
  obtain rfl := Option.some.inj (hs₁.symm.trans hreceive)
  exact h

/-- With a value of a half or more a sender starves exactly when an increase wraps. -/
theorem OpenSender.Starts.neverStarves_iff (h : s.Starts) (hhalf : 1 / 2 ≤ s.m_fec.m_rateControlValue)
    (hacks : AcksSegments s.m_tcb.m_segmentSize s.headSequence acks) : s.NeverStarves acks ↔ s.Unwrapped acks := by
  induction acks generalizing s with
  | nil => exact Iff.rfl
  | cons ack acks ih =>
    obtain ⟨hack, hacks⟩ := hacks
    obtain ⟨s', w, hreceive, hr, hw⟩ := h.receive hack
    have hwindow := hr.window_iff h hhalf hw
    have hpos : 0 < s'.m_tcb.m_segmentSize.toNat := hr.segmentSize ▸ h.sized.segment_pos
    rw [neverStarves_cons hreceive, unwrapped_cons hreceive, canSend_iff hpos, hr.segmentSize, hwindow]
    refine and_congr_right fun hfit => ?_
    refine ih (hr.starts h (hwindow.mpr hfit)) (hr.fec ▸ hhalf) ?_
    rw [hr.segmentSize, hr.head]
    exact hacks

/-- The ACK of one more segment, of a recovered packet. -/
def OpenSender.nextAck (s : OpenSender) : OpenAck := ⟨s.headSequence.add s.m_tcb.m_segmentSize, true⟩

theorem OpenSender.Starts.countAcked_nextAck (h : s.Starts)
    (hleft : s.m_bytesAckedNotProcessed.toNat < s.m_tcb.m_segmentSize.toNat) :
    s.countAcked (s.nextAck.ackNumber.diff s.headSequence) = (1, s.m_bytesAckedNotProcessed) := by
  have hpos := h.sized.segment_pos
  have hdiv : s.m_tcb.m_segmentSize / s.m_tcb.m_segmentSize = 1 := by
    rw [← UInt32.toNat_inj, UInt32.toNat_div, Nat.div_self hpos]
    rfl
  have hmod : s.m_bytesAckedNotProcessed + s.m_tcb.m_segmentSize % s.m_tcb.m_segmentSize =
      s.m_bytesAckedNotProcessed := by
    have hzero : s.m_tcb.m_segmentSize % s.m_tcb.m_segmentSize = 0 := by
      rw [← UInt32.toNat_inj, UInt32.toNat_mod, Nat.mod_self]
      rfl
    rw [hzero, UInt32.add_zero]
  rw [nextAck, SequenceNumber32.add_diff_self, countAcked, hdiv, hmod, if_neg (by rw [ge_iff_le, UInt32.le_iff_toNat_le]; omega)]

/-- With a value below a half the ACK of one more segment shrinks the window. -/
theorem OpenSender.Starts.receive_nextAck (h : s.Starts) (hhalf : s.m_fec.m_rateControlValue < 1 / 2)
    (hleft : s.m_bytesAckedNotProcessed.toNat < s.m_tcb.m_segmentSize.toNat)
    (hroom : s.m_tcb.m_cWnd.toNat + s.m_tcb.m_segmentSize.toNat < 2 ^ 32) :
    s.nextAck.AcksSegment s.m_tcb.m_segmentSize s.headSequence ∧
      s.m_tcb.grown (s.segsAcked s.nextAck).toNat < 2 ^ 32 ∧
      ∃ s' w, s.receive s.nextAck = some s' ∧ s.Received s.nextAck w s' ∧
        s'.m_tcb.m_cWnd.toNat < s.m_tcb.m_cWnd.toNat := by
  have hpos := h.sized.segment_pos
  have hle := h.sized.segment_le
  have hack : s.nextAck.AcksSegment s.m_tcb.m_segmentSize s.headSequence := by
    refine ⟨(SequenceNumber32.gt_iff _ _).mpr ?_, ?_⟩
    · rw [nextAck, SequenceNumber32.add_diff_self]
      exact ⟨hpos, .inl (by omega)⟩
    · rw [nextAck, SequenceNumber32.add_diff_self]
      exact UInt32.le_refl _
  obtain ⟨s', w, hreceive, hr, hw⟩ := h.receive hack
  have hone : (s.segsAcked s.nextAck).toNat = 1 := by
    rw [segsAcked, h.countAcked_nextAck hleft]
    rfl
  have hgrown := grown_one_le h.sized
  rw [hone] at hw ⊢
  have hfit : s.m_tcb.grown 1 < 2 ^ 32 := by omega
  refine ⟨hack, hfit, s', w, hreceive, hr, ?_⟩
  rw [if_pos hfit] at hw
  have hwindow := h.sized.window
  have hpos' := h.rate_pos
  rw [hr.cWnd, if_pos (show s.nextAck.recovered = true from rfl), Nat.floor_lt (by positivity)]
  have hdouble : (w : ℚ) ≤ 2 * s.m_tcb.m_cWnd.toNat := by
    rw [hw]
    exact_mod_cast (by omega)
  have hcwnd : (0 : ℚ) < s.m_tcb.m_cWnd.toNat := by exact_mod_cast Nat.lt_of_lt_of_le hpos hwindow
  calc (w : ℚ) * s.m_fec.m_rateControlValue
      ≤ 2 * s.m_tcb.m_cWnd.toNat * s.m_fec.m_rateControlValue := mul_le_mul_of_nonneg_right hdouble hpos'.le
    _ < 2 * s.m_tcb.m_cWnd.toNat * (1 / 2) := mul_lt_mul_of_pos_left hhalf (by positivity)
    _ = s.m_tcb.m_cWnd.toNat := by ring

/-- Such ACKs in a row starve the sender. -/
theorem OpenSender.Starts.exists_starving (h : s.Starts) (hhalf : s.m_fec.m_rateControlValue < 1 / 2)
    (hleft : s.m_bytesAckedNotProcessed.toNat < s.m_tcb.m_segmentSize.toNat)
    (hroom : s.m_tcb.m_cWnd.toNat + s.m_tcb.m_segmentSize.toNat < 2 ^ 32) :
    ∃ acks, AcksSegments s.m_tcb.m_segmentSize s.headSequence acks ∧ s.Unwrapped acks ∧ ¬s.NeverStarves acks := by
  induction hc : s.m_tcb.m_cWnd.toNat using Nat.strong_induction_on generalizing s with
  | _ c ih =>
    obtain ⟨hack, hfit, s', w, hreceive, hr, hless⟩ := h.receive_nextAck hhalf hleft hroom
    have hpos : 0 < s'.m_tcb.m_segmentSize.toNat := hr.segmentSize ▸ h.sized.segment_pos
    by_cases hwindow : s.m_tcb.m_segmentSize.toNat ≤ s'.m_tcb.m_cWnd.toNat
    · have hleft' : s'.m_bytesAckedNotProcessed.toNat < s'.m_tcb.m_segmentSize.toNat := by
        rw [hr.left, hr.segmentSize, h.countAcked_nextAck hleft]
        exact hleft
      obtain ⟨acks, hacks, hunwrapped, hstarves⟩ := ih s'.m_tcb.m_cWnd.toNat (by omega) (hr.starts h hwindow)
        (hr.fec ▸ hhalf) hleft' (by rw [hr.segmentSize]; omega) rfl
      rw [hr.segmentSize, hr.head] at hacks
      refine ⟨s.nextAck :: acks, ⟨hack, hacks⟩, (unwrapped_cons hreceive).mpr ⟨hfit, hunwrapped⟩, ?_⟩
      rw [neverStarves_cons hreceive]
      exact fun hall => hstarves hall.2
    · refine ⟨[s.nextAck], ⟨hack, trivial⟩, (unwrapped_cons hreceive).mpr ⟨hfit, trivial⟩, ?_⟩
      rw [neverStarves_cons hreceive, canSend_iff hpos, hr.segmentSize]
      exact fun hall => hwindow hall.1

/-- With a value of a half or more no ACK leaves less than a segment exactly when no increase wraps, and with
less than a half some ACKs do without that. -/
theorem rate_controlled_window (s : OpenSender) (h : s.Starts) :
    (1 / 2 ≤ s.m_fec.m_rateControlValue → ∀ acks, AcksSegments s.m_tcb.m_segmentSize s.headSequence acks →
        (s.NeverStarves acks ↔ s.Unwrapped acks)) ∧
      (s.m_bytesAckedNotProcessed.toNat < s.m_tcb.m_segmentSize.toNat →
        s.m_tcb.m_cWnd.toNat + s.m_tcb.m_segmentSize.toNat < 2 ^ 32 →
          ((∀ acks, AcksSegments s.m_tcb.m_segmentSize s.headSequence acks → s.Unwrapped acks →
            s.NeverStarves acks) ↔ 1 / 2 ≤ s.m_fec.m_rateControlValue)) := by
  have hkeeps : 1 / 2 ≤ s.m_fec.m_rateControlValue → ∀ acks,
      AcksSegments s.m_tcb.m_segmentSize s.headSequence acks → (s.NeverStarves acks ↔ s.Unwrapped acks) :=
    fun hhalf _ hacks => h.neverStarves_iff hhalf hacks
  refine ⟨hkeeps, fun hleft hroom => ⟨fun hall => ?_, fun hhalf acks hacks => (hkeeps hhalf acks hacks).mpr⟩⟩
  by_contra hhalf
  obtain ⟨acks, hacks, hunwrapped, hstarves⟩ := h.exists_starving (not_le.mp hhalf) hleft hroom
  exact hstarves (hall acks hacks hunwrapped)

end Runs

/-- A window of one segment. -/
def oneSegment : TcpSocketState := { m_cWnd := 536, m_ssThresh := 2000, m_segmentSize := 536 }

theorem sized_oneSegment : oneSegment.Sized := ⟨by decide, by decide, by decide, by decide⟩

def slowed (v : ℚ) : OpenSender where
  m_tcb := oneSegment
  m_fec := { m_rateControlValue := v }
  headSequence := ⟨1⟩

theorem rate_controlled_window_half :
    (∀ acks, AcksSegments 536 ⟨1⟩ acks → (slowed (1 / 2)).Unwrapped acks →
      (slowed (1 / 2)).NeverStarves acks) ↔ (1 / 2 : ℚ) ≤ 1 / 2 :=
  (rate_controlled_window (slowed (1 / 2)) ⟨by norm_num [slowed], by norm_num [slowed], sized_oneSegment⟩).2
    (by decide) (by decide)

/-- The ACK of a recovered packet leaves 428 bytes of a window of 1072. -/
theorem not_rate_controlled_window_small :
    (slowed (2 / 5)).Starts ∧ AcksSegments 536 ⟨1⟩ [⟨⟨537⟩, true⟩] ∧
      ((slowed (2 / 5)).receive ⟨⟨537⟩, true⟩).map (fun s => s.m_tcb.m_cWnd) = some 428 ∧
      ¬(slowed (2 / 5)).NeverStarves [⟨⟨537⟩, true⟩] := by
  have hcode : ((slowed (2 / 5)).receive ⟨⟨537⟩, true⟩).map (fun s => (s.m_tcb.m_segmentSize, s.m_tcb.m_cWnd)) =
      some (536, 428) := by decide +kernel
  refine ⟨⟨by norm_num [slowed], by norm_num [slowed], sized_oneSegment⟩, ⟨⟨by decide, by decide⟩, trivial⟩,
    by decide +kernel, ?_⟩
  rintro ⟨s', hreceive, hsend, -⟩
  rw [hreceive] at hcode
  obtain ⟨hmss, hcwnd⟩ := Prod.mk.inj (Option.some.inj hcode)
  have hle := hsend.1
  rw [hmss, hcwnd] at hle
  exact absurd hle (by decide)

end Ns3.Tcp
