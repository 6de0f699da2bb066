import Ns3.Tcp.TxStream

/-!
# Congestion states of a TCP sender

What `ReceivedAck`, `SendPendingData` and `ReTxTimeout` do to the congestion state of an
established sender, its count of duplicate ACKs and its recovery point. Windows come from
congestion control and from the peer, and are given. `ProcessAckofRecoveredPacket` does the same to
these members as `ProcessAck`. Source: `src/internet/model/tcp-socket-base.cc`.
-/

namespace Ns3.Tcp

open Ns3.Network Ns3.Lib

/-- `TcpCongState_t`. -/
inductive TcpCongState where
  | caOpen
  | caDisorder
  | caCwr
  | caRecovery
  | caLoss
  deriving DecidableEq, Repr

/-- `EcnState_t`. -/
inductive EcnState where
  | ecnDisabled
  | ecnIdle
  | ecnCeRcvd
  | ecnSendingEce
  | ecnEceRcvd
  | ecnCwrSent
  deriving DecidableEq, Repr

/-- The members of `TcpSocketBase` and of its `TcpSocketState` that decide the congestion state. -/
structure TcpSocketBase where
  m_txBuffer : TcpTxBuffer
  m_congState : TcpCongState := .caOpen
  m_ecnState : EcnState := .ecnDisabled
  m_highTxMark : SequenceNumber32
  m_highRxAckMark : SequenceNumber32
  m_highRxMark : SequenceNumber32
  m_rWnd : UInt32
  m_dupAckCount : UInt32 := 0
  m_retxThresh : UInt32 := 3
  m_recover : SequenceNumber32 := ⟨0⟩
  m_recoverActive : Bool := false
  m_ecnEchoSeq : SequenceNumber32 := ⟨0⟩
  m_ecnCWRSeq : SequenceNumber32 := ⟨0⟩
  m_sackEnabled : Bool := true
  m_limitedTx : Bool := true
  m_noDelay : Bool := true
  m_segmentSize : UInt32
  m_dataRetries : UInt32 := 6
  m_dataRetrCount : UInt32 := 6
  deriving DecidableEq, Repr

/-- What is read of the header of an ACK: the SACK lists of its options in order, and the window
scaled. -/
structure AckHeader where
  ackNumber : SequenceNumber32
  sequenceNumber : SequenceNumber32
  window : UInt32
  ece : Bool := false
  sackLists : List (List SackBlock) := []

/-- `IsRetransmittedDataAcked`, `tcp-tx-buffer.cc:649–663`. -/
def TcpTxBuffer.isRetransmittedDataAcked (b : TcpTxBuffer) (ack : SequenceNumber32) : Bool :=
  b.m_sentList.any fun item =>
    item.m_startSeq.add item.getSize == ack && !item.m_sacked && item.m_retrans

namespace TcpSocketBase

/-! ### Sending -/

/-- `HeadSequence` of the send buffer. -/
def headSequence (s : TcpSocketBase) : SequenceNumber32 := s.m_txBuffer.m_firstByteSeq

/-- `UnAckDataCount`. -/
def unAckDataCount (s : TcpSocketBase) : UInt32 := s.m_highTxMark.diff s.headSequence

/-- `SendDataPacket`, `tcp-socket-base.cc:3099–3271`. The null pointer is followed. -/
def sendDataPacket (s : TcpSocketBase) (seq : SequenceNumber32) (maxSize : UInt32) :
    Option (UInt32 × TcpSocketBase) :=
  match s.m_txBuffer.copyFromSequence maxSize seq with
  | some (some outItem, b) =>
    let sz := outItem.getSize
    let isRetransmission := outItem.m_retrans
    let cwr := s.m_ecnState == .ecnEceRcvd && s.m_ecnEchoSeq.gt s.m_ecnCWRSeq && !isRetransmission
    let sent := seq.add sz
    some (sz, { s with
      m_txBuffer := b
      m_ecnState := if cwr then .ecnCwrSent else s.m_ecnState
      m_ecnCWRSeq := if cwr then seq else s.m_ecnCWRSeq
      m_highTxMark := if sent.lt s.m_highTxMark then s.m_highTxMark else sent })
  | _ => none

/-- The `while` of `SendPendingData`, `tcp-socket-base.cc:3831–3950`, with what `AvailableWindow`
returns each time it is called; it stops at the end of the list where pacing stops it. -/
def sendWithin (s : TcpSocketBase) : List UInt32 → Option TcpSocketBase
  | [] => some s
  | availableWindow :: windows =>
    if availableWindow = 0 then some s
    else
      let enableRule3 := s.m_sackEnabled && s.m_congState == .caRecovery
      match s.m_txBuffer.nextSeg s.m_rWnd enableRule3 with
      | none => some s
      | some (next, nextHigh) =>
        let availableData := s.m_txBuffer.sizeFromSequence next
        if availableWindow < s.m_segmentSize && availableData > availableWindow then some s
        else if !s.m_noDelay && 0 < s.unAckDataCount && availableData < s.m_segmentSize then some s
        else
          (s.sendDataPacket next
            (min (min availableWindow s.m_segmentSize) (nextHigh.diff next))).bind
              fun (_, s) => s.sendWithin windows

/-- `SendPendingData`, `tcp-socket-base.cc:3809–3970`. -/
def sendPendingData (s : TcpSocketBase) (windows : List UInt32) : Option TcpSocketBase :=
  if s.m_txBuffer.m_size = 0 then some s else s.sendWithin windows

/-- `DoRetransmit`, `tcp-socket-base.cc:4503–4536`. -/
def doRetransmit (s : TcpSocketBase) : Option TcpSocketBase :=
  (match s.m_txBuffer.nextSeg s.m_rWnd false with
    | none => s.sendDataPacket s.headSequence s.m_segmentSize
    | some (seq, seqHigh) => s.sendDataPacket seq (seqHigh.diff seq)).map Prod.snd

/-! ### Congestion states -/

/-- `EnterCwr`, `tcp-socket-base.cc:1603–1629`. -/
def enterCwr (s : TcpSocketBase) : TcpSocketBase :=
  { s with m_congState := .caCwr, m_recover := s.m_highTxMark }

/-- `EnterRecovery`, `tcp-socket-base.cc:1631–1695`. -/
def enterRecovery (s : TcpSocketBase) : Option TcpSocketBase :=
  let marked :=
    if !s.m_sackEnabled then s.m_txBuffer.addRenoSack.map TcpTxBuffer.markHeadAsLost
    else if !s.m_txBuffer.isLost s.headSequence then some s.m_txBuffer.markHeadAsLost
    else some s.m_txBuffer
  marked.bind fun b =>
    doRetransmit { s with
      m_txBuffer := b
      m_recover := s.m_highTxMark
      m_recoverActive := true
      m_congState := .caRecovery }

/-- `DupAck`, `tcp-socket-base.cc:1697–1801`, and whether its assertions hold. -/
def dupAck (s : TcpSocketBase) : Option (Bool × TcpSocketBase) :=
  if s.m_congState = .caLoss then some (true, s)
  else
    let s := if s.m_congState = .caRecovery then s
      else { s with m_dupAckCount := s.m_dupAckCount + 1 }
    -- from Open we go Disorder
    let counted := s.m_congState != .caOpen || s.m_dupAckCount == 1
    let s := if s.m_congState = .caOpen then { s with m_congState := .caDisorder } else s
    if s.m_congState = .caRecovery then
      (if !s.m_sackEnabled then s.m_txBuffer.addRenoSack else some s.m_txBuffer).map fun b =>
        (counted, { s with m_txBuffer := b })
    else if s.m_congState = .caDisorder then
      let bounded := decide (s.m_dupAckCount ≤ s.m_retxThresh) || s.m_recoverActive
      if s.m_dupAckCount = s.m_retxThresh &&
          (s.m_highRxAckMark.ge s.m_recover || !s.m_recoverActive) ||
          s.m_txBuffer.isLost (s.m_highRxAckMark.add s.m_segmentSize) then
        s.enterRecovery.map fun s =>
          (counted && bounded && s.m_congState == .caRecovery, s)
      else
        (if !s.m_sackEnabled && s.m_limitedTx then s.m_txBuffer.addRenoSack
          else some s.m_txBuffer).map fun b => (counted && bounded, { s with m_txBuffer := b })
    else some (counted, s)

/-- `NewAck`, `tcp-socket-base.cc:4220–4265`. -/
def newAck (s : TcpSocketBase) : TcpSocketBase := { s with m_dataRetrCount := s.m_dataRetries }

/-- Whether `ProcessAck` takes an ACK as a duplicate, `tcp-socket-base.cc:1974–1977`. -/
def isDupack (s : TcpSocketBase) (ackNumber : SequenceNumber32) (scoreboardUpdated : Bool)
    (oldHeadSequence : SequenceNumber32) : Bool :=
  if s.m_sackEnabled then scoreboardUpdated
  else ackNumber == oldHeadSequence && ackNumber.lt s.m_highTxMark

/-- The last branch of `ProcessAck`, `tcp-socket-base.cc:2129–2233`: an ACK of new data that does not
belong to a loss recovery or a window reduction that goes on. -/
def processNewAck (s : TcpSocketBase) (ackNumber : SequenceNumber32) (isDupack : Bool) :
    TcpSocketBase :=
  let exitedFastRecovery := s.m_congState == .caRecovery
  let s :=
    match s.m_congState with
    | .caDisorder => if !isDupack then { s with m_congState := .caOpen } else s
    | .caRecovery => { s with m_congState := .caOpen, m_dupAckCount := 0 }
    | .caLoss => { s with m_congState := .caOpen }
    | _ => s
  let s := if ackNumber.ge s.m_recover then { s with m_recoverActive := false } else s
  let s := if exitedFastRecovery then s.newAck else s
  if s.m_congState = .caOpen then s.newAck else s

/-- An ACK of new data in `ProcessAck`, `tcp-socket-base.cc:2042–2233`. -/
def ackNewData (s : TcpSocketBase) (ackNumber : SequenceNumber32) (isDupack : Bool) :
    Option TcpSocketBase :=
  if ackNumber.lt s.m_recover && s.m_congState == .caRecovery then
    let s := if !s.m_sackEnabled then { s with m_txBuffer := s.m_txBuffer.markHeadAsLost } else s
    (if !s.m_txBuffer.isRetransmittedDataAcked (ackNumber.add s.m_segmentSize) then
      s.doRetransmit else some s).map newAck
  else if ackNumber.lt s.m_recover && s.m_congState == .caLoss then some s.newAck
  else if s.m_congState = .caCwr then some s.newAck
  else some (s.processNewAck ackNumber isDupack)

/-- `ProcessAck` behind the call of `DupAck`, `tcp-socket-base.cc:1995–2239`. -/
def processAckNumber (s : TcpSocketBase) (ackNumber oldHeadSequence : SequenceNumber32)
    (isDupack : Bool) : Option TcpSocketBase :=
  -- nothing new is acknowledged
  if ackNumber == oldHeadSequence then some s
  else if ackNumber.gt oldHeadSequence then
    ackNewData { s with m_dupAckCount := if !isDupack then 0 else s.m_dupAckCount } ackNumber isDupack
  else some s

/-- `ProcessAck`, `tcp-socket-base.cc:1944–2239`, and whether the assertions of `DupAck` hold. -/
def processAck (s : TcpSocketBase) (ackNumber : SequenceNumber32) (scoreboardUpdated : Bool)
    (oldHeadSequence : SequenceNumber32) : Option (Bool × TcpSocketBase) :=
  let dup := s.isDupack ackNumber scoreboardUpdated oldHeadSequence
  (if dup then s.dupAck else some (true, s)).bind fun (asserted, s) =>
    (s.processAckNumber ackNumber oldHeadSequence dup).map fun s => (asserted, s)

/-- `ReadOptions`, `tcp-socket-base.cc:1578–1599`: the bytes SACKed by the last option. -/
def readOptions (b : TcpTxBuffer) (bytesSacked : UInt32) :
    List (List SackBlock) → Option (UInt32 × TcpTxBuffer)
  | [] => some (bytesSacked, b)
  | list :: options => (b.update list).bind fun (n, b) => readOptions b n options

/-- The step out of CWR in `ReceivedAck`, `tcp-socket-base.cc:1854–1867`. -/
def leaveCwr (s : TcpSocketBase) (ackNumber : SequenceNumber32) : TcpSocketBase :=
  if s.m_congState = .caCwr && ackNumber.gt s.m_recover then { s with m_congState := .caOpen } else s

/-- The ECN echo in `ReceivedAck`, `tcp-socket-base.cc:1869–1886`. -/
def ecnEcho (s : TcpSocketBase) (ackNumber oldHeadSequence : SequenceNumber32) (ece : Bool) :
    TcpSocketBase :=
  if ackNumber.gt oldHeadSequence && s.m_ecnState != .ecnDisabled && ece then
    if s.m_ecnEchoSeq.lt ackNumber then
      let s := { s with m_ecnEchoSeq := ackNumber, m_ecnState := .ecnEceRcvd }
      if s.m_congState = .caCwr then s else s.enterCwr
    else s
  else if s.m_ecnState = .ecnEceRcvd && !ece then { s with m_ecnState := .ecnIdle }
  else s

/-- `ReceivedAck`, `tcp-socket-base.cc:1804–1942`, and whether the assertions of `DupAck` hold;
`windows` are those of the `SendPendingData` at its end. -/
def receivedAck (s : TcpSocketBase) (h : AckHeader) (windows : List UInt32) :
    Option (Bool × TcpSocketBase) :=
  (readOptions s.m_txBuffer 0 h.sackLists).bind fun (bytesSacked, b) =>
    let s := { s with m_txBuffer := b }
    let oldHeadSequence := s.headSequence
    if h.ackNumber.lt oldHeadSequence then some (true, s)
    else
      (s.m_txBuffer.discardUpTo h.ackNumber).bind fun b =>
        let s := { s with m_txBuffer := b }
        let s := (s.leaveCwr h.ackNumber).ecnEcho h.ackNumber oldHeadSequence h.ece
        (s.processAck h.ackNumber (0 < bytesSacked) oldHeadSequence).bind fun (asserted, s) =>
          (s.sendPendingData windows).map fun s => (asserted, s)

/-- `UpdateWindowSize` of an established socket, `tcp-socket-base.cc:4918–4962`. -/
def updateWindowSize (s : TcpSocketBase) (h : AckHeader) : TcpSocketBase :=
  let update := h.ackNumber == s.m_highRxAckMark && s.m_rWnd < h.window ||
    h.ackNumber.gt s.m_highRxAckMark || h.sequenceNumber.gt s.m_highRxMark
  { s with
    m_highRxAckMark :=
      if h.ackNumber.gt s.m_highRxAckMark then h.ackNumber else s.m_highRxAckMark
    m_highRxMark :=
      if h.sequenceNumber.gt s.m_highRxMark then h.sequenceNumber else s.m_highRxMark
    m_rWnd := if update then h.window else s.m_rWnd }

/-- An ACK given to `ProcessEstablished`, `tcp-socket-base.cc:1480–1526`, by `DoForwardUp`, which
updates the window first. An ACK that is not in the window is not received. -/
def processEstablished (s : TcpSocketBase) (h : AckHeader) (windows : List UInt32) :
    Option (Bool × TcpSocketBase) :=
  let s := s.updateWindowSize h
  if h.ackNumber.lt s.headSequence then some (true, s)
  else if h.ackNumber.gt s.m_highTxMark then
    some (true, { s with
      m_ecnState := if s.m_ecnState = .ecnCeRcvd then .ecnSendingEce else s.m_ecnState })
  else s.receivedAck h windows

/-- `ReTxTimeout` of an established socket, `tcp-socket-base.cc:4266–4407`. With no retries left the
connection is dropped as it is. -/
def reTxTimeout (s : TcpSocketBase) (windows : List UInt32) : Option TcpSocketBase :=
  if s.m_txBuffer.m_size = 0 then some s
  else if s.m_dataRetrCount = 0 then some s
  else
    let b := if !s.m_sackEnabled then s.m_txBuffer.resetRenoSack else s.m_txBuffer
    sendPendingData { s with
      m_dataRetrCount := s.m_dataRetrCount - 1
      m_dupAckCount := 0
      m_txBuffer := b.setSentListLost (!s.m_sackEnabled)
      m_recover := s.m_highTxMark
      m_recoverActive := true
      m_congState := .caLoss } windows

end TcpSocketBase

/-! ### Runs -/

/-- What happens to a sender: the application sends, an ACK comes in, data can go out, or the
retransmission timer expires. -/
inductive SocketCall where
  | send (p : Payload)
  | processEstablished (h : AckHeader) (windows : List UInt32)
  | sendPendingData (windows : List UInt32)
  | reTxTimeout (windows : List UInt32)

/-- The sender after a call, and whether the assertions of `DupAck` hold. -/
def SocketCall.run (s : TcpSocketBase) : SocketCall → Option (Bool × TcpSocketBase)
  | send p => some (true, { s with m_txBuffer := (s.m_txBuffer.add p).2 })
  | processEstablished h windows => s.processEstablished h windows
  | sendPendingData windows => (s.sendPendingData windows).map fun s => (true, s)
  | reTxTimeout windows => (s.reTxTimeout windows).map fun s => (true, s)

/-- A sender when its connection is established: nothing was sent, and the threshold for duplicate
ACKs is at least two. -/
structure TcpSocketBase.Fresh (s : TcpSocketBase) : Prop where
  empty : s.m_txBuffer.Empty
  congState : s.m_congState = .caOpen
  dupAckCount : s.m_dupAckCount = 0
  recoverActive : s.m_recoverActive = false
  retxThresh : 2 ≤ s.m_retxThresh

/-- The senders reached from a fresh one by the calls allowed, and whether all assertions held. -/
inductive SocketReached (allowed : TcpSocketBase → SocketCall → Prop) : Bool → TcpSocketBase → Prop where
  | start {s : TcpSocketBase} (h : s.Fresh) : SocketReached allowed true s
  | step {asserted asserted' : Bool} {s s' : TcpSocketBase} {c : SocketCall}
      (h : SocketReached allowed asserted s) (hc : allowed s c)
      (hrun : c.run s = some (asserted', s')) : SocketReached allowed (asserted && asserted') s'

/-! ### What calls leave alone -/

/-- The members that decide the congestion state are the same, and the buffer is laid out with the
same head. -/
structure Kept (s s' : TcpSocketBase) : Prop where
  congState : s'.m_congState = s.m_congState
  dupAckCount : s'.m_dupAckCount = s.m_dupAckCount
  retxThresh : s'.m_retxThresh = s.m_retxThresh
  recover : s'.m_recover = s.m_recover
  recoverActive : s'.m_recoverActive = s.m_recoverActive
  sackEnabled : s'.m_sackEnabled = s.m_sackEnabled
  held : Held s'.m_txBuffer
  head : s'.headSequence = s.headSequence

section Kept

variable {s s' s'' : TcpSocketBase}

theorem Kept.refl (h : Held s.m_txBuffer) : Kept s s := ⟨rfl, rfl, rfl, rfl, rfl, rfl, h, rfl⟩

theorem Kept.trans (h : Kept s s') (h' : Kept s' s'') : Kept s s'' :=
  ⟨h'.congState.trans h.congState, h'.dupAckCount.trans h.dupAckCount,
    h'.retxThresh.trans h.retxThresh, h'.recover.trans h.recover,
    h'.recoverActive.trans h.recoverActive, h'.sackEnabled.trans h.sackEnabled, h'.held,
    h'.head.trans h.head⟩

/-- A call on the buffer that changes marks only. -/
theorem Kept.remark (h : Held s.m_txBuffer) {b : TcpTxBuffer} (hr : Remarked s.m_txBuffer b) :
    Kept s { s with m_txBuffer := b } :=
  ⟨rfl, rfl, rfl, rfl, rfl, rfl, hr.held h, hr.first_eq⟩

theorem sendDataPacket_kept (h : Held s.m_txBuffer) {seq : SequenceNumber32} {maxSize sz : UInt32}
    (hrun : s.sendDataPacket seq maxSize = some (sz, s')) : Kept s s' := by
  rw [TcpSocketBase.sendDataPacket] at hrun
  split at hrun
  · next outItem b heq =>
    obtain ⟨-, rfl⟩ := Prod.mk.inj (Option.some.inj hrun)
    rcases h.copy_cases maxSize seq with hnone | hnull | ⟨off, n, r, -, hn, -, hsome, hr⟩
    · rw [hnone] at heq
      cases heq
    · rw [hnull] at heq
      cases heq
    · rw [hsome] at heq
      obtain ⟨-, rfl⟩ := Prod.mk.inj (Option.some.inj heq)
      have hseg := hr.segment h hn
      exact ⟨rfl, rfl, rfl, rfl, rfl, rfl, hseg.held, hseg.first⟩
  · cases hrun

theorem sendWithin_kept (h : Held s.m_txBuffer) {windows : List UInt32}
    (hrun : s.sendWithin windows = some s') : Kept s s' := by
  induction windows generalizing s with
  | nil =>
    obtain rfl := Option.some.inj hrun
    exact .refl h
  | cons w windows ih =>
    rw [TcpSocketBase.sendWithin] at hrun
    split at hrun
    · obtain rfl := Option.some.inj hrun
      exact .refl h
    · dsimp only at hrun
      split at hrun
      · obtain rfl := Option.some.inj hrun
        exact .refl h
      · split at hrun
        · obtain rfl := Option.some.inj hrun
          exact .refl h
        · split at hrun
          · obtain rfl := Option.some.inj hrun
            exact .refl h
          · obtain ⟨⟨sz, s₁⟩, hsend, hrest⟩ := Option.bind_eq_some_iff.mp hrun
            have hk := sendDataPacket_kept h hsend
            exact hk.trans (ih hk.held hrest)

theorem sendPendingData_kept (h : Held s.m_txBuffer) {windows : List UInt32}
    (hrun : s.sendPendingData windows = some s') : Kept s s' := by
  rw [TcpSocketBase.sendPendingData] at hrun
  split at hrun
  · obtain rfl := Option.some.inj hrun
    exact .refl h
  · exact sendWithin_kept h hrun

theorem doRetransmit_kept (h : Held s.m_txBuffer) (hrun : s.doRetransmit = some s') : Kept s s' := by
  obtain ⟨⟨sz, s₁⟩, hsend, rfl⟩ := Option.map_eq_some_iff.mp hrun
  split at hsend
  · exact sendDataPacket_kept h hsend
  · exact sendDataPacket_kept h hsend

/-- `EnterRecovery` sets the recovery point. -/
theorem enterRecovery_kept (h : Held s.m_txBuffer) (hrun : s.enterRecovery = some s') :
    Kept { s with m_recover := s.m_highTxMark, m_recoverActive := true, m_congState := .caRecovery }
      s' := by
  obtain ⟨b, hmark, hre⟩ := Option.bind_eq_some_iff.mp hrun
  have hr : Remarked s.m_txBuffer b := by
    split at hmark
    · obtain ⟨b₁, hreno, rfl⟩ := Option.map_eq_some_iff.mp hmark
      exact (addRenoSack_remarked hreno).trans (markHeadAsLost_remarked b₁)
    · split at hmark
      · obtain rfl := Option.some.inj hmark
        exact markHeadAsLost_remarked _
      · obtain rfl := Option.some.inj hmark
        exact .refl _
  have hk := doRetransmit_kept (hr.held h) hre
  exact ⟨hk.congState, hk.dupAckCount, hk.retxThresh, hk.recover, hk.recoverActive, hk.sackEnabled,
    hk.held, hk.head.trans hr.first_eq⟩

/-- Whether the assertions of `DupAck` on the count hold in Open or in Disorder. -/
def TcpSocketBase.countAsserted (s : TcpSocketBase) : Bool :=
  (s.m_congState != .caOpen || s.m_dupAckCount + 1 == 1) &&
    (decide (s.m_dupAckCount + 1 ≤ s.m_retxThresh) || s.m_recoverActive)

/-- What `DupAck` does in each congestion state, and whether its assertions hold. -/
inductive DupAcked (s : TcpSocketBase) : Bool → TcpSocketBase → Prop where
  | ignored (hc : s.m_congState = .caLoss) : DupAcked s true s
  | recovering {s' : TcpSocketBase} (hc : s.m_congState = .caRecovery) (hk : Kept s s') :
      DupAcked s true s'
  | reduced (hc : s.m_congState = .caCwr) :
      DupAcked s true { s with m_dupAckCount := s.m_dupAckCount + 1 }
  | counted {asserted : Bool} {s' : TcpSocketBase}
      (hc : s.m_congState = .caOpen ∨ s.m_congState = .caDisorder)
      (hasserted : asserted = s.countAsserted)
      (hthresh : s.m_dupAckCount + 1 = s.m_retxThresh → s.m_recoverActive = true)
      (hk : Kept { s with m_dupAckCount := s.m_dupAckCount + 1, m_congState := .caDisorder } s') :
      DupAcked s asserted s'
  | entered {asserted : Bool} {s' : TcpSocketBase}
      (hc : s.m_congState = .caOpen ∨ s.m_congState = .caDisorder)
      (hasserted : asserted = s.countAsserted)
      (hk : Kept { s with
        m_dupAckCount := s.m_dupAckCount + 1
        m_recover := s.m_highTxMark
        m_recoverActive := true
        m_congState := .caRecovery } s') : DupAcked s asserted s'

/-- `AddRenoSack` where it is called. -/
theorem kept_of_reno (h : Held s.m_txBuffer) {reno : Bool} {b : TcpTxBuffer}
    (heq : (if reno then s.m_txBuffer.addRenoSack else some s.m_txBuffer) = some b) :
    Kept s { s with m_txBuffer := b } := by
  split at heq
  · exact .remark h (addRenoSack_remarked heq)
  · obtain rfl := Option.some.inj heq
    exact .refl h

/-- `DupAck` in Open and in Disorder: the duplicate is counted in Disorder. -/
theorem dupAck_eq (hc : s.m_congState = .caOpen ∨ s.m_congState = .caDisorder) :
    s.dupAck =
      let s₁ : TcpSocketBase :=
        { s with m_dupAckCount := s.m_dupAckCount + 1, m_congState := .caDisorder }
      if s₁.m_dupAckCount = s₁.m_retxThresh &&
          (s₁.m_highRxAckMark.ge s₁.m_recover || !s₁.m_recoverActive) ||
          s₁.m_txBuffer.isLost (s₁.m_highRxAckMark.add s₁.m_segmentSize) then
        s₁.enterRecovery.map fun s' => (s.countAsserted && s'.m_congState == .caRecovery, s')
      else
        (if !s₁.m_sackEnabled && s₁.m_limitedTx then s₁.m_txBuffer.addRenoSack
          else some s₁.m_txBuffer).map fun b => (s.countAsserted, { s₁ with m_txBuffer := b }) := by
  rw [TcpSocketBase.dupAck, TcpSocketBase.countAsserted]
  rcases hc with hc | hc
  · rw [hc]
    rfl
  · obtain ⟨b, c, _⟩ := s
    obtain rfl : c = .caDisorder := hc
    rfl

theorem dupAck_disorder (h : Held s.m_txBuffer)
    (hc : s.m_congState = .caOpen ∨ s.m_congState = .caDisorder) {asserted : Bool}
    (hrun : s.dupAck = some (asserted, s')) : DupAcked s asserted s' := by
  rw [dupAck_eq hc] at hrun
  dsimp only at hrun
  split at hrun
  · obtain ⟨s₂, hre, heq⟩ := Option.map_eq_some_iff.mp hrun
    obtain ⟨rfl, rfl⟩ := Prod.mk.inj heq
    have hk := enterRecovery_kept (s := { s with
      m_dupAckCount := s.m_dupAckCount + 1
      m_congState := .caDisorder }) h hre
    refine .entered hc ?_ hk
    have hrec : s₂.m_congState = .caRecovery := hk.congState
    rw [hrec, beq_self_eq_true, Bool.and_true]
  · next hcond =>
    obtain ⟨b, hreno, heq⟩ := Option.map_eq_some_iff.mp hrun
    obtain ⟨rfl, rfl⟩ := Prod.mk.inj heq
    refine .counted hc rfl (fun hthresh => ?_) (kept_of_reno (s := { s with
      m_dupAckCount := s.m_dupAckCount + 1
      m_congState := .caDisorder }) h hreno)
    cases ha : s.m_recoverActive with
    | true => rfl
    | false => simp [hthresh, ha] at hcond

theorem dupAck_cases (h : Held s.m_txBuffer) {asserted : Bool}
    (hrun : s.dupAck = some (asserted, s')) : DupAcked s asserted s' := by
  cases hc : s.m_congState with
  | caOpen => exact dupAck_disorder h (.inl hc) hrun
  | caDisorder => exact dupAck_disorder h (.inr hc) hrun
  | caCwr =>
    simp only [TcpSocketBase.dupAck, hc, reduceCtorEq, if_false] at hrun
    obtain ⟨rfl, rfl⟩ := Prod.mk.inj (Option.some.inj hrun)
    have hd := DupAcked.reduced hc
    rw [hc] at hd
    exact hd
  | caRecovery =>
    simp only [TcpSocketBase.dupAck, hc, reduceCtorEq, if_false, if_true] at hrun
    obtain ⟨b, hreno, heq⟩ := Option.map_eq_some_iff.mp hrun
    obtain ⟨rfl, rfl⟩ := Prod.mk.inj heq
    have hk := kept_of_reno h hreno
    rw [hc] at hk
    exact .recovering hc hk
  | caLoss =>
    rw [TcpSocketBase.dupAck, if_pos hc] at hrun
    obtain ⟨rfl, rfl⟩ := Prod.mk.inj (Option.some.inj hrun)
    exact .ignored hc

end Kept

/-! ### The states and the count -/

/-- In Open no duplicate ACK is counted, in Disorder fewer than the threshold are, and the recovery
point is active in Recovery and in Loss and in neither of the others. -/
structure Coherent (s : TcpSocketBase) : Prop where
  caOpen : s.m_congState = .caOpen → s.m_dupAckCount = 0 ∧ s.m_recoverActive = false
  caDisorder : s.m_congState = .caDisorder →
    1 ≤ s.m_dupAckCount ∧ s.m_dupAckCount < s.m_retxThresh ∧ s.m_recoverActive = false
  recovering : s.m_congState = .caRecovery ∨ s.m_congState = .caLoss → s.m_recoverActive = true

/-- In Loss no duplicate is counted, and in CWR the head has not passed the recovery point. -/
structure SocketInv (s : TcpSocketBase) : Prop where
  coherent : Coherent s
  held : Held s.m_txBuffer
  retxThresh : 2 ≤ s.m_retxThresh
  caLoss : s.m_congState = .caLoss → s.m_dupAckCount = 0
  caCwr : s.m_congState = .caCwr → s.headSequence.gt s.m_recover = false

/-- A sender in `ProcessAck` behind `DupAck`. A count or a recovery point left over from CWR goes
with the ACK of new data that ended it. -/
structure Acking (s : TcpSocketBase) (ackNumber oldHead : SequenceNumber32) (dup : Bool) : Prop where
  held : Held s.m_txBuffer
  head : s.headSequence = ackNumber
  retxThresh : 2 ≤ s.m_retxThresh
  le : ackNumber = oldHead ∨ ackNumber.gt oldHead = true
  caOpen : s.m_congState = .caOpen →
    (s.m_dupAckCount = 0 ∨ dup = false ∧ ackNumber.gt oldHead = true) ∧
      (s.m_recoverActive = false ∨ ackNumber.gt oldHead = true ∧ ackNumber.ge s.m_recover = true)
  caDisorder : s.m_congState = .caDisorder →
    (1 ≤ s.m_dupAckCount ∧ s.m_dupAckCount < s.m_retxThresh ∨
        dup = false ∧ ackNumber.gt oldHead = true) ∧
      (s.m_recoverActive = false ∨ ackNumber.gt oldHead = true ∧ ackNumber.ge s.m_recover = true)
  recovering : s.m_congState = .caRecovery ∨ s.m_congState = .caLoss → s.m_recoverActive = true
  caLoss : s.m_congState = .caLoss → s.m_dupAckCount = 0
  caCwr : s.m_congState = .caCwr → ackNumber.gt s.m_recover = false

section Inv

variable {s s' : TcpSocketBase} {ackNumber oldHead : SequenceNumber32} {dup : Bool}

/-- What the invariant looks at is kept. -/
theorem SocketInv.keep (h : SocketInv s) (hk : Kept s s') : SocketInv s' where
  coherent :=
    { caOpen := by
        rw [hk.congState, hk.dupAckCount, hk.recoverActive]
        exact h.coherent.caOpen
      caDisorder := by
        rw [hk.congState, hk.dupAckCount, hk.retxThresh, hk.recoverActive]
        exact h.coherent.caDisorder
      recovering := by
        rw [hk.congState, hk.recoverActive]
        exact h.coherent.recovering }
  held := hk.held
  retxThresh := hk.retxThresh ▸ h.retxThresh
  caLoss := by
    rw [hk.congState, hk.dupAckCount]
    exact h.caLoss
  caCwr := by
    rw [hk.congState, hk.head, hk.recover]
    exact h.caCwr

/-- A sender of which nothing is acknowledged anew. -/
theorem Acking.inv (h : Acking s ackNumber oldHead dup) (heq : ackNumber = oldHead) :
    SocketInv s := by
  have hgt : ackNumber.gt oldHead ≠ true := by
    rw [heq, SequenceNumber32.gt_irrefl]
    exact Bool.false_ne_true
  exact
    { coherent :=
        { caOpen := fun hc => by
            obtain ⟨hcount, hactive⟩ := h.caOpen hc
            exact ⟨hcount.resolve_right fun h => hgt h.2, hactive.resolve_right fun h => hgt h.1⟩
          caDisorder := fun hc => by
            obtain ⟨hcount, hactive⟩ := h.caDisorder hc
            obtain ⟨hpos, hlt⟩ := hcount.resolve_right fun h => hgt h.2
            exact ⟨hpos, hlt, hactive.resolve_right fun h => hgt h.1⟩
          recovering := h.recovering }
      held := h.held
      retxThresh := h.retxThresh
      caLoss := h.caLoss
      caCwr := fun hc => by
        rw [h.head]
        exact h.caCwr hc }

/-- `NewAck` leaves the congestion state. -/
theorem newAck_kept (h : Held s.m_txBuffer) : Kept s s.newAck :=
  ⟨rfl, rfl, rfl, rfl, rfl, rfl, h, rfl⟩

/-- Outside of recovery with no recovery point active. -/
theorem inv_of_settled (h : Held s.m_txBuffer) (hthresh : 2 ≤ s.m_retxThresh)
    (hactive : s.m_recoverActive = false)
    (hc : s.m_congState = .caOpen ∧ s.m_dupAckCount = 0 ∨
      s.m_congState = .caDisorder ∧ 1 ≤ s.m_dupAckCount ∧ s.m_dupAckCount < s.m_retxThresh) :
    SocketInv s := by
  rcases hc with ⟨hc, hcount⟩ | ⟨hc, hcount⟩
  · refine ⟨⟨fun _ => ⟨hcount, hactive⟩, ?_, ?_⟩, h, hthresh, ?_, ?_⟩
    · simp [hc]
    · simp [hc]
    · simp [hc]
    · simp [hc]
  · refine ⟨⟨?_, fun _ => ⟨hcount.1, hcount.2, hactive⟩, ?_⟩, h, hthresh, ?_, ?_⟩
    · simp [hc]
    · simp [hc]
    · simp [hc]
    · simp [hc]

/-- The congestion state behind the branch for new data that belongs to no recovery. -/
def TcpCongState.settled (dup : Bool) : TcpCongState → TcpCongState
  | .caDisorder => if dup then .caDisorder else .caOpen
  | .caRecovery => .caOpen
  | .caLoss => .caOpen
  | c => c

/-- What that branch leaves. -/
theorem processNewAck_eq (s : TcpSocketBase) (ackNumber : SequenceNumber32) (dup : Bool) :
    ∃ n, s.processNewAck ackNumber dup = { s with
      m_congState := s.m_congState.settled dup
      m_dupAckCount := if s.m_congState = .caRecovery then 0 else s.m_dupAckCount
      m_recoverActive := if ackNumber.ge s.m_recover then false else s.m_recoverActive
      m_dataRetrCount := n } := by
  -- both `NewAck` set the same member
  have hnew : ∀ (s : TcpSocketBase) (p : Prop) [Decidable p],
      ∃ n, (if p then s.newAck else s) = { s with m_dataRetrCount := n } := by
    intro s p _
    split
    · exact ⟨s.m_dataRetries, rfl⟩
    · exact ⟨s.m_dataRetrCount, rfl⟩
  have hact : ∀ s : TcpSocketBase, (if ackNumber.ge s.m_recover = true then
      { s with m_recoverActive := false } else s) =
        { s with m_recoverActive := if ackNumber.ge s.m_recover then false else s.m_recoverActive } := by
    intro s
    split
    · rfl
    · rfl
  rw [TcpSocketBase.processNewAck, hact]
  generalize hs : (match s.m_congState with
    | .caDisorder => if !dup then { s with m_congState := .caOpen } else s
    | .caRecovery => { s with m_congState := .caOpen, m_dupAckCount := 0 }
    | .caLoss => { s with m_congState := .caOpen }
    | _ => s) = s₁
  have hs₁ : s₁ = { s with
      m_congState := s.m_congState.settled dup
      m_dupAckCount := if s.m_congState = .caRecovery then 0 else s.m_dupAckCount } := by
    rw [← hs]
    obtain ⟨b, c, _⟩ := s
    cases c with
    | caDisorder =>
      cases dup with
      | true => rfl
      | false => rfl
    | _ => rfl
  obtain ⟨n, hn⟩ := hnew { s₁ with
    m_recoverActive := if ackNumber.ge s₁.m_recover then false else s₁.m_recoverActive }
      ((s.m_congState == .caRecovery) = true)
  rw [hn]
  obtain ⟨m, hm⟩ := hnew { s₁ with
    m_recoverActive := if ackNumber.ge s₁.m_recover then false else s₁.m_recoverActive
    m_dataRetrCount := n } (s₁.m_congState = .caOpen)
  refine ⟨m, ?_⟩
  rw [hs₁] at hm ⊢
  exact hm

/-- The branch for new data that belongs to no recovery leaves no recovery point active. -/
theorem processNewAck_inv (h : Held s.m_txBuffer) (hthresh : 2 ≤ s.m_retxThresh)
    (hcwr : s.m_congState ≠ .caCwr)
    (hcount : s.m_congState ≠ .caRecovery → (s.m_congState = .caDisorder → dup = false) →
      s.m_dupAckCount = 0)
    (hdisorder : s.m_congState = .caDisorder → dup = true →
      1 ≤ s.m_dupAckCount ∧ s.m_dupAckCount < s.m_retxThresh)
    (hactive : s.m_recoverActive = true → ackNumber.ge s.m_recover = true) :
    SocketInv (s.processNewAck ackNumber dup) := by
  obtain ⟨n, heq⟩ := processNewAck_eq s ackNumber dup
  rw [heq]
  refine inv_of_settled h hthresh ?_ ?_
  · dsimp only
    split
    · rfl
    · next hge =>
      rw [← Bool.not_eq_true]
      exact fun ha => hge (hactive ha)
  · dsimp only
    cases hc : s.m_congState with
    | caOpen => exact .inl ⟨rfl, hcount (by simp [hc]) (by simp [hc])⟩
    | caDisorder =>
      cases dup with
      | true => exact .inr ⟨rfl, hdisorder hc rfl⟩
      | false => exact .inl ⟨rfl, hcount (by simp [hc]) (fun _ => rfl)⟩
    | caCwr => exact absurd hc hcwr
    | caRecovery => exact .inl ⟨rfl, rfl⟩
    | caLoss => exact .inl ⟨rfl, hcount (by simp [hc]) (by simp [hc])⟩

/-- A partial ACK in Recovery may retransmit, and keeps the state. -/
theorem ackNewData_recovery (h : Held s.m_txBuffer) (hlt : ackNumber.lt s.m_recover = true)
    (hc : s.m_congState = .caRecovery) (hrun : s.ackNewData ackNumber dup = some s') : Kept s s' := by
  rw [TcpSocketBase.ackNewData, if_pos (by simp [hlt, hc])] at hrun
  obtain ⟨s₂, hre, rfl⟩ := Option.map_eq_some_iff.mp hrun
  have hmark : Kept s (if !s.m_sackEnabled then
      { s with m_txBuffer := s.m_txBuffer.markHeadAsLost } else s) := by
    split
    · exact .remark h (markHeadAsLost_remarked _)
    · exact .refl h
  generalize (if (!s.m_sackEnabled) = true then
    { s with m_txBuffer := s.m_txBuffer.markHeadAsLost } else s) = s₁ at hre hmark
  have hsent : Kept s₁ s₂ := by
    split at hre
    · exact doRetransmit_kept hmark.held hre
    · obtain rfl := Option.some.inj hre
      exact .refl hmark.held
  exact (hmark.trans hsent).trans (newAck_kept hsent.held)

/-- A sender in Recovery, in Loss or in CWR. -/
theorem Acking.inv_of_reducing (h : Acking s ackNumber oldHead dup) (hopen : s.m_congState ≠ .caOpen)
    (hdisorder : s.m_congState ≠ .caDisorder) : SocketInv s where
  coherent := ⟨fun hc => absurd hc hopen, fun hc => absurd hc hdisorder, h.recovering⟩
  held := h.held
  retxThresh := h.retxThresh
  caLoss := h.caLoss
  caCwr := fun hc => by
    rw [h.head]
    exact h.caCwr hc

/-- An ACK of new data leaves the sender coherent. -/
theorem Acking.ackNewData (h : Acking s ackNumber oldHead dup)
    (hcount : s.m_congState ≠ .caRecovery → s.m_congState ≠ .caCwr →
      (s.m_congState = .caDisorder → dup = false) → s.m_dupAckCount = 0)
    (hdisorder : s.m_congState = .caDisorder → dup = true →
      1 ≤ s.m_dupAckCount ∧ s.m_dupAckCount < s.m_retxThresh)
    (hrun : s.ackNewData ackNumber dup = some s') : SocketInv s' := by
  by_cases hbelow : ackNumber.lt s.m_recover = true ∧ s.m_congState = .caRecovery
  · have hinv := h.inv_of_reducing (by simp [hbelow.2]) (by simp [hbelow.2])
    exact hinv.keep (ackNewData_recovery h.held hbelow.1 hbelow.2 hrun)
  rw [TcpSocketBase.ackNewData, if_neg (by simpa using hbelow)] at hrun
  by_cases hloss : ackNumber.lt s.m_recover = true ∧ s.m_congState = .caLoss
  · rw [if_pos (by simpa using hloss)] at hrun
    obtain rfl := Option.some.inj hrun
    have hinv := h.inv_of_reducing (by simp [hloss.2]) (by simp [hloss.2])
    exact hinv.keep (newAck_kept h.held)
  rw [if_neg (by simpa using hloss)] at hrun
  by_cases hcwr : s.m_congState = .caCwr
  · rw [if_pos hcwr] at hrun
    obtain rfl := Option.some.inj hrun
    have hinv := h.inv_of_reducing (by simp [hcwr]) (by simp [hcwr])
    exact hinv.keep (newAck_kept h.held)
  rw [if_neg hcwr] at hrun
  obtain rfl := Option.some.inj hrun
  refine processNewAck_inv h.held h.retxThresh hcwr (fun hrec => hcount hrec hcwr) hdisorder
    fun hactive => ?_
  -- a recovery point that is still active is that of the recovery or of CWR, and is reached
  have hge : s.m_congState = .caRecovery ∨ s.m_congState = .caLoss →
      ackNumber.ge s.m_recover = true := by
    intro hc
    apply SequenceNumber32.ge_of_lt_eq_false
    rw [← Bool.not_eq_true]
    intro hlt
    rcases hc with hc | hc
    · exact hbelow ⟨hlt, hc⟩
    · exact hloss ⟨hlt, hc⟩
  have hleft (ha : s.m_recoverActive = false ∨
      ackNumber.gt oldHead = true ∧ ackNumber.ge s.m_recover = true) :
      ackNumber.ge s.m_recover = true := by
    rcases ha with ha | ha
    · rw [ha] at hactive
      cases hactive
    · exact ha.2
  cases hc : s.m_congState with
  | caOpen => exact hleft (h.caOpen hc).2
  | caDisorder => exact hleft (h.caDisorder hc).2
  | caCwr => exact absurd hc hcwr
  | caRecovery => exact hge (.inl hc)
  | caLoss => exact hge (.inr hc)

/-- `ProcessAck` behind `DupAck` leaves the sender coherent. -/
theorem Acking.processAckNumber (h : Acking s ackNumber oldHead dup)
    (hrun : s.processAckNumber ackNumber oldHead dup = some s') : SocketInv s' := by
  rw [TcpSocketBase.processAckNumber] at hrun
  by_cases heq : ackNumber = oldHead
  · rw [if_pos (by simpa using heq)] at hrun
    obtain rfl := Option.some.inj hrun
    exact h.inv heq
  have hgt : ackNumber.gt oldHead = true := h.le.resolve_left heq
  rw [if_neg (by simpa using heq), if_pos hgt] at hrun
  cases dup with
  | true =>
    refine h.ackNewData (fun hrec hcwr hdis => ?_) (fun hc _ => ?_) hrun
    · cases hc : s.m_congState with
      | caOpen => exact (h.caOpen hc).1.resolve_right (by simp)
      | caDisorder => exact absurd (hdis hc) (by simp)
      | caCwr => exact absurd hc hcwr
      | caRecovery => exact absurd hc hrec
      | caLoss => exact h.caLoss hc
    · exact (h.caDisorder hc).1.resolve_right (by simp)
  | false =>
    have hreset : Acking { s with m_dupAckCount := 0 } ackNumber oldHead false :=
      { held := h.held
        head := h.head
        retxThresh := h.retxThresh
        le := h.le
        caOpen := fun hc => ⟨.inl rfl, (h.caOpen hc).2⟩
        caDisorder := fun hc => ⟨.inr ⟨rfl, hgt⟩, (h.caDisorder hc).2⟩
        recovering := h.recovering
        caLoss := fun _ => rfl
        caCwr := h.caCwr }
    exact hreset.ackNewData (fun _ _ _ => rfl) (fun _ => by simp) hrun

/-- A sender in `ReceivedAck` before `ProcessAck`, with the bytes below the ACK discarded. -/
structure Arriving (s : TcpSocketBase) (ackNumber oldHead : SequenceNumber32) : Prop where
  held : Held s.m_txBuffer
  head : s.headSequence = ackNumber
  retxThresh : 2 ≤ s.m_retxThresh
  le : ackNumber = oldHead ∨ ackNumber.gt oldHead = true
  caOpen : s.m_congState = .caOpen →
    s.m_dupAckCount = 0 ∧ s.m_recoverActive = false ∨
      ackNumber.gt oldHead = true ∧ ackNumber.ge s.m_recover = true
  caDisorder : s.m_congState = .caDisorder →
    1 ≤ s.m_dupAckCount ∧ s.m_dupAckCount < s.m_retxThresh ∧ s.m_recoverActive = false
  recovering : s.m_congState = .caRecovery ∨ s.m_congState = .caLoss → s.m_recoverActive = true
  caLoss : s.m_congState = .caLoss → s.m_dupAckCount = 0
  caCwr : s.m_congState = .caCwr → ackNumber.gt s.m_recover = false

/-- The duplicates counted stay below a threshold that they do not reach. -/
theorem succ_lt_of_ne {c t : UInt32} (hlt : c < t) (hne : c + 1 ≠ t) : 1 ≤ c + 1 ∧ c + 1 < t := by
  have hlt' := UInt32.lt_iff_toNat_lt.mp hlt
  have ht := t.toNat_lt
  have hsucc : (c + 1).toNat = c.toNat + 1 := by
    rw [UInt32.toNat_add]
    exact Nat.mod_eq_of_lt (by change c.toNat + 1 < 2 ^ 32; omega)
  have hne' : (c + 1).toNat ≠ t.toNat := fun h => hne (UInt32.toNat_inj.mp h)
  refine ⟨UInt32.le_iff_toNat_le.mpr ?_, UInt32.lt_iff_toNat_lt.mpr ?_⟩
  · rw [hsucc]
    change 1 ≤ _
    omega
  · omega

theorem succ_le_of_lt {c t : UInt32} (hlt : c < t) : c + 1 ≤ t := by
  by_cases heq : c + 1 = t
  · rw [heq]
    exact UInt32.le_refl t
  · exact UInt32.le_of_lt (succ_lt_of_ne hlt heq).2

/-- The assertions of `DupAck` hold unless Open comes with a count. -/
theorem Arriving.countAsserted (h : Arriving s ackNumber oldHead)
    (hc : s.m_congState = .caOpen ∨ s.m_congState = .caDisorder) :
    s.countAsserted = true ↔ (s.m_congState = .caOpen → s.m_dupAckCount = 0) := by
  rw [TcpSocketBase.countAsserted]
  rcases hc with hc | hc
  · have hone : s.m_dupAckCount + 1 = 1 ↔ s.m_dupAckCount = 0 := by grind
    by_cases hzero : s.m_dupAckCount = 0
    · have hle : (1 : UInt32) ≤ s.m_retxThresh :=
        UInt32.le_trans (by decide) h.retxThresh
      simp [hc, hzero, hle]
    · simp [hc, hone, hzero]
  · simp [hc, succ_le_of_lt (h.caDisorder hc).2.1]

/-- A sender that `DupAck` left, when its assertions hold. -/
theorem Arriving.dupAcked (h : Arriving s ackNumber oldHead) {asserted : Bool}
    (hd : DupAcked s asserted s') :
    (asserted = true ↔ (s.m_congState = .caOpen → s.m_dupAckCount = 0)) ∧
      (asserted = true → Acking s' ackNumber oldHead true) := by
  cases hd with
  | ignored hc =>
    refine ⟨by simp [hc], fun _ => ⟨h.held, h.head, h.retxThresh, h.le, ?_, ?_, h.recovering,
      h.caLoss, h.caCwr⟩⟩
    · simp [hc]
    · simp [hc]
  | recovering hc hk =>
    refine ⟨by simp [hc], fun _ => ⟨hk.held, hk.head.trans h.head, hk.retxThresh ▸ h.retxThresh,
      h.le, ?_, ?_, fun _ => ?_, ?_, ?_⟩⟩
    · simp [hk.congState, hc]
    · simp [hk.congState, hc]
    · rw [hk.recoverActive]
      exact h.recovering (.inl hc)
    · simp [hk.congState, hc]
    · simp [hk.congState, hc]
  | reduced hc =>
    refine ⟨by simp [hc], fun _ => ⟨h.held, h.head, h.retxThresh, h.le, ?_, ?_, h.recovering, ?_,
      h.caCwr⟩⟩
    · simp [hc]
    · simp [hc]
    · simp [hc]
  | counted hc hasserted hthresh hk =>
    have hiff := h.countAsserted hc
    rw [← hasserted] at hiff
    refine ⟨hiff, fun ha => ⟨hk.held, hk.head.trans h.head, hk.retxThresh ▸ h.retxThresh, h.le, ?_,
      fun _ => ?_, ?_, ?_, ?_⟩⟩
    · simp [hk.congState]
    · rw [hk.dupAckCount, hk.retxThresh, hk.recoverActive, hk.recover]
      rcases hc with hc | hc
      · have hzero := hiff.mp ha hc
        refine ⟨.inl ?_, (h.caOpen hc).imp_left And.right⟩
        dsimp only
        rw [hzero]
        exact ⟨UInt32.le_refl _, UInt32.lt_of_lt_of_le (by decide) h.retxThresh⟩
      · obtain ⟨-, hlt, hactive⟩ := h.caDisorder hc
        refine ⟨.inl (succ_lt_of_ne hlt fun heq => ?_), .inl hactive⟩
        rw [hthresh heq] at hactive
        cases hactive
    · simp [hk.congState]
    · simp [hk.congState]
    · simp [hk.congState]
  | entered hc hasserted hk =>
    have hiff := h.countAsserted hc
    rw [← hasserted] at hiff
    refine ⟨hiff, fun _ => ⟨hk.held, hk.head.trans h.head, hk.retxThresh ▸ h.retxThresh, h.le, ?_,
      ?_, fun _ => hk.recoverActive, ?_, ?_⟩⟩
    · simp [hk.congState]
    · simp [hk.congState]
    · simp [hk.congState]
    · simp [hk.congState]

/-- A sender for which the ACK is no duplicate. -/
theorem Arriving.acking (h : Arriving s ackNumber oldHead) : Acking s ackNumber oldHead false where
  held := h.held
  head := h.head
  retxThresh := h.retxThresh
  le := h.le
  caOpen := fun hc => ⟨(h.caOpen hc).imp And.left fun hgt => ⟨rfl, hgt.1⟩,
    (h.caOpen hc).imp_left And.right⟩
  caDisorder := fun hc => ⟨.inl ⟨(h.caDisorder hc).1, (h.caDisorder hc).2.1⟩,
    .inl (h.caDisorder hc).2.2⟩
  recovering := h.recovering
  caLoss := h.caLoss
  caCwr := h.caCwr

/-- `ProcessAck`: its assertions hold unless a duplicate comes in Open with a count left over, and
where they do the sender is coherent. -/
theorem Arriving.processAck (h : Arriving s ackNumber oldHead) {asserted scoreboardUpdated : Bool}
    (hrun : s.processAck ackNumber scoreboardUpdated oldHead = some (asserted, s')) :
    (asserted = true ↔ (s.m_congState = .caOpen →
      s.isDupack ackNumber scoreboardUpdated oldHead = true → s.m_dupAckCount = 0)) ∧
    (asserted = true → SocketInv s') := by
  obtain ⟨⟨asserted₁, s₁⟩, hdup, hproc⟩ := Option.bind_eq_some_iff.mp hrun
  obtain ⟨s₂, hnum, heq⟩ := Option.map_eq_some_iff.mp hproc
  obtain ⟨rfl, rfl⟩ := Prod.mk.inj heq
  generalize s.isDupack ackNumber scoreboardUpdated oldHead = dup at hdup hnum ⊢
  cases dup with
  | true =>
    obtain ⟨hiff, hacking⟩ := h.dupAcked (dupAck_cases h.held hdup)
    refine ⟨hiff.trans (by simp), fun ha => ?_⟩
    exact (hacking ha).processAckNumber hnum
  | false =>
    obtain ⟨rfl, rfl⟩ := Prod.mk.inj (Option.some.inj hdup)
    exact ⟨by simp, fun _ => h.acking.processAckNumber hnum⟩

/-- Whether an ACK of new data is a new ECN echo. -/
def TcpSocketBase.echoes (s : TcpSocketBase) (ackNumber : SequenceNumber32) (ece : Bool) : Prop :=
  s.m_ecnState ≠ .ecnDisabled ∧ ece = true ∧ s.m_ecnEchoSeq.lt ackNumber = true

/-- `EnterCwr` follows a new ECN echo of new data unless the sender is in CWR. -/
theorem ecnEcho_cases (s : TcpSocketBase) (ackNumber oldHead : SequenceNumber32) (ece : Bool) :
    ∃ e q, (s.m_congState ≠ .caCwr ∧ ackNumber.gt oldHead = true ∧ s.echoes ackNumber ece) ∧
        s.ecnEcho ackNumber oldHead ece = { s.enterCwr with m_ecnState := e, m_ecnEchoSeq := q } ∨
      ¬ (s.m_congState ≠ .caCwr ∧ ackNumber.gt oldHead = true ∧ s.echoes ackNumber ece) ∧
        s.ecnEcho ackNumber oldHead ece = { s with m_ecnState := e, m_ecnEchoSeq := q } := by
  rw [TcpSocketBase.ecnEcho]
  by_cases hnew : ackNumber.gt oldHead = true ∧ s.m_ecnState ≠ .ecnDisabled ∧ ece = true
  · rw [if_pos (by simp [hnew])]
    by_cases hlt : s.m_ecnEchoSeq.lt ackNumber = true
    · rw [if_pos hlt]
      dsimp only
      refine ⟨.ecnEceRcvd, ackNumber, ?_⟩
      by_cases hc : s.m_congState = .caCwr
      · rw [if_pos hc]
        exact .inr ⟨fun h => h.1 hc, rfl⟩
      · rw [if_neg hc]
        exact .inl ⟨⟨hc, hnew.1, hnew.2.1, hnew.2.2, hlt⟩, rfl⟩
    · rw [if_neg hlt]
      exact ⟨s.m_ecnState, s.m_ecnEchoSeq, .inr ⟨fun h => hlt h.2.2.2.2, rfl⟩⟩
  · rw [if_neg (by simpa [and_assoc] using hnew)]
    have hno : ¬ (s.m_congState ≠ .caCwr ∧ ackNumber.gt oldHead = true ∧ s.echoes ackNumber ece) :=
      fun h => hnew ⟨h.2.1, h.2.2.1, h.2.2.2.1⟩
    split
    · exact ⟨.ecnIdle, s.m_ecnEchoSeq, .inr ⟨hno, rfl⟩⟩
    · exact ⟨s.m_ecnState, s.m_ecnEchoSeq, .inr ⟨hno, rfl⟩⟩

/-- A sender that entered CWR arrives. -/
theorem arriving_enterCwr (hb : Held s.m_txBuffer) (hhead : s.headSequence = ackNumber)
    (hthresh : 2 ≤ s.m_retxThresh) (hle : ackNumber = oldHead ∨ ackNumber.gt oldHead = true)
    (hsent : ackNumber.gt s.m_highTxMark = false) : Arriving s.enterCwr ackNumber oldHead where
  held := hb
  head := hhead
  retxThresh := hthresh
  le := hle
  caOpen := fun hc => by cases hc
  caDisorder := fun hc => by cases hc
  recovering := fun hc => by rcases hc with hc | hc <;> cases hc
  caLoss := fun hc => by cases hc
  caCwr := fun _ => hsent

/-- A sender in `ReceivedAck` that was coherent, with the bytes below the ACK discarded, arrives at
`ProcessAck`; it does in Open with a count when CWR ended and was not entered again. -/
theorem SocketInv.arriving (h : SocketInv s) {b : TcpTxBuffer} (hb : Held b)
    (hfirst : b.m_firstByteSeq = ackNumber) (hle : ackNumber.lt s.headSequence = false)
    (hsent : ackNumber.gt s.m_highTxMark = false) (ece : Bool) {s₂ : TcpSocketBase}
    (hs₂ : (TcpSocketBase.leaveCwr { s with m_txBuffer := b } ackNumber).ecnEcho ackNumber
      s.headSequence ece = s₂) :
    Arriving s₂ ackNumber s.headSequence ∧ s₂.m_sackEnabled = s.m_sackEnabled ∧
      ((s₂.m_congState = .caOpen → s₂.m_dupAckCount = 0) ↔
        (s.m_congState = .caCwr → ackNumber.gt s.m_recover = true → ¬ s.echoes ackNumber ece →
          s.m_dupAckCount = 0)) := by
  have hle' := SequenceNumber32.eq_or_gt_of_lt_eq_false hle
  by_cases hleave : s.m_congState = .caCwr ∧ ackNumber.gt s.m_recover = true
  · -- CWR ends: the head was not above the recovery point, so the ACK is of new data
    have hgt : ackNumber.gt s.headSequence = true := by
      refine hle'.resolve_left fun heq => ?_
      rw [heq, h.caCwr hleave.1] at hleave
      exact Bool.false_ne_true hleave.2
    rw [TcpSocketBase.leaveCwr, if_pos (by simp [hleave])] at hs₂
    obtain ⟨e, q, ⟨hnew, hecho⟩ | ⟨hno, hecho⟩⟩ := ecnEcho_cases
      { s with m_txBuffer := b, m_congState := .caOpen } ackNumber s.headSequence ece
    · have harr := arriving_enterCwr (s := { s with m_txBuffer := b, m_congState := .caOpen }) hb
        hfirst h.retxThresh hle' hsent
      obtain rfl := hs₂.symm.trans hecho
      refine ⟨⟨harr.held, harr.head, harr.retxThresh, harr.le, harr.caOpen, harr.caDisorder,
        harr.recovering, harr.caLoss, harr.caCwr⟩, rfl, iff_of_true ?_ ?_⟩
      · exact fun hc => by cases hc
      · exact fun _ _ hno => absurd hnew.2.2 hno
    · obtain rfl := hs₂.symm.trans hecho
      have hne : ¬ s.echoes ackNumber ece := fun he => hno ⟨by simp, hgt, he⟩
      refine ⟨⟨hb, hfirst, h.retxThresh, hle', fun _ => ?_, ?_, ?_, ?_, ?_⟩, rfl, ?_⟩
      · refine .inr ⟨hgt, ?_⟩
        rw [SequenceNumber32.ge, hleave.2, Bool.true_or]
      · simp
      · simp
      · simp
      · simp
      · simp [hleave, hne]
  · rw [TcpSocketBase.leaveCwr, if_neg (by simpa using hleave)] at hs₂
    have hvac : s.m_congState = .caCwr → ackNumber.gt s.m_recover = true →
        ¬ s.echoes ackNumber ece → s.m_dupAckCount = 0 := fun hc hgt => absurd ⟨hc, hgt⟩ hleave
    obtain ⟨e, q, ⟨-, hecho⟩ | ⟨hno, hecho⟩⟩ := ecnEcho_cases
      { s with m_txBuffer := b } ackNumber s.headSequence ece
    · have harr := arriving_enterCwr (s := { s with m_txBuffer := b }) hb hfirst h.retxThresh hle'
        hsent
      obtain rfl := hs₂.symm.trans hecho
      refine ⟨⟨harr.held, harr.head, harr.retxThresh, harr.le, harr.caOpen, harr.caDisorder,
        harr.recovering, harr.caLoss, harr.caCwr⟩, rfl, iff_of_true ?_ hvac⟩
      exact fun hc => by cases hc
    · obtain rfl := hs₂.symm.trans hecho
      refine ⟨⟨hb, hfirst, h.retxThresh, hle', fun hc => .inl (h.coherent.caOpen hc),
        h.coherent.caDisorder, h.coherent.recovering, h.caLoss, fun hc => ?_⟩, rfl,
        iff_of_true (fun hc => (h.coherent.caOpen hc).1) hvac⟩
      rw [← Bool.not_eq_true]
      exact fun hgt => hleave ⟨hc, hgt⟩

theorem readOptions_remarked {b b' : TcpTxBuffer} {n n' : UInt32} {lists : List (List SackBlock)}
    (hrun : TcpSocketBase.readOptions b n lists = some (n', b')) : Remarked b b' := by
  induction lists generalizing b n with
  | nil =>
    obtain ⟨-, rfl⟩ := Prod.mk.inj (Option.some.inj hrun)
    exact .refl b
  | cons list lists ih =>
    obtain ⟨⟨m, b₁⟩, hupd, hrest⟩ := Option.bind_eq_some_iff.mp hrun
    exact (update_remarked hupd).trans (ih hrest)

/-- The SACK options of an ACK mark data that was not marked. -/
def AckHeader.Sacks (h : AckHeader) (b : TcpTxBuffer) : Prop :=
  ∃ n b', TcpSocketBase.readOptions b 0 h.sackLists = some (n, b') ∧ 0 < n

/-- An ACK that ends CWR is no new ECN echo and SACKs data, and finds no duplicates counted. -/
def TcpSocketBase.Settles (s : TcpSocketBase) (h : AckHeader) : Prop :=
  s.m_congState = .caCwr → h.ackNumber.gt s.m_recover = true → ¬ s.echoes h.ackNumber h.ece →
    s.m_sackEnabled = true → h.Sacks s.m_txBuffer → s.m_dupAckCount = 0

/-- In Open with a count the ACK is of new data, and a duplicate by its SACK options only. -/
theorem Arriving.isDupack_iff (h : Arriving s ackNumber oldHead) (scoreboardUpdated : Bool) :
    (s.m_congState = .caOpen → s.isDupack ackNumber scoreboardUpdated oldHead = true →
      s.m_dupAckCount = 0) ↔
    (s.m_sackEnabled = true → scoreboardUpdated = true → s.m_congState = .caOpen →
      s.m_dupAckCount = 0) := by
  rw [TcpSocketBase.isDupack]
  cases hsack : s.m_sackEnabled with
  | true => exact ⟨fun h _ hupd hc => h hc hupd, fun h hc hupd => h rfl hupd hc⟩
  | false =>
    refine iff_of_true (fun hc hdup => ?_) (fun hsack => by cases hsack)
    rcases h.caOpen hc with ⟨hcount, -⟩ | ⟨hgt, -⟩
    · exact hcount
    · simp only [Bool.false_eq_true, if_false, Bool.and_eq_true, beq_iff_eq] at hdup
      rw [hdup.1, SequenceNumber32.gt_irrefl] at hgt
      cases hgt

/-- `ReceivedAck` of an ACK in the window. -/
theorem SocketInv.receivedAck (hs : SocketInv s) {h : AckHeader} {windows : List UInt32}
    {asserted : Bool} (hle : h.ackNumber.lt s.headSequence = false)
    (hsent : h.ackNumber.gt s.m_highTxMark = false)
    (hrun : s.receivedAck h windows = some (asserted, s')) :
    (asserted = true ↔ s.Settles h) ∧ (asserted = true → SocketInv s') := by
  obtain ⟨⟨n, b⟩, hread, hrun⟩ := Option.bind_eq_some_iff.mp hrun
  have hr := readOptions_remarked hread
  have hhead : b.m_firstByteSeq = s.headSequence := hr.first_eq
  dsimp only at hrun
  rw [TcpSocketBase.headSequence, hhead, if_neg (by simp [hle])] at hrun
  obtain ⟨b₁, hdisc, hrun⟩ := Option.bind_eq_some_iff.mp hrun
  have hb : Held b₁ ∧ b₁.m_firstByteSeq = h.ackNumber := by
    rcases (hr.held hs.held).discardUpTo h.ackNumber with ⟨hge, heq⟩ | ⟨b₂, -, heq, hheld, -, hfirst⟩
    · obtain rfl := Option.some.inj (heq.symm.trans hdisc)
      refine ⟨hr.held hs.held, ?_⟩
      rw [hhead] at hge ⊢
      rcases SequenceNumber32.eq_or_gt_of_lt_eq_false hle with heq | hgt
      · exact heq.symm
      · rw [SequenceNumber32.ge, SequenceNumber32.gt_asymm hgt, Bool.false_or, beq_iff_eq] at hge
        exact hge
    · obtain rfl := Option.some.inj (heq.symm.trans hdisc)
      exact ⟨hheld, hfirst⟩
  obtain ⟨⟨asserted₁, s₃⟩, hproc, hrun⟩ := Option.bind_eq_some_iff.mp hrun
  obtain ⟨s₄, hsend, heq⟩ := Option.map_eq_some_iff.mp hrun
  obtain ⟨rfl, rfl⟩ := Prod.mk.inj heq
  obtain ⟨harr, hsack, hiff⟩ := hs.arriving hb.1 hb.2 hle hsent h.ece rfl
  obtain ⟨hok, hinv⟩ := harr.processAck hproc
  refine ⟨hok.trans ((harr.isDupack_iff _).trans ?_), fun ha =>
    (hinv ha).keep (sendPendingData_kept (hinv ha).held hsend)⟩
  rw [hsack, hiff, TcpSocketBase.Settles]
  have hsacks : h.Sacks s.m_txBuffer ↔ 0 < n := by
    refine ⟨?_, fun hpos => ⟨n, b, hread, hpos⟩⟩
    rintro ⟨m, b', hm, hpos⟩
    rw [hread] at hm
    obtain ⟨rfl, -⟩ := Prod.mk.inj (Option.some.inj hm)
    exact hpos
  rw [hsacks, decide_eq_true_eq]
  exact ⟨fun h hc hgt he hsk hn => h hsk hn hc hgt he, fun h hsk hn hc hgt he => h hc hgt he hsk hn⟩

/-- An ACK that the socket gets. -/
theorem SocketInv.processEstablished (hs : SocketInv s) {h : AckHeader} {windows : List UInt32}
    {asserted : Bool} (hrun : s.processEstablished h windows = some (asserted, s')) :
    (asserted = true ↔ (h.ackNumber.lt s.headSequence = false →
      h.ackNumber.gt s.m_highTxMark = false → s.Settles h)) ∧
    (asserted = true → SocketInv s') := by
  have hupd : SocketInv (s.updateWindowSize h) :=
    hs.keep ⟨rfl, rfl, rfl, rfl, rfl, rfl, hs.held, rfl⟩
  have hhead : (s.updateWindowSize h).headSequence = s.headSequence := rfl
  have hmark : (s.updateWindowSize h).m_highTxMark = s.m_highTxMark := rfl
  rw [TcpSocketBase.processEstablished, hhead, hmark] at hrun
  by_cases hlt : h.ackNumber.lt s.headSequence = true
  · rw [if_pos hlt] at hrun
    obtain ⟨rfl, rfl⟩ := Prod.mk.inj (Option.some.inj hrun)
    exact ⟨by simp [hlt], fun _ => hupd⟩
  rw [if_neg hlt] at hrun
  by_cases hgt : h.ackNumber.gt s.m_highTxMark = true
  · rw [if_pos hgt] at hrun
    obtain ⟨rfl, rfl⟩ := Prod.mk.inj (Option.some.inj hrun)
    exact ⟨by simp [hgt], fun _ => hupd.keep ⟨rfl, rfl, rfl, rfl, rfl, rfl, hs.held, rfl⟩⟩
  rw [if_neg hgt] at hrun
  rw [Bool.not_eq_true] at hlt hgt
  obtain ⟨hiff, hinv⟩ := hupd.receivedAck hlt hgt hrun
  exact ⟨hiff.trans ⟨fun hset _ _ => hset, fun hset => hset hlt hgt⟩, hinv⟩

/-- A timeout. -/
theorem SocketInv.reTxTimeout (hs : SocketInv s) {windows : List UInt32}
    (hrun : s.reTxTimeout windows = some s') : SocketInv s' := by
  rw [TcpSocketBase.reTxTimeout] at hrun
  split at hrun
  · obtain rfl := Option.some.inj hrun
    exact hs
  split at hrun
  · obtain rfl := Option.some.inj hrun
    exact hs
  have hreset : Remarked s.m_txBuffer
      (if !s.m_sackEnabled then s.m_txBuffer.resetRenoSack else s.m_txBuffer) := by
    split
    · exact resetRenoSack_remarked _
    · exact .refl _
  have hheld := (hreset.trans (setSentListLost_remarked _ (!s.m_sackEnabled))).held hs.held
  have hloss : SocketInv { s with
      m_dataRetrCount := s.m_dataRetrCount - 1
      m_dupAckCount := 0
      m_txBuffer := (if !s.m_sackEnabled then s.m_txBuffer.resetRenoSack
        else s.m_txBuffer).setSentListLost (!s.m_sackEnabled)
      m_recover := s.m_highTxMark
      m_recoverActive := true
      m_congState := .caLoss } := by
    refine ⟨⟨?_, ?_, fun _ => rfl⟩, hheld, hs.retxThresh, fun _ => rfl, ?_⟩
    · simp
    · simp
    · simp
  exact hloss.keep (sendPendingData_kept hheld hrun)

end Inv

/-- What is given to the send buffer fits in it. -/
def SendsFit (s : TcpSocketBase) : SocketCall → Prop
  | .send p => s.m_txBuffer.held + p.length < 2 ^ 31
  | _ => True

/-- Besides, an ACK in the window that ends CWR and SACKs data finds no duplicates counted, unless
it is a new ECN echo. -/
def Clean (s : TcpSocketBase) : SocketCall → Prop
  | .processEstablished h _ => h.ackNumber.lt s.headSequence = false →
      h.ackNumber.gt s.m_highTxMark = false → s.Settles h
  | c => SendsFit s c

/-- A clean call of a coherent sender. -/
theorem SocketInv.step {s s' : TcpSocketBase} (h : SocketInv s) {c : SocketCall} (hc : Clean s c)
    {asserted : Bool} (hrun : c.run s = some (asserted, s')) : asserted = true ∧ SocketInv s' := by
  cases c with
  | send p =>
    obtain ⟨rfl, rfl⟩ := Prod.mk.inj (Option.some.inj hrun)
    refine ⟨rfl, h.keep ⟨rfl, rfl, rfl, rfl, rfl, rfl, (h.held.add hc).1, ?_⟩⟩
    change (s.m_txBuffer.add p).2.m_firstByteSeq = _
    rw [TcpTxBuffer.add]
    split
    · split
      · rfl
      · rfl
    · rfl
  | processEstablished ack windows =>
    obtain ⟨hiff, hinv⟩ := h.processEstablished hrun
    exact ⟨hiff.mpr hc, hinv (hiff.mpr hc)⟩
  | sendPendingData windows =>
    obtain ⟨s₁, hsend, heq⟩ := Option.map_eq_some_iff.mp hrun
    obtain ⟨rfl, rfl⟩ := Prod.mk.inj heq
    exact ⟨rfl, h.keep (sendPendingData_kept h.held hsend)⟩
  | reTxTimeout windows =>
    obtain ⟨s₁, hsend, heq⟩ := Option.map_eq_some_iff.mp hrun
    obtain ⟨rfl, rfl⟩ := Prod.mk.inj heq
    exact ⟨rfl, h.reTxTimeout hsend⟩

/-- Clean calls reach coherent senders, and their assertions hold. -/
theorem SocketReached.inv {asserted : Bool} {s : TcpSocketBase}
    (h : SocketReached Clean asserted s) : asserted = true ∧ SocketInv s := by
  induction h with
  | start h =>
    refine ⟨rfl, ⟨⟨fun _ => ⟨h.dupAckCount, h.recoverActive⟩, ?_, ?_⟩, h.empty.held, h.retxThresh,
      fun _ => h.dupAckCount, ?_⟩⟩
    · simp [h.congState]
    · simp [h.congState]
    · simp [h.congState]
  | step _ hc hrun ih =>
    obtain ⟨rfl, hinv⟩ := ih
    obtain ⟨rfl, hinv'⟩ := hinv.step hc hrun
    exact ⟨rfl, hinv'⟩

/-- In a run of clean calls the states go with the count and the recovery point as they should, and
no assertion of `DupAck` fails; it does at the first ACK that is not clean. -/
theorem congStates_coherent (s : TcpSocketBase) (asserted : Bool)
    (hs : SocketReached Clean asserted s) :
    asserted = true ∧ Coherent s ∧ ∀ h windows ok s',
      s.processEstablished h windows = some (ok, s') →
        (ok = true ↔ Clean s (.processEstablished h windows)) := by
  obtain ⟨rfl, hinv⟩ := hs.inv
  exact ⟨rfl, hinv.coherent, fun h windows ok s' hrun => (hinv.processEstablished hrun).1⟩

/-- A sender of segments of one byte at the start of its connection. -/
def TcpSocketBase.ofOne : TcpSocketBase where
  m_txBuffer := { m_firstByteSeq := ⟨1⟩, m_dupAckThresh := 3, m_segmentSize := 1 }
  m_ecnState := .ecnIdle
  m_highTxMark := ⟨1⟩
  m_highRxAckMark := ⟨1⟩
  m_highRxMark := ⟨1⟩
  m_rWnd := 100
  m_segmentSize := 1

theorem TcpSocketBase.fresh_ofOne : TcpSocketBase.ofOne.Fresh :=
  ⟨⟨rfl, rfl, rfl, rfl, rfl, rfl, rfl, rfl⟩, rfl, rfl, rfl, by decide⟩

/-- An ACK to it. -/
def AckHeader.ofOne (ackNumber : SequenceNumber32) (ece : Bool) (sackLists : List (List SackBlock)) :
    AckHeader where
  ackNumber := ackNumber
  sequenceNumber := ⟨1⟩
  window := 100
  ece := ece
  sackLists := sackLists

/-- Three segments are sent and the second one is SACKed. -/
theorem congStates_coherent_disorder : ∃ s : TcpSocketBase, s.m_congState = .caDisorder ∧
    s.m_dupAckCount = 1 ∧ Coherent s := by
  have h0 : SocketReached Clean true .ofOne := .start TcpSocketBase.fresh_ofOne
  have h1 := h0.step (c := .send (List.replicate 3 0))
    (by simp [Clean, SendsFit, TcpTxBuffer.held, TcpSocketBase.ofOne]) rfl
  have h2 := h1.step (c := .sendPendingData [3, 3, 3]) trivial rfl
  have h3 := h2.step (c := .processEstablished (.ofOne ⟨1⟩ false [[⟨⟨2⟩, ⟨3⟩⟩]]) [])
    (fun _ _ hc => by cases hc) rfl
  exact ⟨_, rfl, rfl, (congStates_coherent _ _ h3).2.1⟩

/-- Three duplicates are counted in CWR. The ACK that ends it SACKs data, so it is counted in Open
as the fourth one, where the first is asserted, and Disorder follows with a count above the
threshold. -/
theorem not_congStates_coherent_left : ∃ s : TcpSocketBase, SocketReached SendsFit false s ∧
    s.m_congState = .caDisorder ∧ s.m_dupAckCount = 4 ∧ s.m_retxThresh = 3 ∧ ¬ Coherent s := by
  have h0 : SocketReached SendsFit true .ofOne := .start TcpSocketBase.fresh_ofOne
  have h1 := h0.step (c := .send (List.replicate 10 0))
    (by simp [SendsFit, TcpTxBuffer.held, TcpSocketBase.ofOne]) rfl
  have h2 := h1.step (c := .sendPendingData [10, 10, 10, 10, 10]) trivial rfl
  have h3 := h2.step (c := .processEstablished (.ofOne ⟨2⟩ true []) []) trivial rfl
  have h4 := h3.step (c := .processEstablished (.ofOne ⟨2⟩ true [[⟨⟨3⟩, ⟨4⟩⟩]]) [10]) trivial rfl
  have h5 := h4.step (c := .processEstablished (.ofOne ⟨2⟩ true [[⟨⟨4⟩, ⟨5⟩⟩]]) [10]) trivial rfl
  have h6 := h5.step (c := .processEstablished (.ofOne ⟨2⟩ true [[⟨⟨5⟩, ⟨6⟩⟩]]) [10, 10]) trivial
    rfl
  have h7 := h6.step (c := .processEstablished (.ofOne ⟨7⟩ false [[⟨⟨8⟩, ⟨9⟩⟩]]) []) trivial rfl
  refine ⟨_, h7, rfl, rfl, rfl, fun h => ?_⟩
  exact absurd (h.caDisorder rfl).2.1 (by decide)

end Ns3.Tcp
