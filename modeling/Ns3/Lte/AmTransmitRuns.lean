import Ns3.Lte.AmTransmitState

/-!
# The transmit buffers of AM over whole runs

What is promised of the transmit buffers after all calls on an entity that sends. `LtePdcp` puts a header of two bytes in
front of what it hands down, so that a header of a data PDU whose length does not fit into 16 bits is still written
inside of the PDU. Everything is kept, but for the three sizes: these are the sums when the sums are below 2^32.
-/

namespace Ns3.Lte

open Ns3.Lib

namespace AmTransmitter

/-- How far a sequence number is past VT(A). -/
def past (tx : AmTransmitter) (sn : Nat) : Nat := (sn + 1024 - tx.m_vtA.m_value) % 1024

/-- The three sums are below 2^32. -/
structure SumsFit (tx : AmTransmitter) : Prop where
  txon : totalSize tx.m_txonBuffer < 2 ^ 32
  txed : slotSum tx.m_txedBuffer < 2 ^ 32
  retx : slotSum tx.m_retxBuffer < 2 ^ 32

/-- The three sizes are the sums. -/
structure SizesKept (tx : AmTransmitter) : Prop where
  txon : tx.m_txonBufferSize = totalSize tx.m_txonBuffer
  txed : tx.m_txedBufferSize = slotSum tx.m_txedBuffer
  retx : tx.m_retxBufferSize = slotSum tx.m_retxBuffer

/-- What is promised of the transmit buffers. -/
structure BuffersKept (tx : AmTransmitter) : Prop extends SizesKept tx where
  vtS : tx.past tx.m_vtS.m_value ≤ 512
  vtMs : tx.m_vtMs.m_value = (tx.m_vtA.m_value + 512) % 1024
  placed : ∀ i, HoldsIn tx.m_txedBuffer tx.m_retxBuffer i → i < 1024 ∧ tx.past i < tx.past tx.m_vtS.m_value
  apart : Apart tx.m_txedBuffer tx.m_retxBuffer
  found : 0 < tx.m_retxBufferSize → ∃ sn pdu, rounds tx.retxTurn 512 tx.m_vtA = some (some (sn, pdu))
  fits : ∀ bytes, 7 ≤ bytes → ∃ packet tx', tx.notifyTxOpportunity 512 bytes = some (packet, tx') ∧
    (tx.m_txOpportunityForRetxAlwaysBigEnough = false → ∀ p, packet = some p → p.length ≤ bytes)

/-- The bytes of a data PDU: those of a header that was built, and something behind them. -/
def Stored (_ : Nat) (pdu : Bytes) : Prop :=
  ∃ header n bytes tail, LteRlcAmHeader.Built header n ∧ header.serialize = some bytes ∧ pdu = bytes ++ tail

variable {tx : AmTransmitter} {a s : Nat}

/-- What is in the buffer behind the first SDU has the two bytes of its header. -/
def TailLarge (txBuffer : List Sdu) : Prop := ∀ sdu ∈ txBuffer.tail, 2 ≤ sdu.bytes.length

theorem totalSize_ge (whole : List Sdu) (h : ∀ sdu ∈ whole, 2 ≤ sdu.bytes.length) :
    2 * whole.length ≤ totalSize whole := by
  induction whole with
  | nil => exact Nat.le_refl 0
  | cons sdu whole ih =>
    have hsdu := h sdu List.mem_cons_self
    have hwhole := ih fun sdu hsdu => h sdu (List.mem_cons_of_mem _ hsdu)
    rw [totalSize_cons, List.length_cons]
    omega

theorem hasSpace_of_tailLarge {txBuffer : List Sdu} (hqueued : ∀ sdu ∈ txBuffer, Queued sdu)
    (htail : TailLarge txBuffer) : HasSpace txBuffer := by
  intro whole sdu rest filled hsplit htaken
  have hsdu := hqueued sdu (by rw [hsplit]; exact List.mem_append_right _ List.mem_cons_self)
  have hlast := htaken.totalSize_lt hsdu
  rw [headerSize]
  by_cases hsmall : 4 + fieldsSize whole.length < 2 ^ 16
  · rw [Nat.mod_eq_of_lt hsmall]
    exact Nat.le_add_right _ _
  · cases whole with
    | nil => exact absurd (by decide : 4 + fieldsSize 0 < 2 ^ 16) hsmall
    | cons first whole =>
      have hfirst := (hqueued first (by rw [hsplit]; exact List.mem_cons_self)).ne_nil
      have hwhole := totalSize_ge whole fun s hs => htail s (by
        rw [hsplit]
        exact List.mem_append_left _ hs)
      rw [totalSize_cons] at hlast
      rw [List.length_cons, fieldsSize] at hsmall ⊢
      omega

/-- What a new PDU leaves in the buffer. -/
theorem tailLarge_taken {txBuffer : List Sdu} {filled : Filled} {whole : List Sdu} {sdu : Sdu} {rest : List Sdu}
    (htaken : Taken filled whole sdu rest) (hsplit : txBuffer = whole ++ sdu :: rest) (htail : TailLarge txBuffer) :
    TailLarge filled.txBuffer := by
  have hrest : ∀ s ∈ rest, 2 ≤ s.bytes.length := fun s hs => htail s (by
    rw [hsplit]
    cases whole with
    | nil => exact hs
    | cons first whole => exact List.mem_append_right _ (List.mem_cons_of_mem _ hs))
  rcases htaken.last with ⟨-, hbuffer⟩ | ⟨_, -, -, -, hbuffer⟩
  · rw [TailLarge, hbuffer]
    exact fun s hs => hrest s (List.mem_of_mem_tail hs)
  · rw [TailLarge, hbuffer]
    exact hrest

theorem Sent.stored {filled : Filled} {whole : List Sdu} {sdu : Sdu} {rest : List Sdu} {packet : Bytes}
    (hsent : Sent whole.length filled.lengthIndicators filled.dataField tx.m_vtS packet)
    (htaken : Taken filled whole sdu rest) (hsn : tx.m_vtS.m_value < 1024) : Stored s packet := by
  obtain ⟨first, last, bit, bytes, -, -, hbit, hserialize, hadd⟩ := hsent
  rw [addHeader] at hadd
  split at hadd
  · exact ⟨_, _, bytes, _, dataHeader_built htaken hsn _ hbit, hserialize, (Option.some.inj hadd).symm⟩
  · cases hadd

theorem Sent.length {n : Nat} {lengthIndicators : List UInt16} {dataField : List Sdu} {sn : SequenceNumber10}
    {packet : Bytes} (hsent : Sent n lengthIndicators dataField sn packet) :
    packet.length = headerSize n + totalSize dataField := by
  obtain ⟨first, last, bit, bytes, -, -, -, -, hadd⟩ := hsent
  rw [addHeader_length hadd, joined_length]

/-- The states that a sender is in between calls. -/
def Reached (tx : AmTransmitter) : Prop :=
  ∃ a s, SendState Stored (fun _ => True) tx a s ∧ TailLarge tx.m_txonBuffer

theorem Reached.notifyTxOpportunity (htx : Reached tx) {bytes : Nat} (hbytes : 7 ≤ bytes) :
    ∃ packet tx', tx.notifyTxOpportunity 512 bytes = some (packet, tx') ∧ Reached tx' ∧
      (tx.m_txOpportunityForRetxAlwaysBigEnough = false → ∀ p, packet = some p → p.length ≤ bytes) := by
  obtain ⟨a, s, hs, htail⟩ := htx
  obtain ⟨packet, tx', hnotify, hpacket⟩ :=
    hs.notifyTxOpportunity (hasSpace_of_tailLarge hs.queued htail) (fun _ _ h => h) hbytes
  refine ⟨packet, tx', hnotify, ?_⟩
  rcases hpacket with ⟨rfl, hs', htxon⟩ | ⟨p, rfl, ⟨hs', htxon, y, header, n, hb, tl, -, hbuilt, hser, hrep, hfits⟩ |
    ⟨hroom, whole, sdu, rest, filled, hsplit, htaken, hle, hsent, htxon, hs'⟩⟩
  · exact ⟨⟨a, s, hs', htxon ▸ htail⟩, fun _ => nofun⟩
  · refine ⟨⟨a, s, hs', htxon ▸ htail⟩, fun hbig p' hp' => ?_⟩
    obtain rfl := Option.some.inj hp'
    rw [hrep.length hbuilt hser]
    exact hfits.resolve_right fun htrue => Bool.false_ne_true (hbig.symm.trans htrue)
  · have hsn : tx.m_vtS.m_value < 1024 := by
      rw [hs.vtS.value]
      exact Nat.mod_lt _ (by decide)
    refine ⟨⟨a, s + 1, hs' (hsent.stored htaken hsn), htxon ▸ tailLarge_taken htaken hsplit htail⟩, fun _ p' hp' => ?_⟩
    obtain rfl := Option.some.inj hp'
    have hheader : headerSize whole.length ≤ 4 + fieldsSize whole.length := Nat.mod_le _ _
    rw [hsent.length]
    omega

/-- Everything is kept when the sums fit. -/
theorem Reached.buffersKept_iff (htx : Reached tx) : BuffersKept tx ↔ SumsFit tx := by
  have hfits := fun bytes (hbytes : 7 ≤ bytes) => htx.notifyTxOpportunity hbytes
  obtain ⟨a, s, hs, -⟩ := htx
  have hle := hs.le
  have hwindow := hs.le_window
  have hpast : ∀ y, a ≤ y → y < a + 1024 → tx.past (y % 1024) = y - a := fun y hy hy' => by
    rw [past, hs.vtA.value]
    omega
  constructor
  · intro hkept
    have htxon := hkept.txon.symm.trans hs.txon
    have htxed := hkept.txed.symm.trans hs.txed.size_eq
    have hretx := hkept.retx.symm.trans hs.retx.size_eq
    exact ⟨by omega, by omega, by omega⟩
  · intro hsums
    have htxon := hsums.txon
    have htxed := hsums.txed
    have hretx := hsums.retx
    refine ⟨⟨hs.txon.trans (Nat.mod_eq_of_lt htxon), hs.txed.size_eq.trans (Nat.mod_eq_of_lt htxed),
      hs.retx.size_eq.trans (Nat.mod_eq_of_lt hretx)⟩, ?_, ?_, fun i hi => ?_, hs.apart, fun hpos => ?_,
      fun bytes hbytes => ?_⟩
    · rw [hs.vtS.value, hpast s hle (by omega)]
      omega
    · rw [hs.vtMs.value, hs.vtA.value, Nat.mod_add_mod]
    · obtain ⟨y, hy, hy', rfl⟩ : ∃ y, a ≤ y ∧ y < s ∧ i = y % 1024 := by
        obtain ⟨pdu, hpdu | hpdu⟩ := hi
        · obtain ⟨y, hy, hy', heq, -⟩ := hs.txed.within i pdu hpdu
          exact ⟨y, hy, hy', heq⟩
        · obtain ⟨y, hy, hy', heq, -⟩ := hs.retx.within i pdu hpdu
          exact ⟨y, hy, hy', heq⟩
      rw [hs.vtS.value, hpast y hy (by omega), hpast s hle (by omega)]
      exact ⟨Nat.mod_lt _ (by decide), by omega⟩
    · obtain ⟨found, hfound, y, pdu, rfl, -⟩ := hs.rounds_retxTurn hpos
      exact ⟨_, _, hfound⟩
    · obtain ⟨packet, tx', hnotify, -, hlength⟩ := hfits bytes hbytes
      exact ⟨packet, tx', hnotify, hlength⟩

end AmTransmitter

namespace LteRlcAm

open AmTransmitter

/-- What `LtePdcp` hands down: there is its header of two bytes. -/
structure PdcpPdu where
  bytes : Bytes
  length_le : 2 ≤ bytes.length

/-- A STATUS PDU. -/
structure StatusPdu where
  packet : Bytes
  header : LteRlcAmHeader
  deserialize : LteRlcAmHeader.deserialize packet = some header
  isControlPdu : header.m_dataControlBit = controlPdu

/-- What happens to an entity that sends. -/
inductive SendCall where
  | transmitPdcpPdu (p : PdcpPdu)
  | notifyTxOpportunity (bytes : Nat) (h : 7 ≤ bytes)
  | statusPdu (pdu : StatusPdu)
  | expirePollRetransmitTimer

/-- One call. -/
def sendCall (limit : Nat) : SendCall → LteRlcAm → Option LteRlcAm
  | .transmitPdcpPdu p, rlc => some (rlc.doTransmitPdcpPdu p.bytes)
  | .notifyTxOpportunity bytes _, rlc => (rlc.doNotifyTxOpportunity limit bytes).map Prod.snd
  | .statusPdu pdu, rlc => rlc.doReceivePdu limit pdu.packet
  | .expirePollRetransmitTimer, rlc => rlc.expirePollRetransmitTimer limit

/-- Calls one after the other. -/
def sendCalls (limit : Nat) : List SendCall → LteRlcAm → Option LteRlcAm
  | [], rlc => some rlc
  | call :: calls, rlc => (rlc.sendCall limit call).bind (sendCalls limit calls)

/-- Of the sequence numbers from VT(A) on, no one is NACKed that has been acknowledged: its PDU is still there. -/
def NacksKept (header : LteRlcAmHeader) (tx : AmTransmitter) : Prop :=
  ∀ sn ∈ header.m_nackSnList, tx.past sn < tx.past header.m_ackSn.m_value → tx.past sn < tx.past tx.m_vtS.m_value →
    HoldsIn tx.m_txedBuffer tx.m_retxBuffer sn

/-- No STATUS PDU of the calls misses what was acknowledged before. -/
def Lawful (limit : Nat) : List SendCall → LteRlcAm → Prop
  | [], _ => True
  | call :: calls, rlc =>
    (∀ pdu, call = .statusPdu pdu → NacksKept pdu.header rlc.tx) ∧
      ∀ rlc', rlc.sendCall limit call = some rlc' → Lawful limit calls rlc'

/-- The ACK_SN of a header that was read. -/
theorem deserialize_ackSn {packet : Bytes} {header : LteRlcAmHeader}
    (h : LteRlcAmHeader.deserialize packet = some header) (hcontrol : header.m_dataControlBit = controlPdu) :
    header.m_ackSn.m_value < 1024 := by
  have hack : ∀ value, ((SequenceNumber10.ofValue 0xffff).assign value).m_value < 1024 := fun value =>
    Nat.mod_lt _ (by decide)
  cases packet with
  | nil => cases h
  | cons byte1 rest =>
    rw [LteRlcAmHeader.deserialize] at h
    split at h
    · next hdata =>
      unfold LteRlcAmHeader.deserializeData at h
      split at h
      · dsimp only at h
        split at h
        · cases h
          exact absurd (hcontrol.symm.trans hdata) (by decide)
        · obtain ⟨fields, -, rfl⟩ := Option.map_eq_some_iff.mp h
          exact absurd (hcontrol.symm.trans hdata) (by decide)
      · cases h
    · unfold LteRlcAmHeader.deserializeControl at h
      split at h
      · dsimp only at h
        split at h
        · split at h
          · split at h
            · obtain ⟨nacks, -, rfl⟩ := Option.map_eq_some_iff.mp h
              exact hack _
            · cases h
              exact hack _
          · cases h
        · cases h
          exact hack _
      · cases h

/-- An entity that does not receive data PDUs, and whose sending side is as it should be. -/
structure Sending (rlc : LteRlcAm) : Prop where
  reached : Reached rlc.tx
  statusPdu : rlc.rx.m_statusPduRequested = false

theorem sending_sendCall {rlc : LteRlcAm} (hrlc : Sending rlc) (call : SendCall)
    (hlawful : ∀ pdu, call = .statusPdu pdu → NacksKept pdu.header rlc.tx) :
    ∃ rlc', rlc.sendCall 512 call = some rlc' ∧ Sending rlc' := by
  have hstatus := hrlc.statusPdu
  cases call with
  | transmitPdcpPdu p =>
    obtain ⟨a, s, hs, htail⟩ := hrlc.reached
    have hs' := hs.transmitPdcpPdu (Nat.lt_of_lt_of_le (by decide) p.length_le)
    refine ⟨rlc.doTransmitPdcpPdu p.bytes, rfl, ⟨a, s, hs', ?_⟩, hstatus⟩
    show TailLarge (rlc.tx.transmitPdcpPdu p.bytes).m_txonBuffer
    rw [AmTransmitter.transmitPdcpPdu]
    split
    · intro sdu hsdu
      have hsdu : sdu ∈ (rlc.tx.m_txonBuffer ++ [Sdu.mk p.bytes .fullSdu]).tail := hsdu
      have htail : ∀ sdu ∈ rlc.tx.m_txonBuffer.tail, 2 ≤ sdu.bytes.length := htail
      cases hbuffer : rlc.tx.m_txonBuffer with
      | nil =>
        rw [hbuffer] at hsdu
        cases hsdu
      | cons first txBuffer =>
        rw [hbuffer] at hsdu htail
        rcases List.mem_append.mp hsdu with hsdu | hsdu
        · exact htail sdu hsdu
        · rw [List.mem_singleton.mp hsdu]
          exact p.length_le
    · exact htail
  | notifyTxOpportunity bytes hbytes =>
    obtain ⟨packet, tx', hnotify, hreached, -⟩ := hrlc.reached.notifyTxOpportunity hbytes
    refine ⟨{ rlc with tx := tx' }, ?_, hreached, hstatus⟩
    rw [sendCall, doNotifyTxOpportunity, if_neg (by omega), if_neg, hnotify]
    · rfl
    · rw [hstatus]
      exact fun h => Bool.false_ne_true h.1
  | statusPdu pdu =>
    obtain ⟨a, s, hs, htail⟩ := hrlc.reached
    have hnacks := hlawful pdu rfl
    have hack := deserialize_ackSn pdu.deserialize pdu.isControlPdu
    have hle := hs.le
    have hwindow := hs.le_window
    obtain ⟨k, hk, hk', hvalue⟩ : ∃ k, a ≤ k ∧ k < a + 1024 ∧ pdu.header.m_ackSn.m_value = k % 1024 :=
      ⟨a + (pdu.header.m_ackSn.m_value + 1024 - a % 1024) % 1024, by omega, by omega, by omega⟩
    obtain ⟨tx', hreceive, a', -, hs', htxon⟩ := hs.receiveStatus hvalue hk hk'
      (fun y hy hy' hyk hnacked => hnacks (y % 1024) hnacked
        (by rw [past, past, hvalue, hs.vtA.value]; omega) (by rw [past, past, hs.vtS.value, hs.vtA.value]; omega))
      (fun _ _ _ _ _ => trivial)
    refine ⟨{ rlc with tx := tx' }, ?_, ⟨a', s, hs', htxon ▸ htail⟩, hstatus⟩
    rw [sendCall, doReceivePdu, pdu.deserialize, Option.bind_some, if_neg (by rw [pdu.isControlPdu]; decide),
      if_pos pdu.isControlPdu, hreceive, Option.map_some]
  | expirePollRetransmitTimer =>
    rw [sendCall, LteRlcAm.expirePollRetransmitTimer]
    split
    · obtain ⟨a, s, hs, htail⟩ := hrlc.reached
      obtain ⟨tx', hexpire, hs', htxon⟩ := hs.expirePollRetransmitTimer
      refine ⟨{ rlc with tx := tx' }, ?_, ⟨a, s, hs', htxon ▸ htail⟩, hstatus⟩
      rw [hexpire, Option.map_some]
    · exact ⟨rlc, rfl, hrlc⟩

theorem sending_sendCalls (calls : List SendCall) (rlc : LteRlcAm) (hrlc : Sending rlc)
    (hlawful : Lawful 512 calls rlc) : ∃ rlc', rlc.sendCalls 512 calls = some rlc' ∧ Sending rlc' := by
  induction calls generalizing rlc with
  | nil => exact ⟨rlc, rfl, hrlc⟩
  | cons call calls ih =>
    obtain ⟨rlc₁, hcall, hrlc₁⟩ := sending_sendCall hrlc call hlawful.1
    obtain ⟨rlc', hcalls, hrlc'⟩ := ih rlc₁ hrlc₁ (hlawful.2 rlc₁ hcall)
    exact ⟨rlc', by rw [sendCalls, hcall, Option.bind_some, hcalls], hrlc'⟩

/-- An entity that is new, with its attributes. -/
def create (maxTxBufferSize pollPdu pollByte : Nat) (alwaysBigEnough : Bool) : LteRlcAm where
  tx := {
    m_maxTxBufferSize := maxTxBufferSize
    m_txOpportunityForRetxAlwaysBigEnough := alwaysBigEnough
    m_pollPdu := pollPdu
    m_pollByte := pollByte }

theorem slotSum_replicate (n : Nat) : slotSum (List.replicate n none) = 0 := by
  induction n with
  | zero => rfl
  | succ n ih =>
    rw [List.replicate_succ, slotSum_cons, ih]
    rfl

theorem ring_new (P : Nat → Bytes → Prop) : Ring P (List.replicate 1024 none) 0 0 0 where
  length := List.length_replicate
  within := fun i pdu hpdu => by
    rw [List.getElem?_replicate] at hpdu
    split at hpdu
    · cases Option.some.inj hpdu
    · cases hpdu
  size_eq := by
    rw [slotSum_replicate]
    rfl

theorem sending_create (maxTxBufferSize pollPdu pollByte : Nat) (alwaysBigEnough : Bool) :
    Sending (create maxTxBufferSize pollPdu pollByte alwaysBigEnough) := by
  refine ⟨⟨0, 0, ⟨⟨rfl, rfl⟩, ⟨rfl, rfl⟩, ⟨rfl, rfl⟩, Nat.le_refl 0, Nat.zero_le _, ring_new _, ring_new _,
    fun i pdu pdu' hpdu => ?_, nofun, rfl, nofun⟩, nofun⟩, rfl⟩
  obtain ⟨y, -, hy, -⟩ := (ring_new fun _ _ => True).within i pdu hpdu
  cases hy

/-- After all calls whose STATUS PDUs are lawful, everything is kept when the sums of the buffers are below 2^32. -/
theorem transmit_buffers (maxTxBufferSize pollPdu pollByte : Nat) (alwaysBigEnough : Bool) (calls : List SendCall)
    (hlawful : Lawful 512 calls (create maxTxBufferSize pollPdu pollByte alwaysBigEnough)) :
    ∃ rlc, sendCalls 512 calls (create maxTxBufferSize pollPdu pollByte alwaysBigEnough) = some rlc ∧
      (BuffersKept rlc.tx ↔ SumsFit rlc.tx) := by
  obtain ⟨rlc, hcalls, hrlc⟩ := sending_sendCalls calls _ (sending_create _ _ _ _) hlawful
  exact ⟨rlc, hcalls, hrlc.reached.buffersKept_iff⟩

/-- An SDU is sent and acknowledged. -/
theorem transmit_buffers_four :
    Lawful 512 [.transmitPdcpPdu ⟨[1, 2, 3], by decide⟩, .notifyTxOpportunity 10 (by decide),
      .statusPdu ⟨[0, 4], _, rfl, rfl⟩, .expirePollRetransmitTimer] (create 10240 1 50 false) ∧
      ∃ rlc, sendCalls 512 [.transmitPdcpPdu ⟨[1, 2, 3], by decide⟩, .notifyTxOpportunity 10 (by decide),
        .statusPdu ⟨[0, 4], _, rfl, rfl⟩, .expirePollRetransmitTimer] (create 10240 1 50 false) = some rlc ∧
        (BuffersKept rlc.tx ↔ SumsFit rlc.tx) := by
  have hlawful : Lawful 512 [.transmitPdcpPdu ⟨[1, 2, 3], by decide⟩, .notifyTxOpportunity 10 (by decide),
      .statusPdu ⟨[0, 4], _, rfl, rfl⟩, .expirePollRetransmitTimer] (create 10240 1 50 false) := by
    refine ⟨nofun, fun _ _ => ⟨nofun, fun _ _ => ⟨?_, fun _ _ => ⟨nofun, fun _ _ => trivial⟩⟩⟩⟩
    rintro pdu ⟨⟩
    exact nofun
  exact ⟨hlawful, transmit_buffers 10240 1 50 false _ hlawful⟩

theorem transmitPdcpPdu_unlimited (tx : AmTransmitter) (h : tx.m_maxTxBufferSize = 0) (p : Bytes) :
    tx.transmitPdcpPdu p = { tx with
      m_txonBuffer := tx.m_txonBuffer ++ [⟨p, .fullSdu⟩]
      m_txonBufferSize := add32 tx.m_txonBufferSize p.length } := by
  rw [AmTransmitter.transmitPdcpPdu]
  exact if_pos (.inr h)

theorem not_buffersKept_two (p : PdcpPdu) (hp : p.bytes.length = 2 ^ 31) :
    ∃ rlc, sendCalls 512 [.transmitPdcpPdu p, .transmitPdcpPdu p] (create 0 1 50 false) = some rlc ∧
      ¬ BuffersKept rlc.tx := by
  refine ⟨_, rfl, fun hkept => ?_⟩
  have htxon := hkept.txon
  rw [doTransmitPdcpPdu, doTransmitPdcpPdu, transmitPdcpPdu_unlimited (create 0 1 50 false).tx rfl,
    transmitPdcpPdu_unlimited _ rfl] at htxon
  have hsum : add32 (add32 0 p.bytes.length) p.bytes.length =
      totalSize (([] ++ [⟨p.bytes, .fullSdu⟩]) ++ [⟨p.bytes, .fullSdu⟩]) := htxon
  rw [totalSize_append, totalSize_append, totalSize_cons, hp] at hsum
  exact absurd hsum (by decide)

/-- Two SDUs of 2^31 bytes, with no limit: the size is 0 then. -/
theorem not_transmit_buffers :
    ∃ rlc, sendCalls 512 [.transmitPdcpPdu ⟨List.replicate (2 ^ 31) 0, by rw [List.length_replicate]; decide⟩,
      .transmitPdcpPdu ⟨List.replicate (2 ^ 31) 0, by rw [List.length_replicate]; decide⟩] (create 0 1 50 false) =
        some rlc ∧ ¬ BuffersKept rlc.tx :=
  not_buffersKept_two _ List.length_replicate

end LteRlcAm

end Ns3.Lte
