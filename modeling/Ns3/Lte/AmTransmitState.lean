import Ns3.Lte.RlcAm
import Ns3.Lte.Segmentation

/-!
# The transmit state of AM

VT(A) and VT(S) stand for numbers that do not wrap, of which VT(A) is the base: VT(A) ≤ VT(S) ≤ VT(MS) = VT(A) + 512.
The transmitted and the retransmission buffer are rings of 1024 places, which hold PDUs only from VT(A) on and below
VT(S), and never both at one place. The three sizes are sums of 32 bits: they are those of the buffers as long as these
are below 2^32.
-/

namespace Ns3.Lte

open Ns3.Lib

/-! ### A ring of PDUs -/

/-- The size of what is at a place. -/
def slotSize : Option Bytes → Nat
  | some pdu => pdu.length
  | none => 0

/-- The sum of the sizes of what is in a ring. -/
def slotSum (buffer : List (Option Bytes)) : Nat := (buffer.map slotSize).sum

theorem slotSum_cons (slot : Option Bytes) (buffer : List (Option Bytes)) :
    slotSum (slot :: buffer) = slotSize slot + slotSum buffer := by
  rw [slotSum, List.map_cons, List.sum_cons]
  rfl

theorem slotSum_set (buffer : List (Option Bytes)) {i : Nat} {old new : Option Bytes} (hold : buffer[i]? = some old) :
    slotSum (buffer.set i new) + slotSize old = slotSum buffer + slotSize new := by
  induction buffer generalizing i with
  | nil => cases hold
  | cons slot buffer ih =>
    cases i with
    | zero =>
      obtain rfl : slot = old := Option.some.inj hold
      rw [List.set_cons_zero, slotSum_cons, slotSum_cons]
      omega
    | succ i =>
      have hset := ih hold
      rw [List.set_cons_succ, slotSum_cons, slotSum_cons]
      omega

/-- A ring holds something when its sum is not zero. -/
theorem exists_of_slotSum_pos {buffer : List (Option Bytes)} (h : 0 < slotSum buffer) :
    ∃ (i : Nat) (pdu : Bytes), buffer[i]? = some (some pdu) := by
  induction buffer with
  | nil => cases h
  | cons slot buffer ih =>
    cases slot with
    | some pdu => exact ⟨0, pdu, rfl⟩
    | none =>
      rw [slotSum_cons] at h
      obtain ⟨i, pdu, hpdu⟩ := ih (by simpa [slotSize] using h)
      exact ⟨i + 1, pdu, hpdu⟩

/-- A ring that holds PDUs of which `P` holds, at the places of numbers from `a` on and below `s`, and its size. -/
structure Ring (P : Nat → Bytes → Prop) (buffer : List (Option Bytes)) (size a s : Nat) : Prop where
  length : buffer.length = 1024
  within : ∀ (i : Nat) (pdu : Bytes), buffer[i]? = some (some pdu) → ∃ y, a ≤ y ∧ y < s ∧ i = y % 1024 ∧ P y pdu
  size_eq : size = slotSum buffer % 2 ^ 32

/-- No place is taken in both rings. -/
def Apart (buffer buffer' : List (Option Bytes)) : Prop :=
  ∀ (i : Nat) (pdu pdu' : Bytes), buffer[i]? = some (some pdu) → buffer'[i]? ≠ some (some pdu')

variable {P : Nat → Bytes → Prop} {buffer buffer' : List (Option Bytes)} {size a s y i : Nat} {pdu : Bytes}

theorem Ring.getElem?_eq (h : Ring P buffer size a s) (y : Nat) : ∃ slot, buffer[y % 1024]? = some slot := by
  have hlt : y % 1024 < buffer.length := by
    rw [h.length]
    exact Nat.mod_lt _ (by decide)
  exact ⟨buffer.get ⟨_, hlt⟩, List.getElem?_eq_getElem hlt⟩

/-- What is not in the window is not in the ring. -/
theorem Ring.none_of_not_within (h : Ring P buffer size a s) (hs : s ≤ y) (hy : y < a + 1024) :
    buffer[y % 1024]? = some none := by
  obtain ⟨slot, hslot⟩ := h.getElem?_eq y
  cases slot with
  | none => exact hslot
  | some pdu =>
    obtain ⟨z, hz, hz', heq, -⟩ := h.within _ pdu hslot
    omega

theorem Ring.number (h : Ring P buffer size a s) (hpdu : buffer[y % 1024]? = some (some pdu)) (hy : a ≤ y)
    (hs : s ≤ y + 1024) (hy' : y < a + 1024) : y < s ∧ P y pdu := by
  obtain ⟨z, hz, hz', heq, hP⟩ := h.within _ pdu hpdu
  obtain rfl : z = y := by omega
  exact ⟨hz', hP⟩

theorem Ring.mono (h : Ring P buffer size a s) {s' : Nat} {P' : Nat → Bytes → Prop} (hs : s ≤ s')
    (hP : ∀ y pdu, P y pdu → P' y pdu) : Ring P' buffer size a s' where
  length := h.length
  within := fun i pdu hpdu => by
    obtain ⟨y, hy, hy', heq, hPy⟩ := h.within i pdu hpdu
    exact ⟨y, hy, hy'.trans_le hs, heq, hP y pdu hPy⟩
  size_eq := h.size_eq

theorem Ring.put (h : Ring P buffer size a s) (hy : a ≤ y) (hy' : y < s) (hempty : buffer[y % 1024]? = some none)
    (hP : P y pdu) : Ring P (buffer.set (y % 1024) (some pdu)) (add32 size pdu.length) a s where
  length := by rw [List.length_set, h.length]
  within := fun i pdu' hpdu' => by
    by_cases heq : y % 1024 = i
    · subst heq
      rw [List.getElem?_set_self (by rw [h.length]; exact Nat.mod_lt _ (by decide))] at hpdu'
      obtain rfl := Option.some.inj (Option.some.inj hpdu')
      exact ⟨y, hy, hy', rfl, hP⟩
    · rw [List.getElem?_set_ne heq] at hpdu'
      exact h.within i pdu' hpdu'
  size_eq := by
    have hsum : slotSum (buffer.set (y % 1024) (some pdu)) + 0 = slotSum buffer + pdu.length :=
      slotSum_set buffer hempty
    rw [h.size_eq, add32]
    omega

theorem Ring.take (h : Ring P buffer size a s) (hpdu : buffer[i]? = some (some pdu)) :
    Ring P (buffer.set i none) (sub32 size pdu.length) a s where
  length := by rw [List.length_set, h.length]
  within := fun j pdu' hpdu' => by
    by_cases heq : i = j
    · subst heq
      rw [List.getElem?_set_self (List.getElem?_eq_some_iff.mp hpdu).1] at hpdu'
      cases Option.some.inj hpdu'
    · rw [List.getElem?_set_ne heq] at hpdu'
      exact h.within j pdu' hpdu'
  size_eq := by
    have hsum : slotSum (buffer.set i none) + pdu.length = slotSum buffer + 0 := slotSum_set buffer hpdu
    rw [h.size_eq, sub32]
    omega

/-- The window moves on behind an empty place. -/
theorem Ring.next (h : Ring P buffer size a s) (hempty : buffer[a % 1024]? = some none) :
    Ring P buffer size (a + 1) s where
  length := h.length
  within := fun i pdu hpdu => by
    obtain ⟨y, hy, hy', rfl, hP⟩ := h.within i pdu hpdu
    refine ⟨y, Nat.lt_of_le_of_ne hy ?_, hy', rfl, hP⟩
    rintro rfl
    cases Option.some.inj (hempty.symm.trans hpdu)
  size_eq := h.size_eq

/-- A place is taken in one of two rings. -/
def HoldsIn (buffer buffer' : List (Option Bytes)) (i : Nat) : Prop :=
  ∃ pdu, buffer[i]? = some (some pdu) ∨ buffer'[i]? = some (some pdu)

theorem HoldsIn.symm (h : HoldsIn buffer buffer' i) : HoldsIn buffer' buffer i := by
  obtain ⟨pdu, hpdu⟩ := h
  exact ⟨pdu, hpdu.symm⟩

/-- A PDU that is put into one ring may be taken out of the other. -/
theorem HoldsIn.move {j : Nat} (h : HoldsIn buffer buffer' j) (hlt : i < buffer.length) :
    HoldsIn (buffer.set i (some pdu)) (buffer'.set i none) j := by
  by_cases heq : i = j
  · subst heq
    exact ⟨pdu, .inl (List.getElem?_set_self hlt)⟩
  · obtain ⟨pdu', hpdu'⟩ := h
    refine ⟨pdu', ?_⟩
    rw [List.getElem?_set_ne heq, List.getElem?_set_ne heq]
    exact hpdu'

theorem HoldsIn.put {j : Nat} (h : HoldsIn buffer buffer' j) (hlt : i < buffer.length) :
    HoldsIn (buffer.set i (some pdu)) buffer' j := by
  by_cases heq : i = j
  · subst heq
    exact ⟨pdu, .inl (List.getElem?_set_self hlt)⟩
  · obtain ⟨pdu', hpdu'⟩ := h
    refine ⟨pdu', ?_⟩
    rw [List.getElem?_set_ne heq]
    exact hpdu'

theorem Apart.symm (h : Apart buffer buffer') : Apart buffer' buffer :=
  fun i pdu pdu' hpdu hpdu' => h i pdu' pdu hpdu' hpdu

theorem Apart.put (h : Apart buffer buffer') (hempty : buffer'[i]? = some none) :
    Apart (buffer.set i (some pdu)) buffer' := by
  intro j pdu' pdu'' hpdu' hpdu''
  by_cases heq : i = j
  · subst heq
    cases Option.some.inj (hempty.symm.trans hpdu'')
  · rw [List.getElem?_set_ne heq] at hpdu'
    exact h j pdu' pdu'' hpdu' hpdu''

theorem Apart.take (h : Apart buffer buffer') : Apart (buffer.set i none) buffer' := by
  intro j pdu' pdu'' hpdu' hpdu''
  by_cases heq : i = j
  · subst heq
    rw [List.getElem?_set] at hpdu'
    simp at hpdu'
  · rw [List.getElem?_set_ne heq] at hpdu'
    exact h j pdu' pdu'' hpdu' hpdu''

namespace AmTransmitter

/-- The PDU of a number is in one of the rings. -/
def Holds (tx : AmTransmitter) (y : Nat) : Prop := HoldsIn tx.m_txedBuffer tx.m_retxBuffer (y % 1024)

/-- The state between calls: VT(A) and VT(S) stand for `a` and `s`, `P` holds of the PDUs in the rings, and `R` of the
numbers whose PDUs have been removed. -/
structure SendState (P : Nat → Bytes → Prop) (R : Nat → Prop) (tx : AmTransmitter) (a s : Nat) : Prop where
  vtA : tx.m_vtA.Stands a a
  vtS : tx.m_vtS.Stands a s
  vtMs : tx.m_vtMs.Stands a (a + 512)
  le : a ≤ s
  le_window : s ≤ a + 512
  txed : Ring P tx.m_txedBuffer tx.m_txedBufferSize a s
  retx : Ring P tx.m_retxBuffer tx.m_retxBufferSize a s
  apart : Apart tx.m_txedBuffer tx.m_retxBuffer
  queued : ∀ sdu ∈ tx.m_txonBuffer, Queued sdu
  txon : tx.m_txonBufferSize = totalSize tx.m_txonBuffer % 2 ^ 32
  kept : ∀ y, y < s → R y ∨ a ≤ y ∧ tx.Holds y

variable {R : Nat → Prop} {tx tx' : AmTransmitter}

/-- Only what belongs to polling is different. -/
def Polled (tx tx' : AmTransmitter) : Prop :=
  tx' = { tx with
    m_pollSn := tx'.m_pollSn
    m_pduWithoutPoll := tx'.m_pduWithoutPoll
    m_byteWithoutPoll := tx'.m_byteWithoutPoll
    m_pollRetransmitTimer := tx'.m_pollRetransmitTimer
    m_pollRetransmitTimerJustExpired := tx'.m_pollRetransmitTimerJustExpired }

theorem SendState.polled (hs : SendState P R tx a s) (h : Polled tx tx') : SendState P R tx' a s := by
  rw [h]
  exact ⟨hs.vtA, hs.vtS, hs.vtMs, hs.le, hs.le_window, hs.txed, hs.retx, hs.apart, hs.queued, hs.txon, hs.kept⟩

theorem SendState.transmitPdcpPdu (hs : SendState P R tx a s) {p : Bytes} (hp : 0 < p.length) :
    SendState P R (tx.transmitPdcpPdu p) a s := by
  rw [AmTransmitter.transmitPdcpPdu]
  split
  · refine ⟨hs.vtA, hs.vtS, hs.vtMs, hs.le, hs.le_window, hs.txed, hs.retx, hs.apart, fun sdu hsdu => ?_, ?_, hs.kept⟩
    · rcases List.mem_append.mp hsdu with hsdu | hsdu
      · exact hs.queued sdu hsdu
      · rw [List.mem_singleton.mp hsdu]
        exact ⟨hp, .inl rfl⟩
    · show add32 tx.m_txonBufferSize p.length = totalSize (tx.m_txonBuffer ++ [⟨p, .fullSdu⟩]) % 2 ^ 32
      rw [totalSize_append, hs.txon, add32, Nat.mod_add_mod]
      rfl
  · exact hs

/-! ### A transmit opportunity -/

theorem pollWhen_eq (header : LteRlcAmHeader) (needed : Bool) (hvtS : tx.m_vtS.Stands a s)
    (hvtMs : tx.m_vtMs.Stands a (a + 512)) (hs : a ≤ s) (hs' : s ≤ a + 512) :
    ∃ bit tx', tx.pollWhen needed header = some (header.setPollingBit bit, tx') ∧ bit.toNat < 2 ∧ Polled tx tx' := by
  rw [pollWhen]
  split
  · exact ⟨statusReportIsRequested, _, rfl, by decide, rfl⟩
  · rw [hvtS.ge_eq hvtMs hs (by omega) (by omega) (by omega), Option.map_some]
    split
    · exact ⟨statusReportIsRequested, _, rfl, by decide, rfl⟩
    · exact ⟨statusReportNotRequested, tx, rfl, by decide, rfl⟩

/-- What is added to a header that is longer than the space that was made for it is written over the packet. -/
theorem addHeader_length {size : Nat} {header packet packet' : Bytes} (h : addHeader size header packet = some packet') :
    packet'.length = size + packet.length := by
  rw [addHeader] at h
  split at h
  · rw [← Option.some.inj h, List.length_append, List.length_drop, List.length_append, List.length_replicate]
    omega
  · cases h

/-- The length of a header with `n` length indicators, which has 16 bits. -/
def headerSize (n : Nat) : Nat := (4 + fieldsSize n) % 2 ^ 16

/-- A PDU as it is retransmitted, with a polling bit of its own. -/
def Repolled (header : LteRlcAmHeader) (n : Nat) (pdu packet : Bytes) : Prop :=
  ∃ bit bytes, bit.toNat < 2 ∧ ((header.received n).setPollingBit bit).serialize = some bytes ∧
    addHeader (headerSize n) bytes (pdu.drop (headerSize n)) = some packet

variable {header : LteRlcAmHeader} {n : Nat} {bytes tail : Bytes}

/-- The header fits into the PDU. -/
theorem headerSize_le (hbuilt : header.Built n) (hserialize : header.serialize = some bytes) (tail : Bytes) :
    headerSize n ≤ (bytes ++ tail).length := by
  obtain ⟨bytes', hserialize', hlength, -⟩ := hbuilt.deserialize
  obtain rfl := Option.some.inj (hserialize.symm.trans hserialize')
  rw [List.length_append, hlength]
  exact (Nat.mod_le _ _).trans (Nat.le_add_right _ _)

theorem Repolled.length (hbuilt : header.Built n) (hserialize : header.serialize = some bytes) {packet : Bytes}
    (h : Repolled header n (bytes ++ tail) packet) : packet.length = (bytes ++ tail).length := by
  obtain ⟨bit, bytes', -, -, hadd⟩ := h
  have hle := headerSize_le hbuilt hserialize tail
  rw [addHeader_length hadd, List.length_drop]
  omega

/-- A PDU moves back to the transmitted buffer. -/
theorem SendState.moveToTxed (hs : SendState P R tx a s) (hy : a ≤ y) (hy' : y < s)
    (hpdu : tx.m_retxBuffer[y % 1024]? = some (some pdu)) :
    SendState P R { tx with
      m_txedBuffer := tx.m_txedBuffer.set (y % 1024) (some pdu)
      m_txedBufferSize := add32 tx.m_txedBufferSize pdu.length
      m_retxBuffer := tx.m_retxBuffer.set (y % 1024) none
      m_retxBufferSize := sub32 tx.m_retxBufferSize pdu.length } a s := by
  have hwindow := hs.le_window
  obtain ⟨slot, hslot⟩ := hs.txed.getElem?_eq y
  have hempty : slot = none := by
    cases slot with
    | none => rfl
    | some pdu' => exact absurd hpdu (hs.apart _ _ _ hslot)
  subst hempty
  have hP := (hs.retx.number hpdu hy (by omega) (by omega)).2
  refine ⟨hs.vtA, hs.vtS, hs.vtMs, hs.le, hs.le_window, hs.txed.put hy hy' hslot hP, hs.retx.take hpdu, ?_, hs.queued,
    hs.txon, fun z hz => (hs.kept z hz).imp_right fun hholds => ⟨hholds.1, ?_⟩⟩
  · refine Apart.put hs.apart.symm.take.symm ?_
    rw [List.getElem?_set_self (List.getElem?_eq_some_iff.mp hpdu).1]
  · exact hholds.2.move (List.getElem?_eq_some_iff.mp hslot).1

/-- A PDU is retransmitted, if it fits. -/
theorem SendState.retransmit (hs : SendState P R tx a s) (hy : a ≤ y) (hy' : y < s) (hbuilt : header.Built n)
    (hserialize : header.serialize = some bytes) (hpdu : tx.m_retxBuffer[y % 1024]? = some (some (bytes ++ tail)))
    (txBytes : Nat) :
    ∃ packet tx', tx.retransmit txBytes (y % 1024) (bytes ++ tail) = some (packet, tx') ∧ SendState P R tx' a s ∧
      tx'.m_txonBuffer = tx.m_txonBuffer ∧ ∀ p, packet = some p → Repolled header n (bytes ++ tail) p ∧
        ((bytes ++ tail).length ≤ txBytes ∨ tx.m_txOpportunityForRetxAlwaysBigEnough = true) := by
  rw [AmTransmitter.retransmit]
  by_cases hfits : (bytes ++ tail).length ≤ txBytes ∨ tx.m_txOpportunityForRetxAlwaysBigEnough = true
  · obtain ⟨bytes', hserialize', -, hread⟩ := hbuilt.deserialize
    obtain rfl := Option.some.inj (hserialize.symm.trans hserialize')
    have hsize : (header.received n).getSerializedSize = headerSize n := UInt16.toNat_ofNat'
    obtain ⟨bit, tx₁, hpoll, hbit, hpolled⟩ := pollWhen_eq (header.received n)
      (tx.m_txonBuffer.isEmpty && decide (tx.m_retxBufferSize =
        add32 ((bytes ++ tail).drop (headerSize n)).length (headerSize n))) hs.vtS hs.vtMs hs.le hs.le_window
    obtain ⟨bytes₁, hserialize₁, hlength₁, -⟩ := (hbuilt.received.setPollingBit hbit).deserialize
    obtain ⟨bytes₀, hserialize₀, hlength₀, -⟩ := hbuilt.deserialize
    obtain rfl := Option.some.inj (hserialize.symm.trans hserialize₀)
    have hle := headerSize_le hbuilt hserialize tail
    have hadd : ∃ packet, addHeader (headerSize n) bytes₁ ((bytes ++ tail).drop (headerSize n)) = some packet := by
      refine ⟨_, if_pos ?_⟩
      rw [List.length_drop, hlength₁, ← hlength₀]
      have htotal : (bytes ++ tail).length = bytes.length + tail.length := List.length_append
      omega
    obtain ⟨packet, hadd⟩ := hadd
    have hs₁ := hs.polled hpolled
    have hpdu₁ : tx₁.m_retxBuffer[y % 1024]? = some (some (bytes ++ tail)) := by
      rw [hpolled]
      exact hpdu
    have htxon : tx₁.m_txonBuffer = tx.m_txonBuffer := by rw [hpolled]
    refine ⟨some packet, _, ?_, hs₁.moveToTxed hy hy' hpdu₁, htxon, fun p hp => ?_⟩
    · rw [if_pos hfits, hread, Option.bind_some]
      show Option.bind (pollWhen _ _ tx) _ = _
      rw [hsize, hpoll, Option.bind_some]
      show Option.bind ((header.received n).setPollingBit bit).serialize _ = _
      rw [hserialize₁, Option.bind_some]
      show Option.map _ (addHeader (header.received n).getSerializedSize bytes₁ _) = _
      rw [hsize, hadd, Option.map_some]
    · obtain rfl := Option.some.inj hp
      exact ⟨⟨bit, bytes₁, hbit, hserialize₁, hadd⟩, hfits⟩
  · rw [if_neg hfits]
    exact ⟨none, tx, rfl, hs, rfl, nofun⟩

/-- The search finds the first PDU of the retransmission buffer. -/
theorem SendState.rounds_retxTurn (hs : SendState P R tx a s) (hsize : 0 < tx.m_retxBufferSize) :
    ∃ found, rounds tx.retxTurn 512 tx.m_vtA = some found ∧
      ∃ y pdu, found = some (y % 1024, pdu) ∧ a ≤ y ∧ y < s ∧ tx.m_retxBuffer[y % 1024]? = some (some pdu) := by
  have hwindow := hs.le_window
  obtain ⟨i, last, hlast⟩ := exists_of_slotSum_pos
    (show 0 < slotSum tx.m_retxBuffer by rw [hs.retx.size_eq] at hsize; omega)
  obtain ⟨z, hz, hz', rfl, -⟩ := hs.retx.within i last hlast
  refine rounds_of_rank (I := fun k n => ∃ m, n.Stands a m ∧ a ≤ m ∧ m + k = z) ?_
    ⟨a, hs.vtA, Nat.le_refl _, Nat.add_sub_of_le hz⟩ (by omega)
  rintro k n ⟨m, hn, hm, hrank⟩
  rw [retxTurn, hn.lt_eq hs.vtS hm (by omega) hs.le (by omega), Option.bind_some,
    if_pos (decide_eq_true (show m < s by omega)), hn.value]
  obtain ⟨slot, hslot⟩ := hs.retx.getElem?_eq m
  rw [hslot, Option.map_some]
  cases slot with
  | some pdu => exact ⟨_, rfl, m, pdu, rfl, hm, by omega, hslot⟩
  | none =>
    have hne : m ≠ z := by
      rintro rfl
      cases Option.some.inj (hslot.symm.trans hlast)
    exact ⟨_, rfl, k - 1, by omega, m + 1, hn.incr, by omega, by omega⟩

theorem SendState.vtA_lt_vtS (hs : SendState P R tx a s) : tx.m_vtA.lt tx.m_vtS = some (decide (a < s)) :=
  hs.vtA.lt_eq hs.vtS (Nat.le_refl _) (by omega) hs.le (by have := hs.le_window; omega)

/-- Something is found to retransmit. -/
theorem SendState.sendRetx (hs : SendState P R tx a s)
    (hP : ∀ y pdu, P y pdu → ∃ header n bytes tail, LteRlcAmHeader.Built header n ∧ header.serialize = some bytes ∧
      pdu = bytes ++ tail)
    (hsize : 0 < tx.m_retxBufferSize) (txBytes : Nat) :
    ∃ packet tx', tx.sendRetx 512 txBytes = some (packet, tx') ∧ SendState P R tx' a s ∧
      tx'.m_txonBuffer = tx.m_txonBuffer ∧ ∀ p, packet = some p → ∃ y header n bytes tail, P y (bytes ++ tail) ∧ header.Built n ∧
        header.serialize = some bytes ∧ Repolled header n (bytes ++ tail) p ∧
        ((bytes ++ tail).length ≤ txBytes ∨ tx.m_txOpportunityForRetxAlwaysBigEnough = true) := by
  have hwindow := hs.le_window
  obtain ⟨found, hfound, y, pdu, rfl, hy, hy', hpdu⟩ := hs.rounds_retxTurn hsize
  have hPy := (hs.retx.number hpdu hy (by omega) (by omega)).2
  obtain ⟨header, n, bytes, tail, hbuilt, hserialize, rfl⟩ := hP y pdu hPy
  obtain ⟨packet, tx', hretransmit, hs', htxon, hpacket⟩ := hs.retransmit hy hy' hbuilt hserialize hpdu txBytes
  refine ⟨packet, tx', ?_, hs', htxon, fun p hp => ?_⟩
  · rw [AmTransmitter.sendRetx, hs.vtA_lt_vtS, Option.bind_some,
      if_pos (decide_eq_true (show a < s by omega)), hfound, Option.bind_some, Option.bind_some]
    exact hretransmit
  · obtain ⟨hrepolled, hfits⟩ := hpacket p hp
    exact ⟨y, header, n, bytes, tail, hPy, hbuilt, hserialize, hrepolled, hfits⟩

/-! ### A new PDU -/

theorem pushExtensionBits (bits : List UInt8) (h : LteRlcAmHeader)
    (hlength : h.m_headerLength = UInt16.ofNat (4 + fieldsSize (h.m_extensionBits.length - 1))) :
    bits.foldl (fun h bit => h.pushExtensionBit bit) h =
      { h with
        m_extensionBits := h.m_extensionBits ++ bits
        m_headerLength := UInt16.ofNat (4 + fieldsSize ((h.m_extensionBits ++ bits).length - 1)) } := by
  induction bits generalizing h with
  | nil =>
    rw [List.append_nil, ← hlength]
    rfl
  | cons bit bits ih =>
    have hpush : (h.pushExtensionBit bit).m_headerLength =
        UInt16.ofNat (4 + fieldsSize ((h.m_extensionBits ++ [bit]).length - 1)) := by
      show (if 1 < (h.m_extensionBits ++ [bit]).length then h.m_headerLength + fieldLength (h.m_extensionBits ++ [bit])
        else h.m_headerLength) = _
      rw [hlength, fieldLength, List.length_append, List.length_singleton, Nat.add_sub_cancel]
      by_cases hempty : h.m_extensionBits.length = 0
      · rw [if_neg (by omega), hempty]
      · rw [if_pos (by omega), fieldsSize_succ h.m_extensionBits.length (by omega), ← Nat.add_assoc]
        split <;> exact (UInt16.ofNat_add _ _).symm
    rw [List.foldl_cons, ih _ hpush]
    show LteRlcAmHeader.mk _ _ _ _ _ _ _ _ ((h.m_extensionBits ++ [bit]) ++ bits) _ _ _ _ = _
    rw [List.append_assoc]
    show LteRlcAmHeader.mk (UInt16.ofNat (4 + fieldsSize (((h.m_extensionBits ++ [bit]) ++ bits).length - 1))) _ _ _ _ _ _
      _ _ _ _ _ _ = _
    rw [List.append_assoc]
    rfl

theorem pushLengthIndicators (lis : List UInt16) (h : LteRlcAmHeader) :
    lis.foldl (fun h li => h.pushLengthIndicator li) h = { h with m_lengthIndicators := h.m_lengthIndicators ++ lis } := by
  induction lis generalizing h with
  | nil => rw [List.append_nil]; rfl
  | cons li lis ih =>
    rw [List.foldl_cons, ih]
    show LteRlcAmHeader.mk _ _ _ _ _ _ _ _ _ ((h.m_lengthIndicators ++ [li]) ++ lis) _ _ _ = _
    rw [List.append_assoc]
    rfl

/-- The header of a data field. -/
def dataHeader (n : Nat) (lengthIndicators : List UInt16) (sn : SequenceNumber10) (framingInfo : UInt8) :
    LteRlcAmHeader :=
  { m_headerLength := UInt16.ofNat (4 + fieldsSize n)
    m_dataControlBit := dataPdu
    m_resegmentationFlag := wholePdu
    m_framingInfo := framingInfo &&& 0x03
    m_sequenceNumber := sn
    m_lastSegmentFlag := lastPduSegment
    m_segmentOffset := 0
    m_extensionBits := extensionBitsOf n
    m_lengthIndicators := lengthIndicators }

theorem newHeader_eq {filled : Filled} {whole : List Sdu} {sdu : Sdu} {rest : List Sdu}
    (htaken : Taken filled whole sdu rest) (sn : SequenceNumber10) (framingInfo : UInt8) :
    ((newHeader filled).setSequenceNumber sn).setFramingInfo framingInfo =
      dataHeader whole.length filled.lengthIndicators sn framingInfo := by
  have hbits : (extensionBitsOf whole.length).length - 1 = whole.length := by
    rw [extensionBitsOf, List.length_append, List.length_replicate]
    rfl
  rw [newHeader, htaken.extensionBits, pushExtensionBits _ _ rfl, pushLengthIndicators]
  show LteRlcAmHeader.mk (UInt16.ofNat (4 + fieldsSize (([] ++ extensionBitsOf whole.length).length - 1))) _ _ _ _ _ _ _
    ([] ++ extensionBitsOf whole.length) ([] ++ filled.lengthIndicators) _ _ _ = _
  rw [List.nil_append, List.nil_append, hbits]
  rfl

theorem dataHeader_built {filled : Filled} {whole : List Sdu} {sdu : Sdu} {rest : List Sdu}
    (htaken : Taken filled whole sdu rest) {sn : SequenceNumber10} (hsn : sn.m_value < 1024) (framingInfo : UInt8)
    {bit : UInt8} (hbit : bit.toNat < 2) :
    ((dataHeader whole.length filled.lengthIndicators sn framingInfo).setPollingBit bit).Built whole.length where
  dataControlBit := rfl
  resegmentationFlag := show wholePdu.toNat < 2 by decide
  pollingBit := Nat.lt_of_le_of_lt Nat.and_le_left hbit
  framingInfo := Nat.lt_of_le_of_lt (Nat.and_le_right (n := framingInfo.toNat) (m := 3)) (by decide)
  sequenceNumber := hsn
  lastSegmentFlag := show lastPduSegment.toNat < 2 by decide
  segmentOffset := rfl
  extensionBits := rfl
  lengthIndicators := by
    show filled.lengthIndicators.length = _
    rw [htaken.lengthIndicators, List.length_map]
  fits := by
    show Fits filled.lengthIndicators
    rw [htaken.lengthIndicators]
    intro li hli
    obtain ⟨sdu, hsdu, rfl⟩ := List.mem_map.mp hli
    have hle := htaken.fits sdu hsdu
    rw [UInt16.toNat_ofNat']
    omega

/-- The PDU of a data field: its header, which has the length that was counted in 16 bits, and the packet. -/
def Sent (n : Nat) (lengthIndicators : List UInt16) (dataField : List Sdu) (sn : SequenceNumber10) (packet : Bytes) :
    Prop :=
  ∃ first last bit bytes, dataField.head? = some first ∧ dataField.getLast? = some last ∧ bit.toNat < 2 ∧
    ((dataHeader n lengthIndicators sn (framingInfo first last)).setPollingBit bit).serialize = some bytes ∧
    addHeader (headerSize n) bytes (joined dataField) = some packet

/-- What was filled is sent, and the window has room for it. -/
theorem SendState.sendFilled (hs : SendState P R tx a s) (hroom : s < a + 512) {filled : Filled} {whole : List Sdu}
    {sdu : Sdu} {rest : List Sdu} (htaken : Taken filled whole sdu rest) (hqueued : ∀ s ∈ filled.txBuffer, Queued s)
    (hsize : filled.txBufferSize = totalSize filled.txBuffer % 2 ^ 32)
    (hspace : 4 + fieldsSize whole.length ≤ headerSize whole.length + totalSize filled.dataField) :
    ∃ packet tx', tx.sendFilled filled = some (some packet, tx') ∧
      Sent whole.length filled.lengthIndicators filled.dataField tx.m_vtS packet ∧
      tx'.m_txonBuffer = filled.txBuffer ∧ (P s packet → SendState P R tx' a (s + 1)) := by
  have hne := htaken.dataField_ne_nil
  obtain ⟨first, hfirst⟩ := Option.isSome_iff_exists.mp (List.isSome_head?.mpr hne)
  obtain ⟨last, hlast⟩ : ∃ last, filled.dataField.getLast? = some last :=
    ⟨_, List.getLast?_eq_some_getLast hne⟩
  have hsn : tx.m_vtS.m_value < 1024 := by
    rw [hs.vtS.value]
    exact Nat.mod_lt _ (by decide)
  -- the state before the poll is calculated
  have hs₁ : ∀ pduWithoutPoll byteWithoutPoll, SendState P (fun y => R y ∨ y = s) { tx with
      m_txonBuffer := filled.txBuffer
      m_txonBufferSize := filled.txBufferSize
      m_vtS := tx.m_vtS.incr
      m_pduWithoutPoll := pduWithoutPoll
      m_byteWithoutPoll := byteWithoutPoll } a (s + 1) := fun _ _ =>
    ⟨hs.vtA, hs.vtS.incr, hs.vtMs, Nat.le_succ_of_le hs.le, hroom, hs.txed.mono (Nat.le_succ s) fun _ _ h => h,
      hs.retx.mono (Nat.le_succ s) fun _ _ h => h, hs.apart, hqueued, hsize, fun y hy => by
        by_cases heq : y = s
        · exact .inl (.inr heq)
        · exact (hs.kept y (by omega)).imp_left .inl⟩
  have hs₁ := hs₁ (add32 tx.m_pduWithoutPoll 1) (add32 tx.m_byteWithoutPoll (joined filled.dataField).length)
  obtain ⟨bit, tx₂, hpoll, hbit, hpolled⟩ := pollWhen_eq
    (dataHeader whole.length filled.lengthIndicators tx.m_vtS (framingInfo first last))
    (decide (tx.m_pollPdu ≤ add32 tx.m_pduWithoutPoll 1 ∨
      tx.m_pollByte ≤ add32 tx.m_byteWithoutPoll (joined filled.dataField).length ∨
      filled.txBuffer = [] ∧ tx.m_retxBufferSize = 0)) hs₁.vtS hs₁.vtMs hs₁.le hs₁.le_window
  obtain ⟨bytes, hserialize, hlength, -⟩ := (dataHeader_built htaken hsn (framingInfo first last) hbit).deserialize
  obtain ⟨packet, hadd⟩ : ∃ packet, addHeader (headerSize whole.length) bytes (joined filled.dataField) = some packet :=
    ⟨_, if_pos (by rw [hlength, joined_length]; exact hspace)⟩
  have hs₂ := hs₁.polled hpolled
  have htxed : tx₂.m_txedBuffer = tx.m_txedBuffer := by rw [hpolled]
  have hretx : tx₂.m_retxBuffer = tx.m_retxBuffer := by rw [hpolled]
  have hplace : tx.m_vtS.m_value < tx₂.m_txedBuffer.length := by
    rw [hs₂.txed.length]
    exact hsn
  refine ⟨packet, { tx₂ with
      m_txedBuffer := tx₂.m_txedBuffer.set tx.m_vtS.m_value (some packet)
      m_txedBufferSize := add32 tx₂.m_txedBufferSize packet.length }, ?_,
    ⟨first, last, bit, bytes, hfirst, hlast, hbit, hserialize, hadd⟩, ?_, fun hP => ?_⟩
  · rw [AmTransmitter.sendFilled]
    show Option.bind (tx.m_vtS.lt tx.m_vtMs) _ = _
    rw [hs.vtS.lt_eq hs.vtMs hs.le (by omega) (by omega) (by omega), decide_eq_true hroom, Option.bind_some]
    show Option.bind (tx.m_vtS.ge tx.m_vtA) _ = _
    rw [hs.vtS.ge_eq hs.vtA hs.le (by omega) (Nat.le_refl _) (by omega), decide_eq_true hs.le, Option.bind_some,
      if_pos ⟨rfl, rfl⟩, hfirst, Option.bind_some, hlast, Option.bind_some, newHeader_eq htaken]
    show Option.bind (pollWhen _ _ _) _ = _
    rw [hpoll, Option.bind_some]
    show Option.bind (LteRlcAmHeader.setPollingBit bit _).serialize _ = _
    rw [hserialize, Option.bind_some]
    show Option.bind (addHeader (UInt16.ofNat (4 + fieldsSize whole.length)).toNat bytes _) _ = _
    rw [UInt16.toNat_ofNat']
    show Option.bind (addHeader (headerSize whole.length) bytes _) _ = _
    rw [hadd, Option.bind_some]
    exact if_pos hplace
  · show tx₂.m_txonBuffer = _
    rw [hpolled]
  · have hempty := hs.txed.none_of_not_within (Nat.le_refl s) (by omega)
    have hempty' := hs.retx.none_of_not_within (Nat.le_refl s) (by omega)
    rw [← htxed] at hempty
    rw [← hretx] at hempty'
    rw [hs.vtS.value]
    have hlt := (List.getElem?_eq_some_iff.mp hempty).1
    refine ⟨hs₂.vtA, hs₂.vtS, hs₂.vtMs, hs₂.le, hs₂.le_window, hs₂.txed.put hs.le (Nat.lt_succ_self s) hempty hP, hs₂.retx,
      hs₂.apart.put hempty', hs₂.queued, hs₂.txon, fun y hy => ?_⟩
    rcases hs₂.kept y hy with (hR | rfl) | hholds
    · exact .inl hR
    · exact .inr ⟨hs.le, packet, .inl (List.getElem?_set_self hlt)⟩
    · exact .inr ⟨hholds.1, hholds.2.put hlt⟩

/-- A header of the length that was counted fits in front of what was taken. -/
def HasSpace (txBuffer : List Sdu) : Prop :=
  ∀ whole sdu rest filled, txBuffer = whole ++ sdu :: rest → Taken filled whole sdu rest →
    4 + fieldsSize whole.length ≤ headerSize whole.length + totalSize filled.dataField

/-- A new PDU that was sent: what it took from the buffer fits with its header into the opportunity. -/
def SentNew (P : Nat → Bytes → Prop) (R : Nat → Prop) (tx tx' : AmTransmitter) (a s txBytes : Nat) (packet : Bytes) : Prop :=
  ∃ whole sdu rest filled, tx.m_txonBuffer = whole ++ sdu :: rest ∧ Taken filled whole sdu rest ∧
    4 + fieldsSize whole.length + totalSize filled.dataField ≤ txBytes ∧
    Sent whole.length filled.lengthIndicators filled.dataField tx.m_vtS packet ∧
    tx'.m_txonBuffer = filled.txBuffer ∧ (P s packet → SendState P R tx' a (s + 1))

/-- A new PDU is sent, unless the window is at its end, or nothing is there to send. -/
theorem SendState.sendTxon (hs : SendState P R tx a s) (hspace : HasSpace tx.m_txonBuffer) {txBytes : Nat}
    (hbytes : 7 ≤ txBytes) :
    ∃ packet tx', tx.sendTxon txBytes = some (packet, tx') ∧
      (packet = none ∧ tx' = tx ∨ s < a + 512 ∧ ∃ p, packet = some p ∧ SentNew P R tx tx' a s txBytes p) := by
  have hwindow := hs.le_window
  have hvalue : tx.m_vtS.m_value = tx.m_vtMs.m_value ↔ s = a + 512 := by
    have hle := hs.le
    rw [hs.vtS.value, hs.vtMs.value]
    omega
  rw [AmTransmitter.sendTxon, if_pos hbytes, hs.vtS.le_eq hs.vtMs hs.le (by omega) (by omega) (by omega),
    Option.bind_some, if_pos (decide_eq_true hs.le_window)]
  by_cases hstall : s = a + 512
  · rw [if_pos (hvalue.mpr hstall)]
    exact ⟨none, tx, rfl, .inl ⟨rfl, rfl⟩⟩
  · rw [if_neg (mt hvalue.mp hstall)]
    have hqueued := hs.queued
    have htxon := hs.txon
    have hspace := hspace
    cases hbuffer : tx.m_txonBuffer with
    | nil => exact ⟨none, tx, rfl, .inl ⟨rfl, rfl⟩⟩
    | cons first txBuffer =>
      rw [hbuffer] at hqueued htxon hspace
      obtain ⟨whole, sdu, rest, hsplit, htaken, hle, hsize⟩ := fill_taken first (txBytes - 4) 1
        (sub32 tx.m_txonBufferSize first.bytes.length) txBuffer hqueued (by omega)
      have hmem : ∀ s ∈ sdu :: rest, Queued s := fun s hs =>
        hqueued s (by rw [hsplit]; exact List.mem_append_right _ hs)
      obtain ⟨packet, tx', hsend, hsent, htxon', hs'⟩ := hs.sendFilled (by omega) htaken
        (htaken.queued (hmem sdu List.mem_cons_self) fun s hs => hmem s (List.mem_cons_of_mem _ hs))
        (hsize (by rw [htxon, totalSize_cons, sub32]; omega))
        (hspace whole sdu rest _ hsplit htaken)
      refine ⟨some packet, tx', hsend, .inr ⟨by omega, packet, rfl, whole, sdu, rest, _, hbuffer.trans hsplit, htaken,
        ?_, hsent, htxon', hs'⟩⟩
      rw [fieldsSize]
      rw [indicatorsSize, if_pos rfl] at hle
      omega

/-- The opportunity is used. -/
theorem SendState.notifyTxOpportunity (hs : SendState P R tx a s) (hspace : HasSpace tx.m_txonBuffer)
    (hP : ∀ y pdu, P y pdu → ∃ header n bytes tail, LteRlcAmHeader.Built header n ∧ header.serialize = some bytes ∧
      pdu = bytes ++ tail)
    {txBytes : Nat} (hbytes : 7 ≤ txBytes) :
    ∃ packet tx', tx.notifyTxOpportunity 512 txBytes = some (packet, tx') ∧
      (packet = none ∧ SendState P R tx' a s ∧ tx'.m_txonBuffer = tx.m_txonBuffer ∨
        ∃ p, packet = some p ∧
          ((SendState P R tx' a s ∧ tx'.m_txonBuffer = tx.m_txonBuffer ∧
            ∃ y header n bytes tail, P y (bytes ++ tail) ∧ header.Built n ∧ header.serialize = some bytes ∧
              Repolled header n (bytes ++ tail) p ∧
              ((bytes ++ tail).length ≤ txBytes ∨ tx.m_txOpportunityForRetxAlwaysBigEnough = true)) ∨
            s < a + 512 ∧ SentNew P R tx tx' a s txBytes p)) := by
  rw [AmTransmitter.notifyTxOpportunity]
  by_cases hretx : 0 < tx.m_retxBufferSize
  · obtain ⟨packet, tx', hsend, hs', htxon, hpacket⟩ := hs.sendRetx hP hretx txBytes
    rw [if_pos hretx, hsend]
    cases packet with
    | none => exact ⟨none, tx', rfl, .inl ⟨rfl, hs', htxon⟩⟩
    | some p => exact ⟨some p, tx', rfl, .inr ⟨p, rfl, .inl ⟨hs', htxon, hpacket p rfl⟩⟩⟩
  · rw [if_neg hretx]
    by_cases htxon : 0 < tx.m_txonBufferSize
    · obtain ⟨packet, tx', hsend, hnew⟩ := hs.sendTxon hspace hbytes
      rw [if_pos htxon, hsend]
      rcases hnew with ⟨rfl, rfl⟩ | ⟨hroom, p, rfl, hnew⟩
      · exact ⟨none, tx', rfl, .inl ⟨rfl, hs, rfl⟩⟩
      · exact ⟨some p, tx', rfl, .inr ⟨p, rfl, .inr ⟨hroom, hnew⟩⟩⟩
    · rw [if_neg htxon]
      exact ⟨none, tx, rfl, .inl ⟨rfl, hs, rfl⟩⟩

/-! ### The poll retransmit timer -/

/-- A PDU moves to the retransmission buffer. -/
theorem SendState.moveToRetx (hs : SendState P R tx a s) (hy : a ≤ y) (hy' : y < s)
    (hpdu : tx.m_txedBuffer[y % 1024]? = some (some pdu)) : SendState P R (tx.moveToRetx (y % 1024) pdu) a s := by
  have hwindow := hs.le_window
  obtain ⟨slot, hslot⟩ := hs.retx.getElem?_eq y
  have hempty : slot = none := by
    cases slot with
    | none => rfl
    | some pdu' => exact absurd hslot (hs.apart _ _ _ hpdu)
  subst hempty
  have hP := (hs.txed.number hpdu hy (by omega) (by omega)).2
  refine ⟨hs.vtA, hs.vtS, hs.vtMs, hs.le, hs.le_window, hs.txed.take hpdu, hs.retx.put hy hy' hslot hP, ?_, hs.queued,
    hs.txon, fun z hz => (hs.kept z hz).imp_right fun hholds => ⟨hholds.1, ?_⟩⟩
  · refine (Apart.put hs.apart.take.symm ?_).symm
    rw [List.getElem?_set_self (List.getElem?_eq_some_iff.mp hpdu).1]
  · exact (HoldsIn.move hholds.2.symm (List.getElem?_eq_some_iff.mp hslot).1).symm

theorem SendState.expirePollRetransmitTimer (hs : SendState P R tx a s) :
    ∃ tx', tx.expirePollRetransmitTimer 512 = some tx' ∧ SendState P R tx' a s ∧ tx'.m_txonBuffer = tx.m_txonBuffer := by
  have hle := hs.le
  have hwindow := hs.le_window
  have hs₁ : SendState P R { tx with m_pollRetransmitTimer := false, m_pollRetransmitTimerJustExpired := true } a s :=
    hs.polled rfl
  rw [AmTransmitter.expirePollRetransmitTimer]
  show ∃ tx', Option.bind (tx.m_vtS.le tx.m_vtMs) _ = some tx' ∧ _
  rw [hs.vtS.le_eq hs.vtMs hle (by omega) (by omega) (by omega), Option.bind_some, if_pos (decide_eq_true hwindow)]
  split
  · refine rounds_of_rank (I := fun k st => ∃ m, st.1.Stands a m ∧ a ≤ m ∧ m + k = s ∧ SendState P R st.2 a s ∧
      st.2.m_txonBuffer = tx.m_txonBuffer) ?_
      ⟨a, hs.vtA, Nat.le_refl _, Nat.add_sub_of_le hle, hs₁, rfl⟩ (by omega)
    rintro k ⟨n, tx₂⟩ ⟨m, hn, hm, hrank, hs₂, htxon⟩
    rw [expireTurn, hn.lt_eq hs₂.vtS hm (by omega) hle (by omega), Option.bind_some]
    by_cases hlt : m < s
    · rw [if_pos (decide_eq_true hlt), hn.value]
      obtain ⟨slot, hslot⟩ := hs₂.txed.getElem?_eq m
      rw [hslot, Option.map_some]
      cases slot with
      | some pdu =>
        exact ⟨_, rfl, k - 1, by omega, m + 1, hn.incr, by omega, by omega, hs₂.moveToRetx hm hlt hslot, htxon⟩
      | none => exact ⟨_, rfl, k - 1, by omega, m + 1, hn.incr, by omega, by omega, hs₂, htxon⟩
    · rw [if_neg (by rw [decide_eq_false hlt]; exact Bool.false_ne_true)]
      exact ⟨_, rfl, hs₂, htxon⟩
  · exact ⟨_, rfl, hs₁, rfl⟩

/-! ### A STATUS PDU -/

/-- A sequence number is NACKed. -/
def Nacked (header : LteRlcAmHeader) (y : Nat) : Prop := y % 1024 ∈ header.m_nackSnList

/-- The state of the loop: the numbers up to `m` have been looked at, of those below ACK_SN, which stands for `k`. -/
structure AckState (P : Nat → Bytes → Prop) (R : Nat → Prop) (header : LteRlcAmHeader) (st : Acking) (a m s k : Nat) :
    Prop where
  send : SendState P R st.tx a s
  sn : st.sn.Stands a m
  ackSn : st.ackSn.Stands a k
  low : a ≤ m
  high : m ≤ s
  ack_low : a ≤ k
  ack_high : k < a + 1024
  front : st.incrementVtA = true → m = a
  nacks : ∀ y, m ≤ y → y < s → y < k → Nacked header y → st.tx.Holds y
  acks : ∀ y, m ≤ y → y < s → y < k → ¬ Nacked header y → R y

theorem cancelPoll_polled (tx : AmTransmitter) (sn : Nat) : Polled tx (tx.cancelPoll sn) := by
  rw [cancelPoll]
  split <;> rfl

/-- The PDU of a NACKed number is in the retransmission buffer then. -/
theorem SendState.nack (hs : SendState P R tx a s) (hy : a ≤ y) (hy' : y < s) (hholds : tx.Holds y) :
    ∃ tx', tx.nack (y % 1024) = some tx' ∧ SendState P R tx' a s ∧ tx'.m_txonBuffer = tx.m_txonBuffer ∧
      ∀ z, tx.Holds z → tx'.Holds z := by
  obtain ⟨txed, htxed⟩ := hs.txed.getElem?_eq y
  obtain ⟨retx, hretx⟩ := hs.retx.getElem?_eq y
  rw [AmTransmitter.nack, htxed, Option.bind_some]
  cases txed with
  | some pdu =>
    have hlt := (List.getElem?_eq_some_iff.mp hretx).1
    refine ⟨tx.moveToRetx (y % 1024) pdu, ?_, hs.moveToRetx hy hy' htxed, rfl, fun z hz =>
      (HoldsIn.move hz.symm hlt).symm⟩
    show Option.bind ((tx.m_retxBuffer.set (y % 1024) (some pdu))[y % 1024]?) _ = _
    rw [List.getElem?_set_self hlt, Option.bind_some]
    rfl
  | none =>
    refine ⟨tx, ?_, hs, rfl, fun z hz => hz⟩
    show Option.bind (tx.m_retxBuffer[y % 1024]?) _ = _
    obtain ⟨pdu, hpdu | hpdu⟩ := hholds
    · cases Option.some.inj (htxed.symm.trans hpdu)
    · rw [hpdu, Option.bind_some]
      rfl

/-- An acknowledged number is in no ring then. -/
theorem SendState.ack (hs : SendState P R tx a s) (hy : a ≤ y) (hy' : y < s) (hR : R y) :
    ∃ tx', tx.ack (y % 1024) = some tx' ∧ SendState P R tx' a s ∧ tx'.m_txonBuffer = tx.m_txonBuffer ∧
      tx'.m_txedBuffer[y % 1024]? = some none ∧ tx'.m_retxBuffer[y % 1024]? = some none ∧
      ∀ z, a ≤ z → z < s → z ≠ y → tx.Holds z → tx'.Holds z := by
  have hwindow := hs.le_window
  obtain ⟨txed, htxed⟩ := hs.txed.getElem?_eq y
  obtain ⟨retx, hretx⟩ := hs.retx.getElem?_eq y
  have htxed_lt := (List.getElem?_eq_some_iff.mp htxed).1
  have hretx_lt := (List.getElem?_eq_some_iff.mp hretx).1
  have hne : ∀ z, a ≤ z → z < s → z ≠ y → y % 1024 ≠ z % 1024 := fun z _ _ _ => by omega
  -- what is not held any more is this number
  have hkept : ∀ {b b' : List (Option Bytes)}, (∀ z, a ≤ z → z < s → z ≠ y → tx.Holds z → HoldsIn b b' (z % 1024)) →
      ∀ z, z < s → R z ∨ a ≤ z ∧ HoldsIn b b' (z % 1024) := fun hsame z hz => by
    by_cases heq : z = y
    · exact .inl (heq ▸ hR)
    · exact (hs.kept z hz).imp_right fun hholds => ⟨hholds.1, hsame z hholds.1 hz heq hholds.2⟩
  rw [AmTransmitter.ack, htxed, hretx, Option.bind_some, Option.bind_some]
  cases txed with
  | some pdu =>
    cases retx with
    | some pdu' => exact absurd hretx (hs.apart _ _ _ htxed)
    | none =>
      have hsame : ∀ z, a ≤ z → z < s → z ≠ y → tx.Holds z →
          HoldsIn (tx.m_txedBuffer.set (y % 1024) none) tx.m_retxBuffer (z % 1024) := fun z hz hz' hzy hholds => by
        obtain ⟨pdu', hpdu'⟩ := hholds
        refine ⟨pdu', ?_⟩
        rw [List.getElem?_set_ne (hne z hz hz' hzy)]
        exact hpdu'
      exact ⟨_, rfl, ⟨hs.vtA, hs.vtS, hs.vtMs, hs.le, hs.le_window, hs.txed.take htxed, hs.retx, hs.apart.take, hs.queued,
        hs.txon, hkept hsame⟩, rfl, List.getElem?_set_self htxed_lt, hretx, hsame⟩
  | none =>
    cases retx with
    | some pdu =>
      have hsame : ∀ z, a ≤ z → z < s → z ≠ y → tx.Holds z →
          HoldsIn tx.m_txedBuffer (tx.m_retxBuffer.set (y % 1024) none) (z % 1024) := fun z hz hz' hzy hholds => by
        obtain ⟨pdu', hpdu'⟩ := hholds
        refine ⟨pdu', ?_⟩
        rw [List.getElem?_set_ne (hne z hz hz' hzy)]
        exact hpdu'
      exact ⟨_, rfl, ⟨hs.vtA, hs.vtS, hs.vtMs, hs.le, hs.le_window, hs.txed, hs.retx.take hretx, hs.apart.symm.take.symm,
        hs.queued, hs.txon, hkept hsame⟩, rfl, htxed, List.getElem?_set_self hretx_lt, hsame⟩
    | none => exact ⟨tx, rfl, hs, rfl, htxed, hretx, fun z _ _ _ hz => hz⟩

/-- VT(A) is one more. -/
theorem SendState.incrVtA (hs : SendState P R tx a s) (hlt : a < s) (htxed : tx.m_txedBuffer[a % 1024]? = some none)
    (hretx : tx.m_retxBuffer[a % 1024]? = some none) : SendState P R tx.incrVtA (a + 1) s := by
  have hwindow := hs.le_window
  have hvalue : tx.m_vtA.incr.m_value = (a + 1) % 1024 := hs.vtA.incr.value
  refine ⟨hs.vtA.incr.setModulusBase hvalue, hs.vtS.setModulusBase hvalue, ?_, hlt, by omega, hs.txed.next htxed,
    hs.retx.next hretx, hs.apart, hs.queued, hs.txon, fun y hy => ?_⟩
  · exact (hs.vtA.incr.add windowSize).setModulusBase hvalue
  · rcases hs.kept y hy with hR | ⟨hle, pdu, hpdu⟩
    · exact .inl hR
    · refine .inr ⟨Nat.lt_of_le_of_ne hle ?_, pdu, hpdu⟩
      rintro rfl
      rcases hpdu with hpdu | hpdu
      · cases Option.some.inj (htxed.symm.trans hpdu)
      · cases Option.some.inj (hretx.symm.trans hpdu)

/-- What is behind a number, when it has been looked at. -/
theorem AckState.next {st : Acking} {header : LteRlcAmHeader} {m k : Nat} (hst : AckState P R header st a m s k)
    (hms : m < s) (hmk : m < k) {tx₁ : AmTransmitter} {flag : Bool} (hs₁ : SendState P R tx₁ a s)
    (hholds : ∀ y, m < y → y < s → st.tx.Holds y → tx₁.Holds y)
    (hfront : flag = true → m = a ∧ tx₁.m_txedBuffer[a % 1024]? = some none ∧ tx₁.m_retxBuffer[a % 1024]? = some none) :
    ∃ a', AckState P R header ({ st with tx := tx₁, incrementVtA := flag } : Acking).next a' (m + 1) s k ∧ a ≤ a' ∧
      ({ st with tx := tx₁, incrementVtA := flag } : Acking).next.tx.m_txonBuffer = tx₁.m_txonBuffer := by
  have hnacks : ∀ y, m + 1 ≤ y → y < s → y < k → Nacked header y → tx₁.Holds y := fun y hy hy' hyk hnacked =>
    hholds y hy hy' (hst.nacks y (Nat.le_of_succ_le hy) hy' hyk hnacked)
  have hacks : ∀ y, m + 1 ≤ y → y < s → y < k → ¬ Nacked header y → R y := fun y hy hy' hyk =>
    hst.acks y (Nat.le_of_succ_le hy) hy' hyk
  have hhigh := hst.ack_high
  have hlow := hst.low
  cases flag with
  | true =>
    obtain ⟨rfl, htxed, hretx⟩ := hfront rfl
    have hs₂ := hs₁.incrVtA hms htxed hretx
    refine ⟨m + 1, ⟨hs₂, ?_, ?_, Nat.le_refl _, hms, hmk, by omega, fun _ => rfl, hnacks, hacks⟩, Nat.le_succ m, rfl⟩
    · exact (hst.sn.setModulusBase hs₂.vtA.value).incr
    · exact hst.ackSn.setModulusBase hs₂.vtA.value
  | false =>
    exact ⟨a, ⟨hs₁, hst.sn.incr, hst.ackSn, by omega, hms, by omega, hhigh, nofun, hnacks, hacks⟩, Nat.le_refl a, rfl⟩

/-- The loop ends at ACK_SN or VT(S), and VT(A) has followed it to the first number that is not acknowledged. -/
theorem AckState.rounds_ackTurn {st : Acking} {header : LteRlcAmHeader} {m k : Nat}
    (hst : AckState P R header st a m s k) :
    ∃ tx', rounds (ackTurn header) 512 st = some tx' ∧ ∃ a', a ≤ a' ∧ SendState P R tx' a' s ∧
      tx'.m_txonBuffer = st.tx.m_txonBuffer := by
  have hwindow := hst.send.le_window
  have hlow := hst.low
  refine rounds_of_rank (I := fun r st' => ∃ a' m', AckState P R header st' a' m' s k ∧ a ≤ a' ∧ m' + r = s ∧
    st'.tx.m_txonBuffer = st.tx.m_txonBuffer) ?_ ⟨a, m, hst, Nat.le_refl _, Nat.add_sub_of_le hst.high, rfl⟩ (by omega)
  rintro r st' ⟨a', m', hst', ha', hrank, htxon⟩
  have hsend := hst'.send
  have hlow' := hst'.low
  have hwindow' := hsend.le_window
  have hhigh' := hst'.high
  rw [ackTurn, hst'.sn.lt_eq hst'.ackSn hlow' (by omega) hst'.ack_low hst'.ack_high, Option.bind_some]
  by_cases hmk : m' < k
  · rw [if_pos (decide_eq_true hmk), hst'.sn.lt_eq hsend.vtS hlow' (by omega) hsend.le (by omega), Option.bind_some]
    by_cases hms : m' < s
    · rw [if_pos (decide_eq_true hms)]
      have hpolled := hsend.polled (cancelPoll_polled st'.tx st'.sn.m_value)
      have hsame : ∀ y, st'.tx.Holds y → (st'.tx.cancelPoll st'.sn.m_value).Holds y := fun y hy => by
        rw [cancelPoll_polled st'.tx st'.sn.m_value]
        exact hy
      have htxon' : (st'.tx.cancelPoll st'.sn.m_value).m_txonBuffer = st'.tx.m_txonBuffer := by
        rw [cancelPoll_polled st'.tx st'.sn.m_value]
      rw [hst'.sn.value] at hpolled hsame htxon'
      by_cases hnacked : header.isNackPresent st'.sn = true
      · have hnack : Nacked header m' := by
          have hmem := List.contains_iff_mem.mp hnacked
          rwa [hst'.sn.value] at hmem
        obtain ⟨tx₁, hnack₁, hs₁, htxon₁, hholds₁⟩ :=
          hpolled.nack hlow' hms (hsame m' (hst'.nacks m' (Nat.le_refl _) hms hmk hnack))
        obtain ⟨a₂, hst₂, ha₂, htxon₂⟩ := hst'.next hms hmk hs₁ (fun y _ _ hy => hholds₁ y (hsame y hy))
          (fun hfalse : false = true => absurd hfalse Bool.false_ne_true)
        rw [if_pos hnacked, hst'.sn.value, hnack₁, Option.map_some]
        exact ⟨_, rfl, r - 1, by omega, a₂, m' + 1, hst₂, ha'.trans ha₂, by omega,
          htxon₂.trans (htxon₁.trans (htxon'.trans htxon))⟩
      · have hack : ¬ Nacked header m' := fun hmem => hnacked (by
          rw [LteRlcAmHeader.isNackPresent, hst'.sn.value]
          exact List.contains_iff_mem.mpr hmem)
        obtain ⟨tx₁, hack₁, hs₁, htxon₁, htxed₁, hretx₁, hholds₁⟩ :=
          hpolled.ack hlow' hms (hst'.acks m' (Nat.le_refl _) hms hmk hack)
        obtain ⟨a₂, hst₂, ha₂, htxon₂⟩ := hst'.next hms hmk hs₁
          (fun y hy hy' hholds => hholds₁ y (by omega) hy' (by omega) (hsame y hholds))
          (fun hflag : st'.incrementVtA = true => by
            obtain rfl := hst'.front hflag
            exact ⟨rfl, htxed₁, hretx₁⟩)
        rw [if_neg hnacked, hst'.sn.value, hack₁, Option.map_some]
        exact ⟨_, rfl, r - 1, by omega, a₂, m' + 1, hst₂, ha'.trans ha₂, by omega,
          htxon₂.trans (htxon₁.trans (htxon'.trans htxon))⟩
    · rw [if_neg (by rw [decide_eq_false hms]; exact Bool.false_ne_true)]
      exact ⟨_, rfl, a', ha', hsend, htxon⟩
  · rw [if_neg (by rw [decide_eq_false hmk]; exact Bool.false_ne_true), Option.bind_some, if_neg Bool.false_ne_true]
    exact ⟨_, rfl, a', ha', hsend, htxon⟩

/-- A STATUS PDU whose ACK_SN stands for `k` is received. -/
theorem SendState.receiveStatus (hs : SendState P R tx a s) {header : LteRlcAmHeader} {k : Nat}
    (hack : header.m_ackSn.m_value = k % 1024) (hk : a ≤ k) (hk' : k < a + 1024)
    (hnacks : ∀ y, a ≤ y → y < s → y < k → Nacked header y → tx.Holds y)
    (hacks : ∀ y, a ≤ y → y < s → y < k → ¬ Nacked header y → R y) :
    ∃ tx', tx.receiveStatus 512 header = some tx' ∧ ∃ a', a ≤ a' ∧ SendState P R tx' a' s ∧
      tx'.m_txonBuffer = tx.m_txonBuffer := by
  have hbase := hs.vtA.setModulusBase_eq hs.vtA.value
  rw [AmTransmitter.receiveStatus, hbase, hs.vtS.setModulusBase_eq hs.vtA.value,
    hs.vtMs.setModulusBase_eq hs.vtA.value]
  have hst : AckState P R header ⟨tx.m_vtA, header.m_ackSn.setModulusBase tx.m_vtA, true, tx⟩ a a s k :=
    ⟨hs, hs.vtA, ⟨hack, hs.vtA.value⟩, Nat.le_refl a, hs.le, hk, hk', fun _ => rfl, hnacks, hacks⟩
  exact hst.rounds_ackTurn

end AmTransmitter

end Ns3.Lte
