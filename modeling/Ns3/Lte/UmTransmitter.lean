import Ns3.Lib.Segments
import Ns3.Lte.RlcRoundTrip

/-!
# The transmitting side of a UM RLC entity

What `LteRlcUm` of `src/lte/model/lte-rlc-um.cc` does with an SDU (84–123) and with a transmission opportunity (130–403).
The header of a PDU has an extension bit for each turn of the loop that fills the data field.

The buffer holds what is behind a mark in the SDUs that were accepted, and a PDU carries what is between two of them.
-/

namespace Ns3.Lte

open Ns3.Lib

/-- The transmitting side of `LteRlcUm`. -/
structure UmTransmitter where
  m_maxTxBufferSize : Nat := 10 * 1024
  m_txBuffer : List Sdu := []
  m_txBufferSize : Nat := 0
  m_sequenceNumber : SequenceNumber10 := {}
deriving DecidableEq, Repr

/-- The header of a UM PDU, but for its sequence number and its framing info. -/
def umHeader (filled : Filled) : LteRlcHeader :=
  filled.lengthIndicators.foldl (fun h li => h.pushLengthIndicator li)
    (filled.extensionBits.foldl (fun h bit => h.pushExtensionBit bit) {})

namespace UmTransmitter

/-- There is room in the transmission buffer for a packet. -/
def Accepts (p : Bytes) (tx : UmTransmitter) : Prop := add32 tx.m_txBufferSize p.length ≤ tx.m_maxTxBufferSize

instance (p : Bytes) (tx : UmTransmitter) : Decidable (tx.Accepts p) :=
  inferInstanceAs (Decidable (add32 tx.m_txBufferSize p.length ≤ tx.m_maxTxBufferSize))

/-- `DoTransmitPdcpPdu`. -/
def transmitPdcpPdu (p : Bytes) (tx : UmTransmitter) : UmTransmitter :=
  if tx.Accepts p then
    { tx with
      m_txBuffer := tx.m_txBuffer ++ [⟨p, .fullSdu⟩]
      m_txBufferSize := add32 tx.m_txBufferSize p.length }
  else tx

/-- The PDU is built from its data field. -/
def send (filled : Filled) (tx : UmTransmitter) : Option (Option Bytes × UmTransmitter) :=
  filled.dataField.head?.bind fun first =>
  filled.dataField.getLast?.bind fun last =>
  let header := ((umHeader filled).setSequenceNumber tx.m_sequenceNumber).setFramingInfo (framingInfo first last)
  header.serialize.bind fun bytes =>
  (addHeader header.getSerializedSize bytes (joined filled.dataField)).map fun packet =>
    (some packet, { tx with
      m_txBuffer := filled.txBuffer
      m_txBufferSize := filled.txBufferSize
      m_sequenceNumber := tx.m_sequenceNumber.incr })

/-- `DoNotifyTxOpportunity`. -/
def notifyTxOpportunity (bytes : Nat) (tx : UmTransmitter) : Option (Option Bytes × UmTransmitter) :=
  if bytes ≤ 2 then some (none, tx)
  else
    match tx.m_txBuffer with
    | [] => some (none, tx)
    | sdu :: txBuffer => tx.send (fill sdu (bytes - 2) 1 (sub32 tx.m_txBufferSize sdu.bytes.length) txBuffer)

end UmTransmitter

/-! ### The buffer at a mark -/

/-- What is behind the mark: the rest of an SDU, and SDUs that have not been touched. -/
def queueAt (sdus : List Bytes) (c : Mark) : List Sdu :=
  match sdus.drop c.item with
  | [] => []
  | first :: rest =>
    ⟨first.drop c.offset, if c.offset = 0 then .fullSdu else .lastSegment⟩ :: rest.map fun sdu => ⟨sdu, .fullSdu⟩

/-- The framing info of what is between two marks. -/
def framingAt (c c' : Mark) : UInt8 :=
  (if c.offset = 0 then firstByte else noFirstByte) ||| (if c'.offset = 0 then lastByte else noLastByte)

variable {sdus : List Bytes} {c c' : Mark}

theorem queueAt_of_item {sdu : Bytes} (hsdu : sdus[c.item]? = some sdu) :
    queueAt sdus c = ⟨sdu.drop c.offset, if c.offset = 0 then .fullSdu else .lastSegment⟩ ::
      (sdus.drop (c.item + 1)).map fun sdu => ⟨sdu, .fullSdu⟩ := by
  obtain ⟨hlt, hsdu⟩ := List.getElem?_eq_some_iff.mp hsdu
  rw [queueAt, List.drop_eq_getElem_cons hlt, hsdu]

theorem queueAt_zero (i : Nat) : queueAt sdus ⟨i, 0⟩ = (sdus.drop i).map fun sdu => ⟨sdu, .fullSdu⟩ := by
  rw [queueAt]
  cases sdus.drop i with
  | nil => rfl
  | cons first rest => rfl

theorem queueAt_succ {sdu : Bytes} (hsdu : sdus[c.item]? = some sdu) :
    queueAt sdus c = ⟨sdu.drop c.offset, if c.offset = 0 then .fullSdu else .lastSegment⟩ ::
      queueAt sdus ⟨c.item + 1, 0⟩ := by
  rw [queueAt_of_item hsdu, queueAt_zero]

theorem queueAt_eq_nil (hc : c.Within sdus) (h : queueAt sdus c = []) : c = ⟨sdus.length, 0⟩ := by
  have hnone : sdus[c.item]? = none := by
    cases hitem : sdus[c.item]? with
    | none => rfl
    | some sdu => cases (queueAt_of_item hitem).symm.trans h
  have hzero : c.offset = 0 := by
    by_contra hne
    obtain ⟨sdu, hsdu, -⟩ := hc.2 hne
    cases hnone.symm.trans hsdu
  have hle := List.getElem?_eq_none_iff.mp hnone
  cases c
  simp only [Mark.mk.injEq] at hzero hle ⊢
  exact ⟨Nat.le_antisymm hc.1 hle, hzero⟩

/-- An SDU comes behind the others. -/
theorem queueAt_append (hc : c.Within sdus) (sdu : Bytes) : queueAt (sdus ++ [sdu]) c = queueAt sdus c ++ [⟨sdu, .fullSdu⟩] := by
  cases hitem : sdus[c.item]? with
  | some first =>
    have hlt := (List.getElem?_eq_some_iff.mp hitem).1
    rw [queueAt_of_item hitem, queueAt_of_item (show (sdus ++ [sdu])[c.item]? = some first by rw [List.getElem?_append_left hlt, hitem]),
      List.drop_append_of_le_length (Nat.succ_le_of_lt hlt), List.map_append]
    rfl
  | none =>
    have hnil : queueAt sdus c = [] := by
      rw [queueAt, List.drop_eq_nil_of_le (List.getElem?_eq_none_iff.mp hitem)]
    have heq := queueAt_eq_nil hc hnil
    rw [hnil, heq, queueAt_zero, List.drop_left]
    rfl

/-- What is queued at a mark. -/
theorem queued_queueAt (hne : ∀ sdu ∈ sdus, sdu ≠ []) (hc : c.Within sdus) : ∀ sdu ∈ queueAt sdus c, Queued sdu := by
  have hwhole : ∀ sdu ∈ (sdus.drop (c.item + 1)).map fun sdu => (⟨sdu, .fullSdu⟩ : Sdu), Queued sdu := by
    intro sdu hsdu
    obtain ⟨bytes, hbytes, rfl⟩ := List.mem_map.mp hsdu
    exact ⟨List.length_pos_iff.mpr (hne bytes (List.mem_of_mem_drop hbytes)), .inl rfl⟩
  cases hitem : sdus[c.item]? with
  | none =>
    intro sdu hsdu
    rw [queueAt, List.drop_eq_nil_of_le (List.getElem?_eq_none_iff.mp hitem)] at hsdu
    cases hsdu
  | some first =>
    rw [queueAt_of_item hitem]
    intro sdu hsdu
    rcases List.mem_cons.mp hsdu with rfl | hsdu
    · by_cases hzero : c.offset = 0
      · refine ⟨?_, .inl (if_pos hzero)⟩
        rw [hzero]
        exact List.length_pos_iff.mpr (hne first (List.mem_of_getElem? hitem))
      · obtain ⟨first', hfirst', hlt⟩ := hc.2 hzero
        obtain rfl := Option.some.inj (hitem.symm.trans hfirst')
        exact ⟨by rw [List.length_drop]; omega, .inr (if_neg hzero)⟩
    · exact hwhole sdu hsdu

/-! ### What is taken from the buffer -/

/-- The last one of a data field: an SDU from the buffer, or the first bytes of it. -/
def LastTaken (sdu last : Sdu) (rest txBuffer : List Sdu) : Prop :=
  last = sdu ∧ txBuffer = rest ∨
    ∃ n, 0 < n ∧ n < sdu.bytes.length ∧ last = ⟨sdu.bytes.take n, (splitStatus sdu.status).1⟩ ∧
      txBuffer = ⟨sdu.bytes.drop n, (splitStatus sdu.status).2⟩ :: rest

/-- An SDU ends with the segment. -/
def Ends (s : Sdu) : Prop := s.status = .fullSdu ∨ s.status = .lastSegment

/-- An SDU begins with the segment. -/
def Begins (s : Sdu) : Prop := s.status = .fullSdu ∨ s.status = .firstSegment

theorem queueAt_eq_cons {sdu : Sdu} {rest : List Sdu} (hqueue : queueAt sdus c = sdu :: rest) :
    ∃ item, sdus[c.item]? = some item ∧ sdu = ⟨item.drop c.offset, if c.offset = 0 then .fullSdu else .lastSegment⟩ ∧
      rest = queueAt sdus ⟨c.item + 1, 0⟩ := by
  cases hitem : sdus[c.item]? with
  | none =>
    rw [queueAt, List.drop_eq_nil_of_le (List.getElem?_eq_none_iff.mp hitem)] at hqueue
    cases hqueue
  | some item =>
    rw [queueAt_succ hitem] at hqueue
    obtain ⟨hsdu, hrest⟩ := List.cons.inj hqueue
    exact ⟨item, rfl, hsdu.symm, hrest.symm⟩

/-- The segment that ends a data field. -/
theorem cut_last {sdu last : Sdu} {rest txBuffer : List Sdu} (hlast : LastTaken sdu last rest txBuffer)
    (hsdu : Queued sdu) (hqueue : queueAt sdus c = sdu :: rest) :
    ∃ c', CutInto sdus c [last.bytes] c' ∧ queueAt sdus c' = txBuffer ∧ (Ends last ↔ c'.offset = 0) := by
  obtain ⟨item, hitem, rfl, rfl⟩ := queueAt_eq_cons hqueue
  have hlength := hsdu.ne_nil
  rw [List.length_drop] at hlength
  rcases hlast with ⟨rfl, rfl⟩ | ⟨n, hn, hn', rfl, rfl⟩
  · refine ⟨⟨c.item + 1, 0⟩, .last hitem (by omega), rfl, ?_⟩
    simp only [Ends, iff_true]
    split
    · exact .inl rfl
    · exact .inr rfl
  · rw [List.length_drop] at hn'
    have hcut := CutInto.part hitem (show c.offset < c.offset + n by omega) (show c.offset + n < item.length by omega)
    rw [Nat.add_sub_cancel_left] at hcut
    refine ⟨⟨c.item, c.offset + n⟩, hcut, ?_, ?_⟩
    · rw [queueAt_succ (c := ⟨c.item, c.offset + n⟩) hitem, if_neg (show ¬ c.offset + n = 0 by omega), List.drop_drop]
      by_cases hzero : c.offset = 0
      · rw [if_pos hzero]
        rfl
      · rw [if_neg hzero]
        rfl
    · have hstatus : ¬ Ends ⟨(item.drop c.offset).take n,
          (splitStatus (if c.offset = 0 then SduStatus.fullSdu else .lastSegment)).1⟩ := by
        rw [Ends]
        split <;> simp [splitStatus]
      exact iff_of_false hstatus (by simp only; omega)

theorem cut_whole {whole : List Sdu} {sdu last : Sdu} {rest txBuffer : List Sdu} (hlast : LastTaken sdu last rest txBuffer)
    (hqueued : ∀ s ∈ queueAt sdus c, Queued s) (hqueue : queueAt sdus c = whole ++ sdu :: rest) :
    ∃ c', CutInto sdus c ((whole ++ [last]).map Sdu.bytes) c' ∧ queueAt sdus c' = txBuffer ∧
      (Ends last ↔ c'.offset = 0) := by
  induction whole generalizing c with
  | nil => exact cut_last hlast (hqueued sdu (by rw [hqueue]; exact List.mem_cons_self)) hqueue
  | cons first whole ih =>
    have hfirst := hqueued first (by rw [hqueue]; exact List.mem_cons_self)
    obtain ⟨item, hitem, rfl, hrest⟩ := queueAt_eq_cons hqueue
    have hlength := hfirst.ne_nil
    rw [List.length_drop] at hlength
    obtain ⟨c', hcut, htail⟩ := ih (c := ⟨c.item + 1, 0⟩)
      (fun s hs => hqueued s (by rw [queueAt_succ hitem]; exact List.mem_cons_of_mem _ hs)) hrest.symm
    exact ⟨c', .more hitem (by omega) hcut, htail⟩

theorem begins_first {whole : List Sdu} {sdu last : Sdu} {rest txBuffer : List Sdu} (hlast : LastTaken sdu last rest txBuffer)
    (hqueue : queueAt sdus c = whole ++ sdu :: rest) :
    ∃ first, (whole ++ [last]).head? = some first ∧ (Begins first ↔ c.offset = 0) := by
  cases whole with
  | cons first whole =>
    obtain ⟨item, hitem, rfl, -⟩ := queueAt_eq_cons hqueue
    refine ⟨_, rfl, ?_⟩
    rw [Begins]
    split <;> simp [*]
  | nil =>
    obtain ⟨item, hitem, rfl, rfl⟩ := queueAt_eq_cons hqueue
    refine ⟨last, rfl, ?_⟩
    rcases hlast with ⟨rfl, -⟩ | ⟨n, -, -, rfl, -⟩
    · rw [Begins]
      split <;> simp [*]
    · rw [Begins]
      split <;> simp [splitStatus, *]

/-- What a data field takes is what is between two marks. -/
theorem Taken.cut {filled : Filled} {whole : List Sdu} {sdu : Sdu} {rest : List Sdu} (htaken : Taken filled whole sdu rest)
    (hqueued : ∀ s ∈ queueAt sdus c, Queued s) (hqueue : queueAt sdus c = whole ++ sdu :: rest) :
    ∃ c' first last, CutInto sdus c (filled.dataField.map Sdu.bytes) c' ∧ queueAt sdus c' = filled.txBuffer ∧
      filled.dataField.head? = some first ∧ filled.dataField.getLast? = some last ∧
      framingInfo first last = framingAt c c' := by
  obtain ⟨last, hfield, hlast⟩ : ∃ last, filled.dataField = whole ++ [last] ∧ LastTaken sdu last rest filled.txBuffer := by
    rcases htaken.last with ⟨hfield, hbuffer⟩ | ⟨n, hn, hn', hfield, hbuffer⟩
    · exact ⟨sdu, hfield, .inl ⟨rfl, hbuffer⟩⟩
    · exact ⟨_, hfield, .inr ⟨n, hn, hn', rfl, hbuffer⟩⟩
  obtain ⟨c', hcut, hbuffer, hends⟩ := cut_whole hlast hqueued hqueue
  obtain ⟨first, hfirst, hbegins⟩ := begins_first hlast hqueue
  refine ⟨c', first, last, by rw [hfield]; exact hcut, hbuffer, by rw [hfield]; exact hfirst, ?_, ?_⟩
  · rw [hfield, List.getLast?_concat]
  · rw [framingInfo, framingAt]
    simp only [Begins, Ends] at hbegins hends
    simp only [hbegins, hends]

/-! ### A PDU -/

/-- The fields and the data field of a PDU with the number `n` that carries what is between two marks. -/
structure Between (sdus : List Bytes) (c c' : Mark) (n : Nat) (fields : DataFields) (data : Bytes) : Prop where
  sequenceNumber : fields.sequenceNumber.m_value = n % 1024
  framingInfo : fields.framingInfo = framingAt c c'
  pieces : ∃ pieces, buildSdus fields.extensionBits fields.lengthIndicators data = some pieces ∧ CutInto sdus c pieces c'

/-- A UM PDU that is read like that. -/
def UmCarries (sdus : List Bytes) (c c' : Mark) (n : Nat) (packet : Bytes) : Prop :=
  ∃ h, LteRlcHeader.deserialize packet = some h ∧
    Between sdus c c' n ⟨h.m_framingInfo, h.m_sequenceNumber, h.m_extensionBits, h.m_lengthIndicators⟩
      (packet.drop h.getSerializedSize)

/-- The length indicators split a data field again. -/
theorem buildSdus_whole (whole : List Sdu) (last : Sdu) (hfits : ∀ s ∈ whole, s.bytes.length ≤ 2047) :
    buildSdus (extensionBitsOf whole.length) (whole.map fun s => UInt16.ofNat s.bytes.length) (joined (whole ++ [last])) =
      some ((whole ++ [last]).map Sdu.bytes) := by
  induction whole with
  | nil => simp [buildSdus, extensionBitsOf, joined, dataFieldFollows]
  | cons first whole ih =>
    have hfirst := hfits first List.mem_cons_self
    have hlength : (UInt16.ofNat first.bytes.length).toNat = first.bytes.length :=
      Nat.mod_eq_of_lt (show first.bytes.length < 2 ^ 16 by omega)
    have hbit : ¬ eLiFieldsFollows = 0 := by decide
    have hjoined : joined (first :: whole ++ [last]) = first.bytes ++ joined (whole ++ [last]) := rfl
    rw [List.length_cons, extensionBitsOf_succ, List.map_cons, buildSdus, if_neg hbit, List.head?_cons, Option.bind_some,
      hlength, hjoined, if_pos (by rw [List.length_append]; omega), if_pos (show eLiFieldsFollows = 1 from rfl), List.drop_left, List.take_left,
      List.tail_cons, ih fun s hs => hfits s (List.mem_cons_of_mem _ hs)]
    rfl

theorem Taken.buildSdus_eq {filled : Filled} {whole : List Sdu} {sdu : Sdu} {rest : List Sdu}
    (htaken : Taken filled whole sdu rest) :
    buildSdus filled.extensionBits filled.lengthIndicators (joined filled.dataField) =
      some (filled.dataField.map Sdu.bytes) := by
  rw [htaken.extensionBits, htaken.lengthIndicators]
  rcases htaken.last with ⟨hfield, -⟩ | ⟨n, -, -, hfield, -⟩
  · rw [hfield]
    exact buildSdus_whole whole sdu htaken.fits
  · rw [hfield]
    exact buildSdus_whole whole _ htaken.fits

theorem pushBits (bits : List UInt8) {h : LteRlcHeader} (hc : h.Counted) (hlis : h.m_lengthIndicators = []) :
    (bits.foldl (fun h bit => h.pushExtensionBit bit) h).Counted ∧
      (bits.foldl (fun h bit => h.pushExtensionBit bit) h).m_extensionBits = h.m_extensionBits ++ bits ∧
      (bits.foldl (fun h bit => h.pushExtensionBit bit) h).m_lengthIndicators = [] := by
  induction bits generalizing h with
  | nil => exact ⟨hc, (List.append_nil _).symm, hlis⟩
  | cons bit bits ih =>
    obtain ⟨hcounted, hbits, hlis'⟩ := ih (hc.pushExtensionBit bit) hlis
    refine ⟨hcounted, ?_, hlis'⟩
    rw [List.foldl_cons, hbits]
    exact List.append_assoc _ _ _

theorem pushIndicators (lis : List UInt16) (h : LteRlcHeader) :
    lis.foldl (fun h li => h.pushLengthIndicator li) h = { h with m_lengthIndicators := h.m_lengthIndicators ++ lis } := by
  induction lis generalizing h with
  | nil => rw [List.append_nil]; rfl
  | cons li lis ih =>
    rw [List.foldl_cons, ih]
    show LteRlcHeader.mk _ _ _ _ ((h.m_lengthIndicators ++ [li]) ++ lis) = _
    rw [List.append_assoc]
    rfl

theorem umHeader_built {filled : Filled} {whole : List Sdu} {sdu : Sdu} {rest : List Sdu}
    (htaken : Taken filled whole sdu rest) {sn : SequenceNumber10} (hsn : sn.m_value < 1024) (framingInfo : UInt8) :
    (((umHeader filled).setSequenceNumber sn).setFramingInfo framingInfo).Built whole.length ∧
      ((umHeader filled).setSequenceNumber sn).m_headerLength = UInt16.ofNat (2 + fieldsSize whole.length) ∧
      (umHeader filled).m_lengthIndicators = filled.lengthIndicators := by
  have hstart : LteRlcHeader.Counted {} := fun hne => absurd rfl hne
  obtain ⟨hcounted, hbits, hnone⟩ := pushBits filled.extensionBits hstart rfl
  have heq : umHeader filled = _ := pushIndicators filled.lengthIndicators _
  generalize filled.extensionBits.foldl _ ({} : LteRlcHeader) = pushed at hcounted hbits hnone heq
  rw [htaken.extensionBits] at hbits
  have hlis : (umHeader filled).m_lengthIndicators = filled.lengthIndicators := by
    rw [heq]
    simp only [hnone, List.nil_append]
  refine ⟨⟨?_, hsn, ?_, ?_, ?_⟩, ?_, hlis⟩
  · exact Nat.lt_of_le_of_lt Nat.and_le_right (by decide)
  · show (umHeader filled).m_extensionBits = _
    rw [heq]
    exact hbits
  · show (umHeader filled).m_lengthIndicators.length = _
    rw [hlis, htaken.lengthIndicators, List.length_map]
  · show Fits (umHeader filled).m_lengthIndicators
    rw [hlis, htaken.lengthIndicators]
    intro li hli
    obtain ⟨s, hs, rfl⟩ := List.mem_map.mp hli
    exact Nat.lt_of_le_of_lt (Nat.mod_le _ _) (Nat.lt_succ_of_le (htaken.fits s hs))
  · show (umHeader filled).m_headerLength = _
    rw [heq]
    show pushed.m_headerLength = _
    have hne : pushed.m_extensionBits ≠ [] := by
      rw [hbits, head_extensionBitsOf]
      exact List.cons_ne_nil _ _
    have hlength : pushed.m_extensionBits.length = whole.length + 1 := (congrArg List.length hbits).trans (extensionBitsOf_length _)
    rw [hcounted hne, hlength, Nat.add_sub_cancel]

theorem addHeader_eq {size : Nat} {header packet : Bytes} (h : header.length = size) :
    addHeader size header packet = some (header ++ packet) := by
  rw [addHeader, if_pos (by omega), ← h, List.drop_left' (List.length_replicate ..)]

/-! ### The calls -/

/-- Of the SDUs that were accepted, the transmitting side has sent what is before a mark, in `n` PDUs. -/
structure SendsFrom (sdus : List Bytes) (c : Mark) (n : Nat) (tx : UmTransmitter) : Prop where
  within : c.Within sdus
  nonempty : ∀ sdu ∈ sdus, sdu ≠ []
  buffer : tx.m_txBuffer = queueAt sdus c
  size : tx.m_txBufferSize = totalSize tx.m_txBuffer % 2 ^ 32
  sequenceNumber : tx.m_sequenceNumber.m_value = n % 1024

variable {n : Nat} {tx : UmTransmitter}

theorem SendsFrom.transmitPdcpPdu (h : SendsFrom sdus c n tx) {p : Bytes} (hp : p ≠ []) :
    SendsFrom (if tx.Accepts p then sdus ++ [p] else sdus) c n (tx.transmitPdcpPdu p) := by
  rw [UmTransmitter.transmitPdcpPdu]
  split
  · refine ⟨⟨?_, fun hne => ?_⟩, fun sdu hsdu => ?_, ?_, ?_, h.sequenceNumber⟩
    · rw [List.length_append]
      exact h.within.1.trans (Nat.le_add_right _ _)
    · obtain ⟨sdu, hsdu, hlt⟩ := h.within.2 hne
      refine ⟨sdu, ?_, hlt⟩
      rw [List.getElem?_append_left (List.getElem?_eq_some_iff.mp hsdu).1]
      exact hsdu
    · rcases List.mem_append.mp hsdu with hsdu | hsdu
      · exact h.nonempty sdu hsdu
      · rw [List.mem_singleton.mp hsdu]
        exact hp
    · rw [queueAt_append h.within, ← h.buffer]
    · show add32 _ _ = totalSize (tx.m_txBuffer ++ [⟨p, .fullSdu⟩]) % 2 ^ 32
      rw [totalSize_append, totalSize_cons, add32, h.size, Nat.mod_add_mod]
      rfl
  · exact h

/-- A transmission opportunity sends what fits, if there is something to send. -/
theorem SendsFrom.notifyTxOpportunity (h : SendsFrom sdus c n tx) {bytes : Nat} (hbytes : bytes < 2 ^ 16) :
    tx.notifyTxOpportunity bytes = some (none, tx) ∨
      ∃ packet tx' c', tx.notifyTxOpportunity bytes = some (some packet, tx') ∧ packet.length ≤ bytes ∧
        UmCarries sdus c c' n packet ∧ SendsFrom sdus c' (n + 1) tx' := by
  rw [UmTransmitter.notifyTxOpportunity]
  split
  · exact .inl rfl
  · next hlarge =>
    cases hbuffer : tx.m_txBuffer with
    | nil => exact .inl rfl
    | cons sdu txBuffer =>
      right
      dsimp only
      have hqueue : queueAt sdus c = sdu :: txBuffer := h.buffer.symm.trans hbuffer
      have hqueued : ∀ s ∈ queueAt sdus c, Queued s := queued_queueAt h.nonempty h.within
      obtain ⟨whole, last, rest, hsplit, htaken, hle, hsize⟩ := fill_taken sdu (bytes - 2) 1
        (sub32 tx.m_txBufferSize sdu.bytes.length) txBuffer (by rw [← hqueue]; exact hqueued) (by omega)
      generalize fill sdu (bytes - 2) 1 (sub32 tx.m_txBufferSize sdu.bytes.length) txBuffer = filled at htaken hle hsize
      obtain ⟨c', first, last', hcut, hrest, hfirst, hlast, hframing⟩ := htaken.cut hqueued (hqueue.trans hsplit)
      have hsn : tx.m_sequenceNumber.m_value < 1024 := by
        rw [h.sequenceNumber]
        exact Nat.mod_lt _ (by decide)
      obtain ⟨hbuilt, hlength, hlis⟩ := umHeader_built htaken hsn (framingInfo first last')
      obtain ⟨header, hserialize, hheader, hread⟩ := hbuilt.deserialize
      have hfields : fieldsSize whole.length = indicatorsSize 1 whole.length := rfl
      have hfit : 2 + fieldsSize whole.length < 2 ^ 16 := by omega
      have hcount : (UInt16.ofNat (2 + fieldsSize whole.length)).toNat = 2 + fieldsSize whole.length :=
        (toNat_ofNat_eq_iff _).mpr hfit
      refine ⟨header ++ joined filled.dataField, { tx with
          m_txBuffer := filled.txBuffer
          m_txBufferSize := filled.txBufferSize
          m_sequenceNumber := tx.m_sequenceNumber.incr }, c', ?_, ?_, ⟨_, hread _, ?_⟩, hcut.within, h.nonempty, hrest.symm, ?_, ?_⟩
      · rw [UmTransmitter.send, hfirst, Option.bind_some, hlast, Option.bind_some]
        show Option.bind (LteRlcHeader.serialize _) _ = _
        rw [hserialize, Option.bind_some]
        show Option.map _ (addHeader ((umHeader filled).setSequenceNumber tx.m_sequenceNumber).m_headerLength.toNat _ _) = _
        rw [hlength, addHeader_eq (hheader.trans hcount.symm), Option.map_some]
      · rw [List.length_append, hheader, joined_length]
        omega
      · refine ⟨h.sequenceNumber, ?_, ⟨filled.dataField.map Sdu.bytes, ?_, hcut⟩⟩
        · show framingInfo first last' &&& 0x03 = _
          rw [hframing, framingAt]
          split <;> split <;> rfl
        · show buildSdus (extensionBitsOf whole.length) (umHeader filled).m_lengthIndicators
            ((header ++ joined filled.dataField).drop (UInt16.ofNat (2 + fieldsSize whole.length)).toNat) = _
          rw [hcount, ← hheader, List.drop_left, hlis, ← htaken.extensionBits]
          exact htaken.buildSdus_eq
      · refine hsize ?_
        rw [h.size, hbuffer, totalSize_cons, sub32]
        omega
      · show (tx.m_sequenceNumber.m_value + 1) % 1024 = _
        rw [h.sequenceNumber, Nat.mod_add_mod]

end Ns3.Lte
