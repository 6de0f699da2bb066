import Mathlib.Order.Nat
import Ns3.Lte.RlcAm

/-!
# The receive state of AM

The state variables of the receiving side stand for numbers that do not wrap, of which VR(R) is the base:
VR(R) ≤ VR(MS) ≤ VR(H) ≤ VR(R) + 512. What is buffered lies between VR(R) and VR(H), so that no two of its numbers wrap
to the same one, and each loop ends before its number comes round.
-/

namespace Ns3.Lte

open Ns3.Lib

namespace AmReceiver

/-- A data PDU that the header can be removed from, and that can be split. -/
def Deliverable (packet : Bytes) : Prop :=
  ∃ h sdus, LteRlcAmHeader.deserialize packet = some h ∧
    buildSdus h.m_extensionBits h.m_lengthIndicators (packet.drop h.getSerializedSize) = some sdus

theorem Deliverable.goesOn {packet : Bytes} (h : Deliverable packet) {r : Reassembly} (hr : r.Ready) :
    Reassembly.GoesOn (amReassembleAndDeliver packet r) := by
  obtain ⟨header, sdus, hheader, hsdus⟩ := h
  rw [amReassembleAndDeliver, hheader, Option.bind_some]
  exact Reassembly.reassembleAndDeliver_goesOn hr hsdus false

/-- A buffered PDU: one segment, which is complete. -/
def Stored (pdu : PduBuffer) : Prop := ∃ packet, pdu = ⟨[packet], true⟩ ∧ Deliverable packet

/-- What the buffer holds from the number `low` on and below `high`. -/
def Buffers (buffer : AList fun _ : Nat => PduBuffer) (low high : Nat) : Prop :=
  ∀ sn pdu, buffer.lookup sn = some pdu → (∃ y, low ≤ y ∧ y < high ∧ sn = y % 1024) ∧ Stored pdu

/-- The number is not in the buffer. -/
def Missing (buffer : AList fun _ : Nat => PduBuffer) (x : Nat) : Prop := buffer.lookup (x % 1024) = none

variable {buffer : AList fun _ : Nat => PduBuffer} {low high x y : Nat}

theorem complete_eq_false (h : Missing buffer x) : complete buffer (x % 1024) = false := by
  rw [complete, h]

theorem Buffers.complete (h : Buffers buffer low high) (hx : ¬ Missing buffer x) :
    complete buffer (x % 1024) = true := by
  obtain ⟨pdu, hpdu⟩ := Option.ne_none_iff_exists'.mp hx
  obtain ⟨packet, rfl, -⟩ := (h _ _ hpdu).2
  rw [AmReceiver.complete, hpdu]

/-- A number that is buffered is in the range of the buffer. -/
theorem Buffers.lt (h : Buffers buffer low high) (hx : ¬ Missing buffer x) (hlow : low ≤ x) (hhigh : x ≤ high)
    (hrange : high ≤ low + 512) : x < high := by
  obtain ⟨pdu, hpdu⟩ := Option.ne_none_iff_exists'.mp hx
  obtain ⟨⟨y, hy, hy', heq⟩, -⟩ := h _ _ hpdu
  omega

/-! ### The loop of VR(MS) -/

/-- The loop ends at the first missing number, before it comes round. -/
theorem rounds_vrMsTurn {r first : Nat} {vrMs : SequenceNumber10} (h : Buffers buffer low high) (hlow : low ≤ first)
    (hfirst : first ≤ high) (hrange : high ≤ low + 512) (hvrMs : vrMs.Stands r first) :
    ∃ vrMs', rounds (vrMsTurn buffer vrMs.m_value) 512 vrMs = some vrMs' ∧ ∃ last, vrMs'.Stands r last ∧
      first ≤ last ∧ last ≤ high ∧ Missing buffer last := by
  refine rounds_of_rank (I := fun k n => ∃ m, n.Stands r m ∧ first ≤ m ∧ m + k = high) ?_
    ⟨first, hvrMs, Nat.le_refl _, Nat.add_sub_of_le hfirst⟩ (by omega)
  rintro k n ⟨m, hn, hm, hrank⟩
  rw [vrMsTurn, hn.value]
  by_cases hmissing : Missing buffer m
  · refine ⟨.leave n, if_neg (by rw [complete_eq_false hmissing]; exact Bool.false_ne_true), m, hn, hm, by omega,
      hmissing⟩
  · have hlt := h.lt hmissing (hlow.trans hm) (by omega) hrange
    refine ⟨.again n.incr, ?_, k - 1, by omega, m + 1, hn.incr, by omega, by omega⟩
    rw [if_pos (h.complete hmissing), if_neg]
    rw [hvrMs.value, hn.incr.value]
    omega

/-! ### The steps of a data PDU -/

/-- The state variables between the steps: VR(R), VR(MS), VR(H) and VR(X) stand for `r`, `ms`, `h` and `x`. -/
structure Between (rx : AmReceiver) (r ms h x : Nat) : Prop where
  vrR : rx.m_vrR.Stands r r
  vrMs : rx.m_vrMs.Stands r ms
  vrH : rx.m_vrH.Stands r h
  vrX : rx.m_vrX.Stands r x
  vrR_le : r ≤ ms
  vrMs_le : ms ≤ h
  vrH_le : h ≤ r + 512
  buffered : Buffers rx.m_rxonBuffer r h
  ready : rx.reassembly.Ready

/-- The state variables between calls. -/
structure ReceiveState (rx : AmReceiver) (r ms h x : Nat) : Prop extends Between rx r ms h x where
  vrMr : rx.m_vrMr.Stands r (r + 512)
  vrR_missing : Missing rx.m_rxonBuffer r
  vrMs_missing : Missing rx.m_rxonBuffer ms
  timer : rx.m_reorderingTimer = true → r < x ∧ x ≤ h

variable {rx : AmReceiver} {r ms h : Nat} {seqNumber : SequenceNumber10} {packet : Bytes}

theorem isInsideReceivingWindow_eq (hvrR : rx.m_vrR.Stands r r) (hvrMr : rx.m_vrMr.Stands r (r + 512)) {base : Nat}
    (hseq : seqNumber.Stands base y) (hy : r ≤ y) (hy' : y < r + 1024) :
    rx.isInsideReceivingWindow seqNumber = some (decide (y < r + 512), rx) := by
  have hseq' := hseq.setModulusBase hvrR.value
  have hsame : { rx with
      m_vrR := rx.m_vrR.setModulusBase rx.m_vrR
      m_vrMr := rx.m_vrMr.setModulusBase rx.m_vrR } = rx := by
    rw [hvrR.setModulusBase_eq hvrR.value, hvrMr.setModulusBase_eq hvrR.value]
  rw [isInsideReceivingWindow, hsame]
  show (rx.m_vrR.le (seqNumber.setModulusBase rx.m_vrR)).bind _ = _
  rw [hvrR.le_eq hseq' (Nat.le_refl _) (by omega) hy hy', decide_eq_true hy, Option.bind_some, if_pos rfl,
    hseq'.lt_eq hvrMr hy hy' (by omega) (by omega), Option.map_some]

theorem Missing.insert {pdu : PduBuffer} (hx : Missing buffer x) (hne : x % 1024 ≠ y % 1024) :
    Missing (buffer.insert (y % 1024) pdu) x := (AList.lookup_insert_ne hne).trans hx

theorem Missing.erase (hx : Missing buffer x) : Missing (buffer.erase (y % 1024)) x := by
  by_cases heq : x % 1024 = y % 1024
  · rw [Missing, heq]
    exact AList.lookup_erase _ _
  · exact (AList.lookup_erase_ne heq).trans hx

/-- The buffer holds the PDU then. -/
theorem ReceiveState.place (hs : ReceiveState rx r ms h x) (hseq : seqNumber.Stands r y) (hy : r ≤ y)
    (hpacket : Deliverable packet) :
    ∃ buffer, rx.place seqNumber packet = some { rx with m_rxonBuffer := buffer } ∧
      Buffers buffer r (max h (y + 1)) ∧ ¬ Missing buffer y ∧ (r % 1024 ≠ y % 1024 → Missing buffer r) := by
  rw [AmReceiver.place, hseq.value]
  by_cases hmissing : Missing rx.m_rxonBuffer y
  · rw [hmissing]
    refine ⟨_, rfl, fun sn pdu hpdu => ?_, fun hnone => ?_, fun hne => hs.vrR_missing.insert hne⟩
    · by_cases heq : sn = y % 1024
      · subst heq
        rw [AList.lookup_insert] at hpdu
        obtain rfl := Option.some.inj hpdu
        exact ⟨⟨y, hy, by omega, rfl⟩, packet, rfl, hpacket⟩
      · rw [AList.lookup_insert_ne heq] at hpdu
        obtain ⟨⟨z, hz, hz', hsn⟩, hstored⟩ := hs.buffered sn pdu hpdu
        exact ⟨⟨z, hz, by omega, hsn⟩, hstored⟩
    · rw [Missing, AList.lookup_insert] at hnone
      cases hnone
  · obtain ⟨pdu, hpdu⟩ := Option.ne_none_iff_exists'.mp hmissing
    obtain ⟨segment, rfl, -⟩ := (hs.buffered _ _ hpdu).2
    rw [hpdu]
    refine ⟨rx.m_rxonBuffer, rfl, fun sn pdu hpdu => ?_, hmissing, fun _ => hs.vrR_missing⟩
    obtain ⟨⟨z, hz, hz', hsn⟩, hstored⟩ := hs.buffered sn pdu hpdu
    exact ⟨⟨z, hz, by omega, hsn⟩, hstored⟩

/-- VR(H) is behind all that is buffered then. -/
theorem updateVrH_eq (rx : AmReceiver) (hseq : seqNumber.Stands r y) (hvrH : rx.m_vrH.Stands r h) (hy : r ≤ y) (hy' : y < r + 512)
    (hh : r ≤ h) (hh' : h ≤ r + 512) :
    ∃ vrH, rx.updateVrH seqNumber = some { rx with m_vrH := vrH } ∧ vrH.Stands r (max h (y + 1)) := by
  rw [updateVrH, hseq.ge_eq hvrH hy (by omega) hh (by omega), Option.map_some]
  by_cases hle : h ≤ y
  · refine ⟨seqNumber.add 1, by rw [if_pos (decide_eq_true hle)], ?_⟩
    rw [max_eq_right (by omega)]
    exact hseq.add 1
  · refine ⟨rx.m_vrH, by rw [if_neg (by rw [decide_eq_false hle]; exact Bool.false_ne_true)], ?_⟩
    rw [max_eq_left (by omega)]
    exact hvrH

theorem Between.updateVrMs (hb : Between rx r ms h x) :
    ∃ vrMs last, rx.updateVrMs 512 = some { rx with m_vrMs := vrMs } ∧
      Between { rx with m_vrMs := vrMs } r last h x ∧ Missing rx.m_rxonBuffer last := by
  obtain ⟨vrMs, hrounds, last, hvrMs, hle, hle', hmissing⟩ :=
    rounds_vrMsTurn hb.buffered hb.vrR_le hb.vrMs_le hb.vrH_le hb.vrMs
  refine ⟨vrMs, last, by rw [AmReceiver.updateVrMs, hrounds, Option.map_some], ?_, hmissing⟩
  exact { hb with vrMs := hvrMs, vrR_le := hb.vrR_le.trans hle, vrMs_le := hle' }

/-- A PDU that is delivered leaves the buffer, and VR(R) is one more. -/
theorem Between.incrVrR (hb : Between rx r ms h x) (hlt : r < ms) {reassembly : Reassembly} (hready : reassembly.Ready) :
    Between { rx with reassembly, m_rxonBuffer := rx.m_rxonBuffer.erase rx.m_vrR.m_value }.incrVrR (r + 1) ms h x where
  vrR := hb.vrR.incr.setModulusBase hb.vrR.incr.value
  vrMs := hb.vrMs.setModulusBase hb.vrR.incr.value
  vrH := hb.vrH.setModulusBase hb.vrR.incr.value
  vrX := hb.vrX.setModulusBase hb.vrR.incr.value
  vrR_le := hlt
  vrMs_le := hb.vrMs_le
  vrH_le := by
    have := hb.vrH_le
    omega
  buffered := by
    intro sn pdu hpdu
    have hpdu : (rx.m_rxonBuffer.erase rx.m_vrR.m_value).lookup sn = some pdu := hpdu
    have hne : sn ≠ rx.m_vrR.m_value := by
      rintro rfl
      rw [AList.lookup_erase] at hpdu
      cases hpdu
    obtain ⟨⟨y, hy, hy', hsn⟩, hstored⟩ := hb.buffered sn pdu ((AList.lookup_erase_ne hne).symm.trans hpdu)
    refine ⟨⟨y, Nat.lt_of_le_of_ne hy ?_, hy', hsn⟩, hstored⟩
    rintro rfl
    exact hne (hsn.trans hb.vrR.value.symm)
  ready := hready

/-- The loop ends at the first missing number, at VR(MS) the latest. -/
theorem Between.rounds_deliverTurn (hb : Between rx r ms h x) (hms : Missing rx.m_rxonBuffer ms) :
    ∃ rx', rounds (deliverTurn rx.m_vrR.m_value) 512 rx = some rx' ∧ ∃ r', Between rx' r' ms h x ∧ r ≤ r' ∧
      Missing rx'.m_rxonBuffer r' ∧ Missing rx'.m_rxonBuffer ms ∧
      rx'.m_reorderingTimer = rx.m_reorderingTimer := by
  have hvrMs_le := hb.vrMs_le
  have hvrH_le := hb.vrH_le
  refine rounds_of_rank (I := fun k s => ∃ m, Between s m ms h x ∧ r ≤ m ∧ m + k = ms ∧ Missing s.m_rxonBuffer ms ∧
    s.m_reorderingTimer = rx.m_reorderingTimer) ?_
    ⟨r, hb, Nat.le_refl _, Nat.add_sub_of_le hb.vrR_le, hms, rfl⟩ (by omega)
  rintro k s ⟨m, hs, hm, hrank, hmissing, htimer⟩
  rw [deliverTurn, hs.vrR.value]
  by_cases hnone : Missing s.m_rxonBuffer m
  · rw [hnone]
    exact ⟨_, rfl, m, hs, hm, hnone, hmissing, htimer⟩
  · have hlt : m < ms := Nat.lt_of_le_of_ne hs.vrR_le fun heq => hnone (heq ▸ hmissing)
    obtain ⟨pdu, hpdu⟩ := Option.ne_none_iff_exists'.mp hnone
    obtain ⟨packet, rfl, hpacket⟩ := (hs.buffered _ _ hpdu).2
    obtain ⟨reassembly, hreassembly, hready⟩ := hpacket.goesOn hs.ready
    have hnext := hs.incrVrR hlt hready
    rw [hs.vrR.value] at hnext
    rw [hpdu]
    show ∃ t, (amReassembleAndDeliver packet s.reassembly).bind _ = some t ∧ _
    rw [hreassembly, Option.bind_some]
    refine ⟨_, if_neg ?_, k - 1, by omega, m + 1, hnext, by omega, by omega, hmissing.erase, htimer⟩
    rw [hnext.vrR.value, hb.vrR.value]
    omega

/-- VR(R) is missing then, and VR(MR) belongs to it. -/
theorem Between.deliver (hb : Between rx r ms h x) (hms : Missing rx.m_rxonBuffer ms)
    (hvrMr : rx.m_vrMr.Stands r (r + 512)) (hseq : seqNumber.m_value = y % 1024)
    (hy : ¬ Missing rx.m_rxonBuffer y) (hr : r % 1024 ≠ y % 1024 → Missing rx.m_rxonBuffer r) :
    ∃ rx' r', rx.deliver 512 seqNumber = some rx' ∧ Between rx' r' ms h x ∧ r ≤ r' ∧
      rx'.m_vrMr.Stands r' (r' + 512) ∧ Missing rx'.m_rxonBuffer r' ∧ Missing rx'.m_rxonBuffer ms ∧
      rx'.m_reorderingTimer = rx.m_reorderingTimer := by
  rw [AmReceiver.deliver, hseq, hb.vrR.value]
  by_cases heq : r % 1024 = y % 1024
  · obtain ⟨rx', hrounds, r', hb', hr', hmissing, hms', htimer⟩ := hb.rounds_deliverTurn hms
    rw [hb.vrR.value] at hrounds
    rw [if_pos ⟨heq.symm, hb.buffered.complete hy⟩, hrounds, Option.map_some]
    refine ⟨_, r', rfl, ?_, hr', hb'.vrR.add windowSize, hmissing, hms', htimer⟩
    exact ⟨hb'.vrR, hb'.vrMs, hb'.vrH, hb'.vrX, hb'.vrR_le, hb'.vrMs_le, hb'.vrH_le, hb'.buffered, hb'.ready⟩
  · rw [if_neg fun h => heq h.1.symm]
    exact ⟨rx, r, rfl, hb, Nat.le_refl _, hvrMr, hr heq, hms, rfl⟩

/-- The timer runs on if VR(X) is still ahead. -/
theorem stopReordering_eq {r₀ : Nat} (hb : Between rx r ms h x) (hvrMr : rx.m_vrMr.Stands r (r + 512))
    (hr : r ≤ r₀ + 512) (htimer : rx.m_reorderingTimer = true → r₀ < x ∧ x ≤ h) :
    ∃ timer, rx.stopReordering = some { rx with m_reorderingTimer := timer } ∧ (timer = true → r < x ∧ x ≤ h) := by
  rw [stopReordering]
  by_cases hrunning : rx.m_reorderingTimer = true
  · obtain ⟨hx, hx'⟩ := htimer hrunning
    have hvrH_le := hb.vrH_le
    have hvalue : rx.m_vrX.m_value = rx.m_vrR.m_value ↔ x = r := by
      rw [hb.vrX.value, hb.vrR.value]
      omega
    rw [if_pos hrunning]
    by_cases heq : x = r
    · rw [if_pos (hvalue.mpr heq)]
      exact ⟨false, rfl, fun hfalse => absurd hfalse Bool.false_ne_true⟩
    · rw [if_neg (mt hvalue.mp heq)]
      by_cases hlt : r < x
      · -- VR(X) is inside the window, or VR(MR)
        rw [isInsideReceivingWindow_eq hb.vrR hvrMr hb.vrX hlt.le (by omega), Option.map_some]
        refine ⟨true, ?_, fun _ => ⟨hlt, hx'⟩⟩
        show some (if (!decide (x < r + 512)) = true ∧ rx.m_vrX.m_value ≠ rx.m_vrMr.m_value then _ else rx) = _
        rw [if_neg, ← hrunning]
        rintro ⟨hout, hne⟩
        have hge : ¬ x < r + 512 := by simpa using hout
        exact hne (by rw [hb.vrX.value, hvrMr.value, show x = r + 512 by omega])
      · -- VR(X) is behind VR(R)
        have hwrapped : rx.m_vrX.Stands r (x + 1024) :=
          ⟨hb.vrX.value.trans (Nat.add_mod_right _ _).symm, hb.vrX.modulusBase⟩
        rw [isInsideReceivingWindow_eq hb.vrR hvrMr hwrapped (by omega) (by omega), Option.map_some]
        refine ⟨false, ?_, fun hfalse => absurd hfalse Bool.false_ne_true⟩
        show some (if (!decide (x + 1024 < r + 512)) = true ∧ rx.m_vrX.m_value ≠ rx.m_vrMr.m_value then
          { rx with m_reorderingTimer := false } else rx) = _
        rw [if_pos]
        refine ⟨by simp; omega, ?_⟩
        rw [hb.vrX.value, hvrMr.value]
        omega
  · rw [if_neg hrunning]
    exact ⟨rx.m_reorderingTimer, rfl, fun htrue => absurd htrue hrunning⟩

/-- The timer is started for what is behind VR(R). -/
theorem startReordering_eq (hb : Between rx r ms h x) (htimer : rx.m_reorderingTimer = true → r < x ∧ x ≤ h) :
    ∃ vrX timer x', rx.startReordering = some { rx with m_vrX := vrX, m_reorderingTimer := timer } ∧
      vrX.Stands r x' ∧ (timer = true → r < x' ∧ x' ≤ h) := by
  have hvrH_le := hb.vrH_le
  have hle := hb.vrR_le.trans hb.vrMs_le
  rw [startReordering]
  by_cases hrunning : rx.m_reorderingTimer = true
  · rw [if_pos hrunning]
    exact ⟨rx.m_vrX, rx.m_reorderingTimer, x, rfl, hb.vrX, htimer⟩
  · rw [if_neg hrunning, hb.vrH.gt_eq hb.vrR hle (by omega) (Nat.le_refl _) (by omega), Option.map_some]
    by_cases hlt : r < h
    · rw [if_pos (decide_eq_true hlt)]
      exact ⟨rx.m_vrH, true, h, rfl, hb.vrH, fun _ => ⟨hlt, Nat.le_refl _⟩⟩
    · rw [if_neg (by rw [decide_eq_false hlt]; exact Bool.false_ne_true)]
      exact ⟨rx.m_vrX, rx.m_reorderingTimer, x, rfl, hb.vrX, fun htrue => absurd htrue hrunning⟩

theorem requestStatus_state (hs : ReceiveState rx r ms h x) (header : LteRlcAmHeader) :
    ReceiveState (rx.requestStatus header) r ms h x := by
  rw [requestStatus]
  split
  · exact { hs with
      vrR := hs.vrR, vrMs := hs.vrMs, vrH := hs.vrH, vrX := hs.vrX, buffered := hs.buffered, ready := hs.ready
      vrMr := hs.vrMr, vrR_missing := hs.vrR_missing, vrMs_missing := hs.vrMs_missing, timer := hs.timer }
  · exact hs

/-- Each sequence number is that of a number from VR(R) on. -/
theorem exists_stands {n : SequenceNumber10} (hn : n.m_value < 1024) (hvrR : rx.m_vrR.Stands r r) :
    ∃ y, (n.setModulusBase rx.m_vrR).Stands r y ∧ r ≤ y ∧ y < r + 1024 := by
  refine ⟨r + (n.m_value + 1024 - r % 1024) % 1024, ⟨?_, hvrR.value⟩, Nat.le_add_right _ _,
    Nat.add_lt_add_left (Nat.mod_lt _ (by decide)) _⟩
  show n.m_value = _
  omega

/-- The states that a receiving side is in between calls. -/
def Reached (rx : AmReceiver) : Prop := ∃ r ms h x, ReceiveState rx r ms h x

theorem reached_receiveData (hrx : Reached rx) {header : LteRlcAmHeader} (hsn : header.m_sequenceNumber.m_value < 1024)
    (hflag : header.m_resegmentationFlag = pduSegment ∨ header.m_resegmentationFlag = wholePdu)
    (hpacket : Deliverable packet) : ∃ rx', rx.receiveData 512 header packet = some rx' ∧ Reached rx' := by
  obtain ⟨r, ms, h, x, hs₀⟩ := hrx
  obtain ⟨y, hseq, hy, hy'⟩ := exists_stands hsn hs₀.vrR
  have hs := requestStatus_state hs₀ header
  rw [receiveData, if_pos hflag]
  generalize rx.requestStatus header = rx at hs
  rw [isInsideReceivingWindow_eq hs.vrR hs.vrMr hseq hy hy', Option.bind_some]
  by_cases hin : y < r + 512
  · have hr_le := hs.vrR_le.trans hs.vrMs_le
    have hvrH_le := hs.vrH_le
    have hvrMs_le := hs.vrMs_le
    -- VR(H), VR(MS), VR(R) and VR(X) move in this order
    obtain ⟨buffer, hplace, hbuffers, hpresent, hvrR⟩ := hs.place hseq hy hpacket
    obtain ⟨vrH, hupdate, hvrH⟩ :=
      updateVrH_eq { rx with m_rxonBuffer := buffer } hseq hs.vrH hy hin hr_le hvrH_le
    have hbetween : Between { rx with m_rxonBuffer := buffer, m_vrH := vrH } r ms (max h (y + 1)) x :=
      ⟨hs.vrR, hs.vrMs, hvrH, hs.vrX, hs.vrR_le, by omega, by omega, hbuffers, hs.ready⟩
    obtain ⟨vrMs, last, hvrMs, hbetween', hlast⟩ := hbetween.updateVrMs
    obtain ⟨rx₁, r₁, hdeliver, hb₁, hr₁, hvrMr₁, hmissing₁, hlast₁, htimer₁⟩ :=
      hbetween'.deliver hlast hs.vrMr hseq.value hpresent hvrR
    have htimer : rx₁.m_reorderingTimer = true → r < x ∧ x ≤ max h (y + 1) := fun hrunning => by
      have := hs.timer (htimer₁.symm.trans hrunning)
      omega
    obtain ⟨timer₂, hstop, htimer₂⟩ := stopReordering_eq hb₁ hvrMr₁ (by
      have := hb₁.vrR_le
      have := hb₁.vrMs_le
      omega) htimer
    have hb₂ : Between { rx₁ with m_reorderingTimer := timer₂ } r₁ last (max h (y + 1)) x :=
      ⟨hb₁.vrR, hb₁.vrMs, hb₁.vrH, hb₁.vrX, hb₁.vrR_le, hb₁.vrMs_le, hb₁.vrH_le, hb₁.buffered, hb₁.ready⟩
    obtain ⟨vrX, timer₃, x₃, hstart, hvrX, htimer₃⟩ := startReordering_eq hb₂ htimer₂
    refine ⟨{ rx₁ with m_vrX := vrX, m_reorderingTimer := timer₃ }, ?_, r₁, last, max h (y + 1), x₃, ⟨hb₁.vrR, hb₁.vrMs, hb₁.vrH, hvrX, hb₁.vrR_le, hb₁.vrMs_le, hb₁.vrH_le,
      hb₁.buffered, hb₁.ready⟩, hvrMr₁, hmissing₁, hlast₁, htimer₃⟩
    show (if decide (y < r + 512) = true then _ else _) = _
    rw [if_pos (decide_eq_true hin), hplace, Option.bind_some, hupdate, Option.bind_some, hvrMs, Option.bind_some,
      hdeliver, Option.bind_some, hstop, Option.bind_some, hstart]
  · exact ⟨rx, if_neg (by rw [decide_eq_false hin]; exact Bool.false_ne_true), r, ms, h, x, hs⟩

theorem reached_expireReorderingTimer (hrx : Reached rx) (hrunning : rx.m_reorderingTimer = true) :
    ∃ rx', rx.expireReorderingTimer 512 = some rx' ∧ Reached rx' := by
  obtain ⟨r, ms, h, x, hs⟩ := hrx
  obtain ⟨hx, hx'⟩ := hs.timer hrunning
  have hvrH_le := hs.vrH_le
  obtain ⟨vrMs, hrounds, last, hvrMs, hle, hle', hmissing⟩ :=
    rounds_vrMsTurn hs.buffered hx.le hx' hvrH_le hs.vrX
  rw [expireReorderingTimer, hrounds, Option.bind_some,
    hs.vrH.gt_eq hvrMs (by omega) (by omega) (by omega) (by omega), Option.map_some]
  by_cases hlt : last < h
  · refine ⟨_, rfl, r, last, h, h, ?_⟩
    rw [if_pos (decide_eq_true hlt)]
    exact ⟨⟨hs.vrR, hvrMs, hs.vrH, hs.vrH, by omega, hle', hvrH_le, hs.buffered, hs.ready⟩, hs.vrMr, hs.vrR_missing,
      hmissing, fun _ => ⟨by omega, Nat.le_refl _⟩⟩
  · refine ⟨_, rfl, r, last, h, x, ?_⟩
    rw [if_neg (by rw [decide_eq_false hlt]; exact Bool.false_ne_true)]
    exact ⟨⟨hs.vrR, hvrMs, hs.vrH, hs.vrX, by omega, hle', hvrH_le, hs.buffered, hs.ready⟩, hs.vrMr, hs.vrR_missing,
      hmissing, fun htrue => absurd htrue Bool.false_ne_true⟩

theorem reached_new : Reached {} := by
  refine ⟨0, 0, 0, 0, ⟨⟨rfl, rfl⟩, ⟨rfl, rfl⟩, ⟨rfl, rfl⟩, ⟨rfl, rfl⟩, by decide, by decide, by decide,
    (fun _ _ hpdu => nomatch hpdu), ReassemblingState.noConfusion⟩, ⟨rfl, rfl⟩, rfl, rfl, Bool.noConfusion⟩

/-! ### Every run -/

/-- How far a sequence number is past VR(R), modulo 1024. -/
def past (rx : AmReceiver) (sn : Nat) : Nat := (sn + 1024 - rx.m_vrR.m_value) % 1024

/-- What the state variables promise. -/
structure WindowOrdered (rx : AmReceiver) : Prop where
  vrMs_le : rx.past rx.m_vrMs.m_value ≤ rx.past rx.m_vrH.m_value
  vrH_le : rx.past rx.m_vrH.m_value ≤ 512
  vrMr : rx.m_vrMr.m_value = (rx.m_vrR.m_value + 512) % 1024
  buffered : ∀ sn ∈ rx.m_rxonBuffer, sn < 1024 ∧ rx.past sn < rx.past rx.m_vrH.m_value ∧
    sn ≠ rx.m_vrR.m_value ∧ sn ≠ rx.m_vrMs.m_value
  timer : rx.m_reorderingTimer = true →
    0 < rx.past rx.m_vrX.m_value ∧ rx.past rx.m_vrX.m_value ≤ rx.past rx.m_vrH.m_value

theorem past_eq (hvrR : rx.m_vrR.Stands r r) (hx : r ≤ x) (hx' : x < r + 1024) :
    rx.past (x % 1024) = x - r := by
  rw [past, hvrR.value]
  omega

theorem Reached.windowOrdered (hrx : Reached rx) : WindowOrdered rx := by
  obtain ⟨r, ms, h, x, hs⟩ := hrx
  have hvrR_le := hs.vrR_le
  have hvrMs_le := hs.vrMs_le
  have hvrH_le := hs.vrH_le
  have hvrH : rx.past rx.m_vrH.m_value = h - r := by
    rw [hs.vrH.value, past_eq hs.vrR (by omega) (by omega)]
  refine ⟨?_, by omega, ?_, fun sn hsn => ?_, fun hrunning => ?_⟩
  · rw [hvrH, hs.vrMs.value, past_eq hs.vrR hvrR_le (by omega)]
    omega
  · rw [hs.vrMr.value, hs.vrR.value, Nat.mod_add_mod]
  · obtain ⟨pdu, hpdu⟩ := Option.isSome_iff_exists.mp (AList.lookup_isSome.mpr hsn)
    obtain ⟨⟨y, hy, hy', rfl⟩, -⟩ := hs.buffered sn pdu hpdu
    refine ⟨Nat.mod_lt _ (by decide), ?_, fun heq => ?_, fun heq => ?_⟩
    · rw [hvrH, past_eq hs.vrR hy (by omega)]
      omega
    · rw [hs.vrR.value] at heq
      rw [heq, hs.vrR_missing] at hpdu
      cases hpdu
    · rw [hs.vrMs.value] at heq
      rw [heq, hs.vrMs_missing] at hpdu
      cases hpdu
  · obtain ⟨hx, hx'⟩ := hs.timer hrunning
    rw [hvrH, hs.vrX.value, past_eq hs.vrR hx.le (by omega)]
    omega

end AmReceiver

namespace LteRlcAm

open AmReceiver

/-- A data PDU: its length indicators stay within its data field. -/
structure DataPdu where
  packet : Bytes
  header : LteRlcAmHeader
  sdus : List Bytes
  deserialize : LteRlcAmHeader.deserialize packet = some header
  isDataPdu : header.m_dataControlBit = dataPdu
  split : buildSdus header.m_extensionBits header.m_lengthIndicators (packet.drop header.getSerializedSize) = some sdus

/-- What happens to the receiving side. -/
inductive ReceiveCall where
  | dataPdu (pdu : DataPdu)
  | expireReorderingTimer

/-- One call. -/
def receiveCall (limit : Nat) : ReceiveCall → LteRlcAm → Option LteRlcAm
  | .dataPdu pdu, rlc => rlc.doReceivePdu limit pdu.packet
  | .expireReorderingTimer, rlc => rlc.expireReorderingTimer limit

/-- Calls one after the other. -/
def receiveCalls (limit : Nat) : List ReceiveCall → LteRlcAm → Option LteRlcAm
  | [], rlc => some rlc
  | call :: calls, rlc => (rlc.receiveCall limit call).bind (receiveCalls limit calls)

/-- A flag of one bit. -/
theorem flag_cases (byte : UInt8) : (byte &&& 0x40) >>> 6 = pduSegment ∨ (byte &&& 0x40) >>> 6 = wholePdu := by
  have hbit : ((byte &&& 0x40) >>> 6).toNat < 2 := by
    have hle := Nat.and_le_right (n := byte.toNat) (m := 64)
    show (byte.toNat &&& 64) >>> 6 < 2
    rw [Nat.shiftRight_eq_div_pow]
    omega
  generalize (byte &&& 0x40) >>> 6 = flag at hbit
  have hcases : flag.toNat = 1 ∨ flag.toNat = 0 := by omega
  exact hcases.imp (fun h => UInt8.toNat_inj.mp h) fun h => UInt8.toNat_inj.mp h

/-- The fields of a data header that was read. -/
theorem deserializeData_fields {byte1 : UInt8} {packet : Bytes} {header : LteRlcAmHeader}
    (h : LteRlcAmHeader.deserializeData byte1 packet = some header) :
    header.m_sequenceNumber.m_value < 1024 ∧
      (header.m_resegmentationFlag = pduSegment ∨ header.m_resegmentationFlag = wholePdu) := by
  match packet with
  | byte2 :: byte3 :: byte4 :: rest =>
    have hsn : (readSequenceNumber byte1 byte2).m_value < 1024 := Nat.mod_lt _ (by decide)
    rw [LteRlcAmHeader.deserializeData] at h
    split at h
    · cases h
      exact ⟨hsn, flag_cases byte1⟩
    · obtain ⟨fields, -, rfl⟩ := Option.map_eq_some_iff.mp h
      exact ⟨hsn, flag_cases byte1⟩

/-- The control bit of a control header that was read. -/
theorem deserializeControl_fields {byte1 : UInt8} {packet : Bytes} {header : LteRlcAmHeader}
    (h : LteRlcAmHeader.deserializeControl byte1 packet = some header) :
    header.m_dataControlBit = (byte1 &&& 0x80) >>> 7 := by
  unfold LteRlcAmHeader.deserializeControl at h
  -- the header is longer by the missing sequence numbers, if it has any
  split at h
  · dsimp only at h
    split at h
    · split at h
      · split at h
        · obtain ⟨nacks, -, rfl⟩ := Option.map_eq_some_iff.mp h
          rfl
        · cases h
          rfl
      · cases h
    · cases h
      rfl
  · cases h

/-- The fields of the header of a data PDU. -/
theorem deserialize_fields {packet : Bytes} {header : LteRlcAmHeader}
    (h : LteRlcAmHeader.deserialize packet = some header) (hdata : header.m_dataControlBit = dataPdu) :
    header.m_sequenceNumber.m_value < 1024 ∧
      (header.m_resegmentationFlag = pduSegment ∨ header.m_resegmentationFlag = wholePdu) := by
  match packet with
  | [] => cases h
  | byte1 :: rest =>
    rw [LteRlcAmHeader.deserialize] at h
    split at h
    · exact deserializeData_fields h
    · next hcontrol => exact absurd ((deserializeControl_fields h).symm.trans hdata) hcontrol

theorem reached_receiveCall {rlc : LteRlcAm} (hrx : Reached rlc.rx) (call : ReceiveCall) :
    ∃ rlc', rlc.receiveCall 512 call = some rlc' ∧ Reached rlc'.rx := by
  cases call with
  | dataPdu pdu =>
    obtain ⟨hsn, hflag⟩ := deserialize_fields pdu.deserialize pdu.isDataPdu
    obtain ⟨rx, hreceive, hrx'⟩ :=
      reached_receiveData hrx hsn hflag ⟨pdu.header, pdu.sdus, pdu.deserialize, pdu.split⟩
    refine ⟨{ rlc with rx }, ?_, hrx'⟩
    rw [receiveCall, doReceivePdu, pdu.deserialize, Option.bind_some, if_pos pdu.isDataPdu, hreceive, Option.map_some]
  | expireReorderingTimer =>
    rw [receiveCall, expireReorderingTimer]
    by_cases hrunning : rlc.rx.m_reorderingTimer = true
    · obtain ⟨rx, hexpire, hrx'⟩ := reached_expireReorderingTimer hrx hrunning
      rw [if_pos hrunning, hexpire, Option.map_some]
      exact ⟨_, rfl, hrx'⟩
    · rw [if_neg hrunning]
      exact ⟨rlc, rfl, hrx⟩

theorem reached_receiveCalls (rlc : LteRlcAm) (hrx : Reached rlc.rx) (calls : List ReceiveCall) :
    ∃ rlc', rlc.receiveCalls 512 calls = some rlc' ∧ Reached rlc'.rx := by
  induction calls generalizing rlc with
  | nil => exact ⟨rlc, rfl, hrx⟩
  | cons call calls ih =>
    obtain ⟨rlc₁, hcall, hrx₁⟩ := reached_receiveCall hrx call
    obtain ⟨rlc', hcalls, hrx'⟩ := ih rlc₁ hrx₁
    exact ⟨rlc', by rw [receiveCalls, hcall, Option.bind_some, hcalls], hrx'⟩

/-- After all calls, none of whose loops goes round more than 512 times, the state variables are in order. -/
theorem receive_state_variables (calls : List ReceiveCall) :
    ∃ rlc, receiveCalls 512 calls {} = some rlc ∧ WindowOrdered rlc.rx := by
  obtain ⟨rlc, hcalls, hrx⟩ := reached_receiveCalls {} reached_new calls
  exact ⟨rlc, hcalls, hrx.windowOrdered⟩

end LteRlcAm

end Ns3.Lte
