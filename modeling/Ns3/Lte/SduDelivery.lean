import Ns3.Lte.UmTransmitter

/-!
# The SDUs of PDUs that follow one another

What `ReassembleAndDeliver` makes of PDUs that carry what is between two marks in a list of SDUs. Of PDUs that come one
after the other every SDU is delivered, when its last byte has come. When PDUs are missing between them, those SDUs are
delivered of which nothing is missing.
-/

namespace Ns3.Lte

open Ns3.Lib

namespace Reassembly

/-! ### Where the first and the last segment of a PDU go -/

variable {r : Reassembly} {first last : Bytes} {rest : List Bytes}

theorem fullSdus_eq (r : Reassembly) :
    r.fullSdus = { r with
      m_reassemblingState := .waitingS0Full
      received := r.received ++ r.m_sdusBuffer
      m_sdusBuffer := [] } := rfl

theorem firstSegment_eq (hlast : r.m_sdusBuffer.getLast? = some last) :
    r.firstSegment = some { r with
      m_reassemblingState := .waitingSiSf
      received := r.received ++ r.m_sdusBuffer.dropLast
      m_keepS0 := some last
      m_sdusBuffer := [] } := by
  have hlast' : (r.waitIn .waitingSiSf).m_sdusBuffer.getLast? = some last := hlast
  rw [firstSegment, keepLast, hlast']
  rfl

theorem lostHead_eq (hbuffer : r.m_sdusBuffer = first :: rest) :
    r.lostHead = some { r with
      m_reassemblingState := .waitingS0Full
      received := r.received ++ rest
      m_sdusBuffer := [] } := by
  rw [lostHead, discardFirst_eq (r := r.waitIn .waitingS0Full) hbuffer]
  rfl

theorem lostMiddle_one (hbuffer : r.m_sdusBuffer = [first]) :
    r.lostMiddle = some { r with m_reassemblingState := .waitingS0Full, m_sdusBuffer := [] } := by
  simp [lostMiddle, discardFirst, waitIn, hbuffer]

theorem lostMiddle_eq (hbuffer : r.m_sdusBuffer = first :: rest) (hlast : rest.getLast? = some last) :
    r.lostMiddle = some { r with
      m_reassemblingState := .waitingSiSf
      received := r.received ++ rest.dropLast
      m_keepS0 := some last
      m_sdusBuffer := [] } := by
  have hne : rest ≠ [] := by
    rintro rfl
    cases hlast
  have hlength := List.length_pos_iff.mpr hne
  rw [lostMiddle, hbuffer, List.length_cons, if_neg (by omega), discardFirst_eq (r := r.waitIn .waitingSiSf) hbuffer,
    Option.bind_some, if_pos hlength, keepLast, hlast]
  rfl

theorem lastSegment_eq {kept : Bytes} (hkept : r.m_keepS0 = some kept) (hbuffer : r.m_sdusBuffer = first :: rest) :
    ∃ keepS0, r.lastSegment = some { r with
      m_reassemblingState := .waitingS0Full
      received := r.received ++ (kept ++ first) :: rest
      m_keepS0 := keepS0
      m_sdusBuffer := [] } := by
  rw [lastSegment, addToKept_eq (r := r.waitIn .waitingS0Full) hkept hbuffer]
  refine ⟨some (kept ++ first), ?_⟩
  show some (Reassembly.mk _ _ _ _ (r.received ++ [kept ++ first] ++ rest)) = _
  rw [List.append_assoc]
  rfl

theorem middleSegment_eq {kept : Bytes} (hkept : r.m_keepS0 = some kept) (hbuffer : r.m_sdusBuffer = first :: rest)
    (hlast : ((kept ++ first) :: rest).getLast? = some last) :
    r.middleSegment = some { r with
      m_reassemblingState := .waitingSiSf
      received := r.received ++ ((kept ++ first) :: rest).dropLast
      m_keepS0 := some last
      m_sdusBuffer := [] } := by
  have hadd := addToKept_eq (r := r.waitIn .waitingSiSf) hkept hbuffer
  have hbuffer' : (r.waitIn .waitingSiSf).m_sdusBuffer = first :: rest := hbuffer
  rw [middleSegment, hbuffer', hadd]
  cases rest with
  | nil =>
    cases hlast
    simp [waitIn]
  | cons next rest =>
    rw [List.getLast?_cons_cons] at hlast
    rw [if_neg (by simp), Option.bind_some, deliverKept, Option.map_some, Option.bind_some, keepLast, hlast]
    show some (Reassembly.mk _ _ _ _ (r.received ++ [kept ++ first] ++ (next :: rest).dropLast)) = _
    rw [List.append_assoc]
    rfl

end Reassembly

/-! ### PDUs one after the other -/

/-- The SDUs before a mark have been delivered, and of the one at the mark what is behind is kept. -/
structure Reassembled (sdus : List Bytes) (c : Mark) (e : Nat) (r : Reassembly) : Prop where
  buffer : r.m_sdusBuffer = []
  expected : r.m_expectedSeqNumber.m_value = e % 1024
  received : r.received = sdus.take c.item
  between : c.offset = 0 → r.m_reassemblingState = .waitingS0Full
  within : c.offset ≠ 0 → r.m_reassemblingState = .waitingSiSf ∧ r.m_keepS0 = some (c.begun sdus)

variable {sdus : List Bytes} {c c₁ c' : Mark} {e m : Nat} {r : Reassembly} {fields : DataFields} {data : Bytes}

theorem framing_closed (hc : c.offset = 0) (hc' : c'.offset = 0) : framingAt c c' = firstByte ||| lastByte := by
  rw [framingAt, if_pos hc, if_pos hc']

theorem framing_open (hc : c.offset = 0) (hc' : c'.offset ≠ 0) : framingAt c c' = firstByte ||| noLastByte := by
  rw [framingAt, if_pos hc, if_neg hc']

theorem framing_last (hc : c.offset ≠ 0) (hc' : c'.offset = 0) : framingAt c c' = noFirstByte ||| lastByte := by
  rw [framingAt, if_neg hc, if_pos hc']

theorem framing_middle (hc : c.offset ≠ 0) (hc' : c'.offset ≠ 0) : framingAt c c' = noFirstByte ||| noLastByte := by
  rw [framingAt, if_neg hc, if_neg hc']

/-- The next PDU. -/
theorem Reassembled.next (h : Reassembled sdus c e r) (hfields : Between sdus c c' e fields data) (discards : Bool) :
    ∃ r', r.reassembleAndDeliver discards fields data = some r' ∧ Reassembled sdus c' (e + 1) r' := by
  obtain ⟨pieces, hpieces, hcut⟩ := hfields.pieces
  obtain ⟨first, rest, rfl, hclosed, hopen⟩ := hcut.joined
  have hsn : r.expectedSnLost fields.sequenceNumber = false := by
    rw [Reassembly.expectedSnLost, hfields.sequenceNumber, h.expected]
    exact bne_self_eq_false _
  have hexpect : r.expectNext fields.sequenceNumber (first :: rest) = { r with
      m_expectedSeqNumber := r.m_expectedSeqNumber.incr
      m_sdusBuffer := first :: rest } := by
    rw [Reassembly.expectNext, hsn, h.buffer]
    rfl
  have hnext : r.m_expectedSeqNumber.incr.m_value = (e + 1) % 1024 := by
    show (r.m_expectedSeqNumber.m_value + 1) % 1024 = _
    rw [h.expected, Nat.mod_add_mod]
  rw [Reassembly.reassembleAndDeliver, hpieces, Option.bind_some, hsn, hexpect, hfields.framingInfo, Reassembly.withoutLosses]
  by_cases hc : c.offset = 0
  · rw [CutInto.begun_of_zero hc, List.nil_append] at hclosed hopen
    simp only [h.between hc]
    by_cases hc' : c'.offset = 0
    · rw [framing_closed hc hc', if_pos rfl]
      refine ⟨_, rfl, rfl, hnext, ?_, fun _ => rfl, fun hne => absurd hc' hne⟩
      rw [hclosed hc', ← h.received]
      rfl
    · obtain ⟨htake, hlast⟩ := hopen hc'
      rw [framing_open hc hc', if_neg (by decide), if_pos rfl, Reassembly.firstSegment_eq hlast]
      refine ⟨_, rfl, rfl, hnext, ?_, fun hzero => absurd hzero hc', fun _ => ⟨rfl, rfl⟩⟩
      rw [htake, ← h.received]
  · obtain ⟨hstate, hkept⟩ := h.within hc
    simp only [hstate]
    by_cases hc' : c'.offset = 0
    · rw [framing_last hc hc', if_pos rfl]
      obtain ⟨keepS0, heq⟩ := Reassembly.lastSegment_eq (r := { r with
        m_expectedSeqNumber := r.m_expectedSeqNumber.incr
        m_sdusBuffer := first :: rest }) hkept rfl
      refine ⟨_, heq, rfl, hnext, ?_, fun _ => rfl, fun hne => absurd hc' hne⟩
      rw [hclosed hc', ← h.received]
    · obtain ⟨htake, hlast⟩ := hopen hc'
      rw [framing_middle hc hc', if_neg (by decide), if_pos rfl]
      have heq := Reassembly.middleSegment_eq (r := { r with
        m_expectedSeqNumber := r.m_expectedSeqNumber.incr
        m_sdusBuffer := first :: rest }) hkept rfl hlast
      refine ⟨_, heq, rfl, hnext, ?_, fun hzero => absurd hzero hc', fun _ => ⟨rfl, rfl⟩⟩
      rw [htake, ← h.received]

/-- More SDUs are accepted. -/
theorem Reassembled.append (h : Reassembled sdus c e r) (hc : c.Within sdus) (added : List Bytes) :
    Reassembled (sdus ++ added) c e r where
  buffer := h.buffer
  expected := h.expected
  received := h.received.trans (hc.take_append added).symm
  between := h.between
  within hne := by
    rw [hc.begun_append hne]
    exact h.within hne

/-! ### PDUs with others missing between them -/

/-- Of the SDUs before a mark some have been delivered, in their order; if the reassembly waits for the rest of one, then
for that at the mark. -/
structure Partly (sdus : List Bytes) (c : Mark) (e : Nat) (r : Reassembly) : Prop where
  buffer : r.m_sdusBuffer = []
  expected : r.m_expectedSeqNumber.m_value = e % 1024
  received : r.received.Sublist (sdus.take c.item)
  state : r.m_reassemblingState = .waitingS0Full ∨
    r.m_reassemblingState = .waitingSiSf ∧ c.offset ≠ 0 ∧ r.m_keepS0 = some (c.begun sdus)

/-- What is done with a PDU for which nothing was kept. -/
def Reassembly.fresh (c c' : Mark) (r : Reassembly) : Option Reassembly :=
  if c.offset = 0 then if c'.offset = 0 then some r.fullSdus else r.firstSegment
  else if c'.offset = 0 then r.lostHead else r.lostMiddle

section Framing

variable (c c' : Mark)

theorem withLosses_fresh (hstate : r.m_reassemblingState = .waitingS0Full) :
    r.withLosses (framingAt c c') = r.fresh c c' := by
  rw [Reassembly.withLosses, hstate, Reassembly.fresh, framingAt]
  by_cases hc : c.offset = 0 <;> by_cases hc' : c'.offset = 0 <;> simp only [hc, hc', if_true, if_false] <;> rfl

theorem withLosses_discard (hstate : r.m_reassemblingState = .waitingSiSf) :
    r.withLosses (framingAt c c') = r.discardKept.fresh c c' := by
  rw [Reassembly.withLosses, hstate, Reassembly.fresh, framingAt]
  by_cases hc : c.offset = 0 <;> by_cases hc' : c'.offset = 0 <;> simp only [hc, hc', if_true, if_false] <;> rfl

theorem withoutLosses_fresh (hstate : r.m_reassemblingState = .waitingS0Full) :
    r.withoutLosses true (framingAt c c') = r.fresh c c' := by
  rw [Reassembly.withoutLosses, hstate, Reassembly.fresh, framingAt]
  by_cases hc : c.offset = 0 <;> by_cases hc' : c'.offset = 0 <;> simp only [hc, hc', if_true, if_false] <;> rfl

end Framing

theorem sublist_append_last {received sdus joined : List Bytes} {first : Bytes} {rest : List Bytes}
    (h : received.Sublist sdus) (hjoined : joined = sdus ++ first :: rest) : (received ++ rest).Sublist joined := by
  rw [hjoined]
  exact h.append (List.sublist_cons_self _ _)

/-- The SDUs of which all is in the PDU are delivered. -/
theorem partly_fresh {pieces : List Bytes} (hcut : CutInto sdus c pieces c') (hbuffer : r.m_sdusBuffer = pieces)
    (hexpected : r.m_expectedSeqNumber.m_value = e % 1024) (hreceived : r.received.Sublist (sdus.take c.item)) :
    ∃ r', r.fresh c c' = some r' ∧ Partly sdus c' e r' := by
  obtain ⟨first, rest, rfl, hclosed, hopen⟩ := hcut.joined
  rw [Reassembly.fresh]
  by_cases hc : c.offset = 0
  · rw [CutInto.begun_of_zero hc, List.nil_append] at hclosed hopen
    rw [if_pos hc]
    by_cases hc' : c'.offset = 0
    · rw [if_pos hc', Reassembly.fullSdus_eq]
      refine ⟨_, rfl, rfl, hexpected, ?_, .inl rfl⟩
      rw [hclosed hc']
      exact hreceived.append (by rw [hbuffer])
    · obtain ⟨htake, hlast⟩ := hopen hc'
      rw [if_neg hc', Reassembly.firstSegment_eq (by rw [hbuffer]; exact hlast)]
      refine ⟨_, rfl, rfl, hexpected, ?_, .inr ⟨rfl, hc', rfl⟩⟩
      rw [htake]
      exact hreceived.append (by rw [hbuffer])
  · rw [if_neg hc]
    by_cases hc' : c'.offset = 0
    · rw [if_pos hc', Reassembly.lostHead_eq hbuffer]
      exact ⟨_, rfl, rfl, hexpected, sublist_append_last hreceived (hclosed hc'), .inl rfl⟩
    · obtain ⟨htake, hlast⟩ := hopen hc'
      rw [if_neg hc']
      cases rest with
      | nil =>
        rw [Reassembly.lostMiddle_one hbuffer]
        refine ⟨_, rfl, rfl, hexpected, ?_, .inl rfl⟩
        rw [htake]
        exact hreceived.trans (List.sublist_append_left _ _)
      | cons next rest =>
        rw [List.getLast?_cons_cons] at hlast
        rw [Reassembly.lostMiddle_eq hbuffer hlast]
        exact ⟨_, rfl, rfl, hexpected, sublist_append_last hreceived htake, .inr ⟨rfl, hc', rfl⟩⟩

/-- A PDU that is not before the expected one. -/
theorem Partly.next (h : Partly sdus c e r) (hfields : Between sdus c₁ c' m fields data) (hle : e ≤ m) (hlt : m < e + 1024)
    (hitem : c.item ≤ c₁.item) (hsame : m = e → c₁ = c) :
    ∃ r', r.reassembleAndDeliver true fields data = some r' ∧ Partly sdus c' (m + 1) r' := by
  obtain ⟨pieces, hpieces, hcut⟩ := hfields.pieces
  have hreceived : r.received.Sublist (sdus.take c₁.item) := h.received.trans (List.take_sublist_take_left hitem)
  have hlost : r.expectedSnLost fields.sequenceNumber = decide (m ≠ e) := by
    rw [Reassembly.expectedSnLost, hfields.sequenceNumber, h.expected, Bool.eq_iff_iff]
    simp only [bne_iff_ne, decide_eq_true_eq]
    omega
  have hexpected : (r.expectNext fields.sequenceNumber pieces).m_expectedSeqNumber.m_value = (m + 1) % 1024 := by
    rw [Reassembly.expectNext, hlost]
    by_cases heq : m = e
    · simp only [heq, ne_eq, not_true_eq_false, decide_false, Bool.false_eq_true, if_false]
      show (r.m_expectedSeqNumber.m_value + 1) % 1024 = _
      rw [h.expected, Nat.mod_add_mod]
    · simp only [heq, ne_eq, not_false_eq_true, decide_true, if_true]
      show (fields.sequenceNumber.m_value + 1) % 1024 = _
      rw [hfields.sequenceNumber, Nat.mod_add_mod]
  have hbuffer : (r.expectNext fields.sequenceNumber pieces).m_sdusBuffer = pieces := by
    show r.m_sdusBuffer ++ pieces = _
    rw [h.buffer]
    rfl
  have hfresh := partly_fresh hcut hbuffer hexpected hreceived
  have hdiscard := partly_fresh (r := (r.expectNext fields.sequenceNumber pieces).discardKept) hcut hbuffer hexpected hreceived
  rw [Reassembly.reassembleAndDeliver, hpieces, Option.bind_some, hlost, hfields.framingInfo]
  by_cases heq : m = e
  · rw [if_neg (by simp [heq])]
    rcases h.state with hstate | ⟨hstate, hoffset, hkept⟩
    · rw [withoutLosses_fresh (r := r.expectNext fields.sequenceNumber pieces) c₁ c' hstate]
      exact hfresh
    · obtain rfl := hsame heq
      obtain ⟨first, rest, rfl, hclosed, hopen⟩ := hcut.joined
      have hstate' : (r.expectNext fields.sequenceNumber (first :: rest)).m_reassemblingState = .waitingSiSf := hstate
      have hkept' : (r.expectNext fields.sequenceNumber (first :: rest)).m_keepS0 = some (c₁.begun sdus) := hkept
      rw [Reassembly.withoutLosses, hstate']
      dsimp only
      by_cases hc' : c'.offset = 0
      · rw [framing_last hoffset hc', if_pos rfl]
        obtain ⟨keepS0, hnext⟩ := Reassembly.lastSegment_eq hkept' hbuffer
        refine ⟨_, hnext, rfl, hexpected, ?_, .inl rfl⟩
        rw [hclosed hc']
        exact h.received.append (List.Sublist.refl _)
      · obtain ⟨htake, hlast⟩ := hopen hc'
        rw [framing_middle hoffset hc', if_neg (by decide), if_pos rfl]
        refine ⟨_, Reassembly.middleSegment_eq hkept' hbuffer hlast, rfl, hexpected, ?_, .inr ⟨rfl, hc', rfl⟩⟩
        rw [htake]
        exact h.received.append (List.Sublist.refl _)
  · rw [if_pos (decide_eq_true heq)]
    rcases h.state with hstate | ⟨hstate, -, -⟩
    · rw [withLosses_fresh (r := r.expectNext fields.sequenceNumber pieces) c₁ c' hstate]
      exact hfresh
    · rw [withLosses_discard (r := r.expectNext fields.sequenceNumber pieces) c₁ c' hstate]
      exact hdiscard

/-- More SDUs are accepted. -/
theorem Partly.append (h : Partly sdus c e r) (hc : c.Within sdus) (added : List Bytes) : Partly (sdus ++ added) c e r where
  buffer := h.buffer
  expected := h.expected
  received := by
    rw [hc.take_append added]
    exact h.received
  state := h.state.imp_right fun hwaiting => by
    rw [hc.begun_append hwaiting.2.1]
    exact hwaiting

end Ns3.Lte
