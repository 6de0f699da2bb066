import Ns3.Lte.AmReceiveState
import Ns3.Lte.RlcRoundTrip

/-!
# The STATUS PDUs of AM

What `DoNotifyTxOpportunity` of `src/lte/model/lte-rlc-am.cc` reports of the receiving side, after any calls, whatever
came in before. The loop over VR(R) to VR(MS) ends where no more NACK fits, and the one behind it at the first sequence
number that is not received.
-/

namespace Ns3.Lte

open Ns3.Lib

namespace AmReceiver

variable {buffer : AList fun _ : Nat => PduBuffer} {rx rx' : AmReceiver} {r ms h x y : Nat}
  {seqNumber : SequenceNumber10} {packet : Bytes}

/-! ### What holds of a receiving side whatever it receives -/

/-- What is received completely lies from the number `low` on and below `high`. -/
def Completes (buffer : AList fun _ : Nat => PduBuffer) (low high : Nat) : Prop :=
  ∀ sn, complete buffer sn = true → ∃ y, low ≤ y ∧ y < high ∧ sn = y % 1024

/-- The state variables between the steps, as in `Between`, of a buffer with any PDUs. -/
structure Ordered (rx : AmReceiver) (r ms h x : Nat) : Prop where
  vrR : rx.m_vrR.Stands r r
  vrMs : rx.m_vrMs.Stands r ms
  vrH : rx.m_vrH.Stands r h
  vrX : rx.m_vrX.Stands r x
  vrR_le : r ≤ ms
  vrMs_le : ms ≤ h
  vrH_le : h ≤ r + 512
  completes : Completes rx.m_rxonBuffer r h
  statusPduBufferSize : rx.m_statusPduBufferSize ≤ 4

/-- The state variables between calls. -/
structure Windowed (rx : AmReceiver) (r ms h x : Nat) : Prop extends Ordered rx r ms h x where
  vrMr : rx.m_vrMr.Stands r (r + 512)
  vrMs_incomplete : complete rx.m_rxonBuffer (ms % 1024) = false
  timer : rx.m_reorderingTimer = true → r < x ∧ x ≤ h

theorem complete_insert (k : Nat) (pdu : PduBuffer) (sn : Nat) :
    complete (buffer.insert k pdu) sn = if sn = k then pdu.m_pduComplete else complete buffer sn := by
  unfold complete
  split_ifs with heq
  · rw [heq, AList.lookup_insert]
  · rw [AList.lookup_insert_ne heq]

theorem complete_erase (k sn : Nat) :
    complete (buffer.erase k) sn = if sn = k then false else complete buffer sn := by
  unfold complete
  split_ifs with heq
  · rw [heq, AList.lookup_erase]
  · rw [AList.lookup_erase_ne heq]

/-- A number that is received completely is in the range. -/
theorem Completes.lt {low high : Nat} (hc : Completes buffer low high) (hx : complete buffer (x % 1024) = true)
    (hlow : low ≤ x) (hhigh : x ≤ high) (hrange : high ≤ low + 512) : x < high := by
  obtain ⟨y, hy, hy', heq⟩ := hc _ hx
  omega

/-- The loop ends at the first number that is not received completely. -/
theorem rounds_vrMsTurn_leaves {low high first limit last : Nat} {vrMs vrMs' : SequenceNumber10} (hc : Completes buffer low high)
    (hlow : low ≤ first) (hfirst : first ≤ high) (hrange : high ≤ low + 512) (hvrMs : vrMs.Stands r first)
    (hrounds : rounds (vrMsTurn buffer last) limit vrMs = some vrMs') :
    ∃ m, vrMs'.Stands r m ∧ first ≤ m ∧ m ≤ high ∧ complete buffer (m % 1024) = false := by
  refine rounds_of_invariant (I := fun (n : SequenceNumber10) => ∃ m, n.Stands r m ∧ first ≤ m ∧ m ≤ high)
    (J := fun n => ∃ m, n.Stands r m ∧ first ≤ m ∧ m ≤ high ∧ complete buffer (m % 1024) = false) ?_
    ⟨first, hvrMs, Nat.le_refl _, hfirst⟩ hrounds
  rintro n t ⟨m, hn, hm, hm'⟩ ht
  rw [vrMsTurn, hn.value] at ht
  split at ht
  · next hcomplete =>
    split at ht
    · cases ht
    · cases ht
      have hlt := hc.lt hcomplete (hlow.trans hm) hm' hrange
      exact ⟨m + 1, hn.incr, by omega, hlt⟩
  · next hcomplete =>
    cases ht
    exact ⟨m, hn, hm, hm', Bool.eq_false_iff.mpr hcomplete⟩

theorem Ordered.place (ho : Ordered rx r ms h x) (hseq : seqNumber.Stands r y) (hy : r ≤ y)
    (hplace : rx.place seqNumber packet = some rx') :
    ∃ buffer, rx' = { rx with m_rxonBuffer := buffer } ∧ Completes buffer r (max h (y + 1)) := by
  have hgrow : Completes rx.m_rxonBuffer r (max h (y + 1)) := fun sn hsn => by
    obtain ⟨z, hz, hz', heq⟩ := ho.completes sn hsn
    exact ⟨z, hz, by omega, heq⟩
  rw [AmReceiver.place, hseq.value] at hplace
  split at hplace
  · split at hplace
    · cases hplace
      exact ⟨rx.m_rxonBuffer, rfl, hgrow⟩
    · cases hplace
  · cases hplace
    refine ⟨_, rfl, fun sn hsn => ?_⟩
    rw [complete_insert] at hsn
    split_ifs at hsn with heq
    · exact ⟨y, hy, by omega, heq⟩
    · exact hgrow sn hsn

theorem Ordered.updateVrMs {limit : Nat} (ho : Ordered rx r ms h x) (hupdate : rx.updateVrMs limit = some rx') :
    ∃ vrMs last, rx' = { rx with m_vrMs := vrMs } ∧ Ordered { rx with m_vrMs := vrMs } r last h x ∧
      complete rx.m_rxonBuffer (last % 1024) = false := by
  rw [AmReceiver.updateVrMs] at hupdate
  obtain ⟨vrMs, hrounds, rfl⟩ := Option.map_eq_some_iff.mp hupdate
  obtain ⟨last, hvrMs, hle, hle', hincomplete⟩ :=
    rounds_vrMsTurn_leaves ho.completes ho.vrR_le ho.vrMs_le ho.vrH_le ho.vrMs hrounds
  exact ⟨vrMs, last, rfl, { ho with vrMs := hvrMs, vrR_le := ho.vrR_le.trans hle, vrMs_le := hle' }, hincomplete⟩

/-- A PDU that is delivered leaves the buffer, and VR(R) is one more. -/
theorem Ordered.incrVrR (ho : Ordered rx r ms h x) (hlt : r < ms) (reassembly : Reassembly) :
    Ordered { rx with reassembly, m_rxonBuffer := rx.m_rxonBuffer.erase rx.m_vrR.m_value }.incrVrR (r + 1) ms h x where
  vrR := ho.vrR.incr.setModulusBase ho.vrR.incr.value
  vrMs := ho.vrMs.setModulusBase ho.vrR.incr.value
  vrH := ho.vrH.setModulusBase ho.vrR.incr.value
  vrX := ho.vrX.setModulusBase ho.vrR.incr.value
  vrR_le := hlt
  vrMs_le := ho.vrMs_le
  vrH_le := by
    have := ho.vrH_le
    omega
  completes := by
    intro sn hsn
    have hsn : complete (rx.m_rxonBuffer.erase rx.m_vrR.m_value) sn = true := hsn
    rw [complete_erase] at hsn
    split_ifs at hsn with heq
    obtain ⟨y, hy, hy', rfl⟩ := ho.completes sn hsn
    refine ⟨y, Nat.lt_of_le_of_ne hy ?_, hy', rfl⟩
    rintro rfl
    exact heq ho.vrR.value.symm
  statusPduBufferSize := ho.statusPduBufferSize

/-- The loop ends at VR(MS) the latest. -/
theorem Ordered.rounds_deliverTurn {limit first : Nat} (ho : Ordered rx r ms h x)
    (hms : complete rx.m_rxonBuffer (ms % 1024) = false) (hrounds : rounds (deliverTurn first) limit rx = some rx') :
    ∃ r', Ordered rx' r' ms h x ∧ r ≤ r' ∧ complete rx'.m_rxonBuffer (ms % 1024) = false ∧
      rx'.m_reorderingTimer = rx.m_reorderingTimer := by
  refine rounds_of_invariant (I := fun (s : AmReceiver) => ∃ m, Ordered s m ms h x ∧ r ≤ m ∧
    complete s.m_rxonBuffer (ms % 1024) = false ∧ s.m_reorderingTimer = rx.m_reorderingTimer)
    (J := fun s => ∃ m, Ordered s m ms h x ∧ r ≤ m ∧
      complete s.m_rxonBuffer (ms % 1024) = false ∧ s.m_reorderingTimer = rx.m_reorderingTimer) ?_
    ⟨r, ho, Nat.le_refl _, hms, rfl⟩ hrounds
  rintro s t ⟨m, hs, hm, hincomplete, htimer⟩ ht
  rw [deliverTurn, hs.vrR.value] at ht
  split at ht
  · cases ht
    exact ⟨m, hs, hm, hincomplete, htimer⟩
  · next pdu hpdu =>
    split at ht
    · next hpduComplete =>
      split at ht
      · obtain ⟨reassembly, -, ht⟩ := Option.bind_eq_some_iff.mp ht
        have hlt : m < ms := Nat.lt_of_le_of_ne hs.vrR_le fun heq => by
          rw [complete, ← heq, hpdu] at hincomplete
          exact Bool.false_ne_true (hincomplete.symm.trans hpduComplete)
        have hnext := hs.incrVrR hlt reassembly
        rw [hs.vrR.value] at hnext
        dsimp only at ht
        split at ht
        · cases ht
        · cases ht
          refine ⟨m + 1, hnext, by omega, ?_, htimer⟩
          show complete (s.m_rxonBuffer.erase (m % 1024)) (ms % 1024) = false
          rw [complete_erase, hincomplete, ite_self]
      · cases ht
    · cases ht
      exact ⟨m, hs, hm, hincomplete, htimer⟩

theorem Ordered.deliver {limit : Nat} (ho : Ordered rx r ms h x) (hms : complete rx.m_rxonBuffer (ms % 1024) = false)
    (hvrMr : rx.m_vrMr.Stands r (r + 512)) (hdeliver : rx.deliver limit seqNumber = some rx') :
    ∃ r', Ordered rx' r' ms h x ∧ r ≤ r' ∧ rx'.m_vrMr.Stands r' (r' + 512) ∧
      complete rx'.m_rxonBuffer (ms % 1024) = false ∧ rx'.m_reorderingTimer = rx.m_reorderingTimer := by
  rw [AmReceiver.deliver] at hdeliver
  split at hdeliver
  · obtain ⟨rx₁, hrounds, rfl⟩ := Option.map_eq_some_iff.mp hdeliver
    obtain ⟨r', ho', hr', hincomplete, htimer⟩ := ho.rounds_deliverTurn hms hrounds
    refine ⟨r', ?_, hr', ho'.vrR.add windowSize, hincomplete, htimer⟩
    exact ⟨ho'.vrR, ho'.vrMs, ho'.vrH, ho'.vrX, ho'.vrR_le, ho'.vrMs_le, ho'.vrH_le, ho'.completes,
      ho'.statusPduBufferSize⟩
  · cases hdeliver
    exact ⟨r, ho, Nat.le_refl _, hvrMr, hms, rfl⟩

/-- The receiving side with an empty buffer: the timers look at the state variables only. -/
def emptied (rx : AmReceiver) : AmReceiver := { rx with m_rxonBuffer := ∅, reassembly := {} }

theorem Ordered.emptied_between (ho : Ordered rx r ms h x) : Between rx.emptied r ms h x :=
  ⟨ho.vrR, ho.vrMs, ho.vrH, ho.vrX, ho.vrR_le, ho.vrMs_le, ho.vrH_le, (fun _ _ hpdu => nomatch hpdu),
    ReassemblingState.noConfusion⟩

theorem stopReordering_emptied (rx : AmReceiver) :
    rx.stopReordering =
      rx.emptied.stopReordering.map fun s => { s with m_rxonBuffer := rx.m_rxonBuffer, reassembly := rx.reassembly } := by
  unfold stopReordering isInsideReceivingWindow emptied
  dsimp only
  split_ifs
  · rfl
  · generalize SequenceNumber10.le _ _ = low
    generalize SequenceNumber10.lt _ _ = inside
    cases low with
    | none => rfl
    | some low =>
      cases low with
      | false =>
        dsimp only [Option.bind_some, Option.map_some]
        simp only [Bool.false_eq_true, if_false, Option.map_some]
        split_ifs <;> rfl
      | true =>
        cases inside with
        | none => rfl
        | some inside =>
          dsimp only [Option.bind_some, Option.map_some]
          simp only [if_true, Option.map_some]
          split_ifs <;> rfl
  · rfl

theorem startReordering_emptied (rx : AmReceiver) :
    rx.startReordering =
      rx.emptied.startReordering.map fun s => { s with m_rxonBuffer := rx.m_rxonBuffer, reassembly := rx.reassembly } := by
  unfold startReordering emptied
  dsimp only
  split_ifs
  · rfl
  · rw [Option.map_map]
    congr 1
    funext gt
    cases gt <;> rfl

/-- The states that a receiving side may be in between calls. -/
def Ready (rx : AmReceiver) : Prop := ∃ r ms h x, Windowed rx r ms h x

theorem ready_new : Ready {} :=
  ⟨0, 0, 0, 0, ⟨⟨rfl, rfl⟩, ⟨rfl, rfl⟩, ⟨rfl, rfl⟩, ⟨rfl, rfl⟩, Nat.le_refl _, Nat.le_refl _, Nat.zero_le _,
    (fun _ hsn => nomatch hsn), Nat.zero_le _⟩, ⟨rfl, rfl⟩, rfl, Bool.noConfusion⟩

/-- The timer is stopped, if it is, and started again, if there is something behind VR(R). -/
theorem Ordered.timers {r₀ : Nat} (ho : Ordered rx r ms h x) (hvrMr : rx.m_vrMr.Stands r (r + 512))
    (hms : complete rx.m_rxonBuffer (ms % 1024) = false) (hr : r ≤ r₀ + 512)
    (htimer : rx.m_reorderingTimer = true → r₀ < x ∧ x ≤ h) (htimers : rx.stopReordering.bind startReordering = some rx') :
    Ready rx' := by
  obtain ⟨stopped, hstop, hstopped⟩ := stopReordering_eq ho.emptied_between hvrMr hr htimer
  rw [stopReordering_emptied, hstop, Option.map_some, Option.bind_some] at htimers
  have ho₁ : Ordered { rx with m_reorderingTimer := stopped } r ms h x :=
    ⟨ho.vrR, ho.vrMs, ho.vrH, ho.vrX, ho.vrR_le, ho.vrMs_le, ho.vrH_le, ho.completes, ho.statusPduBufferSize⟩
  obtain ⟨vrX, started, x', hstart, hvrX, hstarted⟩ := startReordering_eq ho₁.emptied_between hstopped
  change startReordering { rx with m_reorderingTimer := stopped } = some rx' at htimers
  rw [startReordering_emptied, hstart, Option.map_some] at htimers
  cases htimers
  exact ⟨r, ms, h, x', ⟨ho.vrR, ho.vrMs, ho.vrH, hvrX, ho.vrR_le, ho.vrMs_le, ho.vrH_le, ho.completes,
    ho.statusPduBufferSize⟩, hvrMr, hms, hstarted⟩

theorem Windowed.requestStatus (hw : Windowed rx r ms h x) (header : LteRlcAmHeader) :
    Windowed (rx.requestStatus header) r ms h x := by
  rw [AmReceiver.requestStatus]
  split
  · exact ⟨⟨hw.vrR, hw.vrMs, hw.vrH, hw.vrX, hw.vrR_le, hw.vrMs_le, hw.vrH_le, hw.completes, Nat.le_refl 4⟩, hw.vrMr,
      hw.vrMs_incomplete, hw.timer⟩
  · exact hw

theorem ready_receiveData {limit : Nat} {header : LteRlcAmHeader} (hready : Ready rx)
    (hsn : header.m_sequenceNumber.m_value < 1024) (hreceive : rx.receiveData limit header packet = some rx') :
    Ready rx' := by
  obtain ⟨r, ms, h, x, hw₀⟩ := hready
  obtain ⟨y, hseq, hy, hy'⟩ := exists_stands hsn hw₀.vrR
  have hw := hw₀.requestStatus header
  rw [receiveData] at hreceive
  split at hreceive
  · generalize rx.requestStatus header = rx at hw hreceive
    rw [isInsideReceivingWindow_eq hw.vrR hw.vrMr hseq hy hy', Option.bind_some] at hreceive
    by_cases hin : y < r + 512
    · have hr_le := hw.vrR_le.trans hw.vrMs_le
      have hvrH_le := hw.vrH_le
      have hvrMs_le := hw.vrMs_le
      rw [decide_eq_true hin] at hreceive
      -- VR(H), VR(MS), VR(R) and VR(X) move in this order
      obtain ⟨rx₁, hplace, hreceive⟩ := Option.bind_eq_some_iff.mp hreceive
      obtain ⟨buffer, rfl, hcompletes⟩ := hw.place hseq hy hplace
      obtain ⟨vrH, hupdate, hvrH⟩ :=
        updateVrH_eq { rx with m_rxonBuffer := buffer } hseq hw.vrH hy hin hr_le hvrH_le
      rw [hupdate, Option.bind_some] at hreceive
      obtain ⟨rx₂, hvrMs, hreceive⟩ := Option.bind_eq_some_iff.mp hreceive
      have ho : Ordered { rx with m_rxonBuffer := buffer, m_vrH := vrH } r ms (max h (y + 1)) x :=
        ⟨hw.vrR, hw.vrMs, hvrH, hw.vrX, hw.vrR_le, by omega, by omega, hcompletes, hw.statusPduBufferSize⟩
      obtain ⟨vrMs, last, rfl, ho₂, hlast⟩ := ho.updateVrMs hvrMs
      obtain ⟨rx₃, hdeliver, hreceive⟩ := Option.bind_eq_some_iff.mp hreceive
      obtain ⟨r₃, ho₃, hr₃, hvrMr₃, hlast₃, htimer₃⟩ := ho₂.deliver hlast hw.vrMr hdeliver
      have hvrMs_le₃ := ho₃.vrR_le.trans ho₃.vrMs_le
      have htimer : rx₃.m_reorderingTimer = true → r < x ∧ x ≤ max h (y + 1) := fun hrunning => by
        have := hw.timer (htimer₃.symm.trans hrunning)
        omega
      exact ho₃.timers hvrMr₃ hlast₃ (by omega) htimer hreceive
    · rw [decide_eq_false hin] at hreceive
      cases hreceive
      exact ⟨r, ms, h, x, hw⟩
  · cases hreceive

theorem ready_expireReorderingTimer {limit : Nat} (hready : Ready rx) (hrunning : rx.m_reorderingTimer = true)
    (hexpire : rx.expireReorderingTimer limit = some rx') : Ready rx' := by
  obtain ⟨r, ms, h, x, hw⟩ := hready
  obtain ⟨hx, hx'⟩ := hw.timer hrunning
  have hvrH_le := hw.vrH_le
  rw [expireReorderingTimer] at hexpire
  obtain ⟨vrMs, hrounds, hexpire⟩ := Option.bind_eq_some_iff.mp hexpire
  obtain ⟨last, hvrMs, hle, hle', hincomplete⟩ :=
    rounds_vrMsTurn_leaves hw.completes hx.le hx' hvrH_le hw.vrX hrounds
  rw [hw.vrH.gt_eq hvrMs (by omega) (by omega) (by omega) (by omega), Option.map_some] at hexpire
  by_cases hlt : last < h
  · rw [decide_eq_true hlt] at hexpire
    cases hexpire
    exact ⟨r, last, h, h, ⟨hw.vrR, hvrMs, hw.vrH, hw.vrH, by omega, hle', hvrH_le, hw.completes,
      hw.statusPduBufferSize⟩, hw.vrMr, hincomplete, fun _ => ⟨by omega, Nat.le_refl _⟩⟩
  · rw [decide_eq_false hlt] at hexpire
    cases hexpire
    exact ⟨r, last, h, x, ⟨hw.vrR, hvrMs, hw.vrH, hw.vrX, by omega, hle', hvrH_le, hw.completes,
      hw.statusPduBufferSize⟩, hw.vrMr, hincomplete, Bool.noConfusion⟩

/-- A STATUS PDU changes no more than what asked for it. -/
theorem ready_sendStatus {limit bytes : Nat} {pdu : Bytes} (hready : Ready rx)
    (hsend : rx.sendStatus limit bytes = some (pdu, rx')) : Ready rx' := by
  obtain ⟨r, ms, h, x, hw⟩ := hready
  rw [sendStatus] at hsend
  split at hsend
  · obtain ⟨nacked, -, hsend⟩ := Option.bind_eq_some_iff.mp hsend
    obtain ⟨sn, -, hsend⟩ := Option.bind_eq_some_iff.mp hsend
    obtain ⟨le, -, hsend⟩ := Option.bind_eq_some_iff.mp hsend
    split at hsend
    · obtain ⟨written, -, hsend⟩ := Option.bind_eq_some_iff.mp hsend
      obtain ⟨packet, -, hsend⟩ := Option.map_eq_some_iff.mp hsend
      cases hsend
      exact ⟨r, ms, h, x, ⟨hw.vrR, hw.vrMs, hw.vrH, hw.vrX, hw.vrR_le, hw.vrMs_le, hw.vrH_le, hw.completes,
        Nat.zero_le _⟩, hw.vrMr, hw.vrMs_incomplete, hw.timer⟩
    · cases hsend
  · cases hsend

/-! ### What a STATUS PDU reports -/

/-- The `n`-th sequence number from VR(R) on. -/
def snAt (rx : AmReceiver) (n : Nat) : Nat := (rx.m_vrR.m_value + n) % 1024

/-- Those of the first `n` sequence numbers from VR(R) on that are not received completely, in order. -/
def unreceived (rx : AmReceiver) (n : Nat) : List Nat :=
  ((List.range n).map rx.snAt).filter fun sn => !complete rx.m_rxonBuffer sn

/-- How many sequence numbers there are from VR(R) on and before VR(MS). -/
def pending (rx : AmReceiver) : Nat := rx.past rx.m_vrMs.m_value

theorem unreceived_succ (rx : AmReceiver) (n : Nat) :
    rx.unreceived (n + 1) =
      if complete rx.m_rxonBuffer (rx.snAt n) then rx.unreceived n else rx.unreceived n ++ [rx.snAt n] := by
  rw [unreceived, List.range_succ, List.map_append, List.filter_append, List.map_singleton, List.filter_singleton,
    ← unreceived]
  cases complete rx.m_rxonBuffer (rx.snAt n)
  · rfl
  · exact List.append_nil _

theorem unreceived_length_le (rx : AmReceiver) (n : Nat) : (rx.unreceived n).length ≤ n :=
  (List.length_filter_le _ _).trans_eq (by rw [List.length_map, List.length_range])

theorem unreceived_length_mono (rx : AmReceiver) {m n : Nat} (hmn : m ≤ n) :
    (rx.unreceived m).length ≤ (rx.unreceived n).length := by
  induction n, hmn using Nat.le_induction with
  | base => exact Nat.le_refl _
  | succ n _ ih =>
    rw [unreceived_succ]
    split_ifs
    · exact ih
    · rw [List.length_append]
      exact ih.trans (Nat.le_add_right _ _)

theorem mem_unreceived {n sn : Nat} :
    sn ∈ rx.unreceived n ↔ (∃ i < n, rx.snAt i = sn) ∧ complete rx.m_rxonBuffer sn = false := by
  rw [unreceived, List.mem_filter, List.mem_map, Bool.not_eq_true']
  simp only [List.mem_range]

theorem Ordered.pending_eq (ho : Ordered rx r ms h x) : rx.pending = ms - r := by
  have hvrMs_le := ho.vrMs_le
  have hvrH_le := ho.vrH_le
  rw [pending, ho.vrMs.value, past_eq ho.vrR ho.vrR_le (by omega)]

/-- One more NACK fits behind so many. -/
def Fits (bytes : UInt16) (n : Nat) : Prop :=
  if n % 2 = 0 then 2 + fieldsSize n < bytes.toNat else 2 + fieldsSize n + 1 < bytes.toNat

/-- The STATUS header with the NACKs of the first `n` sequence numbers. -/
def nacked (rx : AmReceiver) (n : Nat) : LteRlcAmHeader :=
  (rx.unreceived n).foldl (fun h nack => h.pushNack nack) (LteRlcAmHeader.setControlPdu statusPdu {})

theorem nacked_succ (rx : AmReceiver) (n : Nat) :
    rx.nacked (n + 1) =
      if complete rx.m_rxonBuffer (rx.snAt n) then rx.nacked n else (rx.nacked n).pushNack (rx.snAt n) := by
  rw [nacked, unreceived_succ]
  split_ifs
  · rfl
  · rw [List.foldl_append, List.foldl_cons, List.foldl_nil]
    rfl

theorem fits_iff (bytes : UInt16) {n : Nat} (hn : n ≤ 1024) :
    (rx.nacked n).oneMoreNackWouldFitIn bytes = true ↔ Fits bytes (rx.unreceived n).length := by
  have hle := rx.unreceived_length_le n
  have hsize : (UInt16.ofNat (2 + fieldsSize (rx.unreceived n).length)).toNat = 2 + fieldsSize (rx.unreceived n).length := by
    apply UInt16.toNat_ofNat_of_lt'
    rw [fieldsSize]
    show _ < 2 ^ 16
    omega
  rw [nacked, LteRlcAmHeader.pushNacks_eq _ _ rfl, LteRlcAmHeader.oneMoreNackWouldFitIn, Fits]
  show (if (rx.unreceived n).length % 2 = 0 then
      decide (UInt16.ofNat (2 + fieldsSize (rx.unreceived n).length) < bytes)
    else decide (((UInt16.ofNat (2 + fieldsSize (rx.unreceived n).length)).toNat : Int) < bytes.toNat - 1)) = true ↔ _
  split_ifs
  · rw [decide_eq_true_eq, UInt16.lt_iff_toNat_lt, hsize]
  · rw [decide_eq_true_eq, hsize]
    omega

/-- After the loop over the first `n` sequence numbers: each NACK did fit when it was added. -/
structure Nacked (rx : AmReceiver) (bytes : UInt16) (n : Nat) (s : SequenceNumber10 × LteRlcAmHeader) : Prop where
  stands : s.1.Stands rx.m_vrR.m_value (rx.m_vrR.m_value + n)
  header : s.2 = rx.nacked n
  le_pending : n ≤ rx.pending
  fitted : ∀ c < (rx.unreceived n).length, Fits bytes c

theorem Ordered.vrR_stands (ho : Ordered rx r ms h x) : rx.m_vrR.Stands rx.m_vrR.m_value rx.m_vrR.m_value := by
  have hlt : rx.m_vrR.m_value < 1024 := by
    rw [ho.vrR.value]
    exact Nat.mod_lt _ (by decide)
  exact ⟨(Nat.mod_eq_of_lt hlt).symm, ho.vrR.modulusBase.trans ((Nat.mod_mod _ _).symm.trans (by rw [← ho.vrR.value]))⟩

theorem Ordered.vrMs_stands (ho : Ordered rx r ms h x) :
    rx.m_vrMs.Stands rx.m_vrR.m_value (rx.m_vrR.m_value + rx.pending) := by
  have hle := ho.vrR_le
  refine ⟨?_, ?_⟩
  · rw [ho.pending_eq, ho.vrMs.value, ho.vrR.value]
    omega
  · rw [ho.vrMs.modulusBase, ho.vrR.value, Nat.mod_mod]

theorem Ordered.pending_le (ho : Ordered rx r ms h x) : rx.pending ≤ 512 := by
  have hvrMs_le := ho.vrMs_le
  have hvrH_le := ho.vrH_le
  rw [ho.pending_eq]
  omega

/-- The loop ends at VR(MS), or where no more NACK fits. -/
theorem Ordered.rounds_nackTurn (ho : Ordered rx r ms h x) (bytes : UInt16) :
    ∃ s, rounds (rx.nackTurn bytes) 512 (rx.m_vrR, LteRlcAmHeader.setControlPdu statusPdu {}) = some s ∧
      ∃ n, Nacked rx bytes n s ∧ (n = rx.pending ∨ ¬Fits bytes (rx.unreceived n).length) := by
  have hpending := ho.pending_le
  refine rounds_of_rank (I := fun k s => ∃ n, Nacked rx bytes n s ∧ n + k = rx.pending) ?_
    ⟨0, ⟨ho.vrR_stands, rfl, Nat.zero_le _, fun c hc => absurd hc (Nat.not_lt_zero c)⟩, Nat.zero_add _⟩ hpending
  rintro k ⟨sn, header⟩ ⟨n, hs, hrank⟩
  obtain ⟨hsn, hheader, hle, hfitted⟩ := hs
  simp only at hsn hheader
  have hvalue : sn.m_value = rx.snAt n := hsn.value
  rw [nackTurn, hsn.lt_eq ho.vrMs_stands (Nat.le_add_right _ _) (by omega) (Nat.le_add_right _ _) (by omega), Option.map_some]
  by_cases hgo : n < rx.pending ∧ Fits bytes (rx.unreceived n).length
  · refine ⟨.again (sn.incr, rx.nacked (n + 1)), ?_, k - 1, by omega, n + 1, ⟨hsn.incr, rfl, hgo.1, fun c hc => ?_⟩, by omega⟩
    · rw [if_pos, nacked_succ]
      · simp only [hvalue, hheader]
      · exact ⟨decide_eq_true (by omega), by rw [hheader]; exact (fits_iff bytes (by omega)).mpr hgo.2⟩
    · rw [unreceived_succ] at hc
      split_ifs at hc
      · exact hfitted c hc
      · rw [List.length_append, List.length_singleton] at hc
        rcases Nat.lt_or_eq_of_le (Nat.le_of_lt_succ hc) with hc | rfl
        · exact hfitted c hc
        · exact hgo.2
  · refine ⟨.leave (sn, header), ?_, n, ⟨hsn, hheader, hle, hfitted⟩, ?_⟩
    · rw [if_neg]
      rintro ⟨hlt, hfits⟩
      rw [hheader] at hfits
      exact hgo ⟨by simpa using hlt, (fits_iff bytes (by omega)).mp hfits⟩
    · by_cases heq : n = rx.pending
      · exact Or.inl heq
      · exact Or.inr fun hfits => hgo ⟨by omega, hfits⟩

/-- The loop ends at the first sequence number that is not received, at VR(MS) the latest. -/
theorem Ordered.rounds_ackSnTurn (ho : Ordered rx r ms h x) {sn : SequenceNumber10} {n : Nat}
    (hsn : sn.Stands rx.m_vrR.m_value (rx.m_vrR.m_value + n)) (hn : n ≤ rx.pending) :
    ∃ ackSn, rounds rx.ackSnTurn 512 sn = some ackSn ∧
      ∃ m, ackSn.Stands rx.m_vrR.m_value (rx.m_vrR.m_value + m) ∧ m ≤ rx.pending ∧ rx.unreceived m = rx.unreceived n ∧
        (m = rx.pending ∨ complete rx.m_rxonBuffer (rx.snAt m) = false) := by
  have hpending := ho.pending_le
  refine rounds_of_rank (I := fun k (ackSn : SequenceNumber10) => ∃ m, ackSn.Stands rx.m_vrR.m_value (rx.m_vrR.m_value + m) ∧
    m + k = rx.pending ∧ rx.unreceived m = rx.unreceived n) ?_ ⟨n, hsn, Nat.add_sub_of_le hn, rfl⟩ (by omega)
  rintro k ackSn ⟨m, hstands, hrank, hsame⟩
  have hvalue : ackSn.m_value = rx.snAt m := hstands.value
  rw [ackSnTurn, hstands.lt_eq ho.vrMs_stands (Nat.le_add_right _ _) (by omega) (Nat.le_add_right _ _) (by omega),
    Option.map_some, hvalue]
  by_cases hgo : m < rx.pending ∧ complete rx.m_rxonBuffer (rx.snAt m) = true
  · refine ⟨.again ackSn.incr, ?_, k - 1, by omega, m + 1, hstands.incr, by omega, ?_⟩
    · rw [if_pos ⟨decide_eq_true (by omega), hgo.2⟩]
    · rw [unreceived_succ, if_pos hgo.2, hsame]
  · refine ⟨.leave ackSn, ?_, m, hstands, by omega, hsame, ?_⟩
    · rw [if_neg]
      rintro ⟨hlt, hcomplete⟩
      exact hgo ⟨by simpa using hlt, hcomplete⟩
    · by_cases heq : m = rx.pending
      · exact Or.inl heq
      · exact Or.inr (Bool.eq_false_iff.mpr fun hcomplete => hgo ⟨by omega, hcomplete⟩)

/-- The fit test takes the two bytes of an odd NACK for one: a PDU ends up too long where that is one byte too many. -/
theorem size_le_iff {bytes k missing : Nat} (hbytes : 4 ≤ bytes) (hk : k ≤ missing) (hmissing : missing ≤ 512)
    (hfitted : ∀ c < k, Fits (UInt16.ofNat bytes) c) (hend : k = missing ∨ ¬Fits (UInt16.ofNat bytes) k) :
    2 + fieldsSize k ≤ bytes ↔ ¬(3 ∣ bytes ∧ 2 * (bytes / 3) ≤ missing + 1) := by
  have hlast : 0 < k → Fits (UInt16.ofNat bytes) (k - 1) := fun hpos => hfitted _ (Nat.sub_one_lt_of_lt hpos)
  have htoNat : (UInt16.ofNat bytes).toNat = bytes % 65536 := UInt16.toNat_ofNat'
  unfold Fits fieldsSize at *
  rw [htoNat] at hlast hend
  rw [Nat.dvd_iff_mod_eq_zero]
  by_cases hlarge : 65536 ≤ bytes
  · -- more than all NACKs of a window take
    have hfits : 2 + (3 * k + 1) / 2 ≤ bytes := by omega
    have hmany : ¬(bytes % 3 = 0 ∧ 2 * (bytes / 3) ≤ missing + 1) := by omega
    exact iff_of_true hfits hmany
  · rw [Nat.mod_eq_of_lt (Nat.not_le.mp hlarge)] at hlast hend
    clear hfitted htoNat
    split_ifs at hend <;> split_ifs at hlast <;> omega

/-- A STATUS PDU that fits, and reports what is received: its NACKs are those of the sequence numbers before ACK_SN that are
not received completely, and ACK_SN is the first one, at VR(MS) the latest, that is neither received nor NACKed. -/
structure StatusExact (rx : AmReceiver) (bytes : Nat) (packet : Bytes) (header : LteRlcAmHeader) (n : Nat) : Prop where
  deserialize : LteRlcAmHeader.deserialize packet = some header
  isStatus : header.m_dataControlBit = controlPdu ∧ header.m_controlPduType = statusPdu
  fits : packet.length ≤ bytes
  ackSn : header.m_ackSn.m_value = rx.snAt n
  ackSn_le : n ≤ rx.pending
  nacks : header.m_nackSnList = rx.unreceived n
  reported : ∀ i < n, complete rx.m_rxonBuffer (rx.snAt i) = true ∨ rx.snAt i ∈ header.m_nackSnList
  unreported : complete rx.m_rxonBuffer (rx.snAt n) = false ∧ rx.snAt n ∉ header.m_nackSnList

theorem Windowed.sendStatus (hw : Windowed rx r ms h x) {bytes : Nat} (hbytes : 4 ≤ bytes) :
    ∃ packet rx' header n, rx.sendStatus 512 bytes = some (packet, rx') ∧
      LteRlcAmHeader.deserialize packet = some header ∧ (packet.length ≤ bytes → StatusExact rx bytes packet header n) ∧
      (packet.length ≤ bytes ↔ ¬(3 ∣ bytes ∧ 2 * (bytes / 3) ≤ (rx.unreceived rx.pending).length + 1)) := by
  have hpending := hw.pending_le
  obtain ⟨⟨sn, header⟩, hnacks, n, hnacked, hend⟩ := hw.rounds_nackTurn (UInt16.ofNat bytes)
  obtain ⟨hsn, hheader, hle, hfitted⟩ := hnacked
  simp only at hsn hheader
  obtain ⟨ackSn, hackSn, m, hstands, hm, hsame, hmissing⟩ := hw.rounds_ackSnTurn hsn hle
  have hvalue : ackSn.m_value = rx.snAt m := hstands.value
  have hack : ackSn.m_value < 1024 := by
    rw [hvalue]
    exact Nat.mod_lt _ (by decide)
  have hfit : NacksFit (rx.unreceived n) := fun nack hnack => by
    obtain ⟨⟨i, -, rfl⟩, -⟩ := mem_unreceived.mp hnack
    exact Nat.mod_lt _ (by decide)
  have hcount := (rx.unreceived_length_le n).trans (hle.trans hpending)
  -- the header is the whole PDU
  have hstatus : header.setAckSn ackSn = LteRlcAmHeader.forStatus ackSn (rx.unreceived n) := by
    rw [hheader]
    rfl
  obtain ⟨hlength, hread⟩ := LteRlcAmHeader.forStatus_deserialize hack hfit
  have hsize : (header.setAckSn ackSn).getSerializedSize = 2 + fieldsSize (rx.unreceived n).length := by
    rw [hstatus, LteRlcAmHeader.forStatus_eq]
    refine (toNat_ofNat_eq_iff _).mpr ?_
    rw [fieldsSize]
    omega
  have hpacket : addHeader (2 + fieldsSize (rx.unreceived n).length) (LteRlcAmHeader.statusBytes ackSn (rx.unreceived n)) [] =
      some (LteRlcAmHeader.statusBytes ackSn (rx.unreceived n)) := by
    rw [addHeader, if_pos (by rw [hlength]; exact Nat.le_refl _), hlength, List.append_nil,
      List.drop_eq_nil_of_le (by rw [List.length_replicate]), List.append_nil]
  have hread := hread []
  rw [List.append_nil] at hread
  refine ⟨LteRlcAmHeader.statusBytes ackSn (rx.unreceived n),
    { rx with m_statusPduRequested := false, m_statusPduBufferSize := 0, m_statusProhibitTimer := true }, _, m, ?_, hread,
    fun hfits => ?_, ?_⟩
  · rw [AmReceiver.sendStatus, if_pos (hw.statusPduBufferSize.trans hbytes)]
    dsimp only
    rw [hnacks, Option.bind_some]
    dsimp only
    rw [hackSn, Option.bind_some,
      hstands.le_eq hw.vrMs_stands (Nat.le_add_right _ _) (by omega) (Nat.le_add_right _ _) (by omega), Option.bind_some,
      if_pos (decide_eq_true (Nat.add_le_add_left hm _)), hsize, hstatus, LteRlcAmHeader.forStatus_serialize, Option.bind_some, hpacket,
      Option.map_some]
  · have hincomplete : complete rx.m_rxonBuffer (rx.snAt m) = false := by
      rcases hmissing with rfl | hmissing
      · rw [← hvalue, hstands.value, ← hw.vrMs_stands.value, hw.vrMs.value]
        exact hw.vrMs_incomplete
      · exact hmissing
    refine ⟨hread, ⟨rfl, rfl⟩, hfits, hvalue, hm, hsame.symm, fun i hi => ?_, hincomplete, fun hmem => ?_⟩
    · show _ ∨ rx.snAt i ∈ rx.unreceived n
      rw [← hsame, mem_unreceived]
      cases hcomplete : complete rx.m_rxonBuffer (rx.snAt i) with
      | true => exact Or.inl rfl
      | false => exact Or.inr ⟨⟨i, hi, rfl⟩, rfl⟩
    · obtain ⟨⟨i, hi, heq⟩, -⟩ := mem_unreceived.mp (hsame ▸ hmem : rx.snAt m ∈ rx.unreceived m)
      rw [snAt, snAt] at heq
      omega
  · rw [hlength]
    exact size_le_iff hbytes (rx.unreceived_length_mono hle) ((rx.unreceived_length_le _).trans hpending) hfitted
      (hend.imp (fun heq => by rw [heq]) id)

end AmReceiver

namespace LteRlcAm

open AmReceiver

/-! ### Every run -/

/-- What happens to an entity. -/
inductive Event where
  | transmitPdcpPdu (p : Bytes)
  | notifyTxOpportunity (bytes : Nat)
  | receivePdu (packet : Bytes)
  | expireReorderingTimer
  | expirePollRetransmitTimer
  | expireStatusProhibitTimer

/-- The entity then. -/
def happens (limit : Nat) : Event → LteRlcAm → Option LteRlcAm
  | .transmitPdcpPdu p, rlc => some (rlc.doTransmitPdcpPdu p)
  | .notifyTxOpportunity bytes, rlc => (rlc.doNotifyTxOpportunity limit bytes).map (·.2)
  | .receivePdu packet, rlc => rlc.doReceivePdu limit packet
  | .expireReorderingTimer, rlc => rlc.expireReorderingTimer limit
  | .expirePollRetransmitTimer, rlc => rlc.expirePollRetransmitTimer limit
  | .expireStatusProhibitTimer, rlc => some rlc.expireStatusProhibitTimer

/-- The entity after events. -/
def after (limit : Nat) : List Event → LteRlcAm → Option LteRlcAm
  | [], rlc => some rlc
  | event :: events, rlc => (rlc.happens limit event).bind (after limit events)

theorem ready_happens {limit : Nat} {event : Event} {rlc rlc' : LteRlcAm} (hready : AmReceiver.Ready rlc.rx)
    (h : rlc.happens limit event = some rlc') : AmReceiver.Ready rlc'.rx := by
  cases event with
  | transmitPdcpPdu p =>
    cases h
    exact hready
  | notifyTxOpportunity bytes =>
    obtain ⟨⟨packet, _⟩, hnotify, rfl⟩ := Option.map_eq_some_iff.mp h
    rw [doNotifyTxOpportunity] at hnotify
    split at hnotify
    · cases hnotify
    · split at hnotify
      · obtain ⟨⟨pdu, rx⟩, hsend, heq⟩ := Option.map_eq_some_iff.mp hnotify
        cases heq
        exact ready_sendStatus hready hsend
      · obtain ⟨⟨pdu, tx⟩, -, heq⟩ := Option.map_eq_some_iff.mp hnotify
        cases heq
        exact hready
  | receivePdu packet =>
    rw [happens, doReceivePdu] at h
    obtain ⟨header, hheader, h⟩ := Option.bind_eq_some_iff.mp h
    split at h
    · next hdata =>
      obtain ⟨rx, hreceive, rfl⟩ := Option.map_eq_some_iff.mp h
      exact ready_receiveData hready (deserialize_fields hheader hdata).1 hreceive
    · split at h
      · obtain ⟨tx, -, rfl⟩ := Option.map_eq_some_iff.mp h
        exact hready
      · cases h
        exact hready
  | expireReorderingTimer =>
    rw [happens, LteRlcAm.expireReorderingTimer] at h
    split at h
    · next hrunning =>
      obtain ⟨rx, hexpire, rfl⟩ := Option.map_eq_some_iff.mp h
      exact ready_expireReorderingTimer hready hrunning hexpire
    · cases h
      exact hready
  | expirePollRetransmitTimer =>
    rw [happens, LteRlcAm.expirePollRetransmitTimer] at h
    split at h
    · obtain ⟨tx, -, rfl⟩ := Option.map_eq_some_iff.mp h
      exact hready
    · cases h
      exact hready
  | expireStatusProhibitTimer =>
    cases h
    obtain ⟨r, ms, vrH, x, hw⟩ := hready
    exact ⟨r, ms, vrH, x, ⟨hw.vrR, hw.vrMs, hw.vrH, hw.vrX, hw.vrR_le, hw.vrMs_le, hw.vrH_le, hw.completes,
      hw.statusPduBufferSize⟩, hw.vrMr, hw.vrMs_incomplete, hw.timer⟩

theorem ready_after {limit : Nat} {events : List Event} {rlc rlc' : LteRlcAm} (hready : AmReceiver.Ready rlc.rx)
    (h : rlc.after limit events = some rlc') : AmReceiver.Ready rlc'.rx := by
  induction events generalizing rlc with
  | nil =>
    cases h
    exact hready
  | cons event events ih =>
    obtain ⟨rlc₁, hevent, hevents⟩ := Option.bind_eq_some_iff.mp h
    exact ih (ready_happens hready hevent) hevents

/-- After any events, the STATUS PDU fits in the opportunity, and reports what is received, unless its bytes are a multiple
of three and there are enough NACKs to fill them. -/
theorem status_pdu (limit : Nat) (tx : AmTransmitter) (events : List Event) (rlc : LteRlcAm) (bytes : Nat)
    (hafter : after limit events { tx } = some rlc) (hbytes : 4 ≤ bytes) (hrequested : rlc.rx.m_statusPduRequested = true)
    (hprohibit : rlc.rx.m_statusProhibitTimer = false) :
    (∃ packet rlc' header n, rlc.doNotifyTxOpportunity 512 bytes = some (some packet, rlc') ∧
      StatusExact rlc.rx bytes packet header n) ↔
        ¬(3 ∣ bytes ∧ 2 * (bytes / 3) ≤ (rlc.rx.unreceived rlc.rx.pending).length + 1) := by
  have hready : AmReceiver.Ready rlc.rx := ready_after ready_new hafter
  obtain ⟨r, ms, h, x, hw⟩ := hready
  obtain ⟨packet, rx', header, n, hsend, -, hexact, hfits⟩ := hw.sendStatus hbytes
  have hnotify : rlc.doNotifyTxOpportunity 512 bytes = some (some packet, { rlc with rx := rx' }) := by
    rw [doNotifyTxOpportunity, if_neg (Nat.not_lt.mpr hbytes), if_pos ⟨hrequested, by rw [hprohibit]; rfl⟩, hsend,
      Option.map_some]
  rw [← hfits]
  constructor
  · rintro ⟨packet', rlc', header', n', hnotify', hexact'⟩
    rw [hnotify] at hnotify'
    cases hnotify'
    exact hexact'.fits
  · intro hle
    exact ⟨packet, _, header, n, hnotify, hexact hle⟩

/-- The PDU with the sequence number 3, which polls. -/
def polling : Bytes := [0xA0, 3, 0, 0, 0xAA]

/-- In four bytes, the PDU with the sequence number 0 is reported as missing. -/
theorem status_pdu_four :
    ∃ rlc, after 512 [.receivePdu polling, .expireReorderingTimer] {} = some rlc ∧
      ∃ packet rlc' header n, rlc.doNotifyTxOpportunity 512 4 = some (some packet, rlc') ∧
        StatusExact rlc.rx 4 packet header n :=
  ⟨_, rfl, (status_pdu 512 {} [.receivePdu polling, .expireReorderingTimer] _ 4 rfl (by decide) rfl rfl).mpr (by decide)⟩

/-- With three PDUs missing, a STATUS PDU takes seven bytes of an opportunity of six. -/
theorem not_status_pdu_six :
    ∃ rlc, after 512 [.receivePdu polling, .expireReorderingTimer] {} = some rlc ∧
      rlc.rx.m_statusPduRequested = true ∧ rlc.rx.m_statusProhibitTimer = false ∧
      ¬∃ packet rlc' header n, rlc.doNotifyTxOpportunity 512 6 = some (some packet, rlc') ∧
        StatusExact rlc.rx 6 packet header n := by
  refine ⟨_, rfl, rfl, rfl, ?_⟩
  rintro ⟨packet, rlc', header, n, hnotify, hexact⟩
  have hlength : packet.length = 7 := by
    cases hnotify
    rfl
  have hfits := hexact.fits
  omega

end LteRlcAm

end Ns3.Lte
