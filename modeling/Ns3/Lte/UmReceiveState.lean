import Mathlib.Order.Nat
import Ns3.Lte.UmReceiver

/-!
# The receive state of UM

The reordering window is given by the number of its lower edge, which does not wrap: VR(UH) is 512 above it, and VR(UR)
and all that is buffered lie in between. There are two slips, after which that no longer holds. The buffer is searched
in the order of its keys for what the window has left behind, up to the first key inside the window; and VR(UR) is
counted on in a `uint16_t`, which does not find 0 behind 1023.
-/

namespace Ns3.Lte

open Ns3.Lib

namespace UmReceiver

/-- A PDU that the header can be removed from, and that can be split. -/
def Splittable (packet : Bytes) : Prop :=
  ∃ h sdus, LteRlcHeader.deserialize packet = some h ∧
    buildSdus h.m_extensionBits h.m_lengthIndicators (packet.drop h.getSerializedSize) = some sdus

theorem Splittable.goesOn {packet : Bytes} (h : Splittable packet) {r : Reassembly} (hr : r.Ready) :
    Reassembly.GoesOn (umReassembleAndDeliver packet r) := by
  obtain ⟨header, sdus, hheader, hsdus⟩ := h
  rw [umReassembleAndDeliver, hheader, Option.bind_some]
  exact Reassembly.reassembleAndDeliver_goesOn hr hsdus true

/-- What the buffer holds from the number `low` on and below `high`. -/
def Buffers (buffer : AList fun _ : Nat => Bytes) (low high : Nat) : Prop :=
  ∀ sn packet, buffer.lookup sn = some packet → (∃ y, low ≤ y ∧ y < high ∧ sn = y % 1024) ∧ Splittable packet

/-- The number is not in the buffer. -/
def Missing (buffer : AList fun _ : Nat => Bytes) (x : Nat) : Prop := buffer.lookup (x % 1024) = none

instance (buffer : AList fun _ : Nat => Bytes) (x : Nat) : Decidable (Missing buffer x) :=
  inferInstanceAs (Decidable (buffer.lookup (x % 1024) = none))

/-- How far a sequence number is past the lower edge of the window, which is 512 wide. -/
def past (vrUh sn : Nat) : Nat := (sn + 1536 - vrUh) % 1024

variable {buffer : AList fun _ : Nat => Bytes} {low high b r x y : Nat}

theorem past_eq (hy : b ≤ y) (hy' : y < b + 1024) : past ((b + 512) % 1024) (y % 1024) = y - b := by
  rw [past]
  omega

theorem past_succ (y sn : Nat) : past (y % 1024 + 1) sn = past ((y + 1) % 1024) sn := by
  rw [past, past]
  omega

theorem Buffers.lt (h : Buffers buffer low high) (hx : ¬ Missing buffer x) (hx' : x ≤ high)
    (hrange : high < low + 1024) : x < high := by
  obtain ⟨packet, hpacket⟩ := Option.ne_none_iff_exists'.mp hx
  obtain ⟨⟨y, hy, hy', heq⟩, -⟩ := h _ _ hpacket
  omega

/-- The lowest number is missing. -/
theorem Buffers.of_missing (h : Buffers buffer low high) (hlow : Missing buffer low) : Buffers buffer (low + 1) high := by
  intro sn packet hpacket
  obtain ⟨⟨y, hy, hy', rfl⟩, hsplittable⟩ := h sn packet hpacket
  refine ⟨⟨y, Nat.lt_of_le_of_ne hy ?_, hy', rfl⟩, hsplittable⟩
  rintro rfl
  cases hlow.symm.trans hpacket

theorem Buffers.erase (h : Buffers buffer low high) : Buffers (buffer.erase (low % 1024)) (low + 1) high := by
  refine Buffers.of_missing (fun sn packet hpacket => ?_) (AList.lookup_erase _ _)
  have hne : sn ≠ low % 1024 := by
    rintro rfl
    rw [AList.lookup_erase] at hpacket
    cases hpacket
  exact h sn packet ((AList.lookup_erase_ne hne).symm.trans hpacket)

theorem Missing.erase (hx : Missing buffer x) : Missing (buffer.erase (y % 1024)) x := by
  by_cases heq : x % 1024 = y % 1024
  · rw [Missing, heq]
    exact AList.lookup_erase _ _
  · exact (AList.lookup_erase_ne heq).trans hx

/-! ### Comparisons -/

@[simp] theorem andAlso_some (a b : Bool) : andAlso (some a) (some b) = some (a && b) := by
  cases a <;> rfl

@[simp] theorem orElse_some (a b : Bool) : orElse (some a) (some b) = some (a || b) := by
  cases a <;> rfl

theorem edge_value {n : SequenceNumber10} (h : n.m_value = (b + 512) % 1024) :
    (n.sub windowSize).m_value = b % 1024 := by
  have hle : windowSize ≤ b + 512 := Nat.le_add_left _ _
  rw [SequenceNumber10.sub_value h hle, windowSize, Nat.add_sub_cancel]

variable {rx : UmReceiver} {seqNumber : SequenceNumber10} {packet : Bytes}

theorem isInsideReorderingWindow_eq (hvrUh : rx.m_vrUh.m_value = (b + 512) % 1024)
    (hseq : seqNumber.m_value = y % 1024) (hy : b ≤ y) (hy' : y < b + 1024) :
    rx.isInsideReorderingWindow seqNumber = some (decide (y < b + 512),
      { rx with m_vrUh := rx.m_vrUh.setModulusBase (rx.m_vrUh.sub windowSize) }) := by
  have hedge : (rx.m_vrUh.sub windowSize).m_value = b % 1024 := edge_value hvrUh
  have huh : (rx.m_vrUh.setModulusBase (rx.m_vrUh.sub windowSize)).Stands b (b + 512) := ⟨hvrUh, hedge⟩
  have hlow : ((rx.m_vrUh.setModulusBase (rx.m_vrUh.sub windowSize)).sub windowSize).Stands b b :=
    ⟨edge_value hvrUh, hedge⟩
  have hsn : (seqNumber.setModulusBase
      ((rx.m_vrUh.setModulusBase (rx.m_vrUh.sub windowSize)).sub windowSize)).Stands b y := ⟨hseq, hlow.value⟩
  show (andAlso (((rx.m_vrUh.setModulusBase (rx.m_vrUh.sub windowSize)).sub windowSize).le _) _).map _ = _
  rw [hlow.le_eq hsn (Nat.le_refl _) (by omega) hy hy', hsn.lt_eq huh hy hy' (by omega) (by omega), andAlso_some,
    decide_eq_true hy, Bool.true_and, Option.map_some]

/-- Whether a sequence number is inside the window is told by how far it is past the edge. -/
theorem isInsideReorderingWindow_past (hvrUh : rx.m_vrUh.m_value < 1024) (hseq : seqNumber.m_value < 1024) :
    rx.isInsideReorderingWindow seqNumber = some (decide (past rx.m_vrUh.m_value seqNumber.m_value < 512),
      { rx with m_vrUh := rx.m_vrUh.setModulusBase (rx.m_vrUh.sub windowSize) }) := by
  have hlt : past rx.m_vrUh.m_value seqNumber.m_value < 1024 := Nat.mod_lt _ (by decide)
  rw [isInsideReorderingWindow_eq
    (b := rx.m_vrUh.m_value + 512) (y := rx.m_vrUh.m_value + 512 + past rx.m_vrUh.m_value seqNumber.m_value)
    (by omega) (by rw [past]; omega) (by omega) (by omega)]
  simp only [Nat.add_lt_add_iff_left]

theorem discards_eq (hvrUr : rx.m_vrUr.Stands b r) (hvrUh : rx.m_vrUh.Stands b (b + 512)) (hseq : seqNumber.Stands b y)
    (hr : b ≤ r) (hr' : r ≤ b + 512) (hy : b ≤ y) (hy' : y < b + 1024) :
    rx.discards seqNumber = some (decide (r < y ∧ y < b + 512 ∧ ¬ Missing rx.m_rxBuffer y ∨ y < r)) := by
  have hedge : (rx.m_vrUh.sub windowSize).Stands b b := ⟨edge_value hvrUh.value, hvrUh.modulusBase⟩
  rw [discards, hvrUr.lt_eq hseq hr (by omega) hy hy', hseq.lt_eq hvrUh hy hy' (by omega) (by omega),
    hedge.le_eq hseq (Nat.le_refl _) (by omega) hy hy', hseq.lt_eq hvrUr hy hy' hr (by omega), hseq.value]
  rw [andAlso_some, andAlso_some, andAlso_some, orElse_some, Option.some_inj, Bool.eq_iff_iff]
  simp only [hy, decide_true, Bool.true_and, Bool.or_eq_true, Bool.and_eq_true, decide_eq_true_eq, Missing,
    Option.isSome_iff_ne_none, ne_eq]
  exact decide_eq_true_iff.symm

/-! ### The loops -/

/-- When no key inside the window comes before one outside, all those outside are removed. -/
theorem reassembleOutside_eq {sns : List Nat} (rx : UmReceiver) (hvrUh : rx.m_vrUh.m_value < 1024)
    (hnodup : sns.Nodup)
    (horder : sns.Pairwise fun sn sn' => past rx.m_vrUh.m_value sn < 512 → past rx.m_vrUh.m_value sn' < 512)
    (hkeys : ∀ sn ∈ sns, sn < 1024 ∧ ∃ packet, rx.m_rxBuffer.lookup sn = some packet ∧ Splittable packet)
    (hready : rx.reassembly.Ready) :
    ∃ vrUh buffer reassembly, rx.reassembleOutside sns =
        some { rx with m_vrUh := vrUh, m_rxBuffer := buffer, reassembly } ∧
      vrUh.m_value = rx.m_vrUh.m_value ∧ reassembly.Ready ∧
      ∀ sn, buffer.lookup sn =
        if sn ∈ sns ∧ 512 ≤ past rx.m_vrUh.m_value sn then none else rx.m_rxBuffer.lookup sn := by
  induction sns generalizing rx with
  | nil => exact ⟨_, _, _, rfl, rfl, hready, fun sn => (if_neg fun h => nomatch h.1).symm⟩
  | cons first sns ih =>
    obtain ⟨hfirst, hnodup⟩ := List.nodup_cons.mp hnodup
    obtain ⟨horder_first, horder⟩ := List.pairwise_cons.mp horder
    obtain ⟨hlt, packet, hpacket, hsplittable⟩ := hkeys first List.mem_cons_self
    have hvalue : (SequenceNumber10.ofValue first).m_value = first := Nat.mod_eq_of_lt hlt
    rw [reassembleOutside, isInsideReorderingWindow_past hvrUh (by rw [hvalue]; exact hlt), hvalue, Option.bind_some]
    by_cases hinside : past rx.m_vrUh.m_value first < 512
    · refine ⟨_, _, _, if_pos (decide_eq_true hinside), rfl, hready, fun sn => (if_neg ?_).symm⟩
      rintro ⟨hsn, hout⟩
      rcases List.mem_cons.mp hsn with rfl | hsn
      · omega
      · exact absurd (horder_first sn hsn hinside) (Nat.not_lt.mpr hout)
    · obtain ⟨r, hr, hready'⟩ := hsplittable.goesOn hready
      have hne : ∀ sn ∈ sns, sn ≠ first := fun sn hsn heq => hfirst (heq ▸ hsn)
      obtain ⟨vrUh, buffer, reassembly, heq, hvrUh', hready'', hlookup⟩ :=
        ih { rx with
            m_vrUh := rx.m_vrUh.setModulusBase (rx.m_vrUh.sub windowSize)
            reassembly := r
            m_rxBuffer := rx.m_rxBuffer.erase first }
          hvrUh hnodup horder
          (fun sn hsn => by
            obtain ⟨hlt, packet, hpacket, hsplittable⟩ := hkeys sn (List.mem_cons_of_mem _ hsn)
            exact ⟨hlt, packet, (AList.lookup_erase_ne (hne sn hsn)).trans hpacket, hsplittable⟩)
          hready'
      refine ⟨vrUh, buffer, reassembly, ?_, hvrUh', hready'', fun sn => ?_⟩
      · rw [if_neg (by rw [decide_eq_false hinside]; exact Bool.false_ne_true)]
        show (rx.m_rxBuffer.lookup first).bind _ = _
        rw [hpacket, Option.bind_some]
        show (umReassembleAndDeliver packet rx.reassembly).bind _ = _
        rw [hr, Option.bind_some]
        exact heq
      · rw [hlookup]
        by_cases hsn : sn = first
        · subst hsn
          rw [if_neg fun h => hfirst h.1, if_pos ⟨List.mem_cons_self, Nat.not_lt.mp hinside⟩]
          exact AList.lookup_erase _ _
        · show (if sn ∈ sns ∧ 512 ≤ past rx.m_vrUh.m_value sn then none else (rx.m_rxBuffer.erase first).lookup sn) = _
          rw [AList.lookup_erase_ne hsn]
          simp only [List.mem_cons, hsn, false_or]

/-- What is buffered below `high` is reassembled. -/
theorem reassembleSnInterval_eq (rx : UmReceiver) {base top : Nat} {lowSn highSn : SequenceNumber10}
    (hlowSn : lowSn.Stands base low)
    (hhighSn : highSn.Stands base high) (hbase : base ≤ low) (hle : low ≤ high) (hrange : high < base + 1024)
    (hbuffer : Buffers rx.m_rxBuffer low top) (hmissing : Missing rx.m_rxBuffer high)
    (hready : rx.reassembly.Ready) :
    ∃ rx', rx.reassembleSnInterval 1024 lowSn highSn = some rx' ∧
      ∃ buffer reassembly, rx' = { rx with m_rxBuffer := buffer, reassembly } ∧
        Buffers buffer high top ∧ Missing buffer high ∧ reassembly.Ready := by
  refine rounds_of_rank (I := fun k s => ∃ m buffer reassembly, s.2 = { rx with m_rxBuffer := buffer, reassembly } ∧
    s.1.Stands base m ∧ low ≤ m ∧ m + k = high ∧ Buffers buffer m top ∧ Missing buffer high ∧ reassembly.Ready) ?_
    ⟨low, _, _, rfl, hlowSn, Nat.le_refl _, Nat.add_sub_of_le hle, hbuffer, hmissing, hready⟩ (by omega)
  rintro k ⟨sn, rx'⟩ ⟨m, buffer, reassembly, rfl, hsn, hm, hrank, hbuffer, hmissing, hready⟩
  rw [intervalTurn, hsn.lt_eq hhighSn (by omega) (by omega) (by omega) hrange, Option.bind_some]
  by_cases hlt : m < high
  · rw [if_pos (decide_eq_true hlt), hsn.value]
    cases hlookup : buffer.lookup (m % 1024) with
    | none =>
      exact ⟨_, rfl, k - 1, by omega, m + 1, _, _, rfl, hsn.incr, by omega, by omega, hbuffer.of_missing hlookup,
        hmissing, hready⟩
    | some packet =>
      obtain ⟨r, hr, hready'⟩ := (hbuffer _ _ hlookup).2.goesOn hready
      refine ⟨.again (sn.incr, { rx with m_rxBuffer := buffer.erase (m % 1024), reassembly := r }), ?_, k - 1,
        by omega, m + 1, _, _, rfl, hsn.incr, by omega, by omega, hbuffer.erase, hmissing.erase, hready'⟩
      show (umReassembleAndDeliver packet reassembly).map _ = _
      rw [hr, Option.map_some]
  · obtain rfl : m = high := by omega
    exact ⟨.leave _, if_neg (by rw [decide_eq_false hlt]; exact Bool.false_ne_true), _, _, rfl, hbuffer, hmissing,
      hready⟩

/-- What is held from VR(UR) on runs over the wrap: there is 0 behind 1023. -/
def RunsOver (held : Nat → Prop) (vrUr : Nat) : Prop := (∀ sn, vrUr ≤ sn → sn < 1024 → held sn) ∧ held 0

/-- The counting ends at the first missing number. -/
theorem rounds_newVrUrTurn (hbuffer : Buffers buffer r (b + 512)) (hr : b ≤ r) (hr' : r < b + 512)
    (hpresent : ¬ Missing buffer r) (hwrap : ¬ RunsOver (· ∈ buffer) (r % 1024)) :
    ∃ n, rounds (fun n => some (newVrUrTurn buffer n)) 1024 ((r % 1024 + 1) % 2 ^ 16) = some n ∧
      ∃ m, n % 1024 = m % 1024 ∧ r < m ∧ m ≤ b + 512 ∧ Missing buffer m := by
  refine rounds_of_rank (I := fun k n => ∃ m, r < m ∧ m + k = b + 512 ∧ n = r % 1024 + (m - r) ∧ n ≤ 1024 ∧
    ∀ z, r ≤ z → z < m → ¬ Missing buffer z) ?_
    ⟨r + 1, by omega, Nat.add_sub_of_le hr', by omega, by omega, fun z hz hz' => (show z = r by omega) ▸ hpresent⟩
    (by omega)
  rintro k n ⟨m, hm, hrank, hn, hn', hbelow⟩
  have hvalue : n % 1024 = m % 1024 := by omega
  refine ⟨_, rfl, ?_⟩
  rw [newVrUrTurn]
  by_cases hlookup : (buffer.lookup n).isSome = true
  · rw [if_pos hlookup]
    obtain ⟨packet, hpacket⟩ := Option.isSome_iff_exists.mp hlookup
    obtain ⟨⟨y, hy, hy', hsn⟩, -⟩ := hbuffer _ _ hpacket
    refine ⟨k - 1, by omega, m + 1, by omega, by omega, by omega, by omega, fun z hz hz' => ?_⟩
    by_cases hlt : z < m
    · exact hbelow z hz hlt
    · intro hmissing
      rw [Missing, show z % 1024 = n by omega, hpacket] at hmissing
      cases hmissing
  · rw [if_neg hlookup]
    refine ⟨m, hvalue, hm, by omega, ?_⟩
    by_cases hlast : n = 1024
    · -- 0 is missing, as all the numbers up to 1023 are there
      refine Option.not_isSome_iff_eq_none.mp fun hzero => hwrap ⟨fun sn hsn hsn' => ?_, ?_⟩
      · have hthere := hbelow (r + (sn - r % 1024)) (by omega) (by omega)
        rw [Missing, show (r + (sn - r % 1024)) % 1024 = sn by omega] at hthere
        exact AList.lookup_isSome.mp (Option.isSome_iff_ne_none.mpr hthere)
      · rw [show m % 1024 = 0 by omega] at hzero
        exact AList.lookup_isSome.mp hzero
    · rw [Missing, show m % 1024 = n by omega]
      exact Option.not_isSome_iff_eq_none.mp hlookup

/-- The loop of the expired timer ends at the first missing number. -/
theorem rounds_vrUxTurn {vrUx : SequenceNumber10} (hbuffer : Buffers buffer low (b + 512)) (hlow : b ≤ low)
    (hvrUx : vrUx.Stands b x) (hx : b ≤ x) (hx' : x ≤ b + 512) :
    ∃ vrUr, rounds (fun n => some (vrUxTurn buffer n)) 1024 vrUx = some vrUr ∧
      ∃ m, vrUr.Stands b m ∧ x ≤ m ∧ m ≤ b + 512 ∧ Missing buffer m := by
  refine rounds_of_rank (I := fun k n => ∃ m, n.Stands b m ∧ x ≤ m ∧ m + k = b + 512) ?_
    ⟨x, hvrUx, Nat.le_refl _, Nat.add_sub_of_le hx'⟩ (by omega)
  rintro k n ⟨m, hn, hm, hrank⟩
  refine ⟨_, rfl, ?_⟩
  rw [vrUxTurn, hn.value]
  by_cases hmissing : Missing buffer m
  · rw [if_neg fun hsome => Option.isSome_iff_ne_none.mp hsome hmissing]
    exact ⟨m, hn, hm, by omega, hmissing⟩
  · rw [if_pos (Option.isSome_iff_ne_none.mpr hmissing)]
    have hlt := hbuffer.lt hmissing (by omega) (by omega)
    exact ⟨k - 1, by omega, m + 1, hn.incr, by omega, by omega⟩

/-! ### The steps of a PDU -/

/-- The window begins at `b`, and VR(UR) stands for `r`, at the end of a PDU. -/
structure Delivered (rx : UmReceiver) (b r : Nat) : Prop where
  vrUh : rx.m_vrUh.m_value = (b + 512) % 1024
  vrUr : rx.m_vrUr.m_value = r % 1024
  low : b ≤ r
  high : r ≤ b + 512
  buffered : Buffers rx.m_rxBuffer (r + 1) (b + 512)
  ready : rx.reassembly.Ready

/-- The state between calls: while the timer runs, VR(UX) stands for `x`. -/
structure ReceiveState (rx : UmReceiver) (b r x : Nat) : Prop extends Delivered rx b r where
  running : rx.m_reorderingTimer = decide (r < b + 512)
  timer : rx.m_reorderingTimer = true → rx.m_vrUh.Stands b (b + 512) ∧ rx.m_vrUr.Stands b r ∧ rx.m_vrUx.Stands b x ∧
    r < x ∧ x ≤ b + 512

/-- The window when it has moved. The base of VR(UR) is that of the window before, unless it has moved as well. -/
structure Moved (rx : UmReceiver) (b r : Nat) : Prop where
  vrUh : rx.m_vrUh.Stands b (b + 512)
  vrUr : ∃ base, rx.m_vrUr.Stands base r ∧ base ≤ r ∧ (¬ Missing rx.m_rxBuffer r → b + 512 < base + 1024)
  low : b ≤ r
  high : r ≤ b + 512
  buffered : Buffers rx.m_rxBuffer r (b + 512)
  ready : rx.reassembly.Ready

theorem setBases_vrUh (hs : Delivered rx b r) : rx.setBases.m_vrUh.Stands b (b + 512) := ⟨hs.vrUh, edge_value hs.vrUh⟩

theorem setBases_vrUr (hs : Delivered rx b r) : rx.setBases.m_vrUr.Stands b r := ⟨hs.vrUr, edge_value hs.vrUh⟩

theorem moveWindow_inside (hvrUh : rx.m_vrUh.Stands b (b + 512)) (hseq : seqNumber.m_value = y % 1024) (hy : b ≤ y)
    (hy' : y < b + 512) : rx.moveWindow seqNumber = some rx := by
  rw [moveWindow, isInsideReorderingWindow_eq hvrUh.value hseq hy (by omega), Option.bind_some,
    hvrUh.setModulusBase_eq (edge_value hvrUh.value)]
  exact if_pos (decide_eq_true hy')

/-- What the window leaves behind is removed, unless a key inside comes before it. -/
theorem moveWindow_outside (rx : UmReceiver) (hvrUr : rx.m_vrUr.Stands b r) (hvrUh : rx.m_vrUh.Stands b (b + 512)) (hr : b ≤ r)
    (hr' : r ≤ b + 512) (hseq : seqNumber.m_value = y % 1024) (hy : b + 512 ≤ y) (hy' : y < b + 1024)
    (hbuffer : ∀ sn packet, rx.m_rxBuffer.lookup sn = some packet →
      (∃ z, (r < z ∧ z < b + 512 ∨ z = y) ∧ sn = z % 1024) ∧ Splittable packet)
    (horder : ∀ low ∈ rx.m_rxBuffer, ∀ high ∈ rx.m_rxBuffer, 512 ≤ past ((y + 1) % 1024) low →
      past ((y + 1) % 1024) high < 512 → low < high)
    (hready : rx.reassembly.Ready) :
    ∃ rx', rx.moveWindow seqNumber = some rx' ∧ Moved rx' (y - 511) (max r (y - 511)) ∧
      (∀ sn ∈ rx'.m_rxBuffer, sn ∈ rx.m_rxBuffer) ∧ rx'.m_vrUx = rx.m_vrUx ∧
      rx'.m_reorderingTimer = rx.m_reorderingTimer := by
  have hvalue : (seqNumber.add 1).m_value = (y + 1) % 1024 := by
    show (seqNumber.m_value + 1) % 1024 = _
    rw [hseq, Nat.mod_add_mod]
  have hedge : (y + 1) % 1024 = (y - 511 + 512) % 1024 := by omega
  obtain ⟨vrUh, buffer, reassembly, houtside, hvrUh', hready', hlookup⟩ :=
    reassembleOutside_eq { rx with
        m_vrUh := seqNumber.add 1 }
      (by show (seqNumber.add 1).m_value < 1024; rw [hvalue]; exact Nat.mod_lt _ (by decide))
      ((List.perm_insertionSort (· ≤ ·) rx.m_rxBuffer.keys).nodup_iff.mpr rx.m_rxBuffer.keys_nodup)
      (by
        show List.Pairwise (fun sn sn' => past (seqNumber.add 1).m_value sn < 512 →
          past (seqNumber.add 1).m_value sn' < 512) _
        rw [hvalue]
        refine (List.pairwise_insertionSort (· ≤ ·) rx.m_rxBuffer.keys).imp_of_mem fun hsn hsn' hle hinside => ?_
        refine Nat.not_le.mp fun hout => Nat.not_lt.mpr hle ?_
        exact horder _ ((List.mem_insertionSort _).mp hsn') _ ((List.mem_insertionSort _).mp hsn) hout hinside)
      (fun sn hsn => by
        have hmem : sn ∈ rx.m_rxBuffer := (List.mem_insertionSort _).mp hsn
        obtain ⟨packet, hpacket⟩ := Option.isSome_iff_exists.mp (AList.lookup_isSome.mpr hmem)
        obtain ⟨⟨z, -, rfl⟩, hsplittable⟩ := hbuffer sn packet hpacket
        exact ⟨Nat.mod_lt _ (by decide), packet, hpacket, hsplittable⟩)
      hready
  have huh : vrUh.m_value = (y - 511 + 512) % 1024 := hvrUh'.trans (hvalue.trans hedge)
  have hheld : ∀ sn packet, buffer.lookup sn = some packet → rx.m_rxBuffer.lookup sn = some packet ∧
      past ((y + 1) % 1024) sn < 512 := by
    intro sn packet hpacket
    rw [hlookup] at hpacket
    split at hpacket
    · cases hpacket
    · next hkept =>
      have hmem : sn ∈ rx.m_rxBuffer := AList.lookup_isSome.mp (Option.isSome_iff_exists.mpr ⟨packet, hpacket⟩)
      refine ⟨hpacket, Nat.not_le.mp fun hout => hkept ⟨(List.mem_insertionSort _).mpr hmem, ?_⟩⟩
      show 512 ≤ past (seqNumber.add 1).m_value sn
      rw [hvalue]
      exact hout
  -- the numbers that are left are inside the window
  have hbuffer' : Buffers buffer (max r (y - 511)) (y - 511 + 512) := by
    intro sn packet hpacket
    obtain ⟨hpacket, hkept⟩ := hheld sn packet hpacket
    obtain ⟨⟨z, hz, rfl⟩, hsplittable⟩ := hbuffer sn packet hpacket
    rw [past] at hkept
    exact ⟨⟨z, by omega, by omega, rfl⟩, hsplittable⟩
  have hmem : ∀ sn ∈ buffer, sn ∈ rx.m_rxBuffer := by
    intro sn hsn
    obtain ⟨packet, hpacket⟩ := Option.isSome_iff_exists.mp (AList.lookup_isSome.mpr hsn)
    exact AList.lookup_isSome.mp (Option.isSome_iff_exists.mpr ⟨packet, (hheld sn packet hpacket).1⟩)
  have hmove : rx.moveWindow seqNumber =
      (({ rx with m_vrUh := vrUh, m_rxBuffer := buffer, reassembly } : UmReceiver).isInsideReorderingWindow
        rx.m_vrUr).map fun inside =>
          if inside.1 then inside.2 else { inside.2 with m_vrUr := inside.2.m_vrUh.sub windowSize } := by
    rw [moveWindow, isInsideReorderingWindow_eq hvrUh.value hseq (by omega) hy', Option.bind_some]
    show (if decide (y < b + 512) = true then _ else _) = _
    rw [if_neg (by rw [decide_eq_false (Nat.not_lt.mpr hy)]; exact Bool.false_ne_true)]
    show Option.bind (reassembleOutside _ _) _ = _
    rw [houtside, Option.bind_some]
  by_cases hinside : y - 511 ≤ r
  · rw [hmove, isInsideReorderingWindow_eq (b := y - 511) (y := r) huh hvrUr.value hinside (by omega), Option.map_some]
    refine ⟨_, congrArg some (if_pos (decide_eq_true (by omega))), ?_, hmem, rfl, rfl⟩
    rw [Nat.max_eq_left hinside] at hbuffer' ⊢
    refine ⟨⟨huh, edge_value huh⟩, ⟨b, hvrUr, hr, fun hpresent => ?_⟩, hinside, by omega, hbuffer', hready'⟩
    -- VR(UR) was missing, so it is the number of the PDU
    obtain ⟨packet, hpacket⟩ := Option.ne_none_iff_exists'.mp hpresent
    obtain ⟨⟨z, hz, heq⟩, -⟩ := hbuffer _ _ (hheld _ _ hpacket).1
    omega
  · rw [hmove, isInsideReorderingWindow_eq (b := y - 511) (y := r + 1024) huh
      (hvrUr.value.trans (Nat.add_mod_right _ _).symm) (by omega) (by omega), Option.map_some]
    refine ⟨_, congrArg some (if_neg ?_), ?_, hmem, rfl, rfl⟩
    · rw [decide_eq_false (by omega)]
      exact Bool.false_ne_true
    · rw [Nat.max_eq_right (by omega)] at hbuffer' ⊢
      exact ⟨⟨huh, edge_value huh⟩, ⟨y - 511, ⟨edge_value huh, edge_value huh⟩, Nat.le_refl _, fun _ => by omega⟩,
        Nat.le_refl _, by omega, hbuffer', hready'⟩

/-- VR(UR) is missing then. -/
theorem Moved.deliver (hm : Moved rx b r) (hwrap : ¬ RunsOver (· ∈ rx.m_rxBuffer) (r % 1024)) :
    ∃ rx' r', rx.deliver 1024 = some rx' ∧ Delivered rx' b r' ∧ r ≤ r' ∧ rx'.m_vrUx = rx.m_vrUx ∧
      rx'.m_reorderingTimer = rx.m_reorderingTimer := by
  obtain ⟨base, hvrUr, hbase, hrange⟩ := hm.vrUr
  rw [UmReceiver.deliver, hvrUr.value]
  by_cases hmissing : Missing rx.m_rxBuffer r
  · rw [if_neg fun hsome => Option.isSome_iff_ne_none.mp hsome hmissing]
    exact ⟨rx, r, rfl, ⟨hm.vrUh.value, hvrUr.value, hm.low, hm.high, hm.buffered.of_missing hmissing, hm.ready⟩,
      Nat.le_refl _, rfl, rfl⟩
  · have hlow := hm.low
    have hlt := hm.buffered.lt hmissing hm.high (by omega)
    obtain ⟨n, hrounds, m, hn, hrm, hm', hmissing'⟩ := rounds_newVrUrTurn hm.buffered hm.low hlt hmissing hwrap
    have hvrUr' : (rx.m_vrUr.assign n).Stands base m := ⟨hn, hvrUr.modulusBase⟩
    obtain ⟨rx', hinterval, buffer, reassembly, rfl, hbuffer, hmissing'', hready⟩ :=
      reassembleSnInterval_eq { rx with m_vrUr := rx.m_vrUr.assign n } hvrUr hvrUr' hbase hrm.le
        (Nat.lt_of_le_of_lt hm' (hrange hmissing)) hm.buffered hmissing' hm.ready
    rw [if_pos (Option.isSome_iff_ne_none.mpr hmissing), hrounds, Option.bind_some, hinterval]
    exact ⟨_, m, rfl, ⟨hm.vrUh.value, hvrUr'.value, by omega, hm', hbuffer.of_missing hmissing'', hready⟩, hrm.le, rfl,
      rfl⟩

/-! ### The timer -/

/-- The timer runs on if VR(UX) is still ahead. -/
theorem stopReordering_eq (hvrUh : rx.m_vrUh.Stands b (b + 512)) (hvrUr : rx.m_vrUr.Stands b r) (hr : b ≤ r)
    (hr' : r ≤ b + 512) (hvrUx : rx.m_reorderingTimer = true → rx.m_vrUx.Stands b x ∧ b < x + 512 ∧ x ≤ b + 512) :
    ∃ timer, rx.stopReordering = some { rx with m_reorderingTimer := timer } ∧
      (timer = true → rx.m_vrUx.Stands b x ∧ r < x ∧ x ≤ b + 512) := by
  rw [stopReordering]
  by_cases hrunning : rx.m_reorderingTimer = true
  · obtain ⟨hux, hx, hx'⟩ := hvrUx hrunning
    rw [if_pos hrunning]
    by_cases hahead : b ≤ x
    · rw [hux.le_eq hvrUr hahead (by omega) hr (by omega), Option.bind_some]
      by_cases hle : x ≤ r
      · exact ⟨false, if_pos (decide_eq_true hle), fun hfalse => absurd hfalse Bool.false_ne_true⟩
      · -- VR(UX) is inside the window, or VR(UH)
        rw [if_neg (by rw [decide_eq_false hle]; exact Bool.false_ne_true),
          isInsideReorderingWindow_eq hvrUh.value hux.value hahead (by omega),
          hvrUh.setModulusBase_eq (edge_value hvrUh.value), Option.map_some]
        refine ⟨true, ?_, fun _ => ⟨hux, by omega, hx'⟩⟩
        show some (if (!decide (x < b + 512)) = true ∧ rx.m_vrUx.m_value ≠ rx.m_vrUh.m_value then _ else rx) = _
        rw [if_neg, ← hrunning]
        rintro ⟨hout, hne⟩
        have hge : ¬ x < b + 512 := by simpa using hout
        exact hne (by rw [hux.value, hvrUh.value, show x = b + 512 by omega])
    · -- VR(UX) was left behind
      have hwrapped : rx.m_vrUx.Stands b (x + 1024) := ⟨hux.value.trans (Nat.add_mod_right _ _).symm, hux.modulusBase⟩
      rw [hwrapped.le_eq hvrUr (by omega) (by omega) hr (by omega), Option.bind_some,
        if_neg (by rw [decide_eq_false (by omega)]; exact Bool.false_ne_true),
        isInsideReorderingWindow_eq hvrUh.value hwrapped.value (by omega) (by omega),
        hvrUh.setModulusBase_eq (edge_value hvrUh.value), Option.map_some]
      rw [decide_eq_false (show ¬ x + 1024 < b + 512 by omega)]
      refine ⟨false, congrArg some (if_pos ⟨rfl, ?_⟩), fun hfalse => absurd hfalse Bool.false_ne_true⟩
      rw [hux.value, hvrUh.value]
      omega
  · rw [if_neg hrunning]
    exact ⟨rx.m_reorderingTimer, rfl, fun htrue => absurd htrue hrunning⟩

/-- The timer runs when VR(UH) is ahead of VR(UR). -/
theorem Delivered.startReordering (hd : Delivered rx b r) (hvrUh : rx.m_vrUh.Stands b (b + 512))
    (hvrUr : rx.m_vrUr.Stands b r)
    (htimer : rx.m_reorderingTimer = true → rx.m_vrUx.Stands b x ∧ r < x ∧ x ≤ b + 512) :
    ∃ rx' x', rx.startReordering = some rx' ∧ ReceiveState rx' b r x' := by
  have hlow := hd.low
  have hhigh := hd.high
  rw [UmReceiver.startReordering]
  by_cases hrunning : rx.m_reorderingTimer = true
  · obtain ⟨hux, hx, hx'⟩ := htimer hrunning
    rw [if_pos hrunning]
    exact ⟨rx, x, rfl, { hd with
      running := hrunning.trans (decide_eq_true (by omega)).symm
      timer := fun _ => ⟨hvrUh, hvrUr, hux, hx, hx'⟩ }⟩
  · rw [if_neg hrunning, hvrUh.gt_eq hvrUr (by omega) (by omega) hlow (by omega), Option.map_some]
    by_cases hlt : r < b + 512
    · rw [if_pos (decide_eq_true hlt)]
      have hd' : Delivered { rx with m_reorderingTimer := true, m_vrUx := rx.m_vrUh } b r :=
        ⟨hd.vrUh, hd.vrUr, hd.low, hd.high, hd.buffered, hd.ready⟩
      exact ⟨{ rx with m_reorderingTimer := true, m_vrUx := rx.m_vrUh }, b + 512, rfl, hd', (decide_eq_true hlt).symm,
        fun _ => ⟨hvrUh, hvrUr, hvrUh, hlt, Nat.le_refl (b + 512)⟩⟩
    · rw [if_neg (by rw [decide_eq_false hlt]; exact Bool.false_ne_true)]
      exact ⟨rx, x, rfl, hd, (Bool.eq_false_of_not_eq_true hrunning).trans (decide_eq_false hlt).symm,
        fun htrue => absurd htrue hrunning⟩

/-! ### Calls -/

/-- VR(UR) when the window has moved on for a sequence number. -/
def movedVrUr (sn : Nat) (rx : UmReceiver) : Nat :=
  if past rx.m_vrUh.m_value sn < 512 ∨ past (sn + 1) rx.m_vrUr.m_value < 512 then rx.m_vrUr.m_value
  else (sn + 513) % 1024

/-- Neither slip is met with a sequence number: no key that the window leaves behind is above one that is inside of it
then, and what is buffered from VR(UR) on does not run over the wrap. -/
structure KeepsOrder (sn : Nat) (rx : UmReceiver) : Prop where
  leftBehind : 512 ≤ past rx.m_vrUh.m_value sn → ∀ low ∈ rx.m_rxBuffer, ∀ high, high = sn ∨ high ∈ rx.m_rxBuffer →
    512 ≤ past (sn + 1) low → past (sn + 1) high < 512 → low < high
  wrap : ¬ RunsOver (fun k => k = sn ∨ k ∈ rx.m_rxBuffer) (rx.movedVrUr sn)

/-- The states that a receiving side is in between calls. -/
def Reached (rx : UmReceiver) : Prop := ∃ b r x, ReceiveState rx b r x

theorem RunsOver.imp {held held' : Nat → Prop} {vrUr : Nat} (h : RunsOver held vrUr)
    (himp : ∀ sn, held sn → held' sn) : RunsOver held' vrUr :=
  ⟨fun sn hsn hsn' => himp sn (h.1 sn hsn hsn'), himp 0 h.2⟩

/-- What is left to do when the window has moved. -/
theorem Moved.finish (hm : Moved rx b r) (hwrap : ¬ RunsOver (· ∈ rx.m_rxBuffer) (r % 1024))
    (hvrUx : rx.m_reorderingTimer = true → rx.m_vrUx.m_value = x % 1024 ∧ b < x + 512 ∧ x ≤ b + 512) :
    ∃ rx', ((rx.deliver 1024).bind fun rx => rx.setTimerBases.stopReordering.bind startReordering) = some rx' ∧
      Reached rx' := by
  obtain ⟨rx₁, r₁, hdeliver, hd, hr, hux, htimer⟩ := hm.deliver hwrap
  rw [hdeliver, Option.bind_some]
  have hedge := edge_value hd.vrUh
  have huh : rx₁.setTimerBases.m_vrUh.Stands b (b + 512) := ⟨hd.vrUh, hedge⟩
  have hur : rx₁.setTimerBases.m_vrUr.Stands b r₁ := ⟨hd.vrUr, hedge⟩
  obtain ⟨timer, hstop, hrunning⟩ := stopReordering_eq huh hur hd.low hd.high fun hrunning => by
    obtain ⟨hx, hb, hb'⟩ := hvrUx (htimer.symm.trans hrunning)
    exact ⟨⟨(congrArg SequenceNumber10.m_value hux).trans hx, hedge⟩, hb, hb'⟩
  rw [hstop, Option.bind_some]
  have hd' : Delivered { rx₁.setTimerBases with m_reorderingTimer := timer } b r₁ :=
    ⟨hd.vrUh, hd.vrUr, hd.low, hd.high, hd.buffered, hd.ready⟩
  obtain ⟨rx', x', hstart, hs⟩ := hd'.startReordering huh hur hrunning
  exact ⟨rx', hstart, b, r₁, x', hs⟩

/-- What the buffer holds when the PDU is placed in it. -/
theorem lookup_place (rx : UmReceiver) (hs : Delivered rx b r) (hseq : seqNumber.m_value = y % 1024) (hpacket : Splittable packet)
    (sn : Nat) (packet' : Bytes) (hlookup : (rx.place seqNumber packet).m_rxBuffer.lookup sn = some packet') :
    (∃ z, (r < z ∧ z < b + 512 ∨ z = y) ∧ sn = z % 1024) ∧ Splittable packet' := by
  have hlookup : (rx.m_rxBuffer.insert seqNumber.m_value packet).lookup sn = some packet' := hlookup
  by_cases heq : sn = seqNumber.m_value
  · subst heq
    rw [AList.lookup_insert] at hlookup
    obtain rfl := Option.some.inj hlookup
    exact ⟨⟨y, .inr rfl, hseq⟩, hpacket⟩
  · rw [AList.lookup_insert_ne heq] at hlookup
    obtain ⟨⟨z, hz, hz', hsn⟩, hsplittable⟩ := hs.buffered sn packet' hlookup
    exact ⟨⟨z, .inl ⟨hz, hz'⟩, hsn⟩, hsplittable⟩

theorem reached_receive (hrx : Reached rx) {header : LteRlcHeader} (hsn : header.m_sequenceNumber.m_value < 1024)
    (hkeeps : KeepsOrder header.m_sequenceNumber.m_value rx) (hpacket : Splittable packet) :
    ∃ rx', rx.receive 1024 header packet = some rx' ∧ Reached rx' := by
  obtain ⟨b, r, x, hs⟩ := hrx
  obtain ⟨y, hy, hy', hvalue⟩ : ∃ y, b ≤ y ∧ y < b + 1024 ∧ header.m_sequenceNumber.m_value = y % 1024 :=
    ⟨b + (header.m_sequenceNumber.m_value + 1024 - b % 1024) % 1024, by omega, by omega, by omega⟩
  have huh := setBases_vrUh hs.toDelivered
  have hur := setBases_vrUr hs.toDelivered
  have hlow := hs.low
  have hhigh := hs.high
  have hedge := edge_value huh.value
  rw [receive]
  generalize hseq : header.m_sequenceNumber.setModulusBase (rx.setBases.m_vrUh.sub windowSize) = seqNumber
  have hstands : seqNumber.Stands b y := hseq ▸ ⟨hvalue, hedge⟩
  rw [discards_eq hur huh hstands hlow hhigh hy hy', Option.bind_some]
  by_cases hdiscards : r < y ∧ y < b + 512 ∧ ¬ Missing rx.setBases.m_rxBuffer y ∨ y < r
  · rw [if_pos (decide_eq_true hdiscards)]
    refine ⟨_, rfl, b, r, x, ⟨hs.vrUh, hs.vrUr, hs.low, hs.high, hs.buffered, hs.ready⟩, hs.running, fun hrunning => ?_⟩
    obtain ⟨-, -, hux, hx⟩ := hs.timer hrunning
    exact ⟨huh, hur, hux, hx⟩
  · rw [if_neg (by rw [decide_eq_false hdiscards]; exact Bool.false_ne_true)]
    have hle : r ≤ y := by omega
    have hlookup := lookup_place rx.setBases
      ⟨hs.vrUh, hs.vrUr, hs.low, hs.high, hs.buffered, hs.ready⟩ hstands.value hpacket
    have hpast : past rx.m_vrUh.m_value header.m_sequenceNumber.m_value = y - b := by
      rw [hs.vrUh, hvalue, past_eq hy hy']
    have hheld : ∀ sn, sn ∈ (rx.setBases.place seqNumber packet).m_rxBuffer →
        sn = header.m_sequenceNumber.m_value ∨ sn ∈ rx.m_rxBuffer := by
      intro sn hsn
      rw [hvalue, ← hstands.value]
      exact (AList.mem_insert _).mp hsn
    have hrunning : rx.m_reorderingTimer = true → rx.m_vrUx.m_value = x % 1024 ∧ r < x ∧ x ≤ b + 512 := fun hrunning => by
      obtain ⟨-, -, hux, hx⟩ := hs.timer hrunning
      exact ⟨hux.value, hx⟩
    by_cases hinside : y < b + 512
    · have hmoved : Moved (rx.setBases.place seqNumber packet) b r := by
        refine ⟨huh, ⟨b, hur, hlow, fun _ => by omega⟩, hlow, hhigh, fun sn packet' hpacket' => ?_, hs.ready⟩
        obtain ⟨⟨z, hz, hsn⟩, hsplittable⟩ := hlookup sn packet' hpacket'
        exact ⟨⟨z, by omega, by omega, hsn⟩, hsplittable⟩
      rw [moveWindow_inside hmoved.vrUh hstands.value hy hinside, Option.bind_some]
      refine hmoved.finish (x := x) (fun hover => hkeeps.wrap ?_) fun htrue => ?_
      · rw [movedVrUr, if_pos (.inl (by omega)), hs.vrUr]
        exact hover.imp hheld
      · obtain ⟨hux, hx, hx'⟩ := hrunning htrue
        exact ⟨hux, by omega, hx'⟩
    · obtain ⟨rx₁, hmove, hmoved, hmem, hux₁, htimer₁⟩ := moveWindow_outside (rx.setBases.place seqNumber packet)
        hur huh hlow hhigh hstands.value (by omega) hy' hlookup
        (fun low hlow high hhigh hout hin => by
          rw [← past_succ, ← hvalue] at hout hin
          rcases hheld low hlow with rfl | hlow
          · rw [hvalue, past] at hout
            omega
          · exact hkeeps.leftBehind (by omega) low hlow high (hheld high hhigh) hout hin)
        hs.ready
      rw [hmove, Option.bind_some]
      refine hmoved.finish (x := x) (fun hover => hkeeps.wrap ?_) fun htrue => ?_
      · have hvrUr : rx.movedVrUr header.m_sequenceNumber.m_value = max r (y - 511) % 1024 := by
          rw [movedVrUr, hpast, hvalue, past_succ, hs.vrUr, past]
          split <;> omega
        rw [hvrUr]
        exact hover.imp fun sn hsn => hheld sn (hmem sn hsn)
      · obtain ⟨hux, hx, hx'⟩ := hrunning (htimer₁.symm.trans htrue)
        exact ⟨(congrArg SequenceNumber10.m_value hux₁).trans hux, by omega, by omega⟩

theorem reached_expireReorderingTimer (hrx : Reached rx) (hrunning : rx.m_reorderingTimer = true) :
    ∃ rx', rx.expireReorderingTimer 1024 = some rx' ∧ Reached rx' := by
  obtain ⟨b, r, x, hs⟩ := hrx
  obtain ⟨huh, hur, hux, hx, hx'⟩ := hs.timer hrunning
  have hlow := hs.low
  obtain ⟨vrUr, hrounds, m, hvrUr, hm, hm', hmissing⟩ :=
    rounds_vrUxTurn hs.buffered (by omega) hux (by omega) hx'
  have hmissing_r : Buffers rx.m_rxBuffer r (b + 512) := fun sn packet hpacket => by
    obtain ⟨⟨z, hz, hz', hsn⟩, hsplittable⟩ := hs.buffered sn packet hpacket
    exact ⟨⟨z, by omega, hz', hsn⟩, hsplittable⟩
  obtain ⟨rx₁, hinterval, buffer, reassembly, rfl, hbuffer, hmissing', hready⟩ :=
    reassembleSnInterval_eq { rx with m_vrUr := vrUr, m_reorderingTimer := false } hur hvrUr hlow (by omega) (by omega)
      hmissing_r hmissing hs.ready
  have hd : Delivered { rx with m_vrUr := vrUr, m_reorderingTimer := false, m_rxBuffer := buffer, reassembly } b m :=
    ⟨hs.vrUh, hvrUr.value, by omega, hm', hbuffer.of_missing hmissing', hready⟩
  obtain ⟨rx', x', hstart, hs'⟩ := hd.startReordering (x := 0) huh hvrUr fun hfalse => absurd hfalse Bool.false_ne_true
  rw [expireReorderingTimer, hrounds, Option.bind_some, hinterval, Option.bind_some, hstart]
  exact ⟨rx', rfl, b, m, x', hs'⟩

theorem reached_new : Reached {} := by
  refine ⟨512, 1024, 0, ⟨rfl, rfl, by decide, by decide, fun sn packet hpacket => ?_,
    Reassembly.ready_waitingS0Full rfl⟩, rfl, fun hfalse => absurd hfalse Bool.false_ne_true⟩
  cases hpacket

/-! ### What holds after each call -/

/-- What the receive state promises: nothing deliverable is left waiting, what is buffered is inside the window, VR(UR)
is inside or at its upper edge VR(UH), and the timer runs when VR(UH) is ahead of VR(UR). -/
structure WindowKept (rx : UmReceiver) : Prop where
  vrUr_missing : rx.m_vrUr.m_value ∉ rx.m_rxBuffer
  buffered : ∀ sn ∈ rx.m_rxBuffer, sn < 1024 ∧ past rx.m_vrUh.m_value sn < 512
  vrUr : past rx.m_vrUh.m_value rx.m_vrUr.m_value < 512 ∨ rx.m_vrUr.m_value = rx.m_vrUh.m_value
  timer : rx.m_reorderingTimer = true ↔
    past rx.m_vrUh.m_value rx.m_vrUr.m_value < past rx.m_vrUh.m_value rx.m_vrUh.m_value

theorem Reached.windowKept (hrx : Reached rx) : WindowKept rx := by
  obtain ⟨b, r, x, hs⟩ := hrx
  have hlow := hs.low
  have hhigh := hs.high
  have hvrUr : past rx.m_vrUh.m_value rx.m_vrUr.m_value = r - b := by
    rw [hs.vrUh, hs.vrUr, past_eq hlow (by omega)]
  refine ⟨fun hmem => ?_, fun sn hsn => ?_, ?_, ?_⟩
  · obtain ⟨packet, hpacket⟩ := Option.isSome_iff_exists.mp (AList.lookup_isSome.mpr hmem)
    obtain ⟨⟨y, hy, hy', heq⟩, -⟩ := hs.buffered _ packet hpacket
    rw [hs.vrUr] at heq
    omega
  · obtain ⟨packet, hpacket⟩ := Option.isSome_iff_exists.mp (AList.lookup_isSome.mpr hsn)
    obtain ⟨⟨y, hy, hy', rfl⟩, -⟩ := hs.buffered sn packet hpacket
    rw [hs.vrUh, past_eq (by omega) (by omega)]
    exact ⟨Nat.mod_lt _ (by decide), by omega⟩
  · rw [hvrUr, hs.vrUh, hs.vrUr]
    omega
  · rw [hvrUr, hs.vrUh, past_eq (Nat.le_add_right _ _) (by omega), hs.running, decide_eq_true_eq]
    omega

/-- A PDU: its length indicators stay within its data field. -/
structure Pdu where
  packet : Bytes
  header : LteRlcHeader
  sdus : List Bytes
  deserialize : LteRlcHeader.deserialize packet = some header
  split : buildSdus header.m_extensionBits header.m_lengthIndicators (packet.drop header.getSerializedSize) = some sdus

/-- What happens to the receiving side. -/
inductive Call where
  | pdu (pdu : Pdu)
  | expireReorderingTimer

/-- One call. -/
def call (limit : Nat) : Call → UmReceiver → Option UmReceiver
  | .pdu pdu, rx => rx.receivePdu limit pdu.packet
  | .expireReorderingTimer, rx => if rx.m_reorderingTimer then rx.expireReorderingTimer limit else some rx

/-- Calls one after the other. -/
def calls (limit : Nat) : List Call → UmReceiver → Option UmReceiver
  | [], rx => some rx
  | first :: rest, rx => (rx.call limit first).bind (calls limit rest)

/-- No PDU of the calls meets one of the slips. -/
def KeepOrder (limit : Nat) : List Call → UmReceiver → Prop
  | [], _ => True
  | first :: rest, rx =>
    (∀ pdu, first = .pdu pdu → KeepsOrder pdu.header.m_sequenceNumber.m_value rx) ∧
      ∀ rx', rx.call limit first = some rx' → KeepOrder limit rest rx'

/-- The sequence number of a header that was read. -/
theorem deserialize_sequenceNumber {packet : Bytes} {header : LteRlcHeader}
    (h : LteRlcHeader.deserialize packet = some header) : header.m_sequenceNumber.m_value < 1024 := by
  match packet with
  | byte1 :: byte2 :: rest =>
    have hsn : (readSequenceNumber byte1 byte2).m_value < 1024 := Nat.mod_lt _ (by decide)
    rw [LteRlcHeader.deserialize] at h
    split at h
    · cases h
      exact hsn
    · obtain ⟨fields, -, rfl⟩ := Option.map_eq_some_iff.mp h
      exact hsn

theorem reached_call (hrx : Reached rx) {first : Call}
    (hkeeps : ∀ pdu, first = .pdu pdu → KeepsOrder pdu.header.m_sequenceNumber.m_value rx) :
    ∃ rx', rx.call 1024 first = some rx' ∧ Reached rx' := by
  cases first with
  | pdu pdu =>
    rw [call, receivePdu, pdu.deserialize, Option.bind_some]
    exact reached_receive hrx (deserialize_sequenceNumber pdu.deserialize) (hkeeps pdu rfl)
      ⟨pdu.header, pdu.sdus, pdu.deserialize, pdu.split⟩
  | expireReorderingTimer =>
    rw [call]
    by_cases hrunning : rx.m_reorderingTimer = true
    · rw [if_pos hrunning]
      exact reached_expireReorderingTimer hrx hrunning
    · rw [if_neg hrunning]
      exact ⟨rx, rfl, hrx⟩

theorem reached_calls (list : List Call) (rx : UmReceiver) (hrx : Reached rx) (hkeep : KeepOrder 1024 list rx) :
    ∃ rx', rx.calls 1024 list = some rx' ∧ Reached rx' := by
  induction list generalizing rx with
  | nil => exact ⟨rx, rfl, hrx⟩
  | cons first rest ih =>
    obtain ⟨rx₁, hcall, hrx₁⟩ := reached_call hrx hkeep.1
    obtain ⟨rx', hcalls, hrx'⟩ := ih rx₁ hrx₁ (hkeep.2 rx₁ hcall)
    exact ⟨rx', by rw [calls, hcall, Option.bind_some, hcalls], hrx'⟩

/-- When no PDU meets one of the slips, the window is kept by all calls. -/
theorem window_kept (list : List Call) (hkeep : KeepOrder 1024 list {}) :
    ∃ rx, calls 1024 list {} = some rx ∧ WindowKept rx := by
  obtain ⟨rx, hcalls, hrx⟩ := reached_calls list {} reached_new hkeep
  exact ⟨rx, hcalls, hrx.windowKept⟩

/-- A PDU of one byte. -/
def Pdu.ofByte (byte1 byte2 : UInt8) (h : (byte1 &&& 0x04) >>> 2 = dataFieldFollows) : Pdu where
  packet := [byte1, byte2, 0]
  header :=
    { m_headerLength := 2
      m_framingInfo := (byte1 &&& 0x18) >>> 3
      m_sequenceNumber := readSequenceNumber byte1 byte2
      m_extensionBits := [dataFieldFollows] }
  sdus := [[0]]
  deserialize := by rw [LteRlcHeader.deserialize, h, if_pos rfl]
  split := rfl

/-- The PDU before is missing, until the timer expires. -/
theorem window_kept_two :
    KeepOrder 1024 [.pdu (.ofByte 0 1 rfl), .expireReorderingTimer] {} ∧
      ∃ rx, calls 1024 [.pdu (.ofByte 0 1 rfl), .expireReorderingTimer] {} = some rx ∧ WindowKept rx := by
  have hkeep : KeepOrder 1024 [.pdu (.ofByte 0 1 rfl), .expireReorderingTimer] {} := by
    refine ⟨?_, fun _ _ => ⟨nofun, fun _ _ => trivial⟩⟩
    rintro pdu ⟨⟩
    refine ⟨fun _ low hlow => absurd hlow (AList.notMem_empty low), fun hover => ?_⟩
    rcases hover.1 2 (by decide) (by decide) with heq | hmem
    · exact absurd heq (by decide)
    · exact AList.notMem_empty 2 hmem
  exact ⟨hkeep, window_kept _ hkeep⟩

/-- What is missing is 1023, of which 0 is the next one. -/
theorem not_window_kept :
    ∃ rx, calls 1024 [.pdu (.ofByte 1 255 rfl), .pdu (.ofByte 3 254 rfl), .expireReorderingTimer, .pdu (.ofByte 0 0 rfl),
      .pdu (.ofByte 3 255 rfl)] {} = some rx ∧ ¬ WindowKept rx := by
  have hrun : ((calls 1024 [.pdu (.ofByte 1 255 rfl), .pdu (.ofByte 3 254 rfl), .expireReorderingTimer,
      .pdu (.ofByte 0 0 rfl), .pdu (.ofByte 3 255 rfl)] {}).map fun rx =>
        (rx.m_rxBuffer.lookup rx.m_vrUr.m_value).isSome) = some true := by decide +kernel
  obtain ⟨rx, hcalls, hsome⟩ := Option.map_eq_some_iff.mp hrun
  exact ⟨rx, hcalls, fun h => h.vrUr_missing (AList.lookup_isSome.mp hsome)⟩

end UmReceiver

end Ns3.Lte
