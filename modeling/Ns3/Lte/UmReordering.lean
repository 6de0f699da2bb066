import Ns3.Lte.UmReceiveState

/-!
# What the receiving side of a UM RLC entity reassembles

The sequence numbers stand for numbers that do not wrap, which are those of the PDUs that were sent. Between calls the
reception buffer holds PDUs with the numbers of the window, and what has been reassembled is below VR(UR). The PDUs are
reassembled in the order of their numbers, and fewer than 512 of them are left out in a row.

What a PDU is, and what is known of the reassembly when the PDUs below a number have been reassembled, are parameters.
-/

namespace Ns3.Lte

open Ns3.Lib

namespace UmReceiver

/-- A PDU that was sent with the number `m` is reassembled when what has been reassembled is below it, with fewer than 512
numbers between. -/
def Takes (Known : Nat → Reassembly → Prop) (Sent : Nat → Bytes → Prop) : Prop :=
  ∀ {e m : Nat} {r : Reassembly} {packet : Bytes}, Known e r → Sent m packet → e ≤ m → m < e + 512 →
    ∃ r', umReassembleAndDeliver packet r = some r' ∧ Known (m + 1) r'

/-- The buffer holds PDUs from `low` on and below `high`, and what has been reassembled is below `e`. From any number
between there is a PDU within 512 in the buffer. -/
structure Content (Known : Nat → Reassembly → Prop) (Sent : Nat → Bytes → Prop) (buffer : AList fun _ : Nat => Bytes)
    (reassembly : Reassembly) (low high e : Nat) : Prop where
  buffered : ∀ sn packet, buffer.lookup sn = some packet → ∃ y, low ≤ y ∧ y < high ∧ sn = y % 1024 ∧ Sent y packet
  known : Known e reassembly
  le : e ≤ low
  dense : ∀ y, e ≤ y → y < high → ∃ z, low ≤ z ∧ y ≤ z ∧ z < y + 512 ∧ z < high ∧ ¬ Missing buffer z

variable {Known : Nat → Reassembly → Prop} {Sent : Nat → Bytes → Prop} {buffer : AList fun _ : Nat => Bytes}
  {reassembly : Reassembly} {low low' high e y z : Nat}

namespace Content

/-- A number that is in the buffer. -/
theorem between (h : Content Known Sent buffer reassembly low high e) (hz : ¬ Missing buffer z) (hlow : low ≤ z)
    (hhigh : z < high) (hrange : high ≤ low + 1024) : ∃ packet, buffer.lookup (z % 1024) = some packet ∧ Sent z packet := by
  obtain ⟨packet, hpacket⟩ := Option.ne_none_iff_exists'.mp hz
  obtain ⟨y, hy, hy', heq, hsent⟩ := h.buffered _ _ hpacket
  obtain rfl : y = z := by omega
  exact ⟨packet, hpacket, hsent⟩

/-- The numbers below one are missing. -/
theorem raise (h : Content Known Sent buffer reassembly low high e) (hle : low ≤ low')
    (hmissing : ∀ z, low ≤ z → z < low' → Missing buffer z) : Content Known Sent buffer reassembly low' high e where
  buffered sn packet hpacket := by
    obtain ⟨y, hy, hy', rfl, hsent⟩ := h.buffered sn packet hpacket
    refine ⟨y, Nat.not_lt.mp fun hlt => ?_, hy', rfl, hsent⟩
    cases hpacket.symm.trans (hmissing y hy hlt)
  known := h.known
  le := h.le.trans hle
  dense y hy hy' := by
    obtain ⟨z, hlow, hz, hz', hhigh, hpresent⟩ := h.dense y hy hy'
    exact ⟨z, Nat.not_lt.mp fun hlt => hpresent (hmissing z hlow hlt), hz, hz', hhigh, hpresent⟩

/-- The lowest number in the buffer is reassembled. -/
theorem take (h : Content Known Sent buffer reassembly low high e) (htakes : Takes Known Sent) (hpresent : ¬ Missing buffer low)
    (hlt : low < high) (hrange : high ≤ low + 1024) :
    ∃ packet r', buffer.lookup (low % 1024) = some packet ∧ umReassembleAndDeliver packet reassembly = some r' ∧
      Content Known Sent (buffer.erase (low % 1024)) r' (low + 1) high (low + 1) := by
  obtain ⟨packet, hpacket, hsent⟩ := h.between hpresent (Nat.le_refl _) hlt hrange
  obtain ⟨z, hz, -, hz', -⟩ := h.dense e (Nat.le_refl _) (Nat.lt_of_le_of_lt h.le hlt)
  obtain ⟨r', hr, hknown⟩ := htakes h.known hsent h.le (by omega)
  refine ⟨packet, r', hpacket, hr, fun sn packet' hpacket' => ?_, hknown, Nat.le_refl _, fun y hy hy' => ?_⟩
  · have hne : sn ≠ low % 1024 := by
      rintro rfl
      rw [AList.lookup_erase] at hpacket'
      cases hpacket'
    rw [AList.lookup_erase_ne hne] at hpacket'
    obtain ⟨y, hy, hy', rfl, hsent⟩ := h.buffered sn packet' hpacket'
    exact ⟨y, by omega, hy', rfl, hsent⟩
  · obtain ⟨z, -, hz, hz', hhigh, hpresent⟩ := h.dense y (Nat.le_trans h.le (Nat.le_of_succ_le hy)) hy'
    refine ⟨z, by omega, hz, hz', hhigh, ?_⟩
    rw [Missing, AList.lookup_erase_ne (by omega)]
    exact hpresent

/-- A PDU is placed in the buffer. -/
theorem place (h : Content Known Sent buffer reassembly low high e) {packet : Bytes} (hsent : Sent y packet) (hlow : low ≤ y)
    (hnear : y < high + 512) :
    Content Known Sent (buffer.insert (y % 1024) packet) reassembly low (max high (y + 1)) e where
  buffered sn packet' hpacket' := by
    by_cases heq : sn = y % 1024
    · subst heq
      rw [AList.lookup_insert] at hpacket'
      obtain rfl := Option.some.inj hpacket'
      exact ⟨y, hlow, by omega, rfl, hsent⟩
    · rw [AList.lookup_insert_ne heq] at hpacket'
      obtain ⟨z, hz, hz', hsn, hsent⟩ := h.buffered sn packet' hpacket'
      exact ⟨z, hz, by omega, hsn, hsent⟩
  known := h.known
  le := h.le
  dense z hz hz' := by
    have hthere : ∀ w, w = y ∨ ¬ Missing buffer w → ¬ Missing (buffer.insert (y % 1024) packet) w := by
      intro w hw hmissing
      rw [Missing] at hmissing
      by_cases heq : w % 1024 = y % 1024
      · rw [heq, AList.lookup_insert] at hmissing
        cases hmissing
      · rw [AList.lookup_insert_ne heq] at hmissing
        rcases hw with rfl | hw
        · exact heq rfl
        · exact hw hmissing
    by_cases hold : z < high
    · obtain ⟨w, hlow, hw, hw', hhigh, hpresent⟩ := h.dense z hz hold
      exact ⟨w, hlow, hw, hw', by omega, hthere w (.inr hpresent)⟩
    · exact ⟨y, hlow, by omega, by omega, by omega, hthere y (.inl rfl)⟩

theorem buffers (h : Content Known Sent buffer reassembly low high e) (hsplit : ∀ y packet, Sent y packet → Splittable packet) :
    Buffers buffer low high := by
  intro sn packet hpacket
  obtain ⟨y, hy, hy', hsn, hsent⟩ := h.buffered sn packet hpacket
  exact ⟨⟨y, hy, hy', hsn⟩, hsplit y packet hsent⟩

/-- No number below `high` is left out when what was reassembled reaches up to it. -/
theorem missing_of_le (h : Content Known Sent buffer reassembly low high e) (hle : high ≤ low) (sn : Nat) :
    buffer.lookup sn = none := by
  cases hlookup : buffer.lookup sn with
  | none => rfl
  | some packet =>
    obtain ⟨y, hy, hy', -⟩ := h.buffered sn packet hlookup
    omega

end Content

/-! ### The loops -/

/-- Keys of the buffer in an order in which those that the window leaves behind come first, by their numbers. -/
def LeavesInOrder (low b : Nat) (sns : List Nat) : Prop :=
  sns.Pairwise fun sn sn' => ∀ z z', low ≤ z → z < b + 512 → sn = z % 1024 → low ≤ z' → z' < b + 512 → sn' = z' % 1024 →
    (b ≤ z → b ≤ z') ∧ (z < b → z < z')

theorem LeavesInOrder.raise {b : Nat} {sns : List Nat} (h : LeavesInOrder low b sns) (hle : low ≤ low') :
    LeavesInOrder low' b sns :=
  h.imp fun hall z z' hz hz' hsn hlow' => hall z z' (hle.trans hz) hz' hsn (hle.trans hlow')

/-- What the window leaves behind is reassembled. -/
theorem reassembleOutside_content (htakes : Takes Known Sent) {b : Nat} {sns : List Nat} (rx : UmReceiver)
    (hvrUh : rx.m_vrUh.m_value = (b + 512) % 1024) (hc : Content Known Sent rx.m_rxBuffer rx.reassembly low (b + 512) e)
    (hlow : b ≤ low + 512) (hnodup : sns.Nodup) (hsns : ∀ sn, sn ∈ sns ↔ (rx.m_rxBuffer.lookup sn).isSome)
    (horder : LeavesInOrder low b sns) :
    ∃ vrUh buffer reassembly e', rx.reassembleOutside sns =
        some { rx with m_vrUh := vrUh, m_rxBuffer := buffer, reassembly } ∧
      vrUh.m_value = (b + 512) % 1024 ∧ e ≤ e' ∧ Content Known Sent buffer reassembly (max low b) (b + 512) e' ∧
      ∀ sn, (buffer.lookup sn).isSome → (rx.m_rxBuffer.lookup sn).isSome := by
  induction sns generalizing rx low e with
  | nil =>
    refine ⟨_, _, _, e, rfl, hvrUh, Nat.le_refl _, hc.raise (Nat.le_max_left _ _) fun z _ _ => ?_, fun sn hsn => hsn⟩
    exact Option.not_isSome_iff_eq_none.mp fun hsome => List.not_mem_nil ((hsns _).mpr hsome)
  | cons first sns ih =>
    obtain ⟨hfirst, hrestNodup⟩ := List.nodup_cons.mp hnodup
    obtain ⟨horder_first, hrestOrder⟩ := List.pairwise_cons.mp horder
    obtain ⟨packet, hpacket⟩ := Option.isSome_iff_exists.mp ((hsns first).mp List.mem_cons_self)
    obtain ⟨z, hz, hz', rfl, hsent⟩ := hc.buffered first packet hpacket
    have hvalue : (SequenceNumber10.ofValue (z % 1024)).m_value = (z + if z < b then 1024 else 0) % 1024 := by
      show z % 1024 % 1024 = _
      split <;> omega
    have hrest : ∀ w, low ≤ w → w < b + 512 → ¬ Missing rx.m_rxBuffer w → w ≠ z →
        (b ≤ z → b ≤ w) ∧ (z < b → z < w) := by
      intro w hw hw' hpresent hne
      rcases List.mem_cons.mp ((hsns _).mpr (Option.isSome_iff_ne_none.mpr hpresent)) with heq | hmem
      · omega
      · exact horder_first _ hmem z w hz hz' rfl hw hw' rfl
    rw [reassembleOutside, isInsideReorderingWindow_eq hvrUh hvalue (by split <;> omega) (by split <;> omega), Option.bind_some]
    by_cases hinside : b ≤ z
    · refine ⟨_, _, _, e, if_pos ?_, hvrUh, Nat.le_refl _, hc.raise (Nat.le_max_left _ _) fun w hw hw' => ?_, fun sn hsn => hsn⟩
      · rw [if_neg (Nat.not_lt.mpr hinside)]
        exact decide_eq_true hz'
      · by_contra hpresent
        have hne : w ≠ z := by omega
        exact absurd ((hrest w hw (by omega) hpresent hne).1 hinside) (by omega)
    · have hlt : z < b := Nat.not_le.mp hinside
      have hraised := hc.raise hz fun w hw hw' => by
        by_contra hpresent
        exact absurd ((hrest w hw (by omega) hpresent (by omega)).2 hlt) (by omega)
      obtain ⟨packet', r, hpacket', hr, hnext⟩ :=
        hraised.take htakes (Option.ne_none_iff_exists'.mpr ⟨packet, hpacket⟩) hz' (by omega)
      obtain rfl := Option.some.inj (hpacket.symm.trans hpacket')
      obtain ⟨vrUh, buffer, reassembly, e', heq, hvrUh', he, hcontent, hsub⟩ :=
        ih { rx with
            m_vrUh := rx.m_vrUh.setModulusBase (rx.m_vrUh.sub windowSize)
            reassembly := r
            m_rxBuffer := rx.m_rxBuffer.erase (z % 1024) }
          hvrUh hnext (by omega) hrestNodup
          (fun sn => by
            by_cases hsn : sn = z % 1024
            · subst hsn
              rw [show (AList.lookup (z % 1024) (rx.m_rxBuffer.erase (z % 1024))) = none from AList.lookup_erase _ _]
              exact iff_of_false hfirst Bool.false_ne_true
            · show sn ∈ sns ↔ (AList.lookup sn (rx.m_rxBuffer.erase (z % 1024))).isSome = true
              rw [AList.lookup_erase_ne hsn, ← hsns sn, List.mem_cons]
              exact ⟨.inr, fun hmem => hmem.resolve_left hsn⟩)
          (LeavesInOrder.raise hrestOrder (by omega))
      refine ⟨vrUh, buffer, reassembly, e', ?_, hvrUh', by have := hc.le; omega, ?_, fun sn hsn => ?_⟩
      · rw [if_pos hlt, if_neg (by rw [decide_eq_false (show ¬ z + 1024 < b + 512 by omega)]; exact Bool.false_ne_true)]
        show (rx.m_rxBuffer.lookup (z % 1024)).bind _ = _
        rw [hpacket, Option.bind_some]
        show (umReassembleAndDeliver packet rx.reassembly).bind _ = _
        rw [hr, Option.bind_some]
        exact heq
      · rw [Nat.max_eq_right (by omega)] at hcontent ⊢
        exact hcontent
      · have hsn' : (AList.lookup sn (rx.m_rxBuffer.erase (z % 1024))).isSome = true := hsub sn hsn
        by_cases heq : sn = z % 1024
        · subst heq
          rw [hpacket]
          rfl
        · rwa [AList.lookup_erase_ne heq] at hsn'

/-- What is buffered below a missing number is reassembled. -/
theorem reassembleSnInterval_content (htakes : Takes Known Sent) (rx : UmReceiver) {base top target : Nat}
    {lowSn highSn : SequenceNumber10} (hlowSn : lowSn.Stands base low) (hhighSn : highSn.Stands base target)
    (hbase : base ≤ low) (hle : low ≤ target) (hrange : target < base + 1024) (htop : target ≤ top) (htop' : top ≤ low + 1024)
    (hc : Content Known Sent rx.m_rxBuffer rx.reassembly low top e) (hmissing : Missing rx.m_rxBuffer target) :
    ∃ buffer reassembly e', rx.reassembleSnInterval 1024 lowSn highSn =
        some { rx with m_rxBuffer := buffer, reassembly } ∧
      e ≤ e' ∧ Content Known Sent buffer reassembly target top e' ∧ Missing buffer target := by
  suffices hloop : ∃ rx', rx.reassembleSnInterval 1024 lowSn highSn = some rx' ∧ ∃ buffer reassembly e',
      rx' = { rx with m_rxBuffer := buffer, reassembly } ∧ e ≤ e' ∧ Content Known Sent buffer reassembly target top e' ∧
        Missing buffer target by
    obtain ⟨rx', hrounds, buffer, reassembly, e', rfl, hrest⟩ := hloop
    exact ⟨buffer, reassembly, e', hrounds, hrest⟩
  refine rounds_of_rank
    (I := fun k s => ∃ m buffer reassembly e', s.2 = { rx with m_rxBuffer := buffer, reassembly } ∧ s.1.Stands base m ∧
      low ≤ m ∧ m + k = target ∧ e ≤ e' ∧ Content Known Sent buffer reassembly m top e' ∧ Missing buffer target)
    ?_ ⟨low, _, _, e, rfl, hlowSn, Nat.le_refl _, Nat.add_sub_of_le hle, Nat.le_refl _, hc, hmissing⟩ (by omega)
  rintro k ⟨sn, rx'⟩ ⟨m, buffer, reassembly, e', rfl, hsn, hm, hrank, he, hc, hmissing⟩
  rw [intervalTurn, hsn.lt_eq hhighSn (by omega) (by omega) (by omega) hrange, Option.bind_some]
  by_cases hlt : m < target
  · rw [if_pos (decide_eq_true hlt), hsn.value]
    by_cases hpresent : Missing buffer m
    · rw [show buffer.lookup (m % 1024) = none from hpresent]
      exact ⟨_, rfl, k - 1, by omega, m + 1, _, _, e', rfl, hsn.incr, by omega, by omega, he,
        hc.raise (Nat.le_succ m) (fun z hz hz' => (show z = m by omega) ▸ hpresent), hmissing⟩
    · obtain ⟨packet, r, hpacket, hr, hnext⟩ := hc.take htakes hpresent (by omega) (by omega)
      refine ⟨.again (sn.incr, { rx with m_rxBuffer := buffer.erase (m % 1024), reassembly := r }), ?_, k - 1, by omega,
        m + 1, _, _, m + 1, rfl, hsn.incr, by omega, by omega, by have := hc.le; omega, hnext, hmissing.erase⟩
      rw [hpacket]
      show (umReassembleAndDeliver packet reassembly).map _ = _
      rw [hr, Option.map_some]
  · obtain rfl : m = target := by omega
    exact ⟨.leave _, if_neg (by rw [decide_eq_false hlt]; exact Bool.false_ne_true), _, _, e', rfl, he, hc, hmissing⟩

/-! ### A PDU -/

variable {rx : UmReceiver} {seqNumber : SequenceNumber10} {b r x : Nat} {packet : Bytes}

/-- The state between calls, with what has been reassembled: while the timer runs, VR(UX) stands for `x`. -/
structure Tracked (Known : Nat → Reassembly → Prop) (Sent : Nat → Bytes → Prop) (rx : UmReceiver) (b r x e : Nat) : Prop where
  vrUh : rx.m_vrUh.m_value = (b + 512) % 1024
  vrUr : rx.m_vrUr.m_value = r % 1024
  low : b ≤ r
  high : r ≤ b + 512
  content : Content Known Sent rx.m_rxBuffer rx.reassembly r (b + 512) e
  missing : Missing rx.m_rxBuffer r
  running : rx.m_reorderingTimer = decide (r < b + 512)
  timer : rx.m_reorderingTimer = true → rx.m_vrUh.Stands b (b + 512) ∧ rx.m_vrUr.Stands b r ∧ rx.m_vrUx.Stands b x ∧
    r < x ∧ x ≤ b + 512

/-- What was sent and what is known may be said in other words. -/
theorem Tracked.mono {Known' : Nat → Reassembly → Prop} {Sent' : Nat → Bytes → Prop} {e : Nat} (h : Tracked Known Sent rx b r x e)
    (hknown : ∀ y reassembly, Known y reassembly → Known' y reassembly) (hsent : ∀ y packet, Sent y packet → Sent' y packet) :
    Tracked Known' Sent' rx b r x e :=
  { h with
    content := { h.content with
      buffered := fun sn packet hpacket => by
        obtain ⟨y, hy, hy', hsn, hpdu⟩ := h.content.buffered sn packet hpacket
        exact ⟨y, hy, hy', hsn, hsent y packet hpdu⟩
      known := hknown e rx.reassembly h.content.known } }

/-- The timer is started when VR(UH) is ahead of VR(UR). -/
theorem startReordering_eq (rx : UmReceiver) (hvrUh : rx.m_vrUh.Stands b (b + 512)) (hvrUr : rx.m_vrUr.Stands b r) (hlow : b ≤ r)
    (hhigh : r ≤ b + 512) (htimer : rx.m_reorderingTimer = true → rx.m_vrUx.Stands b x ∧ r < x ∧ x ≤ b + 512) :
    ∃ vrUx timer x', rx.startReordering = some { rx with m_vrUx := vrUx, m_reorderingTimer := timer } ∧
      timer = decide (r < b + 512) ∧ (timer = true → vrUx.Stands b x' ∧ r < x' ∧ x' ≤ b + 512) := by
  rw [UmReceiver.startReordering]
  by_cases hrunning : rx.m_reorderingTimer = true
  · have hux := htimer hrunning
    rw [if_pos hrunning]
    exact ⟨_, _, x, rfl, hrunning.trans (decide_eq_true (by omega)).symm, fun _ => hux⟩
  · rw [if_neg hrunning, hvrUh.gt_eq hvrUr (by omega) (by omega) hlow (by omega), Option.map_some]
    by_cases hlt : r < b + 512
    · rw [if_pos (decide_eq_true hlt)]
      exact ⟨_, _, b + 512, rfl, (decide_eq_true hlt).symm, fun _ => ⟨hvrUh, hlt, Nat.le_refl _⟩⟩
    · rw [if_neg (by rw [decide_eq_false hlt]; exact Bool.false_ne_true)]
      refine ⟨_, _, x, rfl, ?_, fun htrue => absurd htrue hrunning⟩
      rw [decide_eq_false hlt]
      exact Bool.eq_false_of_not_eq_true hrunning

/-- What can be delivered is. -/
theorem deliver_content (htakes : Takes Known Sent) (hsplit : ∀ y packet, Sent y packet → Splittable packet) {base : Nat}
    (hvrUr : rx.m_vrUr.Stands base r) (hbase : base ≤ r) (hrange : ¬ Missing rx.m_rxBuffer r → b + 512 < base + 1024)
    (hlow : b ≤ r) (hhigh : r ≤ b + 512) (hc : Content Known Sent rx.m_rxBuffer rx.reassembly r (b + 512) e)
    (hwrap : ¬ RunsOver (· ∈ rx.m_rxBuffer) (r % 1024)) :
    ∃ vrUr buffer reassembly r' e', rx.deliver 1024 =
        some { rx with m_vrUr := vrUr, m_rxBuffer := buffer, reassembly } ∧
      vrUr.m_value = r' % 1024 ∧ r ≤ r' ∧ r' ≤ b + 512 ∧ e ≤ e' ∧ Content Known Sent buffer reassembly r' (b + 512) e' ∧
      Missing buffer r' := by
  rw [UmReceiver.deliver, hvrUr.value]
  by_cases hmissing : Missing rx.m_rxBuffer r
  · rw [if_neg fun hsome => Option.isSome_iff_ne_none.mp hsome hmissing]
    exact ⟨_, _, _, r, e, rfl, hvrUr.value, Nat.le_refl _, hhigh, Nat.le_refl _, hc, hmissing⟩
  · have hlt : r < b + 512 := by
      refine Nat.lt_of_le_of_ne hhigh fun heq => hmissing ?_
      exact hc.missing_of_le heq.ge _
    have hbuffers := hc.buffers hsplit
    obtain ⟨n, hrounds, m, hn, hrm, hm, hmissing'⟩ := rounds_newVrUrTurn hbuffers hlow hlt hmissing hwrap
    have hvrUr' : (rx.m_vrUr.assign n).Stands base m := ⟨hn, hvrUr.modulusBase⟩
    obtain ⟨buffer, reassembly, e', hinterval, he, hc', hmissing''⟩ :=
      reassembleSnInterval_content htakes { rx with m_vrUr := rx.m_vrUr.assign n } hvrUr hvrUr' hbase hrm.le
        (Nat.lt_of_le_of_lt hm (hrange hmissing)) hm (by omega) hc hmissing'
    rw [if_pos (Option.isSome_iff_ne_none.mpr hmissing), hrounds, Option.bind_some, hinterval]
    exact ⟨_, _, _, m, e', rfl, hvrUr'.value, hrm.le, hm, he, hc', hmissing''⟩

/-- What is left to do when the window has moved. -/
theorem finish_content (rx : UmReceiver) (htakes : Takes Known Sent) (hsplit : ∀ y packet, Sent y packet → Splittable packet) {base : Nat}
    (hvrUh : rx.m_vrUh.m_value = (b + 512) % 1024) (hvrUr : rx.m_vrUr.Stands base r) (hbase : base ≤ r)
    (hrange : ¬ Missing rx.m_rxBuffer r → b + 512 < base + 1024) (hlow : b ≤ r) (hhigh : r ≤ b + 512)
    (hc : Content Known Sent rx.m_rxBuffer rx.reassembly r (b + 512) e) (hwrap : ¬ RunsOver (· ∈ rx.m_rxBuffer) (r % 1024))
    (hvrUx : rx.m_reorderingTimer = true → rx.m_vrUx.m_value = x % 1024 ∧ b < x + 512 ∧ x ≤ b + 512) :
    ∃ rx' r' x' e', ((rx.deliver 1024).bind fun rx => rx.setTimerBases.stopReordering.bind startReordering) = some rx' ∧
      r ≤ r' ∧ e ≤ e' ∧ Tracked Known Sent rx' b r' x' e' := by
  obtain ⟨vrUr, buffer, reassembly, r', e', hdeliver, hvrUr', hr, hr', he, hc', hmissing⟩ :=
    deliver_content htakes hsplit hvrUr hbase hrange hlow hhigh hc hwrap
  rw [hdeliver, Option.bind_some]
  generalize hrx₁ : ({ rx with m_vrUr := vrUr, m_rxBuffer := buffer, reassembly } : UmReceiver) = rx₁
  have huh : rx₁.setTimerBases.m_vrUh.Stands b (b + 512) := by
    subst hrx₁
    exact ⟨hvrUh, edge_value hvrUh⟩
  have hur : rx₁.setTimerBases.m_vrUr.Stands b r' := by
    subst hrx₁
    exact ⟨hvrUr', edge_value hvrUh⟩
  obtain ⟨timer, hstop, hrunning⟩ := stopReordering_eq (x := x) huh hur (hlow.trans hr) hr' fun hrunning => by
    subst hrx₁
    obtain ⟨hx, hb, hb'⟩ := hvrUx hrunning
    exact ⟨⟨hx, edge_value hvrUh⟩, hb, hb'⟩
  obtain ⟨vrUx, timer', x', hstart, htimer', hux⟩ := startReordering_eq
    { rx₁.setTimerBases with m_reorderingTimer := timer } huh hur (hlow.trans hr) hr' hrunning
  rw [hstop, Option.bind_some, hstart]
  subst hrx₁
  exact ⟨_, r', x', e', rfl, hr, he, hvrUh, hvrUr', hlow.trans hr, hr', hc', hmissing, htimer',
    fun htrue => ⟨huh, hur, hux htrue⟩⟩

/-- The keys that the window leaves behind for a number come first, when the order is kept. -/
theorem leavesInOrder_sort {buffer : AList fun _ : Nat => Bytes} {sns : List Nat} (hsns : ∀ sn ∈ sns, sn = y % 1024 ∨ sn ∈ buffer)
    (hsorted : sns.Pairwise (· < ·)) (hb : b + 512 ≤ y) (hy' : y < b + 1024) (hlow : b ≤ r)
    (horder : ∀ low ∈ buffer, ∀ high, high = y % 1024 ∨ high ∈ buffer → 512 ≤ past (y % 1024 + 1) low →
      past (y % 1024 + 1) high < 512 → low < high) : LeavesInOrder r (y - 511) sns := by
  refine hsorted.imp_of_mem fun {sn sn'} hsn hsn' hlt z z' hz hz' hzsn hw hw' hwsn => ?_
  have hbehind : ∀ {u k : Nat}, k ∈ sns → k = u % 1024 → r ≤ u → u < y - 511 →
      k ∈ buffer ∧ 512 ≤ past (y % 1024 + 1) k := by
    intro u k hk hu hru huy
    refine ⟨(hsns k hk).resolve_left (by omega), ?_⟩
    rw [past]
    omega
  have hinside : ∀ {u k : Nat}, k = u % 1024 → y - 511 ≤ u → u < y + 1 → past (y % 1024 + 1) k < 512 := by
    intro u k hk hu hu'
    rw [past]
    omega
  constructor
  · intro hin
    by_contra hout
    obtain ⟨hmem, hpast⟩ := hbehind hsn' hwsn hw (by omega)
    have hlt' := horder sn' hmem sn (hsns sn hsn) hpast (hinside hzsn hin (by omega))
    omega
  · intro hout
    by_contra hle
    obtain ⟨hmem, hpast⟩ := hbehind hsn hzsn hz hout
    obtain ⟨hmem', hpast'⟩ := hbehind hsn' hwsn hw (by omega)
    have hlt₁ := horder sn hmem _ (.inl rfl) hpast (hinside rfl (by omega) (by omega))
    have hlt₂ := horder sn' hmem' _ (.inl rfl) hpast' (hinside rfl (by omega) (by omega))
    omega

/-- The window moves on for a number. -/
theorem moveWindow_content (rx : UmReceiver) (htakes : Takes Known Sent) (hvrUh : rx.m_vrUh.Stands b (b + 512)) (hseq : seqNumber.m_value = y % 1024)
    (hy : b + 512 ≤ y) (hy' : y < b + 1024) (hlow : b ≤ r) (hhigh : r ≤ b + 512) (hvrUr : rx.m_vrUr.Stands b r)
    (hc : Content Known Sent rx.m_rxBuffer rx.reassembly r (y + 1) e)
    (horder : LeavesInOrder r (y - 511) (rx.m_rxBuffer.keys.insertionSort (· ≤ ·))) :
    ∃ vrUh vrUr buffer reassembly base e', rx.moveWindow seqNumber =
        some { rx with m_vrUh := vrUh, m_vrUr := vrUr, m_rxBuffer := buffer, reassembly } ∧
      vrUh.m_value = (y + 1) % 1024 ∧ vrUr.Stands base (max r (y - 511)) ∧ e ≤ e' ∧
      (base = b ∧ y - 511 ≤ r ∨ base = y - 511 ∧ r < y - 511) ∧
      Content Known Sent buffer reassembly (max r (y - 511)) (y + 1) e' ∧
      ∀ sn, (buffer.lookup sn).isSome → (rx.m_rxBuffer.lookup sn).isSome := by
  have hedge : y - 511 + 512 = y + 1 := by omega
  have hvalue : (seqNumber.add 1).m_value = (y - 511 + 512) % 1024 := by
    show (seqNumber.m_value + 1) % 1024 = _
    rw [hseq, Nat.mod_add_mod, hedge]
  obtain ⟨vrUh, buffer, reassembly, e', houtside, hvrUh', he, hc', hsub⟩ :=
    reassembleOutside_content htakes { rx with m_vrUh := seqNumber.add 1 } hvalue (hedge.symm ▸ hc) (by omega)
      ((List.perm_insertionSort (· ≤ ·) rx.m_rxBuffer.keys).nodup_iff.mpr rx.m_rxBuffer.keys_nodup)
      (fun sn => (List.mem_insertionSort _).trans AList.lookup_isSome.symm) horder
  rw [hedge] at hc'
  have hmove : rx.moveWindow seqNumber =
      (({ rx with m_vrUh := vrUh, m_rxBuffer := buffer, reassembly } : UmReceiver).isInsideReorderingWindow
        rx.m_vrUr).map fun inside =>
          if inside.1 then inside.2 else { inside.2 with m_vrUr := inside.2.m_vrUh.sub windowSize } := by
    rw [moveWindow, isInsideReorderingWindow_eq hvrUh.value hseq (by omega) hy', Option.bind_some]
    show (if decide (y < b + 512) = true then _ else _) = _
    rw [if_neg (by rw [decide_eq_false (Nat.not_lt.mpr hy)]; exact Bool.false_ne_true)]
    show Option.bind (reassembleOutside _ _) _ = _
    rw [houtside, Option.bind_some]
  by_cases hinside : y - 511 ≤ r
  · rw [hmove, isInsideReorderingWindow_eq (b := y - 511) (y := r) hvrUh' hvrUr.value hinside (by omega), Option.map_some,
      Nat.max_eq_left hinside]
    rw [Nat.max_eq_left hinside] at hc'
    exact ⟨_, _, buffer, reassembly, b, e', congrArg some (if_pos (decide_eq_true (by omega))), by rw [← hedge]; exact hvrUh',
      hvrUr, he, .inl ⟨rfl, hinside⟩, hc', hsub⟩
  · rw [hmove, isInsideReorderingWindow_eq (b := y - 511) (y := r + 1024) hvrUh'
      (hvrUr.value.trans (Nat.add_mod_right _ _).symm) (by omega) (by omega), Option.map_some, Nat.max_eq_right (by omega)]
    rw [Nat.max_eq_right (by omega)] at hc'
    refine ⟨_, _, buffer, reassembly, y - 511, e', congrArg some (if_neg ?_), by rw [← hedge]; exact hvrUh',
      ⟨edge_value hvrUh', edge_value hvrUh'⟩, he, .inr ⟨rfl, by omega⟩, hc', hsub⟩
    rw [decide_eq_false (by omega)]
    exact Bool.false_ne_true

/-- A PDU that was sent arrives, with a number that is within 512 of those that have arrived. -/
theorem Tracked.receive (htakes : Takes Known Sent) (hsplit : ∀ y packet, Sent y packet → Splittable packet)
    (h : Tracked Known Sent rx b r x e) {header : LteRlcHeader} (hsn : header.m_sequenceNumber.m_value = y % 1024) (hy : b ≤ y)
    (hy' : y < b + 1024) (hsent : Sent y packet) (hkeeps : KeepsOrder (y % 1024) rx) :
    ∃ rx' r' x' e', rx.receive 1024 header packet = some rx' ∧ r ≤ r' ∧ e ≤ e' ∧
      Tracked Known Sent rx' (max b (y - 511)) r' x' e' := by
  have huh : rx.setBases.m_vrUh.Stands b (b + 512) := ⟨h.vrUh, edge_value h.vrUh⟩
  have hur : rx.setBases.m_vrUr.Stands b r := ⟨h.vrUr, edge_value h.vrUh⟩
  have hlow := h.low
  have hhigh := h.high
  rw [UmReceiver.receive]
  generalize hseq : header.m_sequenceNumber.setModulusBase (rx.setBases.m_vrUh.sub windowSize) = seqNumber
  have hstands : seqNumber.Stands b y := hseq ▸ ⟨hsn, edge_value huh.value⟩
  rw [discards_eq hur huh hstands hlow hhigh hy hy', Option.bind_some]
  by_cases hdiscards : r < y ∧ y < b + 512 ∧ ¬ Missing rx.setBases.m_rxBuffer y ∨ y < r
  · rw [if_pos (decide_eq_true hdiscards), Nat.max_eq_left (by omega)]
    exact ⟨_, r, x, e, rfl, Nat.le_refl _, Nat.le_refl _, h.vrUh, h.vrUr, hlow, hhigh, h.content, h.missing, h.running,
      fun hrunning => ⟨huh, hur, (h.timer hrunning).2.2⟩⟩
  · rw [if_neg (by rw [decide_eq_false hdiscards]; exact Bool.false_ne_true)]
    have hle : r ≤ y := by omega
    have hplaced : Content Known Sent (rx.setBases.place seqNumber packet).m_rxBuffer rx.reassembly r (max (b + 512) (y + 1)) e := by
      have hplace := h.content.place hsent hle (by omega)
      rw [← hstands.value] at hplace
      exact hplace
    have hheld : ∀ sn, sn ∈ (rx.setBases.place seqNumber packet).m_rxBuffer → sn = y % 1024 ∨ sn ∈ rx.m_rxBuffer := by
      intro sn hmem
      rw [← hstands.value]
      exact (AList.mem_insert _).mp hmem
    have hvrUx : rx.m_reorderingTimer = true → rx.m_vrUx.m_value = x % 1024 ∧ r < x ∧ x ≤ b + 512 := fun hrunning => by
      obtain ⟨-, -, hux, hx⟩ := h.timer hrunning
      exact ⟨hux.value, hx⟩
    by_cases hinside : y < b + 512
    · rw [moveWindow_inside (show (rx.setBases.place seqNumber packet).m_vrUh.Stands b (b + 512) from huh) hstands.value hy hinside, Option.bind_some,
        Nat.max_eq_left (by omega)]
      rw [Nat.max_eq_left (by omega)] at hplaced
      refine finish_content (x := x) _ htakes hsplit huh.value hur hlow (fun _ => by omega) hlow hhigh hplaced (fun hover => hkeeps.wrap ?_)
        fun htrue => ?_
      · rw [movedVrUr, h.vrUh, past_eq hy hy', if_pos (.inl (by omega)), h.vrUr]
        exact hover.imp hheld
      · obtain ⟨hux, hx, hx'⟩ := hvrUx htrue
        exact ⟨hux, by omega, hx'⟩
    · have hpast : past rx.m_vrUh.m_value (y % 1024) = y - b := by rw [h.vrUh, past_eq hy hy']
      rw [Nat.max_eq_right (by omega)] at hplaced
      have hsorted : ((rx.setBases.place seqNumber packet).m_rxBuffer.keys.insertionSort (· ≤ ·)).Pairwise (· < ·) :=
        ((List.pairwise_insertionSort (· ≤ ·) _).and
          ((List.perm_insertionSort (· ≤ ·) _).nodup_iff.mpr (AList.keys_nodup _))).imp fun hboth =>
            Nat.lt_of_le_of_ne hboth.1 hboth.2
      obtain ⟨vrUh, vrUr, buffer, reassembly, base, e₁, hmove, hvrUh', hvrUr', he₁, hbase, hc₁, hsub⟩ :=
        moveWindow_content (rx.setBases.place seqNumber packet) htakes huh hstands.value (by omega) hy' hlow hhigh hur hplaced
          (leavesInOrder_sort (fun sn hmem => hheld sn ((List.mem_insertionSort _).mp hmem)) hsorted (by omega) hy' hlow
            (hkeeps.leftBehind (by omega)))
      have hedge : y - 511 + 512 = y + 1 := by omega
      rw [hmove, Option.bind_some, Nat.max_eq_right (show b ≤ y - 511 by omega)]
      have hmem : ∀ sn, sn ∈ buffer → sn = y % 1024 ∨ sn ∈ rx.m_rxBuffer := fun sn hsn =>
        hheld sn (AList.lookup_isSome.mp (hsub sn (AList.lookup_isSome.mpr hsn)))
      have hnext : ¬ Missing buffer (max r (y - 511)) → y - 511 + 512 < base + 1024 := by
        intro hpresent
        -- VR(UR) was missing, so it is the number of the PDU
        rcases hbase with ⟨hbase, hle⟩ | ⟨hbase, -⟩
        · rw [Nat.max_eq_left hle] at hpresent
          rcases hmem _ (AList.lookup_isSome.mp (Option.isSome_iff_ne_none.mpr hpresent)) with heq | hin
          · omega
          · exact absurd h.missing (Option.isSome_iff_ne_none.mp (AList.lookup_isSome.mpr hin))
        · omega
      have hwrap : ¬ RunsOver (· ∈ buffer) (max r (y - 511) % 1024) := by
        refine fun hover => hkeeps.wrap ?_
        have hvrUr : rx.movedVrUr (y % 1024) = max r (y - 511) % 1024 := by
          rw [movedVrUr, hpast, past_succ, h.vrUr, past]
          split <;> omega
        rw [hvrUr]
        exact hover.imp hmem
      have hux : rx.m_reorderingTimer = true → rx.m_vrUx.m_value = x % 1024 ∧ y - 511 < x + 512 ∧ x ≤ y - 511 + 512 := by
        intro htrue
        obtain ⟨hux, hx, hx'⟩ := hvrUx htrue
        exact ⟨hux, by omega, by omega⟩
      obtain ⟨rx', r', x', e', hfinish, hr, he, htracked⟩ := finish_content (b := y - 511) (x := x)
        { rx.setBases.place seqNumber packet with
          m_vrUh := vrUh, m_vrUr := vrUr, m_rxBuffer := buffer, reassembly } htakes hsplit (by rw [hedge]; exact hvrUh') hvrUr' (by omega)
        hnext (Nat.le_max_right _ _) (by omega) (by rw [hedge]; exact hc₁) hwrap hux
      exact ⟨rx', r', x', e', hfinish, by omega, he₁.trans he, htracked⟩

/-- The timer expires. -/
theorem Tracked.expireReorderingTimer (htakes : Takes Known Sent) (hsplit : ∀ y packet, Sent y packet → Splittable packet)
    (h : Tracked Known Sent rx b r x e) (hrunning : rx.m_reorderingTimer = true) :
    ∃ rx' r' x' e', rx.expireReorderingTimer 1024 = some rx' ∧ r ≤ r' ∧ e ≤ e' ∧ Tracked Known Sent rx' b r' x' e' := by
  obtain ⟨huh, hur, hux, hx, hx'⟩ := h.timer hrunning
  have hlow := h.low
  have hbuffers := h.content.buffers hsplit
  obtain ⟨vrUr, hrounds, m, hvrUr, hm, hm', hmissing⟩ := rounds_vrUxTurn hbuffers hlow hux (by omega) hx'
  obtain ⟨buffer, reassembly, e', hinterval, he, hc, hmissing'⟩ :=
    reassembleSnInterval_content htakes { rx with m_vrUr := vrUr, m_reorderingTimer := false } hur hvrUr hlow (by omega) (by omega)
      hm' (by omega) h.content hmissing
  obtain ⟨vrUx, timer, x', hstart, htimer, hux'⟩ := startReordering_eq (x := 0) (r := m)
    { rx with m_vrUr := vrUr, m_reorderingTimer := false, m_rxBuffer := buffer, reassembly } huh hvrUr (by omega) hm'
    fun hfalse => absurd hfalse Bool.false_ne_true
  rw [UmReceiver.expireReorderingTimer, hrounds, Option.bind_some, hinterval, Option.bind_some, hstart]
  exact ⟨_, m, x', e', rfl, by omega, he, h.vrUh, hvrUr.value, by omega, hm', hc, hmissing', htimer,
    fun htrue => ⟨huh, hvrUr, hux' htrue⟩⟩

end UmReceiver

end Ns3.Lte
