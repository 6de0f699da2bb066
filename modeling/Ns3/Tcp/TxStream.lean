import Ns3.Tcp.TxDiscard

/-!
# The send buffer as a byte stream

Over any sequence of calls the send buffer has the bytes of the stream that were accepted and
not discarded, in order: calls that change marks leave the items as they are, and those that
move items leave their bytes.
-/

namespace Ns3.Tcp

open Ns3.Network Ns3.Lib

/-! ### Calls that change marks only -/

/-- The buffers differ in marks, counters and `m_highestSack` only. -/
structure Remarked (b b' : TcpTxBuffer) : Prop where
  frames_eq : frames b'.m_sentList = frames b.m_sentList
  app_eq : b'.m_appList = b.m_appList
  size_eq : b'.m_size = b.m_size
  sentSize_eq : b'.m_sentSize = b.m_sentSize
  first_eq : b'.m_firstByteSeq = b.m_firstByteSeq
  next_eq : b'.nextNode = b.nextNode

section Remarked

variable {b b' b'' : TcpTxBuffer}

theorem Remarked.refl (b : TcpTxBuffer) : Remarked b b := ⟨rfl, rfl, rfl, rfl, rfl, rfl⟩

theorem Remarked.trans (h : Remarked b b') (h' : Remarked b' b'') : Remarked b b'' :=
  ⟨h'.frames_eq.trans h.frames_eq, h'.app_eq.trans h.app_eq, h'.size_eq.trans h.size_eq,
    h'.sentSize_eq.trans h.sentSize_eq, h'.first_eq.trans h.first_eq, h'.next_eq.trans h.next_eq⟩

theorem Remarked.held (hr : Remarked b b') (h : Held b) : Held b' where
  sent_filled := filled_eq hr.frames_eq h.sent_filled
  app_filled := hr.app_eq ▸ h.app_filled
  sentSize := by rw [hr.sentSize_eq, span_eq hr.frames_eq, h.sentSize]
  size := by rw [hr.size_eq, span_eq hr.frames_eq, hr.app_eq, h.size]
  small := by
    rw [span_eq hr.frames_eq, hr.app_eq]
    exact h.small
  starts := by
    rw [hr.first_eq]
    exact contiguous_eq hr.frames_eq h.starts

theorem Remarked.contents (hr : Remarked b b') : b'.contents = b.contents := by
  rw [TcpTxBuffer.contents, bytes_eq hr.frames_eq, hr.app_eq, TcpTxBuffer.contents]

theorem addRenoSack_remarked (h : b.addRenoSack = some b') : Remarked b b' := by
  rw [TcpTxBuffer.addRenoSack] at h
  split at h
  · cases h
  · next head rest hsent =>
    split at h
    · next it rest' heq =>
      obtain rfl := Option.some.inj h
      exact ⟨by rw [hsent, frames_cons, sackFirst_frames heq, frames_cons], rfl, rfl, rfl, rfl, rfl⟩
    · obtain rfl := Option.some.inj h
      exact ⟨rfl, rfl, rfl, rfl, rfl, rfl⟩

theorem markHeadAsLost_remarked (b : TcpTxBuffer) : Remarked b b.markHeadAsLost := by
  rw [TcpTxBuffer.markHeadAsLost]
  split
  · exact .refl b
  · next head rest hsent =>
    exact ⟨by rw [hsent]; rfl, rfl, rfl, rfl, rfl, rfl⟩

theorem moveSackFromHead_remarked (h : b.moveSackFromHead = some b') : Remarked b b' := by
  rw [TcpTxBuffer.moveSackFromHead] at h
  split at h
  · obtain rfl := Option.some.inj h
    exact .refl b
  · next head rest hsent =>
    split at h
    · obtain ⟨b₁, heq, rfl⟩ := Option.map_eq_some_iff.mp h
      refine .trans ?_ ((addRenoSack_remarked heq).trans (markHeadAsLost_remarked b₁))
      exact ⟨by rw [hsent]; rfl, rfl, rfl, rfl, rfl, rfl⟩
    · obtain rfl := Option.some.inj h
      exact .refl b

theorem updateLostCount_remarked (h : b.updateLostCount = some b') : Remarked b b' := by
  rw [TcpTxBuffer.updateLostCount] at h
  split at h
  · next head items after heq =>
    obtain ⟨node, -, hsplit⟩ := Option.bind_eq_some_iff.mp heq
    have hlost := markLost_frames b.m_dupAckThresh b.m_lostOut items
    generalize markLost b.m_dupAckThresh b.m_lostOut items = m at h hlost
    obtain rfl := Option.some.inj h
    refine ⟨?_, rfl, rfl, rfl, rfl, rfl⟩
    dsimp only
    rw [← splitAfter_append hsplit, frames_append, frames_cons, hlost, frames_append, frames_cons]
    rfl
  · cases h

theorem update_remarked {list : List SackBlock} {n : UInt32} (h : b.update list = some (n, b')) :
    Remarked b b' := by
  rw [TcpTxBuffer.update] at h
  dsimp only at h
  have hmarks := markBlocks_frames b ⟨b.m_lostOut, b.m_sackedOut, b.m_highestSack, 0⟩ b.m_sentList
    list
  generalize b.markBlocks ⟨b.m_lostOut, b.m_sackedOut, b.m_highestSack, 0⟩ b.m_sentList list = m
    at h hmarks
  split at h
  · obtain ⟨b₁, heq, hb⟩ := Option.map_eq_some_iff.mp h
    obtain ⟨-, rfl⟩ := Prod.mk.inj hb
    have hr := updateLostCount_remarked heq
    exact ⟨hr.frames_eq.trans hmarks, hr.app_eq, hr.size_eq, hr.sentSize_eq, hr.first_eq, hr.next_eq⟩
  · obtain ⟨-, rfl⟩ := Prod.mk.inj (Option.some.inj h)
    exact ⟨hmarks, rfl, rfl, rfl, rfl, rfl⟩

theorem resetRenoSack_remarked (b : TcpTxBuffer) : Remarked b b.resetRenoSack :=
  ⟨frames_map fun _ => rfl, rfl, rfl, rfl, rfl, rfl⟩

theorem setSentListLost_remarked (b : TcpTxBuffer) (resetSack : Bool) :
    Remarked b (b.setSentListLost resetSack) := by
  rw [TcpTxBuffer.setSentListLost]
  split
  · exact ⟨frames_map fun _ => rfl, rfl, rfl, rfl, rfl, rfl⟩
  · exact ⟨frames_map fun _ => rfl, rfl, rfl, rfl, rfl, rfl⟩

theorem deleteRetransmittedFlagFromHead_remarked (b : TcpTxBuffer) :
    Remarked b b.deleteRetransmittedFlagFromHead := by
  rw [TcpTxBuffer.deleteRetransmittedFlagFromHead]
  split
  · exact .refl b
  · split
    · exact .refl b
    · next head rest hsent =>
      split
      · exact ⟨by rw [hsent]; rfl, rfl, rfl, rfl, rfl, rfl⟩
      · exact .refl b

end Remarked

/-! ### Calls that move items -/

section Move

variable {b : TcpTxBuffer}

/-- `ResetSentList` moves all items back. -/
theorem Held.resetSentList (h : Held b) :
    Held b.resetSentList ∧ b.resetSentList.contents = b.contents := by
  have hframes : frames (b.m_sentList.map fun item =>
      { item with m_retrans := false, m_sacked := false, m_lost := false }) =
        frames b.m_sentList := frames_map fun _ => rfl
  have hsmall := h.small
  refine ⟨⟨filled_nil, ?_, rfl, ?_, ?_, trivial⟩, ?_⟩
  · exact filled_append.mpr ⟨filled_eq hframes h.sent_filled, h.app_filled⟩
  · change b.m_size = UInt32.ofNat (span [] + span (_ ++ b.m_appList))
    rw [span_append, span_eq hframes, h.size, span_nil, Nat.zero_add]
  · change span [] + span (_ ++ b.m_appList) < 2 ^ 31
    rw [span_append, span_eq hframes, span_nil, Nat.zero_add]
    exact hsmall
  · change bytes [] ++ bytes (_ ++ b.m_appList) = _
    rw [bytes_append, bytes_eq hframes]
    rfl

/-- `ResetLastSegmentSent` moves the last item back. -/
theorem Held.resetLastSegmentSent (h : Held b) :
    Held b.resetLastSegmentSent ∧ b.resetLastSegmentSent.contents = b.contents := by
  rw [TcpTxBuffer.resetLastSegmentSent]
  split
  · exact ⟨h, rfl⟩
  · next item hlast =>
    obtain ⟨init, hsent⟩ := List.getLast?_eq_some_iff.mp hlast
    obtain ⟨hf, ha, hss, hs, hsm, hc⟩ := h
    rw [hsent] at hf hss hs hsm hc
    rw [hsent, List.dropLast_concat]
    rw [span_append, span_cons, span_nil] at hss hs hsm
    obtain ⟨hf₁, hf₂⟩ := filled_append.mp hf
    refine ⟨⟨hf₁, filled_cons.mpr ⟨(filled_cons.mp hf₂).1, ha⟩, ?_, ?_, ?_,
      (contiguous_append.mp hc).1⟩, ?_⟩
    · change b.m_sentSize - UInt32.ofNat item.m_packet.length = UInt32.ofNat (span init)
      rw [hss, ← UInt32.ofNat_sub (by omega)]
      congr 1
      omega
    · dsimp only
      rw [hs, span_cons]
      congr 1
      omega
    · dsimp only
      rw [span_cons]
      omega
    · rw [TcpTxBuffer.contents, TcpTxBuffer.contents, hsent]
      simp

/-- `Add` puts what it accepts behind the bytes of the buffer. -/
theorem Held.add (h : Held b) {p : Payload} (hp : b.held + p.length < 2 ^ 31) :
    Held (b.add p).2 ∧
      (b.add p).2.contents = b.contents ++ (if (b.add p).1 then p else []) := by
  have hheld : b.held = span b.m_sentList + span b.m_appList := rfl
  rw [TcpTxBuffer.add]
  split
  · split
    · next hpos =>
      have hne : p ≠ [] := by
        rintro rfl
        exact absurd hpos (by decide)
      refine ⟨⟨h.sent_filled, ?_, h.sentSize, ?_, ?_, h.starts⟩, ?_⟩
      · exact filled_append.mpr ⟨h.app_filled,
          filled_cons.mpr ⟨List.length_pos_iff.mpr hne, filled_nil⟩⟩
      · dsimp only
        rw [h.size, Payload.getSize, ← UInt32.ofNat_add, span_append, span_cons, span_nil]
        congr 1
        dsimp only
        omega
      · dsimp only
        rw [span_append, span_cons, span_nil]
        dsimp only
        omega
      · simp [TcpTxBuffer.contents]
    · next hpos =>
      have hnil : p = [] := by
        rw [← List.length_eq_zero_iff, ← ofNat_eq_zero (n := p.length) (by omega)]
        change p.getSize = 0
        rw [← UInt32.toNat_inj]
        rw [UInt32.lt_iff_toNat_lt] at hpos
        simpa using hpos
      exact ⟨h, by rw [hnil]; simp⟩
  · exact ⟨h, by simp⟩

/-- The head and `m_firstByteSeq` after the loop of `DiscardUpTo`, also when the number given is
not in the buffer. -/
theorem Discard.first {o : Nat} {b₁ : TcpTxBuffer} (hd : Discard o b b₁) (h : Held b) :
    (if b₁.m_size = 0 then b.m_firstByteSeq.advance o else b₁.m_firstByteSeq) =
      b.m_firstByteSeq.advance o ∧
    Held { b₁ with m_firstByteSeq := b.m_firstByteSeq.advance o } := by
  obtain ⟨h₁, hc₁, hf₁⟩ := hd.held h
  have hsize : b₁.m_size = UInt32.ofNat b₁.held := h₁.size
  have hsmall : b₁.held < 2 ^ 31 := h₁.small
  by_cases hle : o ≤ b.held
  · rw [Nat.min_eq_left hle] at hf₁
    rw [← hf₁, ite_self]
    exact ⟨rfl, h₁⟩
  · have hnil : b₁.held = 0 := by
      rw [← length_contents, hc₁, List.length_drop, length_contents]
      omega
    refine ⟨if_pos (by rw [hsize, hnil]; rfl), { h₁ with starts := ?_ }⟩
    have hf := h₁.sent_filled
    cases hsent : b₁.m_sentList with
    | nil => trivial
    | cons i rest =>
      rw [hsent] at hf
      have := (filled_cons.mp hf).1
      rw [TcpTxBuffer.held, hsent, span_cons] at hnil
      omega

/-- `DiscardUpTo` a number above the head: the loop, then the mark of a SACKed head is moved. -/
theorem Held.discardUpTo_eq (h : Held b) {o : Nat} (ho : o < 2 ^ 32)
    (hge : b.m_firstByteSeq.ge (b.m_firstByteSeq.advance o) = false) :
    ∃ b₁, Discard o b b₁ ∧
      TcpTxBuffer.discardLoop (b.m_sentList.length + 2) (UInt32.ofNat o) b = some b₁ ∧
      b.discardUpTo (b.m_firstByteSeq.advance o) =
      (TcpTxBuffer.moveSackFromHead { b₁ with
        m_firstByteSeq := b.m_firstByteSeq.advance o }).map fun b => { b with
          m_highestSack :=
            if b.m_highestSack.2.le b.m_firstByteSeq then (none, ⟨0⟩) else b.m_highestSack } := by
  have hdiff : (b.m_firstByteSeq.advance o).diff b.m_firstByteSeq = UInt32.ofNat o := by
    rw [← UInt32.toNat_inj, UInt32.toNat_ofNat_of_lt' ho]
    have := SequenceNumber32.toNat_diff_advance (s := b.m_firstByteSeq) (p := o) (q := 0) (by omega)
      (by omega)
    simpa using this
  obtain ⟨b₁, heq, hd⟩ := h.discardLoop ho (Nat.lt_succ_self (b.m_sentList.length + 1))
  refine ⟨b₁, hd, heq, ?_⟩
  rw [TcpTxBuffer.discardUpTo, if_neg (by simp [hge]), hdiff, heq]
  dsimp only
  rw [(hd.first h).1]

/-- The mark of a head can be moved. -/
theorem TcpTxBuffer.exists_moveSackFromHead (b : TcpTxBuffer) :
    ∃ b', b.moveSackFromHead = some b' := by
  rw [moveSackFromHead]
  split
  · exact ⟨_, rfl⟩
  · split
    · rw [addRenoSack]
      dsimp only
      split
      · exact ⟨_, rfl⟩
      · exact ⟨_, rfl⟩
    · exact ⟨_, rfl⟩

/-- `DiscardUpTo` of a number not above the head changes nothing, else the bytes below it go. -/
theorem Held.discardUpTo (h : Held b) (seq : SequenceNumber32) :
    (b.m_firstByteSeq.ge seq = true ∧ b.discardUpTo seq = some b) ∨
      ∃ b', b.m_firstByteSeq.ge seq = false ∧ b.discardUpTo seq = some b' ∧ Held b' ∧
        b'.contents = b.contents.drop (seq.diff b.m_firstByteSeq).toNat ∧
        b'.m_firstByteSeq = seq := by
  by_cases hge : b.m_firstByteSeq.ge seq = true
  · rw [TcpTxBuffer.discardUpTo, if_pos hge]
    exact .inl ⟨hge, rfl⟩
  right
  rw [Bool.not_eq_true] at hge
  obtain ⟨o, ho, rfl⟩ := b.m_firstByteSeq.exists_advance seq
  obtain ⟨b₁, hd, -, heq⟩ := h.discardUpTo_eq ho hge
  obtain ⟨-, hc₁, -⟩ := hd.held h
  obtain ⟨b₃, hmove⟩ := TcpTxBuffer.exists_moveSackFromHead
    { b₁ with m_firstByteSeq := b.m_firstByteSeq.advance o }
  have hr := moveSackFromHead_remarked hmove
  have hr' : Remarked b₃ { b₃ with
      m_highestSack :=
        if b₃.m_highestSack.2.le b₃.m_firstByteSeq then (none, ⟨0⟩) else b₃.m_highestSack } :=
    ⟨rfl, rfl, rfl, rfl, rfl, rfl⟩
  rw [heq, hmove, Option.map_some]
  refine ⟨_, hge, rfl, hr'.held (hr.held (hd.first h).2), ?_, ?_⟩
  · have hdiff := SequenceNumber32.toNat_diff_advance (s := b.m_firstByteSeq) (p := o) (q := 0)
      (by omega) (by omega)
    rw [SequenceNumber32.advance_zero, Nat.sub_zero] at hdiff
    rw [hr'.contents, hr.contents, hdiff]
    exact hc₁
  · rw [hr'.first_eq, hr.first_eq]

end Move

/-! ### Runs -/

/-- A send buffer and its stream: the bytes accepted, how many of them are discarded, and the
sequence number of the first one. -/
structure Outbound where
  txBuffer : TcpTxBuffer
  accepted : Payload := []
  discarded : Nat := 0
  origin : SequenceNumber32

namespace Outbound

/-- What a call that left `b'` did to the stream: `Add` appends what it accepts; `DiscardUpTo`
above the head takes the bytes below its argument, which moves the stream when it lies beyond
the end (the FIN has a number of its own). -/
def after (s : Outbound) (b' : TcpTxBuffer) : TxCall → Outbound
  | .add p =>
    { s with txBuffer := b', accepted := s.accepted ++ if (s.txBuffer.add p).1 then p else [] }
  | .discardUpTo seq =>
    if s.txBuffer.m_firstByteSeq.ge seq then { s with txBuffer := b' }
    else
      let n := (seq.diff s.txBuffer.m_firstByteSeq).toNat
      { s with
        txBuffer := b'
        discarded := s.discarded + min n s.txBuffer.held
        origin := s.origin.advance (n - s.txBuffer.held) }
  | _ => { s with txBuffer := b' }

/-- Fewer than half the sequence space of bytes are buffered. -/
def Fits (b : TcpTxBuffer) : TxCall → Prop
  | .add p => b.held + p.length < 2 ^ 31
  | _ => True

/-- The streams reached from an empty buffer by the calls allowed. -/
inductive Reached (allowed : TcpTxBuffer → TxCall → Prop) : Outbound → Prop where
  | start {b : TcpTxBuffer} (h : b.Empty) :
      Reached allowed { txBuffer := b, origin := b.m_firstByteSeq }
  | step {s : Outbound} {b' : TcpTxBuffer} {c : TxCall} (h : Reached allowed s)
      (hc : allowed s.txBuffer c) (hrun : c.run s.txBuffer = some b') : Reached allowed (s.after b' c)

/-- The buffer is laid out and has the bytes of the stream that are not discarded. -/
structure Sound (s : Outbound) : Prop where
  held : Held s.txBuffer
  contents : s.txBuffer.contents = s.accepted.drop s.discarded
  first : s.txBuffer.m_firstByteSeq = s.origin.advance s.discarded
  le : s.discarded ≤ s.accepted.length

/-- A call that leaves the bytes and the head alone keeps the stream sound. -/
theorem Sound.keep {s : Outbound} (h : Sound s) {b' : TcpTxBuffer} (hheld : Held b')
    (hcontents : b'.contents = s.txBuffer.contents)
    (hfirst : b'.m_firstByteSeq = s.txBuffer.m_firstByteSeq) : Sound { s with txBuffer := b' } :=
  ⟨hheld, hcontents.trans h.contents, hfirst.trans h.first, h.le⟩

theorem Sound.remark {s : Outbound} (h : Sound s) {b' : TcpTxBuffer}
    (hr : Remarked s.txBuffer b') : Sound { s with txBuffer := b' } :=
  h.keep (hr.held h.held) hr.contents hr.first_eq

/-- Every call keeps the stream sound. -/
theorem Sound.step {s : Outbound} (h : Sound s) {b' : TcpTxBuffer} {c : TxCall}
    (hc : Fits s.txBuffer c) (hrun : c.run s.txBuffer = some b') : Sound (s.after b' c) := by
  cases c with
  | add p =>
    obtain rfl := Option.some.inj hrun
    obtain ⟨hheld, hcontents⟩ := h.held.add hc
    refine ⟨hheld, ?_, ?_, ?_⟩
    · rw [after, hcontents, h.contents, List.drop_append_of_le_length h.le]
    · rw [after, ← h.first, TcpTxBuffer.add]
      dsimp only
      split
      · split
        · rfl
        · rfl
      · rfl
    · rw [after, List.length_append]
      exact Nat.le_trans h.le (Nat.le_add_right _ _)
  | copyFromSequence numBytes seq =>
    obtain ⟨r, heq, rfl⟩ := Option.map_eq_some_iff.mp hrun
    rcases h.held.copy_cases numBytes seq with hnone | hnull | ⟨off, n, r', -, hn, -, hsome, hr⟩
    · rw [hnone] at heq
      cases heq
    · rw [hnull] at heq
      obtain rfl := Option.some.inj heq
      exact h
    · rw [hsome] at heq
      obtain rfl := Option.some.inj heq
      have hseg := hr.segment h.held hn
      exact h.keep hseg.held hseg.contents hseg.first
  | discardUpTo seq =>
    rcases h.held.discardUpTo seq with ⟨hge, heq⟩ | ⟨b₁, hge, heq, hheld, hcontents, hfirst⟩
    · obtain rfl := Option.some.inj (heq.symm.trans hrun)
      rw [after, if_pos hge]
      exact h
    · obtain rfl := Option.some.inj (heq.symm.trans hrun)
      have hlen := length_contents s.txBuffer
      rw [h.contents, List.length_drop] at hlen
      have hle := h.le
      rw [after, if_neg (by simp [hge])]
      generalize hn : (seq.diff s.txBuffer.m_firstByteSeq).toNat = n at hcontents
      refine ⟨hheld, ?_, ?_, ?_⟩
      · dsimp only
        rw [hcontents, h.contents, List.drop_drop]
        by_cases hin : n ≤ s.txBuffer.held
        · rw [Nat.min_eq_left hin]
        · rw [List.drop_of_length_le (by omega), List.drop_of_length_le (by omega)]
      · dsimp only
        have hseq : seq = s.origin.advance (s.discarded + n) := by
          rw [← SequenceNumber32.advance_advance, ← h.first, ← hn, ← SequenceNumber32.add_toNat,
            SequenceNumber32.add_diff]
        rw [hfirst, hseq, SequenceNumber32.advance_advance]
        congr 1
        omega
      · dsimp only
        omega
  | update list =>
    obtain ⟨⟨n, b₁⟩, heq, rfl⟩ := Option.map_eq_some_iff.mp hrun
    exact h.remark (update_remarked heq)
  | addRenoSack => exact h.remark (addRenoSack_remarked hrun)
  | resetRenoSack =>
    obtain rfl := Option.some.inj hrun
    exact h.remark (resetRenoSack_remarked _)
  | markHeadAsLost =>
    obtain rfl := Option.some.inj hrun
    exact h.remark (markHeadAsLost_remarked _)
  | deleteRetransmittedFlagFromHead =>
    obtain rfl := Option.some.inj hrun
    exact h.remark (deleteRetransmittedFlagFromHead_remarked _)
  | setSentListLost resetSack =>
    obtain rfl := Option.some.inj hrun
    exact h.remark (setSentListLost_remarked _ _)
  | resetSentList =>
    obtain rfl := Option.some.inj hrun
    obtain ⟨hheld, hcontents⟩ := h.held.resetSentList
    exact h.keep hheld hcontents rfl
  | resetLastSegmentSent =>
    obtain rfl := Option.some.inj hrun
    obtain ⟨hheld, hcontents⟩ := h.held.resetLastSegmentSent
    refine h.keep hheld hcontents ?_
    rw [TcpTxBuffer.resetLastSegmentSent]
    split
    · rfl
    · rfl

/-- Every stream reached is sound. -/
theorem Reached.sound {s : Outbound} (h : Reached Fits s) : Sound s := by
  induction h with
  | start h =>
    refine ⟨h.held, ?_, ?_, Nat.le_refl _⟩
    · rw [TcpTxBuffer.contents, h.sentList, h.appList]
      rfl
    · rw [SequenceNumber32.advance_zero]
  | step _ hc hrun ih => exact ih.step hc hrun

/-- What a call leaves is the buffer after it. -/
@[simp] theorem after_txBuffer (s : Outbound) (b' : TcpTxBuffer) (c : TxCall) :
    (s.after b' c).txBuffer = b' := by
  cases c with
  | discardUpTo seq =>
    rw [after]
    split
    · rfl
    · rfl
  | _ => rfl

end Outbound

open Outbound

/-- Every call leaves the buffer laid out. -/
theorem Held.run {b b' : TcpTxBuffer} (h : Held b) {c : TxCall} (hc : Fits b c)
    (hrun : c.run b = some b') : Held b' := by
  have hs : Sound { txBuffer := b, accepted := b.contents, origin := b.m_firstByteSeq } :=
    ⟨h, rfl, (SequenceNumber32.advance_zero _).symm, Nat.zero_le _⟩
  have := (hs.step hc hrun).held
  rwa [after_txBuffer] at this

/-- The buffer has the bytes accepted from the one of `m_firstByteSeq` on; a segment that
`CopyFromSequence` returns has the bytes from `seq` on, at most `numBytes` of them, and starts at
`seq`; and `DiscardUpTo` a number in the buffer returns and takes the bytes below it. -/
structure Outbound.Streams (s : Outbound) : Prop where
  contents : s.txBuffer.contents = s.accepted.drop s.discarded
  first : s.txBuffer.m_firstByteSeq = s.origin.advance s.discarded
  copied : ∀ numBytes off, off ≤ s.txBuffer.held → ∀ item b',
    s.txBuffer.copyFromSequence numBytes (s.txBuffer.m_firstByteSeq.advance off) =
        some (some item, b') →
      item.m_startSeq = s.txBuffer.m_firstByteSeq.advance off ∧
      ∃ n, 1 ≤ n ∧ n ≤ numBytes.toNat ∧ item.m_packet.length = n ∧
        item.m_packet = (s.accepted.drop (s.discarded + off)).take n
  discards : ∀ n ≤ s.txBuffer.held, ∃ b',
    s.txBuffer.discardUpTo (s.txBuffer.m_firstByteSeq.advance n) = some b' ∧
      b'.contents = s.accepted.drop (s.discarded + n) ∧
      b'.m_firstByteSeq = s.txBuffer.m_firstByteSeq.advance n

/-- Over every run with fewer than half the sequence space of bytes buffered, the buffer is the
part of the stream that is not discarded. -/
theorem txBuffer_streams (s : Outbound) (hs : Reached Fits s) : s.Streams := by
  have h := hs.sound
  have hsmall : s.txBuffer.held < 2 ^ 31 := h.held.small
  refine ⟨h.contents, h.first, fun numBytes off hoff item b' heq => ?_, fun n hn => ?_⟩
  · rcases h.held.copy_cases numBytes (s.txBuffer.m_firstByteSeq.advance off) with
      hnone | hnull | ⟨off', n, r, hseq, hn, hle, hsome, hr⟩
    · rw [hnone] at heq
      cases heq
    · rw [hnull] at heq
      cases heq
    · rw [hsome] at heq
      obtain ⟨h1, rfl⟩ := Prod.mk.inj (Option.some.inj heq)
      obtain rfl := Option.some.inj h1
      have hseg := hr.segment h.held hn
      have hoff' := hseg.off_le
      rw [SequenceNumber32.advance_inj (by omega) (by omega)] at hseq
      subst hseq
      refine ⟨hseg.start, r.1.m_packet.length, hseg.pos, Nat.le_trans hseg.le hle, rfl, ?_⟩
      rw [← List.drop_drop, ← h.contents]
      exact hseg.packet
  · rcases h.held.discardUpTo (s.txBuffer.m_firstByteSeq.advance n) with
      ⟨hge, heq⟩ | ⟨b', -, heq, -, hcontents, hfirst⟩
    · have h0 := SequenceNumber32.ge_advance (s := s.txBuffer.m_firstByteSeq) (p := 0) (q := n)
        (by omega) (by omega)
      rw [SequenceNumber32.advance_zero] at h0
      rw [h0, decide_eq_true_eq, Nat.le_zero] at hge
      subst hge
      rw [SequenceNumber32.advance_zero] at heq ⊢
      exact ⟨_, heq, h.contents, rfl⟩
    · refine ⟨b', heq, ?_, hfirst⟩
      have hdiff := SequenceNumber32.toNat_diff_advance (s := s.txBuffer.m_firstByteSeq) (p := n)
        (q := 0) (by omega) (by omega)
      rw [SequenceNumber32.advance_zero, Nat.sub_zero] at hdiff
      rw [hcontents, hdiff, h.contents, List.drop_drop]

/-- Fifteen bytes are accepted at the end of the sequence space, ten are sent, and the last five
of these again. -/
theorem txBuffer_streams_fifteen : ∃ s : Outbound, s.txBuffer.m_sentList.length = 2 ∧
    s.Streams := by
  have h0 : Reached Fits { txBuffer := { m_firstByteSeq := ⟨0xfffffff8⟩ }, origin := ⟨0xfffffff8⟩ } :=
    .start ⟨rfl, rfl, rfl, rfl, rfl, rfl, rfl, rfl⟩
  have h1 := h0.step (c := .add (List.replicate 15 0))
    (by simp [Fits, TcpTxBuffer.held]) rfl
  have h2 := h1.step (c := .copyFromSequence 10 ⟨0xfffffff8⟩) trivial rfl
  have h3 := h2.step (c := .copyFromSequence 5 ⟨0xfffffffd⟩) trivial rfl
  exact ⟨_, rfl, txBuffer_streams _ h3⟩

/-- With more than half the sequence space of bytes buffered, `DiscardUpTo` a number more than
half the space above the head takes nothing. -/
theorem not_txBuffer_streams_half : ∃ s : Outbound, Reached (fun _ _ => True) s ∧
    ∃ n ≤ s.txBuffer.held, ∃ b',
      s.txBuffer.discardUpTo (s.txBuffer.m_firstByteSeq.advance n) = some b' ∧
        b'.contents ≠ s.accepted.drop (s.discarded + n) := by
  obtain ⟨p, hp⟩ : ∃ p : Payload, p.length = 2147483650 :=
    ⟨List.replicate 2147483650 0, List.length_replicate⟩
  have h0 : Reached (fun _ _ => True)
      { txBuffer := { m_firstByteSeq := ⟨0⟩, m_maxBuffer := 0xffffffff }, origin := ⟨0⟩ } :=
    .start ⟨rfl, rfl, rfl, rfl, rfl, rfl, rfl, rfl⟩
  have hsize : p.getSize = 2147483650 := by
    rw [Payload.getSize, hp]
    rfl
  have hadd : TcpTxBuffer.add { m_firstByteSeq := ⟨0⟩, m_maxBuffer := 0xffffffff } p =
      (true, { m_firstByteSeq := ⟨0⟩, m_maxBuffer := 0xffffffff, m_size := 2147483650
               m_appList := [{ node := 0, m_packet := p }], nextNode := 1 }) := by
    rw [TcpTxBuffer.add, hsize]
    rfl
  have h1 := h0.step (c := .add p) trivial (by rw [TxCall.run, hadd])
  have hge : SequenceNumber32.ge ⟨0⟩ (SequenceNumber32.advance ⟨0⟩ 2147483649) = true := by decide
  refine ⟨_, h1, 2147483649, ?_, _, if_pos hge, fun heq => ?_⟩
  · change 2147483649 ≤ span [] + span [{ node := 0, m_packet := p }]
    rw [span_nil, span_cons, hp, span_nil]
    decide
  · have hlen := congrArg List.length heq
    rw [List.length_drop, length_contents] at hlen
    simp [Outbound.after, TcpTxBuffer.held, hadd, hp] at hlen

end Ns3.Tcp
