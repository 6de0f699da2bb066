import Ns3.Tcp.TxCopy

/-!
# Discarding from the send buffer

The loop of `DiscardUpTo`: heads go one by one, and what was not sent is moved to the sent items
to go with them.
-/

namespace Ns3.Tcp

open Ns3.Network Ns3.Lib

/-- The buffer with `o` bytes of the head `i` gone and `sent` what is left of `m_sentList`. -/
def TcpTxBuffer.without (b : TcpTxBuffer) (i : TcpTxItem) (o : Nat) (sent : List TcpTxItem) :
    TcpTxBuffer :=
  { b with
    m_sentList := sent
    m_size := b.m_size - UInt32.ofNat o
    m_sentSize := b.m_sentSize - UInt32.ofNat o
    m_firstByteSeq := b.m_firstByteSeq.advance o }.removeFromCounts i (UInt32.ofNat o)

/-- What the loop of `DiscardUpTo` does to a buffer of which `o` bytes are to go. -/
inductive Discard : Nat → TcpTxBuffer → TcpTxBuffer → Prop where
  | done {o : Nat} {b : TcpTxBuffer} (h : o = 0 ∨ b.held = 0) : Discard o b b
  | part {o : Nat} {b : TcpTxBuffer} {i : TcpTxItem} {rest : List TcpTxItem}
      (hsent : b.m_sentList = i :: rest) (hpos : 0 < o) (hlt : o < i.m_packet.length) :
      Discard o b (b.without i o (i.back o :: rest))
  | full {o : Nat} {b b' : TcpTxBuffer} {i : TcpTxItem} {rest : List TcpTxItem}
      (hsent : b.m_sentList = i :: rest) (hle : i.m_packet.length ≤ o)
      (h : Discard (o - i.m_packet.length) (b.without i i.m_packet.length rest) b') :
      Discard o b b'
  | move {o : Nat} {b b' : TcpTxBuffer} {r : TcpTxItem × TcpTxBuffer} (hsent : b.m_sentList = [])
      (hpos : 0 < o) (hheld : 0 < b.held) (hr : Copied b 0 (min o b.held) r)
      (h : Discard o r.2 b') : Discard o b b'

section Discard

variable {b : TcpTxBuffer}

/-- Without its whole head the buffer is still laid out. -/
theorem Held.without_head (h : Held b) {i : TcpTxItem} {rest : List TcpTxItem}
    (hsent : b.m_sentList = i :: rest) : Held (b.without i i.m_packet.length rest) := by
  obtain ⟨hf, ha, hss, hs, hsm, hc⟩ := h
  rw [hsent] at hf hss hs hsm hc
  rw [span_cons] at hss hs hsm
  exact
    { sent_filled := (filled_cons.mp hf).2
      app_filled := ha
      sentSize := by
        change b.m_sentSize - UInt32.ofNat i.m_packet.length = UInt32.ofNat (span rest)
        rw [hss, ← UInt32.ofNat_sub (by omega), Nat.add_sub_cancel_left]
      size := by
        change b.m_size - UInt32.ofNat i.m_packet.length =
          UInt32.ofNat (span rest + span b.m_appList)
        rw [hs, ← UInt32.ofNat_sub (by omega)]
        congr 1
        omega
      small := by
        change span rest + span b.m_appList < 2 ^ 31
        omega
      starts := (contiguous_cons.mp hc).2 }

/-- Without part of its head the buffer is still laid out. -/
theorem Held.without_part (h : Held b) {i : TcpTxItem} {rest : List TcpTxItem}
    (hsent : b.m_sentList = i :: rest) {o : Nat} (ho : o < i.m_packet.length) :
    Held (b.without i o (i.back o :: rest)) := by
  obtain ⟨hf, ha, hss, hs, hsm, hc⟩ := h
  rw [hsent] at hf hss hs hsm hc
  rw [span_cons] at hss hs hsm
  have hlen : (i.back o).m_packet.length = i.m_packet.length - o := by
    simp [TcpTxItem.back]
  obtain ⟨hstart, hrest⟩ := contiguous_cons.mp hc
  exact
    { sent_filled := filled_cons.mpr ⟨by omega, (filled_cons.mp hf).2⟩
      app_filled := ha
      sentSize := by
        change b.m_sentSize - UInt32.ofNat o = UInt32.ofNat (span (i.back o :: rest))
        rw [hss, ← UInt32.ofNat_sub (by omega), span_cons, hlen]
        congr 1
        omega
      size := by
        change b.m_size - UInt32.ofNat o = UInt32.ofNat (span (i.back o :: rest) + span b.m_appList)
        rw [hs, ← UInt32.ofNat_sub (by omega), span_cons, hlen]
        congr 1
        omega
      small := by
        change span (i.back o :: rest) + span b.m_appList < 2 ^ 31
        rw [span_cons, hlen]
        omega
      starts := by
        refine contiguous_cons.mpr ⟨?_, ?_⟩
        · rw [TcpTxItem.back, hstart]
          rfl
        · rw [hlen]
          change Contiguous ((b.m_firstByteSeq.advance o).advance _) rest
          rw [SequenceNumber32.advance_advance]
          have heq : o + (i.m_packet.length - o) = i.m_packet.length := by omega
          rwa [heq] }

/-- The loop ends when nothing is to go or nothing is left. -/
theorem Held.discardLoop_done (h : Held b) {o : Nat} (hdone : o = 0 ∨ b.held = 0) (fuel : Nat) :
    TcpTxBuffer.discardLoop (fuel + 1) (UInt32.ofNat o) b = some b := by
  rw [TcpTxBuffer.discardLoop, if_neg]
  rw [Bool.and_eq_true, decide_eq_true_eq, decide_eq_true_eq, h.size]
  rintro ⟨h1, h2⟩
  rcases hdone with rfl | hheld
  · exact absurd h2 (by decide)
  · change span b.m_sentList + span b.m_appList = 0 at hheld
    rw [hheld] at h1
    exact absurd h1 (by decide)

/-- The loop at a head. -/
theorem Held.discardLoop_head (h : Held b) {i : TcpTxItem} {rest : List TcpTxItem}
    (hsent : b.m_sentList = i :: rest) {o : Nat} (hpos : 0 < o) (ho : o < 2 ^ 32) (fuel : Nat) :
    TcpTxBuffer.discardLoop (fuel + 1) (UInt32.ofNat o) b =
      if i.m_packet.length ≤ o then
        TcpTxBuffer.discardLoop fuel (UInt32.ofNat (o - i.m_packet.length))
          (b.without i i.m_packet.length rest)
      else some (b.without i o (i.back o :: rest)) := by
  have hsmall := h.small
  have hsize := h.size
  have hf := h.sent_filled
  rw [hsent, span_cons] at hsmall hsize
  rw [hsent] at hf
  obtain ⟨hlen, -⟩ := filled_cons.mp hf
  have ho' : (UInt32.ofNat o).toNat = o := UInt32.toNat_ofNat_of_lt' ho
  have hcond : (decide (0 < b.m_size) && decide (0 < UInt32.ofNat o)) = true := by
    rw [Bool.and_eq_true, decide_eq_true_eq, decide_eq_true_eq, hsize, UInt32.lt_iff_toNat_lt,
      UInt32.lt_iff_toNat_lt, toNat_ofNat (by omega), ho', UInt32.toNat_zero]
    omega
  have hle : (i.getSize ≤ UInt32.ofNat o) = (i.m_packet.length ≤ o) := by
    rw [UInt32.le_iff_toNat_le, toNat_getSize (by omega), ho']
  rw [TcpTxBuffer.discardLoop]
  simp only [hcond, if_true, hsent, List.isEmpty_cons, Bool.false_eq_true, if_false, hle]
  split
  · next hle' =>
    have hsub : UInt32.ofNat o - i.getSize = UInt32.ofNat (o - i.m_packet.length) := by
      rw [TcpTxItem.getSize, Payload.getSize, ← UInt32.ofNat_sub hle']
    rw [hsub]
    rfl
  · next hlt =>
    have hfrag : i.m_packet.createFragment (UInt32.ofNat o) (i.getSize - UInt32.ofNat o) =
        i.m_packet.drop o := by
      rw [Payload.createFragment, ho', TcpTxItem.getSize, Payload.getSize,
        ← UInt32.ofNat_sub (by omega), toNat_ofNat (by omega), List.take_of_length_le]
      rw [List.length_drop]
    rw [hfrag]
    rfl

/-- The loop when nothing is left that was sent. -/
theorem Held.discardLoop_move (h : Held b) (hsent : b.m_sentList = []) {o : Nat} (hpos : 0 < o)
    (ho : o < 2 ^ 32) (hheld : 0 < b.held) :
    ∃ r, Copied b 0 (min o b.held) r ∧
      b.copyFromSequence (UInt32.ofNat o) b.m_firstByteSeq = some (some r.1, r.2) ∧ ∀ fuel,
      TcpTxBuffer.discardLoop (fuel + 1) (UInt32.ofNat o) b =
        TcpTxBuffer.discardLoop (fuel + 1) (UInt32.ofNat o) r.2 := by
  have hsmall : b.held < 2 ^ 31 := h.small
  have hspan : span b.m_sentList = 0 := by rw [hsent, span_nil]
  have happ : b.held = span b.m_appList := by
    rw [TcpTxBuffer.held, hspan, Nat.zero_add]
  have ho' : (UInt32.ofNat o).toNat = o := UInt32.toNat_ofNat_of_lt' ho
  obtain ⟨r, heq, hr⟩ := h.exists_sentNew (n := min o b.held) (by omega) (by omega)
  rw [hspan] at hr
  have hcopy : b.copyFromSequence (UInt32.ofNat o) b.m_firstByteSeq = some (some r.1, r.2) := by
    have := h.copyWithin_eq (Nat.zero_le b.held) (UInt32.ofNat o) 1 (s := min o b.held)
      (by rw [ho', Nat.sub_zero])
    rw [SequenceNumber32.advance_zero, if_neg (by omega), if_neg (by omega), if_pos (by omega),
      heq] at this
    exact this
  have hseg := hr.segment h (by omega)
  have hcond : ∀ b' : TcpTxBuffer, Held b' → b'.held = b.held →
      (decide (0 < b'.m_size) && decide (0 < UInt32.ofNat o)) = true := by
    intro b' h' heq'
    have hsize : b'.m_size = UInt32.ofNat b'.held := h'.size
    rw [Bool.and_eq_true, decide_eq_true_eq, decide_eq_true_eq, hsize, UInt32.lt_iff_toNat_lt,
      UInt32.lt_iff_toNat_lt, toNat_ofNat (by omega), ho', UInt32.toNat_zero]
    omega
  have hheld' : r.2.held = b.held := by
    rw [← length_contents, ← length_contents, hseg.contents]
  have hne : r.2.m_sentList.isEmpty = false := by
    cases hr with
    | resent hs => rw [hsent] at hs; simp at hs
    | sentNew => simp [TcpTxBuffer.sentNew]
  refine ⟨r, hr, hcopy, fun fuel => ?_⟩
  rw [TcpTxBuffer.discardLoop, TcpTxBuffer.discardLoop]
  simp only [hcond b h rfl, hcond r.2 hseg.held hheld', hsent, List.isEmpty_nil, hcopy, hne,
    if_true, Bool.false_eq_true, if_false]

/-- The loop has a result. -/
theorem Held.discardLoop (h : Held b) {o fuel : Nat} (ho : o < 2 ^ 32)
    (hfuel : b.m_sentList.length + 1 < fuel) :
    ∃ b', TcpTxBuffer.discardLoop fuel (UInt32.ofNat o) b = some b' ∧ Discard o b b' := by
  generalize hsent : b.m_sentList = sent at hfuel
  induction sent generalizing b o fuel with
  | nil =>
    obtain ⟨fuel, rfl⟩ : ∃ f, fuel = f + 2 := ⟨fuel - 2, by simp at hfuel; omega⟩
    by_cases hdone : o = 0 ∨ b.held = 0
    · exact ⟨b, h.discardLoop_done hdone (fuel + 1), .done hdone⟩
    obtain ⟨r, hr, -, heq⟩ := h.discardLoop_move hsent (by omega) ho (by omega)
    have hseg := hr.segment h (by omega)
    rw [heq (fuel + 1)]
    -- the segment moved is all that is left, or all that is to go
    obtain ⟨hsent', hlen⟩ : r.2.m_sentList = [r.1] ∧ r.1.m_packet.length = min o b.held := by
      cases hr with
      | resent hs => rw [hsent] at hs; simp at hs
      | sentNew happ hoff hends =>
        refine ⟨by rw [TcpTxBuffer.sentNew, hsent]; rfl, ?_⟩
        exact (takeOut_place [] _ _ _ hends).2
    have hheld' : r.2.held = b.held := by
      rw [← length_contents, ← length_contents, hseg.contents]
    have hnext := hseg.held.without_head hsent'
    have hdone' : o - r.1.m_packet.length = 0 ∨
        (r.2.without r.1 r.1.m_packet.length []).held = 0 := by
      change _ ∨ span [] + span r.2.m_appList = 0
      rw [TcpTxBuffer.held, hsent', span_cons] at hheld'
      rw [span_nil] at hheld' ⊢
      omega
    rw [hseg.held.discardLoop_head hsent' (by omega) ho (fuel + 1), if_pos (by omega),
      hnext.discardLoop_done hdone' fuel]
    exact ⟨_, rfl, .move hsent (by omega) (by omega) hr (.full hsent' (by omega) (.done hdone'))⟩
  | cons i rest ih =>
    obtain ⟨fuel, rfl⟩ : ∃ f, fuel = f + 1 := ⟨fuel - 1, by omega⟩
    by_cases hzero : o = 0
    · exact ⟨b, h.discardLoop_done (.inl hzero) fuel, .done (.inl hzero)⟩
    rw [h.discardLoop_head hsent (by omega) ho fuel]
    split
    · next hle =>
      have hfuel' : rest.length + 1 < fuel := by
        rw [List.length_cons] at hfuel
        omega
      obtain ⟨b', heq, hd⟩ := ih (h.without_head hsent) (o := o - i.m_packet.length) (by omega) rfl
        hfuel'
      exact ⟨b', heq, .full hsent hle hd⟩
    · exact ⟨_, rfl, .part hsent (by omega) (by omega)⟩

end Discard

/-- What the loop leaves is laid out, and has the bytes behind those that went. -/
theorem Discard.held {o : Nat} {b b' : TcpTxBuffer} (hd : Discard o b b') (h : Held b) :
    Held b' ∧ b'.contents = b.contents.drop o ∧
      b'.m_firstByteSeq = b.m_firstByteSeq.advance (min o b.held) := by
  induction hd with
  | @done o b hdone =>
    refine ⟨h, ?_, ?_⟩
    · rcases hdone with rfl | hheld
      · rw [List.drop_zero]
      · rw [← length_contents, List.length_eq_zero_iff] at hheld
        rw [hheld, List.drop_nil]
    · have hmin : min o b.held = 0 := by omega
      rw [hmin, SequenceNumber32.advance_zero]
  | @part o b i rest hsent hpos hlt =>
    have hheld : o ≤ b.held := by
      rw [TcpTxBuffer.held, hsent, span_cons]
      omega
    refine ⟨h.without_part hsent hlt, ?_, ?_⟩
    · change bytes (i.back o :: rest) ++ bytes b.m_appList = _
      rw [TcpTxBuffer.contents, hsent, bytes_cons, bytes_cons, List.append_assoc, List.append_assoc,
        List.drop_append_of_le_length (Nat.le_of_lt hlt)]
      rfl
    · rw [Nat.min_eq_left hheld]
      rfl
  | @full o b b' i rest hsent hle _ ih =>
    obtain ⟨h', hc, hf⟩ := ih (h.without_head hsent)
    have hheld : b.held = i.m_packet.length + (b.without i i.m_packet.length rest).held := by
      change span b.m_sentList + span b.m_appList = _ + (span rest + span b.m_appList)
      rw [hsent, span_cons, Nat.add_assoc]
    refine ⟨h', ?_, ?_⟩
    · have hskip : (i.m_packet ++ (bytes rest ++ bytes b.m_appList)).drop o =
          (bytes rest ++ bytes b.m_appList).drop (o - i.m_packet.length) := by
        rw [List.drop_append, List.drop_of_length_le hle, List.nil_append]
      have hbytes : b.contents = i.m_packet ++ (bytes rest ++ bytes b.m_appList) := by
        rw [TcpTxBuffer.contents, hsent, bytes_cons, List.append_assoc]
      rw [hc, hbytes, hskip]
      rfl
    · rw [hf, hheld]
      change (b.m_firstByteSeq.advance _).advance _ = _
      rw [SequenceNumber32.advance_advance]
      congr 1
      omega
  | @move o b b' r hsent hpos hheld hr _ ih =>
    have hseg := hr.segment h (by omega)
    obtain ⟨h', hc, hf⟩ := ih hseg.held
    have hheld' : r.2.held = b.held := by
      rw [← length_contents, ← length_contents, hseg.contents]
    exact ⟨h', by rw [hc, hseg.contents], by rw [hf, hseg.first, hheld']⟩

/-- The head that the loop leaves is what is left of the item that holds the first byte kept, and
the items behind it are those that were. -/
theorem Discard.head {o : Nat} {b b' : TcpTxBuffer} (hd : Discard o b b') (h : Held b)
    (i : TcpTxItem) (rest : List TcpTxItem) (hsent' : b'.m_sentList = i :: rest) :
    ∃ pre j k, b.m_sentList = pre ++ j :: rest ∧ i = j.back k ∧ span pre ≤ o ∧
      o < span pre + j.m_packet.length := by
  induction hd generalizing i rest with
  | @done o b hdone =>
    refine ⟨[], i, 0, hsent', i.back_zero.symm, Nat.zero_le _, ?_⟩
    have hf := h.sent_filled
    rw [hsent'] at hf
    have := (filled_cons.mp hf).1
    rw [TcpTxBuffer.held, hsent', span_cons] at hdone
    rw [span_nil]
    omega
  | @part o b j rest' hsent hpos hlt =>
    obtain ⟨rfl, rfl⟩ := List.cons.inj hsent'
    exact ⟨[], j, o, hsent, rfl, Nat.zero_le _, by simpa using hlt⟩
  | @full o b b' j rest' hsent hle _ ih =>
    obtain ⟨pre, x, k, hrest, hx, hpre, hlt⟩ := ih (h.without_head hsent) i rest hsent'
    refine ⟨j :: pre, x, k, ?_, hx, ?_, ?_⟩
    · rw [hsent, List.cons_append, ← hrest]
      rfl
    · rw [span_cons]
      omega
    · rw [span_cons]
      omega
  | @move o b b' r hsent hpos hheld hr _ ih =>
    obtain ⟨pre, x, k, hrest, -, -, hlt⟩ := ih (hr.segment h (by omega)).held i rest hsent'
    -- all that was moved goes
    have hspan : span r.2.m_sentList = min o b.held := by
      cases hr with
      | resent hs => simp [hsent] at hs
      | sentNew happ hoff hends =>
        rw [TcpTxBuffer.sentNew, hsent, List.nil_append, span_cons, span_nil]
        exact (takeOut_place [] _ _ _ hends).2
    rw [hrest, span_append, span_cons] at hspan
    omega

end Ns3.Tcp
