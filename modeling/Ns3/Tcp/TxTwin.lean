import Ns3.Tcp.TxShift

/-!
# Two runs of the send buffer

The same calls made of two empty buffers, the second with a constant added to all sequence
numbers: when no call compares numbers half the space apart, and no block that spans the end of
what was sent wraps in one run only, every call returns the same in both.
-/

namespace Ns3.Tcp

open Ns3.Network Ns3.Lib
open TcpTxBuffer (nextLost)

/-! ### What the buffers answer -/

section Answers

variable {k : UInt32} {b b' : TcpTxBuffer} {l l' : List TcpTxItem}

/-- A number is compared with `m_highestSack` `k` further on as it is here. With no item,
`m_highestSack` is the number 0, which does not move. -/
def TopSteady (k : UInt32) (seq : SequenceNumber32) : Option Nat × SequenceNumber32 → Prop
  | (none, top) => (seq.add k).ge top = seq.ge top
  | (some _, top) => SequenceNumber32.Rigid k seq top

/-- Where an item is lost, `IsLost` compares the number with `m_highestSack` and with the items
`k` further on as it does here. -/
def LostSteady (k : UInt32) (b : TcpTxBuffer) (seq : SequenceNumber32) : Prop :=
  (∃ i ∈ b.m_sentList, i.m_lost = true) →
    TopSteady k seq b.m_highestSack ∧ ∀ i ∈ b.m_sentList, SequenceNumber32.Rigid k i.m_startSeq seq

theorem TopSteady.ge {seq : SequenceNumber32} {top : Option Nat × SequenceNumber32}
    (h : TopSteady k seq top) : (seq.add k).ge (moveSack k top).2 = seq.ge top.2 := by
  obtain ⟨node, top⟩ := top
  cases node with
  | none => exact h
  | some node => exact SequenceNumber32.ge_add h

theorem moved_free (hl : List.Forall₂ (Moved k) l l') (h : ∀ i ∈ l, i.m_lost = false) :
    ∀ i ∈ l', i.m_lost = false := by
  induction hl with
  | nil => exact h
  | cons hi _ ih =>
    rw [List.forall_mem_cons] at h ⊢
    exact ⟨hi.lost.trans h.1, ih h.2⟩

theorem isLost_go_free (h : ∀ i ∈ l, i.m_lost = false) (seq s : SequenceNumber32) :
    TcpTxBuffer.isLost.go seq s l = false := by
  induction l generalizing s with
  | nil => rfl
  | cons i rest ih =>
    rw [TcpTxBuffer.isLost.go, h i List.mem_cons_self, Bool.and_false, if_neg Bool.false_ne_true]
    split
    · rfl
    · exact ih (fun j hj => h j (List.mem_cons_of_mem _ hj)) _

theorem moved_isLost_go {s seq : SequenceNumber32} (hl : List.Forall₂ (Moved k) l l')
    (hc : Contiguous s l) (hr : ∀ i ∈ l, SequenceNumber32.Rigid k i.m_startSeq seq) :
    TcpTxBuffer.isLost.go (seq.add k) (s.add k) l' = TcpTxBuffer.isLost.go seq s l := by
  induction hl generalizing s with
  | nil => rfl
  | @cons i i' rest rest' hi _ ih =>
    obtain ⟨rfl, hc'⟩ := contiguous_cons.mp hc
    have hnext : (i.m_startSeq.add k).add i'.getSize = (i.m_startSeq.add i.getSize).add k := by
      rw [← hi.start]
      exact hi.stop
    rw [TcpTxBuffer.isLost.go, TcpTxBuffer.isLost.go,
      SequenceNumber32.ge_add (hr i List.mem_cons_self), hi.lost, hi.sacked, hnext]
    have hrest := ih hc' fun j hj => hr j (List.mem_cons_of_mem _ hj)
    split
    · rfl
    · split
      · rfl
      · exact hrest

/-- `IsLost` returns the same of both buffers. -/
theorem Shifted.isLost (hs : Shifted k b b') (h : Held b) {seq : SequenceNumber32}
    (hc : LostSteady k b seq) : b'.isLost (seq.add k) = b.isLost seq := by
  obtain @⟨sent, app, hsent, happ⟩ := hs
  rw [TcpTxBuffer.isLost, TcpTxBuffer.isLost]
  by_cases hlost : ∃ i ∈ b.m_sentList, i.m_lost = true
  · obtain ⟨htop, hitems⟩ := hc hlost
    change (if (seq.add k).ge (moveSack k b.m_highestSack).2 = true then false
      else TcpTxBuffer.isLost.go (seq.add k) (b.m_firstByteSeq.add k) sent) = _
    rw [htop.ge, moved_isLost_go hsent h.starts hitems]
  · -- nothing is lost, wherever the walk stops
    have hfree : ∀ i ∈ b.m_sentList, i.m_lost = false := by
      intro i hi
      rw [← Bool.not_eq_true]
      exact fun heq => hlost ⟨i, hi, heq⟩
    rw [isLost_go_free hfree, ite_self]
    change (if _ then false else TcpTxBuffer.isLost.go _ _ sent) = false
    rw [isLost_go_free (moved_free hsent hfree), ite_self]

/-- The items that `NextSeg` looks at. -/
def unsent (items : List TcpTxItem) : List TcpTxItem :=
  items.filter fun i => !i.m_retrans && !i.m_sacked

/-- `NextSeg` with nothing lost and nothing new to send: of two numbers to choose from the first
one is 0, which stands for none, `k` further on as it is here. -/
def NextSteady (k : UInt32) (b : TcpTxBuffer) (isRecovery : Bool) : Prop :=
  isRecovery = true → (∀ i ∈ unsent b.m_sentList, i.m_lost = false) →
    b.sizeFromSequence b.sentEnd = 0 → ∀ i j rest, unsent b.m_sentList = i :: j :: rest →
      (i.m_startSeq.m_value = 0 ↔ i.m_startSeq.m_value + k = 0)

theorem unsent_cons (i : TcpTxItem) (rest : List TcpTxItem) :
    unsent (i :: rest) = if !i.m_retrans && !i.m_sacked then i :: unsent rest else unsent rest :=
  List.filter_cons

/-- An item lost is returned in both buffers. -/
theorem moved_nextLost_inl {s : SequenceNumber32} (hl : List.Forall₂ (Moved k) l l')
    (hlost : ∃ i ∈ unsent l, i.m_lost = true) (isRecovery : Bool)
    (saved saved' : Option SequenceNumber32) :
    ∃ seq, nextLost isRecovery s saved l = .inl seq ∧
      nextLost isRecovery (s.add k) saved' l' = .inl (seq.add k) := by
  induction hl generalizing s saved saved' with
  | nil => simp [unsent] at hlost
  | @cons i i' rest rest' hi _ ih =>
    have hnext : (s.add k).add i.getSize = (s.add i.getSize).add k := by
      rw [SequenceNumber32.add_toNat _ i.getSize, SequenceNumber32.add_toNat _ i.getSize,
        SequenceNumber32.advance_add]
    rw [nextLost, nextLost, hi.retrans, hi.sacked, hi.lost, hi.size, hnext]
    rw [unsent_cons] at hlost
    by_cases hn : (!i.m_retrans && !i.m_sacked) = true
    · rw [if_pos hn] at hlost
      rw [if_pos hn, if_pos hn]
      by_cases hlo : i.m_lost = true
      · rw [if_pos hlo, if_pos hlo]
        exact ⟨s, rfl, rfl⟩
      · have hrest : ∃ i ∈ unsent rest, i.m_lost = true := by
          obtain ⟨j, hj, hjl⟩ := hlost
          rcases List.mem_cons.mp hj with rfl | hj
          · exact absurd hjl hlo
          · exact ⟨j, hj, hjl⟩
        rw [if_neg hlo, if_neg hlo]
        split
        · split
          · exact ih hrest _ _
          · exact ih hrest _ _
        · split
          · exact ih hrest _ _
          · exact ih hrest _ _
    · rw [if_neg hn] at hlost
      rw [if_neg hn, if_neg hn]
      exact ih hlost _ _

/-- With nothing lost a number saved or none is returned. -/
theorem nextLost_inr (hfree : ∀ i ∈ unsent l, i.m_lost = false) (isRecovery : Bool)
    (s : SequenceNumber32) (saved : Option SequenceNumber32) :
    ∃ r, nextLost isRecovery s saved l = .inr r := by
  induction l generalizing s saved with
  | nil => exact ⟨saved, rfl⟩
  | cons i rest ih =>
    rw [unsent_cons] at hfree
    rw [nextLost]
    split
    · next hn =>
      rw [if_pos hn, List.forall_mem_cons] at hfree
      rw [hfree.1, if_neg Bool.false_ne_true]
      split
      · exact ih hfree.2 _ _
      · exact ih hfree.2 _ _
    · next hn =>
      rw [if_neg hn] at hfree
      exact ih hfree _ _

theorem moved_unsent (hl : List.Forall₂ (Moved k) l l') :
    List.Forall₂ (Moved k) (unsent l) (unsent l') := by
  induction hl with
  | nil => exact .nil
  | cons hi _ ih =>
    rw [unsent_cons, unsent_cons, hi.retrans, hi.sacked]
    split
    · exact .cons hi ih
    · exact ih

/-- The number saved stays the one saved when 0 does. -/
theorem moved_nextLost_inr {s : SequenceNumber32} {isRecovery : Bool}
    (saved : Option SequenceNumber32) (hl : List.Forall₂ (Moved k) l l') (hc : Contiguous s l)
    (hfree : ∀ i ∈ unsent l, i.m_lost = false)
    (hsaved : isRecovery = true → ∀ seq, saved = some seq → unsent l ≠ [] →
      (seq.m_value = 0 ↔ seq.m_value + k = 0))
    (hnone : isRecovery = true → saved = none → ∀ i j rest, unsent l = i :: j :: rest →
      (i.m_startSeq.m_value = 0 ↔ i.m_startSeq.m_value + k = 0)) :
    ∃ r, nextLost isRecovery s saved l = .inr r ∧
      nextLost isRecovery (s.add k) (saved.map fun seq => seq.add k) l' =
        .inr (r.map fun seq => seq.add k) := by
  induction hl generalizing s saved with
  | nil => exact ⟨saved, rfl, rfl⟩
  | @cons i i' rest rest' hi _ ih =>
    obtain ⟨rfl, hc'⟩ := contiguous_cons.mp hc
    have hnext : (i.m_startSeq.add k).add i.getSize = (i.m_startSeq.add i.getSize).add k := by
      rw [SequenceNumber32.add_toNat _ i.getSize, SequenceNumber32.add_toNat _ i.getSize,
        SequenceNumber32.advance_add]
    rw [nextLost, nextLost, hi.retrans, hi.sacked, hi.lost, hi.size, hnext]
    rw [unsent_cons] at hfree hsaved hnone
    by_cases hn : (!i.m_retrans && !i.m_sacked) = true
    · rw [if_pos hn] at hfree hsaved hnone
      rw [List.forall_mem_cons] at hfree
      rw [if_pos hn, if_pos hn, hfree.1, if_neg Bool.false_ne_true, if_neg Bool.false_ne_true]
      cases isRecovery with
      | false =>
        rw [Bool.and_false, Bool.and_false, if_neg Bool.false_ne_true, if_neg Bool.false_ne_true]
        exact ih _ hc' hfree.2 (fun h => by cases h) (fun h => by cases h)
      | true =>
        rw [Bool.and_true, Bool.and_true]
        have hlast : ∀ t, unsent rest ≠ [] → (∀ j u, unsent rest = j :: u → t) → t := by
          intro t hne h
          cases hr : unsent rest with
          | nil => exact absurd hr hne
          | cons j u => exact h j u hr
        cases saved with
        | none =>
          refine ih (some i.m_startSeq) hc' hfree.2 (fun _ seq heq hne => ?_)
            (fun _ heq => by cases heq)
          obtain rfl := Option.some.inj heq
          exact hlast _ hne fun j u hr => hnone rfl rfl i j u (by rw [hr])
        | some c =>
          have hzero := hsaved rfl c rfl (List.cons_ne_nil _ _)
          change ∃ r, (if (c.m_value == 0) = true then _ else _) = _ ∧
            (if (c.m_value + k == 0) = true then _ else _) = _
          by_cases hc0 : c.m_value = 0
          · -- then the two runs are the same
            have hk : k = 0 := by
              have := hzero.mp hc0
              rwa [hc0, UInt32.zero_add] at this
            rw [if_pos (by simpa using hc0), if_pos (by simpa using hzero.mp hc0)]
            refine ih (some i.m_startSeq) hc' hfree.2 (fun _ seq _ _ => ?_)
              (fun _ heq => by cases heq)
            rw [hk, UInt32.add_zero]
          · rw [if_neg (by simpa using hc0), if_neg (by simpa using hzero.not.mp hc0)]
            refine ih (some c) hc' hfree.2 (fun _ seq heq _ => ?_)
              (fun _ heq => by cases heq)
            obtain rfl := Option.some.inj heq
            exact hzero
    · rw [if_neg hn] at hfree hsaved hnone
      rw [if_neg hn, if_neg hn]
      exact ih _ hc' hfree hsaved hnone

/-- `NextSeg` returns the same of both buffers. -/
theorem Shifted.nextSeg (hs : Shifted k b b') (h : Held b) {isRecovery : Bool}
    (hc : NextSteady k b isRecovery) (rWnd : UInt32) :
    b'.nextSeg rWnd isRecovery =
      (b.nextSeg rWnd isRecovery).map fun r => (r.1.add k, r.2.add k) := by
  have hlist : List.Forall₂ (Moved k) b.m_sentList b'.m_sentList := by
    obtain ⟨hsent, -⟩ := hs
    exact hsent
  have hsegment : b'.m_segmentSize = b.m_segmentSize ∧ b'.m_sentSize = b.m_sentSize := by
    cases hs
    exact ⟨rfl, rfl⟩
  have hadd : ∀ (seq : SequenceNumber32) (n : UInt32), (seq.add k).add n = (seq.add n).add k := by
    intro seq n
    rw [SequenceNumber32.add_toNat _ n, SequenceNumber32.add_toNat _ n,
      SequenceNumber32.advance_add]
  have hend := hs.sentEnd h
  have hsize : b'.sizeFromSequence b'.sentEnd = b.sizeFromSequence b.sentEnd := by
    have hle : span b.m_sentList ≤ b.held := Nat.le_add_right _ _
    rw [(hs.held h).sentEnd, h.sentEnd, (hs.held h).sizeFromSequence (by
      rw [hs.span_sent, hs.held_eq]
      exact hle), h.sizeFromSequence hle, hs.span_sent, hs.held_eq]
  rw [TcpTxBuffer.nextSeg, TcpTxBuffer.nextSeg, hs.first]
  by_cases hlost : ∃ i ∈ unsent b.m_sentList, i.m_lost = true
  · obtain ⟨seq, heq, heq'⟩ := moved_nextLost_inl (s := b.m_firstByteSeq) hlist hlost isRecovery
      none none
    rw [heq, heq', hsegment.1]
    dsimp only
    rw [hadd]
    rfl
  · have hfree : ∀ i ∈ unsent b.m_sentList, i.m_lost = false := by
      intro i hi
      rw [← Bool.not_eq_true]
      exact fun heq => hlost ⟨i, hi, heq⟩
    have hfree' := moved_free (moved_unsent hlist) hfree
    by_cases hnew : 0 < b.sizeFromSequence b.sentEnd
    · -- new data, whatever number was saved
      obtain ⟨r, heq⟩ := nextLost_inr hfree isRecovery b.m_firstByteSeq none
      obtain ⟨r', heq'⟩ := nextLost_inr hfree' isRecovery (b.m_firstByteSeq.add k) none
      rw [heq, heq', hsize, hend, hsegment.1, hsegment.2]
      dsimp only
      rw [if_pos hnew, if_pos hnew, hadd]
      split
      · rfl
      · rfl
    · have hzero : b.sizeFromSequence b.sentEnd = 0 := by
        rw [UInt32.lt_iff_toNat_lt] at hnew
        rw [← UInt32.toNat_inj]
        simpa using hnew
      obtain ⟨r, heq, heq'⟩ := moved_nextLost_inr none hlist h.starts hfree
        (fun _ _ h => by cases h) (fun hrec _ => hc hrec hfree hzero)
      rw [Option.map_none] at heq'
      rw [heq, heq', hsize, hsegment.1]
      dsimp only
      rw [if_neg hnew, if_neg hnew]
      cases r with
      | none => rfl
      | some seq =>
        rw [Option.map_some, Option.map_some, Option.map_some, Option.map_some, hadd]

/-- A block that spans the end of what was sent is returned shortened when it does not wrap, else
there is no result. -/
theorem Held.copy_spans (h : Held b) {numBytes : UInt32} {seq : SequenceNumber32}
    (hspan : b.Spans numBytes seq) :
    (∃ item b₁, b.copyFromSequence numBytes seq = some (some item, b₁) ∧
      item.m_packet.length ≤ span b.m_sentList - (seq.diff b.m_firstByteSeq).toNat) ↔
        seq.m_value.toNat + b.asked numBytes seq < 2 ^ 32 := by
  obtain ⟨off, hoff, rfl⟩ := b.m_firstByteSeq.exists_advance seq
  have hsmall : b.held < 2 ^ 31 := h.small
  have hheld : b.held = span b.m_sentList + span b.m_appList := rfl
  rw [TcpTxBuffer.Spans, TcpTxBuffer.asked, toNat_diff_first hoff] at hspan
  have hoff' : off ≤ b.held := by omega
  rw [TcpTxBuffer.asked, toNat_diff_first hoff, TcpTxBuffer.copyFromSequence,
    h.copyWithin_eq hoff' numBytes 1 rfl]
  generalize min numBytes.toNat (b.held - off) = s at hspan
  rw [if_neg (by omega), if_neg (by omega), if_neg (by omega), if_neg (by omega)]
  by_cases hfit : (b.m_firstByteSeq.advance off).m_value.toNat + s < 2 ^ 32
  · obtain ⟨r, heq, hr⟩ := h.exists_resent (show 0 < span b.m_sentList - off by omega)
      (show off + (span b.m_sentList - off) ≤ span b.m_sentList by omega)
    have hseg := hr.segment h (by omega)
    have hpart : span b.m_sentList - off =
        min (UInt32.ofNat (span b.m_sentList - off)).toNat (b.held - off) := by
      rw [toNat_ofNat (by omega)]
      omega
    rw [if_pos hfit, h.copyWithin_eq (by omega) _ 0 hpart, if_neg (by omega), if_pos (by omega), heq]
    exact ⟨fun _ => hfit, fun _ => ⟨r.1, r.2, rfl, hseg.le⟩⟩
  · rw [if_neg hfit]
    constructor
    · rintro ⟨item, b₁, hnone, -⟩
      cases hnone
    · exact fun hlt => absurd hlt hfit

end Answers

/-! ### Runs -/

/-- A call with `k` added to its sequence numbers. -/
def TxCall.shift (k : UInt32) : TxCall → TxCall
  | copyFromSequence numBytes seq => .copyFromSequence numBytes (seq.add k)
  | discardUpTo seq => .discardUpTo (seq.add k)
  | update list => .update (list.map (SackBlock.shift k))
  | c => c

/-- What a call compares comes out `k` further on as it does here, and fewer than half the
sequence space of bytes are buffered. -/
def TxCall.Steady (k : UInt32) (b : TcpTxBuffer) : TxCall → Prop
  | add p => b.held + p.length < 2 ^ 31
  | copyFromSequence numBytes seq => CopySteady k b numBytes seq
  | discardUpTo seq => SequenceNumber32.Rigid k b.m_firstByteSeq seq
  | update list => ∀ block ∈ list, block.Steady k b
  | _ => True

instance (k : UInt32) (b : TcpTxBuffer) : (c : TxCall) → Decidable (c.Steady k b)
  | .add p => inferInstanceAs (Decidable (b.held + p.length < 2 ^ 31))
  | .copyFromSequence numBytes seq => inferInstanceAs (Decidable (CopySteady k b numBytes seq))
  | .discardUpTo seq => inferInstanceAs (Decidable (SequenceNumber32.Rigid k b.m_firstByteSeq seq))
  | .update list => inferInstanceAs (Decidable (∀ block ∈ list, block.Steady k b))
  | .addRenoSack | .resetRenoSack | .markHeadAsLost | .deleteRetransmittedFlagFromHead
  | .setSentListLost _ | .resetSentList | .resetLastSegmentSent => .isTrue trivial

namespace TcpTxBuffer

/-- The buffer after a sequence of calls. -/
def runAll (b : TcpTxBuffer) : List TxCall → Option TcpTxBuffer
  | [] => some b
  | c :: cs => (c.run b).bind fun b => b.runAll cs

/-- Each call of a sequence is steady in the buffer that the calls before it leave. -/
def SteadyAll (k : UInt32) (b : TcpTxBuffer) : List TxCall → Prop
  | [] => True
  | c :: cs => c.Steady k b ∧ ∀ b', c.run b = some b' → b'.SteadyAll k cs

end TcpTxBuffer

/-- The buffers that the two runs leave answer alike: the second one is the first one with `k`
added to its sequence numbers, calls that return something return the same, and a block that
spans the end of what was sent is returned shortened to its sent part unless it wraps. -/
structure Twin (k : UInt32) (b b' : TcpTxBuffer) : Prop where
  shifted : Shifted k b b'
  copied : ∀ numBytes seq, CopySteady k b numBytes seq →
    Option.Rel (Recopied k) (b.copyFromSequence numBytes seq)
      (b'.copyFromSequence numBytes (seq.add k))
  updated : ∀ list : List SackBlock, (∀ block ∈ list, block.Steady k b) →
    Option.Rel (fun r r' => r'.1 = r.1 ∧ Shifted k r.2 r'.2) (b.update list)
      (b'.update (list.map (SackBlock.shift k)))
  nextSeg : ∀ rWnd isRecovery, NextSteady k b isRecovery →
    b'.nextSeg rWnd isRecovery = (b.nextSeg rWnd isRecovery).map fun r => (r.1.add k, r.2.add k)
  isLost : ∀ seq, LostSteady k b seq → b'.isLost (seq.add k) = b.isLost seq
  bytesInFlight : b'.bytesInFlight = b.bytesInFlight
  spans : ∀ numBytes seq, b.Spans numBytes seq →
    ((∃ item b₁, b.copyFromSequence numBytes seq = some (some item, b₁) ∧
      item.m_packet.length ≤ span b.m_sentList - (seq.diff b.m_firstByteSeq).toNat) ↔
        seq.m_value.toNat + b.asked numBytes seq < 2 ^ 32)

section Runs

variable {k : UInt32} {b b' : TcpTxBuffer}

/-- Two buffers of which one is the other one moved answer alike. -/
theorem Shifted.twin (hs : Shifted k b b') (h : Held b)
    (htop : Placed b.m_firstByteSeq b.m_highestSack) : Twin k b b' where
  shifted := hs
  copied _ _ hc := hs.copyFromSequence h hc
  updated list hc := by
    have hrel := hs.update h htop hc
    generalize b.update list = r at hrel
    generalize b'.update (list.map (SackBlock.shift k)) = r' at hrel
    cases hrel with
    | none => exact .none
    | some hr => exact .some ⟨hr.1, hr.2.1⟩
  nextSeg rWnd _ hc := hs.nextSeg h hc rWnd
  isLost _ hc := hs.isLost h hc
  bytesInFlight := by
    cases hs
    rfl
  spans _ _ hspan := h.copy_spans hspan

/-- `CopyFromSequence` leaves the head and the item SACKed highest. -/
theorem Held.copy_keeps (h : Held b) {numBytes : UInt32} {seq : SequenceNumber32}
    {r : Option TcpTxItem × TcpTxBuffer} (heq : b.copyFromSequence numBytes seq = some r) :
    r.2.m_firstByteSeq = b.m_firstByteSeq ∧ r.2.m_highestSack = b.m_highestSack := by
  rcases h.copy_cases numBytes seq with hnone | hnull | ⟨off, n, r', -, -, -, hsome, hr⟩
  · rw [hnone] at heq
    cases heq
  · rw [hnull] at heq
    obtain rfl := Option.some.inj heq
    exact ⟨rfl, rfl⟩
  · rw [hsome] at heq
    obtain rfl := Option.some.inj heq
    cases hr with
    | resent => exact ⟨rfl, rfl⟩
    | sentNew => exact ⟨rfl, rfl⟩

/-- A steady call leaves buffers of which one is the other one moved. -/
theorem Shifted.step (hs : Shifted k b b') (h : Held b)
    (htop : Placed b.m_firstByteSeq b.m_highestSack) {c : TxCall} (hc : c.Steady k b) :
    Option.Rel (fun b₁ b₁' => Shifted k b₁ b₁' ∧ Placed b₁.m_firstByteSeq b₁.m_highestSack)
      (c.run b) ((c.shift k).run b') := by
  cases c with
  | add p =>
    refine .some ⟨(hs.add p).2, ?_⟩
    rw [TcpTxBuffer.add]
    split
    · split
      · exact htop
      · exact htop
    · exact htop
  | copyFromSequence numBytes seq =>
    have hrel := hs.copyFromSequence h hc
    change Option.Rel _ ((b.copyFromSequence numBytes seq).map Prod.snd)
      ((b'.copyFromSequence numBytes (seq.add k)).map Prod.snd)
    generalize heq : b.copyFromSequence numBytes seq = r at hrel
    generalize b'.copyFromSequence numBytes (seq.add k) = r' at hrel
    cases hrel with
    | none => exact .none
    | some hr =>
      obtain ⟨hfirst, hsame⟩ := h.copy_keeps heq
      refine .some ⟨hr.2, ?_⟩
      rw [hfirst, hsame]
      exact htop
  | discardUpTo seq => exact hs.discardUpTo h htop hc
  | update list => exact rel_map (hs.update h htop hc) fun _ _ hr => hr.2
  | addRenoSack =>
    have hrel := hs.addRenoSack
    change Option.Rel _ b.addRenoSack b'.addRenoSack
    generalize heq : b.addRenoSack = r at hrel
    generalize b'.addRenoSack = r' at hrel
    cases hrel with
    | none => exact .none
    | some hr =>
      refine .some ⟨hr, ?_⟩
      rw [(addRenoSack_remarked heq).first_eq]
      rcases h.addRenoSack_highest heq with hsame | hnew
      · rw [hsame]
        exact htop
      · exact hnew
  | resetRenoSack => exact .some ⟨hs.resetRenoSack, rfl⟩
  | markHeadAsLost =>
    refine .some ⟨hs.markHeadAsLost, ?_⟩
    rw [TcpTxBuffer.markHeadAsLost]
    split
    · exact htop
    · exact htop
  | deleteRetransmittedFlagFromHead =>
    refine .some ⟨hs.deleteRetransmittedFlagFromHead, ?_⟩
    rw [TcpTxBuffer.deleteRetransmittedFlagFromHead]
    split
    · exact htop
    · split
      · exact htop
      · split
        · exact htop
        · exact htop
  | setSentListLost resetSack =>
    refine .some ⟨hs.setSentListLost resetSack, ?_⟩
    rw [TcpTxBuffer.setSentListLost]
    split
    · rfl
    · exact htop
  | resetSentList => exact .some ⟨hs.resetSentList, rfl⟩
  | resetLastSegmentSent =>
    refine .some ⟨hs.resetLastSegmentSent, ?_⟩
    rw [TcpTxBuffer.resetLastSegmentSent]
    split
    · exact htop
    · exact htop

/-- Steady calls keep the buffers laid out. -/
theorem TxCall.Steady.fits {c : TxCall} (hc : c.Steady k b) : Outbound.Fits b c := by
  cases c with
  | add p => exact hc
  | _ => trivial

/-- The same steady calls leave buffers of which one is the other one moved. -/
theorem Shifted.runAll (hs : Shifted k b b') (h : Held b)
    (htop : Placed b.m_firstByteSeq b.m_highestSack) {cs : List TxCall} (hcs : b.SteadyAll k cs) :
    Option.Rel (Twin k) (b.runAll cs) (b'.runAll (cs.map (TxCall.shift k))) := by
  induction cs generalizing b b' with
  | nil => exact .some (hs.twin h htop)
  | cons c cs ih =>
    obtain ⟨hc, hrest⟩ := hcs
    have hrel := hs.step h htop hc
    rw [List.map_cons, TcpTxBuffer.runAll, TcpTxBuffer.runAll]
    generalize hrun : c.run b = r at hrel hrest
    generalize (c.shift k).run b' = r' at hrel
    cases hrel with
    | none => exact .none
    | some hr => exact ih hr.1 (h.run hc.fits hrun) hr.2 (hrest _ rfl)

end Runs

end Ns3.Tcp
