import Ns3.Tcp.TxCache
import Mathlib.Data.List.Forall2

/-!
# The send buffer moved in the sequence space

Two runs of the same calls, with a constant added to all sequence numbers of the second. The
buffers stay the same up to the constant as long as no two numbers compared are half the space
apart, no block spans the end of what was sent where only one of the two wraps, and the numbers
that stand for "none" are not taken for sequence numbers.
-/

namespace Ns3.Tcp

open Ns3.Network Ns3.Lib

/-- The items are the same but for where they start. -/
structure TcpTxItem.Alike (start : SequenceNumber32 → SequenceNumber32 → Prop)
    (i i' : TcpTxItem) : Prop where
  node : i'.node = i.node
  start : start i.m_startSeq i'.m_startSeq
  packet : i'.m_packet = i.m_packet
  lost : i'.m_lost = i.m_lost
  sacked : i'.m_sacked = i.m_sacked
  retrans : i'.m_retrans = i.m_retrans

/-- Items `k` further on. -/
abbrev Moved (k : UInt32) : TcpTxItem → TcpTxItem → Prop :=
  TcpTxItem.Alike fun s s' => s' = s.add k

/-- Items that start anywhere. -/
abbrev Anywhere : TcpTxItem → TcpTxItem → Prop :=
  TcpTxItem.Alike fun _ _ => True

/-- Item for item. -/
abbrev Alike (start : SequenceNumber32 → SequenceNumber32 → Prop) :
    List TcpTxItem → List TcpTxItem → Prop :=
  List.Forall₂ (TcpTxItem.Alike start)

section Alike

variable {start : SequenceNumber32 → SequenceNumber32 → Prop} {l l' m m' : List TcpTxItem}
  {i i' j j' : TcpTxItem}

theorem TcpTxItem.Alike.size (h : i.Alike start i') : i'.getSize = i.getSize := by
  rw [TcpTxItem.getSize, TcpTxItem.getSize, h.packet]

theorem TcpTxItem.Alike.length (h : i.Alike start i') :
    i'.m_packet.length = i.m_packet.length := by
  rw [h.packet]

theorem TcpTxItem.Alike.anywhere (h : i.Alike start i') : Anywhere i i' :=
  ⟨h.node, trivial, h.packet, h.lost, h.sacked, h.retrans⟩

theorem alike_append (h : Alike start l l') (hm : Alike start m m') :
    Alike start (l ++ m) (l' ++ m') :=
  List.rel_append h hm

/-- The parts of a list are like those of another one. -/
theorem alike_split (h : Alike start (l ++ m) l') :
    ∃ u v, l' = u ++ v ∧ Alike start l u ∧ Alike start m v := by
  induction l generalizing l' with
  | nil => exact ⟨[], l', rfl, .nil, h⟩
  | cons i l ih =>
    obtain ⟨i', t, hi, ht, rfl⟩ := List.forall₂_cons_left_iff.mp h
    obtain ⟨u, v, rfl, hu, hv⟩ := ih ht
    exact ⟨i' :: u, v, rfl, .cons hi hu, hv⟩

theorem alike_bytes (h : Alike start l l') : bytes l' = bytes l := by
  induction h with
  | nil => rfl
  | cons hi _ ih => rw [bytes_cons, bytes_cons, hi.packet, ih]

theorem alike_span (h : Alike start l l') : span l' = span l := by
  rw [span, span, alike_bytes h]

theorem alike_filled (h : Alike start l l') (hf : Filled l) : Filled l' := by
  induction h with
  | nil => exact filled_nil
  | cons hi _ ih =>
    obtain ⟨hpos, hrest⟩ := filled_cons.mp hf
    exact filled_cons.mpr ⟨by rw [hi.length]; exact hpos, ih hrest⟩

theorem alike_anywhere (h : Alike start l l') : List.Forall₂ Anywhere l l' :=
  h.imp fun _ _ h => h.anywhere

/-! ### Taking a segment out -/

theorem alike_ends {k n : Nat} (hi : i.Alike start i') (hm : Alike start m m')
    (h : Ends i m k n) : Ends i' m' k n where
  start := by rw [hi.length]; exact h.start
  pos := h.pos
  stop := by rw [hi.length, alike_span hm]; exact h.stop
  least := by
    rintro a x c rfl
    have ha := List.forall₂_take_append m a (x :: c) hm
    obtain ⟨y, d, -, -, hdrop⟩ :=
      List.forall₂_cons_right_iff.mp (List.forall₂_drop_append m a (x :: c) hm)
    have hsplit : m = m.take a.length ++ y :: d := by
      rw [← hdrop, List.take_append_drop]
    rw [hi.length, alike_span ha]
    exact h.least _ y d hsplit

theorem TcpTxItem.Alike.front (h : i.Alike start i') (node k : Nat) :
    (i.front node k).Alike start (i'.front node k) where
  node := rfl
  start := h.start
  packet := by rw [TcpTxItem.front, TcpTxItem.front, h.packet]
  lost := h.lost
  sacked := h.sacked
  retrans := h.retrans

theorem TcpTxItem.Alike.back (hadv : ∀ s s' k, start s s' → start (s.advance k) (s'.advance k))
    (h : i.Alike start i') (k : Nat) :
    (i.back k).Alike start (i'.back k) where
  node := h.node
  start := hadv _ _ k h.start
  packet := by rw [TcpTxItem.back, TcpTxItem.back, h.packet]
  lost := h.lost
  sacked := h.sacked
  retrans := h.retrans

theorem TcpTxItem.Alike.merge (h : i.Alike start i') (hj : j.Alike start j') (r : UInt32) :
    (mergeItems r i j).1.Alike start (mergeItems r i' j').1 ∧
      (mergeItems r i' j').2 = (mergeItems r i j).2 := by
  constructor
  · exact
      { node := h.node
        start := h.start
        packet := by rw [mergeItems, mergeItems, h.packet, hj.packet]
        lost := h.lost
        sacked := h.sacked
        retrans := by rw [mergeItems, mergeItems, h.retrans, hj.retrans] }
  · rw [mergeItems, mergeItems, h.retrans, hj.retrans, h.size, hj.size]

theorem alike_mergeAll (h : i.Alike start i') (hm : Alike start m m') (r : UInt32) :
    (mergeAll r i m).1.Alike start (mergeAll r i' m').1 ∧
      (mergeAll r i' m').2 = (mergeAll r i m).2 := by
  induction hm generalizing i i' r with
  | nil => exact ⟨h, rfl⟩
  | cons hj _ ih =>
    obtain ⟨hmerged, hr⟩ := h.merge hj r
    rw [mergeAll, mergeAll]
    dsimp only
    rw [hr]
    exact ih hmerged _

/-- The segments taken out and what is left. -/
structure FetchedAlike (start : SequenceNumber32 → SequenceNumber32 → Prop) (f f' : Fetched) :
    Prop where
  before : Alike start f.before f'.before
  outItem : f.outItem.Alike start f'.outItem
  after : Alike start f.after f'.after
  retrans : f'.m_retrans = f.m_retrans
  next : f'.nextNode = f.nextNode

/-- The same bytes are taken out of lists that are alike. -/
theorem alike_takeOut (hadv : ∀ s s' k, start s s' → start (s.advance k) (s'.advance k))
    {post post' : List TcpTxItem} (hl : Alike start l l') (hi : i.Alike start i')
    (hm : Alike start m m') (hp : Alike start post post') (k n : Nat) (r : UInt32) (node : Nat) :
    FetchedAlike start (takeOut l i m post k n r node) (takeOut l' i' m' post' k n r node) := by
  have hlead : Alike start (leadOff node i k).1 (leadOff node i' k).1 ∧
      (leadOff node i k).2.1.Alike start (leadOff node i' k).2.1 ∧
      (leadOff node i' k).2.2 = (leadOff node i k).2.2 := by
    rw [leadOff, leadOff]
    split
    · exact ⟨.nil, hi, rfl⟩
    · exact ⟨.cons (hi.front node k) .nil, hi.back hadv k, rfl⟩
  rw [takeOut, takeOut]
  generalize leadOff node i k = lead at hlead
  generalize leadOff node i' k = lead' at hlead
  obtain ⟨lead, x, node₁⟩ := lead
  obtain ⟨lead', x', node₁'⟩ := lead'
  obtain ⟨hbefore, hx, rfl⟩ := hlead
  dsimp only at hbefore hx ⊢
  obtain ⟨hmerged, hr⟩ := alike_mergeAll hx hm r
  generalize mergeAll r x m = merged at hmerged hr
  generalize mergeAll r x' m' = merged' at hmerged hr
  obtain ⟨y, r₁⟩ := merged
  obtain ⟨y', r₁'⟩ := merged'
  dsimp only at hmerged hr ⊢
  subst hr
  rw [cutOff, cutOff, hmerged.length]
  split
  · exact ⟨alike_append hl hbefore, hmerged, hp, rfl, rfl⟩
  · exact ⟨alike_append hl hbefore, hmerged.front _ n, .cons (hmerged.back hadv n) hp, rfl, rfl⟩

/-- A transmitted block is cut at the same place. -/
theorem alike_limitAt (hi : i.Alike start i') (hl : Alike start l l') (k n : Nat) :
    limitAt k i' l' n = limitAt k i l n := by
  cases hl with
  | nil => rw [limitAt.eq_def, limitAt.eq_def, hi.length]
  | cons hj _ =>
    rw [limitAt.eq_def, limitAt.eq_def]
    dsimp only
    rw [hi.length, hj.length, hj.sacked, hj.lost, hi.lost]

end Alike

/-! ### Buffers moved -/

/-- `m_highestSack` with `k` added; the number that goes with no item stays. -/
def moveSack (k : UInt32) : Option Nat × SequenceNumber32 → Option Nat × SequenceNumber32
  | (none, seq) => (none, seq)
  | (some node, seq) => (some node, seq.add k)

/-- The buffer with `k` added to the numbers it keeps, and other items. -/
def TcpTxBuffer.moved (b : TcpTxBuffer) (k : UInt32) (sent app : List TcpTxItem) : TcpTxBuffer :=
  { b with
    m_sentList := sent
    m_appList := app
    m_firstByteSeq := b.m_firstByteSeq.add k
    m_highestSack := moveSack k b.m_highestSack }

/-- The buffers are the same but for `k` added to the second one's sequence numbers. Items that
wait have none. -/
inductive Shifted (k : UInt32) (b : TcpTxBuffer) : TcpTxBuffer → Prop where
  | mk {sent app : List TcpTxItem} (hsent : List.Forall₂ (Moved k) b.m_sentList sent)
      (happ : List.Forall₂ Anywhere b.m_appList app) : Shifted k b (b.moved k sent app)

/-- `m_highestSack` is no item and the number 0, or a number of the buffer. -/
def Placed (first : SequenceNumber32) : Option Nat × SequenceNumber32 → Prop
  | (none, seq) => seq = ⟨0⟩
  | (some _, seq) => ∃ q < 2 ^ 31, seq = first.advance q

section Moved

variable {k : UInt32} {b b' : TcpTxBuffer} {l l' : List TcpTxItem}

theorem moved_advance (s s' : SequenceNumber32) (n : Nat) (h : s' = s.add k) :
    s'.advance n = (s.advance n).add k := by
  rw [h, SequenceNumber32.advance_add]

theorem moved_contiguous {s : SequenceNumber32} (hl : List.Forall₂ (Moved k) l l')
    (h : Contiguous s l) : Contiguous (s.add k) l' := by
  induction hl generalizing s with
  | nil => trivial
  | cons hi _ ih =>
    obtain ⟨rfl, hrest⟩ := contiguous_cons.mp h
    refine contiguous_cons.mpr ⟨hi.start, ?_⟩
    rw [hi.length, ← SequenceNumber32.advance_add]
    exact ih hrest

/-- A buffer moved is laid out when the buffer is. -/
theorem Shifted.held (hs : Shifted k b b') (h : Held b) : Held b' := by
  obtain @⟨sent, app, hsent, happ⟩ := hs
  exact
    { sent_filled := alike_filled hsent h.sent_filled
      app_filled := alike_filled happ h.app_filled
      sentSize := by
        change b.m_sentSize = UInt32.ofNat (span sent)
        rw [alike_span hsent, h.sentSize]
      size := by
        change b.m_size = UInt32.ofNat (span sent + span app)
        rw [alike_span hsent, alike_span happ, h.size]
      small := by
        change span sent + span app < 2 ^ 31
        rw [alike_span hsent, alike_span happ]
        exact h.small
      starts := moved_contiguous hsent h.starts }

theorem Shifted.first (hs : Shifted k b b') : b'.m_firstByteSeq = b.m_firstByteSeq.add k := by
  cases hs
  rfl

theorem Shifted.span_sent (hs : Shifted k b b') : span b'.m_sentList = span b.m_sentList := by
  obtain ⟨hsent, -⟩ := hs
  exact alike_span hsent

theorem Shifted.held_eq (hs : Shifted k b b') : b'.held = b.held := by
  obtain @⟨sent, app, hsent, happ⟩ := hs
  change span sent + span app = span b.m_sentList + span b.m_appList
  rw [alike_span hsent, alike_span happ]

theorem Shifted.sentEnd (hs : Shifted k b b') (h : Held b) : b'.sentEnd = b.sentEnd.add k := by
  rw [(hs.held h).sentEnd, h.sentEnd, hs.span_sent, hs.first, SequenceNumber32.advance_add]

/-! ### CopyFromSequence -/

/-- A segment sent again leaves buffers that are the same. -/
theorem Shifted.resent (hs : Shifted k b b') {f f' : Fetched}
    (hf : FetchedAlike (fun s s' => s' = s.add k) f f') :
    Moved k (b.resent f).1 (b'.resent f').1 ∧ Shifted k (b.resent f).2 (b'.resent f').2 := by
  obtain ⟨hsent, happ⟩ := hs
  obtain ⟨before, item, after, r, node⟩ := f
  obtain ⟨before', item', after', r', node'⟩ := f'
  obtain ⟨hbefore, hitem, hafter, rfl, rfl⟩ := hf
  have hout : Moved k { item with m_retrans := true } { item' with m_retrans := true } :=
    ⟨hitem.node, hitem.start, hitem.packet, hitem.lost, hitem.sacked, rfl⟩
  have hsize := hout.size
  refine ⟨hout, ?_⟩
  have hmk : Shifted k (b.resent ⟨before, item, after, r', node'⟩).2 _ :=
    .mk (alike_append hbefore (.cons hout hafter)) happ
  rw [TcpTxBuffer.resent, TcpTxBuffer.resent] at *
  dsimp only at hitem hsize ⊢
  rw [hitem.retrans, hsize]
  exact hmk

/-- So does a segment sent for the first time. -/
theorem Shifted.sentNew (hs : Shifted k b b') (h : Held b) {f f' : Fetched}
    (hf : FetchedAlike (fun _ _ => True) f f') :
    Moved k (b.sentNew f).1 (b'.sentNew f').1 ∧ Shifted k (b.sentNew f).2 (b'.sentNew f').2 := by
  have hend := hs.sentEnd h
  obtain ⟨hsent, happ⟩ := hs
  obtain ⟨before, item, after, r, node⟩ := f
  obtain ⟨before', item', after', r', node'⟩ := f'
  obtain ⟨hbefore, hitem, hafter, rfl, rfl⟩ := hf
  rw [TcpTxBuffer.sentNew, TcpTxBuffer.sentNew, hend]
  dsimp only at hitem hbefore hafter ⊢
  have hout : Moved k { item with m_startSeq := b.sentEnd }
      { item' with m_startSeq := b.sentEnd.add k } :=
    ⟨hitem.node, rfl, hitem.packet, hitem.lost, hitem.sacked, hitem.retrans⟩
  have hsize := hout.size
  refine ⟨hout, ?_⟩
  rw [hsize]
  exact .mk (alike_append hsent (.cons hout .nil)) (alike_append hbefore hafter)

end Moved

/-- The number of bytes of the buffer in a block asked for. -/
def TcpTxBuffer.asked (b : TcpTxBuffer) (numBytes : UInt32) (seq : SequenceNumber32) : Nat :=
  min numBytes.toNat (b.held - (seq.diff b.m_firstByteSeq).toNat)

/-- A block starts below the end of what was sent and ends above it. -/
def TcpTxBuffer.Spans (b : TcpTxBuffer) (numBytes : UInt32) (seq : SequenceNumber32) : Prop :=
  (seq.diff b.m_firstByteSeq).toNat < span b.m_sentList ∧
    span b.m_sentList < (seq.diff b.m_firstByteSeq).toNat + b.asked numBytes seq

/-- The block asked for is compared with the head, and, where it spans the end of what was sent,
wraps, `k` further on as it does here. -/
def CopySteady (k : UInt32) (b : TcpTxBuffer) (numBytes : UInt32) (seq : SequenceNumber32) : Prop :=
  SequenceNumber32.Rigid k b.m_firstByteSeq seq ∧ (b.Spans numBytes seq →
    (seq.m_value.toNat + b.asked numBytes seq < 2 ^ 32 ↔
      (seq.add k).m_value.toNat + b.asked numBytes seq < 2 ^ 32))

instance (b : TcpTxBuffer) (numBytes : UInt32) (seq : SequenceNumber32) :
    Decidable (b.Spans numBytes seq) :=
  inferInstanceAs (Decidable (_ ∧ _))

instance (k : UInt32) (b : TcpTxBuffer) (numBytes : UInt32) (seq : SequenceNumber32) :
    Decidable (CopySteady k b numBytes seq) :=
  inferInstanceAs (Decidable (_ ∧ (_ → _)))

section Copy

variable {k : UInt32} {b b' : TcpTxBuffer}

/-- What `CopyFromSequence` returns is the same, `k` further on. -/
def Recopied (k : UInt32) (r r' : Option TcpTxItem × TcpTxBuffer) : Prop :=
  Option.Rel (Moved k) r.1 r'.1 ∧ Shifted k r.2 r'.2

/-- The bytes of a block sent, retransmitted from both buffers. -/
theorem Shifted.getTransmittedSegment (hs : Shifted k b b') (h : Held b) {off n : Nat} (hn : 0 < n)
    (hle : off + n ≤ span b.m_sentList) :
    ∃ r r', b.getTransmittedSegment (UInt32.ofNat n) (b.m_firstByteSeq.advance off) = some r ∧
      b'.getTransmittedSegment (UInt32.ofNat n) (b'.m_firstByteSeq.advance off) = some r' ∧
      Moved k r.1 r'.1 ∧ Shifted k r.2 r'.2 := by
  have h' := hs.held h
  obtain ⟨pre, item, mid₁, post₁, hsent, hpre, hends₁⟩ := exists_ends hn hle
  have hstart := hends₁.start
  obtain ⟨mid, post, hrest, hends, heq⟩ := h.getTransmittedSegment_eq hsent hn hpre (by omega) hle
  rw [hrest] at hsent hends heq
  have hlist : List.Forall₂ (Moved k) b.m_sentList b'.m_sentList := by
    obtain ⟨hsent, -⟩ := hs
    exact hsent
  rw [hsent] at hlist
  obtain ⟨pre', t, hsent', hpre', ht⟩ := alike_split hlist
  obtain ⟨item', t', hitem, ht', rfl⟩ := List.forall₂_cons_left_iff.mp ht
  obtain ⟨mid', post', rfl, hmid, hpost⟩ := alike_split ht'
  have hlim := alike_limitAt hitem ht' (off - span pre) n
  have hends' := alike_ends hitem hmid hends
  rw [← hlim, ← alike_span hpre'] at hends'
  have heq' := h'.getTransmittedSegment_at hsent' (by rw [alike_span hpre']; exact hpre)
    (by rw [hs.span_sent]; exact hle) hends'
  refine ⟨_, _, heq, heq', ?_⟩
  rw [alike_span hpre', hlim]
  have hr : b'.m_retrans = b.m_retrans ∧ b'.nextNode = b.nextNode := by
    cases hs
    exact ⟨rfl, rfl⟩
  rw [hr.1, hr.2]
  exact hs.resent (alike_takeOut moved_advance hpre' hitem hmid hpost _ _ _ _)

/-- New bytes, sent from both buffers. -/
theorem Shifted.getNewSegment (hs : Shifted k b b') (h : Held b) {n : Nat} (hn : 0 < n)
    (hle : n ≤ span b.m_appList) :
    ∃ r r', b.getNewSegment (UInt32.ofNat n) = some r ∧
      b'.getNewSegment (UInt32.ofNat n) = some r' ∧ Moved k r.1 r'.1 ∧ Shifted k r.2 r'.2 := by
  have h' := hs.held h
  obtain ⟨item, mid, post, happ, hends, heq⟩ := h.getNewSegment_eq hn hle
  have hlist : List.Forall₂ Anywhere b.m_appList b'.m_appList := by
    obtain ⟨-, happ⟩ := hs
    exact happ
  rw [happ] at hlist
  obtain ⟨item', t', hitem, ht', happ'⟩ := List.forall₂_cons_left_iff.mp hlist
  obtain ⟨mid', post', rfl, hmid, hpost⟩ := alike_split ht'
  have heq' := h'.getNewSegment_at happ' (alike_ends hitem hmid hends)
  refine ⟨_, _, heq, heq', ?_⟩
  have hr : b'.m_retrans = b.m_retrans ∧ b'.nextNode = b.nextNode := by
    cases hs
    exact ⟨rfl, rfl⟩
  rw [hr.1, hr.2]
  exact hs.sentNew h (alike_takeOut (fun _ _ _ _ => trivial) .nil hitem hmid hpost _ _ _ _)

/-- `CopyFromSequence` of a number in the buffer, with what the call for the sent part of a block
that spans the end returns. -/
theorem Shifted.copyWithin (hs : Shifted k b b') (h : Held b) {off : Nat} (hoff : off ≤ b.held)
    (numBytes : UInt32) (fuel : Nat)
    (hc : off < span b.m_sentList →
      span b.m_sentList < off + min numBytes.toNat (b.held - off) →
      ((b.m_firstByteSeq.advance off).m_value.toNat + min numBytes.toNat (b.held - off) < 2 ^ 32 ↔
        (b'.m_firstByteSeq.advance off).m_value.toNat + min numBytes.toNat (b.held - off) <
          2 ^ 32) ∧
      Option.Rel (Recopied k)
        (b.copyWithin fuel (UInt32.ofNat (span b.m_sentList - off)) (b.m_firstByteSeq.advance off))
        (b'.copyWithin fuel (UInt32.ofNat (span b.m_sentList - off))
          (b'.m_firstByteSeq.advance off))) :
    Option.Rel (Recopied k) (b.copyWithin (fuel + 1) numBytes (b.m_firstByteSeq.advance off))
      (b'.copyWithin (fuel + 1) numBytes (b'.m_firstByteSeq.advance off)) := by
  have hheld : b.held = span b.m_sentList + span b.m_appList := rfl
  rw [h.copyWithin_eq hoff numBytes fuel rfl,
    (hs.held h).copyWithin_eq (hs.held_eq ▸ hoff) numBytes fuel rfl, hs.held_eq, hs.span_sent]
  generalize hsize : min numBytes.toNat (b.held - off) = s at hc
  by_cases hzero : s = 0
  · rw [if_pos hzero, if_pos hzero]
    exact .some ⟨.none, hs⟩
  rw [if_neg hzero, if_neg hzero]
  by_cases hall : off + s ≤ span b.m_sentList
  · obtain ⟨r, r', heq, heq', hitem, hbuf⟩ := hs.getTransmittedSegment h (by omega) hall
    rw [if_pos hall, if_pos hall, heq, heq']
    exact .some ⟨.some hitem, hbuf⟩
  rw [if_neg hall, if_neg hall]
  by_cases hend : off = span b.m_sentList
  · obtain ⟨r, r', heq, heq', hitem, hbuf⟩ := hs.getNewSegment h (n := s) (by omega) (by omega)
    rw [if_pos hend, if_pos hend, heq, heq']
    exact .some ⟨.some hitem, hbuf⟩
  rw [if_neg hend, if_neg hend]
  by_cases hpast : span b.m_sentList < off
  · rw [if_pos hpast, if_pos hpast]
    exact .none
  rw [if_neg hpast, if_neg hpast]
  obtain ⟨hwrap, hrec⟩ := hc (by omega) (by omega)
  by_cases hfit : (b.m_firstByteSeq.advance off).m_value.toNat + s < 2 ^ 32
  · rw [if_pos hfit, if_pos (hwrap.mp hfit)]
    exact hrec
  · rw [if_neg hfit, if_neg (hwrap.not.mp hfit)]
    exact .none

/-- The offset of a number of the buffer. -/
theorem toNat_diff_first {off : Nat} (hoff : off < 2 ^ 32) :
    ((b.m_firstByteSeq.advance off).diff b.m_firstByteSeq).toNat = off := by
  have := SequenceNumber32.toNat_diff_advance (s := b.m_firstByteSeq) (p := off) (q := 0) (by omega)
    (by omega)
  rwa [SequenceNumber32.advance_zero, Nat.sub_zero] at this

/-- `CopyFromSequence` returns the same from both buffers. -/
theorem Shifted.copyFromSequence (hs : Shifted k b b') (h : Held b) {numBytes : UInt32}
    {seq : SequenceNumber32} (hc : CopySteady k b numBytes seq) :
    Option.Rel (Recopied k) (b.copyFromSequence numBytes seq)
      (b'.copyFromSequence numBytes (seq.add k)) := by
  have hsmall : b.held < 2 ^ 31 := h.small
  have hheld : b.held = span b.m_sentList + span b.m_appList := rfl
  by_cases hin : ∃ off ≤ b.held, seq = b.m_firstByteSeq.advance off
  · obtain ⟨off, hoff, rfl⟩ := hin
    have hadd : (b.m_firstByteSeq.advance off).add k = b'.m_firstByteSeq.advance off := by
      rw [hs.first, SequenceNumber32.advance_add]
    have hsteady := hc.2
    rw [TcpTxBuffer.Spans, TcpTxBuffer.asked, toNat_diff_first (by omega), hadd] at hsteady
    rw [TcpTxBuffer.copyFromSequence, TcpTxBuffer.copyFromSequence, hadd]
    refine hs.copyWithin h hoff numBytes 1 fun hlt hspan => ⟨hsteady ⟨hlt, hspan⟩, ?_⟩
    -- the part that was sent does not span the end
    refine hs.copyWithin h hoff _ 0 fun _ hpart => ?_
    rw [toNat_ofNat (by omega)] at hpart
    omega
  · have hout : ∀ off ≤ b.held, seq ≠ b.m_firstByteSeq.advance off :=
      fun off hoff heq => hin ⟨off, hoff, heq⟩
    have hout' : ∀ off ≤ b'.held, seq.add k ≠ b'.m_firstByteSeq.advance off := by
      intro off hoff heq
      rw [hs.held_eq] at hoff
      rw [hs.first, ← SequenceNumber32.advance_add, SequenceNumber32.add_inj] at heq
      exact hout off hoff heq
    rw [h.copy_outside numBytes hout, (hs.held h).copy_outside numBytes hout', hs.first,
      SequenceNumber32.gt_add hc.1]
    split
    · exact .none
    · exact .some ⟨.none, hs⟩

end Copy

/-! ### Calls that change marks -/

/-- Results that are related both ways are mapped to related ones. -/
theorem rel_map {α β γ δ : Type} {R : α → β → Prop} {S : γ → δ → Prop} {f : α → γ}
    {g : β → δ} {x : Option α} {y : Option β} (h : Option.Rel R x y)
    (hf : ∀ a b, R a b → S (f a) (g b)) : Option.Rel S (x.map f) (y.map g) := by
  cases h with
  | none => exact .none
  | some h => exact .some (hf _ _ h)

section Marks

variable {k : UInt32} {b b' : TcpTxBuffer} {l l' : List TcpTxItem}

/-- Items whose marks change alike are moved as before. -/
theorem moved_map (hl : List.Forall₂ (Moved k) l l') {f : TcpTxItem → TcpTxItem}
    (hf : ∀ i i', Moved k i i' → Moved k (f i) (f i')) :
    List.Forall₂ (Moved k) (l.map f) (l'.map f) := by
  rw [List.forall₂_map_left_iff, List.forall₂_map_right_iff]
  exact hl.imp fun i i' hi => hf i i' hi

theorem moved_sackFirst (hl : List.Forall₂ (Moved k) l l') :
    Option.Rel (fun r r' => Moved k r.1 r'.1 ∧ List.Forall₂ (Moved k) r.2 r'.2) (sackFirst l)
      (sackFirst l') := by
  induction hl with
  | nil => exact .none
  | @cons i i' rest rest' hi hrest ih =>
    rw [sackFirst, sackFirst, hi.sacked]
    split
    · generalize sackFirst rest = r at ih
      generalize sackFirst rest' = r' at ih
      cases ih with
      | none => exact .none
      | some h => exact .some ⟨h.1, .cons hi h.2⟩
    · have hit : Moved k { i with m_sacked := true } { i' with m_sacked := true } :=
        ⟨hi.node, hi.start, hi.packet, hi.lost, rfl, hi.retrans⟩
      exact .some ⟨hit, .cons hit hrest⟩

theorem Shifted.addRenoSack (hs : Shifted k b b') :
    Option.Rel (Shifted k) b.addRenoSack b'.addRenoSack := by
  obtain @⟨sent, app, hsent, happ⟩ := hs
  rw [TcpTxBuffer.addRenoSack, TcpTxBuffer.addRenoSack]
  cases hl : b.m_sentList with
  | nil =>
    rw [hl, List.forall₂_nil_left_iff] at hsent
    subst hsent
    exact .none
  | cons head rest =>
    rw [hl] at hsent
    obtain ⟨head', rest', hhead, hrest, rfl⟩ := List.forall₂_cons_left_iff.mp hsent
    have hfirst := moved_sackFirst hrest
    dsimp only [TcpTxBuffer.moved]
    generalize sackFirst rest = r at hfirst
    generalize sackFirst rest' = r' at hfirst
    cases hfirst with
    | none => exact .some (.mk hsent happ)
    | @some it it' h =>
      obtain ⟨it, rest⟩ := it
      obtain ⟨it', rest'⟩ := it'
      obtain ⟨hit, hrest'⟩ := h
      dsimp only at hit hrest' ⊢
      rw [hit.size, hit.node, hit.start]
      exact .some (.mk (.cons hhead hrest') happ)

theorem Shifted.markHeadAsLost (hs : Shifted k b b') :
    Shifted k b.markHeadAsLost b'.markHeadAsLost := by
  obtain @⟨sent, app, hsent, happ⟩ := hs
  rw [TcpTxBuffer.markHeadAsLost, TcpTxBuffer.markHeadAsLost]
  cases hl : b.m_sentList with
  | nil =>
    rw [hl, List.forall₂_nil_left_iff] at hsent
    subst hsent
    exact .mk (by rw [hl]; exact .nil) happ
  | cons head rest =>
    rw [hl] at hsent
    obtain ⟨head', rest', hhead, hrest, rfl⟩ := List.forall₂_cons_left_iff.mp hsent
    dsimp only [TcpTxBuffer.moved]
    rw [hhead.size, hhead.sacked, hhead.lost, hhead.retrans]
    exact .mk (.cons ⟨hhead.node, hhead.start, hhead.packet, rfl, rfl, rfl⟩ hrest) happ

theorem Shifted.moveSackFromHead (hs : Shifted k b b') :
    Option.Rel (Shifted k) b.moveSackFromHead b'.moveSackFromHead := by
  obtain @⟨sent, app, hsent, happ⟩ := hs
  rw [TcpTxBuffer.moveSackFromHead, TcpTxBuffer.moveSackFromHead]
  cases hl : b.m_sentList with
  | nil =>
    rw [hl, List.forall₂_nil_left_iff] at hsent
    subst hsent
    exact .some (.mk (by rw [hl]; exact .nil) happ)
  | cons head rest =>
    rw [hl] at hsent
    obtain ⟨head', rest', hhead, hrest, rfl⟩ := List.forall₂_cons_left_iff.mp hsent
    dsimp only [TcpTxBuffer.moved]
    rw [hhead.size, hhead.sacked]
    split
    · have hclear : Moved k { head with m_sacked := false } { head' with m_sacked := false } :=
        ⟨hhead.node, hhead.start, hhead.packet, hhead.lost, rfl, hhead.retrans⟩
      have hcleared : Shifted k
          { b with
            m_sentList := { head with m_sacked := false } :: rest
            m_sackedOut := b.m_sackedOut - head.getSize } _ :=
        .mk (.cons hclear hrest) happ
      exact rel_map hcleared.addRenoSack fun _ _ h => h.markHeadAsLost
    · exact .some (.mk (by rw [hl]; exact hsent) happ)

theorem Shifted.resetRenoSack (hs : Shifted k b b') :
    Shifted k b.resetRenoSack b'.resetRenoSack := by
  obtain ⟨hsent, happ⟩ := hs
  exact .mk (moved_map hsent fun _ _ h => ⟨h.node, h.start, h.packet, h.lost, rfl, h.retrans⟩) happ

theorem Shifted.deleteRetransmittedFlagFromHead (hs : Shifted k b b') :
    Shifted k b.deleteRetransmittedFlagFromHead b'.deleteRetransmittedFlagFromHead := by
  obtain @⟨sent, app, hsent, happ⟩ := hs
  have hsame : Shifted k b (b.moved k sent app) := .mk hsent happ
  rw [TcpTxBuffer.deleteRetransmittedFlagFromHead, TcpTxBuffer.deleteRetransmittedFlagFromHead]
  have hsize : (b.moved k sent app).m_sentSize = b.m_sentSize := rfl
  rw [hsize]
  by_cases hzero : b.m_sentSize = 0
  · rw [if_pos hzero, if_pos hzero]
    exact hsame
  rw [if_neg hzero, if_neg hzero]
  cases hl : b.m_sentList with
  | nil =>
    rw [hl, List.forall₂_nil_left_iff] at hsent
    subst hsent
    exact hsame
  | cons head rest =>
    rw [hl] at hsent
    obtain ⟨head', rest', hhead, hrest, rfl⟩ := List.forall₂_cons_left_iff.mp hsent
    dsimp only [TcpTxBuffer.moved]
    rw [hhead.retrans]
    split
    · have hcleared : Moved k { head with m_retrans := false } { head' with m_retrans := false } :=
        ⟨hhead.node, hhead.start, hhead.packet, hhead.lost, hhead.sacked, rfl⟩
      rw [hhead.size]
      exact .mk (.cons hcleared hrest) happ
    · exact hsame

theorem moved_lost (hl : List.Forall₂ (Moved k) l l') (n : UInt32) :
    l'.foldl (fun lostOut item =>
        if item.m_lost || !item.m_sacked then lostOut + item.getSize else lostOut) n =
      l.foldl (fun lostOut item =>
        if item.m_lost || !item.m_sacked then lostOut + item.getSize else lostOut) n := by
  induction hl generalizing n with
  | nil => rfl
  | cons hi _ ih =>
    rw [List.foldl_cons, List.foldl_cons, hi.lost, hi.sacked, hi.size]
    exact ih _

theorem Shifted.setSentListLost (hs : Shifted k b b') (resetSack : Bool) :
    Shifted k (b.setSentListLost resetSack) (b'.setSentListLost resetSack) := by
  obtain @⟨sent, app, hsent, happ⟩ := hs
  rw [TcpTxBuffer.setSentListLost, TcpTxBuffer.setSentListLost]
  split
  · exact .mk (moved_map hsent fun _ _ h => ⟨h.node, h.start, h.packet, rfl, rfl, rfl⟩) happ
  · dsimp only [TcpTxBuffer.moved]
    rw [moved_lost hsent]
    refine .mk (moved_map hsent fun _ _ h => ?_) happ
    exact ⟨h.node, h.start, h.packet, by rw [h.lost, h.sacked], h.sacked, rfl⟩

theorem Shifted.resetSentList (hs : Shifted k b b') :
    Shifted k b.resetSentList b'.resetSentList := by
  obtain ⟨hsent, happ⟩ := hs
  have hcleared := moved_map hsent (f := fun item =>
    { item with m_retrans := false, m_sacked := false, m_lost := false })
      fun _ _ h => ⟨h.node, h.start, h.packet, rfl, rfl, rfl⟩
  exact .mk .nil (alike_append (alike_anywhere hcleared) happ)

theorem Shifted.resetLastSegmentSent (hs : Shifted k b b') :
    Shifted k b.resetLastSegmentSent b'.resetLastSegmentSent := by
  obtain @⟨sent, app, hsent, happ⟩ := hs
  have hsame : Shifted k b (b.moved k sent app) := .mk hsent happ
  rw [TcpTxBuffer.resetLastSegmentSent, TcpTxBuffer.resetLastSegmentSent]
  cases hlast : b.m_sentList.getLast? with
  | none =>
    rw [List.getLast?_eq_none_iff.mp hlast, List.forall₂_nil_left_iff] at hsent
    subst hsent
    exact hsame
  | some item =>
    obtain ⟨init, hl⟩ := List.getLast?_eq_some_iff.mp hlast
    rw [hl] at hsent
    obtain ⟨init', t, rfl, hinit, ht⟩ := alike_split hsent
    obtain ⟨item', t', hitem, ht', rfl⟩ := List.forall₂_cons_left_iff.mp ht
    obtain rfl := List.forall₂_nil_left_iff.mp ht'
    dsimp only [TcpTxBuffer.moved]
    rw [List.getLast?_append_of_ne_nil _ (by simp)]
    dsimp only [List.getLast?_singleton]
    rw [hl, List.dropLast_concat, List.dropLast_concat, hitem.size, hitem.retrans]
    exact .mk hinit (.cons hitem.anywhere happ)

theorem Shifted.add (hs : Shifted k b b') (p : Payload) :
    (b'.add p).1 = (b.add p).1 ∧ Shifted k (b.add p).2 (b'.add p).2 := by
  obtain @⟨sent, app, hsent, happ⟩ := hs
  have hsame : Shifted k b (b.moved k sent app) := .mk hsent happ
  have havail : (b.moved k sent app).available = b.available := rfl
  rw [TcpTxBuffer.add, TcpTxBuffer.add, havail]
  split
  · split
    · exact ⟨rfl, .mk hsent (alike_append happ (.cons ⟨rfl, trivial, rfl, rfl, rfl, rfl⟩ .nil))⟩
    · exact ⟨rfl, hsame⟩
  · exact ⟨rfl, hsame⟩

end Marks

/-! ### DiscardUpTo -/

section Discard

variable {k : UInt32} {b b' : TcpTxBuffer}

/-- The same bytes go from the heads of both buffers. -/
theorem Shifted.without (hs : Shifted k b b') {i i' : TcpTxItem} (hi : Moved k i i') (o : Nat)
    {l l' : List TcpTxItem} (hl : List.Forall₂ (Moved k) l l') :
    Shifted k (b.without i o l) (b'.without i' o l') := by
  obtain ⟨hsent, happ⟩ := hs
  dsimp only [TcpTxBuffer.without, TcpTxBuffer.removeFromCounts, TcpTxBuffer.moved]
  rw [hi.sacked, hi.retrans, hi.lost, ← SequenceNumber32.advance_add]
  exact .mk hl happ

/-- The loop of `DiscardUpTo` at a head that both buffers have. -/
theorem Shifted.discardLoop_head (hs : Shifted k b b') (h : Held b) {i : TcpTxItem}
    {rest : List TcpTxItem} (hsent : b.m_sentList = i :: rest) {o fuel : Nat} (hpos : 0 < o)
    (ho : o < 2 ^ 32)
    (ih : ∀ {b b' : TcpTxBuffer} {o : Nat}, Shifted k b b' → Held b → o < 2 ^ 32 →
      Option.Rel (Shifted k) (TcpTxBuffer.discardLoop fuel (UInt32.ofNat o) b)
        (TcpTxBuffer.discardLoop fuel (UInt32.ofNat o) b')) :
    Option.Rel (Shifted k) (TcpTxBuffer.discardLoop (fuel + 1) (UInt32.ofNat o) b)
      (TcpTxBuffer.discardLoop (fuel + 1) (UInt32.ofNat o) b') := by
  have hlist : List.Forall₂ (Moved k) b.m_sentList b'.m_sentList := by
    obtain ⟨hsent, -⟩ := hs
    exact hsent
  rw [hsent] at hlist
  obtain ⟨i', rest', hi, hrest, hsent'⟩ := List.forall₂_cons_left_iff.mp hlist
  rw [h.discardLoop_head hsent hpos ho fuel, (hs.held h).discardLoop_head hsent' hpos ho fuel,
    hi.length]
  split
  · exact ih (hs.without hi _ hrest) (h.without_head hsent) (by omega)
  · exact .some (hs.without hi o (.cons (hi.back moved_advance o) hrest))

/-- The loop of `DiscardUpTo` on both buffers. -/
theorem Shifted.discardLoop (fuel : Nat) {o : Nat} (hs : Shifted k b b') (h : Held b)
    (ho : o < 2 ^ 32) :
    Option.Rel (Shifted k) (TcpTxBuffer.discardLoop fuel (UInt32.ofNat o) b)
      (TcpTxBuffer.discardLoop fuel (UInt32.ofNat o) b') := by
  induction fuel generalizing b b' o with
  | zero => exact .none
  | succ fuel ih =>
    have hheld := hs.held_eq
    by_cases hdone : o = 0 ∨ b.held = 0
    · rw [h.discardLoop_done hdone, (hs.held h).discardLoop_done (by rw [hheld]; exact hdone)]
      exact .some hs
    cases hsent : b.m_sentList with
    | cons i rest => exact hs.discardLoop_head h hsent (by omega) ho ih
    | nil =>
      have hsent' : b'.m_sentList = [] := by
        obtain ⟨hl, -⟩ := hs
        rwa [hsent, List.forall₂_nil_left_iff] at hl
      obtain ⟨r, hr, hcopy, heq⟩ := h.discardLoop_move hsent (by omega) ho (by omega)
      obtain ⟨r', -, hcopy', heq'⟩ := (hs.held h).discardLoop_move hsent' (by omega) ho (by omega)
      rw [heq fuel, heq' fuel]
      -- nothing sent, so no block spans its end
      have hsteady : CopySteady k b (UInt32.ofNat o) b.m_firstByteSeq := by
        refine ⟨fun heq => ?_, fun hspans => ?_⟩
        · rw [SequenceNumber32.diff, UInt32.sub_self] at heq
          exact absurd heq (by decide)
        · rw [TcpTxBuffer.Spans, hsent, span_nil] at hspans
          omega
      have hrel := hs.copyFromSequence h hsteady
      rw [← hs.first, hcopy, hcopy'] at hrel
      obtain ⟨hrel⟩ := hrel
      have hseg := hr.segment h (by omega)
      cases hsent₁ : r.2.m_sentList with
      | cons i rest => exact hrel.2.discardLoop_head hseg.held hsent₁ (by omega) ho ih
      | nil =>
        cases hr with
        | resent hl => simp [hsent] at hl
        | sentNew => simp [TcpTxBuffer.sentNew] at hsent₁

/-- The item that `AddRenoSack` marks was in the list. -/
theorem sackFirst_start {items rest : List TcpTxItem} {it : TcpTxItem}
    (h : sackFirst items = some (it, rest)) : ∃ i ∈ items, it.m_startSeq = i.m_startSeq := by
  induction items generalizing rest with
  | nil => cases h
  | cons i items ih =>
    rw [sackFirst] at h
    split at h
    · obtain ⟨⟨it', rest'⟩, heq, hrest⟩ := Option.map_eq_some_iff.mp h
      obtain ⟨rfl, -⟩ := Prod.mk.inj hrest
      obtain ⟨j, hj, hstart⟩ := ih heq
      exact ⟨j, List.mem_cons_of_mem _ hj, hstart⟩
    · obtain ⟨rfl, -⟩ := Prod.mk.inj (Option.some.inj h)
      exact ⟨i, List.mem_cons_self, rfl⟩

/-- Items start less than half the space behind the head. -/
theorem exists_start {s : SequenceNumber32} {l : List TcpTxItem} (hc : Contiguous s l)
    (hspan : span l < 2 ^ 31) {i : TcpTxItem} (hi : i ∈ l) :
    ∃ q < 2 ^ 31, i.m_startSeq = s.advance q ∧ q + i.m_packet.length < 2 ^ 31 := by
  obtain ⟨l₁, l₂, rfl⟩ := List.append_of_mem hi
  rw [span_append, span_cons] at hspan
  exact ⟨span l₁, by omega, (contiguous_append.mp hc).2.1, by omega⟩

/-- `AddRenoSack` leaves `m_highestSack` or makes it an item of the buffer. -/
theorem Held.addRenoSack_highest (h : Held b) (heq : b.addRenoSack = some b') :
    b'.m_highestSack = b.m_highestSack ∨ Placed b.m_firstByteSeq b'.m_highestSack := by
  have hsmall := h.small
  rw [TcpTxBuffer.addRenoSack] at heq
  split at heq
  · cases heq
  · next head rest hsent =>
    split at heq
    · next it rest' hfirst =>
      obtain rfl := Option.some.inj heq
      obtain ⟨i, hi, hstart⟩ := sackFirst_start hfirst
      obtain ⟨q, hq, hstart', -⟩ := exists_start h.starts (by omega)
        (by rw [hsent]; exact List.mem_cons_of_mem _ hi)
      exact .inr ⟨q, hq, hstart.trans hstart'⟩
    · obtain rfl := Option.some.inj heq
      exact .inl rfl

theorem Held.moveSackFromHead_highest (h : Held b) (heq : b.moveSackFromHead = some b') :
    b'.m_highestSack = b.m_highestSack ∨ Placed b.m_firstByteSeq b'.m_highestSack := by
  rw [TcpTxBuffer.moveSackFromHead] at heq
  split at heq
  · obtain rfl := Option.some.inj heq
    exact .inl rfl
  · next head rest hsent =>
    split at heq
    · obtain ⟨b₁, hreno, rfl⟩ := Option.map_eq_some_iff.mp heq
      have hmark : b₁.markHeadAsLost.m_highestSack = b₁.m_highestSack := by
        rw [TcpTxBuffer.markHeadAsLost]
        split
        · rfl
        · rfl
      have hcleared : Remarked b { b with
          m_sentList := { head with m_sacked := false } :: rest
          m_sackedOut := b.m_sackedOut - head.getSize } :=
        ⟨by rw [hsent]; rfl, rfl, rfl, rfl, rfl, rfl⟩
      rw [hmark]
      exact (hcleared.held h).addRenoSack_highest hreno
    · obtain rfl := Option.some.inj heq
      exact .inl rfl

/-- `m_highestSack` as `DiscardUpTo` leaves it. -/
def settle (first : SequenceNumber32) (top : Option Nat × SequenceNumber32) :
    Option Nat × SequenceNumber32 :=
  if top.2.le first then (none, ⟨0⟩) else top

/-- An `m_highestSack` of the buffer before or after bytes went is settled as a number of it after
they went, `k` further on as it is here. -/
theorem settle_placed {first : SequenceNumber32} {o : Nat} (ho : o < 2 ^ 32)
    (hge : first.ge (first.advance o) = false)
    (hrigid : SequenceNumber32.Rigid k first (first.advance o))
    {top : Option Nat × SequenceNumber32} (htop : Placed first top ∨ Placed (first.advance o) top) :
    Placed (first.advance o) (settle (first.advance o) top) ∧
      settle ((first.advance o).add k) (moveSack k top) =
        moveSack k (settle (first.advance o) top) := by
  obtain ⟨node, seq⟩ := top
  cases node with
  | none =>
    obtain rfl : seq = ⟨0⟩ := htop.elim id id
    have hnone : ∀ s, settle s (none, ⟨0⟩) = (none, ⟨0⟩) := fun _ => ite_self _
    exact ⟨by rw [hnone]; rfl, by rw [moveSack, hnone, hnone]; rfl⟩
  | some node =>
    have hle : o ≤ 2 ^ 31 := by
      by_contra hlt
      have hpos := SequenceNumber32.gt_iff first (first.advance o)
      have hdiff := SequenceNumber32.toNat_diff_advance_of_lt (s := first) (p := 0) (q := o)
        (by omega) (by omega)
      rw [SequenceNumber32.advance_zero] at hdiff
      rw [SequenceNumber32.ge, Bool.or_eq_false_iff] at hge
      rw [hdiff, hge.1] at hpos
      have := hpos.mpr ⟨by omega, .inl (by omega)⟩
      cases this
    have hseq : SequenceNumber32.Rigid k seq (first.advance o) ∧
        (seq.le (first.advance o) = true ∨
          ∃ r < 2 ^ 31, seq = (first.advance o).advance r) := by
      rcases htop with ⟨q, hq, rfl⟩ | ⟨q, hq, rfl⟩
      · refine ⟨?_, ?_⟩
        · by_cases hzero : q = 0
          · rw [hzero, SequenceNumber32.advance_zero]
            exact hrigid
          · exact SequenceNumber32.rigid_advance (by omega) (by omega)
        · by_cases hlt : q ≤ o
          · exact .inl (SequenceNumber32.le_of_ge_eq_false ho hge hlt)
          · refine .inr ⟨q - o, by omega, ?_⟩
            rw [SequenceNumber32.advance_advance]
            congr 1
            omega
      · refine ⟨?_, .inr ⟨q, hq, rfl⟩⟩
        rw [SequenceNumber32.advance_advance]
        exact SequenceNumber32.rigid_advance (by omega) (by omega)
    rw [settle, settle, moveSack]
    dsimp only
    rw [SequenceNumber32.le_add hseq.1]
    by_cases hlow : seq.le (first.advance o) = true
    · rw [if_pos hlow, if_pos hlow]
      exact ⟨rfl, rfl⟩
    · rw [if_neg hlow, if_neg hlow]
      exact ⟨hseq.2.resolve_left hlow, rfl⟩

/-- `DiscardUpTo` of both buffers. -/
theorem Shifted.discardUpTo (hs : Shifted k b b') (h : Held b)
    (htop : Placed b.m_firstByteSeq b.m_highestSack) {seq : SequenceNumber32}
    (hc : SequenceNumber32.Rigid k b.m_firstByteSeq seq) :
    Option.Rel (fun b₁ b₁' => Shifted k b₁ b₁' ∧ Placed b₁.m_firstByteSeq b₁.m_highestSack)
      (b.discardUpTo seq) (b'.discardUpTo (seq.add k)) := by
  by_cases hge : b.m_firstByteSeq.ge seq = true
  · rw [TcpTxBuffer.discardUpTo, TcpTxBuffer.discardUpTo, if_pos hge, hs.first,
      SequenceNumber32.ge_add hc, if_pos hge]
    exact .some ⟨hs, htop⟩
  rw [Bool.not_eq_true] at hge
  obtain ⟨o, ho, rfl⟩ := b.m_firstByteSeq.exists_advance seq
  obtain ⟨b₁, hd, hloop, heq⟩ := h.discardUpTo_eq ho hge
  have hge' : b'.m_firstByteSeq.ge (b'.m_firstByteSeq.advance o) = false := by
    rw [hs.first, ← SequenceNumber32.advance_add, SequenceNumber32.ge_add hc, hge]
  obtain ⟨b₁', -, hloop', heq'⟩ := (hs.held h).discardUpTo_eq ho hge'
  have hlen : b'.m_sentList.length = b.m_sentList.length := by
    obtain ⟨hsent, -⟩ := hs
    exact hsent.length_eq.symm
  have hadd : (b.m_firstByteSeq.advance o).add k = b'.m_firstByteSeq.advance o := by
    rw [hs.first, SequenceNumber32.advance_add]
  have hrel := hs.discardLoop (b.m_sentList.length + 2) h ho
  rw [hlen] at hloop'
  rw [hloop, hloop'] at hrel
  obtain ⟨hrel⟩ := hrel
  -- the head as both calls leave it
  have hmoved : Shifted k { b₁ with m_firstByteSeq := b.m_firstByteSeq.advance o }
      { b₁' with m_firstByteSeq := b'.m_firstByteSeq.advance o } := by
    obtain ⟨hsent, happ⟩ := hrel
    rw [← hadd]
    exact .mk hsent happ
  have hheld := (hd.first h).2
  have hkept := (hd.top h).1
  rw [heq, hadd, heq']
  have hsack := hmoved.moveSackFromHead
  generalize hb₂ : TcpTxBuffer.moveSackFromHead
    { b₁ with m_firstByteSeq := b.m_firstByteSeq.advance o } = r at hsack
  generalize TcpTxBuffer.moveSackFromHead
    { b₁' with m_firstByteSeq := b'.m_firstByteSeq.advance o } = r' at hsack
  cases hsack with
  | none => exact .none
  | @some b₂ b₂' h₂ =>
    have hfirst : b₂.m_firstByteSeq = b.m_firstByteSeq.advance o :=
      (moveSackFromHead_remarked hb₂).first_eq
    have hplaced : Placed b.m_firstByteSeq b₂.m_highestSack ∨
        Placed (b.m_firstByteSeq.advance o) b₂.m_highestSack := by
      rcases hheld.moveSackFromHead_highest hb₂ with hsame | hnew
      · left
        rw [hsame]
        change Placed _ b₁.m_highestSack
        rw [hkept]
        exact htop
      · exact .inr hnew
    obtain ⟨hplaced', hsettle⟩ := settle_placed ho hge hc hplaced
    rw [← hfirst] at hplaced' hsettle
    refine .some ⟨?_, hplaced'⟩
    obtain ⟨hsent, happ⟩ := h₂
    change Shifted k { b₂ with m_highestSack := settle b₂.m_firstByteSeq b₂.m_highestSack }
      (TcpTxBuffer.mk _ _ _ _ _ _ (settle (b₂.m_firstByteSeq.add k) (moveSack k b₂.m_highestSack))
        _ _ _ _ _ _ _ _)
    rw [hsettle]
    exact .mk hsent happ

end Discard

/-! ### Update -/

/-- A SACK block with `k` added. -/
def SackBlock.shift (k : UInt32) (block : SackBlock) : SackBlock :=
  ⟨block.first.add k, block.second.add k⟩

/-- A block is compared with the end of what was sent and with each item `k` further on as it is
here. -/
def SackBlock.Steady (k : UInt32) (b : TcpTxBuffer) (block : SackBlock) : Prop :=
  SequenceNumber32.Rigid k b.sentEnd block.first ∧ ∀ i ∈ b.m_sentList,
    SequenceNumber32.Rigid k i.m_startSeq block.first ∧
      SequenceNumber32.Rigid k i.stop block.second

instance (k : UInt32) (b : TcpTxBuffer) (block : SackBlock) : Decidable (block.Steady k b) :=
  inferInstanceAs (Decidable (_ ∧ ∀ i ∈ b.m_sentList, _ ∧ _))

section Update

variable {k : UInt32} {b b' : TcpTxBuffer} {l l' : List TcpTxItem} {i i' : TcpTxItem}
  {block : SackBlock}

theorem TcpTxItem.Alike.stop (hi : Moved k i i') : i'.stop = i.stop.add k := by
  have hval : ∀ u v w : UInt32, u + v + w = u + w + v := by
    intro u v w
    grind
  rw [TcpTxItem.stop, hi.start, hi.size, TcpTxItem.stop, SequenceNumber32.add, SequenceNumber32.add,
    SequenceNumber32.add, SequenceNumber32.add, hval]

/-- A block covers and passes an item moved with it as it did. -/
theorem SackBlock.covers_shift (hi : Moved k i i')
    (hb : SequenceNumber32.Rigid k i.m_startSeq block.first ∧
      SequenceNumber32.Rigid k i.stop block.second) :
    (block.shift k).covers i' = block.covers i ∧ (block.shift k).passes i' = block.passes i := by
  have hcovers : (block.shift k).covers i' = block.covers i := by
    rw [covers, covers, hi.stop, hi.start, shift]
    dsimp only
    rw [SequenceNumber32.ge_add hb.1, SequenceNumber32.le_add hb.2]
  refine ⟨hcovers, ?_⟩
  rw [passes, passes, hcovers, hi.stop, shift]
  dsimp only
  rw [SequenceNumber32.gt_add hb.2]

/-- What `Update` changes apart from the items, with `k` added. -/
def Sacking.shift (k : UInt32) (st : Sacking) : Sacking :=
  { st with m_highestSack := moveSack k st.m_highestSack }

/-- The item SACKed highest is raised as it was before it was moved. -/
theorem moveSack_raise {top : Option Nat × SequenceNumber32} {e : SequenceNumber32}
    (hrigid : top.1.isSome → SequenceNumber32.Rigid k top.2 e) (node : Nat)
    (s : SequenceNumber32) :
    (if (moveSack k top).1.isNone || (moveSack k top).2.le (e.add k) then (some node, s.add k)
      else moveSack k top) =
      moveSack k (if top.1.isNone || top.2.le e then (some node, s) else top) := by
  obtain ⟨node', seq⟩ := top
  cases node' with
  | none => rfl
  | some node' =>
    have hle := SequenceNumber32.le_add (hrigid rfl)
    change (if (seq.add k).le (e.add k) = true then _ else _) =
      moveSack k (if seq.le e = true then _ else _)
    by_cases hlow : seq.le e = true
    · rw [if_pos (hle.trans hlow), if_pos hlow]
      rfl
    · rw [if_neg (by rw [hle]; exact hlow), if_neg hlow]

theorem Sacking.sack_shift (hi : Moved k i i') (st : Sacking)
    (hrigid : st.m_highestSack.1.isSome →
      SequenceNumber32.Rigid k st.m_highestSack.2 i.stop) :
    (st.shift k).sack i' = (st.sack i).shift k := by
  rw [sack, sack, shift, shift, hi.size, hi.lost, hi.stop, hi.node, hi.start]
  exact congrArg (fun top => Sacking.mk _ _ top _) (moveSack_raise hrigid i.node i.m_startSeq)

/-- The item SACKed highest stays one of the buffer. -/
theorem Sacking.sack_placed {first : SequenceNumber32} {st : Sacking} {q : Nat} (hq : q < 2 ^ 31)
    (hi : i.m_startSeq = first.advance q) (h : Placed first st.m_highestSack) :
    Placed first (st.sack i).m_highestSack := by
  rw [sack]
  dsimp only
  split
  · exact ⟨q, hq, hi⟩
  · exact h

/-- A block SACKs the same items of both buffers. -/
theorem moved_markBlock {first s : SequenceNumber32} {p : Nat} (st : Sacking)
    (hl : List.Forall₂ (Moved k) l l') (hc : Contiguous s l) (hs : s = first.advance p)
    (hspan : p + span l < 2 ^ 31)
    (hb : ∀ i ∈ l, SequenceNumber32.Rigid k i.m_startSeq block.first ∧
      SequenceNumber32.Rigid k i.stop block.second) (htop : Placed first st.m_highestSack) :
    List.Forall₂ (Moved k) (markBlock block st s l).1
        (markBlock (block.shift k) (st.shift k) (s.add k) l').1 ∧
      (markBlock (block.shift k) (st.shift k) (s.add k) l').2 = (markBlock block st s l).2.shift k ∧
      Placed first (markBlock block st s l).2.m_highestSack := by
  induction hl generalizing s p st with
  | nil => exact ⟨.nil, rfl, htop⟩
  | @cons i i' rest rest' hi hrest ih =>
    obtain ⟨rfl, hc'⟩ := contiguous_cons.mp hc
    rw [span_cons] at hspan
    have hbi := hb i List.mem_cons_self
    obtain ⟨hcovers, hpasses⟩ := SackBlock.covers_shift hi hbi
    have hstop : i.stop = first.advance (p + i.m_packet.length) := by
      rw [← SequenceNumber32.advance_advance, ← hs]
      rfl
    have hrigid : st.m_highestSack.1.isSome →
        SequenceNumber32.Rigid k st.m_highestSack.2 i.stop := by
      obtain ⟨lostOut, sackedOut, ⟨node, seq⟩, n⟩ := st
      intro hsome
      cases node with
      | none => cases hsome
      | some node =>
        obtain ⟨q, hq, rfl⟩ := htop
        rw [hstop]
        exact SequenceNumber32.rigid_advance (by omega) (by omega)
    have hsackBy : Moved k (i.sackBy block) (i'.sackBy (block.shift k)) := by
      rw [TcpTxItem.sackBy, TcpTxItem.sackBy, hcovers, hi.sacked]
      split
      · exact ⟨hi.node, hi.start, hi.packet, rfl, rfl, hi.retrans⟩
      · exact hi
    -- the marks of the items behind it
    have hnext : ∀ st : Sacking, Placed first st.m_highestSack → _ := fun st htop =>
      ih st hc' (by rw [hs, SequenceNumber32.advance_advance]) (by omega)
        (fun j hj => hb j (List.mem_cons_of_mem _ hj)) htop
    have hend : i'.stop = (i.m_startSeq.advance i.m_packet.length).add k := hi.stop
    rw [← hi.start, markBlock_cons, markBlock_cons, hpasses, hcovers, hi.sacked]
    by_cases hp : block.passes i = true
    · rw [if_pos hp, if_pos hp]
      dsimp only
      by_cases hn : (block.covers i && !i.m_sacked) = true
      · rw [if_pos hn, if_pos hn, Sacking.sack_shift hi st hrigid, hend]
        obtain ⟨h1, h2, h3⟩ := hnext (st.sack i) (Sacking.sack_placed (by omega) hs htop)
        exact ⟨.cons hsackBy h1, h2, h3⟩
      · rw [if_neg hn, if_neg hn, hend]
        obtain ⟨h1, h2, h3⟩ := hnext st htop
        exact ⟨.cons hsackBy h1, h2, h3⟩
    · rw [if_neg hp, if_neg hp]
      exact ⟨.cons hi hrest, rfl, htop⟩

/-- Items that differ in marks start and stop where they did. -/
theorem exists_frame (hf : frames l = frames b.m_sentList) (hi : i ∈ l) :
    ∃ j ∈ b.m_sentList, i.m_startSeq = j.m_startSeq ∧ i.stop = j.stop := by
  have hmem : i.frame ∈ frames b.m_sentList := hf ▸ List.mem_map_of_mem hi
  obtain ⟨j, hj, heq⟩ := List.mem_map.mp hmem
  have hstart : j.m_startSeq = i.m_startSeq := congrArg (fun f => f.2.1) heq
  have hpacket : j.m_packet = i.m_packet := congrArg (fun f => f.2.2) heq
  refine ⟨j, hj, hstart.symm, ?_⟩
  rw [TcpTxItem.stop, TcpTxItem.stop, TcpTxItem.getSize, TcpTxItem.getSize, hstart, hpacket]

/-- The blocks SACK the same items of both buffers. -/
theorem Shifted.markBlocks (hs : Shifted k b b') (h : Held b) {list : List SackBlock} (st : Sacking)
    (hl : List.Forall₂ (Moved k) l l') (hf : frames l = frames b.m_sentList)
    (hb : ∀ block ∈ list, block.Steady k b) (htop : Placed b.m_firstByteSeq st.m_highestSack) :
    List.Forall₂ (Moved k) (b.markBlocks st l list).1
        (b'.markBlocks (st.shift k) l' (list.map (SackBlock.shift k))).1 ∧
      (b'.markBlocks (st.shift k) l' (list.map (SackBlock.shift k))).2.1 =
        (b.markBlocks st l list).2.1.shift k ∧
      (b'.markBlocks (st.shift k) l' (list.map (SackBlock.shift k))).2.2 =
        (b.markBlocks st l list).2.2 ∧
      Placed b.m_firstByteSeq (b.markBlocks st l list).2.1.m_highestSack := by
  have hsmall := h.small
  induction list generalizing l l' st with
  | nil => exact ⟨hl, rfl, rfl, htop⟩
  | cons block list ih =>
    obtain ⟨hend, hitems⟩ := hb block List.mem_cons_self
    rw [List.map_cons, TcpTxBuffer.markBlocks, TcpTxBuffer.markBlocks, hs.sentEnd h, hs.first]
    have hlt : (b.sentEnd.add k).lt (block.shift k).first = b.sentEnd.lt block.first :=
      SequenceNumber32.lt_add hend
    rw [hlt]
    split
    · exact ⟨hl, rfl, rfl, htop⟩
    · have hrigid : ∀ i ∈ l, SequenceNumber32.Rigid k i.m_startSeq block.first ∧
          SequenceNumber32.Rigid k i.stop block.second := by
        intro i hi
        obtain ⟨j, hj, hstart, hstop⟩ := exists_frame hf hi
        rw [hstart, hstop]
        exact hitems j hj
      have hspan := span_eq hf
      obtain ⟨h1, h2, h3⟩ := moved_markBlock (p := 0) _ hl (contiguous_eq hf h.starts)
        (SequenceNumber32.advance_zero _).symm (by omega) hrigid htop
      dsimp only
      rw [h2]
      exact ih _ h1 ((markBlock_frames _ _ _ _).trans hf)
        (fun block hblock => hb block (List.mem_cons_of_mem _ hblock)) h3

/-- The items up to a node are those up to it in both buffers. -/
theorem moved_splitAfter (hl : List.Forall₂ (Moved k) l l') (node : Nat) :
    Option.Rel (fun r r' => List.Forall₂ (Moved k) r.1 r'.1 ∧ List.Forall₂ (Moved k) r.2 r'.2)
      (splitAfter node l) (splitAfter node l') := by
  induction hl with
  | nil => exact .none
  | cons hi hrest ih =>
    rw [splitAfter, splitAfter, hi.node]
    split
    · exact .some ⟨.cons hi .nil, hrest⟩
    · exact rel_map ih fun _ _ h => ⟨.cons hi h.1, h.2⟩

/-- The same items are marked lost. -/
theorem moved_markLost (hl : List.Forall₂ (Moved k) l l') (thresh lostOut : UInt32) :
    List.Forall₂ (Moved k) (markLost thresh lostOut l).1 (markLost thresh lostOut l').1 ∧
      (markLost thresh lostOut l').2 = (markLost thresh lostOut l).2 := by
  induction hl with
  | nil => exact ⟨.nil, rfl⟩
  | @cons i i' rest rest' hi _ ih =>
    obtain ⟨hrest, hcount⟩ := ih
    rw [markLost_cons, markLost_cons]
    dsimp only
    rw [hcount, hi.sacked, hi.lost, hi.size]
    generalize (if i.m_sacked = true then _ else _) = count
    split
    · exact ⟨.cons ⟨hi.node, hi.start, hi.packet, rfl, rfl, hi.retrans⟩ hrest, rfl⟩
    · exact ⟨.cons hi hrest, rfl⟩

/-- The buffer that `UpdateLostCount` leaves, from what it leaves of the items behind the head. -/
def TcpTxBuffer.lostBehind (b : TcpTxBuffer) (head : TcpTxItem) (after : List TcpTxItem)
    (m : List TcpTxItem × UInt32 × UInt32) : TcpTxBuffer :=
  let lost := b.m_dupAckThresh ≤ m.2.1 && !head.m_lost
  { b with
    m_sentList := { head with m_lost := head.m_lost || lost } :: m.1 ++ after
    m_lostOut := if lost then m.2.2 + head.getSize else m.2.2 }

theorem Shifted.lostBehind (hs : Shifted k b b') (hi : Moved k i i') (hl : List.Forall₂ (Moved k) l l')
    {m m' : List TcpTxItem × UInt32 × UInt32} (hm : List.Forall₂ (Moved k) m.1 m'.1)
    (hcount : m'.2 = m.2) : Shifted k (b.lostBehind i l m) (b'.lostBehind i' l' m') := by
  obtain ⟨-, happ⟩ := hs
  obtain ⟨items, counts⟩ := m
  obtain ⟨items', counts'⟩ := m'
  obtain rfl : counts' = counts := hcount
  have hmarked : ∀ lost : Bool, Moved k { i with m_lost := lost } { i' with m_lost := lost } :=
    fun lost => ⟨hi.node, hi.start, hi.packet, rfl, hi.sacked, hi.retrans⟩
  rw [TcpTxBuffer.lostBehind, TcpTxBuffer.lostBehind, hi.lost, hi.size]
  exact .mk (.cons (hmarked _) (alike_append hm hl)) happ

theorem Shifted.updateLostCount (hs : Shifted k b b') :
    Option.Rel (Shifted k) b.updateLostCount b'.updateLostCount := by
  have hthresh : b'.m_dupAckThresh = b.m_dupAckThresh ∧ b'.m_lostOut = b.m_lostOut := by
    cases hs
    exact ⟨rfl, rfl⟩
  have hsplit : Option.Rel
      (fun r r' => List.Forall₂ (Moved k) r.1 r'.1 ∧ List.Forall₂ (Moved k) r.2 r'.2)
      (b.m_highestSack.1.bind fun node => splitAfter node b.m_sentList)
      (b'.m_highestSack.1.bind fun node => splitAfter node b'.m_sentList) := by
    obtain @⟨sent, app, hsent, -⟩ := hs
    change Option.Rel _ _ ((moveSack k b.m_highestSack).1.bind fun node => splitAfter node sent)
    obtain ⟨node, seq⟩ := b.m_highestSack
    cases node with
    | none => exact .none
    | some node => exact moved_splitAfter hsent node
  rw [TcpTxBuffer.updateLostCount, TcpTxBuffer.updateLostCount]
  generalize (b.m_highestSack.1.bind fun node => splitAfter node b.m_sentList) = r at hsplit
  generalize (b'.m_highestSack.1.bind fun node => splitAfter node b'.m_sentList) = r' at hsplit
  cases hsplit with
  | none => exact .none
  | @some x x' h =>
    obtain ⟨upTo, after⟩ := x
    obtain ⟨upTo', after'⟩ := x'
    obtain ⟨hupTo, hafter⟩ := h
    dsimp only at hupTo hafter
    cases hupTo with
    | nil => exact .none
    | @cons head head' items items' hhead hitems =>
      have hmark : List.Forall₂ (Moved k) (markLost b.m_dupAckThresh b.m_lostOut items).1
          (markLost b'.m_dupAckThresh b'.m_lostOut items').1 ∧
            (markLost b'.m_dupAckThresh b'.m_lostOut items').2 =
              (markLost b.m_dupAckThresh b.m_lostOut items).2 := by
        rw [hthresh.1, hthresh.2]
        exact moved_markLost hitems _ _
      exact .some (hs.lostBehind hhead hafter hmark.1 hmark.2)

theorem updateLostCount_keeps (h : b.updateLostCount = some b') :
    b'.m_firstByteSeq = b.m_firstByteSeq ∧ b'.m_highestSack = b.m_highestSack := by
  rw [TcpTxBuffer.updateLostCount] at h
  split at h
  · obtain rfl := Option.some.inj h
    exact ⟨rfl, rfl⟩
  · cases h

/-- `Update` of both buffers. -/
theorem Shifted.update (hs : Shifted k b b') (h : Held b) {list : List SackBlock}
    (htop : Placed b.m_firstByteSeq b.m_highestSack) (hb : ∀ block ∈ list, block.Steady k b) :
    Option.Rel (fun r r' => r'.1 = r.1 ∧ Shifted k r.2 r'.2 ∧
        Placed r.2.m_firstByteSeq r.2.m_highestSack)
      (b.update list) (b'.update (list.map (SackBlock.shift k))) := by
  have hlist : List.Forall₂ (Moved k) b.m_sentList b'.m_sentList := by
    obtain ⟨hsent, -⟩ := hs
    exact hsent
  obtain ⟨hitems, hst, hfin, hplaced⟩ := hs.markBlocks h
    ⟨b.m_lostOut, b.m_sackedOut, b.m_highestSack, 0⟩ hlist rfl hb htop
  have hst' : (⟨b.m_lostOut, b.m_sackedOut, b.m_highestSack, 0⟩ : Sacking).shift k =
      ⟨b'.m_lostOut, b'.m_sackedOut, b'.m_highestSack, 0⟩ := by
    cases hs
    rfl
  rw [hst'] at hitems hst hfin
  rw [TcpTxBuffer.update, TcpTxBuffer.update]
  dsimp only
  generalize b.markBlocks ⟨b.m_lostOut, b.m_sackedOut, b.m_highestSack, 0⟩ b.m_sentList list = m
    at hitems hst hfin hplaced
  generalize b'.markBlocks ⟨b'.m_lostOut, b'.m_sackedOut, b'.m_highestSack, 0⟩ b'.m_sentList
    (list.map (SackBlock.shift k)) = m' at hitems hst hfin
  obtain ⟨items, st, fin⟩ := m
  obtain ⟨items', st', fin'⟩ := m'
  dsimp only at hitems hst hfin hplaced ⊢
  subst hst hfin
  have hmarked : Shifted k
      { b with
        m_sentList := items
        m_lostOut := st.m_lostOut
        m_sackedOut := st.m_sackedOut
        m_highestSack := st.m_highestSack }
      { b' with
        m_sentList := items'
        m_lostOut := st.m_lostOut
        m_sackedOut := st.m_sackedOut
        m_highestSack := moveSack k st.m_highestSack } := by
    obtain ⟨-, happ⟩ := hs
    exact .mk hitems happ
  have hbytes : (st.shift k).bytesSacked = st.bytesSacked := rfl
  rw [hbytes]
  split
  · have hlost := hmarked.updateLostCount
    generalize hr : TcpTxBuffer.updateLostCount { b with
      m_sentList := items
      m_lostOut := st.m_lostOut
      m_sackedOut := st.m_sackedOut
      m_highestSack := st.m_highestSack } = r at hlost
    change Option.Rel _ _ ((TcpTxBuffer.updateLostCount { b' with
      m_sentList := items'
      m_lostOut := st.m_lostOut
      m_sackedOut := st.m_sackedOut
      m_highestSack := moveSack k st.m_highestSack }).map _)
    generalize TcpTxBuffer.updateLostCount { b' with
      m_sentList := items'
      m_lostOut := st.m_lostOut
      m_sackedOut := st.m_sackedOut
      m_highestSack := moveSack k st.m_highestSack } = r' at hlost
    cases hlost with
    | none => exact .none
    | @some b₁ b₁' h₁ =>
      obtain ⟨hfirst, hsame⟩ := updateLostCount_keeps hr
      refine .some ⟨rfl, h₁, ?_⟩
      rw [hfirst, hsame]
      exact hplaced
  · exact .some ⟨rfl, hmarked, hplaced⟩

end Update

end Ns3.Tcp
