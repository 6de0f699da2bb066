import Ns3.Tcp.TxCache

/-!
# Bytes in flight

`BytesInFlight` sums the counters up, `BytesInFlightRFC` scans the items with `IsLostRFC`, the
loss predicate of RFC 6675. They agree when the marks do: SACKed items are not retransmitted,
retransmitted ones are lost, and one that is neither SACKed nor retransmitted is lost exactly when
enough items above it are SACKed, or none is.
-/

namespace Ns3.Tcp

open Ns3.Network Ns3.Lib

/-! ### Marks that the two sums agree on -/

/-- The number of items SACKed. -/
def sackCount (items : List TcpTxItem) : Nat := items.countP TcpTxItem.m_sacked

/-- The item is in flight by its marks: not SACKed, and not lost or retransmitted. -/
def TcpTxItem.inPipe (i : TcpTxItem) : Bool := !i.m_sacked && (!i.m_lost || i.m_retrans)

/-- The marks of an item with `n` SACKed above it, when `t` of them make it lost. -/
structure TcpTxItem.Agrees (t n : Nat) (i : TcpTxItem) : Prop where
  sacked : i.m_sacked = true → i.m_retrans = false ∧ i.m_lost = false
  retrans : i.m_sacked = false → i.m_retrans = true → i.m_lost = true
  lost : i.m_sacked = false → t ≤ n → i.m_lost = true
  enough : i.m_sacked = false → i.m_retrans = false → i.m_lost = true → 0 < n → t ≤ n

/-- The marks of all items. -/
def Agreed (t : Nat) : List TcpTxItem → Prop
  | [] => True
  | i :: rest => i.Agrees t (sackCount rest) ∧ Agreed t rest

section Agreed

variable {t : Nat} {l l' : List TcpTxItem} {i : TcpTxItem}

@[simp] theorem sackCount_nil : sackCount [] = 0 := rfl

@[simp] theorem sackCount_cons (i : TcpTxItem) (l : List TcpTxItem) :
    sackCount (i :: l) = (if i.m_sacked then 1 else 0) + sackCount l := by
  rw [sackCount, List.countP_cons, Nat.add_comm]
  rfl

@[simp] theorem sackCount_append (l l' : List TcpTxItem) :
    sackCount (l ++ l') = sackCount l + sackCount l' :=
  List.countP_append

theorem sackCount_none (h : ∀ i ∈ l, i.m_sacked = false) : sackCount l = 0 := by
  rw [sackCount, List.countP_eq_zero]
  intro i hi
  simp [h i hi]

/-- The items before others agree when those are as many SACKed. -/
theorem agreed_append : Agreed t (l ++ l') ↔
    (∀ pre i rest, l = pre ++ i :: rest → i.Agrees t (sackCount rest + sackCount l')) ∧
      Agreed t l' := by
  induction l with
  | nil => simp
  | cons j l ih =>
    rw [List.cons_append, Agreed, ih, sackCount_append]
    constructor
    · rintro ⟨hj, hl, hl'⟩
      refine ⟨fun pre i rest heq => ?_, hl'⟩
      cases pre with
      | nil =>
        obtain ⟨rfl, rfl⟩ := List.cons.inj heq
        exact hj
      | cons x pre =>
        obtain ⟨rfl, rfl⟩ := List.cons.inj heq
        exact hl pre i rest rfl
    · rintro ⟨hall, hl'⟩
      exact ⟨hall [] j l rfl, fun pre i rest heq => hall (j :: pre) i rest (by rw [heq]; rfl), hl'⟩

/-- What stands behind some items may change when as many of it are SACKed. -/
theorem agreed_congr {m m' : List TcpTxItem} (h : Agreed t (l ++ m))
    (hcount : sackCount m' = sackCount m) (hm : Agreed t m') : Agreed t (l ++ m') := by
  rw [agreed_append] at h ⊢
  rw [hcount]
  exact ⟨h.1, hm⟩

theorem agreed_of_append (h : Agreed t (l ++ l')) : Agreed t l' := (agreed_append.mp h).2

/-- An item with no marks agrees when none is SACKed above it. -/
theorem TcpTxItem.Clean.agrees (ht : 0 < t) (h : i.Clean) : i.Agrees t 0 where
  sacked := fun hs => absurd hs (by simp [h.1])
  retrans := fun _ hr => absurd hr (by simp [h.2.2])
  lost := fun _ hle => absurd hle (by omega)
  enough := fun _ _ hl => absurd hl (by simp [h.2.1])

/-- The bytes counted are those of the items that `BytesInFlightRFC` counts. -/
theorem Agreed.share_eq (h : Agreed t l) :
    span l + share TcpTxItem.m_retrans l = share TcpTxItem.m_sacked l + share TcpTxItem.m_lost l +
      share TcpTxItem.inPipe l := by
  induction l with
  | nil => rfl
  | cons i l ih =>
    obtain ⟨hi, hl⟩ := h
    have := ih hl
    simp only [span_cons, share_cons]
    have hin : i.inPipe = (!i.m_sacked && (!i.m_lost || i.m_retrans)) := rfl
    cases hs : i.m_sacked with
    | true =>
      obtain ⟨hr, hlost⟩ := hi.sacked hs
      rw [hs, Bool.not_true, Bool.false_and] at hin
      simp only [hin, hr, hlost, if_true, Bool.false_eq_true, if_false]
      omega
    | false =>
      rw [hs, Bool.not_false, Bool.true_and] at hin
      cases hr : i.m_retrans with
      | true =>
        have hlost := hi.retrans hs hr
        rw [hr, Bool.or_true] at hin
        simp only [hin, hlost, if_true, Bool.false_eq_true, if_false]
        omega
      | false =>
        rw [hr, Bool.or_false] at hin
        cases hlost : i.m_lost with
        | true =>
          rw [hlost] at hin
          simp only [hin, Bool.not_true, if_true, Bool.false_eq_true, if_false]
          omega
        | false =>
          rw [hlost] at hin
          simp only [hin, Bool.not_false, if_true, Bool.false_eq_true, if_false]
          omega

end Agreed

/-! ### IsLostRFC -/

/-- As many SACKed items above one make it lost. -/
def TcpTxBuffer.thresh (b : TcpTxBuffer) : Nat := max 1 b.m_dupAckThresh.toNat

/-- The bytes that make an item lost are those of `m_dupAckThresh` full segments, and no item is
larger than a segment. -/
structure Sized (b : TcpTxBuffer) : Prop where
  fits : (b.m_dupAckThresh.toNat - 1) * b.m_segmentSize.toNat < 2 ^ 32
  le : ∀ i ∈ b.m_sentList, i.m_packet.length ≤ b.m_segmentSize.toNat

section Lost

variable {b : TcpTxBuffer}

/-- The two thresholds of `IsLostRFC`. -/
theorem Sized.reached (hz : Sized b) {count bytes : UInt32}
    (hbytes : bytes.toNat ≤ count.toNat * b.m_segmentSize.toNat) (hpos : 0 < count.toNat) :
    (b.m_dupAckThresh ≤ count || bytes > (b.m_dupAckThresh - 1) * b.m_segmentSize) =
      decide (b.thresh ≤ count.toNat) := by
  rw [TcpTxBuffer.thresh]
  by_cases hle : b.m_dupAckThresh ≤ count
  · rw [decide_eq_true hle, Bool.true_or, eq_comm, decide_eq_true_eq]
    rw [UInt32.le_iff_toNat_le] at hle
    omega
  · rw [decide_eq_false hle, Bool.false_or]
    rw [UInt32.le_iff_toNat_le] at hle
    have hone : (b.m_dupAckThresh - 1).toNat = b.m_dupAckThresh.toNat - 1 := by
      rw [UInt32.toNat_sub_of_le]
      · rfl
      · rw [UInt32.le_iff_toNat_le]
        simp only [UInt32.reduceToNat]
        omega
    have hmul : ((b.m_dupAckThresh - 1) * b.m_segmentSize).toNat =
        (b.m_dupAckThresh.toNat - 1) * b.m_segmentSize.toNat := by
      rw [UInt32.toNat_mul, hone, Nat.mod_eq_of_lt hz.fits]
    have hcount : count.toNat * b.m_segmentSize.toNat ≤
        (b.m_dupAckThresh.toNat - 1) * b.m_segmentSize.toNat :=
      Nat.mul_le_mul_right _ (by omega)
    rw [decide_eq_false, eq_comm, decide_eq_false_iff_not]
    · omega
    · rw [gt_iff_lt, UInt32.lt_iff_toNat_lt, hmul]
      omega

/-- The scan of `IsLostRFC` from an item up to the one SACKed highest. -/
theorem isLostRFC_below (hz : Sized b) {m post : List TcpTxItem} {x : TcpTxItem}
    {base : SequenceNumber32} {p : Nat} {count bytes : UInt32}
    (htop : b.m_highestSack.2 = base.advance (p + span m)) (hx : x.m_sacked = true)
    (hkept : x.m_lost = false) (hf : Filled m)
    (hle : ∀ i ∈ m ++ [x], i.m_packet.length ≤ b.m_segmentSize.toNat)
    (hsmall : p + span m + x.m_packet.length < 2 ^ 31)
    (hbytes : bytes.toNat ≤ count.toNat * b.m_segmentSize.toNat)
    (hcount : count.toNat + span m + 1 < 2 ^ 32)
    (hsum : bytes.toNat + span m + x.m_packet.length < 2 ^ 32) :
    TcpTxBuffer.isLostRFC.go b count bytes (base.advance p) (m ++ x :: post) =
      decide (b.thresh ≤ count.toNat + sackCount m + 1) := by
  have hnext : ∀ (i : TcpTxItem) (count bytes : UInt32), i.m_packet.length ≤ b.m_segmentSize.toNat →
      bytes.toNat ≤ count.toNat * b.m_segmentSize.toNat → count.toNat + 1 < 2 ^ 32 →
      bytes.toNat + i.m_packet.length < 2 ^ 32 →
        (count + 1).toNat = count.toNat + 1 ∧
          (bytes + i.getSize).toNat = bytes.toNat + i.m_packet.length ∧
          (bytes + i.getSize).toNat ≤ (count + 1).toNat * b.m_segmentSize.toNat := by
    intro i count bytes hi hb hc hs
    have hone : (count + 1).toNat = count.toNat + 1 := by
      rw [UInt32.toNat_add, UInt32.toNat_one, Nat.mod_eq_of_lt hc]
    have hadd : (bytes + i.getSize).toNat = bytes.toNat + i.m_packet.length := by
      rw [UInt32.toNat_add, TcpTxItem.getSize, Payload.getSize,
        UInt32.toNat_ofNat_of_lt' (by rw [UInt32.size]; omega), Nat.mod_eq_of_lt hs]
    refine ⟨hone, hadd, ?_⟩
    rw [hone, hadd, Nat.add_mul, Nat.one_mul]
    omega
  induction m generalizing p count bytes with
  | nil =>
    rw [span_nil] at hsum hcount
    rw [span_nil, Nat.add_zero] at htop
    obtain ⟨hone, -, hb⟩ := hnext x count bytes (hle x (by simp)) hbytes (by omega) (by omega)
    have hthr := hz.reached hb (by omega)
    rw [List.nil_append, TcpTxBuffer.isLostRFC.go]
    simp only [hx, if_true, Bool.true_and, hthr, hone, sackCount_nil, Nat.add_zero, htop, hkept,
      Bool.false_and]
    rw [SequenceNumber32.ge_advance (by omega) (by omega), if_pos (decide_eq_true (Nat.le_refl p))]
    split
    · next h => exact h.symm
    · next h => exact (Bool.eq_false_iff.mpr h).symm
  | cons i m ih =>
    rw [span_cons] at hsum hcount hsmall htop
    have hfi := filled_cons.mp hf
    have hbegin : (base.advance p).add i.getSize = base.advance (p + i.m_packet.length) := by
      rw [← SequenceNumber32.advance_advance]
      rfl
    have hpast : (base.advance p).ge b.m_highestSack.2 = false := by
      rw [htop, SequenceNumber32.ge_advance (by omega) (by omega), decide_eq_false_iff_not]
      omega
    rw [List.cons_append, TcpTxBuffer.isLostRFC.go]
    simp only [hpast, hbegin, Bool.false_eq_true, if_false]
    have hrec : ∀ count bytes : UInt32, bytes.toNat ≤ count.toNat * b.m_segmentSize.toNat →
        count.toNat + span m + 1 < 2 ^ 32 → bytes.toNat + span m + x.m_packet.length < 2 ^ 32 →
        TcpTxBuffer.isLostRFC.go b count bytes (base.advance (p + i.m_packet.length))
          (m ++ x :: post) = decide (b.thresh ≤ count.toNat + sackCount m + 1) :=
      fun count bytes hb hc hs => ih (by rw [htop, Nat.add_assoc]) hfi.2
        (fun j hj => hle j (List.mem_cons_of_mem _ hj)) (by omega) hb hc hs
    cases hi : i.m_sacked with
    | false =>
      simp only [Bool.false_and, Bool.false_eq_true, if_false]
      rw [hrec count bytes hbytes (by omega) (by omega), sackCount_cons, hi]
      simp
    | true =>
      obtain ⟨hone, hadd, hb⟩ := hnext i count bytes (hle i (by simp)) hbytes (by omega) (by omega)
      have hthr := hz.reached hb (by omega)
      simp only [if_true, Bool.true_and, hthr, hone]
      rw [sackCount_cons, hi, if_pos rfl]
      split
      · next h =>
        rw [decide_eq_true_eq] at h
        rw [eq_comm, decide_eq_true_eq]
        omega
      · rw [hrec _ _ hb (by omega) (by omega), hone]
        congr 2
        omega

/-- At or above the item SACKed highest, `IsLostRFC` reads the marks. -/
theorem isLostRFC_above {begin' : SequenceNumber32} {i : TcpTxItem} {rest : List TcpTxItem}
    (hi : i.m_sacked = false) (htop : begin'.ge b.m_highestSack.2 = true) :
    b.isLostRFC begin' (i :: rest) = (i.m_lost && !i.m_retrans) := by
  rw [TcpTxBuffer.isLostRFC, TcpTxBuffer.isLostRFC.go]
  simp [hi, htop]

/-- With no items lost and not retransmitted, `IsLostRFC` finds none above the highest SACK. -/
theorem isLostRFC_kept {begin' : SequenceNumber32} {items : List TcpTxItem} {count bytes : UInt32}
    (h : ∀ i ∈ items, i.m_sacked = false ∧ (i.m_lost && !i.m_retrans) = false) :
    TcpTxBuffer.isLostRFC.go b count bytes begin' items = false := by
  induction items generalizing begin' with
  | nil => rfl
  | cons i rest ih =>
    obtain ⟨hs, hl⟩ := h i (by simp)
    rw [TcpTxBuffer.isLostRFC.go]
    simp only [hs, Bool.false_and, Bool.false_eq_true, if_false, hl]
    rw [ih fun j hj => h j (List.mem_cons_of_mem _ hj), ite_self]

/-- With no item SACKed, no sent item that is lost and not retransmitted lies below the sequence
number 0 that then stands for the highest SACK. -/
def OverMarker (b : TcpTxBuffer) : Prop :=
  (∃ i ∈ b.m_sentList, i.m_sacked = true) ∨ (∀ i ∈ b.m_sentList, i.m_startSeq.ge ⟨0⟩ = true) ∨
    ∀ i ∈ b.m_sentList, (i.m_lost && !i.m_retrans) = false

/-- `IsLostRFC` of an item that is not SACKed and not retransmitted is its mark. -/
theorem Agreed.isLostRFC (h : Held b) (hc : Cached b) (hz : Sized b)
    (ha : Agreed b.thresh b.m_sentList) (hover : OverMarker b) {pre rest : List TcpTxItem}
    {i : TcpTxItem} (hsent : b.m_sentList = pre ++ i :: rest) (hi : i.m_sacked = false)
    (hr : i.m_retrans = false) : b.isLostRFC i.m_startSeq (i :: rest) = i.m_lost := by
  have hsmall := h.small
  have hagrees : i.Agrees b.thresh (sackCount rest) := by
    rw [hsent] at ha
    exact (agreed_of_append ha).1
  have hstart : i.m_startSeq = b.m_firstByteSeq.advance (span pre) := by
    have hs := h.starts
    rw [hsent] at hs
    exact (contiguous_append.mp hs).2.1
  have hf := h.sent_filled
  rw [hsent, filled_append] at hf
  have htop := hc.top
  rw [hsent, topSack, lastSacked_append, lastSacked_cons, hi] at htop
  rcases lastSacked_cases (lastSacked (none, ⟨0⟩) pre) rest with
    ⟨hnone, heq⟩ | ⟨m, x, m', rfl, hx, hm', heq⟩
  · -- no item above it is SACKed
    have hread : ∀ h' : i.m_startSeq.ge b.m_highestSack.2 = true,
        b.isLostRFC i.m_startSeq (i :: rest) = i.m_lost := fun h' => by
      rw [isLostRFC_above hi h', hr, Bool.not_false, Bool.and_true]
    rcases h.topSack_cases hsent with ⟨hpre, hnone'⟩ | ⟨l, y, l', hl, -, -, hpos, hy⟩
    · -- nor is one below it
      have hmark : b.m_highestSack = (none, ⟨0⟩) := by
        rw [htop]
        exact heq.trans hnone'
      have hfree : ∀ j ∈ b.m_sentList, j.m_sacked = false := by
        intro j hj
        rw [hsent, List.mem_append, List.mem_cons] at hj
        rcases hj with hj | rfl | hj
        · exact hpre j hj
        · exact hi
        · exact hnone j hj
      rcases hover with ⟨j, hj, hs⟩ | hge | hkept
      · rw [hfree j hj] at hs
        cases hs
      · exact hread (by rw [hmark]; exact hge i (by simp [hsent]))
      · have hlost := hkept i (by simp [hsent])
        rw [hr, Bool.not_false, Bool.and_true] at hlost
        rw [TcpTxBuffer.isLostRFC, hlost, if_neg (by simp [hi])]
        exact isLostRFC_kept fun j hj => ⟨hfree j (by simp [hsent]; exact .inr (by simpa using hj)),
          hkept j (by simp [hsent]; exact .inr (by simpa using hj))⟩
    · apply hread
      rw [hsent, span_append, span_cons, hl, span_append, span_cons] at hsmall
      have hval : b.m_highestSack = (some y.node, b.m_firstByteSeq.advance (span l)) := by
        rw [htop]
        exact heq.trans hy
      rw [hval, hstart, hl, span_append, span_cons,
        SequenceNumber32.ge_advance (by omega) (by omega), decide_eq_true_eq]
      omega
  · -- it lies below the item SACKed highest
    have hxs := h.starts
    rw [hsent, ← List.cons_append, ← List.append_assoc] at hxs
    obtain ⟨-, hxs, -⟩ := contiguous_append.mp hxs
    have hxa := ha
    rw [hsent, ← List.cons_append, ← List.append_assoc] at hxa
    have hxk := ((agreed_of_append hxa).1.sacked hx).2
    rw [hsent, span_append, span_cons, span_append, span_cons] at hsmall
    have hfm := filled_append.mp (filled_cons.mp hf.2).2
    rw [TcpTxBuffer.isLostRFC, if_neg (by simp [hi]), hstart, ← List.cons_append, isLostRFC_below hz ?_ hx hxk ?_ ?_ ?_ ?_
      ?_ ?_]
    · rw [sackCount_append, sackCount_cons, hx, sackCount_none hm'] at hagrees
      rw [sackCount_cons, hi, Bool.eq_iff_iff, decide_eq_true_eq]
      simp only [Bool.false_eq_true, if_false, if_true, UInt32.toNat_zero] at hagrees ⊢
      constructor
      · intro hle
        exact hagrees.lost hi (by omega)
      · intro hl
        have := hagrees.enough hi hr hl (by omega)
        omega
    · rw [span_append, span_cons] at hxs
      rw [htop, span_cons]
      exact (congrArg Prod.snd heq).trans hxs
    · exact filled_cons.mpr ⟨(filled_cons.mp hf.2).1, hfm.1⟩
    · intro j hj
      refine hz.le j ?_
      rw [hsent]
      simp only [List.mem_append, List.mem_cons] at hj ⊢
      grind
    · rw [span_cons]
      omega
    · exact Nat.zero_le _
    · rw [span_cons, UInt32.toNat_zero]
      omega
    · rw [span_cons, UInt32.toNat_zero]
      omega

/-- What `BytesInFlightRFC` counts. -/
theorem Agreed.bytesInFlightRFC (h : Held b) (hc : Cached b) (hz : Sized b)
    (ha : Agreed b.thresh b.m_sentList) (hover : OverMarker b) :
    b.bytesInFlightRFC = UInt32.ofNat
      (share TcpTxItem.inPipe b.m_sentList) := by
  have hgo : ∀ l pre, b.m_sentList = pre ++ l →
      TcpTxBuffer.bytesInFlightRFC.go b (b.m_firstByteSeq.advance (span pre)) l =
        UInt32.ofNat (share TcpTxItem.inPipe l) := by
    intro l
    induction l with
    | nil => intro pre _; rfl
    | cons i rest ih =>
      intro pre hsent
      have hs := h.starts
      rw [hsent] at hs
      have hstart : i.m_startSeq = b.m_firstByteSeq.advance (span pre) := (contiguous_append.mp hs).2.1
      have hnext : (b.m_firstByteSeq.advance (span pre)).add i.getSize =
          b.m_firstByteSeq.advance (span (pre ++ [i])) := by
        rw [span_append, span_cons, span_nil, Nat.add_zero, ← SequenceNumber32.advance_advance]
        rfl
      have hcond : (!i.m_sacked && (!b.isLostRFC (b.m_firstByteSeq.advance (span pre)) (i :: rest) ||
          i.m_retrans)) = i.inPipe := by
        rw [TcpTxItem.inPipe]
        cases hi : i.m_sacked with
        | true => rfl
        | false =>
          cases hr : i.m_retrans with
          | true => rw [Bool.or_true, Bool.or_true]
          | false => rw [← hstart, ha.isLostRFC h hc hz hover hsent hi hr]
      rw [TcpTxBuffer.bytesInFlightRFC.go, hcond, hnext, ih (pre ++ [i]) (by rw [hsent]; simp),
        share_cons, UInt32.ofNat_add]
      split
      · rfl
      · rfl
  have := hgo b.m_sentList [] rfl
  rwa [span_nil, SequenceNumber32.advance_zero] at this

/-- The two sums agree when the marks do. -/
theorem Agreed.bytesInFlight (h : Held b) (hn : Counted b) (hc : Cached b) (hz : Sized b)
    (ha : Agreed b.thresh b.m_sentList) (hover : OverMarker b) :
    b.bytesInFlight = b.bytesInFlightRFC := by
  have hshare := congrArg UInt32.ofNat ha.share_eq
  rw [UInt32.ofNat_add, UInt32.ofNat_add, UInt32.ofNat_add] at hshare
  rw [ha.bytesInFlightRFC h hc hz hover, TcpTxBuffer.bytesInFlight, h.sentSize, hn.sacked, hn.lost,
    hn.retrans]
  grind

end Lost

/-! ### NextSeg -/

namespace TcpTxBuffer

/-- The loop of `NextSeg` at an item. -/
theorem nextLost_cons (isRecovery : Bool) (saved : Option SequenceNumber32) (i : TcpTxItem)
    (rest : List TcpTxItem) :
    (i.m_sacked = false ∧ i.m_retrans = false ∧ i.m_lost = true ∧
        nextLost isRecovery i.m_startSeq saved (i :: rest) = .inl i.m_startSeq) ∨
      ∃ saved', (saved' = saved ∨ i.m_lost = false ∧ saved' = some i.m_startSeq) ∧
        nextLost isRecovery i.m_startSeq saved (i :: rest) =
          nextLost isRecovery i.stop saved' rest := by
  rw [nextLost]
  split
  · next hfree =>
    rw [Bool.and_eq_true, Bool.not_eq_true', Bool.not_eq_true'] at hfree
    split
    · next hl => exact .inl ⟨hfree.2, hfree.1, hl, rfl⟩
    · next hl =>
      right
      split
      · exact ⟨_, .inr ⟨by simpa using hl, rfl⟩, rfl⟩
      · exact ⟨_, .inl rfl, rfl⟩
  · exact .inr ⟨_, .inl rfl, rfl⟩

/-- The loop of `NextSeg` on items one after the other: it finds a lost one, or saves one that is
not lost. -/
theorem nextLost_cases (isRecovery : Bool) {s : SequenceNumber32} (saved : Option SequenceNumber32)
    {items : List TcpTxItem} (hc : Contiguous s items) :
    (∃ pre i rest, items = pre ++ i :: rest ∧ i.m_sacked = false ∧ i.m_retrans = false ∧
        i.m_lost = true ∧ nextLost isRecovery s saved items = .inl (s.advance (span pre))) ∨
      nextLost isRecovery s saved items = .inr saved ∨
      ∃ i ∈ items, i.m_lost = false ∧
        nextLost isRecovery s saved items = .inr (some i.m_startSeq) := by
  induction items generalizing s saved with
  | nil => exact .inr (.inl rfl)
  | cons i rest ih =>
    obtain ⟨rfl, hrest⟩ := contiguous_cons.mp hc
    rcases nextLost_cons isRecovery saved i rest with ⟨hs, hr, hl, heq⟩ | ⟨saved', hsaved, heq⟩
    · refine .inl ⟨[], i, rest, rfl, hs, hr, hl, ?_⟩
      rw [heq, span_nil, SequenceNumber32.advance_zero]
    · rw [heq]
      rcases ih saved' hrest with
        ⟨pre, j, l, rfl, hs, hr, hl, hj⟩ | hsame | ⟨j, hj, hl, hsome⟩
      · refine .inl ⟨i :: pre, j, l, rfl, hs, hr, hl, ?_⟩
        rw [span_cons, ← SequenceNumber32.advance_advance]
        exact hj
      · right
        rcases hsaved with rfl | ⟨hl, rfl⟩
        · exact .inl hsame
        · exact .inr ⟨i, by simp, hl, hsame⟩
      · exact .inr (.inr ⟨j, List.mem_cons_of_mem _ hj, hl, hsome⟩)

end TcpTxBuffer

/-- What `NextSeg` returns when no item that is not lost starts there: the first item lost, or
the first byte not sent, and not more than a segment. -/
theorem Held.nextSeg {b : TcpTxBuffer} (h : Held b) {rWnd numBytes : UInt32} {isRecovery : Bool}
    {seq : SequenceNumber32} (hseg : b.nextSeg rWnd isRecovery = some (seq, seq.add numBytes))
    (hlost : ∀ i ∈ b.m_sentList, i.m_startSeq = seq → i.m_lost = true) :
    numBytes ≤ b.m_segmentSize ∧ (seq = b.sentEnd ∨
      ∃ pre i rest, b.m_sentList = pre ++ i :: rest ∧ i.m_sacked = false ∧ i.m_retrans = false ∧
        i.m_lost = true ∧ seq = b.m_firstByteSeq.advance (span pre)) := by
  have hadd : ∀ {n : UInt32}, seq.add n = seq.add numBytes → numBytes = n := by
    intro n heq
    have hval := congrArg SequenceNumber32.m_value heq
    simp only [SequenceNumber32.add] at hval
    grind
  have hnew : ∀ saved : Option SequenceNumber32,
      (∀ seq', saved = some seq' → ∃ i ∈ b.m_sentList, i.m_lost = false ∧ i.m_startSeq = seq') →
      (if 0 < b.sizeFromSequence b.sentEnd then
        if b.m_sentSize ≤ rWnd then
          some (b.sentEnd, b.sentEnd.add (min b.m_segmentSize (rWnd - b.m_sentSize)))
        else none
      else saved.map fun seq => (seq, seq.add b.m_segmentSize)) = some (seq, seq.add numBytes) →
      numBytes ≤ b.m_segmentSize ∧ seq = b.sentEnd := by
    intro saved hsaved heq
    split at heq
    · split at heq
      · obtain ⟨rfl, hn⟩ := Prod.mk.inj (Option.some.inj heq)
        rw [hadd hn]
        exact ⟨min_le_left _ _, rfl⟩
      · cases heq
    · obtain ⟨seq', hseq, heq'⟩ := Option.map_eq_some_iff.mp heq
      obtain ⟨rfl, -⟩ := Prod.mk.inj heq'
      obtain ⟨i, hi, hl, hstart⟩ := hsaved seq' hseq
      rw [hlost i hi hstart] at hl
      cases hl
  rw [TcpTxBuffer.nextSeg] at hseg
  rcases TcpTxBuffer.nextLost_cases isRecovery none h.starts with
    ⟨pre, i, rest, hsent, hs, hr, hl, heq⟩ | heq | ⟨i, hi, hl, heq⟩
  · rw [heq] at hseg
    obtain ⟨rfl, hn⟩ := Prod.mk.inj (Option.some.inj hseg)
    rw [hadd hn]
    exact ⟨UInt32.le_refl _, .inr ⟨pre, i, rest, hsent, hs, hr, hl, rfl⟩⟩
  · rw [heq] at hseg
    obtain ⟨hle, hend⟩ := hnew none (by simp) hseg
    exact ⟨hle, .inl hend⟩
  · rw [heq] at hseg
    obtain ⟨hle, hend⟩ := hnew (some i.m_startSeq) (fun seq' hs => ⟨i, hi, hl, by simpa using hs⟩) hseg
    exact ⟨hle, .inl hend⟩

/-! ### The calls -/

/-- An item lost that is neither SACKed nor retransmitted has `t` SACKed above it, or none. -/
def Founded (t : Nat) (items : List TcpTxItem) : Prop :=
  ∀ pre i rest, items = pre ++ i :: rest → i.m_sacked = false → i.m_retrans = false →
    i.m_lost = true → 0 < sackCount rest → t ≤ sackCount rest

/-- The items after all blocks. -/
def sackList (items : List TcpTxItem) (list : List SackBlock) : List TcpTxItem :=
  list.foldl (fun items block => sackAll block items) items

/-- No block SACKs an item anew that was retransmitted. -/
def FirstSent : List TcpTxItem → List SackBlock → Prop
  | _, [] => True
  | items, block :: list => (∀ i ∈ fresh block items, i.m_retrans = false) ∧
      FirstSent (sackAll block items) list

namespace TxCall

/-- The calls of a sender with SACK enabled: what is copied is a range that `NextSeg` returns. -/
def OfSender (b : TcpTxBuffer) : TxCall → Prop
  | add p => b.held + p.length < 2 ^ 31
  | copyFromSequence numBytes seq =>
      ∃ rWnd isRecovery, b.nextSeg rWnd isRecovery = some (seq, seq.add numBytes)
  | discardUpTo _ | update _ | markHeadAsLost | setSentListLost _ => True
  | _ => False

/-- The call leaves the two sums in step. What is copied does not start with an item that is not
lost; the new head is not SACKed; no SACK block lies behind what was sent, covers the head, SACKs
an item that was retransmitted, or, last of its items, the one directly below the highest; and
an item that is lost and not retransmitted, after SACK blocks or when the head or all items are
taken for lost, has enough SACKed above it, or none. -/
def InStep (b : TcpTxBuffer) : TxCall → Prop
  | copyFromSequence _ seq => ∀ i ∈ b.m_sentList, i.m_startSeq = seq → i.m_lost = true
  | discardUpTo seq => ∀ i ∈ b.m_sentList, b.Meets 1 seq i → i.m_sacked = false
  | update list => (∀ block ∈ list, b.sentEnd.lt block.first = false) ∧
      (update list).Accounted b ∧ b.RisesAll b.m_sentList list ∧ FirstSent b.m_sentList list ∧
      Founded b.thresh (sackList b.m_sentList list)
  | markHeadAsLost => 0 < sackCount b.m_sentList → b.thresh ≤ sackCount b.m_sentList
  | setSentListLost resetSack => resetSack = false →
      ∀ pre i rest, b.m_sentList = pre ++ i :: rest → i.m_sacked = false → 0 < sackCount rest →
        b.thresh ≤ sackCount rest
  | _ => True

end TxCall

section Step

variable {t : Nat} {b b' : TcpTxBuffer}

/-- Items merged that are lost and not SACKed agree as their parts do. -/
theorem takeOut_agreed (retrans : UInt32) (node : Nat) {pre mid post : List TcpTxItem}
    {item : TcpTxItem} {k n : Nat} (hends : Ends item mid k n)
    (hitem : item.m_sacked = false ∧ item.m_lost = true)
    (hmid : ∀ j ∈ mid, j.m_sacked = false ∧ j.m_lost = true)
    (h : Agreed t (pre ++ item :: (mid ++ post))) :
    Agreed t (takeOut pre item mid post k n retrans node).list ∧
      (takeOut pre item mid post k n retrans node).outItem.m_sacked = false ∧
      (takeOut pre item mid post k n retrans node).outItem.m_lost = true := by
  refine takeOut_rule (P := fun l _ _ => Agreed t l)
    (Q := fun i => i.m_sacked = false ∧ i.m_lost = true) (fun _ _ _ h => h) (fun _ _ h => h)
    (fun _ _ _ h _ => h) ?_ ?_ hends hitem hmid h
  · intro l i l' r node k hi _ _ h
    obtain ⟨ha, hrest⟩ := agreed_of_append h
    refine agreed_congr h ?_ ⟨?_, ⟨ha.sacked, ha.retrans, ha.lost, ha.enough⟩, hrest⟩
    · simp [TcpTxItem.front, TcpTxItem.back, hi.1]
    · rw [sackCount_cons, TcpTxItem.back, hi.1, if_neg (by simp), Nat.zero_add]
      exact ⟨ha.sacked, ha.retrans, ha.lost, ha.enough⟩
  · intro l i j l' r node hi hj h
    obtain ⟨ha, hb, hrest⟩ := agreed_of_append h
    rw [sackCount_cons, hj.1, if_neg (by simp), Nat.zero_add] at ha
    refine agreed_congr h ?_ ⟨⟨?_, fun _ _ => hi.2, fun _ _ => hi.2, ?_⟩, hrest⟩
    · simp [mergeItems, hi.1, hj.1]
    · intro hs
      rw [mergeItems, hi.1] at hs
      cases hs
    · intro _ hr _ hpos
      -- one of the two was not retransmitted
      rw [mergeItems, Bool.and_eq_false_iff] at hr
      rcases hr with hr | hr
      · exact ha.enough hi.1 hr hi.2 hpos
      · exact hb.enough hj.1 hr hj.2 hpos

/-- A lost item may be retransmitted. -/
theorem Agreed.retransmit {l l' : List TcpTxItem} {i : TcpTxItem} (h : Agreed t (l ++ i :: l'))
    (hi : i.m_sacked = false) (hl : i.m_lost = true) :
    Agreed t (l ++ { i with m_retrans := true } :: l') := by
  obtain ⟨-, hrest⟩ := agreed_of_append h
  refine agreed_congr h ?_ ⟨⟨?_, fun _ _ => hl, fun _ _ => hl, ?_⟩, hrest⟩
  · simp
  · intro hs
    rw [hi] at hs
    cases hs
  · intro _ hr
    cases hr

/-- Items not marked may follow. -/
theorem Agreed.concat {l : List TcpTxItem} {i : TcpTxItem} (ht : 0 < t) (h : Agreed t l)
    (hi : i.Clean) : Agreed t (l ++ [i]) := by
  have hcount : sackCount [i] = sackCount [] := by simp [hi.1]
  have h' : Agreed t (l ++ []) := by
    rw [List.append_nil]
    exact h
  exact agreed_congr h' hcount ⟨hi.agrees ht, trivial⟩

/-- The items that follow a SACK sender's state: their marks agree, and none is larger than a
segment. -/
structure Paced (b : TcpTxBuffer) : Prop where
  agreed : Agreed b.thresh b.m_sentList
  le : ∀ i ∈ b.m_sentList, i.m_packet.length ≤ b.m_segmentSize.toNat

theorem TcpTxBuffer.thresh_pos (b : TcpTxBuffer) : 0 < b.thresh :=
  Nat.le_max_left 1 _

/-- Copying a range that `NextSeg` returned leaves the sums in step. -/
theorem Paced.copied (h : Held b) (hn : Counted b) (hp : Paced b) {off n : Nat}
    {r : TcpTxItem × TcpTxBuffer} {numBytes : UInt32} (hr : Copied b off n r)
    (hle : n ≤ numBytes.toNat)
    (hdom : (TxCall.copyFromSequence numBytes (b.m_firstByteSeq.advance off)).OfSender b)
    (hstep : (TxCall.copyFromSequence numBytes (b.m_firstByteSeq.advance off)).InStep b) :
    Paced r.2 := by
  have hsmall := h.small
  obtain ⟨rWnd, isRecovery, hseg⟩ := hdom
  obtain ⟨hnum, hwhere⟩ := h.nextSeg hseg hstep
  rw [UInt32.le_iff_toNat_le] at hnum
  cases hr with
  | @resent pre mid post item hsent hpre hin hends =>
    have hstart := hends.start
    have hpos := hends.pos
    have hlim := limitAt_le (off - span pre) item (mid ++ post) n
    obtain ⟨hitem, hzero⟩ : (item.m_sacked = false ∧ item.m_lost = true) ∧ off - span pre = 0 := by
      rcases hwhere with hend | ⟨pre', i, rest, hsent', hs, -, hl, hseq⟩
      · rw [h.sentEnd, SequenceNumber32.advance_inj (by omega) (by omega)] at hend
        omega
      · have hspan : span b.m_sentList = span pre' + (i.m_packet.length + span rest) := by
          rw [hsent', span_append, span_cons]
        have hfi := h.sent_filled
        rw [hsent', filled_append, filled_cons] at hfi
        rw [SequenceNumber32.advance_inj (by omega) (by omega)] at hseq
        obtain ⟨rfl, rfl, -⟩ := split_unique (hsent.symm.trans hsent') hpre (by omega)
          (Nat.le_of_eq hseq.symm) (by omega)
        exact ⟨⟨hs, hl⟩, by omega⟩
    have hmid : ∀ j ∈ mid, j.m_sacked = false ∧ j.m_lost = true := by
      intro j hj
      obtain ⟨h1, h2⟩ := limited_mid hends hzero j hj
      exact ⟨h1, h2.trans hitem.2⟩
    obtain ⟨hagreed, hs, hl⟩ := takeOut_agreed b.m_retrans b.nextNode hends hitem hmid
      (hsent ▸ hp.agreed)
    have hsize := takeOut_le b.m_retrans b.nextNode b.m_segmentSize.toNat hends (by omega)
      (hsent ▸ hp.le)
    generalize takeOut pre item mid post (off - span pre) _ b.m_retrans b.nextNode = f at *
    refine ⟨hagreed.retransmit hs hl, fun i hi => ?_⟩
    rw [TcpTxBuffer.resent, List.mem_append, List.mem_cons] at hi
    rcases hi with hi | rfl | hi
    · exact hsize i (by simp [Fetched.list, hi])
    · exact hsize f.outItem (by simp [Fetched.list])
    · exact hsize i (by simp [Fetched.list, hi])
  | @sentNew mid post item happ hoff hends =>
    obtain ⟨hclean, -⟩ := takeOut_clean [] b.m_retrans b.nextNode hends
      (fun j hj => hn.clean j (by rw [happ]; exact hj))
    have hlen := (takeOut_place [] post b.m_retrans b.nextNode hends).2
    generalize takeOut [] item mid post 0 n b.m_retrans b.nextNode = f at *
    have hout : f.outItem.Clean := hclean _ (by simp [Fetched.list])
    refine ⟨hp.agreed.concat b.thresh_pos hout, fun i hi => ?_⟩
    rw [TcpTxBuffer.sentNew, List.mem_append, List.mem_singleton] at hi
    rcases hi with hi | rfl
    · exact hp.le i hi
    · change f.outItem.m_packet.length ≤ b.m_segmentSize.toNat
      omega

/-! ### Update -/

/-- Items SACKed are not retransmitted or lost, and those retransmitted are lost. -/
def Sorted (items : List TcpTxItem) : Prop :=
  ∀ i ∈ items, (i.m_sacked = true → i.m_retrans = false ∧ i.m_lost = false) ∧
    (i.m_sacked = false → i.m_retrans = true → i.m_lost = true)

theorem Agreed.sorted {items : List TcpTxItem} (h : Agreed t items) : Sorted items := by
  intro i hi
  obtain ⟨pre, rest, rfl⟩ := List.append_of_mem hi
  obtain ⟨ha, -⟩ := agreed_of_append h
  exact ⟨ha.sacked, ha.retrans⟩

/-- The items after a block are those before it, or SACKed anew. -/
theorem mem_sackAll {block : SackBlock} {items : List TcpTxItem} {i : TcpTxItem}
    (hi : i ∈ sackAll block items) :
    i ∈ items ∨ ∃ j ∈ fresh block items, i = { j with m_lost := false, m_sacked := true } := by
  induction items with
  | nil => exact .inl hi
  | cons x rest ih =>
    rw [sackAll_cons] at hi
    rw [fresh_cons]
    split at hi
    · next hpass =>
      rw [if_pos hpass]
      rcases List.mem_cons.mp hi with rfl | hi
      · rw [TcpTxItem.sackBy]
        split
        · next hnew => exact .inr ⟨x, by simp, rfl⟩
        · exact .inl (by simp)
      · rcases ih hi with hi | ⟨j, hj, rfl⟩
        · exact .inl (List.mem_cons_of_mem _ hi)
        · refine .inr ⟨j, ?_, rfl⟩
          split
          · exact List.mem_cons_of_mem _ hj
          · exact hj
    · exact .inl hi

theorem Sorted.sackAll {block : SackBlock} {items : List TcpTxItem} (h : Sorted items)
    (hfirst : ∀ i ∈ fresh block items, i.m_retrans = false) : Sorted (sackAll block items) := by
  intro i hi
  rcases mem_sackAll hi with hi | ⟨j, hj, rfl⟩
  · exact h i hi
  · exact ⟨fun _ => ⟨hfirst j hj, rfl⟩, fun hs => by cases hs⟩

theorem Sorted.sackList {items : List TcpTxItem} {list : List SackBlock} (h : Sorted items)
    (hfirst : FirstSent items list) : Sorted (sackList items list) := by
  induction list generalizing items with
  | nil => exact h
  | cons block list ih => exact ih (h.sackAll hfirst.1) hfirst.2

/-- The bytes SACKed by a block are those it SACKs anew. -/
theorem share_sackAll (block : SackBlock) (items : List TcpTxItem) :
    share TcpTxItem.m_sacked (sackAll block items) =
      share TcpTxItem.m_sacked items + span (fresh block items) := by
  induction items with
  | nil => rfl
  | cons i rest ih =>
    rw [sackAll_cons, fresh_cons]
    split
    · rw [share_cons, share_cons, ih, TcpTxItem.sackBy]
      split
      · next hnew =>
        rw [Bool.and_eq_true, Bool.not_eq_true'] at hnew
        rw [hnew.2, span_cons]
        simp only [if_true, Bool.false_eq_true, if_false]
        omega
      · rw [Nat.add_assoc]
    · rfl

/-- A block that SACKs no bytes anew changes nothing. -/
theorem sackAll_none {block : SackBlock} {items : List TcpTxItem} (hf : Filled items)
    (h : span (fresh block items) = 0) : sackAll block items = items := by
  induction items with
  | nil => rfl
  | cons i rest ih =>
    obtain ⟨hi, hrest⟩ := filled_cons.mp hf
    rw [sackAll_cons]
    rw [fresh_cons] at h
    split
    · next hpass =>
      rw [if_pos hpass] at h
      by_cases hnew : (block.covers i && !i.m_sacked) = true
      · rw [if_pos hnew, span_cons] at h
        omega
      · rw [if_neg hnew] at h
        rw [TcpTxItem.sackBy, if_neg hnew, ih hrest h]
    · rfl

/-- Blocks that SACK no bytes anew change nothing. -/
theorem sackList_none {items : List TcpTxItem} {list : List SackBlock} (hf : Filled items)
    (h : share TcpTxItem.m_sacked (sackList items list) = share TcpTxItem.m_sacked items) :
    sackList items list = items := by
  have hmono : ∀ (items : List TcpTxItem) (list : List SackBlock),
      share TcpTxItem.m_sacked items ≤ share TcpTxItem.m_sacked (sackList items list) := by
    intro items list
    induction list generalizing items with
    | nil => exact Nat.le_refl _
    | cons block list ih =>
      refine Nat.le_trans ?_ (ih (sackAll block items))
      rw [share_sackAll]
      exact Nat.le_add_right _ _
  induction list generalizing items with
  | nil => rfl
  | cons block list ih =>
    have hle := hmono (sackAll block items) list
    have hall := share_sackAll block items
    change share _ (sackList (sackAll block items) list) = _ at h
    have hzero : span (fresh block items) = 0 := by omega
    have hnone := sackAll_none hf hzero
    change sackList (sackAll block items) list = items
    rw [hnone] at h ⊢
    exact ih hf h

/-- `Update` comes to all blocks that do not lie behind what was sent. -/
theorem markBlocks_eq {items : List TcpTxItem} {list : List SackBlock} (st : Sacking)
    (hc : Contiguous b.m_firstByteSeq items)
    (hin : ∀ block ∈ list, b.sentEnd.lt block.first = false) :
    (b.markBlocks st items list).1 = sackList items list ∧
      (b.markBlocks st items list).2.2 = true := by
  induction list generalizing items st with
  | nil => exact ⟨rfl, rfl⟩
  | cons block list ih =>
    rw [TcpTxBuffer.markBlocks, if_neg (by simp [hin block (by simp)])]
    have heq := markBlock_eq block st hc
    have hfr := markBlock_frames block st b.m_firstByteSeq items
    dsimp only
    rw [heq] at hfr ⊢
    exact ih _ (contiguous_eq hfr hc) fun block' hb => hin block' (List.mem_cons_of_mem _ hb)

/-! ### UpdateLostCount -/

/-- The items with those marked that have `t` SACKed above them. -/
def loseAll (t : Nat) : List TcpTxItem → List TcpTxItem
  | [] => []
  | i :: rest => (if !i.m_sacked && decide (t ≤ sackCount rest) then { i with m_lost := true }
      else i) :: loseAll t rest

theorem sackCount_loseAll (t : Nat) (l : List TcpTxItem) :
    sackCount (loseAll t l) = sackCount l := by
  induction l with
  | nil => rfl
  | cons i l ih =>
    rw [loseAll, sackCount_cons, ih, sackCount_cons]
    split
    · rfl
    · rfl

/-- Items above the one SACKed highest stay as they are. -/
theorem loseAll_append {l l' : List TcpTxItem} (ht : 0 < t) (h : ∀ i ∈ l', i.m_sacked = false) :
    loseAll t (l ++ l') = loseAll t l ++ l' := by
  induction l with
  | nil =>
    rw [List.nil_append, loseAll, List.nil_append]
    induction l' with
    | nil => rfl
    | cons i l' ih =>
      have hrest : ∀ j ∈ l', j.m_sacked = false := fun j hj => h j (List.mem_cons_of_mem _ hj)
      rw [loseAll, ih hrest, sackCount_none hrest, if_neg]
      rw [Bool.and_eq_true, decide_eq_true_eq]
      omega
  | cons i l ih =>
    rw [List.cons_append, loseAll, ih, loseAll, sackCount_append, sackCount_none h, Nat.add_zero]
    rfl

/-- The loop of `UpdateLostCount` on items the last of which is SACKed. -/
theorem markLost_eq (thresh lostOut : UInt32) {l : List TcpTxItem} {x : TcpTxItem}
    (hx : x.m_sacked = true) (hlen : l.length + 1 < 2 ^ 32) :
    (markLost thresh lostOut (l ++ [x])).1 = loseAll (max 1 thresh.toNat) (l ++ [x]) ∧
      (markLost thresh lostOut (l ++ [x])).2.1.toNat = sackCount (l ++ [x]) := by
  induction l with
  | nil =>
    rw [List.nil_append, markLost, List.foldr_cons, List.foldr_nil]
    simp [hx, loseAll]
  | cons i l ih =>
    rw [List.length_cons] at hlen
    obtain ⟨hlist, hcount⟩ := ih (by omega)
    have hle : sackCount (l ++ [x]) ≤ l.length + 1 := by
      have := List.countP_le_length (p := TcpTxItem.m_sacked) (l := l ++ [x])
      simpa [sackCount] using this
    have hpos : 0 < sackCount (l ++ [x]) := by
      rw [sackCount_append, sackCount_cons, if_pos hx]
      omega
    rw [List.cons_append, markLost, List.foldr_cons, ← markLost, loseAll, sackCount_cons]
    dsimp only
    cases hs : i.m_sacked with
    | true =>
      simp only [if_true, Bool.not_true, Bool.and_false, Bool.false_and, Bool.false_eq_true, if_false]
      refine ⟨by rw [hlist], ?_⟩
      rw [UInt32.toNat_add, hcount, UInt32.toNat_one, Nat.mod_eq_of_lt (by omega), Nat.add_comm]
    | false =>
      have hcond : decide (max 1 thresh.toNat ≤ sackCount (l ++ [x])) =
          decide (thresh ≤ (markLost thresh lostOut (l ++ [x])).2.1) := by
        rw [Bool.eq_iff_iff, decide_eq_true_eq, decide_eq_true_eq, UInt32.le_iff_toNat_le, hcount]
        omega
      simp only [Bool.false_eq_true, if_false, Bool.not_false, Bool.and_true, Bool.true_and, hcond,
        Nat.zero_add]
      cases hl : i.m_lost with
      | false =>
        simp only [Bool.not_false, Bool.and_true]
        split
        · exact ⟨by rw [hlist], hcount⟩
        · exact ⟨by rw [hlist], hcount⟩
      | true =>
        simp only [Bool.not_true, Bool.and_false, Bool.false_eq_true, if_false]
        refine ⟨?_, hcount⟩
        rw [hlist]
        split
        · exact congrArg (· :: _) (by rw [← hl, ← hs])
        · rfl

theorem splitAfter_last {node : Nat} {items upTo after : List TcpTxItem}
    (h : splitAfter node items = some (upTo, after)) :
    ∃ m x, upTo = m ++ [x] ∧ x.node = node := by
  induction items generalizing upTo with
  | nil => cases h
  | cons i items ih =>
    rw [splitAfter] at h
    split at h
    · next hi =>
      obtain ⟨rfl, -⟩ := Prod.mk.inj (Option.some.inj h)
      exact ⟨[], i, rfl, hi⟩
    · obtain ⟨⟨upTo', after'⟩, heq, hrest⟩ := Option.map_eq_some_iff.mp h
      obtain ⟨rfl, rfl⟩ := Prod.mk.inj hrest
      obtain ⟨m, x, rfl, hx⟩ := ih heq
      exact ⟨i :: m, x, rfl, hx⟩

/-- One item has a node. -/
theorem node_unique {pre pre' rest rest' : List TcpTxItem} {i i' : TcpTxItem}
    (hn : ((pre ++ i :: rest).map TcpTxItem.node).Nodup)
    (h : pre ++ i :: rest = pre' ++ i' :: rest') (hi : i.node = i'.node) :
    pre = pre' ∧ i = i' ∧ rest = rest' := by
  induction pre generalizing pre' with
  | nil =>
    cases pre' with
    | nil =>
      obtain ⟨rfl, rfl⟩ := List.cons.inj h
      exact ⟨rfl, rfl, rfl⟩
    | cons x pre' =>
      obtain ⟨rfl, rfl⟩ := List.cons.inj h
      simp [hi] at hn
  | cons x pre ih =>
    cases pre' with
    | nil =>
      obtain ⟨rfl, rfl⟩ := List.cons.inj h
      simp [hi] at hn
    | cons y pre' =>
      obtain ⟨rfl, htail⟩ := List.cons.inj h
      rw [List.cons_append, List.map_cons, List.nodup_cons] at hn
      obtain ⟨rfl, hrest⟩ := ih hn.2 htail
      exact ⟨rfl, hrest⟩

/-- The mark that `UpdateLostCount` gives to the head. -/
theorem lost_or (i : TcpTxItem) (c : Bool) :
    { i with m_lost := i.m_lost || (c && !i.m_lost) } =
      if c then { i with m_lost := true } else i := by
  obtain ⟨node, start, packet, lost, sacked, retrans⟩ := i
  cases lost with
  | true =>
    cases c with
    | true => rfl
    | false => rfl
  | false =>
    cases c with
    | true => rfl
    | false => rfl

/-- `UpdateLostCount` from the item SACKed highest. -/
theorem Held.updateLostCount (h : Held b) (hf : HeadFree b) (hc : Cached b) (hn : b.OwnNodes)
    (hrun : b.updateLostCount = some b') :
    b'.m_sentList = loseAll b.thresh b.m_sentList ∧ b'.m_dupAckThresh = b.m_dupAckThresh ∧
      b'.m_segmentSize = b.m_segmentSize := by
  have hsmall := h.small
  rw [TcpTxBuffer.updateLostCount] at hrun
  split at hrun
  · next head items after heq =>
    obtain ⟨node, hnode, hsplit⟩ := Option.bind_eq_some_iff.mp heq
    have hsent := splitAfter_append hsplit
    obtain ⟨m, x, hupTo, hx⟩ := splitAfter_last hsplit
    -- the walk starts from the item SACKed highest
    rcases lastSacked_cases (none, ⟨0⟩) b.m_sentList with
      ⟨-, hnone⟩ | ⟨pre, y, post, hl, hy, hpost, htop⟩
    · rw [hc.top, topSack, hnone] at hnode
      cases hnode
    · rw [hc.top, topSack, htop] at hnode
      have hnodup := hn.nodup
      rw [List.map_append, List.nodup_append] at hnodup
      have hsame : m ++ x :: after = pre ++ y :: post := by
        rw [← hl, ← hsent, hupTo, List.append_assoc]
        rfl
      obtain ⟨rfl, rfl, rfl⟩ := node_unique (by rw [hsame, ← hl]; exact hnodup.1) hsame
        (hx.trans (Option.some.inj hnode).symm)
      have hhead : head.m_sacked = false := by
        rw [HeadFree, ← hsent] at hf
        exact hf head rfl
      obtain ⟨m, rfl⟩ : ∃ l, m = head :: l := by
        cases m with
        | nil =>
          obtain ⟨rfl, -⟩ := List.cons.inj hupTo
          rw [hhead] at hy
          cases hy
        | cons z m =>
          obtain ⟨rfl, -⟩ := List.cons.inj hupTo
          exact ⟨m, rfl⟩
      obtain ⟨-, rfl⟩ := List.cons.inj hupTo
      have hlen : m.length + 1 < 2 ^ 32 := by
        have hle : ∀ l : List TcpTxItem, Filled l → l.length ≤ span l := by
          intro l hl
          induction l with
          | nil => exact Nat.le_refl _
          | cons i l ih =>
            obtain ⟨hi, hl⟩ := filled_cons.mp hl
            have := ih hl
            rw [List.length_cons, span_cons]
            omega
        have := hle _ h.sent_filled
        rw [hl] at this hsmall
        rw [List.length_append, List.length_cons] at this
        omega
      obtain ⟨hlist, hcount⟩ := markLost_eq b.m_dupAckThresh b.m_lostOut hy hlen
      generalize markLost b.m_dupAckThresh b.m_lostOut (m ++ [x]) = marked at hrun hlist hcount
      obtain rfl := Option.some.inj hrun
      refine ⟨?_, rfl, rfl⟩
      have hpos : 0 < sackCount (m ++ [x]) := by
        rw [sackCount_append, sackCount_cons, if_pos hy]
        omega
      have hcond : decide (b.m_dupAckThresh ≤ marked.2.1) =
          decide (b.thresh ≤ sackCount (m ++ [x])) := by
        rw [Bool.eq_iff_iff, decide_eq_true_eq, decide_eq_true_eq, UInt32.le_iff_toNat_le, hcount,
          TcpTxBuffer.thresh]
        omega
      have hlose : loseAll b.thresh b.m_sentList =
          (if decide (b.thresh ≤ sackCount (m ++ [x])) then { head with m_lost := true } else head) ::
            (loseAll b.thresh (m ++ [x]) ++ after) := by
        have hall : b.m_sentList = (head :: (m ++ [x])) ++ after := by
          rw [hl]
          simp
        rw [hall, loseAll_append b.thresh_pos hpost, loseAll, hhead]
        rfl
      rw [hlose, ← lost_or]
      dsimp only
      rw [hlist, hcond]
      rfl
  · cases hrun

/-- Items marked lost that have enough SACKed above them agree with the others. -/
theorem Sorted.agreed {items : List TcpTxItem} (h : Sorted items) (hf : Founded t items) :
    Agreed t (loseAll t items) := by
  induction items with
  | nil => trivial
  | cons i rest ih =>
    have hi := h i (by simp)
    have hfi := hf [] i rest rfl
    rw [loseAll, Agreed, sackCount_loseAll]
    refine ⟨?_, ih (fun j hj => h j (List.mem_cons_of_mem _ hj)) fun pre j l heq =>
      hf (i :: pre) j l (by rw [heq]; rfl)⟩
    split
    · next hc =>
      rw [Bool.and_eq_true, Bool.not_eq_true', decide_eq_true_eq] at hc
      refine ⟨fun hs => ?_, fun _ _ => rfl, fun _ _ => rfl, fun _ _ _ _ => hc.2⟩
      rw [hc.1] at hs
      cases hs
    · next hc =>
      rw [Bool.and_eq_true, Bool.not_eq_true', decide_eq_true_eq] at hc
      exact ⟨hi.1, hi.2, fun hs hle => absurd ⟨hs, hle⟩ hc, fun hs hr hl => hfi hs hr hl⟩

/-- Lengths of items with the same frames. -/
theorem le_of_frames {l l' : List TcpTxItem} {size : Nat} (h : frames l' = frames l)
    (hl : ∀ i ∈ l, i.m_packet.length ≤ size) : ∀ i ∈ l', i.m_packet.length ≤ size := by
  intro i hi
  obtain ⟨j, hj, heq⟩ := List.mem_map.mp (h ▸ List.mem_map_of_mem hi : i.frame ∈ frames l)
  have hp : j.m_packet = i.m_packet := congrArg (fun f => f.2.2) heq
  rw [← hp]
  exact hl j hj

/-- `Update` leaves the sums in step. -/
theorem Paced.update (h : Held b) (hf : HeadFree b) (hc : Cached b) (ho : b.OwnNodes)
    (hp : Paced b) {list : List SackBlock} {n : UInt32}
    (hstep : (TxCall.update list).InStep b) (hrun : b.update list = some (n, b')) :
    Paced b' ∧ b'.m_dupAckThresh = b.m_dupAckThresh ∧ b'.m_segmentSize = b.m_segmentSize := by
  have hsmall := h.small
  obtain ⟨hin, hacc, hrises, hfirst, hfounded⟩ := hstep
  have hr := update_remarked hrun
  rw [TcpTxBuffer.update] at hrun
  dsimp only at hrun
  obtain ⟨hlist, hfin⟩ := markBlocks_eq
    ⟨b.m_lostOut, b.m_sackedOut, b.m_highestSack, 0⟩ h.starts hin
  have hmarks := markBlocks_marked b ⟨b.m_lostOut, b.m_sackedOut, b.m_highestSack, 0⟩ b.m_sentList
    list
  have hfr := markBlocks_frames b ⟨b.m_lostOut, b.m_sackedOut, b.m_highestSack, 0⟩ b.m_sentList list
  have hhead := markBlocks_head ⟨b.m_lostOut, b.m_sackedOut, b.m_highestSack, 0⟩ hacc
  have htop := markBlocks_top ⟨b.m_lostOut, b.m_sackedOut, b.m_highestSack, 0⟩ h.starts
    h.sent_filled (by omega) hc.top hrises
  generalize b.markBlocks ⟨b.m_lostOut, b.m_sackedOut, b.m_highestSack, 0⟩ b.m_sentList list = m
    at hrun hlist hfin hmarks hfr hhead htop
  obtain ⟨items, st, fin⟩ := m
  dsimp only at hrun hlist hfin hmarks hfr hhead htop
  subst hlist hfin
  have hle := le_of_frames hr.frames_eq hp.le
  let b₁ : TcpTxBuffer := { b with
    m_sentList := sackList b.m_sentList list
    m_lostOut := st.m_lostOut
    m_sackedOut := st.m_sackedOut
    m_highestSack := st.m_highestSack }
  have hr₁ : Remarked b b₁ := ⟨hfr, rfl, rfl, rfl, rfl, rfl⟩
  by_cases hnew : 0 < st.bytesSacked
  · rw [if_pos (by simp [hnew])] at hrun
    obtain ⟨b₂, heq, hb⟩ := Option.map_eq_some_iff.mp hrun
    obtain ⟨-, rfl⟩ := Prod.mk.inj hb
    have hf₁ : HeadFree b₁ := by
      rw [HeadFree, hhead]
      exact hf
    obtain ⟨hlose, hthr, hseg⟩ := (hr₁.held h).updateLostCount hf₁ ⟨htop, hc.free⟩
      (hr₁.ownNodes ho) heq
    refine ⟨⟨?_, by rw [hseg]; exact hle⟩, hthr, hseg⟩
    rw [hlose, TcpTxBuffer.thresh, hthr]
    exact (hp.agreed.sorted.sackList hfirst).agreed hfounded
  · rw [if_neg (by simp [hnew])] at hrun
    obtain ⟨-, rfl⟩ := Prod.mk.inj (Option.some.inj hrun)
    -- nothing is SACKed anew
    have hsame : sackList b.m_sentList list = b.m_sentList := by
      refine sackList_none h.sent_filled ?_
      have hzero : st.bytesSacked = 0 := by
        rw [← UInt32.toNat_inj]
        rw [UInt32.lt_iff_toNat_lt] at hnew
        simpa using hnew
      have h1 := hmarks.bytes
      have h2 := hmarks.sacked
      have h3 := span_eq hfr
      have h4 := share_le TcpTxItem.m_sacked (sackList b.m_sentList list)
      have h5 := share_le TcpTxItem.m_sacked b.m_sentList
      dsimp only at h1 h2
      have heq : UInt32.ofNat (share TcpTxItem.m_sacked (sackList b.m_sentList list)) =
          UInt32.ofNat (share TcpTxItem.m_sacked b.m_sentList) := by
        grind
      rw [← UInt32.toNat_inj, toNat_ofNat (by omega), toNat_ofNat (by omega)] at heq
      exact heq
    refine ⟨⟨?_, hle⟩, rfl, rfl⟩
    dsimp only
    rw [hsame]
    exact hp.agreed

/-! ### Runs -/

/-- The thresholds are those of another buffer. -/
structure SameThresh (b b' : TcpTxBuffer) : Prop where
  thresh : b'.m_dupAckThresh = b.m_dupAckThresh
  segment : b'.m_segmentSize = b.m_segmentSize

theorem Copied.sameThresh {off n : Nat} {r : TcpTxItem × TcpTxBuffer} (hr : Copied b off n r) :
    SameThresh b r.2 := by
  cases hr with
  | resent => exact ⟨rfl, rfl⟩
  | sentNew => exact ⟨rfl, rfl⟩

theorem Discard.sameThresh {o : Nat} {b b' : TcpTxBuffer} (hd : Discard o b b') :
    SameThresh b b' := by
  induction hd with
  | done => exact ⟨rfl, rfl⟩
  | part => exact ⟨rfl, rfl⟩
  | full _ _ _ ih => exact ⟨ih.thresh, ih.segment⟩
  | move _ _ _ hr _ ih =>
    have h := hr.sameThresh
    exact ⟨ih.thresh.trans h.thresh, ih.segment.trans h.segment⟩

/-- `DiscardUpTo` leaves the sums in step. -/
theorem Paced.discarded (h : Held b) (hp : Paced b) {o : Nat} {b₁ : TcpTxBuffer}
    (hd : Discard o b b₁) : Paced b₁ := by
  have hsame := hd.sameThresh
  have hthr : b₁.thresh = b.thresh := by
    rw [TcpTxBuffer.thresh, TcpTxBuffer.thresh, hsame.thresh]
  cases hsent : b₁.m_sentList with
  | nil => exact ⟨by rw [hsent]; trivial, by simp [hsent]⟩
  | cons i rest =>
    obtain ⟨pre, j, k, hsent', rfl, -, -⟩ := hd.head h i rest hsent
    have ha := hp.agreed
    rw [hsent'] at ha
    obtain ⟨hj, hrest⟩ := agreed_of_append ha
    refine ⟨?_, fun i hi => ?_⟩
    · rw [hsent, hthr]
      exact ⟨⟨hj.sacked, hj.retrans, hj.lost, hj.enough⟩, hrest⟩
    · rw [hsent] at hi
      rw [hsame.segment]
      rcases List.mem_cons.mp hi with rfl | hi
      · rw [TcpTxItem.back, List.length_drop]
        have := hp.le j (by simp [hsent'])
        omega
      · exact hp.le i (by simp [hsent', hi])

/-- `MarkHeadAsLost` leaves the sums in step. -/
theorem Paced.markHeadAsLost (hf : HeadFree b) (hp : Paced b)
    (hstep : TxCall.markHeadAsLost.InStep b) :
    Paced b.markHeadAsLost ∧ SameThresh b b.markHeadAsLost := by
  have hle := le_of_frames (markHeadAsLost_remarked b).frames_eq hp.le
  rw [TcpTxBuffer.markHeadAsLost] at hle ⊢
  split at hle
  · exact ⟨hp, rfl, rfl⟩
  · next head rest hsent =>
    have ha := hp.agreed
    have hhead : head.m_sacked = false := by
      rw [HeadFree, hsent] at hf
      exact hf head rfl
    rw [hsent] at ha
    rw [TxCall.InStep, hsent, sackCount_cons, hhead, if_neg (by simp), Nat.zero_add] at hstep
    refine ⟨⟨⟨⟨fun hs => (by cases hs), fun _ _ => rfl, fun _ _ => rfl, fun _ _ _ hpos => hstep hpos⟩,
      ha.2⟩, hle⟩, rfl, rfl⟩

/-- `SetSentListLost` leaves the sums in step. -/
theorem Paced.setSentListLost (hp : Paced b) {resetSack : Bool}
    (hstep : (TxCall.setSentListLost resetSack).InStep b) :
    Paced (b.setSentListLost resetSack) ∧ SameThresh b (b.setSentListLost resetSack) := by
  have hle := le_of_frames (setSentListLost_remarked b resetSack).frames_eq hp.le
  cases resetSack with
  | true =>
    refine ⟨⟨?_, hle⟩, rfl, rfl⟩
    change Agreed b.thresh (b.m_sentList.map _)
    have hlost : ∀ l : List TcpTxItem, (∀ i ∈ l, i.m_sacked = false ∧ i.m_lost = true) →
        Agreed b.thresh l := by
      intro l hl
      induction l with
      | nil => trivial
      | cons i l ih =>
        obtain ⟨hs, hlost⟩ := hl i (by simp)
        have hrest : ∀ j ∈ l, j.m_sacked = false ∧ j.m_lost = true :=
          fun j hj => hl j (List.mem_cons_of_mem _ hj)
        refine ⟨⟨fun h => ?_, fun _ _ => hlost, fun _ _ => hlost, fun _ _ _ hpos => ?_⟩, ih hrest⟩
        · rw [hs] at h
          cases h
        · rw [sackCount_none fun j hj => (hrest j hj).1] at hpos
          omega
    refine hlost _ fun i hi => ?_
    obtain ⟨j, -, rfl⟩ := List.mem_map.mp hi
    exact ⟨rfl, rfl⟩
  | false =>
    refine ⟨⟨?_, hle⟩, rfl, rfl⟩
    have hall := hstep rfl
    have ha := hp.agreed
    change Agreed b.thresh (b.m_sentList.map _)
    generalize b.m_sentList = l at hall ha
    induction l with
    | nil => trivial
    | cons i l ih =>
      have hcount : sackCount (l.map fun item =>
          { item with m_lost := item.m_lost || !item.m_sacked, m_retrans := false }) =
            sackCount l := by
        rw [sackCount, List.countP_map]
        rfl
      refine ⟨?_, ih (fun pre j rest heq => hall (i :: pre) j rest (by rw [heq]; rfl)) ha.2⟩
      rw [hcount]
      refine ⟨fun hs => ⟨rfl, ?_⟩, fun _ hr => (by cases hr), fun hs _ => ?_,
        fun hs _ _ hpos => hall [] i l rfl hs hpos⟩
      · change (i.m_lost || !i.m_sacked) = false
        rw [(ha.1.sacked hs).2, show i.m_sacked = true from hs]
        rfl
      · change (i.m_lost || !i.m_sacked) = true
        rw [show i.m_sacked = false from hs, Bool.not_false, Bool.or_true]

/-- A call of a sender that leaves the sums in step is in the domain of the scoreboard, and leaves
no mark unaccounted for and the highest SACKed item to `m_highestSack`. -/
theorem TxCall.OfSender.kept (h : Held b) (hf : HeadFree b) {c : TxCall} (hdom : c.OfSender b)
    (hstep : c.InStep b) : c.InDomain b ∧ c.Accounted b ∧ c.Tracked b := by
  have hsmall := h.small
  cases c with
  | add p => exact ⟨hdom, trivial, hdom⟩
  | copyFromSequence numBytes seq =>
    obtain ⟨rWnd, isRecovery, hseg⟩ := hdom
    have hoff : ∀ i ∈ b.m_sentList, ∃ pre rest, b.m_sentList = pre ++ i :: rest ∧
        b.offset i.m_startSeq = span pre := by
      intro i hi
      obtain ⟨pre, rest, hl⟩ := List.append_of_mem hi
      exact ⟨pre, rest, hl, h.offset_start hl⟩
    obtain ⟨o, ho, rfl, hwhere⟩ : ∃ o ≤ span b.m_sentList, seq = b.m_firstByteSeq.advance o ∧
        (o = span b.m_sentList ∨ ∃ pre i rest, b.m_sentList = pre ++ i :: rest ∧
          i.m_sacked = false ∧ o = span pre) := by
      rcases (h.nextSeg hseg hstep).2 with hend | ⟨pre, i, rest, hl, hs, -, -, hseq⟩
      · exact ⟨_, Nat.le_refl _, hend.trans h.sentEnd, .inl rfl⟩
      · refine ⟨span pre, ?_, hseq, .inr ⟨pre, i, rest, hl, hs, rfl⟩⟩
        rw [hl, span_append]
        exact Nat.le_add_right _ _
    have hout : ∀ n, ∀ i ∈ b.m_sentList, o = span b.m_sentList →
        ¬ b.Meets n (b.m_firstByteSeq.advance o) i := by
      intro n i hi heq hmeets
      obtain ⟨l, l', hl, hio⟩ := hoff i hi
      rw [TcpTxBuffer.Meets, hio, b.offset_advance (by omega), heq, hl, span_append,
        span_cons] at hmeets
      omega
    have hfree : ∀ i ∈ b.m_sentList, b.Meets 1 (b.m_firstByteSeq.advance o) i →
        i.m_sacked = false := by
      intro i hi hmeets
      rcases hwhere with heq | ⟨pre, j, rest, hl, hj, heq⟩
      · exact absurd hmeets (hout 1 i hi heq)
      · obtain ⟨l, l', hl', hio⟩ := hoff i hi
        rw [TcpTxBuffer.Meets, hio, b.offset_advance (by omega)] at hmeets
        have hfj := h.sent_filled
        rw [hl, filled_append, filled_cons] at hfj
        obtain ⟨-, rfl, -⟩ := split_unique (hl'.symm.trans hl) (o := o) (by omega) (by omega)
          (by omega) (by omega)
        exact hj
    have hstart : o = span b.m_sentList ∨
        ∃ i ∈ b.m_sentList, i.m_startSeq = b.m_firstByteSeq.advance o := by
      rcases hwhere with heq | ⟨pre, j, rest, hl, -, rfl⟩
      · exact .inl heq
      · have hs := h.starts
        rw [hl] at hs
        exact .inr ⟨j, by simp [hl], (contiguous_append.mp hs).2.1⟩
    have hge := SequenceNumber32.ge_advance (s := b.m_firstByteSeq) (p := o) (q := 0) (by omega)
      (by omega)
    rw [SequenceNumber32.advance_zero] at hge
    refine ⟨⟨by rw [hge]; simp, ?_, fun i hi hs hmeets => ?_⟩, ?_, ?_⟩
    · rw [h.sentEnd, SequenceNumber32.ge_advance (by omega) (by omega), decide_eq_true_eq]
      exact ho
    · rw [hfree i hi hmeets] at hs
      cases hs
    · rcases hstart with heq | hex
      · exact .inr fun i hi _ _ hmeets => absurd hmeets (hout _ i hi heq)
      · exact .inl hex
    · rcases hstart with heq | hex
      · exact .inl fun i hi hmeets => absurd hmeets (hout _ i hi heq)
      · exact .inr ⟨hex, hfree⟩
  | discardUpTo seq =>
    refine ⟨trivial, fun pre i rest hl hmeets hs => ?_, hstep⟩
    rw [hstep i (by simp [hl]) hmeets] at hs
    cases hs
  | update list => exact ⟨trivial, hstep.2.1, hstep.2.2.1⟩
  | markHeadAsLost =>
    refine ⟨trivial, trivial, fun head rest hl hs => ?_⟩
    rw [HeadFree, hl] at hf
    rw [hf head rfl] at hs
    cases hs
  | setSentListLost resetSack => exact ⟨trivial, trivial, trivial⟩
  | addRenoSack => exact hdom.elim
  | resetRenoSack => exact hdom.elim
  | deleteRetransmittedFlagFromHead => exact hdom.elim
  | resetSentList => exact hdom.elim
  | resetLastSegmentSent => exact hdom.elim

/-- A call of a sender leaves the sums in step. -/
theorem Paced.step (h : Held b) (hn : Counted b) (hf : HeadFree b) (hc : Cached b)
    (ho : b.OwnNodes) (hp : Paced b) {c : TxCall} (hdom : c.OfSender b) (hstep : c.InStep b)
    (hrun : c.run b = some b') : Paced b' ∧ SameThresh b b' := by
  cases c with
  | add p =>
    obtain rfl := Option.some.inj hrun
    rw [TcpTxBuffer.add]
    split
    · split
      · exact ⟨⟨hp.agreed, hp.le⟩, rfl, rfl⟩
      · exact ⟨hp, rfl, rfl⟩
    · exact ⟨hp, rfl, rfl⟩
  | copyFromSequence numBytes seq =>
    obtain ⟨r, heq, rfl⟩ := Option.map_eq_some_iff.mp hrun
    rcases h.copy_cases numBytes seq with hnone | hnull | ⟨off, n, r', rfl, -, hle, hsome, hr⟩
    · rw [hnone] at heq
      cases heq
    · rw [hnull] at heq
      obtain rfl := Option.some.inj heq
      exact ⟨hp, rfl, rfl⟩
    · rw [hsome] at heq
      obtain rfl := Option.some.inj heq
      exact ⟨hp.copied h hn hr hle hdom hstep, hr.sameThresh⟩
  | discardUpTo seq =>
    by_cases hge : b.m_firstByteSeq.ge seq = true
    · change b.discardUpTo seq = _ at hrun
      rw [TcpTxBuffer.discardUpTo, if_pos hge] at hrun
      obtain rfl := Option.some.inj hrun
      exact ⟨hp, rfl, rfl⟩
    rw [Bool.not_eq_true] at hge
    obtain ⟨o, ho, rfl⟩ := b.m_firstByteSeq.exists_advance seq
    obtain ⟨b₁, hd, -, heq⟩ := h.discardUpTo_free ho hge hstep
    obtain rfl := Option.some.inj (heq.symm.trans hrun)
    have hp₁ := hp.discarded h hd
    have hsame := hd.sameThresh
    exact ⟨⟨hp₁.agreed, hp₁.le⟩, hsame.thresh, hsame.segment⟩
  | update list =>
    obtain ⟨⟨n, b₁⟩, heq, rfl⟩ := Option.map_eq_some_iff.mp hrun
    obtain ⟨hp', hthr, hseg⟩ := hp.update h hf hc ho hstep heq
    exact ⟨hp', hthr, hseg⟩
  | markHeadAsLost =>
    obtain rfl := Option.some.inj hrun
    exact hp.markHeadAsLost hf hstep
  | setSentListLost resetSack =>
    obtain rfl := Option.some.inj hrun
    exact hp.setSentListLost hstep
  | addRenoSack => exact hdom.elim
  | resetRenoSack => exact hdom.elim
  | deleteRetransmittedFlagFromHead => exact hdom.elim
  | resetSentList => exact hdom.elim
  | resetLastSegmentSent => exact hdom.elim

end Step

/-- The thresholds of `IsLostRFC` do not wrap, and no sent item that is lost lies below the
sequence number that stands for no SACK. -/
structure Measured (b : TcpTxBuffer) : Prop where
  fits : (b.m_dupAckThresh.toNat - 1) * b.m_segmentSize.toNat < 2 ^ 32
  marker : OverMarker b

end Ns3.Tcp
