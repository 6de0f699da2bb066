import Ns3.Tcp.TxItems
import Ns3.Lib.Word

/-!
# Copying out of the send buffer

A send buffer whose items lie one after the other from `m_firstByteSeq` on, fewer than half the
sequence space of them, and what `CopyFromSequence` returns for an offset from the head.
-/

namespace Ns3.Tcp

open Ns3.Network Ns3.Lib

/-- The items are not empty and lie one after the other, and the sizes are theirs. -/
structure Held (b : TcpTxBuffer) : Prop where
  sent_filled : Filled b.m_sentList
  app_filled : Filled b.m_appList
  sentSize : b.m_sentSize = UInt32.ofNat (span b.m_sentList)
  size : b.m_size = UInt32.ofNat (span b.m_sentList + span b.m_appList)
  small : span b.m_sentList + span b.m_appList < 2 ^ 31
  starts : Contiguous b.m_firstByteSeq b.m_sentList

/-- An empty buffer is laid out. -/
theorem TcpTxBuffer.Empty.held {b : TcpTxBuffer} (h : b.Empty) : Held b where
  sent_filled := h.sentList ▸ filled_nil
  app_filled := h.appList ▸ filled_nil
  sentSize := by rw [h.sentSize, h.sentList]; rfl
  size := by rw [h.size, h.sentList, h.appList]; rfl
  small := by rw [h.sentList, h.appList, span_nil]; omega
  starts := h.sentList ▸ trivial

namespace TcpTxBuffer

/-- The bytes of the buffer, those sent first. -/
def contents (b : TcpTxBuffer) : Payload := bytes b.m_sentList ++ bytes b.m_appList

/-- The number of bytes of the buffer. -/
def held (b : TcpTxBuffer) : Nat := span b.m_sentList + span b.m_appList

/-- The buffer with a segment taken out of `m_sentList` retransmitted. -/
def resent (b : TcpTxBuffer) (f : Fetched) : TcpTxItem × TcpTxBuffer :=
  let item := { f.outItem with m_retrans := true }
  (item, { b with
    m_sentList := f.before ++ item :: f.after
    m_retrans := if f.outItem.m_retrans then f.m_retrans else f.m_retrans + item.getSize
    nextNode := f.nextNode })

/-- The buffer with a segment taken out of `m_appList` sent. -/
def sentNew (b : TcpTxBuffer) (f : Fetched) : TcpTxItem × TcpTxBuffer :=
  let item := { f.outItem with m_startSeq := b.sentEnd }
  (item, { b with
    m_appList := f.before ++ f.after
    m_sentList := b.m_sentList ++ [item]
    m_sentSize := b.m_sentSize + item.getSize
    m_retrans := f.m_retrans
    nextNode := f.nextNode })

end TcpTxBuffer

theorem toNat_getSize {item : TcpTxItem} (h : item.m_packet.length < 2 ^ 31) :
    item.getSize.toNat = item.m_packet.length :=
  toNat_ofNat h

/-! ### Where a transmitted block is cut -/

/-- How much of a block of `n` bytes that starts `k` bytes into `item` is retransmitted at once:
from the first byte of an item on, not more than it and the next one when their marks agree. -/
def limitAt (k : Nat) (item : TcpTxItem) (rest : List TcpTxItem) (n : Nat) : Nat :=
  if k = 0 then
    match rest with
    | next :: _ =>
      if !next.m_sacked && item.m_lost == next.m_lost then
        min n (item.m_packet.length + next.m_packet.length)
      else min n item.m_packet.length
    | [] => min n item.m_packet.length
  else n

theorem limitAt_le (k : Nat) (item : TcpTxItem) (rest : List TcpTxItem) (n : Nat) :
    limitAt k item rest n ≤ n := by
  unfold limitAt
  split
  · split
    · split
      · exact Nat.min_le_left _ _
      · exact Nat.min_le_left _ _
    · exact Nat.min_le_left _ _
  · exact Nat.le_refl _

theorem limitAt_pos {k n : Nat} {item : TcpTxItem} (rest : List TcpTxItem) (hn : 0 < n)
    (hk : k < item.m_packet.length) : 0 < limitAt k item rest n := by
  unfold limitAt
  split
  · split
    · split
      · omega
      · omega
    · omega
  · exact hn

/-- Items that do not start at `seq` are passed. -/
theorem mergeLimit_skip (s : UInt32) (seq : SequenceNumber32) (pre : List TcpTxItem)
    (hpre : ∀ i ∈ pre, i.m_startSeq ≠ seq) (rest : List TcpTxItem) :
    mergeLimit s seq (pre ++ rest) = mergeLimit s seq rest := by
  induction pre with
  | nil => rfl
  | cons i pre ih =>
    rw [List.cons_append, mergeLimit.eq_def]
    dsimp only
    rw [if_neg (by simpa using hpre i (by simp))]
    exact ih fun j hj => hpre j (List.mem_cons_of_mem _ hj)

/-- An item before a place starts there only if it is the one at it. -/
private theorem start_ne {s : SequenceNumber32} {l : List TcpTxItem} {off : Nat}
    (hc : Contiguous s l) (hf : Filled l) (hspan : span l ≤ off) (hoff : off < 2 ^ 31) :
    ∀ i ∈ l, i.m_startSeq ≠ s.advance off := by
  intro i hi
  obtain ⟨l₁, l₂, rfl⟩ := List.append_of_mem hi
  obtain ⟨-, hstart, -⟩ := contiguous_append.mp hc
  have hpos := (filled_cons.mp (filled_append.mp hf).2).1
  rw [span_append, span_cons] at hspan
  rw [hstart, Ne, SequenceNumber32.advance_inj (by omega) (by omega)]
  omega

/-- An item behind a place does not start there. -/
private theorem start_ne_behind {s : SequenceNumber32} {l : List TcpTxItem} {p off : Nat}
    (hc : Contiguous (s.advance p) l) (hlt : off < p) (hspan : p + span l < 2 ^ 31) :
    ∀ i ∈ l, i.m_startSeq ≠ s.advance off := by
  intro i hi
  obtain ⟨l₁, l₂, rfl⟩ := List.append_of_mem hi
  obtain ⟨-, hstart, -⟩ := contiguous_append.mp hc
  rw [span_append] at hspan
  rw [hstart, SequenceNumber32.advance_advance, Ne,
    SequenceNumber32.advance_inj (by omega) (by omega)]
  omega

/-- Among items that lie one after the other, one starts at a place only if the one that holds
the byte there does. -/
theorem eq_of_start {s : SequenceNumber32} {pre rest : List TcpTxItem} {item i : TcpTxItem}
    {off : Nat} (hc : Contiguous s (pre ++ item :: rest)) (hf : Filled (pre ++ item :: rest))
    (hspan : span (pre ++ item :: rest) < 2 ^ 31) (hpre : span pre ≤ off)
    (hoff : off < span pre + item.m_packet.length) (hi : i ∈ pre ++ item :: rest)
    (hstart : i.m_startSeq = s.advance off) : off = span pre := by
  obtain ⟨hc₁, hitem, hc₂⟩ := contiguous_append.mp hc
  obtain ⟨hf₁, -⟩ := filled_append.mp hf
  rw [span_append, span_cons] at hspan
  rcases List.mem_append.mp hi with hi | hi
  · exact absurd hstart (start_ne hc₁ hf₁ hpre (by omega) i hi)
  · rcases List.mem_cons.mp hi with rfl | hi
    · rw [hitem, SequenceNumber32.advance_inj (by omega) (by omega)] at hstart
      exact hstart.symm
    · rw [SequenceNumber32.advance_advance] at hc₂
      exact absurd hstart (start_ne_behind hc₂ hoff (by omega) i hi)

/-- `mergeLimit` at the item that holds the first byte of the block. -/
theorem mergeLimit_eq {s : SequenceNumber32} {pre rest : List TcpTxItem} {item : TcpTxItem}
    {off n : Nat} (hc : Contiguous s (pre ++ item :: rest)) (hf : Filled (pre ++ item :: rest))
    (hspan : span (pre ++ item :: rest) < 2 ^ 31) (hpre : span pre ≤ off)
    (hoff : off < span pre + item.m_packet.length) (hn : n < 2 ^ 31) :
    mergeLimit (UInt32.ofNat n) (s.advance off) (pre ++ item :: rest) =
      UInt32.ofNat (limitAt (off - span pre) item rest n) := by
  obtain ⟨hc₁, hstart, hc₂⟩ := contiguous_append.mp hc
  obtain ⟨hf₁, hf₂⟩ := filled_append.mp hf
  rw [span_append, span_cons] at hspan
  have hmin : ∀ m : Nat, m < 2 ^ 31 →
      min (UInt32.ofNat n) (UInt32.ofNat m) = UInt32.ofNat (min n m) := by
    intro m hm
    rw [min_ofNat _ (by omega), toNat_ofNat hn]
  rw [mergeLimit_skip _ _ _ (start_ne hc₁ hf₁ hpre (by omega)), limitAt.eq_def]
  by_cases hk : off - span pre = 0
  · have heq : off = span pre := by omega
    rw [if_pos hk, mergeLimit.eq_def, heq]
    dsimp only
    rw [if_pos (by simpa using hstart)]
    cases rest with
    | nil => exact hmin _ (by omega)
    | cons next rest =>
      rw [span_cons] at hspan
      have hadd : item.getSize + next.getSize =
          UInt32.ofNat (item.m_packet.length + next.m_packet.length) := by
        rw [UInt32.ofNat_add]
        rfl
      dsimp only
      rw [hadd]
      split
      · exact hmin _ (by omega)
      · exact hmin _ (by omega)
  · rw [if_neg hk]
    have hskip := mergeLimit_skip (UInt32.ofNat n) (s.advance off)
      (item :: rest) (fun i hi heq => hk (by
        have := eq_of_start hc hf (by rw [span_append, span_cons]; exact hspan) hpre hoff
          (List.mem_append_right pre hi) heq
        omega)) []
    rwa [List.append_nil] at hskip

/-! ### CopyFromSequence -/

section Copy

variable {b : TcpTxBuffer}

theorem Held.sentEnd (h : Held b) : b.sentEnd = b.m_firstByteSeq.advance (span b.m_sentList) := by
  rw [TcpTxBuffer.sentEnd, h.sentSize]
  rfl

theorem Held.tailSequence (h : Held b) : b.tailSequence = b.m_firstByteSeq.advance b.held := by
  rw [TcpTxBuffer.tailSequence, h.size]
  rfl

/-- The bytes from an offset on. -/
theorem Held.sizeFromSequence (h : Held b) {off : Nat} (hoff : off ≤ b.held) :
    b.sizeFromSequence (b.m_firstByteSeq.advance off) = UInt32.ofNat (b.held - off) := by
  have hsmall : b.held < 2 ^ 31 := h.small
  rw [TcpTxBuffer.sizeFromSequence, h.tailSequence, SequenceNumber32.ge_advance (by omega) (by omega),
    if_pos (by simpa using hoff), ← UInt32.toNat_inj,
    SequenceNumber32.toNat_diff_advance hoff (by omega), toNat_ofNat (by omega)]

/-- Which way `CopyFromSequence` goes, and how many bytes it takes there. -/
inductive CopyBranch where
  | fatal
  | null
  | sent (s : UInt32)
  | unsent (s : UInt32)
  | part (amount : UInt32)
  deriving DecidableEq

/-- The tests of `CopyFromSequence`. -/
def TcpTxBuffer.copyBranch (b : TcpTxBuffer) (numBytes : UInt32) (seq : SequenceNumber32) : CopyBranch :=
  if b.m_firstByteSeq.gt seq then .fatal
  else
    let s := min numBytes (b.sizeFromSequence seq)
    if s = 0 then .null
    else if b.sentEnd.ge (seq.add s) then .sent s
    else if b.sentEnd.le seq then if b.sentEnd == seq then .unsent s else .fatal
    else if b.sentEnd.m_value > seq.m_value && b.sentEnd.m_value < seq.m_value + s then
      .part (b.sentEnd.m_value - seq.m_value)
    else .fatal

theorem copyWithin_succ (b : TcpTxBuffer) (fuel : Nat) (numBytes : UInt32) (seq : SequenceNumber32) :
    b.copyWithin (fuel + 1) numBytes seq =
      match b.copyBranch numBytes seq with
      | .fatal => none
      | .null => some (none, b)
      | .sent s => (b.getTransmittedSegment s seq).map fun (item, b) => (some item, b)
      | .unsent s => (b.getNewSegment s).map fun (item, b) => (some item, b)
      | .part amount => b.copyWithin fuel amount seq := by
  rw [TcpTxBuffer.copyWithin, TcpTxBuffer.copyBranch]
  dsimp only
  split_ifs <;> rfl

/-- The branch at an offset not past the end of the buffer. -/
theorem Held.copyBranch_eq (h : Held b) {off : Nat} (hoff : off ≤ b.held) (numBytes : UInt32)
    {s : Nat} (hs : s = min numBytes.toNat (b.held - off)) :
    b.copyBranch numBytes (b.m_firstByteSeq.advance off) =
      if s = 0 then .null
      else if off + s ≤ span b.m_sentList then .sent (UInt32.ofNat s)
      else if off = span b.m_sentList then .unsent (UInt32.ofNat s)
      else if span b.m_sentList < off then .fatal
      else if (b.m_firstByteSeq.advance off).m_value.toNat + s < 2 ^ 32 then
        .part (UInt32.ofNat (span b.m_sentList - off))
      else .fatal := by
  have hsmall : b.held < 2 ^ 31 := h.small
  have hsent : span b.m_sentList ≤ b.held := Nat.le_add_right _ _
  have hmin : min numBytes (b.sizeFromSequence (b.m_firstByteSeq.advance off)) =
      UInt32.ofNat s := by
    rw [h.sizeFromSequence hoff, min_ofNat _ (by omega), hs]
  have hstop : (b.m_firstByteSeq.advance off).add (UInt32.ofNat s) =
      b.m_firstByteSeq.advance (off + s) := by
    rw [← SequenceNumber32.advance_advance]
    rfl
  have hgt : b.m_firstByteSeq.gt (b.m_firstByteSeq.advance off) = false := by
    have := SequenceNumber32.gt_advance (s := b.m_firstByteSeq) (p := 0) (q := off) (by omega)
      (by omega)
    rw [SequenceNumber32.advance_zero] at this
    simpa using this
  rw [TcpTxBuffer.copyBranch, hgt, if_neg (by simp)]
  simp only [hmin, hstop, h.sentEnd, ofNat_eq_zero (show s < 2 ^ 31 by omega)]
  by_cases hzero : s = 0
  · rw [if_pos hzero, if_pos hzero]
  rw [if_neg hzero, if_neg hzero, SequenceNumber32.ge_advance (by omega) (by omega),
    SequenceNumber32.le_advance (by omega) (by omega)]
  by_cases hall : off + s ≤ span b.m_sentList
  · rw [if_pos (by simpa using hall), if_pos hall]
  rw [if_neg (by simpa using hall), if_neg hall]
  by_cases hend : off = span b.m_sentList
  · rw [if_pos (by simp [hend]), if_pos hend, hend, if_pos (by simp)]
  rw [if_neg hend]
  by_cases hpast : span b.m_sentList < off
  · rw [if_pos (by simpa using Nat.le_of_lt hpast), if_pos hpast, if_neg]
    rw [beq_iff_eq, SequenceNumber32.advance_inj (by omega) (by omega)]
    omega
  rw [if_neg (by simp; omega), if_neg hpast]
  -- the sent part ends inside the block
  obtain ⟨d, hd⟩ : ∃ d, span b.m_sentList = off + d := ⟨span b.m_sentList - off, by omega⟩
  have hvalue : (b.m_firstByteSeq.advance (span b.m_sentList)).m_value =
      (b.m_firstByteSeq.advance off).m_value + UInt32.ofNat d := by
    rw [hd, ← SequenceNumber32.advance_advance]
    rfl
  have hdiff : (b.m_firstByteSeq.advance off).m_value + UInt32.ofNat d -
      (b.m_firstByteSeq.advance off).m_value = UInt32.ofNat (span b.m_sentList - off) := by
    rw [hd, Nat.add_sub_cancel_left]
    grind
  rw [hvalue, hdiff]
  generalize (b.m_firstByteSeq.advance off).m_value = v
  have hv := v.toNat_lt
  have hraw : (decide (v + UInt32.ofNat d > v) && decide (v + UInt32.ofNat d < v + UInt32.ofNat s)) =
      decide (v.toNat + s < 2 ^ 32) := by
    rw [Bool.eq_iff_iff, Bool.and_eq_true, decide_eq_true_eq, decide_eq_true_eq, decide_eq_true_eq,
      gt_iff_lt, UInt32.lt_iff_toNat_lt, UInt32.lt_iff_toNat_lt, UInt32.toNat_add,
      UInt32.toNat_add, toNat_ofNat (show d < 2 ^ 31 by omega),
      toNat_ofNat (show s < 2 ^ 31 by omega)]
    omega
  rw [hraw]
  by_cases hfit : v.toNat + s < 2 ^ 32
  · rw [if_pos (by simpa using hfit), if_pos hfit]
  · rw [if_neg (by simpa using hfit), if_neg hfit]

/-- `CopyFromSequence` at an offset not past the end of the buffer. -/
theorem Held.copyWithin_eq (h : Held b) {off : Nat} (hoff : off ≤ b.held) (numBytes : UInt32)
    (fuel : Nat) {s : Nat} (hs : s = min numBytes.toNat (b.held - off)) :
    b.copyWithin (fuel + 1) numBytes (b.m_firstByteSeq.advance off) =
      if s = 0 then some (none, b)
      else if off + s ≤ span b.m_sentList then
        (b.getTransmittedSegment (UInt32.ofNat s) (b.m_firstByteSeq.advance off)).map
          fun (item, b) => (some item, b)
      else if off = span b.m_sentList then
        (b.getNewSegment (UInt32.ofNat s)).map fun (item, b) => (some item, b)
      else if span b.m_sentList < off then none
      else if (b.m_firstByteSeq.advance off).m_value.toNat + s < 2 ^ 32 then
        b.copyWithin fuel (UInt32.ofNat (span b.m_sentList - off)) (b.m_firstByteSeq.advance off)
      else none := by
  rw [copyWithin_succ, h.copyBranch_eq hoff numBytes hs]
  split_ifs <;> rfl

/-- A block of bytes sent is retransmitted from the item that holds its first byte on. -/
theorem Held.getTransmittedSegment_at (h : Held b) {pre mid post : List TcpTxItem}
    {item : TcpTxItem} (hsent : b.m_sentList = pre ++ item :: (mid ++ post)) {off n : Nat}
    (hpre : span pre ≤ off) (hle : off + n ≤ span b.m_sentList)
    (hends : Ends item mid (off - span pre) (limitAt (off - span pre) item (mid ++ post) n)) :
    b.getTransmittedSegment (UInt32.ofNat n) (b.m_firstByteSeq.advance off) =
      some (b.resent (takeOut pre item mid post (off - span pre)
        (limitAt (off - span pre) item (mid ++ post) n) b.m_retrans b.nextNode)) := by
  have hsmall := h.small
  have hstart := hends.start
  have hlimit := mergeLimit_eq (n := n) (hsent ▸ h.starts) (hsent ▸ h.sent_filled)
    (by rw [← hsent]; omega) hpre (by omega) (by omega)
  have hspan : span pre + (item.m_packet.length + (span mid + span post)) = span b.m_sentList := by
    rw [hsent, span_append, span_cons, span_append]
  rw [TcpTxBuffer.getTransmittedSegment, hsent]
  simp only [hlimit]
  generalize limitAt (off - span pre) item (mid ++ post) n = n' at hends
  rw [getPacketFromList_eq hpre hends (by omega) (by simp; omega)]
  rfl

/-- The items that a block of bytes sent ends in. -/
theorem Held.getTransmittedSegment_eq (h : Held b) {pre rest : List TcpTxItem} {item : TcpTxItem}
    (hsent : b.m_sentList = pre ++ item :: rest) {off n : Nat} (hn : 0 < n) (hpre : span pre ≤ off)
    (hoff : off < span pre + item.m_packet.length) (hle : off + n ≤ span b.m_sentList) :
    ∃ mid post, rest = mid ++ post ∧
      Ends item mid (off - span pre) (limitAt (off - span pre) item rest n) ∧
      b.getTransmittedSegment (UInt32.ofNat n) (b.m_firstByteSeq.advance off) =
        some (b.resent (takeOut pre item mid post (off - span pre)
          (limitAt (off - span pre) item rest n) b.m_retrans b.nextNode)) := by
  have hlim := limitAt_le (off - span pre) item rest n
  have hspan : span pre + (item.m_packet.length + span rest) = span b.m_sentList := by
    rw [hsent, span_append, span_cons]
  obtain ⟨mid, post, rfl, hstop, hleast⟩ := exists_least rest
    (s := item.m_packet.length) (e := off - span pre + limitAt (off - span pre) item rest n)
    (by omega)
  have hends : Ends item mid (off - span pre) (limitAt (off - span pre) item (mid ++ post) n) :=
    { start := by omega
      pos := limitAt_pos _ hn (by omega)
      stop := hstop
      least := hleast }
  exact ⟨mid, post, rfl, hends, h.getTransmittedSegment_at hsent hpre hle hends⟩

/-- A block of new bytes is taken from the front of `m_appList`. -/
theorem Held.getNewSegment_at (h : Held b) {mid post : List TcpTxItem} {item : TcpTxItem} {n : Nat}
    (happ : b.m_appList = item :: (mid ++ post)) (hends : Ends item mid 0 n) :
    b.getNewSegment (UInt32.ofNat n) =
      some (b.sentNew (takeOut [] item mid post 0 n b.m_retrans b.nextNode)) := by
  have hsmall := h.small
  rw [happ, span_cons, span_append] at hsmall
  have hfuel : mid.length < (item :: (mid ++ post)).length + 2 := by
    simp only [List.length_cons, List.length_append]
    omega
  have heq := getPacketFromList_at b.sentEnd [] post b.m_retrans b.nextNode hends
    (by rw [span_nil]; omega) hfuel
  rw [span_nil, SequenceNumber32.advance_zero, List.nil_append] at heq
  rw [TcpTxBuffer.getNewSegment, happ, heq]
  rfl

/-- The items that a block of new bytes ends in. -/
theorem Held.getNewSegment_eq (h : Held b) {n : Nat} (hn : 0 < n) (hle : n ≤ span b.m_appList) :
    ∃ item mid post, b.m_appList = item :: (mid ++ post) ∧ Ends item mid 0 n ∧
      b.getNewSegment (UInt32.ofNat n) =
        some (b.sentNew (takeOut [] item mid post 0 n b.m_retrans b.nextNode)) := by
  have hin : 0 + n ≤ span b.m_appList := by omega
  obtain ⟨pre, item, mid, post, happ, hpre, hends⟩ := exists_ends hn hin
  have hf := h.app_filled
  rw [happ] at hf
  cases pre with
  | nil =>
    rw [span_nil] at hends
    exact ⟨item, mid, post, happ, hends, h.getNewSegment_at happ hends⟩
  | cons x pre =>
    have := (filled_cons.mp hf).1
    rw [span_cons] at hpre
    omega

/-- The segment `CopyFromSequence` returns for the `n` bytes at an offset, and the buffer it
leaves. -/
inductive Copied (b : TcpTxBuffer) (off n : Nat) : TcpTxItem × TcpTxBuffer → Prop where
  | resent {pre mid post : List TcpTxItem} {item : TcpTxItem}
      (hsent : b.m_sentList = pre ++ item :: (mid ++ post)) (hpre : span pre ≤ off)
      (hle : off + n ≤ span b.m_sentList)
      (hends : Ends item mid (off - span pre) (limitAt (off - span pre) item (mid ++ post) n)) :
      Copied b off n (b.resent (takeOut pre item mid post (off - span pre)
        (limitAt (off - span pre) item (mid ++ post) n) b.m_retrans b.nextNode))
  | sentNew {mid post : List TcpTxItem} {item : TcpTxItem}
      (happ : b.m_appList = item :: (mid ++ post)) (hoff : off = span b.m_sentList)
      (hends : Ends item mid 0 n) :
      Copied b off n (b.sentNew (takeOut [] item mid post 0 n b.m_retrans b.nextNode))

/-- `GetTransmittedSegment` returns a segment. -/
theorem Held.exists_resent (h : Held b) {off n : Nat} (hn : 0 < n)
    (hle : off + n ≤ span b.m_sentList) :
    ∃ r, b.getTransmittedSegment (UInt32.ofNat n) (b.m_firstByteSeq.advance off) = some r ∧
      Copied b off n r := by
  obtain ⟨pre, item, mid₁, post₁, hsent, hpre, hends₁⟩ := exists_ends hn hle
  have hstart := hends₁.start
  obtain ⟨mid, post, hrest, hends, heq⟩ := h.getTransmittedSegment_eq hsent hn hpre (by omega) hle
  rw [hrest] at hsent hends heq
  exact ⟨_, heq, .resent hsent hpre hle hends⟩

/-- `GetNewSegment` returns a segment. -/
theorem Held.exists_sentNew (h : Held b) {n : Nat} (hn : 0 < n) (hle : n ≤ span b.m_appList) :
    ∃ r, b.getNewSegment (UInt32.ofNat n) = some r ∧ Copied b (span b.m_sentList) n r := by
  obtain ⟨item, mid, post, happ, hends, heq⟩ := h.getNewSegment_eq hn hle
  exact ⟨_, heq, .sentNew happ rfl hends⟩

/-- `CopyFromSequence` of a sequence number that is not in the buffer has no result or returns
the null pointer. -/
theorem Held.copy_outside (h : Held b) (numBytes : UInt32) {seq : SequenceNumber32}
    (hseq : ∀ off ≤ b.held, seq ≠ b.m_firstByteSeq.advance off) :
    b.copyFromSequence numBytes seq =
      if b.m_firstByteSeq.gt seq then none else some (none, b) := by
  have hsmall : b.held < 2 ^ 31 := h.small
  rw [TcpTxBuffer.copyFromSequence, TcpTxBuffer.copyWithin]
  by_cases hgt : b.m_firstByteSeq.gt seq = true
  · rw [if_pos hgt, if_pos hgt]
  · have hsize : b.sizeFromSequence seq = 0 := by
      rw [TcpTxBuffer.sizeFromSequence, if_neg]
      intro hge
      rw [h.tailSequence, SequenceNumber32.ge, Bool.or_eq_true, beq_iff_eq] at hge
      rcases hge with hlt | heq
      · obtain ⟨x, hx, rfl⟩ := b.m_firstByteSeq.exists_advance seq
        have hpast : b.held < x := by
          by_contra hle
          exact hseq x (by omega) rfl
        by_cases hzero : b.held = 0
        · rw [hzero, SequenceNumber32.advance_zero] at hlt
          exact hgt hlt
        · apply hgt
          rw [SequenceNumber32.gt_iff] at hlt ⊢
          have h0 := SequenceNumber32.toNat_diff_advance_of_lt (s := b.m_firstByteSeq) (p := 0)
            (q := x) (by omega) (by omega)
          rw [SequenceNumber32.advance_zero] at h0
          rw [SequenceNumber32.toNat_diff_advance_of_lt hpast (by omega)] at hlt
          rw [h0]
          omega
      · exact hseq b.held (Nat.le_refl _) heq.symm
    have hmin : min numBytes 0 = 0 := by
      have := min_ofNat numBytes (n := 0) (by omega)
      simpa using this
    rw [if_neg hgt, if_neg hgt, hsize]
    simp only [hmin, if_true]

/-- What `CopyFromSequence` returns, if anything, is the null pointer or a segment of at most
`numBytes` bytes of the buffer. -/
theorem Held.copy_cases (h : Held b) (numBytes : UInt32) (seq : SequenceNumber32) :
    b.copyFromSequence numBytes seq = none ∨ b.copyFromSequence numBytes seq = some (none, b) ∨
      ∃ off n r, seq = b.m_firstByteSeq.advance off ∧ 0 < n ∧ n ≤ numBytes.toNat ∧
        b.copyFromSequence numBytes seq = some (some r.1, r.2) ∧ Copied b off n r := by
  have hsmall : b.held < 2 ^ 31 := h.small
  have hheld : b.held = span b.m_sentList + span b.m_appList := rfl
  by_cases hin : ∃ off ≤ b.held, seq = b.m_firstByteSeq.advance off
  · obtain ⟨off, hoff, rfl⟩ := hin
    generalize hs : min numBytes.toNat (b.held - off) = s
    rw [TcpTxBuffer.copyFromSequence, h.copyWithin_eq hoff numBytes 1 hs.symm]
    by_cases hzero : s = 0
    · rw [if_pos hzero]
      exact .inr (.inl rfl)
    rw [if_neg hzero]
    by_cases hall : off + s ≤ span b.m_sentList
    · obtain ⟨r, heq, hr⟩ := h.exists_resent (by omega) hall
      rw [if_pos hall, heq]
      exact .inr (.inr ⟨off, s, r, rfl, by omega, by omega, rfl, hr⟩)
    rw [if_neg hall]
    by_cases hend : off = span b.m_sentList
    · obtain ⟨r, heq, hr⟩ := h.exists_sentNew (n := s) (by omega) (by omega)
      rw [if_pos hend, heq]
      exact .inr (.inr ⟨off, s, r, rfl, by omega, by omega, rfl, hend ▸ hr⟩)
    rw [if_neg hend]
    by_cases hpast : span b.m_sentList < off
    · rw [if_pos hpast]
      exact .inl rfl
    rw [if_neg hpast]
    split
    · -- the call for the part that was sent
      have hin : off + (span b.m_sentList - off) ≤ span b.m_sentList := by omega
      obtain ⟨r, heq, hr⟩ := h.exists_resent (by omega) hin
      have hpart : span b.m_sentList - off =
          min (UInt32.ofNat (span b.m_sentList - off)).toNat (b.held - off) := by
        rw [toNat_ofNat (by omega)]
        omega
      rw [h.copyWithin_eq hoff _ 0 hpart, if_neg (by omega), if_pos (by omega), heq]
      exact .inr (.inr ⟨off, _, r, rfl, by omega, by omega, rfl, hr⟩)
    · exact .inl rfl
  · rw [h.copy_outside numBytes fun off hoff heq => hin ⟨off, hoff, heq⟩]
    split
    · exact .inl rfl
    · exact .inr (.inl rfl)

/-- What `CopyFromSequence` leaves alone when it returns a segment, and what it returns. -/
structure Segment (b : TcpTxBuffer) (off n : Nat) (item : TcpTxItem) (b' : TcpTxBuffer) : Prop where
  held : Held b'
  contents : b'.contents = b.contents
  first : b'.m_firstByteSeq = b.m_firstByteSeq
  start : item.m_startSeq = b.m_firstByteSeq.advance off
  packet : item.m_packet = (b.contents.drop off).take item.m_packet.length
  pos : 0 < item.m_packet.length
  le : item.m_packet.length ≤ n
  off_le : off + item.m_packet.length ≤ b.held

theorem length_contents (b : TcpTxBuffer) : b.contents.length = b.held := by
  rw [TcpTxBuffer.contents, List.length_append]
  rfl

/-- The bytes of a list from an item on. -/
private theorem drop_bytes (before after : List TcpTxItem) (item : TcpTxItem) (l : Payload) :
    ((bytes (before ++ item :: after) ++ l).drop (span before)).take item.m_packet.length =
      item.m_packet := by
  rw [bytes_append, List.append_assoc, span, List.drop_left, bytes_cons, List.append_assoc,
    List.take_left]

/-- A segment is the bytes of the buffer at its offset, and the buffer stays as it was. -/
theorem Copied.segment (h : Held b) {off n : Nat} {r : TcpTxItem × TcpTxBuffer} (hn : 0 < n)
    (hr : Copied b off n r) : Segment b off n r.1 r.2 := by
  cases hr with
  | @resent pre mid post item hsent hpre hle hends =>
    generalize hn' : limitAt (off - span pre) item (mid ++ post) n = n' at hends
    have hlim : n' ≤ n := hn' ▸ limitAt_le _ _ _ _
    have hlist := takeOut_bytes b.m_retrans b.nextNode pre post hends
    obtain ⟨hbefore, hlen⟩ := takeOut_place pre post b.m_retrans b.nextNode hends
    have hfilled := takeOut_filled b.m_retrans b.nextNode hends
      (hsent ▸ h.sent_filled)
    have hstarts := takeOut_contiguous b.m_retrans b.nextNode hends
      (hsent ▸ h.starts)
    generalize takeOut pre item mid post (off - span pre) n' b.m_retrans b.nextNode = f at *
    rw [← hsent] at hlist
    have hoff : span f.before = off := by omega
    have hbytes : bytes (f.before ++ { f.outItem with m_retrans := true } :: f.after) =
        bytes b.m_sentList := by
      rw [← hlist, Fetched.list]
      simp
    have hspan : span (f.before ++ { f.outItem with m_retrans := true } :: f.after) =
        span b.m_sentList := by
      rw [span, hbytes]
      rfl
    have hpos := hends.pos
    refine
      { held :=
          { sent_filled := ?_
            app_filled := h.app_filled
            sentSize := by
              rw [TcpTxBuffer.resent, hspan]
              exact h.sentSize
            size := by
              rw [TcpTxBuffer.resent, hspan]
              exact h.size
            small := by
              rw [TcpTxBuffer.resent, hspan]
              exact h.small
            starts := ?_ }
        contents := by
          rw [TcpTxBuffer.contents, TcpTxBuffer.resent, hbytes]
          rfl
        first := rfl
        start := ?_
        packet := ?_
        pos := by
          rw [TcpTxBuffer.resent, hlen]
          exact hpos
        le := by
          rw [TcpTxBuffer.resent, hlen]
          exact hlim
        off_le := by
          rw [TcpTxBuffer.resent, hlen, TcpTxBuffer.held]
          omega }
    · rw [TcpTxBuffer.resent]
      rw [Fetched.list, filled_append, filled_cons] at hfilled
      rw [filled_append, filled_cons]
      exact hfilled
    · rw [TcpTxBuffer.resent]
      rw [Fetched.list, contiguous_append, contiguous_cons] at hstarts
      rw [contiguous_append, contiguous_cons]
      exact hstarts
    · rw [Fetched.list, contiguous_append, contiguous_cons] at hstarts
      rw [TcpTxBuffer.resent, ← hoff]
      exact hstarts.2.1
    · rw [TcpTxBuffer.resent, TcpTxBuffer.contents, ← hbytes, ← hoff]
      exact (drop_bytes f.before f.after { f.outItem with m_retrans := true } _).symm
  | @sentNew mid post item happ hoff hends =>
    have hlist := takeOut_bytes b.m_retrans b.nextNode [] post hends
    obtain ⟨-, hlen⟩ := takeOut_place [] post b.m_retrans b.nextNode hends
    have hfilled := takeOut_filled b.m_retrans b.nextNode hends (show Filled ([] ++ item :: (mid ++ post)) by
        rw [List.nil_append, ← happ]
        exact h.app_filled)
    have hbefore := takeOut_before [] mid post item n b.m_retrans b.nextNode
    generalize takeOut [] item mid post 0 n b.m_retrans b.nextNode = f at *
    rw [List.nil_append, ← happ, Fetched.list, hbefore, List.nil_append, bytes_cons] at hlist
    rw [Fetched.list, hbefore, List.nil_append, filled_cons] at hfilled
    have hsmall := h.small
    have hpos := hends.pos
    have hspan : span b.m_appList = n + span f.after := by
      rw [span, ← hlist, List.length_append, hlen]
      rfl
    have hsize : b.m_sentSize + UInt32.ofNat f.outItem.m_packet.length =
        UInt32.ofNat (span b.m_sentList + n) := by
      rw [h.sentSize, hlen, UInt32.ofNat_add]
    have hcontents : bytes (b.m_sentList ++ [{ f.outItem with m_startSeq := b.sentEnd }]) ++
        bytes (f.before ++ f.after) = b.contents := by
      rw [TcpTxBuffer.contents, ← hlist, hbefore]
      simp
    exact
      { held :=
          { sent_filled := by
              rw [TcpTxBuffer.sentNew, filled_append, filled_cons]
              refine ⟨h.sent_filled, ?_, filled_nil⟩
              change 0 < f.outItem.m_packet.length
              omega
            app_filled := by
              rw [TcpTxBuffer.sentNew, hbefore, List.nil_append]
              exact hfilled.2
            sentSize := by
              rw [TcpTxBuffer.sentNew, span_append, span_cons, span_nil, Nat.add_zero]
              change b.m_sentSize + UInt32.ofNat f.outItem.m_packet.length =
                UInt32.ofNat (span b.m_sentList + f.outItem.m_packet.length)
              rw [hsize, hlen]
            size := by
              rw [TcpTxBuffer.sentNew, span_append, span_cons, span_nil, hbefore, List.nil_append]
              dsimp only
              rw [h.size, hlen]
              congr 1
              omega
            small := by
              rw [TcpTxBuffer.sentNew, span_append, span_cons, span_nil, hbefore, List.nil_append]
              dsimp only
              omega
            starts := by
              rw [TcpTxBuffer.sentNew, contiguous_append, contiguous_cons]
              exact ⟨h.starts, h.sentEnd, trivial⟩ }
        contents := hcontents
        first := rfl
        start := by
          rw [hoff]
          exact h.sentEnd
        packet := by
          have := drop_bytes b.m_sentList [] { f.outItem with m_startSeq := b.sentEnd }
            (bytes (f.before ++ f.after))
          rw [hcontents] at this
          rw [hoff]
          exact this.symm
        pos := by
          rw [TcpTxBuffer.sentNew, hlen]
          exact hpos
        le := by
          rw [TcpTxBuffer.sentNew, hlen]
        off_le := by
          rw [TcpTxBuffer.sentNew, hlen, TcpTxBuffer.held]
          omega }

end Copy

end Ns3.Tcp
