import Ns3.Tcp.TxScoreboard
import Ns3.Tcp.TxPipe

/-!
# What `NextSeg` names

`NextSeg` names the range that `SendPendingData` sends next, and `SendDataPacket` copies it out and follows
the pointer it gets. Which range that is by RFC 6675, and the assertions on the way.
Source: `src/internet/model/tcp-tx-buffer.cc:222–355,400–625,970–1071`.
-/

namespace Ns3.Tcp

open Ns3.Network Ns3.Lib

/-! ### Assertions -/

/-- The assertions of `MergeItems`. -/
def mergeAsserts (t1 t2 : TcpTxItem) : Bool := t1.m_sacked == t2.m_sacked && t1.m_lost == t2.m_lost

/-- The assertions on one walk of `GetPacketFromList`. The items of `m_sentList` start at `first` or behind
it; there is none for `m_appList`. -/
def walkAsserts (first : Option SequenceNumber32) (numBytes : UInt32) (seq : SequenceNumber32) :
    SequenceNumber32 → List TcpTxItem → Bool
  | _, [] => true
  | beginOfCurrentPacket, item :: rest =>
    let stop := beginOfCurrentPacket.add item.getSize
    first.all (fun first => item.m_startSeq.ge first) &&
      if seq.lt stop then
        if seq == beginOfCurrentPacket && !(seq.add numBytes).le stop then
          match rest with
          | [] => true
          | next :: _ => mergeAsserts item next
        else true
      else walkAsserts first numBytes seq stop rest

/-- The assertions of `GetPacketFromList`. -/
def listAsserts (first : Option SequenceNumber32) (listStartFrom : SequenceNumber32) (numBytes : UInt32)
    (seq : SequenceNumber32) : Nat → ItemList → Bool
  | 0, _ => true
  | fuel + 1, l =>
    walkAsserts first numBytes seq listStartFrom l.list &&
      match walkList numBytes seq l.m_retrans l.nextNode [] listStartFrom l.list with
      | .recurse l => listAsserts first listStartFrom numBytes seq fuel l
      | _ => true

namespace TcpTxBuffer

/-- The assertions of `GetTransmittedSegment`, and behind it in `CopyFromSequence`. -/
def sentAsserts (b : TcpTxBuffer) (s : UInt32) (seq : SequenceNumber32) : Bool :=
  seq.ge b.m_firstByteSeq && decide (s ≤ b.m_sentSize) && !b.m_sentList.isEmpty &&
    listAsserts (some b.m_firstByteSeq) b.m_firstByteSeq (mergeLimit s seq b.m_sentList) seq
      (b.m_sentList.length + 2) ⟨b.m_sentList, b.m_retrans, b.nextNode⟩ &&
    (b.getTransmittedSegment s seq).all fun r => !r.1.m_sacked && r.1.m_startSeq.ge b.m_firstByteSeq

/-- The assertions of `GetNewSegment`, and behind it in `CopyFromSequence`. -/
def unsentAsserts (b : TcpTxBuffer) (s : UInt32) : Bool :=
  listAsserts none b.sentEnd s b.sentEnd (b.m_appList.length + 2) ⟨b.m_appList, b.m_retrans, b.nextNode⟩ &&
    (b.getNewSegment s).all fun r => !r.1.m_retrans && r.1.m_startSeq.ge b.m_firstByteSeq

/-- The assertions of `CopyFromSequence`; `ConsistencyCheck` is disabled. -/
def copyAsserts (b : TcpTxBuffer) : Nat → UInt32 → SequenceNumber32 → Bool
  | 0, _, _ => true
  | fuel + 1, numBytes, seq =>
    match b.copyBranch numBytes seq with
    | .sent s => b.sentAsserts s seq
    | .unsent s => b.unsentAsserts s
    | .part amount => b.copyAsserts fuel amount seq
    | _ => true

end TcpTxBuffer

section Asserts

variable {first : Option SequenceNumber32} {start : SequenceNumber32} {n p : Nat}
  {pre mid post rest : List TcpTxItem} {item : TcpTxItem}

/-- The items before the one that is asked for are only asked where they start. -/
theorem walkAsserts_pass (start : SequenceNumber32) (rest : List TcpTxItem) (numBytes : UInt32) {off : Nat}
    (hfirst : ∀ i ∈ pre, first.all fun s => i.m_startSeq.ge s) (hle : p + span pre ≤ off)
    (hlt : off < p + 2 ^ 31) :
    walkAsserts first numBytes (start.advance off) (start.advance p) (pre ++ rest) =
      walkAsserts first numBytes (start.advance off) (start.advance (p + span pre)) rest := by
  induction pre generalizing p with
  | nil => simp
  | cons i pre ih =>
    rw [span_cons] at hle
    have hnext : (start.advance p).add i.getSize = start.advance (p + i.m_packet.length) := by
      rw [← SequenceNumber32.advance_advance]
      rfl
    rw [List.cons_append, walkAsserts.eq_def]
    simp only [hnext]
    rw [hfirst i List.mem_cons_self, SequenceNumber32.lt_advance (by omega) (by omega), Bool.true_and,
      if_neg (by simp; omega), ih (fun j hj => hfirst j (List.mem_cons_of_mem _ hj)) (by omega) (by omega),
      span_cons, Nat.add_assoc]

/-- At the item that is asked for, only what is merged with it is asked for its marks. -/
theorem walkAsserts_at (hfirst : first.all fun s => item.m_startSeq.ge s) (hpos : 0 < item.m_packet.length)
    (hlen : item.m_packet.length < 2 ^ 31) (hn : n < 2 ^ 31)
    (hnext : ∀ next ∈ rest.head?, item.m_packet.length < n → mergeAsserts item next) :
    walkAsserts first (UInt32.ofNat n) (start.advance p) (start.advance p) (item :: rest) := by
  have hstop : (start.advance p).add item.getSize = start.advance (p + item.m_packet.length) := by
    rw [← SequenceNumber32.advance_advance]
    rfl
  have hend : (start.advance p).add (UInt32.ofNat n) = start.advance (p + n) := by
    rw [← SequenceNumber32.advance_advance]
    rfl
  rw [walkAsserts.eq_def]
  simp only [hstop, hend, hfirst, beq_self_eq_true, Bool.true_and]
  rw [SequenceNumber32.lt_advance (by omega) (by omega), if_pos (by simp; omega),
    SequenceNumber32.le_advance (by omega) (by omega)]
  split
  · next hless =>
    cases rest with
    | nil => rfl
    | cons next rest => exact hnext next rfl (by simp at hless; omega)
  · rfl

/-- The marks of two items are alike. -/
def TcpTxItem.SameMarks (i j : TcpTxItem) : Prop := j.m_sacked = i.m_sacked ∧ j.m_lost = i.m_lost

/-- Taking out items with like marks, from the first byte of one on, asserts nothing wrong. -/
theorem listAsserts_at (first : Option SequenceNumber32) (start : SequenceNumber32) (pre post : List TcpTxItem)
    (retrans : UInt32) (node : Nat) (hends : Ends item mid 0 n) (hmarks : ∀ j ∈ mid, item.SameMarks j)
    (hfirst : ∀ i ∈ pre ++ item :: mid, first.all fun s => i.m_startSeq.ge s)
    (hspan : span pre + item.m_packet.length + span mid < 2 ^ 31) (fuel : Nat) :
    listAsserts first start (UInt32.ofNat n) (start.advance (span pre)) fuel
      ⟨pre ++ item :: (mid ++ post), retrans, node⟩ := by
  have hn := hends.pos
  have hstop := hends.stop
  have hstart := hends.start
  induction mid generalizing item retrans fuel with
  | nil =>
    rw [span_nil] at hspan hstop
    match fuel with
    | 0 => rfl
    | fuel + 1 =>
      have hwalk := walkAsserts_pass start (item :: post) (p := 0) (UInt32.ofNat n)
        (fun i hi => hfirst i (List.mem_append_left _ hi)) (Nat.le_of_eq (Nat.zero_add _)) (by omega)
      have hpass := walkList_pass start (UInt32.ofNat n) retrans node (span pre) pre [] (item :: post)
        (p := 0) (by omega) (by omega)
      rw [SequenceNumber32.advance_zero, Nat.zero_add] at hwalk hpass
      rw [listAsserts, List.nil_append]
      dsimp only
      rw [hwalk, hpass, walkAsserts_at (hfirst item (by simp)) hstart (by omega) (by omega)
        fun next _ h => absurd hstop (by omega), walkList_at hstart (by omega) (by omega), if_pos (by omega)]
      rfl
  | cons next mid ih =>
    match fuel with
    | 0 => rfl
    | fuel + 1 =>
      rw [span_cons] at hspan hstop
      have hmore := hends.least [] next mid rfl
      rw [span_nil] at hmore
      have hwalk := walkAsserts_pass start (item :: (next :: mid ++ post)) (p := 0) (UInt32.ofNat n)
        (fun i hi => hfirst i (List.mem_append_left _ hi)) (Nat.le_of_eq (Nat.zero_add _)) (by omega)
      have hpass := walkList_pass start (UInt32.ofNat n) retrans node (span pre) pre []
        (item :: (next :: mid ++ post)) (p := 0) (by omega) (by omega)
      rw [SequenceNumber32.advance_zero, Nat.zero_add] at hwalk hpass
      have hsame := hmarks next List.mem_cons_self
      have hlen : (mergeItems retrans item next).1.m_packet.length =
          item.m_packet.length + next.m_packet.length := by
        simp [mergeItems]
      have hends' : Ends (mergeItems retrans item next).1 mid 0 n :=
        { start := by omega
          pos := hn
          stop := by omega
          least := fun m x m' heq => by
            have := hends.least (next :: m) x m' (by rw [heq, List.cons_append])
            rw [span_cons] at this
            omega }
      rw [listAsserts]
      dsimp only
      rw [hwalk, hpass, walkAsserts_at (hfirst item (by simp)) hstart (by omega) (by omega)
        (by
          rintro next' hnext' -
          obtain rfl := Option.some.inj hnext'
          rw [mergeAsserts, hsame.1, hsame.2, beq_self_eq_true, beq_self_eq_true]
          rfl),
        walkList_at hstart (by omega) (by omega), if_neg (by omega)]
      dsimp only [List.cons_append]
      rw [Bool.true_and, List.nil_append]
      refine ih _ hends' (fun j hj => hmarks j (List.mem_cons_of_mem _ hj)) ?_ (by omega) fuel hends'.stop hends'.start
      intro i hi
      rcases List.mem_append.mp hi with hi | hi
      · exact hfirst i (List.mem_append_left _ hi)
      · rcases List.mem_cons.mp hi with rfl | hi
        · exact hfirst item (by simp)
        · exact hfirst i (by simp [hi])

end Asserts

section Copies

variable {b : TcpTxBuffer} {pre mid post rest : List TcpTxItem} {i : TcpTxItem} {n : Nat}

/-- The limit of `GetTransmittedSegment` lets an item that is not SACKed merge with the next one at most, and
only when its marks are the same. -/
theorem sameMarks_of_limit (hi : i.m_sacked = false) (hends : Ends i mid 0 (limitAt 0 i (mid ++ post) n)) :
    ∀ j ∈ mid, i.SameMarks j := by
  cases mid with
  | nil => exact fun j hj => absurd hj List.not_mem_nil
  | cons next mid =>
    have hmore := hends.least [] next mid rfl
    have hlimit : limitAt 0 i (next :: mid ++ post) n =
        if !next.m_sacked && i.m_lost == next.m_lost then min n (i.m_packet.length + next.m_packet.length)
        else min n i.m_packet.length := by
      rw [limitAt.eq_def, if_pos rfl]
      rfl
    rw [hlimit] at hmore
    rw [span_nil] at hmore
    split at hmore
    · next hmarks =>
      rw [if_pos hmarks] at hlimit
      rw [Bool.and_eq_true, Bool.not_eq_true', beq_iff_eq] at hmarks
      cases mid with
      | nil =>
        intro j hj
        rw [List.mem_singleton.mp hj]
        exact ⟨hmarks.1.trans hi.symm, hmarks.2.symm⟩
      | cons x m' =>
        have hmost := hends.least [next] x m' rfl
        rw [hlimit, span_cons, span_nil] at hmost
        omega
    · omega

/-- Items lie at or behind the head. -/
theorem Held.start_ge (h : Held b) {j : TcpTxItem} (hj : j ∈ b.m_sentList) : j.m_startSeq.ge b.m_firstByteSeq := by
  obtain ⟨pre, rest, hsent⟩ := List.append_of_mem hj
  have hsmall := h.small
  have hstarts := h.starts
  rw [hsent, span_append, span_cons] at hsmall
  rw [hsent, contiguous_append, contiguous_cons] at hstarts
  have hge := SequenceNumber32.ge_advance (s := b.m_firstByteSeq) (p := span pre) (q := 0) (by omega) (by omega)
  rw [SequenceNumber32.advance_zero] at hge
  rw [hstarts.2.1, hge]
  exact decide_eq_true (Nat.zero_le _)

/-- Bytes that were sent, from the first byte of an item that is not SACKed on, are copied. -/
theorem Held.copy_sent (h : Held b) (hsent : b.m_sentList = pre ++ i :: rest) (hi : i.m_sacked = false)
    (hn : 0 < n) (hle : span pre + n ≤ span b.m_sentList) :
    ∃ item b', b.getTransmittedSegment (UInt32.ofNat n) (b.m_firstByteSeq.advance (span pre)) = some (item, b') ∧
      item.m_sacked = false ∧ b.sentAsserts (UInt32.ofNat n) (b.m_firstByteSeq.advance (span pre)) := by
  have hsmall := h.small
  have hfilled := h.sent_filled
  rw [hsent] at hfilled
  have hpos := (filled_cons.mp (filled_append.mp hfilled).2).1
  obtain ⟨mid, post, rfl, hends, heq⟩ := h.getTransmittedSegment_eq hsent hn (Nat.le_refl _) (by omega) hle
  have hcopied : Copied b (span pre) n _ := .resent hsent (Nat.le_refl _) hle hends
  have hstart := (hcopied.segment h hn).start
  rw [Nat.sub_self] at hends heq hstart
  have hmarks := sameMarks_of_limit hi hends
  have hsacked : (takeOut pre i mid post 0 (limitAt 0 i (mid ++ post) n) b.m_retrans b.nextNode).outItem.m_sacked =
      false :=
    (takeOut_rule (P := fun _ _ _ => True) (Q := fun j => j.m_sacked = false) (fun _ _ _ h => h) (fun _ _ h => h)
      (fun _ _ _ h _ => h) (fun _ _ _ _ _ _ _ _ _ _ => trivial) (fun _ _ _ _ _ _ _ _ _ => trivial) hends hi
      (fun j hj => (hmarks j hj).1.trans hi) trivial).2
  refine ⟨_, _, heq, hsacked, ?_⟩
  have hge : ∀ off < 2 ^ 31, (b.m_firstByteSeq.advance off).ge b.m_firstByteSeq := by
    intro off hoff
    have hge := SequenceNumber32.ge_advance (s := b.m_firstByteSeq) (p := off) (q := 0) (by omega) (by omega)
    rw [SequenceNumber32.advance_zero] at hge
    rw [hge]
    exact decide_eq_true (Nat.zero_le _)
  have hlimit := limitAt_le 0 i (mid ++ post) n
  have hspan : span pre + (i.m_packet.length + (span mid + span post)) = span b.m_sentList := by
    rw [hsent, span_append, span_cons, span_append]
  have hmerge := mergeLimit_eq (n := n) (hsent ▸ h.starts) (hsent ▸ h.sent_filled) (by rw [← hsent]; omega)
    (Nat.le_refl (span pre)) (by omega) (by omega)
  rw [Nat.sub_self, ← hsent] at hmerge
  have hlist := listAsserts_at (some b.m_firstByteSeq) b.m_firstByteSeq pre post b.m_retrans b.nextNode hends hmarks
    (fun j hj => h.start_ge (by
      rw [hsent, ← List.cons_append, ← List.append_assoc]
      exact List.mem_append_left _ hj)) (by omega) (b.m_sentList.length + 2)
  rw [← hsent] at hlist
  have hsize : UInt32.ofNat n ≤ UInt32.ofNat (span b.m_sentList) := by
    rw [UInt32.le_iff_toNat_le, toNat_ofNat (by omega), toNat_ofNat (by omega)]
    omega
  have hempty : b.m_sentList.isEmpty = false := by
    rw [hsent, List.isEmpty_eq_false_iff]
    exact List.append_ne_nil_of_right_ne_nil _ (List.cons_ne_nil _ _)
  have hout : (!(b.resent (takeOut pre i mid post 0 (limitAt 0 i (mid ++ post) n) b.m_retrans b.nextNode)).1.m_sacked &&
      (b.resent (takeOut pre i mid post 0 (limitAt 0 i (mid ++ post) n) b.m_retrans b.nextNode)).1.m_startSeq.ge
        b.m_firstByteSeq) = true := by
    rw [hstart, hge _ (by omega), Bool.and_true, Bool.not_eq_true']
    exact hsacked
  rw [TcpTxBuffer.sentAsserts, hge _ (by omega), hmerge, hlist, heq, h.sentSize, decide_eq_true hsize, hempty,
    Option.all_some, hout]
  rfl

/-- New bytes are copied, when no mark is left on what was not sent. -/
theorem Held.copy_unsent (h : Held b) (hclean : ∀ j ∈ b.m_appList, j.Clean) (hn : 0 < n)
    (hle : n ≤ span b.m_appList) :
    ∃ item b', b.getNewSegment (UInt32.ofNat n) = some (item, b') ∧ item.m_sacked = false ∧
      b.unsentAsserts (UInt32.ofNat n) := by
  have hsmall := h.small
  obtain ⟨item, mid, post, happ, hends, heq⟩ := h.getNewSegment_eq hn hle
  have hcopied : Copied b (span b.m_sentList) n _ := .sentNew happ rfl hends
  have hstart := (hcopied.segment h hn).start
  rw [happ] at hclean
  obtain ⟨hlistClean, -⟩ := takeOut_clean [] b.m_retrans b.nextNode hends (by simpa using hclean)
  have hout : (takeOut [] item mid post 0 n b.m_retrans b.nextNode).outItem.Clean :=
    hlistClean _ (by simp [Fetched.list])
  refine ⟨_, _, heq, hout.1, ?_⟩
  have hitem := hclean item (by simp)
  have hmarks : ∀ j ∈ mid, item.SameMarks j := by
    intro j hj
    have := hclean j (by simp [hj])
    exact ⟨this.1.trans hitem.1.symm, this.2.1.trans hitem.2.1.symm⟩
  rw [happ, span_cons, span_append] at hsmall
  have hlist := listAsserts_at none b.sentEnd [] post b.m_retrans b.nextNode hends hmarks (fun _ _ => rfl)
    (by rw [span_nil]; omega) (b.m_appList.length + 2)
  rw [List.nil_append, ← happ, span_nil, SequenceNumber32.advance_zero] at hlist
  have hge : (b.m_firstByteSeq.advance (span b.m_sentList)).ge b.m_firstByteSeq := by
    have hge := SequenceNumber32.ge_advance (s := b.m_firstByteSeq) (p := span b.m_sentList) (q := 0) (by omega)
      (by omega)
    rw [SequenceNumber32.advance_zero] at hge
    rw [hge]
    exact decide_eq_true (Nat.zero_le _)
  have hfresh : (!(b.sentNew (takeOut [] item mid post 0 n b.m_retrans b.nextNode)).1.m_retrans &&
      (b.sentNew (takeOut [] item mid post 0 n b.m_retrans b.nextNode)).1.m_startSeq.ge b.m_firstByteSeq) = true := by
    rw [hstart, hge, Bool.and_true, Bool.not_eq_true']
    exact hout.2.2
  rw [TcpTxBuffer.unsentAsserts, hlist, heq, Option.all_some, hfresh]
  rfl

end Copies

/-! ### The rules -/

/-- The item is neither SACKed nor retransmitted. -/
def TcpTxItem.pending (i : TcpTxItem) : Bool := !i.m_retrans && !i.m_sacked

/-- The item is lost besides. -/
def TcpTxItem.wanted (i : TcpTxItem) : Bool := i.pending && i.m_lost

namespace TcpTxBuffer

/-- The sequence number that RFC 6675 names: that of the first item lost, else of the first byte not sent if
the window has room for one, else, in recovery, of the first item that is neither SACKed nor retransmitted. -/
def named (b : TcpTxBuffer) (rWnd : UInt32) (isRecovery : Bool) : Option SequenceNumber32 :=
  match b.m_sentList.find? TcpTxItem.wanted with
  | some i => some i.m_startSeq
  | none =>
    if 0 < span b.m_appList ∧ b.m_sentSize < rWnd then some b.sentEnd
    else if isRecovery then (b.m_sentList.find? TcpTxItem.pending).map TcpTxItem.m_startSeq
    else none

/-- `CopyFromSequence` returns an item that is not SACKed, and no assertion fails. -/
def Copies (b : TcpTxBuffer) (numBytes : UInt32) (seq : SequenceNumber32) : Prop :=
  (∃ item b', b.copyFromSequence numBytes seq = some (some item, b') ∧ item.m_sacked = false) ∧
    b.copyAsserts 2 numBytes seq

/-- What `NextSeg` returns is a range that RFC 6675 names and that can be sent. -/
def NamesSendable (b : TcpTxBuffer) (rWnd : UInt32) (isRecovery : Bool) : Prop :=
  ∀ seq seqHigh, b.nextSeg rWnd isRecovery = some (seq, seqHigh) →
    (0 < (seqHigh.diff seq) ∧ seqHigh.diff seq ≤ b.m_segmentSize) ∧ b.named rWnd isRecovery = some seq ∧
      b.Copies (seqHigh.diff seq) seq

/-- A block of at most a segment from the number on was sent to its end, or does not wrap. -/
def Unwrapped (b : TcpTxBuffer) (seq : SequenceNumber32) : Prop :=
  b.sentEnd.ge (seq.add (min b.m_segmentSize (b.sizeFromSequence seq))) ∨
    seq.m_value.toNat + (min b.m_segmentSize (b.sizeFromSequence seq)).toNat < 2 ^ 32

/-- The first item lost does not run into new data past a wrap; without one, the window is not just full of
what was sent, and, when nothing is new, number 0 is not the first of several to be saved. -/
def Nameable (b : TcpTxBuffer) (rWnd : UInt32) (isRecovery : Bool) : Prop :=
  match b.m_sentList.find? TcpTxItem.wanted with
  | some i => b.Unwrapped i.m_startSeq
  | none =>
    if 0 < span b.m_appList then b.m_sentSize ≠ rWnd
    else isRecovery → ∀ i rest, b.m_sentList.filter TcpTxItem.pending = i :: rest → i.m_startSeq = ⟨0⟩ → rest = []

end TcpTxBuffer

/-- The number saved for rule 3 behind some items, where 0 is no number. -/
def savedFrom (saved : Option SequenceNumber32) : List TcpTxItem → Option SequenceNumber32
  | [] => saved
  | i :: rest => savedFrom (if (saved.getD ⟨0⟩).m_value = 0 then some i.m_startSeq else saved) rest

/-- The loop of `NextSeg` finds the first item wanted, else it has saved a number of those pending. -/
theorem nextLost_eq {s : SequenceNumber32} (isRecovery : Bool) (saved : Option SequenceNumber32)
    {items : List TcpTxItem} (hc : Contiguous s items) :
    TcpTxBuffer.nextLost isRecovery s saved items =
      match items.find? TcpTxItem.wanted with
      | some i => .inl i.m_startSeq
      | none => .inr (if isRecovery then savedFrom saved (items.filter TcpTxItem.pending) else saved) := by
  induction items generalizing s saved with
  | nil =>
    cases isRecovery <;> rfl
  | cons i items ih =>
    obtain ⟨rfl, hrest⟩ := contiguous_cons.mp hc
    have hnext : i.m_startSeq.add i.getSize = i.m_startSeq.advance i.m_packet.length := rfl
    rw [TcpTxBuffer.nextLost, hnext, List.find?_cons, List.filter_cons]
    by_cases hpending : i.pending
    · have htests : (!i.m_retrans && !i.m_sacked) = true := hpending
      rw [if_pos htests, if_pos hpending]
      cases hlost : i.m_lost with
      | true =>
        have hwanted : i.wanted = true := by rw [TcpTxItem.wanted, hpending, hlost]; rfl
        rw [if_pos rfl, hwanted]
      | false =>
        have hwanted : i.wanted = false := by rw [TcpTxItem.wanted, hpending, hlost]; rfl
        rw [if_neg Bool.false_ne_true, hwanted, ih _ hrest, ih _ hrest]
        cases isRecovery with
        | false => rw [Bool.and_false, if_neg Bool.false_ne_true]; rfl
        | true =>
          rw [Bool.and_true]
          simp only [savedFrom, beq_iff_eq, if_true]
          split <;> rfl
    · have htests : (!i.m_retrans && !i.m_sacked) = false := by simpa [TcpTxItem.pending] using hpending
      have hwanted : i.wanted = false := by rw [TcpTxItem.wanted, Bool.eq_false_iff.mpr hpending]; rfl
      rw [htests, if_neg Bool.false_ne_true, if_neg hpending, hwanted, ih _ hrest]

/-- A number other than 0 stays saved. -/
theorem savedFrom_nonzero {s : SequenceNumber32} (hs : s.m_value ≠ 0) (items : List TcpTxItem) :
    savedFrom (some s) items = some s := by
  induction items with
  | nil => rfl
  | cons i items ih =>
    rw [savedFrom, Option.getD_some, if_neg hs]
    exact ih

/-- The first number, or the second one when that is 0. -/
def firstSaved : List TcpTxItem → Option SequenceNumber32
  | [] => none
  | [i] => some i.m_startSeq
  | i :: j :: _ => some (if i.m_startSeq = ⟨0⟩ then j.m_startSeq else i.m_startSeq)

theorem savedFrom_none {items : List TcpTxItem} (hne : items.Pairwise fun i j => i.m_startSeq ≠ j.m_startSeq) :
    savedFrom none items = firstSaved items := by
  match items with
  | [] => rfl
  | [i] => rfl
  | i :: j :: rest =>
    rw [savedFrom, Option.getD_none, if_pos rfl]
    by_cases hzero : i.m_startSeq = ⟨0⟩
    · have hj : j.m_startSeq.m_value ≠ 0 := by
        intro hj
        exact (List.rel_of_pairwise_cons hne List.mem_cons_self) (hzero.trans (congrArg _ hj.symm))
      rw [firstSaved, if_pos hzero, savedFrom, Option.getD_some, hzero, if_pos rfl]
      exact savedFrom_nonzero hj rest
    · rw [firstSaved, if_neg hzero]
      exact savedFrom_nonzero (fun h => hzero (congrArg SequenceNumber32.mk h)) (j :: rest)

/-- Items that lie one after the other start at different numbers. -/
theorem pairwise_start {s : SequenceNumber32} {items : List TcpTxItem} (hc : Contiguous s items)
    (hf : Filled items) (hspan : span items < 2 ^ 31) :
    items.Pairwise fun i j => i.m_startSeq ≠ j.m_startSeq := by
  induction items generalizing s with
  | nil => exact .nil
  | cons i items ih =>
    obtain ⟨hi, hrest⟩ := contiguous_cons.mp hc
    obtain ⟨hpos, hfrest⟩ := filled_cons.mp hf
    rw [span_cons] at hspan
    refine .cons (fun j hj heq => ?_) (ih hrest hfrest (by omega))
    obtain ⟨pre, rest, rfl⟩ := List.append_of_mem hj
    rw [span_append, span_cons] at hspan
    have hstart := (contiguous_cons.mp (contiguous_append.mp hrest).2).1
    rw [SequenceNumber32.advance_advance] at hstart
    have hsame : s.advance 0 = s.advance (i.m_packet.length + span pre) := by
      rw [SequenceNumber32.advance_zero]
      exact hi.symm.trans (heq.trans hstart)
    rw [SequenceNumber32.advance_inj (by omega) (by omega)] at hsame
    omega

section Named

variable {b : TcpTxBuffer} {pre rest : List TcpTxItem} {i : TcpTxItem} {rWnd : UInt32} {isRecovery : Bool}

theorem Held.start_eq (h : Held b) (hsent : b.m_sentList = pre ++ i :: rest) :
    i.m_startSeq = b.m_firstByteSeq.advance (span pre) := by
  have hstarts := h.starts
  rw [hsent, contiguous_append, contiguous_cons] at hstarts
  exact hstarts.2.1

/-- From the first byte of an item that is not SACKed on, bytes are copied, unless they run into new ones and
past a wrap. -/
theorem Held.copies_sent (h : Held b) (hsent : b.m_sentList = pre ++ i :: rest) (hi : i.m_sacked = false)
    {n : UInt32} (hn : 0 < n) {s : Nat} (hs : s = min n.toNat (b.held - span pre)) :
    b.Copies n i.m_startSeq ↔
      span pre + s ≤ span b.m_sentList ∨ i.m_startSeq.m_value.toNat + s < 2 ^ 32 := by
  have hsmall : b.held < 2 ^ 31 := h.small
  have hheld : b.held = span b.m_sentList + span b.m_appList := rfl
  have hpos := (filled_cons.mp (filled_append.mp (hsent ▸ h.sent_filled)).2).1
  have hspan : span b.m_sentList = span pre + (i.m_packet.length + span rest) := by
    rw [hsent, span_append, span_cons]
  have hn' : 0 < n.toNat := UInt32.lt_iff_toNat_lt.mp hn
  rw [h.start_eq hsent, TcpTxBuffer.Copies, TcpTxBuffer.copyFromSequence, copyWithin_succ, TcpTxBuffer.copyAsserts,
    h.copyBranch_eq (by omega) n hs, if_neg (by omega)]
  by_cases hall : span pre + s ≤ span b.m_sentList
  · obtain ⟨item, b', heq, hsacked, hasserts⟩ := h.copy_sent hsent hi (n := s) (by omega) hall
    rw [if_pos hall]
    dsimp only
    rw [heq]
    exact iff_of_true ⟨⟨item, b', rfl, hsacked⟩, hasserts⟩ (.inl hall)
  · rw [if_neg hall, if_neg (by omega), if_neg (by omega), or_iff_right hall]
    by_cases hfit : (b.m_firstByteSeq.advance (span pre)).m_value.toNat + s < 2 ^ 32
    · rw [if_pos hfit]
      dsimp only
      have hpart : span b.m_sentList - span pre =
          min (UInt32.ofNat (span b.m_sentList - span pre)).toNat (b.held - span pre) := by
        rw [toNat_ofNat (by omega)]
        omega
      obtain ⟨item, b', heq, hsacked, hasserts⟩ := h.copy_sent hsent hi
        (n := span b.m_sentList - span pre) (by omega) (by omega)
      rw [copyWithin_succ, TcpTxBuffer.copyAsserts, h.copyBranch_eq (by omega) _ hpart, if_neg (by omega),
        if_pos (by omega)]
      dsimp only
      rw [heq]
      exact iff_of_true ⟨⟨item, b', rfl, hsacked⟩, hasserts⟩ hfit
    · rw [if_neg hfit]
      refine iff_of_false ?_ hfit
      rintro ⟨⟨item, b', heq, -⟩, -⟩
      cases heq

/-- New bytes are copied. -/
theorem Held.copies_unsent (h : Held b) (hclean : ∀ j ∈ b.m_appList, j.Clean) {n : UInt32} (hn : 0 < n)
    (hnew : 0 < span b.m_appList) : b.Copies n b.sentEnd := by
  have hsmall : b.held < 2 ^ 31 := h.small
  have hheld : b.held = span b.m_sentList + span b.m_appList := rfl
  have hn' : 0 < n.toNat := UInt32.lt_iff_toNat_lt.mp hn
  obtain ⟨item, b', heq, hsacked, hasserts⟩ := h.copy_unsent hclean
    (n := min n.toNat (b.held - span b.m_sentList)) (by omega) (by omega)
  rw [h.sentEnd, TcpTxBuffer.Copies, TcpTxBuffer.copyFromSequence, copyWithin_succ, TcpTxBuffer.copyAsserts,
    h.copyBranch_eq (by omega) n rfl, if_neg (by omega), if_neg (by omega), if_pos rfl]
  dsimp only
  rw [heq]
  exact ⟨⟨item, b', rfl, hsacked⟩, hasserts⟩

/-- The condition on a block at an item, in numbers. -/
theorem Held.unwrapped_iff (h : Held b) (hsent : b.m_sentList = pre ++ i :: rest) {s : Nat}
    (hs : s = min b.m_segmentSize.toNat (b.held - span pre)) :
    b.Unwrapped i.m_startSeq ↔
      span pre + s ≤ span b.m_sentList ∨ i.m_startSeq.m_value.toNat + s < 2 ^ 32 := by
  have hsmall : b.held < 2 ^ 31 := h.small
  have hheld : b.held = span b.m_sentList + span b.m_appList := rfl
  have hspan : span b.m_sentList = span pre + (i.m_packet.length + span rest) := by
    rw [hsent, span_append, span_cons]
  have hmin : min b.m_segmentSize (b.sizeFromSequence i.m_startSeq) = UInt32.ofNat s := by
    rw [h.start_eq hsent, h.sizeFromSequence (by omega), min_ofNat _ (by omega), hs]
  have hstop : i.m_startSeq.add (UInt32.ofNat s) = b.m_firstByteSeq.advance (span pre + s) := by
    rw [h.start_eq hsent, ← SequenceNumber32.advance_advance]
    rfl
  rw [TcpTxBuffer.Unwrapped, hmin, hstop, h.sentEnd, SequenceNumber32.ge_advance (by omega) (by omega),
    toNat_ofNat (by omega), decide_eq_true_eq]

/-- What follows when the loop of `NextSeg` found an item. -/
theorem Held.namesSendable_lost (h : Held b) (hseg : 0 < b.m_segmentSize)
    (hfind : b.m_sentList.find? TcpTxItem.wanted = some i) :
    b.NamesSendable rWnd isRecovery ↔ b.Unwrapped i.m_startSeq := by
  obtain ⟨hwanted, pre, rest, hsent, -⟩ := List.find?_eq_some_iff_append.mp hfind
  have hsacked : i.m_sacked = false := by
    rw [TcpTxItem.wanted, TcpTxItem.pending, Bool.and_eq_true, Bool.and_eq_true, Bool.not_eq_true',
      Bool.not_eq_true'] at hwanted
    exact hwanted.1.2
  have hnext : b.nextSeg rWnd isRecovery = some (i.m_startSeq, i.m_startSeq.add b.m_segmentSize) := by
    rw [TcpTxBuffer.nextSeg, nextLost_eq isRecovery none h.starts, hfind]
  have hdiff := SequenceNumber32.add_diff_self i.m_startSeq b.m_segmentSize
  have hnamed : b.named rWnd isRecovery = some i.m_startSeq := by
    rw [TcpTxBuffer.named, hfind]
  rw [h.unwrapped_iff hsent rfl, ← h.copies_sent hsent hsacked hseg rfl]
  constructor
  · intro hall
    have := (hall _ _ hnext).2.2
    rwa [hdiff] at this
  · intro hcopies seq seqHigh hsome
    obtain ⟨rfl, rfl⟩ := Prod.mk.inj (Option.some.inj (hnext.symm.trans hsome))
    rw [hdiff]
    exact ⟨⟨hseg, UInt32.le_refl _⟩, hnamed, hcopies⟩

/-- What follows when nothing is lost and there is new data. -/
theorem Held.namesSendable_new (h : Held b) (hclean : ∀ j ∈ b.m_appList, j.Clean) (hseg : 0 < b.m_segmentSize)
    (hfind : b.m_sentList.find? TcpTxItem.wanted = none) (hnew : 0 < span b.m_appList) :
    b.NamesSendable rWnd isRecovery ↔ b.m_sentSize ≠ rWnd := by
  have hsmall : b.held < 2 ^ 31 := h.small
  have hheld : b.held = span b.m_sentList + span b.m_appList := rfl
  have hsize : 0 < b.sizeFromSequence b.sentEnd := by
    rw [h.sentEnd, h.sizeFromSequence (by omega), UInt32.lt_iff_toNat_lt, toNat_ofNat (by omega)]
    show 0 < _
    omega
  have hnext : b.nextSeg rWnd isRecovery =
      if b.m_sentSize ≤ rWnd then some (b.sentEnd, b.sentEnd.add (min b.m_segmentSize (rWnd - b.m_sentSize)))
      else none := by
    rw [TcpTxBuffer.nextSeg, nextLost_eq isRecovery none h.starts, hfind]
    dsimp only
    rw [if_pos hsize]
  constructor
  · rintro hall rfl
    rw [if_pos (UInt32.le_refl _)] at hnext
    have := (hall _ _ hnext).1.1
    rw [SequenceNumber32.add_diff_self, UInt32.sub_self, UInt32.lt_iff_toNat_lt, toNat_min] at this
    exact absurd this (Nat.not_lt.mpr (Nat.min_le_right _ _))
  · intro hne seq seqHigh hsome
    rw [hnext] at hsome
    split at hsome
    · next hle =>
      obtain ⟨rfl, rfl⟩ := Prod.mk.inj (Option.some.inj hsome)
      have hless : b.m_sentSize < rWnd := by
        rw [UInt32.lt_iff_toNat_lt]
        rw [UInt32.le_iff_toNat_le] at hle
        rw [Ne, ← UInt32.toNat_inj] at hne
        omega
      have hroom : 0 < min b.m_segmentSize (rWnd - b.m_sentSize) := by
        rw [UInt32.lt_iff_toNat_lt] at hless hseg ⊢
        rw [toNat_min, UInt32.toNat_sub_of_le _ _ hle]
        show 0 < min _ _
        exact Nat.lt_min.mpr ⟨hseg, Nat.sub_pos_of_lt hless⟩
      rw [SequenceNumber32.add_diff_self]
      refine ⟨⟨hroom, min_le_left _ _⟩, ?_, h.copies_unsent hclean hroom hnew⟩
      rw [TcpTxBuffer.named, hfind]
      dsimp only
      rw [if_pos ⟨hnew, hless⟩]
    · cases hsome

/-- What follows when nothing is lost and nothing is new. -/
theorem Held.namesSendable_old (h : Held b) (hseg : 0 < b.m_segmentSize)
    (hfind : b.m_sentList.find? TcpTxItem.wanted = none) (hold : span b.m_appList = 0) :
    b.NamesSendable rWnd isRecovery ↔ (isRecovery → ∀ i rest,
      b.m_sentList.filter TcpTxItem.pending = i :: rest → i.m_startSeq = ⟨0⟩ → rest = []) := by
  have hheld : b.held = span b.m_sentList + span b.m_appList := rfl
  have hsmall : b.held < 2 ^ 31 := h.small
  have hsize : ¬0 < b.sizeFromSequence b.sentEnd := by
    rw [h.sentEnd, h.sizeFromSequence (by omega), UInt32.lt_iff_toNat_lt, toNat_ofNat (by omega)]
    show ¬0 < _
    omega
  have hnext : b.nextSeg rWnd isRecovery =
      (if isRecovery then savedFrom none (b.m_sentList.filter TcpTxItem.pending) else none).map fun seq =>
        (seq, seq.add b.m_segmentSize) := by
    rw [TcpTxBuffer.nextSeg, nextLost_eq isRecovery none h.starts, hfind]
    dsimp only
    rw [if_neg hsize]
  have hnamed : b.named rWnd isRecovery =
      if isRecovery then (b.m_sentList.filter TcpTxItem.pending).head?.map TcpTxItem.m_startSeq else none := by
    rw [TcpTxBuffer.named, hfind]
    dsimp only
    rw [if_neg (by omega), List.head?_filter]
  cases isRecovery with
  | false =>
    refine iff_of_true (fun seq seqHigh hsome => ?_) (fun h => absurd h Bool.false_ne_true)
    rw [hnext] at hsome
    cases hsome
  | true =>
    have hpairs := (pairwise_start h.starts h.sent_filled (by omega)).filter TcpTxItem.pending
    rw [if_pos rfl, savedFrom_none hpairs] at hnext
    rw [if_pos rfl] at hnamed
    -- a block at an item ends at the end of the data
    have hcopies : ∀ i ∈ b.m_sentList.filter TcpTxItem.pending, b.Copies b.m_segmentSize i.m_startSeq := by
      intro i hi
      obtain ⟨hmem, hpending⟩ := List.mem_filter.mp hi
      obtain ⟨pre, rest, hsent⟩ := List.append_of_mem hmem
      have hsacked : i.m_sacked = false := by
        rw [TcpTxItem.pending, Bool.and_eq_true, Bool.not_eq_true', Bool.not_eq_true'] at hpending
        exact hpending.2
      refine (h.copies_sent hsent hsacked hseg rfl).mpr (.inl ?_)
      have hspan : span b.m_sentList = span pre + (i.m_packet.length + span rest) := by
        rw [hsent, span_append, span_cons]
      omega
    have hright : ∀ i rest, b.m_sentList.filter TcpTxItem.pending = i :: rest →
        b.nextSeg rWnd true = some (i.m_startSeq, i.m_startSeq.add b.m_segmentSize) →
          b.NamesSendable rWnd true := by
      intro i rest hfilter hsome seq seqHigh hsome'
      obtain ⟨rfl, rfl⟩ := Prod.mk.inj (Option.some.inj (hsome.symm.trans hsome'))
      rw [SequenceNumber32.add_diff_self, hnamed, hfilter]
      exact ⟨⟨hseg, UInt32.le_refl _⟩, rfl, hcopies i (hfilter ▸ List.mem_cons_self)⟩
    simp only [forall_true_left]
    rcases hfilter : b.m_sentList.filter TcpTxItem.pending with _ | ⟨i, _ | ⟨j, rest⟩⟩
    · rw [hfilter] at hnext
      refine iff_of_true (fun seq seqHigh hsome => ?_) (fun i rest h => absurd h.symm (List.cons_ne_nil _ _))
      rw [hnext] at hsome
      cases hsome
    · rw [hfilter] at hnext
      refine iff_of_true (hright i [] hfilter hnext) fun j rest h _ => ?_
      exact (List.cons.inj h).2.symm
    · rw [hfilter] at hnext hpairs
      rw [firstSaved] at hnext
      by_cases hzero : i.m_startSeq = ⟨0⟩
      · rw [if_pos hzero] at hnext
        refine iff_of_false (fun hall => ?_) fun hall => List.cons_ne_nil _ _ (hall i _ rfl hzero)
        have hname := (hall _ _ hnext).2.1
        rw [hnamed, hfilter] at hname
        exact List.rel_of_pairwise_cons hpairs List.mem_cons_self (Option.some.inj hname)
      · rw [if_neg hzero] at hnext
        refine iff_of_true (hright i _ hfilter hnext) fun i' rest' h hzero' => ?_
        rw [(List.cons.inj h).1] at hzero
        exact absurd hzero' hzero

/-- `NextSeg` names sendable data exactly when it can. -/
theorem Held.namesSendable_iff (h : Held b) (hclean : ∀ j ∈ b.m_appList, j.Clean) (hseg : 0 < b.m_segmentSize) :
    b.NamesSendable rWnd isRecovery ↔ b.Nameable rWnd isRecovery := by
  rw [TcpTxBuffer.Nameable]
  cases hfind : b.m_sentList.find? TcpTxItem.wanted with
  | some i => exact h.namesSendable_lost hseg hfind
  | none =>
    dsimp only
    split
    · next hnew => exact h.namesSendable_new hclean hseg hfind hnew
    · next hold => exact h.namesSendable_old hseg hfind (by omega)

end Named

/-! ### Runs -/

/-- Nothing that was not sent has a mark. -/
def TcpTxBuffer.Fresh (b : TcpTxBuffer) : Prop := ∀ i ∈ b.m_appList, i.Clean

/-- Fewer than half the sequence space of bytes are buffered, and an item that is given back has no marks. -/
def TxCall.Fresh (b : TcpTxBuffer) : TxCall → Prop
  | add p => b.held + p.length < 2 ^ 31
  | resetLastSegmentSent => ∀ i ∈ b.m_sentList.getLast?, i.Clean
  | _ => True

theorem TxCall.Fresh.fits {b : TcpTxBuffer} {c : TxCall} (h : c.Fresh b) : Outbound.Fits b c := by
  cases c with
  | add p => exact h
  | _ => trivial

section Runs

variable {b b' : TcpTxBuffer}

theorem Copied.fresh (hb : b.Fresh) {off n : Nat} {r : TcpTxItem × TcpTxBuffer} (hr : Copied b off n r) :
    r.2.Fresh := by
  cases hr with
  | resent hsent hpre hle hends => exact hb
  | sentNew happ hoff hends =>
    obtain ⟨hclean, -⟩ := takeOut_clean [] b.m_retrans b.nextNode hends fun j hj => hb j (by rw [happ]; exact hj)
    intro i hi
    rcases List.mem_append.mp hi with hi | hi
    · exact hclean i (by simp [Fetched.list, hi])
    · exact hclean i (by simp [Fetched.list, hi])

theorem Discard.fresh {o : Nat} (hd : Discard o b b') (hb : b.Fresh) : b'.Fresh := by
  induction hd with
  | done => exact hb
  | part => exact hb
  | full _ _ _ ih => exact ih hb
  | move _ _ _ hr _ ih => exact ih (hr.fresh hb)

theorem TcpTxBuffer.Fresh.remark (hb : b.Fresh) (hr : Remarked b b') : b'.Fresh := by
  intro i hi
  rw [hr.app_eq] at hi
  exact hb i hi

/-- Every call leaves what was not sent without marks. -/
theorem TcpTxBuffer.Fresh.step (h : Held b) (hb : b.Fresh) {c : TxCall} (hc : c.Fresh b)
    (hrun : c.run b = some b') : b'.Fresh := by
  cases c with
  | add p =>
    obtain rfl := Option.some.inj hrun
    rw [TcpTxBuffer.add]
    split
    · split
      · intro i hi
        rcases List.mem_append.mp hi with hi | hi
        · exact hb i hi
        · rw [List.mem_singleton.mp hi]
          exact ⟨rfl, rfl, rfl⟩
      · exact hb
    · exact hb
  | copyFromSequence numBytes seq =>
    obtain ⟨r, heq, rfl⟩ := Option.map_eq_some_iff.mp hrun
    rcases h.copy_cases numBytes seq with hnone | hnull | ⟨off, n, r', rfl, -, -, hsome, hr⟩
    · rw [hnone] at heq
      cases heq
    · rw [hnull] at heq
      obtain rfl := Option.some.inj heq
      exact hb
    · rw [hsome] at heq
      obtain rfl := Option.some.inj heq
      exact hr.fresh hb
  | discardUpTo seq =>
    by_cases hge : b.m_firstByteSeq.ge seq = true
    · change b.discardUpTo seq = _ at hrun
      rw [TcpTxBuffer.discardUpTo, if_pos hge] at hrun
      obtain rfl := Option.some.inj hrun
      exact hb
    rw [Bool.not_eq_true] at hge
    obtain ⟨o, ho, rfl⟩ := b.m_firstByteSeq.exists_advance seq
    obtain ⟨b₁, hd, -, heq⟩ := h.discardUpTo_eq ho hge
    obtain ⟨b₃, hmove, rfl⟩ := Option.map_eq_some_iff.mp (heq.symm.trans hrun)
    have hfresh : TcpTxBuffer.Fresh { b₁ with m_firstByteSeq := b.m_firstByteSeq.advance o } := hd.fresh hb
    exact fun i hi => hfresh.remark (moveSackFromHead_remarked hmove) i hi
  | update list =>
    obtain ⟨⟨n, b₁⟩, heq, rfl⟩ := Option.map_eq_some_iff.mp hrun
    exact hb.remark (update_remarked heq)
  | addRenoSack => exact hb.remark (addRenoSack_remarked hrun)
  | resetRenoSack =>
    obtain rfl := Option.some.inj hrun
    exact hb
  | markHeadAsLost =>
    obtain rfl := Option.some.inj hrun
    exact hb.remark (markHeadAsLost_remarked _)
  | deleteRetransmittedFlagFromHead =>
    obtain rfl := Option.some.inj hrun
    exact hb.remark (deleteRetransmittedFlagFromHead_remarked _)
  | setSentListLost resetSack =>
    obtain rfl := Option.some.inj hrun
    exact hb.remark (setSentListLost_remarked _ _)
  | resetSentList =>
    obtain rfl := Option.some.inj hrun
    intro i hi
    rcases List.mem_append.mp hi with hi | hi
    · obtain ⟨j, -, rfl⟩ := List.mem_map.mp hi
      exact ⟨rfl, rfl, rfl⟩
    · exact hb i hi
  | resetLastSegmentSent =>
    obtain rfl := Option.some.inj hrun
    rw [TcpTxBuffer.resetLastSegmentSent]
    cases hlast : b.m_sentList.getLast? with
    | none => exact hb
    | some item =>
      intro i hi
      rcases List.mem_cons.mp hi with rfl | hi
      · exact hc i hlast
      · exact hb i hi

theorem TxReached.fresh (hb : TxReached (fun b c => c.Fresh b) b) : Held b ∧ b.Fresh := by
  induction hb with
  | start h => exact ⟨h.held, fun i hi => absurd (h.appList ▸ hi) List.not_mem_nil⟩
  | step _ hc hrun ih => exact ⟨ih.1.run hc.fits hrun, ih.2.step ih.1 hc hrun⟩

end Runs

/-- In every state reached `NextSeg` names sendable data exactly when it can. -/
theorem txBuffer_nextSeg (b : TcpTxBuffer) (hb : TxReached (fun b c => c.Fresh b) b) (hseg : 0 < b.m_segmentSize)
    (rWnd : UInt32) (isRecovery : Bool) : b.NamesSendable rWnd isRecovery ↔ b.Nameable rWnd isRecovery :=
  hb.fresh.1.namesSendable_iff hb.fresh.2 hseg

/-- Two of four bytes were sent, in a segment. -/
def twoSent : TcpTxBuffer where
  m_firstByteSeq := ⟨1⟩
  m_appList := [{ node := 0, m_startSeq := ⟨2⟩, m_packet := [3, 4] }]
  m_sentList := [{ node := 1, m_startSeq := ⟨1⟩, m_packet := [1, 2] }]
  m_size := 4
  m_sentSize := 2
  m_segmentSize := 2
  nextNode := 2

theorem reached_twoSent : TxReached (fun b c => c.Fresh b) twoSent := by
  have h0 : TxReached (fun b c => c.Fresh b) { m_firstByteSeq := ⟨1⟩, m_segmentSize := 2 } :=
    .start ⟨rfl, rfl, rfl, rfl, rfl, rfl, rfl, rfl⟩
  have h1 := h0.step (c := .add [1, 2, 3, 4]) (by show 0 + 4 < 2 ^ 31; decide) rfl
  exact h1.step (c := .copyFromSequence 2 ⟨1⟩) trivial (by rfl)

theorem txBuffer_nextSeg_two : twoSent.NamesSendable 4 false :=
  (txBuffer_nextSeg twoSent reached_twoSent (by decide) 4 false).mpr (show (2 : UInt32) ≠ 4 by decide)

/-- A window that is just full of what was sent: a range of no bytes. -/
theorem not_txBuffer_nextSeg_full :
    TxReached (fun b c => c.Fresh b) twoSent ∧ twoSent.nextSeg 2 false = some (⟨3⟩, ⟨3⟩) ∧
      ¬twoSent.NamesSendable 2 false :=
  ⟨reached_twoSent, rfl, fun h => absurd (h ⟨3⟩ ⟨3⟩ rfl).1.1 (by decide)⟩

end Ns3.Tcp
