import Ns3.Tcp.TxStream

/-!
# The SACK scoreboard

The counters of the send buffer are the bytes of the items with each mark. They stay so as long
as items with different marks are not merged, a SACKed head gets no lost mark, a Reno SACK does
not fall on a lost item, and an item with marks is not given back to the application.
-/

namespace Ns3.Tcp

open Ns3.Network Ns3.Lib

/-- The bytes of the items with a mark. -/
def share (mark : TcpTxItem → Bool) : List TcpTxItem → Nat
  | [] => 0
  | i :: rest => (if mark i then i.m_packet.length else 0) + share mark rest

section Share

variable {mark : TcpTxItem → Bool} {l l' : List TcpTxItem} {i : TcpTxItem}

@[simp] theorem share_nil (mark : TcpTxItem → Bool) : share mark [] = 0 := rfl

@[simp] theorem share_cons (mark : TcpTxItem → Bool) (i : TcpTxItem) (l : List TcpTxItem) :
    share mark (i :: l) = (if mark i then i.m_packet.length else 0) + share mark l := rfl

@[simp] theorem share_append (mark : TcpTxItem → Bool) (l l' : List TcpTxItem) :
    share mark (l ++ l') = share mark l + share mark l' := by
  induction l with
  | nil => simp
  | cons i l ih => rw [List.cons_append, share_cons, share_cons, ih, Nat.add_assoc]

theorem share_le (mark : TcpTxItem → Bool) (l : List TcpTxItem) : share mark l ≤ span l := by
  induction l with
  | nil => exact Nat.le_refl _
  | cons i l ih =>
    rw [share_cons, span_cons]
    split
    · omega
    · omega

theorem share_none (h : ∀ i ∈ l, mark i = false) : share mark l = 0 := by
  induction l with
  | nil => rfl
  | cons i l ih =>
    rw [share_cons, h i (by simp), ih fun j hj => h j (List.mem_cons_of_mem _ hj)]
    rfl

theorem share_all (h : ∀ i ∈ l, mark i = true) : share mark l = span l := by
  induction l with
  | nil => rfl
  | cons i l ih =>
    rw [share_cons, h i (by simp), ih fun j hj => h j (List.mem_cons_of_mem _ hj), span_cons]
    rfl

/-- Items that do not have both marks. -/
theorem share_add_le {mark' : TcpTxItem → Bool} (h : ∀ i ∈ l, ¬ (mark i = true ∧ mark' i = true)) :
    share mark l + share mark' l ≤ span l := by
  induction l with
  | nil => exact Nat.le_refl _
  | cons i l ih =>
    have hi := h i (by simp)
    have := ih fun j hj => h j (List.mem_cons_of_mem _ hj)
    rw [share_cons, share_cons, span_cons]
    cases hm : mark i with
    | false =>
      cases hm' : mark' i with
      | false => simp; omega
      | true => simp; omega
    | true =>
      cases hm' : mark' i with
      | false => simp; omega
      | true => exact absurd ⟨hm, hm'⟩ hi

/-- A counter stays when the mark it counts does. -/
theorem count_same {i' : TcpTxItem} {count : UInt32} (hp : i'.m_packet = i.m_packet)
    (hm : mark i' = mark i) (h : count = UInt32.ofNat (share mark (l ++ i :: l'))) :
    count = UInt32.ofNat (share mark (l ++ i' :: l')) := by
  rw [h, share_append, share_cons, share_append, share_cons, hm, hp]

/-- An item that gets a mark is added to its counter. -/
theorem count_add {i' : TcpTxItem} {count : UInt32} (hp : i'.m_packet = i.m_packet)
    (hm : mark i = false) (hm' : mark i' = true)
    (h : count = UInt32.ofNat (share mark (l ++ i :: l'))) :
    count + i.getSize = UInt32.ofNat (share mark (l ++ i' :: l')) := by
  rw [h, share_append, share_cons, share_append, share_cons, hm, hm', hp, TcpTxItem.getSize,
    Payload.getSize, ← UInt32.ofNat_add]
  congr 1
  simp only [if_true, Bool.false_eq_true, if_false]
  omega

/-- An item that loses a mark is taken off its counter. -/
theorem count_sub {i' : TcpTxItem} {count : UInt32} (hp : i'.m_packet = i.m_packet)
    (hm : mark i = true) (hm' : mark i' = false)
    (h : count = UInt32.ofNat (share mark (l ++ i :: l'))) :
    count - i.getSize = UInt32.ofNat (share mark (l ++ i' :: l')) := by
  have hadd : UInt32.ofNat (share mark (l ++ i' :: l')) + i'.getSize =
      UInt32.ofNat (share mark (l ++ i :: l')) := count_add hp.symm hm' hm rfl
  rw [h, ← hadd, TcpTxItem.getSize, TcpTxItem.getSize, hp]
  grind

end Share

/-- No item of the list is SACKed and lost. -/
def Apart (items : List TcpTxItem) : Prop := ∀ i ∈ items, ¬ (i.m_sacked = true ∧ i.m_lost = true)

theorem apart_cons {i : TcpTxItem} {items : List TcpTxItem} :
    Apart (i :: items) ↔ ¬ (i.m_sacked = true ∧ i.m_lost = true) ∧ Apart items := by
  simp [Apart]

theorem apart_append {l l' : List TcpTxItem} : Apart (l ++ l') ↔ Apart l ∧ Apart l' := by
  simp [Apart, or_imp, forall_and]

/-- The item has no marks. -/
def TcpTxItem.Clean (i : TcpTxItem) : Prop :=
  i.m_sacked = false ∧ i.m_lost = false ∧ i.m_retrans = false

/-- The counters are the bytes of the sent items with each mark; no item is SACKed and lost;
items not sent have no marks. -/
structure Counted (b : TcpTxBuffer) : Prop where
  sacked : b.m_sackedOut = UInt32.ofNat (share TcpTxItem.m_sacked b.m_sentList)
  lost : b.m_lostOut = UInt32.ofNat (share TcpTxItem.m_lost b.m_sentList)
  retrans : b.m_retrans = UInt32.ofNat (share TcpTxItem.m_retrans b.m_sentList)
  apart : Apart b.m_sentList
  clean : ∀ i ∈ b.m_appList, i.Clean

/-- The head is not SACKed. -/
def HeadFree (b : TcpTxBuffer) : Prop := ∀ i ∈ b.m_sentList.head?, i.m_sacked = false

/-! ### Taking a segment out -/

/-- Counters of a list of items. -/
structure Tally (sacked lost : Nat) (items : List TcpTxItem) (retrans : UInt32) : Prop where
  sacked_eq : share TcpTxItem.m_sacked items = sacked
  lost_eq : share TcpTxItem.m_lost items = lost
  retrans_eq : retrans = UInt32.ofNat (share TcpTxItem.m_retrans items)
  apart : Apart items

section TakeOut

variable {pre mid post : List TcpTxItem} {item : TcpTxItem} {k n node : Nat} {retrans : UInt32}

/-- The counters stay when the items merged have the same marks. -/
theorem takeOut_tally {sacked lost : Nat} (hends : Ends item mid k n)
    (hsame : ∀ j ∈ mid, j.m_sacked = item.m_sacked ∧ j.m_lost = item.m_lost)
    (h : Tally sacked lost (pre ++ item :: (mid ++ post)) retrans) :
    Tally sacked lost (takeOut pre item mid post k n retrans node).list
      (takeOut pre item mid post k n retrans node).m_retrans := by
  refine (takeOut_rule (P := fun l r _ => Tally sacked lost l r)
    (Q := fun i => i.m_sacked = item.m_sacked ∧ i.m_lost = item.m_lost)
    (fun _ _ _ h => h) (fun _ _ h => h) (fun _ _ _ h _ => h) ?_ ?_ hends ⟨rfl, rfl⟩ hsame h).1
  · intro l i l' r node k _ hk hlt h
    obtain ⟨h1, h2, h3, h4⟩ := h
    have hshare : ∀ mark : TcpTxItem → Bool, mark (i.front node k) = mark i →
        mark (i.back k) = mark i →
        share mark (l ++ i.front node k :: i.back k :: l') = share mark (l ++ i :: l') := by
      intro mark hf hb
      rw [share_append, share_cons, share_cons, share_append, share_cons, hf, hb]
      simp only [TcpTxItem.front, TcpTxItem.back, List.length_take, List.length_drop]
      split
      · omega
      · omega
    refine ⟨?_, ?_, ?_, ?_⟩
    · rw [hshare _ rfl rfl, h1]
    · rw [hshare _ rfl rfl, h2]
    · rw [hshare _ rfl rfl, h3]
    · rw [apart_append, apart_cons] at h4
      rw [apart_append, apart_cons, apart_cons]
      exact ⟨h4.1, h4.2.1, h4.2.1, h4.2.2⟩
  · intro l i j l' r node hi hj h
    obtain ⟨h1, h2, h3, h4⟩ := h
    have hsacked : j.m_sacked = i.m_sacked := hj.1.trans hi.1.symm
    have hlost : j.m_lost = i.m_lost := hj.2.trans hi.2.symm
    refine ⟨?_, ?_, ?_, ?_⟩
    · rw [← h1]
      simp only [share_append, share_cons, mergeItems, hsacked, List.length_append]
      split
      · omega
      · omega
    · rw [← h2]
      simp only [share_append, share_cons, mergeItems, hlost, List.length_append]
      split
      · omega
      · omega
    · simp only [share_append, share_cons, mergeItems, UInt32.ofNat_add] at h3 ⊢
      rw [h3, TcpTxItem.getSize, TcpTxItem.getSize, Payload.getSize, Payload.getSize]
      cases i.m_retrans with
      | false =>
        cases j.m_retrans with
        | false => simp
        | true =>
          simp
          grind
      | true =>
        cases j.m_retrans with
        | false =>
          simp
          grind
        | true =>
          simp [UInt32.ofNat_add]
          grind
    · rw [apart_append, apart_cons, apart_cons] at h4
      rw [apart_append, apart_cons]
      exact ⟨h4.1, h4.2.1, h4.2.2.2⟩

/-- A segment of items without marks has none, and leaves `m_retrans` alone. -/
theorem takeOut_clean (pre : List TcpTxItem) (retrans : UInt32) (node : Nat) (hends : Ends item mid k n)
    (h : ∀ j ∈ pre ++ item :: (mid ++ post), j.Clean) :
    (∀ j ∈ (takeOut pre item mid post k n retrans node).list, j.Clean) ∧
      (takeOut pre item mid post k n retrans node).m_retrans = retrans := by
  refine (takeOut_rule (P := fun l r _ => (∀ j ∈ l, j.Clean) ∧ r = retrans)
    (Q := TcpTxItem.Clean) (fun _ _ _ h => h) (fun _ _ h => h)
    (fun _ i j hi hj => ⟨hi.1, hi.2.1, by simp [mergeItems, hi.2.2]⟩) ?_ ?_ hends
    (h item (by simp)) (fun j hj => h j (by simp [hj])) ⟨h, rfl⟩).1
  · rintro l i l' r node k hi - - ⟨hl, hr⟩
    refine ⟨fun j hj => ?_, hr⟩
    simp only [List.mem_append, List.mem_cons] at hj
    rcases hj with hj | rfl | rfl | hj
    · exact hl j (by simp [hj])
    · exact hi
    · exact hi
    · exact hl j (by simp [hj])
  · rintro l i j l' r node hi hj ⟨hl, hr⟩
    refine ⟨fun x hx => ?_, ?_⟩
    · simp only [List.mem_append, List.mem_cons] at hx
      rcases hx with hx | rfl | hx
      · exact hl x (by simp [hx])
      · exact ⟨hi.1, hi.2.1, by simp [mergeItems, hi.2.2]⟩
      · exact hl x (by simp [hx])
    · rw [mergeItems]
      simp [hi.2.2, hj.2.2, hr]

end TakeOut

/-! ### The calls -/

/-- How far a sequence number lies behind the head. -/
def TcpTxBuffer.offset (b : TcpTxBuffer) (seq : SequenceNumber32) : Nat :=
  (seq.diff b.m_firstByteSeq).toNat

/-- The item has one of the `n` bytes from `seq` on. -/
def TcpTxBuffer.Meets (b : TcpTxBuffer) (n : Nat) (seq : SequenceNumber32) (i : TcpTxItem) : Prop :=
  b.offset seq < b.offset i.m_startSeq + i.m_packet.length ∧
    b.offset i.m_startSeq < b.offset seq + n

instance (b : TcpTxBuffer) (n : Nat) (seq : SequenceNumber32) (i : TcpTxItem) :
    Decidable (b.Meets n seq i) :=
  inferInstanceAs (Decidable (_ ∧ _))

/-- The first item not SACKed, which `AddRenoSack` SACKs, is not lost. -/
def NextKept (items : List TcpTxItem) : Prop :=
  ∀ i ∈ items.find? fun i => !i.m_sacked, i.m_lost = false

namespace TxCall

/-- Fewer than half the sequence space of bytes are buffered, and what is copied starts between
the head and the end of what was sent, not inside a SACKed item. -/
def InDomain (b : TcpTxBuffer) : TxCall → Prop
  | add p => b.held + p.length < 2 ^ 31
  | copyFromSequence _ seq => seq.ge b.m_firstByteSeq = true ∧ b.sentEnd.ge seq = true ∧
      ∀ i ∈ b.m_sentList, i.m_sacked = true → ¬ b.Meets 1 seq i
  | _ => True

/-- The call leaves no mark unaccounted for: what is copied starts with an item, or its items
have the same marks; a head left SACKed by `DiscardUpTo`, or a Reno SACK, does not mark a lost
item; no SACK block covers the head; and an item given back has no marks. -/
def Accounted (b : TcpTxBuffer) : TxCall → Prop
  | copyFromSequence numBytes seq => (∃ i ∈ b.m_sentList, i.m_startSeq = seq) ∨
      ∀ i ∈ b.m_sentList, ∀ j ∈ b.m_sentList, b.Meets numBytes.toNat seq i →
        b.Meets numBytes.toNat seq j → j.m_sacked = i.m_sacked ∧ j.m_lost = i.m_lost
  | discardUpTo seq => ∀ pre i rest, b.m_sentList = pre ++ i :: rest → b.Meets 1 seq i →
      i.m_sacked = true → NextKept rest
  | update list => ∀ i ∈ b.m_sentList.head?, ∀ block ∈ list,
      (b.m_firstByteSeq.ge block.first && (b.m_firstByteSeq.add i.getSize).le block.second) = false
  | addRenoSack => NextKept b.m_sentList.tail
  | resetLastSegmentSent => ∀ i ∈ b.m_sentList.getLast?, i.Clean
  | _ => True

end TxCall

section Calls

variable {b : TcpTxBuffer}

theorem TxCall.InDomain.fits {c : TxCall} (h : c.InDomain b) : Outbound.Fits b c := by
  cases c with
  | add p => exact h
  | _ => trivial

/-- An item lies as far behind the head as the items before it. -/
theorem Held.offset_start (h : Held b) {pre rest : List TcpTxItem} {i : TcpTxItem}
    (hsent : b.m_sentList = pre ++ i :: rest) : b.offset i.m_startSeq = span pre := by
  have hc := h.starts
  have hsmall := h.small
  rw [hsent] at hc hsmall
  rw [span_append] at hsmall
  have hd := SequenceNumber32.toNat_diff_advance (s := b.m_firstByteSeq) (p := span pre) (q := 0)
    (by omega) (by omega)
  rw [SequenceNumber32.advance_zero, Nat.sub_zero] at hd
  rw [TcpTxBuffer.offset, (contiguous_append.mp hc).2.1, hd]

theorem TcpTxBuffer.offset_advance (b : TcpTxBuffer) {off : Nat} (hoff : off < 2 ^ 32) :
    b.offset (b.m_firstByteSeq.advance off) = off := by
  have hd := SequenceNumber32.toNat_diff_advance (s := b.m_firstByteSeq) (p := off) (q := 0)
    (by omega) (by omega)
  rwa [SequenceNumber32.advance_zero, Nat.sub_zero] at hd

/-- A block that starts with an item ends in it, or in the next one when that is not SACKed and as
lost as it is. -/
theorem limited_mid {item : TcpTxItem} {mid post : List TcpTxItem} {k n : Nat}
    (hends : Ends item mid k (limitAt k item (mid ++ post) n)) (hk : k = 0) :
    ∀ j ∈ mid, j.m_sacked = false ∧ j.m_lost = item.m_lost := by
  subst hk
  cases mid with
  | nil => simp
  | cons next m =>
    have h1 := hends.least [] next m rfl
    rw [limitAt.eq_def, if_pos rfl] at h1
    dsimp only [List.cons_append] at h1
    rw [span_nil] at h1
    by_cases hmerge : (!next.m_sacked && item.m_lost == next.m_lost) = true
    · have hm : m = [] := by
        cases m with
        | nil => rfl
        | cons x m' =>
          have h2 := hends.least [next] x m' rfl
          rw [limitAt.eq_def, if_pos rfl] at h2
          dsimp only [List.cons_append] at h2
          rw [if_pos hmerge, span_cons, span_nil] at h2
          omega
      rw [Bool.and_eq_true, Bool.not_eq_true', beq_iff_eq] at hmerge
      intro j hj
      rw [hm, List.mem_singleton] at hj
      rw [hj]
      exact ⟨hmerge.1, hmerge.2.symm⟩
    · rw [if_neg hmerge] at h1
      omega

/-- The items of a block that is retransmitted have bytes of the block asked for. -/
theorem Held.meets (h : Held b) {pre mid post : List TcpTxItem} {item : TcpTxItem} {off n : Nat}
    {numBytes : UInt32} (hsent : b.m_sentList = pre ++ item :: (mid ++ post))
    (hpre : span pre ≤ off)
    (hends : Ends item mid (off - span pre) (limitAt (off - span pre) item (mid ++ post) n))
    (hn : n ≤ numBytes.toNat) :
    ∀ j ∈ item :: mid, b.Meets numBytes.toNat (b.m_firstByteSeq.advance off) j := by
  have hsmall := h.small
  have hspan : span b.m_sentList = span pre + (item.m_packet.length + (span mid + span post)) := by
    rw [hsent, span_append, span_cons, span_append]
  have hstart := hends.start
  have hpos := hends.pos
  have hsmall : off < 2 ^ 32 := by omega
  have hoff := b.offset_advance hsmall
  have hlim := limitAt_le (off - span pre) item (mid ++ post) n
  intro j hj
  rw [TcpTxBuffer.Meets, hoff]
  rcases List.mem_cons.mp hj with rfl | hj
  · rw [h.offset_start hsent]
    omega
  · obtain ⟨m, m', rfl⟩ := List.append_of_mem hj
    have hleast := hends.least m j m' rfl
    have hj : b.m_sentList = (pre ++ item :: m) ++ j :: (m' ++ post) := by
      rw [hsent]
      simp
    have hjoff := h.offset_start hj
    rw [span_append, span_cons] at hjoff
    omega

/-- An item that starts where a block does is the one that holds its first byte. -/
theorem Held.start_of_mem (h : Held b) {pre rest : List TcpTxItem} {item i : TcpTxItem} {off : Nat}
    (hsent : b.m_sentList = pre ++ item :: rest) (hpre : span pre ≤ off)
    (hoff : off < span pre + item.m_packet.length) (hi : i ∈ b.m_sentList)
    (hseq : i.m_startSeq = b.m_firstByteSeq.advance off) : off - span pre = 0 := by
  have hsmall := h.small
  have := eq_of_start (hsent ▸ h.starts) (hsent ▸ h.sent_filled) (by rw [← hsent]; omega) hpre
    hoff (hsent ▸ hi) hseq
  omega

/-- The item that holds the first byte of a block meets it. -/
theorem Held.meets_first (h : Held b) {pre rest : List TcpTxItem} {item : TcpTxItem} {off : Nat}
    (hsent : b.m_sentList = pre ++ item :: rest) (hpre : span pre ≤ off)
    (hoff : off < span pre + item.m_packet.length) :
    b.Meets 1 (b.m_firstByteSeq.advance off) item := by
  have hsmall := h.small
  rw [hsent, span_append, span_cons] at hsmall
  rw [TcpTxBuffer.Meets, b.offset_advance (by omega), h.offset_start hsent]
  omega

/-- The items of a block that is retransmitted have the same marks. -/
theorem Held.same_marks (h : Held b) {pre mid post : List TcpTxItem} {item : TcpTxItem}
    {off n : Nat} {numBytes : UInt32} (hsent : b.m_sentList = pre ++ item :: (mid ++ post))
    (hpre : span pre ≤ off)
    (hends : Ends item mid (off - span pre) (limitAt (off - span pre) item (mid ++ post) n))
    (hn : n ≤ numBytes.toNat)
    (hdom : (TxCall.copyFromSequence numBytes (b.m_firstByteSeq.advance off)).InDomain b)
    (hacc : (TxCall.copyFromSequence numBytes (b.m_firstByteSeq.advance off)).Accounted b) :
    ∀ j ∈ mid, j.m_sacked = item.m_sacked ∧ j.m_lost = item.m_lost := by
  have hmeets := h.meets hsent hpre hends hn
  rcases hacc with ⟨i, hi, hseq⟩ | hsame
  · have hstart := hends.start
    have hzero := h.start_of_mem hsent hpre (by omega) hi hseq
    have hfree : item.m_sacked = false := by
      rw [← Bool.not_eq_true]
      exact fun hs => hdom.2.2 item (by simp [hsent]) hs (h.meets_first hsent hpre (by omega))
    rw [hfree]
    exact limited_mid hends hzero
  · intro j hj
    exact hsame item (by simp [hsent]) j (by simp [hsent, hj]) (hmeets item (by simp))
      (hmeets j (by simp [hj]))

/-- A retransmission keeps the counters. -/
theorem Counted.resent {f : Fetched} (hc : Counted b)
    (ht : Tally (share TcpTxItem.m_sacked b.m_sentList) (share TcpTxItem.m_lost b.m_sentList)
      f.list f.m_retrans) : Counted (b.resent f).2 := by
  obtain ⟨h1, h2, h3, h4⟩ := ht
  rw [Fetched.list] at h1 h2 h3 h4
  have hshare : ∀ mark : TcpTxItem → Bool,
      mark { f.outItem with m_retrans := true } = mark f.outItem →
      share mark (f.before ++ { f.outItem with m_retrans := true } :: f.after) =
        share mark (f.before ++ f.outItem :: f.after) := by
    intro mark hm
    rw [share_append, share_cons, hm, share_append, share_cons]
  refine ⟨?_, ?_, ?_, ?_, hc.clean⟩
  · change b.m_sackedOut = UInt32.ofNat (share _ (f.before ++ { f.outItem with m_retrans := true } ::
      f.after))
    rw [hshare _ rfl, h1, hc.sacked]
  · change b.m_lostOut = UInt32.ofNat (share _ (f.before ++ { f.outItem with m_retrans := true } ::
      f.after))
    rw [hshare _ rfl, h2, hc.lost]
  · rw [share_append, share_cons] at h3
    simp only [TcpTxBuffer.resent, share_append, share_cons, if_true]
    split
    · next hr => rw [h3, if_pos hr]
    · next hr =>
      rw [h3, if_neg hr, Nat.zero_add, TcpTxItem.getSize, Payload.getSize, ← UInt32.ofNat_add]
      congr 1
      dsimp only
      omega
  · rw [apart_append, apart_cons] at h4
    rw [TcpTxBuffer.resent, apart_append, apart_cons]
    exact h4

/-- New data keeps the counters. -/
theorem Counted.sentNew {f : Fetched} (hc : Counted b) (hf : ∀ j ∈ f.list, j.Clean)
    (hr : f.m_retrans = b.m_retrans) : Counted (b.sentNew f).2 := by
  have hout : f.outItem.Clean := hf _ (by simp [Fetched.list])
  obtain ⟨hs, hl, ht⟩ := hout
  refine ⟨?_, ?_, ?_, ?_, fun i hi => ?_⟩
  · simp only [TcpTxBuffer.sentNew, share_append, share_cons, share_nil, hs]
    exact hc.sacked
  · simp only [TcpTxBuffer.sentNew, share_append, share_cons, share_nil, hl]
    exact hc.lost
  · simp only [TcpTxBuffer.sentNew, share_append, share_cons, share_nil, ht, hr]
    exact hc.retrans
  · rw [TcpTxBuffer.sentNew, apart_append, apart_cons]
    exact ⟨hc.apart, by simp [hs], by simp [Apart]⟩
  · rcases List.mem_append.mp hi with hi | hi
    · exact hf i (by simp [Fetched.list, hi])
    · exact hf i (by simp [Fetched.list, hi])

/-- `CopyFromSequence` keeps the counters. -/
theorem Copied.counted (h : Held b) (hc : Counted b) {off n : Nat} {r : TcpTxItem × TcpTxBuffer}
    {numBytes : UInt32} (hr : Copied b off n r) (hn : n ≤ numBytes.toNat)
    (hdom : (TxCall.copyFromSequence numBytes (b.m_firstByteSeq.advance off)).InDomain b)
    (hacc : (TxCall.copyFromSequence numBytes (b.m_firstByteSeq.advance off)).Accounted b) :
    Counted r.2 := by
  cases hr with
  | resent hsent hpre hle hends =>
    apply hc.resent
    apply takeOut_tally hends (h.same_marks hsent hpre hends hn hdom hacc)
    rw [← hsent]
    exact ⟨rfl, rfl, hc.retrans, hc.apart⟩
  | sentNew happ hoff hends =>
    obtain ⟨hclean, hretrans⟩ := takeOut_clean [] b.m_retrans b.nextNode hends
      (fun j hj => hc.clean j (by rw [happ]; exact hj))
    exact hc.sentNew hclean hretrans

/-- `CopyFromSequence` of new data keeps the counters. -/
theorem Copied.counted_new (hc : Counted b) (hsent : b.m_sentList = []) {off n : Nat}
    {r : TcpTxItem × TcpTxBuffer} (hr : Copied b off n r) : Counted r.2 := by
  cases hr with
  | resent hs => simp [hsent] at hs
  | sentNew happ hoff hends =>
    obtain ⟨hclean, hretrans⟩ := takeOut_clean [] b.m_retrans b.nextNode hends
      (fun j hj => hc.clean j (by rw [happ]; exact hj))
    exact hc.sentNew hclean hretrans

/-- `CopyFromSequence` does not SACK the head. -/
theorem Copied.headFree (hc : Counted b) (hf : HeadFree b) {off n : Nat}
    {r : TcpTxItem × TcpTxBuffer} (hr : Copied b off n r) : HeadFree r.2 := by
  cases hr with
  | @resent pre mid post item hsent hpre hle hends =>
    generalize limitAt (off - span pre) item (mid ++ post) n = n' at hends
    have hkeep : ∀ i ∈ (takeOut pre item mid post (off - span pre) n' b.m_retrans
        b.nextNode).list.head?, i.m_sacked = false := by
      refine takeOut_keeps (P := fun l => ∀ i ∈ l.head?, i.m_sacked = false) ?_ ?_ hends
        (hsent ▸ hf)
      · intro l i l' node k _ _ h
        cases l with
        | nil => simpa [TcpTxItem.front] using h
        | cons j l => simpa using h
      · intro l i j l' r h
        cases l with
        | nil => simpa [mergeItems] using h
        | cons x l => simpa using h
    generalize takeOut pre item mid post (off - span pre) n' b.m_retrans b.nextNode = f at hkeep
    rw [HeadFree, TcpTxBuffer.resent]
    rw [Fetched.list] at hkeep
    dsimp only
    cases hb : f.before with
    | nil => simpa [hb] using hkeep
    | cons j l => simpa [hb] using hkeep
  | sentNew happ hoff hends =>
    obtain ⟨hclean, -⟩ := takeOut_clean [] b.m_retrans b.nextNode hends
      (fun j hj => hc.clean j (by rw [happ]; exact hj))
    have hout := hclean _ (List.mem_append_right _ (List.mem_cons_self ..))
    rw [HeadFree, TcpTxBuffer.sentNew]
    dsimp only
    cases hs : b.m_sentList with
    | nil =>
      rintro i ⟨⟩
      exact hout.1
    | cons j l =>
      rw [HeadFree, hs] at hf
      simpa using hf

/-! ### Discarding -/

/-- Bytes that go from the head go from the counters. -/
theorem Counted.without (hc : Counted b) {i : TcpTxItem} {o : Nat} {sent : List TcpTxItem}
    (hshare : ∀ mark : TcpTxItem → Bool, mark (i.back o) = mark i →
      share mark b.m_sentList = share mark sent + if mark i then o else 0)
    (hapart : Apart sent) : Counted (b.without i o sent) := by
  have hsub : ∀ (mark : TcpTxItem → Bool) (count : UInt32), mark (i.back o) = mark i →
      count = UInt32.ofNat (share mark b.m_sentList) →
      (if mark i then count - UInt32.ofNat o else count) = UInt32.ofNat (share mark sent) := by
    intro mark count hm hcount
    rw [hcount, hshare mark hm, UInt32.ofNat_add]
    split
    · grind
    · exact UInt32.add_zero _
  exact
    { sacked := hsub _ _ rfl hc.sacked
      lost := hsub _ _ rfl hc.lost
      retrans := hsub _ _ rfl hc.retrans
      apart := hapart
      clean := hc.clean }

/-- The loop of `DiscardUpTo` keeps the counters. -/
theorem Discard.counted {o : Nat} {b b' : TcpTxBuffer} (hd : Discard o b b') (h : Held b)
    (hc : Counted b) : Counted b' := by
  induction hd with
  | done => exact hc
  | @part o b i rest hsent hpos hlt =>
    have ha := hc.apart
    rw [hsent, apart_cons] at ha
    refine hc.without (fun mark hm => ?_) (apart_cons.mpr ⟨ha.1, ha.2⟩)
    rw [hsent, share_cons, share_cons, hm]
    simp only [TcpTxItem.back, List.length_drop]
    split
    · omega
    · omega
  | @full o b b' i rest hsent hle _ ih =>
    have ha := hc.apart
    rw [hsent, apart_cons] at ha
    exact ih (h.without_head hsent) (hc.without (fun mark _ => by
      rw [hsent, share_cons, Nat.add_comm]) ha.2)
  | @move o b b' r hsent hpos hheld hr _ ih =>
    exact ih (hr.segment h (by omega)).held (hr.counted_new hc hsent)

/-- The item that gets the SACK of `AddRenoSack`. -/
theorem sackFirst_eq {items rest : List TcpTxItem} {it : TcpTxItem}
    (h : sackFirst items = some (it, rest)) : ∃ pre i post, items = pre ++ i :: post ∧
      items.find? (fun i => !i.m_sacked) = some i ∧ i.m_sacked = false ∧
      it = { i with m_sacked := true } ∧ rest = pre ++ it :: post := by
  induction items generalizing rest with
  | nil => cases h
  | cons i items ih =>
    rw [sackFirst] at h
    split at h
    · next hs =>
      obtain ⟨⟨it', rest'⟩, heq, hrest⟩ := Option.map_eq_some_iff.mp h
      obtain ⟨rfl, rfl⟩ := Prod.mk.inj hrest
      obtain ⟨pre, j, post, rfl, hfind, hj, hit, rfl⟩ := ih heq
      exact ⟨i :: pre, j, post, rfl, by rw [List.find?_cons_of_neg (by simp [hs]), hfind], hj, hit,
        rfl⟩
    · next hs =>
      obtain ⟨rfl, rfl⟩ := Prod.mk.inj (Option.some.inj h)
      exact ⟨[], i, items, rfl, List.find?_cons_of_pos (by simp [hs]), by simpa using hs, rfl, rfl⟩

/-- `AddRenoSack` on an item that is not lost keeps the counters, and the head as it was. -/
theorem Counted.addRenoSack {b' : TcpTxBuffer} (hc : Counted b) (hnext : NextKept b.m_sentList.tail)
    (h : b.addRenoSack = some b') : Counted b' ∧ b'.m_sentList.head? = b.m_sentList.head? := by
  rw [TcpTxBuffer.addRenoSack] at h
  split at h
  · cases h
  · next head rest hsent =>
    split at h
    · next it rest' heq =>
      obtain rfl := Option.some.inj h
      obtain ⟨pre, i, post, rfl, hfind, hi, rfl, rfl⟩ := sackFirst_eq heq
      obtain ⟨hs, hl, hr, ha, hcl⟩ := hc
      rw [hsent, ← List.cons_append] at hs hl hr ha
      rw [hsent, List.tail_cons, NextKept, hfind] at hnext
      have hlost := hnext i rfl
      rw [apart_append] at ha
      have hpost := (apart_cons.mp ha.2).2
      refine ⟨⟨count_add (l := head :: pre) (i := i) rfl hi rfl hs,
        count_same (l := head :: pre) (i := i) rfl rfl hl,
        count_same (l := head :: pre) (i := i) rfl rfl hr, ?_, hcl⟩, by rw [hsent]; rfl⟩
      exact apart_append (l := head :: pre).mpr ⟨ha.1, apart_cons.mpr ⟨by simp [hlost], hpost⟩⟩
    · obtain rfl := Option.some.inj h
      exact ⟨⟨hc.sacked, hc.lost, hc.retrans, hc.apart, hc.clean⟩, rfl⟩

/-- `MarkHeadAsLost` keeps the counters, and leaves the head without a SACK. -/
theorem Counted.markHeadAsLost (hc : Counted b) :
    Counted b.markHeadAsLost ∧ HeadFree b.markHeadAsLost := by
  rw [TcpTxBuffer.markHeadAsLost]
  split
  · next hsent => exact ⟨hc, by simp [HeadFree, hsent]⟩
  · next head rest hsent =>
    obtain ⟨hs, hl, hr, ha, hcl⟩ := hc
    rw [hsent] at hs hl hr
    rw [hsent, apart_cons] at ha
    refine ⟨⟨?_, ?_, ?_, ?_, hcl⟩, by simp [HeadFree]⟩
    · dsimp only
      split
      · next h => exact count_sub (l := []) (i := head) rfl h rfl hs
      · next h => exact count_same (l := []) (i := head) rfl (by simp [h]) hs
    · dsimp only
      split
      · next h => exact count_same (l := []) (i := head) rfl h.symm hl
      · next h => exact count_add (l := []) (i := head) rfl (by simpa using h) rfl hl
    · dsimp only
      split
      · next h => exact count_sub (l := []) (i := head) rfl h rfl hr
      · next h => exact count_same (l := []) (i := head) rfl (by simp [h]) hr
    · exact apart_cons.mpr ⟨by simp, ha.2⟩

/-- A SACKed head gives its mark to an item that is not lost. -/
theorem Counted.moveSackFromHead {b' : TcpTxBuffer} (hc : Counted b)
    (hnext : ∀ i rest, b.m_sentList = i :: rest → i.m_sacked = true → NextKept rest)
    (h : b.moveSackFromHead = some b') : Counted b' ∧ HeadFree b' := by
  rw [TcpTxBuffer.moveSackFromHead] at h
  split at h
  · next hsent =>
    obtain rfl := Option.some.inj h
    exact ⟨hc, by simp [HeadFree, hsent]⟩
  · next head rest hsent =>
    split at h
    · next hs =>
      obtain ⟨b₁, heq, rfl⟩ := Option.map_eq_some_iff.mp h
      have hc' : Counted { b with
          m_sentList := { head with m_sacked := false } :: rest
          m_sackedOut := b.m_sackedOut - head.getSize } := by
        obtain ⟨hsk, hl, hr, ha, hcl⟩ := hc
        rw [hsent] at hsk hl hr
        rw [hsent, apart_cons] at ha
        exact ⟨count_sub (l := []) (i := head) rfl hs rfl hsk,
          count_same (l := []) (i := head) rfl rfl hl, count_same (l := []) (i := head) rfl rfl hr,
          apart_cons.mpr ⟨by simp, ha.2⟩, hcl⟩
      exact (hc'.addRenoSack (hnext head rest hsent hs) heq).1.markHeadAsLost
    · next hs =>
      obtain rfl := Option.some.inj h
      refine ⟨hc, ?_⟩
      rw [HeadFree, hsent]
      rintro i ⟨⟩
      simpa using hs

/-! ### SACK blocks -/

/-- Counters of a list of items while `Update` works on it. -/
structure Marked (st st' : Sacking) (items items' : List TcpTxItem) : Prop where
  sacked : st'.m_sackedOut + UInt32.ofNat (share TcpTxItem.m_sacked items) =
    st.m_sackedOut + UInt32.ofNat (share TcpTxItem.m_sacked items')
  lost : st'.m_lostOut + UInt32.ofNat (share TcpTxItem.m_lost items) =
    st.m_lostOut + UInt32.ofNat (share TcpTxItem.m_lost items')
  retrans : share TcpTxItem.m_retrans items' = share TcpTxItem.m_retrans items
  apart : Apart items → Apart items'
  bytes : st'.bytesSacked + st.m_sackedOut = st.bytesSacked + st'.m_sackedOut

theorem Marked.refl (st : Sacking) (items : List TcpTxItem) : Marked st st items items :=
  ⟨rfl, rfl, rfl, id, rfl⟩

theorem Marked.trans {st st' st'' : Sacking} {l l' l'' : List TcpTxItem} (h : Marked st st' l l')
    (h' : Marked st' st'' l' l'') : Marked st st'' l l'' where
  sacked := by
    have h1 := h.sacked
    have h2 := h'.sacked
    grind
  lost := by
    have h1 := h.lost
    have h2 := h'.lost
    grind
  retrans := h'.retrans.trans h.retrans
  apart := h'.apart ∘ h.apart
  bytes := by
    have h1 := h.bytes
    have h2 := h'.bytes
    grind

/-- An item before a list that is marked. -/
theorem Marked.cons {st st' : Sacking} {items items' : List TcpTxItem}
    (h : Marked st st' items items') (i : TcpTxItem) : Marked st st' (i :: items) (i :: items') where
  sacked := by
    rw [share_cons, share_cons, UInt32.ofNat_add, UInt32.ofNat_add]
    have := h.sacked
    grind
  lost := by
    rw [share_cons, share_cons, UInt32.ofNat_add, UInt32.ofNat_add]
    have := h.lost
    grind
  retrans := by rw [share_cons, share_cons, h.retrans]
  apart := by
    rw [apart_cons, apart_cons]
    exact fun ha => ⟨ha.1, h.apart ha.2⟩
  bytes := h.bytes

/-- A SACK block moves bytes between the counters. -/
theorem markBlock_marked (block : SackBlock) (st : Sacking) (begin' : SequenceNumber32)
    (items : List TcpTxItem) :
    Marked st (markBlock block st begin' items).2 items (markBlock block st begin' items).1 := by
  induction items generalizing st begin' with
  | nil => exact .refl _ _
  | cons i rest ih =>
    rw [markBlock]
    dsimp only
    split
    · split
      · exact (ih ..).cons i
      · next hs =>
        rw [Bool.not_eq_true] at hs
        refine .trans ?_ ((ih ..).cons { i with m_lost := false, m_sacked := true })
        refine ⟨?_, ?_, rfl, fun ha => ?_, by grind⟩
        · rw [share_cons, share_cons, hs, UInt32.ofNat_add, UInt32.ofNat_add, TcpTxItem.getSize,
            Payload.getSize]
          simp only [if_true, Bool.false_eq_true, if_false]
          grind
        · rw [share_cons, share_cons, UInt32.ofNat_add, UInt32.ofNat_add, TcpTxItem.getSize,
            Payload.getSize]
          cases i.m_lost with
          | false => rfl
          | true =>
            simp only [if_true, Bool.false_eq_true, if_false]
            grind
        · rw [apart_cons] at ha ⊢
          exact ⟨by simp, ha.2⟩
    · split
      · exact .refl _ _
      · exact (ih ..).cons i

/-- The head stays as it was when the block does not cover it. -/
theorem markBlock_head {block : SackBlock} (st : Sacking) {begin' : SequenceNumber32}
    {items : List TcpTxItem} (h : ∀ i ∈ items.head?,
      (begin'.ge block.first && (begin'.add i.getSize).le block.second) = false) :
    (markBlock block st begin' items).1.head? = items.head? := by
  cases items with
  | nil => rfl
  | cons i rest =>
    rw [markBlock]
    dsimp only
    rw [h i rfl, if_neg (by simp)]
    split
    · rfl
    · rfl

/-- SACK blocks move bytes between the counters. -/
theorem markBlocks_marked (b : TcpTxBuffer) (st : Sacking) (items : List TcpTxItem)
    (list : List SackBlock) :
    Marked st (b.markBlocks st items list).2.1 items (b.markBlocks st items list).1 := by
  induction list generalizing st items with
  | nil => exact .refl _ _
  | cons block list ih =>
    rw [TcpTxBuffer.markBlocks]
    split
    · exact .refl _ _
    · exact (markBlock_marked ..).trans (ih ..)

/-- The head stays as it was when no block covers it. -/
theorem markBlocks_head {b : TcpTxBuffer} (st : Sacking) {items : List TcpTxItem}
    {list : List SackBlock} (h : ∀ i ∈ items.head?, ∀ block ∈ list,
      (b.m_firstByteSeq.ge block.first && (b.m_firstByteSeq.add i.getSize).le block.second) = false) :
    (b.markBlocks st items list).1.head? = items.head? := by
  induction list generalizing st items with
  | nil => rfl
  | cons block list ih =>
    rw [TcpTxBuffer.markBlocks]
    split
    · rfl
    · have hhead := markBlock_head st fun i hi => h i hi block (by simp)
      dsimp only
      rw [ih _ (by rw [hhead]; exact fun i hi block' hb => h i hi block' (by simp [hb])), hhead]

/-- `UpdateLostCount` marks items that are neither SACKed nor lost. -/
theorem markLost_marked (thresh lostOut : UInt32) (items : List TcpTxItem) :
    (markLost thresh lostOut items).2.2 + UInt32.ofNat (share TcpTxItem.m_lost items) =
        lostOut + UInt32.ofNat (share TcpTxItem.m_lost (markLost thresh lostOut items).1) ∧
      share TcpTxItem.m_sacked (markLost thresh lostOut items).1 = share TcpTxItem.m_sacked items ∧
      share TcpTxItem.m_retrans (markLost thresh lostOut items).1 =
        share TcpTxItem.m_retrans items ∧
      (Apart items → Apart (markLost thresh lostOut items).1) := by
  induction items with
  | nil => exact ⟨rfl, rfl, rfl, id⟩
  | cons i rest ih =>
    obtain ⟨hl, hs, hr, ha⟩ := ih
    rw [markLost_cons]
    dsimp only
    generalize (if i.m_sacked = true then _ else _) = sacked
    split
    · next hmark =>
      simp only [Bool.and_eq_true, Bool.not_eq_true'] at hmark
      refine ⟨?_, ?_, ?_, ?_⟩
      · rw [share_cons, share_cons, hmark.2, UInt32.ofNat_add, UInt32.ofNat_add, TcpTxItem.getSize,
          Payload.getSize]
        simp only [if_true, Bool.false_eq_true, if_false]
        grind
      · rw [share_cons, share_cons, hs]
      · rw [share_cons, share_cons, hr]
      · rw [apart_cons, apart_cons]
        exact fun h => ⟨by simp [hmark.1.2], ha h.2⟩
    · refine ⟨?_, ?_, ?_, ?_⟩
      · rw [share_cons, share_cons, UInt32.ofNat_add, UInt32.ofNat_add]
        grind
      · rw [share_cons, share_cons, hs]
      · rw [share_cons, share_cons, hr]
      · rw [apart_cons, apart_cons]
        exact fun h => ⟨h.1, ha h.2⟩

/-- `UpdateLostCount` keeps the counters when the head is not SACKed. -/
theorem Counted.updateLostCount {b' : TcpTxBuffer} (hc : Counted b) (hf : HeadFree b)
    (h : b.updateLostCount = some b') : Counted b' ∧ HeadFree b' := by
  rw [TcpTxBuffer.updateLostCount] at h
  split at h
  · next head items after heq =>
    obtain ⟨node, -, hsplit⟩ := Option.bind_eq_some_iff.mp heq
    obtain ⟨hlost, hsacked, hretrans, hapart⟩ := markLost_marked b.m_dupAckThresh b.m_lostOut items
    generalize markLost b.m_dupAckThresh b.m_lostOut items = m at h hlost hsacked hretrans hapart
    obtain rfl := Option.some.inj h
    obtain ⟨hs, hl, hr, ha, hcl⟩ := hc
    rw [← splitAfter_append hsplit] at hs hl hr ha
    rw [HeadFree, ← splitAfter_append hsplit] at hf
    have hhead : head.m_sacked = false := hf head rfl
    rw [List.cons_append, apart_cons, apart_append] at ha
    refine ⟨⟨?_, ?_, ?_, ?_, hcl⟩, ?_⟩
    · rw [hs]
      simp only [List.cons_append, share_cons, share_append, hsacked]
    · rw [List.cons_append, share_cons, share_append, UInt32.ofNat_add, UInt32.ofNat_add] at hl
      simp only [List.cons_append, share_cons, share_append, UInt32.ofNat_add]
      cases hhl : head.m_lost with
      | true =>
        rw [hhl] at hl
        simp only [Bool.not_true, Bool.and_false, Bool.or_false, Bool.false_eq_true, if_false,
          if_true] at hl ⊢
        grind
      | false =>
        rw [hhl] at hl
        simp only [Bool.not_false, Bool.and_true, Bool.false_or, Bool.false_eq_true,
          if_false] at hl ⊢
        rw [TcpTxItem.getSize, Payload.getSize]
        split
        · grind
        · grind
    · rw [hr]
      simp only [List.cons_append, share_cons, share_append, hretrans]
    · rw [List.cons_append, apart_cons, apart_append]
      exact ⟨by simp [hhead], hapart ha.2.1, ha.2.2⟩
    · rw [HeadFree, List.cons_append]
      rintro i ⟨⟩
      exact hhead
  · cases h

/-- `Update` keeps the counters when no block covers the head. -/
theorem Counted.update {list : List SackBlock} {n : UInt32} {b' : TcpTxBuffer} (hc : Counted b)
    (hf : HeadFree b) (hacc : (TxCall.update list).Accounted b)
    (h : b.update list = some (n, b')) : Counted b' ∧ HeadFree b' := by
  rw [TcpTxBuffer.update] at h
  dsimp only at h
  have hmarks := markBlocks_marked b ⟨b.m_lostOut, b.m_sackedOut, b.m_highestSack, 0⟩ b.m_sentList
    list
  have hhead := markBlocks_head ⟨b.m_lostOut, b.m_sackedOut, b.m_highestSack, 0⟩ hacc
  generalize b.markBlocks ⟨b.m_lostOut, b.m_sackedOut, b.m_highestSack, 0⟩ b.m_sentList list = m
    at h hmarks hhead
  have hc' : Counted { b with
      m_sentList := m.1
      m_lostOut := m.2.1.m_lostOut
      m_sackedOut := m.2.1.m_sackedOut
      m_highestSack := m.2.1.m_highestSack } := by
    obtain ⟨hs, hl, hr, ha, -⟩ := hmarks
    refine ⟨?_, ?_, ?_, ha hc.apart, hc.clean⟩
    · have := hc.sacked
      grind
    · have := hc.lost
      grind
    · dsimp only
      rw [hr, hc.retrans]
  have hf' : HeadFree { b with
      m_sentList := m.1
      m_lostOut := m.2.1.m_lostOut
      m_sackedOut := m.2.1.m_sackedOut
      m_highestSack := m.2.1.m_highestSack } := by
    rw [HeadFree]
    dsimp only
    rw [hhead]
    exact hf
  split at h
  · obtain ⟨b₁, heq, hb⟩ := Option.map_eq_some_iff.mp h
    obtain ⟨-, rfl⟩ := Prod.mk.inj hb
    exact hc'.updateLostCount hf' heq
  · obtain ⟨-, rfl⟩ := Prod.mk.inj (Option.some.inj h)
    exact ⟨hc', hf'⟩

/-! ### The other calls -/

theorem Counted.deleteRetransmittedFlagFromHead (hc : Counted b) :
    Counted b.deleteRetransmittedFlagFromHead := by
  rw [TcpTxBuffer.deleteRetransmittedFlagFromHead]
  split
  · exact hc
  · split
    · exact hc
    · next head rest hsent =>
      split
      · next hr =>
        obtain ⟨hs, hl, hrt, ha, hcl⟩ := hc
        rw [hsent] at hs hl hrt
        rw [hsent, apart_cons] at ha
        exact ⟨count_same (l := []) (i := head) rfl rfl hs,
          count_same (l := []) (i := head) rfl rfl hl,
          count_sub (l := []) (i := head) rfl hr rfl hrt, apart_cons.mpr ha, hcl⟩
      · exact hc

theorem share_map_none {mark : TcpTxItem → Bool} {f : TcpTxItem → TcpTxItem}
    (hf : ∀ i, mark (f i) = false) (l : List TcpTxItem) : share mark (l.map f) = 0 := by
  refine share_none fun i hi => ?_
  obtain ⟨j, -, rfl⟩ := List.mem_map.mp hi
  exact hf j

theorem share_map_same {mark : TcpTxItem → Bool} {f : TcpTxItem → TcpTxItem}
    (hf : ∀ i, mark (f i) = mark i) (hp : ∀ i, (f i).m_packet = i.m_packet) (l : List TcpTxItem) :
    share mark (l.map f) = share mark l := by
  induction l with
  | nil => rfl
  | cons i l ih => rw [List.map_cons, share_cons, share_cons, hf, hp, ih]

theorem Counted.resetRenoSack (hc : Counted b) : Counted b.resetRenoSack where
  sacked := congrArg UInt32.ofNat (share_map_none (fun _ => rfl) _).symm
  lost := hc.lost.trans (congrArg _
    (share_map_same (by intro; rfl) (by intro; rfl) _).symm)
  retrans := hc.retrans.trans (congrArg _
    (share_map_same (by intro; rfl) (by intro; rfl) _).symm)
  apart := by
    intro i hi
    obtain ⟨j, -, rfl⟩ := List.mem_map.mp hi
    simp
  clean := hc.clean

theorem Counted.resetSentList (hc : Counted b) : Counted b.resetSentList where
  sacked := rfl
  lost := rfl
  retrans := rfl
  apart := by simp [Apart, TcpTxBuffer.resetSentList]
  clean := by
    intro i hi
    rcases List.mem_append.mp hi with hi | hi
    · obtain ⟨j, -, rfl⟩ := List.mem_map.mp hi
      exact ⟨rfl, rfl, rfl⟩
    · exact hc.clean i hi

/-- An item without marks can be given back. -/
theorem Counted.resetLastSegmentSent (hc : Counted b)
    (hlast : ∀ i ∈ b.m_sentList.getLast?, i.Clean) : Counted b.resetLastSegmentSent := by
  rw [TcpTxBuffer.resetLastSegmentSent]
  split
  · exact hc
  · next item heq =>
    obtain ⟨hs, hl, hr⟩ := hlast item heq
    obtain ⟨init, hsent⟩ := List.getLast?_eq_some_iff.mp heq
    have hshare : ∀ mark : TcpTxItem → Bool, mark item = false →
        share mark b.m_sentList.dropLast = share mark b.m_sentList := by
      intro mark hm
      rw [hsent, List.dropLast_concat, share_append, share_cons, hm]
      rfl
    have ha := hc.apart
    rw [hsent, apart_append] at ha
    refine ⟨?_, ?_, ?_, ?_, ?_⟩
    · dsimp only
      rw [hshare _ hs]
      exact hc.sacked
    · dsimp only
      rw [hshare _ hl]
      exact hc.lost
    · dsimp only
      rw [hshare _ hr, hr]
      exact hc.retrans
    · dsimp only
      rw [hsent, List.dropLast_concat]
      exact ha.1
    · intro i hi
      rcases List.mem_cons.mp hi with rfl | hi
      · exact ⟨hs, hl, hr⟩
      · exact hc.clean i hi

/-- The sum that `SetSentListLost` makes. -/
theorem foldl_lost (mark : TcpTxItem → Bool) (l : List TcpTxItem) (lostOut : UInt32) :
    l.foldl (fun lostOut item => if mark item then lostOut + item.getSize else lostOut) lostOut =
      lostOut + UInt32.ofNat (share mark l) := by
  induction l generalizing lostOut with
  | nil => exact (UInt32.add_zero _).symm
  | cons i l ih =>
    rw [List.foldl_cons, ih, share_cons, UInt32.ofNat_add, TcpTxItem.getSize, Payload.getSize]
    split
    · grind
    · grind

theorem Counted.setSentListLost (h : Held b) (hc : Counted b) (resetSack : Bool) :
    Counted (b.setSentListLost resetSack) := by
  cases resetSack with
  | true =>
    have hspan : span (b.m_sentList.map fun item =>
        { item with m_sacked := false, m_lost := true, m_retrans := false }) = span b.m_sentList :=
      span_eq (frames_map fun _ => rfl)
    refine ⟨congrArg UInt32.ofNat (share_map_none (fun _ => rfl) _).symm, ?_,
      congrArg UInt32.ofNat (share_map_none (fun _ => rfl) _).symm, ?_, hc.clean⟩
    · change b.m_sentSize = UInt32.ofNat (share _ (b.m_sentList.map _))
      rw [h.sentSize, share_all, hspan]
      intro i hi
      obtain ⟨j, -, rfl⟩ := List.mem_map.mp hi
      rfl
    · intro i hi
      obtain ⟨j, -, rfl⟩ := List.mem_map.mp hi
      simp
  | false =>
    refine ⟨hc.sacked.trans (congrArg _ (share_map_same (by intro; rfl) (by intro; rfl) _).symm),
      ?_, congrArg UInt32.ofNat (share_map_none (fun _ => rfl) _).symm, ?_, hc.clean⟩
    · change b.m_sentList.foldl _ 0 = UInt32.ofNat (share _ (b.m_sentList.map _))
      rw [foldl_lost fun i => i.m_lost || !i.m_sacked, UInt32.zero_add]
      congr 1
      generalize b.m_sentList = l
      induction l with
      | nil => rfl
      | cons i l ih => rw [List.map_cons, share_cons, share_cons, ih]
    · intro i hi
      obtain ⟨j, hj, rfl⟩ := List.mem_map.mp hi
      have := hc.apart j hj
      dsimp only
      cases hs : j.m_sacked with
      | false => simp
      | true => simpa [hs] using this

/-- A call in its domain that leaves no mark unaccounted for keeps the counters. -/
theorem Counted.step (h : Held b) (hc : Counted b) (hf : HeadFree b) {c : TxCall}
    {b' : TcpTxBuffer} (hdom : c.InDomain b) (hacc : c.Accounted b) (hrun : c.run b = some b') :
    Counted b' ∧ HeadFree b' := by
  cases c with
  | add p =>
    obtain rfl := Option.some.inj hrun
    rw [TcpTxBuffer.add]
    split
    · split
      · refine ⟨⟨hc.sacked, hc.lost, hc.retrans, hc.apart, fun i hi => ?_⟩, hf⟩
        rcases List.mem_append.mp hi with hi | hi
        · exact hc.clean i hi
        · rw [List.mem_singleton.mp hi]
          exact ⟨rfl, rfl, rfl⟩
      · exact ⟨hc, hf⟩
    · exact ⟨hc, hf⟩
  | copyFromSequence numBytes seq =>
    obtain ⟨r, heq, rfl⟩ := Option.map_eq_some_iff.mp hrun
    rcases h.copy_cases numBytes seq with hnone | hnull | ⟨off, n, r', rfl, -, hn, hsome, hr⟩
    · rw [hnone] at heq
      cases heq
    · rw [hnull] at heq
      obtain rfl := Option.some.inj heq
      exact ⟨hc, hf⟩
    · rw [hsome] at heq
      obtain rfl := Option.some.inj heq
      exact ⟨hr.counted h hc hn hdom hacc, hr.headFree hc hf⟩
  | discardUpTo seq =>
    by_cases hge : b.m_firstByteSeq.ge seq = true
    · change b.discardUpTo seq = _ at hrun
      rw [TcpTxBuffer.discardUpTo, if_pos hge] at hrun
      obtain rfl := Option.some.inj hrun
      exact ⟨hc, hf⟩
    rw [Bool.not_eq_true] at hge
    obtain ⟨o, ho, rfl⟩ := b.m_firstByteSeq.exists_advance seq
    obtain ⟨b₁, hd, -, heq⟩ := h.discardUpTo_eq ho hge
    obtain ⟨b₃, hmove, rfl⟩ := Option.map_eq_some_iff.mp (heq.symm.trans hrun)
    have hc₁ := hd.counted h hc
    have hc₂ : Counted { b₁ with m_firstByteSeq := b.m_firstByteSeq.advance o } :=
      ⟨hc₁.sacked, hc₁.lost, hc₁.retrans, hc₁.apart, hc₁.clean⟩
    obtain ⟨hc₃, hf₃⟩ := hc₂.moveSackFromHead (fun i rest hsent hs => by
      obtain ⟨pre, j, k, hsent', rfl, hpre, hlt⟩ := hd.head h i rest hsent
      exact hacc pre j rest hsent' (h.meets_first hsent' hpre hlt) hs) hmove
    exact ⟨⟨hc₃.sacked, hc₃.lost, hc₃.retrans, hc₃.apart, hc₃.clean⟩, hf₃⟩
  | update list =>
    obtain ⟨⟨n, b₁⟩, heq, rfl⟩ := Option.map_eq_some_iff.mp hrun
    exact hc.update hf hacc heq
  | addRenoSack =>
    obtain ⟨hc', hhead⟩ := hc.addRenoSack hacc hrun
    refine ⟨hc', ?_⟩
    rw [HeadFree, hhead]
    exact hf
  | resetRenoSack =>
    obtain rfl := Option.some.inj hrun
    refine ⟨hc.resetRenoSack, fun i hi => ?_⟩
    obtain ⟨j, -, rfl⟩ := List.mem_map.mp (List.mem_of_mem_head? hi)
    rfl
  | markHeadAsLost =>
    obtain rfl := Option.some.inj hrun
    exact hc.markHeadAsLost
  | deleteRetransmittedFlagFromHead =>
    obtain rfl := Option.some.inj hrun
    refine ⟨hc.deleteRetransmittedFlagFromHead, ?_⟩
    rw [HeadFree, TcpTxBuffer.deleteRetransmittedFlagFromHead]
    split
    · exact hf
    · split
      · exact hf
      · next head rest hsent =>
        rw [HeadFree, hsent] at hf
        split
        · rintro i ⟨⟩
          exact hf head rfl
        · rw [hsent]
          exact hf
  | setSentListLost resetSack =>
    obtain rfl := Option.some.inj hrun
    refine ⟨hc.setSentListLost h resetSack, ?_⟩
    rw [HeadFree] at hf ⊢
    rw [TcpTxBuffer.setSentListLost]
    split
    · intro i hi
      obtain ⟨j, -, rfl⟩ := List.mem_map.mp (List.mem_of_mem_head? hi)
      rfl
    · intro i hi
      rw [List.head?_map] at hi
      obtain ⟨j, hj, rfl⟩ := Option.map_eq_some_iff.mp hi
      exact hf j hj
  | resetSentList =>
    obtain rfl := Option.some.inj hrun
    exact ⟨hc.resetSentList, by simp [HeadFree, TcpTxBuffer.resetSentList]⟩
  | resetLastSegmentSent =>
    obtain rfl := Option.some.inj hrun
    refine ⟨hc.resetLastSegmentSent hacc, ?_⟩
    rw [HeadFree] at hf ⊢
    rw [TcpTxBuffer.resetLastSegmentSent]
    split
    · exact hf
    · intro i hi
      dsimp only at hi
      cases hsent : b.m_sentList with
      | nil =>
        rw [hsent] at hi
        cases hi
      | cons head rest =>
        cases rest with
        | nil =>
          rw [hsent] at hi
          cases hi
        | cons next rest =>
          rw [hsent, List.dropLast_cons_cons, List.head?_cons] at hi
          rw [hsent] at hf
          exact hf i hi

/-- The counters are the bytes of the items they count, sent items lie one after the other from
`m_firstByteSeq` on, none is SACKed and lost, and `BytesInFlight` does not wrap. -/
structure Scoreboard (b : TcpTxBuffer) : Prop where
  sentSize : b.m_sentSize.toNat = span b.m_sentList
  size : b.m_size.toNat = span b.m_sentList + span b.m_appList
  sackedOut : b.m_sackedOut.toNat = share TcpTxItem.m_sacked b.m_sentList
  lostOut : b.m_lostOut.toNat = share TcpTxItem.m_lost b.m_sentList
  retrans : b.m_retrans.toNat = share TcpTxItem.m_retrans b.m_sentList
  contiguous : Contiguous b.m_firstByteSeq b.m_sentList
  apart : Apart b.m_sentList
  le : b.m_sackedOut.toNat + b.m_lostOut.toNat ≤ b.m_sentSize.toNat
  inFlight : b.bytesInFlight.toNat + (b.m_sackedOut.toNat + b.m_lostOut.toNat) =
    b.m_sentSize.toNat + b.m_retrans.toNat

theorem Counted.scoreboard (h : Held b) (hc : Counted b) : Scoreboard b := by
  have hsmall := h.small
  have hshare : ∀ mark, share mark b.m_sentList ≤ span b.m_sentList :=
    fun mark => share_le mark b.m_sentList
  have hto : ∀ (mark : TcpTxItem → Bool) (count : UInt32),
      count = UInt32.ofNat (share mark b.m_sentList) → count.toNat = share mark b.m_sentList := by
    intro mark count heq
    have := hshare mark
    rw [heq, toNat_ofNat (by omega)]
  have hsent : b.m_sentSize.toNat = span b.m_sentList := by
    rw [h.sentSize, toNat_ofNat (by omega)]
  have hs := hto _ _ hc.sacked
  have hl := hto _ _ hc.lost
  have hr := hto _ _ hc.retrans
  have hle := share_add_le hc.apart
  refine ⟨hsent, by rw [h.size, toNat_ofNat hsmall], hs, hl, hr, h.starts, hc.apart, by omega, ?_⟩
  have hbound := hshare TcpTxItem.m_retrans
  rw [TcpTxBuffer.bytesInFlight, UInt32.toNat_add, UInt32.toNat_sub_of_le, UInt32.toNat_add]
  · omega
  · rw [UInt32.le_iff_toNat_le, UInt32.toNat_add]
    omega

/-- An empty buffer counts nothing. -/
theorem TcpTxBuffer.Empty.counted (h : b.Empty) : Counted b where
  sacked := by rw [h.sackedOut, h.sentList]; rfl
  lost := by rw [h.lostOut, h.sentList]; rfl
  retrans := by rw [h.retrans, h.sentList]; rfl
  apart := by simp [Apart, h.sentList]
  clean := by simp [h.appList]

/-- Every buffer reached is laid out and its counters are those of its items. -/
theorem TxReached.counted {allowed : TcpTxBuffer → TxCall → Prop}
    (hallowed : ∀ b c, allowed b c → c.InDomain b ∧ c.Accounted b) (h : TxReached allowed b) :
    Held b ∧ Counted b ∧ HeadFree b := by
  induction h with
  | start h => exact ⟨h.held, h.counted, by simp [HeadFree, h.sentList]⟩
  | step _ hc hrun ih =>
    obtain ⟨hheld, hcounted, hfree⟩ := ih
    obtain ⟨hdom, hacc⟩ := hallowed _ _ hc
    exact ⟨hheld.run hdom.fits hrun, hcounted.step hheld hfree hdom hacc hrun⟩

end Calls

/-- Over every run of calls in their domain that leave no mark unaccounted for, the scoreboard is
that of the items. -/
theorem txBuffer_scoreboard (b : TcpTxBuffer)
    (hb : TxReached (fun b c => c.InDomain b ∧ c.Accounted b) b) : Scoreboard b := by
  obtain ⟨hheld, hcounted, -⟩ := hb.counted fun _ _ h => h
  exact hcounted.scoreboard hheld

/-- Six bytes are sent in items of two; the last are SACKed, the first are taken for lost and sent
again. -/
theorem txBuffer_scoreboard_six : ∃ b : TcpTxBuffer, b.m_sackedOut = 2 ∧ b.m_lostOut = 2 ∧
    b.m_retrans = 2 ∧ Scoreboard b := by
  have h0 : TxReached (fun b c => c.InDomain b ∧ c.Accounted b)
      { m_firstByteSeq := ⟨0xfffffffd⟩, m_dupAckThresh := 3 } :=
    .start ⟨rfl, rfl, rfl, rfl, rfl, rfl, rfl, rfl⟩
  have h1 := h0.step (c := .add [0, 1, 2, 3, 4, 5])
    ⟨by simp [TxCall.InDomain, TcpTxBuffer.held], trivial⟩ rfl
  have h2 := h1.step (c := .copyFromSequence 2 ⟨0xfffffffd⟩)
    ⟨⟨rfl, rfl, by decide⟩, .inr (by decide)⟩ rfl
  have h3 := h2.step (c := .copyFromSequence 2 ⟨0xffffffff⟩)
    ⟨⟨rfl, rfl, by decide⟩, .inr (by decide)⟩ rfl
  have h4 := h3.step (c := .copyFromSequence 2 ⟨1⟩)
    ⟨⟨rfl, rfl, by decide⟩, .inr (by decide)⟩ rfl
  have h5 := h4.step (c := .update [⟨⟨1⟩, ⟨3⟩⟩]) ⟨trivial, fun i hi block hb => by
    cases hi
    cases List.mem_singleton.mp hb
    rfl⟩ rfl
  have h6 := h5.step (c := .markHeadAsLost) ⟨trivial, trivial⟩ rfl
  have h7 := h6.step (c := .copyFromSequence 2 ⟨0xfffffffd⟩)
    ⟨⟨rfl, rfl, by decide⟩, .inl (by decide)⟩ rfl
  exact ⟨_, rfl, rfl, rfl, txBuffer_scoreboard _ h7⟩

/-- The last item is taken for lost and given back: its bytes stay in `m_lostOut`. -/
theorem not_txBuffer_scoreboard_lost : ∃ b : TcpTxBuffer,
    TxReached (fun b c => c.InDomain b) b ∧ b.m_sentSize = 0 ∧ b.m_lostOut = 2 ∧
      ¬ Scoreboard b := by
  have h0 : TxReached (fun b c => c.InDomain b) { m_firstByteSeq := ⟨1⟩ } :=
    .start ⟨rfl, rfl, rfl, rfl, rfl, rfl, rfl, rfl⟩
  have h1 := h0.step (c := .add [0, 1]) (by simp [TxCall.InDomain, TcpTxBuffer.held]) rfl
  have h2 := h1.step (c := .copyFromSequence 2 ⟨1⟩) ⟨rfl, rfl, by decide⟩ rfl
  have h3 := h2.step (c := .markHeadAsLost) trivial rfl
  have h4 := h3.step (c := .resetLastSegmentSent) trivial rfl
  exact ⟨_, h4, rfl, rfl, fun h => absurd h.le (by decide)⟩

end Ns3.Tcp
