import Ns3.Tcp.TxPipe
import Mathlib.Data.List.Forall2
import Mathlib.Data.List.Perm.Basic

/-!
# SACK blocks in any order, and the items taken for lost

What a block SACKs depends on where the items lie only, so that blocks may come in any order, as
long as each order keeps the item SACKed highest cached and `Update` comes to the end of the
blocks. The lost marks are then those of the items below so many SACKed ones.
-/

namespace Ns3.Tcp

open Ns3.Network Ns3.Lib

/-! ### Blocks one after the other -/

section Order

variable {block block' : SackBlock} {i : TcpTxItem} {items : List TcpTxItem} {list list' : List SackBlock}

theorem TcpTxItem.startSeq_sackBy (block : SackBlock) (i : TcpTxItem) : (i.sackBy block).m_startSeq = i.m_startSeq := by
  unfold TcpTxItem.sackBy
  split <;> rfl

theorem TcpTxItem.stop_sackBy (block : SackBlock) (i : TcpTxItem) : (i.sackBy block).stop = i.stop := by
  unfold TcpTxItem.sackBy
  split <;> rfl

theorem SackBlock.covers_sackBy (block block' : SackBlock) (i : TcpTxItem) :
    block.covers (i.sackBy block') = block.covers i := by
  rw [SackBlock.covers, TcpTxItem.startSeq_sackBy, TcpTxItem.stop_sackBy, SackBlock.covers]

theorem SackBlock.passes_sackBy (block block' : SackBlock) (i : TcpTxItem) :
    block.passes (i.sackBy block') = block.passes i := by
  rw [SackBlock.passes, SackBlock.covers_sackBy, TcpTxItem.stop_sackBy, SackBlock.passes]

theorem TcpTxItem.sacked_sackBy (block : SackBlock) (i : TcpTxItem) :
    (i.sackBy block).m_sacked = (i.m_sacked || block.covers i) := by
  unfold TcpTxItem.sackBy
  cases hsacked : i.m_sacked with
  | true => rw [Bool.not_true, Bool.and_false, if_neg Bool.false_ne_true, hsacked, Bool.true_or]
  | false =>
    rw [Bool.not_false, Bool.and_true, Bool.false_or]
    split
    · next hcovers => exact hcovers.symm
    · next hcovers => rw [hsacked, Bool.eq_false_iff.mpr hcovers]

/-- Two blocks SACK an item in either order. -/
theorem TcpTxItem.sackBy_comm (block block' : SackBlock) (i : TcpTxItem) :
    (i.sackBy block).sackBy block' = (i.sackBy block').sackBy block := by
  have heach : ∀ block block' : SackBlock, (i.sackBy block).sackBy block' =
      if (block.covers i || block'.covers i) && !i.m_sacked then { i with m_lost := false, m_sacked := true } else i := by
    intro block block'
    rw [TcpTxItem.sackBy, SackBlock.covers_sackBy, TcpTxItem.sacked_sackBy, TcpTxItem.sackBy]
    cases i.m_sacked <;> cases block.covers i <;> cases block'.covers i <;> rfl
  rw [heach, heach, Bool.or_comm]

/-- Two blocks SACK the items in either order. -/
theorem sackAll_comm (block block' : SackBlock) (items : List TcpTxItem) :
    sackAll block' (sackAll block items) = sackAll block (sackAll block' items) := by
  induction items with
  | nil => rfl
  | cons i rest ih =>
    rw [sackAll_cons, sackAll_cons]
    by_cases hpass : block.passes i = true
    · rw [if_pos hpass, sackAll_cons, SackBlock.passes_sackBy]
      by_cases hpass' : block'.passes i = true
      · rw [if_pos hpass', if_pos hpass', sackAll_cons, SackBlock.passes_sackBy, if_pos hpass, ih,
          TcpTxItem.sackBy_comm]
      · rw [if_neg hpass', if_neg hpass', sackAll_cons, if_pos hpass]
    · rw [if_neg hpass, sackAll_cons]
      by_cases hpass' : block'.passes i = true
      · rw [if_pos hpass', sackAll_cons, SackBlock.passes_sackBy, if_neg hpass]
      · rw [if_neg hpass', sackAll_cons, if_neg hpass]

/-- No block starts behind the sent items, where `Update` would return. -/
def TcpTxBuffer.NoneBehind (b : TcpTxBuffer) (list : List SackBlock) : Prop :=
  ∀ block ∈ list, b.sentEnd.lt block.first = false

/-- `Update` ends with the same marks, counters and cache for blocks in two orders. -/
theorem markBlocks_perm {b : TcpTxBuffer} (h : Held b) (hc : Cached b) (hperm : list.Perm list')
    (hnone : b.NoneBehind list) (hrises : b.RisesAll b.m_sentList list) (hrises' : b.RisesAll b.m_sentList list') :
    b.markBlocks ⟨b.m_lostOut, b.m_sackedOut, b.m_highestSack, 0⟩ b.m_sentList list' =
      b.markBlocks ⟨b.m_lostOut, b.m_sackedOut, b.m_highestSack, 0⟩ b.m_sentList list := by
  have hsmall := h.small
  have hnone' : b.NoneBehind list' := fun block hmem => hnone block (hperm.mem_iff.mpr hmem)
  obtain ⟨hitems, hend⟩ := markBlocks_eq ⟨b.m_lostOut, b.m_sackedOut, b.m_highestSack, 0⟩ h.starts hnone
  obtain ⟨hitems', hend'⟩ := markBlocks_eq ⟨b.m_lostOut, b.m_sackedOut, b.m_highestSack, 0⟩ h.starts hnone'
  have htop := markBlocks_top ⟨b.m_lostOut, b.m_sackedOut, b.m_highestSack, 0⟩ h.starts h.sent_filled (by omega)
    hc.top hrises
  have htop' := markBlocks_top ⟨b.m_lostOut, b.m_sackedOut, b.m_highestSack, 0⟩ h.starts h.sent_filled (by omega)
    hc.top hrises'
  have hmarks := markBlocks_marked b ⟨b.m_lostOut, b.m_sackedOut, b.m_highestSack, 0⟩ b.m_sentList list
  have hmarks' := markBlocks_marked b ⟨b.m_lostOut, b.m_sackedOut, b.m_highestSack, 0⟩ b.m_sentList list'
  have hsame : sackList b.m_sentList list' = sackList b.m_sentList list :=
    hperm.symm.foldl_eq' (fun block _ block' _ items => sackAll_comm block block' items) _
  rw [← hitems, ← hitems'] at hsame
  generalize b.markBlocks ⟨b.m_lostOut, b.m_sackedOut, b.m_highestSack, 0⟩ b.m_sentList list = m
    at hend htop hmarks hsame
  generalize b.markBlocks ⟨b.m_lostOut, b.m_sackedOut, b.m_highestSack, 0⟩ b.m_sentList list' = m'
    at hend' htop' hmarks' hsame
  obtain ⟨marked, ⟨lostOut, sackedOut, highestSack, bytesSacked⟩, finished⟩ := m
  obtain ⟨marked', ⟨lostOut', sackedOut', highestSack', bytesSacked'⟩, finished'⟩ := m'
  obtain rfl : marked' = marked := hsame
  obtain rfl : finished = true := hend
  obtain rfl : finished' = true := hend'
  obtain rfl : highestSack' = highestSack := htop'.trans htop.symm
  have hsacked := hmarks.sacked
  have hsacked' := hmarks'.sacked
  have hlost := hmarks.lost
  have hlost' := hmarks'.lost
  have hbytes := hmarks.bytes
  have hbytes' := hmarks'.bytes
  dsimp only at hsacked hsacked' hlost hlost' hbytes hbytes'
  obtain rfl : sackedOut' = sackedOut := by grind
  obtain rfl : lostOut' = lostOut := by grind
  obtain rfl : bytesSacked' = bytesSacked := by grind
  rfl

/-- The block ends at or below the head, or starts at or behind the end of the sent items. -/
def TcpTxBuffer.Outside (b : TcpTxBuffer) (block : SackBlock) : Prop :=
  b.sentEnd.le block.first = true ∨
    b.m_sentSize.toNat ≤ (b.sentEnd.diff block.second).toNat ∧ (b.sentEnd.diff block.second).toNat < 2 ^ 31

/-- A block outside covers no item, unless it starts behind the sent items. -/
theorem Held.outside_covers {b : TcpTxBuffer} (h : Held b) (hout : b.Outside block)
    (hbehind : b.sentEnd.lt block.first = false) {items : List TcpTxItem} (hfr : frames items = frames b.m_sentList)
    (hi : i ∈ items) : block.covers i = false := by
  have hsmall := h.small
  obtain ⟨pre, post, rfl⟩ := List.append_of_mem hi
  have hcont := contiguous_eq hfr h.starts
  have hspan := span_eq hfr
  have hpos := (filled_cons.mp (filled_append.mp (filled_eq hfr h.sent_filled)).2).1
  have hstart : i.m_startSeq = b.m_firstByteSeq.advance (span pre) := (contiguous_append.mp hcont).2.1
  have hstop : i.stop = b.m_firstByteSeq.advance (span pre + i.m_packet.length) := by
    rw [TcpTxItem.stop, hstart, ← SequenceNumber32.advance_advance]
    rfl
  have hend : b.sentEnd = b.m_firstByteSeq.advance (span b.m_sentList) := h.sentEnd
  rw [span_append, span_cons] at hspan
  have hpos' : 0 < i.m_packet.length := List.length_pos_of_ne_nil (by
    intro hnil
    rw [hnil] at hpos
    exact absurd hpos (by decide))
  rcases hout with hfirst | ⟨hle, hlt⟩
  · have hfirst : b.sentEnd = block.first := by
      rw [SequenceNumber32.le] at hfirst
      rw [SequenceNumber32.lt, hfirst, Bool.true_and] at hbehind
      simpa using hbehind
    rw [SackBlock.covers, ← hfirst, hstart, hend, SequenceNumber32.ge_advance (by omega) (by omega),
      decide_eq_false (by omega), Bool.false_and]
  · have hsize : b.m_sentSize.toNat = span b.m_sentList := by rw [h.sentSize, toNat_ofNat (by omega)]
    generalize hd : (b.sentEnd.diff block.second).toNat = d at hle hlt
    have hsecond : b.m_firstByteSeq = block.second.advance (d - span b.m_sentList) := by
      have hback := SequenceNumber32.sub_advance (s := b.m_firstByteSeq) (p := span b.m_sentList)
        (n := UInt32.ofNat (span b.m_sentList)) (by rw [toNat_ofNat (by omega)])
      rw [toNat_ofNat (by omega), Nat.sub_self, SequenceNumber32.advance_zero, ← hend] at hback
      rw [← hback, ← SequenceNumber32.add_diff b.sentEnd block.second, SequenceNumber32.add_toNat, hd,
        SequenceNumber32.sub_advance (by rw [toNat_ofNat (by omega)]; omega), toNat_ofNat (by omega)]
    have hover : i.stop.le block.second = false := by
      have hcompare := SequenceNumber32.le_advance (s := block.second)
        (p := d - span b.m_sentList + (span pre + i.m_packet.length)) (q := 0) (by omega) (by omega)
      rw [SequenceNumber32.advance_zero, decide_eq_false (by omega)] at hcompare
      rw [hstop, hsecond, SequenceNumber32.advance_advance]
      exact hcompare
    rw [SackBlock.covers, hover, Bool.and_false]

/-- A block that covers no item changes nothing. -/
theorem markBlock_uncovered (st : Sacking) {s : SequenceNumber32} (hc : Contiguous s items)
    (huncovered : ∀ i ∈ items, block.covers i = false) : markBlock block st s items = (items, st) := by
  induction items generalizing s with
  | nil => rfl
  | cons i rest ih =>
    obtain ⟨rfl, hrest⟩ := contiguous_cons.mp hc
    have hi := huncovered i (List.mem_cons_self ..)
    rw [markBlock_cons]
    split
    · have hnext := ih (s := i.stop) hrest fun j hj => huncovered j (List.mem_cons_of_mem _ hj)
      simp only [hi, Bool.false_and, Bool.false_eq_true, if_false, hnext, TcpTxItem.sackBy]
    · rfl

/-- `Update` does the same without a block outside. -/
theorem markBlocks_outside {b : TcpTxBuffer} (h : Held b) (hout : b.Outside block)
    (hbehind : b.sentEnd.lt block.first = false) (list list' : List SackBlock) (st : Sacking) (items : List TcpTxItem)
    (hfr : frames items = frames b.m_sentList) :
    b.markBlocks st items (list ++ block :: list') = b.markBlocks st items (list ++ list') := by
  induction list generalizing st items with
  | nil =>
    rw [List.nil_append, List.nil_append, TcpTxBuffer.markBlocks, if_neg (by rw [hbehind]; exact Bool.false_ne_true),
      markBlock_uncovered st (contiguous_eq hfr h.starts) fun i hi => h.outside_covers hout hbehind hfr hi]
  | cons first list ih =>
    rw [List.cons_append, List.cons_append, TcpTxBuffer.markBlocks, TcpTxBuffer.markBlocks]
    split
    · rfl
    · exact ih _ _ ((markBlock_frames first st b.m_firstByteSeq items).trans hfr)

end Order

/-- What is asked of blocks in their order: none starts behind the sent items, and the last item that each SACKs anew
does not end where the one SACKed highest starts. -/
def TcpTxBuffer.Orderly (b : TcpTxBuffer) (list : List SackBlock) : Prop :=
  b.NoneBehind list ∧ b.RisesAll b.m_sentList list

theorem TxReached.weaken {allowed allowed' : TcpTxBuffer → TxCall → Prop} (hallowed : ∀ b c, allowed b c → allowed' b c)
    {b : TcpTxBuffer} (hb : TxReached allowed b) : TxReached allowed' b := by
  induction hb with
  | start h => exact .start h
  | step _ hc hrun ih => exact ih.step (hallowed _ _ hc) hrun

/-- Every reached buffer comes with its invariants. -/
theorem TxReached.cached {b : TcpTxBuffer} {allowed : TcpTxBuffer → TxCall → Prop}
    (hallowed : ∀ b c, allowed b c → c.Tracked b) (hb : TxReached allowed b) : Held b ∧ Cached b ∧ b.OwnNodes := by
  induction hb with
  | start h => exact ⟨h.held, h.cached, h.ownNodes⟩
  | step _ hc hrun ih =>
    obtain ⟨hheld, hcached, hnodes⟩ := ih
    have ht := hallowed _ _ hc
    exact ⟨hheld.run ht.fits hrun, hcached.step hheld ht hrun, hheld.ownNodes hnodes hrun⟩

/-- Over every run that keeps the highest SACKed item cached, `Update` does the same with the blocks in any orderly
order, and without a block outside. -/
theorem txBuffer_sackOrder (b : TcpTxBuffer) (hb : TxReached (fun b c => c.Tracked b) b) (list : List SackBlock)
    (hlist : b.Orderly list) :
    (∀ list', list.Perm list' → b.Orderly list' → b.update list' = b.update list) ∧
      ∀ before block after, list = before ++ block :: after → b.Outside block →
        b.update list = b.update (before ++ after) := by
  obtain ⟨hheld, hcached, -⟩ := hb.cached fun _ _ h => h
  constructor
  · intro list' hperm hlist'
    have hsame := markBlocks_perm hheld hcached hperm hlist.1 hlist.2 hlist'.2
    rw [TcpTxBuffer.update, TcpTxBuffer.update, hsame]
  · rintro before block after rfl hout
    have hbehind := hlist.1 block (List.mem_append_right _ (List.mem_cons_self ..))
    have hsame := markBlocks_outside hheld hout hbehind before after
      ⟨b.m_lostOut, b.m_sackedOut, b.m_highestSack, 0⟩ b.m_sentList rfl
    rw [TcpTxBuffer.update, TcpTxBuffer.update, hsame]

/-! ### Lost marks -/

section Lost

variable {items : List TcpTxItem}

/-- Marks change by `Update` only from lost to SACKed, or to SACKed. -/
structure Resacked (i i' : TcpTxItem) : Prop where
  sacked : i.m_sacked = true → i'.m_sacked = true
  lost : i'.m_lost = (i.m_lost && !i'.m_sacked)

theorem Resacked.refl {i : TcpTxItem} (h : ¬ (i.m_sacked = true ∧ i.m_lost = true)) : Resacked i i := by
  refine ⟨id, ?_⟩
  cases hsacked : i.m_sacked with
  | false => rw [Bool.not_false, Bool.and_true]
  | true => rw [Bool.not_true, Bool.and_false, Bool.eq_false_iff.mpr fun hlost => h ⟨hsacked, hlost⟩]

theorem Resacked.trans {i i' i'' : TcpTxItem} (h : Resacked i i') (h' : Resacked i' i'') : Resacked i i'' := by
  refine ⟨h'.sacked ∘ h.sacked, ?_⟩
  rw [h'.lost, h.lost]
  cases hsacked : i''.m_sacked with
  | true => rw [Bool.not_true, Bool.and_false, Bool.and_false]
  | false =>
    have hbefore : i'.m_sacked = false := Bool.eq_false_iff.mpr fun hs => by
      rw [h'.sacked hs] at hsacked
      cases hsacked
    rw [hbefore, Bool.not_false, Bool.and_true, Bool.and_true]

theorem resacked_sackBy {block : SackBlock} {i : TcpTxItem} (h : ¬ (i.m_sacked = true ∧ i.m_lost = true)) :
    Resacked i (i.sackBy block) := by
  unfold TcpTxItem.sackBy
  split
  · exact ⟨fun _ => rfl, by rw [Bool.not_true, Bool.and_false]⟩
  · exact .refl h

theorem resacked_trans {l l' l'' : List TcpTxItem} (h : List.Forall₂ Resacked l l') (h' : List.Forall₂ Resacked l' l'') :
    List.Forall₂ Resacked l l'' := by
  induction h generalizing l'' with
  | nil =>
    cases h'
    exact .nil
  | cons hi _ ih =>
    cases h' with
    | cons hi' hrest' => exact .cons (hi.trans hi') (ih hrest')

theorem markBlock_resacked {block : SackBlock} (st : Sacking) {s : SequenceNumber32} (hc : Contiguous s items)
    (ha : Apart items) : List.Forall₂ Resacked items (markBlock block st s items).1 := by
  induction items generalizing st s with
  | nil => exact .nil
  | cons i rest ih =>
    obtain ⟨rfl, hrest⟩ := contiguous_cons.mp hc
    obtain ⟨hi, ha⟩ := apart_cons.mp ha
    rw [markBlock_cons]
    split
    · exact .cons (resacked_sackBy hi) (ih _ hrest ha)
    · exact .cons (.refl hi) (List.forall₂_same.mpr fun j hj => .refl (ha j hj))

theorem markBlocks_resacked {b : TcpTxBuffer} (st : Sacking) (hc : Contiguous b.m_firstByteSeq items)
    (ha : Apart items) (list : List SackBlock) : List.Forall₂ Resacked items (b.markBlocks st items list).1 := by
  induction list generalizing st items with
  | nil => exact List.forall₂_same.mpr fun j hj => .refl (ha j hj)
  | cons block list ih =>
    rw [TcpTxBuffer.markBlocks]
    split
    · exact List.forall₂_same.mpr fun j hj => .refl (ha j hj)
    · have hcont := contiguous_eq (markBlock_frames block st b.m_firstByteSeq items) hc
      have hapart := (markBlock_marked block st b.m_firstByteSeq items).apart ha
      exact resacked_trans (markBlock_resacked st hc ha) (ih _ hcont hapart)

theorem loseAll_frames (t : Nat) (items : List TcpTxItem) : frames (loseAll t items) = frames items := by
  induction items with
  | nil => rfl
  | cons i rest ih =>
    rw [loseAll, frames_cons, ih, frames_cons]
    split <;> rfl

theorem forall₂_getElem? {R : TcpTxItem → TcpTxItem → Prop} {l l' : List TcpTxItem} (h : List.Forall₂ R l l') {k : Nat}
    {i i' : TcpTxItem} (hi : l[k]? = some i) (hi' : l'[k]? = some i') : R i i' := by
  induction h generalizing k with
  | nil => cases hi
  | cons hj _ ih =>
    cases k with
    | zero =>
      obtain rfl := Option.some.inj hi
      obtain rfl := Option.some.inj hi'
      exact hj
    | succ k => exact ih hi hi'

/-- An item of `loseAll`, and what lies above it. -/
theorem loseAll_getElem? (t : Nat) (items : List TcpTxItem) (k : Nat) :
    (loseAll t items)[k]? = items[k]?.map (fun i =>
        if !i.m_sacked && decide (t ≤ sackCount (items.drop (k + 1))) then { i with m_lost := true } else i) ∧
      (loseAll t items).drop k = loseAll t (items.drop k) := by
  induction items generalizing k with
  | nil =>
    exact ⟨rfl, by simp [loseAll]⟩
  | cons i rest ih =>
    cases k with
    | zero => exact ⟨rfl, rfl⟩
    | succ k => exact ih k

/-- The lost marks after an `Update` are those of the items that were lost and are not SACKed, and of those below
enough SACKed ones. -/
structure LostExact (thresh : UInt32) (before after : List TcpTxItem) : Prop where
  frames_eq : frames after = frames before
  lost : ∀ k i i', before[k]? = some i → after[k]? = some i' →
    (i'.m_lost = true ↔ i.m_lost = true ∧ i'.m_sacked = false ∨
      i'.m_sacked = false ∧ thresh.toNat ≤ sackCount (after.drop (k + 1)))

/-- Marks are exact when they change by SACKs, and then by the items that are lost. -/
theorem lostExact_loseAll {thresh : UInt32} {marked : List TcpTxItem} (hthresh : thresh ≠ 0)
    (hfr : frames marked = frames items) (h : List.Forall₂ Resacked items marked) :
    LostExact thresh items (loseAll (max 1 thresh.toNat) marked) := by
  have hpos : 0 < thresh.toNat := Nat.pos_of_ne_zero fun h0 => hthresh (UInt32.toNat_inj.mp h0)
  have hmax : max 1 thresh.toNat = thresh.toNat := Nat.max_eq_right hpos
  rw [hmax]
  refine ⟨(loseAll_frames _ _).trans hfr, fun k i i' hi hi' => ?_⟩
  obtain ⟨hitem, -⟩ := loseAll_getElem? thresh.toNat marked k
  obtain ⟨-, hdrop⟩ := loseAll_getElem? thresh.toNat marked (k + 1)
  rw [hitem] at hi'
  obtain ⟨j, hj, rfl⟩ := Option.map_eq_some_iff.mp hi'
  have hsack : Resacked i j := forall₂_getElem? h hi hj
  rw [hdrop, sackCount_loseAll]
  generalize sackCount (marked.drop (k + 1)) = count
  cases hsacked : j.m_sacked with
  | true =>
    rw [Bool.not_true, Bool.false_and, if_neg Bool.false_ne_true, hsack.lost, hsacked]
    simp
  | false =>
    rw [Bool.not_false, Bool.true_and]
    split
    · next hreached =>
      rw [decide_eq_true_eq] at hreached
      exact iff_of_true rfl (.inr ⟨rfl, hreached⟩)
    · next hreached =>
      rw [decide_eq_true_eq] at hreached
      rw [hsack.lost, hsacked, Bool.not_false, Bool.and_true]
      exact ⟨fun hlost => .inl ⟨hlost, rfl⟩, fun hor => hor.elim And.left fun hcount => absurd hcount.2 hreached⟩

end Lost

/-! ### Runs -/

section Runs

variable {b b' : TcpTxBuffer}

/-- The head is not SACKed, and no SACK block covers it. -/
def TxCall.HeadKept (b : TcpTxBuffer) : TxCall → Prop
  | update list => ∀ head ∈ b.m_sentList.head?, head.m_sacked = false ∧ ∀ block ∈ list, block.covers head = false
  | _ => True

/-- There is a highest SACKed item to start from. -/
theorem Cached.exists_updateLostCount (hc : Cached b) (hsacked : ∃ i ∈ b.m_sentList, i.m_sacked = true) :
    ∃ b', b.updateLostCount = some b' := by
  have hfound : ∀ (node : Nat) (items : List TcpTxItem), (∃ i ∈ items, i.node = node) →
      ∃ head upTo after, splitAfter node items = some (head :: upTo, after) := by
    intro node items
    induction items with
    | nil =>
      rintro ⟨i, hi, -⟩
      cases hi
    | cons i items ih =>
      rintro ⟨j, hj, rfl⟩
      rw [splitAfter]
      split
      · exact ⟨_, _, _, rfl⟩
      · next hne =>
        rcases List.mem_cons.mp hj with rfl | hj
        · exact absurd rfl hne
        · obtain ⟨head, upTo, after, hsplit⟩ := ih ⟨j, hj, rfl⟩
          exact ⟨i, head :: upTo, after, by rw [hsplit]; rfl⟩
  obtain ⟨i, hi, hsacked⟩ := hsacked
  rcases lastSacked_cases (none, ⟨0⟩) b.m_sentList with ⟨hnone, -⟩ | ⟨pre, j, post, hl, -, -, htop⟩
  · rw [hnone i hi] at hsacked
    cases hsacked
  · obtain ⟨head, upTo, after, hsplit⟩ := hfound j.node b.m_sentList
      ⟨j, by rw [hl]; exact List.mem_append_right _ (List.mem_cons_self ..), rfl⟩
    rw [TcpTxBuffer.updateLostCount, hc.top, topSack, htop, Option.bind_some, hsplit]
    exact ⟨_, rfl⟩

/-- Items split and merged are not SACKed and lost when none was. -/
theorem takeOut_apart (pre post : List TcpTxItem) (retrans : UInt32) (node : Nat) {mid : List TcpTxItem}
    {item : TcpTxItem} {k n : Nat} (hends : Ends item mid k n) (h : Apart (pre ++ item :: (mid ++ post))) :
    Apart (takeOut pre item mid post k n retrans node).list := by
  refine takeOut_keeps (P := Apart) ?_ ?_ hends h
  · intro l i l' node k _ _ h
    obtain ⟨hl, hi, hl'⟩ := (apart_append.trans (and_congr_right fun _ => apart_cons)).mp h
    exact apart_append.mpr ⟨hl, apart_cons.mpr ⟨hi, apart_cons.mpr ⟨hi, hl'⟩⟩⟩
  · intro l i j l' r h
    obtain ⟨hl, hi, hl'⟩ := (apart_append.trans (and_congr_right fun _ => apart_cons)).mp h
    exact apart_append.mpr ⟨hl, apart_cons.mpr ⟨hi, (apart_cons.mp hl').2⟩⟩

theorem apart_of_free {items : List TcpTxItem} (h : ∀ i ∈ items, i.m_sacked = false) : Apart items := by
  intro i hi hboth
  rw [h i hi] at hboth
  exact Bool.false_ne_true hboth.1

theorem Copied.apart (hc : Cached b) (ha : Apart b.m_sentList) {off n : Nat} {r : TcpTxItem × TcpTxBuffer}
    (hr : Copied b off n r) : Apart r.2.m_sentList := by
  cases hr with
  | @resent pre mid post item hsent hpre hle hends =>
    have hlist := takeOut_apart pre post b.m_retrans b.nextNode hends (hsent ▸ ha)
    generalize takeOut pre item mid post (off - span pre) _ b.m_retrans b.nextNode = f at hlist
    obtain ⟨hbefore, hout, hafter⟩ := (apart_append.trans (and_congr_right fun _ => apart_cons)).mp hlist
    exact apart_append.mpr ⟨hbefore, apart_cons.mpr ⟨hout, hafter⟩⟩
  | @sentNew mid post item happ hoff hends =>
    have hfree := takeOut_free [] b.m_retrans b.nextNode hends fun j hj => hc.free j (by rw [happ]; exact hj)
    generalize takeOut [] item mid post 0 n b.m_retrans b.nextNode = f at hfree
    have hout : f.outItem.m_sacked = false := hfree _ (List.mem_append_right _ (List.mem_cons_self ..))
    exact apart_append.mpr ⟨ha, apart_of_free fun i hi => by rw [List.mem_singleton.mp hi]; exact hout⟩

theorem Discard.apart {o : Nat} (hd : Discard o b b') (hfree : ∀ i ∈ b.m_appList, i.m_sacked = false)
    (ha : Apart b.m_sentList) : Apart b'.m_sentList := by
  induction hd with
  | done => exact ha
  | part hsent hpos hlt =>
    rw [hsent] at ha
    obtain ⟨hi, hrest⟩ := apart_cons.mp ha
    exact apart_cons.mpr ⟨hi, hrest⟩
  | full hsent hle _ ih =>
    rw [hsent] at ha
    exact ih hfree (apart_cons.mp ha).2
  | @move o b b' r hsent hpos hheld hr hd ih =>
    cases hr with
    | resent hs =>
      rw [hsent] at hs
      cases List.append_eq_nil_iff.mp hs.symm |>.2
    | @sentNew mid post item happ hoff hends =>
      have hfree' := takeOut_free [] b.m_retrans b.nextNode hends fun j hj => hfree j (by rw [happ]; exact hj)
      generalize takeOut [] item mid post 0 _ b.m_retrans b.nextNode = f at hfree' ih
      have hout : f.outItem.m_sacked = false := hfree' _ (List.mem_append_right _ (List.mem_cons_self ..))
      refine ih (fun i hi => hfree' i ?_) ?_
      · rcases List.mem_append.mp hi with hi | hi
        · exact List.mem_append_left _ hi
        · exact List.mem_append_right _ (List.mem_cons_of_mem _ hi)
      · exact apart_append.mpr ⟨ha, apart_of_free fun i hi => by rw [List.mem_singleton.mp hi]; exact hout⟩

theorem loseAll_apart {items : List TcpTxItem} (t : Nat) (ha : Apart items) : Apart (loseAll t items) := by
  induction items with
  | nil => exact ha
  | cons i rest ih =>
    obtain ⟨hi, hrest⟩ := apart_cons.mp ha
    rw [loseAll]
    refine apart_cons.mpr ⟨?_, ih hrest⟩
    split
    · next hmark =>
      rw [Bool.and_eq_true, Bool.not_eq_true'] at hmark
      exact fun hboth => Bool.false_ne_true (hmark.1.symm.trans hboth.1)
    · exact hi

/-- Items of which none is SACKed now were not before. -/
theorem resacked_none {l l' : List TcpTxItem} (h : List.Forall₂ Resacked l l') (hnone : ∀ i ∈ l', i.m_sacked = false) :
    ∀ i ∈ l, i.m_sacked = false := by
  induction h with
  | nil => exact nofun
  | cons hi _ ih =>
    have hrest := ih fun j hj => hnone j (List.mem_cons_of_mem _ hj)
    intro j hj
    rcases List.mem_cons.mp hj with rfl | hj
    · refine Bool.eq_false_iff.mpr fun hsacked => ?_
      exact Bool.false_ne_true ((hnone _ (List.mem_cons_self ..)).symm.trans (hi.sacked hsacked))
    · exact hrest j hj

/-- The buffer before `Update` counts the lost items. -/
def TcpTxBuffer.remark (b : TcpTxBuffer) (items : List TcpTxItem) (st : Sacking) : TcpTxBuffer :=
  { b with
    m_sentList := items
    m_lostOut := st.m_lostOut
    m_sackedOut := st.m_sackedOut
    m_highestSack := st.m_highestSack }

/-- `Update` returns, with the items that have enough SACKed above them lost when it came to its end. -/
theorem Cached.update_eq (h : Held b) (hc : Cached b) (hn : b.OwnNodes) (ha : Apart b.m_sentList)
    {list : List SackBlock} (ht : b.RisesAll b.m_sentList list) (hkept : (TxCall.update list).HeadKept b) :
    ∃ n b' marked finished, b.update list = some (n, b') ∧ frames marked = frames b.m_sentList ∧
      List.Forall₂ Resacked b.m_sentList marked ∧ Apart marked ∧ (b.NoneBehind list → finished = true) ∧
      b'.m_sentList = if finished && decide (0 < n) then loseAll b.thresh marked else marked := by
  have hsmall := h.small
  have htop := markBlocks_top ⟨b.m_lostOut, b.m_sackedOut, b.m_highestSack, 0⟩ h.starts h.sent_filled (by omega) hc.top ht
  have hfr := markBlocks_frames b ⟨b.m_lostOut, b.m_sackedOut, b.m_highestSack, 0⟩ b.m_sentList list
  have hmarks := markBlocks_marked b ⟨b.m_lostOut, b.m_sackedOut, b.m_highestSack, 0⟩ b.m_sentList list
  have hresacked := markBlocks_resacked ⟨b.m_lostOut, b.m_sackedOut, b.m_highestSack, 0⟩ h.starts ha list
  have hfinished := fun hnone : b.NoneBehind list => (markBlocks_eq ⟨b.m_lostOut, b.m_sackedOut, b.m_highestSack, 0⟩ h.starts hnone).2
  have hhead : (b.markBlocks ⟨b.m_lostOut, b.m_sackedOut, b.m_highestSack, 0⟩ b.m_sentList list).1.head? =
      b.m_sentList.head? :=
    markBlocks_head _ fun i hi block hblock => by
      have hcovers := (hkept i hi).2 block hblock
      cases hsent : b.m_sentList with
      | nil =>
        rw [hsent] at hi
        cases hi
      | cons head rest =>
        rw [hsent] at hi
        obtain rfl := Option.some.inj hi
        have hstart : head.m_startSeq = b.m_firstByteSeq := by
          have hstarts := h.starts
          rw [hsent] at hstarts
          exact (contiguous_cons.mp hstarts).1
        rw [SackBlock.covers, TcpTxItem.stop, hstart] at hcovers
        exact hcovers
  generalize hm : b.markBlocks ⟨b.m_lostOut, b.m_sackedOut, b.m_highestSack, 0⟩ b.m_sentList list = m
    at htop hfr hmarks hresacked hfinished hhead
  have hremarked : Remarked b (b.remark m.1 m.2.1) := ⟨hfr, rfl, rfl, rfl, rfl, rfl⟩
  have hheld := hremarked.held h
  have hcached : Cached (b.remark m.1 m.2.1) := ⟨htop, hc.free⟩
  have hfree : HeadFree (b.remark m.1 m.2.1) := by
    intro i hi
    have hi : i ∈ m.1.head? := hi
    rw [hhead] at hi
    exact (hkept i hi).1
  have hupdate : b.update list = if m.2.2 && decide (0 < m.2.1.bytesSacked) then
      (b.remark m.1 m.2.1).updateLostCount.map fun b => (m.2.1.bytesSacked, b)
      else some (m.2.1.bytesSacked, b.remark m.1 m.2.1) := by
    rw [TcpTxBuffer.update, hm]
    rfl
  have hrest : ∀ b', b.update list = some (m.2.1.bytesSacked, b') →
      b'.m_sentList = (if m.2.2 && decide (0 < m.2.1.bytesSacked) then loseAll b.thresh m.1 else m.1) →
      ∃ n b' marked finished, b.update list = some (n, b') ∧ frames marked = frames b.m_sentList ∧
        List.Forall₂ Resacked b.m_sentList marked ∧ Apart marked ∧ (b.NoneBehind list → finished = true) ∧
        b'.m_sentList = if finished && decide (0 < n) then loseAll b.thresh marked else marked :=
    fun b' hb' hsent => ⟨_, b', m.1, m.2.2, hb', hfr, hresacked, hmarks.apart ha, hfinished, hsent⟩
  by_cases hcount : (m.2.2 && decide (0 < m.2.1.bytesSacked)) = true
  · rw [if_pos hcount] at hupdate
    have hsacked : ∃ i ∈ m.1, i.m_sacked = true := by
      by_contra hnone
      have hnone' : ∀ i ∈ m.1, i.m_sacked = false := fun i hi => Bool.eq_false_iff.mpr fun hs => hnone ⟨i, hi, hs⟩
      have hafter := share_none hnone'
      have hbefore := share_none (resacked_none hresacked hnone')
      have hbytes := hmarks.bytes
      have hshares := hmarks.sacked
      rw [hafter, hbefore] at hshares
      dsimp only at hbytes hshares
      have hzero : m.2.1.bytesSacked = 0 := by grind
      rw [hzero] at hcount
      exact absurd (Bool.and_eq_true_iff.mp hcount).2 (by decide)
    obtain ⟨b', hlost⟩ := hcached.exists_updateLostCount hsacked
    rw [hlost, Option.map_some] at hupdate
    refine hrest b' hupdate ?_
    rw [if_pos hcount]
    exact (hheld.updateLostCount hfree hcached (hremarked.ownNodes hn) hlost).1
  · rw [if_neg hcount] at hupdate
    refine hrest _ hupdate ?_
    rw [if_neg hcount]
    rfl

/-- Each call leaves no item SACKed and lost. -/
theorem Cached.apart_step (h : Held b) (hc : Cached b) (hn : b.OwnNodes) (ha : Apart b.m_sentList) {c : TxCall}
    (ht : c.Tracked b) (hkept : c.HeadKept b) (hrun : c.run b = some b') : Apart b'.m_sentList := by
  cases c with
  | add p =>
    obtain rfl := Option.some.inj hrun
    rw [TcpTxBuffer.add]
    split
    · split
      · exact ha
      · exact ha
    · exact ha
  | copyFromSequence numBytes seq =>
    obtain ⟨r, heq, rfl⟩ := Option.map_eq_some_iff.mp hrun
    rcases h.copy_cases numBytes seq with hnone | hnull | ⟨off, n, r', rfl, -, hn, hsome, hr⟩
    · rw [hnone] at heq
      cases heq
    · rw [hnull] at heq
      obtain rfl := Option.some.inj heq
      exact ha
    · rw [hsome] at heq
      obtain rfl := Option.some.inj heq
      exact hr.apart hc ha
  | discardUpTo seq =>
    by_cases hge : b.m_firstByteSeq.ge seq = true
    · change b.discardUpTo seq = _ at hrun
      rw [TcpTxBuffer.discardUpTo, if_pos hge] at hrun
      obtain rfl := Option.some.inj hrun
      exact ha
    · rw [Bool.not_eq_true] at hge
      obtain ⟨o, ho, rfl⟩ := b.m_firstByteSeq.exists_advance seq
      obtain ⟨b₁, hd, -, heq⟩ := h.discardUpTo_free ho hge ht
      obtain rfl := Option.some.inj (heq.symm.trans hrun)
      exact hd.apart hc.free ha
  | update list =>
    obtain ⟨⟨n, b₁⟩, heq, rfl⟩ := Option.map_eq_some_iff.mp hrun
    obtain ⟨n', b₂, marked, finished, hupdate, -, -, hmarked, -, hsent⟩ := hc.update_eq h hn ha ht hkept
    obtain ⟨rfl, rfl⟩ := Prod.mk.inj (Option.some.inj (hupdate.symm.trans heq))
    dsimp only
    rw [hsent]
    split
    · exact loseAll_apart _ hmarked
    · exact hmarked
  | addRenoSack => exact ht.elim
  | resetRenoSack =>
    obtain rfl := Option.some.inj hrun
    refine apart_of_free fun i hi => ?_
    obtain ⟨j, -, rfl⟩ := List.mem_map.mp hi
    rfl
  | markHeadAsLost =>
    obtain rfl := Option.some.inj hrun
    rw [TcpTxBuffer.markHeadAsLost]
    split
    · exact ha
    · next head rest hsent =>
      rw [hsent] at ha
      exact apart_cons.mpr ⟨fun hboth => Bool.false_ne_true hboth.1, (apart_cons.mp ha).2⟩
  | deleteRetransmittedFlagFromHead =>
    obtain rfl := Option.some.inj hrun
    rw [TcpTxBuffer.deleteRetransmittedFlagFromHead]
    split
    · exact ha
    · split
      · exact ha
      · next head rest hsent =>
        split
        · rw [hsent] at ha
          obtain ⟨hhead, hrest⟩ := apart_cons.mp ha
          exact apart_cons.mpr ⟨hhead, hrest⟩
        · exact ha
  | setSentListLost resetSack =>
    obtain rfl := Option.some.inj hrun
    rw [TcpTxBuffer.setSentListLost]
    split
    · refine apart_of_free fun i hi => ?_
      obtain ⟨j, -, rfl⟩ := List.mem_map.mp hi
      rfl
    · intro i hi hboth
      obtain ⟨j, hj, rfl⟩ := List.mem_map.mp hi
      have hsacked : j.m_sacked = true := hboth.1
      have hlost : (j.m_lost || !j.m_sacked) = true := hboth.2
      rw [hsacked, Bool.not_true, Bool.or_false] at hlost
      exact ha j hj ⟨hsacked, hlost⟩
  | resetSentList =>
    obtain rfl := Option.some.inj hrun
    exact fun i hi => absurd hi List.not_mem_nil
  | resetLastSegmentSent =>
    obtain rfl := Option.some.inj hrun
    rw [TcpTxBuffer.resetLastSegmentSent]
    split
    · exact ha
    · exact fun i hi => ha i ((List.dropLast_sublist _).subset hi)

/-- The invariants of every buffer reached. -/
theorem TxReached.apart (hb : TxReached (fun b c => c.Tracked b ∧ c.HeadKept b) b) :
    Held b ∧ Cached b ∧ b.OwnNodes ∧ Apart b.m_sentList := by
  induction hb with
  | start h => exact ⟨h.held, h.cached, h.ownNodes, by rw [h.sentList]; exact nofun⟩
  | step _ hcall hrun ih =>
    obtain ⟨hheld, hcached, hnodes, hapart⟩ := ih
    obtain ⟨ht, hkept⟩ := hcall
    exact ⟨hheld.run ht.fits hrun, hcached.step hheld ht hrun, hheld.ownNodes hnodes hrun,
      hcached.apart_step hheld hnodes hapart ht hkept hrun⟩

end Runs

/-- Over every run that keeps the highest SACKed item cached and the head free, `Update` returns, and its lost marks are
exact when it SACKs something, comes to the end of its blocks, and needs a SACKed item to mark one. -/
theorem txBuffer_lostMarks (b : TcpTxBuffer) (hb : TxReached (fun b c => c.Tracked b ∧ c.HeadKept b) b)
    (list : List SackBlock) (hlist : b.Orderly list) (hkept : (TxCall.update list).HeadKept b)
    (hthresh : b.m_dupAckThresh ≠ 0) :
    ∃ n b', b.update list = some (n, b') ∧ (0 < n → LostExact b.m_dupAckThresh b.m_sentList b'.m_sentList) := by
  obtain ⟨hheld, hcached, hnodes, hapart⟩ := hb.apart
  obtain ⟨n, b', marked, finished, hupdate, hfr, hresacked, -, hfinished, hsent⟩ :=
    hcached.update_eq hheld hnodes hapart hlist.2 hkept
  refine ⟨n, b', hupdate, fun hn => ?_⟩
  rw [hsent, hfinished hlist.1, Bool.true_and, if_pos (decide_eq_true hn)]
  exact lostExact_loseAll hthresh hfr hresacked

/-- Four items of two bytes are sent, and two SACKed items above one make it lost. -/
def fourSent : TcpTxBuffer where
  m_sentList := [⟨1, ⟨1⟩, [0, 1], false, false, false⟩, ⟨2, ⟨3⟩, [2, 3], false, false, false⟩,
    ⟨3, ⟨5⟩, [4, 5], false, false, false⟩, ⟨0, ⟨7⟩, [6, 7], false, false, false⟩]
  m_size := 8
  m_sentSize := 8
  m_firstByteSeq := ⟨1⟩
  m_dupAckThresh := 2
  nextNode := 4

theorem reached_fourSent : TxReached (fun b c => c.Tracked b ∧ c.HeadKept b) fourSent := by
  have h0 : TxReached (fun b c => c.Tracked b ∧ c.HeadKept b) { m_firstByteSeq := ⟨1⟩, m_dupAckThresh := 2 } :=
    .start ⟨rfl, rfl, rfl, rfl, rfl, rfl, rfl, rfl⟩
  have h1 := h0.step (c := .add [0, 1, 2, 3, 4, 5, 6, 7])
    ⟨by simp [TxCall.Tracked, TcpTxBuffer.held], trivial⟩ rfl
  have h2 := h1.step (c := .copyFromSequence 2 ⟨1⟩) ⟨.inl (by decide), trivial⟩ rfl
  have h3 := h2.step (c := .copyFromSequence 2 ⟨3⟩) ⟨.inl (by decide), trivial⟩ rfl
  have h4 := h3.step (c := .copyFromSequence 2 ⟨5⟩) ⟨.inl (by decide), trivial⟩ rfl
  exact h4.step (c := .copyFromSequence 2 ⟨7⟩) ⟨.inl (by decide), trivial⟩ rfl

instance (block : SackBlock) (items : List TcpTxItem) : Decidable (Rises block items) :=
  inferInstanceAs (Decidable (∀ i ∈ (fresh block items).getLast?, _))

/-- Two of them that are not next to each other are SACKed in either order. -/
theorem orderly_apart : fourSent.Orderly [⟨⟨7⟩, ⟨9⟩⟩, ⟨⟨3⟩, ⟨5⟩⟩] ∧ fourSent.Orderly [⟨⟨3⟩, ⟨5⟩⟩, ⟨⟨7⟩, ⟨9⟩⟩] :=
  ⟨⟨by unfold TcpTxBuffer.NoneBehind; decide, fun _ => ⟨by decide, fun _ => ⟨by decide, trivial⟩⟩⟩,
    ⟨by unfold TcpTxBuffer.NoneBehind; decide, fun _ => ⟨by decide, fun _ => ⟨by decide, trivial⟩⟩⟩⟩

theorem txBuffer_sackOrder_two :
    fourSent.Orderly [⟨⟨7⟩, ⟨9⟩⟩, ⟨⟨3⟩, ⟨5⟩⟩] ∧
      fourSent.update [⟨⟨3⟩, ⟨5⟩⟩, ⟨⟨7⟩, ⟨9⟩⟩] = fourSent.update [⟨⟨7⟩, ⟨9⟩⟩, ⟨⟨3⟩, ⟨5⟩⟩] :=
  ⟨orderly_apart.1, (txBuffer_sackOrder fourSent (reached_fourSent.weaken fun _ _ h => h.1) _ orderly_apart.1).1 _
    (.swap _ _ _) orderly_apart.2⟩

theorem txBuffer_lostMarks_two : ∃ n b', fourSent.update [⟨⟨7⟩, ⟨9⟩⟩, ⟨⟨3⟩, ⟨5⟩⟩] = some (n, b') ∧
    (0 < n → LostExact fourSent.m_dupAckThresh fourSent.m_sentList b'.m_sentList) :=
  txBuffer_lostMarks fourSent reached_fourSent _ orderly_apart.1
    (by unfold TxCall.HeadKept; decide) (by decide)

/-- A block behind the sent items, first or last: `Update` returns before the other one, or after it. -/
theorem not_txBuffer_sackOrder_behind :
    TxReached (fun b c => c.Tracked b) fourSent ∧
      List.Perm [(⟨⟨3⟩, ⟨5⟩⟩ : SackBlock), ⟨⟨10⟩, ⟨12⟩⟩] [⟨⟨10⟩, ⟨12⟩⟩, ⟨⟨3⟩, ⟨5⟩⟩] ∧
      fourSent.update [⟨⟨10⟩, ⟨12⟩⟩, ⟨⟨3⟩, ⟨5⟩⟩] ≠ fourSent.update [⟨⟨3⟩, ⟨5⟩⟩, ⟨⟨10⟩, ⟨12⟩⟩] :=
  ⟨reached_fourSent.weaken fun _ _ h => h.1, .swap _ _ _,
    fun h => absurd (congrArg (Option.map Prod.fst) h) (by decide)⟩

/-- The item SACKed highest first, and then the one below it: the items below the two are not lost. -/
theorem not_txBuffer_lostMarks_below :
    TxReached (fun b c => c.Tracked b ∧ c.HeadKept b) fourSent ∧
      ∃ b', fourSent.update [⟨⟨7⟩, ⟨9⟩⟩, ⟨⟨5⟩, ⟨7⟩⟩] = some (4, b') ∧
        ¬ LostExact fourSent.m_dupAckThresh fourSent.m_sentList b'.m_sentList := by
  refine ⟨reached_fourSent, _, rfl, fun h => ?_⟩
  have hlost := (h.lost 1 _ _ rfl rfl).mpr (.inr ⟨rfl, by decide⟩)
  exact absurd hlost (by decide)

end Ns3.Tcp
