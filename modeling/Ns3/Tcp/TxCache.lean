import Ns3.Tcp.TxScoreboard

/-!
# The item SACKed highest

`m_highestSack` is kept by `Update` as it SACKs items, and reset when the item is discarded. It
is what `FindHighestSacked` finds as long as no block SACKs, last of its items, the one directly
below the item SACKed highest, and the calls that move items or unmark the head leave SACKed ones
alone.
-/

namespace Ns3.Tcp

open Ns3.Network Ns3.Lib

/-! ### SACK blocks on items one after the other -/

/-- Where an item stops. -/
def TcpTxItem.stop (i : TcpTxItem) : SequenceNumber32 := i.m_startSeq.add i.getSize

/-- Whether a SACK block covers an item. -/
def SackBlock.covers (block : SackBlock) (i : TcpTxItem) : Bool :=
  i.m_startSeq.ge block.first && i.stop.le block.second

/-- Whether `Update` goes on behind an item. -/
def SackBlock.passes (block : SackBlock) (i : TcpTxItem) : Bool :=
  block.covers i || !i.stop.gt block.second

/-- An item after a block that covers it or not. -/
def TcpTxItem.sackBy (block : SackBlock) (i : TcpTxItem) : TcpTxItem :=
  if block.covers i && !i.m_sacked then { i with m_lost := false, m_sacked := true } else i

/-- What `Update` changes when it SACKs an item. -/
def Sacking.sack (st : Sacking) (i : TcpTxItem) : Sacking where
  m_lostOut := if i.m_lost then st.m_lostOut - i.getSize else st.m_lostOut
  m_sackedOut := st.m_sackedOut + i.getSize
  m_highestSack :=
    if st.m_highestSack.1.isNone || st.m_highestSack.2.le i.stop then (some i.node, i.m_startSeq)
    else st.m_highestSack
  bytesSacked := st.bytesSacked + i.getSize

/-- The items after a block. -/
def sackAll (block : SackBlock) (items : List TcpTxItem) : List TcpTxItem :=
  (items.takeWhile block.passes).map (TcpTxItem.sackBy block) ++ items.dropWhile block.passes

/-- The items that a block SACKs anew. -/
def fresh (block : SackBlock) (items : List TcpTxItem) : List TcpTxItem :=
  (items.takeWhile block.passes).filter fun i => block.covers i && !i.m_sacked

section Blocks

variable {block : SackBlock} {i : TcpTxItem} {rest : List TcpTxItem}

theorem sackAll_cons (block : SackBlock) (i : TcpTxItem) (rest : List TcpTxItem) :
    sackAll block (i :: rest) =
      if block.passes i then i.sackBy block :: sackAll block rest else i :: rest := by
  rw [sackAll, List.takeWhile_cons, List.dropWhile_cons]
  split
  · rfl
  · rfl

theorem fresh_cons (block : SackBlock) (i : TcpTxItem) (rest : List TcpTxItem) :
    fresh block (i :: rest) =
      if block.passes i then
        if block.covers i && !i.m_sacked then i :: fresh block rest else fresh block rest
      else [] := by
  rw [fresh, List.takeWhile_cons]
  split
  · rw [List.filter_cons]
    rfl
  · rfl

/-- `Update` at an item. -/
theorem markBlock_cons (block : SackBlock) (st : Sacking) (i : TcpTxItem) (rest : List TcpTxItem) :
    markBlock block st i.m_startSeq (i :: rest) =
      if block.passes i then
        let r := markBlock block (if block.covers i && !i.m_sacked then st.sack i else st) i.stop rest
        (i.sackBy block :: r.1, r.2)
      else (i :: rest, st) := by
  rw [markBlock, SackBlock.passes, TcpTxItem.sackBy]
  change (if block.covers i = true then _ else if i.stop.gt block.second = true then _ else _) = _
  cases block.covers i with
  | true =>
    cases hs : i.m_sacked with
    | true => rfl
    | false => rfl
  | false =>
    cases i.stop.gt block.second with
    | true => rfl
    | false => rfl

/-- `Update` on items one after the other. -/
theorem markBlock_eq (block : SackBlock) (st : Sacking) {s : SequenceNumber32}
    {items : List TcpTxItem} (hc : Contiguous s items) :
    (markBlock block st s items).1 = sackAll block items := by
  induction items generalizing st s with
  | nil => rfl
  | cons i rest ih =>
    obtain ⟨rfl, hrest⟩ := contiguous_cons.mp hc
    rw [markBlock_cons, sackAll_cons]
    split
    · exact congrArg (_ :: ·) (ih _ hrest)
    · rfl

end Blocks

/-! ### The item SACKed last -/

/-- The item SACKed last among some, or else `ret`. -/
def lastSacked (ret : Option Nat × SequenceNumber32) (items : List TcpTxItem) :
    Option Nat × SequenceNumber32 :=
  items.foldl (fun ret i => if i.m_sacked then (some i.node, i.m_startSeq) else ret) ret

/-- The item SACKed highest, as `m_highestSack` names it. -/
def topSack (items : List TcpTxItem) : Option Nat × SequenceNumber32 :=
  lastSacked (none, ⟨0⟩) items

section Last

variable {ret : Option Nat × SequenceNumber32} {l l' : List TcpTxItem} {i : TcpTxItem}

theorem lastSacked_append (ret : Option Nat × SequenceNumber32) (l l' : List TcpTxItem) :
    lastSacked ret (l ++ l') = lastSacked (lastSacked ret l) l' :=
  List.foldl_append

theorem lastSacked_cons (ret : Option Nat × SequenceNumber32) (i : TcpTxItem)
    (l : List TcpTxItem) : lastSacked ret (i :: l) =
      lastSacked (if i.m_sacked then (some i.node, i.m_startSeq) else ret) l := rfl

theorem lastSacked_none (h : ∀ i ∈ l, i.m_sacked = false) : lastSacked ret l = ret := by
  induction l with
  | nil => rfl
  | cons i l ih =>
    rw [lastSacked_cons, h i (by simp)]
    exact ih fun j hj => h j (List.mem_cons_of_mem _ hj)

/-- The last item SACKed, if there is one. -/
theorem lastSacked_cases (ret : Option Nat × SequenceNumber32) (l : List TcpTxItem) :
    (∀ i ∈ l, i.m_sacked = false) ∧ lastSacked ret l = ret ∨
      ∃ pre i post, l = pre ++ i :: post ∧ i.m_sacked = true ∧ (∀ j ∈ post, j.m_sacked = false) ∧
        lastSacked ret l = (some i.node, i.m_startSeq) := by
  induction l generalizing ret with
  | nil => exact .inl ⟨by simp, rfl⟩
  | cons i l ih =>
    rw [lastSacked_cons]
    rcases ih (if i.m_sacked then (some i.node, i.m_startSeq) else ret) with
      ⟨hnone, heq⟩ | ⟨pre, j, post, rfl, hj, hpost, heq⟩
    · cases hi : i.m_sacked with
      | false =>
        refine .inl ⟨fun j hj => ?_, by rw [← hi]; simpa [hi] using heq⟩
        rcases List.mem_cons.mp hj with rfl | hj
        · exact hi
        · exact hnone j hj
      | true =>
        refine .inr ⟨[], i, l, rfl, hi, hnone, ?_⟩
        rw [hi] at heq
        exact heq
    · exact .inr ⟨i :: pre, j, post, rfl, hj, hpost, heq⟩

/-- What `lastSacked` reads of an item. -/
def TcpTxItem.tag (i : TcpTxItem) : Nat × SequenceNumber32 × Bool :=
  (i.node, i.m_startSeq, i.m_sacked)

theorem lastSacked_tags (h : l'.map TcpTxItem.tag = l.map TcpTxItem.tag) :
    lastSacked ret l' = lastSacked ret l := by
  have hfold : ∀ l : List TcpTxItem, lastSacked ret l =
      (l.map TcpTxItem.tag).foldl (fun ret t => if t.2.2 then (some t.1, t.2.1) else ret) ret := by
    intro l
    rw [List.foldl_map]
    rfl
  rw [hfold, hfold, h]

end Last

/-- `FindHighestSacked` on items one after the other. -/
theorem findHighestSacked_eq {b : TcpTxBuffer} (h : Contiguous b.m_firstByteSeq b.m_sentList) :
    b.findHighestSacked = topSack b.m_sentList := by
  rw [TcpTxBuffer.findHighestSacked, topSack]
  generalize b.m_firstByteSeq = s at h
  generalize ((none, ⟨0⟩) : Option Nat × SequenceNumber32) = ret
  generalize b.m_sentList = l at h
  induction l generalizing s ret with
  | nil => rfl
  | cons i l ih =>
    obtain ⟨rfl, hrest⟩ := contiguous_cons.mp h
    rw [TcpTxBuffer.findHighestSacked.go, lastSacked_cons]
    exact ih _ _ hrest

/-! ### Update -/

/-- The last item that the block SACKs anew does not end where the item SACKed highest starts. -/
def Rises (block : SackBlock) (items : List TcpTxItem) : Prop :=
  ∀ i ∈ (fresh block items).getLast?, (topSack items).1 ≠ none → (topSack items).2 ≠ i.stop

/-- So do all the blocks that `Update` comes to, one after the other. -/
def TcpTxBuffer.RisesAll (b : TcpTxBuffer) : List TcpTxItem → List SackBlock → Prop
  | _, [] => True
  | items, block :: list => b.sentEnd.lt block.first = false →
      Rises block items ∧ b.RisesAll (sackAll block items) list

section Update

variable {block : SackBlock}

/-- What a block does to `m_highestSack`, `base` being the head and `s` `p` bytes behind it. -/
theorem markBlock_last {base s : SequenceNumber32} {p : Nat} {items : List TcpTxItem}
    (st : Sacking) (hs : s = base.advance p) (hc : Contiguous s items)
    (hsmall : p + span items < 2 ^ 31)
    (hst : st.m_highestSack.1 ≠ none → ∃ q < 2 ^ 31, st.m_highestSack.2 = base.advance q) :
    fresh block items = [] ∧ sackAll block items = items ∧
        (markBlock block st s items).2.m_highestSack = st.m_highestSack ∨
      ∃ pre i post pre', items = pre ++ i :: post ∧ (fresh block items).getLast? = some i ∧
        i.m_sacked = false ∧
        sackAll block items = pre' ++ { i with m_lost := false, m_sacked := true } :: post ∧
        frames pre' = frames pre ∧
        (markBlock block st s items).2.m_highestSack = (st.sack i).m_highestSack := by
  induction items generalizing st s p with
  | nil => exact .inl ⟨rfl, rfl, rfl⟩
  | cons i rest ih =>
    obtain ⟨hi, hrest⟩ := contiguous_cons.mp hc
    rw [span_cons] at hsmall
    have hstop : i.stop = base.advance (p + i.m_packet.length) := by
      rw [← SequenceNumber32.advance_advance, ← hs, ← hi]
      rfl
    have hnext : Contiguous i.stop rest := by
      rw [TcpTxItem.stop, hi]
      exact hrest
    subst hi
    rw [markBlock_cons, sackAll_cons, fresh_cons]
    by_cases hpass : block.passes i = true
    · simp only [if_pos hpass]
      by_cases hnew : (block.covers i && !i.m_sacked) = true
      · -- the item is SACKed
        rw [TcpTxItem.sackBy]
        simp only [if_pos hnew]
        have hfree : i.m_sacked = false := by
          rw [Bool.and_eq_true, Bool.not_eq_true'] at hnew
          exact hnew.2
        rcases ih (st.sack i) hstop hnext (by omega) (fun hne => by
            rw [Sacking.sack] at hne ⊢
            dsimp only at hne ⊢
            split
            · exact ⟨p, by omega, hs⟩
            · next hcond =>
              rw [if_neg hcond] at hne
              exact hst hne) with
          ⟨hf, hsack, hcache⟩ | ⟨pre, j, post, pre', hl, hf, hj, hsack, hfr, hcache⟩
        · exact .inr ⟨[], i, rest, [], rfl, by rw [hf]; rfl, hfree, by rw [hsack]; rfl, rfl, hcache⟩
        · refine .inr ⟨i :: pre, j, post, { i with m_lost := false, m_sacked := true } :: pre', ?_,
            ?_, hj, ?_, ?_, ?_⟩
          · rw [hl]
            rfl
          · rw [List.getLast?_cons, hf]
            rfl
          · rw [hsack]
            rfl
          · rw [frames_cons, hfr, frames_cons]
            rfl
          · -- an item behind the one SACKed takes its place
            rw [hcache]
            have hjstart : j.stop = base.advance (p + i.m_packet.length + span pre +
                j.m_packet.length) := by
              rw [hl] at hnext
              rw [TcpTxItem.stop, (contiguous_append.mp hnext).2.1, hstop,
                SequenceNumber32.advance_advance]
              exact SequenceNumber32.advance_advance _ _ _
            have hspan : span rest = span pre + (j.m_packet.length + span post) := by
              rw [hl, span_append, span_cons]
            rw [Sacking.sack, Sacking.sack, Sacking.sack]
            dsimp only
            split
            · next hcond =>
              have hle : i.m_startSeq.le j.stop = true := by
                rw [hs, hjstart, SequenceNumber32.le_advance (by omega) (by omega)]
                simp only [decide_eq_true_eq]
                omega
              rw [Option.isNone_some, Bool.false_or, if_pos hle, if_pos]
              rw [Bool.or_eq_true] at hcond ⊢
              refine hcond.elim .inl fun hle' => ?_
              by_cases hnone : st.m_highestSack.1 = none
              · exact .inl (by rw [hnone]; rfl)
              · right
                obtain ⟨q, hq, heq⟩ := hst hnone
                rw [heq, hstop, SequenceNumber32.le_advance (by omega) (by omega),
                  decide_eq_true_eq] at hle'
                rw [heq, hjstart, SequenceNumber32.le_advance (by omega) (by omega),
                  decide_eq_true_eq]
                omega
            · rfl
      · rw [TcpTxItem.sackBy]
        simp only [if_neg hnew]
        rcases ih st hstop hnext (by omega) hst with
          ⟨hf, hsack, hcache⟩ | ⟨pre, j, post, pre', hl, hf, hj, hsack, hfr, hcache⟩
        · exact .inl ⟨hf, by rw [hsack], hcache⟩
        · exact .inr ⟨i :: pre, j, post, i :: pre', by rw [hl]; rfl, hf, hj, by rw [hsack]; rfl,
            by rw [frames_cons, hfr, frames_cons], hcache⟩
    · rw [if_neg hpass, if_neg hpass, if_neg hpass]
      exact .inl ⟨rfl, rfl, rfl⟩

/-- The item SACKed highest is the cached one after a block, if it is before. -/
theorem markBlock_top {s : SequenceNumber32} {items : List TcpTxItem} {st : Sacking}
    (hc : Contiguous s items) (hf : Filled items) (hsmall : span items < 2 ^ 31)
    (hcache : st.m_highestSack = topSack items) (hrises : Rises block items) :
    (markBlock block st s items).2.m_highestSack = topSack (markBlock block st s items).1 := by
  rw [markBlock_eq block st hc]
  have hat : ∀ pre i post, items = pre ++ i :: post →
      i.m_startSeq = s.advance (span pre) ∧ i.stop = s.advance (span pre + i.m_packet.length) ∧
        span pre + i.m_packet.length + span post < 2 ^ 31 ∧ 0 < i.m_packet.length := by
    intro pre i post heq
    rw [heq] at hc hf hsmall
    rw [span_append, span_cons] at hsmall
    obtain ⟨-, hi, -⟩ := contiguous_append.mp hc
    refine ⟨hi, ?_, by omega, (filled_cons.mp (filled_append.mp hf).2).1⟩
    rw [TcpTxItem.stop, hi, ← SequenceNumber32.advance_advance]
    rfl
  have hst : st.m_highestSack.1 ≠ none → ∃ q < 2 ^ 31, st.m_highestSack.2 = s.advance q := by
    intro hne
    rcases lastSacked_cases (none, ⟨0⟩) items with ⟨-, hnone⟩ | ⟨pre, i, post, hl, -, -, htop⟩
    · rw [hcache, topSack, hnone] at hne
      exact absurd rfl hne
    · obtain ⟨hstart, -, hin, -⟩ := hat pre i post hl
      rw [hcache, topSack, htop]
      exact ⟨span pre, by omega, hstart⟩
  rcases markBlock_last _ (SequenceNumber32.advance_zero s).symm hc (by omega) hst with
    ⟨-, hsack, heq⟩ | ⟨pre, i, post, pre', hl, hlast, hfree, hsack, hfr, heq⟩
  · rw [heq, hsack, hcache]
  · obtain ⟨hstart, hstop, hin, hpos⟩ := hat pre i post hl
    rw [heq, hsack, topSack, lastSacked_append, lastSacked_cons, if_pos rfl, Sacking.sack]
    dsimp only
    rw [hcache]
    have hold : topSack items = lastSacked (topSack pre) post := by
      rw [hl, topSack, lastSacked_append, lastSacked_cons, hfree]
      rfl
    rcases lastSacked_cases (topSack pre) post with ⟨hnone, hpost⟩ | ⟨m, x, m', rfl, hx, hm', hpost⟩
    · -- it is among the items before the last one SACKed anew, or there is none
      rw [lastSacked_none hnone, if_pos]
      rw [hold, hpost]
      rcases lastSacked_cases (none, ⟨0⟩) pre with ⟨-, hpre⟩ | ⟨l, y, l', rfl, -, -, hpre⟩
      · rw [topSack, hpre]
        rfl
      · obtain ⟨hy, -, -, -⟩ := hat l y (l' ++ i :: post) (by rw [hl]; simp)
        rw [topSack, hpre, hy, hstop, SequenceNumber32.le_advance]
        · rw [span_append, span_cons, Bool.or_eq_true, decide_eq_true_eq]
          right
          omega
        · rw [span_append, span_cons] at hin
          omega
        · omega
    · -- it lies behind
      obtain ⟨hxs, -, hxin, hxpos⟩ := hat (pre ++ i :: m) x m' (by rw [hl]; simp)
      have hne := hrises i hlast
      rw [hold, hpost] at hne ⊢
      have hlt := hne (by simp)
      dsimp only at hlt ⊢
      rw [span_append, span_cons] at hxs hxin
      rw [hxs, hstop, Ne, SequenceNumber32.advance_inj (by omega) (by omega)] at hlt
      rw [Option.isNone_some, Bool.false_or, hxs, hstop,
        SequenceNumber32.le_advance (by omega) (by omega), if_neg, lastSacked_append,
        lastSacked_cons, hx, if_pos rfl, lastSacked_none hm', hxs]
      rw [decide_eq_true_eq]
      omega

/-- `Update` keeps the item SACKed highest cached. -/
theorem markBlocks_top {b : TcpTxBuffer} {items : List TcpTxItem} {list : List SackBlock}
    (st : Sacking) (hc : Contiguous b.m_firstByteSeq items) (hf : Filled items)
    (hsmall : span items < 2 ^ 31) (hcache : st.m_highestSack = topSack items)
    (hrises : b.RisesAll items list) :
    (b.markBlocks st items list).2.1.m_highestSack = topSack (b.markBlocks st items list).1 := by
  induction list generalizing items st with
  | nil => exact hcache
  | cons block list ih =>
    rw [TcpTxBuffer.markBlocks]
    by_cases hlt : b.sentEnd.lt block.first = true
    · rw [if_pos hlt]
      exact hcache
    · rw [if_neg hlt]
      obtain ⟨hblock, hlist⟩ := hrises (by simpa using hlt)
      have hfr := markBlock_frames block st b.m_firstByteSeq items
      refine ih _ (contiguous_eq hfr hc) (filled_eq hfr hf) (by rw [span_eq hfr]; exact hsmall)
        (markBlock_top hc hf hsmall hcache hblock) ?_
      rw [markBlock_eq block st hc]
      exact hlist

end Update

/-! ### The calls -/

/-- The call leaves the SACKed items where `m_highestSack` finds them: what is copied has no byte of
one, or starts with an item that is not SACKed; the new head is not SACKed; the last item that each
block SACKs anew does not end where the highest one starts; a head unmarked is not the only one
SACKed; and no SACKed item is given back. No Reno SACKs are added, and fewer than half the sequence
space of bytes are buffered. -/
def TxCall.Tracked (b : TcpTxBuffer) : TxCall → Prop
  | add p => b.held + p.length < 2 ^ 31
  | copyFromSequence numBytes seq =>
      (∀ i ∈ b.m_sentList, b.Meets numBytes.toNat seq i → i.m_sacked = false) ∨
        (∃ i ∈ b.m_sentList, i.m_startSeq = seq) ∧
          ∀ i ∈ b.m_sentList, b.Meets 1 seq i → i.m_sacked = false
  | discardUpTo seq => ∀ i ∈ b.m_sentList, b.Meets 1 seq i → i.m_sacked = false
  | update list => b.RisesAll b.m_sentList list
  | addRenoSack => False
  | markHeadAsLost => ∀ head rest, b.m_sentList = head :: rest → head.m_sacked = true →
      ∃ i ∈ rest, i.m_sacked = true
  | resetLastSegmentSent => ∀ i ∈ b.m_sentList.getLast?, i.m_sacked = false
  | _ => True

theorem TxCall.Tracked.fits {b : TcpTxBuffer} {c : TxCall} (h : c.Tracked b) :
    Outbound.Fits b c := by
  cases c with
  | add p => exact h
  | _ => trivial

/-- `m_highestSack` is the item SACKed highest; items not sent are not SACKed. -/
structure Cached (b : TcpTxBuffer) : Prop where
  top : b.m_highestSack = topSack b.m_sentList
  free : ∀ i ∈ b.m_appList, i.m_sacked = false

section Calls

variable {b b' : TcpTxBuffer}

/-- Items taken out that are not SACKed leave the SACKed ones as they were. -/
theorem takeOut_top (pre post : List TcpTxItem) (retrans : UInt32) (node : Nat) {mid : List TcpTxItem}
    {item : TcpTxItem} {k n : Nat} (hends : Ends item mid k n) (hitem : item.m_sacked = false)
    (hmid : ∀ j ∈ mid, j.m_sacked = false) :
    topSack (takeOut pre item mid post k n retrans node).list =
        topSack (pre ++ item :: (mid ++ post)) ∧
      (takeOut pre item mid post k n retrans node).outItem.m_sacked = false := by
  refine takeOut_rule (P := fun l _ _ => topSack l = topSack (pre ++ item :: (mid ++ post)))
    (Q := fun i => i.m_sacked = false) (fun _ _ _ h => h) (fun _ _ h => h) (fun _ _ _ h _ => h)
    ?_ ?_ hends hitem hmid rfl
  · intro l i l' r node k hi _ _ h
    rw [← h, topSack, lastSacked_append, lastSacked_cons, lastSacked_cons, topSack,
      lastSacked_append, lastSacked_cons, TcpTxItem.front, TcpTxItem.back, hi]
    rfl
  · intro l i j l' r node hi hj h
    rw [← h, topSack, lastSacked_append, lastSacked_cons, topSack, lastSacked_append,
      lastSacked_cons, lastSacked_cons, mergeItems, hi, hj]
    rfl

/-- Items taken out that are not SACKed are not. -/
theorem takeOut_free (pre : List TcpTxItem) (retrans : UInt32) (node : Nat)
    {mid post : List TcpTxItem} {item : TcpTxItem} {k n : Nat} (hends : Ends item mid k n)
    (h : ∀ j ∈ pre ++ item :: (mid ++ post), j.m_sacked = false) :
    ∀ j ∈ (takeOut pre item mid post k n retrans node).list, j.m_sacked = false := by
  refine takeOut_keeps (P := fun l => ∀ j ∈ l, j.m_sacked = false) ?_ ?_ hends h
  · intro l i l' node k _ _ h j hj
    simp only [List.mem_append, List.mem_cons] at hj
    rcases hj with hj | rfl | rfl | hj
    · exact h j (by simp [hj])
    · exact h i (by simp)
    · exact h i (by simp)
    · exact h j (by simp [hj])
  · intro l i j l' r h x hx
    simp only [List.mem_append, List.mem_cons] at hx
    rcases hx with hx | rfl | hx
    · exact h x (by simp [hx])
    · exact h i (by simp)
    · exact h x (by simp [hx])

/-- New data is not SACKed. -/
theorem Cached.sentNew (hc : Cached b) {item : TcpTxItem} {mid post : List TcpTxItem} {n : Nat}
    (happ : b.m_appList = item :: (mid ++ post)) (hends : Ends item mid 0 n) :
    Cached (b.sentNew (takeOut [] item mid post 0 n b.m_retrans b.nextNode)).2 := by
  have hfree := takeOut_free [] b.m_retrans b.nextNode hends
    (fun j hj => hc.free j (by rw [happ]; exact hj))
  generalize takeOut [] item mid post 0 n b.m_retrans b.nextNode = f at hfree
  have hout : f.outItem.m_sacked = false := hfree _ (by simp [Fetched.list])
  refine ⟨?_, fun i hi => ?_⟩
  · rw [TcpTxBuffer.sentNew, topSack, lastSacked_append, lastSacked_cons, hout]
    exact hc.top
  · rcases List.mem_append.mp hi with hi | hi
    · exact hfree i (by simp [Fetched.list, hi])
    · exact hfree i (by simp [Fetched.list, hi])

/-- `CopyFromSequence` keeps the item SACKed highest cached. -/
theorem Cached.copied (h : Held b) (hc : Cached b) {off n : Nat} {r : TcpTxItem × TcpTxBuffer}
    {numBytes : UInt32} (hr : Copied b off n r) (hn : n ≤ numBytes.toNat)
    (ht : (TxCall.copyFromSequence numBytes (b.m_firstByteSeq.advance off)).Tracked b) :
    Cached r.2 := by
  cases hr with
  | @resent pre mid post item hsent hpre hle hends =>
    have hstart := hends.start
    have hmeets := h.meets hsent hpre hends hn
    obtain ⟨hitem, hmid⟩ : item.m_sacked = false ∧ ∀ j ∈ mid, j.m_sacked = false := by
      rcases ht with hfree | ⟨⟨i, hi, hseq⟩, hfirst⟩
      · exact ⟨hfree item (by simp [hsent]) (hmeets item (by simp)),
          fun j hj => hfree j (by simp [hsent, hj]) (hmeets j (by simp [hj]))⟩
      · exact ⟨hfirst item (by simp [hsent]) (h.meets_first hsent hpre (by omega)),
          fun j hj => (limited_mid hends (h.start_of_mem hsent hpre (by omega) hi hseq) j hj).1⟩
    obtain ⟨htop, hout⟩ := takeOut_top pre post b.m_retrans b.nextNode hends hitem hmid
    generalize takeOut pre item mid post (off - span pre) _ b.m_retrans b.nextNode = f at htop hout
    refine ⟨?_, hc.free⟩
    rw [Fetched.list, topSack, lastSacked_append, lastSacked_cons, ← hsent] at htop
    rw [TcpTxBuffer.resent, topSack, lastSacked_append, lastSacked_cons]
    exact hc.top.trans htop.symm
  | sentNew happ hoff hends => exact hc.sentNew happ hends

/-- What the loop of `DiscardUpTo` moves is not SACKed. -/
theorem Discard.free {o : Nat} {b b' : TcpTxBuffer} (hd : Discard o b b')
    (h : ∀ i ∈ b.m_appList, i.m_sacked = false) : ∀ i ∈ b'.m_appList, i.m_sacked = false := by
  induction hd with
  | done => exact h
  | part => exact h
  | full _ _ _ ih => exact ih h
  | @move o b b' r hsent hpos hheld hr _ ih =>
    cases hr with
    | resent hs => simp [hsent] at hs
    | @sentNew mid post item happ hoff hends =>
      have hfree := takeOut_free [] b.m_retrans b.nextNode hends
        (fun j hj => h j (by rw [happ]; exact hj))
      refine ih fun i hi => hfree i ?_
      rcases List.mem_append.mp hi with hi | hi
      · exact List.mem_append_left _ hi
      · exact List.mem_append_right _ (List.mem_cons_of_mem _ hi)

/-- The loop of `DiscardUpTo` leaves `m_highestSack`, and empties the sent items only when all of
them are to go. -/
theorem Discard.top {o : Nat} {b b' : TcpTxBuffer} (hd : Discard o b b') (h : Held b) :
    b'.m_highestSack = b.m_highestSack ∧ (b'.m_sentList = [] → span b.m_sentList ≤ o) := by
  induction hd with
  | @done o b hdone =>
    refine ⟨rfl, fun hnil => ?_⟩
    rw [hnil, span_nil]
    exact Nat.zero_le _
  | part hsent hpos hlt => exact ⟨rfl, fun hnil => absurd hnil (List.cons_ne_nil _ _)⟩
  | @full o b b' i rest hsent hle _ ih =>
    obtain ⟨htop, hspan⟩ := ih (h.without_head hsent)
    refine ⟨htop, fun hnil => ?_⟩
    have : span rest ≤ o - i.m_packet.length := hspan hnil
    rw [hsent, span_cons]
    omega
  | @move o b b' r hsent hpos hheld hr _ ih =>
    obtain ⟨htop, -⟩ := ih (hr.segment h (by omega)).held
    refine ⟨htop.trans ?_, fun _ => by rw [hsent, span_nil]; exact Nat.zero_le _⟩
    cases hr with
    | resent hs => simp [hsent] at hs
    | sentNew => rfl

/-- An item that is SACKed highest lies behind the head. -/
theorem Held.topSack_cases (h : Held b) {items l : List TcpTxItem}
    (hsent : b.m_sentList = items ++ l) :
    (∀ i ∈ items, i.m_sacked = false) ∧ topSack items = (none, ⟨0⟩) ∨
      ∃ pre i post, items = pre ++ i :: post ∧ i.m_sacked = true ∧
        (∀ j ∈ post, j.m_sacked = false) ∧ 0 < i.m_packet.length ∧
        topSack items = (some i.node, b.m_firstByteSeq.advance (span pre)) := by
  rcases lastSacked_cases (none, ⟨0⟩) items with hnone | ⟨pre, i, post, rfl, hi, hpost, heq⟩
  · exact .inl hnone
  · refine .inr ⟨pre, i, post, rfl, hi, hpost, ?_, ?_⟩
    · have hf := h.sent_filled
      rw [hsent, List.append_assoc, List.cons_append] at hf
      exact (filled_cons.mp (filled_append.mp hf).2).1
    · have hc := h.starts
      rw [hsent, List.append_assoc, List.cons_append] at hc
      rw [topSack, heq, (contiguous_append.mp hc).2.1]

/-- `DiscardUpTo` when the head it leaves is not SACKed. -/
theorem Held.discardUpTo_free (h : Held b) {o : Nat} (ho : o < 2 ^ 32)
    (hge : b.m_firstByteSeq.ge (b.m_firstByteSeq.advance o) = false)
    (hfree : ∀ i ∈ b.m_sentList, b.Meets 1 (b.m_firstByteSeq.advance o) i → i.m_sacked = false) :
    ∃ b₁, Discard o b b₁ ∧ (∀ i rest, b₁.m_sentList = i :: rest → i.m_sacked = false) ∧
      b.discardUpTo (b.m_firstByteSeq.advance o) = some { b₁ with
        m_firstByteSeq := b.m_firstByteSeq.advance o
        m_highestSack :=
          if b₁.m_highestSack.2.le (b.m_firstByteSeq.advance o) then (none, ⟨0⟩)
          else b₁.m_highestSack } := by
  obtain ⟨b₁, hd, -, heq⟩ := h.discardUpTo_eq ho hge
  have hhead : ∀ i rest, b₁.m_sentList = i :: rest → i.m_sacked = false := by
    intro i rest hsent
    obtain ⟨pre, j, k, hsent', rfl, hpre, hlt⟩ := hd.head h i rest hsent
    exact hfree j (by simp [hsent']) (h.meets_first hsent' hpre hlt)
  refine ⟨b₁, hd, hhead, ?_⟩
  rw [heq, TcpTxBuffer.moveSackFromHead]
  dsimp only
  split
  · rfl
  · next i rest hsent =>
    rw [if_neg (by simp [hhead i rest hsent])]
    rfl

/-- `DiscardUpTo` keeps the item SACKed highest cached when it leaves a head that is not SACKed. -/
theorem Cached.discardUpTo (h : Held b) (hc : Cached b) {o : Nat} (ho : o < 2 ^ 32)
    (hge : b.m_firstByteSeq.ge (b.m_firstByteSeq.advance o) = false)
    (ht : (TxCall.discardUpTo (b.m_firstByteSeq.advance o)).Tracked b)
    (hrun : b.discardUpTo (b.m_firstByteSeq.advance o) = some b') : Cached b' := by
  have hsmall := h.small
  obtain ⟨b₁, hd, hhead, heq⟩ := h.discardUpTo_free ho hge ht
  obtain rfl := Option.some.inj (heq.symm.trans hrun)
  obtain ⟨htop, hempty⟩ := hd.top h
  refine ⟨?_, hd.free hc.free⟩
  dsimp only
  rw [htop, hc.top]
  -- an item below the new head goes with its cache
  have hreset : ∀ p ≤ o, (b.m_firstByteSeq.advance p).le (b.m_firstByteSeq.advance o) = true :=
    fun p hp => SequenceNumber32.le_of_ge_eq_false ho hge hp
  cases hsent : b₁.m_sentList with
  | nil =>
    have hle := hempty hsent
    rcases h.topSack_cases (List.append_nil _).symm with
      ⟨-, hnone⟩ | ⟨pre, i, post, hl, -, -, hpos, heq'⟩
    · rw [hnone, ite_self]
      rfl
    · rw [hl, span_append, span_cons] at hle
      rw [heq', if_pos (hreset _ (by omega))]
      rfl
  | cons i rest =>
    obtain ⟨pre, j, k, hsent', rfl, hpre, hlt⟩ := hd.head h i rest hsent
    have hj : j.m_sacked = false := hhead (j.back k) rest hsent
    have hold : topSack b.m_sentList = lastSacked (topSack pre) rest := by
      rw [hsent', topSack, lastSacked_append, lastSacked_cons, hj]
      rfl
    have hnew : topSack (j.back k :: rest) = topSack rest := by
      rw [topSack, lastSacked_cons, TcpTxItem.back, hj]
      rfl
    rw [hold, hnew]
    rcases lastSacked_cases (topSack pre) rest with ⟨hnone, heq'⟩ | ⟨m, x, m', hm, hx, hm', heq'⟩
    · have hrest : topSack rest = (none, ⟨0⟩) := lastSacked_none hnone
      rw [heq', hrest]
      rcases h.topSack_cases hsent' with ⟨-, hnone'⟩ | ⟨l, y, l', hl, -, -, hpos, hy⟩
      · rw [hnone', ite_self]
      · rw [hl, span_append, span_cons] at hpre
        rw [hy, if_pos (hreset _ (by omega))]
    · have hxs := h.starts
      rw [hsent', hm, ← List.cons_append, ← List.append_assoc] at hxs
      rw [hsent', hm, span_append, span_cons, span_append, span_cons] at hsmall
      obtain ⟨-, hxs, -⟩ := contiguous_append.mp hxs
      rw [span_append, span_cons] at hxs
      have hrest : topSack rest = (some x.node, x.m_startSeq) := by
        rw [hm, topSack, lastSacked_append, lastSacked_cons, hx, if_pos rfl, lastSacked_none hm']
      rw [heq', hrest, hxs, SequenceNumber32.le_advance (by omega) (by omega), if_neg]
      rw [decide_eq_true_eq]
      omega

/-- A call that leaves the SACK marks and `m_highestSack` alone keeps it cached. -/
theorem Cached.same_tags (hc : Cached b) (hsent : b'.m_sentList.map TcpTxItem.tag =
    b.m_sentList.map TcpTxItem.tag) (happ : b'.m_appList = b.m_appList)
    (htop : b'.m_highestSack = b.m_highestSack) : Cached b' :=
  ⟨by rw [htop, topSack, lastSacked_tags hsent, hc.top, topSack], by rw [happ]; exact hc.free⟩

theorem markLost_tags (thresh lostOut : UInt32) (items : List TcpTxItem) :
    (markLost thresh lostOut items).1.map TcpTxItem.tag = items.map TcpTxItem.tag := by
  induction items with
  | nil => rfl
  | cons i rest ih =>
    rw [markLost_cons]
    dsimp only
    generalize (if i.m_sacked = true then _ else _) = sacked
    split
    · rw [List.map_cons, ih, List.map_cons]
      rfl
    · rw [List.map_cons, ih, List.map_cons]

/-- `UpdateLostCount` leaves SACK marks alone. -/
theorem Cached.updateLostCount (hc : Cached b) (h : b.updateLostCount = some b') : Cached b' := by
  rw [TcpTxBuffer.updateLostCount] at h
  split at h
  · next head items after heq =>
    obtain ⟨node, -, hsplit⟩ := Option.bind_eq_some_iff.mp heq
    have hlost := markLost_tags b.m_dupAckThresh b.m_lostOut items
    generalize markLost b.m_dupAckThresh b.m_lostOut items = m at h hlost
    obtain rfl := Option.some.inj h
    refine hc.same_tags ?_ rfl rfl
    dsimp only
    rw [← splitAfter_append hsplit, List.map_append, List.map_cons, hlost, List.map_append,
      List.map_cons]
    rfl
  · cases h

/-- `Update` keeps the item SACKed highest cached when each block rises. -/
theorem Cached.update (h : Held b) (hc : Cached b) {list : List SackBlock} {n : UInt32}
    (ht : b.RisesAll b.m_sentList list) (hrun : b.update list = some (n, b')) : Cached b' := by
  have hsmall := h.small
  rw [TcpTxBuffer.update] at hrun
  dsimp only at hrun
  have htop := markBlocks_top ⟨b.m_lostOut, b.m_sackedOut, b.m_highestSack, 0⟩ h.starts
    h.sent_filled (by omega) hc.top ht
  generalize b.markBlocks ⟨b.m_lostOut, b.m_sackedOut, b.m_highestSack, 0⟩ b.m_sentList list = m
    at hrun htop
  have hc' : Cached { b with
      m_sentList := m.1
      m_lostOut := m.2.1.m_lostOut
      m_sackedOut := m.2.1.m_sackedOut
      m_highestSack := m.2.1.m_highestSack } := ⟨htop, hc.free⟩
  split at hrun
  · obtain ⟨b₁, heq, hb⟩ := Option.map_eq_some_iff.mp hrun
    obtain ⟨-, rfl⟩ := Prod.mk.inj hb
    exact hc'.updateLostCount heq
  · obtain ⟨-, rfl⟩ := Prod.mk.inj (Option.some.inj hrun)
    exact hc'

/-- A call that leaves the highest item to `m_highestSack` keeps it cached. -/
theorem Cached.step (h : Held b) (hc : Cached b) {c : TxCall} (ht : c.Tracked b)
    (hrun : c.run b = some b') : Cached b' := by
  cases c with
  | add p =>
    obtain rfl := Option.some.inj hrun
    rw [TcpTxBuffer.add]
    split
    · split
      · refine ⟨hc.top, fun i hi => ?_⟩
        rcases List.mem_append.mp hi with hi | hi
        · exact hc.free i hi
        · rw [List.mem_singleton.mp hi]
      · exact hc
    · exact hc
  | copyFromSequence numBytes seq =>
    obtain ⟨r, heq, rfl⟩ := Option.map_eq_some_iff.mp hrun
    rcases h.copy_cases numBytes seq with hnone | hnull | ⟨off, n, r', rfl, -, hn, hsome, hr⟩
    · rw [hnone] at heq
      cases heq
    · rw [hnull] at heq
      obtain rfl := Option.some.inj heq
      exact hc
    · rw [hsome] at heq
      obtain rfl := Option.some.inj heq
      exact hc.copied h hr hn ht
  | discardUpTo seq =>
    by_cases hge : b.m_firstByteSeq.ge seq = true
    · change b.discardUpTo seq = _ at hrun
      rw [TcpTxBuffer.discardUpTo, if_pos hge] at hrun
      obtain rfl := Option.some.inj hrun
      exact hc
    rw [Bool.not_eq_true] at hge
    obtain ⟨o, ho, rfl⟩ := b.m_firstByteSeq.exists_advance seq
    exact hc.discardUpTo h ho hge ht hrun
  | update list =>
    obtain ⟨⟨n, b₁⟩, heq, rfl⟩ := Option.map_eq_some_iff.mp hrun
    exact hc.update h ht heq
  | addRenoSack => exact ht.elim
  | resetRenoSack =>
    obtain rfl := Option.some.inj hrun
    refine ⟨?_, hc.free⟩
    rw [topSack, lastSacked_none]
    · rfl
    · intro i hi
      obtain ⟨j, -, rfl⟩ := List.mem_map.mp hi
      rfl
  | markHeadAsLost =>
    obtain rfl := Option.some.inj hrun
    rw [TcpTxBuffer.markHeadAsLost]
    split
    · exact hc
    · next head rest hsent =>
      refine ⟨?_, hc.free⟩
      dsimp only
      rw [hc.top, hsent, topSack, lastSacked_cons, topSack, lastSacked_cons]
      cases hs : head.m_sacked with
      | false => rfl
      | true =>
        -- another item is SACKed
        obtain ⟨i, hi, hi'⟩ := ht head rest hsent hs
        obtain ⟨pre, post, rfl⟩ := List.append_of_mem hi
        rw [lastSacked_append, lastSacked_cons, lastSacked_append, lastSacked_cons, hi']
        rfl
  | deleteRetransmittedFlagFromHead =>
    obtain rfl := Option.some.inj hrun
    rw [TcpTxBuffer.deleteRetransmittedFlagFromHead]
    split
    · exact hc
    · split
      · exact hc
      · next head rest hsent =>
        split
        · exact hc.same_tags (by rw [hsent]; rfl) rfl rfl
        · exact hc
  | setSentListLost resetSack =>
    obtain rfl := Option.some.inj hrun
    rw [TcpTxBuffer.setSentListLost]
    split
    · refine ⟨?_, hc.free⟩
      rw [topSack, lastSacked_none]
      intro i hi
      obtain ⟨j, -, rfl⟩ := List.mem_map.mp hi
      rfl
    · refine hc.same_tags ?_ rfl rfl
      rw [List.map_map]
      rfl
  | resetSentList =>
    obtain rfl := Option.some.inj hrun
    refine ⟨rfl, fun i hi => ?_⟩
    rcases List.mem_append.mp hi with hi | hi
    · obtain ⟨j, -, rfl⟩ := List.mem_map.mp hi
      rfl
    · exact hc.free i hi
  | resetLastSegmentSent =>
    obtain rfl := Option.some.inj hrun
    rw [TcpTxBuffer.resetLastSegmentSent]
    split
    · exact hc
    · next item hlast =>
      have hs : item.m_sacked = false := ht item hlast
      obtain ⟨init, hsent⟩ := List.getLast?_eq_some_iff.mp hlast
      refine ⟨?_, fun i hi => ?_⟩
      · dsimp only
        rw [hc.top, hsent, List.dropLast_concat, topSack, lastSacked_append, lastSacked_cons, hs]
        rfl
      · rcases List.mem_cons.mp hi with rfl | hi
        · exact hs
        · exact hc.free i hi

/-! ### Nodes -/

/-- Every item has a list node of its own. -/
structure Noded (items : List TcpTxItem) (node : Nat) : Prop where
  nodup : (items.map TcpTxItem.node).Nodup
  lt : ∀ i ∈ items, i.node < node

theorem Noded.sublist {l l' : List TcpTxItem} {node : Nat} (h : Noded l node)
    (hl : (l'.map TcpTxItem.node).Sublist (l.map TcpTxItem.node)) : Noded l' node := by
  refine ⟨h.nodup.sublist hl, fun i hi => ?_⟩
  obtain ⟨j, hj, heq⟩ := List.mem_map.mp (hl.subset (List.mem_map_of_mem hi))
  rw [← heq]
  exact h.lt j hj

/-- A node allocated. -/
theorem Noded.alloc {l l' : List TcpTxItem} {i : TcpTxItem} {node : Nat}
    (h : Noded (l ++ l') node) (hi : i.node = node) : Noded (l ++ i :: l') (node + 1) := by
  refine ⟨?_, fun j hj => ?_⟩
  · rw [List.map_append, List.map_cons, List.perm_middle.nodup_iff, List.nodup_cons,
      ← List.map_append]
    refine ⟨fun hmem => ?_, h.nodup⟩
    obtain ⟨j, hj, heq⟩ := List.mem_map.mp hmem
    have := h.lt j hj
    omega
  · simp only [List.mem_append, List.mem_cons] at hj
    rcases hj with hj | rfl | hj
    · exact Nat.lt_succ_of_lt (h.lt j (by simp [hj]))
    · omega
    · exact Nat.lt_succ_of_lt (h.lt j (by simp [hj]))

/-- Items taken out of a list between others have nodes of their own. -/
theorem takeOut_noded {pre mid post lead rest : List TcpTxItem} {item : TcpTxItem}
    {k n node : Nat} (retrans : UInt32) (hends : Ends item mid k n)
    (h : Noded (lead ++ (pre ++ item :: (mid ++ post)) ++ rest) node) :
    Noded (lead ++ (takeOut pre item mid post k n retrans node).list ++ rest)
      (takeOut pre item mid post k n retrans node).nextNode := by
  refine (takeOut_rule (P := fun l _ node => Noded (lead ++ l ++ rest) node) (Q := fun _ => True)
    (fun _ _ _ _ => trivial) (fun _ _ _ => trivial) (fun _ _ _ _ _ => trivial) ?_ ?_ hends trivial
    (fun _ _ => trivial) h).1
  · intro l i l' _ node k _ _ _ h
    have hback : Noded (lead ++ l ++ i.back k :: (l' ++ rest)) node := by
      refine h.sublist ?_
      simp [TcpTxItem.back]
    have := hback.alloc (i := i.front node k) rfl
    simpa using this
  · intro l i j l' r node _ _ h
    refine h.sublist ?_
    simp only [List.append_assoc, List.map_append, List.map_cons, List.cons_append]
    refine (List.Sublist.refl _).append ((List.Sublist.refl _).append ?_)
    exact ((List.Sublist.refl _).cons _).cons_cons _

/-- The items of a buffer have nodes of their own. -/
def TcpTxBuffer.OwnNodes (b : TcpTxBuffer) : Prop := Noded (b.m_sentList ++ b.m_appList) b.nextNode

theorem Remarked.ownNodes (hr : Remarked b b') (h : b.OwnNodes) : b'.OwnNodes := by
  have hnodes : b'.m_sentList.map TcpTxItem.node = b.m_sentList.map TcpTxItem.node := by
    have := congrArg (List.map fun f : Nat × SequenceNumber32 × Payload => f.1) hr.frames_eq
    rw [frames, List.map_map, frames, List.map_map] at this
    exact this
  rw [TcpTxBuffer.OwnNodes, hr.next_eq]
  refine h.sublist ?_
  simp only [List.map_append, hnodes, hr.app_eq, List.Sublist.refl]

/-- `CopyFromSequence` leaves nodes their items' own. -/
theorem Copied.ownNodes {off n : Nat} {r : TcpTxItem × TcpTxBuffer} (hr : Copied b off n r)
    (h : b.OwnNodes) : r.2.OwnNodes := by
  cases hr with
  | resent hsent hpre hle hends =>
    rw [TcpTxBuffer.OwnNodes, hsent] at h
    have hall : Noded ([] ++ _ ++ b.m_appList) _ := h
    refine (takeOut_noded b.m_retrans hends hall).sublist ?_
    simp [TcpTxBuffer.resent, Fetched.list]
  | @sentNew mid post item happ hoff hends =>
    have hbefore := takeOut_before [] mid post item n b.m_retrans b.nextNode
    have hall : Noded (b.m_sentList ++ ([] ++ item :: (mid ++ post)) ++ []) b.nextNode := by
      rw [List.nil_append, List.append_nil, ← happ]
      exact h
    have := takeOut_noded b.m_retrans hends hall
    generalize takeOut [] item mid post 0 n b.m_retrans b.nextNode = f at this hbefore
    refine this.sublist ?_
    simp [TcpTxBuffer.sentNew, Fetched.list, hbefore]

theorem Discard.ownNodes {o : Nat} {b b' : TcpTxBuffer} (hd : Discard o b b') (h : b.OwnNodes) :
    b'.OwnNodes := by
  induction hd with
  | done => exact h
  | @part o b i rest hsent hpos hlt =>
    refine h.sublist ?_
    rw [hsent]
    exact List.Sublist.refl _
  | @full o b b' i rest hsent hle _ ih =>
    refine ih (h.sublist ?_)
    rw [hsent]
    exact List.sublist_cons_self _ _
  | move hsent hpos hheld hr _ ih => exact ih (hr.ownNodes h)

/-- Every call leaves nodes their items' own. -/
theorem Held.ownNodes (h : Held b) (hn : b.OwnNodes) {c : TxCall} (hrun : c.run b = some b') :
    b'.OwnNodes := by
  cases c with
  | add p =>
    obtain rfl := Option.some.inj hrun
    rw [TcpTxBuffer.add]
    split
    · split
      · have hnew : TcpTxItem.node { node := b.nextNode, m_packet := p } = b.nextNode := rfl
        have hall : Noded (b.m_sentList ++ b.m_appList ++ []) b.nextNode := by
          rw [List.append_nil]
          exact hn
        have := hall.alloc hnew
        rw [List.append_assoc] at this
        exact this
      · exact hn
    · exact hn
  | copyFromSequence numBytes seq =>
    obtain ⟨r, heq, rfl⟩ := Option.map_eq_some_iff.mp hrun
    rcases h.copy_cases numBytes seq with hnone | hnull | ⟨off, n, r', -, -, -, hsome, hr⟩
    · rw [hnone] at heq
      cases heq
    · rw [hnull] at heq
      obtain rfl := Option.some.inj heq
      exact hn
    · rw [hsome] at heq
      obtain rfl := Option.some.inj heq
      exact hr.ownNodes hn
  | discardUpTo seq =>
    by_cases hge : b.m_firstByteSeq.ge seq = true
    · change b.discardUpTo seq = _ at hrun
      rw [TcpTxBuffer.discardUpTo, if_pos hge] at hrun
      obtain rfl := Option.some.inj hrun
      exact hn
    rw [Bool.not_eq_true] at hge
    obtain ⟨o, ho, rfl⟩ := b.m_firstByteSeq.exists_advance seq
    obtain ⟨b₁, hd, -, heq⟩ := h.discardUpTo_eq ho hge
    obtain ⟨b₃, hmove, rfl⟩ := Option.map_eq_some_iff.mp (heq.symm.trans hrun)
    have h₁ : TcpTxBuffer.OwnNodes { b₁ with m_firstByteSeq := b.m_firstByteSeq.advance o } :=
      hd.ownNodes hn
    exact (moveSackFromHead_remarked hmove).ownNodes h₁
  | update list =>
    obtain ⟨⟨n, b₁⟩, heq, rfl⟩ := Option.map_eq_some_iff.mp hrun
    exact (update_remarked heq).ownNodes hn
  | addRenoSack => exact (addRenoSack_remarked hrun).ownNodes hn
  | resetRenoSack =>
    obtain rfl := Option.some.inj hrun
    exact (resetRenoSack_remarked _).ownNodes hn
  | markHeadAsLost =>
    obtain rfl := Option.some.inj hrun
    exact (markHeadAsLost_remarked _).ownNodes hn
  | deleteRetransmittedFlagFromHead =>
    obtain rfl := Option.some.inj hrun
    exact (deleteRetransmittedFlagFromHead_remarked _).ownNodes hn
  | setSentListLost resetSack =>
    obtain rfl := Option.some.inj hrun
    exact (setSentListLost_remarked _ _).ownNodes hn
  | resetSentList =>
    obtain rfl := Option.some.inj hrun
    refine hn.sublist ?_
    rw [TcpTxBuffer.resetSentList, List.nil_append, List.map_append, List.map_append, List.map_map]
    exact List.Sublist.refl _
  | resetLastSegmentSent =>
    obtain rfl := Option.some.inj hrun
    rw [TcpTxBuffer.resetLastSegmentSent]
    split
    · exact hn
    · next item hlast =>
      obtain ⟨init, hsent⟩ := List.getLast?_eq_some_iff.mp hlast
      refine hn.sublist ?_
      simp [hsent]

/-- An empty buffer caches nothing. -/
theorem TcpTxBuffer.Empty.cached (h : b.Empty) : Cached b where
  top := by rw [h.highestSack, h.sentList]; rfl
  free := by simp [h.appList]

theorem TcpTxBuffer.Empty.ownNodes (h : b.Empty) : b.OwnNodes where
  nodup := by simp [h.sentList, h.appList]
  lt := by simp [h.sentList, h.appList]

end Calls

/-- `m_highestSack` is what `FindHighestSacked` finds: the last item SACKed, with its first
sequence number, or `(end, 0)` when no item is; its node is that of no other item. -/
structure HighestSack (b : TcpTxBuffer) : Prop where
  found : b.m_highestSack = b.findHighestSacked
  none_iff : b.m_highestSack = (none, ⟨0⟩) ↔ ∀ i ∈ b.m_sentList, i.m_sacked = false
  some_of : b.m_highestSack ≠ (none, ⟨0⟩) → ∃ pre i post, b.m_sentList = pre ++ i :: post ∧
    i.m_sacked = true ∧ (∀ j ∈ post, j.m_sacked = false) ∧
      b.m_highestSack = (some i.node, i.m_startSeq)
  nodup : ((b.m_sentList ++ b.m_appList).map TcpTxItem.node).Nodup

/-- Over every run of calls that leave the highest SACKed item to `m_highestSack`, it is cached. -/
theorem txBuffer_highestSack (b : TcpTxBuffer) (hb : TxReached (fun b c => c.Tracked b) b) :
    HighestSack b := by
  obtain ⟨hheld, hcached, hnodes⟩ : Held b ∧ Cached b ∧ b.OwnNodes := by
    induction hb with
    | start h => exact ⟨h.held, h.cached, h.ownNodes⟩
    | step _ ht hrun ih =>
      obtain ⟨hheld, hcached, hnodes⟩ := ih
      exact ⟨hheld.run ht.fits hrun, hcached.step hheld ht hrun, hheld.ownNodes hnodes hrun⟩
  have htop := hcached.top
  refine ⟨htop.trans (findHighestSacked_eq hheld.starts).symm, ?_, ?_, hnodes.nodup⟩
  · rcases lastSacked_cases (none, ⟨0⟩) b.m_sentList with
      ⟨hnone, heq⟩ | ⟨pre, i, post, hl, hi, -, heq⟩
    · exact ⟨fun _ => hnone, fun _ => htop.trans heq⟩
    · refine ⟨fun h => ?_, fun h => ?_⟩
      · rw [htop, topSack, heq] at h
        cases h
      · rw [h i (by simp [hl])] at hi
        cases hi
  · intro hne
    rcases lastSacked_cases (none, ⟨0⟩) b.m_sentList with ⟨-, heq⟩ | ⟨pre, i, post, hl, hi, hpost, heq⟩
    · exact absurd (htop.trans heq) hne
    · exact ⟨pre, i, post, hl, hi, hpost, htop.trans heq⟩

/-- Six bytes are sent in items of two; the second and the third are SACKed. -/
theorem txBuffer_highestSack_six : ∃ b : TcpTxBuffer, b.m_highestSack = (some 0, ⟨5⟩) ∧
    HighestSack b := by
  have h0 : TxReached (fun b c => c.Tracked b) { m_firstByteSeq := ⟨1⟩, m_dupAckThresh := 3 } :=
    .start ⟨rfl, rfl, rfl, rfl, rfl, rfl, rfl, rfl⟩
  have h1 := h0.step (c := .add [0, 1, 2, 3, 4, 5]) (by simp [TxCall.Tracked, TcpTxBuffer.held]) rfl
  have h2 := h1.step (c := .copyFromSequence 2 ⟨1⟩) (.inl (by decide)) rfl
  have h3 := h2.step (c := .copyFromSequence 2 ⟨3⟩) (.inl (by decide)) rfl
  have h4 := h3.step (c := .copyFromSequence 2 ⟨5⟩) (.inl (by decide)) rfl
  have h5 := h4.step (c := .update [⟨⟨3⟩, ⟨7⟩⟩]) (fun _ => ⟨by
    rintro i - hne
    exact absurd rfl hne, trivial⟩) rfl
  exact ⟨_, rfl, txBuffer_highestSack _ h5⟩

/-- The last of three items is SACKed, then the one below it: the lower one is cached. -/
theorem not_txBuffer_highestSack_below : ∃ b : TcpTxBuffer,
    TxReached (fun b c => c ≠ .addRenoSack ∧ Outbound.Fits b c) b ∧
      b.m_highestSack = (some 2, ⟨3⟩) ∧ b.findHighestSacked = (some 0, ⟨5⟩) ∧
      ¬ HighestSack b := by
  have h0 : TxReached (fun b c => c ≠ .addRenoSack ∧ Outbound.Fits b c)
      { m_firstByteSeq := ⟨1⟩, m_dupAckThresh := 3 } :=
    .start ⟨rfl, rfl, rfl, rfl, rfl, rfl, rfl, rfl⟩
  have h1 := h0.step (c := .add [0, 1, 2, 3, 4, 5])
    ⟨by simp, by simp [Outbound.Fits, TcpTxBuffer.held]⟩ rfl
  have h2 := h1.step (c := .copyFromSequence 2 ⟨1⟩) ⟨by simp, trivial⟩ rfl
  have h3 := h2.step (c := .copyFromSequence 2 ⟨3⟩) ⟨by simp, trivial⟩ rfl
  have h4 := h3.step (c := .copyFromSequence 2 ⟨5⟩) ⟨by simp, trivial⟩ rfl
  have h5 := h4.step (c := .update [⟨⟨5⟩, ⟨7⟩⟩]) ⟨by simp, trivial⟩ rfl
  have h6 := h5.step (c := .update [⟨⟨3⟩, ⟨5⟩⟩]) ⟨by simp, trivial⟩ rfl
  exact ⟨_, h6, rfl, rfl, fun h => absurd h.found (by decide)⟩

end Ns3.Tcp
