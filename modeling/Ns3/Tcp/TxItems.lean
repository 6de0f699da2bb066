import Ns3.Tcp.TxBuffer

/-!
# Taking a segment out of a list of items

`GetPacketFromList` at offsets from the start of its list: the items that hold the bytes asked
for are merged into one, after the part before them was split off the first, and what is behind
them is split off the last.
-/

namespace Ns3.Tcp

open Ns3.Network

/-! ### Bytes of a list -/

/-- The bytes of a list of items, in order. -/
def bytes (items : List TcpTxItem) : Payload := items.flatMap TcpTxItem.m_packet

/-- The number of bytes of a list of items. -/
def span (items : List TcpTxItem) : Nat := (bytes items).length

@[simp] theorem bytes_nil : bytes [] = [] := rfl

@[simp] theorem bytes_cons (i : TcpTxItem) (items : List TcpTxItem) :
    bytes (i :: items) = i.m_packet ++ bytes items := rfl

@[simp] theorem bytes_append (l l' : List TcpTxItem) : bytes (l ++ l') = bytes l ++ bytes l' :=
  List.flatMap_append

@[simp] theorem span_nil : span [] = 0 := rfl

@[simp] theorem span_cons (i : TcpTxItem) (items : List TcpTxItem) :
    span (i :: items) = i.m_packet.length + span items := by
  simp [span]

@[simp] theorem span_append (l l' : List TcpTxItem) : span (l ++ l') = span l + span l' := by
  simp [span]

/-- No item of the list is empty. -/
def Filled (items : List TcpTxItem) : Prop := ∀ i ∈ items, i.m_packet ≠ []

theorem filled_cons {i : TcpTxItem} {items : List TcpTxItem} :
    Filled (i :: items) ↔ 0 < i.m_packet.length ∧ Filled items := by
  simp [Filled, List.length_pos_iff]

theorem filled_append {l l' : List TcpTxItem} : Filled (l ++ l') ↔ Filled l ∧ Filled l' := by
  simp [Filled, or_imp, forall_and]

theorem filled_nil : Filled [] := by
  simp [Filled]

/-- One item holds the byte at an offset. -/
theorem split_unique {pre pre' rest rest' : List TcpTxItem} {i i' : TcpTxItem} {o : Nat}
    (h : pre ++ i :: rest = pre' ++ i' :: rest') (hle : span pre ≤ o)
    (hlt : o < span pre + i.m_packet.length) (hle' : span pre' ≤ o)
    (hlt' : o < span pre' + i'.m_packet.length) : pre = pre' ∧ i = i' ∧ rest = rest' := by
  induction pre generalizing pre' o with
  | nil =>
    cases pre' with
    | nil =>
      obtain ⟨rfl, rfl⟩ := List.cons.inj h
      exact ⟨rfl, rfl, rfl⟩
    | cons x pre' =>
      obtain ⟨rfl, -⟩ := List.cons.inj h
      rw [span_cons] at hle'
      rw [span_nil] at hlt
      omega
  | cons x pre ih =>
    cases pre' with
    | nil =>
      obtain ⟨rfl, -⟩ := List.cons.inj h
      rw [span_cons] at hle
      rw [span_nil] at hlt'
      omega
    | cons y pre' =>
      obtain ⟨rfl, htail⟩ := List.cons.inj h
      rw [span_cons] at hle hlt hle' hlt'
      obtain ⟨rfl, hi⟩ := ih htail (o := o - x.m_packet.length) (by omega) (by omega) (by omega)
        (by omega)
      exact ⟨rfl, hi⟩

/-! ### Parts of an item -/

/-- The first `k` bytes of an item, as an item of their own. -/
def TcpTxItem.front (i : TcpTxItem) (node k : Nat) : TcpTxItem :=
  { i with node := node, m_packet := i.m_packet.take k }

/-- An item without its first `k` bytes. -/
def TcpTxItem.back (i : TcpTxItem) (k : Nat) : TcpTxItem :=
  { i with m_packet := i.m_packet.drop k, m_startSeq := i.m_startSeq.advance k }

theorem TcpTxItem.back_zero (i : TcpTxItem) : i.back 0 = i := by
  rw [back, SequenceNumber32.advance_zero]
  rfl

/-- `SplitItems` at an offset. -/
theorem splitItems_ofNat (node : Nat) (i : TcpTxItem) {k : Nat} (hk : k < 2 ^ 32) :
    splitItems node i (UInt32.ofNat k) = (i.front node k, i.back k) := by
  have hto : (UInt32.ofNat k).toNat = k := by
    rw [UInt32.toNat_ofNat', Nat.mod_eq_of_lt hk]
  simp only [splitItems, Payload.createFragment, hto, UInt32.toNat_zero, List.drop_zero,
    TcpTxItem.front, TcpTxItem.back, SequenceNumber32.advance]

/-- `MergeItems` of an item with those that follow it, one after the other. -/
def mergeAll (retrans : UInt32) (item : TcpTxItem) : List TcpTxItem → TcpTxItem × UInt32
  | [] => (item, retrans)
  | next :: rest =>
    let (merged, retrans) := mergeItems retrans item next
    mergeAll retrans merged rest

/-- A merged item has the bytes of all its parts. -/
theorem mergeAll_packet (retrans : UInt32) (item : TcpTxItem) (mid : List TcpTxItem) :
    (mergeAll retrans item mid).1.m_packet = item.m_packet ++ bytes mid := by
  induction mid generalizing retrans item with
  | nil => simp [mergeAll]
  | cons next rest ih =>
    rw [mergeAll, ih]
    simp [mergeItems]

/-! ### The segment taken out -/

/-- An item of the next node allocated when `k` bytes go before `item`, and what is left of it. -/
def leadOff (node : Nat) (item : TcpTxItem) (k : Nat) : List TcpTxItem × TcpTxItem × Nat :=
  if k = 0 then ([], item, node) else ([item.front node k], item.back k, node + 1)

/-- The first `n` bytes of an item taken out of the items from it on. -/
def cutOff (before : List TcpTxItem) (item : TcpTxItem) (n : Nat) (post : List TcpTxItem)
    (retrans : UInt32) (node : Nat) : Fetched :=
  if n = item.m_packet.length then ⟨before, item, post, retrans, node⟩
  else ⟨before, item.front node n, item.back n :: post, retrans, node + 1⟩

/-- The `n` bytes that start `k` bytes into `item` taken out, when they end in the last item of
`mid`. -/
def takeOut (pre : List TcpTxItem) (item : TcpTxItem) (mid post : List TcpTxItem) (k n : Nat)
    (retrans : UInt32) (node : Nat) : Fetched :=
  let (lead, item, node) := leadOff node item k
  let (merged, retrans) := mergeAll retrans item mid
  cutOff (pre ++ lead) merged n post retrans node

/-- The `n` bytes that start `k` bytes into the first item end in the last of those that
follow. -/
structure Ends (item : TcpTxItem) (mid : List TcpTxItem) (k n : Nat) : Prop where
  start : k < item.m_packet.length
  pos : 0 < n
  stop : k + n ≤ item.m_packet.length + span mid
  least : ∀ m x m', mid = m ++ x :: m' → item.m_packet.length + span m < k + n

/-- Items end at or behind a place from some item on. -/
theorem exists_least (rest : List TcpTxItem) {s e : Nat} (hle : e ≤ s + span rest) :
    ∃ mid post, rest = mid ++ post ∧ e ≤ s + span mid ∧
      ∀ m x m', mid = m ++ x :: m' → s + span m < e := by
  induction rest generalizing s with
  | nil => exact ⟨[], [], rfl, hle, by simp⟩
  | cons x rest ih =>
    by_cases hdone : e ≤ s
    · exact ⟨[], x :: rest, rfl, by simpa using hdone, by simp⟩
    · rw [span_cons, ← Nat.add_assoc] at hle
      obtain ⟨mid, post, rfl, hstop, hleast⟩ := ih hle
      refine ⟨x :: mid, post, rfl, by rw [span_cons]; omega, fun m y m' heq => ?_⟩
      cases m with
      | nil => simpa using hdone
      | cons z m =>
        obtain ⟨rfl, hrest⟩ := List.cons.inj heq
        have := hleast m y m' hrest
        rw [span_cons]
        omega

/-- Any bytes of a list start in one of its items and end in one from it on. -/
theorem exists_ends {list : List TcpTxItem} {off n : Nat} (hn : 0 < n)
    (hle : off + n ≤ span list) :
    ∃ pre item mid post, list = pre ++ item :: (mid ++ post) ∧ span pre ≤ off ∧
      Ends item mid (off - span pre) n := by
  induction list generalizing off with
  | nil =>
    rw [span_nil] at hle
    omega
  | cons i rest ih =>
    rw [span_cons] at hle
    by_cases hlt : off < i.m_packet.length
    · obtain ⟨mid, post, rfl, hstop, hleast⟩ := exists_least rest hle
      exact ⟨[], i, mid, post, rfl, Nat.zero_le _,
        { start := hlt, pos := hn, stop := hstop, least := hleast }⟩
    · have hle' : (off - i.m_packet.length) + n ≤ span rest := by omega
      obtain ⟨pre, item, mid, post, rfl, hpre, hends⟩ := ih hle'
      refine ⟨i :: pre, item, mid, post, rfl, by rw [span_cons]; omega, ?_⟩
      rwa [span_cons, ← Nat.sub_sub]

/-- The walk passes the items before the one that holds the first byte asked for. -/
theorem walkList_pass (start : SequenceNumber32) (numBytes retrans : UInt32) (node off : Nat)
    (pre walked rest : List TcpTxItem) {p : Nat} (hle : p + span pre ≤ off) (hlt : off < p + 2 ^ 31) :
    walkList numBytes (start.advance off) retrans node walked (start.advance p) (pre ++ rest) =
      walkList numBytes (start.advance off) retrans node (walked ++ pre)
        (start.advance (p + span pre)) rest := by
  induction pre generalizing walked p with
  | nil => simp
  | cons i pre ih =>
    rw [span_cons] at hle
    have hnext : (start.advance p).add i.getSize = start.advance (p + i.m_packet.length) := by
      rw [← SequenceNumber32.advance_advance]
      rfl
    rw [List.cons_append, walkList.eq_def]
    simp only [hnext]
    rw [SequenceNumber32.lt_advance (by omega) (by omega), if_neg (by simp; omega),
      ih (walked ++ [i]) (by omega) (by omega), span_cons, List.append_assoc, List.cons_append,
      List.nil_append, Nat.add_assoc]

/-- The walk at the item whose first byte is asked for. -/
theorem walkList_at {start : SequenceNumber32} {n : Nat} {retrans : UInt32} {node p : Nat}
    {item : TcpTxItem} {walked rest : List TcpTxItem} (hpos : 0 < item.m_packet.length)
    (hlen : item.m_packet.length < 2 ^ 31) (hn : n < 2 ^ 31) :
    walkList (UInt32.ofNat n) (start.advance p) retrans node walked (start.advance p)
        (item :: rest) =
      if n ≤ item.m_packet.length then .found (cutOff walked item n rest retrans node)
      else
        match rest with
        | [] => .found ⟨walked, item, [], retrans, node⟩
        | next :: rest => .recurse ⟨walked ++ (mergeItems retrans item next).1 :: rest,
            (mergeItems retrans item next).2, node⟩ := by
  have hnext : (start.advance p).add item.getSize = start.advance (p + item.m_packet.length) := by
    rw [← SequenceNumber32.advance_advance]
    rfl
  have hend : (start.advance p).add (UInt32.ofNat n) = start.advance (p + n) := by
    rw [← SequenceNumber32.advance_advance]
    rfl
  have hto : (UInt32.ofNat n).toNat = n := by
    rw [UInt32.toNat_ofNat', Nat.mod_eq_of_lt (by omega)]
  have hsize : item.getSize.toNat = item.m_packet.length := by
    rw [TcpTxItem.getSize, Payload.getSize, UInt32.toNat_ofNat', Nat.mod_eq_of_lt (by omega)]
  rw [walkList.eq_def]
  simp only [hnext, hend, beq_self_eq_true, if_true]
  rw [SequenceNumber32.lt_advance (by omega) (by omega), if_pos (by simp; omega),
    SequenceNumber32.le_advance (by omega) (by omega)]
  by_cases hle : n ≤ item.m_packet.length
  · rw [if_pos (by simpa using hle), if_pos hle, cutOff]
    by_cases heq : n = item.m_packet.length
    · rw [if_pos (by rw [← UInt32.toNat_inj, hto, hsize]; exact heq), if_pos heq]
    · rw [if_neg (by rw [← UInt32.toNat_inj, hto, hsize]; exact heq), if_neg heq,
        if_pos (by rw [UInt32.lt_iff_toNat_lt, hto, hsize]; omega),
        splitItems_ofNat node item (by omega)]
  · cases rest with
    | nil => rw [if_neg (by simpa using hle), if_neg hle]
    | cons next rest => rw [if_neg (by simpa using hle), if_neg hle]

/-- The walk at an item that holds the first byte asked for behind its own first. -/
theorem walkList_inside {start : SequenceNumber32} {numBytes retrans : UInt32} {node p k : Nat}
    {item : TcpTxItem} {walked rest : List TcpTxItem} (hk : 0 < k) (hlt : k < item.m_packet.length)
    (hlen : item.m_packet.length < 2 ^ 31) :
    walkList numBytes (start.advance (p + k)) retrans node walked (start.advance p)
        (item :: rest) =
      .recurse ⟨walked ++ item.front node k :: item.back k :: rest, retrans, node + 1⟩ := by
  have hnext : (start.advance p).add item.getSize = start.advance (p + item.m_packet.length) := by
    rw [← SequenceNumber32.advance_advance]
    rfl
  have hne : start.advance (p + k) ≠ start.advance p := by
    rw [Ne, SequenceNumber32.advance_inj (by omega) (by omega)]
    omega
  have hdiff : (start.advance (p + k)).diff (start.advance p) = UInt32.ofNat k := by
    rw [← UInt32.toNat_inj, SequenceNumber32.toNat_diff_advance (by omega) (by omega),
      UInt32.toNat_ofNat', Nat.mod_eq_of_lt (by omega)]
    omega
  rw [walkList.eq_def]
  simp only [hnext, beq_eq_false_iff_ne.mpr hne, Bool.false_eq_true, if_false]
  rw [SequenceNumber32.lt_advance (by omega) (by omega), if_pos (by simp; omega),
    SequenceNumber32.gt_advance (by omega) (by omega), if_pos (by simp; omega), hdiff,
    splitItems_ofNat node item (by omega)]

/-- `GetPacketFromList` from the first byte of an item on: one call for each item merged. -/
theorem getPacketFromList_at (start : SequenceNumber32) (pre post : List TcpTxItem) (retrans : UInt32)
    (node : Nat) {n fuel : Nat} {mid : List TcpTxItem} {item : TcpTxItem} (hends : Ends item mid 0 n)
    (hspan : span pre + item.m_packet.length + span mid < 2 ^ 31) (hfuel : mid.length < fuel) :
    getPacketFromList start (UInt32.ofNat n) (start.advance (span pre)) fuel
        ⟨pre ++ item :: (mid ++ post), retrans, node⟩ =
      some (takeOut pre item mid post 0 n retrans node) := by
  have hn := hends.pos
  have hstop := hends.stop
  have hstart := hends.start
  induction mid generalizing item retrans fuel with
  | nil =>
    obtain ⟨fuel, rfl⟩ : ∃ f, fuel = f + 1 := ⟨fuel - 1, by omega⟩
    rw [span_nil] at hspan hstop
    have hpass := walkList_pass start (UInt32.ofNat n) retrans node (span pre) pre [] (item :: post) (p := 0)
      (by omega) (by omega)
    rw [SequenceNumber32.advance_zero, Nat.zero_add, List.nil_append] at hpass
    rw [getPacketFromList, List.nil_append]
    dsimp only
    rw [hpass, walkList_at hstart (by omega) (by omega), if_pos (by omega)]
    simp [takeOut, leadOff, mergeAll]
  | cons next mid ih =>
    obtain ⟨fuel, rfl⟩ : ∃ f, fuel = f + 1 := ⟨fuel - 1, by omega⟩
    rw [span_cons] at hspan hstop
    rw [List.length_cons] at hfuel
    have hmore := hends.least [] next mid rfl
    rw [span_nil] at hmore
    have hpass := walkList_pass start (UInt32.ofNat n) retrans node (span pre) pre []
      (item :: (next :: mid ++ post)) (p := 0) (by omega) (by omega)
    rw [SequenceNumber32.advance_zero, Nat.zero_add, List.nil_append] at hpass
    have hlen : (mergeItems retrans item next).1.m_packet.length =
        item.m_packet.length + next.m_packet.length := by
      simp [mergeItems]
    have hends' : Ends (mergeItems retrans item next).1 mid 0 n :=
      { start := by omega
        pos := hn
        stop := by omega
        least := fun m x m' heq => by
          have := hends.least (next :: m) x m' (by rw [heq, List.cons_append])
          rw [span_cons] at this
          omega }
    rw [getPacketFromList]
    dsimp only
    rw [hpass, walkList_at hstart (by omega) (by omega), if_neg (by omega)]
    dsimp only [List.cons_append]
    have hfuel' : mid.length < fuel := by omega
    rw [ih _ hends' (by omega) hfuel' hends'.stop hends'.start]
    simp only [takeOut, leadOff, if_true, mergeAll]

/-- `GetPacketFromList` takes out the bytes asked for, when they are in the list. -/
theorem getPacketFromList_eq {start : SequenceNumber32} {off n node fuel : Nat} {retrans : UInt32}
    {pre mid post : List TcpTxItem} {item : TcpTxItem} (hpre : span pre ≤ off)
    (hends : Ends item mid (off - span pre) n)
    (hspan : span pre + item.m_packet.length + span mid < 2 ^ 31) (hfuel : mid.length + 1 < fuel) :
    getPacketFromList start (UInt32.ofNat n) (start.advance off) fuel
        ⟨pre ++ item :: (mid ++ post), retrans, node⟩ =
      some (takeOut pre item mid post (off - span pre) n retrans node) := by
  obtain ⟨k, rfl⟩ : ∃ k, off = span pre + k := ⟨off - span pre, by omega⟩
  rw [Nat.add_sub_cancel_left] at hends ⊢
  by_cases hk : k = 0
  · subst hk
    exact getPacketFromList_at start pre post retrans node hends hspan (by omega)
  · obtain ⟨fuel, rfl⟩ : ∃ f, fuel = f + 1 := ⟨fuel - 1, by omega⟩
    have hstart := hends.start
    have hn := hends.pos
    have hpass := walkList_pass start (UInt32.ofNat n) retrans node (span pre + k) pre []
      (item :: (mid ++ post)) (p := 0) (by omega) (by omega)
    rw [SequenceNumber32.advance_zero, Nat.zero_add, List.nil_append] at hpass
    have hback : (item.back k).m_packet.length = item.m_packet.length - k := by
      simp [TcpTxItem.back]
    have hfront : (item.front node k).m_packet.length = k := by
      simp [TcpTxItem.front]
      omega
    have hends' : Ends (item.back k) mid 0 n :=
      { start := by omega
        pos := hn
        stop := by
          have := hends.stop
          omega
        least := fun m x m' heq => by
          have := hends.least m x m' heq
          omega }
    have hfuel' : mid.length < fuel := by omega
    have hat := getPacketFromList_at start (pre ++ [item.front node k]) post retrans (node + 1) hends'
      (by rw [span_append, span_cons, span_nil, hfront, hback]; omega) hfuel'
    rw [span_append, span_cons, span_nil, hfront, Nat.add_zero] at hat
    rw [getPacketFromList]
    dsimp only
    rw [hpass, walkList_inside (by omega) hstart (by omega)]
    dsimp only
    rw [List.append_assoc, List.cons_append, List.nil_append] at hat
    rw [hat]
    simp [takeOut, leadOff, hk]

/-! ### What taking out keeps -/

/-- The items follow one another in the sequence space from `s` on. -/
def Contiguous (s : SequenceNumber32) : List TcpTxItem → Prop
  | [] => True
  | i :: rest => i.m_startSeq = s ∧ Contiguous (s.advance i.m_packet.length) rest

@[simp] theorem contiguous_nil (s : SequenceNumber32) : Contiguous s [] := trivial

theorem contiguous_cons {s : SequenceNumber32} {i : TcpTxItem} {rest : List TcpTxItem} :
    Contiguous s (i :: rest) ↔ i.m_startSeq = s ∧ Contiguous (s.advance i.m_packet.length) rest :=
  Iff.rfl

theorem contiguous_append {s : SequenceNumber32} {l l' : List TcpTxItem} :
    Contiguous s (l ++ l') ↔ Contiguous s l ∧ Contiguous (s.advance (span l)) l' := by
  induction l generalizing s with
  | nil => simp
  | cons i l ih =>
    rw [List.cons_append, contiguous_cons, contiguous_cons, ih, span_cons,
      SequenceNumber32.advance_advance, and_assoc]

/-- The items of the list as it is left by `GetPacketFromList`. -/
def Fetched.list (f : Fetched) : List TcpTxItem := f.before ++ f.outItem :: f.after

section TakeOut

variable {pre mid post : List TcpTxItem} {item : TcpTxItem} {k n node : Nat} {retrans : UInt32}

/-- The segment taken out is where it was asked for, and as long. -/
theorem takeOut_place (pre post : List TcpTxItem) (retrans : UInt32) (node : Nat) (hends : Ends item mid k n) :
    span (takeOut pre item mid post k n retrans node).before = span pre + k ∧
      (takeOut pre item mid post k n retrans node).outItem.m_packet.length = n := by
  have hstart := hends.start
  have hstop := hends.stop
  have hlead : span (leadOff node item k).1 = k ∧
      k + (leadOff node item k).2.1.m_packet.length = item.m_packet.length := by
    rw [leadOff]
    split
    · next heq => exact ⟨by simp [heq], by simp [heq]⟩
    · simp only [span_cons, span_nil, TcpTxItem.front, TcpTxItem.back, List.length_take,
        List.length_drop]
      omega
  rw [takeOut]
  generalize leadOff node item k = lead at hlead
  obtain ⟨lead, item', node'⟩ := lead
  have hlen : (mergeAll retrans item' mid).1.m_packet.length =
      item'.m_packet.length + span mid := by
    rw [mergeAll_packet, List.length_append, span]
  dsimp only at hlead ⊢
  rw [cutOff]
  split
  · next heq => exact ⟨by rw [span_append, hlead.1], heq.symm⟩
  · refine ⟨by rw [span_append, hlead.1], ?_⟩
    simp only [TcpTxItem.front, List.length_take, hlen]
    omega

/-- Nothing goes before a segment that starts with its item. -/
theorem takeOut_before (pre mid post : List TcpTxItem) (item : TcpTxItem) (n : Nat)
    (retrans : UInt32) (node : Nat) :
    (takeOut pre item mid post 0 n retrans node).before = pre := by
  rw [takeOut, leadOff, if_pos rfl]
  dsimp only
  rw [List.append_nil, cutOff]
  split
  · rfl
  · rfl

/-- Whatever splitting an item and merging two neighbours keep, taking a segment out keeps, where
`Q` holds of the items that are split and merged. -/
theorem takeOut_rule {P : List TcpTxItem → UInt32 → Nat → Prop} {Q : TcpTxItem → Prop}
    (hfront : ∀ i node k, Q i → Q (i.front node k)) (hback : ∀ i k, Q i → Q (i.back k))
    (hmerge : ∀ r i j, Q i → Q j → Q (mergeItems r i j).1)
    (split : ∀ l i l' r node k, Q i → 0 < k → k < i.m_packet.length → P (l ++ i :: l') r node →
      P (l ++ i.front node k :: i.back k :: l') r (node + 1))
    (merge : ∀ l i j l' r node, Q i → Q j → P (l ++ i :: j :: l') r node →
      P (l ++ (mergeItems r i j).1 :: l') (mergeItems r i j).2 node)
    (hends : Ends item mid k n) (hq : Q item) (hqs : ∀ j ∈ mid, Q j)
    (h : P (pre ++ item :: (mid ++ post)) retrans node) :
    P (takeOut pre item mid post k n retrans node).list
        (takeOut pre item mid post k n retrans node).m_retrans
        (takeOut pre item mid post k n retrans node).nextNode ∧
      Q (takeOut pre item mid post k n retrans node).outItem := by
  have hstart := hends.start
  have hstop := hends.stop
  have hpos := hends.pos
  -- what goes before the segment
  have hlead : P (pre ++ (leadOff node item k).1 ++ (leadOff node item k).2.1 :: (mid ++ post))
      retrans (leadOff node item k).2.2 ∧ Q (leadOff node item k).2.1 ∧
        n ≤ (leadOff node item k).2.1.m_packet.length + span mid := by
    rw [leadOff]
    split
    · next heq => exact ⟨by simpa using h, hq, by dsimp only; omega⟩
    · next hne =>
      refine ⟨?_, hback item k hq, ?_⟩
      · simpa using split pre item (mid ++ post) retrans node k hq (by omega) hstart h
      · simp only [TcpTxItem.back, List.length_drop]
        omega
  rw [takeOut]
  generalize leadOff node item k = lead at hlead
  obtain ⟨lead, item', node'⟩ := lead
  obtain ⟨hP, hQ, hle⟩ := hlead
  dsimp only at hP hQ hle ⊢
  generalize pre ++ lead = before at hP
  -- the items merged
  have hall : P (before ++ (mergeAll retrans item' mid).1 :: post) (mergeAll retrans item' mid).2
      node' ∧ Q (mergeAll retrans item' mid).1 := by
    clear hle h hends hstop hstart
    induction mid generalizing retrans item' with
    | nil => exact ⟨hP, hQ⟩
    | cons next mid ih =>
      have hnext := hqs next (by simp)
      rw [mergeAll]
      exact ih (fun j hj => hqs j (List.mem_cons_of_mem _ hj)) _
        (hmerge retrans item' next hQ hnext)
        (merge before item' next (mid ++ post) retrans node' hQ hnext hP)
  have hlen : (mergeAll retrans item' mid).1.m_packet.length =
      item'.m_packet.length + span mid := by
    rw [mergeAll_packet, List.length_append, span]
  -- what goes behind it
  rw [cutOff]
  split
  · exact hall
  · next hne =>
    exact ⟨split before _ post _ node' n hall.2 hpos (by omega) hall.1, hfront _ node' n hall.2⟩

end TakeOut

/-- A property of the items that does not look at their parts is kept. -/
theorem takeOut_keeps {P : List TcpTxItem → Prop}
    (split : ∀ l i l' node k, 0 < k → k < i.m_packet.length → P (l ++ i :: l') →
      P (l ++ i.front node k :: i.back k :: l'))
    (merge : ∀ l i j l' r, P (l ++ i :: j :: l') → P (l ++ (mergeItems r i j).1 :: l'))
    {pre mid post : List TcpTxItem} {item : TcpTxItem} {k n node : Nat} {retrans : UInt32}
    (hends : Ends item mid k n) (h : P (pre ++ item :: (mid ++ post))) :
    P (takeOut pre item mid post k n retrans node).list :=
  (takeOut_rule (P := fun l _ _ => P l) (Q := fun _ => True) (fun _ _ _ _ => trivial)
    (fun _ _ _ => trivial) (fun _ _ _ _ _ => trivial)
    (fun l i l' _ node k _ hk hlt h => split l i l' node k hk hlt h)
    (fun l i j l' r _ _ _ h => merge l i j l' r h) hends trivial (fun _ _ => trivial) h).1

section Keeps

variable {pre mid post : List TcpTxItem} {item : TcpTxItem} {k n : Nat} (retrans : UInt32) (node : Nat)

/-- No item becomes larger than the largest one and the segment. -/
theorem takeOut_le (size : Nat) (hends : Ends item mid k n) (hn : n ≤ size)
    (h : ∀ i ∈ pre ++ item :: (mid ++ post), i.m_packet.length ≤ size) :
    ∀ i ∈ (takeOut pre item mid post k n retrans node).list, i.m_packet.length ≤ size := by
  have hstart := hends.start
  have hstop := hends.stop
  have hitem := h item (by simp)
  -- what is left of the last item merged
  have hrest : item.m_packet.length - k + span mid - n ≤ size := by
    rcases List.eq_nil_or_concat mid with rfl | ⟨m, x, rfl⟩
    · rw [span_nil]
      omega
    · have hx := h x (by simp)
      have hlast := hends.least m x [] (by simp)
      rw [List.concat_eq_append, span_append, span_cons, span_nil]
      omega
  have hlead : (∀ i ∈ (leadOff node item k).1, i.m_packet.length ≤ size) ∧
      (leadOff node item k).2.1.m_packet.length = item.m_packet.length - k := by
    rw [leadOff]
    split
    · next hk => exact ⟨by simp, by rw [hk, Nat.sub_zero]⟩
    · refine ⟨fun i hi => ?_, by simp [TcpTxItem.back]⟩
      rw [List.mem_singleton.mp hi, TcpTxItem.front, List.length_take]
      omega
  intro i hi
  rw [takeOut] at hi
  generalize leadOff node item k = lead at hi hlead
  obtain ⟨lead, item', node'⟩ := lead
  obtain ⟨hl, hlen⟩ := hlead
  have hmerged := congrArg List.length (mergeAll_packet retrans item' mid)
  dsimp only at hl hlen hi
  generalize mergeAll retrans item' mid = merged at hi hmerged
  have hall : merged.1.m_packet.length = item.m_packet.length - k + span mid := by
    rw [hmerged, List.length_append, hlen]
    rfl
  obtain ⟨merged, retrans'⟩ := merged
  dsimp only at hall hi
  have hothers : ∀ j, j ∈ pre ++ lead ∨ j ∈ post → j.m_packet.length ≤ size := by
    intro j hj
    rcases hj with hj | hj
    · rcases List.mem_append.mp hj with hj | hj
      · exact h j (by simp [hj])
      · exact hl j hj
    · exact h j (by simp [hj])
  rw [cutOff] at hi
  split at hi
  · next heq =>
    simp only [Fetched.list, List.mem_append, List.mem_cons] at hi
    rcases hi with hi | rfl | hi
    · exact hothers i (.inl (by simpa using hi))
    · omega
    · exact hothers i (.inr hi)
  · simp only [Fetched.list, List.mem_append, List.mem_cons] at hi
    rcases hi with hi | rfl | rfl | hi
    · exact hothers i (.inl (by simpa using hi))
    · rw [TcpTxItem.front, List.length_take]
      omega
    · rw [TcpTxItem.back, List.length_drop, hall]
      exact hrest
    · exact hothers i (.inr hi)

/-- The bytes of the list stay. -/
theorem takeOut_bytes (pre post : List TcpTxItem) (hends : Ends item mid k n) :
    bytes (takeOut pre item mid post k n retrans node).list =
      bytes (pre ++ item :: (mid ++ post)) := by
  refine takeOut_keeps (P := fun l => bytes l = bytes (pre ++ item :: (mid ++ post))) ?_ ?_ hends rfl
  · intro l i l' node k _ _ h
    rw [← h]
    simp only [bytes_append, bytes_cons, TcpTxItem.front, TcpTxItem.back]
    rw [← List.append_assoc (List.take k _), List.take_append_drop]
  · intro l i j l' r h
    rw [← h]
    simp [mergeItems]

/-- No item becomes empty. -/
theorem takeOut_filled (hends : Ends item mid k n) (h : Filled (pre ++ item :: (mid ++ post))) :
    Filled (takeOut pre item mid post k n retrans node).list := by
  refine takeOut_keeps ?_ ?_ hends h
  · intro l i l' node k hk hlt h
    simp only [filled_append, filled_cons, TcpTxItem.front, TcpTxItem.back, List.length_take,
      List.length_drop] at h ⊢
    exact ⟨h.1, by omega, by omega, h.2.2⟩
  · intro l i j l' r h
    simp only [filled_append, filled_cons, mergeItems, List.length_append] at h ⊢
    exact ⟨h.1, by omega, h.2.2.2⟩

/-- The items still follow one another. -/
theorem takeOut_contiguous {s : SequenceNumber32} (hends : Ends item mid k n)
    (h : Contiguous s (pre ++ item :: (mid ++ post))) :
    Contiguous s (takeOut pre item mid post k n retrans node).list := by
  refine takeOut_keeps ?_ ?_ hends h
  · intro l i l' node k hk hlt h
    simp only [contiguous_append, contiguous_cons, TcpTxItem.front, TcpTxItem.back,
      List.length_take, List.length_drop, SequenceNumber32.advance_advance] at h ⊢
    obtain ⟨h1, h2, h3⟩ := h
    rw [Nat.min_eq_left (Nat.le_of_lt hlt)]
    refine ⟨h1, h2, by rw [h2, SequenceNumber32.advance_advance], ?_⟩
    have heq : span l + k + (i.m_packet.length - k) = span l + i.m_packet.length := by omega
    rwa [heq]
  · intro l i j l' r h
    simp only [contiguous_append, contiguous_cons, mergeItems, List.length_append,
      SequenceNumber32.advance_advance] at h ⊢
    obtain ⟨h1, h2, -, h3⟩ := h
    rw [← Nat.add_assoc]
    exact ⟨h1, h2, h3⟩

end Keeps

/-! ### Marks -/

/-- An item but for its marks. -/
def TcpTxItem.frame (i : TcpTxItem) : Nat × SequenceNumber32 × Payload :=
  (i.node, i.m_startSeq, i.m_packet)

/-- The items of a list but for their marks. -/
def frames (items : List TcpTxItem) : List (Nat × SequenceNumber32 × Payload) :=
  items.map TcpTxItem.frame

@[simp] theorem frames_cons (i : TcpTxItem) (items : List TcpTxItem) :
    frames (i :: items) = i.frame :: frames items := rfl

@[simp] theorem frames_append (l l' : List TcpTxItem) : frames (l ++ l') = frames l ++ frames l' :=
  List.map_append

section Frames

variable {l l' : List TcpTxItem}

theorem bytes_eq (h : frames l' = frames l) : bytes l' = bytes l := by
  have hb : ∀ l : List TcpTxItem, bytes l = (frames l).flatMap fun f => f.2.2 := by
    intro l
    rw [frames, List.flatMap_map]
    rfl
  rw [hb, hb, h]

theorem span_eq (h : frames l' = frames l) : span l' = span l := by
  rw [span, bytes_eq h, span]

theorem filled_eq (h : frames l' = frames l) (hl : Filled l) : Filled l' := by
  intro i hi
  have hmem : i.frame ∈ frames l := h ▸ List.mem_map_of_mem hi
  obtain ⟨j, hj, heq⟩ := List.mem_map.mp hmem
  have hp : j.m_packet = i.m_packet := congrArg (fun f => f.2.2) heq
  rw [← hp]
  exact hl j hj

theorem contiguous_eq (h : frames l' = frames l) {s : SequenceNumber32} (hl : Contiguous s l) :
    Contiguous s l' := by
  induction l generalizing l' s with
  | nil =>
    rw [List.map_eq_nil_iff.mp h]
    trivial
  | cons i l ih =>
    obtain ⟨j, l', rfl, hj, hl'⟩ := List.map_eq_cons_iff.mp h
    obtain ⟨hstart, hrest⟩ := contiguous_cons.mp hl
    have hs : j.m_startSeq = i.m_startSeq := congrArg (fun f => f.2.1) hj
    have hp : j.m_packet = i.m_packet := congrArg (fun f => f.2.2) hj
    exact contiguous_cons.mpr ⟨by rw [hs, hstart], by rw [hp]; exact ih hl' hrest⟩

theorem frames_map {f : TcpTxItem → TcpTxItem} (hf : ∀ i, (f i).frame = i.frame) :
    frames (l.map f) = frames l := by
  rw [frames, List.map_map]
  exact List.map_congr_left fun i _ => hf i

end Frames

/-- SACK marks do not change the items otherwise. -/
theorem markBlock_frames (block : SackBlock) (st : Sacking) (begin' : SequenceNumber32)
    (items : List TcpTxItem) : frames (markBlock block st begin' items).1 = frames items := by
  induction items generalizing st begin' with
  | nil => rfl
  | cons i rest ih =>
    rw [markBlock]
    dsimp only
    split
    · split
      · rw [frames_cons, ih, frames_cons]
      · rw [frames_cons, ih, frames_cons]
        rfl
    · split
      · rfl
      · rw [frames_cons, ih, frames_cons]

theorem markBlocks_frames (b : TcpTxBuffer) (st : Sacking) (items : List TcpTxItem)
    (list : List SackBlock) : frames (b.markBlocks st items list).1 = frames items := by
  induction list generalizing st items with
  | nil => rfl
  | cons block list ih =>
    rw [TcpTxBuffer.markBlocks]
    split
    · rfl
    · dsimp only
      rw [ih, markBlock_frames]

/-- The marks of `UpdateLostCount` at an item, behind those of the items after it. -/
theorem markLost_cons (thresh lostOut : UInt32) (i : TcpTxItem) (rest : List TcpTxItem) :
    markLost thresh lostOut (i :: rest) =
      let m := markLost thresh lostOut rest
      let sacked := if i.m_sacked then m.2.1 + 1 else m.2.1
      if thresh ≤ sacked && !i.m_sacked && !i.m_lost then
        ({ i with m_lost := true } :: m.1, sacked, m.2.2 + i.getSize)
      else (i :: m.1, sacked, m.2.2) := rfl

theorem markLost_frames (thresh lostOut : UInt32) (items : List TcpTxItem) :
    frames (markLost thresh lostOut items).1 = frames items := by
  induction items with
  | nil => rfl
  | cons i rest ih =>
    rw [markLost_cons]
    dsimp only
    generalize (if i.m_sacked = true then _ else _) = sacked
    split
    · rw [frames_cons, ih, frames_cons]
      rfl
    · rw [frames_cons, ih, frames_cons]

theorem sackFirst_frames {items rest : List TcpTxItem} {it : TcpTxItem}
    (h : sackFirst items = some (it, rest)) : frames rest = frames items := by
  induction items generalizing rest with
  | nil => cases h
  | cons i items ih =>
    rw [sackFirst] at h
    split at h
    · obtain ⟨⟨it', rest'⟩, heq, hrest⟩ := Option.map_eq_some_iff.mp h
      obtain ⟨rfl, rfl⟩ := Prod.mk.inj hrest
      rw [frames_cons, ih heq, frames_cons]
    · obtain ⟨-, rfl⟩ := Prod.mk.inj (Option.some.inj h)
      rfl

/-- The items up to a node and those behind it are the whole list. -/
theorem splitAfter_append {node : Nat} {items upTo after : List TcpTxItem}
    (h : splitAfter node items = some (upTo, after)) : upTo ++ after = items := by
  induction items generalizing upTo with
  | nil => cases h
  | cons i items ih =>
    rw [splitAfter] at h
    split at h
    · obtain ⟨rfl, rfl⟩ := Prod.mk.inj (Option.some.inj h)
      rfl
    · obtain ⟨⟨upTo', after'⟩, heq, hrest⟩ := Option.map_eq_some_iff.mp h
      obtain ⟨rfl, rfl⟩ := Prod.mk.inj hrest
      rw [List.cons_append, ih heq]

end Ns3.Tcp
