import Ns3.Network.BufferShare

/-!
# What operations on a Buffer do

Each operation keeps the invariant and what the other Buffers read, and does to the bytes of its
Buffer what its name says.
-/

namespace Ns3.Network

open Ns3.Lib Buffer

variable {h h' : Heap} {b b' o : Buffer} {held : List Nat} {live : List Buffer} {i n : Nat}

/-! ### Objects -/

/-- A heap with one more Buffer on it, and what that reads. -/
structure Heap.Made (h h' : Heap) (live : List Buffer) (b : Buffer) (bytes : List UInt8) : Prop where
  inv : h'.Inv [] (b :: live)
  keeps : h.Keeps h' live
  bytes : b.bytes h' = bytes

theorem Heap.setDirty_shape (h : Heap) (i start stop : Nat) {j : Nat} (hij : j ≠ i) :
    (h.setDirty i start stop).blocks j = h.blocks j := Heap.set_ne _ hij

theorem Heap.setDirty_data (h : Heap) (i start stop j : Nat) :
    ((h.setDirty i start stop).blocks j).m_data = (h.blocks j).m_data ∧
      ((h.setDirty i start stop).blocks j).m_size = (h.blocks j).m_size ∧
      ((h.setDirty i start stop).blocks j).m_count = (h.blocks j).m_count := by
  by_cases hij : j = i
  · rw [hij, setDirty, set_self]
    exact ⟨rfl, rfl, rfl⟩
  · rw [setDirty, set_ne _ hij]
    exact ⟨rfl, rfl, rfl⟩

/-- The dirty area of a block is set where it fits the Buffers that look at the block. -/
theorem Heap.Inv.setDirty (hi : h.Inv held live) {start stop : Nat}
    (hin : ∀ c ∈ live, c.m_data = i → start ≤ c.m_start ∧ c.m_end ≤ stop)
    (hlast : ∀ c ∈ live, c.m_data = i → c.m_end = stop → c.m_end = (h.blocks i).m_dirtyEnd) :
    (h.setDirty i start stop).Inv held live where
  ok := fun c hc => by
    have hok := hi.ok c hc
    by_cases hci : c.m_data = i
    · obtain ⟨hstart, hstop⟩ := hin c hc hci
      refine ⟨hok.start_le, hok.zero_le, hok.end_le, ?_, ?_, ?_, hok.size_lt⟩
      · rw [hci, Heap.setDirty, Heap.set_self]
        exact hstart
      · rw [hci, Heap.setDirty, Heap.set_self]
        exact hstop
      · rw [(h.setDirty_data _ _ _ _).2.1]
        exact hok.inside
    · exact hok.congr (congrArg Data.shape (h.setDirty_shape i _ _ hci))
  count := fun j => (h.setDirty_data i _ _ j).2.2.trans (hi.count j)
  size_lt := fun j => (h.setDirty_data i _ _ j).2.1 ▸ hi.size_lt j
  fresh := fun j hj => (h.setDirty_data i _ _ j).2.2.trans (hi.fresh j hj)
  free := fun j hj => ⟨(hi.free j hj).1, (h.setDirty_data i _ _ j).2.2.trans (hi.free j hj).2⟩
  nodup := hi.nodup
  last := fun c hc c' hc' heq hend => by
    by_cases hci : c.m_data = i
    · rw [hci, Heap.setDirty, Heap.set_self] at hend
      have := hlast c hc hci hend
      rw [← hci] at this
      exact hi.last c hc c' hc' heq this
    · rw [h.setDirty_shape i _ _ hci] at hend
      exact hi.last c hc c' hc' heq hend

/-- A Buffer comes to a block of its own. -/
theorem Heap.Inv.own (hi : h.Inv (b.m_data :: held) live) (hout : ∀ c ∈ live, c.m_data ≠ b.m_data)
    (hstart : b.m_start ≤ b.m_zeroAreaStart) (hz : b.m_zeroAreaStart ≤ b.m_zeroAreaEnd)
    (he : b.m_zeroAreaEnd ≤ b.m_end) (hin : b.realEnd ≤ (h.blocks b.m_data).m_size)
    (hsize : b.m_end - b.m_start < 2 ^ 31) :
    (h.setDirty b.m_data b.m_start b.m_end).Inv held (b :: live) := by
  refine (hi.setDirty (fun c hc heq => absurd heq (hout c hc))
    fun c hc heq => absurd heq (hout c hc)).adopt ⟨hstart, hz, he, ?_, ?_, ?_, hsize⟩
    fun c hc heq => absurd heq (hout c hc)
  · simp only [Heap.setDirty, Heap.set_self, Nat.le_refl]
  · simp only [Heap.setDirty, Heap.set_self, Nat.le_refl]
  · rw [(h.setDirty_data _ _ _ _).2.1]
    exact hin

theorem initializeZeroes_made (hi : h.Inv [] live) (hn : n < 2 ^ 31) :
    h.Made (initializeZeroes h n).1 live (initializeZeroes h n).2 (List.replicate n 0) ∧
      (initializeZeroes h n).2.m_start = (initializeZeroes h n).2.m_zeroAreaStart ∧
      (initializeZeroes h n).2.m_zeroAreaEnd = (initializeZeroes h n).2.m_end ∧
      ∀ c ∈ live, c.m_data ≠ (initializeZeroes h n).2.m_data := by
  have ht := hi.create (n := 0) (by decide)
  rw [initializeZeroes]
  generalize h.create 0 = r at ht
  obtain ⟨i, h₁⟩ := r
  dsimp only at ht ⊢
  have hsize := ht.inv.size_lt i
  generalize hs : min (h₁.blocks i).m_size h₁.recommendedStart = start
  have hle : start ≤ (h₁.blocks i).m_size := hs ▸ Nat.min_le_left _ _
  rw [add32_eq (by omega)]
  have hinv := ht.inv.own (b := ⟨i, start, start, start + n, start, start + n⟩) ht.unused.2
    (Nat.le_refl _) (Nat.le_add_right _ _) (Nat.le_refl _) (by
      change start + n - (start + n - start) ≤ (h₁.blocks i).m_size
      omega) (by
      change start + n - start < _
      omega)
  refine ⟨⟨hinv, ht.keeps.trans (Heap.keeps_of_data fun j => (h₁.setDirty_data _ _ _ j).1), ?_⟩, rfl,
    rfl, ht.unused.2⟩
  rw [Buffer.bytes]
  dsimp only
  rw [Nat.sub_self, Nat.sub_self, Nat.add_sub_cancel_left, slice_zero, List.append_nil,
    List.nil_append]

theorem copy_made (hi : h.Inv [] live) (ho : o ∈ live) :
    h.Made (o.copy h).1 live (o.copy h).2 (o.bytes h) := by
  have hret := hi.retain (hi.count_pos ho)
  refine ⟨hret.adopt (b := (o.copy h).2) ?_ fun c hc heq => ?_, h.retain_keeps _ _, ?_⟩
  · have := hret.ok o ho
    exact ⟨this.start_le, this.zero_le, this.end_le, this.dirtyStart_le, this.le_dirtyEnd,
      this.inside, this.size_lt⟩
  · refine ⟨fun hend => hret.last o ho c hc heq.symm hend, fun hend => ?_⟩
    change c.m_data = o.m_data at heq
    refine hret.last c hc o ho heq ?_
    rw [heq]
    exact hend
  · exact h.retain_keeps o.m_data live o ho

/-- `recommendedStart` is looked at by nothing but `Initialize`. -/
theorem Heap.Inv.recommend (hi : h.Inv held live) (start : Nat) :
    Heap.Inv { h with recommendedStart := start } held live :=
  ⟨fun c hc => (hi.ok c hc).congr rfl, hi.count, hi.size_lt, hi.fresh, hi.free, hi.nodup, hi.last⟩

theorem destroy_inv (hi : h.Inv [] (b :: live)) :
    (b.destroy h).Inv [] live ∧ h.Keeps (b.destroy h) live := by
  refine ⟨((hi.recommend _).drop).release, ?_⟩
  exact Heap.Keeps.trans (fun _ _ => rfl) (Heap.release_keeps _ _ _)

/-- `operator=` from another Buffer. -/
theorem assign_made (hi : h.Inv [] (b :: live)) (ho : o ∈ live) :
    h.Made (b.assign h o).1 live (b.assign h o).2 (o.bytes h) := by
  have hadopt : ∀ {h' : Heap}, h'.Inv [o.m_data] live → h'.Inv [] (o :: live) := by
    intro h' hi'
    refine hi'.adopt (hi'.ok o ho) fun c hc heq =>
      ⟨fun hend => hi'.last o ho c hc heq.symm hend, fun hend => ?_⟩
    exact hi'.last c hc o ho heq (heq.symm ▸ hend)
  rw [assign]
  by_cases heq : b.m_data = o.m_data
  · rw [if_neg (not_not.mpr heq)]
    have hdrop := hi.drop
    rw [heq] at hdrop
    exact ⟨(hadopt hdrop).recommend _, fun _ _ => rfl, rfl⟩
  · rw [if_pos heq]
    have hrel : (h.release b.m_data).Inv [] live := hi.drop.release
    have hret := hrel.retain (hrel.count_pos ho)
    have hk : h.Keeps ((h.release b.m_data).retain o.m_data) live :=
      (h.release_keeps _ _).trans (Heap.retain_keeps _ _ _)
    exact ⟨(hadopt hret).recommend _, hk, hk o ho⟩

/-! ### Growing -/

/-- The same bytes at another place. -/
theorem bytes_of_slice (hstart : b.m_start ≤ b.m_zeroAreaStart) (hz : b.m_zeroAreaStart ≤ b.m_zeroAreaEnd)
    (he : b.m_zeroAreaEnd ≤ b.m_end)
    (hfront : b'.m_zeroAreaStart = b'.m_start + (b.m_zeroAreaStart - b.m_start))
    (hzero : b'.m_zeroAreaEnd - b'.m_zeroAreaStart = b.m_zeroAreaEnd - b.m_zeroAreaStart)
    (hback : b'.m_end - b'.m_zeroAreaEnd = b.m_end - b.m_zeroAreaEnd)
    (hs : slice (h'.blocks b'.m_data).m_data b'.m_start (b.realEnd - b.m_start) =
      slice (h.blocks b.m_data).m_data b.m_start (b.realEnd - b.m_start)) :
    b'.bytes h' = b.bytes h := by
  have hlen : b.realEnd - b.m_start = b.m_zeroAreaStart - b.m_start + (b.m_end - b.m_zeroAreaEnd) := by
    rw [realEnd]
    omega
  have h1 := slice_part (k := 0) (m := b.m_zeroAreaStart - b.m_start) hs (by omega)
  have h2 := slice_part (k := b.m_zeroAreaStart - b.m_start) (m := b.m_end - b.m_zeroAreaEnd) hs
    (by omega)
  rw [Nat.add_zero, Nat.add_zero] at h1
  rw [← hfront, Nat.add_sub_cancel' hstart] at h2
  have hfront' : b'.m_zeroAreaStart - b'.m_start = b.m_zeroAreaStart - b.m_start := by omega
  rw [bytes, bytes, hfront', hzero, hback, h1, h2]

/-- A block with a copy of the bytes behind `off` bytes of room, in place of the old one. -/
theorem recreate_spec (hi : h.Inv [] (b :: live)) (newSize off : Nat) (hnew : newSize < 2 ^ 31)
    (hle : off + (b.realEnd - b.m_start) ≤ newSize) :
    ∃ i h', b.recreate h newSize off = .ok (i, h') ∧ h'.Inv [i] live ∧
      (∀ c ∈ live, c.m_data ≠ i) ∧ h.Keeps h' live ∧ newSize ≤ (h'.blocks i).m_size ∧
      slice (h'.blocks i).m_data off (b.realEnd - b.m_start) =
        slice (h.blocks b.m_data).m_data b.m_start (b.realEnd - b.m_start) := by
  have hb := hi.ok b List.mem_cons_self
  have hsize := hi.getInternalSize List.mem_cons_self
  have hstart : b.m_start ≤ b.realEnd := Nat.le_trans hb.start_le hb.start_le_realEnd
  have hin : b.realEnd ≤ (h.blocks b.m_data).m_size := hb.inside
  have ht := hi.create hnew
  rw [Buffer.recreate, hsize]
  generalize h.create newSize = r at ht
  obtain ⟨i, h₁⟩ := r
  dsimp only at ht ⊢
  have hne := ht.unused.2 b List.mem_cons_self
  have hlive : ∀ c ∈ live, c.m_data ≠ i := fun c hc => ht.unused.2 c (List.mem_cons_of_mem b hc)
  have hblock := ht.same b.m_data hne
  rw [Heap.read_eq (by rw [hblock]; omega), hblock]
  change ∃ i' h', Except.map _ (h₁.write i off _) = _ ∧ _
  rw [Heap.write_eq (by rw [length_slice]; exact Nat.le_trans hle ht.size)]
  have hwrote := (ht.inv.wrote i off (slice (h.blocks b.m_data).m_data b.m_start
    (b.realEnd - b.m_start))).drop
  have hunseen : Heap.Unseen live i off (slice (h.blocks b.m_data).m_data b.m_start
      (b.realEnd - b.m_start)).length := fun c hc heq => absurd heq (hlive c hc)
  generalize hp : slice (h.blocks b.m_data).m_data b.m_start (b.realEnd - b.m_start) = p at *
  have hlen : p.length = b.realEnd - b.m_start := by rw [← hp, length_slice]
  obtain ⟨hshape, hdata⟩ := Heap.release_blocks (h₁.wrote i off p) b.m_data i
  refine ⟨i, _, rfl, hwrote.release, hlive, ?_, ?_, ?_⟩
  · have hk : h.Keeps h₁ live := fun c hc => ht.keeps c (List.mem_cons_of_mem b hc)
    have hk' : h₁.Keeps (h₁.wrote i off p) live := ht.inv.drop.keeps_wrote hunseen
    exact (hk.trans hk').trans (Heap.release_keeps _ _ _)
  · rw [(Data.shape_inj hshape).1, (Data.shape_inj (h₁.wrote_shape i off p i).1).1]
    exact ht.size
  · rw [hdata, Heap.wrote_data, ← hlen, slice_patch]

/-- A Buffer alone on its block. -/
theorem Heap.Inv.alone (hi : h.Inv [] (b :: live)) (hone : (h.blocks b.m_data).m_count = 1) :
    ∀ c ∈ live, c.m_data ≠ b.m_data := by
  have hcount := hi.count b.m_data
  rw [hone, List.count_nil, Nat.zero_add, List.countP_cons_of_pos (by simp)] at hcount
  intro c hc heq
  have := List.countP_eq_zero.mp (show live.countP (fun c => c.m_data = b.m_data) = 0 by omega) c hc
  simp [heq] at this

/-- A Buffer at offset `k` of another block. -/
def Buffer.placed (b : Buffer) (i k : Nat) : Buffer :=
  { b with
    m_data := i
    m_start := k
    m_zeroAreaStart := k + (b.m_zeroAreaStart - b.m_start)
    m_zeroAreaEnd := k + (b.m_zeroAreaEnd - b.m_start)
    m_end := k + (b.m_end - b.m_start) }

theorem moved_eq (hb : b.Ok h) (hs : b.m_start < 2 ^ 32) {k : Nat}
    (hk : k + (b.m_end - b.m_start) < 2 ^ 32) :
    b.moved i (sub32 k b.m_start) = b.placed i k := by
  have h1 := hb.start_le
  have h2 := hb.zero_le
  have h3 := hb.end_le
  have hmove : ∀ a, b.m_start ≤ a → a ≤ b.m_end →
      add32 a (sub32 k b.m_start) = k + (a - b.m_start) := by
    intro a ha hle
    simp only [add32, sub32]
    omega
  rw [moved, placed, hmove b.m_start (Nat.le_refl _) (by omega), hmove b.m_zeroAreaStart h1 (by omega),
    hmove b.m_zeroAreaEnd (by omega) h3, hmove b.m_end (by omega) (Nat.le_refl _), Nat.sub_self,
    Nat.add_zero]

theorem placed_bytes (hb : b.Ok h) {k : Nat}
    (hs : slice (h'.blocks i).m_data k (b.realEnd - b.m_start) =
      slice (h.blocks b.m_data).m_data b.m_start (b.realEnd - b.m_start)) :
    (b.placed i k).bytes h' = b.bytes h := by
  have h1 := hb.start_le
  have h2 := hb.zero_le
  have h3 := hb.end_le
  refine bytes_of_slice h1 h2 h3 rfl ?_ ?_ hs
  · change k + _ - (k + _) = _
    omega
  · change k + _ - (k + _) = _
    omega

/-- There is room for `n` bytes before those of the Buffer in its block. -/
def Buffer.FitsStart (h : Heap) (b : Buffer) (n : Nat) : Prop :=
  n ≤ b.m_start ∧ ¬ (1 < (h.blocks b.m_data).m_count ∧ (h.blocks b.m_data).m_dirtyStart < b.m_start)

/-- A Buffer with `n` more bytes at its start, which no other looks at, in the same block or in one of
its own. -/
structure Heap.GrownStart (h h' : Heap) (live : List Buffer) (b b' : Buffer) (n : Nat) : Prop where
  inv : h'.Inv [] (b' :: live)
  keeps : h.Keeps h' live
  room : b'.m_start + n ≤ b'.m_zeroAreaStart
  rest : { b' with m_start := b'.m_start + n }.bytes h' = b.bytes h
  unseen : Heap.Unseen live b'.m_data b'.m_start n
  zero : b'.m_zeroAreaEnd - b'.m_zeroAreaStart = b.m_zeroAreaEnd - b.m_zeroAreaStart
  place : b'.m_data = b.m_data ∧ b.FitsStart h n ∨ ∀ c ∈ live, c.m_data ≠ b'.m_data

/-- There is room for `n` bytes behind those of the Buffer in its block. -/
def Buffer.FitsEnd (h : Heap) (b : Buffer) (n : Nat) : Prop :=
  b.realEnd + n ≤ (h.blocks b.m_data).m_size ∧
    ¬ (1 < (h.blocks b.m_data).m_count ∧ b.m_end < (h.blocks b.m_data).m_dirtyEnd)

/-- A Buffer with `n` more bytes at its end, which no other looks at, in the same block or in one of
its own. -/
structure Heap.GrownEnd (h h' : Heap) (live : List Buffer) (b b' : Buffer) (n : Nat) : Prop where
  inv : h'.Inv [] (b' :: live)
  keeps : h.Keeps h' live
  room : b'.m_zeroAreaEnd + n ≤ b'.m_end
  rest : { b' with m_end := b'.m_end - n }.bytes h' = b.bytes h
  unseen : Heap.Unseen live b'.m_data (b'.realEnd - n) n
  zero : b'.m_zeroAreaEnd - b'.m_zeroAreaStart = b.m_zeroAreaEnd - b.m_zeroAreaStart
  place : b'.m_data = b.m_data ∧ b.FitsEnd h n ∨ ∀ c ∈ live, c.m_data ≠ b'.m_data

theorem addAtStart_grown (hi : h.Inv [] (b :: live)) (hn : (b.bytes h).length + n < 2 ^ 31) :
    ∃ h' b', b.addAtStart h n = .ok (h', b') ∧ h.GrownStart h' live b b' n := by
  have hb := hi.ok b List.mem_cons_self
  have h1 := hb.start_le
  have h2 := hb.zero_le
  have h3 := hb.end_le
  rw [length_bytes h1 h2 h3] at hn
  have hpos := hi.count_pos (b := b) List.mem_cons_self
  have hdirty := hb.dirtyStart_le
  rw [Buffer.addAtStart]
  dsimp only
  split
  · next hin =>
    -- in place: no other Buffer starts before this one
    have hshare : (h.blocks b.m_data).m_count = 1 ∨ b.m_start = (h.blocks b.m_data).m_dirtyStart := by
      omega
    have hbefore : ∀ c ∈ live, c.m_data = b.m_data → b.m_start ≤ c.m_start := by
      intro c hc heq
      rcases hshare with hone | hstart
      · exact absurd heq (hi.alone hone c hc)
      · rw [hstart, ← heq]
        exact (hi.ok c (List.mem_cons_of_mem b hc)).dirtyStart_le
    rw [if_pos hshare]
    refine ⟨_, _, rfl, ?_, Heap.keeps_of_data fun j => (h.setDirty_data _ _ _ j).1, ?_, ?_, ?_, rfl,
      .inl ⟨rfl, hin⟩⟩
    · refine (hi.drop.setDirty (fun c hc heq => ⟨?_, ?_⟩) fun c _ _ hend => hend).adopt
        (b := noted { b with m_start := b.m_start - n }) ⟨?_, h2, h3, ?_, ?_, ?_, ?_⟩
        fun c hc heq => ?_
      · have := hbefore c hc heq
        omega
      · rw [← heq]
        exact (hi.ok c (List.mem_cons_of_mem b hc)).le_dirtyEnd
      · change b.m_start - n ≤ b.m_zeroAreaStart
        omega
      · change ((h.setDirty b.m_data _ _).blocks b.m_data).m_dirtyStart ≤ _
        rw [Heap.setDirty, Heap.set_self]
        exact Nat.le_refl _
      · change _ ≤ ((h.setDirty b.m_data _ _).blocks b.m_data).m_dirtyEnd
        rw [Heap.setDirty, Heap.set_self]
        exact hb.le_dirtyEnd
      · change _ ≤ ((h.setDirty b.m_data _ _).blocks b.m_data).m_size
        rw [(h.setDirty_data _ _ _ _).2.1]
        exact hb.inside
      · change b.m_end - (b.m_start - n) < _
        omega
      · change (_ = ((h.setDirty b.m_data _ _).blocks b.m_data).m_dirtyEnd → _) ∧
          (_ = ((h.setDirty b.m_data _ _).blocks b.m_data).m_dirtyEnd → _)
        rw [Heap.setDirty, Heap.set_self]
        refine ⟨hi.last b List.mem_cons_self c (List.mem_cons_of_mem b hc) heq.symm, fun hend => ?_⟩
        exact hi.last c (List.mem_cons_of_mem b hc) b List.mem_cons_self heq (heq ▸ hend)
    · change b.m_start - n + n ≤ b.m_zeroAreaStart
      omega
    · change bytes _ { b with m_start := b.m_start - n + n, m_maxZeroAreaStart := _ } = _
      rw [Nat.sub_add_cancel hin.1, bytes, bytes, (h.setDirty_data _ _ _ _).1]
    · intro c hc heq
      have := hbefore c hc heq
      left
      change b.m_start - n + n ≤ _
      omega
  · have hsize := hi.getInternalSize List.mem_cons_self
    have hend : b.realEnd - b.m_start + n < 2 ^ 31 := by
      rw [realEnd]
      omega
    obtain ⟨hs, -, he⟩ := hi.end_lt (b := b) List.mem_cons_self
    obtain ⟨i, h₁, heq, hi₁, hout, hk, hin, hslice⟩ :=
      recreate_spec hi (b.realEnd - b.m_start + n) n hend (by omega)
    rw [hsize, add32_eq (by omega), heq]
    change ∃ h' b', Except.ok (_, _) = _ ∧ _
    rw [moved_eq hb (by omega) (by omega)]
    have hzero : sub32 (b.placed i n).m_start n = 0 := by
      change sub32 n n = 0
      rw [sub32_eq (Nat.le_refl n) (by omega), Nat.sub_self]
    rw [hzero]
    refine ⟨_, _, rfl, hi₁.own (b := noted { b.placed i n with m_start := 0 }) hout ?_ ?_ ?_ ?_ ?_,
      hk.trans (Heap.keeps_of_data fun j => (h₁.setDirty_data _ _ _ j).1), ?_, ?_,
      fun c hc heq => absurd heq (hout c hc), ?_, .inr hout⟩
    · exact Nat.zero_le _
    · change n + (b.m_zeroAreaStart - b.m_start) ≤ n + (b.m_zeroAreaEnd - b.m_start)
      omega
    · change n + (b.m_zeroAreaEnd - b.m_start) ≤ n + (b.m_end - b.m_start)
      omega
    · change n + _ - (n + _ - (n + _)) ≤ (h₁.blocks i).m_size
      rw [realEnd] at hin
      omega
    · change n + (b.m_end - b.m_start) - 0 < _
      omega
    · change 0 + n ≤ n + _
      omega
    · rw [← placed_bytes (i := i) (k := n) hb hslice]
      change bytes _ { b.placed i n with m_start := 0 + n, m_maxZeroAreaStart := _ } = _
      rw [Nat.zero_add, bytes, bytes, (h₁.setDirty_data _ _ _ _).1]
      rfl
    · change n + _ - (n + _) = _
      omega

theorem addAtEnd_grown (hi : h.Inv [] (b :: live)) (hn : (b.bytes h).length + n < 2 ^ 31) :
    ∃ h' b', b.addAtEnd h n = .ok (h', b') ∧ h.GrownEnd h' live b b' n := by
  have hb := hi.ok b List.mem_cons_self
  have h1 := hb.start_le
  have h2 := hb.zero_le
  have h3 := hb.end_le
  rw [length_bytes h1 h2 h3] at hn
  have hpos := hi.count_pos (b := b) List.mem_cons_self
  have hdirty := hb.le_dirtyEnd
  obtain ⟨hs, hr, he⟩ := hi.end_lt (b := b) List.mem_cons_self
  have hreal : b.realEnd = b.m_end - (b.m_zeroAreaEnd - b.m_zeroAreaStart) := rfl
  rw [Buffer.addAtEnd, hi.getInternalEnd List.mem_cons_self, add32_eq (by omega), add32_eq (by omega)]
  dsimp only
  split
  · next hin =>
    -- in place: no other Buffer has bytes behind those of this one
    have hshare : (h.blocks b.m_data).m_count = 1 ∨ b.m_end = (h.blocks b.m_data).m_dirtyEnd := by
      omega
    have hbehind : ∀ c ∈ live, c.m_data = b.m_data →
        c.realEnd ≤ b.realEnd ∧ c.m_end ≤ b.m_end ∧ b.m_end = (h.blocks b.m_data).m_dirtyEnd := by
      intro c hc heq
      rcases hshare with hone | hstop
      · exact absurd heq (hi.alone hone c hc)
      · refine ⟨hi.last b List.mem_cons_self c (List.mem_cons_of_mem b hc) heq.symm hstop, ?_, hstop⟩
        rw [hstop, ← heq]
        exact (hi.ok c (List.mem_cons_of_mem b hc)).le_dirtyEnd
    rw [if_pos hshare]
    have hback : (noted { b with m_end := b.m_end + n }).realEnd = b.realEnd + n := by
      change b.m_end + n - (b.m_zeroAreaEnd - b.m_zeroAreaStart) = _
      omega
    refine ⟨_, _, rfl, ?_, Heap.keeps_of_data fun j => (h.setDirty_data _ _ _ j).1, ?_, ?_, ?_, rfl,
      .inl ⟨rfl, hin⟩⟩
    · refine (hi.drop.setDirty (fun c hc heq => ⟨?_, ?_⟩) fun c hc heq hend => ?_).adopt
        (b := noted { b with m_end := b.m_end + n }) ⟨h1, h2, ?_, ?_, ?_, ?_, ?_⟩ fun c hc heq => ?_
      · rw [← heq]
        exact (hi.ok c (List.mem_cons_of_mem b hc)).dirtyStart_le
      · have := (hbehind c hc heq).2.1
        omega
      · obtain ⟨-, hle, hstop⟩ := hbehind c hc heq
        omega
      · change b.m_zeroAreaEnd ≤ b.m_end + n
        omega
      · change ((h.setDirty b.m_data _ _).blocks b.m_data).m_dirtyStart ≤ _
        rw [Heap.setDirty, Heap.set_self]
        exact hb.dirtyStart_le
      · change _ ≤ ((h.setDirty b.m_data _ _).blocks b.m_data).m_dirtyEnd
        rw [Heap.setDirty, Heap.set_self]
        exact Nat.le_refl _
      · change _ ≤ ((h.setDirty b.m_data _ _).blocks b.m_data).m_size
        rw [(h.setDirty_data _ _ _ _).2.1]
        change (noted { b with m_end := b.m_end + n }).realEnd ≤ _
        rw [hback]
        exact hin.1
      · change b.m_end + n - b.m_start < _
        omega
      · replace heq : c.m_data = b.m_data := heq
        obtain ⟨hreal', hend', hstop⟩ := hbehind c hc heq
        change (_ = ((h.setDirty b.m_data _ _).blocks b.m_data).m_dirtyEnd → _) ∧
          (_ = ((h.setDirty b.m_data _ _).blocks b.m_data).m_dirtyEnd → _)
        rw [Heap.setDirty, Heap.set_self, hback]
        refine ⟨fun _ => by omega, fun hend => ?_⟩
        -- it ends with this one only when nothing is added
        replace hend : c.m_end = b.m_end + n := hend
        have hzero : n = 0 := by omega
        have hlast := hi.last c (List.mem_cons_of_mem b hc) b List.mem_cons_self heq
        rw [heq] at hlast
        rw [hzero]
        refine hlast ?_
        rw [← hstop, hend, hzero, Nat.add_zero]
    · exact Nat.add_le_add_right h3 n
    · change bytes _ { b with m_end := b.m_end + n - n, m_maxZeroAreaStart := _ } = _
      rw [Nat.add_sub_cancel, bytes, bytes, (h.setDirty_data _ _ _ _).1]
    · intro c hc heq
      have := (hbehind c hc heq).1
      right
      rw [hback]
      omega
  · have hsize := hi.getInternalSize List.mem_cons_self
    obtain ⟨i, h₁, heq, hi₁, hout, hk, hin, hslice⟩ :=
      recreate_spec hi (b.realEnd - b.m_start + n) 0 (by omega) (by omega)
    rw [hsize, add32_eq (by omega), heq]
    change ∃ h' b', Except.ok (_, _) = _ ∧ _
    rw [moved_eq hb (by omega) (by omega)]
    have hadd : add32 (b.placed i 0).m_end n = 0 + (b.m_end - b.m_start) + n :=
      add32_eq (by change 0 + (b.m_end - b.m_start) + n < _; omega)
    rw [hadd]
    refine ⟨_, _, rfl, hi₁.own (b := noted { b.placed i 0 with
      m_end := 0 + (b.m_end - b.m_start) + n }) hout ?_ ?_ ?_ ?_ ?_,
      hk.trans (Heap.keeps_of_data fun j => (h₁.setDirty_data _ _ _ j).1), ?_, ?_,
      fun c hc heq => absurd heq (hout c hc), ?_, .inr hout⟩
    · exact Nat.zero_le _
    · change 0 + (b.m_zeroAreaStart - b.m_start) ≤ 0 + (b.m_zeroAreaEnd - b.m_start)
      omega
    · change 0 + (b.m_zeroAreaEnd - b.m_start) ≤ 0 + (b.m_end - b.m_start) + n
      omega
    · change 0 + _ + n - (0 + _ - (0 + _)) ≤ (h₁.blocks i).m_size
      omega
    · change 0 + (b.m_end - b.m_start) + n - 0 < _
      omega
    · change 0 + (b.m_zeroAreaEnd - b.m_start) + n ≤ 0 + (b.m_end - b.m_start) + n
      omega
    · rw [← placed_bytes (i := i) (k := 0) hb hslice]
      change bytes _ { b.placed i 0 with
        m_end := 0 + (b.m_end - b.m_start) + n - n, m_maxZeroAreaStart := _ } = _
      rw [Nat.add_sub_cancel, bytes, bytes, (h₁.setDirty_data _ _ _ _).1]
      rfl
    · change 0 + _ - (0 + _) = _
      omega

/-! ### Shrinking -/

/-- A Buffer in place of one that looks at all of its bytes. -/
theorem Heap.Inv.shrink (hi : h.Inv held (b :: live)) (hdata : b'.m_data = b.m_data)
    (h1 : b'.m_start ≤ b'.m_zeroAreaStart) (h2 : b'.m_zeroAreaStart ≤ b'.m_zeroAreaEnd)
    (h3 : b'.m_zeroAreaEnd ≤ b'.m_end) (hstart : b.m_start ≤ b'.m_start) (hend : b'.m_end ≤ b.m_end)
    (hreal : b'.realEnd ≤ b.realEnd) (hsame : b'.m_end = b.m_end → b'.realEnd = b.realEnd) :
    h.Inv held (b' :: live) := by
  have hb := hi.ok b List.mem_cons_self
  have hdrop := hi.drop
  rw [← hdata] at hdrop
  refine hdrop.adopt ⟨h1, h2, h3, ?_, ?_, ?_, ?_⟩ fun c hc heq => ⟨fun hlast => ?_, fun hlast => ?_⟩
  · rw [hdata]
    exact Nat.le_trans hb.dirtyStart_le hstart
  · rw [hdata]
    exact Nat.le_trans hend hb.le_dirtyEnd
  · rw [hdata]
    exact Nat.le_trans hreal hb.inside
  · have := hb.size_lt
    omega
  · have hle := hb.le_dirtyEnd
    rw [hdata] at hlast heq
    rw [hsame (by omega)]
    exact hi.last b List.mem_cons_self c (List.mem_cons_of_mem b hc) heq.symm (by omega)
  · rw [hdata] at hlast heq
    refine Nat.le_trans hreal ?_
    exact hi.last c (List.mem_cons_of_mem b hc) b List.mem_cons_self heq (by rw [heq]; exact hlast)

theorem drop_bytes (h : Heap) (b : Buffer) (n : Nat) :
    (b.bytes h).drop n =
      slice (h.blocks b.m_data).m_data (b.m_start + n) (b.m_zeroAreaStart - b.m_start - n) ++
        (List.replicate (b.m_zeroAreaEnd - b.m_zeroAreaStart - (n - (b.m_zeroAreaStart - b.m_start)))
            0 ++
          slice (h.blocks b.m_data).m_data
            (b.m_zeroAreaStart + (n - (b.m_zeroAreaStart - b.m_start) -
              (b.m_zeroAreaEnd - b.m_zeroAreaStart)))
            (b.m_end - b.m_zeroAreaEnd - (n - (b.m_zeroAreaStart - b.m_start) -
              (b.m_zeroAreaEnd - b.m_zeroAreaStart)))) := by
  rw [bytes, List.drop_append, List.drop_append, drop_slice, drop_slice, List.drop_replicate,
    length_slice, List.length_replicate]

theorem take_bytes (h : Heap) (b : Buffer) (n : Nat) :
    (b.bytes h).take n =
      slice (h.blocks b.m_data).m_data b.m_start (min n (b.m_zeroAreaStart - b.m_start)) ++
        (List.replicate (min (n - (b.m_zeroAreaStart - b.m_start))
            (b.m_zeroAreaEnd - b.m_zeroAreaStart)) 0 ++
          slice (h.blocks b.m_data).m_data b.m_zeroAreaStart
            (min (n - (b.m_zeroAreaStart - b.m_start) - (b.m_zeroAreaEnd - b.m_zeroAreaStart))
              (b.m_end - b.m_zeroAreaEnd))) := by
  rw [bytes, List.take_append, List.take_append, take_slice, take_slice, List.take_replicate,
    length_slice, List.length_replicate]

/-- Two readings of a block that agree where they look. -/
theorem bytes_eq_of_parts {a a' l l' z z' c c' m m' : Nat} {mem : Nat → UInt8} (hl : l = l')
    (ha : l ≠ 0 → a = a') (hz : z = z') (hm : m = m') (hc : m ≠ 0 → c = c') :
    slice mem a l ++ (List.replicate z (0 : UInt8) ++ slice mem c m) =
      slice mem a' l' ++ (List.replicate z' 0 ++ slice mem c' m') := by
  subst hl hz hm
  have h1 : slice mem a l = slice mem a' l := by
    by_cases hzero : l = 0
    · rw [hzero, slice_zero, slice_zero]
    · rw [ha hzero]
  have h2 : slice mem c m = slice mem c' m := by
    by_cases hzero : m = 0
    · rw [hzero, slice_zero, slice_zero]
    · rw [hc hzero]
  rw [h1, h2]

theorem removeAtStart_made (hi : h.Inv [] (b :: live)) (hn : b.m_start + n < 2 ^ 32) :
    h.Made h live (b.removeAtStart n) ((b.bytes h).drop n) := by
  have hb := hi.ok b List.mem_cons_self
  have h1 := hb.start_le
  have h2 := hb.zero_le
  have h3 := hb.end_le
  obtain ⟨hs, hr, he⟩ := hi.end_lt (b := b) List.mem_cons_self
  have hreal : b.realEnd = b.m_end - (b.m_zeroAreaEnd - b.m_zeroAreaStart) := rfl
  rw [Buffer.removeAtStart, add32_eq (by omega), sub32_eq h2 (by omega)]
  dsimp only
  have hzero : sub32 b.m_end (b.m_zeroAreaEnd - b.m_zeroAreaStart) = b.realEnd :=
    sub32_eq (by omega) he
  rw [hzero]
  split
  · next hle =>
    -- bytes before the zero area
    refine ⟨hi.shrink rfl hle h2 h3 (Nat.le_add_right _ _) (Nat.le_refl _) (Nat.le_refl _) fun _ => rfl,
      .refl _ _, ?_⟩
    rw [drop_bytes]
    simp only [noted, bytes]
    apply bytes_eq_of_parts
    all_goals omega
  split
  · next hlt hle =>
    -- all of these and zeroes
    rw [sub32_eq (by omega) (by omega), sub32_eq (by omega) he]
    refine ⟨hi.shrink rfl (Nat.le_refl _) ?_ ?_ h1 (Nat.sub_le _ _) ?_ ?_, .refl _ _, ?_⟩
    · simp only [noted]
      omega
    · simp only [noted]
      omega
    · simp only [noted, realEnd]
      omega
    · simp only [noted, realEnd]
      omega
    · rw [drop_bytes]
      simp only [noted, bytes]
      apply bytes_eq_of_parts
      all_goals omega
  split
  · next hlt hlt' hle =>
    -- bytes behind the zero area as well
    rw [sub32_eq (by omega) (by omega)]
    refine ⟨hi.shrink rfl (Nat.le_refl _) (Nat.le_refl _) ?_ ?_ ?_ ?_ ?_, .refl _ _, ?_⟩
    · simp only [noted]
      omega
    · simp only [noted]
      omega
    · simp only [noted]
      omega
    · simp only [noted, realEnd]
      omega
    · simp only [noted, realEnd]
      omega
    · rw [drop_bytes]
      simp only [noted, bytes]
      apply bytes_eq_of_parts
      all_goals omega
  · -- everything
    refine ⟨hi.shrink rfl (Nat.le_refl _) (Nat.le_refl _) (Nat.le_refl _) ?_ ?_ ?_ ?_, .refl _ _, ?_⟩
    · simp only [noted]
      omega
    · simp only [noted]
      omega
    · simp only [noted, realEnd]
      omega
    · simp only [noted, realEnd]
      omega
    · rw [drop_bytes]
      simp only [noted, bytes]
      apply bytes_eq_of_parts
      all_goals omega

theorem removeAtEnd_made (hi : h.Inv [] (b :: live)) (n : Nat) :
    h.Made h live (b.removeAtEnd n) ((b.bytes h).take ((b.bytes h).length - n)) := by
  have hb := hi.ok b List.mem_cons_self
  have h1 := hb.start_le
  have h2 := hb.zero_le
  have h3 := hb.end_le
  obtain ⟨hs, hr, he⟩ := hi.end_lt (b := b) List.mem_cons_self
  have hreal : b.realEnd = b.m_end - (b.m_zeroAreaEnd - b.m_zeroAreaStart) := rfl
  have hsize : sub32 b.m_end b.m_start = b.m_end - b.m_start := sub32_eq (by omega) he
  rw [Buffer.removeAtEnd, hsize, length_bytes h1 h2 h3]
  have hmin : sub32 b.m_end (min n (b.m_end - b.m_start)) = b.m_start + (b.m_end - b.m_start - n) := by
    rw [sub32_eq (by omega) he]
    omega
  rw [hmin]
  generalize hk : b.m_end - b.m_start - n = k
  split
  · -- bytes behind the zero area
    refine ⟨hi.shrink rfl h1 h2 ?_ (Nat.le_refl _) ?_ ?_ ?_, .refl _ _, ?_⟩
    · simp only [noted]
      omega
    · simp only [noted]
      omega
    · simp only [noted, realEnd]
      omega
    · simp only [noted, realEnd]
      omega
    · rw [take_bytes]
      simp only [noted, bytes]
      apply bytes_eq_of_parts
      all_goals omega
  split
  · -- all of these and zeroes
    refine ⟨hi.shrink rfl h1 ?_ (Nat.le_refl _) (Nat.le_refl _) ?_ ?_ ?_, .refl _ _, ?_⟩
    · simp only [noted]
      omega
    · simp only [noted]
      omega
    · simp only [noted, realEnd]
      omega
    · simp only [noted, realEnd]
      omega
    · rw [take_bytes]
      simp only [noted, bytes]
      apply bytes_eq_of_parts
      all_goals omega
  split
  · -- bytes before the zero area as well
    refine ⟨hi.shrink rfl ?_ (Nat.le_refl _) (Nat.le_refl _) (Nat.le_refl _) ?_ ?_ ?_, .refl _ _, ?_⟩
    · simp only [noted]
      omega
    · simp only [noted]
      omega
    · simp only [noted, realEnd]
      omega
    · simp only [noted, realEnd]
      omega
    · rw [take_bytes]
      simp only [noted, bytes]
      apply bytes_eq_of_parts
      all_goals omega
  · -- everything
    refine ⟨hi.shrink rfl (Nat.le_refl _) (Nat.le_refl _) (Nat.le_refl _) (Nat.le_refl _) ?_ ?_ ?_,
      .refl _ _, ?_⟩
    · simp only [noted]
      omega
    · simp only [noted, realEnd]
      omega
    · simp only [noted, realEnd]
      omega
    · rw [take_bytes]
      simp only [noted, bytes]
      apply bytes_eq_of_parts
      all_goals omega

end Ns3.Network
