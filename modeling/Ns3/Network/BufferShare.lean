import Ns3.Network.Buffer

/-!
# Buffers that share blocks

The invariant of a heap and the Buffers on it, what each Buffer reads, and what the steps that
operations on Buffers are made of do to both.
-/

namespace Ns3.Network

open Ns3.Lib

/-! ### 32 bits -/

section Words

variable {a b : Nat}

theorem add32_eq (h : a + b < 2 ^ 32) : add32 a b = a + b := Nat.mod_eq_of_lt h

theorem sub32_eq (hle : b ≤ a) (h : a < 2 ^ 32) : sub32 a b = a - b := by
  rw [sub32]
  omega

end Words

/-! ### What a Buffer reads -/

/-- The end of the bytes of a Buffer in its block. -/
def Buffer.realEnd (b : Buffer) : Nat := b.m_end - (b.m_zeroAreaEnd - b.m_zeroAreaStart)

/-- The bytes of a Buffer: those before the zero area, the zeroes, and those behind it. -/
def Buffer.bytes (h : Heap) (b : Buffer) : List UInt8 :=
  slice (h.blocks b.m_data).m_data b.m_start (b.m_zeroAreaStart - b.m_start) ++
    (List.replicate (b.m_zeroAreaEnd - b.m_zeroAreaStart) 0 ++
      slice (h.blocks b.m_data).m_data b.m_zeroAreaStart (b.m_end - b.m_zeroAreaEnd))

/-- What the disabled `CheckInternalState` checks, and that offsets have room in 32 bits. -/
structure Buffer.Ok (h : Heap) (b : Buffer) : Prop where
  start_le : b.m_start ≤ b.m_zeroAreaStart
  zero_le : b.m_zeroAreaStart ≤ b.m_zeroAreaEnd
  end_le : b.m_zeroAreaEnd ≤ b.m_end
  dirtyStart_le : (h.blocks b.m_data).m_dirtyStart ≤ b.m_start
  le_dirtyEnd : b.m_end ≤ (h.blocks b.m_data).m_dirtyEnd
  inside : b.m_end - (b.m_zeroAreaEnd - b.m_zeroAreaStart) ≤ (h.blocks b.m_data).m_size
  size_lt : b.m_end - b.m_start < 2 ^ 31

/-- A heap with the Buffers on it and the blocks held besides: what a block counts are its holders,
blocks that are free or not allocated have none, and where two Buffers share a block, one that ends
where the dirty area does has its bytes end last. -/
structure Heap.Inv (h : Heap) (held : List Nat) (live : List Buffer) : Prop where
  ok : ∀ b ∈ live, b.Ok h
  count : ∀ i, (h.blocks i).m_count = held.count i + live.countP (fun b => b.m_data = i)
  size_lt : ∀ i, (h.blocks i).m_size < 2 ^ 31
  fresh : ∀ i, h.next ≤ i → (h.blocks i).m_count = 0
  free : ∀ i ∈ h.freeList, i < h.next ∧ (h.blocks i).m_count = 0
  nodup : h.freeList.Nodup
  last : ∀ b ∈ live, ∀ c ∈ live, b.m_data = c.m_data →
    b.m_end = (h.blocks b.m_data).m_dirtyEnd → c.realEnd ≤ b.realEnd

/-- The Buffers read what they read before. -/
def Heap.Keeps (h h' : Heap) (live : List Buffer) : Prop := ∀ c ∈ live, c.bytes h' = c.bytes h

section Read

variable {h h' h'' : Heap} {b : Buffer} {live : List Buffer}

theorem Heap.Keeps.refl (h : Heap) (live : List Buffer) : h.Keeps h live := fun _ _ => rfl

theorem Heap.Keeps.trans (hk : h.Keeps h' live) (hk' : h'.Keeps h'' live) : h.Keeps h'' live :=
  fun c hc => (hk' c hc).trans (hk c hc)

/-- A Buffer reads its block from its start to the end of its bytes. -/
theorem Buffer.bytes_congr (hb : b.m_start ≤ b.m_zeroAreaStart) (hz : b.m_zeroAreaStart ≤ b.m_zeroAreaEnd)
    (he : b.m_zeroAreaEnd ≤ b.m_end)
    (heq : ∀ i, b.m_start ≤ i → i < b.realEnd →
      (h'.blocks b.m_data).m_data i = (h.blocks b.m_data).m_data i) :
    b.bytes h' = b.bytes h := by
  rw [realEnd] at heq
  rw [bytes, bytes, slice_congr fun i hi hlt => heq i hi (by omega),
    slice_congr fun i hi hlt => heq i (by omega) (by omega)]

theorem Buffer.length_bytes (hb : b.m_start ≤ b.m_zeroAreaStart)
    (hz : b.m_zeroAreaStart ≤ b.m_zeroAreaEnd) (he : b.m_zeroAreaEnd ≤ b.m_end) :
    (b.bytes h).length = b.m_end - b.m_start := by
  rw [bytes, List.length_append, List.length_append, length_slice, length_slice,
    List.length_replicate]
  omega

/-- The bytes at the start. -/
theorem Buffer.bytes_start {n : Nat} (hn : b.m_start + n ≤ b.m_zeroAreaStart) :
    b.bytes h = slice (h.blocks b.m_data).m_data b.m_start n ++
      { b with m_start := b.m_start + n }.bytes h := by
  obtain ⟨k, hk⟩ : ∃ k, b.m_zeroAreaStart - b.m_start = n + k :=
    ⟨b.m_zeroAreaStart - b.m_start - n, by omega⟩
  have hk' : b.m_zeroAreaStart - (b.m_start + n) = k := by omega
  rw [bytes, bytes, hk, ← slice_append, List.append_assoc]
  dsimp only
  rw [hk']

/-- The bytes at the end. -/
theorem Buffer.bytes_end {n : Nat} (hz : b.m_zeroAreaStart ≤ b.m_zeroAreaEnd)
    (hn : b.m_zeroAreaEnd + n ≤ b.m_end) :
    b.bytes h = { b with m_end := b.m_end - n }.bytes h ++
      slice (h.blocks b.m_data).m_data (b.realEnd - n) n := by
  obtain ⟨k, hk⟩ : ∃ k, b.m_end - b.m_zeroAreaEnd = k + n := ⟨b.m_end - b.m_zeroAreaEnd - n, by omega⟩
  have hk' : b.m_end - n - b.m_zeroAreaEnd = k := by omega
  have hend : b.realEnd - n = b.m_zeroAreaStart + k := by
    rw [realEnd]
    omega
  rw [bytes, bytes, hk, ← slice_append, hend]
  dsimp only
  rw [hk', List.append_assoc, List.append_assoc]

end Read

/-! ### Blocks -/

/-- What the invariant looks at in a block besides its count. -/
def Data.shape (d : Data) : Nat × Nat × Nat := (d.m_size, d.m_dirtyStart, d.m_dirtyEnd)

theorem Data.shape_inj {d d' : Data} (heq : d'.shape = d.shape) :
    d'.m_size = d.m_size ∧ d'.m_dirtyStart = d.m_dirtyStart ∧ d'.m_dirtyEnd = d.m_dirtyEnd :=
  ⟨congrArg Prod.fst heq, congrArg (fun s => s.2.1) heq, congrArg (fun s => s.2.2) heq⟩

section Heap

variable {h h' : Heap} {b : Buffer} {held : List Nat} {live : List Buffer} {i j n : Nat} {d : Data}

@[simp] theorem Heap.set_self (h : Heap) (i : Nat) (d : Data) : (h.set i d).blocks i = d :=
  Function.update_self ..

theorem Heap.set_ne (d : Data) (hij : j ≠ i) : (h.set i d).blocks j = h.blocks j :=
  Function.update_of_ne hij ..

theorem Buffer.Ok.congr (hb : b.Ok h) (heq : (h'.blocks b.m_data).shape = (h.blocks b.m_data).shape) :
    b.Ok h' := by
  obtain ⟨hsize, hstart, hend⟩ := Data.shape_inj heq
  exact ⟨hb.start_le, hb.zero_le, hb.end_le, hstart ▸ hb.dirtyStart_le, hend ▸ hb.le_dirtyEnd,
    hsize ▸ hb.inside, hb.size_lt⟩

/-- The invariant of a heap with other blocks of the same shape. -/
theorem Heap.Inv.reshape {held' : List Nat} (hi : h.Inv held live)
    (hshape : ∀ j, (h'.blocks j).shape = (h.blocks j).shape)
    (hcount : ∀ j, (h'.blocks j).m_count = held'.count j + live.countP fun b => b.m_data = j)
    (hfresh : ∀ j, h'.next ≤ j → (h'.blocks j).m_count = 0)
    (hfree : ∀ j ∈ h'.freeList, j < h'.next ∧ (h'.blocks j).m_count = 0)
    (hnodup : h'.freeList.Nodup) : h'.Inv held' live where
  ok := fun b hb => (hi.ok b hb).congr (hshape _)
  count := hcount
  size_lt := fun j => (Data.shape_inj (hshape j)).1 ▸ hi.size_lt j
  fresh := hfresh
  free := hfree
  nodup := hnodup
  last := fun b hb c hc hbc hend =>
    hi.last b hb c hc hbc (hend.trans (Data.shape_inj (hshape _)).2.2)

theorem Heap.Inv.perm {live' : List Buffer} (hi : h.Inv held live) (hp : live.Perm live') :
    h.Inv held live' where
  ok := fun b hb => hi.ok b (hp.mem_iff.mpr hb)
  count := fun i => by rw [hi.count, hp.countP_eq]
  size_lt := hi.size_lt
  fresh := hi.fresh
  free := hi.free
  nodup := hi.nodup
  last := fun b hb c hc => hi.last b (hp.mem_iff.mpr hb) c (hp.mem_iff.mpr hc)

/-- A Buffer on a block is counted there. -/
theorem Heap.Inv.count_pos (hi : h.Inv held live) (hb : b ∈ live) : 0 < (h.blocks b.m_data).m_count := by
  rw [hi.count]
  exact Nat.add_pos_right _ (List.countP_pos_iff.mpr ⟨b, hb, by simp⟩)

/-- A block that counts nothing has no holder. -/
theorem Heap.Inv.unused (hi : h.Inv held live) (hzero : (h.blocks i).m_count = 0) :
    i ∉ held ∧ ∀ b ∈ live, b.m_data ≠ i := by
  rw [hi.count, Nat.add_eq_zero_iff] at hzero
  refine ⟨List.count_eq_zero.mp hzero.1, fun b hb heq => ?_⟩
  have := List.countP_eq_zero.mp hzero.2 b hb
  simp [heq] at this

/-- A block that counts nothing is taken. -/
theorem Heap.Inv.claim (hi : h.Inv held live) (hzero : (h.blocks i).m_count = 0)
    (hone : d.m_count = 1) (hsize : d.m_size < 2 ^ 31) {next : Nat} {l : List Nat} (hlt : i < next)
    (hnext : h.next ≤ next) (hl : l.Sublist h.freeList) (hil : i ∉ l) :
    Heap.Inv { h.set i d with next := next, freeList := l } (i :: held) live := by
  obtain ⟨hheld, hlive⟩ := hi.unused hzero
  have hsame : ∀ b ∈ live, (h.set i d).blocks b.m_data = h.blocks b.m_data :=
    fun b hb => Heap.set_ne d (hlive b hb)
  refine ⟨fun b hb => (hi.ok b hb).congr (congrArg Data.shape (hsame b hb)), fun j => ?_,
    fun j => ?_, fun j hj => ?_, fun j hj => ?_, hl.nodup hi.nodup, fun b hb c hc hbc hend => ?_⟩
  · by_cases hij : j = i
    · subst hij
      have hcount := hi.count j
      rw [hzero] at hcount
      change ((h.set j d).blocks j).m_count = _
      rw [Heap.set_self, hone, List.count_cons_self]
      omega
    · change ((h.set i d).blocks j).m_count = _
      rw [Heap.set_ne d hij, hi.count, List.count_cons_of_ne (Ne.symm hij)]
  · change ((h.set i d).blocks j).m_size < _
    by_cases hij : j = i
    · rw [hij, Heap.set_self]
      exact hsize
    · rw [Heap.set_ne d hij]
      exact hi.size_lt j
  · change ((h.set i d).blocks j).m_count = 0
    dsimp only at hj
    rw [Heap.set_ne d (by omega)]
    exact hi.fresh j (Nat.le_trans hnext hj)
  · obtain ⟨hjlt, hjcount⟩ := hi.free j (hl.subset hj)
    refine ⟨Nat.lt_of_lt_of_le hjlt hnext, ?_⟩
    change ((h.set i d).blocks j).m_count = 0
    rw [Heap.set_ne d (fun heq : j = i => hil (heq ▸ hj))]
    exact hjcount
  · refine hi.last b hb c hc hbc ?_
    rw [← hsame b hb]
    exact hend

/-- A block of `n` bytes at least that nothing held, held now. -/
structure Heap.Taken (h h' : Heap) (i n : Nat) (held : List Nat) (live : List Buffer) : Prop where
  inv : h'.Inv (i :: held) live
  unused : i ∉ held ∧ ∀ b ∈ live, b.m_data ≠ i
  same : ∀ j, j ≠ i → h'.blocks j = h.blocks j
  size : n ≤ (h'.blocks i).m_size

theorem Heap.createFrom_taken (hi : h.Inv held live) (hn : n < 2 ^ 31) {l : List Nat}
    (hl : l.Sublist h.freeList) :
    h.Taken (h.createFrom n l).2 (h.createFrom n l).1 n held live := by
  induction l with
  | nil =>
    have hzero := hi.fresh h.next (Nat.le_refl _)
    refine ⟨hi.claim hzero rfl ?_ (Nat.lt_succ_self _) (Nat.le_succ _) (List.nil_sublist _)
      List.not_mem_nil, hi.unused hzero, fun j hj => Heap.set_ne _ hj, ?_⟩
    · dsimp only
      split
      · decide
      · exact hn
    · rw [createFrom, allocate]
      dsimp only
      rw [Heap.set_self]
      dsimp only
      split
      · next hzero => rw [hzero]; exact Nat.zero_le _
      · exact Nat.le_refl n
  | cons i rest ih =>
    obtain ⟨hlt, hzero⟩ := hi.free i (hl.subset List.mem_cons_self)
    have hrest : rest.Sublist h.freeList := (List.sublist_cons_self i rest).trans hl
    rw [createFrom]
    split
    · next hle =>
      have hnot : i ∉ rest := (List.nodup_cons.mp (hl.nodup hi.nodup)).1
      refine ⟨hi.claim (d := { h.blocks i with m_count := 1 }) hzero rfl (hi.size_lt i) hlt
        (Nat.le_refl _) hrest hnot, hi.unused hzero, fun j hj => Heap.set_ne _ hj, ?_⟩
      dsimp only
      rw [Heap.set_self]
      exact hle
    · exact ih hrest

theorem Heap.Inv.create (hi : h.Inv held live) (hn : n < 2 ^ 31) :
    h.Taken (h.create n).2 (h.create n).1 n held live :=
  createFrom_taken hi hn (List.Sublist.refl _)

theorem Heap.Taken.keeps (ht : h.Taken h' i n held live) : h.Keeps h' live := by
  intro c hc
  have hsame := ht.same c.m_data (ht.unused.2 c hc)
  rw [Buffer.bytes, Buffer.bytes, hsame]

/-- Whatever has the same bytes in its blocks keeps what Buffers read. -/
theorem Heap.keeps_of_data (hdata : ∀ j, (h'.blocks j).m_data = (h.blocks j).m_data) :
    h.Keeps h' live := by
  intro c _
  rw [Buffer.bytes, Buffer.bytes, hdata]

/-- Changing a count changes no shape and no bytes. -/
theorem Heap.set_count (h : Heap) (i n j : Nat) :
    ((h.set i { h.blocks i with m_count := n }).blocks j).shape = (h.blocks j).shape ∧
      ((h.set i { h.blocks i with m_count := n }).blocks j).m_data = (h.blocks j).m_data := by
  by_cases hij : j = i
  · rw [hij, Heap.set_self]
    exact ⟨rfl, rfl⟩
  · rw [Heap.set_ne _ hij]
    exact ⟨rfl, rfl⟩

theorem Heap.recycle_blocks (h : Heap) (i : Nat) : (h.recycle i).blocks = h.blocks := by
  rw [recycle]
  dsimp only
  split
  · rfl
  · rfl

theorem Heap.recycle_next (h : Heap) (i : Nat) : (h.recycle i).next = h.next := by
  rw [recycle]
  dsimp only
  split
  · rfl
  · rfl

/-- `m_count++` on a block that is held. -/
theorem Heap.Inv.retain (hi : h.Inv held live) (hpos : 0 < (h.blocks i).m_count) :
    (h.retain i).Inv (i :: held) live := by
  refine hi.reshape (fun j => (Heap.set_count h i _ j).1) (fun j => ?_) (fun j hj => ?_)
    (fun j hj => ?_) hi.nodup
  · rw [Heap.retain]
    by_cases hij : j = i
    · rw [hij, Heap.set_self, hi.count, List.count_cons_self]
      dsimp only
      omega
    · rw [Heap.set_ne _ hij, hi.count, List.count_cons_of_ne (Ne.symm hij)]
  · have hzero := hi.fresh j hj
    have hij : j ≠ i := fun heq => by
      rw [heq] at hzero
      omega
    rw [Heap.retain, Heap.set_ne _ hij]
    exact hzero
  · obtain ⟨hlt, hzero⟩ := hi.free j hj
    have hij : j ≠ i := fun heq => by
      rw [heq] at hzero
      omega
    refine ⟨hlt, ?_⟩
    rw [Heap.retain, Heap.set_ne _ hij]
    exact hzero

theorem Heap.retain_keeps (h : Heap) (i : Nat) (live : List Buffer) : h.Keeps (h.retain i) live :=
  Heap.keeps_of_data fun j => (Heap.set_count h i _ j).2

/-- A block that counts nothing is kept for later or given up. -/
theorem Heap.Inv.recycle (hi : h.Inv held live) (hlt : i < h.next) (hzero : (h.blocks i).m_count = 0)
    (hnot : i ∉ h.freeList) : (h.recycle i).Inv held live := by
  have hblocks := Heap.recycle_blocks h i
  refine hi.reshape (fun j => by rw [hblocks]) (fun j => by rw [hblocks]; exact hi.count j)
    (fun j hj => ?_) (fun j hj => ?_) ?_
  · rw [hblocks]
    rw [Heap.recycle_next] at hj
    exact hi.fresh j hj
  · rw [hblocks, Heap.recycle_next]
    rw [Heap.recycle] at hj
    dsimp only at hj
    split at hj
    · exact hi.free j hj
    · rcases List.mem_cons.mp hj with rfl | hj
      · exact ⟨hlt, hzero⟩
      · exact hi.free j hj
  · rw [Heap.recycle]
    dsimp only
    split
    · exact hi.nodup
    · exact List.nodup_cons.mpr ⟨hnot, hi.nodup⟩

theorem Heap.release_blocks (h : Heap) (i j : Nat) :
    ((h.release i).blocks j).shape = (h.blocks j).shape ∧
      ((h.release i).blocks j).m_data = (h.blocks j).m_data := by
  rw [Heap.release]
  dsimp only
  split
  · rw [Heap.recycle_blocks]
    exact Heap.set_count h i _ j
  · exact Heap.set_count h i _ j

theorem Heap.release_keeps (h : Heap) (i : Nat) (live : List Buffer) : h.Keeps (h.release i) live :=
  Heap.keeps_of_data fun j => (Heap.release_blocks h i j).2

/-- `m_count--` gives a hold up. -/
theorem Heap.Inv.release (hi : h.Inv (i :: held) live) : (h.release i).Inv held live := by
  have hpos : 0 < (h.blocks i).m_count := by
    rw [hi.count, List.count_cons_self]
    omega
  have hlt : i < h.next := by
    by_contra hge
    have := hi.fresh i (Nat.le_of_not_lt hge)
    omega
  have hnot : i ∉ h.freeList := fun hmem => by
    have := (hi.free i hmem).2
    omega
  have hless : (h.set i { h.blocks i with m_count := (h.blocks i).m_count - 1 }).Inv held live := by
    refine hi.reshape (fun j => (Heap.set_count h i _ j).1) (fun j => ?_) (fun j hj => ?_)
      (fun j hj => ?_) hi.nodup
    · by_cases hij : j = i
      · rw [hij, Heap.set_self, hi.count, List.count_cons_self]
        dsimp only
        omega
      · rw [Heap.set_ne _ hij, hi.count, List.count_cons_of_ne (Ne.symm hij)]
    · have hij : j ≠ i := fun heq => by
        change h.next ≤ j at hj
        omega
      rw [Heap.set_ne _ hij]
      exact hi.fresh j hj
    · have hij : j ≠ i := fun heq => hnot (heq ▸ hj)
      rw [Heap.set_ne _ hij]
      exact hi.free j hj
  rw [Heap.release]
  dsimp only
  split
  · next hzero => exact hless.recycle hlt hzero hnot
  · exact hless

/-- A Buffer goes, and its hold on the block stays. -/
theorem Heap.Inv.drop (hi : h.Inv held (b :: live)) : h.Inv (b.m_data :: held) live where
  ok := fun c hc => hi.ok c (List.mem_cons_of_mem b hc)
  count := fun i => by
    rw [hi.count, List.countP_cons, List.count_cons]
    simp only [decide_eq_true_eq, beq_iff_eq]
    omega
  size_lt := hi.size_lt
  fresh := hi.fresh
  free := hi.free
  nodup := hi.nodup
  last := fun c hc c' hc' => hi.last c (List.mem_cons_of_mem b hc) c' (List.mem_cons_of_mem b hc')

/-- A Buffer comes on a block that is held. -/
theorem Heap.Inv.adopt (hi : h.Inv (b.m_data :: held) live) (hb : b.Ok h)
    (hlast : ∀ c ∈ live, c.m_data = b.m_data → (b.m_end = (h.blocks b.m_data).m_dirtyEnd →
      c.realEnd ≤ b.realEnd) ∧ (c.m_end = (h.blocks b.m_data).m_dirtyEnd → b.realEnd ≤ c.realEnd)) :
    h.Inv held (b :: live) where
  ok := fun c hc => by
    rcases List.mem_cons.mp hc with rfl | hc
    · exact hb
    · exact hi.ok c hc
  count := fun i => by
    rw [hi.count, List.countP_cons, List.count_cons]
    simp only [decide_eq_true_eq, beq_iff_eq]
    omega
  size_lt := hi.size_lt
  fresh := hi.fresh
  free := hi.free
  nodup := hi.nodup
  last := fun c hc c' hc' heq hend => by
    rcases List.mem_cons.mp hc with rfl | hmem
    · rcases List.mem_cons.mp hc' with rfl | hmem'
      · exact Nat.le_refl _
      · exact (hlast c' hmem' heq.symm).1 hend
    · rcases List.mem_cons.mp hc' with rfl | hmem'
      · rw [heq] at hend
        exact (hlast c hmem heq).2 hend
      · exact hi.last c hmem c' hmem' heq hend

/-! ### Writing -/

/-- A heap with bytes written to a block. -/
def Heap.wrote (h : Heap) (i off : Nat) (p : List UInt8) : Heap :=
  h.set i { h.blocks i with m_data := patch (h.blocks i).m_data off p }

theorem Heap.write_eq {off : Nat} {p : List UInt8} (hle : off + p.length ≤ (h.blocks i).m_size) :
    h.write i off p = .ok (h.wrote i off p) := if_pos (.inr hle)

theorem Heap.read_eq {off : Nat} (hle : off + n ≤ (h.blocks i).m_size) :
    h.read i off n = .ok (slice (h.blocks i).m_data off n) := if_pos (.inr hle)

theorem Heap.wrote_shape (h : Heap) (i off : Nat) (p : List UInt8) (j : Nat) :
    ((h.wrote i off p).blocks j).shape = (h.blocks j).shape ∧
      ((h.wrote i off p).blocks j).m_count = (h.blocks j).m_count := by
  by_cases hij : j = i
  · rw [hij, wrote, set_self]
    exact ⟨rfl, rfl⟩
  · rw [wrote, set_ne _ hij]
    exact ⟨rfl, rfl⟩

theorem Heap.wrote_data (h : Heap) (i off : Nat) (p : List UInt8) :
    ((h.wrote i off p).blocks i).m_data = patch (h.blocks i).m_data off p := by
  rw [wrote, set_self]

theorem Heap.Inv.wrote (hi : h.Inv held live) (i off : Nat) (p : List UInt8) :
    (h.wrote i off p).Inv held live := by
  have hcount := fun j => (h.wrote_shape i off p j).2
  exact hi.reshape (fun j => (h.wrote_shape i off p j).1) (fun j => (hcount j).trans (hi.count j))
    (fun j hj => (hcount j).trans (hi.fresh j hj))
    (fun j hj => ⟨(hi.free j hj).1, (hcount j).trans (hi.free j hj).2⟩) hi.nodup

/-- A Buffer that does not look where bytes are written reads what it read. -/
theorem Buffer.wrote_bytes {off : Nat} {p : List UInt8} (hb : b.m_start ≤ b.m_zeroAreaStart)
    (hz : b.m_zeroAreaStart ≤ b.m_zeroAreaEnd) (he : b.m_zeroAreaEnd ≤ b.m_end)
    (hout : b.m_data = i → off + p.length ≤ b.m_start ∨ b.realEnd ≤ off) :
    b.bytes (h.wrote i off p) = b.bytes h := by
  by_cases hij : b.m_data = i
  · refine Buffer.bytes_congr hb hz he fun k hk hlt => ?_
    rw [hij, Heap.wrote_data]
    exact patch_outside ((hout hij).elim (fun _ => .inr (by omega)) fun _ => .inl (by omega))
  · rw [Buffer.bytes, Buffer.bytes, Heap.wrote, Heap.set_ne _ hij]

/-- Bytes of a block that no Buffer looks at. -/
def Heap.Unseen (live : List Buffer) (i off n : Nat) : Prop :=
  ∀ c ∈ live, c.m_data = i → off + n ≤ c.m_start ∨ c.realEnd ≤ off

theorem Heap.Inv.keeps_wrote (hi : h.Inv held live) {off : Nat} {p : List UInt8}
    (hun : Heap.Unseen live i off p.length) : h.Keeps (h.wrote i off p) live := fun c hc =>
  Buffer.wrote_bytes (hi.ok c hc).start_le (hi.ok c hc).zero_le (hi.ok c hc).end_le (hun c hc)

/-! ### Offsets -/

theorem Buffer.Ok.start_le_realEnd (hb : b.Ok h) : b.m_zeroAreaStart ≤ b.realEnd := by
  have := hb.zero_le
  have := hb.end_le
  rw [Buffer.realEnd]
  omega

/-- Offsets are below 2^32. -/
theorem Heap.Inv.end_lt (hi : h.Inv held live) (hb : b ∈ live) :
    b.m_start < 2 ^ 31 ∧ b.realEnd < 2 ^ 31 ∧ b.m_end < 2 ^ 32 := by
  have hok := hi.ok b hb
  have hsize := hi.size_lt b.m_data
  have h1 := hok.start_le
  have h2 := hok.start_le_realEnd
  have h3 := hok.inside
  have h4 := hok.size_lt
  change b.realEnd ≤ _ at h3
  omega

theorem Heap.Inv.getInternalSize (hi : h.Inv held live) (hb : b ∈ live) :
    b.getInternalSize = b.realEnd - b.m_start := by
  have hok := hi.ok b hb
  have h1 := hok.start_le
  have h2 := hok.zero_le
  have h3 := hok.end_le
  have h4 := hok.size_lt
  obtain ⟨h5, h6, h7⟩ := hi.end_lt hb
  rw [Buffer.realEnd] at *
  simp only [Buffer.getInternalSize, add32, sub32]
  omega

theorem Heap.Inv.getInternalEnd (hi : h.Inv held live) (hb : b ∈ live) :
    b.getInternalEnd = b.realEnd := by
  have hok := hi.ok b hb
  have h1 := hok.zero_le
  have h2 := hok.end_le
  obtain ⟨h5, h6, h7⟩ := hi.end_lt hb
  rw [Buffer.getInternalEnd, sub32_eq h1 (by omega), sub32_eq (by omega) h7]
  rfl

theorem Heap.Inv.getSize (hi : h.Inv held live) (hb : b ∈ live) :
    b.getSize = (b.bytes h).length := by
  have hok := hi.ok b hb
  have h1 := hok.start_le
  have h2 := hok.zero_le
  have h3 := hok.end_le
  rw [Buffer.length_bytes h1 h2 h3, Buffer.getSize, sub32_eq (by omega) (hi.end_lt hb).2.2]

end Heap

end Ns3.Network
