import Ns3.Network.BufferSteps

/-!
# Writing through iterators

Where an iterator writes in the block, and what is written to bytes that were added.
-/

namespace Ns3.Network

open Ns3.Lib Buffer

variable {h h' : Heap} {b b' o : Buffer} {live : List Buffer} {i : Nat}

/-- The iterator is before or behind the zero area, with `len` bytes to write at `off` of the block. -/
structure Buffer.Spot (b : Buffer) (it : Iterator) (off len : Nat) : Prop where
  it_eq : it = b.iterator it.m_current
  start_le : b.m_start ≤ it.m_current
  spot : it.m_current + len ≤ b.m_zeroAreaStart ∧ off = it.m_current ∨
    b.m_zeroAreaEnd ≤ it.m_current ∧ it.m_current + len ≤ b.m_end ∧
      off = it.m_current - (b.m_zeroAreaEnd - b.m_zeroAreaStart)

/-- The iterator behind what was written. -/
def Buffer.Iterator.next (it : Iterator) (len : Nat) : Iterator :=
  { it with m_current := it.m_current + len }

section Spot

variable {it : Iterator} {off len : Nat}

theorem Buffer.Iterator.assert_eq {p : Prop} [Decidable p] (hp : p) : Iterator.assert p = .ok () := if_pos hp

variable (h1 : b.m_start ≤ b.m_zeroAreaStart) (h2 : b.m_zeroAreaStart ≤ b.m_zeroAreaEnd)
  (h3 : b.m_zeroAreaEnd ≤ b.m_end) (h4 : b.m_end < 2 ^ 32)

include h2 h3 h4

/-- The offset behind the zero area. -/
theorem Buffer.Spot.behind_eq (hit : it = b.iterator it.m_current) (hge : b.m_zeroAreaEnd ≤ it.m_current)
    (hle : it.m_current ≤ b.m_end) :
    it.behind = it.m_current - (b.m_zeroAreaEnd - b.m_zeroAreaStart) := by
  generalize it.m_current = cur at *
  subst hit
  change sub32 cur (sub32 b.m_zeroAreaEnd b.m_zeroAreaStart) = _
  rw [sub32_eq h2 (by omega), sub32_eq (by omega) (by omega)]

/-- The offset that `Write` computes. -/
theorem Buffer.Spot.off_eq (hs : b.Spot it off len) :
    (if it.m_current ≤ it.m_zeroStart then it.m_current else it.behind) = off := by
  have hzero : it.m_zeroStart = b.m_zeroAreaStart := by
    rw [hs.it_eq]
    rfl
  rw [hzero]
  rcases hs.spot with ⟨hle, rfl⟩ | ⟨hge, hle, rfl⟩
  · rw [if_pos (by omega)]
  · rw [Spot.behind_eq h2 h3 h4 hs.it_eq hge (by omega)]
    split
    · omega
    · rfl

/-- No assertion of `Write` fails. -/
theorem Buffer.Spot.checkNoZero (hs : b.Spot it off len) :
    it.CheckNoZero it.m_current len ∧ it.CheckNoZero it.m_current (it.m_current + len) := by
  obtain ⟨hit, hstart, hspot⟩ := hs
  have hs' : it.m_dataStart = b.m_start ∧ it.m_dataEnd = b.m_end ∧
      it.m_zeroStart = b.m_zeroAreaStart ∧ it.m_zeroEnd = b.m_zeroAreaEnd := by
    rw [hit]
    exact ⟨rfl, rfl, rfl, rfl⟩
  rw [Iterator.CheckNoZero, Iterator.CheckNoZero, hs'.1, hs'.2.1, hs'.2.2.1, hs'.2.2.2]
  omega

theorem Buffer.Spot.next_eq (hs : b.Spot it off len) : add32 it.m_current len = it.m_current + len :=
  add32_eq (by
    have := hs.spot
    omega)

theorem Buffer.Spot.write {p : List UInt8} (hs : b.Spot it off p.length)
    (hin : off + p.length ≤ (h.blocks b.m_data).m_size) :
    it.write h p = .ok (h.wrote b.m_data off p, it.next p.length) := by
  have hdata : b.m_data = it.m_data := by
    rw [hs.it_eq]
    rfl
  rw [hdata] at hin ⊢
  rw [Iterator.write, Iterator.assert_eq (Spot.checkNoZero h2 h3 h4 hs).1,
    Spot.off_eq h2 h3 h4 hs, Heap.write_eq hin, Spot.next_eq h2 h3 h4 hs]
  rfl

theorem Buffer.Spot.writeU8 {data : UInt8} (hs : b.Spot it off 1)
    (hin : off + 1 ≤ (h.blocks b.m_data).m_size) :
    it.writeU8 h data = .ok (h.wrote b.m_data off [data], it.next 1) := by
  have hs' : b.m_data = it.m_data ∧ it.m_dataStart = b.m_start ∧ it.m_dataEnd = b.m_end ∧
      it.m_zeroStart = b.m_zeroAreaStart ∧ it.m_zeroEnd = b.m_zeroAreaEnd := by
    rw [hs.it_eq]
    exact ⟨rfl, rfl, rfl, rfl, rfl⟩
  have hcheck : it.Check it.m_current := by
    have hstart := hs.start_le
    have hspot := hs.spot
    rw [Iterator.Check, hs'.2.1, hs'.2.2.1, hs'.2.2.2.1, hs'.2.2.2.2]
    omega
  have hoff : (if it.m_current < it.m_zeroStart then it.m_current else it.behind) = off := by
    rw [hs'.2.2.2.1]
    rcases hs.spot with ⟨hle, rfl⟩ | ⟨hge, hle, rfl⟩
    · rw [if_pos (by omega)]
    · rw [if_neg (by omega), Spot.behind_eq h2 h3 h4 hs.it_eq hge (by omega)]
  rw [hs'.1] at hin ⊢
  rw [Iterator.writeU8, Iterator.assert_eq hcheck, hoff, Heap.write_eq (p := [data]) hin,
    Spot.next_eq h2 h3 h4 hs]
  rfl

theorem Buffer.Spot.writeU8s {data : UInt8} (hs : b.Spot it off len)
    (hin : off + len ≤ (h.blocks b.m_data).m_size) :
    it.writeU8s h data len = .ok (h.wrote b.m_data off (List.replicate len data), it.next len) := by
  have hdata : b.m_data = it.m_data := by
    rw [hs.it_eq]
    rfl
  have hnext := Spot.next_eq h2 h3 h4 hs
  rw [hdata] at hin ⊢
  rw [Iterator.writeU8s, hnext, Iterator.assert_eq (Spot.checkNoZero h2 h3 h4 hs).2,
    Spot.off_eq h2 h3 h4 hs, Heap.write_eq (by rw [List.length_replicate]; exact hin)]
  rfl

end Spot

/-! ### Bytes of another Buffer -/

section Between

variable {it : Iterator} {off : Nat} {p q : List UInt8}

@[simp] theorem Heap.wrote_nil (h : Heap) (i off : Nat) : h.wrote i off [] = h := by
  rw [Heap.wrote, patch_nil, Heap.set, Function.update_eq_self]

theorem Heap.wrote_ne (h : Heap) (off : Nat) (p : List UInt8) {j : Nat} (hij : j ≠ i) :
    (h.wrote i off p).blocks j = h.blocks j := Heap.set_ne _ hij

/-- Writing in two parts. -/
theorem Heap.wrote_append (h : Heap) (i off : Nat) (p q : List UInt8) :
    (h.wrote i off p).wrote i (off + p.length) q = h.wrote i off (p ++ q) := by
  simp only [Heap.wrote, Heap.set, Function.update_self, Function.update_idem, patch_append]

theorem Buffer.beginNext_eq (hlt : o.m_start + n < 2 ^ 32) :
    o.beginNext n = o.iterator (o.m_start + n) := by
  rw [Buffer.beginNext, add32_eq hlt]

theorem Buffer.endPrev_eq (hle : n ≤ o.m_end) (hlt : o.m_end < 2 ^ 32) :
    o.endPrev n = o.iterator (o.m_end - n) := by
  rw [Buffer.endPrev, sub32_eq hle hlt]

theorem Buffer.ite_min {a z n : Nat} [Decidable (a ≤ z)] :
    (if a ≤ z then min n (z - a) else 0) = min n (z - a) := by
  split
  · rfl
  · omega

/-- The bytes from `start` on. -/
theorem Buffer.take_drop_bytes (h : Heap) (o : Buffer) {start n n₁ n₂ n₃ : Nat}
    (h1 : o.m_start ≤ o.m_zeroAreaStart) (h2 : o.m_zeroAreaStart ≤ o.m_zeroAreaEnd)
    (h3 : o.m_zeroAreaEnd ≤ o.m_end) (hle : o.m_start + start + n ≤ o.m_end)
    (hn₁ : n₁ = min n (o.m_zeroAreaStart - (o.m_start + start)))
    (hn₂ : n₂ = min (n - n₁) (o.m_zeroAreaEnd - (o.m_start + start + n₁)))
    (hn₃ : n₃ = n - n₁ - n₂) :
    slice (h.blocks o.m_data).m_data (o.m_start + start) n₁ ++ (List.replicate n₂ 0 ++
      slice (h.blocks o.m_data).m_data
        (o.m_start + start + n₁ + n₂ - (o.m_zeroAreaEnd - o.m_zeroAreaStart)) n₃) =
      ((o.bytes h).drop start).take n := by
  obtain ⟨f, hf⟩ := Nat.exists_eq_add_of_le h1
  obtain ⟨z, hz⟩ := Nat.exists_eq_add_of_le h2
  obtain ⟨t, ht⟩ := Nat.exists_eq_add_of_le h3
  have hf' : o.m_zeroAreaStart - o.m_start = f := by omega
  have hz' : o.m_zeroAreaEnd - o.m_zeroAreaStart = z := by omega
  have ht' : o.m_end - o.m_zeroAreaEnd = t := by omega
  have hle' : start + n ≤ f + z + t := by omega
  have hend : o.m_zeroAreaEnd = o.m_start + (f + z) := by omega
  rw [hf, Nat.add_sub_add_left] at hn₁
  rw [hend, Nat.add_assoc, Nat.add_sub_add_left] at hn₂
  rw [drop_bytes, List.take_append, List.take_append, take_slice, take_slice, List.take_replicate,
    length_slice, List.length_replicate, hf', hz', ht', hf]
  clear h1 h2 h3 hf hz ht hf' hz' ht' hend hle
  rcases Nat.le_total n (f - start) with hall | hall
  · -- what is taken ends before the zero area
    rw [Nat.min_eq_left hall] at hn₁
    rw [hn₁, Nat.sub_self, Nat.zero_min] at hn₂
    rw [hn₁, hn₂, Nat.sub_self] at hn₃
    rw [hn₁, hn₂, hn₃, Nat.min_eq_left hall, Nat.sub_eq_zero_of_le hall, Nat.zero_min, Nat.zero_sub,
      Nat.zero_sub, Nat.zero_min, slice_zero, slice_zero]
  · -- it goes on in it
    rw [Nat.min_eq_right hall] at hn₁
    apply bytes_eq_of_parts
    · rw [hn₁, Nat.min_eq_right hall]
    · exact fun _ => rfl
    · omega
    · omega
    · intro hne
      omega

/-- `Write` between two iterators of a Buffer on another block, where it writes at the right offset. -/
theorem writeBetween_eq {start stop : Nat} (ho : o.Ok h) (hlt : o.m_end < 2 ^ 32)
    (hle : start ≤ stop) (hstop : o.m_start + stop ≤ o.m_end) (hne : it.m_data ≠ o.m_data)
    (hsize : o.realEnd ≤ (h.blocks o.m_data).m_size)
    (hcheck : it.CheckNoZero it.m_current (it.m_current + (stop - start)))
    (hin : stop = start ∨ it.m_current + (stop - start) ≤ (h.blocks it.m_data).m_size)
    (hmax : it.m_current + (stop - start) < 2 ^ 32) :
    it.writeBetween h (o.iterator (o.m_start + start)) (o.iterator (o.m_start + stop)) =
      .ok (h.wrote it.m_data it.m_current (((o.bytes h).drop start).take (stop - start)),
        it.next (stop - start)) := by
  have h1 := ho.start_le
  have h2 := ho.zero_le
  have h3 := ho.end_le
  rw [realEnd] at hsize
  have hn : sub32 (o.iterator (o.m_start + stop)).m_current (o.iterator (o.m_start + start)).m_current =
      stop - start := by
    change sub32 (o.m_start + stop) (o.m_start + start) = _
    rw [sub32_eq (Nat.add_le_add_left hle _) (by omega)]
    omega
  have hcheck' : it.CheckNoZero it.m_current (add32 it.m_current
      (sub32 (o.iterator (o.m_start + stop)).m_current (o.iterator (o.m_start + start)).m_current)) := by
    rw [hn, add32_eq hmax]
    exact hcheck
  simp only [Iterator.writeBetween, Buffer.ite_min]
  rw [Iterator.assert_eq ⟨rfl, Nat.add_le_add_left hle _, rfl, rfl, hne⟩, Iterator.assert_eq hcheck', hn]
  dsimp only [iterator, Except.bind]
  rw [sub32_eq h2 (by omega)]
  generalize hn₁ : min (stop - start) (o.m_zeroAreaStart - (o.m_start + start)) = n₁
  rw [add32_eq (a := o.m_start + start) (by omega), add32_eq (a := it.m_current) (by omega)]
  generalize hn₂ : min (stop - start - n₁) (o.m_zeroAreaEnd - (o.m_start + start + n₁)) = n₂
  rw [add32_eq (a := o.m_start + start + n₁) (by omega), add32_eq (a := it.m_current + n₁) (by omega),
    sub32_eq (a := o.m_end) (by omega) hlt]
  generalize hn₃ : min (stop - start - n₁ - n₂) (o.m_end - (o.m_start + start + n₁ + n₂)) = n₃
  replace hn₃ : n₃ = stop - start - n₁ - n₂ := by omega
  rw [← Buffer.take_drop_bytes h o h1 h2 h3 (by omega) hn₁.symm hn₂.symm hn₃]
  have hread₁ : h.read o.m_data (o.m_start + start) n₁ =
      .ok (slice (h.blocks o.m_data).m_data (o.m_start + start) n₁) :=
    if_pos (by omega)
  rw [hread₁]
  dsimp only
  generalize hp₁ : slice (h.blocks o.m_data).m_data (o.m_start + start) n₁ = p₁
  have hlen₁ : p₁.length = n₁ := by rw [← hp₁, length_slice]
  have hwrite₁ : h.write it.m_data it.m_current p₁ = .ok (h.wrote it.m_data it.m_current p₁) :=
    if_pos (by omega)
  rw [hwrite₁]
  dsimp only
  have hlen₂ : (List.replicate n₂ (0 : UInt8)).length = n₂ := List.length_replicate ..
  generalize List.replicate n₂ (0 : UInt8) = p₂ at *
  have hsize' := fun p => (Data.shape_inj (h.wrote_shape it.m_data it.m_current p it.m_data).1).1
  have hwrite₂ : (h.wrote it.m_data it.m_current p₁).write it.m_data (it.m_current + n₁) p₂ =
      .ok ((h.wrote it.m_data it.m_current p₁).wrote it.m_data (it.m_current + n₁) p₂) :=
    if_pos (by
      rw [hsize']
      omega)
  rw [hwrite₂, ← hlen₁, Heap.wrote_append]
  dsimp only
  have hread₃ : (h.wrote it.m_data it.m_current (p₁ ++ p₂)).read o.m_data
      (sub32 (o.m_start + start + p₁.length + n₂) (o.m_zeroAreaEnd - o.m_zeroAreaStart)) n₃ =
      .ok (slice (h.blocks o.m_data).m_data
        (o.m_start + start + p₁.length + n₂ - (o.m_zeroAreaEnd - o.m_zeroAreaStart)) n₃) := by
    rw [Heap.read, Heap.wrote_ne h _ _ (Ne.symm hne)]
    by_cases hzero : n₃ = 0
    · rw [if_pos (.inl hzero), hzero, slice_zero, slice_zero]
    · rw [sub32_eq (by omega) (by omega), if_pos (.inr (by omega))]
  rw [hread₃]
  dsimp only
  generalize hp₃ : slice (h.blocks o.m_data).m_data
    (o.m_start + start + p₁.length + n₂ - (o.m_zeroAreaEnd - o.m_zeroAreaStart)) n₃ = p₃
  have hlen₃ : p₃.length = n₃ := by rw [← hp₃, length_slice]
  have hoff : it.m_current + p₁.length + n₂ = it.m_current + (p₁ ++ p₂).length := by
    rw [List.length_append]
    omega
  have hwrite₃ : (h.wrote it.m_data it.m_current (p₁ ++ p₂)).write it.m_data
      (it.m_current + (p₁ ++ p₂).length) p₃ = .ok ((h.wrote it.m_data it.m_current (p₁ ++ p₂)).wrote
        it.m_data (it.m_current + (p₁ ++ p₂).length) p₃) :=
    if_pos (by
      rw [hsize', List.length_append]
      omega)
  rw [hoff, hwrite₃, Heap.wrote_append, ← hoff, add32_eq (by omega), List.append_assoc]
  have hcur : it.m_current + p₁.length + n₂ + n₃ = it.m_current + (stop - start) := by omega
  rw [hcur]
  rfl

end Between

/-! ### Pieces -/

/-- The bytes of a piece, where `c` are the bytes of each object. -/
def Piece.bytes (c : Nat → List UInt8) : Piece → List UInt8
  | write p => p
  | writeU8 data => [data]
  | writeU8s data len => List.replicate len data
  | writeBetween j start stop => ((c j).drop start).take (stop - start)

/-- A piece takes bytes that a Buffer on another block has, and is written at the right offset:
`plain` says that offsets are those of the block. -/
def Piece.Fine (s : Buffers) (h : Heap) (live : List Buffer) (b : Buffer) (plain : Prop)
    (c : Nat → List UInt8) : Piece → Prop
  | writeBetween j start stop => ∃ o, s.get j = .ok o ∧ o ∈ live ∧ o.m_data ≠ b.m_data ∧
      o.bytes h = c j ∧ start ≤ stop ∧ stop ≤ (c j).length ∧ (plain ∨ stop = start)
  | _ => True

section Pieces

variable {s : Buffers} {it : Iterator} {off : Nat} {plain : Prop} {c : Nat → List UInt8} {piece : Piece}

/-- The iterator before the first of two pieces, and before the second. -/
theorem Buffer.Spot.split {k l : Nat} (hz : b.m_zeroAreaStart ≤ b.m_zeroAreaEnd) (hs : b.Spot it off (k + l)) :
    b.Spot it off k ∧ b.Spot (it.next k) (off + k) l := by
  obtain ⟨hit, hstart, hspot⟩ := hs
  refine ⟨⟨hit, hstart, by omega⟩, ?_, Nat.le_trans hstart (Nat.le_add_right _ _), ?_⟩
  · rw [hit]
    rfl
  · change it.m_current + k + l ≤ b.m_zeroAreaStart ∧ off + k = it.m_current + k ∨
      b.m_zeroAreaEnd ≤ it.m_current + k ∧ it.m_current + k + l ≤ b.m_end ∧
        off + k = it.m_current + k - (b.m_zeroAreaEnd - b.m_zeroAreaStart)
    omega

theorem writePiece_eq (hi : h.Inv [] (b :: live)) (hs : b.Spot it off piece.length)
    (hin : off + piece.length ≤ (h.blocks b.m_data).m_size) (hplain : plain → off = it.m_current)
    (hfine : piece.Fine s h live b plain c) :
    s.writePiece h it piece = .ok (h.wrote b.m_data off (piece.bytes c), it.next piece.length) ∧
      (piece.bytes c).length = piece.length := by
  have hb := hi.ok b List.mem_cons_self
  have hend := (hi.end_lt (b := b) List.mem_cons_self).2.2
  cases piece with
  | write p => exact ⟨Spot.write hb.zero_le hb.end_le hend hs hin, rfl⟩
  | writeU8 data => exact ⟨Spot.writeU8 hb.zero_le hb.end_le hend hs hin, rfl⟩
  | writeU8s data len =>
    exact ⟨Spot.writeU8s hb.zero_le hb.end_le hend hs hin, List.length_replicate ..⟩
  | writeBetween j start stop =>
    obtain ⟨o, hget, ho, hne, hbytes, hle, hstop, hor⟩ := hfine
    have hok := hi.ok o (List.mem_cons_of_mem b ho)
    have h1 := hok.start_le
    have h2 := hok.zero_le
    have h3 := hok.end_le
    have hlt := (hi.end_lt (List.mem_cons_of_mem b ho)).2.2
    rw [← hbytes] at hstop
    have hlen := hstop
    rw [length_bytes h1 h2 h3] at hstop
    have hdata : it.m_data = b.m_data := by
      rw [hs.it_eq]
      rfl
    have hspot := hs.spot
    have hzle := hb.zero_le
    have heq : s.writePiece h it (.writeBetween j start stop) = it.writeBetween h
        (o.iterator (o.m_start + start)) (o.iterator (o.m_start + stop)) := by
      rw [Buffers.writePiece, hget, ← beginNext_eq (by omega), ← beginNext_eq (by omega)]
      rfl
    have hlenc : ((c j).drop start).length = (o.bytes h).length - start := by
      rw [List.length_drop, hbytes]
    refine ⟨?_, ?_⟩
    · change off + (stop - start) ≤ _ at hin
      change it.m_current + (stop - start) ≤ _ ∧ _ ∨ _ ∧ it.m_current + (stop - start) ≤ _ ∧ _ at hspot
      have hcheck := (Spot.checkNoZero hb.zero_le hb.end_le hend hs).2
      have hmax : it.m_current + (stop - start) < 2 ^ 32 := by
        have := hb.end_le
        omega
      have hin' : stop = start ∨ it.m_current + (stop - start) ≤ (h.blocks it.m_data).m_size := by
        rw [hdata]
        rcases hor with hp | hsame
        · have := hplain hp
          omega
        · exact .inl hsame
      rw [heq, writeBetween_eq hok hlt hle (by omega) (hdata ▸ hne.symm) hok.inside hcheck hin' hmax,
        hdata, hbytes]
      rcases hor with hp | hsame
      · rw [hplain hp]
        rfl
      · -- nothing is written
        have hnil : ((c j).drop start).take (stop - start) = [] := by
          rw [hsame, Nat.sub_self, List.take_zero]
        rw [hnil, Heap.wrote_nil]
        change _ = Except.ok (h.wrote b.m_data off (((c j).drop start).take (stop - start)), _)
        rw [hnil, Heap.wrote_nil]
        rfl
    · change (((c j).drop start).take (stop - start)).length = stop - start
      rw [List.length_take, hlenc]
      omega

theorem Piece.total_cons (piece : Piece) (pieces : List Piece) :
    Piece.total (piece :: pieces) = piece.length + Piece.total pieces := by
  rw [Piece.total, Piece.total, List.map_cons, List.sum_cons]

/-- All pieces are written where there is room for them. -/
theorem writePieces_eq {pieces : List Piece} (hi : h.Inv [] (b :: live))
    (hs : b.Spot it off (Piece.total pieces))
    (hin : off + Piece.total pieces ≤ (h.blocks b.m_data).m_size)
    (hun : Heap.Unseen live b.m_data off (Piece.total pieces)) (hplain : plain → off = it.m_current)
    (hfine : ∀ piece ∈ pieces, piece.Fine s h live b plain c) :
    s.writePieces h it pieces = .ok (h.wrote b.m_data off (pieces.flatMap (Piece.bytes c))) ∧
      (pieces.flatMap (Piece.bytes c)).length = Piece.total pieces := by
  induction pieces generalizing h it off with
  | nil =>
    rw [Buffers.writePieces, List.flatMap_nil, Heap.wrote_nil]
    exact ⟨rfl, rfl⟩
  | cons piece pieces ih =>
    rw [Piece.total_cons] at hs hin hun
    obtain ⟨hs₁, hs₂⟩ := hs.split (hi.ok b List.mem_cons_self).zero_le
    obtain ⟨heq, hlen⟩ := writePiece_eq hi hs₁ (by omega) hplain (hfine piece List.mem_cons_self)
    have hkeeps : h.Keeps (h.wrote b.m_data off (piece.bytes c)) live := hi.drop.keeps_wrote
      fun o ho hdata => (hun o ho hdata).imp (fun _ => by omega) id
    have hfine' : ∀ p ∈ pieces, p.Fine s (h.wrote b.m_data off (piece.bytes c)) live b plain c := by
      intro p hp
      have := hfine p (List.mem_cons_of_mem piece hp)
      cases p with
      | writeBetween j start stop =>
        obtain ⟨o, hget, ho, hne, hrest⟩ := this
        refine ⟨o, hget, ho, hne, ?_⟩
        rw [hkeeps o ho]
        exact hrest
      | _ => exact trivial
    obtain ⟨heq', hlen'⟩ := ih (hi.wrote b.m_data off (piece.bytes c)) hs₂
      (by rw [(Data.shape_inj (h.wrote_shape _ _ _ _).1).1]; omega)
      (fun o ho hdata => (hun o ho hdata).imp (fun _ => by omega) fun _ => by omega)
      (fun hp => congrArg (· + piece.length) (hplain hp)) hfine'
    rw [Buffers.writePieces, heq, List.flatMap_cons, List.length_append, hlen, hlen', Piece.total_cons]
    refine ⟨?_, rfl⟩
    rw [← Heap.wrote_append, hlen]
    exact heq'

end Pieces

end Ns3.Network
