import Ns3.Network.BufferWrite

/-!
# Copies of Buffers

What is written to the bytes that a Buffer grew by, and the methods made of growing and writing.
-/

namespace Ns3.Network

open Ns3.Lib Buffer

variable {h h' : Heap} {b b' o : Buffer} {live : List Buffer} {n : Nat} {p : List UInt8}

/-! ### Bytes that were added -/

theorem Heap.GrownStart.spot (hg : h.GrownStart h' live b b' n) :
    b'.Spot (b'.beginNext 0) b'.m_start n := by
  have hend := hg.inv.end_lt (b := b') List.mem_cons_self
  have heq : b'.beginNext 0 = b'.iterator b'.m_start := beginNext_eq (by omega)
  rw [heq]
  exact ⟨rfl, Nat.le_refl _, .inl ⟨hg.room, rfl⟩⟩

theorem Heap.GrownStart.inside (hg : h.GrownStart h' live b b' n) :
    b'.m_start + n ≤ (h'.blocks b'.m_data).m_size := by
  have hok := hg.inv.ok b' List.mem_cons_self
  exact Nat.le_trans hg.room (Nat.le_trans hok.start_le_realEnd hok.inside)

/-- Bytes are written to those that were added at the start. -/
theorem Heap.GrownStart.wrote (hg : h.GrownStart h' live b b' n) (hp : p.length = n) :
    h.Made (h'.wrote b'.m_data b'.m_start p) live b' (p ++ b.bytes h) := by
  have hok := hg.inv.ok b' List.mem_cons_self
  refine ⟨hg.inv.wrote _ _ _, hg.keeps.trans (hg.inv.drop.keeps_wrote (hp ▸ hg.unseen)), ?_⟩
  rw [bytes_start hg.room, Heap.wrote_data, ← hp, slice_patch, ← hg.rest]
  congr 1
  rw [hp]
  exact wrote_bytes (b := { b' with m_start := b'.m_start + n }) hg.room hok.zero_le hok.end_le
    fun _ => .inl (Nat.le_of_eq (congrArg _ hp))

theorem Heap.GrownEnd.spot (hg : h.GrownEnd h' live b b' n) :
    b'.Spot (b'.endPrev n) (b'.realEnd - n) n := by
  have hend := hg.inv.end_lt (b := b') List.mem_cons_self
  have hok := hg.inv.ok b' List.mem_cons_self
  have hroom := hg.room
  have hz := hok.zero_le
  have hstart := hok.start_le
  rw [endPrev_eq (by omega) (by omega)]
  refine ⟨rfl, ?_, .inr ⟨?_, ?_, ?_⟩⟩
  · change b'.m_start ≤ b'.m_end - n
    omega
  · change b'.m_zeroAreaEnd ≤ b'.m_end - n
    omega
  · change b'.m_end - n + n ≤ b'.m_end
    omega
  · change b'.realEnd - n = b'.m_end - n - _
    rw [realEnd]
    omega

theorem Heap.GrownEnd.inside (hg : h.GrownEnd h' live b b' n) :
    b'.realEnd - n + n ≤ (h'.blocks b'.m_data).m_size := by
  have hok := hg.inv.ok b' List.mem_cons_self
  have hroom := hg.room
  have hz := hok.zero_le
  have hin : b'.realEnd ≤ (h'.blocks b'.m_data).m_size := hok.inside
  have hle : n ≤ b'.realEnd := by
    rw [realEnd]
    omega
  rw [Nat.sub_add_cancel hle]
  exact hin

/-- Bytes are written to those that were added at the end. -/
theorem Heap.GrownEnd.wrote (hg : h.GrownEnd h' live b b' n) (hp : p.length = n) :
    h.Made (h'.wrote b'.m_data (b'.realEnd - n) p) live b' (b.bytes h ++ p) := by
  have hok := hg.inv.ok b' List.mem_cons_self
  have hroom := hg.room
  refine ⟨hg.inv.wrote _ _ _, hg.keeps.trans (hg.inv.drop.keeps_wrote (hp ▸ hg.unseen)), ?_⟩
  rw [bytes_end hok.zero_le hg.room, Heap.wrote_data, ← hg.rest]
  congr 1
  · refine wrote_bytes (b := { b' with m_end := b'.m_end - n }) hok.start_le hok.zero_le
      (Nat.le_sub_of_add_le hg.room) fun _ => .inr ?_
    simp only [realEnd]
    omega
  · rw [← hp, slice_patch]

/-- The zero area of a Buffer is empty. -/
def Buffer.Plain (b : Buffer) : Prop := b.m_zeroAreaStart = b.m_zeroAreaEnd

theorem Heap.GrownStart.plain (hg : h.GrownStart h' live b b' n) (hb : b.Plain) : b'.Plain := by
  have hzero := hg.zero
  have hz := (hg.inv.ok b' List.mem_cons_self).zero_le
  rw [Plain] at hb ⊢
  omega

theorem Heap.GrownEnd.plain (hg : h.GrownEnd h' live b b' n) (hb : b.Plain) : b'.Plain := by
  have hzero := hg.zero
  have hz := (hg.inv.ok b' List.mem_cons_self).zero_le
  rw [Plain] at hb ⊢
  omega

/-- A Buffer that was on a block of its own still is. -/
theorem Heap.GrownStart.own (hg : h.GrownStart h' live b b' n) (hb : ∀ c ∈ live, c.m_data ≠ b.m_data) :
    ∀ c ∈ live, c.m_data ≠ b'.m_data := by
  rcases hg.place with ⟨heq, -⟩ | hown
  · rw [heq]
    exact hb
  · exact hown

theorem Heap.GrownEnd.own (hg : h.GrownEnd h' live b b' n) (hb : ∀ c ∈ live, c.m_data ≠ b.m_data) :
    ∀ c ∈ live, c.m_data ≠ b'.m_data := by
  rcases hg.place with ⟨heq, -⟩ | hown
  · rw [heq]
    exact hb
  · exact hown

/-! ### Copies -/

theorem Heap.Made.after {h₁ : Heap} (hk : h.Keeps h₁ live) (hm : h₁.Made h' live b p) :
    h.Made h' live b p :=
  ⟨hm.inv, hk.trans hm.keeps, hm.bytes⟩

/-- A Buffer that reads the same reads the same on both sides of its zero area. -/
theorem parts_eq (heq : b.bytes h' = b.bytes h) :
    slice (h'.blocks b.m_data).m_data b.m_start (b.m_zeroAreaStart - b.m_start) =
        slice (h.blocks b.m_data).m_data b.m_start (b.m_zeroAreaStart - b.m_start) ∧
      slice (h'.blocks b.m_data).m_data b.m_zeroAreaStart (b.m_end - b.m_zeroAreaEnd) =
        slice (h.blocks b.m_data).m_data b.m_zeroAreaStart (b.m_end - b.m_zeroAreaEnd) := by
  rw [bytes, bytes] at heq
  have hsplit := List.append_inj heq (by rw [length_slice, length_slice])
  exact ⟨hsplit.1, List.append_cancel_left hsplit.2⟩

/-- The bytes on both sides of the zero area of a Buffer that keeps them. -/
theorem read_parts {held : List Nat} (hk : h.Keeps h' live) (hi : h'.Inv held live) (hb : b ∈ live) :
    h'.read b.m_data b.m_start (b.m_zeroAreaStart - b.m_start) =
        .ok (slice (h.blocks b.m_data).m_data b.m_start (b.m_zeroAreaStart - b.m_start)) ∧
      h'.read b.m_data b.m_zeroAreaStart (b.m_end - b.m_zeroAreaEnd) =
        .ok (slice (h.blocks b.m_data).m_data b.m_zeroAreaStart (b.m_end - b.m_zeroAreaEnd)) := by
  have hok := hi.ok b hb
  have h1 := hok.start_le
  have h2 := hok.zero_le
  have h3 := hok.end_le
  have hin := hok.inside
  obtain ⟨hfront, hback⟩ := parts_eq (hk b hb)
  rw [Heap.read_eq (by omega), Heap.read_eq (by omega), hfront, hback]
  exact ⟨rfl, rfl⟩

theorem createFullCopy_made (hi : h.Inv [] live) (hb : b ∈ live) :
    ∃ h' tmp, b.createFullCopy h = .ok (h', tmp) ∧ h.Made h' live tmp (b.bytes h) ∧ tmp.Plain ∧
      (b.Plain ∧ (h', tmp) = b.copy h ∨ ∀ c ∈ live, c.m_data ≠ tmp.m_data) := by
  have hok := hi.ok b hb
  have h1 := hok.start_le
  have h2 := hok.zero_le
  have h3 := hok.end_le
  have hsize := hok.size_lt
  have hend := hi.end_lt hb
  rw [createFullCopy, sub32_eq h2 (by omega), sub32_eq h1 (by omega), sub32_eq h3 hend.2.2]
  dsimp only
  split
  · next hzero =>
    generalize hz : b.m_zeroAreaEnd - b.m_zeroAreaStart = z at *
    obtain ⟨hm₁, hs₁, he₁, hown₁⟩ := initializeZeroes_made (n := 0) hi (by decide)
    generalize initializeZeroes h 0 = r at *
    obtain ⟨h₁, t₁⟩ := r
    dsimp only at *
    have hok₁ := hm₁.inv.ok t₁ List.mem_cons_self
    have hlen₁ := congrArg List.length hm₁.bytes
    have hplain₁ : t₁.Plain := by
      rw [length_bytes hok₁.start_le hok₁.zero_le hok₁.end_le, List.length_replicate] at hlen₁
      have := hok₁.zero_le
      have := hok₁.end_le
      rw [Plain]
      omega
    -- the zeroes
    obtain ⟨h₂, t₂, heq₂, hg₂⟩ := addAtStart_grown hm₁.inv (n := z)
      (by rw [hlen₁, List.length_replicate]; omega)
    have hok₂ := hg₂.inv.ok t₂ List.mem_cons_self
    have hend₂ := (hg₂.inv.end_lt (b := t₂) List.mem_cons_self).2.2
    have hm₂ := hg₂.wrote (p := List.replicate z 0) List.length_replicate
    rw [hm₁.bytes, List.replicate_zero, List.append_nil] at hm₂
    have hlen₂ := congrArg List.length hm₂.bytes
    rw [List.length_replicate] at hlen₂
    -- the bytes before them
    obtain ⟨h₃, t₃, heq₃, hg₃⟩ := addAtStart_grown hm₂.inv (n := b.m_zeroAreaStart - b.m_start)
      (by rw [hlen₂]; omega)
    have hok₃ := hg₃.inv.ok t₃ List.mem_cons_self
    have hend₃ := (hg₃.inv.end_lt (b := t₃) List.mem_cons_self).2.2
    have hk₃ : h.Keeps h₃ live := (hm₁.keeps.trans hm₂.keeps).trans hg₃.keeps
    have hread₃ := (read_parts hk₃ hg₃.inv.drop hb).1
    generalize hp : slice (h.blocks b.m_data).m_data b.m_start (b.m_zeroAreaStart - b.m_start) = p
      at hread₃
    have hlenp : p.length = b.m_zeroAreaStart - b.m_start := by rw [← hp, length_slice]
    have hm₃ := hg₃.wrote hlenp
    rw [hm₂.bytes] at hm₃
    have hlen₃ := congrArg List.length hm₃.bytes
    rw [List.length_append, List.length_replicate, hlenp] at hlen₃
    -- the bytes behind them
    obtain ⟨h₄, t₄, heq₄, hg₄⟩ := addAtEnd_grown hm₃.inv (n := b.m_end - b.m_zeroAreaEnd)
      (by rw [hlen₃]; omega)
    have hok₄ := hg₄.inv.ok t₄ List.mem_cons_self
    have hend₄ := (hg₄.inv.end_lt (b := t₄) List.mem_cons_self).2.2
    have hk₄ : h.Keeps h₄ live :=
      ((hm₁.keeps.trans hm₂.keeps).trans hm₃.keeps).trans hg₄.keeps
    have hread₄ := (read_parts hk₄ hg₄.inv.drop hb).2
    generalize hq : slice (h.blocks b.m_data).m_data b.m_zeroAreaStart (b.m_end - b.m_zeroAreaEnd) = q
      at hread₄
    have hlenq : q.length = b.m_end - b.m_zeroAreaEnd := by rw [← hq, length_slice]
    have hm₄ := hg₄.wrote hlenq
    rw [hm₃.bytes] at hm₄
    have hbytes : b.bytes h = p ++ List.replicate z 0 ++ q := by
      rw [bytes, hp, hq, hz, List.append_assoc]
    refine ⟨_, t₄, ?_, .after ((hm₁.keeps.trans hm₂.keeps).trans hm₃.keeps) (hbytes ▸ hm₄),
      hg₄.plain (hg₃.plain (hg₂.plain hplain₁)), .inr (hg₄.own (hg₃.own (hg₂.own hown₁)))⟩
    rw [heq₂]
    change Except.bind ((t₂.beginNext 0).writeU8s h₂ 0 z) _ = _
    rw [Spot.writeU8s hok₂.zero_le hok₂.end_le hend₂ hg₂.spot hg₂.inside]
    change Except.bind (t₂.addAtStart (h₂.wrote _ _ _) _) _ = _
    rw [heq₃]
    change Except.bind (h₃.read _ _ _) _ = _
    rw [hread₃]
    change Except.bind ((t₃.beginNext 0).write h₃ p) _ = _
    rw [Spot.write hok₃.zero_le hok₃.end_le hend₃ (hlenp ▸ hg₃.spot) (hlenp ▸ hg₃.inside)]
    change Except.bind (t₃.addAtEnd (h₃.wrote _ _ _) _) _ = _
    rw [heq₄]
    change Except.bind (h₄.read _ _ _) _ = _
    rw [hread₄]
    change Except.map _ ((t₄.endPrev _).write h₄ q) = _
    rw [← hlenq, Spot.write hok₄.zero_le hok₄.end_le hend₄ (hlenq ▸ hg₄.spot) (hlenq ▸ hg₄.inside)]
    rfl
  · next hzero =>
    have hplain : b.Plain := by
      rw [Plain]
      omega
    exact ⟨_, _, rfl, copy_made hi hb, hplain, .inl ⟨hplain, rfl⟩⟩

/-! A copy, an assignment and a destruction change no shape of a block. -/

theorem copy_shape (h : Heap) (b : Buffer) (j : Nat) :
    ((b.copy h).1.blocks j).shape = (h.blocks j).shape := (Heap.set_count ..).1

theorem assign_shape (h : Heap) (b o : Buffer) (j : Nat) :
    ((b.assign h o).1.blocks j).shape = (h.blocks j).shape := by
  rw [assign]
  by_cases heq : b.m_data = o.m_data
  · rw [if_neg (not_not.mpr heq)]
  · rw [if_pos heq]
    exact (Heap.set_count ..).1.trans (Heap.release_blocks ..).1

theorem destroy_shape (h : Heap) (b : Buffer) (j : Nat) :
    ((b.destroy h).blocks j).shape = (h.blocks j).shape := (Heap.release_blocks ..).1

theorem transformIntoRealBuffer_made (hi : h.Inv [] (b :: live)) :
    ∃ h' b', b.transformIntoRealBuffer h = .ok (h', b') ∧ h.Made h' live b' (b.bytes h) ∧ b'.Plain ∧
      (b.Plain ∧ b'.m_data = b.m_data ∧ (∀ n, b'.FitsEnd h' n → b.FitsEnd h n) ∨
        ∀ c ∈ live, c.m_data ≠ b'.m_data) := by
  obtain ⟨h₁, tmp, heq, hm₁, hplain, hor⟩ := createFullCopy_made hi (b := b) List.mem_cons_self
  have hm₂ := assign_made (hm₁.inv.perm (.swap b tmp live)) (o := tmp) List.mem_cons_self
  rw [hm₁.bytes] at hm₂
  have heq₂ : (b.assign h₁ tmp).2 = tmp := rfl
  rw [heq₂] at hm₂
  obtain ⟨hi₃, hk₃⟩ := destroy_inv (hm₂.inv.perm (.swap tmp tmp live))
  have hk₁ : h.Keeps h₁ live := fun c hc => hm₁.keeps c (List.mem_cons_of_mem b hc)
  have hk₂ : h₁.Keeps (b.assign h₁ tmp).1 live := fun c hc => hm₂.keeps c (List.mem_cons_of_mem tmp hc)
  refine ⟨_, _, by rw [transformIntoRealBuffer, heq]; rfl, ⟨hi₃, ?_, ?_⟩, hplain, ?_⟩
  · exact (hk₁.trans hk₂).trans fun c hc => hk₃ c (List.mem_cons_of_mem tmp hc)
  · exact (hk₃ tmp List.mem_cons_self).trans hm₂.bytes
  · rcases hor with ⟨hb, hcopy⟩ | hown
    · have hshape := (destroy_shape (b.assign h₁ tmp).1 tmp b.m_data).trans
        ((assign_shape h₁ b tmp b.m_data).trans (congrArg Prod.fst hcopy ▸ copy_shape h b b.m_data))
      obtain rfl : tmp = (b.copy h).2 := congrArg Prod.snd hcopy
      refine .inl ⟨hb, rfl, fun n hfits => ?_⟩
      -- the block counts what it counted
      have hcount := hi₃.count b.m_data
      have hcount' := hi.count b.m_data
      rw [List.countP_cons_of_pos (by exact decide_eq_true rfl)] at hcount hcount'
      obtain ⟨hsize, -, hend⟩ := Data.shape_inj hshape
      obtain ⟨hfit, hdirty⟩ := hfits
      change _ ≤ (Heap.blocks _ b.m_data).m_size at hfit
      change ¬ (1 < (Heap.blocks _ b.m_data).m_count ∧ _ < (Heap.blocks _ b.m_data).m_dirtyEnd)
        at hdirty
      rw [hsize] at hfit
      rw [hend, hcount, ← hcount'] at hdirty
      exact ⟨hfit, hdirty⟩
    · exact .inr fun c hc => hown c (List.mem_cons_of_mem b hc)

/-- What `RemoveAtStart` and `RemoveAtEnd` leave of a copy. -/
theorem createFragment_made (hi : h.Inv [] live) (hb : b ∈ live) {start : Nat} (length : Nat)
    (hstart : b.m_start + start < 2 ^ 32) :
    h.Made (b.createFragment h start length).1 live (b.createFragment h start length).2
      (((b.bytes h).drop start).take
        (((b.bytes h).drop start).length - sub32 b.getSize (add32 start length))) := by
  have hm₁ := copy_made hi hb
  have hm₂ := removeAtStart_made hm₁.inv (n := start) hstart
  have hm₃ := removeAtEnd_made hm₂.inv (sub32 b.getSize (add32 start length))
  rw [hm₂.bytes, hm₁.bytes] at hm₃
  exact .after hm₁.keeps hm₃

/-- `CopyData` reads the bytes of a Buffer. -/
theorem copyData_eq (hi : h.Inv [] live) (hb : b ∈ live) (size : Nat) :
    b.copyData h size = .ok ((b.bytes h).take size) := by
  have hok := hi.ok b hb
  have h1 := hok.start_le
  have h2 := hok.zero_le
  have h3 := hok.end_le
  have hin := hok.inside
  have hend := hi.end_lt hb
  rw [copyData, sub32_eq h1 (by omega), sub32_eq h2 (by omega), sub32_eq h3 hend.2.2, take_bytes]
  dsimp only
  rw [Heap.read_eq (by omega)]
  dsimp only [Except.bind]
  rw [Heap.read_eq (by omega)]
  dsimp only [Except.map]
  rw [List.append_assoc]
  congr 1
  apply bytes_eq_of_parts
  · exact Nat.min_comm _ _
  · exact fun _ => rfl
  all_goals omega

/-! ### A Buffer at the end of another -/

/-- `AddAtEnd` takes the zero areas of two Buffers for adjacent. -/
def Buffer.Adjacent (h : Heap) (b o : Buffer) : Prop :=
  (h.blocks b.m_data).m_count = 1 ∧ (b.m_end = b.m_zeroAreaEnd ∨ b.m_zeroAreaStart = b.m_zeroAreaEnd) ∧
    b.m_end = (h.blocks b.m_data).m_dirtyEnd ∧ o.m_start = o.m_zeroAreaStart ∧
    0 < sub32 o.m_zeroAreaEnd o.m_zeroAreaStart

/-- A Buffer with `n` zeroes in its zero area at its end. -/
def Buffer.joined (b : Buffer) (n : Nat) : Buffer :=
  { b with
    m_zeroAreaStart := if b.m_zeroAreaStart = b.m_zeroAreaEnd then b.m_end else b.m_zeroAreaStart
    m_zeroAreaEnd := b.m_end + n
    m_end := b.m_end + n }

theorem joined_made (hi : h.Inv [] (b :: live)) (hadj : b.Adjacent h o)
    (hn : (b.bytes h).length + n < 2 ^ 31) :
    h.Made (h.setDirty b.m_data (h.blocks b.m_data).m_dirtyStart (b.m_end + n)) live (b.joined n)
      (b.bytes h ++ List.replicate n 0) := by
  have hb := hi.ok b List.mem_cons_self
  have h1 := hb.start_le
  have h2 := hb.zero_le
  have h3 := hb.end_le
  have hin := hb.inside
  obtain ⟨hone, hor, -, -, -⟩ := hadj
  have halone := hi.alone hone
  rw [length_bytes h1 h2 h3] at hn
  have hstart : (b.joined n).m_start ≤ (b.joined n).m_zeroAreaStart := by
    simp only [joined]
    split
    · omega
    · exact h1
  have hzero : (b.joined n).m_zeroAreaStart ≤ (b.joined n).m_zeroAreaEnd := by
    simp only [joined]
    split
    · omega
    · omega
  refine ⟨(hi.drop.setDirty (fun c hc heq => absurd heq (halone c hc))
    fun c hc heq => absurd heq (halone c hc)).adopt (b := b.joined n)
      ⟨hstart, hzero, Nat.le_refl _, ?_, ?_, ?_, ?_⟩ fun c hc heq => absurd heq (halone c hc),
    Heap.keeps_of_data fun j => (h.setDirty_data _ _ _ j).1, ?_⟩
  · change ((h.setDirty b.m_data _ _).blocks b.m_data).m_dirtyStart ≤ _
    rw [Heap.setDirty, Heap.set_self]
    exact hb.dirtyStart_le
  · change _ ≤ ((h.setDirty b.m_data _ _).blocks b.m_data).m_dirtyEnd
    rw [Heap.setDirty, Heap.set_self]
    exact Nat.le_refl _
  · rw [(h.setDirty_data _ _ _ _).2.1]
    refine Nat.le_trans ?_ hin
    simp only [joined]
    split
    · omega
    · omega
  · simp only [joined]
    omega
  · rw [bytes, bytes, (h.setDirty_data _ _ _ _).1]
    simp only [joined, Nat.sub_self, slice_zero, List.append_nil]
    split
    · next hplain =>
      -- the bytes of the Buffer are all before its zeroes now
      have hlen : b.m_end - b.m_start = b.m_zeroAreaStart - b.m_start + (b.m_end - b.m_zeroAreaEnd) := by
        omega
      have hzs : b.m_start + (b.m_zeroAreaStart - b.m_start) = b.m_zeroAreaStart := by omega
      rw [Nat.add_sub_cancel_left, hlen, ← slice_append, hzs, ← hplain, Nat.sub_self,
        List.replicate_zero, List.nil_append]
    · next hplain =>
      have hend : b.m_end = b.m_zeroAreaEnd := hor.resolve_right hplain
      have hlen : b.m_end + n - b.m_zeroAreaStart = b.m_zeroAreaEnd - b.m_zeroAreaStart + n := by omega
      rw [hlen, hend, Nat.sub_self, slice_zero, List.append_nil, List.append_assoc,
        List.replicate_append_replicate]

/-- Where the zero areas are adjacent: they are joined and what lies behind them in the other Buffer
is written to bytes added at the end. -/
theorem addAtEndBuffer_adjacent (hi : h.Inv [] (b :: live)) (ho : o ∈ live) (hadj : b.Adjacent h o)
    (hn : (b.bytes h).length + (o.bytes h).length < 2 ^ 31) :
    ∃ h₁ b₁ h₂ b₂, h.Made h₁ live b₁
        (b.bytes h ++ List.replicate (o.m_zeroAreaEnd - o.m_zeroAreaStart) 0) ∧
      h₁.GrownEnd h₂ live b₁ b₂ (o.m_end - o.m_zeroAreaEnd) ∧ (∀ c ∈ live, c.m_data ≠ b₂.m_data) ∧
      b.addAtEndBuffer h o = ((b₂.endPrev (o.m_end - o.m_zeroAreaEnd)).writeBetween h₂
        (o.endPrev (o.m_end - o.m_zeroAreaEnd)) (o.endPrev 0)).map fun (h, _) => (h, b₂) := by
  have hok := hi.ok o (List.mem_cons_of_mem b ho)
  have h1 := hok.start_le
  have h2 := hok.zero_le
  have h3 := hok.end_le
  have hend := (hi.end_lt (List.mem_cons_of_mem b ho)).2.2
  have hb := hi.ok b List.mem_cons_self
  have hb1 := hb.start_le
  have hb2 := hb.zero_le
  have hb3 := hb.end_le
  have hbend := hi.end_lt (b := b) List.mem_cons_self
  rw [length_bytes h1 h2 h3] at hn
  have hm₁ := joined_made hi hadj (n := o.m_zeroAreaEnd - o.m_zeroAreaStart) (by omega)
  have hlen₁ := congrArg List.length hm₁.bytes
  rw [List.length_append, List.length_replicate] at hlen₁
  obtain ⟨h₂, b₂, heq₂, hg₂⟩ := addAtEnd_grown hm₁.inv (n := o.m_end - o.m_zeroAreaEnd)
    (by rw [hlen₁]; omega)
  refine ⟨_, _, h₂, b₂, hm₁, hg₂, hg₂.own (hi.alone hadj.1), ?_⟩
  have hlt : b.m_end + (o.m_zeroAreaEnd - o.m_zeroAreaStart) < 2 ^ 32 := by
    have := (hm₁.inv.end_lt (b := b.joined _) List.mem_cons_self).2.2
    exact this
  rw [Adjacent] at hadj
  rw [addAtEndBuffer]
  dsimp only
  rw [if_pos hadj, sub32_eq h2 (by omega), sub32_eq h3 hend, add32_eq hlt]
  change Except.bind ((b.joined (o.m_zeroAreaEnd - o.m_zeroAreaStart)).addAtEnd _ _) _ = _
  rw [heq₂]
  rfl

/-- Where they are not: all bytes of the other Buffer are written to bytes added at the end. -/
theorem addAtEndBuffer_apart (hi : h.Inv [] (b :: live)) (ho : o ∈ live) (hadj : ¬ b.Adjacent h o)
    (hn : (b.bytes h).length + (o.bytes h).length < 2 ^ 31) :
    ∃ h₁ b₁ h₂ b₂, h.Made h₁ live b₁ (b.bytes h) ∧ b₁.Plain ∧
      h₁.GrownEnd h₂ live b₁ b₂ (o.bytes h).length ∧
      (b.Plain ∧ b₂.m_data = b.m_data ∧ b.FitsEnd h (o.bytes h).length ∨
        ∀ c ∈ live, c.m_data ≠ b₂.m_data) ∧
      b.addAtEndBuffer h o = ((b₂.endPrev (o.bytes h).length).writeBetween h₂ (o.beginNext 0)
        (o.endPrev 0)).map fun (h, _) => (h, b₂) := by
  obtain ⟨h₁, b₁, heq₁, hm₁, hplain, hor⟩ := transformIntoRealBuffer_made hi
  obtain ⟨h₂, b₂, heq₂, hg₂⟩ := addAtEnd_grown hm₁.inv (n := (o.bytes h).length)
    (by rw [hm₁.bytes]; exact hn)
  refine ⟨h₁, b₁, h₂, b₂, hm₁, hplain, hg₂, ?_, ?_⟩
  · rcases hor with ⟨hb, hdata, hfits⟩ | hown
    · rcases hg₂.place with ⟨hdata₂, hfits₂⟩ | hown
      · exact .inl ⟨hb, hdata₂.trans hdata, hfits _ hfits₂⟩
      · exact .inr hown
    · exact .inr (hg₂.own hown)
  · rw [Adjacent] at hadj
    rw [addAtEndBuffer]
    dsimp only
    rw [if_neg hadj, heq₁, hi.getSize (List.mem_cons_of_mem b ho)]
    change Except.bind (b₁.addAtEnd h₁ _) _ = _
    rw [heq₂]
    rfl

/-- `AddAtEnd` appends a Buffer: where it joins the zero areas there is nothing to write behind them,
and where it does not, it does not grow in place in the block of the other. -/
def Buffer.Appends (h : Heap) (b o : Buffer) : Prop :=
  (b.Adjacent h o → o.m_end = o.m_zeroAreaEnd) ∧
    (¬ b.Adjacent h o → b.Plain → o.m_data = b.m_data → ¬ b.FitsEnd h o.getSize)

theorem addAtEndBuffer_made (hi : h.Inv [] (b :: live)) (ho : o ∈ live) (happ : b.Appends h o)
    (hn : (b.bytes h).length + (o.bytes h).length < 2 ^ 31) :
    ∃ h' b', b.addAtEndBuffer h o = .ok (h', b') ∧ h.Made h' live b' (b.bytes h ++ o.bytes h) := by
  have hok := hi.ok o (List.mem_cons_of_mem b ho)
  have h1 := hok.start_le
  have h2 := hok.zero_le
  have h3 := hok.end_le
  have hlt := (hi.end_lt (List.mem_cons_of_mem b ho)).2.2
  by_cases hadj : b.Adjacent h o
  · obtain ⟨h₁, b₁, h₂, b₂, hm₁, hg₂, hown, heq⟩ := addAtEndBuffer_adjacent hi ho hadj hn
    have hend := happ.1 hadj
    have hstart : o.m_start = o.m_zeroAreaStart := hadj.2.2.2.1
    have hm₂ := hg₂.wrote (p := []) (by rw [List.length_nil]; omega)
    have hok₂ := hg₂.inv.ok b₂ List.mem_cons_self
    have hlt₂ := (hg₂.inv.end_lt (b := b₂) List.mem_cons_self).2.2
    have hcheck := (Spot.checkNoZero hok₂.zero_le hok₂.end_le hlt₂ hg₂.spot).2
    have hspot := hg₂.spot
    rw [Heap.wrote_nil, hm₁.bytes, List.append_nil] at hm₂
    rw [hend, Nat.sub_self] at heq hcheck hspot
    have hit : o.endPrev 0 = o.iterator (o.m_start + (o.m_end - o.m_start)) := by
      rw [endPrev_eq (Nat.zero_le _) hlt, Nat.sub_zero, Nat.add_sub_cancel' (by omega)]
    have hbytes : o.bytes h = List.replicate (o.m_zeroAreaEnd - o.m_zeroAreaStart) 0 := by
      rw [bytes, hstart, hend, Nat.sub_self, Nat.sub_self, slice_zero, List.nil_append,
        List.append_nil]
    have hmax : (b₂.endPrev 0).m_current < 2 ^ 32 := by
      rw [endPrev_eq (Nat.zero_le _) hlt₂]
      exact Nat.lt_of_le_of_lt (Nat.sub_le _ _) hlt₂
    have hok' := hg₂.inv.ok o (List.mem_cons_of_mem b₂ ho)
    refine ⟨h₂, b₂, ?_, .after hm₁.keeps (hbytes ▸ hm₂)⟩
    rw [heq, hit, writeBetween_eq hok' hlt (Nat.le_refl _) (by omega) (hown o ho).symm hok'.inside
      (by rw [Nat.sub_self]; exact hcheck) (.inl rfl) (by rw [Nat.sub_self, Nat.add_zero]; exact hmax), Nat.sub_self,
      List.take_zero, Heap.wrote_nil]
    rfl
  · obtain ⟨h₁, b₁, h₂, b₂, hm₁, hplain, hg₂, hor, heq⟩ := addAtEndBuffer_apart hi ho hadj hn
    have hsize := hi.getSize (List.mem_cons_of_mem b ho)
    have hne : b₂.m_data ≠ o.m_data := by
      rcases hor with ⟨hb, hdata, hfits⟩ | hown
      · intro hsame
        refine happ.2 hadj hb (hsame.symm.trans hdata) ?_
        rw [hsize]
        exact hfits
      · exact (hown o ho).symm
    have hok₂ := hg₂.inv.ok b₂ List.mem_cons_self
    have hlt₂ := (hg₂.inv.end_lt (b := b₂) List.mem_cons_self).2.2
    have hcheck := (Spot.checkNoZero hok₂.zero_le hok₂.end_le hlt₂ hg₂.spot).2
    have hinside := hg₂.inside
    have hm₂ := hg₂.wrote (p := o.bytes h) rfl
    rw [hm₁.bytes] at hm₂
    generalize hlen : (o.bytes h).length = n at *
    have hroom := hg₂.room
    have hlen' := hlen
    rw [length_bytes h1 h2 h3] at hlen'
    have hit : o.endPrev 0 = o.iterator (o.m_start + n) := by
      rw [endPrev_eq (Nat.zero_le _) hlt, Nat.sub_zero]
      congr 1
      omega
    have hit₀ : o.beginNext 0 = o.iterator (o.m_start + 0) := beginNext_eq (by omega)
    have hit₂ : b₂.endPrev n = b₂.iterator (b₂.m_end - n) := endPrev_eq (by omega) hlt₂
    -- offsets are those of the block
    have hoff : b₂.realEnd - n = b₂.m_end - n := by
      have hp := hg₂.plain hplain
      rw [Plain] at hp
      rw [realEnd, hp, Nat.sub_self, Nat.sub_zero]
    have hok' := hg₂.inv.ok o (List.mem_cons_of_mem b₂ ho)
    rw [hit₂] at hcheck heq
    rw [hoff] at hinside hm₂
    have hbytes : ((o.bytes h₂).drop 0).take (n - 0) = o.bytes h := by
      rw [(hm₁.keeps.trans hg₂.keeps) o ho, List.drop_zero, Nat.sub_zero, ← hlen, List.take_length]
    refine ⟨_, b₂, ?_, .after hm₁.keeps hm₂⟩
    rw [heq, hit, hit₀, writeBetween_eq hok' hlt (Nat.zero_le n) (by omega) hne hok'.inside
      (by rw [Nat.sub_zero]; exact hcheck) (.inr (by rw [Nat.sub_zero]; exact hinside)) (by
        change b₂.m_end - n + (n - 0) < _
        omega), hbytes]
    rfl

end Ns3.Network
