import Ns3.Tcp.RxStream

/-!
# The SACK blocks reported

The blocks of `m_sackList` report bytes the buffer has above `m_nextRxSeq`, at most four of
them, the first with the packet that arrived last. They are disjoint as long as no packet
swallows a stored one that is reported: `UpdateSackList` merges blocks that touch, not blocks
that overlap.
-/

namespace Ns3.Tcp

open Ns3.Network Ns3.Lib

/-- The SACK blocks at stream positions. -/
def sackBlocks (base : SequenceNumber32) (bs : List (Nat × Nat)) : List SackBlock :=
  bs.map fun b => ⟨base.advance b.1, base.advance b.2⟩

/-- Blocks that neither overlap nor touch. -/
def Separate (bs : List (Nat × Nat)) : Prop :=
  bs.Pairwise fun b b' => b.2 < b'.1 ∨ b'.2 < b.1

/-- Every block is a range of the positions `P`, all between `lo` and half the sequence space
behind it. -/
def Reports (P : Nat → Prop) (lo : Nat) (bs : List (Nat × Nat)) : Prop :=
  ∀ b ∈ bs, lo < b.1 ∧ b.1 < b.2 ∧ b.2 < lo + 2 ^ 31 ∧ ∀ p, b.1 ≤ p → p < b.2 → P p

section Merge

variable {base : SequenceNumber32} {lo f s : Nat} {bs : List (Nat × Nat)} {P : Nat → Prop}

/-- One pass over the list: no block touches, or one that does is taken out and merged. -/
theorem mergeTouching_blocks (base : SequenceNumber32) (hbs : Reports P lo bs) (hf : lo < f) (hfs : f < s)
    (hs : s < lo + 2 ^ 31) :
    mergeTouching ⟨base.advance f, base.advance s⟩ (sackBlocks base bs) = none ∧
        (∀ b ∈ bs, f ≠ b.2 ∧ s ≠ b.1) ∨
      ∃ cur others, bs.Perm (cur :: others) ∧
        (f = cur.2 ∧ mergeTouching ⟨base.advance f, base.advance s⟩ (sackBlocks base bs) =
            some (⟨base.advance cur.1, base.advance s⟩, sackBlocks base others) ∨
          s = cur.1 ∧ mergeTouching ⟨base.advance f, base.advance s⟩ (sackBlocks base bs) =
            some (⟨base.advance f, base.advance cur.2⟩, sackBlocks base others)) := by
  induction bs with
  | nil => exact .inl ⟨rfl, by simp⟩
  | cons b bs ih =>
    obtain ⟨hlo, hlt, hhi, -⟩ := hbs b (by simp)
    have h1 : base.advance f = base.advance b.2 ↔ f = b.2 :=
      SequenceNumber32.advance_inj (by omega) (by omega)
    have h2 : base.advance s = base.advance b.1 ↔ s = b.1 :=
      SequenceNumber32.advance_inj (by omega) (by omega)
    have hcons : sackBlocks base (b :: bs) =
        ⟨base.advance b.1, base.advance b.2⟩ :: sackBlocks base bs := rfl
    simp only [hcons, mergeTouching, h1, h2]
    by_cases hleft : f = b.2
    · rw [if_pos hleft]
      exact .inr ⟨b, bs, List.Perm.refl _, .inl ⟨hleft, rfl⟩⟩
    · rw [if_neg hleft]
      by_cases hright : s = b.1
      · rw [if_pos hright]
        exact .inr ⟨b, bs, List.Perm.refl _, .inr ⟨hright, rfl⟩⟩
      · rw [if_neg hright]
        rcases ih fun b' hb' => hbs b' (by simp [hb']) with
          ⟨heq, hnone⟩ | ⟨cur, others, hperm, hcur⟩
        · refine .inl ⟨by rw [heq]; rfl, fun b' hb' => ?_⟩
          rcases List.mem_cons.mp hb' with rfl | hb'
          · exact ⟨hleft, hright⟩
          · exact hnone b' hb'
        · refine .inr ⟨cur, b :: others, (hperm.cons b).trans (List.Perm.swap _ _ _), ?_⟩
          rcases hcur with ⟨hf', heq⟩ | ⟨hs', heq⟩
          · exact .inl ⟨hf', by rw [heq]; rfl⟩
          · exact .inr ⟨hs', by rw [heq]; rfl⟩

/-- Two blocks that touch report what lies between the start of one and the end of the other. -/
private theorem Reports.join {m : Nat} (h : Reports P lo [(f, m)]) (h' : Reports P lo [(m, s)]) :
    Reports P lo [(f, s)] := by
  obtain ⟨h1, h2, -, hP⟩ := h (f, m) (by simp)
  obtain ⟨-, h3, h4, hP'⟩ := h' (m, s) (by simp)
  intro b hb
  rw [List.mem_singleton.mp hb]
  refine ⟨h1, h2.trans h3, h4, fun p hp hp' => ?_⟩
  by_cases hlt : p < m
  · exact hP p hp hlt
  · exact hP' p (Nat.le_of_not_lt hlt) hp'

/-- The new block is merged with all blocks it comes to touch, and goes first. -/
theorem mergeBlocks_blocks (base : SequenceNumber32) {n : Nat} (hn : bs.length ≤ n)
    (hbs : Reports P lo bs)
    (hnew : Reports P lo [(f, s)]) :
    ∃ first others, mergeBlocks n ⟨base.advance f, base.advance s⟩ (sackBlocks base bs) =
        sackBlocks base (first :: others) ∧ others.length ≤ bs.length ∧
      first.1 ≤ f ∧ s ≤ first.2 ∧ Reports P lo (first :: others) ∧
      (Separate bs → (∀ b ∈ bs, b.2 ≤ f ∨ s ≤ b.1) → Separate (first :: others)) := by
  induction n generalizing f s bs with
  | zero =>
    obtain rfl := List.length_eq_zero_iff.mp (Nat.le_zero.mp hn)
    exact ⟨(f, s), [], rfl, Nat.le_refl _, Nat.le_refl _, Nat.le_refl _, hnew,
      fun _ _ => List.pairwise_singleton _ _⟩
  | succ n ih =>
    obtain ⟨hf, hfs, hs, -⟩ := hnew (f, s) (by simp)
    rcases mergeTouching_blocks base hbs hf hfs hs with
      ⟨heq, hnone⟩ | ⟨cur, others, hperm, hcur⟩
    · refine ⟨(f, s), bs, by rw [mergeBlocks, heq]; rfl, Nat.le_refl _, Nat.le_refl _,
        Nat.le_refl _, List.forall_mem_cons.mpr ⟨hnew (f, s) (by simp), hbs⟩, fun hsep hdis => ?_⟩
      refine List.pairwise_cons.mpr ⟨fun b hb => ?_, hsep⟩
      obtain ⟨h1, h2⟩ := hnone b hb
      have := hdis b hb
      dsimp only
      omega
    · have hlen := hperm.length_eq
      rw [List.length_cons] at hlen
      have hothers : Reports P lo others := fun b hb => hbs b (hperm.mem_iff.mpr (by simp [hb]))
      have hmem : cur ∈ bs := hperm.mem_iff.mpr (by simp)
      have hcurP : Reports P lo [cur] := fun b hb => by
        rw [List.mem_singleton.mp hb]
        exact hbs cur hmem
      -- the others neither overlap nor touch the block taken out
      have hsep' : Separate bs → (∀ b ∈ bs, b.2 ≤ f ∨ s ≤ b.1) → Separate others ∧
          ∀ b ∈ others, b.1 < b.2 ∧ (cur.2 < b.1 ∨ b.2 < cur.1) ∧ (b.2 ≤ f ∨ s ≤ b.1) := by
        intro hsep hdis
        obtain ⟨h1, h2⟩ := List.pairwise_cons.mp
          ((hperm.pairwise_iff (fun {b b'} h => h.symm)).mp hsep)
        exact ⟨h2, fun b hb => ⟨(hothers b hb).2.1, h1 b hb, hdis b (hperm.mem_iff.mpr (by simp [hb]))⟩⟩
      rcases hcur with ⟨rfl, heq⟩ | ⟨rfl, heq⟩
      · obtain ⟨first, rest, heq', hlen', hf', hs', hrep, hsep⟩ := ih (f := cur.1) (s := s)
          (by omega) hothers (hcurP.join hnew)
        have := (hbs cur hmem).2.1
        refine ⟨first, rest, by rw [mergeBlocks, heq]; exact heq', by omega, by omega, hs', hrep,
          fun hs₀ hdis => ?_⟩
        obtain ⟨ho, hapart⟩ := hsep' hs₀ hdis
        refine hsep ho fun b hb => ?_
        have := hapart b hb
        omega
      · obtain ⟨first, rest, heq', hlen', hf', hs', hrep, hsep⟩ := ih (f := f) (s := cur.2)
          (by omega) hothers (hnew.join hcurP)
        have := (hbs cur hmem).2.1
        refine ⟨first, rest, by rw [mergeBlocks, heq]; exact heq', by omega, hf', by omega, hrep,
          fun hs₀ hdis => ?_⟩
        obtain ⟨ho, hapart⟩ := hsep' hs₀ hdis
        refine hsep ho fun b hb => ?_
        have := hapart b hb
        omega

/-- `UpdateSackList` puts the new block first, merged with those it touches, and keeps four
blocks. -/
theorem updateSackList_blocks (base : SequenceNumber32) (hlen : bs.length ≤ 4)
    (hbs : Reports P lo bs)
    (hnew : Reports P lo [(f, s)]) :
    ∃ first others, updateSackList (base.advance f) (base.advance s) (sackBlocks base bs) =
        sackBlocks base (first :: others) ∧ (first :: others).length ≤ 4 ∧
      first.1 ≤ f ∧ s ≤ first.2 ∧ Reports P lo (first :: others) ∧
      (Separate bs → (∀ b ∈ bs, b.2 ≤ f ∨ s ≤ b.1) → Separate (first :: others)) := by
  obtain ⟨first, others, heq, hle, hf, hs, hrep, hsep⟩ := mergeBlocks_blocks base
    (n := (sackBlocks base bs).length) (by simp [sackBlocks]) hbs hnew
  rw [updateSackList, heq]
  by_cases hlong : (sackBlocks base (first :: others)).length > 4
  · have hlen' : 3 < others.length := by
      simp only [sackBlocks, List.length_map, List.length_cons] at hlong
      omega
    rw [if_pos hlong]
    have hdrop : (first :: others).dropLast = first :: others.dropLast := by
      cases others with
      | nil => simp at hlen'
      | cons _ _ => rfl
    have hsub : (first :: others.dropLast).Sublist (first :: others) :=
      (List.dropLast_sublist others).cons_cons first
    refine ⟨first, others.dropLast, ?_, ?_, hf, hs, fun b hb => hrep b (hsub.subset hb),
      fun h1 h2 => (hsep h1 h2).sublist hsub⟩
    · rw [sackBlocks, ← List.map_dropLast, hdrop]
      rfl
    · rw [List.length_cons, List.length_dropLast]
      omega
  · rw [if_neg hlong]
    refine ⟨first, others, rfl, ?_, hf, hs, hrep, hsep⟩
    simpa [sackBlocks] using hlong

end Merge

/-! ### Runs -/

/-- The SACK blocks at the positions `bs` report bytes stored above `m_nextRxSeq`. -/
structure TcpRxBuffer.Reporting (base : SequenceNumber32) (b : TcpRxBuffer) (bs : List (Nat × Nat))
    (next : Nat) : Prop where
  blocks : b.m_sackList = sackBlocks base bs
  length_le : bs.length ≤ 4
  next_eq : b.m_nextRxSeq = base.advance next
  above : ∀ blk ∈ bs, next < blk.1 ∧ blk.1 < blk.2
  holds : ∀ blk ∈ bs, ∀ p, blk.1 ≤ p → p < blk.2 → b.Holds (base.advance p)

namespace Reassembly

/-- The packet starts above `m_nextRxSeq` and swallows a stored one that is reported: one that
lies inside the packet, behind a byte not stored, and ends below the limit of the buffer. -/
def Swallows (base : SequenceNumber32) (s : Reassembly) (a len : Nat) : Prop :=
  s.next < a ∧ ∃ x ∈ s.rxBuffer.m_data, ∃ k, x.1 = base.advance k ∧ k + x.2.length < a + len ∧
    (∃ p, a ≤ p ∧ p < k ∧ ¬ s.rxBuffer.Holds (base.advance p)) ∧
    (∀ first ∈ s.rxBuffer.m_data.head?,
      ((x.1.add (Payload.getSize x.2)).diff first.1).toNat < s.rxBuffer.m_maxBuffer.toNat) ∧
    ∃ blk ∈ s.rxBuffer.m_sackList, ∃ q, k ≤ q ∧ q < k + x.2.length ∧
      blk.first.le (base.advance q) = true ∧ (base.advance q).lt blk.second = true

/-- The blocks reported in a sound state. -/
structure Listed (base : SequenceNumber32) (s : Reassembly) (cs : List (Chunk UInt8)) (next : Nat)
    (bs : List (Nat × Nat)) : Prop where
  blocks : s.rxBuffer.m_sackList = sackBlocks base bs
  length_le : bs.length ≤ 4
  reports : Reports (Covers cs) next bs

variable {stream : Nat → UInt8} {base : SequenceNumber32} {s : Reassembly}
  {cs : List (Chunk UInt8)} {next : Nat} {bs : List (Nat × Nat)}

theorem Listed.reporting (hl : Listed base s cs next bs) (h : Sound stream base s cs next) :
    s.rxBuffer.Reporting base bs next where
  blocks := hl.blocks
  length_le := hl.length_le
  next_eq := h.laid.next_eq
  above := fun blk hblk => ⟨(hl.reports blk hblk).1, (hl.reports blk hblk).2.1⟩
  holds := by
    intro blk hblk p hp hp'
    obtain ⟨h1, -, -, hP⟩ := hl.reports blk hblk
    have hle := h.laid.head_le
    obtain ⟨c, hc, -, hlt⟩ := hP p hp hp'
    have := h.laid.within.stop_lt c hc
    exact (h.laid.holds_iff (by omega) (by omega)).mpr (hP p hp hp')

/-- The bytes stored of a packet overlap no block, unless the packet swallows one reported. -/
private theorem Listed.disjoint (hl : Listed base s cs next bs) (h : Sound stream base s cs next)
    {a len : Nat} (hn : Near base s.rxBuffer s.extracted.length next a len) {b' : TcpRxBuffer}
    {cs' : List (Chunk UInt8)} {next' h' t' t : Nat}
    (hstored : Stored s.rxBuffer b' base cs cs' next next' a len h' t' t) (hahead : next < h')
    (hclean : ¬ s.Swallows base a len) : ∀ blk ∈ bs, blk.2 ≤ h' ∨ t' ≤ blk.1 := by
  intro blk hblk
  by_contra hover
  apply hclean
  obtain ⟨h1, h2, h3, hP⟩ := hl.reports blk hblk
  have hle := h.laid.head_le
  have hlt := hstored.lt
  have hstart := hstored.start_le
  have htail := hstored.tail_le
  have hstop := hn.stop
  -- a byte of the block among those stored, and the chunk it is in
  obtain ⟨q, hq1, hq2, hq3, hq4⟩ : ∃ q, blk.1 ≤ q ∧ q < blk.2 ∧ h' ≤ q ∧ q < t' :=
    ⟨max blk.1 h', by omega, by omega, by omega, by omega⟩
  obtain ⟨c, hc, hcq, hcq'⟩ := hP q hq1 hq2
  obtain ⟨hbefore, hbehind, hend⟩ : h' < c.1 ∧ c.stop ≤ t' ∧ c.stop < t := by
    rcases hstored.apart c hc with happ | happ | happ
    · omega
    · omega
    · exact happ
  have hlen : c.stop = c.1 + c.2.length := rfl
  have hmissing : ¬ Covers cs h' := by
    rintro ⟨d, hd, hd1, hd2⟩
    have := hstored.apart d hd
    omega
  refine ⟨by rw [h.next_eq]; exact (hstored.ahead hahead).1, (base.advance c.1, c.2), ?_, c.1, rfl,
    by dsimp only; omega, ⟨h', by omega, hbefore, ?_⟩, ?_, ?_⟩
  · rw [h.laid.data]
    exact List.mem_map_of_mem hc
  · rw [h.laid.holds_iff (by omega) (by omega)]
    exact hmissing
  · intro first hfirst
    have hlimit := hstored.limit first hfirst
    rw [h.laid.data] at hfirst
    obtain ⟨c₀, hc₀, rfl⟩ : ∃ c₀ ∈ cs, first = (base.advance c₀.1, c₀.2) := by
      obtain ⟨c₀, hc₀, heq⟩ := List.mem_map.mp (List.mem_of_mem_head? hfirst)
      exact ⟨c₀, hc₀, heq.symm⟩
    have hlo := h.laid.within.start_le c₀ hc₀
    have hmax := s.rxBuffer.m_maxBuffer.toNat_lt
    have hhi := h.laid.within.stop_lt c₀ hc₀
    have hne := h.laid.layout.lt_stop hc₀
    -- the first chunk is not behind the one swallowed
    have hfirst_le : c₀.1 ≤ c.1 := by
      cases cs with
      | nil => cases hc
      | cons d cs =>
        obtain ⟨-, hafter, -⟩ := (layout_cons d cs).mp h.laid.layout
        have hd := h.laid.layout.lt_stop (c := d) (by simp)
        have heq : base.advance d.1 = base.advance c₀.1 :=
          congrArg Prod.fst (Option.some.inj hfirst)
        have hdlo := h.laid.within.start_le d (by simp)
        have hdhi := h.laid.within.stop_lt d (by simp)
        rw [SequenceNumber32.advance_inj (by omega) (by omega)] at heq
        rcases List.mem_cons.mp hc with rfl | hc
        · exact heq.ge
        · have := hafter c hc
          omega
    rw [add_getSize, ← hlen, SequenceNumber32.toNat_diff_advance (by omega) (by omega)]
    by_contra hmore
    rw [SequenceNumber32.add_advance] at hlimit
    rcases hlimit with ⟨rfl, hnlt⟩ | heq
    · rw [SequenceNumber32.lt_advance (by omega) (by omega)] at hnlt
      simp only [decide_eq_false_iff_not] at hnlt
      omega
    · rw [SequenceNumber32.advance_inj (by omega) (by omega)] at heq
      omega
  · refine ⟨⟨base.advance blk.1, base.advance blk.2⟩, ?_, q, hcq, by dsimp only; omega, ?_, ?_⟩
    · rw [hl.blocks]
      exact List.mem_map_of_mem hblk
    · rw [SequenceNumber32.le_advance (by omega) (by omega)]
      simpa using hq1
    · rw [SequenceNumber32.lt_advance (by omega) (by omega)]
      simpa using hq2

/-- What a call of `Add` does to the blocks. -/
structure ListedAfter (base : SequenceNumber32) (s : Reassembly) (a len : Nat) (s' : Reassembly)
    (bs bs' : List (Nat × Nat)) : Prop where
  first : ∀ x ∈ s'.rxBuffer.m_data, x ∉ s.rxBuffer.m_data →
    x.1.gt s.rxBuffer.m_nextRxSeq = true → ∃ blk, s'.rxBuffer.m_sackList.head? = some blk ∧
      blk.first.le x.1 = true ∧ (x.1.add (Payload.getSize x.2)).le blk.second = true
  separate : Separate bs → ¬ s.Swallows base a len → Separate bs'

/-- `Add` keeps the blocks listed, and apart when no packet reported is swallowed; and the first
one contains the bytes stored when these lie above `m_nextRxSeq`. -/
theorem Listed.add (hl : Listed base s cs next bs) (h : Sound stream base s cs next) {a len : Nat}
    (hn : s.WithinLimit base a len) :
    ∃ cs' next' bs', Sound stream base (s.add stream base a len) cs' next' ∧
      Listed base (s.add stream base a len) cs' next' bs' ∧
      ListedAfter base s a len (s.add stream base a len) bs bs' := by
  have hnear := h.near hn
  have hle := h.laid.head_le
  have hstop := hnear.stop
  rcases h.add hnear with ⟨hsame, h'⟩ | ⟨cs', next', h₁, t₁, t, hstored, h'⟩
  · refine ⟨cs, next, bs, h', ⟨by rw [hsame]; exact hl.blocks, hl.length_le, hl.reports⟩, ?_,
      fun hsep _ => hsep⟩
    intro x hx hx'
    rw [hsame] at hx
    exact absurd hx hx'
  · have hstart := hstored.start_le
    have hlt := hstored.lt
    have hend := hstored.stop_le
    have htail := hstored.tail_le
    have hmono : ∀ p, Covers cs p → Covers cs' p := fun p hc => (hstored.covers p).mpr (.inl hc)
    -- the packet stored is the only new one
    have honly : ∀ x ∈ (s.add stream base a len).rxBuffer.m_data, x ∉ s.rxBuffer.m_data →
        x.1 = base.advance h₁ ∧ x.1.add (Payload.getSize x.2) = base.advance t₁ := by
      intro x hx hx'
      rw [h'.laid.data] at hx
      obtain ⟨c, hc, rfl⟩ := List.mem_map.mp hx
      rcases hstored.mem_or c hc with hold | ⟨hc1, hc2⟩
      · rw [h.laid.data] at hx'
        exact absurd (List.mem_map_of_mem hold) hx'
      · refine ⟨congrArg base.advance hc1, ?_⟩
        rw [← hc2]
        exact add_getSize base c.1 c.2
    by_cases hahead : next < h₁
    · obtain ⟨-, hnext, hsack⟩ := hstored.ahead hahead
      subst hnext
      obtain ⟨d', hd', hdstop⟩ := hstored.mem
      have hnew : Reports (Covers cs') next' [(h₁, t₁)] := by
        intro b hb
        rw [List.mem_singleton.mp hb]
        exact ⟨hahead, hlt, by dsimp only; omega, fun p hp hp' =>
          ⟨(h₁, d'), hd', hp, by rw [Chunk.stop, hdstop]; exact hp'⟩⟩
      obtain ⟨first, others, heq, hlen, hf, hs, hrep, hsep⟩ := updateSackList_blocks base
        (P := Covers cs') hl.length_le
        (fun b hb => by
          obtain ⟨h1, h2, h3, hP⟩ := hl.reports b hb
          exact ⟨h1, h2, h3, fun p hp hp' => hmono p (hP p hp hp')⟩) hnew
      have hblocks : (s.add stream base a len).rxBuffer.m_sackList =
          sackBlocks base (first :: others) := by
        rw [hsack, hl.blocks, heq]
      obtain ⟨hf1, hf2, hf3, -⟩ := hrep first (by simp)
      refine ⟨cs', next', first :: others, h', ⟨hblocks, hlen, hrep⟩, ?_, fun hsep₀ hclean =>
        hsep hsep₀ (hl.disjoint h hnear hstored hahead hclean)⟩
      intro x hx hx' hgt
      obtain ⟨hx1, hx2⟩ := honly x hx hx'
      refine ⟨⟨base.advance first.1, base.advance first.2⟩, by rw [hblocks]; rfl, ?_, ?_⟩
      · rw [hx1, SequenceNumber32.le_advance (by omega) (by omega)]
        simpa using hf
      · rw [hx2, SequenceNumber32.le_advance (by omega) (by omega)]
        simpa using hs
    · have heq : h₁ = next := by omega
      obtain ⟨hnext, hsub, hclear⟩ := hstored.inOrder heq
      rw [hl.blocks] at hsub
      obtain ⟨bs', hsub', hbs'⟩ := List.sublist_map_iff.mp hsub
      have hnext' := h'.laid.next_lt
      have hhead : (s.add stream base a len).extracted.length = s.extracted.length := rfl
      refine ⟨cs', next', bs', h', ⟨hbs', (hsub'.length_le).trans hl.length_le, ?_⟩, ?_,
        fun hsep _ => hsep.sublist hsub'⟩
      · intro b hb
        obtain ⟨h1, h2, h3, hP⟩ := hl.reports b (hsub'.subset hb)
        have hpast := hclear ⟨base.advance b.1, base.advance b.2⟩ (by
          rw [hbs']
          exact List.mem_map_of_mem hb)
        dsimp only at hpast
        rw [SequenceNumber32.le_advance (by omega) (by omega), decide_eq_false_iff_not] at hpast
        refine ⟨?_, h2, by omega, fun p hp hp' => hmono p (hP p hp hp')⟩
        -- the byte at the new `m_nextRxSeq` is missing
        by_contra hge
        exact h'.laid.missing (hmono next' (hP next' (by omega) (by omega)))
      · intro x hx hx' hgt
        obtain ⟨hx1, -⟩ := honly x hx hx'
        rw [hx1, h.laid.next_eq, heq, SequenceNumber32.gt_advance (by omega) (by omega)] at hgt
        simp at hgt

/-- `Extract` keeps the blocks listed. -/
theorem Listed.extract (hl : Listed base s cs next bs) (h : Sound stream base s cs next)
    (maxSize : UInt32) :
    ∃ cs', Sound stream base (s.extract maxSize) cs' next ∧
      Listed base (s.extract maxSize) cs' next bs := by
  obtain ⟨cs', h', hsack, hcov⟩ := h.extract maxSize
  refine ⟨cs', h', hsack.trans hl.blocks, hl.length_le, fun b hb => ?_⟩
  obtain ⟨h1, h2, h3, hP⟩ := hl.reports b hb
  exact ⟨h1, h2, h3, fun p hp hp' => hcov p (by omega) (hP p hp hp')⟩

/-- Nothing is reported of an empty buffer. -/
private theorem Listed.start (stream : Nat → UInt8) (base : SequenceNumber32) (maxBuffer : UInt32) :
    ∃ s : Reassembly, s = { rxBuffer := { m_nextRxSeq := base, m_maxBuffer := maxBuffer } } ∧
      Sound stream base s [] 0 ∧ Listed base s [] 0 [] :=
  ⟨_, rfl, Sound.start stream base maxBuffer, rfl, by simp, by simp [Reports]⟩

/-- In every state reached the blocks are listed. -/
theorem Reached.listed {maxBuffer : UInt32}
    (h : Reached stream base (WithinLimit base) maxBuffer s) :
    ∃ cs next bs, Sound stream base s cs next ∧ Listed base s cs next bs := by
  induction h with
  | start =>
    obtain ⟨s, rfl, hs, hl⟩ := Listed.start stream base maxBuffer
    exact ⟨[], 0, [], hs, hl⟩
  | step _ hstep ih =>
    obtain ⟨cs, next, bs, h, hl⟩ := ih
    cases hstep with
    | add a len hn =>
      obtain ⟨cs', next', bs', h', hl', -⟩ := hl.add h hn
      exact ⟨cs', next', bs', h', hl'⟩
    | extract maxSize =>
      obtain ⟨cs', h', hl'⟩ := hl.extract h maxSize
      exact ⟨cs', next, bs, h', hl'⟩

/-- The packet lies within the limit and swallows none that is reported. -/
def SwallowsNone (base : SequenceNumber32) (s : Reassembly) (a len : Nat) : Prop :=
  s.WithinLimit base a len ∧ ¬ s.Swallows base a len

/-- As long as no packet swallows one that is reported, the blocks are apart. -/
theorem Reached.separate {maxBuffer : UInt32}
    (h : Reached stream base (SwallowsNone base) maxBuffer s) :
    ∃ cs next bs, Sound stream base s cs next ∧ Listed base s cs next bs ∧ Separate bs := by
  induction h with
  | start =>
    obtain ⟨s, rfl, hs, hl⟩ := Listed.start stream base maxBuffer
    exact ⟨[], 0, [], hs, hl, List.Pairwise.nil⟩
  | step _ hstep ih =>
    obtain ⟨cs, next, bs, h, hl, hsep⟩ := ih
    cases hstep with
    | add a len hn =>
      obtain ⟨cs', next', bs', h', hl', hafter⟩ := hl.add h hn.1
      exact ⟨cs', next', bs', h', hl', hafter.separate hsep hn.2⟩
    | extract maxSize =>
      obtain ⟨cs', h', hl'⟩ := hl.extract h maxSize
      exact ⟨cs', next, bs, h', hl', hsep⟩

end Reassembly

open Reassembly

/-- Over every sequence of `Add` and `Extract` with packets of one stream the SACK blocks, at
most four, report bytes stored above `m_nextRxSeq`, and the first one contains the bytes an
`Add` stored above it. As long as no packet swallows a stored one that is reported, they
neither overlap nor touch. -/
theorem sackList_sound (stream : Nat → UInt8) (base : SequenceNumber32) (maxBuffer : UInt32) :
    (∀ s, Reached stream base (WithinLimit base) maxBuffer s →
      (∃ bs next, s.rxBuffer.Reporting base bs next) ∧
      ∀ a len, s.WithinLimit base a len → ∀ x ∈ (s.add stream base a len).rxBuffer.m_data,
        x ∉ s.rxBuffer.m_data → x.1.gt s.rxBuffer.m_nextRxSeq = true →
          ∃ blk, (s.add stream base a len).rxBuffer.m_sackList.head? = some blk ∧
            blk.first.le x.1 = true ∧ (x.1.add (Payload.getSize x.2)).le blk.second = true) ∧
    ∀ s, Reached stream base (SwallowsNone base) maxBuffer s →
      ∃ bs next, s.rxBuffer.Reporting base bs next ∧ Separate bs := by
  refine ⟨fun s hs => ?_, fun s hs => ?_⟩
  · obtain ⟨cs, next, bs, h, hl⟩ := hs.listed
    refine ⟨⟨bs, next, hl.reporting h⟩, fun a len hn => ?_⟩
    obtain ⟨_, _, _, _, _, hafter⟩ := hl.add h hn
    exact hafter.first
  · obtain ⟨cs, next, bs, h, hl, hsep⟩ := hs.separate
    exact ⟨bs, next, hl.reporting h, hsep⟩

/-- A packet above a gap is reported. -/
theorem sackList_sound_gap : ∃ s : Reassembly, s.rxBuffer.m_sackList.length = 1 ∧
    (∃ bs next, s.rxBuffer.Reporting ⟨0⟩ bs next) ∧
      ∃ bs next, s.rxBuffer.Reporting ⟨0⟩ bs next ∧ Separate bs := by
  have h0 : ∀ allowed, Reached (fun _ => 0) ⟨0⟩ allowed 32768 _ := fun _ => .start
  have hnear : WithinLimit ⟨0⟩ { rxBuffer := { m_nextRxSeq := ⟨0⟩ } } 5 5 :=
    ⟨⟨by decide, by decide⟩, by decide⟩
  have h1 := (h0 (WithinLimit ⟨0⟩)).step (.add 5 5 hnear)
  have h2 := (h0 (SwallowsNone ⟨0⟩)).step (.add 5 5 ⟨hnear, by simp [Swallows]⟩)
  have h := sackList_sound (fun _ => 0) ⟨0⟩ 32768
  exact ⟨_, rfl, (h.1 _ h1).1, h.2 _ h2⟩

/-- A packet that swallows the one stored before it leaves two blocks that overlap. -/
theorem not_sackList_sound_swallowed : ∃ s : Reassembly,
    Reached (fun _ => 0) ⟨0⟩ (WithinLimit ⟨0⟩) 32768 s ∧
      s.rxBuffer.m_sackList = sackBlocks ⟨0⟩ [(5, 25), (10, 20)] := by
  have h0 : Reached (fun _ => 0) ⟨0⟩ (WithinLimit ⟨0⟩) 32768 _ := .start
  have h1 := h0.step (.add 10 10 ⟨⟨by decide, by decide⟩, by decide⟩)
  have h2 := h1.step (.add 5 20 ⟨⟨by decide, by decide⟩, by decide⟩)
  exact ⟨_, h2, by decide⟩

end Ns3.Tcp
