import Ns3.Tcp.RxBuffer
import Ns3.Lib.Chunks

/-!
# The receive buffer in stream positions

The loops of `TcpRxBuffer` on packets that lie at positions of a stream, all within half the
sequence space of one another: what `Add` removes and stores, how far `m_nextRxSeq` moves,
and what `Extract` takes out.
-/

namespace Ns3.Tcp

open Ns3.Network Ns3.Lib

/-- The stored packets at the positions of chunks. -/
def items (base : SequenceNumber32) (cs : List (Chunk UInt8)) : List RxItem :=
  cs.map fun c => (base.advance c.1, c.2)

/-- The sequence number behind a packet. -/
theorem add_getSize (base : SequenceNumber32) (p : Nat) (d : Payload) :
    (base.advance p).add d.getSize = base.advance (p + d.length) := by
  rw [← SequenceNumber32.advance_advance]
  rfl

/-- All chunks lie within half the sequence space behind `lo`. -/
structure Within (lo : Nat) (cs : List (Chunk UInt8)) : Prop where
  start_le : ∀ c ∈ cs, lo ≤ c.1
  stop_lt : ∀ c ∈ cs, c.stop < lo + 2 ^ 31

theorem Within.sublist {lo : Nat} {cs cs' : List (Chunk UInt8)} (h : Within lo cs)
    (hsub : cs'.Sublist cs) : Within lo cs' :=
  ⟨fun c hc => h.start_le c (hsub.subset hc), fun c hc => h.stop_lt c (hsub.subset hc)⟩

variable {base : SequenceNumber32} {lo : Nat} {cs cs' : List (Chunk UInt8)}

/-! ### Removing what is stored already -/

/-- What is left of the positions from `h` to `t` when those the chunks cover are taken off:
nothing, or the positions from `h'` to `t'`, the chunks embedded in them removed. -/
inductive Cut (cs : List (Chunk UInt8)) (h t : Nat) : Nat → Nat → List (Chunk UInt8) → Prop where
  | nothing {h' t' : Nat} (hle : t' ≤ h') (hall : ∀ p, h ≤ p → p < t → Covers cs p) :
      Cut cs h t h' t' cs
  | part {h' t' : Nat} {cs' : List (Chunk UInt8)} (hlt : h' < t') (hh : h ≤ h') (ht : t' ≤ t)
      (hsub : cs'.Sublist cs) (hfree : ∀ c ∈ cs', c.stop ≤ h' ∨ t' ≤ c.1)
      (hcov : ∀ p, Covers cs' p ∨ (h' ≤ p ∧ p < t') ↔ Covers cs p ∨ (h ≤ p ∧ p < t))
      (herased : ∀ c ∈ cs, c ∉ cs' → h' < c.1 ∧ c.stop ≤ t' ∧ c.stop < t) :
      Cut cs h t h' t' cs'

/-- The chunks left are some of those there were. -/
theorem Cut.sublist {h t h' t' : Nat} (hcut : Cut cs h t h' t' cs') : cs'.Sublist cs := by
  cases hcut with
  | nothing hle hall => exact List.Sublist.refl _
  | part hlt hh ht hsub hfree hcov herased => exact hsub

/-- A chunk that ends before the segment stays. -/
private theorem Cut.before {c : Chunk UInt8} {h t h' t' : Nat} (hcut : Cut cs h t h' t' cs')
    (hc : c.stop ≤ h) : Cut (c :: cs) h t h' t' (c :: cs') := by
  cases hcut with
  | nothing hle hall =>
    exact .nothing hle fun p hp hp' => (covers_cons c cs p).mpr (.inr (hall p hp hp'))
  | part hlt hh ht hsub hfree hcov herased =>
    refine .part hlt hh ht (hsub.cons_cons c) ?_ ?_ ?_
    · intro d hd
      rcases List.mem_cons.mp hd with rfl | hd
      · exact .inl (hc.trans hh)
      · exact hfree d hd
    · intro p
      rw [covers_cons, covers_cons, or_assoc, or_assoc, hcov p]
    · intro d hd hd'
      rw [List.mem_cons, not_or] at hd'
      exact herased d ((List.mem_cons.mp hd).resolve_left hd'.1) hd'.2

/-- A chunk that covers the start of the segment shortens it. -/
private theorem Cut.head {c : Chunk UInt8} {h t h' t' : Nat} (hcut : Cut cs c.stop t h' t' cs')
    (hc : c.1 ≤ h) (hc' : h < c.stop) : Cut (c :: cs) h t h' t' (c :: cs') := by
  cases hcut with
  | nothing hle hall =>
    refine .nothing hle fun p hp hp' => (covers_cons c cs p).mpr ?_
    by_cases hlt : p < c.stop
    · exact .inl ⟨by omega, hlt⟩
    · exact .inr (hall p (by omega) hp')
  | part hlt hh ht hsub hfree hcov herased =>
    refine .part hlt (by omega) ht (hsub.cons_cons c) ?_ ?_ ?_
    · intro d hd
      rcases List.mem_cons.mp hd with rfl | hd
      · exact .inl hh
      · exact hfree d hd
    · intro p
      rw [covers_cons, covers_cons, or_assoc, or_assoc, hcov p]
      constructor
      · rintro (hp | hp | hp)
        · exact .inl hp
        · exact .inr (.inl hp)
        · exact .inr (.inr (by omega))
      · rintro (hp | hp | hp)
        · exact .inl hp
        · exact .inr (.inl hp)
        · by_cases hlt : p < c.stop
          · exact .inl (by omega)
          · exact .inr (.inr (by omega))
    · intro d hd hd'
      rw [List.mem_cons, not_or] at hd'
      exact herased d ((List.mem_cons.mp hd).resolve_left hd'.1) hd'.2

/-- A chunk that covers the whole segment leaves nothing. -/
private theorem Cut.inside {c : Chunk UInt8} {h t h' t' : Nat}
    (hcut : Cut cs c.stop c.1 h' t' cs') (hc : c.1 ≤ h) (ht : t ≤ c.stop) (hlt : c.1 < c.stop) :
    Cut (c :: cs) h t h' t' (c :: cs') := by
  cases hcut with
  | nothing hle hall =>
    exact .nothing hle fun p hp hp' => (covers_cons c cs p).mpr (.inl (by omega))
  | part hlt' hh ht' hsub hfree hcov herased => omega

/-- A chunk that covers the end of the segment shortens it. -/
private theorem Cut.tail {c : Chunk UInt8} {h t h' t' : Nat} (hcut : Cut cs h c.1 h' t' cs')
    (hc : c.1 ≤ t) (ht : t ≤ c.stop) : Cut (c :: cs) h t h' t' (c :: cs') := by
  cases hcut with
  | nothing hle hall =>
    refine .nothing hle fun p hp hp' => (covers_cons c cs p).mpr ?_
    by_cases hlt : p < c.1
    · exact .inr (hall p hp hlt)
    · exact .inl (by omega)
  | part hlt hh ht' hsub hfree hcov herased =>
    refine .part hlt hh (by omega) (hsub.cons_cons c) ?_ ?_ ?_
    · intro d hd
      rcases List.mem_cons.mp hd with rfl | hd
      · exact .inr ht'
      · exact hfree d hd
    · intro p
      rw [covers_cons, covers_cons, or_assoc, or_assoc, hcov p]
      constructor
      · rintro (hp | hp | hp)
        · exact .inl hp
        · exact .inr (.inl hp)
        · exact .inr (.inr (by omega))
      · rintro (hp | hp | hp)
        · exact .inl hp
        · exact .inr (.inl hp)
        · by_cases hlt : p < c.1
          · exact .inr (.inr (by omega))
          · exact .inl (by omega)
    · intro d hd hd'
      rw [List.mem_cons, not_or] at hd'
      have := herased d ((List.mem_cons.mp hd).resolve_left hd'.1) hd'.2
      omega

/-- A chunk embedded in the segment is removed. -/
private theorem Cut.embedded {c : Chunk UInt8} {h t h' t' : Nat} (hcut : Cut cs h t h' t' cs')
    (hcs : ∀ d ∈ cs, c.stop ≤ d.1) (hc : h < c.1) (hc' : c.stop < t) (hlt : c.1 < c.stop) :
    Cut (c :: cs) h t h' t' cs' := by
  cases hcut with
  | nothing hle hall =>
    -- the position before the chunk is not stored
    obtain ⟨d, hd, hle', -⟩ := hall h (Nat.le_refl _) (by omega)
    have := hcs d hd
    omega
  | part hlt' hh ht hsub hfree hcov herased =>
    have hafter : ∀ p < c.stop, ¬ Covers cs' p := by
      rintro p hp ⟨d, hd, hle, -⟩
      have := hcs d (hsub.subset hd)
      omega
    have hcover : ∀ p, h ≤ p → p < c.stop → h' ≤ p ∧ p < t' := fun p hp hp' =>
      ((hcov p).mpr (.inr ⟨hp, by omega⟩)).resolve_left (hafter p hp')
    have hfirst := (hcover h (Nat.le_refl _) (by omega)).1
    have hlast := (hcover (c.stop - 1) (by omega) (by omega)).2
    refine .part hlt' hh ht (hsub.cons c) hfree ?_ ?_
    · intro p
      rw [covers_cons, or_assoc, hcov p]
      constructor
      · exact .inr
      · rintro (hp | hp)
        · exact .inr (by omega)
        · exact hp
    · intro d hd hd'
      rcases List.mem_cons.mp hd with rfl | hd
      · omega
      · exact herased d hd hd'

/-- A stored packet the loop goes past. -/
private def keep (base : SequenceNumber32) (c : Chunk UInt8) (r : Trimmed) : Trimmed :=
  { r with m_data := (base.advance c.1, c.2) :: r.m_data }

/-- One turn of the loop, in positions. -/
private theorem removeOverlapped_cons {c : Chunk UInt8} (n : UInt32) (hw : Within lo (c :: cs))
    (hlt : c.1 < c.stop) {h t : Nat} (hh : lo ≤ h ∧ h < lo + 2 ^ 31)
    (ht : lo ≤ t ∧ t < lo + 2 ^ 31) :
    removeOverlapped (base.advance h) (base.advance t) n (items base (c :: cs)) =
      if c.1 ≤ t then
        if h < c.stop then
          if h < c.1 ∧ c.stop < t then
            removeOverlapped (base.advance h) (base.advance t) (n - Payload.getSize c.2)
              (items base cs)
          else
            keep base c (removeOverlapped (base.advance (if c.1 ≤ h then c.stop else h))
              (base.advance (if t ≤ c.stop then c.1 else t)) n (items base cs))
        else
          keep base c (removeOverlapped (base.advance h) (base.advance t) n (items base cs))
      else ⟨base.advance h, base.advance t, items base (c :: cs), n⟩ := by
  have hlo := hw.start_le c (by simp)
  have hhi := hw.stop_lt c (by simp)
  have hitems : items base (c :: cs) = (base.advance c.1, c.2) :: items base cs := rfl
  have hstop : (base.advance c.1).add (Payload.getSize c.2) = base.advance c.stop :=
    add_getSize base c.1 c.2
  have h1 := SequenceNumber32.le_advance (s := base) (p := c.1) (q := t) (by omega) (by omega)
  have h2 := SequenceNumber32.gt_advance (s := base) (p := c.stop) (q := h) (by omega) (by omega)
  have h3 := SequenceNumber32.gt_advance (s := base) (p := c.1) (q := h) (by omega) (by omega)
  have h4 := SequenceNumber32.lt_advance (s := base) (p := c.stop) (q := t) (by omega) (by omega)
  have h5 := SequenceNumber32.le_advance (s := base) (p := c.1) (q := h) (by omega) (by omega)
  have h6 := SequenceNumber32.ge_advance (s := base) (p := c.stop) (q := t) (by omega) (by omega)
  simp only [hitems, removeOverlapped, hstop, h1, h2, h3, h4, h5, h6, Bool.and_eq_true,
    decide_eq_true_eq, keep, apply_ite (SequenceNumber32.advance base)]

/-- `removeOverlapped` on packets at the positions of chunks. -/
theorem removeOverlapped_items (base : SequenceNumber32) (n : UInt32) (hcs : Layout cs) (hw : Within lo cs) {h t : Nat}
    (hh : lo ≤ h ∧ h < lo + 2 ^ 31) (ht : lo ≤ t ∧ t < lo + 2 ^ 31)
    (hgo : h < t ∨ t ≤ h ∧ ∀ c ∈ cs, t < c.1) :
    ∃ h' t' cs', removeOverlapped (base.advance h) (base.advance t) n (items base cs) =
        ⟨base.advance h', base.advance t', items base cs', n - UInt32.ofNat (total cs - total cs')⟩ ∧
      Cut cs h t h' t' cs' ∧ (lo ≤ h' ∧ h' < lo + 2 ^ 31) ∧ lo ≤ t' ∧ t' < lo + 2 ^ 31 := by
  induction cs generalizing h t n with
  | nil =>
    refine ⟨h, t, [], by simp [items, removeOverlapped], ?_, hh, ht⟩
    rcases hgo with hlt | ⟨hle, -⟩
    · exact .part hlt (Nat.le_refl _) (Nat.le_refl _) (List.Sublist.refl _) (by simp) (by simp)
        (by simp)
    · exact .nothing hle fun p hp hp' => by omega
  | cons c cs ih =>
    obtain ⟨-, hafter, hlay⟩ := (layout_cons c cs).mp hcs
    have hc := hcs.lt_stop (c := c) (by simp)
    have hlo := hw.start_le c (by simp)
    have hhi := hw.stop_lt c (by simp)
    have hw' : Within lo cs := hw.sublist (List.sublist_cons_self c cs)
    -- a chunk the loop goes past is still there
    have hkeep : ∀ {h₁ t₁ : Nat}, (lo ≤ h₁ ∧ h₁ < lo + 2 ^ 31) → (lo ≤ t₁ ∧ t₁ < lo + 2 ^ 31) →
        (h₁ < t₁ ∨ t₁ ≤ h₁ ∧ ∀ d ∈ cs, t₁ < d.1) →
        (∀ h' t' cs', Cut cs h₁ t₁ h' t' cs' → Cut (c :: cs) h t h' t' (c :: cs')) →
        ∃ h' t' cs', keep base c (removeOverlapped (base.advance h₁) (base.advance t₁) n
            (items base cs)) = ⟨base.advance h', base.advance t', items base cs',
              n - UInt32.ofNat (total (c :: cs) - total cs')⟩ ∧
          Cut (c :: cs) h t h' t' cs' ∧ (lo ≤ h' ∧ h' < lo + 2 ^ 31) ∧ lo ≤ t' ∧ t' < lo + 2 ^ 31 := by
      intro h₁ t₁ hh₁ ht₁ hgo₁ hcut₁
      obtain ⟨h', t', cs', heq, hcut, hb⟩ := ih n hlay hw' hh₁ ht₁ hgo₁
      refine ⟨h', t', c :: cs', ?_, hcut₁ h' t' cs' hcut, hb⟩
      rw [heq, total_cons, total_cons, Nat.add_sub_add_left]
      rfl
    rw [removeOverlapped_cons n hw hc hh ht]
    by_cases hct : c.1 ≤ t
    · have hht : h < t := hgo.resolve_right fun ⟨_, hall⟩ => by
        have := hall c (by simp)
        omega
      rw [if_pos hct]
      by_cases hch : h < c.stop
      · rw [if_pos hch]
        by_cases hemb : h < c.1 ∧ c.stop < t
        · rw [if_pos hemb]
          obtain ⟨h', t', cs', heq, hcut, hb⟩ :=
            ih (n - Payload.getSize c.2) hlay hw' hh ht (.inl hht)
          refine ⟨h', t', cs', ?_, hcut.embedded hafter hemb.1 hemb.2 hc, hb⟩
          have hsum : total (c :: cs) - total cs' = c.2.length + (total cs - total cs') := by
            have := total_le_of_sublist hcut.sublist
            rw [total_cons]
            omega
          have hsub : ∀ k m : UInt32, n - k - m = n - (k + m) := by grind
          rw [heq, hsum, UInt32.ofNat_add, Payload.getSize, hsub]
        · rw [if_neg hemb]
          by_cases hhead : c.1 ≤ h
          · rw [if_pos hhead]
            by_cases htail : t ≤ c.stop
            · -- the segment is stored already
              rw [if_pos htail]
              refine hkeep (by omega) (by omega) (.inr ⟨by omega, fun d hd => ?_⟩) ?_
              · have := hafter d hd
                omega
              · exact fun h' t' cs' hcut => hcut.inside hhead htail hc
            · rw [if_neg htail]
              exact hkeep (by omega) ht (.inl (by omega)) fun h' t' cs' hcut =>
                hcut.head hhead hch
          · rw [if_neg hhead, if_pos (by omega)]
            exact hkeep hh (by omega) (.inl (by omega)) fun h' t' cs' hcut =>
              hcut.tail hct (by omega)
      · rw [if_neg hch]
        exact hkeep hh ht (.inl hht) fun h' t' cs' hcut => hcut.before (by omega)
    · rw [if_neg hct]
      refine ⟨h, t, c :: cs, by simp, ?_, hh, ht⟩
      rcases hgo with hlt | ⟨hle, -⟩
      · refine .part hlt (Nat.le_refl _) (Nat.le_refl _) (List.Sublist.refl _) ?_ (by simp)
          fun d hd hd' => absurd hd hd'
        intro d hd
        rcases List.mem_cons.mp hd with rfl | hd
        · omega
        · have := hafter d hd
          omega
      · exact .nothing hle fun p hp hp' => by omega

/-! ### Storing a packet -/

/-- A packet that overlaps none goes between those before and those behind it. -/
theorem mapAssign_items (base : SequenceNumber32) {h : Nat} {d : Payload} (hcs : Layout cs)
    (hw : Within lo cs)
    (hd : d ≠ []) (hlo : lo ≤ h) (hhi : h + d.length < lo + 2 ^ 31)
    (hfree : ∀ c ∈ cs, c.stop ≤ h ∨ h + d.length ≤ c.1) :
    ∃ cs', mapAssign (base.advance h) d (items base cs) = items base cs' ∧
      cs'.Perm ((h, d) :: cs) ∧ Layout cs' := by
  have hpos := List.length_pos_iff.mpr hd
  induction cs with
  | nil => exact ⟨[(h, d)], rfl, List.Perm.refl _, (layout_cons _ _).mpr ⟨hd, by simp, hcs⟩⟩
  | cons c cs ih =>
    obtain ⟨hne, hafter, hlay⟩ := (layout_cons c cs).mp hcs
    have hc := hcs.lt_stop (c := c) (by simp)
    have hclo := hw.start_le c (by simp)
    have hchi := hw.stop_lt c (by simp)
    have h1 := SequenceNumber32.lt_advance (s := base) (p := h) (q := c.1) (by omega) (by omega)
    have h2 := SequenceNumber32.lt_advance (s := base) (p := c.1) (q := h) (by omega) (by omega)
    have hitems : items base (c :: cs) = (base.advance c.1, c.2) :: items base cs := rfl
    simp only [hitems, mapAssign, h1, h2, decide_eq_true_eq]
    rcases hfree c (by simp) with hbefore | hbehind
    · obtain ⟨cs', heq, hperm, hlay'⟩ := ih hlay (hw.sublist (List.sublist_cons_self c cs))
        fun c' hc' => hfree c' (by simp [hc'])
      rw [if_neg (by omega), if_pos (by omega), heq]
      refine ⟨c :: cs', rfl, (hperm.cons c).trans (List.Perm.swap _ _ _),
        (layout_cons c cs').mpr ⟨hne, fun c' hc' => ?_, hlay'⟩⟩
      rcases List.mem_cons.mp (hperm.mem_iff.mp hc') with rfl | hc'
      · exact hbefore
      · exact hafter c' hc'
    · rw [if_pos (by omega)]
      refine ⟨(h, d) :: c :: cs, rfl, List.Perm.refl _,
        (layout_cons _ _).mpr ⟨hd, fun c' hc' => ?_, hcs⟩⟩
      rcases List.mem_cons.mp hc' with rfl | hc'
      · exact hbehind
      · have := hafter c' hc'
        exact (hbehind.trans hc.le).trans this

/-! ### Moving on over stored packets -/

/-- How far the bytes stored reach without a gap. -/
structure Reaches (cs : List (Chunk UInt8)) (next next' : Nat) : Prop where
  le : next ≤ next'
  covered : ∀ p, next ≤ p → p < next' → Covers cs p
  missing : ¬ Covers cs next'

/-- The loop moves `m_nextRxSeq` over the bytes stored behind it, counts them, and clears the
SACK blocks below. -/
theorem advanceOver_items (base : SequenceNumber32) (hcs : Layout cs) (hw : Within lo cs)
    {next : Nat}
    (hlo : lo ≤ next) (hhi : next < lo + 2 ^ 31)
    (hbelow : ∀ c ∈ cs, c.1 < next → c.stop ≤ next) (avail : UInt32) (sack : List SackBlock) :
    ∃ next' sack', Front.advanceOver ⟨base.advance next, avail, sack⟩ (items base cs) =
        ⟨base.advance next', avail + UInt32.ofNat (next' - next), sack'⟩ ∧
      Reaches cs next next' ∧ next' < lo + 2 ^ 31 ∧ sack'.Sublist sack ∧
      (next' = next → sack' = sack) ∧
      (next < next' → ∀ b ∈ sack', b.second.le (base.advance next') = false) := by
  induction cs generalizing next avail sack with
  | nil => exact ⟨next, sack, by simp [items, Front.advanceOver], ⟨Nat.le_refl _, by omega, by simp⟩,
      hhi, List.Sublist.refl _, fun _ => rfl, by omega⟩
  | cons c cs ih =>
    obtain ⟨hne, hafter, hlay⟩ := (layout_cons c cs).mp hcs
    have hw' : Within lo cs := hw.sublist (List.sublist_cons_self c cs)
    have hc := hcs.lt_stop (c := c) (by simp)
    have hclo := hw.start_le c (by simp)
    have hchi := hw.stop_lt c (by simp)
    have h1 := SequenceNumber32.lt_advance (s := base) (p := c.1) (q := next) (by omega) (by omega)
    have h2 := SequenceNumber32.gt_advance (s := base) (p := c.1) (q := next) (by omega) (by omega)
    have hitems : items base (c :: cs) = (base.advance c.1, c.2) :: items base cs := rfl
    have hstop : (base.advance c.1).add (Payload.getSize c.2) = base.advance c.stop :=
      add_getSize base c.1 c.2
    simp only [hitems, Front.advanceOver, h1, h2, hstop, decide_eq_true_eq]
    by_cases hlt : c.1 < next
    · rw [if_pos hlt]
      have hle := hbelow c (by simp) hlt
      obtain ⟨next', sack', heq, hr, hrest⟩ := ih hlay hw' hlo hhi
        (fun d hd => hbelow d (by simp [hd])) avail sack
      refine ⟨next', sack', heq, ⟨hr.le, fun p hp hp' => ?_, ?_⟩, hrest⟩
      · exact (covers_cons c cs p).mpr (.inr (hr.covered p hp hp'))
      · rw [covers_cons, not_or]
        exact ⟨by have := hr.le; omega, hr.missing⟩
    · rw [if_neg hlt]
      by_cases hgt : next < c.1
      · rw [if_pos hgt]
        refine ⟨next, sack, by simp, ⟨Nat.le_refl _, by omega, ?_⟩, hhi, List.Sublist.refl _,
          fun _ => rfl, by omega⟩
        rw [covers_cons, not_or]
        refine ⟨by omega, ?_⟩
        rintro ⟨d, hd, hle, -⟩
        have := hafter d hd
        omega
      · rw [if_neg hgt]
        obtain rfl : c.1 = next := by omega
        obtain ⟨next', sack', heq, hr, hhi', hsub, hsame, hclear⟩ := ih hlay hw' (by omega) hchi
          (fun d hd hdlt => absurd (hafter d hd) (by omega)) (avail + Payload.getSize c.2)
          (clearSackList (base.advance c.stop) sack)
        have hle := hr.le
        refine ⟨next', sack', ?_, ⟨by omega, fun p hp hp' => ?_, ?_⟩, hhi',
          hsub.trans (List.filter_sublist), by omega, fun _ b hb => ?_⟩
        · have hsum : next' - c.1 = c.2.length + (next' - c.stop) := by
            simp only [Chunk.stop] at hle ⊢
            omega
          rw [heq, hsum, UInt32.ofNat_add, ← UInt32.add_assoc]
          rfl
        · rw [covers_cons]
          by_cases hlt' : p < c.stop
          · exact .inl ⟨hp, hlt'⟩
          · exact .inr (hr.covered p (by omega) hp')
        · rw [covers_cons, not_or]
          exact ⟨by omega, hr.missing⟩
        · by_cases heq' : next' = c.stop
          · rw [hsame heq'] at hb
            have := (List.mem_filter.mp hb).2
            rw [heq']
            simpa using this
          · exact hclear (by omega) b hb

/-! ### Taking bytes out -/

/-- The chunks without the positions below `stop`. -/
structure Dropped (cs cs' : List (Chunk UInt8)) (stop : Nat) : Prop where
  layout : Layout cs'
  start_le : ∀ c ∈ cs', stop ≤ c.1
  stop_le : ∀ c ∈ cs', ∃ d ∈ cs, c.stop = d.stop
  covers : ∀ p, Covers cs' p ↔ Covers cs p ∧ stop ≤ p
  carries : ∀ stream, Carries stream cs → Carries stream cs'

/-- Part of the first packet is taken out. -/
private theorem extract_part (base : SequenceNumber32) {c : Chunk UInt8} (hcs : Layout (c :: cs))
    (hw : Within lo (c :: cs))
    {e : Nat} (he : 0 < e) (hlt : e < c.2.length) :
    (mapAssign ((base.advance c.1).add (UInt32.ofNat e)) (c.2.drop e) (items base (c :: cs))).tail =
        items base ((c.1 + e, c.2.drop e) :: cs) ∧
      Dropped (c :: cs) ((c.1 + e, c.2.drop e) :: cs) (c.1 + e) := by
  obtain ⟨hne, hafter, hlay⟩ := (layout_cons c cs).mp hcs
  have hclo := hw.start_le c (by simp)
  have hchi := hw.stop_lt c (by simp)
  have hstop : Chunk.stop (c.1 + e, c.2.drop e) = c.stop := by
    simp only [Chunk.stop, List.length_drop]
    omega
  have hdrop : c.2.drop e ≠ [] := by
    rw [← List.length_pos_iff, List.length_drop]
    omega
  have hlen : c.stop = c.1 + c.2.length := rfl
  refine ⟨?_, ?_⟩
  · have hkey : (base.advance c.1).add (UInt32.ofNat e) = base.advance (c.1 + e) := by
      rw [← SequenceNumber32.advance_advance]
      rfl
    have h1 := SequenceNumber32.lt_advance (s := base) (p := c.1 + e) (q := c.1) (by omega) (by omega)
    have h2 := SequenceNumber32.lt_advance (s := base) (p := c.1) (q := c.1 + e) (by omega) (by omega)
    have hitems : items base (c :: cs) = (base.advance c.1, c.2) :: items base cs := rfl
    simp only [hitems, mapAssign, hkey, h1, h2, decide_eq_true_eq]
    rw [if_neg (by omega), if_pos (by omega), List.tail_cons]
    cases cs with
    | nil => rfl
    | cons d cs =>
      have hd := hafter d (by simp)
      have hdlo := hw.start_le d (by simp)
      have hdhi := hw.stop_lt d (by simp)
      have hdlt := hlay.lt_stop (c := d) (by simp)
      have h3 := SequenceNumber32.lt_advance (s := base) (p := c.1 + e) (q := d.1) (by omega)
        (by omega)
      have hitems' : items base (d :: cs) = (base.advance d.1, d.2) :: items base cs := rfl
      rw [hitems', mapAssign, h3, if_pos (by simp only [decide_eq_true_eq]; omega)]
      rfl
  · exact
      { layout := (layout_cons _ _).mpr ⟨hdrop, by rw [hstop]; exact hafter, hlay⟩
        start_le := by
          intro d hd
          rcases List.mem_cons.mp hd with rfl | hd
          · exact Nat.le_refl _
          · have := hafter d hd
            omega
        stop_le := by
          intro d hd
          rcases List.mem_cons.mp hd with rfl | hd
          · exact ⟨c, by simp, hstop⟩
          · exact ⟨d, by simp [hd], rfl⟩
        covers := by
          intro p
          rw [covers_cons, covers_cons, hstop]
          constructor
          · rintro (hp | hp)
            · exact ⟨.inl (by omega), by omega⟩
            · obtain ⟨d, hd, hle, hlt'⟩ := hp
              have := hafter d hd
              exact ⟨.inr ⟨d, hd, hle, hlt'⟩, by omega⟩
          · rintro ⟨hp | hp, hle⟩
            · exact .inl (by omega)
            · exact .inr hp
        carries := by
          intro stream hcar d hd
          rcases List.mem_cons.mp hd with rfl | hd
          · have hc := hcar c (by simp)
            rw [List.length_drop]
            conv_lhs => rw [hc]
            rw [← take_drop_slice stream (k := e) (m := c.2.length - e) (n := c.2.length) (by omega),
              List.take_of_length_le (by simp)]
          · exact hcar d (by simp [hd]) }

/-- The loop takes the `e` bytes from `head` on, all of them stored, out of the buffer. -/
theorem extractLoop_items (base : SequenceNumber32) (hcs : Layout cs) (hw : Within lo cs)
    {head e : Nat} (hhead : ∀ c ∈ cs, head ≤ c.1)
    (hcov : ∀ p, head ≤ p → p < head + e → Covers cs p) (he : e < 2 ^ 32) (out : Payload) (b : TcpRxBuffer) :
    ∃ cs' d, TcpRxBuffer.extractLoop (UInt32.ofNat e) out b (items base cs) =
        (out ++ d, { b with
          m_data := items base cs'
          m_size := b.m_size - UInt32.ofNat e
          m_availBytes := b.m_availBytes - UInt32.ofNat e }) ∧
      Dropped cs cs' (head + e) ∧ d.length = e ∧ total cs = e + total cs' ∧
      ∀ stream, Carries stream cs → d = slice stream head e := by
  induction cs generalizing head e out b with
  | nil =>
    have he0 : e = 0 := by
      by_contra hne
      exact not_covers_nil head (hcov head (Nat.le_refl _) (by omega))
    subst he0
    refine ⟨[], [], by simp [items, TcpRxBuffer.extractLoop], ?_, rfl, rfl, fun _ _ => rfl⟩
    exact ⟨hcs, by simp, by simp, by simp, fun _ h => h⟩
  | cons c cs ih =>
    obtain ⟨hne, hafter, hlay⟩ := (layout_cons c cs).mp hcs
    have hpos := List.length_pos_iff.mpr hne
    have hw' : Within lo cs := hw.sublist (List.sublist_cons_self c cs)
    have hclo := hw.start_le c (by simp)
    have hchi := hw.stop_lt c (by simp)
    have hch := hhead c (by simp)
    have hlen : c.stop = c.1 + c.2.length := rfl
    have hzero : UInt32.ofNat e = 0 ↔ e = 0 := by
      rw [← UInt32.toNat_inj, UInt32.toNat_ofNat', Nat.mod_eq_of_lt he]
      rfl
    have hitems : items base (c :: cs) = (base.advance c.1, c.2) :: items base cs := rfl
    simp only [hitems, TcpRxBuffer.extractLoop, hzero]
    by_cases he0 : e = 0
    · rw [if_pos he0]
      subst he0
      refine ⟨c :: cs, [], by simp [items], ?_, rfl, by simp, fun _ _ => rfl⟩
      refine ⟨hcs, hhead, fun d hd => ⟨d, hd, rfl⟩, fun p => ⟨fun hp => ⟨hp, ?_⟩, And.left⟩,
        fun _ h => h⟩
      obtain ⟨d, hd, hle, -⟩ := hp
      have := hhead d hd
      omega
    · rw [if_neg he0]
      -- the first packet starts at the head
      have hfirst : c.1 = head := by
        rcases (covers_cons c cs head).mp (hcov head (Nat.le_refl _) (by omega)) with
          ⟨hle, -⟩ | ⟨d, hd, hle, -⟩
        · omega
        · have := hafter d hd
          omega
      subst hfirst
      have hsize : (Payload.getSize c.2 ≤ UInt32.ofNat e) = (c.2.length ≤ e) := by
        rw [UInt32.le_iff_toNat_le, Payload.getSize, UInt32.toNat_ofNat', UInt32.toNat_ofNat',
          Nat.mod_eq_of_lt (by omega), Nat.mod_eq_of_lt he]
      simp only [hsize]
      by_cases hle : c.2.length ≤ e
      · rw [if_pos hle]
        have hsub : UInt32.ofNat e - Payload.getSize c.2 = UInt32.ofNat (e - c.2.length) := by
          rw [Payload.getSize, UInt32.ofNat_sub hle]
        rw [hsub]
        have hrest : ∀ p, c.stop ≤ p → p < c.stop + (e - c.2.length) → Covers cs p := fun p hp hp' =>
          ((covers_cons c cs p).mp (hcov p (by omega) (by omega))).resolve_left (by omega)
        obtain ⟨cs', d, heq, hdrop, hd, htotal, hslice⟩ := ih hlay hw' hafter hrest
          (by omega) (out ++ c.2) { b with
            m_size := b.m_size - Payload.getSize c.2
            m_availBytes := b.m_availBytes - Payload.getSize c.2 }
        have hstop : c.stop + (e - c.2.length) = c.1 + e := by omega
        rw [hstop] at hdrop
        have hsum : ∀ n : UInt32, n - Payload.getSize c.2 - UInt32.ofNat (e - c.2.length) =
            n - UInt32.ofNat e := by
          intro n
          rw [← hsub]
          grind
        refine ⟨cs', c.2 ++ d, ?_, ⟨hdrop.layout, hdrop.start_le, ?_, ?_, ?_⟩, ?_, ?_, ?_⟩
        · rw [heq, List.append_assoc]
          simp only [hsum]
        · intro d' hd'
          obtain ⟨d'', hd'', hstop'⟩ := hdrop.stop_le d' hd'
          exact ⟨d'', by simp [hd''], hstop'⟩
        · intro p
          rw [hdrop.covers, covers_cons]
          constructor
          · exact fun ⟨h1, h2⟩ => ⟨.inr h1, h2⟩
          · exact fun ⟨h1, h2⟩ => ⟨h1.resolve_left (by omega), h2⟩
        · exact fun stream hcar => hdrop.carries stream (hcar.sublist (List.sublist_cons_self c cs))
        · rw [List.length_append, hd]
          omega
        · rw [total_cons, htotal]
          omega
        · intro stream hcar
          have hc := hcar c (by simp)
          have hd' := hslice stream (hcar.sublist (List.sublist_cons_self c cs))
          calc c.2 ++ d
              = slice stream c.1 c.2.length ++ slice stream (c.1 + c.2.length) (e - c.2.length) := by
                rw [← hc, ← hlen, ← hd']
            _ = slice stream c.1 e := by
                rw [slice_append]
                congr 1
                omega
      · rw [if_neg hle]
        have hfrag : Payload.createFragment c.2 (UInt32.ofNat e)
            (Payload.getSize c.2 - UInt32.ofNat e) = c.2.drop e := by
          rw [Payload.createFragment, Payload.getSize, ← UInt32.ofNat_sub (by omega),
            UInt32.toNat_ofNat', UInt32.toNat_ofNat', Nat.mod_eq_of_lt he,
            Nat.mod_eq_of_lt (by omega), List.take_of_length_le (by simp)]
        have hout : Payload.createFragment c.2 0 (UInt32.ofNat e) = c.2.take e := by
          rw [Payload.createFragment, UInt32.toNat_ofNat', Nat.mod_eq_of_lt he]
          rfl
        obtain ⟨heq, hdrop⟩ := extract_part base hcs hw (e := e) (by omega) (by omega)
        rw [hitems] at heq
        refine ⟨(c.1 + e, c.2.drop e) :: cs, c.2.take e, ?_, hdrop, ?_, ?_, ?_⟩
        · rw [hfrag, hout, heq]
        · rw [List.length_take]
          omega
        · rw [total_cons, total_cons, List.length_drop]
          omega
        · intro stream hcar
          have hc := hcar c (by simp)
          conv_lhs => rw [hc]
          have := take_drop_slice stream (a := c.1) (k := 0) (m := e) (n := c.2.length) (by omega)
          simpa using this

/-! ### Cutting a packet to the window -/

/-- A packet with nothing left after the cut has nothing left behind the loop either. -/
theorem removeOverlapped_empty (base : SequenceNumber32) (n : UInt32) (hcs : Layout cs) (hw : Within lo cs)
    (z : SequenceNumber32) :
    ∃ h t, removeOverlapped z z n (items base cs) = ⟨h, t, items base cs, n⟩ ∧ h.ge t = true := by
  induction cs with
  | nil => exact ⟨z, z, rfl, by simp [SequenceNumber32.ge]⟩
  | cons c cs ih =>
    obtain ⟨-, hafter, hlay⟩ := (layout_cons c cs).mp hcs
    have hw' : Within lo cs := hw.sublist (List.sublist_cons_self c cs)
    have hc := hcs.lt_stop (c := c) (by simp)
    have hclo := hw.start_le c (by simp)
    have hchi := hw.stop_lt c (by simp)
    have hitems : items base (c :: cs) = (base.advance c.1, c.2) :: items base cs := rfl
    have hstop : (base.advance c.1).add (Payload.getSize c.2) = base.advance c.stop :=
      add_getSize base c.1 c.2
    by_cases hle : (base.advance c.1).le z = true
    · have hngt : (base.advance c.1).gt z = false := by
        simpa [SequenceNumber32.le] using hle
      by_cases hgt : (base.advance c.stop).gt z = true
      · have hge : (base.advance c.stop).ge z = true := by simp [SequenceNumber32.ge, hgt]
        obtain ⟨h', t', cs', heq, hcut, hb⟩ := removeOverlapped_items base n hlay hw'
          (h := c.stop) (t := c.1) (by omega) (by omega) (.inr ⟨by omega, fun d hd => by
            have := hafter d hd
            omega⟩)
        refine ⟨base.advance h', base.advance t', ?_, ?_⟩
        · have hcs' : cs' = cs := by
            cases hcut with
            | nothing => rfl
            | part hlt hh ht => omega
          subst hcs'
          simp only [hitems, removeOverlapped, hstop, hle, hngt, hgt, hge, if_true,
            Bool.false_and, Bool.false_eq_true, if_false, heq, Nat.sub_self]
          simp
        · rw [SequenceNumber32.ge_advance (by omega) (by omega), decide_eq_true_eq]
          cases hcut with
          | nothing hle' hall => exact hle'
          | part hlt hh ht => omega
      · obtain ⟨h, t, heq, hge⟩ := ih hlay hw'
        refine ⟨h, t, ?_, hge⟩
        simp only [hitems, removeOverlapped, hstop, hle, if_true, hgt, if_false, heq,
          Bool.false_eq_true]
    · refine ⟨z, z, ?_, by simp [SequenceNumber32.ge]⟩
      simp only [hitems, removeOverlapped, hle, if_false, Bool.false_eq_true]

end Ns3.Tcp
