import Ns3.Tcp.RxLayout
import Ns3.Lib.Word

/-!
# Reassembly of a byte stream

A receive buffer laid out at stream positions: the chunks stored, the head (the first byte not
extracted) and the first byte missing. `Add` stores what is new of a packet and `Extract` takes
bytes out in order; over any sequence of both, with packets cut from one stream, what is
extracted is a prefix of the stream.
-/

namespace Ns3.Tcp

open Ns3.Network Ns3.Lib

/-- The buffer holds the chunks `cs` at positions after `base`; the bytes from `head` up to
`next` are there and the one at `next` is not. -/
structure Laid (base : SequenceNumber32) (b : TcpRxBuffer) (cs : List (Chunk UInt8))
    (head next : Nat) : Prop where
  data : b.m_data = items base cs
  layout : Layout cs
  within : Within head cs
  size : b.m_size = UInt32.ofNat (total cs)
  next_eq : b.m_nextRxSeq = base.advance next
  avail : b.m_availBytes = UInt32.ofNat (next - head)
  head_le : head ≤ next
  next_lt : next < head + 2 ^ 31
  covered : ∀ p, head ≤ p → p < next → Covers cs p
  missing : ¬ Covers cs next

section Add

variable {base : SequenceNumber32} {b : TcpRxBuffer} {cs : List (Chunk UInt8)} {head next a : Nat}
  {d : Payload}

/-- A packet with its first byte at `a`, which lies less than half the sequence space behind
`m_nextRxSeq`, as its end does before the head. -/
structure Half (head next a len : Nat) : Prop where
  start : next < a + 2 ^ 31
  stop : a + len < head + 2 ^ 31

/-- A packet that moreover, when it ends below `m_nextRxSeq`, does not lie so far behind the
limit of the buffer that it compares as past it. -/
structure Near (base : SequenceNumber32) (b : TcpRxBuffer) (head next a len : Nat) : Prop extends
    Half head next a len where
  old : a + len < next → ∀ x ∈ b.m_data.head?,
    (x.1.add b.m_maxBuffer).lt (base.advance (a + len)) = false

/-- What is left of a packet cut to the receive window: nothing, or the bytes from the first
one not below `m_nextRxSeq` to `t`, which is the end of the packet or the limit. -/
inductive Windowed (base : SequenceNumber32) (b : TcpRxBuffer) (head next a len : Nat) :
    SequenceNumber32 × SequenceNumber32 → Prop where
  | nothing (z : SequenceNumber32) : Windowed base b head next a len (z, z)
  | past (hnil : b.m_data = []) (hlt : a + len < next) :
      Windowed base b head next a len (base.advance next, base.advance (a + len))
  | cut (t : Nat) (hle : max a next ≤ t) (ht : t ≤ a + len) (hin : t < head + 2 ^ 31)
      (hlimit : ∀ x ∈ b.m_data.head?, t = a + len ∧
          (x.1.add b.m_maxBuffer).lt (base.advance (a + len)) = false ∨
        x.1.add b.m_maxBuffer = base.advance t) :
      Windowed base b head next a len (base.advance (max a next), base.advance t)

/-- The head of a packet cut to the receive window. -/
theorem Laid.trimHead (h : Laid base b cs head next) (hstart : next < a + 2 ^ 31)
    (hstop : a < next + 2 ^ 31) :
    (if (base.advance a).lt b.m_nextRxSeq then b.m_nextRxSeq else base.advance a) =
      base.advance (max a next) := by
  rw [h.next_eq, SequenceNumber32.lt_advance hstop hstart]
  by_cases hlt : a < next
  · rw [if_pos (by simpa using hlt), Nat.max_eq_right hlt.le]
  · rw [if_neg (by simpa using hlt), Nat.max_eq_left (by omega)]

/-- The cut of a packet to the receive window. -/
theorem Laid.trimToWindow (h : Laid base b cs head next) {len : Nat}
    (hn : Near base b head next a len) :
    Windowed base b head next a len
      (b.trimToWindow (base.advance a) (base.advance (a + len))) := by
  have hle := h.head_le
  have hlt := h.next_lt
  have hstart := hn.start
  have hstop := hn.stop
  have hmax := h.trimHead hstart (by omega)
  rw [TcpRxBuffer.trimToWindow]
  simp only [hmax]
  cases hdata : b.m_data with
  | nil =>
    by_cases hshort : a + len < next
    · rw [Nat.max_eq_right (by omega)]
      exact .past hdata hshort
    · exact .cut (a + len) (by omega) (Nat.le_refl _) hstop (by simp [hdata])
  | cons x rest =>
    dsimp only
    by_cases hlimit : (x.1.add b.m_maxBuffer).lt (base.advance (a + len)) = true
    · rw [if_pos hlimit]
      have hge : next ≤ a + len := by
        by_contra hlt'
        have := hn.old (by omega) x (by simp [hdata])
        rw [hlimit] at this
        cases this
      by_cases hnone : (x.1.add b.m_maxBuffer).lt (base.advance (max a next)) = true
      · rw [if_pos hnone]
        exact .nothing _
      · rw [if_neg hnone]
        obtain ⟨t, h1, h2, heq⟩ := SequenceNumber32.exists_advance_of_between (s := base)
          (p := max a next) (q := a + len) (by omega) (by omega) (by simpa using hnone) hlimit
        rw [heq]
        refine .cut t h1 h2.le (by omega) ?_
        intro y hy
        obtain rfl : x = y := by simpa [hdata] using hy
        exact .inr heq
    · rw [if_neg hlimit]
      rw [SequenceNumber32.lt_advance (by omega) (by omega)]
      by_cases hshort : a + len < max a next
      · rw [if_pos (by simpa using hshort)]
        exact .nothing _
      · rw [if_neg (by simpa using hshort)]
        refine .cut (a + len) (by omega) (Nat.le_refl _) hstop ?_
        intro y hy
        obtain rfl : x = y := by simpa [hdata] using hy
        exact .inl ⟨rfl, by simpa using hlimit⟩

/-- What `Add` does to a buffer when it stores the bytes from `h'` to `t'` of a packet cut to
end at `t`. -/
structure Stored (b b' : TcpRxBuffer) (base : SequenceNumber32) (cs cs' : List (Chunk UInt8))
    (next next' a len h' t' t : Nat) : Prop where
  lt : h' < t'
  start_le : max a next ≤ h'
  stop_le : t' ≤ t
  tail_le : t ≤ a + len
  limit : ∀ x ∈ b.m_data.head?, t = a + len ∧
      (x.1.add b.m_maxBuffer).lt (base.advance (a + len)) = false ∨
    x.1.add b.m_maxBuffer = base.advance t
  mem : ∃ d', (h', d') ∈ cs' ∧ h' + d'.length = t'
  mem_or : ∀ c ∈ cs', c ∈ cs ∨ c.1 = h' ∧ c.stop = t'
  covers : ∀ p, Covers cs' p ↔ Covers cs p ∨ (max a next ≤ p ∧ p < t)
  apart : ∀ c ∈ cs, c.stop ≤ h' ∨ t' ≤ c.1 ∨ h' < c.1 ∧ c.stop ≤ t' ∧ c.stop < t
  settings : b'.m_maxBuffer = b.m_maxBuffer ∧ b'.m_gotFin = b.m_gotFin ∧ b'.m_finSeq = b.m_finSeq
  reaches : Reaches cs' next next'
  ahead : next < h' → next < a ∧ next' = next ∧
    b'.m_sackList = updateSackList (base.advance h') (base.advance t') b.m_sackList
  inOrder : h' = next → next < next' ∧ b'.m_sackList.Sublist b.m_sackList ∧
    ∀ blk ∈ b'.m_sackList, blk.second.le (base.advance next') = false

/-- The bytes stored of a packet. -/
private theorem fragment_eq (base : SequenceNumber32) {h' t' : Nat} (hd : d.length < 2 ^ 32)
    (h1 : a ≤ h') (h2 : h' ≤ t') (h3 : t' ≤ a + d.length) :
    d.createFragment ((base.advance h').diff (base.advance a))
      ((base.advance t').diff (base.advance h')) = (d.drop (h' - a)).take (t' - h') := by
  rw [Payload.createFragment, SequenceNumber32.toNat_diff_advance h1 (by omega),
    SequenceNumber32.toNat_diff_advance h2 (by omega)]

/-- `Add` of a packet of which nothing is left or nothing is new. -/
private theorem add_refused {headSeq tailSeq h t : SequenceNumber32}
    (htrim : b.trimToWindow (base.advance a) (base.advance (a + d.length)) = (headSeq, tailSeq))
    (hloop : removeOverlapped headSeq tailSeq b.m_size b.m_data = ⟨h, t, b.m_data, b.m_size⟩)
    (hge : h.ge t = true) : b.add d (base.advance a) = (false, b) := by
  simp only [TcpRxBuffer.add, add_getSize, htrim, hloop, hge, if_true]

/-- `Add` of a packet that is cut to the bytes from `h'` to `t'`. -/
private theorem Laid.add_stored (h : Laid base b cs head next) (hd : d.length < 2 ^ 32)
    {t h' t' : Nat} {cs₁ : List (Chunk UInt8)}
    (htrim : b.trimToWindow (base.advance a) (base.advance (a + d.length)) =
      (base.advance (max a next), base.advance t)) (ht : t ≤ a + d.length)
    (hhi : t < head + 2 ^ 31)
    (hlimit : ∀ x ∈ b.m_data.head?, t = a + d.length ∧
        (x.1.add b.m_maxBuffer).lt (base.advance (a + d.length)) = false ∨
      x.1.add b.m_maxBuffer = base.advance t)
    (hloop : removeOverlapped (base.advance (max a next)) (base.advance t) b.m_size b.m_data =
      ⟨base.advance h', base.advance t', items base cs₁,
        b.m_size - UInt32.ofNat (total cs - total cs₁)⟩)
    (hht' : h' < t') (hh : max a next ≤ h') (ht₁ : t' ≤ t) (hsub : cs₁.Sublist cs)
    (hfree : ∀ c ∈ cs₁, c.stop ≤ h' ∨ t' ≤ c.1)
    (hcov : ∀ p, Covers cs₁ p ∨ (h' ≤ p ∧ p < t') ↔ Covers cs p ∨ (max a next ≤ p ∧ p < t))
    (herased : ∀ c ∈ cs, c ∉ cs₁ → h' < c.1 ∧ c.stop ≤ t' ∧ c.stop < t) :
    ∃ b' cs' next', b.add d (base.advance a) = (true, b') ∧
      Stored b b' base cs cs' next next' a d.length h' t' t ∧
      (b.m_gotFin = false ∨ base.advance next' ≠ b.m_finSeq → Laid base b' cs' head next') ∧
      ∀ stream, Carries stream cs → d = slice stream a d.length → Carries stream cs' := by
  have hle := h.head_le
  have hlt := h.next_lt
  -- the fragment stored
  have hfrag := fragment_eq base hd (show a ≤ h' by omega) hht'.le (by omega)
  have hlen : ((d.drop (h' - a)).take (t' - h')).length = t' - h' := by
    rw [List.length_take, List.length_drop]
    omega
  generalize hdef : (d.drop (h' - a)).take (t' - h') = d' at hfrag hlen
  have hne : d' ≠ [] := by
    rw [← List.length_pos_iff, hlen]
    omega
  have hstop : h' + d'.length = t' := by omega
  -- the packets stored
  have hlay₁ := h.layout.sublist hsub
  have hw₁ := h.within.sublist hsub
  obtain ⟨cs', hassign, hperm, hlay'⟩ := mapAssign_items base (h := h') hlay₁ hw₁ hne
    (by omega) (by omega) (by rw [hstop]; exact hfree)
  have hmem : (h', d') ∈ cs' := hperm.mem_iff.mpr (by simp)
  have hmem' : ∀ c ∈ cs', c = (h', d') ∨ c ∈ cs := fun c hc =>
    (List.mem_cons.mp (hperm.mem_iff.mp hc)).imp id fun hc => hsub.subset hc
  have hcov' : ∀ p, Covers cs' p ↔ Covers cs p ∨ (max a next ≤ p ∧ p < t) := by
    intro p
    rw [covers_perm hperm, covers_cons, ← hcov p, Chunk.stop, hstop, or_comm]
  have hw' : Within head cs' := by
    refine ⟨fun c hc => ?_, fun c hc => ?_⟩
    · rcases hmem' c hc with rfl | hc
      · omega
      · exact h.within.start_le c hc
    · rcases hmem' c hc with rfl | hc
      · rw [Chunk.stop, hstop]
        omega
      · exact h.within.stop_lt c hc
  have hbelow : ∀ c ∈ cs', c.1 < next → c.stop ≤ next := by
    intro c hc hlt'
    rcases hmem' c hc with rfl | hc
    · omega
    · by_contra hgt
      exact h.missing ⟨c, hc, hlt'.le, by omega⟩
  -- the counters
  have hsize : b.m_size - UInt32.ofNat (total cs - total cs₁) + Payload.getSize d' =
      UInt32.ofNat (total cs') := by
    have hle₁ := total_le_of_sublist hsub
    rw [h.size, ← UInt32.ofNat_sub (by omega), Payload.getSize, ← UInt32.ofNat_add,
      total_perm hperm, total_cons]
    congr 1
    dsimp only
    omega
  obtain ⟨next', sack', hfront, hreach, hlt', hsack, hsame, hclear⟩ := advanceOver_items base
    hlay' hw' hle hlt hbelow b.m_availBytes
      (if (base.advance h').gt (base.advance next) then
        updateSackList (base.advance h') (base.advance t') b.m_sackList else b.m_sackList)
  have hgt : (base.advance h').gt (base.advance next) = decide (next < h') :=
    SequenceNumber32.gt_advance (by omega) (by omega)
  have hge : (base.advance h').ge (base.advance t') = false := by
    rw [SequenceNumber32.ge_advance (by omega) (by omega)]
    simpa using hht'
  refine ⟨{ b with
      m_data := items base cs'
      m_size := UInt32.ofNat (total cs')
      m_nextRxSeq := if b.m_gotFin && base.advance next' == b.m_finSeq then
        (base.advance next').add 1 else base.advance next'
      m_availBytes := b.m_availBytes + UInt32.ofNat (next' - next)
      m_sackList := sack' }, cs', next', ?_, ?_, ?_, ?_⟩
  · simp only [TcpRxBuffer.add, add_getSize, htrim, hloop, hge, hfrag, hassign, h.next_eq, hfront,
      hsize, Bool.false_eq_true, if_false]
  · exact
      { lt := hht'
        start_le := hh
        stop_le := ht₁
        tail_le := ht
        limit := hlimit
        mem := ⟨d', hmem, hstop⟩
        mem_or := by
          intro c hc
          rcases hmem' c hc with rfl | hc
          · exact .inr ⟨rfl, hstop⟩
          · exact .inl hc
        covers := hcov'
        apart := by
          intro c hc
          by_cases hc₁ : c ∈ cs₁
          · exact (hfree c hc₁).imp id .inl
          · exact .inr (.inr (herased c hc hc₁))
        settings := ⟨rfl, rfl, rfl⟩
        reaches := hreach
        ahead := by
          intro hahead
          have hfar : ¬ (max a next ≤ next ∧ next < t) := by
            intro hin
            rcases (hcov next).mpr (.inr hin) with hc₁ | hc₁
            · obtain ⟨c, hc, h1, h2⟩ := hc₁
              exact h.missing ⟨c, hsub.subset hc, h1, h2⟩
            · omega
          have hnext : next' = next := by
            by_contra hne'
            have hc := hreach.covered next (Nat.le_refl _) (by have := hreach.le; omega)
            exact ((hcov' next).mp hc).elim h.missing hfar
          rw [hgt, if_pos (by simpa using hahead)] at hsame
          exact ⟨by omega, hnext, hsame hnext⟩
        inOrder := by
          intro heq
          rw [hgt, if_neg (by simp [heq])] at hsack
          have hc : Covers cs' next := ⟨(h', d'), hmem, by omega, by
            rw [Chunk.stop, hstop]
            omega⟩
          have hnext : next < next' := by
            have := hreach.le
            rcases Nat.eq_or_lt_of_le this with heq' | hlt''
            · rw [heq'] at hc
              exact absurd hc hreach.missing
            · exact hlt''
          exact ⟨hnext, hsack, hclear hnext⟩ }
  · intro hfin
    have hif : (b.m_gotFin && base.advance next' == b.m_finSeq) = false := by
      rcases hfin with hfin | hfin
      · rw [hfin, Bool.false_and]
      · rw [Bool.and_eq_false_iff]
        exact .inr (by simpa using hfin)
    exact
      { data := rfl
        layout := hlay'
        within := hw'
        size := rfl
        next_eq := by
          dsimp only
          rw [hif]
          rfl
        avail := by
          dsimp only
          have := hreach.le
          rw [h.avail, ← UInt32.ofNat_add]
          congr 1
          omega
        head_le := hle.trans hreach.le
        next_lt := hlt'
        covered := by
          intro p hp hp'
          by_cases hold : p < next
          · exact (hcov' p).mpr (.inl (h.covered p hp hold))
          · exact hreach.covered p (by omega) hp'
        missing := hreach.missing }
  · intro stream hcar hslice c hc
    rcases List.mem_cons.mp (hperm.mem_iff.mp hc) with rfl | hc
    · have := take_drop_slice stream (a := a) (n := d.length) (k := h' - a) (m := t' - h') (by omega)
      rw [← hslice, hdef] at this
      dsimp only
      rw [this]
      congr 1
      · omega
      · rw [length_slice]
    · exact hcar c (hsub.subset hc)

/-- `Add` of a packet, whatever is left of it, returns false and changes nothing, or stores
what is new of it. -/
theorem Laid.add_windowed (h : Laid base b cs head next) (hd : d.length < 2 ^ 32)
    (hstart : next < a + 2 ^ 31)
    (htrim : Windowed base b head next a d.length
      (b.trimToWindow (base.advance a) (base.advance (a + d.length)))) :
    b.add d (base.advance a) = (false, b) ∨
      ∃ b' cs' next' h' t' t, b.add d (base.advance a) = (true, b') ∧
        Stored b b' base cs cs' next next' a d.length h' t' t ∧
        (b.m_gotFin = false ∨ base.advance next' ≠ b.m_finSeq → Laid base b' cs' head next') ∧
        ∀ stream, Carries stream cs → d = slice stream a d.length → Carries stream cs' := by
  have hle := h.head_le
  have hlt := h.next_lt
  have hempty := fun z => removeOverlapped_empty base b.m_size h.layout h.within z
  generalize hcut : b.trimToWindow (base.advance a) (base.advance (a + d.length)) = cut at htrim
  cases htrim with
  | nothing z =>
    left
    obtain ⟨h', t', hloop, hge⟩ := hempty z
    rw [← h.data] at hloop
    exact add_refused hcut hloop hge
  | past hnil hshort =>
    left
    refine add_refused hcut (by rw [hnil]; rfl) ?_
    rw [SequenceNumber32.ge_advance (by omega) (by omega)]
    simpa using hshort.le
  | cut t hht ht hin hlimit =>
    rcases Nat.eq_or_lt_of_le hht with heq | hlt'
    · left
      obtain ⟨h', t', hloop, hge⟩ := hempty (base.advance t)
      rw [← h.data] at hloop
      rw [heq] at hcut
      exact add_refused hcut hloop hge
    · obtain ⟨h', t', cs₁, hloop, hcs₁, hh', ht'⟩ := removeOverlapped_items base
        b.m_size h.layout h.within (h := max a next) (t := t) (by omega) (by omega)
        (.inl hlt')
      rw [← h.data] at hloop
      cases hcs₁ with
      | nothing hle' hall =>
        left
        refine add_refused hcut (t := base.advance t') (h := base.advance h') ?_ ?_
        · rw [hloop, h.data, Nat.sub_self]
          simp
        · rw [SequenceNumber32.ge_advance (by omega) (by omega)]
          simpa using hle'
      | part hht' hh ht₁ hsub hfree hcov herased =>
        right
        obtain ⟨b', cs', next', hadd, hstored, hlaid, hcar⟩ := h.add_stored hd hcut ht hin
          hlimit hloop hht' hh ht₁ hsub hfree hcov herased
        exact ⟨b', cs', next', h', t', t, hadd, hstored, hlaid, hcar⟩

/-- `Add` of a packet returns false and changes nothing, or stores what is new of it. -/
theorem Laid.add (h : Laid base b cs head next) (hn : Near base b head next a d.length) :
    b.add d (base.advance a) = (false, b) ∨
      ∃ b' cs' next' h' t' t, b.add d (base.advance a) = (true, b') ∧
        Stored b b' base cs cs' next next' a d.length h' t' t ∧
        (b.m_gotFin = false ∨ base.advance next' ≠ b.m_finSeq → Laid base b' cs' head next') ∧
        ∀ stream, Carries stream cs → d = slice stream a d.length → Carries stream cs' := by
  have hstop := hn.stop
  have hstart := hn.start
  have hle := h.head_le
  exact h.add_windowed (by omega) hstart (h.trimToWindow hn)

/-- `Extract` takes the bytes from the head on out, as many as are asked for and available. -/
theorem Laid.extract (h : Laid base b cs head next) (maxSize : UInt32) :
    ∃ b' cs' d, b.extract maxSize = (d, b') ∧ d.length = min maxSize.toNat (next - head) ∧
      Laid base b' cs' (head + d.length) next ∧ Dropped cs cs' (head + d.length) ∧
      b'.m_sackList = b.m_sackList ∧
      (b'.m_maxBuffer = b.m_maxBuffer ∧ b'.m_gotFin = b.m_gotFin ∧ b'.m_finSeq = b.m_finSeq) ∧
      ∀ stream, Carries stream cs → d = slice stream head d.length := by
  have hle := h.head_le
  have hlt := h.next_lt
  have hmax := maxSize.toNat_lt
  have hmin : min maxSize b.m_availBytes = UInt32.ofNat (min maxSize.toNat (next - head)) := by
    rw [h.avail, min_ofNat maxSize (by omega)]
  generalize hk : min maxSize.toNat (next - head) = k at hmin
  obtain ⟨cs', d, heq, hdrop, hd, htotal, hslice⟩ := extractLoop_items base h.layout
    h.within h.within.start_le (e := k) (fun p hp hp' => h.covered p hp (by omega)) (by omega) [] b
  refine ⟨{ b with
      m_data := items base cs'
      m_size := b.m_size - UInt32.ofNat k
      m_availBytes := b.m_availBytes - UInt32.ofNat k }, cs', d,
    by rw [TcpRxBuffer.extract, hmin, h.data, heq, List.nil_append], hd, ?_, ?_, rfl,
    ⟨rfl, rfl, rfl⟩, ?_⟩
  · rw [hd]
    exact
      { data := rfl
        layout := hdrop.layout
        within := by
          refine ⟨hdrop.start_le, fun c hc => ?_⟩
          obtain ⟨c', hc', hstop⟩ := hdrop.stop_le c hc
          have := h.within.stop_lt c' hc'
          omega
        size := by
          dsimp only
          rw [h.size, ← UInt32.ofNat_sub (by omega)]
          congr 1
          omega
        next_eq := h.next_eq
        avail := by
          dsimp only
          rw [h.avail, ← UInt32.ofNat_sub (by omega)]
          congr 1
          omega
        head_le := by omega
        next_lt := by omega
        covered := fun p hp hp' => (hdrop.covers p).mpr ⟨h.covered p (by omega) hp', hp⟩
        missing := fun hc => h.missing ((hdrop.covers next).mp hc).1 }
  · rw [hd]
    exact hdrop
  · rw [hd]
    exact hslice

end Add

/-! ### Runs -/

/-- The buffer has the byte with this sequence number. -/
def TcpRxBuffer.Holds (b : TcpRxBuffer) (s : SequenceNumber32) : Prop :=
  ∃ x ∈ b.m_data, (s.diff x.1).toNat < x.2.length

/-- The bytes a buffer has are those its chunks cover. -/
theorem Laid.holds_iff {base : SequenceNumber32} {b : TcpRxBuffer} {cs : List (Chunk UInt8)}
    {head next : Nat} (h : Laid base b cs head next) {p : Nat} (hp : head ≤ p) (hp' : p < head + 2 ^ 31) :
    b.Holds (base.advance p) ↔ Covers cs p := by
  have hkey : ∀ c ∈ cs, ((base.advance p).diff (base.advance c.1)).toNat < c.2.length ↔
      c.1 ≤ p ∧ p < c.stop := by
    intro c hc
    have hlo := h.within.start_le c hc
    have hhi := h.within.stop_lt c hc
    have hlen : c.stop = c.1 + c.2.length := rfl
    by_cases hle : c.1 ≤ p
    · rw [SequenceNumber32.toNat_diff_advance hle (by omega)]
      omega
    · rw [SequenceNumber32.toNat_diff_advance_of_lt (by omega) (by omega)]
      omega
  rw [TcpRxBuffer.Holds, h.data]
  constructor
  · rintro ⟨x, hx, hlt⟩
    obtain ⟨c, hc, rfl⟩ := List.mem_map.mp hx
    exact ⟨c, hc, (hkey c hc).mp hlt⟩
  · rintro ⟨c, hc, hle⟩
    exact ⟨_, List.mem_map_of_mem hc, (hkey c hc).mpr hle⟩

/-- A receive buffer, the stream positions it has accepted so far, and what was extracted. -/
structure Reassembly where
  rxBuffer : TcpRxBuffer
  accepted : Nat → Prop := fun _ => False
  extracted : Payload := []

namespace Reassembly

/-- The stream position of `m_nextRxSeq`. -/
def next (s : Reassembly) : Nat := s.extracted.length + s.rxBuffer.m_availBytes.toNat

/-- `Add` of the `len` bytes from position `a` on. A byte not below `m_nextRxSeq` that the
buffer has afterwards was accepted. -/
def add (stream : Nat → UInt8) (base : SequenceNumber32) (s : Reassembly) (a len : Nat) :
    Reassembly :=
  let rxBuffer := (s.rxBuffer.add (slice stream a len) (base.advance a)).2
  { s with
    rxBuffer := rxBuffer
    accepted := fun p => s.accepted p ∨
      (a ≤ p ∧ p < a + len ∧ s.next ≤ p ∧ rxBuffer.Holds (base.advance p)) }

/-- `Extract`. -/
def extract (s : Reassembly) (maxSize : UInt32) : Reassembly :=
  let (d, rxBuffer) := s.rxBuffer.extract maxSize
  { s with rxBuffer := rxBuffer, extracted := s.extracted ++ d }

/-- Calls of `Add` with the packets allowed, and of `Extract`. -/
inductive Step (stream : Nat → UInt8) (base : SequenceNumber32)
    (allowed : Reassembly → Nat → Nat → Prop) (s : Reassembly) : Reassembly → Prop where
  | add (a len : Nat) (h : allowed s a len) : Step stream base allowed s (s.add stream base a len)
  | extract (maxSize : UInt32) : Step stream base allowed s (s.extract maxSize)

/-- The states reached from an empty buffer. -/
inductive Reached (stream : Nat → UInt8) (base : SequenceNumber32)
    (allowed : Reassembly → Nat → Nat → Prop) (maxBuffer : UInt32) : Reassembly → Prop where
  | start : Reached stream base allowed maxBuffer
      { rxBuffer := { m_nextRxSeq := base, m_maxBuffer := maxBuffer } }
  | step {s s' : Reassembly} (h : Reached stream base allowed maxBuffer s)
      (hstep : Step stream base allowed s s') : Reached stream base allowed maxBuffer s'

/-- The packet lies within half the sequence space. -/
def WithinHalf (s : Reassembly) (a len : Nat) : Prop := Half s.extracted.length s.next a len

/-- The packet lies within half the sequence space, the limit of the buffer included. -/
def WithinLimit (base : SequenceNumber32) (s : Reassembly) (a len : Nat) : Prop :=
  Near base s.rxBuffer s.extracted.length s.next a len

/-- The buffer is laid out in stream positions and carries the stream; what was extracted is
the stream up to the head; and the bytes accepted are those below `next` and those stored. -/
structure Sound (stream : Nat → UInt8) (base : SequenceNumber32) (s : Reassembly)
    (cs : List (Chunk UInt8)) (next : Nat) : Prop where
  laid : Laid base s.rxBuffer cs s.extracted.length next
  noFin : s.rxBuffer.m_gotFin = false
  carries : Carries stream cs
  extracted_eq : s.extracted = slice stream 0 s.extracted.length
  accepted : ∀ p, s.accepted p ↔ p < next ∨ Covers cs p

variable {stream : Nat → UInt8} {base : SequenceNumber32} {s : Reassembly}
  {cs : List (Chunk UInt8)} {next : Nat}

/-- The position of `m_nextRxSeq` is that of the first byte missing. -/
theorem Sound.next_eq (h : Sound stream base s cs next) : s.next = next := by
  have hle := h.laid.head_le
  have hlt := h.laid.next_lt
  rw [Reassembly.next, h.laid.avail, UInt32.toNat_ofNat', Nat.mod_eq_of_lt (by omega)]
  omega

/-- A packet within the limit, from the first byte missing. -/
theorem Sound.near (h : Sound stream base s cs next) {a len : Nat} (hn : s.WithinLimit base a len) :
    Near base s.rxBuffer s.extracted.length next a len := by
  rw [← h.next_eq]
  exact hn

/-- `Add` that stores nothing keeps the buffer sound. -/
theorem Sound.add_refused (h : Sound stream base s cs next) {a len : Nat}
    (hn : Near base s.rxBuffer s.extracted.length next a len)
    (hadd : s.rxBuffer.add (slice stream a len) (base.advance a) = (false, s.rxBuffer)) :
    Sound stream base (s.add stream base a len) cs next := by
  have hle := h.laid.head_le
  have hstop := hn.stop
  refine ⟨?_, ?_, h.carries, h.extracted_eq, fun p => ?_⟩
  · simp only [Reassembly.add, hadd]
    exact h.laid
  · simp only [Reassembly.add, hadd]
    exact h.noFin
  · simp only [Reassembly.add, hadd, h.accepted, h.next_eq]
    constructor
    · rintro (hp | ⟨hp, hp', hnext, hholds⟩)
      · exact hp
      · exact .inr ((h.laid.holds_iff (by omega) (by omega)).mp hholds)
    · exact .inl

/-- `Add` that stores bytes keeps the buffer sound. -/
theorem Sound.add_stored (h : Sound stream base s cs next) {a len : Nat}
    (hn : Near base s.rxBuffer s.extracted.length next a len) {b' : TcpRxBuffer}
    {cs' : List (Chunk UInt8)} {next' h' t' t : Nat}
    (hadd : s.rxBuffer.add (slice stream a len) (base.advance a) = (true, b'))
    (hstored : Stored s.rxBuffer b' base cs cs' next next' a len h' t' t)
    (hlaid : Laid base b' cs' s.extracted.length next') (hcar : Carries stream cs') :
    Sound stream base (s.add stream base a len) cs' next' := by
  have hle := h.laid.head_le
  have hge := hstored.reaches.le
  have hstop := hn.stop
  have hstart := hstored.start_le
  have htail := hstored.tail_le
  have hnew : ∀ p, max a next ≤ p → p < t → a ≤ p ∧ p < a + len ∧ next ≤ p ∧
      b'.Holds (base.advance p) := fun p hp hp' =>
    ⟨by omega, by omega, by omega, (hlaid.holds_iff (by omega) (by omega)).mpr
      ((hstored.covers p).mpr (.inr ⟨hp, hp'⟩))⟩
  have hcov : ∀ p, Covers cs' p → (p < next ∨ Covers cs p) ∨ a ≤ p ∧ p < a + len ∧ next ≤ p ∧
      b'.Holds (base.advance p) := fun p hc =>
    ((hstored.covers p).mp hc).elim (fun hc => .inl (.inr hc)) fun hp => .inr (hnew p hp.1 hp.2)
  refine ⟨?_, ?_, hcar, h.extracted_eq, fun p => ?_⟩
  · simp only [Reassembly.add, hadd]
    exact hlaid
  · simp only [Reassembly.add, hadd]
    exact hstored.settings.2.1.trans h.noFin
  · simp only [Reassembly.add, hadd, h.accepted, h.next_eq]
    constructor
    · rintro ((hp | hp) | ⟨hp, hp', hnext, hholds⟩)
      · exact .inl (by omega)
      · exact .inr ((hstored.covers p).mpr (.inl hp))
      · exact .inr ((hlaid.holds_iff (by omega) (by omega)).mp hholds)
    · rintro (hp | hp)
      · by_cases hold : p < next
        · exact .inl (.inl hold)
        · exact hcov p (hstored.reaches.covered p (by omega) hp)
      · exact hcov p hp

/-- `Add` refuses a packet and leaves the buffer alone, or stores bytes; both keep the buffer
sound. -/
theorem Sound.add (h : Sound stream base s cs next) {a len : Nat}
    (hn : Near base s.rxBuffer s.extracted.length next a len) :
    (s.add stream base a len).rxBuffer = s.rxBuffer ∧
        Sound stream base (s.add stream base a len) cs next ∨
      ∃ cs' next' h' t' t,
        Stored s.rxBuffer (s.add stream base a len).rxBuffer base cs cs' next next' a len h' t' t ∧
          Sound stream base (s.add stream base a len) cs' next' := by
  have hadd := h.laid.add (d := slice stream a len) (a := a) (by rwa [length_slice])
  rw [length_slice] at hadd
  rcases hadd with hadd | ⟨b', cs', next', h', t', t, hadd, hstored, hlaid, hcar⟩
  · exact .inl ⟨by simp only [Reassembly.add, hadd], h.add_refused hn hadd⟩
  · have hbuf : (s.add stream base a len).rxBuffer = b' := by
      simp only [Reassembly.add, hadd]
    exact .inr ⟨cs', next', h', t', t, hbuf ▸ hstored, h.add_stored hn hadd hstored
      (hlaid (.inl h.noFin)) (hcar stream h.carries rfl)⟩

/-- `Extract` keeps the buffer sound, the SACK blocks, and the bytes not below
`m_nextRxSeq`. -/
theorem Sound.extract (h : Sound stream base s cs next) (maxSize : UInt32) :
    ∃ cs', Sound stream base (s.extract maxSize) cs' next ∧
      (s.extract maxSize).rxBuffer.m_sackList = s.rxBuffer.m_sackList ∧
      ∀ p, next ≤ p → Covers cs p → Covers cs' p := by
  obtain ⟨b', cs', d, heq, hd, hlaid, hdrop, hsack, hset, hslice⟩ := h.laid.extract maxSize
  have hle := h.laid.head_le
  refine ⟨cs', ⟨?_, ?_, hdrop.carries stream h.carries, ?_, fun p => ?_⟩, ?_,
    fun p hp hc => (hdrop.covers p).mpr ⟨hc, by omega⟩⟩
  · simp only [Reassembly.extract, heq, List.length_append]
    exact hlaid
  · simp only [Reassembly.extract, heq]
    exact hset.2.1.trans h.noFin
  · simp only [Reassembly.extract, heq, List.length_append]
    rw [← slice_append, Nat.zero_add, ← h.extracted_eq, ← hslice stream h.carries]
  · simp only [Reassembly.extract, heq, h.accepted, hdrop.covers]
    constructor
    · rintro (hp | hp)
      · exact .inl hp
      · by_cases hlt : p < next
        · exact .inl hlt
        · exact .inr ⟨hp, by omega⟩
    · exact Or.imp_right And.left
  · simp only [Reassembly.extract, heq]
    exact hsack

/-- An empty buffer is sound. -/
theorem Sound.start (stream : Nat → UInt8) (base : SequenceNumber32) (maxBuffer : UInt32) :
    Sound stream base { rxBuffer := { m_nextRxSeq := base, m_maxBuffer := maxBuffer } } [] 0 where
  laid :=
    { data := rfl
      layout := Layout.nil
      within := ⟨by simp, by simp⟩
      size := rfl
      next_eq := by simp
      avail := rfl
      head_le := Nat.le_refl _
      next_lt := by simp
      covered := by simp
      missing := by simp }
  noFin := rfl
  carries := by simp [Carries]
  extracted_eq := rfl
  accepted := by simp

/-- Every state reached is sound. -/
theorem Reached.sound {maxBuffer : UInt32}
    (h : Reached stream base (WithinLimit base) maxBuffer s) :
    ∃ cs next, Sound stream base s cs next := by
  induction h with
  | start =>
    exact ⟨[], 0, Sound.start stream base maxBuffer⟩
  | step _ hstep ih =>
    obtain ⟨cs, next, h⟩ := ih
    cases hstep with
    | add a len hn =>
      rcases h.add (h.near hn) with ⟨-, h'⟩ | ⟨cs', next', -, -, -, -, h'⟩
      · exact ⟨cs, next, h'⟩
      · exact ⟨cs', next', h'⟩
    | extract maxSize =>
      obtain ⟨cs', h', -⟩ := h.extract maxSize
      exact ⟨cs', next, h'⟩

end Reassembly

open Reassembly

end Ns3.Tcp
