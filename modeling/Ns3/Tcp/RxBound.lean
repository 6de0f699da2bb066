import Ns3.Tcp.RxStream
import Mathlib.Data.UInt

/-!
# The bound of the receive buffer

Calls of `Add` with segments that pass `OutOfRange`, of `Extract` and of `SetFinSequence`. `Add`
cuts a segment to the limit counted from the first packet stored, not to `MaxRxSequence`: the
two agree only when the first packet stored lies at the head. Where every segment is cut or ends
in time, the buffer keeps its bound.
-/

namespace Ns3.Tcp

open Ns3.Network Ns3.Lib

/-- The calls of a receive buffer. -/
inductive RxCall where
  | add (p : Payload) (seq : SequenceNumber32)
  | extract (maxSize : UInt32)
  | setFinSequence (s : SequenceNumber32)

namespace RxCall

/-- The buffer after the call. -/
def run (b : TcpRxBuffer) : RxCall → TcpRxBuffer
  | add p seq => (b.add p seq).2
  | extract maxSize => (b.extract maxSize).2
  | setFinSequence s => b.setFinSequence s

/-- A segment passed to `Add` is shorter than half the sequence space and passes `OutOfRange`. -/
def InRange (b : TcpRxBuffer) : RxCall → Prop
  | add p seq => p.length < 2 ^ 31 ∧ b.outOfRange seq (seq.add p.getSize) = false
  | _ => True

/-- The cut of `Add` agrees with `MaxRxSequence`, or the segment needs none: the first packet
stored is not behind a gap, and no FIN was received, or the segment ends in time. -/
def CutInTime (b : TcpRxBuffer) (p : Payload) (seq : SequenceNumber32) : Prop :=
  (b.m_gotFin = false ∧ ∃ x ∈ b.m_data.head?, x.1.le b.m_nextRxSeq = true) ∨
    p.length ≤ (b.maxRxSequence.diff seq).toNat

/-- After a FIN, some byte before it is still missing. -/
def Unfinished (b : TcpRxBuffer) (p : Payload) (seq : SequenceNumber32) : Prop :=
  b.m_gotFin = true → ∃ s : SequenceNumber32, b.m_nextRxSeq.le s = true ∧ s.lt b.m_finSeq = true ∧
    ¬ b.Holds s ∧ p.length ≤ (s.diff seq).toNat

/-- The call keeps within the limit: a segment is cut in time and does not complete the stream,
and a FIN lies above `m_nextRxSeq`, not above the limit, and not below a byte stored. -/
def Fitting (b : TcpRxBuffer) : RxCall → Prop
  | add p seq => CutInTime b p seq ∧ Unfinished b p seq
  | extract _ => True
  | setFinSequence s => s.gt b.m_nextRxSeq = true ∧ s.le b.maxRxSequence = true ∧
      ∀ r, b.Holds r → r.lt s = true

/-- What the buffer is bounded by across a call. -/
structure Bounded (b b' : TcpRxBuffer) : Prop where
  size : b'.m_size ≤ b'.m_maxBuffer
  below : ∀ s, b'.Holds s → s.lt b.maxRxSequence = true
  window : b'.maxRxSequence.ge b'.m_nextRxSeq = true

/-- The buffers reached from an empty one by the calls allowed. -/
inductive Reached (allowed : TcpRxBuffer → RxCall → Prop) (maxBuffer : UInt32) :
    TcpRxBuffer → Prop where
  | start (n : SequenceNumber32) :
      Reached allowed maxBuffer { m_nextRxSeq := n, m_maxBuffer := maxBuffer }
  | step {b : TcpRxBuffer} (h : Reached allowed maxBuffer b) (c : RxCall) (hc : allowed b c) :
      Reached allowed maxBuffer (c.run b)

end RxCall

open RxCall

/-! ### The limit -/

/-- The buffer is laid out in positions, `limit` is that of `MaxRxSequence`, and no byte stored
lies at or beyond it. -/
structure Limited (base : SequenceNumber32) (b : TcpRxBuffer) (cs : List (Chunk UInt8))
    (head next limit : Nat) : Prop where
  laid : Laid base b cs head next
  far : 2 ^ 31 ≤ head
  small : b.m_maxBuffer.toNat < 2 ^ 31
  fin : b.m_gotFin = true → next < limit ∧ b.m_finSeq = base.advance limit
  noFin : b.m_gotFin = false → limit = head + b.m_maxBuffer.toNat
  limit_le : limit ≤ head + b.m_maxBuffer.toNat
  stop_le : ∀ c ∈ cs, c.stop ≤ limit

section Limit

variable {base : SequenceNumber32} {b : TcpRxBuffer} {cs : List (Chunk UInt8)}
  {head next limit : Nat}

/-- The bytes a buffer has lie at the positions its chunks cover. -/
theorem Laid.exists_of_holds (h : Laid base b cs head next) {s : SequenceNumber32}
    (hs : b.Holds s) : ∃ p, s = base.advance p ∧ Covers cs p := by
  obtain ⟨x, hx, hlt⟩ := hs
  rw [h.data] at hx
  obtain ⟨c, hc, rfl⟩ := List.mem_map.mp hx
  refine ⟨c.1 + (s.diff (base.advance c.1)).toNat, ?_, c, hc, by omega, by
    rw [Chunk.stop]
    exact Nat.add_lt_add_left hlt _⟩
  rw [← SequenceNumber32.add_advance, SequenceNumber32.add_diff]

/-- The first chunk lies at the head when bytes are available, else behind a gap. -/
theorem Laid.head_cases (h : Laid base b cs head next) {c : Chunk UInt8}
    (hc : c ∈ cs.head?) : c.1 = head ∧ head < next ∨ head = next ∧ next < c.1 := by
  obtain ⟨cs, rfl⟩ : ∃ rest, cs = c :: rest := by
    cases cs with
    | nil => cases hc
    | cons d rest => exact ⟨rest, by rw [Option.some.inj hc]⟩
  obtain ⟨hne, hafter, -⟩ := (layout_cons c cs).mp h.layout
  have hlo := h.within.start_le c (by simp)
  have hle := h.head_le
  have hstop : c.1 < c.stop := h.layout.lt_stop (by simp)
  by_cases heq : head = next
  · refine .inr ⟨heq, ?_⟩
    by_contra hge
    exact h.missing ⟨c, by simp, by omega, by omega⟩
  · left
    obtain ⟨d, hd, hd1, hd2⟩ := h.covered head (Nat.le_refl _) (by omega)
    rcases List.mem_cons.mp hd with rfl | hd
    · exact ⟨by omega, by omega⟩
    · have := hafter d hd
      omega

/-- Every byte below `next` is stored or extracted, so `next` is not past the limit. -/
theorem Limited.next_le (h : Limited base b cs head next limit) : next ≤ limit := by
  cases hfin : b.m_gotFin with
  | true => exact (h.fin hfin).1.le
  | false =>
    have hlimit := h.noFin hfin
    by_contra hlt
    have hle := h.laid.head_le
    obtain ⟨c, hc, h1, h2⟩ := h.laid.covered (next - 1) (by omega) (by omega)
    have := h.stop_le c hc
    omega

/-- `MaxRxSequence` is the limit. -/
theorem Limited.maxRxSequence (h : Limited base b cs head next limit) :
    b.maxRxSequence = base.advance limit := by
  have hle := h.laid.head_le
  have hlt := h.laid.next_lt
  rw [TcpRxBuffer.maxRxSequence]
  cases hfin : b.m_gotFin with
  | true => exact (h.fin hfin).2
  | false =>
    rw [if_neg (by simp), h.noFin hfin, h.laid.data, h.laid.next_eq]
    cases cs with
    | nil =>
      have heq : head = next := by
        by_contra hne
        exact not_covers_nil head (h.laid.covered head (Nat.le_refl _) (by omega))
      rw [heq]
      exact SequenceNumber32.add_advance _ _ _
    | cons c rest =>
      have hlo := h.laid.within.start_le c (by simp)
      have hhi := h.laid.within.stop_lt c (by simp)
      have hpos := h.laid.layout.lt_stop (c := c) (by simp)
      simp only [items, List.map_cons]
      rw [SequenceNumber32.gt_advance (by omega) (by omega)]
      rcases h.laid.head_cases (c := c) rfl with ⟨heq, hlt'⟩ | ⟨heq, hlt'⟩
      · rw [if_pos (by simpa [heq] using hlt'), SequenceNumber32.add_advance, heq]
      · rw [if_neg (by simpa using hlt'.le), SequenceNumber32.add_advance, heq]

/-- What the limit says of the bytes stored and of the window. -/
theorem Limited.bounded {b₀ : TcpRxBuffer} {limit₀ : Nat}
    (h : Limited base b cs head next limit)
    (h₀ : b₀.maxRxSequence = base.advance limit₀) (hlim₀ : limit₀ < head + 2 ^ 31)
    (hstop : ∀ c ∈ cs, c.stop ≤ limit₀) : Bounded b₀ b := by
  have hsmall := h.small
  have hlim := h.limit_le
  have hnext := h.next_le
  have hfit := h.laid.layout.total_le h.laid.within.start_le h.stop_le
  have hle := h.laid.head_le
  refine ⟨?_, fun s hs => ?_, ?_⟩
  · rw [UInt32.le_iff_toNat_le, h.laid.size, UInt32.toNat_ofNat', Nat.mod_eq_of_lt (by omega)]
    omega
  · obtain ⟨p, rfl, c, hc, h1, h2⟩ := h.laid.exists_of_holds hs
    have hstop := hstop c hc
    have hlo := h.laid.within.start_le c hc
    rw [h₀, SequenceNumber32.lt_advance (by omega) (by omega)]
    simpa using h2.trans_le hstop
  · rw [h.maxRxSequence, h.laid.next_eq, SequenceNumber32.ge_advance (by omega) (by omega)]
    simpa using hnext

/-! ### One call -/

/-- A sequence number not at or beyond the limit is a position at most half the space below it. -/
theorem exists_of_not_le {s : SequenceNumber32} (hfar : 2 ^ 31 ≤ limit)
    (hle : (base.advance limit).le s = false) :
    ∃ a, s = base.advance a ∧ a < limit ∧ limit ≤ a + 2 ^ 31 := by
  rw [SequenceNumber32.le, Bool.not_eq_false', SequenceNumber32.gt_iff] at hle
  obtain ⟨hpos, hhalf⟩ := hle
  refine ⟨limit - ((base.advance limit).diff s).toNat, ?_, by omega, by omega⟩
  rw [← SequenceNumber32.sub_advance (by omega), SequenceNumber32.sub_diff]

/-- A segment that passes `OutOfRange` starts less than half the space below `m_nextRxSeq` and
does not end below it. -/
theorem Limited.inRange (h : Limited base b cs head next limit) {p : Payload}
    {seq : SequenceNumber32} (hin : (RxCall.add p seq).InRange b) :
    ∃ a, seq = base.advance a ∧ a < limit ∧ limit ≤ a + 2 ^ 31 ∧ next < a + 2 ^ 31 ∧
      next ≤ a + p.length := by
  obtain ⟨hlen, hrange⟩ := hin
  have hnext := h.next_le
  have hle := h.laid.head_le
  have hfar := h.far
  rw [TcpRxBuffer.outOfRange, Bool.or_eq_false_iff, h.maxRxSequence, h.laid.next_eq] at hrange
  obtain ⟨htail, hhead⟩ := hrange
  obtain ⟨a, rfl, ha, ha'⟩ := exists_of_not_le (by omega) hhead
  refine ⟨a, rfl, ha, ha', ?_⟩
  rw [add_getSize] at htail
  by_cases hshort : next < a + 2 ^ 31
  · refine ⟨hshort, ?_⟩
    by_contra hlt
    rw [SequenceNumber32.lt_advance (by omega) (by omega)] at htail
    simp at htail
    omega
  · -- the window is closed and the segment lies half the space below it
    exfalso
    have heq : limit = next := by omega
    subst heq
    by_cases hzero : p.length = 0
    · rw [hzero, Nat.add_zero, SequenceNumber32.lt, Bool.and_eq_false_iff, Bool.not_eq_false',
        bne_eq_false_iff_eq] at htail
      rw [SequenceNumber32.le, Bool.not_eq_false', SequenceNumber32.gt_iff,
        SequenceNumber32.toNat_diff_advance (by omega) (by omega)] at hhead
      rcases htail with hgt | heq
      · rw [SequenceNumber32.gt_iff, SequenceNumber32.toNat_diff_advance_of_lt (by omega) (by omega)]
          at hgt
        obtain ⟨-, hlt⟩ := hgt
        have h1 := hhead.2.resolve_left (by omega)
        have h2 := hlt.resolve_left (by omega)
        exact UInt32.lt_asymm h1.2 h2.2
      · have := SequenceNumber32.toNat_diff_advance (s := base) (p := limit) (q := a) (by omega)
          (by omega)
        rw [heq, SequenceNumber32.diff, UInt32.sub_self, UInt32.toNat_zero] at this
        omega
    · rw [SequenceNumber32.lt_advance (by omega) (by omega)] at htail
      simp at htail
      omega

/-- A segment in range is cut to the receive window so as to end at the limit, when it is cut in
time. -/
theorem Limited.trimToWindow (h : Limited base b cs head next limit) {p : Payload} {a : Nat}
    (hlen : p.length < 2 ^ 31) (ha : a < limit) (ha' : limit ≤ a + 2 ^ 31)
    (hstart : next < a + 2 ^ 31) (hstop : next ≤ a + p.length)
    (hcut : CutInTime b p (base.advance a)) :
    Windowed base b head next a p.length
        (b.trimToWindow (base.advance a) (base.advance (a + p.length))) ∧
      (limit < a + p.length → ∃ x ∈ b.m_data.head?, x.1.add b.m_maxBuffer = base.advance limit) := by
  have hsmall := h.small
  have hlim := h.limit_le
  have hnext := h.next_le
  have hle := h.laid.head_le
  by_cases hpast : a + p.length ≤ limit
  · exact ⟨h.laid.trimToWindow ⟨⟨hstart, by omega⟩, by omega⟩, by omega⟩
  · rcases hcut with ⟨hfin, x, hx, hxle⟩ | hend
    · have hlimit := h.noFin hfin
      rw [h.laid.data, items, List.head?_map] at hx
      obtain ⟨c, hc, rfl⟩ := Option.map_eq_some_iff.mp hx
      have hmem : c ∈ cs := List.mem_of_mem_head? hc
      have hlo := h.laid.within.start_le c hmem
      have hhi := h.laid.within.stop_lt c hmem
      have hpos := h.laid.layout.lt_stop hmem
      have hlt := h.laid.next_lt
      rw [h.laid.next_eq, SequenceNumber32.le_advance (by omega) (by omega),
        decide_eq_true_eq] at hxle
      have hhead : c.1 = head := by
        rcases h.laid.head_cases hc with ⟨heq, -⟩ | ⟨-, hgap⟩
        · exact heq
        · omega
      have hmax : (base.advance c.1).add b.m_maxBuffer = base.advance limit := by
        rw [SequenceNumber32.add_advance, hhead, hlimit]
      obtain ⟨rest, hrest⟩ : ∃ rest, b.m_data = (base.advance c.1, c.2) :: rest := by
        rw [h.laid.data, items]
        cases cs with
        | nil => cases hc
        | cons d ds => exact ⟨_, by rw [List.map_cons, Option.some.inj hc]⟩
      refine ⟨?_, fun _ => ⟨_, by rw [hrest]; rfl, hmax⟩⟩
      have htail : (base.advance limit).lt (base.advance (a + p.length)) = true := by
        rw [SequenceNumber32.lt_advance (by omega) (by omega)]
        exact decide_eq_true (by omega)
      have hfront : (base.advance limit).lt (base.advance (max a next)) = false := by
        rw [SequenceNumber32.lt_advance (by omega) (by omega)]
        exact decide_eq_false (by omega)
      rw [TcpRxBuffer.trimToWindow, h.laid.trimHead hstart (by omega), hrest]
      simp only [hmax, htail, hfront, if_true, Bool.false_eq_true, if_false]
      exact .cut limit (by omega) (by omega) (by omega) (by
        rw [hrest]
        intro y hy
        rw [← Option.some.inj hy]
        exact .inr hmax)
    · rw [h.maxRxSequence, SequenceNumber32.toNat_diff_advance ha.le (by omega)] at hend
      omega


/-- A segment in range, cut in time, is stored below the limit. -/
theorem Limited.add (h : Limited base b cs head next limit) {p : Payload} {seq : SequenceNumber32}
    (hin : (RxCall.add p seq).InRange b) (hcut : CutInTime b p seq) (hfin : Unfinished b p seq) :
    ∃ cs' next', Limited base (b.add p seq).2 cs' head next' limit := by
  obtain ⟨a, rfl, ha, ha', hstart, hstop⟩ := h.inRange hin
  have hlen := hin.1
  have hlim := h.limit_le
  have hsmall := h.small
  have hle := h.laid.head_le
  obtain ⟨hwin, hpast⟩ := h.trimToWindow hlen ha ha' hstart hstop hcut
  rcases h.laid.add_windowed (by omega) hstart hwin with
    hadd | ⟨b', cs', next', h', t', t, hadd, hstored, hlaid, -⟩
  · rw [hadd]
    exact ⟨cs, next, h⟩
  · rw [hadd]
    have ht := hstored.tail_le
    have hh := hstored.start_le
    have hlt := hstored.lt
    have ht' := hstored.stop_le
    have hge := hstored.reaches.le
    have htl : t ≤ limit := by
      by_contra hgt
      obtain ⟨x, hx, hmax⟩ := hpast (by omega)
      have := hstored.limit x hx
      rw [hmax, SequenceNumber32.lt_advance (by omega) (by omega),
        SequenceNumber32.advance_inj (by omega) (by omega)] at this
      simp at this
      omega
    have hstops : ∀ c ∈ cs', c.stop ≤ limit := by
      intro c hc
      rcases hstored.mem_or c hc with hc | ⟨-, heq⟩
      · exact h.stop_le c hc
      · omega
    have hnext' : next' ≤ limit := by
      have hnext := h.next_le
      by_contra hgt
      obtain ⟨c, hc, h1, h2⟩ := hstored.reaches.covered (next' - 1) (by omega) (by omega)
      have := hstops c hc
      omega
    obtain ⟨hmaxBuffer, hgotFin, hfinSeq⟩ := hstored.settings
    -- the FIN is not reached
    have hopen : b.m_gotFin = true → next' ≠ limit := by
      intro hgot heq
      obtain ⟨s, hs1, hs2, hs3, hs4⟩ := hfin hgot
      obtain ⟨hlt', hseq⟩ := h.fin hgot
      rw [hseq] at hs2
      rw [h.laid.next_eq] at hs1
      obtain ⟨q, rfl, hq⟩ : ∃ q, s = base.advance q ∧ next ≤ q ∧ q < limit := by
        obtain ⟨q, h1, h2, hq⟩ := SequenceNumber32.exists_advance_of_between (s := base)
          (p := next) (q := limit) (by omega) (by omega) (SequenceNumber32.lt_eq_false_of_le hs1) hs2
        exact ⟨q, hq, h1, h2⟩
      have hc := hstored.reaches.covered q hq.1 (by omega)
      rcases (hstored.covers q).mp hc with hc | ⟨h1, h2⟩
      · exact hs3 ((h.laid.holds_iff (by omega) (by omega)).mpr hc)
      · rw [SequenceNumber32.toNat_diff_advance (by omega) (by omega)] at hs4
        omega
    have hopen' : b.m_gotFin = false ∨ base.advance next' ≠ b.m_finSeq := by
      cases hgot : b.m_gotFin with
      | false => exact .inl rfl
      | true =>
        right
        rw [(h.fin hgot).2, Ne, SequenceNumber32.advance_inj (by omega) (by omega)]
        exact hopen hgot
    refine ⟨cs', next',
      { laid := hlaid hopen'
        far := h.far
        small := by rwa [hmaxBuffer]
        fin := fun hgot => ?_
        noFin := fun hgot => ?_
        limit_le := by rwa [hmaxBuffer]
        stop_le := hstops }⟩
    · rw [hgotFin] at hgot
      rw [hfinSeq]
      exact ⟨lt_of_le_of_ne hnext' (hopen hgot), (h.fin hgot).2⟩
    · rw [hgotFin] at hgot
      rw [hmaxBuffer]
      exact h.noFin hgot

/-- `Extract` does not lower the limit. -/
theorem Limited.extract (h : Limited base b cs head next limit) (maxSize : UInt32) :
    ∃ cs' head' limit', Limited base (b.extract maxSize).2 cs' head' next limit' ∧
      head ≤ head' ∧ ∀ c ∈ cs', c.stop ≤ limit := by
  obtain ⟨b', cs', d, heq, hd, hlaid, hdrop, -, ⟨hmaxBuffer, hgotFin, hfinSeq⟩, -⟩ :=
    h.laid.extract maxSize
  rw [heq]
  have hfar := h.far
  have hlim := h.limit_le
  have hstops : ∀ c ∈ cs', c.stop ≤ limit := by
    intro c hc
    obtain ⟨c', hc', hstop⟩ := hdrop.stop_le c hc
    rw [hstop]
    exact h.stop_le c' hc'
  cases hgot : b.m_gotFin with
  | true =>
    refine ⟨cs', head + d.length, limit,
      { laid := hlaid
        far := by omega
        small := by rw [hmaxBuffer]; exact h.small
        fin := fun _ => by rw [hfinSeq]; exact h.fin hgot
        noFin := fun hno => by rw [hgotFin, hgot] at hno; cases hno
        limit_le := by rw [hmaxBuffer]; omega
        stop_le := hstops }, by omega, hstops⟩
  | false =>
    have hlimit := h.noFin hgot
    refine ⟨cs', head + d.length, limit + d.length,
      { laid := hlaid
        far := by omega
        small := by rw [hmaxBuffer]; exact h.small
        fin := fun hyes => by rw [hgotFin, hgot] at hyes; cases hyes
        noFin := fun _ => by rw [hmaxBuffer]; omega
        limit_le := by rw [hmaxBuffer]; omega
        stop_le := fun c hc => (hstops c hc).trans (by omega) }, by omega, hstops⟩

/-- A FIN above `m_nextRxSeq` and the bytes stored, and not above the limit, becomes the limit. -/
theorem Limited.setFinSequence (h : Limited base b cs head next limit) {s : SequenceNumber32}
    (hs : (RxCall.setFinSequence s).Fitting b) :
    ∃ limit' ≤ limit, Limited base (b.setFinSequence s) cs head next limit' := by
  obtain ⟨hgt, hle, habove⟩ := hs
  have hlim := h.limit_le
  have hsmall := h.small
  have hle' := h.laid.head_le
  have hlt := h.laid.next_lt
  have hnext := h.next_le
  rw [h.maxRxSequence] at hle
  rw [h.laid.next_eq] at hgt
  obtain ⟨q, rfl, h1, h2⟩ : ∃ q, s = base.advance q ∧ next < q ∧ q ≤ limit :=
    SequenceNumber32.exists_advance_of_gt (by omega) (by omega) hgt hle
  have hne : b.m_nextRxSeq ≠ base.advance q := by
    rw [h.laid.next_eq, Ne, SequenceNumber32.advance_inj (by omega) (by omega)]
    omega
  rw [TcpRxBuffer.setFinSequence, if_neg hne]
  refine ⟨q, h2,
    { laid := { h.laid with }
      far := h.far
      small := h.small
      fin := fun _ => ⟨h1, rfl⟩
      noFin := fun hno => by cases hno
      limit_le := by dsimp only; omega
      stop_le := fun c hc => ?_ }⟩
  have hlo := h.laid.within.start_le c hc
  have hhi := h.laid.within.stop_lt c hc
  have hpos := h.laid.layout.lt_stop hc
  have hlast := habove (base.advance (c.stop - 1))
    ((h.laid.holds_iff (by omega) (by omega)).mpr ⟨c, hc, by omega, by omega⟩)
  rw [SequenceNumber32.lt_advance (by omega) (by omega), decide_eq_true_eq] at hlast
  omega

end Limit

/-! ### Runs -/

/-- The call is one of the runs considered and keeps within the limit. -/
def RxCall.Fits (b : TcpRxBuffer) (c : RxCall) : Prop := c.InRange b ∧ c.Fitting b

/-- A call that fits keeps the limit and the bound. -/
theorem Limited.step {base : SequenceNumber32} {b : TcpRxBuffer} {cs : List (Chunk UInt8)}
    {head next limit : Nat} (h : Limited base b cs head next limit) {c : RxCall} (hc : c.Fits b) :
    Bounded b (c.run b) ∧
      ∃ cs' head' next' limit', Limited base (c.run b) cs' head' next' limit' := by
  have hlim := h.limit_le
  have hsmall := h.small
  cases c with
  | add p seq =>
    obtain ⟨cs', next', h'⟩ := h.add hc.1 hc.2.1 hc.2.2
    exact ⟨h'.bounded h.maxRxSequence (by omega) h'.stop_le, cs', head, next', limit, h'⟩
  | extract maxSize =>
    obtain ⟨cs', head', limit', h', hle, hstop⟩ := h.extract maxSize
    exact ⟨h'.bounded h.maxRxSequence (by omega) hstop, cs', head', next, limit', h'⟩
  | setFinSequence s =>
    obtain ⟨limit', -, h'⟩ := h.setFinSequence hc.2
    exact ⟨h'.bounded h.maxRxSequence (by omega) h.stop_le, cs, head, next, limit', h'⟩

/-- An empty buffer, placed half the sequence space into the stream. -/
theorem Limited.start (n : SequenceNumber32) {maxBuffer : UInt32} (hmax : maxBuffer < 2 ^ 31) :
    ∃ base, Limited base { m_nextRxSeq := n, m_maxBuffer := maxBuffer } [] (2 ^ 31) (2 ^ 31)
      (2 ^ 31 + maxBuffer.toNat) := by
  refine ⟨n.sub (UInt32.ofNat (2 ^ 31)),
    { laid :=
        { data := rfl
          layout := Layout.nil
          within := ⟨by simp, by simp⟩
          size := rfl
          next_eq := (SequenceNumber32.advance_sub n (2 ^ 31)).symm
          avail := rfl
          head_le := Nat.le_refl _
          next_lt := by omega
          covered := fun p hp hp' => absurd hp' (by omega)
          missing := by simp }
      far := Nat.le_refl _
      small := UInt32.lt_iff_toNat_lt.mp hmax
      fin := fun hfin => by cases hfin
      noFin := fun _ => rfl
      limit_le := Nat.le_refl _
      stop_le := by simp }⟩

/-- Every buffer reached by calls that fit has its bytes below the limit. -/
theorem RxCall.Reached.limited {maxBuffer : UInt32} (hmax : maxBuffer < 2 ^ 31) {b : TcpRxBuffer}
    (h : Reached Fits maxBuffer b) :
    ∃ base cs head next limit, Limited base b cs head next limit := by
  induction h with
  | start n =>
    obtain ⟨base, h⟩ := Limited.start n hmax
    exact ⟨base, [], _, _, _, h⟩
  | step _ c hc ih =>
    obtain ⟨base, cs, head, next, limit, h⟩ := ih
    obtain ⟨-, h'⟩ := h.step hc
    exact ⟨base, h'⟩

/-- Over every run of calls that fit, each call leaves at most `m_maxBuffer` bytes stored, none
at or beyond `MaxRxSequence` as it was before the call, and `MaxRxSequence` not below
`m_nextRxSeq`. -/
theorem rxBuffer_bounded (maxBuffer : UInt32) (hmax : maxBuffer < 2 ^ 31) (b : TcpRxBuffer)
    (hb : Reached Fits maxBuffer b) (c : RxCall) (hc : c.Fits b) : Bounded b (c.run b) := by
  obtain ⟨base, cs, head, next, limit, h⟩ := hb.limited hmax
  exact (h.step hc).1

/-- Eight bytes arrive in a buffer of ten and are extracted, then the FIN behind the next five,
then two of these. -/
theorem rxBuffer_bounded_ten : ∃ b : TcpRxBuffer, ∃ c : RxCall, b.m_gotFin = true ∧
    (c.run b).m_size = 2 ∧ Bounded b (c.run b) := by
  have h0 : Reached Fits 10 { m_nextRxSeq := ⟨0⟩, m_maxBuffer := 10 } := .start ⟨0⟩
  have h1 := h0.step (.add (List.replicate 8 0) ⟨0⟩) ⟨⟨by decide, by decide⟩, .inr (by decide), nofun⟩
  have h2 := h1.step (.extract 8) ⟨trivial, trivial⟩
  have h3 := h2.step (.setFinSequence ⟨13⟩) ⟨trivial, by decide, by decide, fun r hr => by
    obtain ⟨x, hx, -⟩ := hr
    cases hx⟩
  generalize hb : RxCall.run _ (.setFinSequence ⟨13⟩) = b at h3
  have hc : (RxCall.add (List.replicate 2 0) ⟨8⟩).Fits b := by
    subst hb
    refine ⟨⟨by decide, by decide⟩, .inr (by decide), fun _ => ⟨⟨12⟩, by decide, by decide, ?_,
      by decide⟩⟩
    rintro ⟨x, hx, -⟩
    cases hx
  exact ⟨b, _, by subst hb; rfl, by subst hb; decide, rxBuffer_bounded 10 (by decide) b h3 _ hc⟩

/-- The first segment is not cut: twenty bytes in a buffer of ten. -/
theorem not_rxBuffer_bounded_first : ∃ b : TcpRxBuffer,
    Reached (fun b c => c.InRange b) 10 b ∧ ∃ c : RxCall, c.InRange b ∧ ¬ Bounded b (c.run b) := by
  refine ⟨_, .start ⟨0⟩, .add (List.replicate 20 0) ⟨0⟩, ⟨by decide, by decide⟩, fun h => ?_⟩
  have hsize : ¬ (20 : UInt32) ≤ 10 := by decide
  exact hsize h.size

end Ns3.Tcp
