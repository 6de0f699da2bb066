import Ns3.Tcp.TxStream
import Ns3.Tcp.RxStream

/-!
# A byte stream from one socket to the other

The send buffer of one socket and the receive buffer of its peer, with a network between them that loses, repeats and
reorders segments and ACKs. What the peer's application reads is a prefix of what the application gave to the socket, and no
byte leaves the send buffer that the peer does not have. The FIN and the handshake are left out, and nothing stays in the
network for half the sequence space.
-/

namespace Ns3.Tcp

open Ns3.Network Ns3.Lib

/-- A segment in the network, and the position of its first byte in the stream. -/
structure SegmentInFlight where
  position : Nat
  seq : SequenceNumber32
  payload : Payload
  deriving DecidableEq

/-- An ACK in the network, and the position of the byte it asks for. -/
structure AckInFlight where
  position : Nat
  seq : SequenceNumber32
  deriving DecidableEq

/-- The two buffers, what was read of the second one, and the network. -/
structure Connection where
  out : Outbound
  rxBuffer : TcpRxBuffer
  extracted : Payload := []
  segments : List SegmentInFlight := []
  acks : List AckInFlight := []

namespace Connection

/-- The stream position of `m_nextRxSeq`. -/
def next (c : Connection) : Nat := c.extracted.length + c.rxBuffer.m_availBytes.toNat

/-- The receive buffer with what was read of it. -/
def back (c : Connection) (accepted : Nat → Prop) : Reassembly := ⟨c.rxBuffer, accepted, c.extracted⟩

/-- A segment is copied from the send buffer and sent. -/
def sent (c : Connection) (item : TcpTxItem) (b' : TcpTxBuffer) : Connection :=
  let position := c.out.discarded + (item.m_startSeq.diff c.out.txBuffer.m_firstByteSeq).toNat
  { c with
    out := { c.out with txBuffer := b' }
    segments := c.segments ++ [⟨position, item.m_startSeq, item.m_packet⟩] }

/-- What can happen to a connection: the application gives bytes to the socket, a segment is sent, for the first time or
again, the scoreboard changes; a segment arrives, the receiver sends an ACK, its application reads; an ACK arrives. The
network keeps what is sent, so that it may arrive again, late or never. -/
inductive Step (base : SequenceNumber32) (c : Connection) : Connection → Prop where
  | add (p : Payload) (hfits : c.out.txBuffer.held + p.length < 2 ^ 31) :
      Step base c { c with out := c.out.after (c.out.txBuffer.add p).2 (.add p) }
  | send (numBytes : UInt32) (seq : SequenceNumber32) {item : TcpTxItem} {b' : TcpTxBuffer}
      (hcopy : c.out.txBuffer.copyFromSequence numBytes seq = some (some item, b')) : Step base c (c.sent item b')
  | mark (call : TxCall) (hadd : ∀ p, call ≠ .add p) (hdiscard : ∀ seq, call ≠ .discardUpTo seq) {b' : TcpTxBuffer}
      (hrun : call.run c.out.txBuffer = some b') : Step base c { c with out := c.out.after b' call }
  | receive (segment : SegmentInFlight) (hin : segment ∈ c.segments)
      (hnear : (c.back fun _ => False).WithinLimit base segment.position segment.payload.length) :
      Step base c { c with rxBuffer := (c.rxBuffer.add segment.payload segment.seq).2 }
  | acknowledge : Step base c { c with acks := c.acks ++ [⟨c.next, c.rxBuffer.m_nextRxSeq⟩] }
  | read (maxSize : UInt32) :
      Step base c
        { c with
          rxBuffer := (c.rxBuffer.extract maxSize).2
          extracted := c.extracted ++ (c.rxBuffer.extract maxSize).1 }
  | acknowledged (ack : AckInFlight) (hin : ack ∈ c.acks) (hnear : c.out.discarded < ack.position + 2 ^ 31)
      {b' : TcpTxBuffer} (hrun : c.out.txBuffer.discardUpTo ack.seq = some b') :
      Step base c { c with out := c.out.after b' (.discardUpTo ack.seq) }

/-- The connections reached from empty buffers that agree on the first sequence number. -/
inductive Reached (base : SequenceNumber32) (maxBuffer : UInt32) : Connection → Prop where
  | start {b : TcpTxBuffer} (hempty : b.Empty) (hbase : b.m_firstByteSeq = base) :
      Reached base maxBuffer
        { out := { txBuffer := b, origin := base }, rxBuffer := { m_nextRxSeq := base, m_maxBuffer := maxBuffer } }
  | step {c c' : Connection} (h : Reached base maxBuffer c) (hstep : Step base c c') : Reached base maxBuffer c'

/-- The stream starts with these bytes. -/
def Extends (stream : Nat → UInt8) (accepted : Payload) : Prop := accepted = slice stream 0 accepted.length

theorem extends_getD (accepted : Payload) : Extends (fun p => accepted.getD p 0) accepted := by
  apply List.ext_getElem?
  intro p
  rw [getElem?_slice]
  split
  · next hlt => rw [Nat.zero_add, List.getD_eq_getElem?_getD, List.getElem?_eq_getElem hlt, Option.getD_some]
  · next hge => rw [List.getElem?_eq_none (Nat.le_of_not_lt hge)]

/-- The bytes of the stream from a position on, among those it starts with. -/
theorem Extends.slice {stream : Nat → UInt8} {accepted : Payload} (h : Extends stream accepted) {a n : Nat}
    (hle : a + n ≤ accepted.length) : (accepted.drop a).take n = slice stream a n := by
  have hcut := take_drop_slice stream (a := 0) hle
  rw [← h, Nat.zero_add] at hcut
  exact hcut

theorem Extends.of_append {stream : Nat → UInt8} {accepted p : Payload} (h : Extends stream (accepted ++ p)) :
    Extends stream accepted := by
  have hcut := h.slice (a := 0) (n := accepted.length) (by rw [List.length_append]; omega)
  rw [List.drop_zero, List.take_left] at hcut
  exact hcut

/-- What holds of every connection that is reached: both buffers have their part of the stream, and the network has segments
of it and ACKs for bytes below the first one missing. -/
structure Joined (base : SequenceNumber32) (c : Connection) : Prop where
  outbound : c.out.Sound
  origin : c.out.origin = base
  inbound : ∀ stream, Extends stream c.out.accepted → ∃ accepted cs,
    (c.back accepted).Sound stream base cs c.next ∧ ∀ p, Covers cs p → p < c.out.accepted.length
  next_le : c.next ≤ c.out.accepted.length
  segments : ∀ s ∈ c.segments, s.seq = base.advance s.position ∧
    s.position + s.payload.length ≤ c.out.accepted.length ∧
    s.payload = (c.out.accepted.drop s.position).take s.payload.length
  acks : ∀ a ∈ c.acks, a.seq = base.advance a.position ∧ a.position ≤ c.next
  discarded_le : c.out.discarded ≤ c.next

variable {base : SequenceNumber32} {c : Connection}

theorem Joined.start {b : TcpTxBuffer} (hempty : b.Empty) (hbase : b.m_firstByteSeq = base) (maxBuffer : UInt32) :
    Joined base { out := { txBuffer := b, origin := base }, rxBuffer := { m_nextRxSeq := base, m_maxBuffer := maxBuffer } } where
  outbound := by
    refine ⟨hempty.held, ?_, ?_, Nat.le_refl _⟩
    · rw [TcpTxBuffer.contents, hempty.sentList, hempty.appList]
      rfl
    · rw [SequenceNumber32.advance_zero, hbase]
  origin := rfl
  inbound stream _ := ⟨fun _ => False, [], Reassembly.Sound.start stream base maxBuffer, fun p hp => by simp at hp⟩
  next_le := Nat.le_refl _
  segments s hs := absurd hs List.not_mem_nil
  acks a ha := absurd ha List.not_mem_nil
  discarded_le := Nat.le_refl _

/-- A call that leaves the stream as it is. -/
theorem Joined.out (h : Joined base c) {b' : TcpTxBuffer} (hsound : Outbound.Sound { c.out with txBuffer := b' }) :
    Joined base { c with out := { c.out with txBuffer := b' } } :=
  { h with outbound := hsound }

theorem Joined.add (h : Joined base c) {p : Payload} (hfits : c.out.txBuffer.held + p.length < 2 ^ 31) :
    Joined base { c with out := c.out.after (c.out.txBuffer.add p).2 (.add p) } := by
  have hsound := h.outbound.step (c := .add p) hfits rfl
  rw [Outbound.after] at hsound ⊢
  generalize (if (c.out.txBuffer.add p).1 then p else []) = q at hsound ⊢
  refine
    { outbound := hsound
      origin := h.origin
      inbound := fun stream hext => ?_
      next_le := ?_
      segments := fun s hs => ?_
      acks := h.acks
      discarded_le := h.discarded_le }
  · obtain ⟨accepted, cs, hin, hbelow⟩ := h.inbound stream (Extends.of_append hext)
    refine ⟨accepted, cs, hin, fun p hp => ?_⟩
    show p < (c.out.accepted ++ q).length
    rw [List.length_append]
    exact Nat.lt_add_right _ (hbelow p hp)
  · show c.next ≤ (c.out.accepted ++ q).length
    rw [List.length_append]
    exact Nat.le_add_right_of_le h.next_le
  · obtain ⟨hseq, hle, hpayload⟩ := h.segments s hs
    refine ⟨hseq, ?_, ?_⟩
    · show _ ≤ (c.out.accepted ++ q).length
      rw [List.length_append]
      exact Nat.le_add_right_of_le hle
    · show s.payload = ((c.out.accepted ++ q).drop s.position).take s.payload.length
      rw [List.drop_append_of_le_length (by omega), List.take_append_of_le_length (by rw [List.length_drop]; omega)]
      exact hpayload

theorem Joined.send (h : Joined base c) {numBytes : UInt32} {seq : SequenceNumber32} {item : TcpTxItem} {b' : TcpTxBuffer}
    (hcopy : c.out.txBuffer.copyFromSequence numBytes seq = some (some item, b')) : Joined base (c.sent item b') := by
  have hheld := h.outbound.held
  have hsmall : c.out.txBuffer.held < 2 ^ 31 := hheld.small
  rcases hheld.copy_cases numBytes seq with hnone | hnull | ⟨off, n, r, -, hn, -, hsome, hr⟩
  · rw [hnone] at hcopy
    cases hcopy
  · rw [hnull] at hcopy
    cases hcopy
  rw [hsome] at hcopy
  obtain ⟨hitem, rfl⟩ := Prod.mk.inj (Option.some.inj hcopy)
  obtain rfl := Option.some.inj hitem
  have hseg := hr.segment hheld hn
  have hoff := hseg.off_le
  have hpos := hseg.pos
  have hdiff := SequenceNumber32.toNat_diff_advance (s := c.out.txBuffer.m_firstByteSeq) (p := off) (q := 0)
    (Nat.zero_le _) (by omega)
  rw [SequenceNumber32.advance_zero, Nat.sub_zero, ← hseg.start] at hdiff
  have hlength := length_contents c.out.txBuffer
  rw [h.outbound.contents, List.length_drop] at hlength
  have hout := h.out (h.outbound.keep hseg.held hseg.contents hseg.first)
  refine { hout with segments := fun s hs => ?_ }
  rcases List.mem_append.mp hs with hs | hs
  · exact h.segments s hs
  · obtain rfl := List.mem_singleton.mp hs
    dsimp only
    rw [hdiff]
    refine ⟨?_, ?_, ?_⟩
    · rw [hseg.start, h.outbound.first, SequenceNumber32.advance_advance, h.origin]
    · show _ ≤ c.out.accepted.length
      omega
    · show _ = (c.out.accepted.drop _).take _
      rw [← List.drop_drop, ← h.outbound.contents]
      exact hseg.packet

/-- A segment arrives, once more or for the first time. -/
theorem Joined.receive (h : Joined base c) {s : SegmentInFlight} (hin : s ∈ c.segments)
    (hnear : (c.back fun _ => False).WithinLimit base s.position s.payload.length) :
    Joined base { c with rxBuffer := (c.rxBuffer.add s.payload s.seq).2 } := by
  obtain ⟨hseq, hle, hpayload⟩ := h.segments s hin
  -- what the segment does, whichever stream goes on from the bytes accepted
  have hall : ∀ stream, Extends stream c.out.accepted → ∃ accepted cs next,
      c.next ≤ next ∧ next ≤ c.out.accepted.length ∧
      (Reassembly.mk (c.rxBuffer.add s.payload s.seq).2 accepted c.extracted).Sound stream base cs next ∧
      ∀ p, Covers cs p → p < c.out.accepted.length := by
    intro stream hext
    obtain ⟨accepted, cs, hsound, hbelow⟩ := h.inbound stream hext
    have hbytes : s.payload = Lib.slice stream s.position s.payload.length := by
      rw [← hext.slice hle]
      exact hpayload
    have hrx : ((c.back accepted).add stream base s.position s.payload.length).rxBuffer =
        (c.rxBuffer.add s.payload s.seq).2 := by
      show (c.rxBuffer.add (Lib.slice stream s.position s.payload.length) (base.advance s.position)).2 = _
      rw [← hbytes, hseq]
    have hmk : (c.back accepted).add stream base s.position s.payload.length =
        ⟨(c.rxBuffer.add s.payload s.seq).2, ((c.back accepted).add stream base s.position s.payload.length).accepted,
          c.extracted⟩ := by
      rw [← hrx]
      rfl
    have hcut : Near base (c.back accepted).rxBuffer (c.back accepted).extracted.length c.next s.position
        s.payload.length := hnear
    rcases hsound.add hcut with ⟨-, hsound'⟩ | ⟨cs', next', h', t', t, hstored, hsound'⟩
    · exact ⟨_, cs, c.next, Nat.le_refl _, h.next_le, hmk ▸ hsound', hbelow⟩
    · have hbelow' : ∀ p, Covers cs' p → p < c.out.accepted.length := by
        intro p hp
        rcases (hstored.covers p).mp hp with hp | ⟨-, hp⟩
        · exact hbelow p hp
        · have htail := hstored.tail_le
          omega
      refine ⟨_, cs', next', hstored.reaches.le, ?_, hmk ▸ hsound', hbelow'⟩
      rcases Nat.eq_or_lt_of_le hstored.reaches.le with heq | hlt
      · rw [← heq]
        exact h.next_le
      · have hlast := hbelow' (next' - 1) (hstored.reaches.covered _ (by omega) (by omega))
        omega
  obtain ⟨accepted, cs, next, hge, htop, hsound, -⟩ := hall _ (extends_getD c.out.accepted)
  have hnext : c.extracted.length + (c.rxBuffer.add s.payload s.seq).2.m_availBytes.toNat = next := hsound.next_eq
  refine
    { outbound := h.outbound
      origin := h.origin
      inbound := fun stream hext => ?_
      next_le := ?_
      segments := h.segments
      acks := fun a ha => ⟨(h.acks a ha).1, ?_⟩
      discarded_le := ?_ }
  · obtain ⟨accepted', cs', next', -, -, hsound', hbelow'⟩ := hall stream hext
    have heq : c.extracted.length + (c.rxBuffer.add s.payload s.seq).2.m_availBytes.toNat = next' := hsound'.next_eq
    refine ⟨accepted', cs', ?_, hbelow'⟩
    show (Reassembly.mk _ _ _).Sound stream base cs' (_ + _)
    rw [heq]
    exact hsound'
  · show _ + _ ≤ _
    rw [hnext]
    exact htop
  · show _ ≤ _ + _
    rw [hnext]
    exact (h.acks a ha).2.trans hge
  · show _ ≤ _ + _
    rw [hnext]
    exact h.discarded_le.trans hge

/-- An ACK is for the first byte missing. -/
theorem Joined.acknowledge (h : Joined base c) : Joined base { c with acks := c.acks ++ [⟨c.next, c.rxBuffer.m_nextRxSeq⟩] } := by
  refine { h with acks := fun a ha => ?_ }
  rcases List.mem_append.mp ha with ha | ha
  · exact h.acks a ha
  · obtain rfl := List.mem_singleton.mp ha
    obtain ⟨accepted, cs, hsound, -⟩ := h.inbound _ (extends_getD c.out.accepted)
    exact ⟨hsound.laid.next_eq, Nat.le_refl _⟩

theorem Joined.read (h : Joined base c) (maxSize : UInt32) :
    Joined base
      { c with
        rxBuffer := (c.rxBuffer.extract maxSize).2
        extracted := c.extracted ++ (c.rxBuffer.extract maxSize).1 } := by
  have hall : ∀ stream, Extends stream c.out.accepted → ∃ accepted cs,
      (Reassembly.mk (c.rxBuffer.extract maxSize).2 accepted (c.extracted ++ (c.rxBuffer.extract maxSize).1)).Sound stream base
        cs c.next ∧ ∀ p, Covers cs p → p < c.out.accepted.length := by
    intro stream hext
    obtain ⟨accepted, cs, hsound, hbelow⟩ := h.inbound stream hext
    obtain ⟨cs', hsound', -, -⟩ := hsound.extract maxSize
    refine ⟨accepted, cs', hsound', fun p hp => ?_⟩
    -- `Extract` accepts nothing
    rcases (hsound.accepted p).mp ((hsound'.accepted p).mpr (.inr hp)) with hlt | hold
    · exact Nat.lt_of_lt_of_le hlt h.next_le
    · exact hbelow p hold
  obtain ⟨accepted, cs, hsound, -⟩ := hall _ (extends_getD c.out.accepted)
  have hnext : (c.extracted ++ (c.rxBuffer.extract maxSize).1).length + (c.rxBuffer.extract maxSize).2.m_availBytes.toNat =
      c.next := hsound.next_eq
  refine
    { outbound := h.outbound
      origin := h.origin
      inbound := fun stream hext => ?_
      next_le := ?_
      segments := h.segments
      acks := fun a ha => ⟨(h.acks a ha).1, ?_⟩
      discarded_le := ?_ }
  · obtain ⟨accepted', cs', hsound', hbelow'⟩ := hall stream hext
    refine ⟨accepted', cs', ?_, hbelow'⟩
    show (Reassembly.mk _ _ _).Sound stream base cs' (_ + _)
    rw [hnext]
    exact hsound'
  · show _ + _ ≤ _
    rw [hnext]
    exact h.next_le
  · show _ ≤ _ + _
    rw [hnext]
    exact (h.acks a ha).2
  · show _ ≤ _ + _
    rw [hnext]
    exact h.discarded_le

/-- An ACK arrives, and the bytes below it leave the send buffer. -/
theorem Joined.acknowledged (h : Joined base c) {a : AckInFlight} (hin : a ∈ c.acks)
    (hnear : c.out.discarded < a.position + 2 ^ 31) {b' : TcpTxBuffer} (hrun : c.out.txBuffer.discardUpTo a.seq = some b') :
    Joined base { c with out := c.out.after b' (.discardUpTo a.seq) } := by
  obtain ⟨hseq, hle⟩ := h.acks a hin
  have hsmall : c.out.txBuffer.held < 2 ^ 31 := h.outbound.held.small
  have hlength := length_contents c.out.txBuffer
  rw [h.outbound.contents, List.length_drop] at hlength
  have hnext := h.next_le
  have hdiscarded := h.discarded_le
  have hfirst : c.out.txBuffer.m_firstByteSeq = base.advance c.out.discarded := by rw [h.outbound.first, h.origin]
  have hge : c.out.txBuffer.m_firstByteSeq.ge a.seq = decide (a.position ≤ c.out.discarded) := by
    rw [hfirst, hseq]
    exact SequenceNumber32.ge_advance (by omega) (by omega)
  have hsound := h.outbound.step (c := .discardUpTo a.seq) trivial hrun
  rw [Outbound.after, hge] at hsound ⊢
  by_cases hold : a.position ≤ c.out.discarded
  · rw [if_pos (decide_eq_true hold)] at hsound ⊢
    exact h.out hsound
  · rw [if_neg (by rw [decide_eq_true_iff]; exact hold)] at hsound ⊢
    have hdiff : (a.seq.diff c.out.txBuffer.m_firstByteSeq).toNat = a.position - c.out.discarded := by
      rw [hfirst, hseq, SequenceNumber32.toNat_diff_advance (by omega) (by omega)]
    have hwithin : a.position - c.out.discarded ≤ c.out.txBuffer.held := by omega
    dsimp only at hsound ⊢
    rw [hdiff, Nat.min_eq_left hwithin, Nat.sub_eq_zero_of_le hwithin, SequenceNumber32.advance_zero] at hsound ⊢
    exact
      { h with
        outbound := hsound
        discarded_le := by
          show c.out.discarded + (a.position - c.out.discarded) ≤ c.next
          omega }

theorem Joined.step (h : Joined base c) {c' : Connection} (hstep : Step base c c') : Joined base c' := by
  cases hstep with
  | add p hfits => exact h.add hfits
  | send numBytes seq hcopy => exact h.send hcopy
  | mark call hadd hdiscard hrun =>
    have hfits : Outbound.Fits c.out.txBuffer call := by
      cases call with
      | add p => exact absurd rfl (hadd p)
      | _ => trivial
    have hsound := h.outbound.step hfits hrun
    cases call with
    | add p => exact absurd rfl (hadd p)
    | discardUpTo seq => exact absurd rfl (hdiscard seq)
    | _ => exact h.out hsound
  | receive s hin hnear => exact h.receive hin hnear
  | acknowledge => exact h.acknowledge
  | read maxSize => exact h.read maxSize
  | acknowledged a hin hnear hrun => exact h.acknowledged hin hnear hrun

theorem Reached.joined {maxBuffer : UInt32} (h : Reached base maxBuffer c) : Joined base c := by
  induction h with
  | start hempty hbase => exact .start hempty hbase maxBuffer
  | step _ hstep ih => exact ih.step hstep

/-- What a connection delivers: the bytes that were read are those that the application gave to the socket, in order and from
the first one on; so are the ones that can be read next; the bytes discarded by the socket are among those received, and it
has all others. -/
structure Delivers (c : Connection) : Prop where
  extracted : c.extracted = c.out.accepted.take c.extracted.length
  available : ∀ maxSize : UInt32, (c.rxBuffer.extract maxSize).1 =
    (c.out.accepted.drop c.extracted.length).take (min maxSize.toNat (c.next - c.extracted.length))
  received : c.next ≤ c.out.accepted.length
  discarded : c.out.discarded ≤ c.next
  held : c.out.txBuffer.contents = c.out.accepted.drop c.out.discarded
  nextRxSeq : c.rxBuffer.m_nextRxSeq = c.out.origin.advance c.next

end Connection

open Connection

end Ns3.Tcp
