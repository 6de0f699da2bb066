import Ns3.Internet.Ipv4Codec
import Ns3.Internet.TcpCodec
import Ns3.Fec.Packet
import Mathlib.Data.List.Sort

/-!
# What the transit queue of an end host hands back

The agent of `contrib/fec/model/fec-agent.cc` holds packets back for the socket of
`src/internet/model/tcp-socket-base.cc`. `Recv` puts the IPv4 header before a data packet that it stores;
`CreateRecoveryPacket` puts the TCP header of a lost segment before the payload of the FEC packet, and no
IPv4 header. `Free` takes an IPv4 header off either, so here a packet is its bytes: what is no IPv4 header
is taken for one when its first four bits are 4.
-/

namespace Ns3.Internet

open Ns3.Lib Ns3.Network

/-! ### Packets -/

/-- A packet: its bytes and its FEC tag. -/
structure Segment where
  m_buffer : List UInt8
  tag : Option Fec.FecTag := none
deriving DecidableEq, Repr

namespace Segment

/-- `Packet::AddHeader`: room at the start, where the header is written. -/
def addTcpHeader (p : Segment) (h : TcpHeader) : Option Segment :=
  (h.serialize ⟨List.replicate h.getSerializedSize 0 ++ p.m_buffer, 0⟩).map fun r =>
    { p with m_buffer := r.2.data }

def addIpv4Header (p : Segment) (h : Ipv4Header) : Option Segment :=
  (h.serialize ⟨List.replicate h.getSerializedSize.toNat 0 ++ p.m_buffer, 0⟩).map fun r =>
    { p with m_buffer := r.2.data }

/-- `Packet::RemoveHeader`: as many bytes as the header says it has read. -/
def removeTcpHeader (p : Segment) (h : TcpHeader) : Option (Segment × TcpHeader) :=
  (h.deserialize ⟨p.m_buffer, 0⟩).map fun r =>
    ({ p with m_buffer := p.m_buffer.drop r.1.1 }, r.1.2)

def removeIpv4Header (p : Segment) (h : Ipv4Header) : Option (Segment × Ipv4Header) :=
  (h.deserialize ⟨p.m_buffer, 0⟩).map fun r =>
    ({ p with m_buffer := p.m_buffer.drop r.1.1.toNat }, r.1.2)

def removePacketTag (p : Segment) : Segment := { p with tag := none }

def addPacketTag (p : Segment) (tag : Fec.FecTag) : Segment := { p with tag := some tag }

end Segment

/-! ### The queue -/

/-- An element of `tq_`. -/
structure TransitQueue where
  serial_ : UInt32
  p_ : Segment
deriving DecidableEq, Repr

/-- `InsertTransitQueue`: before the first element of larger serial. -/
def insertTransitQueue (packet : Segment) (serial : UInt32) (tq_ : List TransitQueue) : List TransitQueue :=
  tq_.orderedInsert (fun tq t => t.serial_ > tq.serial_) ⟨serial, packet⟩

/-- `CreateRecoveryPacket`: the FEC packet gets the header of the lost segment. -/
def createRecoveryPacket (packet : Segment) (oldTcpHeader : TcpHeader) (tag : Fec.FecTag)
    (rec_serial : UInt32) (tq_ : List TransitQueue) : Option (List TransitQueue) := do
  let (packet, _) ← packet.removePacketTag.removeTcpHeader {}
  let newTag : Fec.FecTag :=
    { m_type := 4, m_roundId := tag.m_roundId, m_groupId := tag.m_groupId, m_serial := rec_serial }
  let packet ← (packet.addPacketTag newTag).addTcpHeader oldTcpHeader
  pure (insertTransitQueue packet rec_serial tq_)

/-- What `Recv` does with a data packet that it stores. -/
def store (packet : Segment) (ipHeader : Ipv4Header) (serial : UInt32) (tq_ : List TransitQueue) :
    Option (List TransitQueue) := do
  let packet ← packet.addIpv4Header ipHeader
  pure (insertTransitQueue packet serial tq_)

/-- `Free`, with the packet of `GetPacket`: what `ReForwardUp` is called with. -/
def free (packet : Segment) : Option (Segment × Ipv4Header) := packet.removeIpv4Header {}

/-- The loop around `Free`, that empties the queue. -/
def freeAll (tq_ : List TransitQueue) : Option (List (Segment × Ipv4Header)) :=
  tq_.mapM fun t => free t.p_

/-- A header that a socket fills in, with options that have room in it. -/
structure Sendable (h : TcpHeader) : Prop where
  made : h.Made
  options : (optionBytes h.m_options).length ≤ 40
  addresses : h.m_calcChecksum → h.m_addresses.isSome

/-- A packet that the agent puts into the queue: a data packet, received with an IPv4 header; or a lost
segment, as the FEC packet of its group is received, that carries `m_segmentSize` zeros. -/
inductive Insertion where
  | stored (tcpHeader : TcpHeader) (payload : List UInt8) (tag : Fec.FecTag) (ipHeader : Ipv4Header)
  | recovered (tcpHeader : TcpHeader) (payload : List UInt8) (rec_serial : UInt32) (fecTcpHeader : TcpHeader)
    (m_segmentSize : UInt32) (tag : Fec.FecTag) (ipHeader : Ipv4Header)
deriving DecidableEq

namespace Insertion

/-- The segment itself: its TCP header, followed by its payload. -/
def segment : Insertion → Option Segment
  | stored tcpHeader payload tag _ => Segment.addTcpHeader ⟨payload, some tag⟩ tcpHeader
  | recovered tcpHeader payload .. => Segment.addTcpHeader ⟨payload, none⟩ tcpHeader

/-- The IPv4 header that the flow's packet is received with. -/
def ipHeader : Insertion → Ipv4Header
  | stored _ _ _ ipHeader => ipHeader
  | recovered _ _ _ _ _ _ ipHeader => ipHeader

/-- The packet is put into the queue. -/
def put (tq_ : List TransitQueue) : Insertion → Option (List TransitQueue)
  | stored tcpHeader payload tag ipHeader => do
    let packet ← Segment.addTcpHeader ⟨payload, some tag⟩ tcpHeader
    store packet ipHeader tag.m_serial tq_
  | recovered tcpHeader _ rec_serial fecTcpHeader m_segmentSize tag _ => do
    let packet ← Segment.addTcpHeader ⟨List.replicate m_segmentSize.toNat 0, some tag⟩ fecTcpHeader
    createRecoveryPacket packet tcpHeader tag rec_serial tq_

/-- The headers are ones that a socket fills in. -/
def Wellformed : Insertion → Prop
  | stored tcpHeader .. => Sendable tcpHeader
  | recovered tcpHeader _ _ fecTcpHeader .. => Sendable tcpHeader ∧ Sendable fecTcpHeader

/-- Beside what the queue hands out anyway, it hands out the segment, with the addresses of its flow. -/
def RoundTrips (i : Insertion) : Prop :=
  ∃ segment packet ipHeader, i.segment = some segment ∧ packet.m_buffer = segment.m_buffer ∧
    ipHeader.m_source = i.ipHeader.m_source ∧ ipHeader.m_destination = i.ipHeader.m_destination ∧
    ∀ tq_ handed, freeAll tq_ = some handed →
      ∃ tq handed', i.put tq_ = some tq ∧ freeAll tq = some handed' ∧
        handed'.Perm ((packet, ipHeader) :: handed)

/-- When it does. A stored packet was received with an IPv4 header of five words. A recovered one had no
payload but zeros, as many as the FEC packet; and either its source port does not begin with the bits of
version 4 and its flow has the addresses that `Free` constructs its header with, or the source port begins
with a byte that claims a header of version 4 and no words, and the bytes 12 to 19 of the TCP header
are the addresses of the flow. -/
def Kept : Insertion → Prop
  | stored _ _ _ ipHeader => ipHeader.m_headerSize = 20
  | recovered tcpHeader payload _ _ m_segmentSize _ ipHeader =>
    payload = List.replicate m_segmentSize.toNat 0 ∧
      (tcpHeader.m_sourcePort.toNat / 4096 ≠ 4 ∧ ipHeader.m_source = uninitialized ∧
          ipHeader.m_destination = uninitialized ∨
        tcpHeader.m_sourcePort.toNat / 256 = 64 ∧
          be32 ipHeader.m_source ++ be32 ipHeader.m_destination =
            ((tcpHeader.bytes (tcpHeader.checksumOf payload)).drop 12).take 8)

end Insertion

/-! ### The first bytes -/

namespace Ipv4Header

/-- Bytes that do not begin with version 4 are refused. -/
theorem deserialize_refused (h : Ipv4Header) {verIhl : UInt8} {bs : List UInt8}
    (hversion : verIhl >>> 4 ≠ 4) :
    h.deserialize ⟨verIhl :: bs, 0⟩ = some ((0, h), ⟨verIhl :: bs, 0⟩) := by
  refine Wire.aside_eq ⟨1, ?_⟩
  show (if verIhl >>> 4 ≠ 4 then _ else _ : Wire _) _ = _
  rw [if_pos hversion]
  rfl

/-- Others are taken for a header, whatever they are. -/
theorem deserialize_taken {h : Ipv4Header} (hcalc : h.m_calcChecksum = false) {w : Ipv4Words}
    (hversion : w.verIhl >>> 4 = 4) (post : List UInt8) :
    h.deserialize ⟨w.bytes ++ post, 0⟩ =
      some ((w.headerSize.toUInt32, h.ofWords w), ⟨w.bytes ++ post, 0⟩) := by
  have hfields := readFields_reads h w [w.verIhl] post
  refine Wire.aside_eq ⟨20, ?_⟩
  show (if w.verIhl >>> 4 ≠ 4 then _ else _ : Wire _) _ = _
  rw [if_neg (not_not.mpr hversion)]
  refine (Wire.bind_eq hfields).trans ?_
  have hcalc' : (h.ofWords w).m_calcChecksum = false := hcalc
  show (Ipv4Header.verify _ _ _ >>= _ : Wire _) _ = _
  rw [verify, if_neg (by rw [hcalc']; exact Bool.false_ne_true)]
  rfl

end Ipv4Header

theorem Sendable.addTcpHeader {h : TcpHeader} (hs : Sendable h) (payload : List UInt8)
    (tag : Option Fec.FecTag) :
    Segment.addTcpHeader ⟨payload, tag⟩ h = some ⟨h.bytes (h.checksumOf payload) ++ payload, tag⟩ := by
  rw [Segment.addTcpHeader, hs.made.serialize_eq hs.options hs.addresses (List.length_replicate ..)]
  rfl

theorem Sendable.removeTcpHeader {h : TcpHeader} (hs : Sendable h) (c : UInt16) (payload : List UInt8)
    (tag : Option Fec.FecTag) :
    ∃ h', Segment.removeTcpHeader ⟨h.bytes c ++ payload, tag⟩ {} = some (⟨payload, tag⟩, h') := by
  have hlength : h.getSerializedSize = (h.bytes c).length := by
    rw [hs.made.getSerializedSize_eq hs.options, hs.made.length_eq hs.options, TcpHeader.length_bytes]
  refine ⟨TcpHeader.readBack {} h (h.bytes c ++ payload), ?_⟩
  rw [Segment.removeTcpHeader, hs.made.deserialize_eq hs.options fun hcalc => (Bool.false_ne_true hcalc).elim]
  show some (Segment.mk (List.drop h.getSerializedSize _) tag, _) = _
  rw [hlength, List.drop_left]

/-! ### A TCP header in the place of an IPv4 header -/

namespace Sendable

variable {h : TcpHeader}

theorem length_le (hs : Sendable h) : 5 ≤ h.m_length ∧ h.m_length ≤ 15 := by
  have hlength := hs.made.length
  have hsmall := hs.made.small
  omega

theorem twenty_le (c : UInt16) : 20 ≤ (h.bytes c).length := by
  rw [TcpHeader.length_bytes]
  omega

/-- The first byte. -/
theorem byte_zero (c : UInt16) :
    (h.bytes c)[0]? = some (UInt8.ofNat (h.m_sourcePort.toNat / 256)) := rfl

/-- The byte that the length stands in. -/
theorem byte_twelve (hs : Sendable h) (c : UInt16) :
    (h.bytes c)[12]? = some (UInt8.ofNat (16 * h.m_length)) := by
  obtain ⟨-, hle⟩ := hs.length_le
  have hflags := h.m_flags.toNat_lt
  have hword := TcpHeader.toNat_lengthAndFlags (show h.m_length < 16 by omega)
  show some (UInt8.ofNat (h.lengthAndFlags.toNat / 256)) = _
  rw [hword]
  congr 2
  omega

/-- Headers of different checksums differ in two bytes only. -/
theorem getElem_bytes (c c' : UInt16) {i : Nat} (hi : i < 16 ∨ 18 ≤ i) :
    (h.bytes c)[i]? = (h.bytes c')[i]? := by
  rw [TcpHeader.bytes, TcpHeader.bytes]
  rcases hi with hi | hi
  · rw [List.getElem?_append_left (by rw [TcpHeader.length_front]; exact hi),
      List.getElem?_append_left (by rw [TcpHeader.length_front]; exact hi)]
  · have hpast : ∀ c, (h.front ++ (le16 c ++ h.back))[i]? = h.back[i - 18]? := fun c => by
      rw [← List.append_assoc, List.getElem?_append_right]
      · rfl
      · show 18 ≤ i
        exact hi
    rw [hpast, hpast]

/-- A segment of zeros that begins with version 4 is no segment with the same header any more, once a
word or more was taken off. -/
theorem not_shifted (hs : Sendable h) {c c' : UInt16} {n k : Nat} {payload : List UInt8} (hn : 0 < n)
    (hwords : n % 4 = 0) (hport : h.m_sourcePort.toNat / 4096 = 4) :
    (h.bytes c ++ List.replicate k 0).drop n ≠ h.bytes c' ++ payload := by
  intro heq
  obtain ⟨hlow, hhigh⟩ := hs.length_le
  have htwenty := twenty_le (h := h) c
  have hsize : (h.bytes c).length = (h.bytes c').length := by
    rw [TcpHeader.length_bytes, TcpHeader.length_bytes]
  -- what stands `n` bytes further on is the same
  have hstep : ∀ i, i < (h.bytes c).length → (i < 16 ∨ 18 ≤ i) →
      (h.bytes c)[i]? = (h.bytes c ++ List.replicate k 0)[n + i]? := by
    intro i hi hne
    rw [← List.getElem?_drop, heq, List.getElem?_append_left (hsize ▸ hi), getElem_bytes c c' hne]
  have hmore : ∀ i, i < (h.bytes c).length → (i < 16 ∨ 18 ≤ i) → n + i < (h.bytes c).length →
      (h.bytes c)[i]? = (h.bytes c)[n + i]? := by
    intro i hi hne hlt
    rw [hstep i hi hne, List.getElem?_append_left hlt]
  -- behind the fixed fields there are only zeros, from the end on
  have hpast : ∀ i, i < (h.bytes c).length → (i < 16 ∨ 18 ≤ i) → (h.bytes c).length ≤ n + i →
      (h.bytes c)[i]? = some 0 := by
    intro i hi hne hge
    have hsome := hstep i hi hne
    rw [List.getElem?_append_right hge, List.getElem?_replicate, List.getElem?_eq_getElem hi] at hsome
    rw [List.getElem?_eq_getElem hi]
    split at hsome
    · exact hsome
    · cases hsome
  have hzero : ∀ m i, m = (h.bytes c).length - i → i < (h.bytes c).length → 20 ≤ i →
      (h.bytes c)[i]? = some 0 := by
    intro m
    induction m using Nat.strongRecOn with
    | ind m ih =>
      intro i hm hi hge
      by_cases hlt : n + i < (h.bytes c).length
      · rw [hmore i hi (.inr (by omega)) hlt]
        exact ih _ (by omega) (n + i) rfl hlt (by omega)
      · exact hpast i hi (.inr (by omega)) (by omega)
  have hfirst := byte_zero (h := h) c
  have htwelve := hs.byte_twelve c
  by_cases hone : n = 4
  · subst hone
    have h0 := hmore 0 (by omega) (.inl (by omega)) (by omega)
    have h4 := hmore 4 (by omega) (.inl (by omega)) (by omega)
    have h8 := hmore 8 (by omega) (.inl (by omega)) (by omega)
    have hbytes := h0.trans (h4.trans h8)
    rw [hfirst, htwelve] at hbytes
    have hval := congrArg UInt8.toNat (Option.some.inj hbytes)
    rw [UInt8.toNat_ofNat', UInt8.toNat_ofNat'] at hval
    omega
  · have hnull : (h.bytes c)[12]? = some 0 := by
      by_cases hlt : n + 12 < (h.bytes c).length
      · rw [hmore 12 (by omega) (.inl (by omega)) hlt]
        exact hzero _ (n + 12) rfl hlt (by omega)
      · exact hpast 12 (by omega) (.inl (by omega)) (by omega)
    rw [htwelve] at hnull
    have hval := congrArg UInt8.toNat (Option.some.inj hnull)
    rw [UInt8.toNat_ofNat'] at hval
    have hzero : (0 : UInt8).toNat = 0 := rfl
    omega

/-- What `Free` makes of a segment without an IPv4 header. -/
theorem free_refused (c : UInt16) (payload : List UInt8) (tag : Option Fec.FecTag)
    (hport : h.m_sourcePort.toNat / 4096 ≠ 4) :
    free ⟨h.bytes c ++ payload, tag⟩ = some (⟨h.bytes c ++ payload, tag⟩, {}) := by
  have hversion : UInt8.ofNat (h.m_sourcePort.toNat / 256) >>> 4 ≠ 4 := by
    intro heq
    have hlt := h.m_sourcePort.toNat_lt
    have hval := congrArg UInt8.toNat heq
    rw [UInt8.toNat_shiftRight, UInt8.toNat_ofNat'] at hval
    have hval : (h.m_sourcePort.toNat / 256 % 256) >>> 4 = 4 := hval
    rw [Nat.shiftRight_eq_div_pow] at hval
    omega
  rw [free, Segment.removeIpv4Header]
  show ((Ipv4Header.deserialize {} ⟨UInt8.ofNat (h.m_sourcePort.toNat / 256) :: _, 0⟩).map _) = _
  rw [Ipv4Header.deserialize_refused _ hversion]
  rfl

theorem free_taken (c : UInt16) (payload : List UInt8) (tag : Option Fec.FecTag)
    (hport : h.m_sourcePort.toNat / 4096 = 4) :
    ∃ ipHeader : Ipv4Header,
      be32 ipHeader.m_source ++ be32 ipHeader.m_destination = ((h.bytes c).drop 12).take 8 ∧
      free ⟨h.bytes c ++ payload, tag⟩ =
        some (⟨(h.bytes c ++ payload).drop (4 * (h.m_sourcePort.toNat / 256 % 16)), tag⟩, ipHeader) := by
  obtain ⟨w, hw, hfirst, -⟩ := Ipv4Words.exists_bytes (show ((h.bytes c).take 20).length = 20 by
    rw [List.length_take, Nat.min_eq_left (twenty_le c)])
  have hverIhl : w.verIhl = UInt8.ofNat (h.m_sourcePort.toNat / 256) :=
    (Option.some.inj hfirst).symm
  have hlt := h.m_sourcePort.toNat_lt
  have hversion : w.verIhl >>> 4 = 4 := by
    apply UInt8.toNat_inj.mp
    rw [hverIhl, UInt8.toNat_shiftRight, UInt8.toNat_ofNat']
    show (h.m_sourcePort.toNat / 256 % 256) >>> 4 = 4
    rw [Nat.shiftRight_eq_div_pow]
    omega
  have hsize : w.headerSize.toUInt32.toNat = 4 * (h.m_sourcePort.toNat / 256 % 16) := by
    rw [Ipv4Words.headerSize, hverIhl, UInt16.toNat_toUInt32, UInt16.toNat_mul, UInt8.toNat_toUInt16,
      UInt8.toNat_and, UInt8.toNat_ofNat']
    show (_ % 256 &&& 2 ^ 4 - 1) * 4 % 65536 = _
    rw [Nat.and_two_pow_sub_one_eq_mod]
    omega
  have hbytes : h.bytes c ++ payload = w.bytes ++ ((h.bytes c).drop 20 ++ payload) := by
    rw [hw, ← List.append_assoc, List.take_append_drop]
  refine ⟨Ipv4Header.ofWords {} w, ?_, ?_⟩
  · have hdrop : be32 w.source ++ be32 w.destination = w.bytes.drop 12 := rfl
    show be32 w.source ++ be32 w.destination = _
    rw [hdrop, hw, List.drop_take]
  · rw [free, Segment.removeIpv4Header]
    show ((Ipv4Header.deserialize {} ⟨h.bytes c ++ payload, 0⟩).map _) = _
    rw [hbytes, Ipv4Header.deserialize_taken rfl hversion, ← hsize]
    rfl

end Sendable

/-! ### Through the queue -/

/-- The order of the queue is of no matter. -/
theorem freeAll_perm {q q' : List TransitQueue} (h : q.Perm q') :
    ∀ {handed}, freeAll q = some handed → ∃ handed', freeAll q' = some handed' ∧ handed'.Perm handed := by
  have hcons : ∀ (t : TransitQueue) q handed, freeAll (t :: q) = some handed ↔
      ∃ a as, free t.p_ = some a ∧ freeAll q = some as ∧ handed = a :: as := by
    intro t q handed
    rw [freeAll, List.mapM_cons, Option.bind_eq_bind, Option.bind_eq_some_iff]
    constructor
    · rintro ⟨a, ha, hrest⟩
      obtain ⟨as, has, hpure⟩ := Option.bind_eq_some_iff.mp hrest
      exact ⟨a, as, ha, has, (Option.some.inj hpure).symm⟩
    · rintro ⟨a, as, ha, has, rfl⟩
      exact ⟨a, ha, Option.bind_eq_some_iff.mpr ⟨as, has, rfl⟩⟩
  induction h with
  | nil => exact fun h => ⟨_, h, .refl _⟩
  | cons t _ ih =>
    intro handed h
    obtain ⟨a, as, ha, has, rfl⟩ := (hcons ..).mp h
    obtain ⟨as', has', hperm⟩ := ih has
    exact ⟨a :: as', (hcons ..).mpr ⟨a, as', ha, has', rfl⟩, hperm.cons a⟩
  | swap t t' q =>
    intro handed h
    obtain ⟨a, as, ha, has, rfl⟩ := (hcons ..).mp h
    obtain ⟨b, bs, hb, hbs, rfl⟩ := (hcons ..).mp has
    exact ⟨b :: a :: bs, (hcons ..).mpr ⟨b, _, hb, (hcons ..).mpr ⟨a, bs, ha, hbs, rfl⟩, rfl⟩, .swap a b bs⟩
  | trans _ _ ih ih' =>
    intro handed h
    obtain ⟨as, has, hperm⟩ := ih h
    obtain ⟨bs, hbs, hperm'⟩ := ih' has
    exact ⟨bs, hbs, hperm'.trans hperm⟩

namespace Insertion

/-- Whether a packet makes the round trip is decided by what `Free` makes of it. -/
theorem roundTrips_iff_free {i : Insertion} {segment p : Segment} {serial : UInt32}
    (hsegment : i.segment = some segment) (hput : ∀ tq_, i.put tq_ = some (insertTransitQueue p serial tq_)) :
    i.RoundTrips ↔ ∃ packet ipHeader, free p = some (packet, ipHeader) ∧
      packet.m_buffer = segment.m_buffer ∧ ipHeader.m_source = i.ipHeader.m_source ∧
      ipHeader.m_destination = i.ipHeader.m_destination := by
  constructor
  · rintro ⟨s, packet, ipHeader, hs, hbuffer, hsource, hdestination, hqueue⟩
    cases hsegment.symm.trans hs
    obtain ⟨tq, handed', hput', hfree, hperm⟩ := hqueue [] [] rfl
    cases (hput []).symm.trans hput'
    obtain ⟨a, ha, hpure⟩ := Option.bind_eq_some_iff.mp hfree
    cases hpure
    cases List.singleton_perm_singleton.mp hperm
    exact ⟨packet, ipHeader, ha, hbuffer, hsource, hdestination⟩
  · rintro ⟨packet, ipHeader, hfree, hbuffer, hsource, hdestination⟩
    refine ⟨segment, packet, ipHeader, hsegment, hbuffer, hsource, hdestination, fun tq_ handed hall => ?_⟩
    have hcons : freeAll (⟨serial, p⟩ :: tq_) = some ((packet, ipHeader) :: handed) := by
      rw [freeAll, List.mapM_cons, Option.bind_eq_bind, hfree, Option.bind_some]
      exact Option.bind_eq_some_iff.mpr ⟨handed, hall, rfl⟩
    have hinsert : (insertTransitQueue p serial tq_).Perm (⟨serial, p⟩ :: tq_) :=
      List.perm_orderedInsert _ _ _
    obtain ⟨handed', hfree', hperm⟩ := freeAll_perm hinsert.symm hcons
    exact ⟨_, handed', hput tq_, hfree', hperm⟩

end Insertion

theorem Segment.addIpv4Header_eq (p : Segment) (h : Ipv4Header) (hlen : 20 ≤ p.m_buffer.length) :
    p.addIpv4Header h = some { p with
      m_buffer := h.bytes h.checksumOf ++
        (List.replicate h.m_headerSize.toNat 0 ++ p.m_buffer).drop 20 } := by
  have hroom : List.replicate h.getSerializedSize.toNat 0 ++ p.m_buffer =
      [] ++ ((List.replicate h.m_headerSize.toNat 0 ++ p.m_buffer).take 20 ++
        (List.replicate h.m_headerSize.toNat 0 ++ p.m_buffer).drop 20) := by
    rw [List.nil_append, List.take_append_drop, Ipv4Header.getSerializedSize, UInt16.toNat_toUInt32]
  have hwrite := h.serialize_eq [] ((List.replicate h.m_headerSize.toNat 0 ++ p.m_buffer).drop 20)
    (List.length_take_of_le (show 20 ≤ (List.replicate h.m_headerSize.toNat 0 ++ p.m_buffer).length by
      rw [List.length_append]; omega))
  rw [addIpv4Header, hroom]
  show (h.serialize ⟨_, ([] : List UInt8).length⟩).map _ = _
  rw [hwrite]
  rfl

/-- The header that was put before a packet is taken off again. -/
theorem free_stored (h : Ipv4Header) (bs : List UInt8) (tag : Option Fec.FecTag) :
    ∃ ipHeader : Ipv4Header, ipHeader.m_source = h.m_source ∧ ipHeader.m_destination = h.m_destination ∧
      free ⟨h.bytes h.checksumOf ++ bs, tag⟩ = some (⟨bs, tag⟩, ipHeader) := by
  refine ⟨Ipv4Header.ofWords {} (h.words h.checksumOf), rfl, rfl, ?_⟩
  rw [free, Segment.removeIpv4Header]
  show ((Ipv4Header.deserialize {} ⟨(h.words h.checksumOf).bytes ++ bs, 0⟩).map _) = _
  rw [Ipv4Header.deserialize_taken rfl (h.words_version _), Ipv4Header.words_headerSize]
  rfl

namespace Insertion

theorem stored_roundTrips_iff {tcpHeader : TcpHeader} {payload : List UInt8} {tag : Fec.FecTag}
    {ipHeader : Ipv4Header} (hs : Sendable tcpHeader) :
    (stored tcpHeader payload tag ipHeader).RoundTrips ↔ ipHeader.m_headerSize = 20 := by
  let bytes : List UInt8 := tcpHeader.bytes (tcpHeader.checksumOf payload) ++ payload
  let written : List UInt8 := (List.replicate ipHeader.m_headerSize.toNat 0 ++ bytes).drop 20
  have hsegment : (stored tcpHeader payload tag ipHeader).segment = some ⟨bytes, some tag⟩ :=
    hs.addTcpHeader payload (some tag)
  have hlen : 20 ≤ bytes.length := by
    have htwenty := Sendable.twenty_le (h := tcpHeader) (tcpHeader.checksumOf payload)
    rw [List.length_append]
    omega
  have hput : ∀ tq_, (stored tcpHeader payload tag ipHeader).put tq_ =
      some (insertTransitQueue ⟨ipHeader.bytes ipHeader.checksumOf ++ written, some tag⟩ tag.m_serial tq_) := by
    intro tq_
    rw [put, Option.bind_eq_bind, hs.addTcpHeader, Option.bind_some, store, Option.bind_eq_bind,
      Segment.addIpv4Header_eq _ _ hlen, Option.bind_some]
    rfl
  rw [roundTrips_iff_free hsegment hput]
  obtain ⟨read, hsource, hdestination, hfree⟩ := free_stored ipHeader written (some tag)
  rw [hfree]
  constructor
  · rintro ⟨packet, read', heq, hbuffer, -⟩
    cases heq
    have hsize := congrArg List.length hbuffer
    rw [List.length_drop, List.length_append, List.length_replicate] at hsize
    have hsize : ipHeader.m_headerSize.toNat + bytes.length - 20 = bytes.length := hsize
    exact UInt16.toNat_inj.mp (show ipHeader.m_headerSize.toNat = 20 by omega)
  · intro hsize
    refine ⟨_, read, rfl, ?_, hsource, hdestination⟩
    show List.drop 20 _ = _
    rw [hsize]
    rfl

theorem recovered_roundTrips_iff {tcpHeader : TcpHeader} {payload : List UInt8} {rec_serial : UInt32}
    {fecTcpHeader : TcpHeader} {m_segmentSize : UInt32} {tag : Fec.FecTag} {ipHeader : Ipv4Header}
    (hs : Sendable tcpHeader) (hfec : Sendable fecTcpHeader) :
    (recovered tcpHeader payload rec_serial fecTcpHeader m_segmentSize tag ipHeader).RoundTrips ↔
      (recovered tcpHeader payload rec_serial fecTcpHeader m_segmentSize tag ipHeader).Kept := by
  let zeros : List UInt8 := List.replicate m_segmentSize.toNat 0
  let newTag : Fec.FecTag :=
    { m_type := 4, m_roundId := tag.m_roundId, m_groupId := tag.m_groupId, m_serial := rec_serial }
  have hsegment : (recovered tcpHeader payload rec_serial fecTcpHeader m_segmentSize tag ipHeader).segment =
      some _ := hs.addTcpHeader payload none
  have hput : ∀ tq_, (recovered tcpHeader payload rec_serial fecTcpHeader m_segmentSize tag ipHeader).put tq_ =
      some (insertTransitQueue ⟨tcpHeader.bytes (tcpHeader.checksumOf zeros) ++ zeros, some newTag⟩
        rec_serial tq_) := by
    intro tq_
    obtain ⟨h', hremove⟩ := hfec.removeTcpHeader (fecTcpHeader.checksumOf zeros) zeros none
    rw [put, Option.bind_eq_bind, hfec.addTcpHeader, Option.bind_some, createRecoveryPacket,
      Option.bind_eq_bind]
    show (Segment.removeTcpHeader ⟨fecTcpHeader.bytes (fecTcpHeader.checksumOf zeros) ++ zeros, none⟩ {}).bind _ = _
    rw [hremove, Option.bind_some]
    show (Segment.addTcpHeader ⟨zeros, some newTag⟩ tcpHeader).bind _ = _
    rw [hs.addTcpHeader]
    rfl
  rw [roundTrips_iff_free hsegment hput, Kept]
  by_cases hport : tcpHeader.m_sourcePort.toNat / 4096 = 4
  · obtain ⟨read, hread, hfree⟩ := Sendable.free_taken (tcpHeader.checksumOf zeros) zeros (some newTag) hport
    have hn : 0 < tcpHeader.m_sourcePort.toNat / 256 % 16 ∨ tcpHeader.m_sourcePort.toNat / 256 = 64 := by omega
    rw [hfree]
    constructor
    · rintro ⟨packet, read', heq, hbuffer, hsource, hdestination⟩
      cases heq
      rcases hn with hn | hn
      · exact absurd hbuffer (hs.not_shifted (by omega) (by omega) hport)
      · rw [hn] at hbuffer
        have hsize : (tcpHeader.bytes (tcpHeader.checksumOf zeros)).length =
            (tcpHeader.bytes (tcpHeader.checksumOf payload)).length := by
          rw [TcpHeader.length_bytes, TcpHeader.length_bytes]
        have hpayload := (List.append_inj hbuffer hsize).2
        rw [hsource, hdestination, hpayload] at hread
        exact ⟨hpayload.symm, .inr ⟨hn, hread⟩⟩
    · rintro ⟨rfl, ⟨hother, -⟩ | ⟨hbyte, haddresses⟩⟩
      · exact absurd hport hother
      · obtain ⟨hsource, hdestination⟩ := List.append_inj (hread.trans haddresses.symm) rfl
        rw [hbyte]
        exact ⟨_, read, rfl, rfl, be32_injective hsource, be32_injective hdestination⟩
  · rw [Sendable.free_refused _ _ _ hport]
    constructor
    · rintro ⟨packet, read, heq, hbuffer, hsource, hdestination⟩
      cases heq
      have hsize : (tcpHeader.bytes (tcpHeader.checksumOf zeros)).length =
          (tcpHeader.bytes (tcpHeader.checksumOf payload)).length := by
        rw [TcpHeader.length_bytes, TcpHeader.length_bytes]
      exact ⟨(List.append_inj hbuffer hsize).2.symm, .inl ⟨hport, hsource.symm, hdestination.symm⟩⟩
    · rintro ⟨rfl, ⟨-, hsource, hdestination⟩ | ⟨hbyte, -⟩⟩
      · exact ⟨_, _, rfl, rfl, hsource.symm, hdestination.symm⟩
      · omega

/-- A packet makes the round trip through the transit queue exactly when it was stored with an IPv4 header of
five words; or recovered for a payload of zeros, and what its TCP header looks like to `Free` is right. -/
theorem transit_queue (i : Insertion) (hi : i.Wellformed) : i.RoundTrips ↔ i.Kept := by
  cases i with
  | stored => exact stored_roundTrips_iff hi
  | recovered => exact recovered_roundTrips_iff hi.1 hi.2

/-- A segment from port 80 of 10.0.0.1 to port 17664 of 10.0.0.2, stored as it is received. -/
def storedSegment : Insertion :=
  .stored { m_sourcePort := 80, m_destinationPort := 17664, m_sequenceNumber := 1001 } [1, 2, 3] ⟨1, 1001, 1, 0, 2⟩
    { m_source := 0x0a000001, m_destination := 0x0a000002, m_payloadSize := 23, m_ttl := 64, m_protocol := 6 }

theorem transit_queue_stored : storedSegment.RoundTrips ↔ storedSegment.Kept :=
  transit_queue storedSegment ⟨⟨nofun, rfl, by decide, rfl⟩, by decide, fun h => (Bool.false_ne_true h).elim⟩

/-- A segment from port 17664 of 10.0.0.1 to port 80 of 10.0.0.2, that is recovered from an FEC packet. -/
def recoveredSegment : Insertion :=
  .recovered { m_sourcePort := 17664, m_destinationPort := 80, m_sequenceNumber := 1001 } [0, 0, 0] 1001
    { m_sourcePort := 17664, m_destinationPort := 80 } 3 ⟨2, 1002, 1, 0, 1⟩
    { m_source := 0x0a000001, m_destination := 0x0a000002, m_payloadSize := 23, m_ttl := 64, m_protocol := 6 }

/-- What it hands to `ReForwardUp` is the payload without a TCP header, and other addresses. -/
theorem not_transit_queue_recovered :
    ((recoveredSegment.put []).bind freeAll).map (List.map fun out =>
        (out.1.m_buffer, out.2.m_source, out.2.m_destination)) =
      some [([0, 0, 0], 0x5000ffff, 0)] ∧
    recoveredSegment.segment.map (fun p => p.m_buffer.length) = some 23 ∧ ¬recoveredSegment.RoundTrips := by
  have hs : ∀ h : TcpHeader, h.m_options = [] → h.m_optionsLen = 0 → h.m_length = 5 → h.m_calcChecksum = false →
      Sendable h := by
    intro h hoptions hzero hfive hcalc
    refine ⟨⟨?_, ?_, ?_, ?_⟩, ?_, ?_⟩
    · simp [hoptions]
    · simp [hoptions, hzero]
    · simp [hzero]
    · simp [hzero, hfive]
    · simp [hoptions, optionBytes]
    · simp [hcalc]
  refine ⟨by decide +kernel, by decide +kernel, fun htrip => ?_⟩
  have hkept := (recovered_roundTrips_iff (hs _ rfl rfl rfl rfl) (hs _ rfl rfl rfl rfl)).mp htrip
  obtain ⟨-, ⟨hport, -⟩ | ⟨hport, -⟩⟩ := hkept
  · exact hport (by decide)
  · exact absurd hport (by decide)

end Insertion

end Ns3.Internet
