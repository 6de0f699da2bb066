import Ns3.Fec.Encode

/-!
# Rounds of the encoding router

Between two calls of `SendRealOut` the encoder is in the data part of a round
(`Filling`): so many data packets of the round are out, the counters of protocol and
agent agree on how many, and the round's tables are the last of both queues. A call on
which the two size tests agree leaves the encoder idle, adds one data packet, or adds the
last data packet, all FEC packets and the tables of the next round.
-/

namespace Ns3.Fec
open Ns3.Lib

/-- The configuration of an encoder whose round of `fwin * nGroups` data packets fits the
32-bit counter `fc_`. -/
structure Shape where
  fwin : UInt32
  nGroups : UInt8
  fwin_ne : fwin ≠ 0
  nGroups_ne : nGroups ≠ 0
  window_lt : fwin.toNat * nGroups.toNat < 2 ^ 32

namespace Shape

/-- Data packets in a round. -/
def window (s : Shape) : Nat := s.fwin.toNat * s.nGroups.toNat

/-- FEC packets in a round, one for each group. -/
def groups (s : Shape) : Nat := s.nGroups.toNat

/-- Tag of data packet `i` of round `rid`, counted from 0. -/
def dataTag (s : Shape) (rid : UInt32) (i : Nat) : FecTag :=
  { m_type := 1
    m_serial := UInt32.ofNat (i + 1)
    m_roundId := rid
    m_groupId := UInt8.ofNat (i % s.groups)
    m_nGroups := s.nGroups }

/-- Tag of FEC packet `j` of round `rid`, counted from 0. -/
def fecTag (s : Shape) (rid : UInt32) (j : Nat) : FecTag :=
  { m_type := 2
    m_serial := UInt32.ofNat (s.window + j + 1)
    m_roundId := rid
    m_groupId := UInt8.ofNat j
    m_nGroups := s.nGroups }

/-- Tags of the first `i` data packets of a round. -/
def dataTags (s : Shape) (rid : UInt32) (i : Nat) : List FecTag := (List.range i).map (s.dataTag rid)

/-- Tags of the FEC packets of a round. -/
def fecTags (s : Shape) (rid : UInt32) : List FecTag := (List.range s.groups).map (s.fecTag rid)

/-- Tags of a whole round, in sending order. -/
def roundTags (s : Shape) (rid : UInt32) : List FecTag :=
  s.dataTags rid s.window ++ s.fecTags rid

/-- There is at least one group. -/
theorem groups_pos (s : Shape) : 0 < s.groups := by
  have hne : s.nGroups.toNat ≠ 0 := fun h => s.nGroups_ne (UInt8.toNat_inj.mp h)
  exact Nat.pos_of_ne_zero hne

/-- A group id fits a byte. -/
theorem groups_lt (s : Shape) : s.groups < 256 := s.nGroups.toNat_lt

/-- There is at least one data packet. -/
theorem window_pos (s : Shape) : 0 < s.window := by
  have hf : s.fwin.toNat ≠ 0 := fun h => s.fwin_ne (UInt32.toNat_inj.mp h)
  exact Nat.mul_pos (Nat.pos_of_ne_zero hf) s.groups_pos

/-- The data packets of a round fill all groups equally. -/
theorem window_mod (s : Shape) : s.window % s.groups = 0 := Nat.mul_mod_left _ _

/-- `m_fwin * m_nGroups` as the code computes it. -/
theorem toNat_window (s : Shape) : (s.fwin * s.nGroups.toUInt32).toNat = s.window := by
  have h := s.window_lt
  rw [UInt32.toNat_mul, UInt8.toNat_toUInt32, Nat.mod_eq_of_lt h]
  rfl

end Shape

/-! ### The data part of a round -/

/-- `i` data packets of the round of the last tables `t` and `T` are out. -/
structure Filling (s : Shape) (l : Ipv4L3ProtocolwithFecEncode) (i : Nat)
    (R : List (RoundFecTable RouterHdr)) (t : RoundFecTable RouterHdr)
    (Q : List (GroupFecTable RouterHdr)) (T : GroupFecTable RouterHdr) : Prop where
  fwin : l.m_fwin = s.fwin
  nGroups : l.m_nGroups = s.nGroups
  fec_fwin : l.m_fec.m_fwin = s.fwin
  fec_nGroups : l.m_fec.m_nGroups = s.nGroups
  init : l.init_ = false
  fc : l.fc_.toNat + i = s.window
  lt : i < s.window
  ic : l.ic_ = s.nGroups.toUInt32
  serial : l.m_fec.m_serial = UInt32.ofNat (i + 1)
  gid : l.m_fec.m_groupId = UInt8.ofNat (i % s.groups)
  tables : l.m_fec.toFecTables = ⟨R ++ [t], Q ++ [T]⟩
  rid : t.rid_ = l.m_fec.m_roundId
  group_rid : T.rid_ = l.m_fec.m_roundId
  table_nGroups : t.nGroups_ = s.nGroups

/-- The entry of data packet `i`. -/
def Shape.dataEntry (s : Shape) (i : Nat) (hdr : RouterHdr) : PacketInfo RouterHdr :=
  { serial_ := UInt32.ofNat (i + 1)
    check_ := false
    gid_ := UInt8.ofNat (i % s.groups)
    type_ := false
    hdr_ := hdr
    flag_ := false }

/-- The entry of FEC packet `j`. -/
def Shape.fecEntry (s : Shape) (j : Nat) : PacketInfo RouterHdr :=
  { serial_ := UInt32.ofNat (s.window + j + 1)
    check_ := false
    gid_ := UInt8.ofNat j
    type_ := true
    hdr_ := {}
    flag_ := false }

/-- The entries of all FEC packets of a round. -/
def Shape.fecEntries (s : Shape) : List (PacketInfo RouterHdr) :=
  (List.range s.groups).map s.fecEntry

/-- Counting modulo `G` starts again at `G`. -/
theorem succ_mod {G : Nat} (hG : 0 < G) (i : Nat) :
    (i + 1) % G = if i % G + 1 = G then 0 else i % G + 1 := by
  have hlt := Nat.mod_lt i hG
  rw [← Nat.mod_add_mod]
  split
  · next h => rw [h, Nat.mod_self]
  · exact Nat.mod_eq_of_lt (by omega)

private theorem ofNat_succ_eq_iff {n : UInt8} {x : Nat} (hx : x < n.toNat) :
    UInt8.ofNat x + 1 = n ↔ x + 1 = n.toNat := by
  have hn := n.toNat_lt
  rw [← UInt8.toNat_inj, UInt8.toNat_add, UInt8.toNat_ofNat']
  change (x % 256 + 1) % 256 = n.toNat ↔ x + 1 = n.toNat
  omega

private theorem nextGroup_eq (s : Shape) (i : Nat) :
    (if s.nGroups > 1 then
        if UInt8.ofNat (i % s.groups) + 1 = s.nGroups then 0 else UInt8.ofNat (i % s.groups) + 1
      else UInt8.ofNat (i % s.groups)) = UInt8.ofNat ((i + 1) % s.groups) := by
  have hG := s.groups_pos
  rw [succ_mod hG i]
  by_cases h1 : s.nGroups > 1
  · rw [if_pos h1]
    by_cases hlast : i % s.groups + 1 = s.groups
    · have hn : UInt8.ofNat (i % s.groups) + 1 = s.nGroups :=
        (ofNat_succ_eq_iff (Nat.mod_lt i hG)).mpr hlast
      rw [if_pos hlast, if_pos hn]
      rfl
    · have hn : ¬ UInt8.ofNat (i % s.groups) + 1 = s.nGroups :=
        mt (ofNat_succ_eq_iff (Nat.mod_lt i hG)).mp hlast
      rw [if_neg hlast, if_neg hn]
      simp
  · have hg1 : s.groups = 1 := by
      have hle : ¬ 1 < s.nGroups.toNat := fun h => h1 (UInt8.lt_iff_toNat_lt.mpr h)
      simp only [Shape.groups] at hG ⊢
      omega
    simp [h1, hg1, Nat.mod_one]

/-- The agent after data packet `i`. -/
def FecRouterAgent.afterData (a : FecRouterAgent) (s : Shape) (i : Nat)
    (tables : FecTables RouterHdr) : FecRouterAgent :=
  { a with
    toFecTables := tables
    m_serial := UInt32.ofNat (i + 1 + 1)
    m_groupId := UInt8.ofNat ((i + 1) % s.groups) }

/-- `CreateDataPacket` in the data part of a round. -/
theorem createDataPacket_filling {s : Shape} {l : Ipv4L3ProtocolwithFecEncode} {i : Nat}
    {R : List (RoundFecTable RouterHdr)} {t : RoundFecTable RouterHdr}
    {Q : List (GroupFecTable RouterHdr)} {T : GroupFecTable RouterHdr}
    (hl : Filling s l i R t Q T) (packet : Packet) (tcp : TcpHeader) (ip : Ipv4Header) :
    l.m_fec.createDataPacket packet tcp ip =
      .ok (l.m_fec.afterData s i
          ⟨R ++ [t.push [s.dataEntry i ⟨tcp, ip⟩]], Q ++ [T.push [s.dataEntry i ⟨tcp, ip⟩]]⟩,
        packet.addPacketTag (s.dataTag l.m_fec.m_roundId i)) := by
  have hentry : l.m_fec.dataEntry tcp ip = s.dataEntry i ⟨tcp, ip⟩ := by
    simp only [FecRouterAgent.dataEntry, Shape.dataEntry, hl.serial, hl.gid, hl.fec_nGroups]
    congr 1
    split
    · next h1 =>
      have hg1 : s.groups = 1 := by simp [Shape.groups, h1]
      simp [hg1, Nat.mod_one]
    · rfl
  have htag : l.m_fec.tagOf 1 (s.dataEntry i ⟨tcp, ip⟩) = s.dataTag l.m_fec.m_roundId i := by
    simp only [FecRouterAgent.tagOf, Shape.dataEntry, Shape.dataTag, hl.fec_nGroups]
  have hserial : UInt32.ofNat (i + 1) + 1 = UInt32.ofNat (i + 1 + 1) := by simp
  have hgid : (if l.m_fec.m_nGroups > 1 then
        if UInt8.ofNat (i % s.groups) + 1 = l.m_fec.m_nGroups then 0
        else UInt8.ofNat (i % s.groups) + 1
      else UInt8.ofNat (i % s.groups)) = UInt8.ofNat ((i + 1) % s.groups) := by
    rw [hl.fec_nGroups]
    exact nextGroup_eq s i
  have hfwin : ¬ l.m_fec.m_fwin = 0 := by
    rw [hl.fec_fwin]
    exact s.fwin_ne
  have hpush := pushEntry_append R t Q T (s.dataEntry i ⟨tcp, ip⟩)
  simp only [FecRouterAgent.createDataPacket, hentry, htag, if_neg hfwin, hl.tables, hpush, bind,
    Except.bind, pure, Except.pure, hl.serial, hserial, FecRouterAgent.afterData]
  rw [show (s.dataEntry i ⟨tcp, ip⟩).gid_ = UInt8.ofNat (i % s.groups) from rfl, hgid]

/-! ### The FEC part of a round -/

/-- FEC packet `j` of round `rid`, with the headers of `h`. -/
def Shape.fecPacket (s : Shape) (segmentSize : UInt32) (rid : UInt32) (h : TcpHeader) (j : Nat) :
    Packet :=
  (({ payload := segmentSize.toNat } : Packet).addPacketTag (s.fecTag rid j)).addHeader
    (.tcp (FecRouterAgent.fecHeader h))

/-- The agent after FEC packet `j`. The last one starts the next round. -/
def FecRouterAgent.afterFec (a : FecRouterAgent) (s : Shape) (j : Nat)
    (tables : FecTables RouterHdr) : FecRouterAgent :=
  { a with
    toFecTables := tables
    m_serial := if j + 1 = s.groups then 1 else UInt32.ofNat (s.window + (j + 1) + 1)
    m_groupId := if j + 1 = s.groups then 0 else UInt8.ofNat (j + 1)
    m_roundId := if j + 1 = s.groups then a.m_roundId + 1 else a.m_roundId }

/-- The agent when `j` FEC packets of the round of the last tables `t` and `T` are out. -/
structure Parity (s : Shape) (a : FecRouterAgent) (j : Nat)
    (R : List (RoundFecTable RouterHdr)) (t : RoundFecTable RouterHdr)
    (Q : List (GroupFecTable RouterHdr)) (T : GroupFecTable RouterHdr) : Prop where
  nGroups : a.m_nGroups = s.nGroups
  lt : j < s.groups
  serial : a.m_serial = UInt32.ofNat (s.window + j + 1)
  gid : a.m_groupId = UInt8.ofNat j
  tables : a.toFecTables = ⟨R ++ [t], Q ++ [T]⟩

/-- `CreateFecPacket` in the FEC part of a round. -/
theorem createFecPacket_parity {s : Shape} {a : FecRouterAgent} {j : Nat}
    {R : List (RoundFecTable RouterHdr)} {t : RoundFecTable RouterHdr}
    {Q : List (GroupFecTable RouterHdr)} {T : GroupFecTable RouterHdr}
    (ha : Parity s a j R t Q T) (h : TcpHeader) :
    a.createFecPacket h =
      .ok (a.afterFec s j ⟨R ++ [t.push [s.fecEntry j]], Q ++ [T.push [s.fecEntry j]]⟩,
        s.fecPacket a.m_segmentSize a.m_roundId h j) := by
  have hentry : a.fecEntry = s.fecEntry j := by
    simp only [FecRouterAgent.fecEntry, Shape.fecEntry, ha.serial, ha.gid]
  have htag : a.tagOf 2 (s.fecEntry j) = s.fecTag a.m_roundId j := by
    simp only [FecRouterAgent.tagOf, Shape.fecEntry, Shape.fecTag, ha.nGroups]
  have hpush := pushEntry_append R t Q T (s.fecEntry j)
  have hserial : UInt32.ofNat (s.window + j + 1) + 1 = UInt32.ofNat (s.window + (j + 1) + 1) := by
    rw [show s.window + (j + 1) + 1 = s.window + j + 1 + 1 by omega]
    simp
  have hgid : UInt8.ofNat j + 1 = UInt8.ofNat (j + 1) := by simp
  simp only [FecRouterAgent.createFecPacket, hentry, htag, ha.tables, hpush, bind, Except.bind,
    pure, Except.pure, Shape.fecPacket, FecRouterAgent.afterFec, ha.serial, ha.gid, hserial, hgid]
  by_cases hlast : j + 1 = s.groups
  · by_cases h1 : a.m_nGroups > 1
    · have hn : UInt8.ofNat (j + 1) = a.m_nGroups := by
        rw [ha.nGroups, hlast]
        simp [Shape.groups]
      simp only [if_pos h1, if_pos hn, if_pos hlast]
    · have hn : a.m_nGroups = 1 := by
        have hle : ¬ 1 < a.m_nGroups.toNat := fun h => h1 (UInt8.lt_iff_toNat_lt.mpr h)
        have hpos := s.groups_pos
        apply UInt8.toNat_inj.mp
        rw [ha.nGroups] at hle ⊢
        simp only [Shape.groups] at hpos
        change s.nGroups.toNat = 1
        omega
      simp only [if_neg h1, if_pos hn, if_pos hlast]
  · have h1 : a.m_nGroups > 1 := by
      have hlt := ha.lt
      apply UInt8.lt_iff_toNat_lt.mpr
      rw [ha.nGroups]
      change 1 < s.groups
      omega
    have hn : ¬ UInt8.ofNat (j + 1) = a.m_nGroups := by
      intro he
      have hb := s.groups_lt
      have hlt := ha.lt
      apply hlast
      rw [ha.nGroups] at he
      have := congrArg UInt8.toNat he
      rw [UInt8.toNat_ofNat'] at this
      change (j + 1) % 256 = s.groups at this
      omega
    simp only [if_pos h1, if_neg hn, if_neg hlast]

/-- A packet is recorded in the last tables, and these are of its round. -/
def Sent.Recorded (x : Sent) : Prop :=
  ∀ tag, x.packet.tag = some tag → ∃ R t Q T,
    x.m_fec.toFecTables = ⟨R ++ [t], Q ++ [T]⟩ ∧
    t.rid_ = tag.m_roundId ∧ T.rid_ = tag.m_roundId ∧
    (∃ e ∈ t.pi_, e.serial_ = tag.m_serial ∧ e.gid_ = tag.m_groupId) ∧
    (∃ e ∈ T.gi_ tag.m_groupId, e.serial_ = tag.m_serial)

/-- The protocol at the start of a round whose empty tables follow `R` and `Q`. -/
def Ipv4L3ProtocolwithFecEncode.opened (l : Ipv4L3ProtocolwithFecEncode) (s : Shape)
    (R : List (RoundFecTable RouterHdr)) (Q : List (GroupFecTable RouterHdr)) (rid : UInt32) :
    Ipv4L3ProtocolwithFecEncode :=
  { l with
    m_fec := { l.m_fec with
      toFecTables := ⟨R ++ [⟨rid, s.nGroups, []⟩], Q ++ [⟨rid, s.nGroups, fun _ => []⟩]⟩
      m_serial := 1
      m_groupId := 0
      m_roundId := rid }
    fc_ := s.fwin * s.nGroups.toUInt32
    ic_ := s.nGroups.toUInt32 }

private theorem fecTurn_leave {l : Ipv4L3ProtocolwithFecEncode} (hfc : ¬ l.fc_ = 0)
    (h : TcpHeader) (sent : List Sent) :
    Ipv4L3ProtocolwithFecEncode.fecTurn h (l, sent) = .leave (.ok (l, sent)) := if_neg hfc

private theorem sendFecPackets_again {h : TcpHeader} {l : Ipv4L3ProtocolwithFecEncode}
    {sent : List Sent} {fec : FecRouterAgent} {p : Packet} (hfc : l.fc_ = 0)
    (hp : l.m_fec.createFecPacket h = .ok (fec, p)) (hic : l.ic_ ≠ 1) :
    l.sendFecPackets h sent =
      ({ l with m_fec := fec, ic_ := l.ic_ - 1 } : Ipv4L3ProtocolwithFecEncode).sendFecPackets h
        (sent ++ [⟨p, fec⟩]) := by
  have hne : l.ic_ - 1 ≠ 0 := by
    intro h0
    apply hic
    grind
  have hbound : (l.ic_ - 1).toNat + 2 = (l.ic_ - 1 - 1).toNat + 2 + 1 := by
    have h1 : (1 : UInt32) ≤ l.ic_ - 1 := by grind
    have h2 : (l.ic_ - 1).toNat ≠ 0 := fun h0 => hne (UInt32.toNat_inj.mp h0)
    rw [UInt32.toNat_sub_of_le _ _ h1]
    change _ = (l.ic_ - 1).toNat - 1 + 2 + 1
    omega
  have hturn : Ipv4L3ProtocolwithFecEncode.fecTurn h (l, sent) =
      .again ({ l with m_fec := fec, ic_ := l.ic_ - 1 }, sent ++ [⟨p, fec⟩]) := by
    simp only [Ipv4L3ProtocolwithFecEncode.fecTurn, hfc, if_true, hp, hne, if_false]
  rw [Ipv4L3ProtocolwithFecEncode.sendFecPackets, hbound, turns, hturn]
  rfl

private theorem sendFecPackets_last {h : TcpHeader} {l : Ipv4L3ProtocolwithFecEncode}
    {sent : List Sent} {fec : FecRouterAgent} {p : Packet} (hfc : l.fc_ = 0)
    (hp : l.m_fec.createFecPacket h = .ok (fec, p)) (hic : l.ic_ = 1)
    (hw : l.m_fwin * l.m_nGroups.toUInt32 ≠ 0) :
    l.sendFecPackets h sent =
      .ok (({ l with m_fec := fec, ic_ := 0 } : Ipv4L3ProtocolwithFecEncode).redundancyControl,
        sent ++ [⟨p, fec⟩]) := by
  have hic1 : l.ic_ - 1 = 0 := by grind
  have hturn : Ipv4L3ProtocolwithFecEncode.fecTurn h (l, sent) =
      .again (({ l with m_fec := fec, ic_ := 0 } :
        Ipv4L3ProtocolwithFecEncode).redundancyControl, sent ++ [⟨p, fec⟩]) := by
    simp only [Ipv4L3ProtocolwithFecEncode.fecTurn, hfc, if_true, hp, hic1]
  rw [Ipv4L3ProtocolwithFecEncode.sendFecPackets, hic1]
  have hleave := fecTurn_leave (l := ({ l with m_fec := fec, ic_ := 0 } :
    Ipv4L3ProtocolwithFecEncode).redundancyControl) hw h (sent ++ [⟨p, fec⟩])
  simp only [turns, hturn, hleave, Option.getD_some]

/-- FEC packet `j` as it goes out with the last tables `t` and `T`. -/
def Shape.fecSent (s : Shape) (a : FecRouterAgent) (h : TcpHeader) (j : Nat)
    (R : List (RoundFecTable RouterHdr)) (t : RoundFecTable RouterHdr)
    (Q : List (GroupFecTable RouterHdr)) (T : GroupFecTable RouterHdr) : Sent :=
  ⟨s.fecPacket a.m_segmentSize a.m_roundId h j,
    a.afterFec s j ⟨R ++ [t.push [s.fecEntry j]], Q ++ [T.push [s.fecEntry j]]⟩⟩

private theorem recorded_fec {s : Shape} {a : FecRouterAgent} {j : Nat}
    {R : List (RoundFecTable RouterHdr)} {t : RoundFecTable RouterHdr}
    {Q : List (GroupFecTable RouterHdr)} {T : GroupFecTable RouterHdr}
    (ht : t.rid_ = a.m_roundId) (hT : T.rid_ = a.m_roundId) (h : TcpHeader) :
    (s.fecSent a h j R t Q T).Recorded := by
  intro tag htag
  have htag' : s.fecTag a.m_roundId j = tag := by
    simpa [Shape.fecSent, Shape.fecPacket] using htag
  subst htag'
  refine ⟨R, _, Q, _, rfl, ht, hT, ⟨s.fecEntry j, by simp, rfl, rfl⟩, ⟨s.fecEntry j, ?_, rfl⟩⟩
  simp [Shape.fecEntry, Shape.fecTag]

/-- `while (fc_ == 0)` sends the remaining FEC packets of the round and opens the next. -/
theorem sendFecPackets_parity {s : Shape} (h : TcpHeader) (k : Nat) :
    ∀ {l : Ipv4L3ProtocolwithFecEncode} {j : Nat} {R : List (RoundFecTable RouterHdr)}
      {t : RoundFecTable RouterHdr} {Q : List (GroupFecTable RouterHdr)}
      {T : GroupFecTable RouterHdr} (sent : List Sent), j + k + 1 = s.groups →
      Parity s l.m_fec j R t Q T → l.m_fwin = s.fwin → l.m_nGroups = s.nGroups →
      l.fc_ = 0 → l.ic_.toNat = k + 1 → t.rid_ = l.m_fec.m_roundId →
      T.rid_ = l.m_fec.m_roundId →
      ∃ sent', l.sendFecPackets h sent =
          .ok (l.opened s (R ++ [t.push ((List.range' j (k + 1)).map s.fecEntry)])
            (Q ++ [T.push ((List.range' j (k + 1)).map s.fecEntry)]) (l.m_fec.m_roundId + 1),
            sent ++ sent') ∧
        sent'.map Sent.packet =
          (List.range' j (k + 1)).map (s.fecPacket l.m_fec.m_segmentSize l.m_fec.m_roundId h) ∧
        ∀ x ∈ sent', x.Recorded := by
  induction k with
  | zero =>
    intro l j R t Q T sent hj ha hf hn hfc hic ht hT
    have hp := createFecPacket_parity ha h
    have hic1 : l.ic_ = 1 := UInt32.toNat_inj.mp hic
    have hw : l.m_fwin * l.m_nGroups.toUInt32 ≠ 0 := by
      intro h0
      have hpos := s.window_pos
      rw [hf, hn] at h0
      have := s.toNat_window
      rw [h0] at this
      simp at this
      omega
    refine ⟨[s.fecSent l.m_fec h j R t Q T], ?_, rfl, ?_⟩
    · rw [sendFecPackets_last hfc hp hic1 hw]
      have hlast : j + 1 = s.groups := by omega
      simp only [Ipv4L3ProtocolwithFecEncode.redundancyControl, FecRouterAgent.updateFecTable,
        FecRouterAgent.afterFec, if_pos hlast, FecTables.pushTables,
        Ipv4L3ProtocolwithFecEncode.opened, hf, hn, ha.nGroups, Shape.fecSent]
      rfl
    · intro x hx
      rw [List.mem_singleton.mp hx]
      exact recorded_fec ht hT h
  | succ k ih =>
    intro l j R t Q T sent hj ha hf hn hfc hic ht hT
    have hp := createFecPacket_parity ha h
    have hlast : ¬ j + 1 = s.groups := by omega
    have hic1 : l.ic_ ≠ 1 := by
      intro h1
      rw [h1] at hic
      simp at hic
    have ha' : Parity s (l.m_fec.afterFec s j
        ⟨R ++ [t.push [s.fecEntry j]], Q ++ [T.push [s.fecEntry j]]⟩) (j + 1) R
        (t.push [s.fecEntry j]) Q (T.push [s.fecEntry j]) :=
      { nGroups := ha.nGroups
        lt := by omega
        serial := by simp only [FecRouterAgent.afterFec, if_neg hlast]
        gid := by simp only [FecRouterAgent.afterFec, if_neg hlast]
        tables := rfl }
    have hrid : (l.m_fec.afterFec s j
        ⟨R ++ [t.push [s.fecEntry j]], Q ++ [T.push [s.fecEntry j]]⟩).m_roundId =
        l.m_fec.m_roundId := by
      simp only [FecRouterAgent.afterFec, if_neg hlast]
    have hic' : (l.ic_ - 1).toNat = k + 1 := by
      have h1 : (1 : UInt32) ≤ l.ic_ := by
        rw [UInt32.le_iff_toNat_le, hic]
        simp
      rw [UInt32.toNat_sub_of_le _ _ h1, hic]
      rfl
    obtain ⟨sent', hok, hpk, hrec⟩ := ih (l := { l with
        m_fec := l.m_fec.afterFec s j
          ⟨R ++ [t.push [s.fecEntry j]], Q ++ [T.push [s.fecEntry j]]⟩, ic_ := l.ic_ - 1 })
      (sent ++ [s.fecSent l.m_fec h j R t Q T]) (by omega) ha' hf hn
      hfc hic' (ht.trans hrid.symm) (hT.trans hrid.symm)
    refine ⟨s.fecSent l.m_fec h j R t Q T :: sent', ?_, ?_, ?_⟩
    · rw [sendFecPackets_again hfc hp hic1]
      refine hok.trans ?_
      simp only [RoundFecTable.push_push, GroupFecTable.push_push, List.range'_succ,
        List.map_cons, List.cons_append, List.nil_append, List.append_assoc,
        Ipv4L3ProtocolwithFecEncode.opened, FecRouterAgent.afterFec, Shape.fecSent, if_neg hlast]
    · rw [List.range'_succ, List.map_cons, List.map_cons, hpk, hrid]
      rfl
    · intro x hx
      rcases List.mem_cons.mp hx with rfl | hx
      · exact recorded_fec ht hT h
      · exact hrec x hx

/-! ### The bound of the loop -/

/-- There is a last table in both queues. -/
def HasTables (fec : FecRouterAgent) : Prop :=
  ∃ R t Q T, fec.toFecTables = ⟨R ++ [t], Q ++ [T]⟩

private theorem HasTables.createFecPacket {a : FecRouterAgent} (ha : HasTables a)
    (h : TcpHeader) : ∃ a' p, a.createFecPacket h = .ok (a', p) ∧ HasTables a' := by
  obtain ⟨R, t, Q, T, htables⟩ := ha
  have hpush := pushEntry_append R t Q T a.fecEntry
  simp only [FecRouterAgent.createFecPacket, htables, hpush, bind, Except.bind, pure, Except.pure]
  split
  · split
    · exact ⟨_, _, rfl, R, _, Q, _, rfl⟩
    · exact ⟨_, _, rfl, R, _, Q, _, rfl⟩
  · split
    · exact ⟨_, _, rfl, R, _, Q, _, rfl⟩
    · exact ⟨_, _, rfl, R, _, Q, _, rfl⟩

private theorem hasTables_redundancyControl (l : Ipv4L3ProtocolwithFecEncode) :
    HasTables l.redundancyControl.m_fec :=
  ⟨l.m_fec.rt_, _, l.m_fec.gt_, _, rfl⟩

/-- A round without data packets: the counter is set to 0 whenever it is set. -/
private theorem diverges_of_empty_window {l : Ipv4L3ProtocolwithFecEncode} (h : TcpHeader)
    (sent : List Sent) (hfc : l.fc_ = 0) (hw : l.m_fwin * l.m_nGroups.toUInt32 = 0)
    (htables : HasTables l.m_fec) : Diverges (Ipv4L3ProtocolwithFecEncode.fecTurn h) (l, sent) := by
  apply diverges_of_invariant (I := fun x : Ipv4L3ProtocolwithFecEncode × List Sent =>
    x.1.fc_ = 0 ∧ x.1.m_fwin * x.1.m_nGroups.toUInt32 = 0 ∧ HasTables x.1.m_fec) ?_
      ⟨hfc, hw, htables⟩
  rintro ⟨m, out⟩ ⟨hm, hmw, hmt⟩
  obtain ⟨fec, p, hp, ht⟩ := hmt.createFecPacket h
  simp only at hm hmw hp
  simp only [Ipv4L3ProtocolwithFecEncode.fecTurn, hm, if_true, hp]
  refine ⟨_, rfl, ?_⟩
  split
  · exact ⟨hmw, hmw, hasTables_redundancyControl _⟩
  · exact ⟨rfl, hmw, ht⟩

/-- When the loop has not left within its bound, it never leaves. -/
theorem sendFecPackets_diverges (h : TcpHeader) (n : Nat) :
    ∀ (l : Ipv4L3ProtocolwithFecEncode) (sent : List Sent), (l.ic_ - 1).toNat = n →
      turns (Ipv4L3ProtocolwithFecEncode.fecTurn h) (n + 2) (l, sent) = none →
      Diverges (Ipv4L3ProtocolwithFecEncode.fecTurn h) (l, sent) := by
  induction n with
  | zero =>
    intro l sent hic hnone
    have hic0 : l.ic_ - 1 = 0 := UInt32.toNat_inj.mp hic
    by_cases hfc : l.fc_ = 0
    · cases hp : l.m_fec.createFecPacket h with
      | error f => simp [turns, Ipv4L3ProtocolwithFecEncode.fecTurn, hfc, hp] at hnone
      | ok r =>
        have hturn : Ipv4L3ProtocolwithFecEncode.fecTurn h (l, sent) =
            .again (({ l with m_fec := r.1, ic_ := 0 } :
              Ipv4L3ProtocolwithFecEncode).redundancyControl, sent ++ [⟨r.2, r.1⟩]) := by
          simp only [Ipv4L3ProtocolwithFecEncode.fecTurn, hfc, if_true, hp, hic0]
        rw [turns, hturn] at hnone
        refine Diverges.again hturn ?_
        by_cases hw : l.m_fwin * l.m_nGroups.toUInt32 = 0
        · exact diverges_of_empty_window h _ hw hw (hasTables_redundancyControl _)
        · have hleave := fecTurn_leave (l := ({ l with m_fec := r.1, ic_ := 0 } :
            Ipv4L3ProtocolwithFecEncode).redundancyControl) hw h (sent ++ [⟨r.2, r.1⟩])
          simp [turns, hleave] at hnone
    · rw [turns, fecTurn_leave hfc] at hnone
      cases hnone
  | succ n ih =>
    intro l sent hic hnone
    have hic0 : ¬ l.ic_ - 1 = 0 := by
      intro h0
      rw [h0] at hic
      exact absurd hic (Nat.succ_ne_zero n).symm
    by_cases hfc : l.fc_ = 0
    · cases hp : l.m_fec.createFecPacket h with
      | error f => simp [turns, Ipv4L3ProtocolwithFecEncode.fecTurn, hfc, hp] at hnone
      | ok r =>
        have hturn : Ipv4L3ProtocolwithFecEncode.fecTurn h (l, sent) =
            .again ({ l with m_fec := r.1, ic_ := l.ic_ - 1 }, sent ++ [⟨r.2, r.1⟩]) := by
          simp only [Ipv4L3ProtocolwithFecEncode.fecTurn, hfc, if_true, hp, hic0, if_false]
        rw [turns, hturn] at hnone
        refine Diverges.again hturn (ih _ _ ?_ hnone)
        have h1 : (1 : UInt32) ≤ l.ic_ - 1 := by grind
        change (l.ic_ - 1 - 1).toNat = n
        rw [UInt32.toNat_sub_of_le _ _ h1, hic]
        rfl
    · rw [turns, fecTurn_leave hfc] at hnone
      cases hnone

/-! ### One call of `SendRealOut` -/

/-- The packet is sent in one piece. -/
def SendCall.Forwards (c : SendCall) : Prop :=
  c.out.route = true ∧ c.out.isUp = true ∧
    c.packet.getSize + c.ipHeader.getSerializedSize ≤ c.out.mtu

/-- The packet is sent in one piece and tagged as data. -/
def SendCall.Tagged (c : SendCall) (segmentSize : UInt32) : Prop :=
  c.Forwards ∧ segmentSize.toNat < c.packet.getSize

/-- The two size tests agree: a packet at most the segment size is not above it once it
was sent. -/
def SendCall.Agrees (c : SendCall) (segmentSize : UInt32) : Prop :=
  c.Forwards → c.out.prepends = true → c.packet.getSize ≤ segmentSize.toNat →
    c.packet.getSize + c.ipHeader.getSerializedSize ≤ segmentSize.toNat

instance (c : SendCall) : Decidable c.Forwards := inferInstanceAs (Decidable (_ ∧ _))

instance (c : SendCall) (segmentSize : UInt32) : Decidable (c.Tagged segmentSize) :=
  inferInstanceAs (Decidable (_ ∧ _))

instance (c : SendCall) (segmentSize : UInt32) : Decidable (c.Agrees segmentSize) :=
  inferInstanceAs (Decidable (_ → _ → _ → _))

/-- The headers an entry keeps of the packet. -/
def SendCall.hdr (c : SendCall) : RouterHdr := ⟨c.packet.peekTcpHeader c.out.noTcp, c.ipHeader⟩

/-- What `Send` leaves of the packet it was given. -/
def SendCall.after (c : SendCall) (packet : Packet) : Packet :=
  if c.out.prepends then packet.addHeader (.ipv4 c.ipHeader) else packet

/-- The protocol when it has tagged and counted data packet `i`. -/
def Ipv4L3ProtocolwithFecEncode.afterData (l : Ipv4L3ProtocolwithFecEncode) (s : Shape) (i : Nat)
    (tables : FecTables RouterHdr) : Ipv4L3ProtocolwithFecEncode :=
  { l with m_fec := l.m_fec.afterData s i tables, fc_ := l.fc_ - 1 }

/-- The first packet sent opens the first round. -/
def Ipv4L3ProtocolwithFecEncode.start (l : Ipv4L3ProtocolwithFecEncode) :
    Ipv4L3ProtocolwithFecEncode :=
  if l.m_fwin ≠ 0 ∧ l.init_ then { l.redundancyControl with init_ := false } else l

private theorem getSize_after (c : SendCall) (packet : Packet) :
    (c.after packet).getSize =
      (if c.out.prepends then c.ipHeader.getSerializedSize else 0) + packet.getSize := by
  rw [SendCall.after]
  split
  · rw [Packet.getSize_addHeader]
    rfl
  · rw [Nat.zero_add]

/-- A packet that is not sent in one piece leaves the encoder alone. -/
theorem sendRealOut_of_not_forwards {c : SendCall} (hc : ¬ c.Forwards)
    (l : Ipv4L3ProtocolwithFecEncode) : l.sendRealOut c = .ok (l, []) := by
  rw [Ipv4L3ProtocolwithFecEncode.sendRealOut]
  split
  · rfl
  · next hup =>
    rw [not_or, Bool.not_eq_false, Bool.not_eq_false] at hup
    have hmtu : c.packet.getSize + c.ipHeader.getSerializedSize > c.out.mtu := by
      apply Nat.lt_of_not_le
      exact fun hle => hc ⟨hup.1, hup.2, hle⟩
    rw [if_pos hmtu]

/-- `SendRealOut` on a packet sent in one piece. -/
theorem sendRealOut_of_forwards {c : SendCall} (hc : c.Forwards)
    (l : Ipv4L3ProtocolwithFecEncode) :
    l.sendRealOut c = (l.start.sendData c).bind fun r =>
      r.1.sendFecPackets ((c.after r.2).peekTcpHeader c.out.noTcpAfter) [⟨r.2, r.1.m_fec⟩] := by
  obtain ⟨hroute, hup, hmtu⟩ := hc
  have hdown : ¬ (c.out.route = false ∨ c.out.isUp = false) := by simp [hroute, hup]
  have hfit : ¬ c.packet.getSize + c.ipHeader.getSerializedSize > c.out.mtu := by omega
  rw [Ipv4L3ProtocolwithFecEncode.sendRealOut, if_neg hdown, if_neg hfit]
  rfl

/-- A small packet on which the size tests agree changes nothing. -/
theorem sendData_idle {l : Ipv4L3ProtocolwithFecEncode} {c : SendCall}
    (hc : c.Forwards) (hag : c.Agrees l.m_segmentSize) (hsmall : ¬ c.Tagged l.m_segmentSize) :
    l.sendData c = .ok (l, c.packet) := by
  have hle : ¬ c.packet.getSize > l.m_segmentSize.toNat := fun h => hsmall ⟨hc, h⟩
  have hafter : ¬ (c.after c.packet).getSize > l.m_segmentSize.toNat := by
    rw [getSize_after]
    split
    · next hp =>
      have := hag hc hp (by omega)
      omega
    · omega
  simp only [Ipv4L3ProtocolwithFecEncode.sendData, if_neg hle, pure, Except.pure, bind, Except.bind]
  rw [← SendCall.after, if_neg hafter]

/-- A tagged packet is entered, tagged and counted. -/
theorem sendData_tagged {s : Shape} {l : Ipv4L3ProtocolwithFecEncode} {i : Nat}
    {R : List (RoundFecTable RouterHdr)} {t : RoundFecTable RouterHdr}
    {Q : List (GroupFecTable RouterHdr)} {T : GroupFecTable RouterHdr}
    (hl : Filling s l i R t Q T) {c : SendCall} (hc : c.Tagged l.m_segmentSize) :
    l.sendData c =
      .ok (l.afterData s i
          ⟨R ++ [t.push [s.dataEntry i c.hdr]], Q ++ [T.push [s.dataEntry i c.hdr]]⟩,
        c.packet.addPacketTag (s.dataTag l.m_fec.m_roundId i)) := by
  have hbig : c.packet.getSize > l.m_segmentSize.toNat := hc.2
  have hafter : (c.after (c.packet.addPacketTag (s.dataTag l.m_fec.m_roundId i))).getSize >
      l.m_segmentSize.toNat := by
    rw [getSize_after, Packet.getSize_addPacketTag]
    omega
  have hcreate := createDataPacket_filling hl c.packet (c.packet.peekTcpHeader c.out.noTcp)
    c.ipHeader
  simp only [Ipv4L3ProtocolwithFecEncode.sendData, if_pos hbig, hcreate, pure, Except.pure, bind,
    Except.bind]
  rw [← SendCall.after, if_pos hafter]
  rfl

/-- Everything a call on which the size tests agree does in the data part of a round. -/
inductive SendStep (s : Shape) (l : Ipv4L3ProtocolwithFecEncode) (i : Nat)
    (R : List (RoundFecTable RouterHdr)) (t : RoundFecTable RouterHdr)
    (Q : List (GroupFecTable RouterHdr)) (T : GroupFecTable RouterHdr) (c : SendCall) :
    Ipv4L3ProtocolwithFecEncode → List Sent → Prop where
  /-- The packet is not tagged. -/
  | idle (hc : ¬ c.Tagged l.m_segmentSize) (sent : List Sent)
      (hsent : ∀ x ∈ sent, x.packet = c.packet) : SendStep s l i R t Q T c l sent
  /-- The packet becomes data packet `i`, which is not the last. -/
  | data (hc : c.Tagged l.m_segmentSize) (hi : i + 1 < s.window)
      (l' : Ipv4L3ProtocolwithFecEncode)
      (hl' : l' = l.afterData s i
        ⟨R ++ [t.push [s.dataEntry i c.hdr]], Q ++ [T.push [s.dataEntry i c.hdr]]⟩) :
      SendStep s l i R t Q T c l'
        [⟨c.packet.addPacketTag (s.dataTag l.m_fec.m_roundId i), l'.m_fec⟩]
  /-- The packet becomes the last data packet; the FEC packets follow. -/
  | close (hc : c.Tagged l.m_segmentSize) (hi : i + 1 = s.window)
      (l' : Ipv4L3ProtocolwithFecEncode)
      (hl' : l' = l.afterData s i
        ⟨R ++ [t.push [s.dataEntry i c.hdr]], Q ++ [T.push [s.dataEntry i c.hdr]]⟩)
      (h : TcpHeader) (fecs : List Sent)
      (hfecs : fecs.map Sent.packet =
        (List.range s.groups).map (s.fecPacket l.m_fec.m_segmentSize l.m_fec.m_roundId h))
      (hrec : ∀ x ∈ fecs, x.Recorded) :
      SendStep s l i R t Q T c
        (l'.opened s (R ++ [t.push (s.dataEntry i c.hdr :: s.fecEntries)])
          (Q ++ [T.push (s.dataEntry i c.hdr :: s.fecEntries)]) (l.m_fec.m_roundId + 1))
        (⟨c.packet.addPacketTag (s.dataTag l.m_fec.m_roundId i), l'.m_fec⟩ :: fecs)

section Call

variable {s : Shape} {l : Ipv4L3ProtocolwithFecEncode} {i : Nat}
  {R : List (RoundFecTable RouterHdr)} {t : RoundFecTable RouterHdr}
  {Q : List (GroupFecTable RouterHdr)} {T : GroupFecTable RouterHdr}

/-- A round already open stays open. -/
theorem Filling.start (hl : Filling s l i R t Q T) : l.start = l := by
  have hinit := hl.init
  simp [Ipv4L3ProtocolwithFecEncode.start, hinit]

private theorem sendFecPackets_leave {h : TcpHeader} (hfc : ¬ l.fc_ = 0) (sent : List Sent) :
    l.sendFecPackets h sent = .ok (l, sent) := by
  rw [Ipv4L3ProtocolwithFecEncode.sendFecPackets, turns, fecTurn_leave hfc]
  rfl

private theorem Filling.toNat_fc_sub (hl : Filling s l i R t Q T) :
    (l.fc_ - 1).toNat + (i + 1) = s.window := by
  have hfc := hl.fc
  have hlt := hl.lt
  have h1 : (1 : UInt32) ≤ l.fc_ := by
    rw [UInt32.le_iff_toNat_le]
    change 1 ≤ l.fc_.toNat
    omega
  rw [UInt32.toNat_sub_of_le _ _ h1]
  change l.fc_.toNat - 1 + (i + 1) = s.window
  omega

/-- The data part goes on after a data packet that is not the last. -/
theorem Filling.afterData (hl : Filling s l i R t Q T) (hi : i + 1 < s.window)
    (e : PacketInfo RouterHdr) :
    Filling s (l.afterData s i ⟨R ++ [t.push [e]], Q ++ [T.push [e]]⟩) (i + 1) R (t.push [e]) Q
      (T.push [e]) :=
  { fwin := hl.fwin
    nGroups := hl.nGroups
    fec_fwin := hl.fec_fwin
    fec_nGroups := hl.fec_nGroups
    init := hl.init
    fc := hl.toNat_fc_sub
    lt := hi
    ic := hl.ic
    serial := rfl
    gid := rfl
    tables := rfl
    rid := hl.rid
    group_rid := hl.group_rid
    table_nGroups := hl.table_nGroups }

/-- The next round starts with its data part. -/
theorem Filling.opened (hl : Filling s l i R t Q T) (tables : FecTables RouterHdr)
    (R' : List (RoundFecTable RouterHdr)) (Q' : List (GroupFecTable RouterHdr)) (rid : UInt32) :
    Filling s ((l.afterData s i tables).opened s R' Q' rid) 0 R' ⟨rid, s.nGroups, []⟩ Q'
      ⟨rid, s.nGroups, fun _ => []⟩ :=
  { fwin := hl.fwin
    nGroups := hl.nGroups
    fec_fwin := hl.fec_fwin
    fec_nGroups := hl.fec_nGroups
    init := hl.init
    fc := s.toNat_window
    lt := s.window_pos
    ic := rfl
    serial := rfl
    gid := by simp [Ipv4L3ProtocolwithFecEncode.opened]
    tables := rfl
    rid := rfl
    group_rid := rfl
    table_nGroups := rfl }

/-- A call in the data part of a round returns, and does what `SendStep` allows. -/
theorem sendRealOut_step (hl : Filling s l i R t Q T) {c : SendCall}
    (hag : c.Agrees l.m_segmentSize) :
    ∃ l' sent, l.sendRealOut c = .ok (l', sent) ∧ SendStep s l i R t Q T c l' sent := by
  by_cases hf : c.Forwards
  · have hstart := hl.start
    by_cases hc : c.Tagged l.m_segmentSize
    · have hdata := sendData_tagged hl hc
      rw [sendRealOut_of_forwards hf, hstart, hdata]
      by_cases hi : i + 1 = s.window
      · -- the counter reaches 0: the FEC part follows
        have hnat := hl.toNat_fc_sub
        have hfc : l.fc_ - 1 = 0 := by
          apply UInt32.toNat_inj.mp
          change (l.fc_ - 1).toNat = 0
          omega
        have hmod : UInt8.ofNat ((i + 1) % s.groups) = UInt8.ofNat 0 := by
          rw [hi, s.window_mod]
        have hpar : Parity s (l.m_fec.afterData s i
            ⟨R ++ [t.push [s.dataEntry i c.hdr]], Q ++ [T.push [s.dataEntry i c.hdr]]⟩) 0 R
            (t.push [s.dataEntry i c.hdr]) Q (T.push [s.dataEntry i c.hdr]) :=
          { nGroups := hl.fec_nGroups
            lt := s.groups_pos
            serial := by rw [FecRouterAgent.afterData, hi]
            gid := hmod
            tables := rfl }
        have hG : s.groups - 1 + 1 = s.groups := Nat.sub_add_cancel s.groups_pos
        have hic : l.ic_.toNat = s.groups - 1 + 1 := by
          rw [hl.ic, hG]
          simp [Shape.groups]
        obtain ⟨fecs, hok, hpk, hrec⟩ := sendFecPackets_parity
          ((c.after (c.packet.addPacketTag (s.dataTag l.m_fec.m_roundId i))).peekTcpHeader
            c.out.noTcpAfter) (s.groups - 1) (l := l.afterData s i
              ⟨R ++ [t.push [s.dataEntry i c.hdr]], Q ++ [T.push [s.dataEntry i c.hdr]]⟩)
          [⟨c.packet.addPacketTag (s.dataTag l.m_fec.m_roundId i), _⟩] (by omega) hpar hl.fwin
          hl.nGroups hfc hic hl.rid hl.group_rid
        rw [hG, ← List.range_eq_range'] at hok hpk
        refine ⟨_, _, hok, ?_⟩
        simp only [RoundFecTable.push_push, GroupFecTable.push_push, List.cons_append,
          List.nil_append]
        exact .close hc hi _ rfl _ fecs hpk hrec
      · have hi' : i + 1 < s.window := by
          have := hl.lt
          omega
        have hnat := hl.toNat_fc_sub
        have hfc : ¬ l.fc_ - 1 = 0 := by
          intro h0
          rw [h0] at hnat
          change 0 + (i + 1) = s.window at hnat
          omega
        exact ⟨_, _, sendFecPackets_leave hfc _, .data hc hi' _ rfl⟩
    · have hdata := sendData_idle hf hag hc
      have hfc : ¬ l.fc_ = 0 := by
        intro h0
        have h1 := hl.fc
        have h2 := hl.lt
        rw [h0] at h1
        change 0 + i = s.window at h1
        omega
      rw [sendRealOut_of_forwards hf, hstart, hdata]
      refine ⟨_, _, sendFecPackets_leave hfc _, .idle hc _ ?_⟩
      intro x hx
      rw [List.mem_singleton.mp hx]
  · refine ⟨l, [], sendRealOut_of_not_forwards hf l, .idle (fun hc => hf hc.1) [] ?_⟩
    simp

end Call

/-! ### Runs of calls -/

/-- An agent that has not sent anything yet. -/
structure Fresh (s : Shape) (fec : FecRouterAgent) : Prop where
  fwin : fec.m_fwin = s.fwin
  nGroups : fec.m_nGroups = s.nGroups
  serial : fec.m_serial = 1
  round : fec.m_roundId = 1
  group : fec.m_groupId = 0
  tables : fec.toFecTables = ⟨[], []⟩

/-- The tags of `R` whole rounds from round `rid` on, and of `m` data packets of the next. -/
def Shape.roundsTags (s : Shape) (rid : UInt32) (R m : Nat) : List FecTag :=
  (List.range R).flatMap (fun k => s.roundTags (rid + UInt32.ofNat k)) ++
    s.dataTags (rid + UInt32.ofNat R) m

/-- The tags of what was sent. -/
def tagsOf (sent : List Sent) : List FecTag := sent.filterMap fun x => x.packet.tag

/-- The tagged packets are rounds 1, 2, …, the last one possibly still in its data part,
and each was recorded in the last tables, of its own round. -/
def RoundStructured (s : Shape) (sent : List Sent) : Prop :=
  (∃ R m, m < s.window ∧ tagsOf sent = s.roundsTags 1 R m) ∧ ∀ x ∈ sent, x.Recorded

@[simp] theorem tagsOf_append (sent sent' : List Sent) :
    tagsOf (sent ++ sent') = tagsOf sent ++ tagsOf sent' := List.filterMap_append

private theorem dataTags_succ (s : Shape) (rid : UInt32) (i : Nat) :
    s.dataTags rid (i + 1) = s.dataTags rid i ++ [s.dataTag rid i] := by
  simp [Shape.dataTags, List.range_succ]

private theorem roundsTags_succ (s : Shape) (rid : UInt32) (R m : Nat) :
    s.roundsTags rid (R + 1) m = s.roundTags rid ++ s.roundsTags (rid + 1) R m := by
  have hcomm : ∀ k : Nat, rid + UInt32.ofNat (k + 1) = rid + 1 + UInt32.ofNat k := by
    intro k
    rw [UInt32.ofNat_add, UInt32.add_assoc, UInt32.add_comm (UInt32.ofNat k)]
    rfl
  simp only [Shape.roundsTags, List.range_succ_eq_map, List.flatMap_cons, List.flatMap_map,
    List.append_assoc, hcomm]
  simp

private theorem tagsOf_fecs {s : Shape} {fecs : List Sent} {size rid : UInt32} {h : TcpHeader}
    (hf : fecs.map Sent.packet = (List.range s.groups).map (s.fecPacket size rid h)) :
    tagsOf fecs = s.fecTags rid := by
  have hmap : tagsOf fecs = (fecs.map Sent.packet).filterMap Packet.tag := by
    simp [tagsOf, List.filterMap_map]
  rw [hmap, hf, List.filterMap_map]
  simp [Function.comp_def, Shape.fecPacket, Shape.fecTags]

private theorem recorded_data {s : Shape} {l : Ipv4L3ProtocolwithFecEncode} {i : Nat}
    {R : List (RoundFecTable RouterHdr)} {t : RoundFecTable RouterHdr}
    {Q : List (GroupFecTable RouterHdr)} {T : GroupFecTable RouterHdr}
    (hl : Filling s l i R t Q T) (packet : Packet) (hdr : RouterHdr) :
    Sent.Recorded ⟨packet.addPacketTag (s.dataTag l.m_fec.m_roundId i),
      (l.afterData s i ⟨R ++ [t.push [s.dataEntry i hdr]], Q ++ [T.push [s.dataEntry i hdr]]⟩).m_fec⟩ := by
  intro tag htag
  have htag' : s.dataTag l.m_fec.m_roundId i = tag := by
    simpa using htag
  subst htag'
  refine ⟨R, _, Q, _, rfl, hl.rid, hl.group_rid, ⟨s.dataEntry i hdr, by simp, rfl, rfl⟩,
    ⟨s.dataEntry i hdr, ?_, rfl⟩⟩
  simp [Shape.dataEntry, Shape.dataTag]

private theorem sendAll_cons {l l₁ l' : Ipv4L3ProtocolwithFecEncode} {c : SendCall}
    {cs : List SendCall} {sent sent' : List Sent} (hc : l.sendRealOut c = .ok (l₁, sent))
    (hcs : l₁.sendAll cs = .ok (l', sent')) : l.sendAll (c :: cs) = .ok (l', sent ++ sent') := by
  simp [Ipv4L3ProtocolwithFecEncode.sendAll, hc, hcs, bind, Except.bind, pure, Except.pure]

/-- The encoder is in the data part of some round. -/
def Open (s : Shape) (l : Ipv4L3ProtocolwithFecEncode) (i : Nat) : Prop :=
  ∃ R t Q T, Filling s l i R t Q T

/-- One call extends the tags of the current round, or completes them. -/
theorem SendStep.tags {s : Shape} {l l' : Ipv4L3ProtocolwithFecEncode} {i : Nat}
    {R : List (RoundFecTable RouterHdr)} {t : RoundFecTable RouterHdr}
    {Q : List (GroupFecTable RouterHdr)} {T : GroupFecTable RouterHdr} {c : SendCall}
    {sent : List Sent} (hl : Filling s l i R t Q T) (hnone : c.packet.tag = none)
    (hstep : SendStep s l i R t Q T c l' sent) :
    (∀ x ∈ sent, x.Recorded) ∧ l'.m_segmentSize = l.m_segmentSize ∧
      ((∃ i', Open s l' i' ∧ l'.m_fec.m_roundId = l.m_fec.m_roundId ∧
          s.dataTags l.m_fec.m_roundId i ++ tagsOf sent = s.dataTags l.m_fec.m_roundId i') ∨
        (Open s l' 0 ∧ l'.m_fec.m_roundId = l.m_fec.m_roundId + 1 ∧
          s.dataTags l.m_fec.m_roundId i ++ tagsOf sent = s.roundTags l.m_fec.m_roundId)) := by
  cases hstep with
  | idle hc sent hsent =>
    have huntagged : ∀ x ∈ sent, x.packet.tag = none := by
      intro x hx
      rw [hsent x hx, hnone]
    refine ⟨?_, rfl, .inl ⟨i, ⟨R, t, Q, T, hl⟩, rfl, ?_⟩⟩
    · intro x hx tag htag
      rw [huntagged x hx] at htag
      cases htag
    · rw [tagsOf, List.filterMap_eq_nil_iff.mpr huntagged, List.append_nil]
  | data hc hi l' hl' =>
    subst hl'
    refine ⟨?_, rfl, .inl ⟨i + 1, ⟨R, _, Q, _, hl.afterData hi _⟩, rfl, ?_⟩⟩
    · intro x hx
      rw [List.mem_singleton.mp hx]
      exact recorded_data hl c.packet c.hdr
    · rw [dataTags_succ]
      simp [tagsOf]
  | close hc hi l' hl' h fecs hfecs hrec =>
    subst hl'
    refine ⟨?_, rfl, .inr ⟨⟨_, _, _, _, hl.opened _ _ _ _⟩, rfl, ?_⟩⟩
    · intro x hx
      rcases List.mem_cons.mp hx with rfl | hx
      · exact recorded_data hl c.packet c.hdr
      · exact hrec x hx
    · have hcons : tagsOf (⟨c.packet.addPacketTag (s.dataTag l.m_fec.m_roundId i),
          (l.afterData s i ⟨R ++ [t.push [s.dataEntry i c.hdr]],
            Q ++ [T.push [s.dataEntry i c.hdr]]⟩).m_fec⟩ :: fecs) =
          [s.dataTag l.m_fec.m_roundId i] ++ s.fecTags l.m_fec.m_roundId := by
        rw [← tagsOf_fecs hfecs]
        simp [tagsOf]
      rw [hcons, ← List.append_assoc, ← dataTags_succ, hi, Shape.roundTags]

/-- A run of calls from the data part of a round. -/
theorem sendAll_open {s : Shape} (calls : List SendCall) :
    ∀ {l : Ipv4L3ProtocolwithFecEncode} {i : Nat}, Open s l i →
      (∀ c ∈ calls, c.packet.tag = none ∧ c.Agrees l.m_segmentSize) →
      ∃ l' sent, l.sendAll calls = .ok (l', sent) ∧
        (∃ R m, m < s.window ∧ s.dataTags l.m_fec.m_roundId i ++ tagsOf sent =
          s.roundsTags l.m_fec.m_roundId R m) ∧
        ∀ x ∈ sent, x.Recorded := by
  induction calls with
  | nil =>
    rintro l i ⟨R, t, Q, T, hl⟩ _
    refine ⟨l, [], rfl, ⟨0, i, hl.lt, ?_⟩, by simp⟩
    simp [tagsOf, Shape.roundsTags]
  | cons c cs ih =>
    rintro l i ⟨R, t, Q, T, hl⟩ hcalls
    obtain ⟨hnone, hag⟩ := hcalls c (by simp)
    obtain ⟨l₁, sent, hok, hstep⟩ := sendRealOut_step hl hag
    obtain ⟨hrec, hsize, htags⟩ := hstep.tags hl hnone
    have hcs : ∀ c ∈ cs, c.packet.tag = none ∧ c.Agrees l₁.m_segmentSize := by
      intro c hc
      rw [hsize]
      exact hcalls c (by simp [hc])
    rcases htags with ⟨i', hopen, hrid, hsent⟩ | ⟨hopen, hrid, hsent⟩
    · obtain ⟨l', sent', hok', ⟨R', m, hm, hsent'⟩, hrec'⟩ := ih hopen hcs
      refine ⟨l', sent ++ sent', sendAll_cons hok hok', ⟨R', m, hm, ?_⟩, ?_⟩
      · rw [tagsOf_append, ← List.append_assoc, hsent, ← hrid, hsent']
      · exact fun x hx => (List.mem_append.mp hx).elim (hrec x) (hrec' x)
    · obtain ⟨l', sent', hok', ⟨R', m, hm, hsent'⟩, hrec'⟩ := ih hopen hcs
      refine ⟨l', sent ++ sent', sendAll_cons hok hok', ⟨R' + 1, m, hm, ?_⟩, ?_⟩
      · have hzero : tagsOf sent' = s.roundsTags l₁.m_fec.m_roundId R' m := hsent'
        rw [tagsOf_append, ← List.append_assoc, hsent, hzero, hrid, roundsTags_succ]
      · exact fun x hx => (List.mem_append.mp hx).elim (hrec x) (hrec' x)

/-- The first round is opened for a fresh agent. -/
theorem Fresh.start {s : Shape} {l : Ipv4L3ProtocolwithFecEncode} (hfec : Fresh s l.m_fec)
    (hfwin : l.m_fwin = s.fwin) (hn : l.m_nGroups = s.nGroups) (hinit : l.init_ = true) :
    Filling s l.start 0 [] ⟨1, s.nGroups, []⟩ [] ⟨1, s.nGroups, fun _ => []⟩ := by
  have hgo : l.m_fwin ≠ 0 ∧ l.init_ = true := ⟨by rw [hfwin]; exact s.fwin_ne, hinit⟩
  have htables := hfec.tables
  rw [Ipv4L3ProtocolwithFecEncode.start, if_pos hgo]
  exact
    { fwin := hfwin
      nGroups := hn
      fec_fwin := hfec.fwin
      fec_nGroups := hfec.nGroups
      init := rfl
      fc := by
        simp only [Ipv4L3ProtocolwithFecEncode.redundancyControl, hfwin, hn]
        exact s.toNat_window
      lt := s.window_pos
      ic := congrArg UInt8.toUInt32 hn
      serial := hfec.serial
      gid := by
        simp only [Ipv4L3ProtocolwithFecEncode.redundancyControl, FecRouterAgent.updateFecTable,
          hfec.group, Nat.zero_mod]
        rfl
      tables := by
        simp [Ipv4L3ProtocolwithFecEncode.redundancyControl, FecRouterAgent.updateFecTable,
          htables, FecTables.pushTables, hfec.round, hfec.nGroups]
      rid := hfec.round.symm
      group_rid := hfec.round.symm
      table_nGroups := rfl }

private theorem start_start (l : Ipv4L3ProtocolwithFecEncode) : l.start.start = l.start := by
  unfold Ipv4L3ProtocolwithFecEncode.start
  split
  · simp
  · rfl

/-- Whether the first round is opened before a packet is sent or by it is the same. -/
theorem sendRealOut_start {c : SendCall} (hf : c.Forwards) (l : Ipv4L3ProtocolwithFecEncode) :
    l.sendRealOut c = l.start.sendRealOut c := by
  rw [sendRealOut_of_forwards hf, sendRealOut_of_forwards hf, start_start]

/-- The same for a run. -/
theorem sendAll_start (l : Ipv4L3ProtocolwithFecEncode) (calls : List SendCall) :
    l.sendAll calls = .ok (l, []) ∨ l.sendAll calls = l.start.sendAll calls := by
  induction calls with
  | nil => exact .inl rfl
  | cons c cs ih =>
    by_cases hf : c.Forwards
    · right
      simp only [Ipv4L3ProtocolwithFecEncode.sendAll, sendRealOut_start hf l]
    · have hl := sendRealOut_of_not_forwards hf l
      have hs := sendRealOut_of_not_forwards hf l.start
      simp only [Ipv4L3ProtocolwithFecEncode.sendAll, hl, hs, bind, Except.bind, pure, Except.pure]
      rcases ih with h | h
      · exact .inl (by rw [h]; rfl)
      · exact .inr (by rw [h])

/-- When the size tests agree on every packet, what the encoder sends is round structured. -/
theorem sendAll_roundStructured (s : Shape) (fec : FecRouterAgent) (hfec : Fresh s fec)
    (calls : List SendCall)
    (hcalls : ∀ c ∈ calls, c.packet.tag = none ∧ c.Agrees fec.m_segmentSize) :
    ∃ l sent, (Ipv4L3ProtocolwithFecEncode.setFec fec).sendAll calls = .ok (l, sent) ∧
      RoundStructured s sent := by
  have hstart := Fresh.start (l := .setFec fec) hfec hfec.fwin hfec.nGroups rfl
  have hsize : (Ipv4L3ProtocolwithFecEncode.setFec fec).start.m_segmentSize =
      fec.m_segmentSize := by
    rw [Ipv4L3ProtocolwithFecEncode.start]
    split <;> rfl
  have hcalls' : ∀ c ∈ calls, c.packet.tag = none ∧
      c.Agrees (Ipv4L3ProtocolwithFecEncode.setFec fec).start.m_segmentSize := by
    rw [hsize]
    exact hcalls
  obtain ⟨l, sent, hok, ⟨R, m, hm, htags⟩, hrec⟩ := sendAll_open calls ⟨_, _, _, _, hstart⟩ hcalls'
  rcases sendAll_start (.setFec fec) calls with h | h
  · refine ⟨_, [], h, ⟨0, 0, s.window_pos, ?_⟩, by simp⟩
    simp [tagsOf, Shape.roundsTags, Shape.dataTags]
  · refine ⟨l, sent, h.trans hok, ⟨R, m, hm, ?_⟩, hrec⟩
    rw [← hstart.rid] at htags
    exact htags

/-- One data packet to a round, one group. -/
def Shape.one : Shape := ⟨1, 1, by decide, by decide, by decide⟩

/-- An agent of shape `Shape.one`. -/
def oneAgent : FecRouterAgent := { m_fwin := 1, m_nGroups := 1 }

private theorem fresh_oneAgent : Fresh Shape.one oneAgent := ⟨rfl, rfl, rfl, rfl, rfl, rfl⟩

/-- A packet above the segment size, and one whose size passes it by the prepended header. -/
theorem sendAll_roundStructured_one :
    ∃ l sent, (Ipv4L3ProtocolwithFecEncode.setFec oneAgent).sendAll
        [{ packet := { payload := 1001 } }, { packet := { payload := 500 } }] = .ok (l, sent) ∧
      RoundStructured Shape.one sent :=
  sendAll_roundStructured Shape.one oneAgent fresh_oneAgent _ (by decide)

/-- The tags of whole rounds start with a data packet. -/
theorem head_roundsTags (s : Shape) (rid : UInt32) (R m : Nat) :
    ∀ tag, (s.roundsTags rid R m).head? = some tag → tag.m_type = 1 := by
  intro tag htag
  have hdata : ∀ n, 0 < n → (s.dataTags rid n).head? = some (s.dataTag rid 0) := by
    intro n hn
    obtain ⟨k, rfl⟩ : ∃ k, n = k + 1 := ⟨n - 1, by omega⟩
    simp [Shape.dataTags, List.range_succ_eq_map]
  cases R with
  | zero =>
    have hz : s.roundsTags rid 0 m = s.dataTags rid m := by simp [Shape.roundsTags]
    rw [hz] at htag
    rcases Nat.eq_zero_or_pos m with rfl | hm
    · simp [Shape.dataTags] at htag
    · rw [hdata m hm] at htag
      rw [← Option.some.inj htag]
      rfl
  | succ R =>
    rw [roundsTags_succ, Shape.roundTags, List.head?_append, List.head?_append,
      hdata s.window s.window_pos] at htag
    rw [← Option.some.inj htag]
    rfl

/-- A packet of 990 bytes to which `Send` prepends its header is counted but not tagged, and
the first round holds its FEC packet alone. -/
theorem not_roundStructured_990 :
    Fresh Shape.one oneAgent ∧ ∃ l sent,
      (Ipv4L3ProtocolwithFecEncode.setFec oneAgent).sendAll
        [{ out := { prepends := true }, packet := { payload := 990 } }] = .ok (l, sent) ∧
      ¬ RoundStructured Shape.one sent := by
  refine ⟨fresh_oneAgent, _, _, rfl, ?_⟩
  rintro ⟨⟨R, m, -, htags⟩, -⟩
  have hhead := head_roundsTags Shape.one 1 R m ⟨2, 1, 1, 0, 1⟩
  rw [← htags] at hhead
  exact absurd (hhead (by decide)) (by decide)

end Ns3.Fec
