import Ns3.Fec.RouterNet
import Mathlib.Data.List.Pairwise
import Mathlib.Data.List.Perm.Subperm

/-!
# Runs of the two routers

What holds of `Recv` in every net the routers reach: when it returns, and which packets it
recovers. Both fail when data packets arrive after the FEC packet of their group, and
both are exact about when.
-/

namespace Ns3.Fec

variable {H : Type}

/-- Few entries of an ascending list are below a serial. -/
theorem Ascending.countP_lost_le {es : List (PacketInfo H)} (hes : Ascending es)
    (serial : UInt32) : es.countP (lost serial) ≤ serial.toNat := by
  have hsub : ((es.filter (lost serial)).map fun e => e.serial_.toNat).Subperm
      (List.range serial.toNat) := by
    apply List.subperm_of_subset
    · rw [List.Nodup, List.pairwise_map]
      refine (hes.filter (lost serial)).imp ?_
      intro a b hab heq
      rw [UInt32.lt_iff_toNat_lt] at hab
      omega
    · intro k hk
      obtain ⟨e, he, rfl⟩ := List.mem_map.mp hk
      have hlost := (List.mem_filter.mp he).2
      simp only [lost, Bool.and_eq_true, decide_eq_true_eq] at hlost
      rw [List.mem_range]
      exact UInt32.lt_iff_toNat_lt.mp hlost.2
  have hlen := hsub.length_le
  rwa [List.length_map, List.length_range, ← List.countP_eq_length_filter] at hlen

/-- The loss count of a data packet is that of the unmarked entries before it. -/
theorem Tracks.lostSum_data {log : List (Record H)} {D D' : Deliveries} {s : FecTables H}
    {tag : FecTag} (h : Tracks log D D' s) {t : RoundFecTable H} (ht : t ∈ s.rt_)
    (hrid : t.rid_ = tag.m_roundId) (htype : tag.m_type = 1) {bound : UInt32}
    (hbound : tag.m_serial ≤ bound) :
    lostSum log D tag bound = UInt32.ofNat (t.pi_.countP (lost tag.m_serial)) := by
  rw [lostSum, ← h.countP_scan ht hrid, List.countP_map]
  congr 1
  apply List.countP_congr
  intro e _
  by_cases he : e.serial_ = tag.m_serial
  · have hlt : ¬ e.serial_ < tag.m_serial := by grind
    simp [lost, mark_of_eq he, hlt]
  · simp only [Function.comp, mark_of_ne he, lost, reached, htype, true_implies, Bool.and_eq_true,
      decide_eq_true_eq]
    grind

/-- A count of losses exceeds the group count as a number when it does as a word. -/
theorem not_lt_ofNat_iff {n : UInt8} {k : Nat} (hk : k < 2 ^ 32) :
    ¬ n.toUInt32 < UInt32.ofNat k ↔ k ≤ n.toNat := by
  rw [UInt32.lt_iff_toNat_lt, UInt8.toNat_toUInt32, UInt32.toNat_ofNat', Nat.mod_eq_of_lt hk]
  omega

/-- The search of `MarkGroupFecTable` for a packet: a data packet whose round is still queued
with at most `m_nGroups` unmarked entries before it, while its group's list is cleared. -/
def FecRouterAgent.Stranded (a : FecRouterAgent) (tag : FecTag) : Prop :=
  tag.m_type = 1 ∧
    (∃ t ∈ a.rt_, t.rid_ = tag.m_roundId ∧
      t.pi_.countP (lost tag.m_serial) ≤ tag.m_nGroups.toNat) ∧
    ∃ T ∈ a.gt_, T.rid_ = tag.m_roundId ∧ T.gi_ tag.m_groupId = []

namespace RouterNet

variable {s : Shape} {n : RouterNet} {D' : Deliveries} {i : Nat}
  {R : List (RoundFecTable RouterHdr)} {t : RoundFecTable RouterHdr}
  {Q : List (GroupFecTable RouterHdr)} {T : GroupFecTable RouterHdr}

/-- Two packets of one round with one serial are the same. -/
theorem Good.eq_of_serial (h : Good s n D' i R t Q T) {x y : InFlight} (hx : x ∈ n.sent)
    (hy : y ∈ n.sent) (hrid : x.tag.m_roundId = y.tag.m_roundId)
    (hser : x.tag.m_serial = y.tag.m_serial) : x = y := by
  by_contra hne
  have hdiff : n.sent.Pairwise fun x y =>
      ¬ (x.tag.m_roundId = y.tag.m_roundId ∧ x.tag.m_serial = y.tag.m_serial) := by
    refine h.order.imp ?_
    rintro a b (hlt | ⟨-, hlt⟩) ⟨hr, hs⟩
    · rw [hr] at hlt
      exact UInt32.lt_irrefl _ hlt
    · rw [hs] at hlt
      exact UInt32.lt_irrefl _ hlt
  have hsymm : Std.Symm fun x y : InFlight =>
      ¬ (x.tag.m_roundId = y.tag.m_roundId ∧ x.tag.m_serial = y.tag.m_serial) :=
    ⟨fun _ _ hab ⟨hr, hs⟩ => hab ⟨hr.symm, hs.symm⟩⟩
  exact hdiff.forall hx hy hne ⟨hrid, hser⟩

/-- Two FEC packets of one group are the same. -/
theorem Good.eq_of_group (hs : Fits s) (h : Good s n D' i R t Q T) {x y : InFlight}
    (hx : x ∈ n.sent) (hy : y ∈ n.sent) (hxt : x.tag.m_type = 2) (hyt : y.tag.m_type = 2)
    (hrid : x.tag.m_roundId = y.tag.m_roundId) (hgid : x.tag.m_groupId = y.tag.m_groupId) :
    x = y := by
  apply h.eq_of_serial hx hy hrid
  apply UInt32.toNat_inj.mp
  rw [(h.fec_serial hs hx hxt).2, (h.fec_serial hs hy hyt).2, hgid]

/-- What the tables show as delivered was delivered. -/
theorem Good.mem_got (h : Good s n D' i R t Q T) {x : InFlight} (hx : x ∈ n.sent)
    (hD : n.delivered x.tag.m_roundId x.tag.m_serial = true) : x ∈ n.got := by
  simp only [delivered, List.any_eq_true, Bool.and_eq_true, decide_eq_true_eq] at hD
  obtain ⟨y, hy, hrid, hser⟩ := hD
  rw [h.eq_of_serial hx (h.got_sent y hy) hrid hser]
  exact hy

/-- The list of a group whose FEC packet is still under way is not cleared. -/
theorem Good.not_cleared (hs : Fits s) (h : Good s n D' i R t Q T) {x : InFlight} (hx : x ∈ n.sent)
    (hgot : x ∉ n.got) (htype : x.tag.m_type = 2) {U : GroupFecTable RouterHdr}
    (hU : U ∈ Q ++ [T]) (hrid : U.rid_ = x.tag.m_roundId) : U.gi_ x.tag.m_groupId ≠ [] := by
  intro hnil
  have hmem : x.record.info ∈ entered n.log U.rid_ :=
    mem_entered (List.mem_map_of_mem hx) hrid.symm
  rcases h.live.cleared U hU _ hnil with hnone | ⟨e, he, hgid, hfec, hseen⟩
  · exact hnone _ hmem rfl
  · obtain ⟨r, hr, hr', rfl⟩ := exists_of_mem_entered he
    obtain ⟨y, hy, rfl⟩ := List.mem_map.mp hr
    have hytype : y.tag.m_type = 2 := y.taggedBy.type.mpr hfec
    have hyrid : x.tag.m_roundId = y.tag.m_roundId := by
      rw [← hrid, ← hr']
      rfl
    have hxy : x = y := h.eq_of_group hs hx hy htype hytype hyrid hgid.symm
    subst hxy
    apply hgot
    apply h.mem_got hx
    have := h.live.seen_got _ _ hseen
    rwa [hrid] at this

/-- `Recv` as a pass over the tables of a good state. -/
theorem Good.recv_eq (h : Good s n D' i R t Q T) {x : InFlight} (hx : x ∈ n.sent)
    (ipHeader : Ipv4Header) :
    n.l3.m_fec.recv x.packet ipHeader =
      (decode x.tag (s.fwin * s.nGroups.toUInt32) (n.l3.m_fec.m_sendRxRequest = .ON)
        ⟨R ++ [t], Q ++ [T]⟩).map (n.l3.m_fec.settle x.packet ipHeader x.tag) := by
  rw [← h.bound hx, ← h.filling.tables]
  exact FecRouterAgent.recv_eq_map _ _ _

/-- A data packet is below the loss bound. -/
theorem Good.serial_le_bound (hs : Fits s) (h : Good s n D' i R t Q T) {x : InFlight} (hx : x ∈ n.sent)
    (htype : x.tag.m_type = 1) : x.tag.m_serial ≤ s.fwin * s.nGroups.toUInt32 := by
  rw [UInt32.le_iff_toNat_le, s.toNat_window]
  exact h.data_serial hs hx htype

/-- A packet under way is either found, or `MarkGroupFecTable` searches for it for ever. -/
theorem Good.recv_cases (hs : Fits s) (h : Good s n D' i R t Q T) {x : InFlight} (hx : x ∈ n.sent)
    (hgot : x ∉ n.got) (ipHeader : Ipv4Header) :
    (¬ n.l3.m_fec.Stranded x.tag ∧ ∃ r, n.l3.m_fec.recv x.packet ipHeader = .ok r) ∨
      (n.l3.m_fec.Stranded x.tag ∧ n.l3.m_fec.recv x.packet ipHeader = .error .noReturn) := by
  have hrt : n.l3.m_fec.rt_ = R ++ [t] := congrArg FecTables.rt_ h.filling.tables
  have hgt : n.l3.m_fec.gt_ = Q ++ [T] := congrArg FecTables.gt_ h.filling.tables
  have hmem : x.record ∈ n.log := List.mem_map_of_mem hx
  have hlive := h.live
  rw [h.recv_eq hx ipHeader, FecRouterAgent.Stranded, hrt, hgt]
  rcases hlive.present _ hmem with hpast | hin
  · -- the round queue is past the packet's round
    left
    refine ⟨?_, ?_⟩
    · rintro ⟨-, ⟨u, hu, hrid, -⟩, -⟩
      have := hpast _ (List.mem_map_of_mem hu)
      rw [hrid] at this
      exact UInt32.lt_irrefl _ this
    · obtain ⟨u, q, huq⟩ := List.exists_cons_of_ne_nil (List.concat_ne_nil t R)
      have hlt : x.tag.m_roundId < u.rid_ := hpast _ (List.mem_map_of_mem (by simp [huq]))
      exact ⟨_, by rw [decode_stale (s := ⟨R ++ [t], Q ++ [T]⟩) huq hlt]; rfl⟩
  · obtain ⟨u, hu, hrid⟩ := List.mem_map.mp hin
    rcases h.types hx with htype | htype
    · have hlast : ∀ k, ¬ IsLast x.tag k := by
        rintro k ⟨h2, -⟩
        rw [htype] at h2
        cases h2
      have hsum : ∀ v ∈ R ++ [t], v.rid_ = x.tag.m_roundId →
          (¬ x.tag.m_nGroups.toUInt32 <
              lostSum n.log n.delivered x.tag (s.fwin * s.nGroups.toUInt32) ↔
            v.pi_.countP (lost x.tag.m_serial) ≤ x.tag.m_nGroups.toNat) := by
        intro v hv hvrid
        rw [hlive.lostSum_data hv hvrid htype (h.serial_le_bound hs hx htype), not_lt_ofNat_iff]
        exact ((hlive.ascending hlive.logged hv).countP_lost_le _).trans_lt
          x.tag.m_serial.toNat_lt
      by_cases hstranded : ∃ v ∈ R ++ [t], v.rid_ = x.tag.m_roundId ∧
          v.pi_.countP (lost x.tag.m_serial) ≤ x.tag.m_nGroups.toNat ∧
          ∃ U ∈ Q ++ [T], U.rid_ = x.tag.m_roundId ∧ U.gi_ x.tag.m_groupId = []
      · right
        obtain ⟨v, hv, hvrid, hcount, U, hU, hUrid, hnil⟩ := hstranded
        refine ⟨⟨htype, ⟨v, hv, hvrid, hcount⟩, U, hU, hUrid, hnil⟩, ?_⟩
        rw [hlive.strands hlive.logged hmem x.taggedBy _ _ hv hvrid
          ((hsum v hv hvrid).mpr hcount) (hlast _) hU hUrid hnil]
        rfl
      · left
        refine ⟨?_, ?_⟩
        · rintro ⟨-, ⟨v, hv, hvrid, hcount⟩, hU⟩
          exact hstranded ⟨v, hv, hvrid, hcount, hU⟩
        · obtain ⟨d, hd⟩ := hlive.returns hlive.logged hmem x.taggedBy
            (s.fwin * s.nGroups.toUInt32) (n.l3.m_fec.m_sendRxRequest = .ON) hu hrid
            (fun hl => absurd hl (hlast _)) (fun hs _ U hU hUrid hnil =>
              hstranded ⟨u, hu, hrid, (hsum u hu hrid).mp hs, U, hU, hUrid, hnil⟩)
          exact ⟨_, by rw [hd]; rfl⟩
    · left
      refine ⟨?_, ?_⟩
      · rintro ⟨h1, -⟩
        rw [htype] at h1
        cases h1
      · obtain ⟨d, hd⟩ := hlive.returns hlive.logged hmem x.taggedBy
          (s.fwin * s.nGroups.toUInt32) (n.l3.m_fec.m_sendRxRequest = .ON) hu hrid
          (fun _ => ⟨t, by simp, h.closed x hx htype⟩)
          (fun _ _ U hU hUrid => h.not_cleared hs hx hgot htype hU hUrid)
        exact ⟨_, by rw [hd]; rfl⟩

end RouterNet

open RouterNet

/-- `Recv` of a packet that was sent and not yet delivered returns unless the packet is
stranded, and meets no empty queue. -/
theorem recv_returns_iff (s : Shape) (hs : Fits s) (fec : FecRouterAgent) (hfec : Fresh s fec)
    (n : RouterNet) (hn : Reached Sendable Any fec n) (x : InFlight) (hx : x ∈ n.sent)
    (hgot : x ∉ n.got) (ipHeader : Ipv4Header) :
    ((∃ r, n.l3.m_fec.recv x.packet ipHeader = .ok r) ↔ ¬ n.l3.m_fec.Stranded x.tag) ∧
      n.l3.m_fec.recv x.packet ipHeader ≠ .error .emptyQueue := by
  have htrue : Kept s fec Any fun _ _ => True :=
    ⟨trivial, by intros; trivial, by intros; trivial⟩
  rcases hn.good hs hfec htrue with rfl | ⟨D', i, R, t, Q, T, h, -⟩
  · cases hx
  · rcases h.recv_cases hs hx hgot ipHeader with ⟨hfree, r, hr⟩ | ⟨hstranded, hr⟩
    · rw [hr]
      exact ⟨⟨fun _ => hfree, fun _ => ⟨r, rfl⟩⟩, by simp⟩
    · rw [hr]
      exact ⟨⟨fun hret => by simp at hret, fun hfree => absurd hstranded hfree⟩, by simp⟩

theorem fwin_one_ne : (1 : UInt32) ≠ 0 := by decide

theorem nGroups_two_ne : (2 : UInt8) ≠ 0 := by decide

/-- One data packet to a group, two groups. -/
def Shape.two : Shape := ⟨1, 2, fwin_one_ne, nGroups_two_ne, by decide⟩

/-- An agent of shape `Shape.two`. -/
def twoAgent : FecRouterAgent := { m_fwin := 1, m_nGroups := 2 }

theorem fresh_twoAgent : Fresh Shape.two twoAgent := ⟨rfl, rfl, rfl, rfl, rfl, rfl⟩

/-- A packet above the segment size. -/
def fullCall : SendCall := { packet := { payload := 1001 } }

/-- A full packet tagged as data packet `i` of the first round. -/
def Shape.fullFlight (s : Shape) (i : Nat) : InFlight := s.dataFlight 1 fullCall i

/-- FEC packet `j` of the first round of full packets. -/
def Shape.fullFec (s : Shape) (j : Nat) : InFlight :=
  s.fecFlight 1000 1 {} fullCall.hdr j

/-- The first data packet of a round, delivered first. -/
theorem recv_returns_iff_two : ∃ n : RouterNet, Shape.two.fullFlight 0 ∈ n.sent ∧
    ((∃ r, n.l3.m_fec.recv (Shape.two.fullFlight 0).packet {} = .ok r) ↔
      ¬ n.l3.m_fec.Stranded (Shape.two.fullFlight 0).tag) ∧
      n.l3.m_fec.recv (Shape.two.fullFlight 0).packet {} ≠ .error .emptyQueue := by
  have h0 : Reached Sendable Any twoAgent _ := .start
  have h1 := h0.step (.send fullCall ⟨by decide, by decide, by decide⟩ _ _ rfl)
  exact ⟨_, by decide, recv_returns_iff Shape.two (by unfold Fits; decide) twoAgent
    fresh_twoAgent _ h1 (Shape.two.fullFlight 0) (by decide) (by decide) {}⟩

/-- The FEC packet of group 0 arrives before the group's data packet, is used to recover it
and clears the group's list, in which the data packet is then searched for ever. -/
theorem not_recv_returns_two : ∃ n, Reached Sendable Any twoAgent n ∧
    Shape.two.fullFlight 0 ∈ n.sent ∧ Shape.two.fullFlight 0 ∉ n.got ∧
    n.l3.m_fec.recv (Shape.two.fullFlight 0).packet {} = .error .noReturn := by
  have h0 : Reached Sendable Any twoAgent _ := .start
  have h1 := h0.step (.send fullCall ⟨by decide, by decide, by decide⟩ _ _ rfl)
  have h2 := h1.step (.send fullCall ⟨by decide, by decide, by decide⟩ _ _ rfl)
  have h3 := h2.step (.receive (Shape.two.fullFec 0) (by decide) (by decide) trivial {} _ rfl)
  exact ⟨_, h3, by decide, by decide, rfl⟩

/-! ### What is recovered -/

/-- More entries before a data packet are unmarked than the round has groups: `Recv` marks
the packet in the round table and returns before `MarkGroupFecTable`. -/
def FecRouterAgent.CutsShort (a : FecRouterAgent) (tag : FecTag) : Prop :=
  tag.m_type = 1 ∧ ∃ t ∈ a.rt_, t.rid_ = tag.m_roundId ∧
    tag.m_nGroups.toNat < t.pi_.countP (lost tag.m_serial)

instance (a : FecRouterAgent) (tag : FecTag) : Decidable (a.CutsShort tag) :=
  inferInstanceAs (Decidable (_ ∧ ∃ t ∈ a.rt_, _))

namespace RouterNet

/-- No data packet is cut short. -/
def Uncut (n : RouterNet) (x : InFlight) : Prop := ¬ n.l3.m_fec.CutsShort x.tag

instance (n : RouterNet) (x : InFlight) : Decidable (n.Uncut x) :=
  inferInstanceAs (Decidable (¬ _))

/-- The group tables saw every data packet delivered, but for rounds that are gone. -/
def Marked (n : RouterNet) (D' : Deliveries) : Prop :=
  ∀ y ∈ n.got, y.tag.m_type = 1 →
    y.tag.m_roundId ∉ n.rids ∨ D' y.tag.m_roundId y.tag.m_serial = true

variable {s : Shape} {n : RouterNet} {D' D'' : Deliveries} {i : Nat}
  {R : List (RoundFecTable RouterHdr)} {t : RoundFecTable RouterHdr}
  {Q : List (GroupFecTable RouterHdr)} {T : GroupFecTable RouterHdr}

/-- A delivered data packet that is not cut short reaches its group's list. -/
private theorem Good.marks (hs : Fits s) (h : Good s n D' i R t Q T) {x : InFlight} (hx : x ∈ n.sent)
    (huncut : n.Uncut x) (htype : x.tag.m_type = 1) {request : Bool} {d : Decoded RouterHdr}
    (ho : Outcome n.log n.delivered D' x.tag (s.fwin * s.nGroups.toUInt32) request
      ⟨R ++ [t], Q ++ [T]⟩ d D'') :
    x.tag.m_roundId ∉ n.rids ∨ D'' x.tag.m_roundId x.tag.m_serial = true := by
  have hlast : ∀ k, ¬ IsLast x.tag k := by
    rintro k ⟨h2, -⟩
    rw [htype] at h2
    cases h2
  cases ho with
  | stale u q hrt hlt =>
    left
    rw [h.rids_eq]
    intro hmem
    have hsorted := h.live.rt_sorted
    change R ++ [t] = u :: q at hrt
    rw [hrt] at hmem hsorted
    rcases List.mem_cons.mp hmem with heq | hmem
    · rw [heq] at hlt
      exact UInt32.lt_irrefl _ hlt
    · obtain ⟨v, hv, hvrid⟩ := List.mem_map.mp hmem
      have := (List.pairwise_cons.mp hsorted).1 v hv
      grind
  | early old u q hrt hrid hsum =>
    have hrt' : R ++ [t] = old ++ u :: q := hrt
    have hu : u ∈ R ++ [t] := by
      rw [hrt']
      simp
    rw [h.live.lostSum_data hu hrid htype (h.serial_le_bound hs hx htype)] at hsum
    have hcount := ((h.live.ascending h.live.logged hu).countP_lost_le x.tag.m_serial).trans_lt
      x.tag.m_serial.toNat_lt
    refine absurd ⟨htype, u, ?_, hrid, ?_⟩ huncut
    · rw [congrArg FecTables.rt_ h.filling.tables]
      exact hu
    · rwa [← not_le, ← not_lt_ofNat_iff hcount, not_not]
  | last old u q hrt hrid hsum hl => exact absurd hl (hlast _)
  | data => exact .inr (by simp [Deliveries.add])
  | fec old u q hrt hrid hsum h2 => exact .inr (by simp [Deliveries.add])

/-- Every step that cuts no packet short keeps the marks. -/
private theorem kept_marked (hs : Fits s) (fec : FecRouterAgent) :
    Kept s fec Uncut Marked where
  first := by simp [Marked]
  send := by
    intro n D' i R t Q T h hmarked n' hgrown y hy htype
    have hrids := (hgrown.rids h).2
    have hy : y ∈ n.got := by
      obtain ⟨es, xs, later, -, -, -, -, -, -, hgot, -, -⟩ := hgrown
      exact hgot ▸ hy
    rcases hmarked y hy htype with hgone | hseen
    · left
      intro hmem
      rcases hrids _ hmem with hold | hlt
      · exact hgone hold
      · have hpast := h.live.past y.record (List.mem_map_of_mem (h.got_sent y hy))
        have : y.tag.m_roundId ≤ t.rid_ := hpast
        grind
    · exact .inr hseen
  receive := by
    intro n D' i R t Q T h hmarked x hx hgot huncut ipHeader d D'' ho hrids y hy htype
    rcases List.mem_append.mp hy with hy | hy
    · rcases hmarked y hy htype with hgone | hseen
      · exact .inl fun hmem => hgone (hrids _ hmem)
      · right
        rcases ho.groups with ⟨-, rfl⟩ | ⟨-, -, -, -, -, -, -, rfl, -⟩
        · exact hseen
        · simp [Deliveries.add, hseen]
    · rw [List.mem_singleton.mp hy] at htype ⊢
      exact (h.marks hs hx huncut htype ho).imp (fun hgone hmem => hgone (hrids _ hmem)) id

/-- The entry a pass recovers is a data entry of the packet's group, missing for the group
tables, of a round still queued. -/
theorem Good.recovered (hs : Fits s) (h : Good s n D' i R t Q T) {x : InFlight} {request : Bool}
    {d : Decoded RouterHdr} (hx : x ∈ n.sent)
    (ho : Outcome n.log n.delivered D' x.tag (s.fwin * s.nGroups.toUInt32) request
      ⟨R ++ [t], Q ++ [T]⟩ d D'') {e : PacketInfo RouterHdr}
    (he : d.group.bind GroupOutcome.recovered = some e) :
    x.tag.m_roundId ∈ n.rids ∧ D' x.tag.m_roundId e.serial_ = false ∧
      ∃ z ∈ n.sent, z.record.info = e ∧ z.tag.m_roundId = x.tag.m_roundId ∧
        z.tag.m_groupId = x.tag.m_groupId ∧ z.tag.m_type = 1 := by
  cases ho with
  | stale => cases he
  | early => cases he
  | last => cases he
  | data => cases he
  | fec old u q hrt hrid hsum htype =>
    have hlost : e ∈ groupLost n.log D' x.tag := by
      simp only [Option.bind_some] at he
      split at he
      · exact List.mem_of_getLast? he
      · cases he
    simp only [groupLost, missing, List.mem_filter, Bool.not_eq_true', Bool.or_eq_false_iff,
      decide_eq_true_eq] at hlost
    obtain ⟨⟨⟨hmem, -, hunseen⟩, hgid⟩, hlt⟩ := hlost
    obtain ⟨r, hr, hr', rfl⟩ := exists_of_mem_entered hmem
    obtain ⟨z, hz, rfl⟩ := List.mem_map.mp hr
    refine ⟨?_, hunseen, z, hz, rfl, hr', hgid, ?_⟩
    · have hrt' : R ++ [t] = old ++ u :: q := hrt
      rw [h.rids_eq, hrt', ← hrid]
      exact List.mem_map_of_mem (by simp)
    · rcases h.types hz with h1 | h2
      · exact h1
      · -- the group's only FEC packet is the one delivered
        have hzx := h.eq_of_group hs hz hx h2 htype hr' hgid
        subst hzx
        exact absurd hlt (UInt32.lt_irrefl _)

end RouterNet

/-- When no data packet is cut short, `Recv` recovers undelivered data packets only. -/
theorem recv_recovers_undelivered (s : Shape) (hs : Fits s) (fec : FecRouterAgent)
    (hfec : Fresh s fec) (n : RouterNet) (hn : Reached Sendable Uncut fec n) (x : InFlight)
    (hx : x ∈ n.sent) (ipHeader : Ipv4Header) (r : FecRouterAgent.Received)
    (hr : n.l3.m_fec.recv x.packet ipHeader = .ok r) (e : PacketInfo RouterHdr)
    (he : r.recovered = some e) :
    ∀ y ∈ n.got, ¬ (y.tag.m_roundId = x.tag.m_roundId ∧ y.tag.m_serial = e.serial_) := by
  rcases hn.good hs hfec (kept_marked hs fec) with rfl | ⟨D', i, R, t, Q, T, h, hmarked⟩
  · cases hx
  · obtain ⟨d, D'', ho, rfl⟩ := h.outcome hx hr
    rw [FecRouterAgent.settle_recovered] at he
    obtain ⟨hqueued, hunseen, z, hz, rfl, hzrid, -, hztype⟩ := h.recovered hs hx ho he
    rintro y hy ⟨hyrid, hyser⟩
    have hyz : y = z := h.eq_of_serial (h.got_sent y hy) hz (hyrid.trans hzrid.symm) hyser
    subst hyz
    rcases hmarked y hy hztype with hgone | hseen
    · rw [hyrid] at hgone
      exact hgone hqueued
    · rw [hyrid, hyser, hunseen] at hseen
      cases hseen

/-- The second data packet is delivered, and the FEC packet of group 0 recovers the first. -/
theorem recv_recovers_undelivered_two : ∃ (n : RouterNet) (r : FecRouterAgent.Received)
    (e : PacketInfo RouterHdr),
    n.l3.m_fec.recv (Shape.two.fullFec 0).packet {} = .ok r ∧ r.recovered = some e ∧
      ∀ y ∈ n.got, ¬ (y.tag.m_roundId = (Shape.two.fullFec 0).tag.m_roundId ∧
        y.tag.m_serial = e.serial_) := by
  have h0 : Reached Sendable Uncut twoAgent _ := .start
  have h1 := h0.step (.send fullCall ⟨by decide, by decide, by decide⟩ _ _ rfl)
  have h2 := h1.step (.send fullCall ⟨by decide, by decide, by decide⟩ _ _ rfl)
  have h3 := h2.step
    (.receive (Shape.two.fullFlight 1) (by decide) (by decide) (by decide) {} _ rfl)
  exact ⟨_, _, _, rfl, rfl, recv_recovers_undelivered Shape.two (by unfold Fits; decide) twoAgent
    fresh_twoAgent _ h3 (Shape.two.fullFec 0) (by decide) {} _ rfl _ rfl⟩

/-- Three data packets to a group, two groups. -/
def Shape.six : Shape := ⟨3, 2, by decide, nGroups_two_ne, by decide⟩

/-- An agent of shape `Shape.six`. -/
def sixAgent : FecRouterAgent := { m_fwin := 3, m_nGroups := 2 }

/-- Data packet 5 arrives first and is cut short, packets 1 and 3 follow, and the FEC packet of
their group recovers packet 5. -/
theorem not_recovers_undelivered_six : ∃ n, Reached Sendable Any sixAgent n ∧
    Shape.six.fullFec 0 ∈ n.sent ∧ Shape.six.fullFec 0 ∉ n.got ∧
    ∃ y ∈ n.got, ∃ r e, n.l3.m_fec.recv (Shape.six.fullFec 0).packet {} = .ok r ∧
      r.recovered = some e ∧ y.tag.m_roundId = (Shape.six.fullFec 0).tag.m_roundId ∧
      y.tag.m_groupId = e.gid_ ∧ y.tag.m_serial = e.serial_ := by
  have h0 : Reached Sendable Any sixAgent _ := .start
  have h1 := h0.step (.send fullCall ⟨by decide, by decide, by decide⟩ _ _ rfl)
  have h2 := h1.step (.send fullCall ⟨by decide, by decide, by decide⟩ _ _ rfl)
  have h3 := h2.step (.send fullCall ⟨by decide, by decide, by decide⟩ _ _ rfl)
  have h4 := h3.step (.send fullCall ⟨by decide, by decide, by decide⟩ _ _ rfl)
  have h5 := h4.step (.send fullCall ⟨by decide, by decide, by decide⟩ _ _ rfl)
  have h6 := h5.step (.send fullCall ⟨by decide, by decide, by decide⟩ _ _ rfl)
  have d5 := h6.step (.receive (Shape.six.fullFlight 4) (by decide) (by decide) trivial {} _ rfl)
  have d1 := d5.step (.receive (Shape.six.fullFlight 0) (by decide) (by decide) trivial {} _ rfl)
  have d3 := d1.step (.receive (Shape.six.fullFlight 2) (by decide) (by decide) trivial {} _ rfl)
  exact ⟨_, d3, by decide, by decide, Shape.six.fullFlight 4, by decide, _, _, rfl, rfl, by decide,
    by decide, by decide⟩

end Ns3.Fec
