import Ns3.Fec.RoundWindow

/-!
# A sending socket with FEC

The end of `TcpSocketBase::SendDataPacket`: the first data packet opens a round, each
data packet is tagged and counted down in `fc`, and when `fc` reaches 0 the loop sends
a FEC packet for each group, opens the next round when the groups are counted down in
`ic`, and goes on until a round has data packets. Printing and the trace are left out.
Source: `src/internet/model/tcp-socket-base.cc:3196–3292`.
-/

namespace Ns3.Tcp
open Ns3.Fec Ns3.Lib

/-- What the FEC part of `SendDataPacket` reads and writes of a socket (`tcp-socket-base.h:1358–1361`). -/
structure FecSender where
  m_fec : FecAgent
  m_init : Bool := true
  fc : UInt32 := 0
  ic : UInt32 := 0

namespace FecSender

/-- `RedundancyControl`. -/
def redundancyControl (s : FecSender) (cwnd : UInt32) : Except Fault FecSender := do
  let (fec, fwin) ← s.m_fec.redundancyControl cwnd
  return { s with m_fec := fec, fc := fwin, ic := fec.nGroups.toUInt32 }

/-- `SendFecPacket`: the FEC packet goes out with the header of the data packet, at sequence number 0. -/
def sendFecPacket (s : FecSender) (tcpHeader : TcpHeader) : Except Fault (FecSender × Packet) := do
  let (fec, p) ← s.m_fec.createFecPacket
  return ({ s with m_fec := fec }, p.addHeader (.tcp { tcpHeader with m_sequenceNumber := 0 }))

/-- The body of `while (fc == 0)`. -/
def fecBody (s : FecSender) (header : TcpHeader) (cwnd : UInt32) : Except Fault (FecSender × Packet) := do
  let (s, p) ← s.sendFecPacket header
  let s := { s with ic := s.ic - 1 }
  let s ← if s.ic = 0 then s.redundancyControl cwnd else pure s
  return (s, p)

/-- One turn of `while (fc == 0)`, with the FEC packets sent so far. -/
def fecTurn (header : TcpHeader) (cwnd : UInt32) :
    FecSender × List Packet → Turn (FecSender × List Packet) (Except Fault (FecSender × List Packet))
  | (s, sent) =>
    if s.fc = 0 then
      match s.fecBody header cwnd with
      | .error f => .leave (.error f)
      | .ok (s, p) => .again (s, sent ++ [p])
    else .leave (.ok (s, sent))

/-- `SendDataPacket` up to the loop. -/
def sendData (s : FecSender) (p : Packet) (header : TcpHeader) (highTxMark cwnd : UInt32) :
    Except Fault (FecSender × Packet) := do
  let s ←
    if s.m_init ∧ s.m_fec.m_fwin ≠ 0 then do
      let s ← s.redundancyControl cwnd
      pure { s with m_init := false }
    else pure s
  let (fec, p) ← s.m_fec.createDataPacket p header highTxMark
  return ({ s with m_fec := fec, fc := if s.m_fec.m_fwin ≠ 0 then s.fc - 1 else s.fc }, p)

/-- A round is open: its tables are there, and so many of its groups have no FEC packet. -/
structure RoundOpen (s : FecSender) : Prop where
  rt : s.m_fec.rt_ ≠ []
  gt : s.m_fec.gt_ ≠ []
  ic : s.ic ≠ 0

/-- An agent whose attributes are in range. -/
structure Configured (a : FecAgent) : Prop where
  fwin : a.m_fwin ≠ 0
  nGroups : a.m_nGroups ≠ 0
  segmentSize : a.m_segmentSize ≠ 0

/-! ### Calls of the agent -/

theorem updateBack_ok {T : Type} (f : T → T) {q : List T} (hq : q ≠ []) :
    ∃ q', updateBack f q = .ok q' ∧ q' ≠ [] := by
  induction q with
  | nil => exact absurd rfl hq
  | cons t q ih =>
    cases q with
    | nil => exact ⟨[f t], rfl, List.cons_ne_nil _ _⟩
    | cons u q =>
      obtain ⟨q', hback, -⟩ := ih (List.cons_ne_nil _ _)
      refine ⟨t :: q', ?_, List.cons_ne_nil _ _⟩
      rw [updateBack, hback]
      · rfl
      · exact fun h => List.cons_ne_nil _ _ h

theorem pushEntry_ok {tables : FecTables TcpHeader} (hrt : tables.rt_ ≠ []) (hgt : tables.gt_ ≠ [])
    (pi : PacketInfo TcpHeader) : ∃ tables', tables.pushEntry pi = .ok tables' ∧ tables'.rt_ ≠ [] ∧ tables'.gt_ ≠ [] := by
  obtain ⟨gt, hgt, hgt'⟩ := updateBack_ok (fun T : GroupFecTable TcpHeader => T.setGroup pi.gid_ (T.gi_ pi.gid_ ++ [pi])) hgt
  obtain ⟨rt, hrt, hrt'⟩ := updateBack_ok (fun t : RoundFecTable TcpHeader => { t with pi_ := t.pi_ ++ [pi] }) hrt
  refine ⟨⟨rt, gt⟩, ?_, hrt', hgt'⟩
  rw [FecTables.pushEntry, hgt, hrt]
  rfl

/-- What the sizing of rounds reads is the same. -/
structure SameSizing (a b : FecAgent) : Prop where
  fecMode : a.m_fecMode = b.m_fecMode
  boundMode : a.m_boundMode = b.m_boundMode
  fwin : a.m_fwin = b.m_fwin
  fmax : a.m_fmax = b.m_fmax
  nGroups : a.m_nGroups = b.m_nGroups
  segmentSize : a.m_segmentSize = b.m_segmentSize

theorem SameSizing.roundWindow {a b : FecAgent} (h : SameSizing a b) (cwnd : UInt32) :
    a.roundWindow cwnd = b.roundWindow cwnd := by
  unfold FecAgent.roundWindow
  rw [h.fecMode, h.boundMode, h.fwin, h.fmax, h.nGroups, h.segmentSize]

theorem createFecPacket_ok {a : FecAgent} (hrt : a.rt_ ≠ []) (hgt : a.gt_ ≠ []) :
    ∃ a' p, a.createFecPacket = .ok (a', p) ∧ a'.rt_ ≠ [] ∧ a'.gt_ ≠ [] ∧ SameSizing a' a := by
  obtain ⟨tables, hpush, hrt', hgt'⟩ := pushEntry_ok hrt hgt a.fecEntry
  rw [FecAgent.createFecPacket, hpush]
  dsimp only [bind, Except.bind, pure, Except.pure]
  by_cases hmany : a.nGroups > 1
  · rw [if_pos hmany]
    split
    · exact ⟨_, _, rfl, hrt', hgt', ⟨rfl, rfl, rfl, rfl, rfl, rfl⟩⟩
    · exact ⟨_, _, rfl, hrt', hgt', ⟨rfl, rfl, rfl, rfl, rfl, rfl⟩⟩
  · rw [if_neg hmany]
    split
    · exact ⟨_, _, rfl, hrt', hgt', ⟨rfl, rfl, rfl, rfl, rfl, rfl⟩⟩
    · exact ⟨_, _, rfl, hrt', hgt', ⟨rfl, rfl, rfl, rfl, rfl, rfl⟩⟩

variable {s : FecSender} {header : TcpHeader} {cwnd : UInt32} {w : UInt32 × UInt8}

/-- A round of `w.1` data packets in `w.2` groups is opened. -/
def opened (s : FecSender) (w : UInt32 × UInt8) : FecSender :=
  { s with
    m_fec := { s.m_fec with
      toFecTables := s.m_fec.toFecTables.pushTables s.m_fec.m_roundId w.2
      fwin := w.1
      nGroups := w.2 }
    fc := w.1
    ic := w.2.toUInt32 }

theorem toUInt32_ne_zero {n : UInt8} (hn : n ≠ 0) : n.toUInt32 ≠ 0 := by
  intro h0
  rw [← UInt32.toNat_inj, UInt8.toNat_toUInt32] at h0
  exact hn (UInt8.toNat_inj.mp h0)

theorem roundOpen_opened (s : FecSender) (hw₂ : w.2 ≠ 0) : (s.opened w).RoundOpen where
  rt := List.append_ne_nil_of_right_ne_nil _ (List.cons_ne_nil _ _)
  gt := List.append_ne_nil_of_right_ne_nil _ (List.cons_ne_nil _ _)
  ic := toUInt32_ne_zero hw₂

theorem redundancyControl_eq (hw : s.m_fec.roundWindow cwnd = .ok w) : s.redundancyControl cwnd = .ok (s.opened w) := by
  rw [redundancyControl, FecAgent.redundancyControl, hw]
  rfl

/-- One turn sends a FEC packet, and the last of a round opens the next one. -/
theorem fecTurn_open (header : TcpHeader) (hs : s.RoundOpen) (hfc : s.fc = 0) (hw : s.m_fec.roundWindow cwnd = .ok w) (hw₂ : w.2 ≠ 0)
    (sent : List Packet) :
    ∃ s' p, fecTurn header cwnd (s, sent) = .again (s', sent ++ [p]) ∧ s'.RoundOpen ∧ SameSizing s'.m_fec s.m_fec ∧
      (s.ic ≠ 1 → s'.fc = 0 ∧ s'.ic = s.ic - 1) ∧ (s.ic = 1 → s'.fc = w.1 ∧ s'.ic = w.2.toUInt32) := by
  obtain ⟨fec, p, hcreate, hrt, hgt, hsame⟩ := createFecPacket_ok hs.rt hs.gt
  obtain ⟨p, hsend⟩ : ∃ p, s.sendFecPacket header = .ok ({ s with m_fec := fec }, p) := by
    refine ⟨p.addHeader (.tcp { header with m_sequenceNumber := 0 }), ?_⟩
    rw [sendFecPacket, hcreate]
    rfl
  have hturn : ∀ s' p', s.fecBody header cwnd = .ok (s', p') →
      fecTurn header cwnd (s, sent) = .again (s', sent ++ [p']) := by
    intro s' p' hbody
    rw [fecTurn, if_pos hfc, hbody]
  by_cases hic : s.ic = 1
  · have hzero : s.ic - 1 = 0 := by
      rw [hic]
      rfl
    have hcontrol : FecSender.redundancyControl { s with m_fec := fec, ic := s.ic - 1 } cwnd =
        .ok (opened { s with m_fec := fec, ic := s.ic - 1 } w) :=
      redundancyControl_eq ((hsame.roundWindow cwnd).trans hw)
    refine ⟨opened { s with m_fec := fec, ic := s.ic - 1 } w, p, hturn _ _ ?_, roundOpen_opened _ hw₂,
      ⟨hsame.fecMode, hsame.boundMode, hsame.fwin, hsame.fmax, hsame.nGroups, hsame.segmentSize⟩, fun h => absurd hic h, fun _ => ⟨rfl, rfl⟩⟩
    rw [fecBody, hsend]
    dsimp only [bind, Except.bind]
    rw [if_pos hzero, hcontrol]
    rfl
  · have hne : s.ic - 1 ≠ 0 := fun h0 => hic (by grind)
    refine ⟨{ s with m_fec := fec, ic := s.ic - 1 }, p, hturn _ _ ?_, ⟨hrt, hgt, hne⟩, hsame, fun _ => ⟨hfc, rfl⟩,
      fun h => absurd h hic⟩
    rw [fecBody, hsend]
    dsimp only [bind, Except.bind]
    rw [if_neg hne]
    rfl

/-- The loop sends a FEC packet for each group that has none, and leaves when the next round has data packets. -/
theorem turns_fecTurn (header : TcpHeader) (hw₁ : w.1 ≠ 0) (hw₂ : w.2 ≠ 0) (k : Nat) (s : FecSender) (sent : List Packet) (hs : s.RoundOpen)
    (hfc : s.fc = 0) (hic : s.ic.toNat = k + 1) (hw : s.m_fec.roundWindow cwnd = .ok w) :
    ∃ s' sent', turns (fecTurn header cwnd) (k + 2) (s, sent) = some (.ok (s', sent ++ sent')) ∧
      sent'.length = k + 1 ∧ s'.fc = w.1 ∧ s'.ic = w.2.toUInt32 := by
  induction k generalizing s sent with
  | zero =>
    obtain ⟨s', p, hturn, -, -, -, hlast⟩ := fecTurn_open header hs hfc hw hw₂ sent
    obtain ⟨hfc', hic'⟩ := hlast (UInt32.toNat_inj.mp hic)
    refine ⟨s', [p], ?_, rfl, hfc', hic'⟩
    rw [turns, hturn]
    have hleave : fecTurn header cwnd (s', sent ++ [p]) = .leave (.ok (s', sent ++ [p])) :=
      if_neg (by rw [hfc']; exact hw₁)
    show turns _ 1 _ = _
    rw [turns, hleave]
  | succ k ih =>
    obtain ⟨s₁, p, hturn, hs₁, hsame, hnext, -⟩ := fecTurn_open header hs hfc hw hw₂ sent
    have hne : s.ic ≠ 1 := fun h => by
      rw [h] at hic
      exact absurd hic (by
        show 1 ≠ k + 1 + 1
        omega)
    obtain ⟨hfc₁, hic₁⟩ := hnext hne
    have hle : (1 : UInt32) ≤ s.ic := UInt32.le_iff_toNat_le.mpr (by
      rw [hic]
      show 1 ≤ k + 1 + 1
      omega)
    have hic₁' : s₁.ic.toNat = k + 1 := by
      rw [hic₁, UInt32.toNat_sub_of_le _ _ hle, hic]
      rfl
    obtain ⟨s', sent', hturns, hlength, hfc', hic'⟩ :=
      ih s₁ (sent ++ [p]) hs₁ hfc₁ hic₁' ((hsame.roundWindow cwnd).trans hw)
    refine ⟨s', p :: sent', ?_, congrArg Nat.succ hlength, hfc', hic'⟩
    rw [turns, hturn]
    show turns _ (k + 2) _ = _
    rw [hturns, List.append_assoc, List.singleton_append]

/-- The loop never leaves when the next round has no data packets. -/
theorem fecTurn_diverges (hw₁ : w.1 = 0) (hw₂ : w.2 ≠ 0) (hs : s.RoundOpen) (hfc : s.fc = 0)
    (hw : s.m_fec.roundWindow cwnd = .ok w) (sent : List Packet) : Diverges (fecTurn header cwnd) (s, sent) := by
  apply diverges_of_invariant (I := fun x : FecSender × List Packet =>
    x.1.RoundOpen ∧ x.1.fc = 0 ∧ x.1.m_fec.roundWindow cwnd = .ok w)
  · rintro ⟨s, sent⟩ ⟨hs, hfc, hw⟩
    obtain ⟨s', p, hturn, hs', hsame, hnext, hlast⟩ := fecTurn_open header hs hfc hw hw₂ sent
    refine ⟨_, hturn, hs', ?_, (hsame.roundWindow cwnd).trans hw⟩
    by_cases hic : s.ic = 1
    · exact (hlast hic).1.trans hw₁
    · exact (hnext hic).1
  · exact ⟨hs, hfc, hw⟩

/-- Before the loop, a round is open. -/
theorem roundOpen_sendData {p p' : Packet} {highTxMark : UInt32} {s' : FecSender} (hs : s.m_init = true ∨ s.RoundOpen)
    (hfec : Configured s.m_fec) (hdata : s.sendData p header highTxMark cwnd = .ok (s', p')) : s'.RoundOpen := by
  obtain ⟨w, hw⟩ : ∃ w, s.m_fec.roundWindow cwnd = .ok w := ⟨_, FecAgent.roundWindow_eq hfec.segmentSize hfec.nGroups⟩
  have hw₂ := FecAgent.roundWindow_groups_ne_zero hfec.segmentSize hfec.nGroups hw
  have hcreate : ∀ {s₁ : FecSender}, s₁.RoundOpen → ∀ {fec p'}, s₁.m_fec.createDataPacket p header highTxMark = .ok (fec, p') →
      fec.rt_ ≠ [] ∧ fec.gt_ ≠ [] := by
    intro s₁ hs₁ fec p' hcreate
    unfold FecAgent.createDataPacket at hcreate
    split at hcreate
    · obtain ⟨rfl, -⟩ := Prod.mk.inj (Except.ok.inj hcreate)
      exact ⟨hs₁.rt, hs₁.gt⟩
    · obtain ⟨tables, hpush, hrt, hgt⟩ := pushEntry_ok hs₁.rt hs₁.gt (s₁.m_fec.dataEntry header highTxMark)
      dsimp only at hcreate
      rw [hpush] at hcreate
      obtain ⟨rfl, -⟩ := Prod.mk.inj (Except.ok.inj hcreate)
      exact ⟨hrt, hgt⟩
  have hrest : ∀ {s₁ : FecSender}, s₁.RoundOpen → (do
      let (fec, p) ← s₁.m_fec.createDataPacket p header highTxMark
      return (({ s₁ with m_fec := fec, fc := if s₁.m_fec.m_fwin ≠ 0 then s₁.fc - 1 else s₁.fc } : FecSender), p)) =
        Except.ok (s', p') → s'.RoundOpen := by
    intro s₁ hs₁ hok
    cases hmade : s₁.m_fec.createDataPacket p header highTxMark with
    | error f =>
      rw [hmade] at hok
      cases hok
    | ok r =>
      rw [hmade] at hok
      obtain ⟨rfl, -⟩ := Prod.mk.inj (Except.ok.inj hok)
      exact ⟨(hcreate hs₁ hmade).1, (hcreate hs₁ hmade).2, hs₁.ic⟩
  rw [sendData] at hdata
  by_cases hinit : s.m_init = true
  · rw [if_pos ⟨hinit, hfec.fwin⟩, redundancyControl_eq hw] at hdata
    have hopen := roundOpen_opened s hw₂
    have hopen' : RoundOpen { s.opened w with m_init := false } := ⟨hopen.rt, hopen.gt, hopen.ic⟩
    exact hrest hopen' hdata
  · rw [if_neg fun h => hinit h.1] at hdata
    exact hrest (hs.resolve_left hinit) hdata

/-- The loop leaves after one turn for each group without FEC packet, with counters that are not 0, exactly when the
next round has data packets. -/
theorem sending_loop (s : FecSender) (header : TcpHeader) (cwnd : UInt32) (hs : s.RoundOpen) (hfec : Configured s.m_fec)
    (hfc : s.fc = 0) :
    (∃ s' sent, Leaves (fecTurn header cwnd) (s, []) (.ok (s', sent)) ∧ sent.length = s.ic.toNat ∧ s'.fc ≠ 0 ∧
      s'.ic ≠ 0) ↔ s.m_fec.Opens (cwnd / s.m_fec.m_segmentSize) := by
  obtain ⟨w, hw⟩ : ∃ w, s.m_fec.roundWindow cwnd = .ok w := ⟨_, FecAgent.roundWindow_eq hfec.segmentSize hfec.nGroups⟩
  have hw₂ := FecAgent.roundWindow_groups_ne_zero hfec.segmentSize hfec.nGroups hw
  have hopens := FecAgent.roundWindow_ne_zero_iff hfec.segmentSize hfec.nGroups hw
  constructor
  · rintro ⟨s', sent, hleaves, -⟩
    refine hopens.mp fun hw₁ => ?_
    exact (diverges_iff _ _).mp (fecTurn_diverges hw₁ hw₂ hs hfc hw []) ⟨_, hleaves⟩
  · intro hopen
    obtain ⟨k, hk⟩ : ∃ k, s.ic.toNat = k + 1 :=
      Nat.exists_eq_succ_of_ne_zero fun h0 => hs.ic (UInt32.toNat_inj.mp h0)
    obtain ⟨s', sent, hturns, hlength, hfc', hic'⟩ :=
      turns_fecTurn header (hopens.mpr hopen) hw₂ k s [] hs hfc hk hw
    refine ⟨s', sent, ⟨k + 2, hturns⟩, hlength.trans hk.symm, ?_, ?_⟩
    · rw [hfc']
      exact hopens.mpr hopen
    · rw [hic']
      exact toUInt32_ne_zero hw₂

/-- A round of one group is at its end. -/
def roundEnd : FecSender where
  m_fec := { m_fwin := 1, nGroups := 1, rt_ := [⟨1, 1, []⟩], gt_ := [⟨1, 1, fun _ => []⟩] }
  m_init := false
  ic := 1

theorem roundOpen_roundEnd : roundEnd.RoundOpen := ⟨nofun, nofun, by decide⟩

theorem configured_roundEnd : Configured roundEnd.m_fec := ⟨by decide, by decide, by decide⟩

/-- A window of two segments. -/
theorem sending_loop_two :
    (∃ s' sent, Leaves (fecTurn {} 2000) (roundEnd, []) (.ok (s', sent)) ∧ sent.length = roundEnd.ic.toNat ∧ s'.fc ≠ 0 ∧
      s'.ic ≠ 0) ↔ roundEnd.m_fec.Opens (2000 / roundEnd.m_fec.m_segmentSize) :=
  sending_loop roundEnd {} 2000 roundOpen_roundEnd configured_roundEnd rfl

/-- The window is below the segment size: the loop sends FEC packets for ever. -/
theorem not_sending_loop_small :
    roundEnd.RoundOpen ∧ Configured roundEnd.m_fec ∧ roundEnd.fc = 0 ∧
      ¬ ∃ s' sent, Leaves (fecTurn {} 999) (roundEnd, []) (.ok (s', sent)) ∧ sent.length = roundEnd.ic.toNat ∧
        s'.fc ≠ 0 ∧ s'.ic ≠ 0 := by
  refine ⟨roundOpen_roundEnd, configured_roundEnd, rfl, ?_⟩
  rintro ⟨s', sent, hleaves, -⟩
  have hdiverges : Diverges (fecTurn {} 999) (roundEnd, []) :=
    fecTurn_diverges (w := (0, 1)) rfl (by decide) roundOpen_roundEnd rfl rfl []
  exact (diverges_iff _ _).mp hdiverges ⟨_, hleaves⟩

end FecSender

end Ns3.Tcp
