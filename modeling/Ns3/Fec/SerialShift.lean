import Ns3.Fec.Agent
import Ns3.Fec.Scan

/-!
# The tables with all serials moved

What a pass over the tables does when the serials of a round, and the sequence numbers they are taken
from, are moved by `k` modulo 2^32. Serials are searched for by equality and counted by `<`, so the pass
does the same as long as the unmarked entries it counts compare alike with the packet's own serial.
-/

namespace Ns3.Fec

open Ns3.Lib

variable {k : UInt32}

/-! ### Moving -/

/-- Two serials are in the same order once both are moved by `k`. -/
def Alike (k x y : UInt32) : Prop := x < y ↔ x + k < y + k

instance (k x y : UInt32) : Decidable (Alike k x y) := inferInstanceAs (Decidable (_ ↔ _))

theorem Alike.refl (k x : UInt32) : Alike k x x :=
  iff_of_false (UInt32.lt_irrefl x) (UInt32.lt_irrefl (x + k))

theorem add_right_eq_iff {x y : UInt32} : x + k = y + k ↔ x = y := by
  constructor
  · intro h
    grind
  · rintro rfl
    rfl

def TcpHeader.shift (k : UInt32) (h : TcpHeader) : TcpHeader :=
  { h with m_sequenceNumber := h.m_sequenceNumber + k }

/-- The header in an FEC packet's entry is not set. -/
def PacketInfo.shift (k : UInt32) (e : PacketInfo TcpHeader) : PacketInfo TcpHeader :=
  { e with serial_ := e.serial_ + k, hdr_ := if e.type_ then e.hdr_ else e.hdr_.shift k }

def FecTag.shift (k : UInt32) (tag : FecTag) : FecTag := { tag with m_serial := tag.m_serial + k }

/-- The tables of the round `rid` are moved, others are left as they are. -/
def RoundFecTable.shift (rid k : UInt32) (t : RoundFecTable TcpHeader) : RoundFecTable TcpHeader :=
  if t.rid_ = rid then { t with pi_ := t.pi_.map (PacketInfo.shift k) } else t

def GroupFecTable.shift (rid k : UInt32) (T : GroupFecTable TcpHeader) : GroupFecTable TcpHeader :=
  if T.rid_ = rid then { T with gi_ := fun g => (T.gi_ g).map (PacketInfo.shift k) } else T

def FecTables.shift (rid k : UInt32) (s : FecTables TcpHeader) : FecTables TcpHeader :=
  ⟨s.rt_.map (RoundFecTable.shift rid k), s.gt_.map (GroupFecTable.shift rid k)⟩

theorem PacketInfo.shift_zero (e : PacketInfo TcpHeader) : e.shift 0 = e := by
  rw [PacketInfo.shift, TcpHeader.shift, UInt32.add_zero, UInt32.add_zero, ite_self]

theorem FecTag.shift_zero (tag : FecTag) : tag.shift 0 = tag := by
  rw [FecTag.shift, UInt32.add_zero]

def RoundScan.shift (k : UInt32) (r : RoundScan TcpHeader) : RoundScan TcpHeader :=
  ⟨r.sumlost, r.pi.map (PacketInfo.shift k), r.asked.map (PacketInfo.shift k)⟩

def CheckedRound.shift (rid k : UInt32) (c : CheckedRound TcpHeader) : CheckedRound TcpHeader :=
  ⟨c.rt.map (RoundFecTable.shift rid k), c.sumlost, c.asked.map (PacketInfo.shift k)⟩

def CheckedGroup.shift (rid k : UInt32) (c : CheckedGroup TcpHeader) : CheckedGroup TcpHeader :=
  ⟨c.gt.map (GroupFecTable.shift rid k), c.mlost, c.recovered.map (PacketInfo.shift k)⟩

def GroupOutcome.shift (k : UInt32) (g : GroupOutcome TcpHeader) : GroupOutcome TcpHeader :=
  { g with recovered := g.recovered.map (PacketInfo.shift k) }

def Decoded.shift (rid k : UInt32) (d : Decoded TcpHeader) : Decoded TcpHeader :=
  ⟨d.tables.shift rid k, d.sumlost, d.asked.map (PacketInfo.shift k), d.group.map (GroupOutcome.shift k)⟩

theorem RoundFecTable.rid_shift (rid : UInt32) (t : RoundFecTable TcpHeader) :
    (t.shift rid k).rid_ = t.rid_ := by
  rw [RoundFecTable.shift]
  split <;> rfl

theorem RoundFecTable.nGroups_shift (rid : UInt32) (t : RoundFecTable TcpHeader) :
    (t.shift rid k).nGroups_ = t.nGroups_ := by
  rw [RoundFecTable.shift]
  split <;> rfl

theorem RoundFecTable.shift_of_rid {rid : UInt32} {t : RoundFecTable TcpHeader} (h : t.rid_ = rid) :
    t.shift rid k = { t with pi_ := t.pi_.map (PacketInfo.shift k) } := if_pos h

theorem GroupFecTable.rid_shift (rid : UInt32) (T : GroupFecTable TcpHeader) :
    (T.shift rid k).rid_ = T.rid_ := by
  rw [GroupFecTable.shift]
  split <;> rfl

theorem GroupFecTable.shift_of_rid {rid : UInt32} {T : GroupFecTable TcpHeader} (h : T.rid_ = rid) :
    T.shift rid k = { T with gi_ := fun g => (T.gi_ g).map (PacketInfo.shift k) } := if_pos h

/-! ### The loops over entries -/

/-- The entries before the packet's own. -/
def before (serial : UInt32) (es : List (PacketInfo TcpHeader)) : List (PacketInfo TcpHeader) :=
  es.takeWhile fun e => e.serial_ ≠ serial

/-- The entries that the scan of the round counts among: a data packet's scan stops at its own. -/
def scanned (tag : FecTag) (es : List (PacketInfo TcpHeader)) : List (PacketInfo TcpHeader) :=
  if tag.m_type = 1 then before tag.m_serial es else es

theorem before_cons {serial : UInt32} {e : PacketInfo TcpHeader} (h : e.serial_ ≠ serial)
    (es : List (PacketInfo TcpHeader)) : before serial (e :: es) = e :: before serial es :=
  List.takeWhile_cons_of_pos (decide_eq_true h)

theorem markRoundEntry_shift (serial : UInt32) (gid : UInt8) (es : List (PacketInfo TcpHeader)) :
    markRoundEntry (serial + k) gid (es.map (PacketInfo.shift k)) =
      (markRoundEntry serial gid es).map (List.map (PacketInfo.shift k)) := by
  induction es with
  | nil => rfl
  | cons e es ih =>
    rw [List.map_cons, markRoundEntry, markRoundEntry]
    by_cases h : e.serial_ = serial ∧ e.gid_ = gid
    · rw [if_pos h, if_pos ⟨add_right_eq_iff.mpr h.1, h.2⟩]
      rfl
    · rw [if_neg h, if_neg fun h' => h ⟨add_right_eq_iff.mp h'.1, h'.2⟩, ih]
      cases markRoundEntry serial gid es <;> rfl

/-- Marking leaves the unmarked entries that a scan counts as they were. -/
theorem mem_scanned_of_marked {tag : FecTag} {es pi : List (PacketInfo TcpHeader)}
    (h : markRoundEntry tag.m_serial tag.m_groupId es = some pi) :
    ∀ e ∈ scanned tag pi, e.check_ = false → e ∈ scanned tag es := by
  induction es generalizing pi with
  | nil => cases h
  | cons a es ih =>
    rw [markRoundEntry] at h
    split at h
    · next ha =>
      cases h
      intro e he hcheck
      rw [scanned] at he ⊢
      split at he
      · next htype =>
        rw [before, List.takeWhile_cons_of_neg (by simp [ha.1])] at he
        cases he
      · next htype =>
        rw [if_neg htype]
        rcases List.mem_cons.mp he with rfl | he
        · cases hcheck
        · exact List.mem_cons_of_mem _ he
    · next ha =>
      obtain ⟨pi', hpi, rfl⟩ := Option.map_eq_some_iff.mp h
      have ih := ih hpi
      intro e he hcheck
      rw [scanned] at he ih ⊢
      rw [scanned] at ih
      split at he
      · next htype =>
        rw [if_pos htype, if_pos htype] at ih
        rw [if_pos htype]
        by_cases hserial : a.serial_ = tag.m_serial
        · rw [before, List.takeWhile_cons_of_neg (by simp [hserial])] at he
          cases he
        · rw [before_cons hserial] at he ⊢
          rcases List.mem_cons.mp he with rfl | he
          · exact List.mem_cons_self
          · exact List.mem_cons_of_mem _ (ih e he hcheck)
      · next htype =>
        rw [if_neg htype, if_neg htype] at ih
        rw [if_neg htype]
        rcases List.mem_cons.mp he with rfl | he
        · exact List.mem_cons_self
        · exact List.mem_cons_of_mem _ (ih e he hcheck)

/-- The test for a loss comes out alike. -/
theorem lost_shift_iff {e : PacketInfo TcpHeader} {serial : UInt32}
    (h : e.check_ = false → Alike k e.serial_ serial) :
    ((e.shift k).check_ = false ∧ (e.shift k).serial_ < serial + k) ↔
      (e.check_ = false ∧ e.serial_ < serial) :=
  and_congr_right fun hcheck => (h hcheck).symm

theorem scanRound_shift {tag : FecTag} {es : List (PacketInfo TcpHeader)}
    (h : ∀ e ∈ scanned tag es, e.check_ = false → Alike k e.serial_ tag.m_serial) (n : UInt32) :
    scanRound (tag.shift k) (tag.m_serial + k) false (es.map (PacketInfo.shift k)) n =
      (scanRound tag tag.m_serial false es n).shift k := by
  induction es generalizing n with
  | nil => rfl
  | cons e es ih =>
    have hstop : ((tag.shift k).m_type = 1 ∧ (tag.shift k).m_serial = (e.shift k).serial_) ↔
        (tag.m_type = 1 ∧ tag.m_serial = e.serial_) := and_congr_right fun _ => add_right_eq_iff
    have hlost : ((e.shift k).check_ = false ∧ (e.shift k).serial_ < tag.m_serial + k) ↔
        (e.check_ = false ∧ e.serial_ < tag.m_serial) := by
      by_cases hserial : tag.m_type = 1 ∧ tag.m_serial = e.serial_
      · exact lost_shift_iff fun _ => hserial.2 ▸ Alike.refl k _
      · refine lost_shift_iff (h e ?_)
        rw [scanned]
        split
        · next htype =>
          rw [before_cons fun heq => hserial ⟨htype, heq.symm⟩]
          exact List.mem_cons_self
        · exact List.mem_cons_self
    rw [List.map_cons, scanRound, scanRound]
    simp only [Bool.false_eq_true, and_false, if_false, List.nil_append]
    rw [if_congr hlost rfl rfl, if_congr hstop rfl rfl]
    split
    · rfl
    · next hne =>
      rw [ih ?_]
      · rfl
      · intro e' he' hcheck
        refine h e' ?_ hcheck
        rw [scanned] at he' ⊢
        split at he'
        · next htype =>
          rw [if_pos htype, before_cons fun heq => hne ⟨htype, heq.symm⟩]
          exact List.mem_cons_of_mem _ he'
        · next htype =>
          rw [if_neg htype]
          exact List.mem_cons_of_mem _ he'

theorem markGroupEntry_shift {serial : UInt32} {es : List (PacketInfo TcpHeader)}
    (h : ∀ e ∈ before serial es, e.check_ = false → Alike k e.serial_ serial) (n : UInt32) :
    markGroupEntry (serial + k) (es.map (PacketInfo.shift k)) n =
      (markGroupEntry serial es n).map fun r => (r.1.map (PacketInfo.shift k), r.2) := by
  induction es generalizing n with
  | nil => rfl
  | cons e es ih =>
    rw [List.map_cons, markGroupEntry, markGroupEntry]
    by_cases hserial : e.serial_ = serial
    · rw [if_pos hserial, if_pos (show (e.shift k).serial_ = _ from add_right_eq_iff.mpr hserial)]
      rfl
    · rw [before_cons hserial] at h
      have hlost := lost_shift_iff (h e List.mem_cons_self)
      rw [if_neg hserial, if_neg (show ¬(e.shift k).serial_ = _ from fun heq => hserial (add_right_eq_iff.mp heq))]
      dsimp only
      rw [if_congr (and_comm.trans (hlost.trans and_comm)) rfl rfl,
        ih fun e' he' => h e' (List.mem_cons_of_mem _ he')]
      cases markGroupEntry serial es _ <;> rfl

/-- Marking leaves the entries before the packet's own as they were. -/
theorem before_marked {serial n : UInt32} {es : List (PacketInfo TcpHeader)}
    {r : List (PacketInfo TcpHeader) × UInt32} (h : markGroupEntry serial es n = some r) :
    before serial r.1 = before serial es := by
  induction es generalizing n r with
  | nil => cases h
  | cons e es ih =>
    rw [markGroupEntry] at h
    split at h
    · next hserial =>
      cases h
      rw [before, before, List.takeWhile_cons_of_neg (by simp [hserial]),
        List.takeWhile_cons_of_neg (by simp [hserial])]
    · next hserial =>
      obtain ⟨r', hr', rfl⟩ := Option.map_eq_some_iff.mp h
      rw [before_cons hserial, before_cons hserial, ih hr']

theorem checkGroupEntry_shift {serial : UInt32} {es : List (PacketInfo TcpHeader)}
    (h : ∀ e ∈ before serial es, e.check_ = false → Alike k e.serial_ serial) (nlost m : UInt32)
    (rec : Option (PacketInfo TcpHeader)) :
    checkGroupEntry (serial + k) nlost (es.map (PacketInfo.shift k)) m (rec.map (PacketInfo.shift k)) =
      (checkGroupEntry serial nlost es m rec).map fun r => (r.1, r.2.map (PacketInfo.shift k)) := by
  induction es generalizing m rec with
  | nil => rfl
  | cons e es ih =>
    rw [List.map_cons, checkGroupEntry, checkGroupEntry]
    by_cases hserial : e.serial_ = serial
    · rw [if_pos hserial, if_pos (show (e.shift k).serial_ = _ from add_right_eq_iff.mpr hserial)]
      split <;> rfl
    · rw [before_cons hserial] at h
      have hlost := lost_shift_iff (h e List.mem_cons_self)
      have ih := fun m rec => ih (fun e' he' => h e' (List.mem_cons_of_mem _ he')) m rec
      rw [if_neg hserial, if_neg (show ¬(e.shift k).serial_ = _ from fun heq => hserial (add_right_eq_iff.mp heq)),
        if_congr (and_comm.trans (hlost.trans and_comm)) rfl rfl]
      split
      · rw [← ih]
        congr 1
        split <;> rfl
      · exact ih m rec

/-- The entry that is recovered is one of those counted, and the only one. -/
theorem recovered_of_checkGroupEntry {serial nlost m m' : UInt32} {es : List (PacketInfo TcpHeader)}
    {rec : Option (PacketInfo TcpHeader)} {e : PacketInfo TcpHeader}
    (h : checkGroupEntry serial nlost es m rec = some (m', some e)) :
    m + UInt32.ofNat ((before serial es).countP (lost serial)) = 1 ∧
      (rec = some e ∨ e ∈ before serial es ∧ lost serial e) := by
  induction es generalizing m rec with
  | nil => cases h
  | cons a es ih =>
    rw [checkGroupEntry] at h
    split at h
    · next hserial =>
      rw [before, List.takeWhile_cons_of_neg (by simp [hserial]), List.countP_nil]
      have h := Prod.mk.inj (Option.some.inj h)
      split at h
      · next hone => exact ⟨by rw [hone.2]; rfl, .inl h.2⟩
      · cases h.2
    · next hserial =>
      rw [before_cons hserial, List.countP_cons]
      split at h
      · next hcond =>
        have ha : lost serial a = true := by simp [lost, hcond.1, hcond.2]
        obtain ⟨hcount, hrec⟩ := ih h
        rw [if_pos ha]
        refine ⟨?_, ?_⟩
        · rw [← hcount, UInt32.ofNat_add]
          grind
        · rcases hrec with hrec | ⟨he, hl⟩
          · split at hrec
            · cases hrec
              exact .inr ⟨List.mem_cons_self, ha⟩
            · exact .inl hrec
          · exact .inr ⟨List.mem_cons_of_mem _ he, hl⟩
      · next hcond =>
        have ha : ¬lost serial a = true := by
          intro hl
          rw [lost, Bool.and_eq_true, Bool.not_eq_true', decide_eq_true_eq] at hl
          exact hcond ⟨hl.2, hl.1⟩
        obtain ⟨hcount, hrec⟩ := ih h
        rw [if_neg ha]
        exact ⟨hcount, hrec.imp_right (And.imp_left (List.mem_cons_of_mem _))⟩

/-! ### The calls -/

/-- The unmarked entries of the packet's round that are counted compare alike. -/
def RoundAlike (k : UInt32) (tag : FecTag) (rt : List (RoundFecTable TcpHeader)) : Prop :=
  ∀ t ∈ rt, t.rid_ = tag.m_roundId → ∀ e ∈ scanned tag t.pi_, e.check_ = false →
    Alike k e.serial_ tag.m_serial

/-- So do those of its group. -/
def GroupAlike (k : UInt32) (tag : FecTag) (gt : List (GroupFecTable TcpHeader)) : Prop :=
  ∀ T ∈ gt, T.rid_ = tag.m_roundId → ∀ e ∈ before tag.m_serial (T.gi_ tag.m_groupId), e.check_ = false →
    Alike k e.serial_ tag.m_serial

instance (k : UInt32) (tag : FecTag) (rt : List (RoundFecTable TcpHeader)) : Decidable (RoundAlike k tag rt) :=
  inferInstanceAs (Decidable (∀ t ∈ rt, t.rid_ = tag.m_roundId → ∀ e ∈ scanned tag t.pi_, e.check_ = false → _))

instance (k : UInt32) (tag : FecTag) (gt : List (GroupFecTable TcpHeader)) : Decidable (GroupAlike k tag gt) :=
  inferInstanceAs (Decidable (∀ T ∈ gt, T.rid_ = tag.m_roundId →
    ∀ e ∈ before tag.m_serial (T.gi_ tag.m_groupId), e.check_ = false → _))

theorem popOlder_map {T : Type} {f : T → T} {ridOf : T → UInt32} (hf : ∀ t, ridOf (f t) = ridOf t)
    (rid : UInt32) (q : List T) :
    popOlder ridOf rid (q.map f) = (popOlder ridOf rid q).map (List.map f) := by
  induction q with
  | nil => rfl
  | cons t q ih =>
    rw [List.map_cons, popOlder, popOlder, hf]
    split
    · exact ih
    · rfl

theorem mem_of_popOlder {T : Type} {ridOf : T → UInt32} {rid : UInt32} {q q' : List T}
    (h : popOlder ridOf rid q = .ok q') : ∀ t ∈ q', t ∈ q := by
  obtain ⟨old, t, rest, rfl, -, -, rfl⟩ := (popOlder_ok_iff ..).mp h
  exact fun t ht => List.mem_append_right _ ht

theorem markRound_shift (tag : FecTag) (rt : List (RoundFecTable TcpHeader)) :
    markRound (tag.shift k) (rt.map (RoundFecTable.shift tag.m_roundId k)) =
      (markRound tag rt).map (List.map (RoundFecTable.shift tag.m_roundId k)) := by
  have hturn : ∀ rt : List (RoundFecTable TcpHeader),
      whileTrue (markRoundTurn (tag.shift k)) (rt.map (RoundFecTable.shift tag.m_roundId k)) =
        (whileTrue (markRoundTurn tag) rt).map (List.map (RoundFecTable.shift tag.m_roundId k)) := by
    rintro (_ | ⟨t, q⟩)
    · rfl
    · rw [List.map_cons, whileTrue, whileTrue, firstTurn, firstTurn, markRoundTurn, markRoundTurn,
        RoundFecTable.rid_shift]
      by_cases hrid : t.rid_ = tag.m_roundId
      · rw [if_pos hrid, if_pos (show t.rid_ = (tag.shift k).m_roundId from hrid),
          RoundFecTable.shift_of_rid hrid]
        have hmark := markRoundEntry_shift (k := k) tag.m_serial tag.m_groupId t.pi_
        cases hm : markRoundEntry tag.m_serial tag.m_groupId t.pi_ with
        | none =>
          rw [hm] at hmark
          simp only [FecTag.shift, hmark, Option.map_none]
          rfl
        | some pi =>
          rw [hm] at hmark
          simp only [FecTag.shift, hmark, Option.map_some]
          show Except.ok (_ :: _) = Except.ok (_ :: _)
          rw [RoundFecTable.shift_of_rid (show ({ t with pi_ := pi } : RoundFecTable TcpHeader).rid_ = _ from hrid)]
      · rw [if_neg hrid, if_neg (show ¬t.rid_ = (tag.shift k).m_roundId from hrid)]
        rfl
  cases rt with
  | nil => rfl
  | cons t q =>
    have hpop : popOlder RoundFecTable.rid_ (tag.shift k).m_roundId
        (t.shift tag.m_roundId k :: q.map (RoundFecTable.shift tag.m_roundId k)) = _ :=
      popOlder_map (fun t => RoundFecTable.rid_shift tag.m_roundId t) tag.m_roundId (t :: q)
    simp only [markRound, List.map_cons, front, bind, Except.bind, RoundFecTable.rid_shift]
    by_cases hlt : tag.m_roundId < t.rid_
    · rw [if_pos hlt, if_pos (show (tag.shift k).m_roundId < t.rid_ from hlt)]
      rfl
    · rw [if_neg hlt, if_neg (show ¬(tag.shift k).m_roundId < t.rid_ from hlt)]
      rw [hpop]
      cases popOlder RoundFecTable.rid_ tag.m_roundId (t :: q) with
      | error f => rfl
      | ok q' => exact hturn q'

theorem RoundAlike.marked {tag : FecTag} {rt rt' : List (RoundFecTable TcpHeader)}
    (h : RoundAlike k tag rt) (hrt : markRound tag rt = .ok rt') : RoundAlike k tag rt' := by
  obtain ⟨t, q, -, -, rfl⟩ | ⟨old, t, q, pi, rfl, -, hrid, hpi, rfl⟩ := (markRound_ok_iff ..).mp hrt
  · exact h
  · intro t' ht' hrid' e he hcheck
    rcases List.mem_cons.mp ht' with rfl | ht'
    · exact h t (by simp) hrid e (mem_scanned_of_marked hpi e he hcheck) hcheck
    · exact h t' (by simp [ht']) hrid' e he hcheck

theorem checkRound_shift {tag : FecTag} {rt : List (RoundFecTable TcpHeader)} (h : RoundAlike k tag rt) :
    checkRound (tag.shift k) (tag.m_serial + k) false (rt.map (RoundFecTable.shift tag.m_roundId k)) =
      (checkRound tag tag.m_serial false rt).map (CheckedRound.shift tag.m_roundId k) := by
  cases rt with
  | nil => rfl
  | cons t q =>
    have hpop : popOlder RoundFecTable.rid_ (tag.shift k).m_roundId
        (t.shift tag.m_roundId k :: q.map (RoundFecTable.shift tag.m_roundId k)) = _ :=
      popOlder_map (fun t => RoundFecTable.rid_shift tag.m_roundId t) tag.m_roundId (t :: q)
    simp only [checkRound, List.map_cons, front, bind, Except.bind, RoundFecTable.rid_shift]
    by_cases hlt : tag.m_roundId < t.rid_
    · rw [if_pos hlt, if_pos (show (tag.shift k).m_roundId < t.rid_ from hlt)]
      rfl
    · rw [if_neg hlt, if_neg (show ¬(tag.shift k).m_roundId < t.rid_ from hlt), hpop]
      cases hq : popOlder RoundFecTable.rid_ tag.m_roundId (t :: q) with
      | error f => rfl
      | ok q' =>
        cases q' with
        | nil => rfl
        | cons t' q' =>
          have hmem := mem_of_popOlder hq t' List.mem_cons_self
          simp only [Except.map, List.map_cons, RoundFecTable.rid_shift, RoundFecTable.nGroups_shift]
          by_cases hrid : t'.rid_ = tag.m_roundId
          · have hscan := scanRound_shift (h t' hmem hrid) 0
            have hshift : ∀ pi, ({ t' with pi_ := pi } : RoundFecTable TcpHeader).shift tag.m_roundId k =
                { t' with pi_ := pi.map (PacketInfo.shift k) } :=
              fun pi => RoundFecTable.shift_of_rid hrid
            rw [if_pos hrid, if_pos (show t'.rid_ = (tag.shift k).m_roundId from hrid),
              RoundFecTable.shift_of_rid hrid, hscan]
            simp only [RoundScan.shift, pure, Except.pure]
            by_cases hlast : tag.m_type = 2 ∧ tag.m_groupId.toNat + 1 = t'.nGroups_.toNat
            · rw [if_pos hlast, if_pos (show (tag.shift k).m_type = 2 ∧
                (tag.shift k).m_groupId.toNat + 1 = t'.nGroups_.toNat from hlast)]
              rfl
            · rw [if_neg hlast, if_neg (show ¬((tag.shift k).m_type = 2 ∧
                (tag.shift k).m_groupId.toNat + 1 = t'.nGroups_.toNat) from hlast)]
              simp only [CheckedRound.shift, List.map_cons, hshift]
          · rw [if_neg hrid, if_neg (show ¬t'.rid_ = (tag.shift k).m_roundId from hrid)]
            have hshift : t'.shift tag.m_roundId k = t' := if_neg hrid
            rw [hshift]
            simp only [pure, Except.pure]
            by_cases hlast : tag.m_type = 2 ∧ tag.m_groupId.toNat + 1 = t'.nGroups_.toNat
            · rw [if_pos hlast, if_pos (show (tag.shift k).m_type = 2 ∧
                (tag.shift k).m_groupId.toNat + 1 = t'.nGroups_.toNat from hlast)]
              rfl
            · rw [if_neg hlast, if_neg (show ¬((tag.shift k).m_type = 2 ∧
                (tag.shift k).m_groupId.toNat + 1 = t'.nGroups_.toNat) from hlast)]
              simp only [CheckedRound.shift, List.map_cons, hshift, List.map_nil]

theorem markGroup_shift {tag : FecTag} {s : FecTables TcpHeader} (h : GroupAlike k tag s.gt_) :
    markGroup (tag.shift k) (s.shift tag.m_roundId k) =
      (markGroup tag s).map fun r => (r.1.map (GroupFecTable.shift tag.m_roundId k), r.2) := by
  have hturn : ∀ gt : List (GroupFecTable TcpHeader), (∀ T ∈ gt, T ∈ s.gt_) →
      whileTrue (markGroupTurn (tag.shift k)) (gt.map (GroupFecTable.shift tag.m_roundId k)) =
        (whileTrue (markGroupTurn tag) gt).map fun r =>
          (r.1.map (GroupFecTable.shift tag.m_roundId k), r.2) := by
    rintro (_ | ⟨T, q⟩) hgt
    · rfl
    · rw [List.map_cons, whileTrue, whileTrue, firstTurn, firstTurn, markGroupTurn, markGroupTurn,
        GroupFecTable.rid_shift]
      by_cases hrid : T.rid_ = tag.m_roundId
      · rw [if_pos hrid, if_pos (show T.rid_ = (tag.shift k).m_roundId from hrid),
          GroupFecTable.shift_of_rid hrid]
        have hmark := markGroupEntry_shift (h T (hgt T List.mem_cons_self) hrid) 0
        cases hm : markGroupEntry tag.m_serial (T.gi_ tag.m_groupId) 0 with
        | none =>
          rw [hm] at hmark
          simp only [FecTag.shift, hmark, Option.map_none]
          rfl
        | some r =>
          rw [hm] at hmark
          simp only [FecTag.shift, hmark, Option.map_some]
          show Except.ok (_ :: _, _) = Except.ok (_ :: _, _)
          rw [GroupFecTable.shift_of_rid (show (T.setGroup tag.m_groupId r.1).rid_ = _ from hrid)]
          congr 3
          rw [GroupFecTable.setGroup, GroupFecTable.setGroup]
          congr 1
          funext g
          dsimp only
          split <;> rfl
      · rw [if_neg hrid, if_neg (show ¬T.rid_ = (tag.shift k).m_roundId from hrid)]
        rfl
  obtain ⟨rt, gt⟩ := s
  cases rt with
  | nil => rfl
  | cons t q =>
    have hpop : popOlder GroupFecTable.rid_ (tag.shift k).m_roundId
        (gt.map (GroupFecTable.shift tag.m_roundId k)) = _ :=
      popOlder_map (fun T => GroupFecTable.rid_shift tag.m_roundId T) tag.m_roundId gt
    simp only [markGroup, FecTables.shift, List.map_cons, front, bind, Except.bind, RoundFecTable.rid_shift]
    by_cases hlt : tag.m_roundId < t.rid_
    · rw [if_pos hlt, if_pos (show (tag.shift k).m_roundId < t.rid_ from hlt)]
      rfl
    · rw [if_neg hlt, if_neg (show ¬(tag.shift k).m_roundId < t.rid_ from hlt), hpop]
      cases hq : popOlder GroupFecTable.rid_ tag.m_roundId gt with
      | error f => rfl
      | ok q' => exact hturn q' (mem_of_popOlder hq)

theorem GroupAlike.marked {tag : FecTag} {s : FecTables TcpHeader} (h : GroupAlike k tag s.gt_)
    {r : List (GroupFecTable TcpHeader) × UInt32} (hr : markGroup tag s = .ok r) :
    GroupAlike k tag r.1 := by
  obtain ⟨rt, gt⟩ := s
  cases rt with
  | nil => cases hr
  | cons t q =>
    obtain ⟨-, rfl⟩ | ⟨-, old, T, rest, pi, rfl, -, hrid, hpi, hr⟩ := (markGroup_ok_iff ..).mp hr
    · exact h
    · rw [hr]
      intro T' hT' hrid' e he hcheck
      rcases List.mem_cons.mp hT' with rfl | hT'
      · rw [GroupFecTable.gi_setGroup, if_pos rfl, before_marked hpi] at he
        exact h T (by simp) hrid e he hcheck
      · exact h T' (by simp [hT']) hrid' e he hcheck

theorem checkGroup_shift {tag : FecTag} {s : FecTables TcpHeader} (h : GroupAlike k tag s.gt_)
    (nlost : UInt32) :
    checkGroup (tag.shift k) nlost (s.shift tag.m_roundId k) =
      (checkGroup tag nlost s).map (CheckedGroup.shift tag.m_roundId k) := by
  have hturn : ∀ gt : List (GroupFecTable TcpHeader), (∀ T ∈ gt, T ∈ s.gt_) →
      whileTrue (checkGroupTurn (tag.shift k) nlost) (gt.map (GroupFecTable.shift tag.m_roundId k)) =
        (whileTrue (checkGroupTurn tag nlost) gt).map (CheckedGroup.shift tag.m_roundId k) := by
    rintro (_ | ⟨T, q⟩) hgt
    · rfl
    · rw [List.map_cons, whileTrue, whileTrue, firstTurn, firstTurn, checkGroupTurn, checkGroupTurn,
        GroupFecTable.rid_shift]
      by_cases hrid : T.rid_ = tag.m_roundId
      · rw [if_pos hrid, if_pos (show T.rid_ = (tag.shift k).m_roundId from hrid),
          GroupFecTable.shift_of_rid hrid]
        have hcheck := checkGroupEntry_shift (h T (hgt T List.mem_cons_self) hrid) nlost 0 none
        rw [Option.map_none] at hcheck
        cases hc : checkGroupEntry tag.m_serial nlost (T.gi_ tag.m_groupId) 0 none with
        | none =>
          rw [hc] at hcheck
          simp only [FecTag.shift, hcheck, Option.map_none]
          rfl
        | some r =>
          rw [hc] at hcheck
          simp only [FecTag.shift, hcheck, Option.map_some]
          show Except.ok (CheckedGroup.mk (_ :: _) _ _) = Except.ok (CheckedGroup.mk (_ :: _) _ _)
          rw [GroupFecTable.shift_of_rid (show (T.setGroup tag.m_groupId []).rid_ = _ from hrid)]
          congr 3
          rw [GroupFecTable.setGroup, GroupFecTable.setGroup]
          congr 1
          funext g
          dsimp only
          split <;> rfl
      · rw [if_neg hrid, if_neg (show ¬T.rid_ = (tag.shift k).m_roundId from hrid)]
        rfl
  obtain ⟨rt, gt⟩ := s
  cases rt with
  | nil => rfl
  | cons t q =>
    have hpop : popOlder GroupFecTable.rid_ (tag.shift k).m_roundId
        (gt.map (GroupFecTable.shift tag.m_roundId k)) = _ :=
      popOlder_map (fun T => GroupFecTable.rid_shift tag.m_roundId T) tag.m_roundId gt
    simp only [checkGroup, FecTables.shift, List.map_cons, front, bind, Except.bind, RoundFecTable.rid_shift]
    by_cases hlt : tag.m_roundId < t.rid_
    · rw [if_pos hlt, if_pos (show (tag.shift k).m_roundId < t.rid_ from hlt)]
      rfl
    · rw [if_neg hlt, if_neg (show ¬(tag.shift k).m_roundId < t.rid_ from hlt), hpop]
      cases hq : popOlder GroupFecTable.rid_ tag.m_roundId gt with
      | error f => rfl
      | ok q' => exact hturn q' (mem_of_popOlder hq)

theorem groupPhase_shift {tag : FecTag} {s : FecTables TcpHeader} (h : GroupAlike k tag s.gt_) :
    groupPhase (tag.shift k) (s.shift tag.m_roundId k) =
      (groupPhase tag s).map fun r =>
        (r.1.map (GroupFecTable.shift tag.m_roundId k), r.2.shift k) := by
  simp only [groupPhase, bind, Except.bind, markGroup_shift h]
  cases hm : markGroup tag s with
  | error f => rfl
  | ok m =>
    have hcheck : checkGroup (tag.shift k) m.2
        ⟨(s.shift tag.m_roundId k).rt_, m.1.map (GroupFecTable.shift tag.m_roundId k)⟩ = _ :=
      checkGroup_shift (s := ⟨s.rt_, m.1⟩) (h.marked hm) m.2
    simp only [Except.map]
    by_cases htype : tag.m_type = 2
    · rw [if_pos htype, if_pos (show (tag.shift k).m_type = 2 from htype), hcheck]
      cases checkGroup tag m.2 ⟨s.rt_, m.1⟩ <;> rfl
    · rw [if_neg htype, if_neg (show ¬(tag.shift k).m_type = 2 from htype)]
      rfl

/-- A pass over the moved tables is the moved pass. -/
theorem decode_shift {tag : FecTag} {s : FecTables TcpHeader} (hround : RoundAlike k tag s.rt_)
    (hgroup : GroupAlike k tag s.gt_) :
    decode (tag.shift k) (tag.m_serial + k) false (s.shift tag.m_roundId k) =
      (decode tag tag.m_serial false s).map (Decoded.shift tag.m_roundId k) := by
  have hmark : markRound (tag.shift k) (s.shift tag.m_roundId k).rt_ = _ := markRound_shift tag s.rt_
  simp only [decode, bind, Except.bind, hmark]
  cases hm : markRound tag s.rt_ with
  | error f => rfl
  | ok rt =>
    simp only [Except.map, checkRound_shift (hround.marked hm)]
    cases hc : checkRound tag tag.m_serial false rt with
    | error f => rfl
    | ok c =>
      have hphase : groupPhase (tag.shift k)
          ⟨(c.shift tag.m_roundId k).rt, (s.shift tag.m_roundId k).gt_⟩ = _ :=
        groupPhase_shift (s := ⟨c.rt, s.gt_⟩) hgroup
      simp only []
      by_cases hsum : c.sumlost > tag.m_nGroups.toUInt32
      · rw [if_pos hsum, if_pos (show (c.shift tag.m_roundId k).sumlost > (tag.shift k).m_nGroups.toUInt32
          from hsum)]
        rfl
      · rw [if_neg hsum, if_neg (show ¬(c.shift tag.m_roundId k).sumlost > (tag.shift k).m_nGroups.toUInt32
          from hsum), hphase]
        cases groupPhase tag ⟨c.rt, s.gt_⟩ <;> rfl

end Ns3.Fec
