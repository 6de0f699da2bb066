import Ns3.Fec.Table

/-!
# One packet through the tables

The calls `Recv` makes on the tables, in both classes: mark the packet in its round
table, count the round's losses, return early when they exceed the group count, mark it
in its group table and, for an FEC packet, check the group. `DecodeStep` lists what such
a pass can do; `decode_ok_iff` says that it does nothing else, and does it whenever the
searches find the packet.
-/

namespace Ns3.Fec
open Ns3.Lib

variable {H T : Type}

/-- What the group phase reports: the results of `MarkGroupFecTable` and
`CheckGroupFecTable`, and the entry handed to `CreateRecoveryPacket`. -/
structure GroupOutcome (H : Type) where
  nlost : UInt32
  flag : UInt32
  recovered : Option (PacketInfo H)

/-- The group phase of `Recv`: `MarkGroupFecTable`, then `CheckGroupFecTable` for an FEC
packet (`fec-agent.cc:366–367`, `fec-router-agent.cc:274–275`). -/
def groupPhase (tag : FecTag) (s : FecTables H) :
    Except Fault (List (GroupFecTable H) × GroupOutcome H) := do
  let m ← markGroup tag s
  if tag.m_type = 2 then
    let g ← checkGroup tag m.2 ⟨s.rt_, m.1⟩
    return (g.gt, ⟨m.2, g.mlost, g.recovered⟩)
  else return (m.1, ⟨m.2, 0, none⟩)

/-- What a pass over the tables leaves; `group` is `none` after the early return. -/
structure Decoded (H : Type) where
  tables : FecTables H
  sumlost : UInt32
  asked : List (PacketInfo H)
  group : Option (GroupOutcome H)

/-- The table calls of `Recv`, with the early return between the two phases
(`fec-agent.cc:362–367`, `fec-router-agent.cc:270–275`). -/
def decode (tag : FecTag) (bound : UInt32) (request : Bool) (s : FecTables H) :
    Except Fault (Decoded H) := do
  let rt ← markRound tag s.rt_
  let c ← checkRound tag bound request rt
  if c.sumlost > tag.m_nGroups.toUInt32 then
    return ⟨⟨c.rt, s.gt_⟩, c.sumlost, c.asked, none⟩
  else
    let g ← groupPhase tag ⟨c.rt, s.gt_⟩
    return ⟨⟨c.rt, g.1⟩, c.sumlost, c.asked, some g.2⟩

/-! ### Each call -/

/-- Popping stops at the first table that is not older. -/
theorem popOlder_ok_iff (ridOf : T → UInt32) (rid : UInt32) (q q' : List T) :
    popOlder ridOf rid q = .ok q' ↔
      ∃ old t rest, q = old ++ t :: rest ∧ (∀ o ∈ old, ridOf o < rid) ∧
        ¬ ridOf t < rid ∧ q' = t :: rest := by
  induction q with
  | nil => simp [popOlder]
  | cons a q ih =>
    rw [popOlder]
    split
    · next ha =>
      rw [ih]
      constructor
      · rintro ⟨old, t, rest, rfl, ho, ht, rfl⟩
        exact ⟨a :: old, t, rest, rfl, by simpa [ha] using ho, ht, rfl⟩
      · rintro ⟨old, t, rest, hq, ho, ht, rfl⟩
        cases old with
        | nil =>
          obtain ⟨rfl, rfl⟩ := List.cons.inj hq
          exact absurd ha ht
        | cons b old =>
          obtain ⟨rfl, rfl⟩ := List.cons.inj hq
          exact ⟨old, t, rest, rfl, fun o ho' => ho o (by simp [ho']), ht, rfl⟩
    · next ha =>
      rw [Except.ok.injEq]
      constructor
      · rintro rfl
        exact ⟨[], a, q, rfl, by simp, ha, rfl⟩
      · rintro ⟨old, t, rest, hq, ho, ht, rfl⟩
        cases old with
        | nil => exact hq
        | cons b old =>
          obtain ⟨rfl, rfl⟩ := List.cons.inj hq
          exact absurd (ho _ (by simp)) ha

/-- Popping finds the table of the round when older tables precede it. -/
theorem popOlder_append {ridOf : T → UInt32} {rid : UInt32} {old : List T} {t : T}
    (ho : ∀ o ∈ old, ridOf o < rid) (ht : ridOf t = rid) (rest : List T) :
    popOlder ridOf rid (old ++ t :: rest) = .ok (t :: rest) :=
  (popOlder_ok_iff ridOf rid _ _).mpr ⟨old, t, rest, rfl, ho, by grind, rfl⟩

/-- Nothing is popped when the round is in front. -/
theorem popOlder_front {ridOf : T → UInt32} {rid : UInt32} {t : T} (ht : ridOf t = rid)
    (rest : List T) : popOlder ridOf rid (t :: rest) = .ok (t :: rest) := by
  have ho : ∀ o ∈ ([] : List T), ridOf o < rid := by simp
  simpa using popOlder_append ho ht rest

private theorem front_append_ge {ridOf : T → UInt32} {rid : UInt32} {old : List T} {t : T}
    (ho : ∀ o ∈ old, ridOf o < rid) (ht : ridOf t = rid) (rest : List T) :
    ∃ a q, old ++ t :: rest = a :: q ∧ ¬ rid < ridOf a := by
  cases old with
  | nil => exact ⟨t, rest, rfl, by grind⟩
  | cons a old =>
    refine ⟨a, old ++ t :: rest, rfl, ?_⟩
    have := ho a (by simp)
    grind

/-- `MarkRoundFecTable` returns at once for an old packet, and otherwise when the round's
table lists the packet. -/
theorem markRound_ok_iff (tag : FecTag) (rt rt' : List (RoundFecTable H)) :
    markRound tag rt = .ok rt' ↔
      (∃ t q, rt = t :: q ∧ tag.m_roundId < t.rid_ ∧ rt' = rt) ∨
      (∃ old t q pi, rt = old ++ t :: q ∧ (∀ o ∈ old, o.rid_ < tag.m_roundId) ∧
        t.rid_ = tag.m_roundId ∧
        markRoundEntry tag.m_serial tag.m_groupId t.pi_ = some pi ∧
        rt' = { t with pi_ := pi } :: q) := by
  constructor
  · intro h
    cases rt with
    | nil => cases h
    | cons a rt =>
      simp only [markRound, front] at h
      by_cases hlt : tag.m_roundId < a.rid_
      · left
        refine ⟨a, rt, rfl, hlt, ?_⟩
        simpa [bind, Except.bind, hlt, pure, Except.pure, eq_comm] using h
      · right
        simp only [bind, Except.bind, hlt, if_false] at h
        cases hp : popOlder RoundFecTable.rid_ tag.m_roundId (a :: rt) with
        | error f => simp [hp] at h
        | ok q' =>
          obtain ⟨old, t, rest, hq, ho, ht, rfl⟩ := (popOlder_ok_iff _ _ _ _).mp hp
          simp only [hp, whileTrue, firstTurn, markRoundTurn] at h
          by_cases htr : t.rid_ = tag.m_roundId
          · rw [if_pos htr] at h
            cases hm : markRoundEntry tag.m_serial tag.m_groupId t.pi_ with
            | none => simp [hm] at h
            | some pi =>
              simp only [hm, Option.getD_some, Except.ok.injEq] at h
              exact ⟨old, t, rest, pi, hq, ho, htr, hm, h.symm⟩
          · simp [htr] at h
  · rintro (⟨t, q, rfl, hlt, rfl⟩ | ⟨old, t, q, pi, rfl, ho, ht, hm, rfl⟩)
    · simp [markRound, front, bind, Except.bind, hlt, pure, Except.pure]
    · obtain ⟨a, q', hq', hlt⟩ := front_append_ge ho ht q
      rw [markRound, hq']
      simp only [front, bind, Except.bind, hlt, if_false]
      rw [← hq', popOlder_append ho ht]
      simp [whileTrue, firstTurn, markRoundTurn, ht, hm]

/-- The round queue after a packet of the round in front: the table with the scan's
entries, or without the table when the packet is the FEC packet of the last group. -/
def roundAfter (tag : FecTag) (t : RoundFecTable H) (q : List (RoundFecTable H))
    (pi : List (PacketInfo H)) : List (RoundFecTable H) :=
  if tag.m_type = 2 ∧ tag.m_groupId.toNat + 1 = t.nGroups_.toNat then q
  else { t with pi_ := pi } :: q

private theorem roundAfter_pi (tag : FecTag) (t : RoundFecTable H) (q : List (RoundFecTable H))
    (pi pi' : List (PacketInfo H)) :
    roundAfter tag { t with pi_ := pi' } q pi = roundAfter tag t q pi := rfl

/-- `CheckRoundFecTable` returns at once for an old packet. -/
theorem checkRound_stale {tag : FecTag} {t : RoundFecTable H} (h : tag.m_roundId < t.rid_)
    (bound : UInt32) (request : Bool) (q : List (RoundFecTable H)) :
    checkRound tag bound request (t :: q) = .ok ⟨t :: q, 0, []⟩ := by
  simp [checkRound, front, bind, Except.bind, h, pure, Except.pure]

/-- `CheckRoundFecTable` with the packet's round in front. -/
theorem checkRound_front {tag : FecTag} {t : RoundFecTable H} (h : t.rid_ = tag.m_roundId)
    (bound : UInt32) (request : Bool) (q : List (RoundFecTable H)) :
    checkRound tag bound request (t :: q) =
      .ok ⟨roundAfter tag t q (scanRound tag bound request t.pi_ 0).pi,
        (scanRound tag bound request t.pi_ 0).sumlost,
        (scanRound tag bound request t.pi_ 0).asked⟩ := by
  have hlt : ¬ tag.m_roundId < t.rid_ := by grind
  simp only [checkRound, front, bind, Except.bind, if_neg hlt, popOlder_front h, if_pos h,
    roundAfter, pure, Except.pure]
  split <;> rfl

/-- `MarkGroupFecTable` returns at once when the round queue is past the packet's round,
and otherwise when the round's group table lists the packet. -/
theorem markGroup_ok_iff (tag : FecTag) (t : RoundFecTable H) (q : List (RoundFecTable H))
    (gt : List (GroupFecTable H)) (r : List (GroupFecTable H) × UInt32) :
    markGroup tag ⟨t :: q, gt⟩ = .ok r ↔
      (tag.m_roundId < t.rid_ ∧ r = (gt, 0)) ∨
      (¬ tag.m_roundId < t.rid_ ∧ ∃ old T rest pi, gt = old ++ T :: rest ∧
        (∀ o ∈ old, o.rid_ < tag.m_roundId) ∧ T.rid_ = tag.m_roundId ∧
        markGroupEntry tag.m_serial (T.gi_ tag.m_groupId) 0 = some (pi, r.2) ∧
        r.1 = T.setGroup tag.m_groupId pi :: rest) := by
  by_cases hlt : tag.m_roundId < t.rid_
  · simp [markGroup, front, bind, Except.bind, hlt, pure, Except.pure, eq_comm]
  · simp only [markGroup, front, bind, Except.bind, hlt, if_false, false_and, not_false_eq_true,
      true_and, false_or]
    constructor
    · intro h
      cases hp : popOlder GroupFecTable.rid_ tag.m_roundId gt with
      | error f => simp [hp] at h
      | ok q' =>
        obtain ⟨old, T, rest, hq, ho, hT, rfl⟩ := (popOlder_ok_iff _ _ _ _).mp hp
        simp only [hp, whileTrue, firstTurn, markGroupTurn] at h
        by_cases hTr : T.rid_ = tag.m_roundId
        · simp only [hTr, if_true] at h
          cases hm : markGroupEntry tag.m_serial (T.gi_ tag.m_groupId) 0 with
          | none => simp [hm] at h
          | some x =>
            simp only [hm, Option.getD_some, Except.ok.injEq] at h
            subst h
            exact ⟨old, T, rest, x.1, hq, ho, hTr, hm, rfl⟩
        · simp [hTr] at h
    · rintro ⟨old, T, rest, pi, rfl, ho, hT, hm, hr⟩
      rw [popOlder_append ho hT]
      obtain ⟨r₁, r₂⟩ := r
      simp only at hm hr
      subst hr
      simp [whileTrue, firstTurn, markGroupTurn, hT, hm]

/-- `CheckGroupFecTable` returns at once when the round queue is past the packet's round. -/
theorem checkGroup_stale {tag : FecTag} {t : RoundFecTable H} (h : tag.m_roundId < t.rid_)
    (nlost : UInt32) (q : List (RoundFecTable H)) (gt : List (GroupFecTable H)) :
    checkGroup tag nlost ⟨t :: q, gt⟩ = .ok ⟨gt, 0, none⟩ := by
  simp [checkGroup, front, bind, Except.bind, h, pure, Except.pure]

/-- `CheckGroupFecTable` with the packet's round in front of the group queue. -/
theorem checkGroup_front_ok_iff {tag : FecTag} {t : RoundFecTable H} {T : GroupFecTable H}
    (h : ¬ tag.m_roundId < t.rid_) (hT : T.rid_ = tag.m_roundId) (nlost : UInt32)
    (q : List (RoundFecTable H)) (rest : List (GroupFecTable H)) (c : CheckedGroup H) :
    checkGroup tag nlost ⟨t :: q, T :: rest⟩ = .ok c ↔
      checkGroupEntry tag.m_serial nlost (T.gi_ tag.m_groupId) 0 none =
        some (c.mlost, c.recovered) ∧ c.gt = T.setGroup tag.m_groupId [] :: rest := by
  simp only [checkGroup, front, bind, Except.bind, if_neg h, popOlder_front hT, whileTrue,
    firstTurn, checkGroupTurn, if_pos hT]
  obtain ⟨gt, mlost, recovered⟩ := c
  cases checkGroupEntry tag.m_serial nlost (T.gi_ tag.m_groupId) 0 none with
  | none => simp
  | some x =>
    obtain ⟨m, e⟩ := x
    simp only [Option.getD_some, Except.ok.injEq, CheckedGroup.mk.injEq, Option.some.injEq,
      Prod.mk.injEq]
    constructor
    · rintro ⟨hg, hm, he⟩
      exact ⟨⟨hm, he⟩, hg.symm⟩
    · rintro ⟨⟨hm, he⟩, hg⟩
      exact ⟨hg.symm, hm, he⟩

/-! ### The whole pass -/

/-- The packet's round is in the round queue behind older tables only, and lists it:
`MarkRoundFecTable` brings the table to the front with entries `pi`. -/
structure Listed (tag : FecTag) (rt : List (RoundFecTable H)) (t : RoundFecTable H)
    (q : List (RoundFecTable H)) (pi : List (PacketInfo H)) : Prop where
  split : ∃ old, rt = old ++ t :: q ∧ ∀ o ∈ old, o.rid_ < tag.m_roundId
  rid : t.rid_ = tag.m_roundId
  marked : markRoundEntry tag.m_serial tag.m_groupId t.pi_ = some pi

/-- The packet's round is in the group queue behind older tables only, and its group's
list has it: `MarkGroupFecTable` replaces the list by `pi` and counts `nlost`. -/
structure GroupListed (tag : FecTag) (gt : List (GroupFecTable H)) (T : GroupFecTable H)
    (rest : List (GroupFecTable H)) (pi : List (PacketInfo H)) (nlost : UInt32) : Prop where
  split : ∃ old, gt = old ++ T :: rest ∧ ∀ o ∈ old, o.rid_ < tag.m_roundId
  rid : T.rid_ = tag.m_roundId
  marked : markGroupEntry tag.m_serial (T.gi_ tag.m_groupId) 0 = some (pi, nlost)

/-- Everything the group phase can do, with `t` in front of the round queue. -/
inductive GroupStep (tag : FecTag) (t : RoundFecTable H) (gt : List (GroupFecTable H)) :
    List (GroupFecTable H) × GroupOutcome H → Prop where
  /-- The round queue is past the packet's round: the group table is not looked at. -/
  | closed (hlt : tag.m_roundId < t.rid_) : GroupStep tag t gt (gt, ⟨0, 0, none⟩)
  /-- A packet that is no FEC packet is marked in its group. -/
  | data (hlt : ¬ tag.m_roundId < t.rid_) (htype : tag.m_type ≠ 2)
      (T : GroupFecTable H) (rest : List (GroupFecTable H)) (gi : List (PacketInfo H))
      (nlost : UInt32) (hg : GroupListed tag gt T rest gi nlost) :
      GroupStep tag t gt (T.setGroup tag.m_groupId gi :: rest, ⟨nlost, 0, none⟩)
  /-- An FEC packet is marked in its group, which is then checked and cleared. -/
  | fec (hlt : ¬ tag.m_roundId < t.rid_) (htype : tag.m_type = 2)
      (T : GroupFecTable H) (rest : List (GroupFecTable H)) (gi : List (PacketInfo H))
      (nlost : UInt32) (hg : GroupListed tag gt T rest gi nlost)
      (mlost : UInt32) (recovered : Option (PacketInfo H))
      (hc : checkGroupEntry tag.m_serial nlost gi 0 none = some (mlost, recovered)) :
      GroupStep tag t gt (T.setGroup tag.m_groupId [] :: rest, ⟨nlost, mlost, recovered⟩)

/-- Everything a pass over the tables can do. -/
inductive DecodeStep (tag : FecTag) (bound : UInt32) (request : Bool) (s : FecTables H) :
    Decoded H → Prop where
  /-- The round queue is past the packet's round: nothing is touched. -/
  | stale (t : RoundFecTable H) (q : List (RoundFecTable H)) (hrt : s.rt_ = t :: q)
      (hlt : tag.m_roundId < t.rid_) :
      DecodeStep tag bound request s ⟨s, 0, [], some ⟨0, 0, none⟩⟩
  /-- More losses than groups: the group table is not looked at. -/
  | early (t : RoundFecTable H) (q : List (RoundFecTable H)) (pi : List (PacketInfo H))
      (hl : Listed tag s.rt_ t q pi) (r : RoundScan H)
      (hr : scanRound tag bound request pi 0 = r) (hsum : tag.m_nGroups.toUInt32 < r.sumlost) :
      DecodeStep tag bound request s
        ⟨⟨roundAfter tag t q r.pi, s.gt_⟩, r.sumlost, r.asked, none⟩
  /-- The group phase runs, on the round queue the round phase leaves. -/
  | group (t : RoundFecTable H) (q : List (RoundFecTable H)) (pi : List (PacketInfo H))
      (hl : Listed tag s.rt_ t q pi) (r : RoundScan H)
      (hr : scanRound tag bound request pi 0 = r) (hsum : ¬ tag.m_nGroups.toUInt32 < r.sumlost)
      (t' : RoundFecTable H) (q' : List (RoundFecTable H))
      (hrt : roundAfter tag t q r.pi = t' :: q')
      (g : List (GroupFecTable H) × GroupOutcome H) (hg : GroupStep tag t' s.gt_ g) :
      DecodeStep tag bound request s ⟨⟨t' :: q', g.1⟩, r.sumlost, r.asked, some g.2⟩

@[simp] theorem GroupFecTable.gi_setGroup (T : GroupFecTable H) (gid g : UInt8)
    (pi : List (PacketInfo H)) :
    (T.setGroup gid pi).gi_ g = if g = gid then pi else T.gi_ g := rfl

@[simp] theorem GroupFecTable.rid_setGroup (T : GroupFecTable H) (gid : UInt8)
    (pi : List (PacketInfo H)) : (T.setGroup gid pi).rid_ = T.rid_ := rfl

@[simp] theorem GroupFecTable.nGroups_setGroup (T : GroupFecTable H) (gid : UInt8)
    (pi : List (PacketInfo H)) : (T.setGroup gid pi).nGroups_ = T.nGroups_ := rfl

@[simp] theorem GroupFecTable.setGroup_setGroup (T : GroupFecTable H) (gid : UInt8)
    (pi pi' : List (PacketInfo H)) :
    (T.setGroup gid pi).setGroup gid pi' = T.setGroup gid pi' := by
  unfold GroupFecTable.setGroup
  congr 1
  funext g
  dsimp only
  split <;> rfl

/-- The inversion of the group phase. -/
theorem groupPhase_ok_iff (tag : FecTag) (t : RoundFecTable H) (q : List (RoundFecTable H))
    (gt : List (GroupFecTable H)) (g : List (GroupFecTable H) × GroupOutcome H) :
    groupPhase tag ⟨t :: q, gt⟩ = .ok g ↔ GroupStep tag t gt g := by
  constructor
  · intro h
    simp only [groupPhase, bind, Except.bind, pure, Except.pure] at h
    cases hm : markGroup tag ⟨t :: q, gt⟩ with
    | error f => simp [hm] at h
    | ok m =>
      simp only [hm] at h
      obtain ⟨hlt, rfl⟩ | ⟨hlt, old, T, rest, gi, hgt, ho, hT, hgi, hm1⟩ :=
        (markGroup_ok_iff _ _ _ _ _).mp hm
      · simp only [checkGroup_stale hlt] at h
        have hg : g = (gt, ⟨0, 0, none⟩) := by split at h <;> exact (Except.ok.inj h).symm
        rw [hg]
        exact .closed hlt
      · have hl : GroupListed tag gt T rest gi m.2 := ⟨⟨old, hgt, ho⟩, hT, hgi⟩
        rw [hm1] at h
        split at h
        · next htype =>
          cases hc : checkGroup tag m.2 ⟨t :: q, T.setGroup tag.m_groupId gi :: rest⟩ with
          | error f => simp [hc] at h
          | ok c =>
            rw [hc] at h
            obtain ⟨he, hcg⟩ := (checkGroup_front_ok_iff hlt
              (T := T.setGroup tag.m_groupId gi) hT _ _ _ _).mp hc
            simp only [GroupFecTable.gi_setGroup, if_true] at he
            rw [GroupFecTable.setGroup_setGroup] at hcg
            rw [← Except.ok.inj h, hcg]
            exact .fec hlt htype T rest gi m.2 hl c.mlost c.recovered he
        · next htype =>
          rw [← Except.ok.inj h]
          exact .data hlt htype T rest gi m.2 hl
  · intro h
    cases h with
    | closed hlt =>
      have hm : markGroup tag ⟨t :: q, gt⟩ = .ok (gt, 0) :=
        (markGroup_ok_iff _ _ _ _ _).mpr (.inl ⟨hlt, rfl⟩)
      simp only [groupPhase, bind, Except.bind, hm, checkGroup_stale hlt, pure, Except.pure]
      split <;> rfl
    | data hlt htype T rest gi nlost hl =>
      obtain ⟨old, hgt, ho⟩ := hl.split
      have hm : markGroup tag ⟨t :: q, gt⟩ = .ok (T.setGroup tag.m_groupId gi :: rest, nlost) :=
        (markGroup_ok_iff _ _ _ _ _).mpr
          (.inr ⟨hlt, old, T, rest, gi, hgt, ho, hl.rid, hl.marked, rfl⟩)
      simp only [groupPhase, bind, Except.bind, hm, if_neg htype, pure, Except.pure]
    | fec hlt htype T rest gi nlost hl mlost recovered hc =>
      obtain ⟨old, hgt, ho⟩ := hl.split
      have hm : markGroup tag ⟨t :: q, gt⟩ = .ok (T.setGroup tag.m_groupId gi :: rest, nlost) :=
        (markGroup_ok_iff _ _ _ _ _).mpr
          (.inr ⟨hlt, old, T, rest, gi, hgt, ho, hl.rid, hl.marked, rfl⟩)
      have hcg : checkGroup tag nlost ⟨t :: q, T.setGroup tag.m_groupId gi :: rest⟩ =
          .ok ⟨T.setGroup tag.m_groupId [] :: rest, mlost, recovered⟩ :=
        (checkGroup_front_ok_iff hlt (T := T.setGroup tag.m_groupId gi) hl.rid _ _ _ _).mpr
          ⟨by simpa using hc, by simp⟩
      simp only [groupPhase, bind, Except.bind, hm, if_pos htype, hcg, pure, Except.pure]

/-- The group phase of a packet its group's list does not have never returns. -/
theorem groupPhase_noReturn {tag : FecTag} {t : RoundFecTable H} (h : ¬ tag.m_roundId < t.rid_)
    (q : List (RoundFecTable H)) {old : List (GroupFecTable H)} {T : GroupFecTable H}
    (rest : List (GroupFecTable H)) (ho : ∀ o ∈ old, o.rid_ < tag.m_roundId)
    (hT : T.rid_ = tag.m_roundId) (hm : markGroupEntry tag.m_serial (T.gi_ tag.m_groupId) 0 = none) :
    groupPhase tag ⟨t :: q, old ++ T :: rest⟩ = .error .noReturn := by
  have hmark : markGroup tag ⟨t :: q, old ++ T :: rest⟩ = .error .noReturn := by
    simp only [markGroup, front, bind, Except.bind, if_neg h, popOlder_append ho hT, whileTrue,
      firstTurn, markGroupTurn, if_pos hT, hm]
    rfl
  simp only [groupPhase, hmark, bind, Except.bind]

/-- A pass over an old packet. -/
theorem decode_stale {tag : FecTag} {s : FecTables H} {t : RoundFecTable H}
    {q : List (RoundFecTable H)} (hrt : s.rt_ = t :: q) (hlt : tag.m_roundId < t.rid_)
    (bound : UInt32) (request : Bool) :
    decode tag bound request s = .ok ⟨s, 0, [], some ⟨0, 0, none⟩⟩ := by
  obtain ⟨rt, gt⟩ := s
  simp only at hrt
  subst hrt
  have hr : markRound tag (t :: q) = .ok (t :: q) :=
    (markRound_ok_iff _ _ _).mpr (.inl ⟨t, q, rfl, hlt, rfl⟩)
  have hz : ¬ (0 : UInt32) > tag.m_nGroups.toUInt32 := by grind
  have hg := (groupPhase_ok_iff tag t q gt _).mpr (.closed hlt)
  simp only [decode, bind, Except.bind, hr, checkRound_stale hlt, if_neg hz, hg, pure, Except.pure]

/-- A pass over a packet whose round lists it is its round phase, the comparison of the
losses with the group count, and its group phase. -/
theorem decode_listed {tag : FecTag} {s : FecTables H} {t : RoundFecTable H}
    {q : List (RoundFecTable H)} {pi : List (PacketInfo H)} (hl : Listed tag s.rt_ t q pi)
    (bound : UInt32) (request : Bool) :
    decode tag bound request s =
      if tag.m_nGroups.toUInt32 < (scanRound tag bound request pi 0).sumlost then
        .ok ⟨⟨roundAfter tag t q (scanRound tag bound request pi 0).pi, s.gt_⟩,
          (scanRound tag bound request pi 0).sumlost,
          (scanRound tag bound request pi 0).asked, none⟩
      else
        (groupPhase tag ⟨roundAfter tag t q (scanRound tag bound request pi 0).pi, s.gt_⟩).map
          fun g => ⟨⟨roundAfter tag t q (scanRound tag bound request pi 0).pi, g.1⟩,
            (scanRound tag bound request pi 0).sumlost,
            (scanRound tag bound request pi 0).asked, some g.2⟩ := by
  obtain ⟨old, hs, ho⟩ := hl.split
  have hr : markRound tag s.rt_ = .ok ({ t with pi_ := pi } :: q) :=
    (markRound_ok_iff _ _ _).mpr (.inr ⟨old, t, q, pi, hs, ho, hl.rid, hl.marked, rfl⟩)
  have hc := checkRound_front (t := { t with pi_ := pi }) hl.rid bound request q
  simp only [decode, bind, Except.bind, hr, hc, gt_iff_lt]
  split
  · rfl
  · rw [roundAfter_pi]
    cases groupPhase tag ⟨roundAfter tag t q (scanRound tag bound request pi 0).pi, s.gt_⟩ <;>
      rfl

/-- The inversion of a pass: it returns with `d` exactly when `DecodeStep` allows it. -/
theorem decode_ok_iff (tag : FecTag) (bound : UInt32) (request : Bool) (s : FecTables H)
    (d : Decoded H) :
    decode tag bound request s = .ok d ↔ DecodeStep tag bound request s d := by
  constructor
  · intro h
    cases hr : markRound tag s.rt_ with
    | error f => simp [decode, bind, Except.bind, hr] at h
    | ok rt =>
      obtain ⟨t, q, hs, hlt, rfl⟩ | ⟨old, t, q, pi, hs, ho, ht, hm, rfl⟩ :=
        (markRound_ok_iff _ _ _).mp hr
      · rw [decode_stale hs hlt] at h
        rw [← Except.ok.inj h]
        exact .stale t q hs hlt
      · have hl : Listed tag s.rt_ t q pi := ⟨⟨old, hs, ho⟩, ht, hm⟩
        rw [decode_listed hl] at h
        split at h
        · next hsum =>
          rw [← Except.ok.inj h]
          exact .early t q pi hl _ rfl hsum
        · next hsum =>
          cases ha : roundAfter tag t q (scanRound tag bound request pi 0).pi with
          | nil => simp [ha, groupPhase, markGroup, front, bind, Except.bind, Except.map] at h
          | cons t' q' =>
            rw [ha] at h
            cases hg : groupPhase tag ⟨t' :: q', s.gt_⟩ with
            | error f => simp [hg, Except.map] at h
            | ok g =>
              rw [hg] at h
              rw [← Except.ok.inj h]
              exact .group t q pi hl _ rfl hsum t' q' ha g ((groupPhase_ok_iff _ _ _ _ _).mp hg)
  · intro h
    cases h with
    | stale t q hrt hlt => exact decode_stale hrt hlt bound request
    | early t q pi hl r hr hsum =>
      subst hr
      rw [decode_listed hl, if_pos hsum]
    | group t q pi hl r hr hsum t' q' hrt g hg =>
      subst hr
      rw [decode_listed hl, if_neg hsum, hrt, (groupPhase_ok_iff _ _ _ _ _).mpr hg]
      rfl

end Ns3.Fec
