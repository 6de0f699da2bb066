import Ns3.Fec.Agent
import Mathlib.Tactic.SplitIfs

/-!
# The window of a round

`FecAgent::RedundancyControl` chooses how many data packets a round has and how many
groups. The choices in numbers, when one of them is an empty round, and when the round
with its FEC packets fits the congestion window.
Source: `contrib/fec/model/fec-agent.cc:231–313`.
-/

namespace Ns3.Fec.FecAgent

/-- The cap `m_fmax`, which 0 turns off. -/
def cap (fmax fc : UInt32) : UInt32 := if fmax ≠ 0 ∧ fc ≥ fmax then fmax else fc

theorem cap_le (fmax fc : UInt32) : (cap fmax fc).toNat ≤ fc.toNat := by
  unfold cap
  split
  · next h => exact UInt32.le_iff_toNat_le.mp h.2
  · exact Nat.le_refl _

theorem cap_le_fmax {fmax : UInt32} (h : 0 < fmax.toNat) (fc : UInt32) : (cap fmax fc).toNat ≤ fmax.toNat := by
  unfold cap
  split
  · exact Nat.le_refl _
  · next hcap =>
    have hne : fmax ≠ 0 := fun h0 => by
      rw [h0] at h
      exact absurd h (by decide)
    have hlt : ¬ fmax.toNat ≤ fc.toNat := fun hle => hcap ⟨hne, UInt32.le_iff_toNat_le.mpr hle⟩
    omega

theorem cap_eq_zero_iff (fmax fc : UInt32) : cap fmax fc = 0 ↔ fc = 0 := by
  unfold cap
  split
  · next h =>
    have hpos : 0 < fmax.toNat := Nat.pos_of_ne_zero fun h0 => h.1 (UInt32.toNat_inj.mp h0)
    have hle := UInt32.le_iff_toNat_le.mp h.2
    exact ⟨fun h0 => absurd h0 h.1, fun h0 => by
      rw [h0] at hle
      exact absurd (Nat.lt_of_lt_of_le hpos hle) (by decide)⟩
  · exact Iff.rfl

/-- So many groups with so many packets each do not overflow when they were cut from a window. -/
theorem toNat_cap_div_mul (fmax win n : UInt32) :
    (cap fmax (win / n) * n).toNat = (cap fmax (win / n)).toNat * n.toNat := by
  have hle := cap_le fmax (win / n)
  rw [UInt32.toNat_div] at hle
  have hmul := Nat.le_trans (Nat.mul_le_mul_right n.toNat hle) (Nat.div_mul_le_self win.toNat n.toNat)
  rw [UInt32.toNat_mul, Nat.mod_eq_of_lt (Nat.lt_of_le_of_lt hmul win.toNat_lt)]

/-- The least window for which `BoundMode` IN opens all groups, as the code computes it. -/
def fullRound (a : FecAgent) : UInt32 := a.m_fwin * a.m_nGroups.toUInt32 + a.m_nGroups.toUInt32

/-- The congestion window in segments. -/
def segments (a : FecAgent) (cwnd : UInt32) : UInt32 := cwnd / a.m_segmentSize

variable {a : FecAgent} {cwnd : UInt32}

theorem toNat_nGroups_pos (hn : a.m_nGroups ≠ 0) : 0 < a.m_nGroups.toUInt32.toNat := by
  rw [UInt8.toNat_toUInt32]
  exact Nat.pos_of_ne_zero fun h0 => hn (UInt8.toNat_inj.mp h0)

/-- What `RedundancyControl` chooses, case by case. -/
theorem roundWindow_eq (hsegment : a.m_segmentSize ≠ 0) (hn : a.m_nGroups ≠ 0) :
    a.roundWindow cwnd = .ok (match a.m_fecMode, a.m_boundMode with
      | .Static, .OUT => (a.m_fwin * a.m_nGroups.toUInt32, a.m_nGroups)
      | .Static, .IN =>
        if a.segments cwnd < a.fullRound then (a.segments cwnd, 1) else (a.m_fwin * a.m_nGroups.toUInt32, a.m_nGroups)
      | .Dynamic, .OUT =>
        let n := if a.segments cwnd < a.m_nGroups.toUInt32 then 1 else a.m_nGroups
        (cap a.m_fmax (a.segments cwnd / n.toUInt32) * n.toUInt32, n)
      | .Dynamic, .IN =>
        if a.segments cwnd < a.fullRound then (a.segments cwnd, 1)
        else (cap a.m_fmax ((a.segments cwnd - a.m_nGroups.toUInt32) / a.m_nGroups.toUInt32) * a.m_nGroups.toUInt32,
          a.m_nGroups)) := by
  rw [roundWindow, if_neg hsegment]
  cases a.m_fecMode <;> cases a.m_boundMode
  · rfl
  · exact (apply_ite Except.ok _ _ _).symm
  · have hne : (if a.segments cwnd < a.m_nGroups.toUInt32 then 1 else a.m_nGroups) ≠ 0 := by
      split
      · decide
      · exact hn
    exact if_neg hne
  · dsimp only
    rw [if_neg hn]
    exact (apply_ite Except.ok _ _ _).symm

/-- There is a group. -/
theorem roundWindow_groups_ne_zero (hsegment : a.m_segmentSize ≠ 0) (hn : a.m_nGroups ≠ 0) {w : UInt32 × UInt8}
    (hw : a.roundWindow cwnd = .ok w) : w.2 ≠ 0 := by
  have hone : (1 : UInt8) ≠ 0 := by decide
  obtain rfl := Except.ok.inj ((roundWindow_eq hsegment hn).symm.trans hw)
  cases a.m_fecMode <;> cases a.m_boundMode <;> dsimp only
  · exact hn
  · split
    · exact hone
    · exact hn
  · split
    · exact hone
    · exact hn
  · split
    · exact hone
    · exact hn

/-! ### Rounds without data packets -/

/-- The inputs for which a round has data packets. -/
def Opens (a : FecAgent) (win : UInt32) : Prop :=
  match a.m_fecMode, a.m_boundMode with
  | .Static, .OUT => a.m_fwin * a.m_nGroups.toUInt32 ≠ 0
  | .Static, .IN => if win < a.fullRound then win ≠ 0 else a.m_fwin * a.m_nGroups.toUInt32 ≠ 0
  | .Dynamic, .OUT => win ≠ 0
  | .Dynamic, .IN =>
    if win < a.fullRound then win ≠ 0 else win < a.m_nGroups.toUInt32 ∨ a.m_nGroups.toNat + a.m_nGroups.toNat ≤ win.toNat

instance (a : FecAgent) (win : UInt32) : Decidable (a.Opens win) := by
  unfold Opens
  split <;> infer_instance

/-- The window is 0 exactly for the other inputs. -/
theorem roundWindow_ne_zero_iff (hsegment : a.m_segmentSize ≠ 0) (hn : a.m_nGroups ≠ 0) {w : UInt32 × UInt8}
    (hw : a.roundWindow cwnd = .ok w) : w.1 ≠ 0 ↔ a.Opens (a.segments cwnd) := by
  have hnpos := toNat_nGroups_pos hn
  have hmul : ∀ (win : UInt32) {n : UInt32}, 0 < n.toNat →
      (cap a.m_fmax (win / n) * n ≠ 0 ↔ n.toNat ≤ win.toNat) := by
    intro win n hnpos
    rw [ne_eq, ← UInt32.toNat_inj, toNat_cap_div_mul]
    show ¬ (cap a.m_fmax (win / n)).toNat * n.toNat = 0 ↔ _
    rw [Nat.mul_eq_zero, not_or, and_iff_left (Nat.ne_of_gt hnpos)]
    rw [show (cap a.m_fmax (win / n)).toNat = 0 ↔ win / n = 0 from
      UInt32.toNat_inj.trans (cap_eq_zero_iff a.m_fmax (win / n)), ← UInt32.toNat_inj, UInt32.toNat_div]
    show ¬ win.toNat / n.toNat = 0 ↔ _
    rw [Nat.div_eq_zero_iff]
    omega
  obtain rfl := Except.ok.inj ((roundWindow_eq hsegment hn).symm.trans hw)
  unfold Opens
  cases a.m_fecMode <;> cases a.m_boundMode
  · exact Iff.rfl
  · dsimp only
    split <;> exact Iff.rfl
  · dsimp only
    split
    · rw [hmul _ (by decide), ne_eq, ← UInt32.toNat_inj]
      show 1 ≤ _ ↔ ¬ _ = 0
      omega
    · next hlt =>
      rw [UInt32.lt_iff_toNat_lt] at hlt
      rw [hmul _ hnpos, ne_eq, ← UInt32.toNat_inj]
      show _ ≤ _ ↔ ¬ _ = 0
      omega
  · dsimp only
    split
    · exact Iff.rfl
    · rw [hmul _ hnpos, UInt32.toNat_sub, UInt32.lt_iff_toNat_lt, UInt8.toNat_toUInt32]
      have hlt := (a.segments cwnd).toNat_lt
      have hlt' := a.m_nGroups.toNat_lt
      rw [UInt8.toNat_toUInt32] at hnpos
      omega

/-! ### Rounds that fit -/

/-- What is wanted of a round of `fwin` data packets in `nGroups` groups, for a window of `win` segments. -/
structure Sized (a : FecAgent) (win fwin : UInt32) (nGroups : UInt8) : Prop where
  divides : nGroups.toNat ∣ fwin.toNat
  groups : nGroups = a.m_nGroups ∨ nGroups = 1
  capped : a.m_fecMode = .Dynamic → 0 < a.m_fmax.toNat → nGroups = a.m_nGroups →
    fwin.toNat / nGroups.toNat ≤ a.m_fmax.toNat
  within : a.m_boundMode = .IN → 2 ≤ win.toNat → fwin.toNat + nGroups.toNat ≤ win.toNat

/-- The whole round of one group is a window: there is no room for its FEC packet. -/
theorem sized_one_iff (hmode : a.m_boundMode = .IN) (hn : a.m_nGroups ≠ 0) (win : UInt32) :
    a.Sized win win 1 ↔ win.toNat < 2 := by
  have hnpos := toNat_nGroups_pos hn
  constructor
  · intro h
    have hwithin := h.within hmode
    have hone : (1 : UInt8).toNat = 1 := rfl
    omega
  · intro hlt
    refine ⟨Nat.one_dvd _, .inr rfl, fun _ hmax _ => ?_, fun _ hle => absurd hlt (Nat.not_lt.mpr hle)⟩
    show win.toNat / 1 ≤ _
    rw [Nat.div_one]
    omega

/-- All groups are filled alike, up to the cap and to the window. -/
theorem sized_cap {win : UInt32} {n : UInt8} (hn : n ≠ 0) (hgroups : n = a.m_nGroups ∨ n = 1) (room : UInt32)
    (hroom : a.m_boundMode = .IN → room.toNat + n.toNat ≤ win.toNat) :
    a.Sized win (cap a.m_fmax (room / n.toUInt32) * n.toUInt32) n := by
  have hnpos : 0 < n.toNat := Nat.pos_of_ne_zero fun h0 => hn (UInt8.toNat_inj.mp h0)
  have htoNat := toNat_cap_div_mul a.m_fmax room n.toUInt32
  rw [UInt8.toNat_toUInt32] at htoNat
  have hle := cap_le a.m_fmax (room / n.toUInt32)
  rw [UInt32.toNat_div, UInt8.toNat_toUInt32] at hle
  have hmul := Nat.le_trans (Nat.mul_le_mul_right n.toNat hle) (Nat.div_mul_le_self room.toNat n.toNat)
  refine ⟨?_, hgroups, fun _ hmax _ => ?_, fun hmode _ => ?_⟩
  · rw [htoNat]
    exact Nat.dvd_mul_left _ _
  · rw [htoNat, Nat.mul_div_cancel _ hnpos]
    exact cap_le_fmax hmax _
  · have hroom := hroom hmode
    omega

/-- The configured round. -/
theorem sized_full {win : UInt32} (hmode : a.m_fecMode = .Static)
    (hfit : a.m_fwin.toNat * a.m_nGroups.toNat + a.m_nGroups.toNat < 2 ^ 32)
    (hwithin : a.m_boundMode = .IN → a.m_fwin.toNat * a.m_nGroups.toNat + a.m_nGroups.toNat ≤ win.toNat) :
    a.Sized win (a.m_fwin * a.m_nGroups.toUInt32) a.m_nGroups := by
  have htoNat : (a.m_fwin * a.m_nGroups.toUInt32).toNat = a.m_fwin.toNat * a.m_nGroups.toNat := by
    rw [UInt32.toNat_mul, UInt8.toNat_toUInt32, Nat.mod_eq_of_lt (by omega)]
  refine ⟨?_, .inl rfl, fun hdynamic => ?_, fun hin _ => ?_⟩
  · rw [htoNat]
    exact Nat.dvd_mul_left _ _
  · rw [hmode] at hdynamic
    cases hdynamic
  · rw [htoNat]
    exact hwithin hin

theorem toNat_fullRound (hfit : a.m_fwin.toNat * a.m_nGroups.toNat + a.m_nGroups.toNat < 2 ^ 32) :
    a.fullRound.toNat = a.m_fwin.toNat * a.m_nGroups.toNat + a.m_nGroups.toNat := by
  rw [fullRound, UInt32.toNat_add, UInt32.toNat_mul, UInt8.toNat_toUInt32]
  omega

/-- The chosen window is as wanted, unless `BoundMode` IN takes all of a window that is too small for all groups. -/
theorem roundWindow_sized (hsegment : a.m_segmentSize ≠ 0) (hfwin : a.m_fwin ≠ 0) (hn : a.m_nGroups ≠ 0)
    (hfit : a.m_fwin.toNat * a.m_nGroups.toNat + a.m_nGroups.toNat < 2 ^ 32) {w : UInt32 × UInt8}
    (hw : a.roundWindow cwnd = .ok w) :
    a.Sized (a.segments cwnd) w.1 w.2 ↔ a.m_boundMode = .OUT ∨ (a.segments cwnd).toNat < 2 ∨
      a.m_fwin.toNat * a.m_nGroups.toNat + a.m_nGroups.toNat ≤ (a.segments cwnd).toNat := by
  have hfull := toNat_fullRound hfit
  have hfpos : 0 < a.m_fwin.toNat := Nat.pos_of_ne_zero fun h0 => hfwin (UInt32.toNat_inj.mp h0)
  have hnpos : 0 < a.m_nGroups.toNat := Nat.pos_of_ne_zero fun h0 => hn (UInt8.toNat_inj.mp h0)
  obtain rfl := Except.ok.inj ((roundWindow_eq hsegment hn).symm.trans hw)
  have hlt := (a.segments cwnd).toNat_lt
  cases hbound : a.m_boundMode with
  | OUT =>
    refine iff_of_true ?_ (.inl rfl)
    cases hmode : a.m_fecMode with
    | Static => exact sized_full hmode hfit fun hin => absurd (hin.symm.trans hbound) (by decide)
    | Dynamic =>
      dsimp only
      refine sized_cap ?_ ?_ _ fun hin => absurd (hin.symm.trans hbound) (by decide)
      · split
        · decide
        · exact hn
      · split
        · exact .inr rfl
        · exact .inl rfl
  | IN =>
    rw [or_iff_right (by decide)]
    by_cases hsmall : a.segments cwnd < a.fullRound
    · have hsmall' := UInt32.lt_iff_toNat_lt.mp hsmall
      rw [or_iff_left (by omega)]
      cases a.m_fecMode with
      | Static =>
        dsimp only
        rw [if_pos hsmall]
        exact sized_one_iff hbound hn _
      | Dynamic =>
        dsimp only
        rw [if_pos hsmall]
        exact sized_one_iff hbound hn _
    · have hlarge : a.m_fwin.toNat * a.m_nGroups.toNat + a.m_nGroups.toNat ≤ (a.segments cwnd).toNat := by
        rw [UInt32.lt_iff_toNat_lt] at hsmall
        omega
      refine iff_of_true ?_ (.inr hlarge)
      cases hmode : a.m_fecMode with
      | Static =>
        dsimp only
        rw [if_neg hsmall]
        exact sized_full hmode hfit fun _ => hlarge
      | Dynamic =>
        dsimp only
        rw [if_neg hsmall]
        refine sized_cap hn (.inl rfl) _ fun _ => ?_
        rw [UInt32.toNat_sub, UInt8.toNat_toUInt32]
        omega

/-- The window and the group count of a round are as wanted exactly for `BoundMode` OUT, for a window of less than two
segments, and for one with room for all groups. -/
theorem window_sizing (a : FecAgent) (cwnd : UInt32) (hfwin : a.m_fwin ≠ 0) (hn : a.m_nGroups ≠ 0)
    (hsegment : a.m_segmentSize ≠ 0) (hfit : a.m_fwin.toNat * a.m_nGroups.toNat + a.m_nGroups.toNat < 2 ^ 32) :
    ∃ a' fwin, a.redundancyControl cwnd = .ok (a', fwin) ∧ a'.fwin = fwin ∧
      (a.Sized (cwnd / a.m_segmentSize) fwin a'.nGroups ↔
        a.m_boundMode = .OUT ∨ (cwnd / a.m_segmentSize).toNat < 2 ∨
          a.m_fwin.toNat * a.m_nGroups.toNat + a.m_nGroups.toNat ≤ (cwnd / a.m_segmentSize).toNat) := by
  obtain ⟨w, hw⟩ : ∃ w, a.roundWindow cwnd = .ok w := ⟨_, roundWindow_eq hsegment hn⟩
  have hcontrol : a.redundancyControl cwnd = .ok ({ a with
      toFecTables := a.toFecTables.pushTables a.m_roundId w.2
      fwin := w.1
      nGroups := w.2 }, w.1) := by
    rw [redundancyControl, hw]
    rfl
  exact ⟨_, _, hcontrol, rfl, roundWindow_sized hsegment hfwin hn hfit hw⟩

/-- A window of eight segments has room for two groups of three packets. -/
theorem window_sizing_eight :
    ({ m_fwin := 3, m_nGroups := 2 } : FecAgent).m_fwin ≠ 0 ∧
      ∃ a' fwin, ({ m_fwin := 3, m_nGroups := 2 } : FecAgent).redundancyControl 8000 = .ok (a', fwin) ∧ a'.fwin = fwin ∧
        (({ m_fwin := 3, m_nGroups := 2 } : FecAgent).Sized (8000 / 1000) fwin a'.nGroups ↔
          BoundMode.IN = .OUT ∨ ((8000 : UInt32) / 1000).toNat < 2 ∨
            (3 : UInt32).toNat * (2 : UInt8).toNat + (2 : UInt8).toNat ≤ ((8000 : UInt32) / 1000).toNat) :=
  ⟨by decide, window_sizing { m_fwin := 3, m_nGroups := 2 } 8000 (by decide) (by decide) (by decide) (by decide)⟩

/-- A window of seven segments is one round of seven data packets and one FEC packet. -/
theorem not_window_sizing_seven :
    ∃ a' fwin, ({ m_fwin := 3, m_nGroups := 2 } : FecAgent).redundancyControl 7000 = .ok (a', fwin) ∧
      ¬ ({ m_fwin := 3, m_nGroups := 2 } : FecAgent).Sized (7000 / 1000) fwin a'.nGroups := by
  refine ⟨_, _, rfl, fun h => ?_⟩
  exact absurd (h.within rfl (by decide)) (by decide)

end Ns3.Fec.FecAgent
