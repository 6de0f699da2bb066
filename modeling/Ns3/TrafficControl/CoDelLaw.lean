import Ns3.Lib.NewtonSqrt
import Ns3.TrafficControl.CoDelClock

/-!
# The control law of CoDel

`NewtonStep` and `ControlLaw` in the calls that `DoDequeue` makes of them. `m_recInvSqrt` stays at or below the reciprocal
of the square root of `m_count` and does not become 0, whether the count goes up by one, restarts or goes back to what was
dropped since the last restart. So no step wraps, and what is scheduled is later by a tick at least, though the clock may
wrap.
-/

namespace Ns3.TrafficControl

open Ns3.Lib Ns3.Network QueueDiscItem QueueDisc

variable {Item : Type} [QueueDiscItem Item]

namespace CoDel

/-! ### One step -/

/-- `invsqrt2` of `NewtonStep`. -/
def invsqrt2 (recInvSqrt : UInt16) : UInt32 :=
  let invsqrt : UInt32 := recInvSqrt.toUInt32 <<< 16
  ((invsqrt.toUInt64 * invsqrt.toUInt64) >>> 32).toUInt32

/-- What `NewtonStep` cuts off to 16 bits. -/
def newtonValue (recInvSqrt : UInt16) (count : UInt32) : UInt64 :=
  let invsqrt : UInt32 := recInvSqrt.toUInt32 <<< 16
  let val : UInt64 := ((3 : UInt64) <<< 32) - count.toUInt64 * (invsqrt2 recInvSqrt).toUInt64
  let val := val >>> 2
  let val := (val * invsqrt.toUInt64) >>> (32 - 2 + 1)
  val >>> 16

theorem newtonStep_eq (recInvSqrt : UInt16) (count : UInt32) :
    newtonStep recInvSqrt count = (newtonValue recInvSqrt count).toUInt16 := rfl

section Step

variable {r : UInt16} {c : UInt32}

theorem invsqrt_toNat (r : UInt16) : (r.toUInt32 <<< 16).toNat = r.toNat * 2 ^ 16 := by
  have hr := r.toNat_lt
  rw [UInt32.toNat_shiftLeft, UInt16.toNat_toUInt32, Nat.shiftLeft_eq]
  show r.toNat * 2 ^ 16 % 2 ^ 32 = _
  omega

theorem invsqrt2_toNat (r : UInt16) : (invsqrt2 r).toNat = r.toNat ^ 2 := by
  have hr := r.toNat_lt
  have hsq : r.toNat * 2 ^ 16 * (r.toNat * 2 ^ 16) = r.toNat ^ 2 * 2 ^ 32 := by ring
  have hlt : r.toNat ^ 2 < 2 ^ 32 := Nat.pow_lt_pow_left hr (by decide)
  rw [invsqrt2, UInt64.toNat_toUInt32, UInt64.toNat_shiftRight, UInt64.toNat_mul, UInt32.toNat_toUInt64, invsqrt_toNat,
    hsq]
  show (r.toNat ^ 2 * 2 ^ 32 % 2 ^ 64) >>> 32 % 2 ^ 32 = _
  rw [Nat.shiftRight_eq_div_pow]
  omega

theorem newtonValue_toNat (hy : c.toNat * r.toNat ^ 2 ≤ 3 * 2 ^ 32) :
    (newtonValue r c).toNat = (3 * (4 * 2 ^ 30) - c.toNat * r.toNat ^ 2) / 4 * r.toNat / 2 ^ 31 := by
  have hr := r.toNat_lt
  have hprod : (c.toUInt64 * (invsqrt2 r).toUInt64).toNat = c.toNat * r.toNat ^ 2 := by
    rw [UInt64.toNat_mul, UInt32.toNat_toUInt64, UInt32.toNat_toUInt64, invsqrt2_toNat]
    omega
  have hthree : ((3 : UInt64) <<< 32).toNat = 3 * 2 ^ 32 := by decide
  have hdiff : (((3 : UInt64) <<< 32) - c.toUInt64 * (invsqrt2 r).toUInt64).toNat = 3 * 2 ^ 32 - c.toNat * r.toNat ^ 2 := by
    rw [UInt64.toNat_sub_of_le _ _ (by rw [UInt64.le_iff_toNat_le, hprod, hthree]; exact hy), hprod, hthree]
  rw [newtonValue, UInt64.toNat_shiftRight, UInt64.toNat_shiftRight, UInt64.toNat_mul, UInt64.toNat_shiftRight, hdiff,
    UInt32.toNat_toUInt64, invsqrt_toNat]
  show ((3 * 2 ^ 32 - c.toNat * r.toNat ^ 2) >>> 2 * (r.toNat * 2 ^ 16) % 2 ^ 64) >>> 31 >>> 16 = _
  rw [Nat.shiftRight_eq_div_pow, Nat.shiftRight_eq_div_pow, Nat.shiftRight_eq_div_pow]
  generalize hv : (3 * 2 ^ 32 - c.toNat * r.toNat ^ 2) / 2 ^ 2 = v
  have hvlt : v ≤ 3 * 2 ^ 30 := by omega
  have hmul : v * (r.toNat * 2 ^ 16) = v * r.toNat * 2 ^ 16 := by ring
  have hbound : v * r.toNat ≤ 3 * 2 ^ 30 * 2 ^ 16 := Nat.mul_le_mul hvlt (Nat.le_of_lt hr)
  rw [hmul]
  omega

/-- What `NewtonStep` is to do for one call: nothing wraps, nothing is cut off, and the result is not 0. -/
structure Sound (r : UInt16) (c : UInt32) : Prop where
  nonneg : c.toNat * (invsqrt2 r).toNat ≤ 3 * 2 ^ 32
  fits : (newtonValue r c).toNat < 2 ^ 16
  ne_zero : newtonStep r c ≠ 0

/-- A step that starts at most by the square root of 2 above the root is sound, and comes out at most at the root. -/
theorem newtonStep_sound (hr : 0 < r.toNat) (hc : 0 < c.toNat) (hy : c.toNat * r.toNat ^ 2 ≤ 2 * 2 ^ 32) :
    Sound r c ∧ c.toNat * (newtonStep r c).toNat ^ 2 ≤ 2 ^ 32 ∧ 0 < (newtonStep r c).toNat := by
  have hclt := c.toNat_lt
  have hvalue := newtonValue_toNat (r := r) (c := c) (by omega)
  have hquarter : (3 * (4 * 2 ^ 30) - c.toNat * r.toNat ^ 2) / 4 * 4 ≤ 3 * (4 * 2 ^ 30) - c.toNat * r.toNat ^ 2 :=
    Nat.div_mul_le_self _ _
  have hdown : (newtonValue r c).toNat * 2 ^ 31 ≤ (3 * (4 * 2 ^ 30) - c.toNat * r.toNat ^ 2) / 4 * r.toNat := by
    rw [hvalue]
    exact Nat.div_mul_le_self _ _
  have hstep : 2 * 2 ^ 32 * (newtonValue r c).toNat ≤ (3 * 2 ^ 32 - c.toNat * r.toNat ^ 2) * r.toNat := by
    calc 2 * 2 ^ 32 * (newtonValue r c).toNat = (newtonValue r c).toNat * 2 ^ 31 * 4 := by ring
      _ ≤ (3 * (4 * 2 ^ 30) - c.toNat * r.toNat ^ 2) / 4 * r.toNat * 4 := Nat.mul_le_mul_right 4 hdown
      _ = (3 * (4 * 2 ^ 30) - c.toNat * r.toNat ^ 2) / 4 * 4 * r.toNat := by ring
      _ ≤ (3 * 2 ^ 32 - c.toNat * r.toNat ^ 2) * r.toNat := Nat.mul_le_mul_right _ hquarter
  have hfits : (newtonValue r c).toNat < 2 ^ 16 := newton_lt hc r.toNat_lt hstep
  have hresult : (newtonStep r c).toNat = (newtonValue r c).toNat := by
    rw [newtonStep_eq, UInt64.toNat_toUInt16, Nat.mod_eq_of_lt hfits]
  have hleft : 2 * 2 ^ 30 ≤ (3 * (4 * 2 ^ 30) - c.toNat * r.toNat ^ 2) / 4 * r.toNat := newton_pos hr (by omega) hy
  have hpos : 0 < (newtonStep r c).toNat := by
    rw [hresult, hvalue]
    exact Nat.div_pos hleft (by decide)
  refine ⟨⟨?_, hfits, fun hzero => ?_⟩, ?_, hpos⟩
  · rw [invsqrt2_toNat]
    omega
  · rw [hzero] at hpos
    exact Nat.lt_irrefl 0 hpos
  · rw [hresult]
    exact newton_sq_le (by decide) (by omega) hstep

theorem reciprocalDivide_toNat (interval : UInt32) (r : UInt16) :
    (reciprocalDivide interval (r.toUInt32 <<< 16)).toNat = interval.toNat * r.toNat / 2 ^ 16 := by
  have hr := r.toNat_lt
  have hinterval := interval.toNat_lt
  have hmul : interval.toNat * (r.toNat * 2 ^ 16) = interval.toNat * r.toNat * 2 ^ 16 := by ring
  have hbound : interval.toNat * r.toNat ≤ (2 ^ 32 - 1) * (2 ^ 16 - 1) := Nat.mul_le_mul (by omega) (by omega)
  rw [reciprocalDivide, UInt64.toNat_toUInt32, UInt64.toNat_shiftRight, UInt64.toNat_mul, UInt32.toNat_toUInt64,
    UInt32.toNat_toUInt64, invsqrt_toNat, hmul]
  show (interval.toNat * r.toNat * 2 ^ 16 % 2 ^ 64) >>> 32 % 2 ^ 32 = _
  rw [Nat.shiftRight_eq_div_pow]
  omega

/-- What `ControlLaw` schedules is later, as `CoDelTimeAfter` sees it, unless the clock wraps before. -/
theorem controlLaw_after {t interval : UInt32} (hr : 0 < r.toNat) (hinterval : 2 ^ 16 ≤ interval.toNat) :
    coDelTimeAfter (controlLaw t interval r.toUInt32) t = true ↔ t.toNat + interval.toNat * r.toNat / 2 ^ 16 < 2 ^ 32 := by
  have ht := t.toNat_lt
  have hlt := (reciprocalDivide interval (r.toUInt32 <<< 16)).toNat_lt
  have hpos : 0 < interval.toNat * r.toNat / 2 ^ 16 :=
    Nat.div_pos (Nat.le_trans hinterval (Nat.le_mul_of_pos_right _ hr)) (by decide)
  rw [reciprocalDivide_toNat] at hlt
  rw [coDelTimeAfter, decide_eq_true_eq, controlLaw, UInt32.toNat_add, reciprocalDivide_toNat]
  omega

end Step

/-! ### The calls that are made -/

/-- A call of `NewtonStep` or `ControlLaw`, with its arguments. -/
inductive LawCall where
  | newtonStep (recInvSqrt : UInt16) (count : UInt32)
  | controlLaw (t interval : UInt32) (recInvSqrt : UInt16)
deriving DecidableEq, Repr

/-- The call that `scheduled` makes. -/
def scheduledCall (t : UInt32) (s : CoDel Item) : LawCall := .controlLaw t (time2CoDel s.m_interval) s.m_recInvSqrt

/-- The calls in the body of the loop, behind the first one. -/
def dropOrMarkCalls (now : Time) (item : Item) (d : QueueDisc (CoDel Item) Item) : List LawCall :=
  match d.markIf d.inner.m_useEcn item targetExceededMark with
  | (true, _, d) => [d.inner.scheduledCall (time2CoDel now)]
  | (false, item, d) =>
    match dropAndDequeue now item d with
    | (true, some _, d) => [d.inner.scheduledCall d.inner.m_dropNext]
    | _ => []

/-- The calls of one turn of the loop. -/
def dropTurnCalls (now : Time) : Item × QueueDisc (CoDel Item) Item → List LawCall
  | (item, d) =>
    if d.inner.m_dropping && coDelTimeAfterEq (time2CoDel now) d.inner.m_dropNext then
      .newtonStep d.inner.m_recInvSqrt (d.inner.m_count + 1) :: dropOrMarkCalls now item { d with inner := d.inner.counted }
    else []

/-- The calls of the loop. -/
def loopCalls (now : Time) : Nat → Item × QueueDisc (CoDel Item) Item → List LawCall
  | 0, _ => []
  | n + 1, t =>
    dropTurnCalls now t ++
      match dropTurn now t with
      | .again t => loopCalls now n t
      | .leave _ => []

/-- The calls with which a dropping state starts. -/
def enteredCalls (n : UInt32) (s : CoDel Item) : List LawCall :=
  let s : CoDel Item := { s with m_dropping := true }
  (if s.resumes n then [.newtonStep s.m_recInvSqrt (s.m_count - s.m_lastCount)] else []) ++
    [(s.restarted n).scheduledCall n]

/-- The calls between the first call of `OkToDrop` and the label `end`. -/
def dropIfOkCalls (now : Time) (okToDrop : Bool) (item : Item) (d : QueueDisc (CoDel Item) Item) : List LawCall :=
  if d.inner.m_dropping then
    if okToDrop then loopCalls now (d.inner.queue.m_packets.length + 1) (item, d) else []
  else if okToDrop then enteredCalls (time2CoDel now) (firstDrop now item d).2.2.inner
  else []

/-- The calls that `DoDequeue` makes. -/
def doDequeueCalls (now : Time) (d : QueueDisc (CoDel Item) Item) : List LawCall :=
  match d.dequeueInternal internalQueue with
  | (none, _) => []
  | (some item, d) =>
    if d.inner.m_useL4s && isL4s item then []
    else
      let (ok, s) := d.inner.okToDrop now (some item)
      dropIfOkCalls now ok item { d with inner := s }

/-- A call of a function of the queue disc. -/
inductive Call (Item : Type) where
  | enqueue (now : Time) (item : Item)
  | dequeue (now : Time)
  | peek (now : Time)
  | requeue (item : Item)

def step (d : QueueDisc (CoDel Item) Item) : Call Item → Option (QueueDisc (CoDel Item) Item)
  | .enqueue now item => (coDelQueueDisc.enqueue now item d).map Prod.snd
  | .dequeue now => (coDelQueueDisc.dequeue now d).map Prod.snd
  | .peek now => (coDelQueueDisc.peek now d).map Prod.snd
  | .requeue item => some (d.requeue item)

/-- The calls of the control law that one call leads to. -/
def stepCalls (d : QueueDisc (CoDel Item) Item) : Call Item → List LawCall
  | .dequeue now => if d.m_requeued.isSome then [] else doDequeueCalls now d
  | .peek now => if d.m_requeued.isSome then [] else doDequeueCalls now { d with m_peeked := true }
  | _ => []

/-- The calls of the control law in a run. -/
def runCalls (d : QueueDisc (CoDel Item) Item) : List (Call Item) → List LawCall
  | [] => []
  | call :: calls =>
    stepCalls d call ++
      match step d call with
      | some d => runCalls d calls
      | none => []

namespace LawCall

/-- The count is less than 2^31. -/
def Small : LawCall → Prop
  | newtonStep _ count => count.toNat < 2 ^ 31
  | controlLaw _ _ _ => True

instance : (call : LawCall) → Decidable call.Small
  | newtonStep _ count => inferInstanceAs (Decidable (count.toNat < 2 ^ 31))
  | controlLaw _ _ _ => inferInstanceAs (Decidable True)

/-- No step wraps or comes out as 0, and the reciprocal that the control law gets is not 0. -/
def Regular : LawCall → Prop
  | newtonStep recInvSqrt count => Sound recInvSqrt count
  | controlLaw _ _ recInvSqrt => 0 < recInvSqrt.toNat

/-- Nothing wraps in a step, whose result fits and is not 0, and the next drop is scheduled later, as `CoDelTimeAfter` sees
it, if the interval has 2^16 ticks. -/
def Forward : LawCall → Prop
  | newtonStep recInvSqrt count => Sound recInvSqrt count
  | controlLaw t interval recInvSqrt =>
    2 ^ 16 ≤ interval.toNat → coDelTimeAfter (CoDel.controlLaw t interval recInvSqrt.toUInt32) t = true

/-- The clock does not wrap before the next drop. -/
def Unwrapped : LawCall → Prop
  | newtonStep _ _ => True
  | controlLaw t interval recInvSqrt =>
    2 ^ 16 ≤ interval.toNat → t.toNat + interval.toNat * recInvSqrt.toNat / 2 ^ 16 < 2 ^ 32

theorem Regular.forward_iff {call : LawCall} (h : call.Regular) : call.Forward ↔ call.Unwrapped := by
  cases call with
  | newtonStep recInvSqrt count => exact iff_of_true h trivial
  | controlLaw t interval recInvSqrt => exact forall_congr' fun hinterval => controlLaw_after h hinterval

end LawCall

/-! ### The count and its reciprocal square root -/

/-- `m_recInvSqrt` is at most the reciprocal of the root of `m_count`, and the last count is not above the count. -/
structure Lawful (s : CoDel Item) : Prop where
  pos : 0 < s.m_recInvSqrt.toNat
  root : s.m_count.toNat * s.m_recInvSqrt.toNat ^ 2 ≤ 2 ^ 32
  lastCount : s.m_lastCount.toNat ≤ s.m_count.toNat
  small : s.m_count.toNat < 2 ^ 31

section Runs

variable {s s' : CoDel Item} {d d' : QueueDisc (CoDel Item) Item} {now : Time} {i i' : Item} {n : UInt32}

/-- The other fields do not matter. -/
theorem Lawful.congr (h : Lawful s) (hlaw : (s'.m_count, s'.m_lastCount, s'.m_recInvSqrt) = (s.m_count, s.m_lastCount, s.m_recInvSqrt)) :
    Lawful s' := by
  obtain ⟨hcount, hlaw⟩ := Prod.mk.inj hlaw
  obtain ⟨hlast, hroot⟩ := Prod.mk.inj hlaw
  exact ⟨hroot ▸ h.pos, by rw [hcount, hroot]; exact h.root, by rw [hcount, hlast]; exact h.lastCount,
    hcount ▸ h.small⟩

/-- The count goes up by one. -/
theorem Lawful.counted (h : Lawful s) (hsmall : (s.m_count + 1).toNat < 2 ^ 31) :
    Sound s.m_recInvSqrt (s.m_count + 1) ∧ Lawful s.counted := by
  have hcount : (s.m_count + 1).toNat = s.m_count.toNat + 1 := by
    have hlt := h.small
    rw [UInt32.toNat_add]
    show (s.m_count.toNat + 1) % 2 ^ 32 = _
    omega
  have hsq : s.m_recInvSqrt.toNat ^ 2 < 2 ^ 32 := Nat.pow_lt_pow_left s.m_recInvSqrt.toNat_lt (by decide)
  have hroot := h.root
  have hy : (s.m_count + 1).toNat * s.m_recInvSqrt.toNat ^ 2 ≤ 2 * 2 ^ 32 := by
    rw [hcount, Nat.succ_mul]
    omega
  obtain ⟨hsound, hroot', hpos'⟩ := newtonStep_sound h.pos (by omega) hy
  refine ⟨hsound, hpos', hroot', ?_, hsmall⟩
  have hlast := h.lastCount
  show s.m_lastCount.toNat ≤ (s.m_count + 1).toNat
  omega

/-- The count goes back to what was counted since the last restart, or to 1. -/
theorem Lawful.restarted (h : Lawful s) :
    (s.resumes n = true → Sound s.m_recInvSqrt (s.m_count - s.m_lastCount)) ∧ Lawful (s.restarted n) := by
  have hdelta : (s.m_count - s.m_lastCount).toNat = s.m_count.toNat - s.m_lastCount.toNat :=
    UInt32.toNat_sub_of_le _ _ (UInt32.le_iff_toNat_le.mpr h.lastCount)
  have hsmall := h.small
  have hroot := h.root
  by_cases hresumes : s.resumes n = true
  · have hpos : 0 < (s.m_count - s.m_lastCount).toNat := by
      rw [Nat.pos_iff_ne_zero]
      intro hzero
      have hdelta0 : s.m_count - s.m_lastCount = 0 := UInt32.toNat_inj.mp hzero
      rw [resumes, hdelta0] at hresumes
      exact absurd hresumes (by simp)
    have hy : (s.m_count - s.m_lastCount).toNat * s.m_recInvSqrt.toNat ^ 2 ≤ 2 * 2 ^ 32 := by
      have hle : (s.m_count - s.m_lastCount).toNat * s.m_recInvSqrt.toNat ^ 2 ≤
          s.m_count.toNat * s.m_recInvSqrt.toNat ^ 2 := Nat.mul_le_mul_right _ (by omega)
      omega
    obtain ⟨hsound, hroot', hpos'⟩ := newtonStep_sound h.pos hpos hy
    rw [CoDel.restarted, if_pos hresumes]
    exact ⟨fun _ => hsound, hpos', hroot', Nat.le_refl _, by
      show (s.m_count - s.m_lastCount).toNat < 2 ^ 31
      omega⟩
  · rw [CoDel.restarted, if_neg hresumes]
    exact ⟨fun h => absurd h hresumes, (by decide : 0 < (0xffff : UInt16).toNat),
      (by decide : (1 : UInt32).toNat * (0xffff : UInt16).toNat ^ 2 ≤ 2 ^ 32), Nat.le_refl _,
      (by decide : (1 : UInt32).toNat < 2 ^ 31)⟩

/-- Calls that are regular if their counts are small. -/
def Regulars (calls : List LawCall) : Prop := (∀ call ∈ calls, call.Small) → ∀ call ∈ calls, call.Regular

theorem dropOrMark_lawful (now : Time) (i : Item) (h : Lawful d.inner) :
    (∀ call ∈ dropOrMarkCalls now i d, call.Regular) ∧
      (∀ i' d', dropOrMark now i d = .again (i', d') → Lawful d'.inner) ∧
      ∀ result, dropOrMark now i d = .leave result → Lawful result.2.2.inner := by
  rw [dropOrMarkCalls, dropOrMark]
  cases hmark : d.markIf d.inner.m_useEcn i targetExceededMark with
  | mk marked rest =>
    obtain ⟨i₁, d₁⟩ := rest
    have hinner := (markIf_serves hmark).2
    have h₁ : Lawful d₁.inner := hinner ▸ h
    cases marked with
    | true =>
      refine ⟨?_, (fun _ _ hagain => by cases hagain), ?_⟩
      · intro call hcall
        obtain rfl := List.mem_singleton.mp hcall
        exact h₁.pos
      · rintro result hleave
        obtain rfl := Turn.leave.inj hleave
        exact h₁.congr rfl
    | false =>
      cases hdrop : dropAndDequeue now i₁ d₁ with
      | mk ok rest =>
        obtain ⟨next, d₂⟩ := rest
        have h₂ : Lawful d₂.inner := by
          rw [dropAndDequeue_inner hdrop]
          exact h₁.congr rfl
        have hleft : Lawful ({ d₂.inner with m_dropping := false } : CoDel Item) := h₂.congr rfl
        simp only [hdrop]
        cases ok with
        | false =>
          refine ⟨(fun call hcall => absurd hcall List.not_mem_nil), (fun _ _ hagain => by cases hagain), ?_⟩
          rintro result hleave
          obtain rfl := Turn.leave.inj hleave
          exact hleft
        | true =>
          cases next with
          | none =>
            refine ⟨(fun call hcall => absurd hcall List.not_mem_nil), (fun _ _ hagain => by cases hagain), ?_⟩
            rintro result hleave
            obtain rfl := Turn.leave.inj hleave
            exact hleft
          | some j =>
            refine ⟨?_, ?_, (fun _ hleave => by cases hleave)⟩
            · intro call hcall
              obtain rfl := List.mem_singleton.mp hcall
              exact h₂.pos
            · intro i' d' hagain
              obtain ⟨rfl, rfl⟩ := Prod.mk.inj (Turn.again.inj hagain)
              exact h₂.congr rfl

theorem dropTurn_lawful (now : Time) (i : Item) (h : Lawful d.inner) (hsmall : ∀ call ∈ dropTurnCalls now (i, d), call.Small) :
    (∀ call ∈ dropTurnCalls now (i, d), call.Regular) ∧
      (∀ i' d', dropTurn now (i, d) = .again (i', d') → Lawful d'.inner) ∧
      ∀ result, dropTurn now (i, d) = .leave result → Lawful result.2.2.inner := by
  by_cases hdue : (d.inner.m_dropping && coDelTimeAfterEq (time2CoDel now) d.inner.m_dropNext) = true
  · have hcalls : dropTurnCalls now (i, d) = .newtonStep d.inner.m_recInvSqrt (d.inner.m_count + 1) ::
        dropOrMarkCalls now i { d with inner := d.inner.counted } := if_pos hdue
    have hturn : dropTurn now (i, d) = dropOrMark now i { d with inner := d.inner.counted } := if_pos hdue
    rw [hcalls] at hsmall ⊢
    rw [hturn]
    obtain ⟨hsound, hcounted⟩ := h.counted (hsmall _ List.mem_cons_self)
    obtain ⟨hrest, hresult⟩ := dropOrMark_lawful now i (d := { d with inner := d.inner.counted }) hcounted
    exact ⟨List.forall_mem_cons.mpr ⟨hsound, hrest⟩, hresult⟩
  · have hcalls : dropTurnCalls now (i, d) = [] := if_neg hdue
    have hturn : dropTurn now (i, d) = .leave (false, some i, d) := if_neg hdue
    rw [hcalls, hturn]
    refine ⟨(fun call hcall => absurd hcall List.not_mem_nil), (fun _ _ hagain => by cases hagain), ?_⟩
    rintro result hleave
    obtain rfl := Turn.leave.inj hleave
    exact h

theorem loop_lawful {k : Nat} {t : Item × QueueDisc (CoDel Item) Item} (h : Lawful t.2.inner)
    (hsmall : ∀ call ∈ loopCalls now k t, call.Small) :
    (∀ call ∈ loopCalls now k t, call.Regular) ∧
      ∀ result, turns (dropTurn now) k t = some result → Lawful result.2.2.inner := by
  induction k generalizing t with
  | zero => exact ⟨(fun call hcall => absurd hcall List.not_mem_nil), fun _ hturns => nomatch hturns⟩
  | succ k ih =>
    obtain ⟨i, d⟩ := t
    rw [loopCalls] at hsmall ⊢
    obtain ⟨hcalls, hagain, hleave⟩ := dropTurn_lawful now i h fun call hcall =>
      hsmall call (List.mem_append_left _ hcall)
    rw [turns]
    cases hturn : dropTurn now (i, d) with
    | leave result =>
      refine ⟨?_, fun result' hresult => ?_⟩
      · rw [List.append_nil]
        exact hcalls
      · obtain rfl := Option.some.inj hresult
        exact hleave result hturn
    | again t' =>
      rw [hturn] at hsmall
      obtain ⟨hrest, hresult⟩ := ih (hagain t'.1 t'.2 hturn) fun call hcall => hsmall call (List.mem_append_right _ hcall)
      refine ⟨fun call hcall => ?_, hresult⟩
      cases List.mem_append.mp hcall with
      | inl hin => exact hcalls call hin
      | inr hin => exact hrest call hin

/-- The calls that start a dropping state. -/
theorem entered_lawful (h : Lawful s) : (∀ call ∈ enteredCalls n s, call.Regular) ∧ Lawful (s.entered n) := by
  have hdropping : Lawful ({ s with m_dropping := true } : CoDel Item) := h.congr rfl
  obtain ⟨hsound, hrestarted⟩ := hdropping.restarted (n := n)
  refine ⟨fun call hcall => ?_, hrestarted.congr rfl⟩
  rw [enteredCalls] at hcall
  cases List.mem_append.mp hcall with
  | inl hin =>
    split at hin
    · next hresumes =>
      obtain rfl := List.mem_singleton.mp hin
      exact hsound hresumes
    · cases hin
  | inr hin =>
    obtain rfl := List.mem_singleton.mp hin
    exact hrestarted.pos

theorem dropIfOk_lawful {ok : Bool} (h : Lawful d.inner) (hsmall : ∀ call ∈ dropIfOkCalls now ok i d, call.Small) :
    (∀ call ∈ dropIfOkCalls now ok i d, call.Regular) ∧
      ∀ result, dropIfOk now ok i d = some result → Lawful result.2.2.inner := by
  have hleft : Lawful ({ d.inner with m_dropping := false } : CoDel Item) := h.congr rfl
  rw [dropIfOkCalls] at hsmall ⊢
  rw [dropIfOk]
  by_cases hdropping : d.inner.m_dropping = true
  · rw [if_pos hdropping] at hsmall ⊢
    rw [if_pos hdropping]
    cases ok with
    | true => exact loop_lawful h hsmall
    | false =>
      refine ⟨(fun call hcall => absurd hcall List.not_mem_nil), fun result hresult => ?_⟩
      obtain rfl := Option.some.inj hresult
      exact hleft
  · rw [if_neg hdropping] at hsmall ⊢
    rw [if_neg hdropping]
    cases ok with
    | true =>
      have hfirst : Lawful (firstDrop now i d).2.2.inner := by
        cases hdrop : firstDrop now i d with
        | mk marked rest =>
          show Lawful rest.2.inner
          rw [firstDrop_inner hdrop]
          exact h.congr rfl
      obtain ⟨hcalls, hentered⟩ := entered_lawful (n := time2CoDel now) hfirst
      refine ⟨hcalls, fun result hresult => ?_⟩
      obtain rfl := Option.some.inj hresult
      exact hentered
    | false =>
      refine ⟨(fun call hcall => absurd hcall List.not_mem_nil), fun result hresult => ?_⟩
      obtain rfl := Option.some.inj hresult
      exact h

/-- What is done behind the label `end` leaves the law alone. -/
theorem markIf_lawful {called marked : Bool} {reason : String} (h : Lawful d.inner)
    (hmark : d.markIf called i reason = (marked, i', d')) : Lawful d'.inner := (markIf_serves hmark).2 ▸ h

theorem finish_lawful {result : Bool × Option Item × QueueDisc (CoDel Item) Item} (h : Lawful result.2.2.inner)
    {next : Option Item} (hfinish : finish now result = some (next, d')) : Lawful d'.inner := by
  obtain ⟨marked, item, d⟩ := result
  cases item with
  | none => cases hfinish
  | some i =>
    obtain ⟨-, rfl⟩ := Prod.mk.inj (Option.some.inj hfinish)
    exact markIf_lawful h rfl

theorem doDequeue_lawful (h : Lawful d.inner) (hsmall : ∀ call ∈ doDequeueCalls now d, call.Small) :
    (∀ call ∈ doDequeueCalls now d, call.Regular) ∧
      ∀ result, doDequeue now d = some result → Lawful result.2.inner := by
  rw [doDequeueCalls] at hsmall ⊢
  rw [doDequeue]
  cases hpop : d.dequeueInternal internalQueue with
  | mk popped d₁ =>
    rw [hpop] at hsmall
    cases popped with
    | none =>
      refine ⟨(fun call hcall => absurd hcall List.not_mem_nil), fun result hresult => ?_⟩
      obtain rfl := Option.some.inj hresult
      rw [(dequeueInternal_eq_none hpop).1]
      exact h.congr rfl
    | some i =>
      obtain ⟨q, hq, hinner⟩ := dequeueInternal_eq_some hpop
      have h₁ : Lawful d₁.inner := by
        rw [hinner]
        exact h.congr rfl
      simp only at hsmall ⊢
      by_cases hl4s : (d₁.inner.m_useL4s && isL4s i) = true
      · rw [if_pos hl4s, if_pos hl4s]
        refine ⟨(fun call hcall => absurd hcall List.not_mem_nil), fun result hresult => ?_⟩
        obtain rfl := Option.some.inj hresult
        exact markIf_lawful h₁ rfl
      · rw [if_neg hl4s] at hsmall ⊢
        rw [if_neg hl4s]
        have h₂ : Lawful (okToDrop now (some i) d₁.inner).2 := by
          rw [okToDrop_inner]
          exact h₁.congr rfl
        obtain ⟨hcalls, hresults⟩ := dropIfOk_lawful (d := { d₁ with inner := (okToDrop now (some i) d₁.inner).2 }) h₂ hsmall
        refine ⟨hcalls, fun result hresult => ?_⟩
        obtain ⟨left, hcontrol, hfinish⟩ := Option.bind_eq_some_iff.mp hresult
        exact finish_lawful (hresults left hcontrol) hfinish

theorem doEnqueue_lawful {stored : Bool} (h : Lawful d.inner)
    (henqueue : coDelQueueDisc.doEnqueue now i d = some (stored, d')) : Lawful d'.inner := by
  have henqueue := Option.some.inj henqueue
  split at henqueue
  · obtain ⟨-, rfl⟩ := Prod.mk.inj henqueue
    exact h
  · rw [enqueueInternal] at henqueue
    split at henqueue
    · obtain ⟨-, rfl⟩ := Prod.mk.inj henqueue
      exact h.congr rfl
    · obtain ⟨-, rfl⟩ := Prod.mk.inj henqueue
      exact h

/-- Taking the packet out of the slot leaves the law alone. -/
theorem release_inner (d : QueueDisc (CoDel Item) Item) (i : Item) : (d.release i).inner = d.inner := by
  rw [QueueDisc.release]
  split
  · exact packetDequeued_inner _ _
  · rfl

theorem dequeue_lawful (h : Lawful d.inner)
    (hsmall : ∀ call ∈ (if d.m_requeued.isSome then [] else doDequeueCalls now d), call.Small) :
    (∀ call ∈ (if d.m_requeued.isSome then [] else doDequeueCalls now d), call.Regular) ∧
      ∀ result, coDelQueueDisc.dequeue now d = some result → Lawful result.2.inner := by
  rw [Methods.dequeue]
  cases hslot : d.m_requeued with
  | none =>
    rw [hslot] at hsmall
    exact doDequeue_lawful h hsmall
  | some item =>
    refine ⟨(fun call hcall => absurd hcall List.not_mem_nil), fun result hresult => ?_⟩
    obtain rfl := Option.some.inj hresult
    show Lawful (d.release item).inner
    rw [release_inner]
    exact h

theorem step_lawful {call : Call Item} (h : Lawful d.inner) (hsmall : ∀ call' ∈ stepCalls d call, call'.Small) :
    (∀ call' ∈ stepCalls d call, call'.Regular) ∧ ∀ d', step d call = some d' → Lawful d'.inner := by
  cases call with
  | enqueue now item =>
    refine ⟨(fun call hcall => absurd hcall List.not_mem_nil), fun d' hstep => ?_⟩
    have hstep : (coDelQueueDisc.enqueue now item d).map Prod.snd = some d' := hstep
    obtain ⟨⟨stored, d₁⟩, henqueue, rfl⟩ := Option.map_eq_some_iff.mp hstep
    have hcounted : Lawful (d.countReceived item).inner := h
    exact doEnqueue_lawful hcounted henqueue
  | dequeue now =>
    obtain ⟨hcalls, hresults⟩ := dequeue_lawful h hsmall
    refine ⟨hcalls, fun d' hstep => ?_⟩
    have hstep : (coDelQueueDisc.dequeue now d).map Prod.snd = some d' := hstep
    obtain ⟨result, hdequeue, rfl⟩ := Option.map_eq_some_iff.mp hstep
    exact hresults result hdequeue
  | peek now =>
    have hpeeked : Lawful ({ d with m_peeked := true } : QueueDisc (CoDel Item) Item).inner := h
    obtain ⟨hcalls, hresults⟩ := dequeue_lawful hpeeked hsmall
    refine ⟨hcalls, fun d' hstep => ?_⟩
    have hstep : (coDelQueueDisc.peek now d).map Prod.snd = some d' := hstep
    obtain ⟨result, hpeek, rfl⟩ := Option.map_eq_some_iff.mp hstep
    rw [Methods.peek] at hpeek
    split at hpeek
    · next hnone => cases hnone
    · split at hpeek
      · obtain rfl := Option.some.inj hpeek
        exact h
      · obtain ⟨⟨item, d₁⟩, hdequeue, hparked⟩ := Option.bind_eq_some_iff.mp hpeek
        obtain rfl := Option.some.inj hparked
        exact (hresults _ hdequeue : Lawful d₁.inner)
  | requeue item =>
    refine ⟨(fun call hcall => absurd hcall List.not_mem_nil), fun d' hstep => ?_⟩
    obtain rfl := Option.some.inj hstep
    exact h

theorem run_lawful (h : Lawful d.inner) {calls : List (Call Item)} (hsmall : ∀ call ∈ runCalls d calls, call.Small) :
    ∀ call ∈ runCalls d calls, call.Regular := by
  induction calls generalizing d with
  | nil => exact fun call hcall => nomatch hcall
  | cons call calls ih =>
    rw [runCalls] at hsmall ⊢
    obtain ⟨hcalls, hsteps⟩ := step_lawful h fun call' hcall' => hsmall call' (List.mem_append_left _ hcall')
    intro call' hcall'
    cases List.mem_append.mp hcall' with
    | inl hin => exact hcalls call' hin
    | inr hin =>
      cases hstep : step d call with
      | none =>
        rw [hstep] at hin
        cases hin
      | some d₁ =>
        rw [hstep] at hin hsmall
        exact ih (hsteps d₁ hstep) (fun call'' hcall'' => hsmall call'' (List.mem_append_right _ hcall'')) call' hin

theorem configured_lawful (m_useEcn m_useL4s : Bool) (m_minBytes : UInt32) (m_interval m_target m_ceThreshold : Time)
    (maxSize : QueueSize) :
    Lawful (configured m_useEcn m_useL4s m_minBytes m_interval m_target m_ceThreshold maxSize :
      Session (CoDel Item) Item).disc.inner :=
  ⟨(by decide : 0 < (0xffff : UInt16).toNat), (by decide : (0 : UInt32).toNat * (0xffff : UInt16).toNat ^ 2 ≤ 2 ^ 32),
    Nat.le_refl _, (by decide : (0 : UInt32).toNat < 2 ^ 31)⟩

end Runs

/-- In every run with counts below 2^31, no Newton step wraps, is cut off or comes out as 0, and the drops are scheduled
later exactly when the clock does not wrap before. -/
theorem law_forward (m_useEcn m_useL4s : Bool) (m_minBytes : UInt32) (m_interval m_target m_ceThreshold : Time)
    (maxSize : QueueSize) (calls : List (Call Item))
    (hsmall : ∀ call ∈ runCalls
      (configured m_useEcn m_useL4s m_minBytes m_interval m_target m_ceThreshold maxSize).disc calls, call.Small) :
    (∀ call ∈ runCalls (configured m_useEcn m_useL4s m_minBytes m_interval m_target m_ceThreshold maxSize).disc calls,
      call.Forward) ↔
    ∀ call ∈ runCalls (configured m_useEcn m_useL4s m_minBytes m_interval m_target m_ceThreshold maxSize).disc calls,
      call.Unwrapped := by
  have hregular := run_lawful (configured_lawful m_useEcn m_useL4s m_minBytes m_interval m_target m_ceThreshold maxSize)
    hsmall
  exact forall₂_congr fun call hcall => (hregular call hcall).forward_iff

/-- Three packets, of which the second is dropped. -/
def secondDropped (first second : Time) : List (Call Internet.Ipv4QueueDiscItem) :=
  [.enqueue 0 (numbered 1), .enqueue 0 (numbered 2), .enqueue 0 (numbered 3), .dequeue first, .dequeue second]

theorem law_forward_three :
    (∀ call ∈ runCalls oneByte.disc (secondDropped 10000000 200000000), call.Forward) ↔
      ∀ call ∈ runCalls oneByte.disc (secondDropped 10000000 200000000), call.Unwrapped :=
  law_forward false false 1 100000000 5000000 (2 ^ 63 - 1) ⟨.packets, 10⟩ (secondDropped 10000000 200000000)
    (by decide +kernel)

/-- Scheduled 50 ms before the clock wraps, the next drop is in the past. -/
theorem not_law_forward_wrap :
    ¬ ∀ calls : List (Call Internet.Ipv4QueueDiscItem), (∀ call ∈ runCalls oneByte.disc calls, call.Small) →
      ∀ call ∈ runCalls oneByte.disc calls, call.Forward := by
  intro hall
  have hcall : LawCall.controlLaw 4294918467 97656 0xffff ∈
      runCalls oneByte.disc (secondDropped 4397746511104 4397996511104) := by decide +kernel
  have hlater := hall (secondDropped 4397746511104 4397996511104) (by decide +kernel) _ hcall
  exact absurd (hlater (by decide)) (by decide)

end CoDel

end Ns3.TrafficControl
