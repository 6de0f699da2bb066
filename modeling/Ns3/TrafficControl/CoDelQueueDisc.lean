import Ns3.Lib.Loop
import Ns3.TrafficControl.Fifo

/-!
# The CoDel queue disc

`src/traffic-control/model/codel-queue-disc.cc`. The control law works on a clock of 32 bits, which counts
in units of 1024 ns: a packet is dropped or marked once the sojourn time has been above the target for an
interval, and again at deadlines that come closer with the number of drops. The deadlines are readings of
the clock, and `m_firstAboveTime` has no deadline if it is 0.
-/

namespace Ns3.TrafficControl

open Ns3.Lib Ns3.Network QueueDiscItem QueueDisc

variable {σ Item : Type} [QueueDiscItem Item]

/-- A call of `Mark`, if it comes to that; whether it has marked the item, and the item. -/
def QueueDisc.markIf (d : QueueDisc σ Item) (called : Bool) (item : Item) (reason : String) :
    Bool × Item × QueueDisc σ Item :=
  match if called then d.markItem item reason else none with
  | some (item, d) => (true, item, d)
  | none => (false, item, d)

/-- The fields of a `CoDelQueueDisc`. -/
structure CoDel (Item : Type) [QueueDiscItem Item] where
  m_useEcn : Bool := false
  m_useL4s : Bool := false
  m_minBytes : UInt32 := 1500
  m_interval : Time := 100000000
  m_target : Time := 5000000
  m_ceThreshold : Time := 2 ^ 63 - 1
  m_count : UInt32 := 0
  m_lastCount : UInt32 := 0
  m_dropping : Bool := false
  m_recInvSqrt : UInt16 := 0xffff
  m_firstAboveTime : UInt32 := 0
  m_dropNext : UInt32 := 0
  queue : Queue Item

namespace CoDel

def targetExceededDrop : String := "Target exceeded drop"

def overlimitDrop : String := "Overlimit drop"

def targetExceededMark : String := "Target exceeded mark"

def ceThresholdExceededMark : String := "CE threshold exceeded mark"

/-- `Time2CoDel`, and `CoDelGetTime` for the current time. -/
def time2CoDel (t : Time) : UInt32 := .ofInt (t >>> 10)

/-- `CoDelTimeAfter`: the readings are compared as 64-bit numbers. -/
def coDelTimeAfter (a b : UInt32) : Bool := 0 < (a.toNat : Int) - b.toNat

def coDelTimeAfterEq (a b : UInt32) : Bool := 0 ≤ (a.toNat : Int) - b.toNat

def coDelTimeBefore (a b : UInt32) : Bool := (a.toNat : Int) - b.toNat < 0

def newtonStep (recInvSqrt : UInt16) (count : UInt32) : UInt16 :=
  let invsqrt : UInt32 := recInvSqrt.toUInt32 <<< 16
  let invsqrt2 : UInt32 := ((invsqrt.toUInt64 * invsqrt.toUInt64) >>> 32).toUInt32
  let val : UInt64 := ((3 : UInt64) <<< 32) - count.toUInt64 * invsqrt2.toUInt64
  let val := val >>> 2
  let val := (val * invsqrt.toUInt64) >>> (32 - 2 + 1)
  (val >>> 16).toUInt16

def reciprocalDivide (A R : UInt32) : UInt32 := ((A.toUInt64 * R.toUInt64) >>> 32).toUInt32

def controlLaw (t interval recInvSqrt : UInt32) : UInt32 :=
  t + reciprocalDivide interval (recInvSqrt <<< 16)

def internalQueue : InternalQueue (CoDel Item) Item := ⟨queue, fun q s => { s with queue := q }, fun _ _ => rfl⟩

def sojournTime (now : Time) (item : Item) : UInt32 := time2CoDel (now - getTimeStamp item)

/-- Whether the packet ends the time above the target. -/
def below (now : Time) (item : Item) (s : CoDel Item) : Bool :=
  coDelTimeBefore (sojournTime now item) (time2CoDel s.m_target) || s.queue.m_nBytes < s.m_minBytes

/-- `OkToDrop`. -/
def okToDrop (now : Time) (item : Option Item) (s : CoDel Item) : Bool × CoDel Item :=
  match item with
  | none => (false, { s with m_firstAboveTime := 0 })
  | some item =>
    if below now item s then (false, { s with m_firstAboveTime := 0 })
    else if s.m_firstAboveTime = 0 then
      (false, { s with m_firstAboveTime := time2CoDel now + time2CoDel s.m_interval })
    else (coDelTimeAfter (time2CoDel now) s.m_firstAboveTime, s)

/-- One more drop or mark. -/
def counted (s : CoDel Item) : CoDel Item :=
  { s with m_count := s.m_count + 1, m_recInvSqrt := newtonStep s.m_recInvSqrt (s.m_count + 1) }

/-- The next drop is scheduled an interval of the control law after `t`. -/
def scheduled (t : UInt32) (s : CoDel Item) : CoDel Item :=
  { s with m_dropNext := controlLaw t (time2CoDel s.m_interval) s.m_recInvSqrt.toUInt32 }

/-- The packet is dropped, and `OkToDrop` looks at the next one. -/
def dropAndDequeue (now : Time) (item : Item) (d : QueueDisc (CoDel Item) Item) :
    Bool × Option Item × QueueDisc (CoDel Item) Item :=
  let (next, d) := (d.dropAfterDequeue item targetExceededDrop).dequeueInternal internalQueue
  let (ok, s) := d.inner.okToDrop now next
  (ok, next, { d with inner := s })

/-- The body of the loop in the dropping state, which leaves it with whether the packet was marked, and the
packet. -/
def dropOrMark (now : Time) (item : Item) (d : QueueDisc (CoDel Item) Item) :
    Turn (Item × QueueDisc (CoDel Item) Item) (Bool × Option Item × QueueDisc (CoDel Item) Item) :=
  match d.markIf d.inner.m_useEcn item targetExceededMark with
  | (true, item, d) => .leave (true, some item, { d with inner := d.inner.scheduled (time2CoDel now) })
  | (false, item, d) =>
    match dropAndDequeue now item d with
    | (true, some next, d) => .again (next, { d with inner := d.inner.scheduled d.inner.m_dropNext })
    | (_, next, d) => .leave (false, next, { d with inner := { d.inner with m_dropping := false } })

/-- One turn of the loop. -/
def dropTurn (now : Time) : Item × QueueDisc (CoDel Item) Item →
    Turn (Item × QueueDisc (CoDel Item) Item) (Bool × Option Item × QueueDisc (CoDel Item) Item)
  | (item, d) =>
    if d.inner.m_dropping && coDelTimeAfterEq (time2CoDel now) d.inner.m_dropNext then
      dropOrMark now item { d with inner := d.inner.counted }
    else .leave (false, some item, d)

/-- The first packet of a dropping state is marked or dropped. -/
def firstDrop (now : Time) (item : Item) (d : QueueDisc (CoDel Item) Item) :
    Bool × Option Item × QueueDisc (CoDel Item) Item :=
  match d.markIf d.inner.m_useEcn item targetExceededMark with
  | (true, item, d) => (true, some item, d)
  | (false, item, d) => (false, (dropAndDequeue now item d).2)

/-- Whether the drop rate of the last dropping state is a good one to start with. -/
def resumes (n : UInt32) (s : CoDel Item) : Bool :=
  1 < (s.m_count - s.m_lastCount).toInt32 &&
    coDelTimeBefore (n - s.m_dropNext) (16 * time2CoDel s.m_interval)

/-- The count and the rate with which a dropping state starts. -/
def restarted (n : UInt32) (s : CoDel Item) : CoDel Item :=
  let delta := s.m_count - s.m_lastCount
  if s.resumes n then
    { s with m_count := delta, m_recInvSqrt := newtonStep s.m_recInvSqrt delta, m_lastCount := delta }
  else { s with m_count := 1, m_recInvSqrt := 0xffff, m_lastCount := 1 }

/-- The dropping state is entered when the clock reads `n`. -/
def entered (n : UInt32) (s : CoDel Item) : CoDel Item :=
  ({ s with m_dropping := true } : CoDel Item).restarted n |>.scheduled n

def enterDropping (now : Time) (item : Item) (d : QueueDisc (CoDel Item) Item) :
    Bool × Option Item × QueueDisc (CoDel Item) Item :=
  let (isMarked, item, d) := firstDrop now item d
  (isMarked, item, { d with inner := d.inner.entered (time2CoDel now) })

/-- What follows the label `end`, which is without a result if there is no packet. -/
def finish (now : Time) : Bool × Option Item × QueueDisc (CoDel Item) Item →
    Option (Option Item × QueueDisc (CoDel Item) Item)
  | (_, none, _) => none
  | (isMarked, some item, d) =>
    let called := !isMarked && !d.inner.m_useL4s && d.inner.m_useEcn &&
      coDelTimeAfter (sojournTime now item) (time2CoDel d.inner.m_ceThreshold)
    let (_, item, d) := d.markIf called item ceThresholdExceededMark
    some (some item, d)

/-- Whether the DS field says ECT(1) or CE. -/
def isL4s (item : Item) : Bool :=
  match getDsField item with
  | some tosByte => tosByte &&& 0x3 = 1 || tosByte &&& 0x3 = 3
  | none => false

/-- What follows the first call of `OkToDrop`, up to the label `end`: whether the packet was marked, and the
packet. -/
def dropIfOk (now : Time) (okToDrop : Bool) (item : Item) (d : QueueDisc (CoDel Item) Item) :
    Option (Bool × Option Item × QueueDisc (CoDel Item) Item) :=
  if d.inner.m_dropping then
    if okToDrop then turns (dropTurn now) (d.inner.queue.m_packets.length + 1) (item, d)
    else some (false, some item, { d with inner := { d.inner with m_dropping := false } })
  else if okToDrop then some (enterDropping now item d)
  else some (false, some item, d)

/-- The control law for the packet popped. -/
def control (now : Time) (item : Item) (d : QueueDisc (CoDel Item) Item) :
    Option (Bool × Option Item × QueueDisc (CoDel Item) Item) :=
  let (ok, s) := d.inner.okToDrop now (some item)
  dropIfOk now ok item { d with inner := s }

/-- `DoDequeue`. -/
def doDequeue (now : Time) (d : QueueDisc (CoDel Item) Item) :
    Option (Option Item × QueueDisc (CoDel Item) Item) :=
  match d.dequeueInternal internalQueue with
  | (none, d) => some (none, { d with inner := { d.inner with m_dropping := false } })
  | (some item, d) =>
    if d.inner.m_useL4s && isL4s item then
      let called := coDelTimeAfter (sojournTime now item) (time2CoDel d.inner.m_ceThreshold)
      let (_, item, d) := d.markIf called item ceThresholdExceededMark
      some (some item, d)
    else (control now item d).bind (finish now)

/-- `CoDelQueueDisc`. -/
def coDelQueueDisc : Methods (CoDel Item) Item where
  doEnqueue _ item d :=
    some (if d.overLimit internalQueue item then (false, d.dropBeforeEnqueue item overlimitDrop)
      else d.enqueueInternal internalQueue item)
  doDequeue := doDequeue

/-- The item after any number of marks. -/
abbrev Marked : Item → Item → Prop := Relation.ReflTransGen fun i i' => mark i = some i'

section Acts

variable {now : Time} {d d' : QueueDisc (CoDel Item) Item} {i i' : Item} {next : Option Item} {s : CoDel Item}

/-- What a part of `DoDequeue` does with the packet in hand: it is kept, or dropped with those behind it
until one is kept. -/
structure Serves (item : Item) (d : QueueDisc (CoDel Item) Item) (next : Option Item)
    (d' : QueueDisc (CoDel Item) Item) : Prop where
  acts : Acts internalQueue.packets (⟨0, {item}⟩, d) (⟨0, single next⟩, d')
  order : ∀ i', next = some i' → ∃ dropped i, Marked i i' ∧
    item :: d.inner.queue.m_packets = dropped ++ i :: d'.inner.queue.m_packets
  minBytes : d'.inner.m_minBytes = d.inner.m_minBytes
  maxSize : d'.inner.queue.m_maxSize = d.inner.queue.m_maxSize

theorem Serves.kept (hacts : Acts internalQueue.packets (⟨0, {i}⟩, d) (⟨0, {i'}⟩, d'))
    (hmarked : Marked i i') (hqueue : d'.inner.queue = d.inner.queue)
    (hmin : d'.inner.m_minBytes = d.inner.m_minBytes) : Serves i d (some i') d' where
  acts := hacts
  order j hj := ⟨[], i, Option.some.inj hj ▸ hmarked, by rw [hqueue]; rfl⟩
  minBytes := hmin
  maxSize := by rw [hqueue]

theorem markIf_serves {called marked : Bool} {reason : String} (h : d.markIf called i reason = (marked, i', d')) :
    Serves i d (some i') d' ∧ d'.inner = d.inner := by
  rw [markIf] at h
  split at h
  · next hmark =>
    obtain ⟨-, h⟩ := Prod.mk.inj h
    obtain ⟨rfl, rfl⟩ := Prod.mk.inj h
    have hmark := (Option.ite_none_right_eq_some.mp hmark).2
    have hinner := (markItem_spec hmark).2.2.1
    exact ⟨.kept (.single (.markOut reason hmark)) (.single (mark_of_markItem hmark)) (by rw [hinner])
      (by rw [hinner]), hinner⟩
  · obtain ⟨-, h⟩ := Prod.mk.inj h
    obtain ⟨rfl, rfl⟩ := Prod.mk.inj h
    exact ⟨.kept .refl .refl rfl rfl, rfl⟩

/-- One part after another. -/
theorem Serves.trans {d'' : QueueDisc (CoDel Item) Item} (h : Serves i d (some i') d')
    (h' : Serves i' d' next d'') : Serves i d next d'' where
  acts := h.acts.trans h'.acts
  order j hj := by
    obtain ⟨dropped, k, hmarked, hpackets⟩ := h.order i' rfl
    obtain ⟨dropped', k', hmarked', hpackets'⟩ := h'.order j hj
    cases dropped' with
    | nil =>
      obtain ⟨rfl, hrest⟩ := List.cons.inj hpackets'
      exact ⟨dropped, k, hmarked.trans hmarked', by rw [hpackets, hrest]⟩
    | cons first dropped' =>
      rw [List.cons_append] at hpackets'
      obtain ⟨-, hrest⟩ := List.cons.inj hpackets'
      refine ⟨dropped ++ k :: dropped', k', hmarked', ?_⟩
      rw [hpackets, hrest, List.append_assoc, List.cons_append]
  minBytes := h'.minBytes.trans h.minBytes
  maxSize := h'.maxSize.trans h.maxSize

/-- The other fields change, but not the queue. -/
theorem Serves.setInner (h : Serves i d next d') (hqueue : s.queue = d'.inner.queue)
    (hmin : s.m_minBytes = d'.inner.m_minBytes) : Serves i d next { d' with inner := s } where
  acts := h.acts.trans (.single (.internal s (congrArg (fun q => (q.m_packets : Multiset Item)) hqueue)))
  order j hj := by
    show ∃ dropped i, _ ∧ _ = dropped ++ i :: s.queue.m_packets
    rw [hqueue]
    exact h.order j hj
  minBytes := hmin.trans h.minBytes
  maxSize := (congrArg Queue.m_maxSize hqueue).trans h.maxSize

theorem okToDrop_queue (now : Time) (item : Option Item) (s : CoDel Item) :
    (okToDrop now item s).2.queue = s.queue ∧ (okToDrop now item s).2.m_minBytes = s.m_minBytes ∧
      (okToDrop now item s).2.m_dropping = s.m_dropping := by
  cases item with
  | none => exact ⟨rfl, rfl, rfl⟩
  | some item =>
    rw [okToDrop]
    split
    · exact ⟨rfl, rfl, rfl⟩
    · split <;> exact ⟨rfl, rfl, rfl⟩

theorem okToDrop_inner (now : Time) (item : Option Item) (s : CoDel Item) :
    (okToDrop now item s).2 = { s with m_firstAboveTime := (okToDrop now item s).2.m_firstAboveTime } := by
  cases item with
  | none => rfl
  | some item =>
    rw [okToDrop]
    split
    · rfl
    · split <;> rfl

/-- A packet may be dropped only if there are bytes behind it. -/
theorem okToDrop_bytes {item : Option Item} (h : (okToDrop now item s).1 = true) :
    item.isSome ∧ s.m_minBytes ≤ s.queue.m_nBytes := by
  cases item with
  | none => cases h
  | some item =>
    refine ⟨rfl, ?_⟩
    rw [okToDrop] at h
    split at h
    · cases h
    · next hbelow =>
      rw [below, Bool.or_eq_true, not_or, decide_eq_true_eq] at hbelow
      exact UInt32.not_lt.mp hbelow.2

variable {ok : Bool}

theorem dropAndDequeue_eq {d₁ : QueueDisc (CoDel Item) Item} {t : CoDel Item}
    (hdeq : (d.dropAfterDequeue i targetExceededDrop).dequeueInternal internalQueue = (next, d₁))
    (hok : okToDrop now next d₁.inner = (ok, t)) :
    dropAndDequeue now i d = (ok, next, { d₁ with inner := t }) := by
  simp only [dropAndDequeue, hdeq, hok]

theorem dropAndDequeue_inner (h : dropAndDequeue now i d = (ok, next, d')) :
    d'.inner = { d.inner with queue := d'.inner.queue, m_firstAboveTime := d'.inner.m_firstAboveTime } := by
  cases hdeq : (d.dropAfterDequeue i targetExceededDrop).dequeueInternal internalQueue with
  | mk item d₁ =>
    have hpopped : d₁.inner = { d.inner with queue := d₁.inner.queue } := by
      cases item with
      | none => rw [(dequeueInternal_eq_none hdeq).1, dropAfterDequeue_inner]
      | some j =>
        obtain ⟨q, -, hinner⟩ := dequeueInternal_eq_some hdeq
        rw [hinner, dropAfterDequeue_inner]
        rfl
    have hlaw := okToDrop_inner now item d₁.inner
    cases hok : okToDrop now item d₁.inner with
    | mk ok₁ t =>
      rw [hok] at hlaw
      have ht : t = { d₁.inner with m_firstAboveTime := t.m_firstAboveTime } := hlaw
      cases (dropAndDequeue_eq hdeq hok).symm.trans h
      show t = { d.inner with queue := t.queue, m_firstAboveTime := t.m_firstAboveTime }
      rw [ht, hpopped]

theorem dropAndDequeue_packets (h : dropAndDequeue now i d = (ok, some i', d')) :
    d.inner.queue.m_packets = i' :: d'.inner.queue.m_packets := by
  rw [dropAndDequeue] at h
  cases hdeq : (d.dropAfterDequeue i targetExceededDrop).dequeueInternal internalQueue with
  | mk item d₁ =>
    rw [hdeq] at h
    obtain ⟨-, h⟩ := Prod.mk.inj h
    obtain ⟨rfl, rfl⟩ := Prod.mk.inj h
    obtain ⟨q, hq, hinner⟩ := dequeueInternal_eq_some hdeq
    rw [dropAfterDequeue_inner] at hq
    show _ = i' :: (okToDrop now (some i') d₁.inner).2.queue.m_packets
    rw [(okToDrop_queue now _ d₁.inner).1, hinner]
    exact (Queue.dequeue_eq_some hq).1

theorem dropAndDequeue_serves (h : dropAndDequeue now i d = (ok, next, d')) : Serves i d next d' := by
  rw [dropAndDequeue] at h
  cases hdeq : (d.dropAfterDequeue i targetExceededDrop).dequeueInternal internalQueue with
  | mk item d₁ =>
    rw [hdeq] at h
    obtain ⟨-, h⟩ := Prod.mk.inj h
    obtain ⟨rfl, rfl⟩ := Prod.mk.inj h
    obtain ⟨hqueue, hmin, -⟩ := okToDrop_queue now item d₁.inner
    refine Serves.setInner ⟨?_, ?_, ?_, ?_⟩ hqueue hmin
    · refine Relation.ReflTransGen.head (.dropAfter targetExceededDrop) ?_
      have hacts : Acts internalQueue.packets (⟨0, 0⟩, _) (⟨0, single item + 0⟩, d₁) := dequeueInternal_acts hdeq
      rw [add_zero] at hacts
      exact hacts
    · rintro j rfl
      obtain ⟨q, hq, hinner⟩ := dequeueInternal_eq_some hdeq
      rw [dropAfterDequeue_inner] at hq
      refine ⟨[i], j, .refl, ?_⟩
      rw [hinner]
      exact congrArg (List.cons i) (Queue.dequeue_eq_some hq).1
    · cases item with
      | some j =>
        obtain ⟨q, -, hinner⟩ := dequeueInternal_eq_some hdeq
        rw [hinner, dropAfterDequeue_inner]
        rfl
      | none => rw [(dequeueInternal_eq_none hdeq).1, dropAfterDequeue_inner]
    · cases item with
      | some j =>
        obtain ⟨q, hq, hinner⟩ := dequeueInternal_eq_some hdeq
        rw [dropAfterDequeue_inner] at hq
        rw [hinner]
        exact (Queue.dequeue_eq_some hq).2
      | none => rw [(dequeueInternal_eq_none hdeq).1, dropAfterDequeue_inner]

/-- `OkToDrop` allows another drop only with a packet in hand and bytes behind it. -/
theorem dropAndDequeue_ok (h : dropAndDequeue now i d = (true, next, d')) :
    next.isSome ∧ d'.inner.m_minBytes ≤ d'.inner.queue.m_nBytes := by
  rw [dropAndDequeue] at h
  cases hdeq : (d.dropAfterDequeue i targetExceededDrop).dequeueInternal internalQueue with
  | mk item d₁ =>
    rw [hdeq] at h
    obtain ⟨hok, h⟩ := Prod.mk.inj h
    obtain ⟨rfl, rfl⟩ := Prod.mk.inj h
    obtain ⟨hsome, hbytes⟩ := okToDrop_bytes hok
    obtain ⟨hqueue, hmin, -⟩ := okToDrop_queue now item d₁.inner
    refine ⟨hsome, ?_⟩
    show (okToDrop now item d₁.inner).2.m_minBytes ≤ (okToDrop now item d₁.inner).2.queue.m_nBytes
    rw [hqueue, hmin]
    exact hbytes

theorem dropAndDequeue_isSome (hcount : d.inner.queue.m_nPackets ≠ 0)
    (h : dropAndDequeue now i d = (ok, next, d')) : next.isSome := by
  rw [dropAndDequeue] at h
  cases hdeq : (d.dropAfterDequeue i targetExceededDrop).dequeueInternal internalQueue with
  | mk item d₁ =>
    rw [hdeq] at h
    obtain ⟨-, h⟩ := Prod.mk.inj h
    obtain ⟨rfl, -⟩ := Prod.mk.inj h
    cases item with
    | some j => rfl
    | none =>
      have hzero := (dequeueInternal_eq_none hdeq).2
      rw [dropAfterDequeue_inner] at hzero
      exact absurd hzero hcount

/-- The packets behind the one in hand have the bytes that another drop needs. -/
def Backed (d : QueueDisc (CoDel Item) Item) : Prop := d.inner.m_minBytes ≤ d.inner.queue.m_nBytes

theorem dropOrMark_again (h : dropOrMark now i d = .again (i', d')) : Serves i d (some i') d' ∧ Backed d' := by
  rw [dropOrMark] at h
  split at h
  · cases h
  · next marked d₁ hmark =>
    have hkept := (markIf_serves hmark).1
    split at h
    · next next d₂ hdrop =>
      obtain ⟨rfl, rfl⟩ := Prod.mk.inj (Turn.again.inj h)
      exact ⟨hkept.trans ((dropAndDequeue_serves hdrop).setInner rfl rfl), (dropAndDequeue_ok hdrop).2⟩
    · cases h

variable {isMarked : Bool}

theorem dropOrMark_leave (h : dropOrMark now i d = .leave (isMarked, next, d')) : Serves i d next d' := by
  rw [dropOrMark] at h
  split at h
  · next marked d₁ hmark =>
    have hkept := (markIf_serves hmark).1
    obtain ⟨-, h⟩ := Prod.mk.inj (Turn.leave.inj h)
    obtain ⟨rfl, rfl⟩ := Prod.mk.inj h
    exact hkept.setInner rfl rfl
  · next marked d₁ hmark =>
    have hkept := (markIf_serves hmark).1
    split at h
    · cases h
    · next ok next d₂ hdrop =>
      obtain ⟨-, h⟩ := Prod.mk.inj (Turn.leave.inj h)
      obtain ⟨rfl, rfl⟩ := Prod.mk.inj h
      exact hkept.trans ((dropAndDequeue_serves hdrop).setInner rfl rfl)

theorem dropOrMark_length (h : dropOrMark now i d = .again (i', d')) :
    d'.inner.queue.m_packets.length < d.inner.queue.m_packets.length := by
  rw [dropOrMark] at h
  split at h
  · cases h
  · next marked d₁ hmark =>
    split at h
    · next next d₂ hdrop =>
      obtain ⟨rfl, rfl⟩ := Prod.mk.inj (Turn.again.inj h)
      rw [← (markIf_serves hmark).2, dropAndDequeue_packets hdrop, List.length_cons]
      exact Nat.lt_succ_self _
    · cases h

/-- Unless the queue behind counts no packets, the loop is left with a packet. -/
theorem dropOrMark_isSome (hcount : d.inner.queue.m_nPackets ≠ 0)
    (h : dropOrMark now i d = .leave (isMarked, next, d')) : next.isSome := by
  rw [dropOrMark] at h
  split at h
  · obtain ⟨-, h⟩ := Prod.mk.inj (Turn.leave.inj h)
    obtain ⟨rfl, -⟩ := Prod.mk.inj h
    rfl
  · next marked d₁ hmark =>
    have hinner := (markIf_serves hmark).2
    split at h
    · cases h
    · next ok next d₂ hdrop =>
      obtain ⟨-, h⟩ := Prod.mk.inj (Turn.leave.inj h)
      obtain ⟨rfl, -⟩ := Prod.mk.inj h
      exact dropAndDequeue_isSome (hinner ▸ hcount) hdrop

theorem counted_serves : Serves i d (some i) { d with inner := d.inner.counted } :=
  (Serves.kept .refl .refl rfl rfl).setInner rfl rfl

theorem dropTurn_again (h : dropTurn now (i, d) = .again (i', d')) :
    Serves i d (some i') d' ∧ Backed d' ∧
      d'.inner.queue.m_packets.length < d.inner.queue.m_packets.length := by
  rw [dropTurn] at h
  split at h
  · obtain ⟨hserves, hbacked⟩ := dropOrMark_again h
    have hlen := dropOrMark_length h
    exact ⟨counted_serves.trans hserves, hbacked, hlen⟩
  · cases h

theorem dropTurn_leave (h : dropTurn now (i, d) = .leave (isMarked, next, d')) :
    Serves i d next d' ∧ (d.inner.queue.m_nPackets ≠ 0 → next.isSome) := by
  rw [dropTurn] at h
  split at h
  · refine ⟨counted_serves.trans (dropOrMark_leave h), fun hcount => dropOrMark_isSome ?_ h⟩
    exact hcount
  · obtain ⟨-, h⟩ := Prod.mk.inj (Turn.leave.inj h)
    obtain ⟨rfl, rfl⟩ := Prod.mk.inj h
    exact ⟨.kept .refl .refl rfl rfl, fun _ => rfl⟩

/-- The loop takes at most one turn for each packet behind the one in hand, and one more. -/
theorem dropTurns_leave (now : Time) (i : Item) {n : Nat} (h : d.inner.queue.m_packets.length < n) :
    ∃ result, turns (dropTurn now) n (i, d) = some result :=
  turns_of_measure _ (I := fun _ => True) (fun t => t.2.inner.queue.m_packets.length)
    (fun _ _ _ hturn => ⟨trivial, (dropTurn_again hturn).2.2⟩) trivial h

theorem dropTurns_serves {n : Nat} (h : turns (dropTurn now) n (i, d) = some (isMarked, next, d')) :
    Serves i d next d' := by
  refine turns_of_invariant (I := fun t => Serves i d (some t.1) t.2)
    (J := fun result => Serves i d result.2.1 result.2.2) ?_ ?_ (.kept .refl .refl rfl rfl) h
  · intro t t' ht hturn
    exact ht.trans (dropTurn_again hturn).1
  · intro t result ht hturn
    exact ht.trans (dropTurn_leave hturn).1

/-- The queue counts fewer packets than its counter can count, and `OkToDrop` asks for a byte at least. -/
structure Countable (d : QueueDisc (CoDel Item) Item) : Prop where
  minBytes : 0 < d.inner.m_minBytes
  length : d.inner.queue.m_packets.length < 2 ^ 32

theorem Serves.countable (h : Serves i d (some i') d') (hd : Countable d) : Countable d' where
  minBytes := h.minBytes ▸ hd.minBytes
  length := by
    obtain ⟨dropped, j, -, hpackets⟩ := h.order i' rfl
    have hlen := congrArg List.length hpackets
    rw [List.length_cons, List.length_append, List.length_cons] at hlen
    have := hd.length
    omega

theorem Backed.nPackets_ne_zero (hb : Backed d) (hd : Countable d) : d.inner.queue.m_nPackets ≠ 0 := by
  intro hzero
  have hnil := Queue.packets_eq_nil _ hd.length hzero
  have hbytes := d.inner.queue.nBytes_eq
  rw [hnil] at hbytes
  have hmin := hd.minBytes
  have hle : d.inner.m_minBytes ≤ d.inner.queue.m_nBytes := hb
  rw [hbytes] at hle
  exact UInt32.lt_irrefl 0 (UInt32.lt_of_lt_of_le hmin hle)

theorem dropTurns_isSome {n : Nat} (hd : Countable d) (hb : Backed d)
    (h : turns (dropTurn now) n (i, d) = some (isMarked, next, d')) : next.isSome := by
  refine turns_of_invariant (I := fun t => Countable t.2 ∧ Backed t.2)
    (J := fun result => result.2.1.isSome = true) ?_ ?_ ⟨hd, hb⟩ h
  · intro t t' ht hturn
    obtain ⟨hserves, hbacked, -⟩ := dropTurn_again hturn
    exact ⟨hserves.countable ht.1, hbacked⟩
  · intro t result ht hturn
    exact (dropTurn_leave hturn).2 (ht.2.nPackets_ne_zero ht.1)

theorem firstDrop_serves (h : firstDrop now i d = (isMarked, next, d')) :
    Serves i d next d' ∧ (d.inner.queue.m_nPackets ≠ 0 → next.isSome) := by
  rw [firstDrop] at h
  split at h
  · next marked d₁ hmark =>
    obtain ⟨-, h⟩ := Prod.mk.inj h
    obtain ⟨rfl, rfl⟩ := Prod.mk.inj h
    exact ⟨(markIf_serves hmark).1, fun _ => rfl⟩
  · next marked d₁ hmark =>
    obtain ⟨hkept, hinner⟩ := markIf_serves hmark
    obtain ⟨-, h⟩ := Prod.mk.inj h
    cases hdrop : dropAndDequeue now marked d₁ with
    | mk ok result =>
      rw [hdrop] at h
      obtain rfl := h
      exact ⟨hkept.trans (dropAndDequeue_serves hdrop), fun hcount =>
        dropAndDequeue_isSome (hinner ▸ hcount) hdrop⟩

/-- The first drop leaves the schedule alone. -/
theorem firstDrop_inner (h : firstDrop now i d = (isMarked, next, d')) :
    d'.inner = { d.inner with queue := d'.inner.queue, m_firstAboveTime := d'.inner.m_firstAboveTime } := by
  rw [firstDrop] at h
  split at h
  · next marked d₁ hmark =>
    cases h
    rw [(markIf_serves hmark).2]
  · next marked d₁ hmark =>
    cases hdrop : dropAndDequeue now marked d₁ with
    | mk ok result =>
      rw [hdrop] at h
      cases h
      rw [← (markIf_serves hmark).2]
      exact dropAndDequeue_inner hdrop

theorem entered_queue (n : UInt32) (s : CoDel Item) :
    (s.entered n).queue = s.queue ∧ (s.entered n).m_minBytes = s.m_minBytes := by
  rw [entered, restarted]
  split <;> exact ⟨rfl, rfl⟩

theorem enterDropping_serves (h : enterDropping now i d = (isMarked, next, d')) :
    Serves i d next d' ∧ (d.inner.queue.m_nPackets ≠ 0 → next.isSome) := by
  rw [enterDropping] at h
  cases hfirst : firstDrop now i d with
  | mk marked result =>
    rw [hfirst] at h
    obtain ⟨-, h⟩ := Prod.mk.inj h
    obtain ⟨rfl, rfl⟩ := Prod.mk.inj h
    obtain ⟨hserves, hsome⟩ := firstDrop_serves hfirst
    obtain ⟨hqueue, hmin⟩ := entered_queue (time2CoDel now) result.2.inner
    exact ⟨hserves.setInner hqueue hmin, hsome⟩

theorem finish_serves (h : finish now (isMarked, some i, d) = some (next, d')) :
    next.isSome ∧ Serves i d next d' := by
  rw [finish] at h
  obtain ⟨rfl, rfl⟩ := Prod.mk.inj (Option.some.inj h)
  exact ⟨rfl, (markIf_serves rfl).1⟩

theorem dropIfOk_serves (h : dropIfOk now ok i d = some (isMarked, next, d')) : Serves i d next d' := by
  have hkept : Serves i d (some i) d := .kept .refl .refl rfl rfl
  rw [dropIfOk] at h
  split at h
  · split at h
    · exact dropTurns_serves h
    · obtain ⟨-, h⟩ := Prod.mk.inj (Option.some.inj h)
      obtain ⟨rfl, rfl⟩ := Prod.mk.inj h
      exact hkept.setInner rfl rfl
  · split at h
    · exact (enterDropping_serves (Option.some.inj h)).1
    · obtain ⟨-, h⟩ := Prod.mk.inj (Option.some.inj h)
      obtain ⟨rfl, rfl⟩ := Prod.mk.inj h
      exact hkept

/-- If the packet may be dropped only with bytes behind it, a packet comes out. -/
theorem dropIfOk_isSome (hd : Countable d) (hb : ok = true → Backed d) :
    ∃ isMarked j d', dropIfOk now ok i d = some (isMarked, some j, d') := by
  rw [dropIfOk]
  split
  · split
    · next hok =>
      obtain ⟨⟨isMarked, next, d'⟩, hleave⟩ := dropTurns_leave now i (Nat.lt_succ_self _)
      obtain ⟨j, rfl⟩ := Option.isSome_iff_exists.mp (dropTurns_isSome hd (hb hok) hleave)
      exact ⟨isMarked, j, d', hleave⟩
    · exact ⟨_, _, _, rfl⟩
  · split
    · next hok =>
      cases henter : enterDropping now i d with
      | mk isMarked result =>
        have hsome := (enterDropping_serves henter).2 ((hb hok).nPackets_ne_zero hd)
        obtain ⟨j, hj⟩ := Option.isSome_iff_exists.mp hsome
        exact ⟨isMarked, j, result.2, by rw [← hj]⟩
    · exact ⟨_, _, _, rfl⟩

theorem okToDrop_serves :
    Serves i d (some i) { d with inner := (okToDrop now (some i) d.inner).2 } := by
  obtain ⟨hqueue, hmin, -⟩ := okToDrop_queue now (some i) d.inner
  exact (Serves.kept .refl .refl rfl rfl).setInner hqueue hmin

theorem control_serves (h : control now i d = some (isMarked, next, d')) : Serves i d next d' :=
  okToDrop_serves.trans (dropIfOk_serves h)

theorem control_isSome (now : Time) (i : Item) (hd : Countable d) :
    ∃ isMarked j d', control now i d = some (isMarked, some j, d') := by
  refine dropIfOk_isSome (okToDrop_serves.countable hd) fun hok => ?_
  have hok : (okToDrop now (some i) d.inner).1 = true := hok
  obtain ⟨hqueue, hmin, -⟩ := okToDrop_queue now (some i) d.inner
  show (okToDrop now (some i) d.inner).2.m_minBytes ≤ (okToDrop now (some i) d.inner).2.queue.m_nBytes
  rw [hqueue, hmin]
  exact (okToDrop_bytes hok).2

variable {item : Option Item}

/-- What `DoDequeue` does: the packet returned stood in the queue behind those that were dropped, and there
is none only if the queue counts none. -/
structure Dequeues (d : QueueDisc (CoDel Item) Item) (item : Option Item) (d' : QueueDisc (CoDel Item) Item) :
    Prop where
  acts : Acts internalQueue.packets (⟨0, 0⟩, d) (⟨0, single item⟩, d')
  order : ∀ j, item = some j → ∃ dropped i, Marked i j ∧
    d.inner.queue.m_packets = dropped ++ i :: d'.inner.queue.m_packets
  idle : item = none → d.inner.queue.m_nPackets = 0 ∧ d'.inner.queue = d.inner.queue
  minBytes : d'.inner.m_minBytes = d.inner.m_minBytes
  maxSize : d'.inner.queue.m_maxSize = d.inner.queue.m_maxSize

theorem doDequeue_dequeues (h : doDequeue now d = some (item, d')) : Dequeues d item d' := by
  rw [doDequeue] at h
  cases hpop : d.dequeueInternal internalQueue with
  | mk popped d₁ =>
    have hacts : Acts internalQueue.packets (⟨0, 0⟩, d) (⟨0, single popped + 0⟩, d₁) := dequeueInternal_acts hpop
    rw [add_zero] at hacts
    rw [hpop] at h
    cases popped with
    | none =>
      obtain ⟨rfl, hcount⟩ := dequeueInternal_eq_none hpop
      obtain ⟨rfl, rfl⟩ := Prod.mk.inj (Option.some.inj h)
      exact ⟨.single (.internal _ rfl), (fun j hj => nomatch hj), fun _ => ⟨hcount, rfl⟩, rfl, rfl⟩
    | some i =>
      obtain ⟨q, hq, hinner⟩ := dequeueInternal_eq_some hpop
      have hserves : item.isSome ∧ Serves i d₁ item d' := by
        simp only at h
        split at h
        · obtain ⟨rfl, rfl⟩ := Prod.mk.inj (Option.some.inj h)
          exact ⟨rfl, (markIf_serves rfl).1⟩
        · obtain ⟨⟨isMarked, next, d₂⟩, hcontrol, hfinish⟩ := Option.bind_eq_some_iff.mp h
          cases next with
          | none => cases hfinish
          | some j =>
            obtain ⟨hsome, hend⟩ := finish_serves hfinish
            exact ⟨hsome, (control_serves hcontrol).trans hend⟩
      obtain ⟨hsome, hserves⟩ := hserves
      have hpackets : d.inner.queue.m_packets = i :: d₁.inner.queue.m_packets := by
        rw [hinner]
        exact (Queue.dequeue_eq_some hq).1
      refine ⟨hacts.trans hserves.acts, ?_, ?_, ?_, ?_⟩
      · rw [hpackets]
        exact hserves.order
      · rintro rfl
        cases hsome
      · rw [hserves.minBytes, hinner]
        rfl
      · rw [hserves.maxSize, hinner]
        exact (Queue.dequeue_eq_some hq).2

/-- `DoDequeue` has a result. -/
theorem doDequeue_isSome (now : Time) (hd : Countable d) : ∃ item d', doDequeue now d = some (item, d') := by
  rw [doDequeue]
  cases hpop : d.dequeueInternal internalQueue with
  | mk popped d₁ =>
    cases popped with
    | none => exact ⟨_, _, rfl⟩
    | some i =>
      simp only
      split
      · exact ⟨_, _, rfl⟩
      · obtain ⟨q, hq, hinner⟩ := dequeueInternal_eq_some hpop
        have hd₁ : Countable d₁ := by
          constructor
          · rw [hinner]
            exact hd.minBytes
          · have hlen := hd.length
            have hpackets : d.inner.queue.m_packets = _ := (Queue.dequeue_eq_some hq).1
            rw [hpackets, List.length_cons] at hlen
            rw [hinner]
            exact Nat.lt_of_succ_lt hlen
        obtain ⟨isMarked, j, d₂, hcontrol⟩ := control_isSome now i hd₁
        rw [hcontrol]
        exact ⟨_, _, rfl⟩

/-- What is enqueued is stored at the end or dropped. -/
theorem doEnqueue_queue {stored : Bool} (h : coDelQueueDisc.doEnqueue now i d = some (stored, d')) :
    d'.inner.m_minBytes = d.inner.m_minBytes ∧
      (d'.inner.queue = d.inner.queue ∨ d.inner.queue.enqueue i = some d'.inner.queue) := by
  have h := Option.some.inj h
  split at h
  · obtain ⟨-, rfl⟩ := Prod.mk.inj h
    exact ⟨rfl, .inl rfl⟩
  · rw [enqueueInternal] at h
    split at h
    · next q hq =>
      obtain ⟨-, rfl⟩ := Prod.mk.inj h
      exact ⟨rfl, .inr hq⟩
    · obtain ⟨-, rfl⟩ := Prod.mk.inj h
      exact ⟨rfl, .inl rfl⟩

theorem doEnqueue_acts {stored : Bool} (h : coDelQueueDisc.doEnqueue now i d = some (stored, d')) :
    Acts internalQueue.packets (⟨{i}, 0⟩, d) (⟨0, 0⟩, d') := by
  have h := Option.some.inj h
  split at h
  · obtain ⟨rfl, rfl⟩ := Prod.mk.inj h
    exact .single (.dropBefore _)
  · exact enqueueInternal_acts h

end Acts

/-- `CoDelQueueDisc` keeps to the contract. -/
def coDelDiscipline (start : CoDel Item) (hstart : start.queue.m_packets = []) : Discipline (CoDel Item) Item where
  toMethods := coDelQueueDisc
  held := internalQueue.packets
  start := start
  held_start := congrArg (fun l : List Item => (l : Multiset Item)) hstart
  enqueue_acts h := doEnqueue_acts h
  dequeue_acts h := (doDequeue_dequeues h).acts
  peek_acts h := nomatch h

end CoDel

end Ns3.TrafficControl
