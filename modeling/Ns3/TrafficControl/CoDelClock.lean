import Ns3.Internet.Ipv4QueueDiscItem
import Ns3.TrafficControl.CoDelQueueDisc

/-!
# CoDel at another time

Two runs of the same calls, the second one a constant time later. All times that CoDel measures are the
same in both; the readings of its clock are not, and so the runs may part where the clock is compared with
a deadline, or where a deadline comes out as 0.
-/

namespace Ns3.TrafficControl

open Ns3.Lib Ns3.Network QueueDiscItem QueueDisc

/-- Items whose time stamp matters to nothing else. -/
class TimeStamped (Item : Type) [QueueDiscItem Item] : Prop where
  getTimeStamp_setTimeStamp : ∀ (t : Time) (i : Item), getTimeStamp (setTimeStamp t i) = t
  setTimeStamp_setTimeStamp : ∀ (t u : Time) (i : Item), setTimeStamp t (setTimeStamp u i) = setTimeStamp t i
  mark_setTimeStamp : ∀ (t : Time) (i : Item), mark (setTimeStamp t i) = (mark i).map (setTimeStamp t)
  getTimeStamp_mark : ∀ (i i' : Item), mark i = some i' → getTimeStamp i' = getTimeStamp i
  getDsField_setTimeStamp : ∀ (t : Time) (i : Item), getDsField (setTimeStamp t i) = getDsField i

instance : TimeStamped Internet.Ipv4QueueDiscItem where
  getTimeStamp_setTimeStamp _ _ := rfl
  setTimeStamp_setTimeStamp _ _ _ := rfl
  mark_setTimeStamp t i := by
    let stamped : Internet.Ipv4QueueDiscItem := { i with m_tstamp := t }
    show stamped.marked = i.marked.map fun i => { i with m_tstamp := t }
    by_cases h : (!i.m_headerAdded && decide (i.m_header.m_tos &&& 0x3 ≠ 0)) = true
    · have hstamped : (!stamped.m_headerAdded && decide (stamped.m_header.m_tos &&& 0x3 ≠ 0)) = true := h
      rw [Internet.Ipv4QueueDiscItem.marked, Internet.Ipv4QueueDiscItem.marked, if_pos h, if_pos hstamped,
        Option.map_map]
      rfl
    · have hstamped : ¬ (!stamped.m_headerAdded && decide (stamped.m_header.m_tos &&& 0x3 ≠ 0)) = true := h
      rw [Internet.Ipv4QueueDiscItem.marked, Internet.Ipv4QueueDiscItem.marked, if_neg h, if_neg hstamped]
      rfl
  getTimeStamp_mark i i' h := by
    have h : Internet.Ipv4QueueDiscItem.marked i = some i' := h
    rw [Internet.Ipv4QueueDiscItem.marked] at h
    split at h
    · obtain ⟨header, -, rfl⟩ := Option.map_eq_some_iff.mp h
      rfl
    · cases h
  getDsField_setTimeStamp _ _ := rfl

/-- What a trace source is told of other items. -/
def Trace.map {Item : Type} (f : Item → Item) : Trace Item → Trace Item
  | .enqueue item => .enqueue (f item)
  | .dequeue item => .dequeue (f item)
  | .requeue item => .requeue (f item)
  | .dropBeforeEnqueue item reason => .dropBeforeEnqueue (f item) reason
  | .dropAfterDequeue item reason => .dropAfterDequeue (f item) reason
  | .mark item reason => .mark (f item) reason

variable {σ Item : Type} [QueueDiscItem Item]

/-- The item, had it been enqueued at a time later by `offset`. -/
def later (offset : Time) (i : Item) : Item := setTimeStamp (getTimeStamp i + offset) i

@[simp] theorem getSize_later (offset : Time) (i : Item) : getSize (later offset i) = getSize i :=
  getSize_setTimeStamp _ _

/-- Two queue discs that hold and tell of the same items, but at another time. -/
structure SameBase (offset : Time) (d d' : QueueDisc σ Item) : Prop where
  nPackets : d'.m_nPackets = d.m_nPackets
  nBytes : d'.m_nBytes = d.m_nBytes
  peeked : d'.m_peeked = d.m_peeked
  requeued : d'.m_requeued = d.m_requeued.map (later offset)
  traces : d'.traces = d.traces.map (Trace.map (later offset))

/-- The same of queues. -/
structure SameQueue (offset : Time) (q q' : Queue Item) : Prop where
  packets : q'.m_packets = q.m_packets.map (later offset)
  maxSize : q'.m_maxSize = q.m_maxSize

section Later

variable {offset : Time} {d d' : QueueDisc σ Item} {q q' : Queue Item} {i : Item}

namespace SameQueue

theorem nPackets (h : SameQueue offset q q') : q'.m_nPackets = q.m_nPackets := by
  rw [q'.nPackets_eq, q.nPackets_eq, h.packets, List.length_map]

theorem nBytes (h : SameQueue offset q q') : q'.m_nBytes = q.m_nBytes := by
  rw [q'.nBytes_eq, q.nBytes_eq, h.packets, Network.nBytes, Network.nBytes, List.map_map]
  congr 1
  exact List.map_congr_left fun i _ => getSize_later offset i

end SameQueue

theorem traces_append {traces traces' : List (Trace Item)} (h : traces' = traces.map (Trace.map (later offset)))
    (trace : Trace Item) :
    traces' ++ [trace.map (later offset)] = (traces ++ [trace]).map (Trace.map (later offset)) := by
  rw [h, List.map_append]
  rfl

namespace SameBase

theorem packetEnqueued (h : SameBase offset d d') (i : Item) :
    SameBase offset (d.packetEnqueued i) (d'.packetEnqueued (later offset i)) where
  nPackets := congrArg (· + 1) h.nPackets
  nBytes := by
    show d'.m_nBytes + getSize (later offset i) = d.m_nBytes + getSize i
    rw [h.nBytes, getSize_later]
  peeked := h.peeked
  requeued := h.requeued
  traces := traces_append h.traces (.enqueue i)

theorem packetDequeued (h : SameBase offset d d') (i : Item) :
    SameBase offset (d.packetDequeued i) (d'.packetDequeued (later offset i)) := by
  by_cases hpeek : d.m_peeked = true
  · have hpeek' : d'.m_peeked = true := h.peeked.trans hpeek
    rw [QueueDisc.packetDequeued, QueueDisc.packetDequeued, if_pos hpeek, if_pos hpeek']
    exact h
  · have hpeek' : ¬ d'.m_peeked = true := fun hp => hpeek (h.peeked.symm.trans hp)
    rw [QueueDisc.packetDequeued, QueueDisc.packetDequeued, if_neg hpeek, if_neg hpeek']
    refine ⟨congrArg (· - 1) h.nPackets, ?_, h.peeked, h.requeued, traces_append h.traces (.dequeue i)⟩
    show d'.m_nBytes - getSize (later offset i) = d.m_nBytes - getSize i
    rw [h.nBytes, getSize_later]

theorem dropBeforeEnqueue (h : SameBase offset d d') (i : Item) (reason : String) :
    SameBase offset (d.dropBeforeEnqueue i reason) (d'.dropBeforeEnqueue (later offset i) reason) :=
  ⟨h.nPackets, h.nBytes, h.peeked, h.requeued, traces_append h.traces (.dropBeforeEnqueue i reason)⟩

/-- Statistics and the fields of the subclass do not matter. -/
theorem congr {τ : Type} {c c' : QueueDisc τ Item} (h : SameBase offset d d')
    (hbase : (c.m_nPackets, c.m_nBytes, c.m_peeked, c.m_requeued, c.traces) =
      (d.m_nPackets, d.m_nBytes, d.m_peeked, d.m_requeued, d.traces))
    (hbase' : (c'.m_nPackets, c'.m_nBytes, c'.m_peeked, c'.m_requeued, c'.traces) =
      (d'.m_nPackets, d'.m_nBytes, d'.m_peeked, d'.m_requeued, d'.traces)) : SameBase offset c c' := by
  simp only [Prod.mk.injEq] at hbase hbase'
  obtain ⟨hp, hb, hk, hr, ht⟩ := hbase
  obtain ⟨hp', hb', hk', hr', ht'⟩ := hbase'
  exact ⟨by rw [hp, hp', h.nPackets], by rw [hb, hb', h.nBytes], by rw [hk, hk', h.peeked],
    by rw [hr, hr', h.requeued], by rw [ht, ht', h.traces]⟩

theorem dropAfterDequeue (h : SameBase offset d d') (i : Item) (reason : String) :
    SameBase offset (d.dropAfterDequeue i reason) (d'.dropAfterDequeue (later offset i) reason) := by
  have hcounted : SameBase offset (d.countDropAfter i reason) (d'.countDropAfter (later offset i) reason) :=
    h.congr rfl rfl
  have hfired : ∀ {c c' : QueueDisc σ Item}, SameBase offset c c' →
      SameBase offset (c.fire (.dropAfterDequeue i reason)) (c'.fire (.dropAfterDequeue (later offset i) reason)) :=
    fun hc => ⟨hc.nPackets, hc.nBytes, hc.peeked, hc.requeued, traces_append hc.traces (.dropAfterDequeue i reason)⟩
  by_cases hpeek : d.m_peeked = true
  · have hpeek' : d'.m_peeked = true := h.peeked.trans hpeek
    have hpeeked : (d.countDropAfter i reason).m_peeked = true := hpeek
    have hpeeked' : (d'.countDropAfter (later offset i) reason).m_peeked = true := hpeek'
    rw [QueueDisc.dropAfterDequeue, QueueDisc.dropAfterDequeue, if_pos hpeeked, if_pos hpeeked']
    have hdeq := @SameBase.packetDequeued _ _ _ offset { d.countDropAfter i reason with m_peeked := false }
      { d'.countDropAfter (later offset i) reason with m_peeked := false }
      ⟨hcounted.nPackets, hcounted.nBytes, rfl, hcounted.requeued, hcounted.traces⟩ i
    exact hfired ⟨hdeq.nPackets, hdeq.nBytes, rfl, hdeq.requeued, hdeq.traces⟩
  · have hpeeked : ¬ (d.countDropAfter i reason).m_peeked = true := hpeek
    have hpeeked' : ¬ (d'.countDropAfter (later offset i) reason).m_peeked = true :=
      fun hp => hpeek (h.peeked.symm.trans hp)
    rw [QueueDisc.dropAfterDequeue, QueueDisc.dropAfterDequeue, if_neg hpeeked, if_neg hpeeked']
    exact hfired hcounted

end SameBase

theorem SameQueue.dequeue (h : SameQueue offset q q') {q₁ : Queue Item} (hdeq : q.dequeue = some (i, q₁)) :
    ∃ q₁', q'.dequeue = some (later offset i, q₁') ∧ SameQueue offset q₁ q₁' := by
  have hcount : ¬ q'.m_nPackets = 0 := by
    rw [h.nPackets]
    exact fun hzero => Option.some_ne_none _ (hdeq.symm.trans ((Queue.dequeue_eq_none q).mpr hzero))
  obtain ⟨⟨j, q₁'⟩, hdeq'⟩ := Option.ne_none_iff_exists'.mp fun hnone => hcount ((Queue.dequeue_eq_none q').mp hnone)
  obtain ⟨hpackets, hmax⟩ := Queue.dequeue_eq_some hdeq
  obtain ⟨hpackets', hmax'⟩ := Queue.dequeue_eq_some hdeq'
  have hall := h.packets
  rw [hpackets, hpackets', List.map_cons] at hall
  obtain ⟨rfl, hrest⟩ := List.cons.inj hall
  exact ⟨q₁', hdeq', hrest, by rw [hmax', hmax, h.maxSize]⟩

theorem SameQueue.enqueue (h : SameQueue offset q q') (i : Item) :
    (∃ q₁ q₁', q.enqueue i = some q₁ ∧ q'.enqueue (later offset i) = some q₁' ∧ SameQueue offset q₁ q₁') ∨
      q.enqueue i = none ∧ q'.enqueue (later offset i) = none := by
  have hfull : q'.full (later offset i) = q.full i := by
    rw [Queue.full, Queue.full, Queue.getCurrentSize, Queue.getCurrentSize, QueueSize.plus, QueueSize.plus,
      h.maxSize, h.nPackets, h.nBytes, getSize_later]
  rw [Queue.enqueue, Queue.enqueue, hfull]
  split
  · exact .inr ⟨rfl, rfl⟩
  · refine .inl ⟨_, _, rfl, rfl, ?_, h.maxSize⟩
    rw [Queue.insert_packets, Queue.insert_packets, h.packets, List.map_append]
    rfl

end Later

namespace CoDel

/-- Two states of the control law that differ in the deadlines alone, of which `m_dropNext` reads later by
`shift`. -/
structure SameLaw (offset : Time) (shift : UInt32) (s s' : CoDel Item) : Prop where
  queue : SameQueue offset s.queue s'.queue
  law : s' = { s with
    queue := s'.queue
    m_firstAboveTime := s'.m_firstAboveTime
    m_dropNext := s.m_dropNext + shift }
  unset : s'.m_firstAboveTime = 0 ↔ s.m_firstAboveTime = 0

/-- The queue discs of two runs. -/
structure Delayed (offset : Time) (shift : UInt32) (d d' : QueueDisc (CoDel Item) Item) : Prop
    extends SameBase offset d d' where
  law : SameLaw offset shift d.inner d'.inner

section Twin

variable {offset now : Time} {shift n : UInt32} {s s' : CoDel Item} {d d' c : QueueDisc (CoDel Item) Item}
  {item : Option Item} {i : Item}

namespace SameLaw

theorem dropNext (h : SameLaw offset shift s s') : s'.m_dropNext = s.m_dropNext + shift := by
  rw [h.law]

theorem setFirstAbove (h : SameLaw offset shift s s') {f f' : UInt32} (hunset : f' = 0 ↔ f = 0) :
    SameLaw offset shift { s with m_firstAboveTime := f } { s' with m_firstAboveTime := f' } := by
  refine ⟨h.queue, ?_, hunset⟩
  rw [h.law]

theorem setDropping (h : SameLaw offset shift s s') (b : Bool) :
    SameLaw offset shift { s with m_dropping := b } { s' with m_dropping := b } := by
  refine ⟨h.queue, ?_, h.unset⟩
  rw [h.law]

theorem setQueue (h : SameLaw offset shift s s') {q q' : Queue Item} (hq : SameQueue offset q q') :
    SameLaw offset shift { s with queue := q } { s' with queue := q' } := by
  refine ⟨hq, ?_, h.unset⟩
  rw [h.law]

theorem counted (h : SameLaw offset shift s s') : SameLaw offset shift s.counted s'.counted := by
  refine ⟨h.queue, ?_, h.unset⟩
  rw [h.law]
  rfl

/-- A deadline reckoned from a reading is later by as much as the reading. -/
theorem scheduled (h : SameLaw offset shift s s') (n n' : UInt32) :
    SameLaw offset (n' - n) (s.scheduled n) (s'.scheduled n') := by
  refine ⟨h.queue, ?_, h.unset⟩
  have hshift : controlLaw n' (time2CoDel s.m_interval) s.m_recInvSqrt.toUInt32 =
      controlLaw n (time2CoDel s.m_interval) s.m_recInvSqrt.toUInt32 + (n' - n) := by
    rw [controlLaw, controlLaw]
    grind
  rw [h.law]
  simp only [CoDel.scheduled, hshift]

end SameLaw

theorem sojournTime_later [TimeStamped Item] (i : Item) :
    sojournTime (now + offset) (later offset i) = sojournTime now i := by
  rw [sojournTime, sojournTime, later, TimeStamped.getTimeStamp_setTimeStamp, add_sub_add_right_eq_sub]

theorem below_later [TimeStamped Item] (h : SameLaw offset shift s s') :
    below (now + offset) (later offset i) s' = below now i s := by
  rw [below, below, sojournTime_later, h.queue.nBytes, h.law]

theorem isL4s_later [TimeStamped Item] (i : Item) : isL4s (later offset i) = isL4s i := by
  rw [isL4s, isL4s, later, TimeStamped.getDsField_setTimeStamp]

theorem mark_later [TimeStamped Item] (i : Item) : mark (later offset i) = (mark i).map (later offset) := by
  rw [later, TimeStamped.mark_setTimeStamp]
  refine Option.map_congr fun j hj => ?_
  rw [later, TimeStamped.getTimeStamp_mark i j hj]

/-- Marks are made in both runs or in neither. -/
theorem Delayed.markIf [TimeStamped Item] (h : Delayed offset shift d d') {called marked : Bool} {reason : String}
    {j : Item} (hmark : d.markIf called i reason = (marked, j, c)) :
    ∃ c', d'.markIf called (later offset i) reason = (marked, later offset j, c') ∧ Delayed offset shift c c' := by
  rw [QueueDisc.markIf] at hmark ⊢
  cases called with
  | false =>
    have hmark : (false, i, d) = (marked, j, c) := hmark
    cases hmark
    exact ⟨d', rfl, h⟩
  | true =>
    simp only [if_true, markItem, mark_later] at hmark ⊢
    cases hi : mark i with
    | none =>
      rw [hi] at hmark
      have hmark : (false, i, d) = (marked, j, c) := hmark
      cases hmark
      exact ⟨d', rfl, h⟩
    | some k =>
      rw [hi] at hmark
      cases hmark
      exact ⟨_, rfl, ⟨h.nPackets, h.nBytes, h.peeked, h.requeued, traces_append h.traces (.mark j reason)⟩, h.law⟩

theorem Delayed.dequeueInternal (h : Delayed offset shift d d')
    (hdeq : d.dequeueInternal internalQueue = (item, c)) :
    ∃ c', d'.dequeueInternal internalQueue = (item.map (later offset), c') ∧ Delayed offset shift c c' := by
  cases item with
  | none =>
    obtain ⟨rfl, hcount⟩ := dequeueInternal_eq_none hdeq
    refine ⟨d', ?_, h⟩
    have hcount' : d'.inner.queue.m_nPackets = 0 := h.law.queue.nPackets.trans hcount
    have hnone : (internalQueue.get d'.inner).dequeue = none := (Queue.dequeue_eq_none _).mpr hcount'
    rw [QueueDisc.dequeueInternal, hnone]
    rfl
  | some i =>
    obtain ⟨q, hq, -⟩ := dequeueInternal_eq_some hdeq
    have hpop : d.dequeueInternal internalQueue =
        (some i, ({ d with inner := internalQueue.set q d.inner } : QueueDisc _ Item).packetDequeued i) := by
      rw [QueueDisc.dequeueInternal, hq]
    obtain ⟨-, rfl⟩ := Prod.mk.inj (hpop.symm.trans hdeq)
    obtain ⟨q', hq', hqueue⟩ := SameQueue.dequeue h.law.queue hq
    refine ⟨({ d' with inner := internalQueue.set q' d'.inner } : QueueDisc _ Item).packetDequeued (later offset i),
      ?_, ?_⟩
    · have hget : (internalQueue.get d'.inner).dequeue = some (later offset i, q') := hq'
      rw [QueueDisc.dequeueInternal, hget]
      rfl
    · have hbase : SameBase offset ({ d with inner := internalQueue.set q d.inner } : QueueDisc _ Item)
          ({ d' with inner := internalQueue.set q' d'.inner } : QueueDisc _ Item) := h.toSameBase.congr rfl rfl
      refine ⟨hbase.packetDequeued i, ?_⟩
      rw [packetDequeued_inner, packetDequeued_inner]
      exact h.law.setQueue hqueue

/-- The packet has been above the target for an interval when the clock reads `n`. -/
structure Overdue (n : UInt32) (s : CoDel Item) : Prop where
  set : s.m_firstAboveTime ≠ 0
  past : coDelTimeAfter n s.m_firstAboveTime = true

instance (n : UInt32) (s : CoDel Item) : Decidable (Overdue n s) :=
  decidable_of_iff (s.m_firstAboveTime ≠ 0 ∧ coDelTimeAfter n s.m_firstAboveTime = true)
    ⟨fun h => ⟨h.1, h.2⟩, fun h => ⟨h.set, h.past⟩⟩

theorem okToDrop_overdue (ho : Overdue (time2CoDel now) s) (i : Item) :
    okToDrop now (some i) s = if below now i s then (false, { s with m_firstAboveTime := 0 }) else (true, s) := by
  rw [okToDrop, if_neg ho.set, ho.past]

/-- Once the deadline is past in both runs, `OkToDrop` says the same of every packet. -/
theorem SameLaw.okToDrop [TimeStamped Item] (h : SameLaw offset shift s s') (ho : Overdue (time2CoDel now) s)
    (ho' : Overdue (time2CoDel (now + offset)) s') {ok : Bool} {t : CoDel Item}
    (hok : okToDrop now item s = (ok, t)) :
    ∃ t', CoDel.okToDrop (now + offset) (item.map (later offset)) s' = (ok, t') ∧ SameLaw offset shift t t' ∧
      (ok = true → Overdue (time2CoDel now) t ∧ Overdue (time2CoDel (now + offset)) t') := by
  cases item with
  | none =>
    obtain ⟨rfl, rfl⟩ := Prod.mk.inj hok
    exact ⟨_, rfl, h.setFirstAbove Iff.rfl, fun hf => nomatch hf⟩
  | some i =>
    rw [okToDrop_overdue ho] at hok
    rw [Option.map_some, okToDrop_overdue ho', below_later h]
    split at hok
    · next hbelow =>
      obtain ⟨rfl, rfl⟩ := Prod.mk.inj hok
      rw [if_pos hbelow]
      exact ⟨_, rfl, h.setFirstAbove Iff.rfl, fun hf => nomatch hf⟩
    · next hbelow =>
      obtain ⟨rfl, rfl⟩ := Prod.mk.inj hok
      rw [if_neg hbelow]
      exact ⟨_, rfl, h, fun _ => ⟨ho, ho'⟩⟩

theorem dropAfterDequeue_delayed (h : Delayed offset shift d d') (i : Item) (reason : String) :
    Delayed offset shift (d.dropAfterDequeue i reason) (d'.dropAfterDequeue (later offset i) reason) := by
  refine ⟨h.toSameBase.dropAfterDequeue i reason, ?_⟩
  rw [dropAfterDequeue_inner, dropAfterDequeue_inner]
  exact h.law

/-- A packet popped leaves the deadlines alone. -/
theorem dequeueInternal_overdue (hdeq : d.dequeueInternal internalQueue = (item, c)) (ho : Overdue n d.inner) :
    Overdue n c.inner := by
  cases item with
  | none => exact (dequeueInternal_eq_none hdeq).1 ▸ ho
  | some i =>
    obtain ⟨q, -, hinner⟩ := dequeueInternal_eq_some hdeq
    rw [hinner]
    exact ⟨ho.set, ho.past⟩

theorem dropAndDequeue_delayed [TimeStamped Item] (h : Delayed offset shift d d')
    (ho : Overdue (time2CoDel now) d.inner) (ho' : Overdue (time2CoDel (now + offset)) d'.inner) {ok : Bool}
    (hdrop : dropAndDequeue now i d = (ok, item, c)) :
    ∃ c', dropAndDequeue (now + offset) (later offset i) d' = (ok, item.map (later offset), c') ∧
      Delayed offset shift c c' ∧
      (ok = true → Overdue (time2CoDel now) c.inner ∧ Overdue (time2CoDel (now + offset)) c'.inner) := by
  have hdropped := dropAfterDequeue_delayed h i targetExceededDrop
  cases hdeq : (d.dropAfterDequeue i targetExceededDrop).dequeueInternal internalQueue with
  | mk next d₁ =>
    obtain ⟨d₁', hdeq', h₁⟩ := hdropped.dequeueInternal hdeq
    have ho₁ : Overdue (time2CoDel now) d₁.inner :=
      dequeueInternal_overdue hdeq (by rw [dropAfterDequeue_inner]; exact ho)
    have ho₁' : Overdue (time2CoDel (now + offset)) d₁'.inner :=
      dequeueInternal_overdue hdeq' (by rw [dropAfterDequeue_inner]; exact ho')
    cases hok : okToDrop now next d₁.inner with
    | mk ok₁ t =>
      obtain ⟨t', hok', ht, hover⟩ := h₁.law.okToDrop ho₁ ho₁' hok
      cases (dropAndDequeue_eq hdeq hok).symm.trans hdrop
      exact ⟨_, dropAndDequeue_eq hdeq' hok', ⟨h₁.toSameBase.congr rfl rfl, ht⟩, hover⟩

/-- What parts of `DoDequeue` return in two runs. -/
structure SameResult (offset : Time) (a a' : Bool × Option Item × QueueDisc (CoDel Item) Item) : Prop where
  isMarked : a'.1 = a.1
  item : a'.2.1 = a.2.1.map (later offset)
  disc : ∃ shift, Delayed offset shift a.2.2 a'.2.2

/-- The loops of two runs, before a turn. -/
structure SameTurn (offset now : Time) (shift : UInt32) (t t' : Item × QueueDisc (CoDel Item) Item) : Prop where
  item : t'.1 = later offset t.1
  disc : Delayed offset shift t.2 t'.2
  overdue : Overdue (time2CoDel now) t.2.inner
  overdue' : Overdue (time2CoDel (now + offset)) t'.2.inner

theorem dropOrMark_rel [TimeStamped Item] (h : Delayed offset shift d d') (ho : Overdue (time2CoDel now) d.inner)
    (ho' : Overdue (time2CoDel (now + offset)) d'.inner) (i : Item) :
    Turn.Rel (SameTurn offset now shift) (SameResult offset) (dropOrMark now i d)
      (dropOrMark (now + offset) (later offset i) d') := by
  have hecn : d'.inner.m_useEcn = d.inner.m_useEcn := by rw [h.law.law]
  rw [dropOrMark, dropOrMark, hecn]
  cases hmark : d.markIf d.inner.m_useEcn i targetExceededMark with
  | mk marked result =>
    obtain ⟨j, c⟩ := result
    obtain ⟨c', hmark', hc⟩ := h.markIf hmark
    rw [hmark']
    have hoc : Overdue (time2CoDel now) c.inner := (markIf_serves hmark).2 ▸ ho
    have hoc' : Overdue (time2CoDel (now + offset)) c'.inner := (markIf_serves hmark').2 ▸ ho'
    cases marked with
    | true => exact .leave ⟨rfl, rfl, _, ⟨hc.toSameBase.congr rfl rfl, hc.law.scheduled _ _⟩⟩
    | false =>
      simp only
      cases hdrop : dropAndDequeue now j c with
      | mk ok result =>
        obtain ⟨next, e⟩ := result
        obtain ⟨e', hdrop', he, hover⟩ := dropAndDequeue_delayed hc hoc hoc' hdrop
        rw [hdrop']
        have hstopped : SameResult offset (false, next, { e with inner := { e.inner with m_dropping := false } })
            (false, next.map (later offset), { e' with inner := { e'.inner with m_dropping := false } }) :=
          ⟨rfl, rfl, shift, ⟨he.toSameBase.congr rfl rfl, he.law.setDropping false⟩⟩
        cases ok with
        | false => exact .leave hstopped
        | true =>
          cases next with
          | none => exact .leave hstopped
          | some next =>
            obtain ⟨hoe, hoe'⟩ := hover rfl
            have hshift := he.law.scheduled e.inner.m_dropNext e'.inner.m_dropNext
            rw [he.law.dropNext, add_sub_cancel_left, ← he.law.dropNext] at hshift
            exact .again ⟨rfl, ⟨he.toSameBase.congr rfl rfl, hshift⟩, ⟨hoe.set, hoe.past⟩, ⟨hoe'.set, hoe'.past⟩⟩

/-- The loop's comparison comes out alike in both runs. -/
def SameDue (n n' shift : UInt32) (t : Item × QueueDisc (CoDel Item) Item) : Prop :=
  coDelTimeAfterEq n' (t.2.inner.m_dropNext + shift) = coDelTimeAfterEq n t.2.inner.m_dropNext

instance (n n' shift : UInt32) (t : Item × QueueDisc (CoDel Item) Item) : Decidable (SameDue n n' shift t) :=
  inferInstanceAs (Decidable (_ = _))

theorem dropTurn_rel [TimeStamped Item] {t t' : Item × QueueDisc (CoDel Item) Item}
    (hdue : SameDue (time2CoDel now) (time2CoDel (now + offset)) shift t) (h : SameTurn offset now shift t t') :
    Turn.Rel (SameTurn offset now shift) (SameResult offset) (dropTurn now t) (dropTurn (now + offset) t') := by
  obtain ⟨i, d⟩ := t
  obtain ⟨i', d'⟩ := t'
  obtain rfl : i' = later offset i := h.item
  have hdelayed : Delayed offset shift d d' := h.disc
  have hsame : (d'.inner.m_dropping && coDelTimeAfterEq (time2CoDel (now + offset)) d'.inner.m_dropNext) =
      (d.inner.m_dropping && coDelTimeAfterEq (time2CoDel now) d.inner.m_dropNext) := by
    rw [hdelayed.law.dropNext, hdue, hdelayed.law.law]
  rw [dropTurn, dropTurn, hsame]
  split
  · have hcounted : Delayed offset shift { d with inner := d.inner.counted }
        { d' with inner := d'.inner.counted } := ⟨hdelayed.toSameBase.congr rfl rfl, hdelayed.law.counted⟩
    exact dropOrMark_rel hcounted ⟨h.overdue.set, h.overdue.past⟩ ⟨h.overdue'.set, h.overdue'.past⟩ i
  · exact .leave ⟨rfl, rfl, shift, hdelayed⟩

theorem firstDrop_same [TimeStamped Item] (h : Delayed offset shift d d') (ho : Overdue (time2CoDel now) d.inner)
    (ho' : Overdue (time2CoDel (now + offset)) d'.inner) {isMarked : Bool}
    (hfirst : firstDrop now i d = (isMarked, item, c)) :
    ∃ c', firstDrop (now + offset) (later offset i) d' = (isMarked, item.map (later offset), c') ∧
      Delayed offset shift c c' := by
  have hecn : d'.inner.m_useEcn = d.inner.m_useEcn := by rw [h.law.law]
  rw [firstDrop] at hfirst ⊢
  rw [hecn]
  cases hmark : d.markIf d.inner.m_useEcn i targetExceededMark with
  | mk marked result =>
    obtain ⟨j, e⟩ := result
    obtain ⟨e', hmark', he⟩ := h.markIf hmark
    rw [hmark] at hfirst
    rw [hmark']
    cases marked with
    | true =>
      cases hfirst
      exact ⟨e', rfl, he⟩
    | false =>
      cases hdrop : dropAndDequeue now j e with
      | mk ok result =>
        obtain ⟨next, f⟩ := result
        obtain ⟨f', hdrop', hf, -⟩ := dropAndDequeue_delayed he ((markIf_serves hmark).2 ▸ ho)
          ((markIf_serves hmark').2 ▸ ho') hdrop
        simp only [hdrop] at hfirst
        cases hfirst
        exact ⟨f', by simp only [hdrop'], hf⟩

/-- The time since `m_dropNext` is looked at if the count has grown, and is then on the same side of sixteen
intervals in both runs. -/
def SameAge (n n' shift : UInt32) (s : CoDel Item) : Prop :=
  1 < (s.m_count - s.m_lastCount).toInt32 →
    coDelTimeBefore (n' - (s.m_dropNext + shift)) (16 * time2CoDel s.m_interval) =
      coDelTimeBefore (n - s.m_dropNext) (16 * time2CoDel s.m_interval)

instance (n n' shift : UInt32) (s : CoDel Item) : Decidable (SameAge n n' shift s) :=
  inferInstanceAs (Decidable (_ → _))

theorem SameLaw.restarted (h : SameLaw offset shift s s') {n n' : UInt32} (hage : SameAge n n' shift s) :
    SameLaw offset shift (s.restarted n) (s'.restarted n') := by
  have hresumes : s'.resumes n' = s.resumes n := by
    rw [resumes, resumes, h.law]
    by_cases hcount : 1 < (s.m_count - s.m_lastCount).toInt32
    · rw [hage hcount]
    · simp only [hcount, decide_false, Bool.false_and]
  rw [CoDel.restarted, CoDel.restarted, hresumes]
  split
  · refine ⟨h.queue, ?_, h.unset⟩
    rw [h.law]
  · refine ⟨h.queue, ?_, h.unset⟩
    rw [h.law]

theorem enterDropping_same [TimeStamped Item] (h : Delayed offset shift d d')
    (ho : Overdue (time2CoDel now) d.inner) (ho' : Overdue (time2CoDel (now + offset)) d'.inner)
    (hage : SameAge (time2CoDel now) (time2CoDel (now + offset)) shift d.inner) (i : Item) :
    SameResult offset (enterDropping now i d) (enterDropping (now + offset) (later offset i) d') := by
  rw [enterDropping, enterDropping]
  cases hfirst : firstDrop now i d with
  | mk isMarked result =>
    obtain ⟨next, c⟩ := result
    obtain ⟨c', hfirst', hc⟩ := firstDrop_same h ho ho' hfirst
    rw [hfirst']
    have hage' : SameAge (time2CoDel now) (time2CoDel (now + offset)) shift
        ({ c.inner with m_dropping := true } : CoDel Item) := by
      rw [firstDrop_inner hfirst]
      exact hage
    exact ⟨rfl, rfl, _, ⟨hc.toSameBase.congr rfl rfl, ((hc.law.setDropping true).restarted hage').scheduled _ _⟩⟩

/-- The comparisons that follow a packet which may be dropped. -/
def SameDrops (now : Time) (n' shift : UInt32) (i : Item) (d : QueueDisc (CoDel Item) Item) : Prop :=
  if d.inner.m_dropping then
    EachTurn (SameDue (time2CoDel now) n' shift) (dropTurn now) (d.inner.queue.m_packets.length + 1) (i, d)
  else SameAge (time2CoDel now) n' shift d.inner

instance (now : Time) (n' shift : UInt32) (i : Item) (d : QueueDisc (CoDel Item) Item) :
    Decidable (SameDrops now n' shift i d) :=
  if h : d.inner.m_dropping then
    decidable_of_iff (EachTurn (SameDue (time2CoDel now) n' shift) (dropTurn now)
      (d.inner.queue.m_packets.length + 1) (i, d)) (by rw [SameDrops, if_pos h])
  else decidable_of_iff (SameAge (time2CoDel now) n' shift d.inner) (by rw [SameDrops, if_neg h])

theorem dropIfOk_same [TimeStamped Item] (h : Delayed offset shift d d') (i : Item) {ok : Bool}
    (hok : ok = true → Overdue (time2CoDel now) d.inner ∧ Overdue (time2CoDel (now + offset)) d'.inner ∧
      SameDrops now (time2CoDel (now + offset)) shift i d) :
    Option.Rel (SameResult offset) (dropIfOk now ok i d) (dropIfOk (now + offset) ok (later offset i) d') := by
  have hdropping : d'.inner.m_dropping = d.inner.m_dropping := by rw [h.law.law]
  have hlen : d'.inner.queue.m_packets.length = d.inner.queue.m_packets.length := by
    rw [h.law.queue.packets, List.length_map]
  rw [dropIfOk, dropIfOk, hdropping, hlen]
  cases ok with
  | false =>
    split
    · exact .some ⟨rfl, rfl, shift, ⟨h.toSameBase.congr rfl rfl, h.law.setDropping false⟩⟩
    · exact .some ⟨rfl, rfl, shift, h⟩
  | true =>
    obtain ⟨ho, ho', hdrops⟩ := hok rfl
    rw [SameDrops] at hdrops
    split
    · next hd =>
      rw [if_pos hd] at hdrops
      exact turns_rel (fun t t' hdue ht => dropTurn_rel hdue ht) hdrops ⟨rfl, h, ho, ho'⟩
    · next hd =>
      rw [if_neg hd] at hdrops
      exact .some (enterDropping_same h ho ho' hdrops i)

/-- `OkToDrop` compares the clock with its deadline, or sets it, alike in both runs; `firstAboveTime` is the
deadline of the second one. -/
def SameOkToDrop (n n' firstAboveTime : UInt32) (s : CoDel Item) : Prop :=
  if s.m_firstAboveTime = 0 then n' + time2CoDel s.m_interval = 0 ↔ n + time2CoDel s.m_interval = 0
  else coDelTimeAfter n' firstAboveTime = coDelTimeAfter n s.m_firstAboveTime

instance (n n' firstAboveTime : UInt32) (s : CoDel Item) : Decidable (SameOkToDrop n n' firstAboveTime s) :=
  if h : s.m_firstAboveTime = 0 then
    decidable_of_iff (n' + time2CoDel s.m_interval = 0 ↔ n + time2CoDel s.m_interval = 0)
      (by rw [SameOkToDrop, if_pos h])
  else
    decidable_of_iff (coDelTimeAfter n' firstAboveTime = coDelTimeAfter n s.m_firstAboveTime)
      (by rw [SameOkToDrop, if_neg h])

theorem finish_same [TimeStamped Item] {a a' : Bool × Option Item × QueueDisc (CoDel Item) Item}
    (h : SameResult offset a a') :
    Option.Rel (fun r r' => r'.1 = r.1.map (later offset) ∧ ∃ shift, Delayed offset shift r.2 r'.2)
      (finish now a) (finish (now + offset) a') := by
  obtain ⟨isMarked, item, d⟩ := a
  obtain ⟨isMarked', item', d'⟩ := a'
  obtain rfl : isMarked = isMarked' := h.isMarked.symm
  obtain rfl : item' = item.map (later offset) := h.item
  obtain ⟨shift, hd⟩ := h.disc
  have hd : Delayed offset shift d d' := hd
  cases item with
  | none => exact .none
  | some i =>
    have hcalled : (!isMarked && !d'.inner.m_useL4s && d'.inner.m_useEcn &&
        coDelTimeAfter (sojournTime (now + offset) (later offset i)) (time2CoDel d'.inner.m_ceThreshold)) =
        (!isMarked && !d.inner.m_useL4s && d.inner.m_useEcn &&
          coDelTimeAfter (sojournTime now i) (time2CoDel d.inner.m_ceThreshold)) := by
      rw [sojournTime_later, hd.law.law]
    simp only [finish, Option.map_some, hcalled]
    cases hmark : d.markIf (!isMarked && !d.inner.m_useL4s && d.inner.m_useEcn &&
        coDelTimeAfter (sojournTime now i) (time2CoDel d.inner.m_ceThreshold)) i ceThresholdExceededMark with
    | mk marked result =>
      obtain ⟨j, c⟩ := result
      obtain ⟨c', hmark', hc⟩ := hd.markIf hmark
      rw [hmark']
      exact .some ⟨rfl, shift, hc⟩

theorem okToDrop_eq (now : Time) (i : Item) (s : CoDel Item) :
    okToDrop now (some i) s = if below now i s then (false, { s with m_firstAboveTime := 0 })
      else if s.m_firstAboveTime = 0 then
        (false, { s with m_firstAboveTime := time2CoDel now + time2CoDel s.m_interval })
      else (coDelTimeAfter (time2CoDel now) s.m_firstAboveTime, s) := rfl

/-- The comparisons for the packet popped come out alike in both runs, the second one of which reads `n'` and
has the deadlines given. -/
def SameControl (now : Time) (n' firstAboveTime dropNext : UInt32) (i : Item) (d : QueueDisc (CoDel Item) Item) :
    Prop :=
  below now i d.inner = false →
    SameOkToDrop (time2CoDel now) n' firstAboveTime d.inner ∧
      (Overdue (time2CoDel now) d.inner → SameDrops now n' (dropNext - d.inner.m_dropNext) i d)

instance (now : Time) (n' firstAboveTime dropNext : UInt32) (i : Item) (d : QueueDisc (CoDel Item) Item) :
    Decidable (SameControl now n' firstAboveTime dropNext i d) :=
  inferInstanceAs (Decidable (_ → _ ∧ (_ → _)))

theorem control_same [TimeStamped Item] (h : Delayed offset shift d d') (i : Item)
    (hsame : SameControl now (time2CoDel (now + offset)) d'.inner.m_firstAboveTime d'.inner.m_dropNext i d) :
    Option.Rel (SameResult offset) (control now i d) (control (now + offset) (later offset i) d') := by
  rw [control, control, okToDrop_eq, okToDrop_eq, below_later h.law]
  cases hbelow : below now i d.inner with
  | true =>
    have hunset : Delayed offset shift { d with inner := { d.inner with m_firstAboveTime := 0 } }
        { d' with inner := { d'.inner with m_firstAboveTime := 0 } } :=
      ⟨h.toSameBase.congr rfl rfl, h.law.setFirstAbove Iff.rfl⟩
    exact dropIfOk_same hunset i fun hf => absurd hf Bool.false_ne_true
  | false =>
    obtain ⟨hok, hdrops⟩ := hsame hbelow
    rw [SameOkToDrop] at hok
    simp only [Bool.false_eq_true, if_false]
    by_cases hset : d.inner.m_firstAboveTime = 0
    · rw [if_pos hset] at hok
      rw [if_pos hset, if_pos (h.law.unset.mpr hset)]
      have hunset : time2CoDel (now + offset) + time2CoDel d'.inner.m_interval = 0 ↔
          time2CoDel now + time2CoDel d.inner.m_interval = 0 := by
        have hinterval : d'.inner.m_interval = d.inner.m_interval := by rw [h.law.law]
        rw [hinterval]
        exact hok
      have hstarted : Delayed offset shift
          { d with inner := { d.inner with m_firstAboveTime := time2CoDel now + time2CoDel d.inner.m_interval } }
          { d' with inner := { d'.inner with
            m_firstAboveTime := time2CoDel (now + offset) + time2CoDel d'.inner.m_interval } } :=
        ⟨h.toSameBase.congr rfl rfl, h.law.setFirstAbove hunset⟩
      exact dropIfOk_same hstarted i fun hf => absurd hf Bool.false_ne_true
    · rw [if_neg hset] at hok
      have hset' := mt h.law.unset.mp hset
      rw [if_neg hset, if_neg hset', hok]
      refine dropIfOk_same h i fun hpast => ?_
      have ho : Overdue (time2CoDel now) d.inner := ⟨hset, hpast⟩
      refine ⟨ho, ⟨hset', hok.trans hpast⟩, ?_⟩
      have hshift := hdrops ho
      rw [h.law.dropNext, add_sub_cancel_left] at hshift
      exact hshift

/-- The comparisons that a call of `DoDequeue` makes come out alike in both runs. -/
def SameReadings (offset now : Time) (d d' : QueueDisc (CoDel Item) Item) : Prop :=
  match d.dequeueInternal internalQueue with
  | (none, _) => True
  | (some i, c) =>
    (c.inner.m_useL4s && isL4s i) = false →
      SameControl now (time2CoDel (now + offset)) d'.inner.m_firstAboveTime d'.inner.m_dropNext i c

instance (offset now : Time) (d d' : QueueDisc (CoDel Item) Item) : Decidable (SameReadings offset now d d') :=
  match h : d.dequeueInternal internalQueue with
  | (none, _) => .isTrue (by rw [SameReadings, h]; trivial)
  | (some i, c) =>
    decidable_of_iff ((c.inner.m_useL4s && isL4s i) = false →
      SameControl now (time2CoDel (now + offset)) d'.inner.m_firstAboveTime d'.inner.m_dropNext i c)
      (by rw [SameReadings, h])

/-- A packet popped leaves the deadlines alone. -/
theorem dequeueInternal_deadlines (hdeq : d.dequeueInternal internalQueue = (item, c)) :
    c.inner.m_firstAboveTime = d.inner.m_firstAboveTime ∧ c.inner.m_dropNext = d.inner.m_dropNext := by
  cases item with
  | none =>
    rw [(dequeueInternal_eq_none hdeq).1]
    exact ⟨rfl, rfl⟩
  | some i =>
    obtain ⟨q, -, hinner⟩ := dequeueInternal_eq_some hdeq
    rw [hinner]
    exact ⟨rfl, rfl⟩

theorem doDequeue_same [TimeStamped Item] (h : Delayed offset shift d d') (hsame : SameReadings offset now d d') :
    Option.Rel (fun r r' => r'.1 = r.1.map (later offset) ∧ ∃ shift, Delayed offset shift r.2 r'.2)
      (doDequeue now d) (doDequeue (now + offset) d') := by
  rw [doDequeue, doDequeue]
  rw [SameReadings] at hsame
  cases hpop : d.dequeueInternal internalQueue with
  | mk popped c =>
    obtain ⟨c', hpop', hc⟩ := h.dequeueInternal hpop
    rw [hpop] at hsame
    rw [hpop']
    cases popped with
    | none => exact .some ⟨rfl, shift, ⟨hc.toSameBase.congr rfl rfl, hc.law.setDropping false⟩⟩
    | some i =>
      have hl4s : (c'.inner.m_useL4s && isL4s (later offset i)) = (c.inner.m_useL4s && isL4s i) := by
        rw [isL4s_later, hc.law.law]
      have hce : coDelTimeAfter (sojournTime (now + offset) (later offset i)) (time2CoDel c'.inner.m_ceThreshold) =
          coDelTimeAfter (sojournTime now i) (time2CoDel c.inner.m_ceThreshold) := by
        rw [sojournTime_later, hc.law.law]
      simp only [Option.map_some, hl4s, hce]
      cases hscalable : c.inner.m_useL4s && isL4s i with
      | true =>
        cases hmark : c.markIf (coDelTimeAfter (sojournTime now i) (time2CoDel c.inner.m_ceThreshold)) i
            ceThresholdExceededMark with
        | mk marked result =>
          obtain ⟨j, e⟩ := result
          obtain ⟨e', hmark', he⟩ := hc.markIf hmark
          rw [hmark']
          exact .some ⟨rfl, shift, he⟩
      | false =>
        have hcontrol := hsame hscalable
        obtain ⟨hf, hn⟩ := dequeueInternal_deadlines hpop'
        rw [← hf, ← hn] at hcontrol
        have hrel := control_same hc i hcontrol
        simp only [Bool.false_eq_true, if_false]
        exact rel_bind hrel fun a a' _ _ hres => finish_same hres

theorem Delayed.doEnqueue (h : Delayed offset shift d d') (i : Item) (t t' : Time) :
    Option.Rel (fun r r' => Delayed offset shift r.2 r'.2) (coDelQueueDisc.doEnqueue t i d)
      (coDelQueueDisc.doEnqueue t' (later offset i) d') := by
  have hover : d'.overLimit internalQueue (later offset i) = d.overLimit internalQueue i := by
    have hmax : (internalQueue.get d'.inner).m_maxSize = (internalQueue.get d.inner).m_maxSize :=
      h.law.queue.maxSize
    rw [overLimit, overLimit, hmax, getCurrentSize, getCurrentSize, h.nPackets, h.nBytes, QueueSize.plus,
      QueueSize.plus, getSize_later]
  refine .some ?_
  rw [hover]
  split
  · exact ⟨h.toSameBase.dropBeforeEnqueue i overlimitDrop, h.law⟩
  · rw [enqueueInternal, enqueueInternal]
    cases h.law.queue.enqueue i with
    | inl hstored =>
      obtain ⟨q₁, q₁', hq, hq', hqueue⟩ := hstored
      have hq : (internalQueue.get d.inner).enqueue i = some q₁ := hq
      have hq' : (internalQueue.get d'.inner).enqueue (later offset i) = some q₁' := hq'
      rw [hq, hq']
      have hbase : SameBase offset ({ d with inner := internalQueue.set q₁ d.inner } : QueueDisc _ Item)
        ({ d' with inner := internalQueue.set q₁' d'.inner } : QueueDisc _ Item) := h.toSameBase.congr rfl rfl
      exact ⟨hbase.packetEnqueued i, h.law.setQueue hqueue⟩
    | inr hfull =>
      have hq : (internalQueue.get d.inner).enqueue i = none := hfull.1
      have hq' : (internalQueue.get d'.inner).enqueue (later offset i) = none := hfull.2
      rw [hq, hq']
      exact ⟨h.toSameBase.dropBeforeEnqueue i internalQueueDrop, h.law⟩

/-- The queue discs of two runs between calls, with what they returned. -/
structure SameSession (offset : Time) (r r' : Session (CoDel Item) Item) : Prop where
  disc : ∃ shift, Delayed offset shift r.disc r'.disc
  requeued : r.disc.m_requeued = none
  returned : r'.returned = r.returned.map (later offset)

end Twin

end CoDel

/-- The call at another time. -/
def QueueDisc.Op.delayed (offset : Time) : Op Item → Op Item
  | .enqueue now item => .enqueue (now + offset) item
  | .dequeue now => .dequeue (now + offset)

namespace CoDel

section Runs

variable {offset : Time} {r r' : Session (CoDel Item) Item}

/-- The comparisons of a call come out alike in both runs. -/
def SameCall (offset : Time) (r r' : Session (CoDel Item) Item) : Op Item → Prop
  | .enqueue _ _ => True
  | .dequeue now => SameReadings offset now r.disc r'.disc

/-- The comparisons of all calls come out alike in both runs. -/
def AllSame (offset : Time) (r r' : Session (CoDel Item) Item) : List (Op Item) → Prop
  | [] => True
  | call :: calls =>
    SameCall offset r r' call ∧
      match coDelQueueDisc.serve r call, coDelQueueDisc.serve r' (call.delayed offset) with
      | some r₁, some r₁' => AllSame offset r₁ r₁' calls
      | _, _ => True

theorem serve_same [TimeStamped Item] (h : SameSession offset r r') {call : Op Item}
    (hcall : SameCall offset r r' call) :
    Option.Rel (SameSession offset) (coDelQueueDisc.serve r call)
      (coDelQueueDisc.serve r' (call.delayed offset)) := by
  obtain ⟨shift, hd⟩ := h.disc
  have hrequeued' : r'.disc.m_requeued = none := by rw [hd.requeued, h.requeued]; rfl
  cases call with
  | enqueue now item =>
    have hcounted : Delayed offset shift (r.disc.countReceived item) (r'.disc.countReceived item) :=
      ⟨hd.toSameBase.congr rfl rfl, hd.law⟩
    have hstamp : setTimeStamp (now + offset) item = later offset (setTimeStamp now item) := by
      rw [later, TimeStamped.getTimeStamp_setTimeStamp, TimeStamped.setTimeStamp_setTimeStamp]
    have hrel := hcounted.doEnqueue (setTimeStamp now item) now (now + offset)
    rw [← hstamp] at hrel
    rw [Methods.serve, Op.delayed, Methods.serve, Methods.enqueue, Methods.enqueue]
    refine rel_bind hrel ?_
    rintro ⟨stored, e⟩ ⟨stored', e'⟩ hres - hdisc
    refine .some ⟨⟨shift, hdisc⟩, ?_, h.returned⟩
    exact (doEnqueue_acts hres).sameSlot.requeued.trans h.requeued
  | dequeue now =>
    have hdeq : coDelQueueDisc.dequeue now r.disc = doDequeue now r.disc := by
      rw [Methods.dequeue, h.requeued]
      rfl
    have hdeq' : coDelQueueDisc.dequeue (now + offset) r'.disc = doDequeue (now + offset) r'.disc := by
      rw [Methods.dequeue, hrequeued']
      rfl
    rw [Methods.serve, Op.delayed, Methods.serve, hdeq, hdeq']
    refine rel_bind (doDequeue_same hd hcall) fun a a' hres _ hsame => ?_
    obtain ⟨hitem, hdisc⟩ := hsame
    refine .some ⟨hdisc, (doDequeue_dequeues hres).acts.sameSlot.requeued.trans h.requeued, ?_⟩
    show r'.returned ++ a'.1.toList = (r.returned ++ a.1.toList).map (later offset)
    rw [h.returned, hitem, List.map_append, Option.toList_map]

theorem serves_same [TimeStamped Item] {calls : List (Op Item)} (h : SameSession offset r r')
    (hsame : AllSame offset r r' calls) :
    Option.Rel (SameSession offset) (calls.foldlM coDelQueueDisc.serve r)
      ((calls.map (Op.delayed offset)).foldlM coDelQueueDisc.serve r') := by
  induction calls generalizing r r' with
  | nil => exact .some h
  | cons call calls ih =>
    refine rel_bind (serve_same h hsame.1) fun r₁ r₁' hr hr' h₁ => ih h₁ ?_
    have hrest := hsame.2
    rw [hr, hr'] at hrest
    exact hrest

instance (offset : Time) (r r' : Session (CoDel Item) Item) : (call : Op Item) → Decidable (SameCall offset r r' call)
  | .enqueue _ _ => .isTrue trivial
  | .dequeue now => inferInstanceAs (Decidable (SameReadings offset now r.disc r'.disc))

instance AllSame.decidable (offset : Time) : (r r' : Session (CoDel Item) Item) → (calls : List (Op Item)) →
    Decidable (AllSame offset r r' calls)
  | _, _, [] => .isTrue trivial
  | r, r', call :: calls =>
    match h : coDelQueueDisc.serve r call, h' : coDelQueueDisc.serve r' (call.delayed offset) with
    | some r₁, some r₁' =>
      have := AllSame.decidable offset r₁ r₁' calls
      decidable_of_iff (SameCall offset r r' call ∧ AllSame offset r₁ r₁' calls) (by rw [AllSame, h, h'])
    | none, _ => decidable_of_iff (SameCall offset r r' call) (by rw [AllSame, h, and_iff_left]; trivial)
    | some _, none => decidable_of_iff (SameCall offset r r' call) (by rw [AllSame, h, h', and_iff_left]; trivial)

/-- A CoDel queue disc before its first packet. -/
def configured (m_useEcn m_useL4s : Bool) (m_minBytes : UInt32) (m_interval m_target m_ceThreshold : Time)
    (maxSize : QueueSize) : Session (CoDel Item) Item where
  disc := { inner := { m_useEcn, m_useL4s, m_minBytes, m_interval, m_target, m_ceThreshold,
                       queue := Queue.empty maxSize } }

theorem sameSession_self (r : Session (CoDel Item) Item) (hqueue : r.disc.inner.queue.m_packets = [])
    (hrequeued : r.disc.m_requeued = none) (htraces : r.disc.traces = []) (hreturned : r.returned = []) :
    SameSession offset r r where
  disc := by
    refine ⟨0, ⟨rfl, rfl, rfl, by rw [hrequeued]; rfl, by rw [htraces]; rfl⟩,
      ⟨by rw [hqueue]; rfl, rfl⟩, ?_, Iff.rfl⟩
    rw [UInt32.add_zero]
  requeued := hrequeued
  returned := by rw [hreturned]; rfl

/-- The same packets were dropped, marked and returned, in the same order. -/
structure SameOutcome (offset : Time) (r r' : Session (CoDel Item) Item) : Prop where
  returned : r'.returned = r.returned.map (later offset)
  traces : r'.disc.traces = r.disc.traces.map (Trace.map (later offset))

/-- Datagrams with a number each. -/
def numbered (n : UInt8) : Internet.Ipv4QueueDiscItem := { payload := [n] }

/-- Three packets, of which two are dequeued when they have waited for more than the target. -/
def threeWaiting : List (Op Internet.Ipv4QueueDiscItem) :=
  [.enqueue 0 (numbered 1), .enqueue 0 (numbered 2), .enqueue 0 (numbered 3),
    .dequeue 10000000, .dequeue 20000000]

/-- The default control law, which may drop while one byte is left. -/
def oneByte : Session (CoDel Internet.Ipv4QueueDiscItem) Internet.Ipv4QueueDiscItem :=
  configured false false 1 100000000 5000000 (2 ^ 63 - 1) ⟨.packets, 10⟩

end Runs

end CoDel

end Ns3.TrafficControl
