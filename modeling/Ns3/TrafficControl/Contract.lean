import Ns3.Lib.Account
import Ns3.TrafficControl.QueueDisc

/-!
# The books of a queue disc

What `DoEnqueue` and `DoDequeue` may do, as sequences of single acts: putting the packet away, taking
packets out, dropping them, each reported by the callback that belongs to it. Every act keeps the counters
of the base class in balance with where the packets are, peeked or not, and so does every call of a root
queue disc. `GetStats` alone takes a peeked packet for one that was dequeued.
-/

namespace Ns3.TrafficControl

open Ns3.Lib Ns3.Network QueueDiscItem QueueDisc

variable {σ Item δ : Type}

/-- The packets that a function of the subclass has in hand: the one to be enqueued, until it is stored or
dropped, and those taken out, until they are dropped or returned. -/
structure Hand (Item : Type) where
  fresh : Multiset Item
  out : Multiset Item

/-- The packet that is returned, if any. -/
def single (item : Option Item) : Multiset Item := item.elim 0 fun i => {i}

@[simp] theorem single_none : single (none : Option Item) = 0 := rfl

@[simp] theorem single_some (i : Item) : single (some i) = {i} := rfl

variable [QueueDiscItem Item]

section Contract

variable (held : σ → Multiset Item)

/-- One act of a subclass whose internal queues and child queue discs hold `held inner`. -/
inductive Act : Hand Item × QueueDisc σ Item → Hand Item × QueueDisc σ Item → Prop
  | enqueue {i : Item} {fresh out : Multiset Item} {d : QueueDisc σ Item} (inner : σ)
      (h : held inner = i ::ₘ held d.inner) :
      Act (⟨i ::ₘ fresh, out⟩, d) (⟨fresh, out⟩, ({ d with inner } : QueueDisc σ Item).packetEnqueued i)
  | dropBefore {i : Item} {fresh out : Multiset Item} {d : QueueDisc σ Item} (reason : String) :
      Act (⟨i ::ₘ fresh, out⟩, d) (⟨fresh, out⟩, d.dropBeforeEnqueue i reason)
  | dequeue {i : Item} {fresh out : Multiset Item} {d : QueueDisc σ Item} (inner : σ)
      (h : held d.inner = i ::ₘ held inner) :
      Act (⟨fresh, out⟩, d) (⟨fresh, i ::ₘ out⟩, ({ d with inner } : QueueDisc σ Item).packetDequeued i)
  | dropAfter {i : Item} {fresh out : Multiset Item} {d : QueueDisc σ Item} (reason : String) :
      Act (⟨fresh, i ::ₘ out⟩, d) (⟨fresh, out⟩, d.dropAfterDequeue i reason)
  | markFresh {i i' : Item} {fresh out : Multiset Item} {d d' : QueueDisc σ Item} (reason : String)
      (h : d.markItem i reason = some (i', d')) :
      Act (⟨i ::ₘ fresh, out⟩, d) (⟨i' ::ₘ fresh, out⟩, d')
  | markOut {i i' : Item} {fresh out : Multiset Item} {d d' : QueueDisc σ Item} (reason : String)
      (h : d.markItem i reason = some (i', d')) :
      Act (⟨fresh, i ::ₘ out⟩, d) (⟨fresh, i' ::ₘ out⟩, d')
  | internal {hand : Hand Item} {d : QueueDisc σ Item} (inner : σ) (h : held inner = held d.inner) :
      Act (hand, d) (hand, { d with inner })

/-- Acts one after the other. -/
abbrev Acts := Relation.ReflTransGen (Act held)

end Contract

/-- The virtual functions of a subclass that keeps to the contract: `DoEnqueue` stores the packet or
drops it, `DoDequeue` returns a packet it has taken out, and every other packet taken out is dropped. -/
structure Discipline (σ Item : Type) [QueueDiscItem Item] extends Methods σ Item where
  /-- The packets in the internal queues and child queue discs. -/
  held : σ → Multiset Item
  start : σ
  held_start : held start = 0
  enqueue_acts : ∀ {now i d ok d'}, doEnqueue now i d = some (ok, d') →
    Acts held (⟨{i}, 0⟩, d) (⟨0, 0⟩, d')
  dequeue_acts : ∀ {now d item d'}, doDequeue now d = some (item, d') →
    Acts held (⟨0, 0⟩, d) (⟨0, single item⟩, d')
  peek_acts : ∀ {f now d item d'}, doPeek = some f → f now d = some (item, d') →
    Acts held (⟨0, 0⟩, d) (⟨0, 0⟩, d')

namespace QueueDisc

/-- The counters of packets, as an account. -/
def packets (d : QueueDisc σ Item) : Account UInt32 where
  received := d.m_stats.nTotalReceivedPackets
  enqueued := d.m_stats.nTotalEnqueuedPackets
  dequeued := d.m_stats.nTotalDequeuedPackets
  droppedBefore := d.m_stats.nTotalDroppedPacketsBeforeEnqueue
  droppedAfter := d.m_stats.nTotalDroppedPacketsAfterDequeue

/-- The counters of bytes, as an account. -/
def bytes (d : QueueDisc σ Item) : Account UInt64 where
  received := d.m_stats.nTotalReceivedBytes
  enqueued := d.m_stats.nTotalEnqueuedBytes
  dequeued := d.m_stats.nTotalDequeuedBytes
  droppedBefore := d.m_stats.nTotalDroppedBytesBeforeEnqueue
  droppedAfter := d.m_stats.nTotalDroppedBytesAfterDequeue

/-- The weight that counts packets. -/
abbrev one : Item → UInt32 := fun _ => 1

/-- All counters agree with where the packets are. -/
structure Booked (d : QueueDisc σ Item) (p : Places Item) : Prop where
  packets : d.packets.Balances one p
  bytes : d.bytes.Balances bytesOf p
  nPackets : d.m_nPackets = weigh one p.stored
  nBytes : d.m_nBytes = weigh getSize p.stored

namespace Booked

variable {d d' : QueueDisc σ Item} {fresh stored taken left : Multiset Item} {i : Item}

/-- Only the counters matter. -/
theorem of_same {p : Places Item} (h : d.Booked p) (hpackets : d'.packets = d.packets)
    (hbytes : d'.bytes = d.bytes) (hnPackets : d'.m_nPackets = d.m_nPackets)
    (hnBytes : d'.m_nBytes = d.m_nBytes) : d'.Booked p where
  packets := by rw [hpackets]; exact h.packets
  bytes := by rw [hbytes]; exact h.bytes
  nPackets := by rw [hnPackets]; exact h.nPackets
  nBytes := by rw [hnBytes]; exact h.nBytes

theorem moved {p q : Places Item} (h : d.Booked p) (hplaces : q = p) (hpackets : d'.packets = d.packets)
    (hbytes : d'.bytes = d.bytes) (hnPackets : d'.m_nPackets = d.m_nPackets)
    (hnBytes : d'.m_nBytes = d.m_nBytes) : d'.Booked q :=
  hplaces ▸ h.of_same hpackets hbytes hnPackets hnBytes

/-- Packets may change as long as their sizes do not. -/
theorem congr {p q : Places Item} (h : d.Booked p) (hfresh : q.fresh.map getSize = p.fresh.map getSize)
    (hstored : q.stored.map getSize = p.stored.map getSize)
    (htaken : q.taken.map getSize = p.taken.map getSize)
    (hleft : q.left.map getSize = p.left.map getSize) : d.Booked q := by
  have hsize : ∀ {s t : Multiset Item}, t.map getSize = s.map getSize →
      weigh getSize t = weigh getSize s := fun h => congrArg Multiset.sum h
  have hone : ∀ {s t : Multiset Item}, t.map getSize = s.map getSize → weigh one t = weigh one s := by
    intro s t h
    rw [weigh_one, weigh_one, ← Multiset.card_map getSize t, h, Multiset.card_map]
  have hbytes : ∀ {s t : Multiset Item}, t.map getSize = s.map getSize →
      weigh bytesOf t = weigh bytesOf s := by
    intro s t h
    have hmap : ∀ s : Multiset Item, s.map bytesOf = (s.map getSize).map UInt32.toUInt64 := by
      intro s
      rw [Multiset.map_map]
      rfl
    rw [weigh, weigh, hmap, hmap, h]
  exact ⟨h.packets.congr (hone hfresh) (hone hstored) (hone htaken) (hone hleft),
    h.bytes.congr (hbytes hfresh) (hbytes hstored) (hbytes htaken) (hbytes hleft),
    h.nPackets.trans (hone hstored).symm, h.nBytes.trans (hsize hstored).symm⟩

theorem countReceived (h : d.Booked ⟨fresh, stored, taken, left⟩) (i : Item) :
    (d.countReceived i).Booked ⟨i ::ₘ fresh, stored, taken, left⟩ :=
  ⟨h.packets.receive i, h.bytes.receive i, h.nPackets, h.nBytes⟩

theorem packetEnqueued (h : d.Booked ⟨i ::ₘ fresh, stored, taken, left⟩) :
    (d.packetEnqueued i).Booked ⟨fresh, i ::ₘ stored, taken, left⟩ where
  packets := h.packets.enqueue
  bytes := h.bytes.enqueue
  nPackets := by
    show d.m_nPackets + 1 = weigh one (i ::ₘ stored)
    rw [weigh_cons, h.nPackets, add_comm]
  nBytes := by
    show d.m_nBytes + getSize i = weigh getSize (i ::ₘ stored)
    rw [weigh_cons, h.nBytes, add_comm]

theorem packetDequeued (h : d.Booked ⟨fresh, i ::ₘ stored, taken, left⟩) (hpeek : d.m_peeked = false) :
    (d.packetDequeued i).Booked ⟨fresh, stored, i ::ₘ taken, left⟩ := by
  rw [QueueDisc.packetDequeued, hpeek]
  constructor
  · exact h.packets.dequeue
  · exact h.bytes.dequeue
  · show d.m_nPackets - 1 = weigh one stored
    rw [h.nPackets, weigh_cons, add_sub_cancel_left]
  · show d.m_nBytes - getSize i = weigh getSize stored
    rw [h.nBytes, weigh_cons, add_sub_cancel_left]

theorem dropBeforeEnqueue (h : d.Booked ⟨i ::ₘ fresh, stored, taken, left⟩) (reason : String) :
    (d.dropBeforeEnqueue i reason).Booked ⟨fresh, stored, taken, left⟩ :=
  ⟨h.packets.dropBefore, h.bytes.dropBefore, h.nPackets, h.nBytes⟩

theorem countDropAfter (h : d.Booked ⟨fresh, stored, i ::ₘ taken, left⟩) (reason : String) :
    (d.countDropAfter i reason).Booked ⟨fresh, stored, taken, left⟩ :=
  ⟨h.packets.dropAfter, h.bytes.dropAfter, h.nPackets, h.nBytes⟩

theorem leave (h : d.Booked ⟨fresh, stored, i ::ₘ taken, left⟩) :
    d.Booked ⟨fresh, stored, taken, i ::ₘ left⟩ :=
  ⟨h.packets.leave, h.bytes.leave, h.nPackets, h.nBytes⟩

/-- A drop after a dequeue that was counted. -/
theorem dropAfterDequeue (h : d.Booked ⟨fresh, stored, i ::ₘ taken, left⟩) (hpeek : d.m_peeked = false)
    (reason : String) : (d.dropAfterDequeue i reason).Booked ⟨fresh, stored, taken, left⟩ := by
  rw [QueueDisc.dropAfterDequeue, if_neg (by simpa [QueueDisc.countDropAfter] using hpeek)]
  exact (h.countDropAfter reason).of_same rfl rfl rfl rfl

/-- A drop while peeking: the dequeue is counted with it. -/
theorem dropAfterDequeue_peeked (h : d.Booked ⟨fresh, i ::ₘ stored, taken, left⟩)
    (hpeek : d.m_peeked = true) (reason : String) :
    (d.dropAfterDequeue i reason).Booked ⟨fresh, stored, taken, left⟩ := by
  rw [QueueDisc.dropAfterDequeue, if_pos (by simpa [QueueDisc.countDropAfter] using hpeek)]
  have h' : ({ d with m_peeked := false } : QueueDisc σ Item).Booked ⟨fresh, i ::ₘ stored, taken, left⟩ :=
    h.of_same rfl rfl rfl rfl
  exact ((h'.packetDequeued rfl).countDropAfter reason).of_same rfl rfl rfl rfl

end Booked

/-- The flag is set for a packet in the slot only. -/
def Rest (d : QueueDisc σ Item) : Prop := d.m_requeued = none → d.m_peeked = false

section Places

variable (held : σ → Multiset Item)

/-- The packet in the slot. -/
def slot (d : QueueDisc σ Item) : Multiset Item := single d.m_requeued

/-- Where the packets are while a function of the subclass has some in hand: as long as a packet is being
peeked, what was taken out counts as stored. -/
def places (hand : Hand Item) (d : QueueDisc σ Item) (left : Multiset Item) : Places Item where
  fresh := hand.fresh
  stored := held d.inner + if d.m_peeked then hand.out + d.slot else 0
  taken := if d.m_peeked then 0 else hand.out + d.slot
  left := left

/-- The counters agree with the places. -/
def Balanced (hand : Hand Item) (d : QueueDisc σ Item) (left : Multiset Item) : Prop :=
  d.Booked (places held hand d left)

/-- The packets that the queue disc holds: those stored, and the one that is only peeked. -/
def contents (d : QueueDisc σ Item) : Multiset Item :=
  held d.inner + if d.m_peeked then d.slot else 0

end Places

section Acts

variable {held : σ → Multiset Item} {left : Multiset Item}

omit [QueueDiscItem Item] in
theorem places_peeked {hand : Hand Item} {d : QueueDisc σ Item} (h : d.m_peeked = true) :
    places held hand d left = ⟨hand.fresh, held d.inner + (hand.out + d.slot), 0, left⟩ := by
  simp [places, h]

omit [QueueDiscItem Item] in
theorem places_counted {hand : Hand Item} {d : QueueDisc σ Item} (h : d.m_peeked = false) :
    places held hand d left = ⟨hand.fresh, held d.inner, hand.out + d.slot, left⟩ := by
  simp [places, h]

/-- The slot and the flag, which no act touches. -/
structure SameSlot (d d' : QueueDisc σ Item) : Prop where
  requeued : d'.m_requeued = d.m_requeued
  peeked : d'.m_peeked = d.m_peeked

@[simp] theorem packetDequeued_inner (d : QueueDisc σ Item) (i : Item) :
    (d.packetDequeued i).inner = d.inner := by
  rw [QueueDisc.packetDequeued]
  split <;> rfl

@[simp] theorem dropAfterDequeue_inner (d : QueueDisc σ Item) (i : Item) (reason : String) :
    (d.dropAfterDequeue i reason).inner = d.inner := by
  rw [QueueDisc.dropAfterDequeue]
  split
  · exact packetDequeued_inner _ _
  · rfl

theorem SameSlot.packetDequeued (d : QueueDisc σ Item) (i : Item) : SameSlot d (d.packetDequeued i) := by
  rw [QueueDisc.packetDequeued]
  split
  · exact ⟨rfl, rfl⟩
  · exact ⟨rfl, rfl⟩

theorem SameSlot.dropAfterDequeue (d : QueueDisc σ Item) (i : Item) (reason : String) :
    SameSlot d (d.dropAfterDequeue i reason) := by
  rw [QueueDisc.dropAfterDequeue]
  split
  · next h => exact ⟨rfl, h.symm⟩
  · exact ⟨rfl, rfl⟩

theorem markItem_spec {d d' : QueueDisc σ Item} {i i' : Item} {reason : String}
    (h : d.markItem i reason = some (i', d')) :
    getSize i' = getSize i ∧ SameSlot d d' ∧ d'.inner = d.inner ∧
      ∀ p : Places Item, d.Booked p → d'.Booked p := by
  obtain ⟨item, hitem, heq⟩ := Option.map_eq_some_iff.mp h
  obtain ⟨rfl, rfl⟩ := Prod.mk.inj heq
  exact ⟨getSize_mark _ _ hitem, ⟨rfl, rfl⟩, rfl, fun p hp => hp.of_same rfl rfl rfl rfl⟩

theorem mark_of_markItem {d d' : QueueDisc σ Item} {i i' : Item} {reason : String}
    (h : d.markItem i reason = some (i', d')) : mark i = some i' := by
  obtain ⟨item, hitem, heq⟩ := Option.map_eq_some_iff.mp h
  rw [hitem, ← (Prod.mk.inj heq).1]

section Balanced

variable {fresh out : Multiset Item} {i i' : Item} {d d' : QueueDisc σ Item} {inner : σ}

theorem balanced_peeked {hand : Hand Item} (h : d.m_peeked = true) :
    Balanced held hand d left ↔ d.Booked ⟨hand.fresh, held d.inner + (hand.out + d.slot), 0, left⟩ := by
  rw [Balanced, places_peeked h]

theorem balanced_counted {hand : Hand Item} (h : d.m_peeked = false) :
    Balanced held hand d left ↔ d.Booked ⟨hand.fresh, held d.inner, hand.out + d.slot, left⟩ := by
  rw [Balanced, places_counted h]

theorem Balanced.packetEnqueued (h : held inner = i ::ₘ held d.inner)
    (hb : Balanced held ⟨i ::ₘ fresh, out⟩ d left) :
    Balanced held ⟨fresh, out⟩ (({ d with inner } : QueueDisc σ Item).packetEnqueued i) left := by
  have hnew := (hb.of_same rfl rfl rfl rfl : ({ d with inner } : QueueDisc σ Item).Booked _).packetEnqueued
  rw [← Multiset.cons_add, ← h] at hnew
  exact hnew

theorem Balanced.packetDequeued (h : held d.inner = i ::ₘ held inner)
    (hb : Balanced held ⟨fresh, out⟩ d left) :
    Balanced held ⟨fresh, i ::ₘ out⟩ (({ d with inner } : QueueDisc σ Item).packetDequeued i) left := by
  by_cases hpeek : d.m_peeked = true
  · -- the packet only changes its place among those that count as stored
    have hsame : ({ d with inner } : QueueDisc σ Item).packetDequeued i = { d with inner } := if_pos hpeek
    rw [balanced_peeked hpeek, h, Multiset.cons_add, ← Multiset.add_cons, ← Multiset.cons_add] at hb
    rw [hsame]
    exact (balanced_peeked (d := { d with inner }) hpeek).mpr (hb.of_same rfl rfl rfl rfl)
  · have hcounted : d.m_peeked = false := Bool.eq_false_iff.mpr hpeek
    rw [balanced_counted hcounted, h] at hb
    have hnew := (hb.of_same rfl rfl rfl rfl : ({ d with inner } : QueueDisc σ Item).Booked _).packetDequeued
      hcounted
    have hsame := SameSlot.packetDequeued ({ d with inner } : QueueDisc σ Item) i
    rw [balanced_counted (hsame.peeked.trans hcounted), slot, hsame.requeued, packetDequeued_inner,
      Multiset.cons_add]
    exact hnew

theorem Balanced.dropAfterDequeue (reason : String) (hb : Balanced held ⟨fresh, i ::ₘ out⟩ d left) :
    Balanced held ⟨fresh, out⟩ (d.dropAfterDequeue i reason) left := by
  have hsame := SameSlot.dropAfterDequeue d i reason
  by_cases hpeek : d.m_peeked = true
  · rw [balanced_peeked hpeek, Multiset.cons_add, Multiset.add_cons] at hb
    rw [balanced_peeked (hsame.peeked.trans hpeek), slot, hsame.requeued, dropAfterDequeue_inner]
    exact hb.dropAfterDequeue_peeked hpeek reason
  · have hcounted : d.m_peeked = false := Bool.eq_false_iff.mpr hpeek
    rw [balanced_counted hcounted, Multiset.cons_add] at hb
    rw [balanced_counted (hsame.peeked.trans hcounted), slot, hsame.requeued, dropAfterDequeue_inner]
    exact Booked.dropAfterDequeue hb hcounted reason

/-- A mark changes a packet in hand, but not its size. -/
theorem Balanced.markItem {hand hand' : Hand Item} {reason : String} (hb : Balanced held hand d left)
    (h : d.markItem i reason = some (i', d')) (hfresh : hand'.fresh.map getSize = hand.fresh.map getSize)
    (hout : hand'.out.map getSize = hand.out.map getSize) : Balanced held hand' d' left := by
  obtain ⟨-, hsame, hinner, hbooked⟩ := markItem_spec h
  refine (hbooked _ hb).congr hfresh ?_ ?_ rfl
  · simp only [places, slot, hsame.peeked, hsame.requeued, hinner]
    split <;> simp [hout]
  · simp only [places, slot, hsame.peeked, hsame.requeued]
    split <;> simp [hout]

end Balanced

end Acts

end QueueDisc

section Acts

variable {held : σ → Multiset Item} {left : Multiset Item}

theorem Act.sameSlot {a b : Hand Item × QueueDisc σ Item} (h : Act held a b) : SameSlot a.2 b.2 := by
  cases h with
  | enqueue => exact ⟨rfl, rfl⟩
  | dropBefore => exact ⟨rfl, rfl⟩
  | dequeue =>
    exact ⟨(SameSlot.packetDequeued _ _).requeued, (SameSlot.packetDequeued _ _).peeked⟩
  | dropAfter => exact SameSlot.dropAfterDequeue _ _ _
  | markFresh _ h => exact (markItem_spec h).2.1
  | markOut _ h => exact (markItem_spec h).2.1
  | internal => exact ⟨rfl, rfl⟩

/-- Every act keeps the balance. -/
theorem Act.balanced {a b : Hand Item × QueueDisc σ Item} (h : Act held a b)
    (hb : Balanced held a.1 a.2 left) : Balanced held b.1 b.2 left := by
  cases h with
  | enqueue inner h => exact hb.packetEnqueued h
  | dropBefore reason => exact hb.dropBeforeEnqueue reason
  | dequeue inner h => exact hb.packetDequeued h
  | dropAfter reason => exact hb.dropAfterDequeue reason
  | markFresh reason h => exact Balanced.markItem hb h (by simp [(markItem_spec h).1]) rfl
  | markOut reason h => exact Balanced.markItem hb h rfl (by simp [(markItem_spec h).1])
  | @internal hand d inner h =>
    have hnew : ({ d with inner } : QueueDisc σ Item).Booked (places held hand d left) :=
      hb.of_same rfl rfl rfl rfl
    rw [places, ← h] at hnew
    exact hnew

theorem Acts.balanced {a b : Hand Item × QueueDisc σ Item} (h : Acts held a b)
    (hb : Balanced held a.1 a.2 left) : Balanced held b.1 b.2 left := by
  induction h with
  | refl => exact hb
  | tail _ hact ih => exact hact.balanced ih

theorem Acts.sameSlot {a b : Hand Item × QueueDisc σ Item} (h : Acts held a b) : SameSlot a.2 b.2 := by
  induction h with
  | refl => exact ⟨rfl, rfl⟩
  | tail _ hact ih => exact ⟨hact.sameSlot.requeued.trans ih.requeued, hact.sameSlot.peeked.trans ih.peeked⟩

end Acts

section Child

variable {τ : Type}

/-- The callbacks do not touch the fields of the subclass. -/
theorem notified_inner (d : QueueDisc σ Item) (trace : Trace Item) : (d.notified trace).inner = d.inner := by
  cases trace with
  | enqueue => rfl
  | dequeue i => exact packetDequeued_inner d i
  | requeue => rfl
  | dropBeforeEnqueue => rfl
  | dropAfterDequeue i => exact dropAfterDequeue_inner d i _
  | mark i reason =>
    rw [notified]
    cases h : d.markItem i (childQueueDiscMark ++ reason) with
    | none => rfl
    | some p => exact (markItem_spec h).2.2.1

theorem foldl_notified_inner (traces : List (Trace Item)) (d : QueueDisc σ Item) :
    (traces.foldl notified d).inner = d.inner := by
  induction traces generalizing d with
  | nil => rfl
  | cons trace traces ih => exact (ih _).trans (notified_inner d trace)

/-- A call of a child queue disc changes the child only. -/
theorem onChild_inner {α : Type} {child : ChildQueueDisc σ τ Item} {d d' : QueueDisc σ Item} {a : α}
    {f : QueueDisc τ Item → Option (α × QueueDisc τ Item)} (h : d.onChild child f = some (a, d')) :
    ∃ c, f (child.get d.inner) = some (a, c) ∧ d'.inner = child.set { c with traces := [] } d.inner := by
  obtain ⟨⟨b, c⟩, hf, heq⟩ := Option.bind_eq_some_iff.mp h
  obtain ⟨rfl, rfl⟩ := Prod.mk.inj (Option.some.inj heq)
  exact ⟨c, hf, foldl_notified_inner c.traces _⟩

theorem notified_sameSlot (d : QueueDisc σ Item) (trace : Trace Item) : SameSlot d (d.notified trace) := by
  cases trace with
  | enqueue => exact ⟨rfl, rfl⟩
  | dequeue i => exact SameSlot.packetDequeued d i
  | requeue => exact ⟨rfl, rfl⟩
  | dropBeforeEnqueue => exact ⟨rfl, rfl⟩
  | dropAfterDequeue i => exact SameSlot.dropAfterDequeue d i _
  | mark i reason =>
    rw [notified]
    cases h : d.markItem i (childQueueDiscMark ++ reason) with
    | none => exact ⟨rfl, rfl⟩
    | some p => exact (markItem_spec h).2.1

theorem foldl_notified_sameSlot (traces : List (Trace Item)) (d : QueueDisc σ Item) :
    SameSlot d (traces.foldl notified d) := by
  induction traces generalizing d with
  | nil => exact ⟨rfl, rfl⟩
  | cons trace traces ih =>
    have hslot := notified_sameSlot d trace
    have hrest := ih (d.notified trace)
    exact ⟨hrest.requeued.trans hslot.requeued, hrest.peeked.trans hslot.peeked⟩

/-- It does not touch the slot. -/
theorem onChild_sameSlot {α : Type} {child : ChildQueueDisc σ τ Item} {d d' : QueueDisc σ Item} {a : α}
    {f : QueueDisc τ Item → Option (α × QueueDisc τ Item)} (h : d.onChild child f = some (a, d')) :
    SameSlot d d' := by
  obtain ⟨⟨b, c⟩, -, heq⟩ := Option.bind_eq_some_iff.mp h
  obtain ⟨rfl, rfl⟩ := Prod.mk.inj (Option.some.inj heq)
  have hslot := foldl_notified_sameSlot c.traces { d with inner := child.set { c with traces := [] } d.inner }
  exact ⟨hslot.requeued, hslot.peeked⟩

theorem onChild_of_eq {α : Type} (child : ChildQueueDisc σ τ Item)
    (f : QueueDisc τ Item → Option (α × QueueDisc τ Item)) (d : QueueDisc σ Item) {a : α} {c : QueueDisc τ Item}
    (h : f (child.get d.inner) = some (a, c)) :
    ∃ d', d.onChild child f = some (a, d') ∧ d'.inner = child.set { c with traces := [] } d.inner := by
  refine ⟨c.traces.foldl notified { d with inner := child.set { c with traces := [] } d.inner }, ?_,
    foldl_notified_inner c.traces _⟩
  rw [onChild, h]
  rfl

end Child

end Ns3.TrafficControl
