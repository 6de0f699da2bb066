import Ns3.TrafficControl.Contract

/-!
# Queue discs over one internal queue

A queue disc that admits packets to a single drop-tail queue and returns them from its front. With the
admission of `src/traffic-control/model/fifo-queue-disc.cc` and its own `DoPeek` this is `FifoQueueDisc`;
a subclass without a `DoPeek` of its own peeks as the base class does.
-/

namespace Ns3.TrafficControl

open Ns3.Lib Ns3.Network QueueDiscItem QueueDisc

variable {σ Item : Type} [QueueDiscItem Item]

namespace QueueDisc

variable (queue : InternalQueue σ Item)

/-- The packets of an internal queue. -/
def InternalQueue.packets (s : σ) : Multiset Item := (queue.get s).m_packets

variable {queue} {d d' : QueueDisc σ Item} {fresh out : Multiset Item}

/-- Enqueuing to an internal queue stores the packet or drops it. -/
theorem enqueueInternal_acts {item : Item} {ok : Bool} (h : d.enqueueInternal queue item = (ok, d')) :
    Acts queue.packets (⟨item ::ₘ fresh, out⟩, d) (⟨fresh, out⟩, d') := by
  rw [enqueueInternal] at h
  split at h
  · next q henq =>
    obtain ⟨rfl, rfl⟩ := Prod.mk.inj h
    refine Relation.ReflTransGen.single (.enqueue _ ?_)
    rw [InternalQueue.packets, InternalQueue.packets, queue.get_set, Queue.enqueue_eq_some henq]
    exact Multiset.coe_eq_coe.mpr (List.perm_append_singleton item _)
  · obtain ⟨rfl, rfl⟩ := Prod.mk.inj h
    exact Relation.ReflTransGen.single (.dropBefore _)

theorem dequeueInternal_eq_some {i : Item} (h : d.dequeueInternal queue = (some i, d')) :
    ∃ q, (queue.get d.inner).dequeue = some (i, q) ∧ d'.inner = queue.set q d.inner := by
  rw [dequeueInternal] at h
  split at h
  · next q hdeq =>
    obtain ⟨hi, rfl⟩ := Prod.mk.inj h
    obtain rfl := Option.some.inj hi
    exact ⟨q, hdeq, packetDequeued_inner _ _⟩
  · cases (Prod.mk.inj h).1

theorem dequeueInternal_eq_none (h : d.dequeueInternal queue = (none, d')) :
    d' = d ∧ (queue.get d.inner).m_nPackets = 0 := by
  rw [dequeueInternal] at h
  split at h
  · cases (Prod.mk.inj h).1
  · next hnone => exact ⟨(Prod.mk.inj h).2.symm, (Queue.dequeue_eq_none _).mp hnone⟩

/-- What is dequeued from an internal queue is taken out. -/
theorem dequeueInternal_acts {item : Option Item} (h : d.dequeueInternal queue = (item, d')) :
    Acts queue.packets (⟨fresh, out⟩, d) (⟨fresh, single item + out⟩, d') := by
  rw [dequeueInternal] at h
  split at h
  · next i q hdeq =>
    obtain ⟨rfl, rfl⟩ := Prod.mk.inj h
    rw [single_some, Multiset.singleton_add]
    refine Relation.ReflTransGen.single (.dequeue _ ?_)
    rw [InternalQueue.packets, InternalQueue.packets, queue.get_set, (Queue.dequeue_eq_some hdeq).1]
    rfl
  · obtain ⟨rfl, rfl⟩ := Prod.mk.inj h
    rw [single_none, zero_add]

end QueueDisc

/-- The subclass has no fields but its internal queue. -/
def onlyQueue : InternalQueue (Queue Item) Item := ⟨id, fun q _ => q, fun _ _ => rfl⟩

/-- `FifoQueueDisc::LIMIT_EXCEEDED_DROP`. -/
def limitExceededDrop : String := "Queue disc limit exceeded"

/-- A queue disc over one internal queue, which admits a packet or drops it before it is enqueued. -/
def singleQueue (admits : QueueDisc (Queue Item) Item → Item → Bool) : Methods (Queue Item) Item where
  doEnqueue _ item d :=
    some (if admits d item then d.enqueueInternal onlyQueue item
      else (false, d.dropBeforeEnqueue item limitExceededDrop))
  doDequeue _ d := some (d.dequeueInternal onlyQueue)

/-- What `FifoQueueDisc::DoEnqueue` admits. -/
def withinLimit (d : QueueDisc (Queue Item) Item) (item : Item) : Bool := !d.overLimit onlyQueue item

/-- `FifoQueueDisc`, which peeks at the front of its queue. -/
def fifoQueueDisc : Methods (Queue Item) Item :=
  { singleQueue withinLimit with doPeek := some fun _ d => some (d.inner.peek, d) }

theorem singleQueue_enqueue_acts (admits : QueueDisc (Queue Item) Item → Item → Bool) (now : Time)
    {item : Item} {d d' : QueueDisc (Queue Item) Item} {ok : Bool}
    (h : (singleQueue admits).doEnqueue now item d = some (ok, d')) :
    Acts onlyQueue.packets (⟨{item}, 0⟩, d) (⟨0, 0⟩, d') := by
  have h := Option.some.inj h
  split at h
  · exact enqueueInternal_acts h
  · obtain ⟨rfl, rfl⟩ := Prod.mk.inj h
    exact Relation.ReflTransGen.single (.dropBefore _)

theorem singleQueue_dequeue_acts (admits : QueueDisc (Queue Item) Item → Item → Bool) (now : Time)
    {item : Option Item} {d d' : QueueDisc (Queue Item) Item}
    (h : (singleQueue admits).doDequeue now d = some (item, d')) :
    Acts onlyQueue.packets (⟨0, 0⟩, d) (⟨0, single item⟩, d') := by
  have hacts : Acts onlyQueue.packets (⟨0, 0⟩, d) (⟨0, single item + 0⟩, d') :=
    dequeueInternal_acts (Option.some.inj h)
  rw [add_zero] at hacts
  exact hacts

/-- A queue disc over one internal queue keeps to the contract. -/
def singleQueueDiscipline (admits : QueueDisc (Queue Item) Item → Item → Bool) (maxSize : QueueSize) :
    Discipline (Queue Item) Item where
  toMethods := singleQueue admits
  held := onlyQueue.packets
  start := Queue.empty maxSize
  held_start := rfl
  enqueue_acts := singleQueue_enqueue_acts admits _
  dequeue_acts := singleQueue_dequeue_acts admits _
  peek_acts h := nomatch h

/-- So does `FifoQueueDisc`. -/
def fifoDiscipline (maxSize : QueueSize) : Discipline (Queue Item) Item where
  toMethods := fifoQueueDisc
  held := onlyQueue.packets
  start := Queue.empty maxSize
  held_start := rfl
  enqueue_acts {now _ _ _ _} h := singleQueue_enqueue_acts withinLimit now h
  dequeue_acts {now _ _ _} h := singleQueue_dequeue_acts withinLimit now h
  peek_acts {f now d item d'} hf h := by
    obtain rfl := Option.some.inj hf
    obtain ⟨-, rfl⟩ := Prod.mk.inj (Option.some.inj h)
    exact Relation.ReflTransGen.refl

end Ns3.TrafficControl
