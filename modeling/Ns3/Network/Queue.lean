import Mathlib.Algebra.BigOperators.Group.List.Basic
import Mathlib.Data.Int.Bitwise
import Mathlib.Data.UInt
import Mathlib.Order.Lattice

/-!
# Items and drop-tail queues

The items that a queue disc keeps, by the virtual functions of `src/network/utils/queue-item.h`, and the
queue of `queue.h` and `drop-tail-queue.h` that its internal queues are. The counters of a queue are the
length of its list and the sum of its sizes as 32-bit words hold them, so that a queue of 2^32 items counts
as empty.
-/

namespace Ns3.Network

/-- Simulation time, in nanoseconds. -/
abbrev Time := Int

/-- The virtual functions of an item. Neither a header, a mark nor a time stamp changes its size. -/
class QueueDiscItem (Item : Type) where
  getSize : Item → UInt32
  getTxQueueIndex : Item → UInt8
  getTimeStamp : Item → Time
  setTimeStamp : Time → Item → Item
  /-- The item with its header added, unless it has been added before. -/
  addHeader : Item → Option Item
  /-- The item marked, unless it cannot be. -/
  mark : Item → Option Item
  /-- `GetUint8Value (IP_DSFIELD)`. -/
  getDsField : Item → Option UInt8
  getSize_setTimeStamp : ∀ t i, getSize (setTimeStamp t i) = getSize i
  getSize_addHeader : ∀ i i', addHeader i = some i' → getSize i' = getSize i
  getSize_mark : ∀ i i', mark i = some i' → getSize i' = getSize i

attribute [simp] QueueDiscItem.getSize_setTimeStamp

inductive QueueSizeUnit where
  | packets
  | bytes
deriving DecidableEq, Repr

structure QueueSize where
  m_unit : QueueSizeUnit
  m_value : UInt32
deriving DecidableEq, Repr

open QueueDiscItem

variable {Item : Type} [QueueDiscItem Item]

/-- `operator+` of a size and an item. -/
def QueueSize.plus (size : QueueSize) (item : Item) : QueueSize :=
  match size.m_unit with
  | .packets => ⟨.packets, size.m_value + 1⟩
  | .bytes => ⟨.bytes, size.m_value + getSize item⟩

/-- The current size in the unit of the limit. -/
def QueueSize.current (limit : QueueSize) (nPackets nBytes : UInt32) : QueueSize :=
  match limit.m_unit with
  | .packets => ⟨.packets, nPackets⟩
  | .bytes => ⟨.bytes, nBytes⟩

/-- The bytes of a list of items, as a 32-bit counter adds them up. -/
def nBytes (items : List Item) : UInt32 := (items.map getSize).sum

/-- A queue, whose counters are those of its list. -/
@[ext] structure Queue (Item : Type) [QueueDiscItem Item] where
  m_packets : List Item
  m_nPackets : UInt32
  m_nBytes : UInt32
  m_maxSize : QueueSize
  nPackets_eq : m_nPackets = UInt32.ofNat m_packets.length
  nBytes_eq : m_nBytes = nBytes m_packets

namespace Queue

variable (q : Queue Item) (item : Item)

/-- The queue with a limit and nothing in it. -/
def empty (maxSize : QueueSize) : Queue Item := ⟨[], 0, 0, maxSize, rfl, rfl⟩

def getCurrentSize : QueueSize := q.m_maxSize.current q.m_nPackets q.m_nBytes

/-- Whether `DoEnqueue` finds no room for the item. -/
def full : Bool := q.m_maxSize.m_value < (q.getCurrentSize.plus item).m_value

/-- The item inserted at the end. -/
def insert : Queue Item where
  m_packets := q.m_packets ++ [item]
  m_nPackets := q.m_nPackets + 1
  m_nBytes := q.m_nBytes + getSize item
  m_maxSize := q.m_maxSize
  nPackets_eq := by rw [q.nPackets_eq, List.length_append, UInt32.ofNat_add]; rfl
  nBytes_eq := by rw [q.nBytes_eq, nBytes, nBytes, List.map_append, List.sum_append]; simp

/-- `DropTailQueue::Enqueue`; without a result the item is dropped. -/
def enqueue : Option (Queue Item) := if q.full item then none else some (q.insert item)

/-- `DropTailQueue::Dequeue`: the item at the front, unless the queue counts no packets. -/
def dequeue : Option (Item × Queue Item) :=
  if q.m_nPackets = 0 then none
  else
    match h : q.m_packets with
    | [] => none
    | front :: rest =>
      some (front,
        { m_packets := rest
          m_nPackets := q.m_nPackets - 1
          m_nBytes := q.m_nBytes - getSize front
          m_maxSize := q.m_maxSize
          nPackets_eq := by
            rw [q.nPackets_eq, h, List.length_cons, UInt32.ofNat_add]
            exact UInt32.add_sub_cancel _ _
          nBytes_eq := by
            rw [q.nBytes_eq, h, nBytes, nBytes, List.map_cons, List.sum_cons, add_sub_cancel_left] })

/-- `DropTailQueue::Peek`. -/
def peek : Option Item := if q.m_nPackets = 0 then none else q.m_packets.head?

@[simp] theorem empty_packets (maxSize : QueueSize) : (empty maxSize : Queue Item).m_packets = [] := rfl

@[simp] theorem insert_packets : (q.insert item).m_packets = q.m_packets ++ [item] := rfl

@[simp] theorem insert_maxSize : (q.insert item).m_maxSize = q.m_maxSize := rfl

theorem enqueue_eq_some {q q' : Queue Item} {item : Item} (h : q.enqueue item = some q') :
    q' = q.insert item := by
  rw [enqueue] at h
  split at h
  · cases h
  · exact (Option.some.inj h).symm

/-- What is dequeued was at the front, and the rest stays. -/
theorem dequeue_eq_some {q q' : Queue Item} {front : Item} (h : q.dequeue = some (front, q')) :
    q.m_packets = front :: q'.m_packets ∧ q'.m_maxSize = q.m_maxSize := by
  rw [dequeue] at h
  split at h
  · cases h
  · split at h
    · cases h
    · next heq =>
      obtain ⟨rfl, rfl⟩ := Prod.mk.inj (Option.some.inj h)
      exact ⟨heq, rfl⟩

/-- Nothing is dequeued only from a queue that counts no packets. -/
theorem dequeue_eq_none : q.dequeue = none ↔ q.m_nPackets = 0 := by
  rw [dequeue]
  split
  · next h => exact ⟨fun _ => h, fun _ => rfl⟩
  · next h =>
    constructor
    · intro hnone
      split at hnone
      · next heq => rw [q.nPackets_eq, heq]; rfl
      · cases hnone
    · exact fun hzero => absurd hzero h

/-- Such a queue is empty, if it holds fewer items than the counter can count. -/
theorem packets_eq_nil (hcount : q.m_packets.length < 2 ^ 32) (hzero : q.m_nPackets = 0) :
    q.m_packets = [] := by
  rw [q.nPackets_eq] at hzero
  have hlen := congrArg UInt32.toNat hzero
  rw [UInt32.toNat_ofNat', Nat.mod_eq_of_lt hcount] at hlen
  exact List.eq_nil_of_length_eq_zero hlen

end Queue

end Ns3.Network
