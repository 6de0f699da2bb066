import Ns3.Network.Queue

/-!
# The base class of the queue discs

`src/traffic-control/model/queue-disc.cc`: the callbacks through which internal queues and child queue
discs report, the statistics, and the public functions around the virtual `DoEnqueue`, `DoDequeue` and
`DoPeek`. A packet that `Peek` took out waits in the slot of the requeued packet with the flag `m_peeked`
set; as long as the flag is set, dequeues are not counted.

A function of the model has no result where the program stops.
-/

namespace Ns3.TrafficControl

open Ns3.Network QueueDiscItem

/-- What a queue disc has told its trace sources. -/
inductive Trace (Item : Type) where
  | enqueue (item : Item)
  | dequeue (item : Item)
  | requeue (item : Item)
  | dropBeforeEnqueue (item : Item) (reason : String)
  | dropAfterDequeue (item : Item) (reason : String)
  | mark (item : Item) (reason : String)
deriving DecidableEq, Repr

/-- A total for each reason. -/
abbrev ByReason (G : Type) := List (String × G)

/-- An amount added to the total of a reason. -/
def ByReason.add {G : Type} [Add G] (reason : String) (amount : G) : ByReason G → ByReason G
  | [] => [(reason, amount)]
  | (r, total) :: rest =>
    if r = reason then (r, total + amount) :: rest else (r, total) :: ByReason.add reason amount rest

/-- `QueueDisc::Stats`. -/
structure Stats where
  nTotalReceivedPackets : UInt32 := 0
  nTotalReceivedBytes : UInt64 := 0
  nTotalSentPackets : UInt32 := 0
  nTotalSentBytes : UInt64 := 0
  nTotalEnqueuedPackets : UInt32 := 0
  nTotalEnqueuedBytes : UInt64 := 0
  nTotalDequeuedPackets : UInt32 := 0
  nTotalDequeuedBytes : UInt64 := 0
  nTotalDroppedPackets : UInt32 := 0
  nTotalDroppedPacketsBeforeEnqueue : UInt32 := 0
  nDroppedPacketsBeforeEnqueue : ByReason UInt32 := []
  nTotalDroppedPacketsAfterDequeue : UInt32 := 0
  nDroppedPacketsAfterDequeue : ByReason UInt32 := []
  nTotalDroppedBytes : UInt64 := 0
  nTotalDroppedBytesBeforeEnqueue : UInt64 := 0
  nDroppedBytesBeforeEnqueue : ByReason UInt64 := []
  nTotalDroppedBytesAfterDequeue : UInt64 := 0
  nDroppedBytesAfterDequeue : ByReason UInt64 := []
  nTotalRequeuedPackets : UInt32 := 0
  nTotalRequeuedBytes : UInt64 := 0
  nTotalMarkedPackets : UInt32 := 0
  nMarkedPackets : ByReason UInt32 := []
  nTotalMarkedBytes : UInt32 := 0
  nMarkedBytes : ByReason UInt64 := []
deriving DecidableEq, Repr

/-- A queue disc; `inner` holds its internal queues, its child queue discs and the fields of the
subclass. -/
structure QueueDisc (σ Item : Type) where
  m_nPackets : UInt32 := 0
  m_nBytes : UInt32 := 0
  m_stats : Stats := {}
  m_quota : UInt32 := 64
  m_running : Bool := false
  m_requeued : Option Item := none
  m_peeked : Bool := false
  traces : List (Trace Item) := []
  inner : σ
deriving DecidableEq, Repr

namespace QueueDisc

variable {σ Item : Type} [QueueDiscItem Item]

/-- The size of an item, in bytes, as the 64-bit counters add it. -/
def bytesOf (item : Item) : UInt64 := (getSize item).toUInt64

def fire (d : QueueDisc σ Item) (trace : Trace Item) : QueueDisc σ Item :=
  { d with traces := d.traces ++ [trace] }

/-- `PacketEnqueued`: an internal queue or a child queue disc has taken the packet. -/
def packetEnqueued (d : QueueDisc σ Item) (item : Item) : QueueDisc σ Item :=
  fire { d with
    m_nPackets := d.m_nPackets + 1
    m_nBytes := d.m_nBytes + getSize item
    m_stats := { d.m_stats with
      nTotalEnqueuedPackets := d.m_stats.nTotalEnqueuedPackets + 1
      nTotalEnqueuedBytes := d.m_stats.nTotalEnqueuedBytes + bytesOf item } } (.enqueue item)

/-- `PacketDequeued`, which counts nothing while a packet is being peeked. -/
def packetDequeued (d : QueueDisc σ Item) (item : Item) : QueueDisc σ Item :=
  if d.m_peeked then d
  else
    fire { d with
      m_nPackets := d.m_nPackets - 1
      m_nBytes := d.m_nBytes - getSize item
      m_stats := { d.m_stats with
        nTotalDequeuedPackets := d.m_stats.nTotalDequeuedPackets + 1
        nTotalDequeuedBytes := d.m_stats.nTotalDequeuedBytes + bytesOf item } } (.dequeue item)

/-- `DropBeforeEnqueue`. -/
def dropBeforeEnqueue (d : QueueDisc σ Item) (item : Item) (reason : String) : QueueDisc σ Item :=
  fire { d with
    m_stats := { d.m_stats with
      nTotalDroppedPackets := d.m_stats.nTotalDroppedPackets + 1
      nTotalDroppedBytes := d.m_stats.nTotalDroppedBytes + bytesOf item
      nTotalDroppedPacketsBeforeEnqueue := d.m_stats.nTotalDroppedPacketsBeforeEnqueue + 1
      nTotalDroppedBytesBeforeEnqueue := d.m_stats.nTotalDroppedBytesBeforeEnqueue + bytesOf item
      nDroppedPacketsBeforeEnqueue := d.m_stats.nDroppedPacketsBeforeEnqueue.add reason 1
      nDroppedBytesBeforeEnqueue := d.m_stats.nDroppedBytesBeforeEnqueue.add reason (bytesOf item) } }
    (.dropBeforeEnqueue item reason)

/-- The entries of `DropAfterDequeue` in the statistics. -/
def countDropAfter (d : QueueDisc σ Item) (item : Item) (reason : String) : QueueDisc σ Item :=
  { d with
    m_stats := { d.m_stats with
      nTotalDroppedPackets := d.m_stats.nTotalDroppedPackets + 1
      nTotalDroppedBytes := d.m_stats.nTotalDroppedBytes + bytesOf item
      nTotalDroppedPacketsAfterDequeue := d.m_stats.nTotalDroppedPacketsAfterDequeue + 1
      nTotalDroppedBytesAfterDequeue := d.m_stats.nTotalDroppedBytesAfterDequeue + bytesOf item
      nDroppedPacketsAfterDequeue := d.m_stats.nDroppedPacketsAfterDequeue.add reason 1
      nDroppedBytesAfterDequeue := d.m_stats.nDroppedBytesAfterDequeue.add reason (bytesOf item) } }

/-- `DropAfterDequeue`; while a packet is being peeked, the dequeue is counted here. -/
def dropAfterDequeue (d : QueueDisc σ Item) (item : Item) (reason : String) : QueueDisc σ Item :=
  let d := d.countDropAfter item reason
  let d := if d.m_peeked then
      { ({ d with m_peeked := false } : QueueDisc σ Item).packetDequeued item with m_peeked := true }
    else d
  d.fire (.dropAfterDequeue item reason)

/-- `Mark`, without a result if the item cannot be marked. -/
def markItem (d : QueueDisc σ Item) (item : Item) (reason : String) :
    Option (Item × QueueDisc σ Item) :=
  (mark item).map fun item =>
    (item, fire { d with
      m_stats := { d.m_stats with
        nTotalMarkedPackets := d.m_stats.nTotalMarkedPackets + 1
        nTotalMarkedBytes := d.m_stats.nTotalMarkedBytes + getSize item
        nMarkedPackets := d.m_stats.nMarkedPackets.add reason 1
        nMarkedBytes := d.m_stats.nMarkedBytes.add reason (bytesOf item) } } (.mark item reason))

/-- `GetStats`, where the packets sent are worked out. -/
def getStats (d : QueueDisc σ Item) : QueueDisc σ Item :=
  { d with
    m_stats := { d.m_stats with
      nTotalSentPackets := d.m_stats.nTotalDequeuedPackets - (if d.m_requeued.isSome then 1 else 0)
        - d.m_stats.nTotalDroppedPacketsAfterDequeue
      nTotalSentBytes := d.m_stats.nTotalDequeuedBytes - (d.m_requeued.elim 0 bytesOf)
        - d.m_stats.nTotalDroppedBytesAfterDequeue } }

/-- `Enqueue` counts what it receives. -/
def countReceived (d : QueueDisc σ Item) (item : Item) : QueueDisc σ Item :=
  { d with
    m_stats := { d.m_stats with
      nTotalReceivedPackets := d.m_stats.nTotalReceivedPackets + 1
      nTotalReceivedBytes := d.m_stats.nTotalReceivedBytes + bytesOf item } }

/-- Where an internal queue is kept in the fields of the subclass. -/
structure InternalQueue (σ Item : Type) [QueueDiscItem Item] where
  get : σ → Queue Item
  set : Queue Item → σ → σ
  get_set : ∀ q s, get (set q s) = q

def internalQueueDrop : String := "Dropped by internal queue"

section InternalQueue

variable (queue : InternalQueue σ Item)

/-- `Enqueue` of an internal queue, whose callbacks are `PacketEnqueued` and `DropBeforeEnqueue`. -/
def enqueueInternal (d : QueueDisc σ Item) (item : Item) : Bool × QueueDisc σ Item :=
  match (queue.get d.inner).enqueue item with
  | some q => (true, ({ d with inner := queue.set q d.inner } : QueueDisc σ Item).packetEnqueued item)
  | none => (false, d.dropBeforeEnqueue item internalQueueDrop)

/-- `Dequeue` of an internal queue, whose callback is `PacketDequeued`. -/
def dequeueInternal (d : QueueDisc σ Item) : Option Item × QueueDisc σ Item :=
  match (queue.get d.inner).dequeue with
  | some (item, q) =>
    (some item, ({ d with inner := queue.set q d.inner } : QueueDisc σ Item).packetDequeued item)
  | none => (none, d)

/-- `GetCurrentSize`, in the unit of the limit. -/
def getCurrentSize (d : QueueDisc σ Item) (maxSize : QueueSize) : QueueSize :=
  maxSize.current d.m_nPackets d.m_nBytes

/-- Whether a queue disc whose limit is that of its internal queue has no room for the item. -/
def overLimit (d : QueueDisc σ Item) (item : Item) : Bool :=
  let maxSize := (queue.get d.inner).m_maxSize
  maxSize.m_value < ((d.getCurrentSize maxSize).plus item).m_value

end InternalQueue

/-- Where a child queue disc is kept in the fields of the subclass. -/
structure ChildQueueDisc (σ τ Item : Type) where
  get : σ → QueueDisc τ Item
  set : QueueDisc τ Item → σ → σ

def childQueueDiscDrop : String := "(Dropped by child queue disc) "

def childQueueDiscMark : String := "(Marked by child queue disc) "

/-- The callbacks that `AddQueueDiscClass` connects to the trace sources of a child queue disc. -/
def notified (d : QueueDisc σ Item) : Trace Item → QueueDisc σ Item
  | .enqueue item => d.packetEnqueued item
  | .dequeue item => d.packetDequeued item
  | .requeue _ => d
  | .dropBeforeEnqueue item reason => d.dropBeforeEnqueue item (childQueueDiscDrop ++ reason)
  | .dropAfterDequeue item reason => d.dropAfterDequeue item (childQueueDiscDrop ++ reason)
  | .mark item reason => ((d.markItem item (childQueueDiscMark ++ reason)).map Prod.snd).getD d

/-- A call of a function of a child queue disc, whose trace sources then reach their callbacks. -/
def onChild {τ α : Type} (child : ChildQueueDisc σ τ Item)
    (f : QueueDisc τ Item → Option (α × QueueDisc τ Item)) (d : QueueDisc σ Item) :
    Option (α × QueueDisc σ Item) := do
  let (a, c) ← f (child.get d.inner)
  pure (a, c.traces.foldl notified { d with inner := child.set { c with traces := [] } d.inner })

/-- The virtual functions of a subclass, given the time at which they are called. -/
structure Methods (σ Item : Type) where
  doEnqueue : Time → Item → QueueDisc σ Item → Option (Bool × QueueDisc σ Item)
  doDequeue : Time → QueueDisc σ Item → Option (Option Item × QueueDisc σ Item)
  /-- The subclass's own `DoPeek`, if it has one. -/
  doPeek : Option (Time → QueueDisc σ Item → Option (Option Item × QueueDisc σ Item)) := none

/-- The packet taken from the slot; if it was peeked, its dequeue is counted now. -/
def release (d : QueueDisc σ Item) (item : Item) : QueueDisc σ Item :=
  let d := { d with m_requeued := none }
  if d.m_peeked then ({ d with m_peeked := false } : QueueDisc σ Item).packetDequeued item else d

namespace Methods

variable (M : Methods σ Item)

/-- `Enqueue`. The item that `DoEnqueue` has stored gets the time stamp, which no `DoEnqueue` reads. -/
def enqueue (now : Time) (item : Item) (d : QueueDisc σ Item) : Option (Bool × QueueDisc σ Item) :=
  M.doEnqueue now (setTimeStamp now item) (d.countReceived item)

/-- `Dequeue`. -/
def dequeue (now : Time) (d : QueueDisc σ Item) : Option (Option Item × QueueDisc σ Item) :=
  match d.m_requeued with
  | some item => some (some item, d.release item)
  | none => M.doDequeue now d

/-- `QueueDisc::DoPeek`, when nothing waits in the slot: the packet dequeued stays there. -/
def park (now : Time) (d : QueueDisc σ Item) : Option (Option Item × QueueDisc σ Item) := do
  let (item, d) ← M.dequeue now { d with m_peeked := true }
  pure (item, { d with m_requeued := item, m_peeked := if item.isSome then d.m_peeked else false })

/-- `Peek`. -/
def peek (now : Time) (d : QueueDisc σ Item) : Option (Option Item × QueueDisc σ Item) :=
  match M.doPeek with
  | some doPeek => doPeek now d
  | none =>
    match d.m_requeued with
    | some item => some (some item, d)
    | none => M.park now d

end Methods

/-- A call of `Enqueue` or `Dequeue`, with its time. -/
inductive Op (Item : Type) where
  | enqueue (now : Time) (item : Item)
  | dequeue (now : Time)
deriving DecidableEq, Repr

/-- A queue disc with what its `Dequeue` has returned. -/
structure Session (σ Item : Type) where
  disc : QueueDisc σ Item
  returned : List Item := []
deriving DecidableEq, Repr

/-- One call. -/
def Methods.serve (M : Methods σ Item) (r : Session σ Item) : Op Item → Option (Session σ Item)
  | .enqueue now item => do
    let (_, d) ← M.enqueue now item r.disc
    pure { r with disc := d }
  | .dequeue now => do
    let (item, d) ← M.dequeue now r.disc
    pure { disc := d, returned := r.returned ++ item.toList }

/-- `Requeue`. -/
def requeue (d : QueueDisc σ Item) (item : Item) : QueueDisc σ Item :=
  fire { d with
    m_requeued := some item
    m_stats := { d.m_stats with
      nTotalRequeuedPackets := d.m_stats.nTotalRequeuedPackets + 1
      nTotalRequeuedBytes := d.m_stats.nTotalRequeuedBytes + bytesOf item } } (.requeue item)

end QueueDisc

/-- The device below a root queue disc: how many transmission queues its interface has (none if the device
has no interface), which of them are stopped, and what becomes of it when a packet is sent. -/
structure NetDevice (δ Item : Type) where
  nTxQueues : Option Nat
  isStopped : δ → UInt8 → Bool
  send : Item → δ → δ

/-- A root queue disc with the state of its device, what was passed to `m_send` and what `Dequeue`
returned. -/
structure Root (σ Item δ : Type) where
  disc : QueueDisc σ Item
  device : δ
  sent : List Item := []
  returned : List Item := []
deriving DecidableEq, Repr

namespace Root

variable {σ Item δ : Type} [QueueDiscItem Item]

open QueueDisc

section Run

variable (M : Methods σ Item) (dev : NetDevice δ Item)

/-- Whether the transmission queue is stopped; without an interface it never is. -/
def stopped (device : δ) (txq : UInt8) : Bool := dev.nTxQueues.isSome && dev.isStopped device txq

/-- Whether a queue disc may be asked for a packet: always for a device of several queues, which the
packet may belong to. -/
def mayDequeue (device : δ) : Bool :=
  match dev.nTxQueues with
  | none => true
  | some n => 1 < n || !dev.isStopped device 0

/-- `DequeuePacket`: the packet in the slot, or else the next one with its header. -/
def dequeuePacket (now : Time) (device : δ) (d : QueueDisc σ Item) :
    Option (Option Item × QueueDisc σ Item) :=
  match d.m_requeued with
  | some item =>
    if stopped dev device (getTxQueueIndex item) then some (none, d) else some (some item, d.release item)
  | none =>
    if mayDequeue dev device then do
      let (item, d) ← M.dequeue now d
      match item with
      | none => pure (none, d)
      | some item => do
        let item ← addHeader item
        pure (some item, d)
    else some (none, d)

/-- `Transmit`; the result says whether to go on. -/
def transmit (item : Item) (r : Root σ Item δ) : Bool × Root σ Item δ :=
  if stopped dev r.device (getTxQueueIndex item) then (false, { r with disc := r.disc.requeue item })
  else
    let r := { r with device := dev.send item r.device, sent := r.sent ++ [item] }
    (!(r.disc.m_nPackets = 0 || stopped dev r.device (getTxQueueIndex item)), r)

/-- `Restart`. -/
def restart (now : Time) (r : Root σ Item δ) : Option (Bool × Root σ Item δ) := do
  let (item, disc) ← dequeuePacket M dev now r.device r.disc
  match item with
  | none => pure (false, { r with disc })
  | some item => pure (transmit dev item { r with disc })

/-- The loop of `Run`, which calls `Restart` as often as it may. -/
def runLoop (now : Time) : Nat → Root σ Item δ → Option (Root σ Item δ)
  | 0, r => some r
  | n + 1, r => do
    let (again, r) ← restart M dev now r
    if again then runLoop now n r else pure r

/-- How often; a quota of 0 wraps around before it is compared. -/
def restarts (quota : UInt32) : Nat := if quota = 0 then 2 ^ 32 else quota.toNat

/-- `Run`. -/
def run (now : Time) (r : Root σ Item δ) : Option (Root σ Item δ) :=
  if r.disc.m_running then some r
  else do
    let r ← runLoop M dev now (restarts r.disc.m_quota) { r with disc := { r.disc with m_running := true } }
    pure { r with disc := { r.disc with m_running := false } }

/-- What happens to a root queue disc: a call of one of its functions, or a change of its device, which
may stop and wake its queues at any time. -/
inductive Call (Item δ : Type) where
  | enqueue (now : Time) (item : Item)
  | peek (now : Time)
  | dequeue (now : Time)
  | run (now : Time)
  | device (change : δ → δ)

def step (r : Root σ Item δ) : Call Item δ → Option (Root σ Item δ)
  | .enqueue now item => do
    let (_, disc) ← M.enqueue now item r.disc
    pure { r with disc }
  | .peek now => do
    let (_, disc) ← M.peek now r.disc
    pure { r with disc }
  | .dequeue now => do
    let (item, disc) ← M.dequeue now r.disc
    pure { r with disc, returned := r.returned ++ item.toList }
  | .run now => run M dev now r
  | .device change => some { r with device := change r.device }

end Run

end Root

end Ns3.TrafficControl
