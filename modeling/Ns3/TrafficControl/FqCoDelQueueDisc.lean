import Ns3.Lib.Places
import Ns3.TrafficControl.CoDelQueueDisc

/-!
# The FQ-CoDel queue disc

`src/traffic-control/model/fq-codel-queue-disc.cc`. Each flow has a CoDel queue disc of its own and a deficit
in bytes, and is on one of two lists while it is active. A flow is known by the index of its queue disc
class; a list of flows is a list of such indices.
-/

namespace Ns3.TrafficControl

open Ns3.Lib Ns3.Network QueueDiscItem QueueDisc

variable {Item : Type} [QueueDiscItem Item]

/-- The flow hash of an item, by `Hash` or by the packet filters, which may not match. A time stamp does not
change it. -/
structure Classifier (Item : Type) [QueueDiscItem Item] where
  flowHash : Item → Option UInt32
  flowHash_setTimeStamp : ∀ t i, flowHash (setTimeStamp t i) = flowHash i

inductive FlowStatus where
  | inactive
  | newFlow
  | oldFlow
deriving DecidableEq, Repr

structure FqCoDelFlow (Item : Type) [QueueDiscItem Item] where
  m_deficit : Int32 := 0
  m_status : FlowStatus := .inactive
  m_index : UInt32 := 0
  queueDisc : QueueDisc (CoDel Item) Item

namespace FqCoDelFlow

/-- `SetDeficit`. -/
def setDeficit (deficit : UInt32) (flow : FqCoDelFlow Item) : FqCoDelFlow Item :=
  { flow with m_deficit := deficit.toInt32 }

/-- `IncreaseDeficit`, of what becomes of the word as a signed number. -/
def increaseDeficit (deficit : UInt32) (flow : FqCoDelFlow Item) : FqCoDelFlow Item :=
  { flow with m_deficit := flow.m_deficit + deficit.toInt32 }

def setStatus (status : FlowStatus) (flow : FqCoDelFlow Item) : FqCoDelFlow Item :=
  { flow with m_status := status }

end FqCoDelFlow

/-- The fields of an `FqCoDelQueueDisc`; `m_maxSize` is in packets. -/
structure FqCoDel (Item : Type) [QueueDiscItem Item] where
  m_useEcn : Bool := true
  m_useL4s : Bool := false
  m_interval : Time := 100000000
  m_target : Time := 5000000
  m_ceThreshold : Time := 2 ^ 63 - 1
  m_maxSize : UInt32 := 10240
  m_flows : UInt32 := 1024
  m_setWays : UInt32 := 8
  m_dropBatchSize : UInt32 := 64
  m_quantum : UInt32 := 0
  m_enableSetAssociativeHash : Bool := false
  /-- The queue disc classes. -/
  flows : List (FqCoDelFlow Item) := []
  m_flowsIndices : List (UInt32 × Nat) := []
  m_tags : List (UInt32 × UInt32) := []
  m_newFlows : List Nat := []
  m_oldFlows : List Nat := []

namespace FqCoDel

def unclassifiedDrop : String := "Unclassified drop"

def overlimitDrop : String := "Overlimit drop"

/-- `CheckConfig`, given the MTU of the device, if there is one; the program stops at a remainder by 0 and at
a missing threshold. -/
def checkConfig (deviceMtu : Option UInt32) (s : FqCoDel Item) : Option (FqCoDel Item) :=
  let s := if s.m_quantum = 0 then { s with m_quantum := deviceMtu.getD 0 } else s
  if s.m_quantum = 0 then none
  else if s.m_enableSetAssociativeHash ∧ (s.m_setWays = 0 ∨ s.m_flows % s.m_setWays ≠ 0) then none
  else if s.m_useL4s ∧ s.m_ceThreshold = 2 ^ 63 - 1 then none
  else some s

/-- A change of a flow. -/
def updateFlow (k : Nat) (f : FqCoDelFlow Item → FqCoDelFlow Item) (s : FqCoDel Item) : FqCoDel Item :=
  { s with flows := s.flows.modify k f }

/-- The queue disc of a flow. -/
def childOf (k : Nat) (flow : FqCoDelFlow Item) : ChildQueueDisc (FqCoDel Item) (CoDel Item) Item where
  get _ := flow.queueDisc
  set c s := s.updateFlow k fun flow => { flow with queueDisc := c }

/-- Whether `SetAssociativeHash` can use the queue. -/
def usable (flowHash : UInt32) (s : FqCoDel Item) (i : UInt32) : Bool :=
  match s.m_flowsIndices.lookup i with
  | none => true
  | some k =>
    s.m_tags.lookup i = some flowHash || s.flows[k]?.map FqCoDelFlow.m_status = some .inactive

/-- The queues of a set, in order. -/
def setOf (flowHash : UInt32) (s : FqCoDel Item) : List UInt32 :=
  let h := flowHash % s.m_flows
  let innerHash := h % s.m_setWays
  let outerHash := h - innerHash
  (List.range s.m_setWays.toNat).map fun n => outerHash + .ofNat n

/-- The index that `SetAssociativeHash` returns: that of the first queue it can use, or of the first queue of
the set. -/
def setAssociativeHash (flowHash : UInt32) (s : FqCoDel Item) : Option UInt32 :=
  ((s.setOf flowHash).find? (s.usable flowHash)).or (s.setOf flowHash).head?

/-- The index of the packet's queue. The program stops at a remainder by 0. -/
def queueIndex (flowHash : UInt32) (s : FqCoDel Item) : Option UInt32 :=
  if s.m_flows = 0 then none
  else if s.m_enableSetAssociativeHash then s.setAssociativeHash flowHash
  else some (flowHash % s.m_flows)

/-- `SetAssociativeHash` tags the queue. -/
def tagged (flowHash h : UInt32) (s : FqCoDel Item) : FqCoDel Item :=
  if s.m_enableSetAssociativeHash then { s with m_tags := (h, flowHash) :: s.m_tags } else s

/-- A flow as the factories make it. -/
def createFlow (h : UInt32) (s : FqCoDel Item) : FqCoDelFlow Item where
  m_index := h
  queueDisc := { inner :=
    { m_useEcn := s.m_useEcn, m_useL4s := s.m_useL4s, m_interval := s.m_interval, m_target := s.m_target,
      m_ceThreshold := s.m_ceThreshold, queue := Queue.empty ⟨.packets, s.m_maxSize⟩ } }

/-- The flow of the queue, which is created if there is none. -/
def flowFor (h : UInt32) (s : FqCoDel Item) : Nat × FqCoDel Item :=
  match s.m_flowsIndices.lookup h with
  | some k => (k, s)
  | none =>
    (s.flows.length, { s with
      flows := s.flows ++ [s.createFlow h]
      m_flowsIndices := (h, s.flows.length) :: s.m_flowsIndices })

/-- An inactive flow becomes a new flow. -/
def activate (k : Nat) (s : FqCoDel Item) : FqCoDel Item :=
  if s.flows[k]?.map FqCoDelFlow.m_status = some .inactive then
    { s.updateFlow k fun flow => (flow.setStatus .newFlow).setDeficit s.m_quantum with
      m_newFlows := s.m_newFlows ++ [k] }
  else s

/-- The flow with the largest backlog in bytes, the first one if there are several. -/
def fattest : List (FqCoDelFlow Item) → Nat → UInt32 × Nat → UInt32 × Nat
  | [], _, best => best
  | flow :: flows, i, best =>
    let bytes := flow.queueDisc.m_nBytes
    fattest flows (i + 1) (if best.1 < bytes then (bytes, i) else best)

/-- One turn of the loop of `FqCoDelDrop`, with the packets and bytes dropped so far. The program stops if
there is no packet to drop. -/
def dropTurn (k : Nat) (threshold : UInt32) :
    UInt32 × UInt32 × QueueDisc (FqCoDel Item) Item →
      Turn (UInt32 × UInt32 × QueueDisc (FqCoDel Item) Item) (Option (QueueDisc (FqCoDel Item) Item))
  | (count, len, d) =>
    match d.inner.flows[k]? with
    | none => .leave none
    | some flow =>
      match d.onChild (childOf k flow) fun c => some (c.dequeueInternal CoDel.internalQueue) with
      | some (some item, d) =>
        let d := d.dropAfterDequeue item overlimitDrop
        if count + 1 < d.inner.m_dropBatchSize ∧ len + getSize item < threshold then
          .again (count + 1, len + getSize item, d)
        else .leave (some d)
      | _ => .leave none

/-- `FqCoDelDrop`. -/
def fqCoDelDrop (d : QueueDisc (FqCoDel Item) Item) : Option (QueueDisc (FqCoDel Item) Item) := do
  let (maxBacklog, k) := fattest d.inner.flows 0 (0, 0)
  let flow ← d.inner.flows[k]?
  let turnsOfQueue := flow.queueDisc.inner.queue.m_packets.length + 1
  (turns (dropTurn k (maxBacklog >>> 1)) turnsOfQueue (0, 0, d)).join

/-- The part of `DoEnqueue` that follows the choice of the flow. -/
def enqueueFlow (now : Time) (item : Item) (k : Nat) (d : QueueDisc (FqCoDel Item) Item) :
    Option (Bool × QueueDisc (FqCoDel Item) Item) := do
  let flow ← d.inner.flows[k]?
  let (_, d) ← d.onChild (childOf k flow) (CoDel.coDelQueueDisc.enqueue now item)
  let d ← if d.inner.m_maxSize < d.m_nPackets then fqCoDelDrop d else some d
  pure (true, d)

/-- `DoEnqueue`. -/
def doEnqueue (C : Classifier Item) (now : Time) (item : Item) (d : QueueDisc (FqCoDel Item) Item) :
    Option (Bool × QueueDisc (FqCoDel Item) Item) :=
  match C.flowHash item with
  | none => some (false, d.dropBeforeEnqueue item unclassifiedDrop)
  | some flowHash => do
    let h ← d.inner.queueIndex flowHash
    let (k, s) := (d.inner.tagged flowHash h).flowFor h
    enqueueFlow now item k { d with inner := s.activate k }

/-- The loop over the new flows: those without a positive deficit become old flows. -/
def nextNew : List Nat → FqCoDel Item → Option (Option Nat × FqCoDel Item)
  | [], s => some (none, { s with m_newFlows := [] })
  | k :: newFlows, s =>
    match s.flows[k]? with
    | none => none
    | some flow =>
      if flow.m_deficit ≤ 0 then
        nextNew newFlows { s.updateFlow k fun flow => (flow.increaseDeficit s.m_quantum).setStatus .oldFlow with
          m_newFlows := newFlows
          m_oldFlows := s.m_oldFlows ++ [k] }
      else some (some k, { s with m_newFlows := k :: newFlows })

/-- One turn of the loop over the old flows. -/
def oldTurn (s : FqCoDel Item) : Turn (FqCoDel Item) (Option (Option Nat × FqCoDel Item)) :=
  match s.m_oldFlows with
  | [] => .leave (some (none, s))
  | k :: oldFlows =>
    match s.flows[k]? with
    | none => .leave none
    | some flow =>
      if flow.m_deficit ≤ 0 then
        .again { s.updateFlow k fun flow => flow.increaseDeficit s.m_quantum with m_oldFlows := oldFlows ++ [k] }
      else .leave (some (some k, s))

/-- What the deficit lacks to be positive. -/
def lack (s : FqCoDel Item) (k : Nat) : Nat :=
  s.flows[k]?.elim 0 fun flow => (1 - flow.m_deficit.toInt).toNat

/-- The next flow to be served, if there is one. The loop over the old flows is cut off after as many turns as
their deficits can take to become positive. -/
def nextFlow (s : FqCoDel Item) : Option (Option Nat × FqCoDel Item) :=
  match nextNew s.m_newFlows s with
  | none => none
  | some (some k, s) => some (some k, s)
  | some (none, s) => (turns oldTurn ((s.m_oldFlows.map s.lack).sum + 1) s).join

/-- A flow without a packet leaves the front of its list. -/
def emptied (k : Nat) (s : FqCoDel Item) : FqCoDel Item :=
  if s.m_newFlows ≠ [] then
    { s.updateFlow k fun flow => flow.setStatus .oldFlow with
      m_newFlows := s.m_newFlows.tail
      m_oldFlows := s.m_oldFlows ++ [k] }
  else { s.updateFlow k fun flow => flow.setStatus .inactive with m_oldFlows := s.m_oldFlows.tail }

/-- One turn of the loop of `DoDequeue`. -/
def dequeueTurn (now : Time) (d : QueueDisc (FqCoDel Item) Item) :
    Turn (QueueDisc (FqCoDel Item) Item) (Option (Option Item × QueueDisc (FqCoDel Item) Item)) :=
  match nextFlow d.inner with
  | none => .leave none
  | some (none, s) => .leave (some (none, { d with inner := s }))
  | some (some k, s) =>
    match s.flows[k]? with
    | none => .leave none
    | some flow =>
      match ({ d with inner := s } : QueueDisc _ Item).onChild (childOf k flow)
          (CoDel.coDelQueueDisc.dequeue now) with
      | none => .leave none
      | some (none, d) => .again { d with inner := d.inner.emptied k }
      | some (some item, d) =>
        .leave (some (some item, { d with
          inner := d.inner.updateFlow k fun flow => flow.increaseDeficit (getSize item * 0xffffffff) }))

/-- `DoDequeue`. The loop is cut off after as many turns as it takes each flow to leave its list. -/
def doDequeue (now : Time) (d : QueueDisc (FqCoDel Item) Item) :
    Option (Option Item × QueueDisc (FqCoDel Item) Item) :=
  (turns (dequeueTurn now) (2 * d.inner.m_newFlows.length + d.inner.m_oldFlows.length + 1) d).join

/-- `FqCoDelQueueDisc`. -/
def fqCoDelQueueDisc (C : Classifier Item) : Methods (FqCoDel Item) Item where
  doEnqueue := doEnqueue C
  doDequeue := doDequeue

/-- A queue disc as it is configured, before the first packet. -/
def started (config : FqCoDel Item) : Session (FqCoDel Item) Item where
  disc := { inner := { config with
    flows := [], m_flowsIndices := [], m_tags := [], m_newFlows := [], m_oldFlows := [] } }

end FqCoDel

end Ns3.TrafficControl
