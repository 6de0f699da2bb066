import Mathlib.Data.Rat.Floor
import Ns3.TrafficControl.Fifo

/-!
# The token bucket filter

`src/traffic-control/model/tbf-queue-disc.cc`: `DoDequeue` looks at the next packet of the child queue disc
and takes it if both buckets have tokens for its bytes. The tokens that came in since the last packet are
worked out then, at a rate in whole bytes for each second and rounded to the nearest byte. Differences of
times are exact here.
-/

namespace Ns3.TrafficControl

open Ns3.Network QueueDiscItem QueueDisc

variable {τ Item : Type} [QueueDiscItem Item]

/-- A kind of child queue disc whose `Dequeue` returns, after a `Peek`, a packet of the size that `Peek`
saw. -/
structure Child (τ Item : Type) [QueueDiscItem Item] extends Methods τ Item where
  start : τ
  Ready : QueueDisc τ Item → Prop
  ready_start : Ready { inner := start }
  ready_traces : ∀ {d traces}, Ready d → Ready { d with traces }
  ready_enqueue : ∀ {now i d ok d'}, Ready d → toMethods.enqueue now i d = some (ok, d') → Ready d'
  ready_peek : ∀ {now d item d'}, Ready d → toMethods.peek now d = some (item, d') → Ready d'
  ready_dequeue : ∀ {now d item d'}, Ready d → toMethods.dequeue now d = some (item, d') → Ready d'
  dequeue_peek : ∀ {now d i d' j d''}, Ready d → toMethods.peek now d = some (some i, d') →
    toMethods.dequeue now { d' with traces := [] } = some (some j, d'') → getSize j = getSize i

/-- A child queue disc that peeks as the base class does: the packet waits in the slot. -/
def parkingChild (M : Methods τ Item) (hpeek : M.doPeek = none) (start : τ) : Child τ Item where
  toMethods := M
  start := start
  Ready _ := True
  ready_start := trivial
  ready_traces _ := trivial
  ready_enqueue _ _ := trivial
  ready_peek _ _ := trivial
  ready_dequeue _ _ := trivial
  dequeue_peek {now d i d' j d''} _ h h' := by
    have hslot : d'.m_requeued = some i := by
      simp only [Methods.peek, hpeek] at h
      cases hreq : d.m_requeued with
      | some item =>
        rw [hreq] at h
        obtain ⟨hitem, rfl⟩ := Prod.mk.inj (Option.some.inj h)
        exact hreq.trans hitem
      | none =>
        rw [hreq] at h
        obtain ⟨⟨item, d₁⟩, -, heq⟩ := Option.bind_eq_some_iff.mp h
        obtain ⟨rfl, rfl⟩ := Prod.mk.inj (Option.some.inj heq)
        rfl
    simp only [Methods.dequeue, hslot] at h'
    obtain ⟨hitem, -⟩ := Prod.mk.inj (Option.some.inj h')
    rw [Option.some.inj hitem]

/-- `FifoQueueDisc`, the default child queue disc, in whose slot nothing is put. -/
def fifoChild (maxSize : QueueSize) : Child (Queue Item) Item where
  toMethods := fifoQueueDisc
  start := Queue.empty maxSize
  Ready d := d.m_requeued = none
  ready_start := rfl
  ready_traces h := h
  ready_enqueue hready h := (singleQueue_enqueue_acts withinLimit 0 h).sameSlot.requeued.trans hready
  ready_peek hready h := by
    obtain ⟨-, rfl⟩ := Prod.mk.inj (Option.some.inj h)
    exact hready
  ready_dequeue hready h := by
    simp only [Methods.dequeue, hready] at h
    exact (singleQueue_dequeue_acts withinLimit 0 h).sameSlot.requeued.trans hready
  dequeue_peek {now d i d' j d''} hready h h' := by
    obtain ⟨hfront, rfl⟩ := Prod.mk.inj (Option.some.inj h)
    simp only [Methods.dequeue, hready] at h'
    have h' := Option.some.inj h'
    rw [dequeueInternal] at h'
    split at h'
    · next q hdeq =>
      obtain ⟨hj, -⟩ := Prod.mk.inj h'
      obtain rfl := Option.some.inj hj
      have hdeq : d.inner.dequeue = some (_, q) := hdeq
      obtain ⟨hpackets, -⟩ := Queue.dequeue_eq_some hdeq
      have hcount : ¬ d.inner.m_nPackets = 0 := fun hzero =>
        Option.some_ne_none _ (hdeq.symm.trans ((Queue.dequeue_eq_none _).mpr hzero))
      rw [Queue.peek, if_neg hcount, hpackets] at hfront
      rw [Option.some.inj hfront]
    · cases h'

/-- The fields of a `TbfQueueDisc`; rates are in bits for each second, and `m_id` is the time for which the
watchdog was set. -/
structure Tbf (τ Item : Type) where
  child : QueueDisc τ Item
  m_burst : UInt32
  m_mtu : UInt32
  m_rate : UInt64
  m_peakRate : UInt64
  m_btokens : UInt32
  m_ptokens : UInt32
  m_timeCheckPoint : Time
  m_id : Option Time
deriving DecidableEq, Repr

namespace Tbf

/-- The child queue disc of the only class. -/
def childDisc : ChildQueueDisc (Tbf τ Item) τ Item := ⟨child, fun c s => { s with child := c }⟩

/-- `Time::GetSeconds`. -/
def getSeconds (t : Time) : ℚ := t / 10 ^ 9

/-- `round`, with halves away from zero. -/
def round (x : ℚ) : ℤ := if 0 ≤ x then ⌊x + 1 / 2⌋ else -⌊-x + 1 / 2⌋

/-- The tokens of a bucket with those that came in since the last packet, at most as many as it holds. -/
def credited (tokens capacity : UInt32) (rate : UInt64) (delta : ℚ) : ℤ :=
  let toks := tokens.toNat + round (delta * ((rate / 8).toNat : ℚ))
  if capacity.toNat < toks then capacity.toNat else toks

/-- `DataRate::CalculateBytesTxTime`, which has no result for a rate of 0. -/
def calculateBytesTxTime (bps : UInt64) (bytes : UInt32) : Option Time :=
  if bps = 0 then none else some (((bytes * 8).toNat * 10 ^ 9 / bps.toNat : Nat) : Time)

/-- The word that a signed number becomes. -/
def toWord (x : ℤ) : UInt32 := UInt32.ofNat (x % 2 ^ 32).toNat

/-- How long the watchdog waits, given the tokens that the packet leaves in the buckets. -/
def requiredDelayTime (s : Tbf τ Item) (btoks ptoks : ℤ) : Option Time :=
  if s.m_peakRate = 0 then calculateBytesTxTime s.m_rate (toWord (-btoks))
  else if btoks < 0 ∧ 0 ≤ ptoks then calculateBytesTxTime s.m_rate (toWord (-btoks))
  else if 0 ≤ btoks ∧ ptoks < 0 then calculateBytesTxTime s.m_peakRate (toWord (-ptoks))
  else do
    let forRate ← calculateBytesTxTime s.m_rate (toWord (-btoks))
    let forPeakRate ← calculateBytesTxTime s.m_peakRate (toWord (-ptoks))
    pure (max forRate forPeakRate)

/-- The time that passed since the last packet. -/
def delta (s : Tbf τ Item) (now : Time) : ℚ := getSeconds (now - s.m_timeCheckPoint)

/-- The tokens that a packet would leave in the first bucket. -/
def btoks (s : Tbf τ Item) (now : Time) (pktSize : UInt32) : ℤ :=
  credited s.m_btokens s.m_burst s.m_rate (s.delta now) - pktSize.toNat

/-- The tokens that a packet would leave in the second bucket, which is there for a positive peak rate
only. -/
def ptoks (s : Tbf τ Item) (now : Time) (pktSize : UInt32) : ℤ :=
  if 0 < s.m_peakRate then credited s.m_ptokens s.m_mtu s.m_peakRate (s.delta now) - pktSize.toNat else 0

section Methods

variable (C : Child τ Item) (isExpired : Time → Option Time → Bool)

/-- `DoEnqueue`. -/
def doEnqueue (now : Time) (item : Item) (d : QueueDisc (Tbf τ Item) Item) :
    Option (Bool × QueueDisc (Tbf τ Item) Item) :=
  d.onChild childDisc (C.enqueue now item)

/-- The packet is taken from the child queue disc and paid for. -/
def takePacket (now : Time) (btoks ptoks : ℤ) (d : QueueDisc (Tbf τ Item) Item) :
    Option (Option Item × QueueDisc (Tbf τ Item) Item) := do
  let (item, d) ← d.onChild childDisc (C.dequeue now)
  match item with
  | none => pure (none, d)
  | some item =>
    pure (some item, { d with inner := { d.inner with
      m_timeCheckPoint := now, m_btokens := toWord btoks, m_ptokens := toWord ptoks } })

/-- The watchdog is set, unless it is. -/
def setWatchdog (now : Time) (btoks ptoks : ℤ) (d : QueueDisc (Tbf τ Item) Item) :
    Option (QueueDisc (Tbf τ Item) Item) :=
  if isExpired now d.inner.m_id then do
    let delay ← d.inner.requiredDelayTime btoks ptoks
    pure { d with inner := { d.inner with m_id := some (now + delay) } }
  else some d

/-- `DoDequeue`. -/
def doDequeue (now : Time) (d : QueueDisc (Tbf τ Item) Item) :
    Option (Option Item × QueueDisc (Tbf τ Item) Item) := do
  let (itemPeek, d) ← d.onChild childDisc (C.peek now)
  match itemPeek with
  | none => pure (none, d)
  | some item =>
    let btoks := d.inner.btoks now (getSize item)
    let ptoks := d.inner.ptoks now (getSize item)
    if 0 ≤ btoks ∧ 0 ≤ ptoks then takePacket C now btoks ptoks d
    else do
      let d ← setWatchdog isExpired now btoks ptoks d
      pure (none, d)

/-- `TbfQueueDisc`; whether the watchdog's event has expired is for the simulator to say. -/
def tbfQueueDisc : Methods (Tbf τ Item) Item where
  doEnqueue := doEnqueue C
  doDequeue := doDequeue C isExpired

end Methods

/-- `InitializeParams`: both buckets are full. -/
def initializeParams (s : Tbf τ Item) : Tbf τ Item :=
  { s with m_btokens := s.m_burst, m_ptokens := s.m_mtu, m_timeCheckPoint := 0, m_id := none }

/-- `CheckConfig`: a device may provide the size of the second bucket, which must not be 0 if there is a
peak rate. -/
def checkConfig (deviceMtu : Option UInt32) (s : Tbf τ Item) : Option (Tbf τ Item) :=
  let s := if s.m_mtu = 0 then { s with m_mtu := deviceMtu.getD 0 } else s
  if s.m_mtu = 0 ∧ 0 < s.m_peakRate then none else some s

end Tbf

end Ns3.TrafficControl
