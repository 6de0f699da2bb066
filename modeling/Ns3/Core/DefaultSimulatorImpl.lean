import Ns3.Core.EventSchedulers

/-!
# The simulator

`DefaultSimulatorImpl` over any scheduler: what `Schedule` and its kin give to the scheduler, what `ProcessOneEvent` takes
from it, `Cancel`, `Remove` and `IsExpired`, and the change to another scheduler. The bodies of the events are not
described: they make any of these calls. Sources: `src/core/model/default-simulator-impl.cc`, `event-id.cc`, `event-impl.cc`.
-/

namespace Ns3.Core

/-- `EventId`, the address of the `EventImpl` being that of none when the id is the default one. -/
structure EventId where
  m_eventImpl : Option Nat
  m_ts : UInt64
  m_context : UInt32
  m_uid : UInt32
  deriving DecidableEq, Repr

/-- The id of an event. -/
def Event.id (ev : Event) : EventId := ⟨some ev.impl, ev.key.m_ts, ev.key.m_context, ev.key.m_uid⟩

/-- `DefaultSimulatorImpl::EventWithContext`. -/
structure EventWithContext where
  context : UInt32
  timestamp : UInt64
  event : Nat
  deriving DecidableEq, Repr

/-- `DefaultSimulatorImpl`, with `m_cancel` of the `EventImpl`s, as the list of those that are cancelled. -/
structure DefaultSimulatorImpl (σ : Type) where
  m_events : σ
  m_eventsWithContext : List EventWithContext := []
  m_eventsWithContextEmpty : Bool := true
  m_destroyEvents : List EventId := []
  m_stop : Bool := false
  m_uid : UInt32 := 4
  m_currentUid : UInt32 := 0
  m_currentTs : UInt64 := 0
  m_currentContext : UInt32 := 0xffffffff
  m_eventCount : UInt64 := 0
  m_unscheduledEvents : Int32 := 0
  m_cancel : List Nat := []
  deriving DecidableEq, Repr

namespace DefaultSimulatorImpl

variable {σ : Type} (S : EventScheduler σ) (s : DefaultSimulatorImpl σ)

/-- An event with the next uid. -/
def nextEvent (ts : UInt64) (context : UInt32) (impl : Nat) : Event := ⟨impl, ⟨ts, s.m_uid, context⟩⟩

/-- An event with the next uid is given to the scheduler. -/
def insertNext (ts : UInt64) (context : UInt32) (impl : Nat) : DefaultSimulatorImpl σ :=
  { s with
    m_uid := s.m_uid + 1
    m_unscheduledEvents := s.m_unscheduledEvents + 1
    m_events := S.insert s.m_events (s.nextEvent ts context impl) }

/-- `delay + TimeStep (m_currentTs)`, as a timestamp. -/
def absolute (delay : Int) : UInt64 := UInt64.ofNat ((delay + s.m_currentTs.toNat) % 2 ^ 64).toNat

/-- `DefaultSimulatorImpl::Schedule`. -/
def schedule (delay : Int) (impl : Nat) : EventId × DefaultSimulatorImpl σ :=
  ((s.nextEvent (s.absolute delay) s.m_currentContext impl).id, s.insertNext S (s.absolute delay) s.m_currentContext impl)

/-- `DefaultSimulatorImpl::ScheduleNow`. -/
def scheduleNow (impl : Nat) : EventId × DefaultSimulatorImpl σ :=
  ((s.nextEvent s.m_currentTs s.m_currentContext impl).id, s.insertNext S s.m_currentTs s.m_currentContext impl)

/-- `DefaultSimulatorImpl::ScheduleWithContext`, in the main thread or in another one. -/
def scheduleWithContext (main : Bool) (context : UInt32) (delay : Int) (impl : Nat) : DefaultSimulatorImpl σ :=
  if main then s.insertNext S (s.absolute delay) context impl
  else
    { s with
      m_eventsWithContext := s.m_eventsWithContext ++ [⟨context, UInt64.ofNat (delay % 2 ^ 64).toNat, impl⟩]
      m_eventsWithContextEmpty := false }

/-- `DefaultSimulatorImpl::ScheduleDestroy`. -/
def scheduleDestroy (impl : Nat) : EventId × DefaultSimulatorImpl σ :=
  let id : EventId := ⟨some impl, s.m_currentTs, 0xffffffff, 2⟩
  (id, { s with m_destroyEvents := s.m_destroyEvents ++ [id], m_uid := s.m_uid + 1 })

/-- The loop of `ProcessEventsWithContext`. -/
def insertAll (s : DefaultSimulatorImpl σ) : List EventWithContext → DefaultSimulatorImpl σ
  | [] => s
  | event :: events =>
    insertAll (s.insertNext S (s.m_currentTs + event.timestamp) event.context event.event) events

/-- `DefaultSimulatorImpl::ProcessEventsWithContext`. -/
def processEventsWithContext : DefaultSimulatorImpl σ :=
  if s.m_eventsWithContextEmpty then s
  else
    { s with m_eventsWithContext := [], m_eventsWithContextEmpty := true }.insertAll S s.m_eventsWithContext

/-- `EventImpl::IsCancelled`. -/
def isCancelled (impl : Nat) : Bool := impl ∈ s.m_cancel

/-- `EventImpl::Cancel`. -/
def cancelImpl (impl : Nat) : DefaultSimulatorImpl σ := { s with m_cancel := impl :: s.m_cancel }

/-- `DefaultSimulatorImpl::ProcessOneEvent` up to `EventImpl::Notify`: the event, and whether its body is called. -/
def processOneEvent : Option ((Event × Bool) × DefaultSimulatorImpl σ) :=
  (S.removeNext s.m_events).map fun (next, events) =>
    ((next, !s.isCancelled next.impl),
      { s with
        m_events := events
        m_unscheduledEvents := s.m_unscheduledEvents - 1
        m_eventCount := s.m_eventCount + 1
        m_currentTs := next.key.m_ts
        m_currentContext := next.key.m_context
        m_currentUid := next.key.m_uid })

/-- `DefaultSimulatorImpl::IsExpired`. -/
def isExpired (id : EventId) : Bool :=
  if id.m_uid = 2 then
    match id.m_eventImpl with
    | none => true
    | some impl => s.isCancelled impl || !(id ∈ s.m_destroyEvents)
  else
    match id.m_eventImpl with
    | none => true
    | some impl =>
      id.m_ts < s.m_currentTs || (id.m_ts = s.m_currentTs && id.m_uid ≤ s.m_currentUid) || s.isCancelled impl

/-- `DefaultSimulatorImpl::Cancel`. -/
def cancel (id : EventId) : DefaultSimulatorImpl σ :=
  if s.isExpired id then s else id.m_eventImpl.elim s s.cancelImpl

/-- `DefaultSimulatorImpl::Remove`. -/
def remove (id : EventId) : DefaultSimulatorImpl σ :=
  if id.m_uid = 2 then { s with m_destroyEvents := s.m_destroyEvents.erase id }
  else if s.isExpired id then s
  else
    id.m_eventImpl.elim s fun impl =>
      { s.cancelImpl impl with
        m_events := S.remove s.m_events ⟨impl, ⟨id.m_ts, id.m_uid, id.m_context⟩⟩
        m_unscheduledEvents := s.m_unscheduledEvents - 1 }

/-- The loop of `SetScheduler`, cut off after `limit` turns. -/
def moveEvents : ℕ → σ → σ → Option σ
  | 0, _, _ => none
  | limit + 1, events, scheduler =>
    if S.isEmpty events then some scheduler
    else
      match S.removeNext events with
      | none => none
      | some (next, events) => moveEvents limit events (S.insert scheduler next)

/-- `DefaultSimulatorImpl::SetScheduler`, given the new scheduler. -/
def setScheduler (limit : ℕ) (scheduler : σ) : Option (DefaultSimulatorImpl σ) :=
  (moveEvents S limit s.m_events scheduler).map fun events => { s with m_events := events }

/-- One turn of the loop of `Destroy`: the event, and whether its body is called. -/
def destroyOne : Option ((EventId × Bool) × DefaultSimulatorImpl σ) :=
  match s.m_destroyEvents with
  | [] => none
  | id :: rest => some ((id, id.m_eventImpl.all fun impl => !s.isCancelled impl), { s with m_destroyEvents := rest })

/-- The start of `DefaultSimulatorImpl::Run`. -/
def enterRun : DefaultSimulatorImpl σ := { s.processEventsWithContext S with m_stop := false }

/-- `DefaultSimulatorImpl::Stop`. -/
def stop : DefaultSimulatorImpl σ := { s with m_stop := true }

/-- `DefaultSimulatorImpl::IsFinished`. -/
def isFinished : Bool := S.isEmpty s.m_events || s.m_stop

end DefaultSimulatorImpl

end Ns3.Core
