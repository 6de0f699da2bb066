import Ns3.Core.DefaultSimulatorImpl

/-!
# Runs of the simulator

Over any scheduler that is correct, events are taken in the order of their times, those of one time as they were scheduled,
each once at most; `IsExpired` says which of them are still to come; and none is lost when the scheduler is changed. The
uids must not have wrapped, and no time may be beyond 63 bits.
-/

namespace Ns3.Core

/-- The calls that a program and the bodies of its events make, and those that `Run` and `Destroy` are made of. -/
inductive SimulatorCall (φ : Type) where
  | schedule (delay : Int) (impl : Nat)
  | scheduleNow (impl : Nat)
  | scheduleWithContext (main : Bool) (context : UInt32) (delay : Int) (impl : Nat)
  | scheduleDestroy (impl : Nat)
  | cancel (id : EventId)
  | remove (id : EventId)
  | setScheduler (type : φ)
  | stop
  | enterRun
  | processEventsWithContext
  | processOneEvent
  | destroyOne
  deriving DecidableEq, Repr

/-- What has happened: the events that were scheduled, those taken from the scheduler to be run, those of them whose bodies
were called, those removed, and the ids that `Cancel` and `Remove` did not find expired. -/
structure SimulatorLog where
  scheduled : List Event := []
  taken : List Event := []
  ran : List Event := []
  removed : List Event := []
  cancelled : List EventId := []
  deriving DecidableEq, Repr

/-- The events made of calls of other threads. -/
def eventsOf (ts : UInt64) (uid : UInt32) : List EventWithContext → List Event
  | [] => []
  | e :: events => ⟨e.event, ⟨ts + e.timestamp, uid, e.context⟩⟩ :: eventsOf ts (uid + 1) events

namespace DefaultSimulatorImpl

variable {σ : Type} (s : DefaultSimulatorImpl σ)

/-- How many uids are taken, the ones below 4 included. -/
def uidsTaken : ℕ := if s.m_uid = 0 then 2 ^ 32 else s.m_uid.toNat

/-- The events that `ProcessEventsWithContext` gives to the scheduler. -/
def waiting : List Event :=
  if s.m_eventsWithContextEmpty then [] else eventsOf s.m_currentTs s.m_uid s.m_eventsWithContext

/-- What orders the current event. -/
def currentRank : ℕ ×ₗ ℕ := toLex (s.m_currentTs.toNat, s.m_currentUid.toNat)

end DefaultSimulatorImpl

namespace SimulatorCall

variable {σ φ : Type} (S : EventScheduler σ) (create : φ → σ) (limit : ℕ) (s : DefaultSimulatorImpl σ)

/-- The simulator after a call. -/
def run : SimulatorCall φ → Option (DefaultSimulatorImpl σ)
  | .schedule delay impl => some (s.schedule S delay impl).2
  | .scheduleNow impl => some (s.scheduleNow S impl).2
  | .scheduleWithContext main context delay impl => some (s.scheduleWithContext S main context delay impl)
  | .scheduleDestroy impl => some (s.scheduleDestroy impl).2
  | .cancel id => some (s.cancel id)
  | .remove id => some (s.remove S id)
  | .setScheduler type => s.setScheduler S limit (create type)
  | .stop => some s.stop
  | .enterRun => some (s.enterRun S)
  | .processEventsWithContext => some (s.processEventsWithContext S)
  | .processOneEvent => (s.processOneEvent S).map Prod.snd
  | .destroyOne => s.destroyOne.map Prod.snd

/-- The log after a call. -/
def note (log : SimulatorLog) : SimulatorCall φ → SimulatorLog
  | .schedule delay impl =>
    { log with scheduled := log.scheduled ++ [s.nextEvent (s.absolute delay) s.m_currentContext impl] }
  | .scheduleNow impl => { log with scheduled := log.scheduled ++ [s.nextEvent s.m_currentTs s.m_currentContext impl] }
  | .scheduleWithContext main context delay impl =>
    if main then { log with scheduled := log.scheduled ++ [s.nextEvent (s.absolute delay) context impl] } else log
  | .enterRun | .processEventsWithContext => { log with scheduled := log.scheduled ++ s.waiting }
  | .cancel id => if s.isExpired id then log else { log with cancelled := log.cancelled ++ [id] }
  | .remove id =>
    if id.m_uid = 2 ∨ s.isExpired id then log
    else
      { log with
        cancelled := log.cancelled ++ [id]
        removed := log.removed ++ (id.m_eventImpl.map fun impl => ⟨impl, ⟨id.m_ts, id.m_uid, id.m_context⟩⟩).toList }
  | .processOneEvent =>
    match s.processOneEvent S with
    | none => log
    | some ((next, runs), _) =>
      { log with taken := log.taken ++ [next], ran := if runs then log.ran ++ [next] else log.ran }
  | .scheduleDestroy _ | .setScheduler _ | .stop | .destroyOne => log

/-- The calls that the program may make: delays are not negative and lead to times of 63 bits, uids are left, the ids given to
`Remove` are default ones, those of events for `Destroy`, or those of scheduled events, and `ProcessOneEvent` is not called
when the simulator is finished, nor `Destroy` gone on with when its events are done. -/
def Legal (log : SimulatorLog) : SimulatorCall φ → Prop
  | .schedule delay _ => 0 ≤ delay ∧ s.m_currentTs.toNat + delay < 2 ^ 63 ∧ s.uidsTaken < 2 ^ 32
  | .scheduleNow _ => s.uidsTaken < 2 ^ 32
  | .scheduleWithContext main _ delay _ =>
    main → 0 ≤ delay ∧ s.m_currentTs.toNat + delay < 2 ^ 63 ∧ s.uidsTaken < 2 ^ 32
  | .scheduleDestroy _ => s.uidsTaken < 2 ^ 32
  | .remove id => id.m_eventImpl = none ∨ id.m_uid = 2 ∨ ∃ ev ∈ log.scheduled, id = ev.id
  | .enterRun | .processEventsWithContext =>
    (∀ e ∈ s.m_eventsWithContext, s.m_currentTs.toNat + e.timestamp.toNat < 2 ^ 63) ∧
      s.uidsTaken + s.m_eventsWithContext.length ≤ 2 ^ 32
  | .processOneEvent => s.isFinished S = false
  | .destroyOne => s.m_destroyEvents ≠ []
  | .cancel _ | .setScheduler _ | .stop => True

instance (log : SimulatorLog) (c : SimulatorCall φ) : Decidable (c.Legal S s log) :=
  match c with
  | .schedule delay _ =>
    inferInstanceAs (Decidable (0 ≤ delay ∧ s.m_currentTs.toNat + delay < 2 ^ 63 ∧ s.uidsTaken < 2 ^ 32))
  | .scheduleWithContext main _ delay _ =>
    inferInstanceAs (Decidable (main → 0 ≤ delay ∧ s.m_currentTs.toNat + delay < 2 ^ 63 ∧ s.uidsTaken < 2 ^ 32))
  | .scheduleNow _ | .scheduleDestroy _ => inferInstanceAs (Decidable (s.uidsTaken < 2 ^ 32))
  | .remove id =>
    inferInstanceAs (Decidable (id.m_eventImpl = none ∨ id.m_uid = 2 ∨ ∃ ev ∈ log.scheduled, id = ev.id))
  | .enterRun | .processEventsWithContext =>
    inferInstanceAs (Decidable ((∀ e ∈ s.m_eventsWithContext, s.m_currentTs.toNat + e.timestamp.toNat < 2 ^ 63) ∧
      s.uidsTaken + s.m_eventsWithContext.length ≤ 2 ^ 32))
  | .processOneEvent => inferInstanceAs (Decidable (s.isFinished S = false))
  | .destroyOne => inferInstanceAs (Decidable (s.m_destroyEvents ≠ []))
  | .cancel _ | .setScheduler _ | .stop => .isTrue trivial

/-- The simulators that legal calls reach, each with what has happened. -/
inductive Reached : DefaultSimulatorImpl σ → SimulatorLog → Prop where
  | start (type : φ) : Reached { m_events := create type } {}
  | call {s s' : DefaultSimulatorImpl σ} {log : SimulatorLog} (limit : ℕ) (c : SimulatorCall φ) :
      Reached s log → c.Legal S s log → c.run S create limit s = some s' → Reached s' (c.note S s log)

end SimulatorCall

/-- What a simulator that was reached keeps, where these events are in the scheduler. -/
structure Kept {σ : Type} (Stores : σ → List Event → ℕ → Prop) (s : DefaultSimulatorImpl σ) (log : SimulatorLog)
    (pending : List Event) : Prop where
  stores : ∃ last ≤ s.m_currentTs.toNat, Stores s.m_events pending last
  account : (log.taken ++ log.removed ++ pending).Perm log.scheduled
  ascending : log.scheduled.Pairwise fun a b => a.uid < b.uid
  uids : ∀ ev ∈ log.scheduled, 4 ≤ ev.uid.toNat ∧ ev.uid.toNat < s.uidsTaken
  length : log.scheduled.length + 4 ≤ s.uidsTaken
  small : ∀ ev ∈ log.scheduled, ev.ts < 2 ^ 63
  current : s.m_currentTs.toNat < 2 ^ 63
  currentUid : s.m_currentUid.toNat < s.uidsTaken
  late : ∀ ev ∈ pending, s.currentRank < ev.rank
  inTime : log.taken.Pairwise (· < ·)
  past : ∀ ev ∈ log.taken, ev.rank ≤ s.currentRank
  removed : ∀ ev ∈ log.removed, ev.impl ∈ s.m_cancel
  cancelled : ∀ impl, impl ∈ s.m_cancel ↔ ∃ id ∈ log.cancelled, id.m_eventImpl = some impl
  ran : log.ran.Sublist log.taken
  spared : ∀ ev ∈ log.ran, ev.id ∉ log.cancelled
  silent : ∀ ev ∈ log.taken, ev ∉ log.ran → ev.impl ∈ s.m_cancel
  count : s.m_unscheduledEvents = Int32.ofNat pending.length

namespace Kept

variable {σ φ : Type} {S : EventScheduler σ} {create : φ → σ} {Stores : σ → List Event → ℕ → Prop} {s s' : DefaultSimulatorImpl σ}
  {log : SimulatorLog} {pending : List Event} {ev : Event} {limit : ℕ}

theorem uidsTaken_le (s : DefaultSimulatorImpl σ) : s.uidsTaken ≤ 2 ^ 32 := by
  rw [DefaultSimulatorImpl.uidsTaken]
  split
  · exact Nat.le_refl _
  · exact s.m_uid.toNat_lt.le

theorem uid_eq (hleft : s.uidsTaken < 2 ^ 32) : s.m_uid.toNat = s.uidsTaken := by
  rw [DefaultSimulatorImpl.uidsTaken] at hleft ⊢
  split at hleft
  · exact absurd hleft (Nat.lt_irrefl _)
  · next hne => rw [if_neg hne]

/-- One more uid is taken. -/
theorem uidsTaken_succ (hleft : s.uidsTaken < 2 ^ 32) (huid : s'.m_uid = s.m_uid + 1) : s'.uidsTaken = s.uidsTaken + 1 := by
  have heq := uid_eq hleft
  have hsucc : s'.m_uid.toNat = (s.uidsTaken + 1) % 2 ^ 32 := by
    rw [huid, UInt32.toNat_add, heq]
    rfl
  rw [DefaultSimulatorImpl.uidsTaken]
  by_cases hlast : s.uidsTaken + 1 = 2 ^ 32
  · rw [hlast, Nat.mod_self] at hsucc
    rw [if_pos (UInt32.toNat_inj.mp hsucc), hlast]
  · rw [Nat.mod_eq_of_lt (by omega)] at hsucc
    have hne : s'.m_uid ≠ 0 := by
      intro hzero
      rw [hzero] at hsucc
      exact absurd hsucc.symm (Nat.succ_ne_zero _)
    rw [if_neg hne, hsucc]

theorem start (type : φ) (hcreate : Stores (create type) [] 0) : Kept Stores { m_events := create type } {} [] where
  stores := ⟨0, Nat.zero_le _, hcreate⟩
  account := List.Perm.refl _
  ascending := List.Pairwise.nil
  uids _ h := absurd h List.not_mem_nil
  length := by show 0 + 4 ≤ 4; decide
  small _ h := absurd h List.not_mem_nil
  current := by show 0 < 2 ^ 63; decide
  currentUid := by show 0 < 4; decide
  late _ h := absurd h List.not_mem_nil
  inTime := List.Pairwise.nil
  past _ h := absurd h List.not_mem_nil
  removed _ h := absurd h List.not_mem_nil
  cancelled impl := iff_of_false List.not_mem_nil fun h => by
    obtain ⟨id, hid, -⟩ := h
    cases hid
  ran := List.Sublist.refl _
  spared _ h := absurd h List.not_mem_nil
  silent _ h := absurd h List.not_mem_nil
  count := rfl

section

variable (h : Kept Stores s log pending)
include h

theorem mem_scheduled (hev : ev ∈ pending) : ev ∈ log.scheduled :=
  h.account.mem_iff.mp (List.mem_append_right _ hev)

theorem distinct : DistinctUids log.scheduled := h.ascending.imp fun hlt => by
  intro heq
  rw [heq] at hlt
  exact absurd hlt (UInt32.lt_irrefl _)

theorem few : pending.length < 2 ^ 32 := by
  have hlength := h.account.length_eq
  rw [List.length_append] at hlength
  have hfew := h.length
  have hle := uidsTaken_le s
  omega

/-- What `IsExpired` says of a scheduled event. -/
theorem isExpired_iff (hev : ev ∈ log.scheduled) :
    s.isExpired ev.id = false ↔ s.currentRank < ev.rank ∧ ev.impl ∉ s.m_cancel := by
  have huid : ev.id.m_uid ≠ 2 := by
    intro heq
    have hle := (h.uids ev hev).1
    rw [show ev.uid = 2 from heq] at hle
    exact absurd hle (by decide)
  rw [DefaultSimulatorImpl.isExpired, if_neg huid]
  show (decide (ev.key.m_ts < s.m_currentTs) || (decide (ev.key.m_ts = s.m_currentTs) && decide (ev.key.m_uid ≤ s.m_currentUid)) ||
    decide (ev.impl ∈ s.m_cancel)) = false ↔ _
  rw [Bool.or_eq_false_iff, Bool.or_eq_false_iff, Bool.and_eq_false_iff, decide_eq_false_iff_not, decide_eq_false_iff_not,
    decide_eq_false_iff_not, decide_eq_false_iff_not, DefaultSimulatorImpl.currentRank, Event.rank, Prod.Lex.toLex_lt_toLex,
    UInt64.lt_iff_toNat_lt, ← UInt64.toNat_inj, UInt32.le_iff_toNat_le]
  refine and_congr_left fun _ => ?_
  constructor
  · rintro ⟨hge, hne⟩
    omega
  · rintro (hlt | ⟨heq, hlt⟩)
    · omega
    · omega

theorem isExpired_pending (hev : ev ∈ log.scheduled) : s.isExpired ev.id = false ↔ ev ∈ pending ∧ ev.impl ∉ s.m_cancel := by
  rw [h.isExpired_iff hev]
  refine ⟨fun hnew => ⟨?_, hnew.2⟩, fun hnew => ⟨h.late ev hnew.1, hnew.2⟩⟩
  rcases List.mem_append.mp (h.account.mem_iff.mpr hev) with hpast | hpending
  · rcases List.mem_append.mp hpast with htaken | hremoved
    · exact absurd (h.past ev htaken) (not_le.mpr hnew.1)
    · exact absurd (h.removed ev hremoved) hnew.2
  · exact hpending

/-- An event that is still to come has not been taken. -/
theorem not_taken (hev : ev ∈ pending) : ev ∉ log.taken := fun htaken =>
  absurd (h.late ev hev) (not_lt.mpr (h.past ev htaken))

end

/-! ### The calls -/

/-- An event with the next uid, at a time that has not passed. -/
theorem insertNext (hS : S.Correct Stores) (h : Kept Stores s log pending) (ts : UInt64) (context : UInt32) (impl : Nat)
    (hleft : s.uidsTaken < 2 ^ 32) (hlow : s.m_currentTs.toNat ≤ ts.toNat) (hsmall : ts.toNat < 2 ^ 63) :
    Kept Stores (s.insertNext S ts context impl) { log with scheduled := log.scheduled ++ [s.nextEvent ts context impl] }
      (s.nextEvent ts context impl :: pending) := by
  have huid : (s.nextEvent ts context impl).uid.toNat = s.uidsTaken := uid_eq hleft
  have htaken : (s.insertNext S ts context impl).uidsTaken = s.uidsTaken + 1 := uidsTaken_succ hleft rfl
  have hnew : ∀ e ∈ log.scheduled, e.uid < (s.nextEvent ts context impl).uid := by
    intro e he
    rw [UInt32.lt_iff_toNat_lt, huid]
    exact (h.uids e he).2
  obtain ⟨last, hlast, hstores⟩ := h.stores
  have hlate : s.currentRank < (s.nextEvent ts context impl).rank := by
    refine Prod.Lex.toLex_lt_toLex.mpr ?_
    rcases Nat.lt_or_eq_of_le hlow with hlt | heq
    · exact .inl hlt
    · refine .inr ⟨heq, ?_⟩
      show s.m_currentUid.toNat < (s.nextEvent ts context impl).uid.toNat
      rw [huid]
      exact h.currentUid
  refine
    { stores := ⟨last, hlast, hS.insert hstores (fun e he heq => ?_) (hlast.trans hlow) hsmall⟩
      account := List.perm_middle.trans ((h.account.cons _).trans (List.perm_append_singleton _ _).symm)
      ascending := List.pairwise_append.mpr ⟨h.ascending, List.pairwise_singleton _ _, fun e he e' he' => ?_⟩
      uids := fun e he => ?_
      length := ?_
      small := fun e he => ?_
      current := h.current
      currentUid := ?_
      late := List.forall_mem_cons.mpr ⟨hlate, h.late⟩
      inTime := h.inTime
      past := h.past
      removed := h.removed
      cancelled := h.cancelled
      ran := h.ran
      spared := h.spared
      silent := h.silent
      count := ?_ }
  · have hlt := hnew e (h.mem_scheduled he)
    rw [heq] at hlt
    exact absurd hlt (UInt32.lt_irrefl _)
  · rw [List.mem_singleton.mp he']
    exact hnew e he
  · rw [htaken]
    rcases List.mem_append.mp he with he | he
    · exact ⟨(h.uids e he).1, (h.uids e he).2.trans (Nat.lt_succ_self _)⟩
    · have hfew := h.length
      rw [List.mem_singleton.mp he, huid]
      omega
  · rw [htaken, List.length_append, List.length_singleton]
    have hfew := h.length
    omega
  · rcases List.mem_append.mp he with he | he
    · exact h.small e he
    · rw [List.mem_singleton.mp he]
      exact hsmall
  · rw [htaken]
    exact h.currentUid.trans (Nat.lt_succ_self _)
  · show s.m_unscheduledEvents + 1 = _
    rw [h.count, List.length_cons, Int32.ofNat_add]
    rfl

/-- What the calls leave that do not schedule, take or cancel events. -/
theorem moved (h : Kept Stores s log pending) {pending' : List Event} (hperm : pending'.Perm pending)
    (hstores : ∃ last ≤ s'.m_currentTs.toNat, Stores s'.m_events pending' last) (hts : s'.m_currentTs = s.m_currentTs)
    (huid : s'.m_currentUid = s.m_currentUid) (htaken : s.uidsTaken ≤ s'.uidsTaken) (hcancel : s'.m_cancel = s.m_cancel)
    (hcount : s'.m_unscheduledEvents = s.m_unscheduledEvents) : Kept Stores s' log pending' := by
  have hrank : s'.currentRank = s.currentRank := by
    rw [DefaultSimulatorImpl.currentRank, hts, huid]
    rfl
  exact
    { stores := hstores
      account := (hperm.append_left _).trans h.account
      ascending := h.ascending
      uids := fun e he => ⟨(h.uids e he).1, (h.uids e he).2.trans_le htaken⟩
      length := h.length.trans htaken
      small := h.small
      current := by rw [hts]; exact h.current
      currentUid := by rw [huid]; exact h.currentUid.trans_le htaken
      late := fun e he => by rw [hrank]; exact h.late e (hperm.mem_iff.mp he)
      inTime := h.inTime
      past := fun e he => by rw [hrank]; exact h.past e he
      removed := fun e he => by rw [hcancel]; exact h.removed e he
      cancelled := fun impl => by rw [hcancel]; exact h.cancelled impl
      ran := h.ran
      spared := h.spared
      silent := fun e he hnot => by rw [hcancel]; exact h.silent e he hnot
      count := by rw [hcount, h.count, hperm.length_eq] }

/-- The events of other threads, one after the other. -/
theorem insertAll (hS : S.Correct Stores) (events : List EventWithContext) (h : Kept Stores s log pending)
    (hsmall : ∀ e ∈ events, s.m_currentTs.toNat + e.timestamp.toNat < 2 ^ 63)
    (hleft : s.uidsTaken + events.length ≤ 2 ^ 32) :
    ∃ pending', Kept Stores (s.insertAll S events)
      { log with scheduled := log.scheduled ++ eventsOf s.m_currentTs s.m_uid events } pending' := by
  induction events generalizing s log pending with
  | nil =>
    rw [eventsOf, List.append_nil]
    exact ⟨pending, h⟩
  | cons e events ih =>
    obtain ⟨hfirst, hrest⟩ := List.forall_mem_cons.mp hsmall
    rw [List.length_cons] at hleft
    have hone : s.uidsTaken < 2 ^ 32 := by omega
    have hts : (s.m_currentTs + e.timestamp).toNat = s.m_currentTs.toNat + e.timestamp.toNat := by
      rw [UInt64.toNat_add, Nat.mod_eq_of_lt (by omega)]
    have hkept := h.insertNext hS (s.m_currentTs + e.timestamp) e.context e.event hone (by omega) (by omega)
    have htaken : (s.insertNext S (s.m_currentTs + e.timestamp) e.context e.event).uidsTaken = s.uidsTaken + 1 :=
      uidsTaken_succ hone rfl
    obtain ⟨pending', hall⟩ := ih hkept hrest (by omega)
    rw [List.append_assoc] at hall
    exact ⟨pending', hall⟩

theorem processEventsWithContext (hS : S.Correct Stores) (h : Kept Stores s log pending)
    (hsmall : ∀ e ∈ s.m_eventsWithContext, s.m_currentTs.toNat + e.timestamp.toNat < 2 ^ 63)
    (hleft : s.uidsTaken + s.m_eventsWithContext.length ≤ 2 ^ 32) :
    ∃ pending', Kept Stores (s.processEventsWithContext S) { log with scheduled := log.scheduled ++ s.waiting } pending' := by
  rw [DefaultSimulatorImpl.processEventsWithContext, DefaultSimulatorImpl.waiting]
  split
  · rw [List.append_nil]
    exact ⟨pending, h⟩
  · have hkept : Kept Stores { s with m_eventsWithContext := [], m_eventsWithContextEmpty := true } log pending :=
      h.moved (List.Perm.refl _) h.stores rfl rfl (Nat.le_refl _) rfl rfl
    exact hkept.insertAll hS s.m_eventsWithContext hsmall hleft

/-- The first event is taken. -/
theorem processOneEvent (hS : S.Correct Stores) (h : Kept Stores s log pending) (hne : pending ≠ []) :
    ∃ next s', s.processOneEvent S = some ((next, !s.isCancelled next.impl), s') ∧ FirstOf pending next ∧
      Kept Stores s'
        { log with
          taken := log.taken ++ [next]
          ran := if !s.isCancelled next.impl then log.ran ++ [next] else log.ran } (pending.erase next) := by
  obtain ⟨last, -, hstores⟩ := h.stores
  obtain ⟨next, events, hremove, hfirst, hafter⟩ := hS.removeNext hstores hne
  have hperm : pending.Perm (next :: pending.erase next) := List.perm_cons_erase hfirst.1
  have hnext := h.mem_scheduled hfirst.1
  have hearlier : ∀ e ∈ log.taken, e.rank < next.rank := fun e he => (h.past e he).trans_lt (h.late next hfirst.1)
  have hother : ∀ e ∈ pending.erase next, next.uid ≠ e.uid :=
    (List.pairwise_cons.mp ((hS.distinct hstores).perm hperm)).1
  have hlength : pending.length = (pending.erase next).length + 1 := hperm.length_eq
  rw [DefaultSimulatorImpl.processOneEvent, hremove, Option.map_some]
  refine ⟨next, _, rfl, hfirst, ?_⟩
  refine
    { stores := ⟨next.ts, Nat.le_refl _, hafter⟩
      account := ?_
      ascending := h.ascending
      uids := h.uids
      length := h.length
      small := h.small
      current := h.small next hnext
      currentUid := (h.uids next hnext).2
      late := fun e he => ?_
      inTime := List.pairwise_append.mpr ⟨h.inTime, List.pairwise_singleton _ _, fun e he e' he' => ?_⟩
      past := fun e he => ?_
      removed := h.removed
      cancelled := h.cancelled
      ran := ?_
      spared := fun e he => ?_
      silent := fun e he hnot => ?_
      count := ?_ }
  · refine List.Perm.trans ?_ h.account
    rw [List.append_assoc, List.append_assoc, List.append_assoc]
    refine List.Perm.append_left _ ?_
    show (next :: (log.removed ++ pending.erase next)).Perm (log.removed ++ pending)
    exact List.perm_middle.symm.trans (hperm.symm.append_left _)
  · refine lt_of_le_of_ne (Event.not_lt_iff.mp (hfirst.2 e (List.mem_of_mem_erase he))) fun heq => ?_
    exact hother e he (Event.uid_of_rank heq)
  · rw [List.mem_singleton.mp he']
    exact Event.lt_iff.mpr (hearlier e he)
  · rcases List.mem_append.mp he with he | he
    · exact (hearlier e he).le
    · rw [List.mem_singleton.mp he]
      exact le_refl _
  · split
    · exact h.ran.append (List.Sublist.refl _)
    · exact h.ran.trans (List.sublist_append_left _ _)
  · split at he
    · next hruns =>
      rcases List.mem_append.mp he with he | he
      · exact h.spared e he
      · intro hid
        rw [List.mem_singleton.mp he] at hid
        rw [Bool.not_eq_true', DefaultSimulatorImpl.isCancelled, decide_eq_false_iff_not] at hruns
        exact hruns ((h.cancelled _).mpr ⟨_, hid, rfl⟩)
    · exact h.spared e he
  · split at hnot
    · rcases List.mem_append.mp he with he | he
      · exact h.silent e he fun hran => hnot (List.mem_append_left _ hran)
      · exact absurd (List.mem_append_right _ he) hnot
    · next hruns =>
      rcases List.mem_append.mp he with he | he
      · exact h.silent e he hnot
      · rw [Bool.not_eq_true', Bool.not_eq_false, DefaultSimulatorImpl.isCancelled, decide_eq_true_iff] at hruns
        rw [List.mem_singleton.mp he]
        exact hruns
  · show s.m_unscheduledEvents - 1 = _
    rw [h.count, hlength]
    exact (Int32.ofNat_sub _ 1 (Nat.le_add_left 1 _)).symm

/-- An event is cancelled through an id, which is that of no event whose body was called. -/
theorem cancelImpl (h : Kept Stores s log pending) (id : EventId) {impl : Nat} (hid : id.m_eventImpl = some impl)
    (hspared : ∀ ev ∈ log.ran, ev.id ≠ id) :
    Kept Stores (s.cancelImpl impl) { log with cancelled := log.cancelled ++ [id] } pending :=
  { h with
    removed := fun e he => List.mem_cons_of_mem _ (h.removed e he)
    cancelled := fun i => by
      show i ∈ impl :: s.m_cancel ↔ _
      rw [List.mem_cons, h.cancelled i]
      constructor
      · rintro (rfl | ⟨id', hid', heq⟩)
        · exact ⟨id, List.mem_append_right _ List.mem_cons_self, hid⟩
        · exact ⟨id', List.mem_append_left _ hid', heq⟩
      · rintro ⟨id', hid', heq⟩
        rcases List.mem_append.mp hid' with hid' | hid'
        · exact .inr ⟨id', hid', heq⟩
        · rw [List.mem_singleton.mp hid', hid] at heq
          exact .inl (Option.some.inj heq).symm
    spared := fun e he hmem => by
      rcases List.mem_append.mp hmem with hmem | hmem
      · exact h.spared e he hmem
      · exact hspared e he (List.mem_singleton.mp hmem)
    silent := fun e he hnot => List.mem_cons_of_mem _ (h.silent e he hnot) }

theorem id_inj {a b : Event} (h : a.id = b.id) : a = b := by
  obtain ⟨impl, ts, uid, context⟩ := a
  obtain ⟨impl', ts', uid', context'⟩ := b
  obtain ⟨himpl, rfl, rfl, rfl⟩ := EventId.mk.inj h
  obtain rfl : impl = impl' := Option.some.inj himpl
  rfl

theorem cancel (h : Kept Stores s log pending) (id : EventId) :
    Kept Stores (s.cancel id) (if s.isExpired id then log else { log with cancelled := log.cancelled ++ [id] }) pending := by
  rw [DefaultSimulatorImpl.cancel]
  split
  · exact h
  · next hnot =>
    rw [Bool.not_eq_true] at hnot
    cases himpl : id.m_eventImpl with
    | none =>
      rw [DefaultSimulatorImpl.isExpired, himpl] at hnot
      split at hnot
      · cases hnot
      · cases hnot
    | some impl =>
      refine h.cancelImpl id himpl fun ev hran heq => ?_
      have htaken := h.ran.subset hran
      have hsched := h.account.mem_iff.mp (List.mem_append_left _ (List.mem_append_left _ htaken))
      rw [← heq] at hnot
      exact absurd htaken (h.not_taken ((h.isExpired_pending hsched).mp hnot).1)

/-- An event that is still to come is taken out of the scheduler. -/
theorem remove (hS : S.Correct Stores) (h : Kept Stores s log pending) {id : EventId}
    (hlegal : id.m_eventImpl = none ∨ id.m_uid = 2 ∨ ∃ ev ∈ log.scheduled, id = ev.id) :
    ∃ pending', Kept Stores (s.remove S id)
      (if id.m_uid = 2 ∨ s.isExpired id then log
      else
        { log with
          cancelled := log.cancelled ++ [id]
          removed := log.removed ++ (id.m_eventImpl.map fun impl => ⟨impl, ⟨id.m_ts, id.m_uid, id.m_context⟩⟩).toList })
      pending' := by
  rw [DefaultSimulatorImpl.remove]
  by_cases hdestroy : id.m_uid = 2
  · rw [if_pos hdestroy, if_pos (.inl hdestroy)]
    exact ⟨pending, h.moved (List.Perm.refl _) h.stores rfl rfl (Nat.le_refl _) rfl rfl⟩
  rw [if_neg hdestroy]
  by_cases hexpired : s.isExpired id = true
  · rw [if_pos hexpired, if_pos (.inr hexpired)]
    exact ⟨pending, h⟩
  rw [if_neg hexpired, if_neg (not_or.mpr ⟨hdestroy, hexpired⟩)]
  rw [Bool.not_eq_true] at hexpired
  obtain hnone | h2 | ⟨ev, hev, rfl⟩ := hlegal
  · rw [DefaultSimulatorImpl.isExpired, if_neg hdestroy, hnone] at hexpired
    cases hexpired
  · exact absurd h2 hdestroy
  obtain ⟨hpending, -⟩ := (h.isExpired_pending hev).mp hexpired
  have hperm : pending.Perm (ev :: pending.erase ev) := List.perm_cons_erase hpending
  have hlength : pending.length = (pending.erase ev).length + 1 := hperm.length_eq
  obtain ⟨last, hlast, hstores⟩ := h.stores
  have hkept := h.cancelImpl ev.id rfl fun e hran heq =>
    h.not_taken hpending (id_inj heq ▸ h.ran.subset hran)
  refine ⟨pending.erase ev, { hkept with stores := ⟨last, hlast, hS.remove hstores hpending⟩, account := ?_, late := ?_, removed := ?_, count := ?_ }⟩
  · refine List.Perm.trans ?_ h.account
    show (log.taken ++ (log.removed ++ [ev]) ++ pending.erase ev).Perm _
    rw [List.append_assoc, List.append_assoc, List.append_assoc]
    refine List.Perm.append_left _ (List.Perm.append_left _ ?_)
    exact hperm.symm
  · exact fun e he => h.late e (List.mem_of_mem_erase he)
  · intro e he
    rcases List.mem_append.mp he with he | he
    · exact List.mem_cons_of_mem _ (h.removed e he)
    · obtain rfl := List.mem_singleton.mp he
      exact List.mem_cons_self
  · show s.m_unscheduledEvents - 1 = _
    rw [h.count, hlength]
    exact (Int32.ofNat_sub _ 1 (Nat.le_add_left 1 _)).symm

/-- The loop of `SetScheduler` takes all events from the one scheduler to the other, in as many turns. -/
theorem moveEvents_spec (hS : S.Correct Stores) (limit : ℕ) {events scheduler : σ} {pending : List Event} (moved : List Event)
    {last : ℕ}
    (hold : Stores events pending last) (hnew : Stores scheduler moved 0)
    (hapart : ∀ e ∈ pending, ∀ e' ∈ moved, e'.uid ≠ e.uid) (hsmall : ∀ e ∈ pending, e.ts < 2 ^ 63)
    (hfew : pending.length < 2 ^ 32) :
    (∀ r, DefaultSimulatorImpl.moveEvents S limit events scheduler = some r → ∃ stored, stored.Perm (pending ++ moved) ∧ Stores r stored 0) ∧
      (pending.length < limit → ∃ r, DefaultSimulatorImpl.moveEvents S limit events scheduler = some r) := by
  induction limit generalizing events scheduler pending moved last with
  | zero => exact ⟨fun r hr => (Option.some_ne_none r hr.symm).elim, fun hlt => absurd hlt (Nat.not_lt_zero _)⟩
  | succ limit ih =>
    rw [DefaultSimulatorImpl.moveEvents]
    by_cases hempty : S.isEmpty events = true
    · rw [if_pos hempty]
      obtain rfl := (hS.isEmpty hold hfew).mp hempty
      refine ⟨fun r hr => ?_, fun _ => ⟨scheduler, rfl⟩⟩
      obtain rfl := Option.some.inj hr
      exact ⟨moved, List.Perm.refl _, hnew⟩
    · rw [if_neg hempty]
      have hne : pending ≠ [] := mt (hS.isEmpty hold hfew).mpr hempty
      obtain ⟨next, rest, hremove, hfirst, hafter⟩ := hS.removeNext hold hne
      have hperm : pending.Perm (next :: pending.erase next) := List.perm_cons_erase hfirst.1
      have hlength : pending.length = (pending.erase next).length + 1 := hperm.length_eq
      have hother := (List.pairwise_cons.mp ((hS.distinct hold).perm hperm)).1
      have hin := hS.insert hnew (hapart next hfirst.1) (Nat.zero_le _) (hsmall next hfirst.1)
      rw [hremove]
      obtain ⟨hall, hreturns⟩ := ih (next :: moved) hafter hin
        (fun e he => List.forall_mem_cons.mpr ⟨hother e he, hapart e (List.mem_of_mem_erase he)⟩)
        (fun e he => hsmall e (List.mem_of_mem_erase he)) (by omega)
      refine ⟨fun r hr => ?_, fun hlt => hreturns (by omega)⟩
      obtain ⟨stored, hstored, hstores⟩ := hall r hr
      refine ⟨stored, hstored.trans ?_, hstores⟩
      exact List.perm_middle.trans (hperm.symm.append_right _)

/-- The events are with the other scheduler then, in some order. -/
theorem setScheduler (hS : S.Correct Stores) (h : Kept Stores s log pending) {scheduler : σ} (hnew : Stores scheduler [] 0) :
    (∀ s', s.setScheduler S limit scheduler = some s' → ∃ pending', Kept Stores s' log pending') ∧
      (pending.length < limit → ∃ s', s.setScheduler S limit scheduler = some s') := by
  obtain ⟨last, -, hold⟩ := h.stores
  obtain ⟨hall, hreturns⟩ := moveEvents_spec hS limit [] hold hnew (fun _ _ _ hmem => absurd hmem List.not_mem_nil)
    (fun e he => h.small e (h.mem_scheduled he)) h.few
  constructor
  · intro s' hs'
    obtain ⟨events, hmove, rfl⟩ := Option.map_eq_some_iff.mp hs'
    obtain ⟨stored, hperm, hstores⟩ := hall events hmove
    rw [List.append_nil] at hperm
    exact ⟨stored, h.moved hperm ⟨0, Nat.zero_le _, hstores⟩ rfl rfl (Nat.le_refl _) rfl rfl⟩
  · intro hlt
    obtain ⟨events, hmove⟩ := hreturns hlt
    exact ⟨_, by rw [DefaultSimulatorImpl.setScheduler, hmove, Option.map_some]⟩

theorem pending_ne (hS : S.Correct Stores) (h : Kept Stores s log pending) (hfinished : s.isFinished S = false) :
    pending ≠ [] := by
  rintro rfl
  obtain ⟨last, -, hstores⟩ := h.stores
  rw [DefaultSimulatorImpl.isFinished, (hS.isEmpty hstores h.few).mpr rfl] at hfinished
  cases hfinished

/-- One call. -/
theorem call (hS : S.Correct Stores) (hcreate : ∀ type, Stores (create type) [] 0) (h : Kept Stores s log pending)
    {c : SimulatorCall φ} (hc : c.Legal S s log) (hrun : c.run S create limit s = some s') :
    ∃ pending', Kept Stores s' (c.note S s log) pending' := by
  have htime : ∀ {delay : Int}, 0 ≤ delay → s.m_currentTs.toNat + delay < 2 ^ 63 →
      s.m_currentTs.toNat ≤ (s.absolute delay).toNat ∧ (s.absolute delay).toNat < 2 ^ 63 := by
    intro delay hpos hsmall
    have hnat : ((delay + s.m_currentTs.toNat) % 2 ^ 64).toNat = delay.toNat + s.m_currentTs.toNat := by omega
    rw [DefaultSimulatorImpl.absolute, hnat, UInt64.toNat_ofNat_of_lt' (show _ < 2 ^ 64 by omega)]
    omega
  have hsame : ∀ {s₁ : DefaultSimulatorImpl σ}, s₁.m_events = s.m_events → s₁.m_currentTs = s.m_currentTs →
      s₁.m_currentUid = s.m_currentUid → s.uidsTaken ≤ s₁.uidsTaken → s₁.m_cancel = s.m_cancel →
      s₁.m_unscheduledEvents = s.m_unscheduledEvents → Kept Stores s₁ log pending := by
    intro s₁ hevents hts huid htaken hcancel hcount
    refine h.moved (List.Perm.refl _) ?_ hts huid htaken hcancel hcount
    rw [hevents, hts]
    exact h.stores
  cases c with
  | schedule delay impl =>
    obtain rfl := Option.some.inj hrun
    obtain ⟨hpos, hsmall, hleft⟩ := hc
    exact ⟨_, h.insertNext hS _ _ impl hleft (htime hpos hsmall).1 (htime hpos hsmall).2⟩
  | scheduleNow impl =>
    obtain rfl := Option.some.inj hrun
    exact ⟨_, h.insertNext hS _ _ impl hc (Nat.le_refl _) h.current⟩
  | scheduleWithContext main context delay impl =>
    obtain rfl := Option.some.inj hrun
    rw [DefaultSimulatorImpl.scheduleWithContext, SimulatorCall.note]
    by_cases hmain : main = true
    · obtain ⟨hpos, hsmall, hleft⟩ := hc hmain
      rw [if_pos hmain, if_pos hmain]
      exact ⟨_, h.insertNext hS _ context impl hleft (htime hpos hsmall).1 (htime hpos hsmall).2⟩
    · rw [if_neg hmain, if_neg hmain]
      exact ⟨pending, hsame rfl rfl rfl (Nat.le_refl _) rfl rfl⟩
  | scheduleDestroy impl =>
    obtain rfl := Option.some.inj hrun
    have htaken : (s.scheduleDestroy impl).2.uidsTaken = s.uidsTaken + 1 := uidsTaken_succ hc rfl
    exact ⟨pending, hsame rfl rfl rfl (htaken ▸ Nat.le_succ _) rfl rfl⟩
  | cancel id =>
    obtain rfl := Option.some.inj hrun
    exact ⟨pending, h.cancel id⟩
  | remove id =>
    obtain rfl := Option.some.inj hrun
    exact h.remove hS hc
  | setScheduler type => exact (h.setScheduler hS (hcreate type)).1 s' hrun
  | stop =>
    obtain rfl := Option.some.inj hrun
    exact ⟨pending, hsame rfl rfl rfl (Nat.le_refl _) rfl rfl⟩
  | enterRun =>
    obtain rfl := Option.some.inj hrun
    obtain ⟨pending', hkept⟩ := h.processEventsWithContext hS hc.1 hc.2
    exact ⟨pending', hkept.moved (List.Perm.refl _) hkept.stores rfl rfl (Nat.le_refl _) rfl rfl⟩
  | processEventsWithContext =>
    obtain rfl := Option.some.inj hrun
    exact h.processEventsWithContext hS hc.1 hc.2
  | processOneEvent =>
    obtain ⟨next, s₁, hone, -, hkept⟩ := h.processOneEvent hS (h.pending_ne hS hc)
    have hrun : (s.processOneEvent S).map Prod.snd = some s' := hrun
    rw [hone] at hrun
    obtain rfl := Option.some.inj hrun
    rw [SimulatorCall.note, hone]
    exact ⟨_, hkept⟩
  | destroyOne =>
    obtain ⟨⟨_, s₁⟩, hone, rfl⟩ := Option.map_eq_some_iff.mp hrun
    rw [DefaultSimulatorImpl.destroyOne] at hone
    split at hone
    · cases hone
    · obtain ⟨-, rfl⟩ := Prod.mk.inj (Option.some.inj hone)
      exact ⟨pending, hsame rfl rfl rfl (Nat.le_refl _) rfl rfl⟩

/-- A legal call returns, `SetScheduler` after a turn for each event. -/
theorem returns (hS : S.Correct Stores) (hcreate : ∀ type, Stores (create type) [] 0) (h : Kept Stores s log pending)
    {c : SimulatorCall φ} (hc : c.Legal S s log) : ∃ s', c.run S create (pending.length + 1) s = some s' := by
  cases c with
  | schedule | scheduleNow | scheduleWithContext | scheduleDestroy | cancel | remove | stop | enterRun
  | processEventsWithContext => exact ⟨_, rfl⟩
  | setScheduler type => exact (h.setScheduler hS (hcreate type)).2 (Nat.lt_succ_self _)
  | processOneEvent =>
    obtain ⟨next, s₁, hone, -⟩ := h.processOneEvent hS (h.pending_ne hS hc)
    refine ⟨s₁, ?_⟩
    show (s.processOneEvent S).map Prod.snd = _
    rw [hone, Option.map_some]
  | destroyOne =>
    obtain ⟨id, rest, hevents⟩ := List.exists_cons_of_ne_nil hc
    refine ⟨{ s with m_destroyEvents := rest }, ?_⟩
    show s.destroyOne.map Prod.snd = _
    rw [DefaultSimulatorImpl.destroyOne, hevents]
    rfl

end Kept

/-- What a simulator is for, where these events are in its scheduler: every event that was scheduled is there, or was taken
once, in the order of the times and of the scheduling, or was removed; its body was called unless it was cancelled; and
`IsExpired` and `m_unscheduledEvents` tell of the events that are still to come. -/
structure Orderly {σ φ : Type} (S : EventScheduler σ) (create : φ → σ) (s : DefaultSimulatorImpl σ) (log : SimulatorLog)
    (pending : List Event) : Prop where
  inTime : log.taken.Pairwise (· < ·)
  inTurn : log.scheduled.Pairwise fun a b => a.uid < b.uid
  once : (log.taken ++ log.removed ++ pending).Perm log.scheduled
  isEmpty : S.isEmpty s.m_events = true ↔ pending = []
  next : pending ≠ [] →
    ∃ next s', s.processOneEvent S = some ((next, !s.isCancelled next.impl), s') ∧ FirstOf pending next
  notPast : ∀ ev ∈ pending, s.m_currentTs ≤ ev.key.m_ts
  isExpired : ∀ ev ∈ log.scheduled, s.isExpired ev.id = false ↔ ev ∈ pending ∧ s.isCancelled ev.impl = false
  unscheduled : s.m_unscheduledEvents = Int32.ofNat pending.length
  ran : log.ran.Sublist log.taken
  spared : ∀ ev ∈ log.ran, ev.id ∉ log.cancelled
  silent : ∀ ev ∈ log.taken, ev ∉ log.ran → ∃ id ∈ log.cancelled, id.m_eventImpl = some ev.impl
  returns : ∀ c : SimulatorCall φ, c.Legal S s log → ∃ s', c.run S create (pending.length + 1) s = some s'

variable {σ φ : Type} {S : EventScheduler σ} {create : φ → σ} {Stores : σ → List Event → ℕ → Prop} {s : DefaultSimulatorImpl σ}
  {log : SimulatorLog}

theorem Kept.orderly {pending : List Event} (hS : S.Correct Stores) (hcreate : ∀ type, Stores (create type) [] 0)
    (h : Kept Stores s log pending) : Orderly S create s log pending := by
  obtain ⟨last, -, hstores⟩ := h.stores
  refine
    { inTime := h.inTime
      inTurn := h.ascending
      once := h.account
      isEmpty := hS.isEmpty hstores h.few
      next := fun hne => ?_
      notPast := fun ev hev => ?_
      isExpired := fun ev hev => ?_
      unscheduled := h.count
      ran := h.ran
      spared := h.spared
      silent := fun ev hev hnot => (h.cancelled _).mp (h.silent ev hev hnot)
      returns := fun c hc => h.returns hS hcreate hc }
  · obtain ⟨next, s', hone, hfirst, -⟩ := h.processOneEvent hS hne
    exact ⟨next, s', hone, hfirst⟩
  · have hle := Prod.Lex.monotone_fst _ _ (h.late ev hev).le
    exact UInt64.le_iff_toNat_le.mpr hle
  · rw [h.isExpired_pending hev, DefaultSimulatorImpl.isCancelled, decide_eq_false_iff_not]

theorem SimulatorCall.Reached.kept (hS : S.Correct Stores) (hcreate : ∀ type, Stores (create type) [] 0)
    (h : Reached S create s log) : ∃ pending, Kept Stores s log pending := by
  induction h with
  | start type => exact ⟨[], .start type (hcreate type)⟩
  | call limit c _ hc hrun ih =>
    obtain ⟨pending, hkept⟩ := ih
    exact hkept.call hS hcreate hc hrun

/-- Over any correct scheduler, whatever the bodies of the events call. -/
theorem simulator_orderly (hS : S.Correct Stores) (hcreate : ∀ type, Stores (create type) [] 0) (s : DefaultSimulatorImpl σ)
    (log : SimulatorLog) (h : SimulatorCall.Reached S create s log) : ∃ pending, Orderly S create s log pending := by
  obtain ⟨pending, hkept⟩ := h.kept hS hcreate
  exact ⟨pending, hkept.orderly hS hcreate⟩

/-- From the list to the calendar with events stored, one of them cancelled and one removed, and one from another thread. -/
theorem simulator_orderly_moved : ∃ s log, log.ran.map Event.impl = [2, 1, 5] ∧ log.removed.map Event.impl = [3] ∧
    log.taken.map Event.impl = [2, 4, 1, 5] ∧ ∃ pending, Orderly anyScheduler SchedulerType.create s log pending := by
  have h0 : SimulatorCall.Reached anyScheduler SchedulerType.create _ _ := .start .list
  have h1 := h0.call 9 (.schedule 20 1) (by decide) rfl
  have h2 := h1.call 9 (.schedule 5 2) (by decide) rfl
  have h3 := h2.call 9 (.schedule 30 3) (by decide) rfl
  have h4 := h3.call 9 (.schedule 7 4) (by decide) rfl
  have h5 := h4.call 9 (.scheduleWithContext false 3 40 5) (by decide) rfl
  have h6 := h5.call 9 (.cancel ⟨some 4, 7, 0xffffffff, 7⟩) (by decide) rfl
  have h7 := h6.call 9 .enterRun (by decide) rfl
  have h8 := h7.call 9 .processOneEvent (by decide) rfl
  have h9 := h8.call 9 (.setScheduler (.calendar true)) (by decide) rfl
  have h10 := h9.call 9 (.remove ⟨some 3, 30, 0xffffffff, 6⟩) (by decide) rfl
  have h11 := h10.call 9 .processOneEvent (by decide) rfl
  have h12 := h11.call 9 .processOneEvent (by decide) rfl
  have h13 := h12.call 9 .processOneEvent (by decide) rfl
  exact ⟨_, _, by decide, by decide, by decide, simulator_orderly anyScheduler_correct SchedulerType.create_stores _ _ h13⟩

end Ns3.Core
