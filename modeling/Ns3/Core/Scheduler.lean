import Mathlib.Data.Int.Bitwise
import Mathlib.Data.List.Pairwise
import Mathlib.Data.List.Perm.Basic
import Mathlib.Data.Prod.Lex
import Mathlib.Order.Lattice

/-!
# Schedulers

The interface of the event list of a simulator, the order of its events, and the scheduler that keeps them in a sorted
list. Sources: `src/core/model/scheduler.h`, `list-scheduler.cc`.
-/

namespace Ns3.Core

/-- `Scheduler::EventKey`. -/
structure EventKey where
  m_ts : UInt64
  m_uid : UInt32
  m_context : UInt32
  deriving DecidableEq, Repr

/-- `Scheduler::Event`, `impl` standing for the address of its `EventImpl`. -/
structure Event where
  impl : Nat
  key : EventKey
  deriving DecidableEq, Repr

/-- `operator <` of two keys, which does not look at the context. -/
instance : LT EventKey := ⟨fun a b => a.m_ts < b.m_ts ∨ a.m_ts = b.m_ts ∧ a.m_uid < b.m_uid⟩

instance (a b : EventKey) : Decidable (a < b) :=
  inferInstanceAs (Decidable (a.m_ts < b.m_ts ∨ a.m_ts = b.m_ts ∧ a.m_uid < b.m_uid))

/-- `operator <` of two events. -/
instance : LT Event := ⟨fun a b => a.key < b.key⟩

instance (a b : Event) : Decidable (a < b) := inferInstanceAs (Decidable (a.key < b.key))

/-- What orders the events. -/
def Event.rank (ev : Event) : ℕ ×ₗ ℕ := toLex (ev.key.m_ts.toNat, ev.key.m_uid.toNat)

/-- The uid of an event. -/
def Event.uid (ev : Event) : UInt32 := ev.key.m_uid

theorem Event.lt_iff {a b : Event} : a < b ↔ a.rank < b.rank := by
  rw [rank, rank, Prod.Lex.toLex_lt_toLex]
  show a.key.m_ts < b.key.m_ts ∨ a.key.m_ts = b.key.m_ts ∧ a.key.m_uid < b.key.m_uid ↔ _
  rw [UInt64.lt_iff_toNat_lt, UInt32.lt_iff_toNat_lt, UInt64.toNat_inj]

theorem Event.not_lt_iff {a b : Event} : ¬ a < b ↔ b.rank ≤ a.rank := by rw [lt_iff, not_lt]

theorem Event.uid_of_rank {a b : Event} (h : a.rank = b.rank) : a.uid = b.uid :=
  UInt32.toNat_inj.mp (congrArg (fun r => (ofLex r).2) h)

/-- What the simulator calls of a scheduler. `PeekNext` and `RemoveNext` have no result when nothing is stored. -/
structure Scheduler (σ : Type) where
  insert : σ → Event → σ
  peekNext : σ → Option Event
  removeNext : σ → Option (Event × σ)
  remove : σ → Event → σ

/-- One call of a scheduler. -/
inductive SchedulerCall where
  | insert (ev : Event)
  | peekNext
  | removeNext
  | remove (ev : Event)
  deriving DecidableEq, Repr

/-- What a call leaves, and the event that it returns. -/
def Scheduler.call {σ : Type} (S : Scheduler σ) (s : σ) : SchedulerCall → σ × Option Event
  | .insert ev => (S.insert s ev, none)
  | .peekNext => (s, S.peekNext s)
  | .removeNext =>
    match S.removeNext s with
    | some (ev, s') => (s', some ev)
    | none => (s, none)
  | .remove ev => (S.remove s ev, none)

/-- A stored event that none comes before. -/
def FirstOf (stored : List Event) (ev : Event) : Prop := ev ∈ stored ∧ ∀ e ∈ stored, ¬ e < ev

/-- No two of these events have the same uid. -/
def DistinctUids (evs : List Event) : Prop := evs.Pairwise fun a b => a.uid ≠ b.uid

namespace SchedulerCall

/-- The calls that may be made while these events are stored: no uid is stored twice, only stored events are removed,
and there is a next event when it is asked for. -/
def Allowed (stored : List Event) : SchedulerCall → Prop
  | .insert ev => ∀ e ∈ stored, e.uid ≠ ev.uid
  | .peekNext => stored ≠ []
  | .removeNext => stored ≠ []
  | .remove ev => ev ∈ stored

/-- The events stored after a call that returned `answer`. -/
def keeps (stored : List Event) (answer : Option Event) : SchedulerCall → List Event
  | .insert ev => ev :: stored
  | .peekNext => stored
  | .removeNext => (answer.map stored.erase).getD stored
  | .remove ev => stored.erase ev

/-- The call returns the first of the stored events when it returns one. -/
def Right (stored : List Event) (answer : Option Event) : SchedulerCall → Prop
  | .insert _ => answer = none
  | .peekNext => ∃ ev, answer = some ev ∧ FirstOf stored ev
  | .removeNext => ∃ ev, answer = some ev ∧ FirstOf stored ev
  | .remove _ => answer = none

end SchedulerCall

/-! ### The sorted list -/

/-- `ListScheduler`. -/
structure ListScheduler where
  m_events : List Event
  deriving DecidableEq, Repr

/-- The loop of `ListScheduler::Insert`. -/
def insertEvent (ev : Event) : List Event → List Event
  | [] => [ev]
  | i :: rest => if ev.key < i.key then ev :: i :: rest else i :: insertEvent ev rest

/-- The loop of `ListScheduler::Remove`. -/
def removeEvent (ev : Event) : List Event → List Event
  | [] => []
  | i :: rest => if i.key.m_uid = ev.key.m_uid then rest else i :: removeEvent ev rest

namespace ListScheduler

/-- `ListScheduler::Insert`. -/
def insert (l : ListScheduler) (ev : Event) : ListScheduler := ⟨insertEvent ev l.m_events⟩

/-- `ListScheduler::PeekNext`. -/
def peekNext (l : ListScheduler) : Option Event := l.m_events.head?

/-- `ListScheduler::RemoveNext`. -/
def removeNext (l : ListScheduler) : Option (Event × ListScheduler) :=
  match l.m_events with
  | [] => none
  | next :: rest => some (next, ⟨rest⟩)

/-- `ListScheduler::Remove`. -/
def remove (l : ListScheduler) (ev : Event) : ListScheduler := ⟨removeEvent ev l.m_events⟩

end ListScheduler

/-- `ListScheduler` as a scheduler. -/
def listScheduler : Scheduler ListScheduler where
  insert := ListScheduler.insert
  peekNext := ListScheduler.peekNext
  removeNext := ListScheduler.removeNext
  remove := ListScheduler.remove

/-! ### Stored events -/

section

variable {evs evs' : List Event} {ev : Event}

theorem DistinctUids.perm (h : DistinctUids evs) (hperm : evs.Perm evs') : DistinctUids evs' :=
  hperm.pairwise h fun hne => hne.symm

theorem DistinctUids.eq_of_uid (h : DistinctUids evs) {a b : Event} (ha : a ∈ evs) (hb : b ∈ evs) (huid : a.uid = b.uid) :
    a = b := by
  by_contra hne
  have hsymm : Std.Symm fun a b : Event => a.uid ≠ b.uid := ⟨fun _ _ hab => hab.symm⟩
  exact h.forall ha hb hne huid

/-- Of events with uids of their own only one comes first. -/
theorem FirstOf.unique (h : DistinctUids evs) {a b : Event} (ha : FirstOf evs a) (hb : FirstOf evs b) : a = b := by
  have hle := Event.not_lt_iff.mp (ha.2 b hb.1)
  have hge := Event.not_lt_iff.mp (hb.2 a ha.1)
  exact h.eq_of_uid ha.1 hb.1 (Event.uid_of_rank (le_antisymm hle hge))

theorem FirstOf.perm (h : FirstOf evs ev) (hperm : evs.Perm evs') : FirstOf evs' ev :=
  ⟨hperm.mem_iff.mp h.1, fun e he => h.2 e (hperm.mem_iff.mpr he)⟩

namespace SchedulerCall

variable {stored : List Event} {answer : Option Event} {c : SchedulerCall}

/-- No call that is allowed stores a uid twice. -/
theorem Allowed.distinct (hc : c.Allowed stored) (h : DistinctUids stored) : DistinctUids (c.keeps stored answer) := by
  cases c with
  | insert ev => exact List.pairwise_cons.mpr ⟨fun e he => (hc e he).symm, h⟩
  | peekNext => exact h
  | removeNext =>
    cases answer with
    | none => exact h
    | some ev => exact h.sublist List.erase_sublist
  | remove ev => exact h.sublist List.erase_sublist

theorem Right.unique (h : DistinctUids stored) {answer' : Option Event} (ha : c.Right stored answer)
    (hb : c.Right stored answer') : answer = answer' := by
  cases c with
  | insert | remove => exact Eq.trans ha (Eq.symm hb)
  | peekNext | removeNext =>
    obtain ⟨a, rfl, ha⟩ := ha
    obtain ⟨b, rfl, hb⟩ := hb
    rw [ha.unique h hb]

end SchedulerCall

end

/-! ### The sorted list keeps its order -/

/-- Events in their order, each with a uid of its own. -/
def InOrder (evs : List Event) : Prop := evs.Pairwise fun a b => a < b ∧ a.uid ≠ b.uid

section

variable {evs : List Event} {ev : Event}

theorem InOrder.distinct (h : InOrder evs) : DistinctUids evs := h.imp fun hab => hab.2

theorem InOrder.firstOf (h : InOrder (ev :: evs)) : FirstOf (ev :: evs) ev := by
  refine ⟨List.mem_cons_self, fun e he => Event.not_lt_iff.mpr ?_⟩
  rcases List.mem_cons.mp he with rfl | he
  · exact le_refl _
  · exact (Event.lt_iff.mp ((List.pairwise_cons.mp h).1 e he).1).le

theorem insertEvent_perm (ev : Event) (evs : List Event) : (insertEvent ev evs).Perm (ev :: evs) := by
  induction evs with
  | nil => exact List.Perm.refl _
  | cons i rest ih =>
    rw [insertEvent]
    split
    · exact List.Perm.refl _
    · exact (ih.cons i).trans (List.Perm.swap ev i rest)

theorem InOrder.insertEvent (h : InOrder evs) (hev : ∀ e ∈ evs, e.uid ≠ ev.uid) : InOrder (insertEvent ev evs) := by
  induction evs with
  | nil => exact List.pairwise_singleton _ ev
  | cons i rest ih =>
    obtain ⟨hi, hrest⟩ := List.pairwise_cons.mp h
    rw [Core.insertEvent]
    split
    · next hlt =>
      refine List.pairwise_cons.mpr ⟨fun e he => ⟨?_, (hev e he).symm⟩, h⟩
      rcases List.mem_cons.mp he with rfl | he
      · exact hlt
      · exact Event.lt_iff.mpr ((Event.lt_iff.mp hlt).trans (Event.lt_iff.mp (hi e he).1))
    · next hlt =>
      have hle : i.rank ≤ ev.rank := Event.not_lt_iff.mp hlt
      have hne : i.rank ≠ ev.rank := fun heq => hev i List.mem_cons_self (Event.uid_of_rank heq)
      refine List.pairwise_cons.mpr ⟨fun e he => ?_, ih hrest fun e he => hev e (List.mem_cons_of_mem i he)⟩
      rcases List.mem_cons.mp ((insertEvent_perm ev rest).mem_iff.mp he) with rfl | he
      · exact ⟨Event.lt_iff.mpr (lt_of_le_of_ne hle hne), hev i List.mem_cons_self⟩
      · exact hi e he

/-- The event with the uid is the event. -/
theorem removeEvent_eq_erase (h : DistinctUids evs) (hev : ev ∈ evs) : removeEvent ev evs = evs.erase ev := by
  induction evs with
  | nil => cases hev
  | cons i rest ih =>
    obtain ⟨hi, hrest⟩ := List.pairwise_cons.mp h
    rw [removeEvent]
    by_cases heq : i = ev
    · rw [heq, if_pos rfl, List.erase_cons_head]
    · have hmem : ev ∈ rest := (List.mem_cons.mp hev).resolve_left (Ne.symm heq)
      have hne : i.key.m_uid ≠ ev.key.m_uid := hi ev hmem
      rw [if_neg hne, ih hrest hmem, List.erase_cons_tail (by rwa [beq_iff_eq])]

end

/-- The list has the stored events in their order. -/
structure ListScheduler.Lists (l : ListScheduler) (stored : List Event) : Prop where
  stored : l.m_events.Perm stored
  inOrder : InOrder l.m_events

namespace ListScheduler.Lists

variable {l : ListScheduler} {stored : List Event} {c : SchedulerCall}

theorem start : Lists ⟨[]⟩ [] := ⟨List.Perm.refl _, List.Pairwise.nil⟩

theorem distinct (h : l.Lists stored) : DistinctUids stored := h.inOrder.distinct.perm h.stored

/-- A call answers with the first event and leaves the stored events in their order. -/
theorem call (h : l.Lists stored) (hc : c.Allowed stored) :
    c.Right stored (listScheduler.call l c).2 ∧
      (listScheduler.call l c).1.Lists (c.keeps stored (listScheduler.call l c).2) := by
  cases c with
  | insert ev =>
    have hev : ∀ e ∈ l.m_events, e.uid ≠ ev.uid := fun e he => hc e (h.stored.mem_iff.mp he)
    exact ⟨rfl, (insertEvent_perm ev l.m_events).trans (h.stored.cons ev), h.inOrder.insertEvent hev⟩
  | peekNext =>
    obtain ⟨evs⟩ := l
    cases evs with
    | nil => exact absurd h.stored.symm.eq_nil hc
    | cons ev rest => exact ⟨⟨ev, rfl, h.inOrder.firstOf.perm h.stored⟩, h⟩
  | removeNext =>
    obtain ⟨evs⟩ := l
    cases evs with
    | nil => exact absurd h.stored.symm.eq_nil hc
    | cons ev rest =>
      refine ⟨⟨ev, rfl, h.inOrder.firstOf.perm h.stored⟩, ?_, (List.pairwise_cons.mp h.inOrder).2⟩
      have herase := h.stored.erase ev
      rwa [List.erase_cons_head] at herase
  | remove ev =>
    have hev : ev ∈ l.m_events := h.stored.mem_iff.mpr hc
    have heq : (l.remove ev).m_events = l.m_events.erase ev := removeEvent_eq_erase h.inOrder.distinct hev
    refine ⟨rfl, ?_, ?_⟩
    · show (l.remove ev).m_events.Perm (stored.erase ev)
      rw [heq]
      exact h.stored.erase ev
    · show InOrder (l.remove ev).m_events
      rw [heq]
      exact h.inOrder.sublist List.erase_sublist

end ListScheduler.Lists

end Ns3.Core
