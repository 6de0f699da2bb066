import Ns3.Core.CalendarRefines

/-!
# The schedulers of a simulator

What a simulator relies on in a scheduler, and that the map, the list and the calendar give it. Schedulers of two kinds are
one kind, as the simulator changes between them. Sources: `src/core/model/map-scheduler.cc`, `list-scheduler.cc`,
`calendar-scheduler.cc`.
-/

namespace Ns3.Core

/-- A scheduler with `Scheduler::IsEmpty`. -/
structure EventScheduler (σ : Type) extends Scheduler σ where
  isEmpty : σ → Bool

/-- `Stores s stored last` when in the state `s` these are the events stored, and the last one that was returned had the
time `last`. -/
structure EventScheduler.Correct {σ : Type} (S : EventScheduler σ) (Stores : σ → List Event → ℕ → Prop) : Prop where
  distinct : ∀ {s stored last}, Stores s stored last → DistinctUids stored
  isEmpty : ∀ {s stored last}, Stores s stored last → stored.length < 2 ^ 32 → (S.isEmpty s = true ↔ stored = [])
  insert : ∀ {s stored last ev}, Stores s stored last → (∀ e ∈ stored, e.uid ≠ ev.uid) → last ≤ ev.ts → ev.ts < 2 ^ 63 →
    Stores (S.insert s ev) (ev :: stored) last
  removeNext : ∀ {s stored last}, Stores s stored last → stored ≠ [] →
    ∃ ev s', S.removeNext s = some (ev, s') ∧ FirstOf stored ev ∧ Stores s' (stored.erase ev) ev.ts
  remove : ∀ {s stored last ev}, Stores s stored last → ev ∈ stored → Stores (S.remove s ev) (stored.erase ev) last

/-! ### The map -/

/-- `MapScheduler`, the `std::map` of keys to events being the list of these in the order of the keys. -/
structure MapScheduler where
  m_list : List Event
  deriving DecidableEq, Repr

/-- `std::map::insert`, which does nothing when there is such a key. -/
def insertKey (ev : Event) : List Event → List Event
  | [] => [ev]
  | i :: rest => if ev.key < i.key then ev :: i :: rest else if i.key < ev.key then i :: insertKey ev rest else i :: rest

/-- `std::map::erase` of what `find` finds. -/
def eraseKey (key : EventKey) : List Event → List Event
  | [] => []
  | i :: rest => if ¬ i.key < key ∧ ¬ key < i.key then rest else i :: eraseKey key rest

namespace MapScheduler

/-- `MapScheduler::Insert`. -/
def insert (m : MapScheduler) (ev : Event) : MapScheduler := ⟨insertKey ev m.m_list⟩

/-- `MapScheduler::PeekNext`. -/
def peekNext (m : MapScheduler) : Option Event := m.m_list.head?

/-- `MapScheduler::RemoveNext`. -/
def removeNext (m : MapScheduler) : Option (Event × MapScheduler) :=
  match m.m_list with
  | [] => none
  | next :: rest => some (next, ⟨rest⟩)

/-- `MapScheduler::Remove`. -/
def remove (m : MapScheduler) (ev : Event) : MapScheduler := ⟨eraseKey ev.key m.m_list⟩

/-- `MapScheduler::IsEmpty`. -/
def isEmpty (m : MapScheduler) : Bool := m.m_list.isEmpty

end MapScheduler

/-- `MapScheduler` as a scheduler. -/
def mapScheduler : EventScheduler MapScheduler where
  insert := MapScheduler.insert
  peekNext := MapScheduler.peekNext
  removeNext := MapScheduler.removeNext
  remove := MapScheduler.remove
  isEmpty := MapScheduler.isEmpty

section

variable {evs : List Event} {ev : Event}

/-- Without its key in the map an event goes where the sorted list has it. -/
theorem insertKey_eq (hev : ∀ e ∈ evs, e.uid ≠ ev.uid) : insertKey ev evs = insertEvent ev evs := by
  induction evs with
  | nil => rfl
  | cons i rest ih =>
    have hne : i.uid ≠ ev.uid := hev i List.mem_cons_self
    rw [insertKey, insertEvent, ih fun e he => hev e (List.mem_cons_of_mem i he)]
    by_cases hlt : ev.key < i.key
    · rw [if_pos hlt, if_pos hlt]
    · have hgt : i.key < ev.key := by
        refine Event.lt_iff.mpr (lt_of_le_of_ne (Event.not_lt_iff.mp hlt) fun heq => ?_)
        exact hne (Event.uid_of_rank heq)
      rw [if_neg hlt, if_neg hlt, if_pos hgt]

/-- The event with the key is the event. -/
theorem eraseKey_eq (h : InOrder evs) (hev : ev ∈ evs) : eraseKey ev.key evs = evs.erase ev := by
  induction evs with
  | nil => cases hev
  | cons i rest ih =>
    obtain ⟨hi, hrest⟩ := List.pairwise_cons.mp h
    rw [eraseKey]
    by_cases heq : i = ev
    · have hsame : ¬ ev.key < ev.key := fun hlt => lt_irrefl _ (Event.lt_iff.mp hlt)
      rw [heq, if_pos ⟨hsame, hsame⟩, List.erase_cons_head]
    · have hmem : ev ∈ rest := (List.mem_cons.mp hev).resolve_left (Ne.symm heq)
      rw [if_neg fun hsame => hsame.1 (hi ev hmem).1, ih hrest hmem, List.erase_cons_tail (by rwa [beq_iff_eq])]

end

/-- The map has the stored events in the order of their keys. -/
structure MapScheduler.Lists (m : MapScheduler) (stored : List Event) : Prop where
  stored : m.m_list.Perm stored
  inOrder : InOrder m.m_list

/-- The map does what the sorted list does. -/
theorem MapScheduler.lists_iff {m : MapScheduler} {stored : List Event} :
    m.Lists stored ↔ (ListScheduler.mk m.m_list).Lists stored :=
  ⟨fun h => ⟨h.stored, h.inOrder⟩, fun h => ⟨h.stored, h.inOrder⟩⟩

/-! ### The list and the calendar -/

/-- `ListScheduler` with `IsEmpty`. -/
def eventList : EventScheduler ListScheduler := { listScheduler with isEmpty := fun l => l.m_events.isEmpty }

/-- `CalendarScheduler` with `IsEmpty`. -/
def eventCalendar : EventScheduler (Option CalendarScheduler) :=
  { calendarScheduler with isEmpty := fun c => c.all fun c => c.m_qSize = 0 }

theorem isEmpty_of_perm {evs stored : List Event} (h : evs.Perm stored) : evs.isEmpty = true ↔ stored = [] := by
  rw [List.isEmpty_iff_length_eq_zero, h.length_eq, List.length_eq_zero_iff]

/-- The next event of a list that is not empty. -/
theorem ListScheduler.Lists.removeNext {evs stored : List Event} (h : (ListScheduler.mk evs).Lists stored) (hne : stored ≠ []) :
    ∃ next rest, evs = next :: rest ∧ FirstOf stored next ∧ (ListScheduler.mk rest).Lists (stored.erase next) := by
  obtain ⟨⟨ev, hanswer, hfirst⟩, hlists⟩ := h.call (c := .removeNext) hne
  cases evs with
  | nil => exact absurd h.stored.symm.eq_nil hne
  | cons next rest =>
    obtain rfl := Option.some.inj hanswer
    exact ⟨next, rest, rfl, hfirst, hlists⟩

/-- What the calls say, as the simulator relies on it. -/
theorem ListScheduler.correct : eventList.Correct fun l stored _ => l.Lists stored where
  distinct h := h.distinct
  isEmpty h _ := isEmpty_of_perm h.stored
  insert h hev _ _ := (h.call (c := .insert _) hev).2
  removeNext := by
    rintro ⟨evs⟩ stored _ h hne
    obtain ⟨next, rest, rfl, hfirst, hlists⟩ := h.removeNext hne
    exact ⟨next, ⟨rest⟩, rfl, hfirst, hlists⟩
  remove h hev := (h.call (c := .remove _) hev).2

theorem MapScheduler.correct : mapScheduler.Correct fun m stored _ => m.Lists stored where
  distinct h := (lists_iff.mp h).distinct
  isEmpty h _ := isEmpty_of_perm h.stored
  insert := by
    intro m stored _ ev h hev hlow hsmall
    have hin := ListScheduler.correct.insert (lists_iff.mp h) hev hlow hsmall
    have heq : mapScheduler.insert m ev = ⟨insertEvent ev m.m_list⟩ := by
      show MapScheduler.mk (insertKey ev m.m_list) = _
      rw [insertKey_eq fun e he => hev e (h.stored.mem_iff.mp he)]
    rw [heq]
    exact lists_iff.mpr hin
  removeNext := by
    rintro ⟨evs⟩ stored _ h hne
    obtain ⟨next, rest, rfl, hfirst, hlists⟩ := (lists_iff.mp h).removeNext hne
    exact ⟨next, ⟨rest⟩, rfl, hfirst, lists_iff.mpr hlists⟩
  remove := by
    intro m stored last ev h hev
    have hmem : ev ∈ m.m_list := h.stored.mem_iff.mpr hev
    have heq : mapScheduler.remove m ev = ⟨m.m_list.erase ev⟩ := by
      show MapScheduler.mk (eraseKey ev.key m.m_list) = _
      rw [eraseKey_eq h.inOrder hmem]
    rw [heq]
    exact ⟨h.stored.erase ev, h.inOrder.sublist List.erase_sublist⟩

/-- The calendar holds the stored events, none of them twice. -/
def CalendarScheduler.Stores (c : Option CalendarScheduler) (stored : List Event) (last : ℕ) : Prop :=
  DistinctUids stored ∧ ∃ c', c = some c' ∧ c'.Keeps stored last

theorem CalendarScheduler.correct : eventCalendar.Correct CalendarScheduler.Stores where
  distinct h := h.1
  isEmpty := by
    rintro _ stored last ⟨-, c, rfl, h⟩ hfew
    have hsize : c.m_qSize = stored.length := h.qSize.trans (Nat.mod_eq_of_lt hfew)
    show decide (c.m_qSize = 0) = true ↔ _
    rw [decide_eq_true_iff, hsize, List.length_eq_zero_iff]
  insert := by
    rintro _ stored last ev ⟨hdistinct, c, rfl, h⟩ hev hlow hsmall
    exact ⟨List.pairwise_cons.mpr ⟨fun e he => (hev e he).symm, hdistinct⟩, h.insert hlow hsmall⟩
  removeNext := by
    rintro _ stored last ⟨hdistinct, c, rfl, h⟩ hne
    obtain ⟨ev, c', hremove, hfirst, hkeeps⟩ := h.removeNext hne
    refine ⟨ev, some c', ?_, hfirst, hdistinct.sublist List.erase_sublist, c', rfl, hkeeps⟩
    show ((some c).bind CalendarScheduler.removeNext).map _ = _
    rw [Option.bind_some, hremove, Option.map_some]
  remove := by
    rintro _ stored last ev ⟨hdistinct, c, rfl, h⟩ hev
    exact ⟨hdistinct.sublist List.erase_sublist, h.remove hdistinct hev⟩

/-! ### Schedulers of two kinds -/

section

variable {σ τ : Type} (S : EventScheduler σ) (T : EventScheduler τ)

/-- A scheduler that is of one kind or the other. -/
def EventScheduler.sum : EventScheduler (σ ⊕ τ) where
  insert s ev := s.map (fun s => S.insert s ev) fun t => T.insert t ev
  peekNext s := s.elim S.peekNext T.peekNext
  removeNext s := s.elim (fun s => (S.removeNext s).map (Prod.map id .inl)) fun t => (T.removeNext t).map (Prod.map id .inr)
  remove s ev := s.map (fun s => S.remove s ev) fun t => T.remove t ev
  isEmpty s := s.elim S.isEmpty T.isEmpty

variable {S T} {Stores : σ → List Event → ℕ → Prop} {Stores' : τ → List Event → ℕ → Prop}

theorem EventScheduler.Correct.sum (hS : S.Correct Stores) (hT : T.Correct Stores') : (S.sum T).Correct (Sum.elim Stores Stores') where
  distinct {s _ _} h := by
    cases s with
    | inl s => exact hS.distinct h
    | inr t => exact hT.distinct h
  isEmpty {s _ _} h hfew := by
    cases s with
    | inl s => exact hS.isEmpty h hfew
    | inr t => exact hT.isEmpty h hfew
  insert {s _ _ _} h hev hlow hsmall := by
    cases s with
    | inl s => exact hS.insert h hev hlow hsmall
    | inr t => exact hT.insert h hev hlow hsmall
  removeNext {s _ _} h hne := by
    cases s with
    | inl s =>
      obtain ⟨ev, s', hremove, hfirst, hstores⟩ := hS.removeNext h hne
      refine ⟨ev, .inl s', ?_, hfirst, hstores⟩
      show (S.removeNext s).map _ = _
      rw [hremove]
      rfl
    | inr t =>
      obtain ⟨ev, t', hremove, hfirst, hstores⟩ := hT.removeNext h hne
      refine ⟨ev, .inr t', ?_, hfirst, hstores⟩
      show (T.removeNext t).map _ = _
      rw [hremove]
      rfl
  remove {s _ _ _} h hev := by
    cases s with
    | inl s => exact hS.remove h hev
    | inr t => exact hT.remove h hev

end

/-- The types of the schedulers. -/
inductive SchedulerType where
  | map
  | list
  | calendar (reverse : Bool)
  deriving DecidableEq, Repr

/-- The states of the map, the list and the calendar. -/
abbrev AnyScheduler : Type := MapScheduler ⊕ ListScheduler ⊕ Option CalendarScheduler

/-- `schedulerFactory.Create<Scheduler> ()`. -/
def SchedulerType.create : SchedulerType → AnyScheduler
  | .map => .inl ⟨[]⟩
  | .list => .inr (.inl ⟨[]⟩)
  | .calendar reverse => .inr (.inr (some (CalendarScheduler.new reverse)))

/-- The map, the list and the calendar, whichever it is. -/
def anyScheduler : EventScheduler AnyScheduler := mapScheduler.sum (eventList.sum eventCalendar)

/-- What these store. -/
def AnyScheduler.Stores : AnyScheduler → List Event → ℕ → Prop :=
  Sum.elim (fun m stored _ => m.Lists stored) (Sum.elim (fun l stored _ => l.Lists stored) CalendarScheduler.Stores)

theorem anyScheduler_correct : anyScheduler.Correct AnyScheduler.Stores :=
  MapScheduler.correct.sum (ListScheduler.correct.sum CalendarScheduler.correct)

theorem SchedulerType.create_stores (type : SchedulerType) : AnyScheduler.Stores type.create [] 0 := by
  cases type with
  | map => exact MapScheduler.lists_iff.mpr .start
  | list => exact ListScheduler.Lists.start
  | calendar reverse => exact ⟨List.Pairwise.nil, _, rfl, .new reverse⟩

end Ns3.Core
