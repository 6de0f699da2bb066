import Ns3.Core.CalendarRuns
import Ns3.Core.HeapScheduler

/-!
# The calendar scheduler refines the list scheduler

Every resize keeps the stored events, whatever width its samples give, so that the calendar answers like the sorted list.
The number of stored events is counted in 32 bits.
-/

namespace Ns3.Core

open Ns3.Lib

namespace CalendarScheduler

variable {c c' : CalendarScheduler} {ev : Event} {stored : List Event}

/-! ### Resizing -/

/-- Events put into their buckets leave the rest of the calendar as it is. -/
theorem SameCalendar.refl (c : CalendarScheduler) : SameCalendar c c := ⟨rfl, rfl, rfl, rfl⟩

theorem SameCalendar.trans {c'' : CalendarScheduler} (h : SameCalendar c c') (h' : SameCalendar c' c'') : SameCalendar c c'' :=
  ⟨h'.nBuckets.trans h.nBuckets, h'.width.trans h.width, h'.reverse.trans h.reverse, h'.qSize.trans h.qSize⟩

/-- Events that are put into their buckets one after the other. -/
theorem Filed.doInsertAll (h : c.Filed stored) (evs : List Event) :
    (evs.foldl CalendarScheduler.doInsert c).Filed (evs ++ stored) ∧
      ∃ buckets, evs.foldl CalendarScheduler.doInsert c = { c with m_buckets := buckets } := by
  induction evs generalizing c stored with
  | nil => exact ⟨h, c.m_buckets, rfl⟩
  | cons ev evs ih =>
    obtain ⟨hfiled, buckets, heq⟩ := ih (h.doInsert ev)
    exact ⟨hfiled.perm List.perm_middle, buckets, heq⟩

/-- The samples are taken from the front. -/
theorem takeSamples_spec (h : c.Filed stored) (hc : c.Clocked stored) {n : ℕ} (hn : n ≤ stored.length) :
    ∃ samples rest c', takeSamples n c = some (samples, c') ∧ (samples ++ rest).Perm stored ∧ c'.Filed rest ∧
      SameCalendar c c' := by
  induction n generalizing c stored with
  | zero => exact ⟨[], stored, c, rfl, List.Perm.refl _, h, .refl c⟩
  | succ n ih =>
    have hne : stored ≠ [] := List.ne_nil_of_length_pos (Nat.lt_of_lt_of_le (Nat.succ_pos n) hn)
    obtain ⟨ev, c₁, hremove, hfirst, hfiled, hclocked, -, hsame⟩ := doRemoveNext_spec h hc hne
    have hlength : n ≤ (stored.erase ev).length := by
      rw [List.length_erase_of_mem hfirst.1]
      exact Nat.le_sub_one_of_lt hn
    obtain ⟨samples, rest, c', htake, hperm, hfiled', hsame'⟩ := ih hfiled hclocked hlength
    refine ⟨ev :: samples, rest, c', ?_, ?_, hfiled', hsame.trans hsame'⟩
    · rw [takeSamples, hremove]
      dsimp only
      rw [htake]
    · exact (hperm.cons ev).trans (List.perm_cons_erase hfirst.1).symm

theorem widthOf_pos (samples : List Event) (nSamples : ℕ) : 0 < widthOf samples nSamples :=
  Nat.lt_of_lt_of_le Nat.one_pos (le_max_right _ _)

theorem widthOf_lt (samples : List Event) (nSamples : ℕ) : widthOf samples nSamples < 2 ^ 64 :=
  max_lt (Nat.mod_lt _ (by decide)) (by decide)

/-- The samples are put back, and the clock is set back. -/
theorem calculateNewWidth_spec (h : c.Filed stored) (hc : c.Clocked stored) (hsize : c.m_qSize ≤ stored.length) :
    ∃ newWidth buckets, c.calculateNewWidth = some (newWidth, { c with m_buckets := buckets }) ∧ 0 < newWidth ∧
      newWidth < 2 ^ 64 ∧ { c with m_buckets := buckets }.Filed stored := by
  rw [calculateNewWidth]
  split
  · exact ⟨1, c.m_buckets, rfl, by decide, by decide, h⟩
  · next hmany =>
    have hn : min (if c.m_qSize ≤ 5 then c.m_qSize else 5 + c.m_qSize / 10) 25 ≤ stored.length := by
      refine (min_le_left _ _).trans (le_trans ?_ hsize)
      split
      · exact le_refl _
      · omega
    generalize min (if c.m_qSize ≤ 5 then c.m_qSize else 5 + c.m_qSize / 10) 25 = nSamples at hn ⊢
    obtain ⟨samples, rest, taken, htake, hperm, hfiled, hsame⟩ := takeSamples_spec h hc hn
    obtain ⟨hback, buckets, heq⟩ := hfiled.doInsertAll samples
    have hrestored : { samples.foldl doInsert taken with
        m_lastBucket := c.m_lastBucket, m_bucketTop := c.m_bucketTop, m_lastPrio := c.m_lastPrio } =
          { c with m_buckets := buckets } := by
      rw [heq, CalendarScheduler.mk.injEq]
      exact ⟨rfl, hsame.nBuckets, hsame.width, rfl, rfl, rfl, hsame.qSize, hsame.reverse⟩
    refine ⟨widthOf samples nSamples, buckets, ?_, widthOf_pos _ _, widthOf_lt _ _, ?_⟩
    · dsimp only
      rw [htake]
      dsimp only
      rw [hrestored]
    · rw [← hrestored]
      exact (hback.moved _ _ _ _).perm hperm

/-- What a calendar is between calls: its events are filed, its clock is at the last event that was returned, and it counts
its events in 32 bits. -/
structure Keeps (c : CalendarScheduler) (stored : List Event) (last : ℕ) : Prop where
  filed : c.Filed stored
  clocked : c.Clocked stored
  lastPrio : c.m_lastPrio = last
  qSize : c.m_qSize = stored.length % 2 ^ 32

variable {last : ℕ}

theorem Filed.init (c : CalendarScheduler) {nBuckets width : ℕ} (hn : 0 < nBuckets) (hwidth : 0 < width) (hlt : width < 2 ^ 64)
    (startPrio : ℕ) : (c.init nBuckets width startPrio).Filed [] := by
  have hempty : ∀ i, (c.init nBuckets width startPrio).bucket i = [] := by
    intro i
    show (List.replicate nBuckets []).getD i [] = []
    rw [List.getD_eq_getElem?_getD, List.getElem?_replicate]
    split
    · rfl
    · rfl
  refine ⟨List.length_replicate, hn, hwidth, hlt, fun i e he => ?_, fun i => ?_, ?_⟩
  · rw [hempty i] at he
    cases he
  · rw [hempty i]
    exact List.Pairwise.nil
  · show (List.replicate nBuckets ([] : List Event)).flatten.Perm []
    rw [List.flatten_replicate_nil]

/-- Every event has a bucket in the new calendar, whose clock is where it was. -/
theorem Keeps.doResize (h : c.Keeps stored last) {newSize newWidth : ℕ} (hn : 0 < newSize) (hwidth : 0 < newWidth)
    (hlt : newWidth < 2 ^ 64) : (c.doResize newSize newWidth).Keeps stored last := by
  obtain ⟨hfiled, buckets, heq⟩ := (Filed.init c hn hwidth hlt c.m_lastPrio).doInsertAll c.m_buckets.flatten
  rw [List.append_nil] at hfiled
  refine ⟨hfiled.perm h.filed.holds, ?_, ?_, ?_⟩
  · rw [CalendarScheduler.doResize, heq]
    exact ⟨rfl, rfl, h.clocked.lastPrio, h.clocked.low, h.clocked.small⟩
  · rw [CalendarScheduler.doResize, heq]
    exact h.lastPrio
  · rw [CalendarScheduler.doResize, heq]
    exact h.qSize

theorem Keeps.resize (h : c.Keeps stored last) {newSize : ℕ} (hn : 0 < newSize) :
    ∃ c', c.resize newSize = some c' ∧ c'.Keeps stored last := by
  have hsize : c.m_qSize ≤ stored.length := h.qSize ▸ Nat.mod_le _ _
  obtain ⟨newWidth, buckets, hcalculate, hpos, hlt, hfiled⟩ := calculateNewWidth_spec h.filed h.clocked hsize
  have hkeeps : { c with m_buckets := buckets }.Keeps stored last :=
    ⟨hfiled, ⟨h.clocked.lastBucket, h.clocked.bucketTop, h.clocked.lastPrio, h.clocked.low, h.clocked.small⟩, h.lastPrio,
      h.qSize⟩
  refine ⟨_, ?_, hkeeps.doResize hn hpos hlt⟩
  rw [CalendarScheduler.resize, hcalculate]

theorem Keeps.resizeUp (h : c.Keeps stored last) : ∃ c', c.resizeUp = some c' ∧ c'.Keeps stored last := by
  rw [CalendarScheduler.resizeUp]
  split
  · exact h.resize (Nat.mul_pos h.filed.nBuckets Nat.two_pos)
  · exact ⟨c, rfl, h⟩

theorem Keeps.resizeDown (h : c.Keeps stored last) : ∃ c', c.resizeDown = some c' ∧ c'.Keeps stored last := by
  rw [CalendarScheduler.resizeDown]
  split
  · next hfew => exact h.resize (Nat.zero_lt_of_lt hfew)
  · exact ⟨c, rfl, h⟩

/-! ### One call -/

theorem Keeps.new (reverse : Bool) : (new reverse).Keeps [] 0 :=
  ⟨Filed.init _ Nat.two_pos Nat.one_pos (by decide) 0,
    ⟨rfl, rfl, (by decide : 0 < 2 ^ 63), fun e he => absurd he List.not_mem_nil, fun e he => absurd he List.not_mem_nil⟩, rfl, rfl⟩

theorem Keeps.insert (h : c.Keeps stored last) (hlow : last ≤ ev.ts) (hsmall : ev.ts < 2 ^ 63) :
    ∃ c', c.insert ev = some c' ∧ c'.Keeps (ev :: stored) last := by
  have hfiled := h.filed.doInsert ev
  have hlow' : ∀ e ∈ ev :: stored, c.m_lastPrio ≤ e.ts := List.forall_mem_cons.mpr ⟨h.lastPrio.trans_le hlow, h.clocked.low⟩
  have hsmall' : ∀ e ∈ ev :: stored, e.ts < 2 ^ 63 := List.forall_mem_cons.mpr ⟨hsmall, h.clocked.small⟩
  have hkeeps : { c.doInsert ev with m_qSize := ((c.doInsert ev).m_qSize + 1) % 2 ^ 32 }.Keeps (ev :: stored) last := by
    refine ⟨hfiled.moved _ _ _ _, ⟨h.clocked.lastBucket, h.clocked.bucketTop, h.clocked.lastPrio, hlow', hsmall'⟩, h.lastPrio, ?_⟩
    show (c.m_qSize + 1) % 2 ^ 32 = _
    rw [h.qSize, Nat.mod_add_mod, List.length_cons]
  exact hkeeps.resizeUp

theorem dropOne_eq (c : CalendarScheduler) :
    ∃ n, c.dropOne = { c with m_qSize := n } ∧ n = (c.m_qSize + 2 ^ 32 - 1) % 2 ^ 32 := by
  unfold dropOne
  exact ⟨_, rfl, rfl⟩

theorem Filed.dropOne (h : c.Filed stored) : c.dropOne.Filed stored := by
  obtain ⟨n, heq, -⟩ := dropOne_eq c
  rw [heq]
  exact h.moved c.m_lastBucket c.m_bucketTop c.m_lastPrio n

theorem Clocked.dropOne (h : c.Clocked stored) : c.dropOne.Clocked stored := by
  obtain ⟨n, heq, -⟩ := dropOne_eq c
  rw [heq]
  exact ⟨h.lastBucket, h.bucketTop, h.lastPrio, h.low, h.small⟩

/-- One event less, and one less counted. -/
theorem Keeps.dropOne {prio : ℕ} (hfiled : c.Filed (stored.erase ev)) (hclocked : c.Clocked (stored.erase ev))
    (hprio : c.m_lastPrio = prio) (hev : ev ∈ stored) (hsize : c.m_qSize = stored.length % 2 ^ 32) :
    c.dropOne.Keeps (stored.erase ev) prio := by
  obtain ⟨n, heq, hn⟩ := dropOne_eq c
  have hpos := List.length_pos_of_mem hev
  refine ⟨hfiled.dropOne, hclocked.dropOne, ?_, ?_⟩
  · rw [heq]
    exact hprio
  · rw [heq, List.length_erase_of_mem hev]
    show n = _
    rw [hn, hsize]
    omega

theorem Keeps.removeNext (h : c.Keeps stored last) (hne : stored ≠ []) :
    ∃ ev c', c.removeNext = some (ev, c') ∧ FirstOf stored ev ∧ c'.Keeps (stored.erase ev) ev.ts := by
  obtain ⟨ev, c₁, hremove, hfirst, hfiled, hclocked, hprio, hsame⟩ := doRemoveNext_spec h.filed h.clocked hne
  have hkeeps : c₁.dropOne.Keeps (stored.erase ev) ev.ts :=
    .dropOne hfiled hclocked hprio hfirst.1 (hsame.qSize.trans h.qSize)
  obtain ⟨c', hresize, hkeeps'⟩ := hkeeps.resizeDown
  exact ⟨ev, c', removeNext_some hremove hresize, hfirst, hkeeps'⟩

theorem Keeps.remove (h : c.Keeps stored last) (hdistinct : DistinctUids stored) (hev : ev ∈ stored) :
    ∃ c', c.remove ev = some c' ∧ c'.Keeps (stored.erase ev) last := by
  have hin := h.filed.mem_bucket hev
  have hfound : (c.bucket (c.hash ev.ts)).any (fun i => i.key.m_uid = ev.key.m_uid) = true :=
    List.any_eq_true.mpr ⟨ev, hin, decide_eq_true rfl⟩
  have hbucket : removeEvent ev (c.bucket (c.hash ev.ts)) = (c.bucket (c.hash ev.ts)).erase ev := by
    refine removeEvent_eq_erase ?_ hin
    have hmem : c.bucket (c.hash ev.ts) ∈ c.m_buckets := List.mem_of_getElem? (bucket_eq (h.filed.hash_lt ev.ts))
    exact (hdistinct.perm h.filed.holds.symm).sublist (List.sublist_flatten_of_mem hmem)
  have hperm := List.perm_cons_erase hin
  have hfiled : (c.setBucket (c.hash ev.ts) ((c.bucket (c.hash ev.ts)).erase ev)).Filed (stored.erase ev) :=
    h.filed.remove (h.filed.hash_lt ev.ts) hperm ((h.filed.sorted _).sublist List.erase_sublist)
  have hclocked : (c.setBucket (c.hash ev.ts) ((c.bucket (c.hash ev.ts)).erase ev)).Clocked (stored.erase ev) :=
    { lastBucket := h.clocked.lastBucket
      bucketTop := h.clocked.bucketTop
      lastPrio := h.clocked.lastPrio
      low := fun e he => h.clocked.low e (List.mem_of_mem_erase he)
      small := fun e he => h.clocked.small e (List.mem_of_mem_erase he) }
  have hkeeps : (c.setBucket (c.hash ev.ts) ((c.bucket (c.hash ev.ts)).erase ev)).dropOne.Keeps (stored.erase ev) last :=
    .dropOne hfiled hclocked h.lastPrio hev h.qSize
  rw [CalendarScheduler.remove, if_pos hfound, hbucket]
  exact hkeeps.resizeDown

end CalendarScheduler

/-! ### Two schedulers side by side -/

/-- `CalendarScheduler` as a scheduler, without a state once it has read a bucket that there is not. -/
def calendarScheduler : Scheduler (Option CalendarScheduler) where
  insert c ev := c.bind fun c => c.insert ev
  peekNext c := c.map CalendarScheduler.peekNext
  removeNext c := (c.bind CalendarScheduler.removeNext).map fun (ev, c) => (ev, some c)
  remove c ev := c.bind fun c => c.remove ev

/-- The time of the last event that was returned, after a call. -/
def SchedulerCall.lastAfter (last : ℕ) (answer : Option Event) : SchedulerCall → ℕ
  | .removeNext => (answer.map Event.ts).getD last
  | _ => last

/-- An event is inserted at a time below 2^63 that is not before that of the last event returned. -/
def SchedulerCall.Timely (last : ℕ) : SchedulerCall → Prop
  | .insert ev => last ≤ ev.ts ∧ ev.ts < 2 ^ 63
  | _ => True

/-- Each of these calls comes in time, the list scheduler answering. -/
def TimelyRun (l : ListScheduler) (last : ℕ) : List SchedulerCall → Prop
  | [] => True
  | c :: calls => c.Timely last ∧ TimelyRun (listScheduler.call l c).1 (c.lastAfter last (listScheduler.call l c).2) calls

/-- The calendar holds these events, and counts them in 32 bits. -/
def CalendarScheduler.Counts (c : Option CalendarScheduler) (stored : List Event) : Prop :=
  ∃ c', c = some c' ∧ c'.m_buckets.flatten.Perm stored ∧ c'.m_qSize = stored.length % 2 ^ 32

/-- Both schedulers answer each of these calls with the first of the stored events, and the calendar holds all of these and
no others. -/
def CalendarRefines (c : Option CalendarScheduler) (l : ListScheduler) (stored : List Event) : List SchedulerCall → Prop
  | [] => True
  | call :: calls =>
    (calendarScheduler.call c call).2 = (listScheduler.call l call).2 ∧ call.Right stored (listScheduler.call l call).2 ∧
      CalendarScheduler.Counts (calendarScheduler.call c call).1 (call.keeps stored (listScheduler.call l call).2) ∧
      CalendarRefines (calendarScheduler.call c call).1 (listScheduler.call l call).1
        (call.keeps stored (listScheduler.call l call).2) calls

namespace CalendarScheduler.Keeps

variable {c : CalendarScheduler} {stored : List Event} {last : ℕ}

/-- A call answers with the first event, and the calendar keeps what is stored then. -/
theorem call {call : SchedulerCall} (h : c.Keeps stored last) (hdistinct : DistinctUids stored)
    (hallowed : call.Allowed stored) (htimely : call.Timely last) :
    call.Right stored (calendarScheduler.call (some c) call).2 ∧
      ∃ c', (calendarScheduler.call (some c) call).1 = some c' ∧
        c'.Keeps (call.keeps stored (calendarScheduler.call (some c) call).2)
          (call.lastAfter last (calendarScheduler.call (some c) call).2) := by
  cases call with
  | insert ev => exact ⟨rfl, h.insert htimely.1 htimely.2⟩
  | peekNext => exact ⟨⟨c.peekNext, rfl, peekNext_spec h.filed h.clocked hallowed⟩, c, rfl, h⟩
  | removeNext =>
    obtain ⟨ev, c', hremove, hfirst, hkeeps⟩ := h.removeNext hallowed
    have hcall : calendarScheduler.call (some c) .removeNext = (some c', some ev) := by
      have hnext : calendarScheduler.removeNext (some c) = some (ev, some c') := by
        show ((some c).bind CalendarScheduler.removeNext).map _ = _
        rw [Option.bind_some, hremove, Option.map_some]
      simp only [Scheduler.call, hnext]
    rw [hcall]
    exact ⟨⟨ev, rfl, hfirst⟩, c', rfl, hkeeps⟩
  | remove ev => exact ⟨rfl, h.remove hdistinct hallowed⟩

end CalendarScheduler.Keeps

theorem CalendarScheduler.Keeps.refines {c : CalendarScheduler} {l : ListScheduler} {stored : List Event} {last : ℕ}
    (hc : c.Keeps stored last) (hl : l.Lists stored) (calls : List SchedulerCall) (hallowed : AllowedRun l stored calls)
    (htimely : TimelyRun l last calls) : CalendarRefines (some c) l stored calls := by
  induction calls generalizing c l stored last with
  | nil => trivial
  | cons call calls ih =>
    obtain ⟨hallowed, hallowedRun⟩ := hallowed
    obtain ⟨htimely, htimelyRun⟩ := htimely
    obtain ⟨hright, c', hc', hkeeps⟩ := hc.call hl.distinct hallowed htimely
    obtain ⟨hright', hlists⟩ := hl.call hallowed
    have hsame := hright.unique hl.distinct hright'
    rw [hsame] at hkeeps
    rw [CalendarRefines, hc']
    exact ⟨hsame, hright', ⟨c', rfl, hkeeps.filed.holds, hkeeps.qSize⟩, ih hkeeps hlists hallowedRun htimelyRun⟩

/-- From empty schedulers, the calendar refines the list through all resizes, in whichever order its buckets are kept. -/
theorem calendar_refines (reverse : Bool) (calls : List SchedulerCall) (hallowed : AllowedRun ⟨[]⟩ [] calls)
    (htimely : TimelyRun ⟨[]⟩ 0 calls) : CalendarRefines (some (CalendarScheduler.new reverse)) ⟨[]⟩ [] calls :=
  (CalendarScheduler.Keeps.new reverse).refines .start calls hallowed htimely

instance decidableTimelyRun (l : ListScheduler) (last : ℕ) (calls : List SchedulerCall) :
    Decidable (TimelyRun l last calls) :=
  match calls with
  | [] => .isTrue trivial
  | c :: calls =>
    have := decidableTimelyRun (listScheduler.call l c).1 (c.lastAfter last (listScheduler.call l c).2) calls
    have : Decidable (c.Timely last) :=
      match c with
      | .insert ev => inferInstanceAs (Decidable (last ≤ ev.ts ∧ ev.ts < 2 ^ 63))
      | .peekNext => .isTrue trivial
      | .removeNext => .isTrue trivial
      | .remove _ => .isTrue trivial
    inferInstanceAs (Decidable (_ ∧ _))

/-- With the buckets in reverse order, six events and a resize. -/
theorem calendar_refines_six :
    CalendarRefines (some (CalendarScheduler.new true)) ⟨[]⟩ []
      [.insert ⟨1, ⟨5, 1, 0⟩⟩, .insert ⟨2, ⟨4, 2, 0⟩⟩, .insert ⟨3, ⟨900, 3, 0⟩⟩, .insert ⟨4, ⟨30, 4, 0⟩⟩, .insert ⟨5, ⟨5, 5, 0⟩⟩,
        .insert ⟨6, ⟨7, 6, 0⟩⟩, .remove ⟨1, ⟨5, 1, 0⟩⟩, .removeNext, .insert ⟨7, ⟨4, 7, 0⟩⟩, .removeNext, .peekNext] :=
  calendar_refines true _ (by decide) (by decide)

end Ns3.Core
