import Ns3.Core.CalendarScheduler

/-!
# Runs of the calendar scheduler

What the buckets hold, where the search for the next event starts, and that no call loses an event or returns a wrong one.
-/

namespace Ns3.Core

open Ns3.Lib

theorem Event.ts_le_of_rank {a b : Event} (h : a.rank ≤ b.rank) : a.ts ≤ b.ts := by
  rw [rank, rank, Prod.Lex.toLex_le_toLex] at h
  rcases h with hlt | ⟨heq, -⟩
  · exact hlt.le
  · exact heq.le

namespace CalendarScheduler

variable {c : CalendarScheduler} {b : List Event} {ev : Event} {stored : List Event} {i : ℕ}

/-! ### Buckets -/

/-- `x` may stand in front of `y` in a bucket. -/
def InFront (c : CalendarScheduler) (x y : Event) : Prop := if c.m_reverse then y.rank ≤ x.rank else x.rank ≤ y.rank

/-- Every event of a bucket may stand in front of those behind it. -/
def Sorted (c : CalendarScheduler) (b : List Event) : Prop := b.Pairwise c.InFront

theorem inFront_of_order {x y : Event} (h : c.order x.key y.key) : c.InFront x y := by
  unfold order at h
  unfold InFront
  split at h
  · next hr =>
    rw [if_pos hr]
    exact (Event.lt_iff.mp (of_decide_eq_true h)).le
  · next hr =>
    rw [if_neg hr]
    exact (Event.lt_iff.mp (of_decide_eq_true h)).le

theorem inFront_of_not_order {x y : Event} (h : ¬ c.order y.key x.key) : c.InFront x y := by
  unfold order at h
  unfold InFront
  split at h
  · next hr =>
    rw [if_pos hr]
    exact Event.not_lt_iff.mp fun hlt => h (decide_eq_true hlt)
  · next hr =>
    rw [if_neg hr]
    exact Event.not_lt_iff.mp fun hlt => h (decide_eq_true hlt)

theorem InFront.trans {x y z : Event} (hxy : c.InFront x y) (hyz : c.InFront y z) : c.InFront x z := by
  unfold InFront at *
  split
  · next hr =>
    rw [if_pos hr] at hxy hyz
    exact hyz.trans hxy
  · next hr =>
    rw [if_neg hr] at hxy hyz
    exact hxy.trans hyz

/-- `NextEvent` and `Pop` take a first event from a bucket. -/
theorem nextEvent_spec (hs : c.Sorted b) (hne : b ≠ []) :
    ∃ next, c.nextEvent b = some next ∧ b.Perm (next :: c.pop b) ∧ (∀ x ∈ b, next.rank ≤ x.rank) ∧ c.Sorted (c.pop b) := by
  unfold nextEvent pop
  cases hr : c.m_reverse with
  | false =>
    obtain ⟨next, rest, rfl⟩ := List.exists_cons_of_ne_nil hne
    obtain ⟨hnext, hrest⟩ := List.pairwise_cons.mp hs
    refine ⟨next, rfl, List.Perm.refl _, fun x hx => ?_, hrest⟩
    rcases List.mem_cons.mp hx with rfl | hx
    · exact le_refl _
    · have hle := hnext x hx
      rwa [InFront, hr, if_neg Bool.false_ne_true] at hle
  | true =>
    obtain ⟨rest, next, rfl⟩ := (List.eq_nil_or_concat' b).resolve_left hne
    obtain ⟨hrest, -, hnext⟩ := List.pairwise_append.mp hs
    refine ⟨next, ?_, ?_, fun x hx => ?_, ?_⟩
    · rw [if_pos rfl, List.getLast?_concat]
    · rw [if_pos rfl, List.dropLast_concat]
      exact List.perm_append_singleton next rest
    · rcases List.mem_append.mp hx with hx | hx
      · have hle := hnext x hx next List.mem_cons_self
        rwa [InFront, hr, if_pos rfl] at hle
      · rw [List.mem_singleton.mp hx]
    · rw [if_pos rfl, List.dropLast_concat]
      exact hrest

theorem nextEvent_nil : c.nextEvent [] = none := by
  unfold nextEvent
  split
  · rfl
  · rfl

theorem insertInto_perm (c : CalendarScheduler) (ev : Event) (b : List Event) : (c.insertInto ev b).Perm (ev :: b) := by
  induction b with
  | nil => exact List.Perm.refl _
  | cons i rest ih =>
    rw [insertInto]
    split
    · exact List.Perm.refl _
    · exact (ih.cons i).trans (List.Perm.swap ev i rest)

theorem Sorted.insertInto (hs : c.Sorted b) : c.Sorted (c.insertInto ev b) := by
  induction b with
  | nil => exact List.pairwise_singleton _ ev
  | cons i rest ih =>
    obtain ⟨hi, hrest⟩ := List.pairwise_cons.mp hs
    rw [CalendarScheduler.insertInto]
    split
    · next hbefore =>
      have hev := inFront_of_order hbefore
      refine List.pairwise_cons.mpr ⟨fun x hx => ?_, hs⟩
      rcases List.mem_cons.mp hx with rfl | hx
      · exact hev
      · exact hev.trans (hi x hx)
    · next hbefore =>
      refine List.pairwise_cons.mpr ⟨fun x hx => ?_, ih hrest⟩
      rcases List.mem_cons.mp ((insertInto_perm c ev rest).mem_iff.mp hx) with rfl | hx
      · exact inFront_of_not_order hbefore
      · exact hi x hx

/-! ### What the buckets hold -/

theorem bucket_eq (hi : i < c.m_buckets.length) : c.m_buckets[i]? = some (c.bucket i) := by
  rw [bucket, List.getD_eq_getElem?_getD, List.getElem?_eq_getElem hi, Option.getD_some]

theorem bucket_setBucket (hi : i < c.m_buckets.length) (j : ℕ) :
    (c.setBucket i b).bucket j = if j = i then b else c.bucket j := by
  show (c.m_buckets.set i b).getD j [] = _
  rw [List.getD_eq_getElem?_getD]
  split
  · next hji => rw [hji, List.getElem?_set_self hi, Option.getD_some]
  · next hji =>
    rw [List.getElem?_set_ne (Ne.symm hji), ← List.getD_eq_getElem?_getD]
    rfl

/-- The stored events, each in its bucket and every bucket in order. -/
structure Filed (c : CalendarScheduler) (stored : List Event) : Prop where
  length : c.m_buckets.length = c.m_nBuckets
  nBuckets : 0 < c.m_nBuckets
  width : 0 < c.m_width
  width_lt : c.m_width < 2 ^ 64
  placed : ∀ i, ∀ e ∈ c.bucket i, c.hash e.ts = i
  sorted : ∀ i, c.Sorted (c.bucket i)
  holds : c.m_buckets.flatten.Perm stored

namespace Filed

theorem hash_lt (h : c.Filed stored) (ts : ℕ) : c.hash ts < c.m_buckets.length := by
  rw [h.length]
  exact Nat.mod_lt _ h.nBuckets

theorem perm {stored' : List Event} (h : c.Filed stored) (hperm : stored.Perm stored') : c.Filed stored' :=
  { h with holds := h.holds.trans hperm }

/-- What the search remembers may change. -/
theorem moved (h : c.Filed stored) (lastBucket bucketTop lastPrio qSize : ℕ) :
    { c with m_lastBucket := lastBucket, m_bucketTop := bucketTop, m_lastPrio := lastPrio, m_qSize := qSize }.Filed
      stored where
  length := h.length
  nBuckets := h.nBuckets
  width := h.width
  width_lt := h.width_lt
  placed := h.placed
  sorted := h.sorted
  holds := h.holds

theorem mem_stored (h : c.Filed stored) (hev : ev ∈ c.bucket i) : ev ∈ stored := by
  refine h.holds.mem_iff.mp (List.mem_flatten.mpr ⟨c.bucket i, ?_, hev⟩)
  by_cases hi : i < c.m_buckets.length
  · exact List.mem_of_getElem? (bucket_eq hi)
  · rw [bucket, List.getD_eq_getElem?_getD, List.getElem?_eq_none (Nat.not_lt.mp hi)] at hev
    cases hev

theorem mem_bucket (h : c.Filed stored) (hev : ev ∈ stored) : ev ∈ c.bucket (c.hash ev.ts) := by
  obtain ⟨b, hb, hin⟩ := List.mem_flatten.mp (h.holds.mem_iff.mpr hev)
  obtain ⟨i, hi⟩ := List.mem_iff_getElem?.mp hb
  have heq : c.bucket i = b := by rw [bucket, List.getD_eq_getElem?_getD, hi, Option.getD_some]
  rw [← heq] at hin
  rwa [h.placed i ev hin]

/-- One event more, in its bucket. -/
theorem doInsert (h : c.Filed stored) (ev : Event) : (c.doInsert ev).Filed (ev :: stored) := by
  have hlt := h.hash_lt ev.ts
  have hperm := insertInto_perm c ev (c.bucket (c.hash ev.ts))
  refine ⟨?_, h.nBuckets, h.width, h.width_lt, fun i e he => ?_, fun i => ?_, ?_⟩
  · show (c.m_buckets.set _ _).length = _
    rw [List.length_set]
    exact h.length
  · rw [CalendarScheduler.doInsert, bucket_setBucket hlt] at he
    show c.hash e.ts = i
    split at he
    · next hi =>
      rcases List.mem_cons.mp (hperm.mem_iff.mp he) with rfl | he
      · exact hi.symm
      · rw [h.placed _ e he, hi]
    · exact h.placed i e he
  · rw [CalendarScheduler.doInsert, bucket_setBucket hlt]
    show c.Sorted _
    split
    · exact (h.sorted _).insertInto
    · exact h.sorted i
  · exact (flatten_set_add (bucket_eq hlt) hperm).trans (h.holds.cons ev)

/-- One event less in bucket `i`. -/
theorem remove (h : c.Filed stored) (hi : i < c.m_buckets.length) (hperm : (c.bucket i).Perm (ev :: b))
    (hsorted : c.Sorted b) : (c.setBucket i b).Filed (stored.erase ev) := by
  refine ⟨?_, h.nBuckets, h.width, h.width_lt, fun j e he => ?_, fun j => ?_, ?_⟩
  · show (c.m_buckets.set _ _).length = _
    rw [List.length_set]
    exact h.length
  · rw [bucket_setBucket hi] at he
    show c.hash e.ts = j
    split at he
    · next hj =>
      rw [h.placed i e (hperm.mem_iff.mpr (List.mem_cons_of_mem ev he)), hj]
    · exact h.placed j e he
  · rw [bucket_setBucket hi]
    show c.Sorted _
    split
    · exact hsorted
    · exact h.sorted j
  · have hless := (flatten_set_remove (bucket_eq hi) hperm).symm.trans h.holds
    have herase := hless.erase ev
    rwa [List.erase_cons_head] at herase

end Filed

/-! ### The search -/

/-- The day on which the search starts. -/
def today (c : CalendarScheduler) : ℕ := c.m_lastPrio / c.m_width

/-- The search starts in the bucket of the last event, no stored event being earlier. -/
structure Clocked (c : CalendarScheduler) (stored : List Event) : Prop where
  lastBucket : c.m_lastBucket = c.hash c.m_lastPrio
  bucketTop : c.m_bucketTop = c.topOf c.m_lastPrio
  lastPrio : c.m_lastPrio < 2 ^ 63
  low : ∀ e ∈ stored, c.m_lastPrio ≤ e.ts
  small : ∀ e ∈ stored, e.ts < 2 ^ 63

/-- The bucket that the search comes to after `k` turns. -/
def page (c : CalendarScheduler) (k : ℕ) : ℕ := (c.today + k) % c.m_nBuckets

/-- The top of that bucket. -/
def pageTop (c : CalendarScheduler) (k : ℕ) : ℕ := (c.today + k + 1) * c.m_width % 2 ^ 64

theorem page_succ (c : CalendarScheduler) (k : ℕ) : (c.page k + 1) % c.m_nBuckets = c.page (k + 1) := by
  rw [page, page, Nat.mod_add_mod, Nat.add_assoc]

theorem pageTop_succ (c : CalendarScheduler) (k : ℕ) : (c.pageTop k + c.m_width) % 2 ^ 64 = c.pageTop (k + 1) := by
  rw [pageTop, pageTop, Nat.mod_add_mod, Nat.add_mul (c.today + (k + 1)) 1, Nat.one_mul, Nat.add_assoc c.today k 1]

/-- What the search has noted after its first `k` turns: nothing if it found nothing, and else the least event it met. -/
def Noted {μ : Type} (c : CalendarScheduler) (note : Event → ℕ → μ) (start : μ) (k : ℕ) (least : μ) : Prop :=
  (least = start ∧ ∀ j < k, c.bucket (c.page j) = []) ∨
    ∃ j < k, ∃ next, c.nextEvent (c.bucket (c.page j)) = some next ∧ least = note next (c.page j) ∧
      ∀ j' < k, ∀ x ∈ c.bucket (c.page j'), next.rank ≤ x.rank

/-- What the search ends with. -/
def Finds {μ : Type} (c : CalendarScheduler) (note : Event → ℕ → μ) (start : μ) : Event × ℕ × ℕ ⊕ μ → Prop
  | .inl (next, i, bucketTop) => ∃ k < c.m_nBuckets, i = c.page k ∧ bucketTop = c.pageTop k ∧
      c.nextEvent (c.bucket i) = some next ∧ next.ts < bucketTop ∧
      ∀ j < k, ∀ x ∈ c.bucket (c.page j), c.pageTop j ≤ x.ts
  | .inr least => c.Noted note start c.m_nBuckets least

section

variable {μ : Type} {keyOf : μ → EventKey} {note : Event → ℕ → μ} {start least : μ} {k : ℕ}

theorem Noted.empty (hnoted : c.Noted note start k least) (hempty : c.bucket (c.page k) = []) :
    c.Noted note start (k + 1) least := by
  rcases hnoted with ⟨rfl, hnone⟩ | ⟨j, hj, next, hnext, rfl, hle⟩
  · refine .inl ⟨rfl, fun j hj => ?_⟩
    rcases Nat.lt_succ_iff_lt_or_eq.mp hj with hj | rfl
    · exact hnone j hj
    · exact hempty
  · refine .inr ⟨j, Nat.lt_succ_of_lt hj, next, hnext, rfl, fun j' hj' x hx => ?_⟩
    rcases Nat.lt_succ_iff_lt_or_eq.mp hj' with hj' | rfl
    · exact hle j' hj' x hx
    · rw [hempty] at hx
      cases hx

/-- An event is noted when it is before the one noted so far. -/
theorem Noted.next (hnoted : c.Noted note start k least) (hkey : ∀ e i, keyOf (note e i) = e.key) {next : Event}
    (hstart : next.key < keyOf start) (hnext : c.nextEvent (c.bucket (c.page k)) = some next)
    (hleast : ∀ x ∈ c.bucket (c.page k), next.rank ≤ x.rank) :
    c.Noted note start (k + 1) (if next.key < keyOf least then note next (c.page k) else least) := by
  have hhere : (∀ j' < k, ∀ x ∈ c.bucket (c.page j'), next.rank ≤ x.rank) →
      c.Noted note start (k + 1) (note next (c.page k)) := by
    intro hle
    refine .inr ⟨k, Nat.lt_succ_self k, next, hnext, rfl, fun j' hj' x hx => ?_⟩
    rcases Nat.lt_succ_iff_lt_or_eq.mp hj' with hj' | rfl
    · exact hle j' hj' x hx
    · exact hleast x hx
  rcases hnoted with ⟨rfl, hnone⟩ | ⟨j, hj, noted, hnoted, rfl, hle⟩
  · rw [if_pos hstart]
    refine hhere fun j' hj' x hx => ?_
    rw [hnone j' hj'] at hx
    cases hx
  · rw [hkey]
    split
    · next hlt =>
      have hbefore : next < noted := hlt
      exact hhere fun j' hj' x hx => (Event.lt_iff.mp hbefore).le.trans (hle j' hj' x hx)
    · next hlt =>
      have hbefore : ¬ next < noted := hlt
      refine .inr ⟨j, Nat.lt_succ_of_lt hj, noted, hnoted, rfl, fun j' hj' x hx => ?_⟩
      rcases Nat.lt_succ_iff_lt_or_eq.mp hj' with hj' | rfl
      · exact hle j' hj' x hx
      · exact (Event.not_lt_iff.mp hbefore).trans (hleast x hx)

/-- The search goes once through the buckets. -/
theorem scan_finds (h : c.Filed stored) (hc : c.Clocked stored) (hkey : ∀ e i, keyOf (note e i) = e.key)
    (hstart : ∀ e ∈ stored, e.key < keyOf start) (turns : ℕ) (hturns : turns + k = c.m_nBuckets) (hpos : 0 < turns)
    (hnoted : c.Noted note start k least) (hmiss : ∀ j < k, ∀ x ∈ c.bucket (c.page j), c.pageTop j ≤ x.ts) :
    c.Finds note start (c.scan keyOf note turns (c.page k) (c.pageTop k) least) := by
  induction turns generalizing k least with
  | zero => cases hpos
  | succ turns ih =>
    -- the loop is left when it is back in the bucket that it started from
    have hback : (c.page k + 1) % c.m_nBuckets ≠ c.m_lastBucket ↔ 0 < turns := by
      rw [hc.lastBucket, page_succ]
      show (c.today + (k + 1)) % c.m_nBuckets ≠ c.today % c.m_nBuckets ↔ _
      rw [Ne, page_eq_iff (by omega)]
      omega
    have hrest : ∀ {least'}, c.Noted note start (k + 1) least' →
        (∀ x ∈ c.bucket (c.page k), c.pageTop k ≤ x.ts) →
        c.Finds note start
          (if (c.page k + 1) % c.m_nBuckets ≠ c.m_lastBucket then
            c.scan keyOf note turns ((c.page k + 1) % c.m_nBuckets) ((c.pageTop k + c.m_width) % 2 ^ 64) least'
          else .inr least') := by
      intro least' hnoted' hmiss'
      split
      · next hmore =>
        rw [page_succ, pageTop_succ]
        refine ih (by omega) (hback.mp hmore) hnoted' fun j hj x hx => ?_
        rcases Nat.lt_succ_iff_lt_or_eq.mp hj with hj | rfl
        · exact hmiss j hj x hx
        · exact hmiss' x hx
      · next hdone =>
        have hturns0 : ¬ 0 < turns := fun hmore => hdone (hback.mpr hmore)
        have hall : k + 1 = c.m_nBuckets := by omega
        rw [hall] at hnoted'
        exact hnoted'
    rw [scan]
    by_cases hempty : c.bucket (c.page k) = []
    · rw [hempty, nextEvent_nil]
      exact hrest (hnoted.empty hempty) fun x hx => by rw [hempty] at hx; cases hx
    · obtain ⟨next, hnext, hperm, hleast, -⟩ := nextEvent_spec (h.sorted (c.page k)) hempty
      have hin : next ∈ c.bucket (c.page k) := hperm.mem_iff.mpr List.mem_cons_self
      rw [hnext]
      dsimp only
      split
      · next hhit => exact ⟨k, by omega, rfl, rfl, hnext, hhit, hmiss⟩
      · next hhit =>
        refine hrest (hnoted.next hkey (hstart next (h.mem_stored hin)) hnext hleast) fun x hx => ?_
        exact (Nat.not_lt.mp hhit).trans (Event.ts_le_of_rank (hleast x hx))

end

/-! ### The next event -/

section

variable {μ : Type} {keyOf : μ → EventKey} {note : Event → ℕ → μ} {start : μ} {k : ℕ}

theorem hit_iff (h : c.Filed stored) (hc : c.Clocked stored) (hk : k < c.m_nBuckets) {x : Event}
    (hx : x ∈ c.bucket (c.page k)) : x.ts < c.pageTop k ↔ x.ts / c.m_width ≤ c.today + k := by
  have hin := h.mem_stored hx
  exact lt_wrapped_iff (M := 2 ^ 63) h.width h.width_lt (hc.small x hin) hk (h.placed _ x hx)
    (Nat.div_le_div_right (hc.low x hin))

/-- The first event of a bucket. -/
theorem Filed.nextEvent (h : c.Filed stored) {next : Event} (hnext : c.nextEvent (c.bucket i) = some next) :
    next ∈ c.bucket i ∧ (c.bucket i).Perm (next :: c.pop (c.bucket i)) ∧ (∀ x ∈ c.bucket i, next.rank ≤ x.rank) ∧
      c.Sorted (c.pop (c.bucket i)) := by
  have hne : c.bucket i ≠ [] := by
    intro hempty
    rw [hempty, nextEvent_nil] at hnext
    cases hnext
  obtain ⟨next', hnext', hperm, hleast, hsorted⟩ := nextEvent_spec (h.sorted i) hne
  obtain rfl : next' = next := Option.some.inj (hnext'.symm.trans hnext)
  exact ⟨hperm.mem_iff.mpr List.mem_cons_self, hperm, hleast, hsorted⟩

theorem Filed.firstOf (h : c.Filed stored) {next : Event} (hin : next ∈ c.bucket i)
    (hle : ∀ j, ∀ x ∈ c.bucket j, next.rank ≤ x.rank) : FirstOf stored next :=
  ⟨h.mem_stored hin, fun e he => Event.not_lt_iff.mpr (hle _ e (h.mem_bucket he))⟩

/-- An event found on its day is the first, and the search may start from there. -/
theorem Finds.due (h : c.Filed stored) (hc : c.Clocked stored) {next : Event} {bucketTop : ℕ}
    (hfinds : c.Finds note start (.inl (next, i, bucketTop))) :
    FirstOf stored next ∧ c.nextEvent (c.bucket i) = some next ∧ i = c.hash next.ts ∧ bucketTop = c.topOf next.ts := by
  obtain ⟨k, hk, rfl, rfl, hnext, hhit, hmiss⟩ := hfinds
  obtain ⟨hin, -, hleast, -⟩ := h.nextEvent hnext
  have hday := (hit_iff h hc hk hin).mp hhit
  have hlow : ∀ i, ∀ x ∈ c.bucket i, c.today ≤ x.ts / c.m_width := fun i x hx =>
    Nat.div_le_div_right (hc.low x (h.mem_stored hx))
  have hafter : ∀ j < k, ∀ x ∈ c.bucket ((c.today + j) % c.m_nBuckets), c.today + j < x.ts / c.m_width := by
    intro j hj x hx
    exact Nat.not_le.mp fun hle => Nat.not_lt.mpr (hmiss j hj x hx) ((hit_iff h hc (hj.trans hk) hx).mpr hle)
  have hfirst := least_of_first_hit (fun a b hab => Nat.div_le_div_right (Event.ts_le_of_rank hab)) h.placed hlow
    hleast hday hafter
  refine ⟨h.firstOf hin hfirst, hnext, (h.placed _ next hin).symm, ?_⟩
  rw [topOf, day_eq hk (h.placed _ next hin) (hlow _ next hin) hday]
  rfl

/-- When no event is due within a year, the least one noted is the first. -/
theorem Finds.noted (h : c.Filed stored) (hne : stored ≠ []) {least : μ} (hfinds : c.Finds note start (.inr least)) :
    ∃ next i, least = note next i ∧ FirstOf stored next ∧ c.nextEvent (c.bucket i) = some next := by
  have hpages : ∀ i, ∀ x ∈ c.bucket i, ∃ j < c.m_nBuckets, x ∈ c.bucket (c.page j) := by
    intro i x hx
    have hi : i < c.m_nBuckets := by
      rw [← h.placed i x hx]
      exact Nat.mod_lt _ h.nBuckets
    obtain ⟨j, hj, hpage⟩ := exists_page (L := c.today) hi
    refine ⟨j, hj, ?_⟩
    rw [page, hpage]
    exact hx
  rcases hfinds with ⟨-, hnone⟩ | ⟨j, hj, next, hnext, rfl, hle⟩
  · obtain ⟨e, he⟩ := List.exists_mem_of_ne_nil stored hne
    obtain ⟨j, hj, hin⟩ := hpages _ e (h.mem_bucket he)
    rw [hnone j hj] at hin
    cases hin
  · refine ⟨next, c.page j, rfl, h.firstOf (h.nextEvent hnext).1 fun i x hx => ?_, hnext⟩
    obtain ⟨j', hj', hin⟩ := hpages i x hx
    exact hle j' hj' x hin

end

/-- From the start the search goes through all buckets. -/
theorem Filed.scan {μ : Type} (h : c.Filed stored) (hc : c.Clocked stored) (keyOf : μ → EventKey) (note : Event → ℕ → μ)
    (start : μ) (hkey : ∀ e i, keyOf (note e i) = e.key) (hstart : ∀ e ∈ stored, e.key < keyOf start) :
    c.Finds note start (c.scan keyOf note c.m_nBuckets c.m_lastBucket c.m_bucketTop start) := by
  have hnoted : c.Noted note start 0 start := .inl ⟨rfl, fun j hj => absurd hj (Nat.not_lt_zero j)⟩
  have hpage : c.page 0 = c.m_lastBucket := by
    rw [hc.lastBucket]
    rfl
  have htop : c.pageTop 0 = c.m_bucketTop := by
    rw [hc.bucketTop]
    rfl
  rw [← hpage, ← htop]
  exact scan_finds h hc hkey hstart c.m_nBuckets rfl h.nBuckets hnoted fun j hj => absurd hj (Nat.not_lt_zero j)

theorem key_lt_of_small (hsmall : ev.ts < 2 ^ 63) {key : EventKey} (hkey : key.m_ts.toNat = 2 ^ 64 - 1) : ev.key < key := by
  left
  rw [UInt64.lt_iff_toNat_lt, hkey]
  have hts : ev.key.m_ts.toNat < 2 ^ 63 := hsmall
  omega

theorem minEvent_ts : minEvent.key.m_ts.toNat = 2 ^ 64 - 1 := UInt64.toNat_ofNat_of_lt' (by decide)

theorem minKey_ts : minKey.m_ts.toNat = 2 ^ 64 - 1 := UInt64.toNat_ofNat_of_lt' (by decide)

/-- `PeekNext` returns the first stored event. -/
theorem peekNext_spec (h : c.Filed stored) (hc : c.Clocked stored) (hne : stored ≠ []) : FirstOf stored c.peekNext := by
  have hfinds := h.scan hc Event.key (fun next _ => next) minEvent (fun _ _ => rfl)
    fun e he => key_lt_of_small (hc.small e he) minEvent_ts
  rw [peekNext]
  cases hscan : c.scan Event.key (fun next _ => next) c.m_nBuckets c.m_lastBucket c.m_bucketTop minEvent with
  | inl found =>
    rw [hscan] at hfinds
    exact (Finds.due h hc hfinds).1
  | inr least =>
    rw [hscan] at hfinds
    obtain ⟨next, i, rfl, hfirst, -⟩ := hfinds.noted h hne
    exact hfirst

/-- What `DoRemoveNext` leaves but for the clock. -/
structure SameCalendar (c c' : CalendarScheduler) : Prop where
  nBuckets : c'.m_nBuckets = c.m_nBuckets
  width : c'.m_width = c.m_width
  reverse : c'.m_reverse = c.m_reverse
  qSize : c'.m_qSize = c.m_qSize

/-- An event taken out of bucket `i`, with the clock at its time. -/
theorem Filed.taken (h : c.Filed stored) (hc : c.Clocked stored) (hfirst : FirstOf stored ev)
    (hnext : c.nextEvent (c.bucket i) = some ev) {lastBucket bucketTop lastPrio : ℕ} (hprio : lastPrio = ev.ts)
    (hbucket : lastBucket = c.hash ev.ts) (htop : bucketTop = c.topOf ev.ts) {c' : CalendarScheduler}
    (hc' : c' = { c with m_lastBucket := lastBucket, m_bucketTop := bucketTop, m_lastPrio := lastPrio }.setBucket i
      (c.pop (c.bucket i))) :
    c'.Filed (stored.erase ev) ∧ c'.Clocked (stored.erase ev) ∧ c'.m_lastPrio = ev.ts ∧ SameCalendar c c' := by
  obtain ⟨hin, hperm, -, hsorted⟩ := h.nextEvent hnext
  have hi : i < c.m_buckets.length := by
    rw [← h.placed i ev hin]
    exact h.hash_lt ev.ts
  subst hprio hbucket htop hc'
  refine ⟨(h.moved _ _ _ c.m_qSize).remove hi hperm hsorted, ⟨rfl, rfl, hc.small ev hfirst.1, fun e he => ?_, fun e he => ?_⟩,
    rfl, rfl, rfl, rfl, rfl⟩
  · exact Event.ts_le_of_rank (Event.not_lt_iff.mp (hfirst.2 e (List.mem_of_mem_erase he)))
  · exact hc.small e (List.mem_of_mem_erase he)

/-- `DoRemoveNext` takes the first stored event out. -/
theorem doRemoveNext_spec (h : c.Filed stored) (hc : c.Clocked stored) (hne : stored ≠ []) :
    ∃ ev c', c.doRemoveNext = some (ev, c') ∧ FirstOf stored ev ∧ c'.Filed (stored.erase ev) ∧
      c'.Clocked (stored.erase ev) ∧ c'.m_lastPrio = ev.ts ∧ SameCalendar c c' := by
  have hfinds := h.scan hc Prod.fst (fun next i => (next.key, some i)) (minKey, none)
    (fun _ _ => rfl) fun e he => key_lt_of_small (hc.small e he) minKey_ts
  rw [doRemoveNext]
  cases hscan : c.scan Prod.fst (fun next i => (next.key, some i)) c.m_nBuckets c.m_lastBucket c.m_bucketTop
      (minKey, none) with
  | inl found =>
    obtain ⟨next, i, bucketTop⟩ := found
    rw [hscan] at hfinds
    obtain ⟨hfirst, hnext, hbucket, htop⟩ := Finds.due h hc hfinds
    exact ⟨next, _, rfl, hfirst, h.taken hc hfirst hnext rfl hbucket htop rfl⟩
  | inr least =>
    rw [hscan] at hfinds
    obtain ⟨next, i, rfl, hfirst, hnext⟩ := hfinds.noted h hne
    dsimp only
    rw [hnext]
    exact ⟨next, _, rfl, hfirst, h.taken hc hfirst hnext rfl rfl rfl rfl⟩

end CalendarScheduler

end Ns3.Core
