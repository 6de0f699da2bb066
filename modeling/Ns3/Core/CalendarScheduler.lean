import Ns3.Lib.Calendar
import Ns3.Core.Scheduler

/-!
# The calendar scheduler

Events in buckets by the days of a year, a day being `m_width` of time long. The next event is looked for from the bucket of
the last one, and the year is made longer or shorter with the number of events. Source:
`src/core/model/calendar-scheduler.cc`.
-/

namespace Ns3.Core

open Ns3.Lib

/-- The timestamp of an event. -/
def Event.ts (ev : Event) : ℕ := ev.key.m_ts.toNat

/-- `CalendarScheduler`. -/
structure CalendarScheduler where
  m_buckets : List (List Event)
  m_nBuckets : ℕ
  m_width : ℕ
  m_lastBucket : ℕ
  m_bucketTop : ℕ
  m_lastPrio : ℕ
  m_qSize : ℕ
  m_reverse : Bool
  deriving DecidableEq, Repr

namespace CalendarScheduler

variable (c : CalendarScheduler)

/-- `CalendarScheduler::Hash`. -/
def hash (ts : ℕ) : ℕ := ts / c.m_width % c.m_nBuckets

/-- The end of the day of a time. -/
def topOf (ts : ℕ) : ℕ := (ts / c.m_width + 1) * c.m_width % 2 ^ 64

/-- `CalendarScheduler::Init`. -/
def init (nBuckets width startPrio : ℕ) : CalendarScheduler :=
  let c := { c with m_buckets := List.replicate nBuckets [], m_nBuckets := nBuckets, m_width := width,
                    m_lastPrio := startPrio }
  { c with m_lastBucket := c.hash startPrio, m_bucketTop := c.topOf startPrio }

/-- `CalendarScheduler::CalendarScheduler`, with the `Reverse` attribute. -/
def new (reverse : Bool) : CalendarScheduler := init ⟨[], 0, 0, 0, 0, 0, 0, reverse⟩ 2 1 0

/-- `Order`. -/
def order (a b : EventKey) : Bool := if c.m_reverse then b < a else a < b

/-- `NextEvent`. -/
def nextEvent (bucket : List Event) : Option Event := if c.m_reverse then bucket.getLast? else bucket.head?

/-- `Pop`. -/
def pop (bucket : List Event) : List Event := if c.m_reverse then bucket.dropLast else bucket.tail

/-- `m_buckets[i]`. -/
def bucket (i : ℕ) : List Event := c.m_buckets.getD i []

/-- Another list in bucket `i`. -/
def setBucket (i : ℕ) (bucket : List Event) : CalendarScheduler := { c with m_buckets := c.m_buckets.set i bucket }

/-- The loop of `CalendarScheduler::DoInsert`. -/
def insertInto (ev : Event) : List Event → List Event
  | [] => [ev]
  | i :: rest => if c.order ev.key i.key then ev :: i :: rest else i :: insertInto ev rest

/-- `CalendarScheduler::DoInsert`. -/
def doInsert (ev : Event) : CalendarScheduler :=
  c.setBucket (c.hash ev.ts) (c.insertInto ev (c.bucket (c.hash ev.ts)))

/-- The loop of `PeekNext` and `DoRemoveNext`, from bucket `i`. It ends with the event that is due in its bucket, the
bucket and its top, or with what it noted of the least event. -/
def scan {μ : Type} (keyOf : μ → EventKey) (note : Event → ℕ → μ) :
    ℕ → ℕ → ℕ → μ → Event × ℕ × ℕ ⊕ μ
  | 0, _, _, least => .inr least
  | turns + 1, i, bucketTop, least =>
    match c.nextEvent (c.bucket i) with
    | some next =>
      if next.ts < bucketTop then .inl (next, i, bucketTop)
      else
        let least := if next.key < keyOf least then note next i else least
        if (i + 1) % c.m_nBuckets ≠ c.m_lastBucket then
          scan keyOf note turns ((i + 1) % c.m_nBuckets) ((bucketTop + c.m_width) % 2 ^ 64) least
        else .inr least
    | none =>
      if (i + 1) % c.m_nBuckets ≠ c.m_lastBucket then
        scan keyOf note turns ((i + 1) % c.m_nBuckets) ((bucketTop + c.m_width) % 2 ^ 64) least
      else .inr least

/-- What `PeekNext` starts with as its least event. -/
def minEvent : Event := ⟨0, ⟨UInt64.ofNat (2 ^ 64 - 1), UInt32.ofNat (2 ^ 32 - 1), 0⟩⟩

/-- What `DoRemoveNext` starts with as its least key. -/
def minKey : EventKey := ⟨UInt64.ofNat (2 ^ 64 - 1), 0, UInt32.ofNat (2 ^ 32 - 1)⟩

/-- `CalendarScheduler::PeekNext`. -/
def peekNext : Event :=
  match c.scan Event.key (fun next _ => next) c.m_nBuckets c.m_lastBucket c.m_bucketTop minEvent with
  | .inl (next, _) => next
  | .inr least => least

/-- `CalendarScheduler::DoRemoveNext`, without a result where it reads a bucket that there is not. -/
def doRemoveNext : Option (Event × CalendarScheduler) :=
  match c.scan Prod.fst (fun next i => (next.key, some i)) c.m_nBuckets c.m_lastBucket c.m_bucketTop (minKey, none) with
  | .inl (next, i, bucketTop) =>
    some (next, { c with m_lastBucket := i, m_lastPrio := next.ts, m_bucketTop := bucketTop }.setBucket i
      (c.pop (c.bucket i)))
  | .inr (_, none) => none
  | .inr (least, some i) =>
    match c.nextEvent (c.bucket i) with
    | none => none
    | some next =>
      some (next, { c with m_lastPrio := least.m_ts.toNat, m_lastBucket := c.hash least.m_ts.toNat,
                           m_bucketTop := c.topOf least.m_ts.toNat }.setBucket i (c.pop (c.bucket i)))

/-- The loop of `CalculateNewWidth` that takes its samples. -/
def takeSamples : ℕ → CalendarScheduler → Option (List Event × CalendarScheduler)
  | 0, c => some ([], c)
  | n + 1, c =>
    match c.doRemoveNext with
    | none => none
    | some (ev, c) =>
      match takeSamples n c with
      | none => none
      | some (samples, c) => some (ev :: samples, c)

/-- The differences of the timestamps of events one behind the other. -/
def separations : List Event → List ℕ
  | cur :: next :: rest => (next.ts + 2 ^ 64 - cur.ts) % 2 ^ 64 :: separations (next :: rest)
  | _ => []

/-- The sum of differences in 64 bits. -/
def sum64 (diffs : List ℕ) : ℕ := diffs.foldl (fun total diff => (total + diff) % 2 ^ 64) 0

/-- The width for these samples. -/
def widthOf (samples : List Event) (nSamples : ℕ) : ℕ :=
  let twiceAvg := sum64 (separations samples) / (nSamples - 1) * 2 % 2 ^ 64
  max (sum64 ((separations samples).filter fun diff => diff ≤ twiceAvg) * 3 % 2 ^ 64) 1

/-- `CalendarScheduler::CalculateNewWidth`. -/
def calculateNewWidth : Option (ℕ × CalendarScheduler) :=
  if c.m_qSize < 2 then some (1, c)
  else
    let nSamples := min (if c.m_qSize ≤ 5 then c.m_qSize else 5 + c.m_qSize / 10) 25
    match takeSamples nSamples c with
    | none => none
    | some (samples, taken) =>
      some (widthOf samples nSamples,
        { samples.foldl doInsert taken with
          m_lastBucket := c.m_lastBucket, m_bucketTop := c.m_bucketTop, m_lastPrio := c.m_lastPrio })

/-- `CalendarScheduler::DoResize`. -/
def doResize (newSize newWidth : ℕ) : CalendarScheduler :=
  c.m_buckets.flatten.foldl doInsert (c.init newSize newWidth c.m_lastPrio)

/-- `CalendarScheduler::Resize`. -/
def resize (newSize : ℕ) : Option CalendarScheduler :=
  match c.calculateNewWidth with
  | none => none
  | some (newWidth, c) => some (c.doResize newSize newWidth)

/-- `CalendarScheduler::ResizeUp`. -/
def resizeUp : Option CalendarScheduler :=
  if c.m_nBuckets * 2 < c.m_qSize ∧ c.m_nBuckets < 32768 then c.resize (c.m_nBuckets * 2) else some c

/-- `CalendarScheduler::ResizeDown`. -/
def resizeDown : Option CalendarScheduler :=
  if c.m_qSize < c.m_nBuckets / 2 then c.resize (c.m_nBuckets / 2) else some c

/-- `CalendarScheduler::Insert`. -/
def insert (ev : Event) : Option CalendarScheduler :=
  let c := c.doInsert ev
  { c with m_qSize := (c.m_qSize + 1) % 2 ^ 32 }.resizeUp

/-- `m_qSize--`. -/
def dropOne : CalendarScheduler := { c with m_qSize := (c.m_qSize + 2 ^ 32 - 1) % 2 ^ 32 }

/-- `CalendarScheduler::RemoveNext`. -/
def removeNext : Option (Event × CalendarScheduler) :=
  match c.doRemoveNext with
  | none => none
  | some (ev, c) =>
    match c.dropOne.resizeDown with
    | none => none
    | some c => some (ev, c)

theorem removeNext_some {c c₁ c' : CalendarScheduler} {ev : Event} (hremove : c.doRemoveNext = some (ev, c₁))
    (hresize : c₁.dropOne.resizeDown = some c') : c.removeNext = some (ev, c') := by
  -- the kernel would evaluate the 32-bit count of `dropOne`, so that it is any function here
  have hany : ∀ (r : Option (Event × CalendarScheduler)) (dropOne : CalendarScheduler → CalendarScheduler)
      (resizeDown : CalendarScheduler → Option CalendarScheduler), r = some (ev, c₁) → resizeDown (dropOne c₁) = some c' →
      (match r with
        | none => none
        | some (ev, c) =>
          match resizeDown (dropOne c) with
          | none => none
          | some c => some (ev, c)) = some (ev, c') := by
    rintro r dropOne resizeDown rfl hdown
    dsimp only
    rw [hdown]
  exact hany c.doRemoveNext CalendarScheduler.dropOne CalendarScheduler.resizeDown hremove hresize

/-- `CalendarScheduler::Remove`. -/
def remove (ev : Event) : Option CalendarScheduler :=
  let bucket := c.bucket (c.hash ev.ts)
  if bucket.any fun i => i.key.m_uid = ev.key.m_uid then
    (c.setBucket (c.hash ev.ts) (removeEvent ev bucket)).dropOne.resizeDown
  else some c

end CalendarScheduler

end Ns3.Core
