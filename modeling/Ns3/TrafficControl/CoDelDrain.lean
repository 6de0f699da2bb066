import Ns3.TrafficControl.CoDelClock

/-!
# The packets that one dequeue drops

`DoDequeue` of CoDel drops packets from the front of the queue until one is kept. If it drops all packets that the queue
counts, it reads the time stamp of a packet that is not there: this happens exactly when each of them may be dropped with
what is behind it, which for the last one takes `m_minBytes` to be 0, and its drop is due.
-/

namespace Ns3.TrafficControl

open Ns3.Lib Ns3.Network QueueDiscItem QueueDisc

variable {σ Item : Type} [QueueDiscItem Item]

/-! ### What was passed to `DropAfterDequeue` -/

/-- The items that were passed to `DropAfterDequeue`, in order. -/
def droppedAfter (traces : List (Trace Item)) : List Item :=
  traces.filterMap fun trace =>
    match trace with
    | .dropAfterDequeue item _ => some item
    | _ => none

section Traces

variable {d d' : QueueDisc σ Item} {i i' : Item} {next : Option Item}

theorem droppedAfter_packetDequeued (d : QueueDisc σ Item) (i : Item) :
    droppedAfter (d.packetDequeued i).traces = droppedAfter d.traces := by
  rw [packetDequeued]
  split
  · rfl
  · show droppedAfter (d.traces ++ [.dequeue i]) = _
    rw [droppedAfter, List.filterMap_append]
    exact List.append_nil _

theorem droppedAfter_dropAfterDequeue (d : QueueDisc σ Item) (i : Item) (reason : String) :
    droppedAfter (d.dropAfterDequeue i reason).traces = droppedAfter d.traces ++ [i] := by
  have hfired : ∀ c : QueueDisc σ Item,
      droppedAfter (c.fire (.dropAfterDequeue i reason)).traces = droppedAfter c.traces ++ [i] := by
    intro c
    show droppedAfter (c.traces ++ [.dropAfterDequeue i reason]) = _
    rw [droppedAfter, List.filterMap_append]
    rfl
  rw [dropAfterDequeue, hfired]
  split
  · exact congrArg (· ++ [i]) (droppedAfter_packetDequeued { d.countDropAfter i reason with m_peeked := false } i)
  · rfl

theorem droppedAfter_markIf {called marked : Bool} {reason : String}
    (h : d.markIf called i reason = (marked, i', d')) : droppedAfter d'.traces = droppedAfter d.traces := by
  rw [markIf] at h
  split at h
  · next item d₁ hmark =>
    obtain ⟨-, h⟩ := Prod.mk.inj h
    obtain ⟨rfl, rfl⟩ := Prod.mk.inj h
    obtain ⟨item, -, heq⟩ := Option.map_eq_some_iff.mp (Option.ite_none_right_eq_some.mp hmark).2
    obtain ⟨-, rfl⟩ := Prod.mk.inj heq
    show droppedAfter (d.traces ++ [.mark item reason]) = _
    rw [droppedAfter, List.filterMap_append]
    exact List.append_nil _
  · obtain ⟨-, h⟩ := Prod.mk.inj h
    rw [(Prod.mk.inj h).2]

theorem droppedAfter_dequeueInternal {queue : InternalQueue σ Item} (h : d.dequeueInternal queue = (next, d')) :
    droppedAfter d'.traces = droppedAfter d.traces := by
  rw [dequeueInternal] at h
  split at h
  · rw [← (Prod.mk.inj h).2]
    exact droppedAfter_packetDequeued _ _
  · rw [(Prod.mk.inj h).2]

end Traces

namespace CoDel

/-! ### When a packet is dropped -/

/-- A drop in the dropping state, and the next one scheduled. -/
def afterDrop (s : CoDel Item) : CoDel Item := s.counted.scheduled s.m_dropNext

/-- The time for drop `k` of a call has come. -/
def Due (now : Time) (s : CoDel Item) (k : Nat) : Prop :=
  coDelTimeAfterEq (time2CoDel now) (afterDrop^[k] s).m_dropNext = true

/-- The sojourn time has been above the target for an interval. -/
def Ripe (now : Time) (s : CoDel Item) : Prop :=
  s.m_firstAboveTime ≠ 0 ∧ coDelTimeAfter (time2CoDel now) s.m_firstAboveTime = true

/-- Packet `k` may be dropped: its sojourn time is not below the target, the bytes behind it are enough, and it is not
marked instead. -/
structure Droppable (now : Time) (s : CoDel Item) (packets : List Item) (k : Nat) : Prop where
  late : ∀ i, packets[k]? = some i → coDelTimeBefore (sojournTime now i) (time2CoDel s.m_target) = false
  bytes : s.m_minBytes ≤ nBytes (packets.drop (k + 1))
  unmarked : ∀ i, packets[k]? = some i → s.m_useEcn = true → mark i = none

/-- `DoDequeue` drops every packet that the queue counts. -/
structure DropsAll (now : Time) (s : CoDel Item) : Prop where
  counted : s.queue.m_nPackets ≠ 0
  notL4s : ∀ i, s.queue.m_packets.head? = some i → (s.m_useL4s && isL4s i) = false
  ripe : Ripe now s
  droppable : ∀ k < s.queue.m_nPackets.toNat, Droppable now s s.queue.m_packets k
  due : if s.m_dropping then ∀ k < s.queue.m_nPackets.toNat, Due now s k else s.queue.m_nPackets = 1

section Drain

variable {now : Time} {s s' : CoDel Item} {d d' e : QueueDisc (CoDel Item) Item} {i j : Item} {next : Option Item}
  {packets : List Item} {q : Queue Item} {k : Nat}

theorem below_eq_false : below now i s = false ↔
    coDelTimeBefore (sojournTime now i) (time2CoDel s.m_target) = false ∧ s.m_minBytes ≤ nBytes s.queue.m_packets := by
  rw [below, Bool.or_eq_false_iff, decide_eq_false_iff_not, UInt32.not_lt, s.queue.nBytes_eq]

theorem droppable_zero : Droppable now s (i :: s.queue.m_packets) 0 ↔
    below now i s = false ∧ (s.m_useEcn = true → mark i = none) := by
  rw [below_eq_false]
  constructor
  · intro h
    exact ⟨⟨h.late i rfl, h.bytes⟩, h.unmarked i rfl⟩
  · rintro ⟨⟨hlate, hbytes⟩, hunmarked⟩
    refine ⟨?_, hbytes, ?_⟩
    · rintro j hj
      obtain rfl := Option.some.inj hj
      exact hlate
    · rintro j hj
      obtain rfl := Option.some.inj hj
      exact hunmarked

theorem droppable_succ (h : s'.m_target = s.m_target) (h' : s'.m_minBytes = s.m_minBytes)
    (h'' : s'.m_useEcn = s.m_useEcn) : Droppable now s (i :: packets) (k + 1) ↔ Droppable now s' packets k := by
  constructor
  · intro hd
    exact ⟨h ▸ hd.late, h' ▸ hd.bytes, h'' ▸ hd.unmarked⟩
  · intro hd
    exact ⟨h ▸ hd.late, h' ▸ hd.bytes, h'' ▸ hd.unmarked⟩

theorem okToDrop_eq_true : (okToDrop now (some i) s).1 = true ↔ below now i s = false ∧ Ripe now s := by
  rw [okToDrop, Ripe]
  split
  · next hbelow =>
    refine iff_of_false Bool.false_ne_true fun h => ?_
    rw [hbelow] at h
    exact absurd h.1 (by decide)
  · next hbelow =>
    split
    · next hzero => exact iff_of_false Bool.false_ne_true fun h => h.2.1 hzero
    · next hzero => exact ⟨fun h => ⟨Bool.eq_false_iff.mpr hbelow, hzero, h⟩, fun h => h.2.2⟩

theorem okToDrop_of_true (h : (okToDrop now (some i) s).1 = true) : okToDrop now (some i) s = (true, s) := by
  obtain ⟨hbelow, hzero, hafter⟩ := okToDrop_eq_true.mp h
  rw [okToDrop, if_neg (Bool.eq_false_iff.mp hbelow), if_neg hzero, hafter]

/-- One packet less is counted. -/
theorem dequeue_nPackets (h : s.queue.dequeue = some (j, q)) : s.queue.m_nPackets.toNat = q.m_nPackets.toNat + 1 := by
  have hne : ¬ s.queue.m_nPackets = 0 := fun hzero =>
    Option.some_ne_none _ (h.symm.trans ((Queue.dequeue_eq_none _).mpr hzero))
  have hlen : s.queue.m_packets.length = q.m_packets.length + 1 := by rw [(Queue.dequeue_eq_some h).1, List.length_cons]
  have hcount : s.queue.m_nPackets.toNat = (q.m_packets.length + 1) % 2 ^ 32 := by
    rw [s.queue.nPackets_eq, UInt32.toNat_ofNat', hlen]
  have hcount' : q.m_nPackets.toNat = q.m_packets.length % 2 ^ 32 := by
    rw [q.nPackets_eq, UInt32.toNat_ofNat']
  have hpos : s.queue.m_nPackets.toNat ≠ 0 := fun hzero => hne (UInt32.toNat_inj.mp hzero)
  omega

theorem markIf_eq_false {called : Bool} {reason : String} (h : d.markIf called i reason = (false, j, d')) :
    (called = true → mark i = none) ∧ j = i ∧ d' = d := by
  rw [markIf] at h
  split at h
  · cases h
  · next hmark =>
    obtain ⟨-, h⟩ := Prod.mk.inj h
    obtain ⟨rfl, rfl⟩ := Prod.mk.inj h
    refine ⟨fun hcalled => ?_, rfl, rfl⟩
    rw [if_pos hcalled] at hmark
    exact Option.map_eq_none_iff.mp hmark

theorem markIf_eq_true {called : Bool} {reason : String} (h : d.markIf called i reason = (true, j, d')) :
    called = true ∧ mark i = some j ∧ d'.inner = d.inner := by
  rw [markIf] at h
  split at h
  · next item d₁ hmark =>
    obtain ⟨-, h⟩ := Prod.mk.inj h
    obtain ⟨rfl, rfl⟩ := Prod.mk.inj h
    obtain ⟨hcalled, hmark⟩ := Option.ite_none_right_eq_some.mp hmark
    exact ⟨hcalled, mark_of_markItem hmark, (markItem_spec hmark).2.2.1⟩
  · cases h

/-- A drop, and what is popped behind it. -/
inductive Popped (now : Time) (i : Item) (d : QueueDisc (CoDel Item) Item) :
    Bool × Option Item × QueueDisc (CoDel Item) Item → Prop
  | empty {d' : QueueDisc (CoDel Item) Item} (hcount : d.inner.queue.m_nPackets = 0) (hqueue : d'.inner.queue = d.inner.queue)
      (htraces : droppedAfter d'.traces = droppedAfter d.traces ++ [i]) : Popped now i d (false, none, d')
  | popped {j : Item} {q : Queue Item} {d' : QueueDisc (CoDel Item) Item} (hq : d.inner.queue.dequeue = some (j, q))
      (hinner : d'.inner = (okToDrop now (some j) { d.inner with queue := q }).2)
      (htraces : droppedAfter d'.traces = droppedAfter d.traces ++ [i]) :
      Popped now i d ((okToDrop now (some j) { d.inner with queue := q }).1, some j, d')

theorem dropAndDequeue_popped (now : Time) (i : Item) (d : QueueDisc (CoDel Item) Item) :
    Popped now i d (dropAndDequeue now i d) := by
  have hdropped := droppedAfter_dropAfterDequeue d i targetExceededDrop
  have hinner := dropAfterDequeue_inner d i targetExceededDrop
  rw [dropAndDequeue]
  cases hdeq : (d.dropAfterDequeue i targetExceededDrop).dequeueInternal internalQueue with
  | mk next d₁ =>
    have htraces := (droppedAfter_dequeueInternal hdeq).trans hdropped
    cases next with
    | none =>
      obtain ⟨rfl, hcount⟩ := dequeueInternal_eq_none hdeq
      refine .empty ?_ ?_ htraces
      · rw [hinner] at hcount
        exact hcount
      · exact (congrArg CoDel.queue hinner : (d.dropAfterDequeue i targetExceededDrop).inner.queue = d.inner.queue)
    | some j =>
      obtain ⟨q, hq, hpopped⟩ := dequeueInternal_eq_some hdeq
      rw [hinner] at hq hpopped
      have hpopped : d₁.inner = { d.inner with queue := q } := hpopped
      show Popped now i d ((okToDrop now (some j) d₁.inner).1, some j, { d₁ with inner := (okToDrop now (some j) d₁.inner).2 })
      rw [hpopped]
      exact .popped hq rfl htraces

/-- What is left of the packets `all` when those of `dropped` are gone: the packet in hand and the queue. -/
def Remains (all dropped : List Item) : Option Item → List Item → Prop
  | some j, packets => ∃ i, Marked i j ∧ all = dropped ++ i :: packets
  | none, packets => all = dropped ++ packets

/-- Packets are dropped in order, each of them is passed to `DropAfterDequeue`, and without a packet in hand the queue
counts none. -/
structure Sheds (all dropped : List Item) (d : QueueDisc (CoDel Item) Item) (next : Option Item)
    (d' : QueueDisc (CoDel Item) Item) : Prop where
  remains : Remains all dropped next d'.inner.queue.m_packets
  traces : droppedAfter d'.traces = droppedAfter d.traces ++ dropped
  empty : next = none → d'.inner.queue.m_nPackets = 0

theorem Sheds.kept {i' : Item} (hmarked : Marked i i') (hqueue : d'.inner.queue = d.inner.queue)
    (htraces : droppedAfter d'.traces = droppedAfter d.traces) :
    Sheds (i :: d.inner.queue.m_packets) [] d (some i') d' where
  remains := ⟨i, hmarked, by rw [hqueue]; rfl⟩
  traces := by rw [htraces, List.append_nil]
  empty h := nomatch h

/-- The front packet is dropped first. -/
theorem Sheds.cons {dropped : List Item} (hpackets : d.inner.queue.m_packets = packets)
    (htraces : droppedAfter e.traces = droppedAfter d.traces ++ [i]) (h : Sheds packets dropped e next d') :
    Sheds (i :: d.inner.queue.m_packets) (i :: dropped) d next d' where
  remains := by
    have hremains := h.remains
    rw [hpackets]
    cases next with
    | none => exact congrArg (List.cons i) hremains
    | some j =>
      obtain ⟨k, hmarked, heq⟩ := hremains
      exact ⟨k, hmarked, congrArg (List.cons i) heq⟩
  traces := by rw [h.traces, htraces, List.append_assoc]; rfl
  empty := h.empty

theorem Popped.sheds {ok : Bool} (h : Popped now i d (ok, next, d')) :
    Sheds (i :: d.inner.queue.m_packets) [i] d next d' := by
  cases h with
  | empty hcount hqueue htraces =>
    refine ⟨?_, htraces, fun _ => by rw [hqueue, hcount]⟩
    show _ = [i] ++ d'.inner.queue.m_packets
    rw [hqueue]
    rfl
  | popped hq hinner htraces =>
    refine ⟨⟨_, .refl, ?_⟩, htraces, fun hnone => nomatch hnone⟩
    rw [hinner, (okToDrop_queue now _ _).1, (Queue.dequeue_eq_some hq).1]
    rfl

/-- All packets are dropped in the loop, with `i` in hand. -/
def Drains (now : Time) (i : Item) (s : CoDel Item) : Prop :=
  ∀ k ≤ s.queue.m_nPackets.toNat, Due now s k ∧ Droppable now s (i :: s.queue.m_packets) k

theorem afterDrop_setQueue (k : Nat) (s : CoDel Item) (q : Queue Item) :
    afterDrop^[k] { s with queue := q } = { afterDrop^[k] s with queue := q } := by
  induction k generalizing s with
  | zero => rfl
  | succ k ih =>
    rw [Function.iterate_succ_apply, Function.iterate_succ_apply, ← ih]
    rfl

theorem due_setQueue (s : CoDel Item) (q : Queue Item) : Due now ({ s with queue := q } : CoDel Item) k ↔ Due now s k := by
  rw [Due, Due, afterDrop_setQueue k s q]

theorem due_succ (q : Queue Item) : Due now s (k + 1) ↔ Due now ({ s.afterDrop with queue := q } : CoDel Item) k := by
  rw [due_setQueue s.afterDrop q, Due, Due, Function.iterate_succ_apply]

/-- The packet in hand is dropped and the rest too. -/
theorem drains_iff (hq : s.queue.dequeue = some (j, q)) :
    Drains now i s ↔ (Due now s 0 ∧ Droppable now s (i :: s.queue.m_packets) 0) ∧ Drains now j { s.afterDrop with queue := q } := by
  have hcount := dequeue_nPackets hq
  have hpackets := (Queue.dequeue_eq_some hq).1
  have hsucc : ∀ k, Droppable now s (i :: s.queue.m_packets) (k + 1) ↔
      Droppable now ({ s.afterDrop with queue := q } : CoDel Item) (j :: q.m_packets) k := by
    intro k
    rw [hpackets]
    exact droppable_succ rfl rfl rfl
  constructor
  · intro h
    refine ⟨h 0 (Nat.zero_le _), fun k hk => ?_⟩
    have hk : k ≤ q.m_nPackets.toNat := hk
    obtain ⟨hdue, hdrop⟩ := h (k + 1) (by omega)
    exact ⟨(due_succ q).mp hdue, (hsucc k).mp hdrop⟩
  · rintro ⟨hzero, h⟩ k hk
    cases k with
    | zero => exact hzero
    | succ k =>
      obtain ⟨hdue, hdrop⟩ := h k (by rw [hcount] at hk; exact Nat.le_of_succ_le_succ hk)
      exact ⟨(due_succ q).mpr hdue, (hsucc k).mpr hdrop⟩

/-- What the body of the loop does: the packet is marked, or dropped as the last one, or dropped for one that is kept or
for one that may be dropped too. -/
inductive Turned (now : Time) (i : Item) (e : QueueDisc (CoDel Item) Item) :
    Turn (Item × QueueDisc (CoDel Item) Item) (Bool × Option Item × QueueDisc (CoDel Item) Item) → Prop
  | marked {j : Item} {d' : QueueDisc (CoDel Item) Item} (hecn : e.inner.m_useEcn = true) (hmark : mark i = some j)
      (hqueue : d'.inner.queue = e.inner.queue) (htraces : droppedAfter d'.traces = droppedAfter e.traces) :
      Turned now i e (.leave (true, some j, d'))
  | last {d' : QueueDisc (CoDel Item) Item} (hunmarked : e.inner.m_useEcn = true → mark i = none)
      (hcount : e.inner.queue.m_nPackets = 0) (hsheds : Sheds (i :: e.inner.queue.m_packets) [i] e none d') :
      Turned now i e (.leave (false, none, d'))
  | kept {j : Item} {q : Queue Item} {d' : QueueDisc (CoDel Item) Item} (hq : e.inner.queue.dequeue = some (j, q))
      (hok : ¬ (okToDrop now (some j) { e.inner with queue := q }).1 = true)
      (hsheds : Sheds (i :: e.inner.queue.m_packets) [i] e (some j) d') : Turned now i e (.leave (false, some j, d'))
  | again {j : Item} {q : Queue Item} {d' : QueueDisc (CoDel Item) Item} (hunmarked : e.inner.m_useEcn = true → mark i = none)
      (hq : e.inner.queue.dequeue = some (j, q)) (hok : (okToDrop now (some j) { e.inner with queue := q }).1 = true)
      (hinner : d'.inner = ({ e.inner with queue := q } : CoDel Item).scheduled e.inner.m_dropNext)
      (htraces : droppedAfter d'.traces = droppedAfter e.traces ++ [i]) : Turned now i e (.again (j, d'))

theorem dropOrMark_turned (now : Time) (i : Item) (e : QueueDisc (CoDel Item) Item) :
    Turned now i e (dropOrMark now i e) := by
  rw [dropOrMark]
  cases hmark : e.markIf e.inner.m_useEcn i targetExceededMark with
  | mk marked rest =>
    obtain ⟨i₁, d₁⟩ := rest
    cases marked with
    | true =>
      obtain ⟨hecn, hi₁, hinner⟩ := markIf_eq_true hmark
      have htraces := droppedAfter_markIf hmark
      exact .marked hecn hi₁ (congrArg CoDel.queue hinner : d₁.inner.queue = e.inner.queue) htraces
    | false =>
      obtain ⟨hunmarked, rfl, rfl⟩ := markIf_eq_false hmark
      have hpopped := dropAndDequeue_popped now i₁ d₁
      cases hdrop : dropAndDequeue now i₁ d₁ with
      | mk ok rest =>
        obtain ⟨next, d₂⟩ := rest
        rw [hdrop] at hpopped
        have hsheds := hpopped.sheds
        simp only [hdrop]
        cases hpopped with
        | empty hcount hqueue htraces => exact .last hunmarked hcount ⟨hsheds.remains, hsheds.traces, hsheds.empty⟩
        | popped hq hinner htraces =>
          rename_i j q
          by_cases hok : (okToDrop now (some j) { d₁.inner with queue := q }).1 = true
          · rw [okToDrop_of_true hok] at hinner
            simp only [hok]
            refine .again hunmarked hq hok ?_ htraces
            rw [hinner]
          · rw [Bool.eq_false_iff.mpr hok]
            exact .kept hq hok ⟨hsheds.remains, hsheds.traces, hsheds.empty⟩

/-- What the loop keeps: the packet in hand may be dropped. -/
structure Dropping (now : Time) (i : Item) (s : CoDel Item) : Prop where
  dropping : s.m_dropping = true
  ripe : Ripe now s
  above : below now i s = false

variable {isMarked : Bool}

/-- The loop is left without a packet in hand exactly if it drops all of them. -/
theorem loop_spec {m : Nat} (h : Dropping now i d.inner)
    (hleave : turns (dropTurn now) m (i, d) = some (isMarked, next, d')) :
    (∃ dropped, Sheds (i :: d.inner.queue.m_packets) dropped d next d') ∧ (next = none ↔ Drains now i d.inner) := by
  induction m generalizing i d with
  | zero => cases hleave
  | succ m ih =>
    rw [turns] at hleave
    by_cases hdue : Due now d.inner 0
    · have hdue' : (d.inner.m_dropping && coDelTimeAfterEq (time2CoDel now) d.inner.m_dropNext) = true := by
        rw [h.dropping]
        exact hdue
      have hturn : dropTurn now (i, d) = dropOrMark now i { d with inner := d.inner.counted } := if_pos hdue'
      have hturned := dropOrMark_turned now i { d with inner := d.inner.counted }
      rw [← hturn] at hturned
      cases hresult : dropTurn now (i, d) with
      | leave result =>
        rw [hresult] at hturned hleave
        obtain rfl := Option.some.inj hleave
        cases hturned with
        | marked hecn hmark hqueue htraces =>
          refine ⟨⟨[], Sheds.kept (.single hmark) hqueue htraces⟩, iff_of_false (Option.some_ne_none _) fun hall => ?_⟩
          have hnone := (hall 0 (Nat.zero_le _)).2.unmarked i rfl hecn
          exact Option.some_ne_none _ (hmark.symm.trans hnone)
        | last hunmarked hcount hsheds =>
          refine ⟨⟨[i], hsheds.remains, hsheds.traces, hsheds.empty⟩, iff_of_true rfl fun k hk => ?_⟩
          have hcount : d.inner.queue.m_nPackets = 0 := hcount
          rw [hcount] at hk
          obtain rfl : k = 0 := Nat.le_zero.mp hk
          exact ⟨hdue, droppable_zero.mpr ⟨h.above, hunmarked⟩⟩
        | kept hq hok hsheds =>
          rename_i j q
          have hq : d.inner.queue.dequeue = some (j, q) := hq
          refine ⟨⟨[i], hsheds.remains, hsheds.traces, hsheds.empty⟩, iff_of_false (Option.some_ne_none _) fun hall => ?_⟩
          have hrest := ((drains_iff hq).mp hall).2 0 (Nat.zero_le _)
          obtain ⟨hlate, hbytes⟩ := below_eq_false.mp (droppable_zero.mp hrest.2).1
          exact hok (okToDrop_eq_true.mpr ⟨below_eq_false.mpr ⟨hlate, hbytes⟩, h.ripe⟩)
      | again t =>
        rw [hresult] at hturned hleave
        cases hturned with
        | again hunmarked hq hok hinner htraces =>
          rename_i j q e
          have hq : d.inner.queue.dequeue = some (j, q) := hq
          have hinner : e.inner = { d.inner.afterDrop with queue := q } := hinner
          have hnext : Dropping now j e.inner := by
            obtain ⟨habove, -⟩ := okToDrop_eq_true.mp hok
            obtain ⟨hlate, hbytes⟩ := below_eq_false.mp habove
            rw [hinner]
            exact ⟨h.dropping, h.ripe, below_eq_false.mpr ⟨hlate, hbytes⟩⟩
          obtain ⟨⟨dropped, hsheds⟩, hiff⟩ := ih hnext hleave
          have hpackets : d.inner.queue.m_packets = j :: e.inner.queue.m_packets := by
            rw [hinner]
            exact (Queue.dequeue_eq_some hq).1
          refine ⟨⟨i :: dropped, hsheds.cons hpackets htraces⟩, ?_⟩
          rw [hiff, drains_iff hq, hinner]
          exact (and_iff_right ⟨hdue, droppable_zero.mpr ⟨h.above, hunmarked⟩⟩).symm
    · have hdue' : ¬ (d.inner.m_dropping && coDelTimeAfterEq (time2CoDel now) d.inner.m_dropNext) = true := by
        rw [h.dropping]
        exact hdue
      have hturn : dropTurn now (i, d) = .leave (false, some i, d) := if_neg hdue'
      rw [hturn] at hleave
      obtain ⟨-, hleave⟩ := Prod.mk.inj (Option.some.inj hleave)
      obtain ⟨rfl, rfl⟩ := Prod.mk.inj hleave
      exact ⟨⟨[], Sheds.kept .refl rfl rfl⟩,
        iff_of_false (Option.some_ne_none _) fun hall => hdue (hall 0 (Nat.zero_le _)).1⟩

theorem firstDrop_spec (habove : below now i d.inner = false) (h : firstDrop now i d = (isMarked, next, d')) :
    (∃ dropped, Sheds (i :: d.inner.queue.m_packets) dropped d next d') ∧
      (next = none ↔ d.inner.queue.m_nPackets = 0 ∧ Droppable now d.inner (i :: d.inner.queue.m_packets) 0) := by
  rw [firstDrop] at h
  cases hmark : d.markIf d.inner.m_useEcn i targetExceededMark with
  | mk marked rest =>
    obtain ⟨i₁, d₁⟩ := rest
    rw [hmark] at h
    cases marked with
    | true =>
      obtain ⟨hecn, hi₁, hinner⟩ := markIf_eq_true hmark
      obtain ⟨-, h⟩ := Prod.mk.inj h
      obtain ⟨rfl, rfl⟩ := Prod.mk.inj h
      refine ⟨⟨[], Sheds.kept (.single hi₁) (by rw [hinner]) (droppedAfter_markIf hmark)⟩,
        iff_of_false (Option.some_ne_none _) fun hall => ?_⟩
      exact Option.some_ne_none _ (hi₁.symm.trans (hall.2.unmarked i rfl hecn))
    | false =>
      obtain ⟨hunmarked, rfl, rfl⟩ := markIf_eq_false hmark
      obtain ⟨-, h⟩ := Prod.mk.inj h
      have hpopped := dropAndDequeue_popped now i₁ d₁
      cases hdrop : dropAndDequeue now i₁ d₁ with
      | mk ok rest =>
        rw [hdrop] at h hpopped
        obtain rfl : rest = (next, d') := h
        refine ⟨⟨[i₁], hpopped.sheds⟩, ?_⟩
        cases hpopped with
        | empty hcount hqueue htraces => exact iff_of_true rfl ⟨hcount, droppable_zero.mpr ⟨habove, hunmarked⟩⟩
        | popped hq hinner htraces =>
          refine iff_of_false (Option.some_ne_none _) fun hall => ?_
          have hcount := dequeue_nPackets hq
          rw [hall.1] at hcount
          cases hcount

/-- The other fields change, but not the queue. -/
theorem Sheds.setInner {all dropped : List Item} (h : Sheds all dropped d next d') (hqueue : s.queue = d'.inner.queue) :
    Sheds all dropped d next { d' with inner := s } where
  remains := by
    show Remains all dropped next s.queue.m_packets
    rw [hqueue]
    exact h.remains
  traces := h.traces
  empty hnone := by
    show s.queue.m_nPackets = 0
    rw [hqueue]
    exact h.empty hnone

/-- The packet popped and all that are counted behind it are dropped. -/
def DropsFrom (now : Time) (i : Item) (s : CoDel Item) : Prop :=
  below now i s = false ∧ Ripe now s ∧
    if s.m_dropping then Drains now i s else s.queue.m_nPackets = 0 ∧ Droppable now s (i :: s.queue.m_packets) 0

theorem dropIfOk_true (habove : below now i d.inner = false) (hripe : Ripe now d.inner)
    (h : dropIfOk now true i d = some (isMarked, next, d')) :
    (∃ dropped, Sheds (i :: d.inner.queue.m_packets) dropped d next d') ∧ (next = none ↔ DropsFrom now i d.inner) := by
  rw [dropIfOk] at h
  rw [DropsFrom]
  by_cases hdropping : d.inner.m_dropping = true
  · rw [if_pos hdropping] at h
    rw [if_pos hdropping]
    obtain ⟨hsheds, hiff⟩ := loop_spec ⟨hdropping, hripe, habove⟩ h
    exact ⟨hsheds, hiff.trans ⟨fun hall => ⟨habove, hripe, hall⟩, fun hall => hall.2.2⟩⟩
  · rw [if_neg hdropping] at h
    rw [if_neg hdropping]
    cases hfirst : firstDrop now i d with
    | mk marked rest =>
      have h : enterDropping now i d = (isMarked, next, d') := Option.some.inj h
      rw [enterDropping, hfirst] at h
      obtain ⟨-, h⟩ := Prod.mk.inj h
      obtain ⟨rfl, rfl⟩ := Prod.mk.inj h
      obtain ⟨⟨dropped, hsheds⟩, hiff⟩ := firstDrop_spec habove hfirst
      exact ⟨⟨dropped, hsheds.setInner (entered_queue _ _).1⟩,
        hiff.trans ⟨fun hall => ⟨habove, hripe, hall⟩, fun hall => hall.2.2⟩⟩

theorem dropIfOk_false (h : dropIfOk now false i d = some (isMarked, next, d')) :
    next = some i ∧ Sheds (i :: d.inner.queue.m_packets) [] d next d' := by
  have hkept : Sheds (i :: d.inner.queue.m_packets) [] d (some i) d := Sheds.kept .refl rfl rfl
  rw [dropIfOk] at h
  by_cases hdropping : d.inner.m_dropping = true
  · rw [if_pos hdropping] at h
    obtain ⟨-, h⟩ := Prod.mk.inj (Option.some.inj h)
    obtain ⟨rfl, rfl⟩ := Prod.mk.inj h
    exact ⟨rfl, hkept.setInner rfl⟩
  · rw [if_neg hdropping] at h
    obtain ⟨-, h⟩ := Prod.mk.inj (Option.some.inj h)
    obtain ⟨rfl, rfl⟩ := Prod.mk.inj h
    exact ⟨rfl, hkept⟩

theorem control_spec (h : control now i d = some (isMarked, next, d')) :
    (∃ dropped, Sheds (i :: d.inner.queue.m_packets) dropped d next d') ∧ (next = none ↔ DropsFrom now i d.inner) := by
  have h : dropIfOk now (okToDrop now (some i) d.inner).1 i { d with inner := (okToDrop now (some i) d.inner).2 } =
      some (isMarked, next, d') := h
  by_cases hok : (okToDrop now (some i) d.inner).1 = true
  · obtain ⟨habove, hripe⟩ := okToDrop_eq_true.mp hok
    rw [okToDrop_of_true hok] at h
    exact dropIfOk_true habove hripe h
  · rw [Bool.eq_false_iff.mpr hok] at h
    obtain ⟨rfl, hsheds⟩ := dropIfOk_false h
    have hqueue : (okToDrop now (some i) d.inner).2.queue = d.inner.queue := (okToDrop_queue now _ _).1
    have hpackets : (okToDrop now (some i) d.inner).2.queue.m_packets = d.inner.queue.m_packets := by rw [hqueue]
    refine ⟨⟨[], ?_, hsheds.traces, hsheds.empty⟩, iff_of_false (Option.some_ne_none _) fun hall => ?_⟩
    · rw [← hpackets]
      exact hsheds.remains
    · exact hok (okToDrop_eq_true.mpr ⟨hall.1, hall.2.1⟩)

/-- What is required of a call: it returns, the packets removed stood at the front, all but the one returned were passed to
`DropAfterDequeue` in order, and without one the queue is empty. -/
def Conserves (now : Time) (d : QueueDisc (CoDel Item) Item) : Prop :=
  ∃ item d' dropped, doDequeue now d = some (item, d') ∧
    Remains d.inner.queue.m_packets dropped item d'.inner.queue.m_packets ∧
    droppedAfter d'.traces = droppedAfter d.traces ++ dropped ∧ (item = none → d'.inner.queue.m_packets = [])

/-- The condition on the whole queue is that on the packet popped and those behind it. -/
theorem dropsAll_iff (hq : s.queue.dequeue = some (i, q)) :
    DropsAll now s ↔ (s.m_useL4s && isL4s i) = false ∧ DropsFrom now i { s with queue := q } := by
  have hcount := dequeue_nPackets hq
  have hpackets := (Queue.dequeue_eq_some hq).1
  have hdroppable : ∀ k, Droppable now s s.queue.m_packets k ↔
      Droppable now ({ s with queue := q } : CoDel Item) (i :: q.m_packets) k := by
    intro k
    rw [hpackets]
    exact ⟨fun h => ⟨h.late, h.bytes, h.unmarked⟩, fun h => ⟨h.late, h.bytes, h.unmarked⟩⟩
  have hone : s.queue.m_nPackets = 1 ↔ q.m_nPackets = 0 := by
    rw [← UInt32.toNat_inj, ← UInt32.toNat_inj, hcount]
    exact Nat.succ_inj
  have hhead : s.queue.m_packets.head? = some i := by rw [hpackets]; rfl
  constructor
  · intro h
    have hfirst := (hdroppable 0).mp (h.droppable 0 (by omega))
    have hdue := h.due
    refine ⟨h.notL4s i hhead, (droppable_zero.mp hfirst).1, h.ripe, ?_⟩
    by_cases hdropping : s.m_dropping = true
    · rw [if_pos hdropping] at hdue ⊢
      intro k hk
      have hk : k ≤ q.m_nPackets.toNat := hk
      exact ⟨(due_setQueue s q).mpr (hdue k (by omega)), (hdroppable k).mp (h.droppable k (by omega))⟩
    · rw [if_neg hdropping] at hdue ⊢
      exact ⟨hone.mp hdue, hfirst⟩
  · rintro ⟨hl4s, habove, hripe, hrest⟩
    have hne : s.queue.m_nPackets ≠ 0 := fun hzero =>
      Option.some_ne_none _ (hq.symm.trans ((Queue.dequeue_eq_none _).mpr hzero))
    have hnotL4s : ∀ j, s.queue.m_packets.head? = some j → (s.m_useL4s && isL4s j) = false := by
      intro j hj
      obtain rfl := Option.some.inj (hhead.symm.trans hj)
      exact hl4s
    by_cases hdropping : s.m_dropping = true
    · have hdrains : Drains now i { s with queue := q } := by rwa [if_pos hdropping] at hrest
      have hle : ∀ k < s.queue.m_nPackets.toNat, k ≤ q.m_nPackets.toNat := by
        rw [hcount]
        exact fun k hk => Nat.le_of_lt_succ hk
      refine ⟨hne, hnotL4s, hripe, fun k hk => (hdroppable k).mpr (hdrains k (hle k hk)).2, ?_⟩
      rw [if_pos hdropping]
      exact fun k hk => (due_setQueue s q).mp (hdrains k (hle k hk)).1
    · rw [if_neg hdropping] at hrest
      have hcounted : s.queue.m_nPackets = 1 := hone.mpr hrest.1
      refine ⟨hne, hnotL4s, hripe, fun k hk => ?_, by rwa [if_neg hdropping]⟩
      rw [hcounted] at hk
      obtain rfl : k = 0 := Nat.lt_one_iff.mp hk
      exact (hdroppable 0).mpr hrest.2

theorem markIf_spec {called : Bool} {reason : String} (h : d.markIf called i reason = (isMarked, j, d')) :
    Marked i j ∧ d'.inner = d.inner := by
  cases isMarked with
  | true =>
    obtain ⟨-, hmark, hinner⟩ := markIf_eq_true h
    exact ⟨.single hmark, hinner⟩
  | false =>
    obtain ⟨-, rfl, rfl⟩ := markIf_eq_false h
    exact ⟨.refl, rfl⟩

/-- A mark at the end of the call. -/
theorem Sheds.markIf {all dropped : List Item} {i' : Item} {called : Bool} {reason : String}
    (h : Sheds all dropped d (some i) e) (hmark : e.markIf called i reason = (isMarked, i', d')) :
    Sheds all dropped d (some i') d' := by
  obtain ⟨hmarked, hinner⟩ := markIf_spec hmark
  obtain ⟨k, hk, hremains⟩ := h.remains
  refine ⟨⟨k, hk.trans hmarked, ?_⟩, (droppedAfter_markIf hmark).trans h.traces, fun hnone => nomatch hnone⟩
  rw [hinner]
  exact hremains

theorem control_returns (now : Time) (i : Item) (d : QueueDisc (CoDel Item) Item) : ∃ result, control now i d = some result := by
  show ∃ result, dropIfOk now (okToDrop now (some i) d.inner).1 i { d with inner := (okToDrop now (some i) d.inner).2 } =
    some result
  rw [dropIfOk]
  split
  · split
    · exact dropTurns_leave now i (Nat.lt_succ_self _)
    · exact ⟨_, rfl⟩
  · split
    · exact ⟨_, rfl⟩
    · exact ⟨_, rfl⟩

/-- A call that finds no packet leaves the queue as it is. -/
theorem conserves_of_none (hpop : d.dequeueInternal internalQueue = (none, e)) :
    Conserves now d ↔ d.inner.queue.m_packets = [] := by
  obtain ⟨rfl, -⟩ := dequeueInternal_eq_none hpop
  have hresult : doDequeue now e = some (none, { e with inner := { e.inner with m_dropping := false } }) := by
    rw [doDequeue, hpop]
  constructor
  · rintro ⟨item, d', dropped, hdequeue, -, -, hempty⟩
    obtain ⟨rfl, rfl⟩ := Prod.mk.inj (Option.some.inj (hresult.symm.trans hdequeue))
    exact hempty rfl
  · intro hnil
    exact ⟨none, _, [], hresult, rfl, (List.append_nil _).symm, fun _ => hnil⟩

end Drain

/-- A call conserves packets unless it drops all packets that the queue counts, or the count has wrapped. -/
theorem dequeue_conserves (now : Time) (d : QueueDisc (CoDel Item) Item) :
    Conserves now d ↔
      ¬ DropsAll now d.inner ∧ (d.inner.queue.m_nPackets = 0 → d.inner.queue.m_packets = []) := by
  cases hpop : d.dequeueInternal internalQueue with
  | mk popped d₁ =>
    cases popped with
    | none =>
      have hcount := (dequeueInternal_eq_none hpop).2
      rw [conserves_of_none hpop]
      exact ⟨fun hnil => ⟨fun hall => hall.counted hcount, fun _ => hnil⟩, fun h => h.2 hcount⟩
    | some i =>
      obtain ⟨q, hq, hinner⟩ := dequeueInternal_eq_some hpop
      have hinner : d₁.inner = { d.inner with queue := q } := hinner
      have htraces := droppedAfter_dequeueInternal hpop
      have hpackets : d.inner.queue.m_packets = i :: d₁.inner.queue.m_packets := by
        rw [hinner]
        exact (Queue.dequeue_eq_some hq).1
      have hcounted : d.inner.queue.m_nPackets ≠ 0 := fun hzero =>
        Option.some_ne_none _ (hq.symm.trans ((Queue.dequeue_eq_none _).mpr hzero))
      have hconserves : ∀ {j d' dropped}, doDequeue now d = some (some j, d') →
          Sheds (i :: d₁.inner.queue.m_packets) dropped d₁ (some j) d' → Conserves now d := by
        intro j d' dropped hdequeue hsheds
        refine ⟨some j, d', dropped, hdequeue, ?_, htraces ▸ hsheds.traces, fun hnone => nomatch hnone⟩
        rw [hpackets]
        exact hsheds.remains
      rw [and_iff_left fun hzero => absurd hzero hcounted, dropsAll_iff hq, ← hinner]
      have hflag : d₁.inner.m_useL4s = d.inner.m_useL4s := by rw [hinner]
      by_cases hl4s : (d₁.inner.m_useL4s && isL4s i) = true
      · refine iff_of_true ?_ fun hall => ?_
        · have hresult : ∃ j d', doDequeue now d = some (some j, d') ∧
              Sheds (i :: d₁.inner.queue.m_packets) [] d₁ (some j) d' := by
            rw [doDequeue, hpop]
            simp only [if_pos hl4s]
            exact ⟨_, _, rfl, (Sheds.kept .refl rfl rfl).markIf rfl⟩
          obtain ⟨j, d', hdequeue, hsheds⟩ := hresult
          exact hconserves hdequeue hsheds
        · rw [← hflag, hl4s] at hall
          exact absurd hall.1 (by decide)
      · obtain ⟨⟨isMarked, next, d₂⟩, hcontrol⟩ := control_returns now i d₁
        obtain ⟨⟨dropped, hsheds⟩, hiff⟩ := control_spec hcontrol
        have hresult : doDequeue now d = finish now (isMarked, next, d₂) := by
          rw [doDequeue, hpop]
          simp only [if_neg hl4s, hcontrol]
          rfl
        rw [← hflag, Bool.eq_false_iff.mpr hl4s, ← hiff]
        cases next with
        | none =>
          refine iff_of_false ?_ fun hall => hall ⟨rfl, rfl⟩
          rintro ⟨item, d', dropped, hdequeue, -⟩
          rw [hresult] at hdequeue
          cases hdequeue
        | some j =>
          refine iff_of_true ?_ fun hall => nomatch hall.2
          exact hconserves (hresult.trans rfl) (hsheds.markIf rfl)

/-- Two packets, of which the first is dequeued 10 ms later, when packets may be dropped with none behind them. -/
def oneLeft : Option (Session (CoDel Internet.Ipv4QueueDiscItem) Internet.Ipv4QueueDiscItem) :=
  [.enqueue 0 (numbered 1), .enqueue 0 (numbered 2), .dequeue 10000000].foldlM coDelQueueDisc.serve
    (configured false false 0 100000000 5000000 (2 ^ 63 - 1) ⟨.packets, 10⟩)

/-- 190 ms later the second one is dropped, and none is left to return. -/
theorem not_dequeue_conserves_last : ¬ ∀ now : Time, ∀ r, oneLeft = some r → Conserves now r.disc := by
  intro hall
  obtain ⟨r, hr⟩ : ∃ r, oneLeft = some r := Option.isSome_iff_exists.mp (by decide +kernel)
  have hnone : (oneLeft.bind fun r => doDequeue 200000000 r.disc).isNone = true := by decide +kernel
  obtain ⟨item, d', dropped, hdequeue, -⟩ := hall 200000000 r hr
  rw [hr] at hnone
  have hnone : (doDequeue 200000000 r.disc).isNone = true := hnone
  rw [hdequeue] at hnone
  cases hnone

end CoDel

end Ns3.TrafficControl
