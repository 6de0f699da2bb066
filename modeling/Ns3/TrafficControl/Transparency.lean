import Ns3.Internet.Ipv4QueueDiscItem
import Ns3.TrafficControl.Fifo

/-!
# Peeking at a queue disc

Two runs of a root queue disc over one internal queue, of which one has calls of `Peek` put in. A packet
that `Peek` took out is sent from the slot, and that path of `DequeuePacket` adds no header. As long as no
such packet is sent, nothing is: what waits behind it waits in both runs, and the runs send the same.
-/

namespace Ns3.TrafficControl

open Ns3.Lib Ns3.Network Ns3.Internet QueueDisc Root

/-- A root queue disc over one queue of datagrams. -/
abbrev QueueRoot (δ : Type) := Root (Queue Ipv4QueueDiscItem) Ipv4QueueDiscItem δ

/-- What a queue disc over one queue admits. -/
abbrev Admission := QueueDisc (Queue Ipv4QueueDiscItem) Ipv4QueueDiscItem → Ipv4QueueDiscItem → Bool

variable {δ : Type} {admits : Admission} {dev : NetDevice δ Ipv4QueueDiscItem} {now : Time}

/-- Where the packets of a queue disc are, with the flag of the slot. -/
structure Looks (r : QueueRoot δ) (queue : List Ipv4QueueDiscItem) (slot : Option Ipv4QueueDiscItem)
    (peeked : Bool) (sent : List Ipv4QueueDiscItem) : Prop where
  queue : r.disc.inner.m_packets = queue
  slot : r.disc.m_requeued = slot
  peeked : r.disc.m_peeked = peeked
  sent : r.sent = sent

/-- What one `Restart` does: nothing; or it sends the packet in the slot; or it takes the first packet from
the queue, adds its header, and puts it into the slot or sends it. -/
inductive Restarted (dev : NetDevice δ Ipv4QueueDiscItem) (r r' : QueueRoot δ) : Bool → Prop
  | idle (h : r' = r) : Restarted dev r r' false
  | fromSlot {again : Bool} (s : Ipv4QueueDiscItem) (hslot : r.disc.m_requeued = some s)
      (hgo : stopped dev r.device s.m_txq = false)
      (h : Looks r' r.disc.inner.m_packets none false (r.sent ++ [s])) : Restarted dev r r' again
  | hold (x s : Ipv4QueueDiscItem) (rest : List Ipv4QueueDiscItem) (hslot : r.disc.m_requeued = none)
      (hqueue : r.disc.inner.m_packets = x :: rest) (hheader : x.withHeader = some s)
      (hdevice : r'.device = r.device) (h : Looks r' rest (some s) false r.sent) : Restarted dev r r' false
  | send {again : Bool} (x s : Ipv4QueueDiscItem) (rest : List Ipv4QueueDiscItem)
      (hslot : r.disc.m_requeued = none) (hqueue : r.disc.inner.m_packets = x :: rest)
      (hheader : x.withHeader = some s) (hgo : stopped dev r.device s.m_txq = false)
      (h : Looks r' rest none false (r.sent ++ [s])) : Restarted dev r r' again

theorem packetDequeued_slot {σ : Type} {d : QueueDisc σ Ipv4QueueDiscItem} (i : Ipv4QueueDiscItem) :
    (d.packetDequeued i).m_running = d.m_running := by
  rw [packetDequeued]
  split <;> rfl

/-- The slot is empty after its packet was taken, and the queue is as it was. -/
theorem release_looks {σ : Type} {d : QueueDisc σ Ipv4QueueDiscItem} (i : Ipv4QueueDiscItem) :
    (d.release i).m_requeued = none ∧ (d.release i).m_peeked = false ∧
      (d.release i).inner = d.inner ∧ (d.release i).m_running = d.m_running := by
  rw [QueueDisc.release]
  split
  · have hsame := SameSlot.packetDequeued
      ({ d with m_requeued := none, m_peeked := false } : QueueDisc σ Ipv4QueueDiscItem) i
    exact ⟨hsame.requeued, hsame.peeked, packetDequeued_inner _ _, packetDequeued_slot i⟩
  · next hpeek => exact ⟨rfl, Bool.eq_false_iff.mpr hpeek, rfl, rfl⟩

section Restart

variable (admits) (dev) (now)

theorem restart_none {r : QueueRoot δ} {d : QueueDisc (Queue Ipv4QueueDiscItem) Ipv4QueueDiscItem}
    (h : dequeuePacket (singleQueue admits) dev now r.device r.disc = some (none, d)) :
    restart (singleQueue admits) dev now r = some (false, { r with disc := d }) := by
  rw [restart, h]
  rfl

theorem restart_some {r : QueueRoot δ} {d : QueueDisc (Queue Ipv4QueueDiscItem) Ipv4QueueDiscItem}
    {s : Ipv4QueueDiscItem}
    (h : dequeuePacket (singleQueue admits) dev now r.device r.disc = some (some s, d)) :
    restart (singleQueue admits) dev now r = some (transmit dev s { r with disc := d }) := by
  rw [restart, h]
  rfl

theorem transmit_go {r : QueueRoot δ} {s : Ipv4QueueDiscItem} (h : stopped dev r.device s.m_txq = false) :
    ∃ again, transmit dev s r =
      (again, { r with device := dev.send s r.device, sent := r.sent ++ [s] }) := by
  rw [transmit, show stopped dev r.device (QueueDiscItem.getTxQueueIndex s) = false from h]
  exact ⟨_, rfl⟩

theorem transmit_stop {r : QueueRoot δ} {s : Ipv4QueueDiscItem} (h : stopped dev r.device s.m_txq = true) :
    transmit dev s r = (false, { r with disc := r.disc.requeue s }) := by
  rw [transmit, show stopped dev r.device (QueueDiscItem.getTxQueueIndex s) = true from h]
  rfl

/-- What `DequeuePacket` does when it may ask the queue. -/
theorem dequeuePacket_queue {device : δ} {d : QueueDisc (Queue Ipv4QueueDiscItem) Ipv4QueueDiscItem}
    (hslot : d.m_requeued = none) (hmay : mayDequeue dev device = true) :
    dequeuePacket (singleQueue admits) dev now device d =
      match d.inner.dequeue with
      | none => some (none, d)
      | some (x, q) =>
        x.withHeader.map fun s =>
          (some s, ({ d with inner := q } : QueueDisc (Queue Ipv4QueueDiscItem) Ipv4QueueDiscItem).packetDequeued x) := by
  have hdequeue : (singleQueue admits).dequeue now d = some (d.dequeueInternal onlyQueue) := by
    rw [Methods.dequeue, hslot]
    rfl
  simp only [dequeuePacket, hslot, hmay, if_true, hdequeue, dequeueInternal, onlyQueue, id]
  cases d.inner.dequeue with
  | none => rfl
  | some p => cases h : p.1.withHeader <;> simp [QueueDiscItem.addHeader, h]

/-- The packet in the slot goes as it is. -/
theorem restart_fromSlot {r : QueueRoot δ} {s : Ipv4QueueDiscItem} (hslot : r.disc.m_requeued = some s)
    (hgo : stopped dev r.device s.m_txq = false) :
    ∃ again r', restart (singleQueue admits) dev now r = some (again, r') ∧
      r'.disc.m_running = r.disc.m_running ∧
      Looks r' r.disc.inner.m_packets none false (r.sent ++ [s]) := by
  obtain ⟨hnone, hpeek, hinner, hrunning⟩ := release_looks (d := r.disc) s
  have hdeq : dequeuePacket (singleQueue admits) dev now r.device r.disc =
      some (some s, r.disc.release s) := by
    rw [dequeuePacket, hslot]
    exact if_neg (Bool.eq_false_iff.mp hgo)
  obtain ⟨again, htransmit⟩ := transmit_go dev (r := { r with disc := r.disc.release s }) hgo
  exact ⟨again, _, (restart_some admits dev now hdeq).trans (congrArg some htransmit), hrunning,
    congrArg Queue.m_packets hinner, hnone, hpeek, rfl⟩

theorem restart_cases (r : QueueRoot δ) (hraw : ∀ x ∈ r.disc.inner.m_packets, x.m_headerAdded = false)
    (hrest : r.disc.Rest) :
    ∃ again r', restart (singleQueue admits) dev now r = some (again, r') ∧
      r'.disc.m_running = r.disc.m_running ∧ Restarted dev r r' again := by
  cases hslot : r.disc.m_requeued with
  | some s =>
    cases hstop : stopped dev r.device s.m_txq with
    | true =>
      refine ⟨false, r, restart_none admits dev now ?_, rfl, .idle rfl⟩
      rw [dequeuePacket, hslot]
      exact if_pos hstop
    | false =>
      obtain ⟨again, r', hrestart, hrunning, hlooks⟩ := restart_fromSlot admits dev now hslot hstop
      exact ⟨again, r', hrestart, hrunning, .fromSlot s hslot hstop hlooks⟩
  | none =>
    have hflag := hrest hslot
    cases hmay : mayDequeue dev r.device with
    | false =>
      refine ⟨false, r, restart_none admits dev now ?_, rfl, .idle rfl⟩
      rw [dequeuePacket, hslot]
      exact if_neg (Bool.eq_false_iff.mp hmay)
    | true =>
      have hdeq := dequeuePacket_queue admits dev now hslot hmay
      cases hqueue : r.disc.inner.dequeue with
      | none =>
        rw [hqueue] at hdeq
        exact ⟨false, r, restart_none admits dev now hdeq, rfl, .idle rfl⟩
      | some p =>
        obtain ⟨x, q⟩ := p
        obtain ⟨hpackets, -⟩ := Queue.dequeue_eq_some hqueue
        have hx := hraw x (hpackets ▸ List.mem_cons_self)
        have hheader : x.withHeader =
            some { x with headers := x.m_header :: x.headers, m_headerAdded := true } :=
          if_neg (Bool.eq_false_iff.mp hx)
        rw [hqueue] at hdeq
        simp only [hheader, Option.map_some] at hdeq
        obtain ⟨d, hd⟩ : ∃ d, d = ({ r.disc with inner := q } :
          QueueDisc (Queue Ipv4QueueDiscItem) Ipv4QueueDiscItem).packetDequeued x := ⟨_, rfl⟩
        have hsame := SameSlot.packetDequeued
          ({ r.disc with inner := q } : QueueDisc (Queue Ipv4QueueDiscItem) Ipv4QueueDiscItem) x
        have hinner : d.inner = q := hd ▸ packetDequeued_inner _ _
        have hrunning : d.m_running = r.disc.m_running := hd ▸ packetDequeued_slot x
        rw [← hd] at hdeq hsame
        cases hstop : stopped dev r.device x.m_txq with
        | true =>
          refine ⟨false, _, (restart_some admits dev now hdeq).trans (congrArg some (transmit_stop dev hstop)), hrunning, ?_⟩
          exact .hold x _ q.m_packets hslot hpackets hheader rfl
            ⟨congrArg Queue.m_packets hinner, rfl, hsame.peeked.trans hflag, rfl⟩
        | false =>
          obtain ⟨again, hgo⟩ := transmit_go dev (r := { r with disc := d })
            (s := { x with headers := x.m_header :: x.headers, m_headerAdded := true }) hstop
          refine ⟨again, _, (restart_some admits dev now hdeq).trans (congrArg some hgo), hrunning, ?_⟩
          exact .send x _ q.m_packets hslot hpackets hheader hstop
            ⟨congrArg Queue.m_packets hinner, hsame.requeued.trans hslot, hsame.peeked.trans hflag, rfl⟩

end Restart

/-- No packet that was only peeked waits for a queue that is not stopped. -/
def Clear (dev : NetDevice δ Ipv4QueueDiscItem) (r : QueueRoot δ) : Prop :=
  ∀ i, r.disc.m_requeued = some i → r.disc.m_peeked = true → stopped dev r.device i.m_txq = true

theorem Clear.of_not_peeked {r : QueueRoot δ} (h : r.disc.m_peeked = false) : Clear dev r :=
  fun _ _ hpeek => absurd (h.symm.trans hpeek) Bool.false_ne_true

/-- How a packet that was enqueued is sent: with its header, or, if that is allowed, as it was. -/
def Passed (raw : Prop) (x s : Ipv4QueueDiscItem) : Prop := x.withHeader = some s ∨ raw ∧ s = x

/-- What the packet in the slot was when it was enqueued. -/
inductive Waits : Option Ipv4QueueDiscItem → Bool → List Ipv4QueueDiscItem → Prop
  | empty {peeked : Bool} : Waits none peeked []
  | peeked (x : Ipv4QueueDiscItem) : Waits (some x) true [x]
  | requeued {x s : Ipv4QueueDiscItem} (h : x.withHeader = some s) : Waits (some s) false [x]

/-- The packets sent, the one in the slot and those in the queue are, in this order, some of those that
were enqueued. -/
structure Lined (raw : Prop) (enqueued : List Ipv4QueueDiscItem) (r : QueueRoot δ) : Prop where
  rest : r.disc.Rest
  line : ∃ gone waiting, (gone ++ waiting ++ r.disc.inner.m_packets).Sublist enqueued ∧
    List.Forall₂ (Passed raw) gone r.sent ∧ Waits r.disc.m_requeued r.disc.m_peeked waiting

section Lined

variable {raw : Prop} {enqueued : List Ipv4QueueDiscItem} {r r' : QueueRoot δ}

/-- The packets in the queue have no header yet. -/
theorem Lined.queue_raw (hl : Lined raw enqueued r) (hraw : ∀ x ∈ enqueued, x.m_headerAdded = false) :
    ∀ x ∈ r.disc.inner.m_packets, x.m_headerAdded = false := by
  obtain ⟨gone, waiting, hsub, -, -⟩ := hl.line
  exact fun x hx => hraw x (hsub.subset (List.mem_append_right _ hx))

/-- One more packet has been sent. -/
theorem Forall₂_concat {R : Ipv4QueueDiscItem → Ipv4QueueDiscItem → Prop} {xs ss : List Ipv4QueueDiscItem}
    {x s : Ipv4QueueDiscItem} (h : List.Forall₂ R xs ss) (hx : R x s) :
    List.Forall₂ R (xs ++ [x]) (ss ++ [s]) :=
  List.rel_append h (.cons hx .nil)

theorem Restarted.lined {again : Bool} (h : Restarted dev r r' again) (hl : Lined raw enqueued r)
    (hclear : raw ∨ Clear dev r) : Lined raw enqueued r' := by
  cases h with
  | idle h => exact h ▸ hl
  | fromSlot s hslot hgo h =>
    obtain ⟨gone, waiting, hsub, hgone, hwaits⟩ := hl.line
    refine ⟨fun _ => h.peeked, ?_⟩
    rw [h.queue, h.slot, h.peeked, h.sent]
    rw [hslot] at hwaits
    cases hp : r.disc.m_peeked with
    | true =>
      rw [hp] at hwaits
      cases hwaits with
      | peeked =>
        refine ⟨gone ++ [s], [], by simpa using hsub, Forall₂_concat hgone (.inr ⟨?_, rfl⟩), .empty⟩
        exact hclear.resolve_right fun hc => Bool.false_ne_true (hgo.symm.trans (hc s hslot hp))
    | false =>
      rw [hp] at hwaits
      cases hwaits with
      | @requeued x _ hheader =>
        exact ⟨gone ++ [x], [], by simpa using hsub, Forall₂_concat hgone (.inl hheader), .empty⟩
  | hold x s rest hslot hqueue hheader hdevice h =>
    obtain ⟨gone, waiting, hsub, hgone, hwaits⟩ := hl.line
    refine ⟨fun hnone => absurd (h.slot.symm.trans hnone) (by simp), ?_⟩
    rw [h.queue, h.slot, h.peeked, h.sent]
    rw [hslot] at hwaits
    rw [hqueue] at hsub
    cases hwaits with
    | empty => exact ⟨gone, [x], by simpa using hsub, hgone, .requeued hheader⟩
  | send x s rest hslot hqueue hheader hgo h =>
    obtain ⟨gone, waiting, hsub, hgone, hwaits⟩ := hl.line
    refine ⟨fun _ => h.peeked, ?_⟩
    rw [h.queue, h.slot, h.peeked, h.sent]
    rw [hslot] at hwaits
    rw [hqueue] at hsub
    cases hwaits with
    | empty =>
      exact ⟨gone ++ [x], [], by simpa using hsub, Forall₂_concat hgone (.inl hheader), .empty⟩

/-- Where the loop goes on, nothing is peeked. -/
theorem Restarted.not_peeked {again : Bool} (h : Restarted dev r r' again) :
    (again = true ∨ r.disc.m_peeked = false) → r'.disc.m_peeked = false := by
  intro hor
  cases h with
  | idle h => exact h ▸ hor.resolve_left Bool.false_ne_true
  | fromSlot _ _ _ h => exact h.peeked
  | hold _ _ _ _ _ _ _ h => exact h.peeked
  | send _ _ _ _ _ _ _ h => exact h.peeked

theorem Restarted.sent_prefix {again : Bool} (h : Restarted dev r r' again) : r.sent <+: r'.sent := by
  cases h with
  | idle h => exact h ▸ List.prefix_rfl
  | fromSlot s _ _ h => exact h.sent ▸ List.prefix_append _ _
  | hold _ _ _ _ _ _ _ h => exact h.sent ▸ List.prefix_rfl
  | send _ s _ _ _ _ _ h => exact h.sent ▸ List.prefix_append _ _

/-- What a run of `Restart` keeps. -/
structure Kept (raw : Prop) (enqueued : List Ipv4QueueDiscItem) (r r' : QueueRoot δ) : Prop where
  lined : Lined raw enqueued r'
  running : r'.disc.m_running = r.disc.m_running
  notPeeked : r.disc.m_peeked = false → r'.disc.m_peeked = false
  sent : r.sent <+: r'.sent

section Run

variable (admits) (dev) (now)

theorem runLoop_kept (hraw : ∀ x ∈ enqueued, x.m_headerAdded = false) (n : Nat)
    (hl : Lined raw enqueued r) (hclear : raw ∨ Clear dev r) :
    ∃ r', runLoop (singleQueue admits) dev now n r = some r' ∧ Kept raw enqueued r r' := by
  induction n generalizing r with
  | zero => exact ⟨r, rfl, hl, rfl, id, List.prefix_rfl⟩
  | succ n ih =>
    obtain ⟨again, r₁, hrestart, hrunning, hres⟩ :=
      restart_cases admits dev now r (hl.queue_raw hraw) hl.rest
    have hl₁ := hres.lined hl hclear
    rw [runLoop, hrestart, Option.bind_eq_bind, Option.bind_some]
    cases again with
    | false => exact ⟨r₁, rfl, hl₁, hrunning, fun hp => hres.not_peeked (.inr hp), hres.sent_prefix⟩
    | true =>
      obtain ⟨r₂, hloop, hkept⟩ := ih hl₁ (.inr (Clear.of_not_peeked (hres.not_peeked (.inl rfl))))
      exact ⟨r₂, hloop, hkept.lined, hkept.running.trans hrunning,
        fun _ => hkept.notPeeked (hres.not_peeked (.inl rfl)), hres.sent_prefix.trans hkept.sent⟩

/-- `Run` called while it is not running. -/
theorem run_eq (hidle : r.disc.m_running = false) :
    run (singleQueue admits) dev now r =
      (runLoop (singleQueue admits) dev now (restarts r.disc.m_quota)
        { r with disc := { r.disc with m_running := true } }).map
        fun r => { r with disc := { r.disc with m_running := false } } := by
  rw [run, hidle]
  exact Option.bind_eq_bind ▸ (Option.map_eq_bind ..).symm

theorem run_kept (hraw : ∀ x ∈ enqueued, x.m_headerAdded = false) (hl : Lined raw enqueued r)
    (hidle : r.disc.m_running = false) (hclear : raw ∨ Clear dev r) :
    ∃ r', run (singleQueue admits) dev now r = some r' ∧ Kept raw enqueued r r' := by
  obtain ⟨r₁, hloop, hkept⟩ := runLoop_kept admits dev now hraw (restarts r.disc.m_quota)
    (show Lined raw enqueued ({ r with disc := { r.disc with m_running := true } } : QueueRoot δ) from
      ⟨hl.rest, hl.line⟩) hclear
  refine ⟨_, (run_eq admits dev now hidle).trans (congrArg _ hloop), ?_⟩
  exact ⟨⟨hkept.lined.rest, hkept.lined.line⟩, hidle.symm, hkept.notPeeked, hkept.sent⟩

/-- A packet that was only peeked and may go is sent as it is. -/
theorem run_not_clear (hraw : ∀ x ∈ enqueued, x.m_headerAdded = false) (hl : Lined True enqueued r)
    (hidle : r.disc.m_running = false) (hclear : ¬ Clear dev r)
    (h : run (singleQueue admits) dev now r = some r') : ∃ s ∈ r'.sent, s.m_headerAdded = false := by
  obtain ⟨i, hslot, hpeek, hgo⟩ :
      ∃ i, r.disc.m_requeued = some i ∧ r.disc.m_peeked = true ∧ stopped dev r.device i.m_txq = false := by
    simpa [Clear] using hclear
  have hi : i.m_headerAdded = false := by
    obtain ⟨gone, waiting, hsub, -, hwaits⟩ := hl.line
    rw [hslot, hpeek] at hwaits
    cases hwaits
    exact hraw i (hsub.subset (by simp))
  obtain ⟨n, hn⟩ : ∃ n, restarts r.disc.m_quota = n + 1 := by
    refine Nat.exists_eq_succ_of_ne_zero ?_
    rw [restarts]
    split
    · decide
    · next hquota => exact fun hzero => hquota (UInt32.toNat_inj.mp hzero)
  have hl' : Lined True enqueued ({ r with disc := { r.disc with m_running := true } } : QueueRoot δ) :=
    ⟨hl.rest, hl.line⟩
  obtain ⟨again, r₁, hrestart, -, hlooks⟩ := restart_fromSlot admits dev now
    (r := { r with disc := { r.disc with m_running := true } }) hslot hgo
  have hmem : i ∈ r₁.sent := hlooks.sent ▸ List.mem_append_right _ (List.mem_singleton_self i)
  rw [run_eq admits dev now hidle, hn, runLoop, hrestart, Option.bind_eq_bind, Option.bind_some] at h
  cases again with
  | false =>
    obtain rfl := Option.some.inj h
    exact ⟨i, hmem, hi⟩
  | true =>
    have hres : Restarted dev ({ r with disc := { r.disc with m_running := true } } : QueueRoot δ) r₁ true :=
      .fromSlot i hslot hgo hlooks
    have hl₁ := hres.lined hl' (.inl trivial)
    obtain ⟨r₂, hloop, hkept⟩ := runLoop_kept admits dev now hraw n hl₁
      (.inl trivial)
    simp only [if_true, hloop] at h
    obtain rfl := Option.some.inj h
    exact ⟨i, hkept.sent.subset hmem, hi⟩

end Run

end Lined

section Calls

/-- Whether a call is one of `Peek`. -/
def isPeek {Item : Type} : Call Item δ → Bool
  | .peek _ => true
  | _ => false

/-- The calls considered: `Enqueue` of a packet without its header, `Run` and `Peek`, and changes of the
device. -/
def Considered : Call Ipv4QueueDiscItem δ → Prop
  | .enqueue _ item => item.m_headerAdded = false
  | .dequeue _ => False
  | _ => True

/-- The packets that some calls enqueue, with their time stamps. -/
def enqueuedBy (calls : List (Call Ipv4QueueDiscItem δ)) : List Ipv4QueueDiscItem :=
  calls.filterMap fun
    | .enqueue now item => some { item with m_tstamp := now }
    | _ => none

/-- In no call of `Run` a packet that was only peeked may go. -/
def AllClear (admits : Admission) (dev : NetDevice δ Ipv4QueueDiscItem) (r : QueueRoot δ) :
    List (Call Ipv4QueueDiscItem δ) → Prop
  | [] => True
  | call :: calls =>
    (∀ now, call = .run now → Clear dev r) ∧
      ∀ r', step (singleQueue admits) dev r call = some r' → AllClear admits dev r' calls

/-- Between two calls: the packets are in line, and the queue disc is not running. -/
structure Idle (raw : Prop) (enqueued : List Ipv4QueueDiscItem) (r : QueueRoot δ) : Prop where
  lined : Lined raw enqueued r
  idle : r.disc.m_running = false

variable (admits) (dev) {raw : Prop} {enqueued : List Ipv4QueueDiscItem} {r r' : QueueRoot δ}

/-- `Enqueue` puts the packet behind the others or drops it. -/
theorem enqueue_looks (now : Time) (item : Ipv4QueueDiscItem)
    (d : QueueDisc (Queue Ipv4QueueDiscItem) Ipv4QueueDiscItem) :
    ∃ ok d', (singleQueue admits).enqueue now item d = some (ok, d') ∧
      (d'.inner.m_packets = d.inner.m_packets ∨
        d'.inner.m_packets = d.inner.m_packets ++ [{ item with m_tstamp := now }]) ∧
      d'.m_requeued = d.m_requeued ∧ d'.m_peeked = d.m_peeked ∧ d'.m_running = d.m_running := by
  rw [Methods.enqueue]
  simp only [singleQueue]
  split
  · rw [enqueueInternal]
    split
    · next q hq =>
      refine ⟨_, _, rfl, .inr ?_, rfl, rfl, rfl⟩
      exact congrArg Queue.m_packets (Queue.enqueue_eq_some hq)
    · exact ⟨_, _, rfl, .inl rfl, rfl, rfl, rfl⟩
  · exact ⟨_, _, rfl, .inl rfl, rfl, rfl, rfl⟩

/-- `Peek` finds a packet in the slot, or none in the queue, or takes the first one to the slot. -/
theorem peek_looks (now : Time) (d : QueueDisc (Queue Ipv4QueueDiscItem) Ipv4QueueDiscItem) (hrest : d.Rest) :
    ∃ item d', (singleQueue admits).peek now d = some (item, d') ∧
      (d' = d ∨ d.m_requeued = none ∧ ∃ x, d.inner.m_packets = x :: d'.inner.m_packets ∧
        d'.m_requeued = some x ∧ d'.m_peeked = true ∧ d'.m_running = d.m_running) := by
  cases hslot : d.m_requeued with
  | some s => exact ⟨some s, d, by simp [Methods.peek, singleQueue, hslot], .inl rfl⟩
  | none =>
    have hflag := hrest hslot
    have hdequeue : (singleQueue admits).dequeue now { d with m_peeked := true } =
        some (({ d with m_peeked := true } :
          QueueDisc (Queue Ipv4QueueDiscItem) Ipv4QueueDiscItem).dequeueInternal onlyQueue) := by
      simp [Methods.dequeue, singleQueue, hslot]
    have hpeek : (singleQueue admits).peek now d = (singleQueue admits).park now d := by
      simp only [Methods.peek, singleQueue, hslot]
    cases hq : d.inner.dequeue with
    | some p =>
      obtain ⟨x, q⟩ := p
      obtain ⟨hpackets, -⟩ := Queue.dequeue_eq_some hq
      have hinternal : ({ d with m_peeked := true } :
          QueueDisc (Queue Ipv4QueueDiscItem) Ipv4QueueDiscItem).dequeueInternal onlyQueue =
          (some x, { d with m_peeked := true, inner := q }) := by
        simp [dequeueInternal, onlyQueue, hq, packetDequeued]
      rw [hpeek, Methods.park, hdequeue, hinternal]
      exact ⟨some x, _, rfl, .inr ⟨rfl, x, hpackets, rfl, rfl, rfl⟩⟩
    | none =>
      have hinternal : ({ d with m_peeked := true } :
          QueueDisc (Queue Ipv4QueueDiscItem) Ipv4QueueDiscItem).dequeueInternal onlyQueue =
          (none, { d with m_peeked := true }) := by
        simp [dequeueInternal, onlyQueue, hq]
      refine ⟨none, d, ?_, .inl rfl⟩
      rw [hpeek, Methods.park, hdequeue, hinternal]
      obtain ⟨nPackets, nBytes, stats, quota, running, requeued, peeked, traces, inner⟩ := d
      obtain rfl : requeued = none := hslot
      obtain rfl : peeked = false := hflag
      rfl

/-- A considered call has a result, and keeps the packets in line. -/
theorem step_kept (hraw : ∀ x ∈ enqueued, x.m_headerAdded = false) {call : Call Ipv4QueueDiscItem δ}
    (hcall : Considered call) (hr : Idle raw enqueued r)
    (hclear : raw ∨ ∀ now, call = .run now → Clear dev r) :
    ∃ r', step (singleQueue admits) dev r call = some r' ∧ Idle raw (enqueued ++ enqueuedBy [call]) r' ∧
      r.sent <+: r'.sent := by
  cases call with
  | enqueue now item =>
    obtain ⟨ok, d', henq, hqueue, hslot, hpeek, hrunning⟩ := enqueue_looks admits now item r.disc
    refine ⟨{ r with disc := d' }, by rw [step, henq]; rfl, ⟨⟨?_, ?_⟩, hrunning.trans hr.idle⟩, List.prefix_rfl⟩
    · exact fun hnone => hpeek.trans (hr.lined.rest (hslot.symm.trans hnone))
    · obtain ⟨gone, waiting, hsub, hgone, hwaits⟩ := hr.lined.line
      refine ⟨gone, waiting, ?_, hgone, by rw [hslot, hpeek]; exact hwaits⟩
      cases hqueue with
      | inl h => exact h ▸ hsub.trans (List.sublist_append_left _ _)
      | inr h =>
        rw [h, ← List.append_assoc]
        exact hsub.append (List.Sublist.refl _)
  | peek now =>
    obtain ⟨item, d', hpeek, hlooks⟩ := peek_looks admits now r.disc hr.lined.rest
    refine ⟨{ r with disc := d' }, by rw [step, hpeek]; rfl, ?_, List.prefix_rfl⟩
    rw [show enqueuedBy [(.peek now : Call Ipv4QueueDiscItem δ)] = [] from rfl, List.append_nil]
    cases hlooks with
    | inl h => exact h ▸ hr
    | inr h =>
      obtain ⟨hnone, x, hqueue, hslot, hflag, hrunning⟩ := h
      refine ⟨⟨fun hempty => absurd (hslot.symm.trans hempty) (by simp), ?_⟩, hrunning.trans hr.idle⟩
      obtain ⟨gone, waiting, hsub, hgone, hwaits⟩ := hr.lined.line
      rw [hnone] at hwaits
      cases hwaits
      rw [hqueue] at hsub
      exact ⟨gone, [x], by simpa using hsub, hgone, by rw [hslot, hflag]; exact .peeked x⟩
  | dequeue now => exact absurd hcall id
  | run now =>
    obtain ⟨r', hrun, hkept⟩ := run_kept admits dev now hraw hr.lined hr.idle (hclear.imp_right (· now rfl))
    refine ⟨r', hrun, ⟨?_, hkept.running.trans hr.idle⟩, hkept.sent⟩
    rw [show enqueuedBy [(.run now : Call Ipv4QueueDiscItem δ)] = [] from rfl, List.append_nil]
    exact hkept.lined
  | device change =>
    refine ⟨{ r with device := change r.device }, rfl, ?_, List.prefix_rfl⟩
    rw [show enqueuedBy [(.device change : Call Ipv4QueueDiscItem δ)] = [] from rfl, List.append_nil]
    exact ⟨⟨hr.lined.rest, hr.lined.line⟩, hr.idle⟩

/-- The packet `i` or what became of it is the next that can be sent. -/
structure Blocked (i : Ipv4QueueDiscItem) (r : QueueRoot δ) : Prop where
  notPeeked : r.disc.m_peeked = false
  next : (r.disc.m_requeued = none ∧ ∃ rest, r.disc.inner.m_packets = i :: rest) ∨
    ∃ s, r.disc.m_requeued = some s ∧ s.m_txq = i.m_txq

theorem withHeader_txq {x s : Ipv4QueueDiscItem} (h : x.withHeader = some s) : s.m_txq = x.m_txq := by
  rw [Ipv4QueueDiscItem.withHeader] at h
  split at h
  · cases h
  · exact Option.some.inj h ▸ rfl

variable {dev} in
/-- While its queue is stopped, nothing is sent. -/
theorem Restarted.blocked {i : Ipv4QueueDiscItem} {again : Bool} (h : Restarted dev r r' again)
    (hb : Blocked i r) (hstop : stopped dev r.device i.m_txq = true) :
    again = false ∧ r'.device = r.device ∧ r'.sent = r.sent ∧ Blocked i r' := by
  cases h with
  | idle h =>
    subst h
    exact ⟨rfl, rfl, rfl, hb⟩
  | fromSlot s hslot hgo h =>
    exfalso
    cases hb.next with
    | inl hnext => exact absurd (hslot.symm.trans hnext.1) (by simp)
    | inr hnext =>
      obtain ⟨s', hs', htxq⟩ := hnext
      obtain rfl := Option.some.inj (hslot.symm.trans hs')
      exact Bool.false_ne_true (hgo.symm.trans (htxq ▸ hstop))
  | hold x s rest hslot hqueue hheader hdevice h =>
    cases hb.next with
    | inl hnext =>
      obtain ⟨-, rest', hrest⟩ := hnext
      obtain ⟨rfl, -⟩ := List.cons.inj (hqueue.symm.trans hrest)
      exact ⟨rfl, hdevice, h.sent, h.peeked, .inr ⟨s, h.slot, withHeader_txq hheader⟩⟩
    | inr hnext =>
      obtain ⟨s', hs', -⟩ := hnext
      exact absurd (hs'.symm.trans hslot) (by simp)
  | send x s rest hslot hqueue hheader hgo h =>
    exfalso
    cases hb.next with
    | inl hnext =>
      obtain ⟨-, rest', hrest⟩ := hnext
      obtain ⟨rfl, -⟩ := List.cons.inj (hqueue.symm.trans hrest)
      exact Bool.false_ne_true (hgo.symm.trans (withHeader_txq hheader ▸ hstop))
    | inr hnext =>
      obtain ⟨s', hs', -⟩ := hnext
      exact absurd (hs'.symm.trans hslot) (by simp)

theorem run_blocked (hraw : ∀ x ∈ enqueued, x.m_headerAdded = false) {now : Time} {i : Ipv4QueueDiscItem}
    (hr : Idle raw enqueued r) (hb : Blocked i r) (hstop : stopped dev r.device i.m_txq = true)
    (h : run (singleQueue admits) dev now r = some r') :
    r'.device = r.device ∧ r'.sent = r.sent ∧ Blocked i r' := by
  rw [run_eq admits dev now hr.idle] at h
  cases hn : restarts r.disc.m_quota with
  | zero =>
    rw [hn] at h
    obtain rfl := Option.some.inj h
    exact ⟨rfl, rfl, hb.notPeeked, hb.next⟩
  | succ n =>
    rw [hn] at h
    obtain ⟨again, r₁, hrestart, -, hres⟩ := restart_cases admits dev now
      { r with disc := { r.disc with m_running := true } } (hr.lined.queue_raw hraw) hr.lined.rest
    obtain ⟨rfl, hdevice, hsent, hb₁⟩ := hres.blocked ⟨hb.notPeeked, hb.next⟩ hstop
    rw [runLoop, hrestart, Option.bind_eq_bind, Option.bind_some] at h
    obtain rfl := Option.some.inj h
    exact ⟨hdevice, hsent, hb₁.notPeeked, hb₁.next⟩

/-- A packet that was only peeked and must wait keeps `Run` from doing anything. -/
theorem run_parked {now : Time} {i : Ipv4QueueDiscItem} (hidle : r.disc.m_running = false)
    (hslot : r.disc.m_requeued = some i) (hstop : stopped dev r.device i.m_txq = true) :
    run (singleQueue admits) dev now r = some r := by
  have hsame : ({ r with disc := { r.disc with m_running := false } } : QueueRoot δ) = r := by
    rw [← hidle]
  rw [run_eq admits dev now hidle]
  cases restarts r.disc.m_quota with
  | zero => exact congrArg some hsame
  | succ n =>
    have hdeq : dequeuePacket (singleQueue admits) dev now r.device { r.disc with m_running := true } =
        some (none, { r.disc with m_running := true }) := by
      simp only [dequeuePacket, hslot]
      exact if_pos hstop
    rw [runLoop, restart_none admits dev now (r := { r with disc := { r.disc with m_running := true } }) hdeq]
    exact congrArg some hsame

/-- The run with calls of `Peek` and the one without are in the same state, or the first waits for a packet
that was only peeked and the second for the same packet. -/
inductive Twin (r r' : QueueRoot δ) : Prop
  | same (h : r' = r) (hpeek : r.disc.m_peeked = false)
  | stuck (i : Ipv4QueueDiscItem) (hslot : r.disc.m_requeued = some i) (hpeek : r.disc.m_peeked = true)
      (hdevice : r'.device = r.device) (hsent : r'.sent = r.sent) (hb : Blocked i r')

theorem Twin.peek (ht : Twin r r') (hr : Idle raw enqueued r) {now : Time} {r₁ : QueueRoot δ}
    (h : step (singleQueue admits) dev r (.peek now) = some r₁) : Twin r₁ r' := by
  obtain ⟨item, d', hpeek, hlooks⟩ := peek_looks admits now r.disc hr.lined.rest
  rw [step, hpeek] at h
  obtain rfl := Option.some.inj h
  cases hlooks with
  | inl h => exact h ▸ ht
  | inr h =>
    obtain ⟨hnone, x, hqueue, hslot, hflag, -⟩ := h
    cases ht with
    | same h hp => exact .stuck x hslot hflag (h ▸ rfl) (h ▸ rfl) (h ▸ ⟨hp, .inl ⟨hnone, _, hqueue⟩⟩)
    | stuck i hi => exact absurd (hi.symm.trans hnone) (by simp)

theorem Twin.step (ht : Twin r r') (hraw : ∀ x ∈ enqueued, x.m_headerAdded = false)
    (hr : Idle False enqueued r) (hr' : Idle True enqueued r') {call : Call Ipv4QueueDiscItem δ}
    (hcall : Considered call) (hpeek : isPeek call = false) (hclear : ∀ now, call = .run now → Clear dev r)
    {r₁ r₁' : QueueRoot δ} (h : Root.step (singleQueue admits) dev r call = some r₁)
    (h' : Root.step (singleQueue admits) dev r' call = some r₁') : Twin r₁ r₁' := by
  cases ht with
  | same heq hp =>
    subst heq
    obtain rfl := Option.some.inj (h'.symm.trans h)
    refine .same rfl ?_
    cases call with
    | enqueue now item =>
      obtain ⟨ok, d', henq, -, -, hflag, -⟩ := enqueue_looks admits now item r'.disc
      rw [Root.step, henq] at h
      exact Option.some.inj h ▸ hflag.trans hp
    | peek now => cases hpeek
    | dequeue now => exact absurd hcall id
    | run now =>
      obtain ⟨r₂, hrun, hkept⟩ := run_kept admits dev now hraw hr.lined hr.idle (.inr (Clear.of_not_peeked hp))
      obtain rfl := Option.some.inj (hrun.symm.trans h)
      exact hkept.notPeeked hp
    | device change => exact Option.some.inj h ▸ hp
  | stuck i hslot hflag hdevice hsent hb =>
    cases call with
    | enqueue now item =>
      obtain ⟨ok, d, henq, -, hslot₁, hflag₁, -⟩ := enqueue_looks admits now item r.disc
      obtain ⟨ok', d', henq', hqueue', hslot', hflag', -⟩ := enqueue_looks admits now item r'.disc
      rw [Root.step, henq] at h
      rw [Root.step, henq'] at h'
      obtain rfl := Option.some.inj h
      obtain rfl := Option.some.inj h'
      refine .stuck i (hslot₁.trans hslot) (hflag₁.trans hflag) hdevice hsent ⟨hflag'.trans hb.notPeeked, ?_⟩
      refine hb.next.imp (fun hnext => ⟨hslot'.trans hnext.1, ?_⟩) fun ⟨s, hs, htxq⟩ => ⟨s, hslot'.trans hs, htxq⟩
      obtain ⟨-, rest, hrest⟩ := hnext
      cases hqueue' with
      | inl hq => exact ⟨rest, hq.trans hrest⟩
      | inr hq => exact ⟨_, hq.trans (congrArg (· ++ _) hrest)⟩
    | peek now => cases hpeek
    | dequeue now => exact absurd hcall id
    | run now =>
      have hstop := hclear now rfl i hslot hflag
      have hrun : Root.step (singleQueue admits) dev r (.run now) = some r :=
        run_parked admits dev hr.idle hslot hstop
      obtain rfl := Option.some.inj (hrun.symm.trans h)
      obtain ⟨hdevice', hsent', hb'⟩ := run_blocked admits dev hraw hr' hb (hdevice ▸ hstop) h'
      exact .stuck i hslot hflag (hdevice'.trans hdevice) (hsent'.trans hsent) hb'
    | device change =>
      obtain rfl := Option.some.inj h
      obtain rfl := Option.some.inj h'
      exact .stuck i hslot hflag (congrArg change hdevice) hsent ⟨hb.notPeeked, hb.next⟩

theorem Twin.sent_eq (ht : Twin r r') : r.sent = r'.sent := by
  cases ht with
  | same h => exact h ▸ rfl
  | stuck _ _ _ _ hsent => exact hsent.symm

/-- The calls without those of `Peek`. -/
def withoutPeeks (calls : List (Call Ipv4QueueDiscItem δ)) : List (Call Ipv4QueueDiscItem δ) :=
  calls.filter fun call => !isPeek call

theorem enqueuedBy_cons (call : Call Ipv4QueueDiscItem δ) (calls : List (Call Ipv4QueueDiscItem δ)) :
    enqueuedBy (call :: calls) = enqueuedBy [call] ++ enqueuedBy calls :=
  List.filterMap_append (l := [call])

/-- The packets that calls enqueue have no header, if the calls are considered. -/
theorem enqueuedBy_raw {calls : List (Call Ipv4QueueDiscItem δ)} (h : ∀ call ∈ calls, Considered call) :
    ∀ x ∈ enqueuedBy calls, x.m_headerAdded = false := by
  intro x hx
  obtain ⟨call, hmem, hcall⟩ := List.mem_filterMap.mp hx
  cases call with
  | enqueue now item =>
    obtain rfl := Option.some.inj hcall
    exact h _ hmem
  | peek => cases hcall
  | dequeue => cases hcall
  | run => cases hcall
  | device => cases hcall

/-- A run of calls has a result, and keeps the packets in line. -/
theorem runs_kept {calls : List (Call Ipv4QueueDiscItem δ)} (hcalls : ∀ call ∈ calls, Considered call)
    (hraw : ∀ x ∈ enqueued, x.m_headerAdded = false) (hr : Idle raw enqueued r)
    (hclear : raw ∨ AllClear admits dev r calls) :
    ∃ r', calls.foldlM (step (singleQueue admits) dev) r = some r' ∧
      Idle raw (enqueued ++ enqueuedBy calls) r' ∧ r.sent <+: r'.sent := by
  induction calls generalizing r enqueued with
  | nil => exact ⟨r, rfl, (List.append_nil enqueued).symm ▸ hr, List.prefix_rfl⟩
  | cons call calls ih =>
    have hcall := hcalls call List.mem_cons_self
    obtain ⟨r₁, hstep, hr₁, hsent⟩ := step_kept admits dev hraw hcall hr (hclear.imp_right And.left)
    have hraw₁ : ∀ x ∈ enqueued ++ enqueuedBy [call], x.m_headerAdded = false := fun x hx =>
      (List.mem_append.mp hx).elim (hraw x)
        (enqueuedBy_raw (List.forall_mem_singleton.mpr hcall) x)
    obtain ⟨r₂, hruns, hr₂, hsent₂⟩ := ih (fun c hc => hcalls c (List.mem_cons_of_mem _ hc)) hraw₁ hr₁
      (hclear.imp_right fun h => h.2 r₁ hstep)
    refine ⟨r₂, ?_, ?_, hsent.trans hsent₂⟩
    · rw [List.foldlM_cons, hstep]
      exact hruns
    · rw [enqueuedBy_cons, ← List.append_assoc]
      exact hr₂

/-- If a packet that was only peeked may go in some call of `Run`, a packet is sent without its header. -/
theorem runs_not_clear {calls : List (Call Ipv4QueueDiscItem δ)} (hcalls : ∀ call ∈ calls, Considered call)
    (hraw : ∀ x ∈ enqueued, x.m_headerAdded = false) (hr : Idle True enqueued r)
    (hclear : ¬ AllClear admits dev r calls) (h : calls.foldlM (step (singleQueue admits) dev) r = some r') :
    ∃ s ∈ r'.sent, s.m_headerAdded = false := by
  induction calls generalizing r enqueued with
  | nil => exact absurd trivial hclear
  | cons call calls ih =>
    have hcall := hcalls call List.mem_cons_self
    have hrest : ∀ c ∈ calls, Considered c := fun c hc => hcalls c (List.mem_cons_of_mem _ hc)
    obtain ⟨r₁, hstep, hr₁, -⟩ := step_kept admits dev hraw hcall hr (.inl trivial)
    have hraw₁ : ∀ x ∈ enqueued ++ enqueuedBy [call], x.m_headerAdded = false := fun x hx =>
      (List.mem_append.mp hx).elim (hraw x) (enqueuedBy_raw (List.forall_mem_singleton.mpr hcall) x)
    rw [List.foldlM_cons, hstep] at h
    rw [AllClear, not_and_or] at hclear
    cases hclear with
    | inl hnow =>
      obtain ⟨now, rfl, hnot⟩ : ∃ now, call = .run now ∧ ¬ Clear dev r := by simpa using hnow
      obtain ⟨s, hs, hadded⟩ := run_not_clear admits dev now hraw hr.lined hr.idle hnot hstep
      obtain ⟨r₂, hruns, -, hsent⟩ := runs_kept admits dev hrest hraw₁ hr₁ (.inl trivial)
      obtain rfl := Option.some.inj (hruns.symm.trans h)
      exact ⟨s, hsent.subset hs, hadded⟩
    | inr hlater =>
      refine ih hrest hraw₁ hr₁ (fun hall => hlater fun r₂ h₂ => ?_) h
      exact Option.some.inj (hstep.symm.trans h₂) ▸ hall

/-- Twins stay twins. -/
theorem runs_twin {calls : List (Call Ipv4QueueDiscItem δ)} (hcalls : ∀ call ∈ calls, Considered call)
    (hraw : ∀ x ∈ enqueued, x.m_headerAdded = false) (ht : Twin r r') (hr : Idle False enqueued r)
    (hr' : Idle True enqueued r') (hclear : AllClear admits dev r calls) {r₁ r₁' : QueueRoot δ}
    (h : calls.foldlM (step (singleQueue admits) dev) r = some r₁)
    (h' : (withoutPeeks calls).foldlM (step (singleQueue admits) dev) r' = some r₁') : Twin r₁ r₁' := by
  induction calls generalizing r r' enqueued with
  | nil =>
    obtain rfl := Option.some.inj h
    obtain rfl := Option.some.inj h'
    exact ht
  | cons call calls ih =>
    have hcall := hcalls call List.mem_cons_self
    have hrest : ∀ c ∈ calls, Considered c := fun c hc => hcalls c (List.mem_cons_of_mem _ hc)
    obtain ⟨r₂, hstep, hr₂, -⟩ := step_kept admits dev hraw hcall hr (.inr hclear.1)
    have hraw₂ : ∀ x ∈ enqueued ++ enqueuedBy [call], x.m_headerAdded = false := fun x hx =>
      (List.mem_append.mp hx).elim (hraw x) (enqueuedBy_raw (List.forall_mem_singleton.mpr hcall) x)
    rw [List.foldlM_cons, hstep] at h
    cases hpeek : isPeek call with
    | true =>
      rw [withoutPeeks, List.filter_cons_of_neg (by simp [hpeek])] at h'
      cases call with
      | peek now =>
        rw [show enqueuedBy [(.peek now : Call Ipv4QueueDiscItem δ)] = [] from rfl, List.append_nil] at hr₂
        exact ih hrest hraw (ht.peek admits dev hr hstep) hr₂ hr' (hclear.2 r₂ hstep) h h'
      | enqueue => cases hpeek
      | dequeue => cases hpeek
      | run => cases hpeek
      | device => cases hpeek
    | false =>
      rw [withoutPeeks, List.filter_cons_of_pos (by simp [hpeek])] at h'
      obtain ⟨r₂', hstep', hr₂', -⟩ := step_kept admits dev hraw hcall hr' (.inl trivial)
      rw [List.foldlM_cons, hstep'] at h'
      have ht₂ := ht.step admits dev hraw hr hr' hcall hpeek hclear.1 hstep hstep'
      exact ih hrest hraw₂ ht₂ hr₂ hr₂' (hclear.2 r₂ hstep) h h'

/-- The sends of a run are those without the calls of `Peek`: the same packets, each with its header added
once, in the order in which they were enqueued. -/
structure Transparent (calls : List (Call Ipv4QueueDiscItem δ)) (r r' : QueueRoot δ) : Prop where
  same : r.sent = r'.sent
  headers : ∃ xs, xs.Sublist (enqueuedBy calls) ∧
    List.Forall₂ (fun x s => Ipv4QueueDiscItem.withHeader x = some s) xs r.sent

/-- A root queue disc over one queue, before its first packet. -/
def overQueue (maxSize : QueueSize) (quota : UInt32) (device : δ) : QueueRoot δ where
  disc := { m_quota := quota, inner := Queue.empty maxSize }
  device := device

theorem overQueue_idle (raw : Prop) (maxSize : QueueSize) (quota : UInt32) (device : δ) :
    Idle raw [] (overQueue maxSize quota device) :=
  ⟨⟨fun _ => rfl, [], [], .refl _, .nil, .empty⟩, rfl⟩

theorem headers_added {xs ss : List Ipv4QueueDiscItem}
    (h : List.Forall₂ (fun x s => Ipv4QueueDiscItem.withHeader x = some s) xs ss) :
    ∀ s ∈ ss, s.m_headerAdded = true := by
  induction h with
  | nil => simp
  | cons hx _ ih =>
    rw [Ipv4QueueDiscItem.withHeader] at hx
    split at hx
    · cases hx
    · obtain rfl := Option.some.inj hx
      exact List.forall_mem_cons.mpr ⟨rfl, ih⟩

/-- Calls of `Peek` make no difference exactly if no `Run` finds a packet that was only peeked and may
go. -/
theorem transparent_iff (maxSize : QueueSize) (quota : UInt32) (device : δ)
    (calls : List (Call Ipv4QueueDiscItem δ)) (hcalls : ∀ call ∈ calls, Considered call) :
    ∃ r r', calls.foldlM (step (singleQueue admits) dev) (overQueue maxSize quota device) = some r ∧
      (withoutPeeks calls).foldlM (step (singleQueue admits) dev) (overQueue maxSize quota device) = some r' ∧
      (Transparent calls r r' ↔ AllClear admits dev (overQueue maxSize quota device) calls) := by
  have hnil : ∀ x ∈ ([] : List Ipv4QueueDiscItem), x.m_headerAdded = false := by simp
  obtain ⟨r, hruns, hr, -⟩ := runs_kept admits dev hcalls hnil
    (overQueue_idle True maxSize quota device) (.inl trivial)
  obtain ⟨r', hruns', hr', -⟩ := runs_kept admits dev
    (fun c hc => hcalls c (List.mem_filter.mp hc).1 : ∀ c ∈ withoutPeeks calls, Considered c) hnil
    (overQueue_idle True maxSize quota device) (.inl trivial)
  refine ⟨r, r', hruns, hruns', fun ht => ?_, fun hclear => ?_⟩
  · by_contra hclear
    obtain ⟨s, hs, hadded⟩ := runs_not_clear admits dev hcalls hnil
      (overQueue_idle True maxSize quota device) hclear hruns
    obtain ⟨xs, -, hheaders⟩ := ht.headers
    exact Bool.false_ne_true (hadded.symm.trans (headers_added hheaders s hs))
  · have ht := runs_twin admits dev hcalls hnil (.same rfl rfl) (overQueue_idle False maxSize quota device)
      (overQueue_idle True maxSize quota device) hclear hruns hruns'
    obtain ⟨r₁, hruns₁, hr₁, -⟩ := runs_kept admits dev hcalls hnil
      (overQueue_idle False maxSize quota device) (.inr hclear)
    obtain rfl := Option.some.inj (hruns₁.symm.trans hruns)
    obtain ⟨gone, waiting, hsub, hgone, -⟩ := hr₁.lined.line
    refine ⟨ht.sent_eq, gone, ?_, ?_⟩
    · rw [List.append_assoc] at hsub
      exact (List.sublist_append_left _ _).trans hsub
    · exact hgone.imp fun x s h => h.resolve_right fun h => h.1

/-- A device with one transmission queue, which is stopped or not. -/
def oneTxQueue : NetDevice Bool Ipv4QueueDiscItem := ⟨some 1, fun isStopped _ => isStopped, fun _ d => d⟩

/-- Four octets to be sent. -/
def fourOctets : Ipv4QueueDiscItem := { payload := [1, 2, 3, 4] }

/-- A packet is peeked at while the device is stopped, and a second one is enqueued. -/
def peekedWhileStopped : List (Call Ipv4QueueDiscItem Bool) :=
  [.enqueue 0 fourOctets, .run 0, .device fun _ => true, .enqueue 1 fourOctets, .peek 1, .run 2]

theorem transparent_iff_stopped :
    ∃ r r', peekedWhileStopped.foldlM (step (singleQueue withinLimit) oneTxQueue)
        (overQueue ⟨.packets, 10⟩ 64 false) = some r ∧
      (withoutPeeks peekedWhileStopped).foldlM (step (singleQueue withinLimit) oneTxQueue)
        (overQueue ⟨.packets, 10⟩ 64 false) = some r' ∧
      (Transparent peekedWhileStopped r r' ↔
        AllClear withinLimit oneTxQueue (overQueue ⟨.packets, 10⟩ 64 false) peekedWhileStopped) :=
  transparent_iff withinLimit oneTxQueue ⟨.packets, 10⟩ 64 false peekedWhileStopped
    (by simp [peekedWhileStopped, Considered, fourOctets])

/-- The packet peeked at may go. -/
def peekedBeforeRun : List (Call Ipv4QueueDiscItem Bool) := [.enqueue 0 fourOctets, .peek 0, .run 0]

theorem not_transparent_peek :
    ∃ r r', peekedBeforeRun.foldlM (step (singleQueue withinLimit) oneTxQueue)
        (overQueue ⟨.packets, 10⟩ 64 false) = some r ∧
      (withoutPeeks peekedBeforeRun).foldlM (step (singleQueue withinLimit) oneTxQueue)
        (overQueue ⟨.packets, 10⟩ 64 false) = some r' ∧
      r.sent.map (·.m_headerAdded) = [false] ∧ r'.sent.map (·.m_headerAdded) = [true] ∧
      ¬ Transparent peekedBeforeRun r r' := by
  refine ⟨_, _, rfl, rfl, rfl, rfl, fun h => ?_⟩
  exact absurd (congrArg (List.map (·.m_headerAdded)) h.same) (by decide)

end Calls

end Ns3.TrafficControl
