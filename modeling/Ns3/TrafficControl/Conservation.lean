import Ns3.Internet.Ipv4QueueDiscItem
import Ns3.TrafficControl.Fifo

/-!
# What a queue disc conserves

The calls of a root queue disc, one after the other: each leaves the counters in balance, with nothing in
hand, and a packet waits in the slot as peeked only if there is one. From this the equations between the
counters and the packets, and exactly when they hold.
-/

namespace Ns3.TrafficControl

open Ns3.Lib Ns3.Network QueueDiscItem QueueDisc

variable {σ Item δ : Type} [QueueDiscItem Item]

namespace Discipline

variable (D : Discipline σ Item) {d d' : QueueDisc σ Item} {left : Multiset Item} {now : Time}

theorem enqueue_balanced {item : Item} {ok : Bool} (h : D.enqueue now item d = some (ok, d'))
    (hb : Balanced D.held ⟨0, 0⟩ d left) : Balanced D.held ⟨0, 0⟩ d' left ∧ SameSlot d d' := by
  have hacts := D.enqueue_acts h
  have hfresh : Balanced D.held ⟨{setTimeStamp now item}, 0⟩ (d.countReceived item) left :=
    (Booked.countReceived hb item).congr (by simp [places]) rfl rfl rfl
  exact ⟨hacts.balanced hfresh, hacts.sameSlot.requeued, hacts.sameSlot.peeked⟩

/-- A packet taken from the slot is in hand. -/
theorem release_balanced {item : Item} (h : d.m_requeued = some item)
    (hb : Balanced D.held ⟨0, 0⟩ d left) :
    Balanced D.held ⟨0, {item}⟩ (d.release item) left ∧
      (d.release item).m_requeued = none ∧ (d.release item).m_peeked = false := by
  have hslot : d.slot = {item} := by rw [slot, h, single_some]
  rw [QueueDisc.release]
  by_cases hpeek : d.m_peeked = true
  · rw [if_pos (by exact hpeek)]
    rw [balanced_peeked hpeek, hslot, Multiset.zero_add, ← Multiset.cons_zero, Multiset.add_cons] at hb
    have hnew := (hb.of_same rfl rfl rfl rfl :
      ({ d with m_requeued := none, m_peeked := false } : QueueDisc σ Item).Booked _).packetDequeued rfl
    have hsame := SameSlot.packetDequeued
      ({ d with m_requeued := none, m_peeked := false } : QueueDisc σ Item) item
    refine ⟨?_, hsame.requeued, hsame.peeked⟩
    rw [balanced_counted hsame.peeked, slot, hsame.requeued, packetDequeued_inner]
    exact hnew.congr rfl (by simp) (by simp) rfl
  · have hcounted : d.m_peeked = false := Bool.eq_false_iff.mpr hpeek
    rw [if_neg (by exact hpeek)]
    rw [balanced_counted hcounted, hslot] at hb
    refine ⟨?_, rfl, hcounted⟩
    refine (balanced_counted (by exact hcounted)).mpr ?_
    exact hb.moved (by simp [slot]) rfl rfl rfl rfl

/-- What `Dequeue` returns is in hand; it leaves the slot empty. -/
theorem dequeue_balanced {item : Option Item} (h : D.dequeue now d = some (item, d'))
    (hb : Balanced D.held ⟨0, 0⟩ d left) : Balanced D.held ⟨0, single item⟩ d' left := by
  rw [Methods.dequeue] at h
  split at h
  · next i hslot =>
    obtain ⟨rfl, rfl⟩ := Prod.mk.inj (Option.some.inj h)
    exact (D.release_balanced hslot hb).1
  · exact (D.dequeue_acts h).balanced hb

theorem dequeue_slot {item : Option Item} (h : D.dequeue now d = some (item, d')) :
    d'.m_requeued = none ∧ (d.m_requeued = none → d'.m_peeked = d.m_peeked) ∧
      (d.Rest → d'.m_peeked = false) := by
  rw [Methods.dequeue] at h
  split at h
  · next i hslot =>
    obtain ⟨rfl, rfl⟩ := Prod.mk.inj (Option.some.inj h)
    rw [QueueDisc.release]
    split
    · have hsame := SameSlot.packetDequeued
        ({ d with m_requeued := none, m_peeked := false } : QueueDisc σ Item) i
      exact ⟨hsame.requeued, fun hnone => absurd (hslot.symm.trans hnone) (by simp), fun _ => hsame.peeked⟩
    · next hpeek => exact ⟨rfl, fun _ => rfl, fun _ => Bool.eq_false_iff.mpr hpeek⟩
  · next hslot =>
    have hsame := (D.dequeue_acts h).sameSlot
    exact ⟨hsame.requeued.trans hslot, fun _ => hsame.peeked, fun hrest => hsame.peeked.trans (hrest hslot)⟩

/-- A packet that is parked counts as stored. -/
theorem park_balanced {item : Option Item} (h : D.park now d = some (item, d')) (hslot : d.m_requeued = none)
    (hb : Balanced D.held ⟨0, 0⟩ d left) : Balanced D.held ⟨0, 0⟩ d' left ∧ d'.Rest := by
  obtain ⟨⟨i, d₁⟩, hdeq, heq⟩ := Option.bind_eq_some_iff.mp h
  obtain ⟨rfl, rfl⟩ := Prod.mk.inj (Option.some.inj heq)
  have hpeeking : Balanced D.held ⟨0, 0⟩ ({ d with m_peeked := true } : QueueDisc σ Item) left :=
    hb.moved (by simp [places, slot, hslot]) rfl rfl rfl rfl
  have hhand := D.dequeue_balanced hdeq hpeeking
  obtain ⟨hnone, hflag, -⟩ := D.dequeue_slot hdeq
  have hflag := hflag hslot
  rw [balanced_peeked hflag] at hhand
  cases i with
  | none =>
    refine ⟨?_, fun _ => rfl⟩
    rw [balanced_counted (by rfl)]
    exact hhand.moved (by simp [slot, hnone]) rfl rfl rfl rfl
  | some i =>
    refine ⟨?_, fun h => absurd h (by simp)⟩
    rw [balanced_peeked (by exact hflag)]
    exact hhand.moved (by simp [slot, hnone]) rfl rfl rfl rfl

theorem peek_balanced {item : Option Item} (h : D.peek now d = some (item, d')) (hrest : d.Rest)
    (hb : Balanced D.held ⟨0, 0⟩ d left) : Balanced D.held ⟨0, 0⟩ d' left ∧ d'.Rest := by
  rw [Methods.peek] at h
  split at h
  · next hown =>
    have hacts := D.peek_acts hown h
    exact ⟨hacts.balanced hb,
      fun hnone => hacts.sameSlot.peeked.trans (hrest (hacts.sameSlot.requeued.symm.trans hnone))⟩
  · split at h
    · obtain ⟨rfl, rfl⟩ := Prod.mk.inj (Option.some.inj h)
      exact ⟨hb, hrest⟩
    · next hslot => exact D.park_balanced h hslot hb

/-- What `DequeuePacket` returns is in hand, with the slot empty and nothing peeked. -/
theorem dequeuePacket_balanced {dev : NetDevice δ Item} {device : δ} {item : Option Item}
    (h : Root.dequeuePacket D.toMethods dev now device d = some (item, d')) (hrest : d.Rest)
    (hb : Balanced D.held ⟨0, 0⟩ d left) :
    Balanced D.held ⟨0, single item⟩ d' left ∧ d'.Rest ∧
      (item.isSome → d'.m_requeued = none ∧ d'.m_peeked = false) := by
  rw [Root.dequeuePacket] at h
  split at h
  · next i hslot =>
    split at h
    · obtain ⟨rfl, rfl⟩ := Prod.mk.inj (Option.some.inj h)
      exact ⟨hb, hrest, by simp⟩
    · obtain ⟨rfl, rfl⟩ := Prod.mk.inj (Option.some.inj h)
      obtain ⟨hbal, hnone, hflag⟩ := D.release_balanced hslot hb
      exact ⟨hbal, fun _ => hflag, fun _ => ⟨hnone, hflag⟩⟩
  · split at h
    · obtain ⟨⟨i, d₁⟩, hdeq, heq⟩ := Option.bind_eq_some_iff.mp h
      obtain ⟨hnone, -, hflag⟩ := D.dequeue_slot hdeq
      have hhand := D.dequeue_balanced hdeq hb
      cases i with
      | none =>
        obtain ⟨rfl, rfl⟩ := Prod.mk.inj (Option.some.inj heq)
        exact ⟨hhand, fun _ => hflag hrest, fun _ => ⟨hnone, hflag hrest⟩⟩
      | some i =>
        obtain ⟨i', hheader, heq⟩ := Option.bind_eq_some_iff.mp heq
        obtain ⟨rfl, rfl⟩ := Prod.mk.inj (Option.some.inj heq)
        refine ⟨?_, fun _ => hflag hrest, fun _ => ⟨hnone, hflag hrest⟩⟩
        rw [balanced_counted (hflag hrest)] at hhand ⊢
        exact hhand.congr rfl rfl (by simp [getSize_addHeader _ _ hheader]) rfl
    · obtain ⟨rfl, rfl⟩ := Prod.mk.inj (Option.some.inj h)
      exact ⟨hb, hrest, by simp⟩

end Discipline

namespace Root

variable (D : Discipline σ Item) (dev : NetDevice δ Item) {r r' : Root σ Item δ} {now : Time}

/-- The packets that left the queue disc. -/
def gone (r : Root σ Item δ) : Multiset Item := (r.sent : Multiset Item) + r.returned

/-- Between two calls: the counters balance and nothing is in hand. -/
structure Sound (r : Root σ Item δ) : Prop where
  balanced : Balanced D.held ⟨0, 0⟩ r.disc r.gone
  rest : r.disc.Rest

variable {D}

/-- A packet that leaves was in hand, and counted. -/
theorem leave_balanced {d : QueueDisc σ Item} {item : Item} {left : Multiset Item}
    (h : Balanced D.held ⟨0, {item}⟩ d left) (hflag : d.m_peeked = false) :
    Balanced D.held ⟨0, 0⟩ d (item ::ₘ left) := by
  rw [balanced_counted hflag] at h ⊢
  have hnew : d.Booked ⟨0, D.held d.inner, item ::ₘ (0 + d.slot), left⟩ := h.moved (by simp) rfl rfl rfl rfl
  exact hnew.leave

theorem transmit_sound {item : Item} (hb : Balanced D.held ⟨0, {item}⟩ r.disc r.gone)
    (hslot : r.disc.m_requeued = none) (hflag : r.disc.m_peeked = false) :
    Sound D (transmit dev item r).2 := by
  rw [transmit]
  split
  · refine ⟨?_, fun h => absurd h (by simp [requeue, fire])⟩
    rw [balanced_counted hflag] at hb
    refine (balanced_counted (by exact hflag)).mpr ?_
    exact hb.moved (by simp [slot, hslot, requeue, fire, gone]) rfl rfl rfl rfl
  · refine ⟨?_, fun _ => hflag⟩
    have hleft := leave_balanced hb hflag
    have hgone : (r.gone.cons item) = ((r.sent ++ [item] : List Item) : Multiset Item) + r.returned := by
      rw [gone, ← Multiset.cons_add]
      exact congrArg (· + _) (Multiset.coe_eq_coe.mpr (List.perm_append_singleton item _).symm)
    rw [hgone] at hleft
    exact hleft

theorem restart_sound {again : Bool} (h : restart D.toMethods dev now r = some (again, r'))
    (hs : Sound D r) : Sound D r' := by
  obtain ⟨⟨item, d⟩, hdeq, heq⟩ := Option.bind_eq_some_iff.mp h
  obtain ⟨hbal, hrest, hempty⟩ := D.dequeuePacket_balanced hdeq hs.rest hs.balanced
  cases item with
  | none =>
    obtain ⟨rfl, rfl⟩ := Prod.mk.inj (Option.some.inj heq)
    exact ⟨hbal, hrest⟩
  | some item =>
    obtain ⟨hnone, hflag⟩ := hempty rfl
    have hout : (transmit dev item { r with disc := d }).2 = r' := congrArg Prod.snd (Option.some.inj heq)
    rw [← hout]
    exact transmit_sound dev hbal hnone hflag

theorem runLoop_sound {n : Nat} (h : runLoop D.toMethods dev now n r = some r') (hs : Sound D r) :
    Sound D r' := by
  induction n generalizing r with
  | zero =>
    obtain rfl := Option.some.inj h
    exact hs
  | succ n ih =>
    obtain ⟨⟨again, r₁⟩, hrestart, heq⟩ := Option.bind_eq_some_iff.mp h
    have hs₁ := restart_sound dev hrestart hs
    cases again with
    | false =>
      obtain rfl := Option.some.inj heq
      exact hs₁
    | true => exact ih heq hs₁

/-- The flag `m_running` and the quota play no part. -/
theorem Sound.of_same {d : QueueDisc σ Item} (hs : Sound D r)
    (hbooks : d.packets = r.disc.packets ∧ d.bytes = r.disc.bytes ∧ d.m_nPackets = r.disc.m_nPackets ∧
      d.m_nBytes = r.disc.m_nBytes)
    (hslot : d.m_requeued = r.disc.m_requeued ∧ d.m_peeked = r.disc.m_peeked ∧ d.inner = r.disc.inner) :
    Sound D { r with disc := d } where
  balanced := by
    refine Booked.moved hs.balanced ?_ hbooks.1 hbooks.2.1 hbooks.2.2.1 hbooks.2.2.2
    simp only [places, slot, hslot.1, hslot.2.1, hslot.2.2]
    rfl
  rest := fun h => hslot.2.1.trans (hs.rest (hslot.1.symm.trans h))

theorem run_sound (h : run D.toMethods dev now r = some r') (hs : Sound D r) : Sound D r' := by
  rw [run] at h
  split at h
  · obtain rfl := Option.some.inj h
    exact hs
  · obtain ⟨r₁, hloop, heq⟩ := Option.bind_eq_some_iff.mp h
    obtain rfl := Option.some.inj heq
    have hs₁ := runLoop_sound dev hloop (hs.of_same ⟨rfl, rfl, rfl, rfl⟩ ⟨rfl, rfl, rfl⟩)
    exact hs₁.of_same ⟨rfl, rfl, rfl, rfl⟩ ⟨rfl, rfl, rfl⟩

/-- Every call keeps the counters in balance. -/
theorem step_sound {call : Call Item δ} (h : step D.toMethods dev r call = some r') (hs : Sound D r) :
    Sound D r' := by
  cases call with
  | enqueue now item =>
    obtain ⟨⟨ok, d⟩, henq, heq⟩ := Option.bind_eq_some_iff.mp h
    obtain rfl := Option.some.inj heq
    obtain ⟨hb, hsame⟩ := D.enqueue_balanced henq hs.balanced
    exact ⟨hb, fun hnone => hsame.peeked.trans (hs.rest (hsame.requeued.symm.trans hnone))⟩
  | peek now =>
    obtain ⟨⟨item, d⟩, hpeek, heq⟩ := Option.bind_eq_some_iff.mp h
    obtain rfl := Option.some.inj heq
    obtain ⟨hb, hrest⟩ := D.peek_balanced hpeek hs.rest hs.balanced
    exact ⟨hb, hrest⟩
  | dequeue now =>
    obtain ⟨⟨item, d⟩, hdeq, heq⟩ := Option.bind_eq_some_iff.mp h
    obtain rfl := Option.some.inj heq
    obtain ⟨-, -, hflag⟩ := D.dequeue_slot hdeq
    have hb := D.dequeue_balanced hdeq hs.balanced
    refine ⟨?_, fun _ => hflag hs.rest⟩
    cases item with
    | none =>
      show Balanced D.held ⟨0, 0⟩ d ((r.sent : Multiset Item) + (r.returned ++ [] : List Item))
      rw [List.append_nil]
      exact hb
    | some item =>
      have hleft := leave_balanced hb (hflag hs.rest)
      have hgone : r.gone.cons item = (r.sent : Multiset Item) + (r.returned ++ [item] : List Item) := by
        rw [gone, ← Multiset.add_cons]
        exact congrArg (_ + ·) (Multiset.coe_eq_coe.mpr (List.perm_append_singleton item _).symm)
      rw [hgone] at hleft
      exact hleft
  | run now => exact run_sound dev h hs
  | device change =>
    obtain rfl := Option.some.inj h
    exact ⟨hs.balanced, hs.rest⟩

/-- The bytes of some packets. -/
def totalBytes (s : Multiset Item) : Nat := (s.map fun i => (getSize i).toNat).sum

@[simp] theorem totalBytes_cons (i : Item) (s : Multiset Item) :
    totalBytes (i ::ₘ s) = (getSize i).toNat + totalBytes s := by
  rw [totalBytes, Multiset.map_cons, Multiset.sum_cons]
  rfl

omit [QueueDiscItem Item] in
theorem weigh_one_eq (s : Multiset Item) : weigh one s = UInt32.ofNat s.card := by
  induction s using Multiset.induction_on with
  | empty => rfl
  | cons i s ih =>
    rw [weigh_cons, ih, Multiset.card_cons, UInt32.ofNat_add]
    exact add_comm _ _

theorem weigh_getSize_eq (s : Multiset Item) : weigh getSize s = UInt32.ofNat (totalBytes s) := by
  induction s using Multiset.induction_on with
  | empty => rfl
  | cons i s ih => rw [weigh_cons, ih, totalBytes_cons, UInt32.ofNat_add, UInt32.ofNat_toNat]

theorem bytesOf_eq (i : Item) : bytesOf i = UInt64.ofNat (getSize i).toNat := by
  apply UInt64.toNat_inj.mp
  rw [bytesOf, UInt32.toNat_toUInt64, UInt64.toNat_ofNat']
  have hlt := (getSize i).toNat_lt
  omega

theorem weigh_bytesOf_eq (s : Multiset Item) : weigh bytesOf s = UInt64.ofNat (totalBytes s) := by
  induction s using Multiset.induction_on with
  | empty => rfl
  | cons i s ih => rw [weigh_cons, ih, totalBytes_cons, UInt64.ofNat_add, bytesOf_eq]

/-- The equations between the counters and the packets, which are counted without bound. -/
structure Conserved (held : σ → Multiset Item) (r : Root σ Item δ) : Prop where
  received : r.disc.m_stats.nTotalReceivedPackets =
    r.disc.m_stats.nTotalEnqueuedPackets + r.disc.m_stats.nTotalDroppedPacketsBeforeEnqueue
  receivedBytes : r.disc.m_stats.nTotalReceivedBytes =
    r.disc.m_stats.nTotalEnqueuedBytes + r.disc.m_stats.nTotalDroppedBytesBeforeEnqueue
  queued : r.disc.m_nPackets =
    r.disc.m_stats.nTotalEnqueuedPackets - r.disc.m_stats.nTotalDequeuedPackets
  queuedBytes : r.disc.m_nBytes.toUInt64 =
    r.disc.m_stats.nTotalEnqueuedBytes - r.disc.m_stats.nTotalDequeuedBytes
  holds : r.disc.m_nPackets.toNat = (r.disc.contents held).card
  holdsBytes : r.disc.m_nBytes.toNat = totalBytes (r.disc.contents held)
  sent : r.disc.getStats.m_stats.nTotalSentPackets.toNat = r.gone.card
  sentBytes : r.disc.getStats.m_stats.nTotalSentBytes.toNat = totalBytes r.gone

/-- No peeked packet waits in the slot, and the counters have room for what they count. -/
structure Plain (held : σ → Multiset Item) (r : Root σ Item δ) : Prop where
  notPeeked : r.disc.m_peeked = false
  packets : (r.disc.contents held).card < 2 ^ 32
  bytes : totalBytes (r.disc.contents held) < 2 ^ 32
  sent : r.gone.card < 2 ^ 32
  sentBytes : totalBytes r.gone < 2 ^ 64

omit [QueueDiscItem Item] in
theorem places_stored {held : σ → Multiset Item} {d : QueueDisc σ Item} {left : Multiset Item} :
    (places held ⟨0, 0⟩ d left).stored = d.contents held := by
  simp [places, contents]

/-- `GetStats` takes the packet in the slot from those dequeued, whether it was counted among them or
not. -/
theorem sentPackets_eq (hs : Sound D r) : r.disc.getStats.m_stats.nTotalSentPackets =
    if r.disc.m_peeked then weigh one r.gone - weigh one r.disc.slot else weigh one r.gone := by
  have hsent : r.disc.m_stats.nTotalDequeuedPackets = _ := hs.balanced.packets.sent
  have hslot : (if r.disc.m_requeued.isSome then 1 else 0) = weigh one r.disc.slot := by
    rw [slot]
    cases r.disc.m_requeued <;> rfl
  show r.disc.m_stats.nTotalDequeuedPackets - (if r.disc.m_requeued.isSome then 1 else 0)
    - r.disc.m_stats.nTotalDroppedPacketsAfterDequeue = _
  rw [hsent, hslot]
  show r.disc.m_stats.nTotalDroppedPacketsAfterDequeue + _ + _ - _ - _ = _
  cases hpeek : r.disc.m_peeked <;> simp only [places, hpeek, if_true, zero_add, weigh_zero] <;>
    simp <;> abel

theorem sentBytes_eq (hs : Sound D r) : r.disc.getStats.m_stats.nTotalSentBytes =
    if r.disc.m_peeked then weigh bytesOf r.gone - weigh bytesOf r.disc.slot else weigh bytesOf r.gone := by
  have hsent : r.disc.m_stats.nTotalDequeuedBytes = _ := hs.balanced.bytes.sent
  have hslot : r.disc.m_requeued.elim 0 bytesOf = weigh bytesOf r.disc.slot := by
    rw [slot]
    cases r.disc.m_requeued with
    | none => rfl
    | some i => simp [weigh]
  show r.disc.m_stats.nTotalDequeuedBytes - r.disc.m_requeued.elim 0 bytesOf
    - r.disc.m_stats.nTotalDroppedBytesAfterDequeue = _
  rw [hsent, hslot]
  show r.disc.m_stats.nTotalDroppedBytesAfterDequeue + _ + _ - _ - _ = _
  cases hpeek : r.disc.m_peeked <;> simp only [places, hpeek, if_true, zero_add, weigh_zero] <;>
    simp <;> abel

theorem Sound.conserved (hs : Sound D r) (hp : Plain D.held r) : Conserved D.held r where
  received := by
    have h := hs.balanced.packets.received
    rw [show (places D.held ⟨0, 0⟩ r.disc r.gone).fresh = 0 from rfl, weigh_zero, add_zero] at h
    exact h
  receivedBytes := by
    have h := hs.balanced.bytes.received
    rw [show (places D.held ⟨0, 0⟩ r.disc r.gone).fresh = 0 from rfl, weigh_zero, add_zero] at h
    exact h
  queued := hs.balanced.nPackets.trans hs.balanced.packets.queued.symm
  queuedBytes := by
    have h : _ = weigh bytesOf _ := hs.balanced.bytes.queued
    have hbytes := hs.balanced.nBytes
    rw [places_stored] at h hbytes
    rw [weigh_bytesOf_eq] at h
    rw [weigh_getSize_eq] at hbytes
    refine Eq.trans ?_ h.symm
    rw [hbytes]
    apply UInt64.toNat_inj.mp
    have hfit := hp.bytes
    rw [UInt32.toNat_toUInt64, UInt32.toNat_ofNat', UInt64.toNat_ofNat']
    omega
  holds := by
    have h := hs.balanced.nPackets
    rw [places_stored, weigh_one_eq] at h
    rw [h, UInt32.toNat_ofNat', Nat.mod_eq_of_lt hp.packets]
  holdsBytes := by
    have h := hs.balanced.nBytes
    rw [places_stored, weigh_getSize_eq] at h
    rw [h, UInt32.toNat_ofNat', Nat.mod_eq_of_lt hp.bytes]
  sent := by
    rw [sentPackets_eq hs, hp.notPeeked, weigh_one_eq]
    exact (UInt32.toNat_ofNat' ..).trans (Nat.mod_eq_of_lt hp.sent)
  sentBytes := by
    rw [sentBytes_eq hs, hp.notPeeked, weigh_bytesOf_eq]
    exact (UInt64.toNat_ofNat' ..).trans (Nat.mod_eq_of_lt hp.sentBytes)

theorem Sound.plain (hs : Sound D r) (hc : Conserved D.held r) : Plain D.held r where
  notPeeked := by
    rw [Bool.eq_false_iff]
    intro hpeek
    -- the packet in the slot is taken from a total that it is not in
    obtain ⟨i, hi⟩ := Option.ne_none_iff_exists'.mp fun hnone =>
      Bool.false_ne_true ((hs.rest hnone).symm.trans hpeek)
    have hsent := sentPackets_eq hs
    rw [hpeek, if_pos rfl, weigh_one_eq, ← hc.sent, UInt32.ofNat_toNat, slot, hi, single_some] at hsent
    have hone : weigh one ({i} : Multiset Item) = 0 := sub_eq_self.mp hsent.symm
    rw [weigh_one_eq] at hone
    exact absurd hone (by simp)
  packets := hc.holds ▸ r.disc.m_nPackets.toNat_lt
  bytes := hc.holdsBytes ▸ r.disc.m_nBytes.toNat_lt
  sent := hc.sent ▸ UInt32.toNat_lt _
  sentBytes := hc.sentBytes ▸ UInt64.toNat_lt _

/-- A root queue disc before its first packet. -/
def start (D : Discipline σ Item) (quota : UInt32) (device : δ) : Root σ Item δ where
  disc := { m_quota := quota, inner := D.start }
  device := device

theorem start_sound (quota : UInt32) (device : δ) : Sound D (start D quota device) where
  balanced := by
    have hplaces : places D.held ⟨0, 0⟩ (start D quota device).disc (start D quota device).gone = ⟨0, 0, 0, 0⟩ := by
      simp [places, start, gone, slot, D.held_start]
    rw [QueueDisc.Balanced, hplaces]
    exact ⟨.empty, .empty, rfl, rfl⟩
  rest _ := rfl

theorem runs_sound {calls : List (Call Item δ)} (h : calls.foldlM (step D.toMethods dev) r = some r')
    (hs : Sound D r) : Sound D r' := by
  induction calls generalizing r with
  | nil =>
    obtain rfl := Option.some.inj h
    exact hs
  | cons call calls ih =>
    obtain ⟨r₁, hstep, hrest⟩ := Option.bind_eq_some_iff.mp h
    exact ih hrest (step_sound dev hstep hs)

/-- After any calls the equations hold exactly if no peeked packet waits in the slot and the counters have
room. -/
theorem conserved_iff (D : Discipline σ Item) (dev : NetDevice δ Item) (quota : UInt32) (device : δ)
    (calls : List (Call Item δ)) (r : Root σ Item δ)
    (h : calls.foldlM (step D.toMethods dev) (start D quota device) = some r) :
    Conserved D.held r ↔ Plain D.held r := by
  have hs := runs_sound dev h (start_sound quota device)
  exact ⟨hs.plain, hs.conserved⟩

/-- A datagram of 28 bytes. -/
def datagram : Internet.Ipv4QueueDiscItem := { payload := List.replicate 8 0 }

/-- A device without a queue interface. -/
def plainDevice : NetDevice Unit Internet.Ipv4QueueDiscItem := ⟨none, fun _ _ => false, fun _ d => d⟩

/-- A queue disc over one queue for a thousand packets, which peeks as the base class does. -/
def thousand : Discipline (Queue Internet.Ipv4QueueDiscItem) Internet.Ipv4QueueDiscItem :=
  singleQueueDiscipline withinLimit ⟨.packets, 1000⟩

/-- Two packets, of which a quota of one lets the first go. -/
def oneOfTwo : List (Call Internet.Ipv4QueueDiscItem Unit) :=
  [.enqueue 0 datagram, .enqueue 5 datagram, .run 9]

theorem conserved_iff_run :
    ∃ r, oneOfTwo.foldlM (step thousand.toMethods plainDevice) (start thousand 1 ()) = some r ∧
      r.sent.length = 1 ∧ r.disc.m_nBytes = 28 ∧ (Conserved thousand.held r ↔ Plain thousand.held r) :=
  ⟨_, rfl, rfl, rfl, conserved_iff thousand plainDevice 1 () oneOfTwo _ rfl⟩

theorem not_conserved_peek :
    ∃ r, [Call.enqueue 0 datagram, .peek 0].foldlM (step thousand.toMethods plainDevice)
        (start thousand 64 ()) = some r ∧ r.gone = 0 ∧
      r.disc.getStats.m_stats.nTotalSentPackets = 4294967295 ∧ ¬ Conserved thousand.held r := by
  refine ⟨_, rfl, rfl, rfl, fun h => ?_⟩
  exact absurd h.sent (by decide)

end Root

end Ns3.TrafficControl
