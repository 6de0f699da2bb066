import Ns3.TrafficControl.FqCoDelQueueDisc

/-!
# What FQ-CoDel does to the queues of its flows

Choosing a flow changes lists, statuses and deficits only. A turn of `DoDequeue` calls `Dequeue` of one
flow's queue disc, and `DoEnqueue` calls `Enqueue` of one and, when there are too many packets, takes packets
from the front of another.
-/

namespace Ns3.TrafficControl

open Ns3.Lib Ns3.Network QueueDiscItem QueueDisc

variable {Item : Type} [QueueDiscItem Item]

namespace FqCoDel

/-- The packets that wait in the queue of a flow. -/
def packetsAt (s : FqCoDel Item) (k : Nat) : List Item :=
  s.flows[k]?.elim [] fun flow => flow.queueDisc.inner.queue.m_packets

/-- The flow that an item is enqueued to, if there is one yet. -/
def flowOf (C : Classifier Item) (i : Item) (s : FqCoDel Item) : Option Nat := do
  let flowHash ← C.flowHash i
  let q ← s.queueIndex flowHash
  s.m_flowsIndices.lookup q

/-- Lists, statuses and deficits may have changed, but nothing else. -/
structure SameQueues (s s' : FqCoDel Item) : Prop where
  config : s' = { s with flows := s'.flows, m_newFlows := s'.m_newFlows, m_oldFlows := s'.m_oldFlows }
  queues : s'.flows.map FqCoDelFlow.queueDisc = s.flows.map FqCoDelFlow.queueDisc

section Flows

variable {s s' s'' : FqCoDel Item} {k : Nat} {found : Option Nat}

theorem SameQueues.refl (s : FqCoDel Item) : SameQueues s s := ⟨rfl, rfl⟩

theorem SameQueues.trans (h : SameQueues s s') (h' : SameQueues s' s'') : SameQueues s s'' where
  config := by
    rw [h'.config, h.config]
  queues := h'.queues.trans h.queues

theorem map_modify_queueDisc {f : FqCoDelFlow Item → FqCoDelFlow Item} (hf : ∀ flow, (f flow).queueDisc = flow.queueDisc)
    (flows : List (FqCoDelFlow Item)) (k : Nat) :
    (flows.modify k f).map FqCoDelFlow.queueDisc = flows.map FqCoDelFlow.queueDisc := by
  apply List.ext_getElem?
  intro j
  rw [List.getElem?_map, List.getElem?_modify, List.getElem?_map]
  cases flows[j]? with
  | none => rfl
  | some flow =>
    show some _ = some _
    split
    · rw [hf]
    · rfl

/-- A change of the lists and of one flow's status and deficit. -/
theorem sameQueues_updateFlow (f : FqCoDelFlow Item → FqCoDelFlow Item) (hf : ∀ flow, (f flow).queueDisc = flow.queueDisc)
    (s : FqCoDel Item) (k : Nat) (newFlows oldFlows : List Nat) :
    SameQueues s { s.updateFlow k f with m_newFlows := newFlows, m_oldFlows := oldFlows } :=
  ⟨rfl, map_modify_queueDisc hf s.flows k⟩

theorem nextNew_same {newFlows : List Nat} (h : nextNew newFlows s = some (found, s')) : SameQueues s s' := by
  induction newFlows generalizing s with
  | nil =>
    cases h
    exact ⟨rfl, rfl⟩
  | cons k newFlows ih =>
    rw [nextNew] at h
    split at h
    · cases h
    · split at h
      · refine SameQueues.trans ?_ (ih h)
        exact sameQueues_updateFlow (fun flow => (flow.increaseDeficit s.m_quantum).setStatus .oldFlow)
          (fun _ => rfl) s k _ _
      · cases h
        exact ⟨rfl, rfl⟩

theorem oldTurn_again (h : oldTurn s = .again s') : SameQueues s s' := by
  rw [oldTurn] at h
  split at h
  · cases h
  · split at h
    · cases h
    · split at h
      · obtain rfl := Turn.again.inj h
        exact sameQueues_updateFlow (fun flow => flow.increaseDeficit s.m_quantum) (fun _ => rfl) s _ _ _
      · cases h

theorem oldTurn_leave (h : oldTurn s = .leave (some (found, s'))) : s' = s := by
  rw [oldTurn] at h
  split at h
  · cases h
    rfl
  · split at h
    · cases h
    · split at h
      · cases h
      · cases h
        rfl

theorem nextFlow_same (h : nextFlow s = some (found, s')) : SameQueues s s' := by
  rw [nextFlow] at h
  split at h
  · cases h
  · next hnew =>
    cases h
    exact nextNew_same hnew
  · next s₁ hnew =>
    refine (nextNew_same hnew).trans ?_
    refine turns_of_invariant (I := SameQueues s₁) (J := fun r => ∀ found t, r = some (found, t) → SameQueues s₁ t)
      ?_ ?_ (.refl s₁) (Option.join_eq_some_iff.mp h) found s' rfl
    · intro t t' ht hturn
      exact ht.trans (oldTurn_again hturn)
    · rintro t result ht hturn found t' rfl
      rw [oldTurn_leave hturn]
      exact ht

theorem SameQueues.packetsAt (h : SameQueues s s') (j : Nat) : s'.packetsAt j = s.packetsAt j := by
  have hmap : ∀ t : FqCoDel Item, t.packetsAt j =
      (t.flows.map FqCoDelFlow.queueDisc)[j]?.elim [] fun c => c.inner.queue.m_packets := by
    intro t
    rw [FqCoDel.packetsAt, List.getElem?_map]
    cases t.flows[j]? <;> rfl
  rw [hmap, hmap, h.queues]

theorem emptied_same (s : FqCoDel Item) (k : Nat) : SameQueues s (s.emptied k) := by
  rw [emptied]
  split
  · exact sameQueues_updateFlow (fun flow => flow.setStatus .oldFlow) (fun _ => rfl) s k _ _
  · exact sameQueues_updateFlow (fun flow => flow.setStatus .inactive) (fun _ => rfl) s k _ _

theorem charge_same (s : FqCoDel Item) (k : Nat) (word : UInt32) :
    SameQueues s (s.updateFlow k fun flow => flow.increaseDeficit word) :=
  sameQueues_updateFlow (fun flow => flow.increaseDeficit word) (fun _ => rfl) s k s.m_newFlows s.m_oldFlows

theorem activate_same (s : FqCoDel Item) (k : Nat) : SameQueues s (s.activate k) := by
  rw [activate]
  split
  · exact sameQueues_updateFlow (fun flow => (flow.setStatus .newFlow).setDeficit s.m_quantum) (fun _ => rfl) s k _ _
  · exact .refl s

variable {now : Time} {d d' : QueueDisc (FqCoDel Item) Item}

/-- The fields of the flow after a call of its queue disc. -/
def withChild (k : Nat) (c : QueueDisc (CoDel Item) Item) (s : FqCoDel Item) : FqCoDel Item :=
  s.updateFlow k fun flow => { flow with queueDisc := { c with traces := [] } }

theorem packetsAt_withChild {flow : FqCoDelFlow Item} (hflow : s.flows[k]? = some flow)
    (c : QueueDisc (CoDel Item) Item) (j : Nat) :
    (s.withChild k c).packetsAt j = if k = j then c.inner.queue.m_packets else s.packetsAt j := by
  rw [packetsAt, packetsAt, withChild, updateFlow, List.getElem?_modify]
  split
  · next hj =>
    subst hj
    rw [hflow]
    rfl
  · cases s.flows[j]? <;> rfl

/-- The next flow's queue disc returns no packet. -/
theorem dequeueTurn_skips {flow : FqCoDelFlow Item} {c : QueueDisc (CoDel Item) Item}
    (hnext : nextFlow d.inner = some (some k, s)) (hflow : s.flows[k]? = some flow)
    (hdeq : CoDel.coDelQueueDisc.dequeue now flow.queueDisc = some (none, c)) :
    ∃ d', dequeueTurn now d = .again d' ∧ d'.inner = (s.withChild k c).emptied k := by
  obtain ⟨d₁, hchild, hinner⟩ := onChild_of_eq (childOf k flow) _ { d with inner := s } hdeq
  refine ⟨{ d₁ with inner := d₁.inner.emptied k }, ?_, congrArg (emptied k) hinner⟩
  rw [dequeueTurn, hnext]
  simp only [hflow, hchild]

/-- It returns one. -/
theorem dequeueTurn_serves {flow : FqCoDelFlow Item} {c : QueueDisc (CoDel Item) Item} {i : Item}
    (hnext : nextFlow d.inner = some (some k, s)) (hflow : s.flows[k]? = some flow)
    (hdeq : CoDel.coDelQueueDisc.dequeue now flow.queueDisc = some (some i, c)) :
    ∃ d', dequeueTurn now d = .leave (some (some i, d')) ∧
      d'.inner = (s.withChild k c).updateFlow k fun flow => flow.increaseDeficit (getSize i * 0xffffffff) := by
  obtain ⟨d₁, hchild, hinner⟩ := onChild_of_eq (childOf k flow) _ { d with inner := s } hdeq
  refine ⟨{ d₁ with inner := d₁.inner.updateFlow k fun flow => flow.increaseDeficit (getSize i * 0xffffffff) }, ?_,
    congrArg (updateFlow k _) hinner⟩
  rw [dequeueTurn, hnext]
  simp only [hflow, hchild]

/-- A turn of `DoDequeue` that goes on has called `Dequeue` of the next flow and got no packet. -/
theorem dequeueTurn_again (h : dequeueTurn now d = .again d') :
    d'.m_requeued = d.m_requeued ∧ ∃ k s flow c, nextFlow d.inner = some (some k, s) ∧ s.flows[k]? = some flow ∧
      CoDel.coDelQueueDisc.dequeue now flow.queueDisc = some (none, c) ∧
      d'.inner = (s.withChild k c).emptied k := by
  rw [dequeueTurn] at h
  split at h
  · cases h
  · cases h
  · next k s hnext =>
    split at h
    · cases h
    · next flow hflow =>
      split at h
      · cases h
      · next d₁ hchild =>
        obtain rfl := Turn.again.inj h
        obtain ⟨c, hdeq, hinner⟩ := onChild_inner hchild
        exact ⟨(onChild_sameSlot hchild).requeued, k, s, flow, c, hnext, hflow, hdeq, congrArg (emptied k) hinner⟩
      · cases h

/-- What a turn of `DoDequeue` that returns has done. -/
theorem dequeueTurn_leave {item : Option Item} (h : dequeueTurn now d = .leave (some (item, d'))) :
    d'.m_requeued = d.m_requeued ∧ (item = none ∧ nextFlow d.inner = some (none, d'.inner) ∨
      ∃ i k s flow c, item = some i ∧ nextFlow d.inner = some (some k, s) ∧ s.flows[k]? = some flow ∧
        CoDel.coDelQueueDisc.dequeue now flow.queueDisc = some (some i, c) ∧
        d'.inner = (s.withChild k c).updateFlow k fun flow => flow.increaseDeficit (getSize i * 0xffffffff)) := by
  rw [dequeueTurn] at h
  split at h
  · cases h
  · next s hnext =>
    cases h
    exact ⟨rfl, .inl ⟨rfl, hnext⟩⟩
  · next k s hnext =>
    split at h
    · cases h
    · next flow hflow =>
      split at h
      · cases h
      · cases h
      · next i d₁ hchild =>
        obtain ⟨c, hdeq, hinner⟩ := onChild_inner hchild
        cases h
        exact ⟨(onChild_sameSlot hchild).requeued, .inr ⟨i, k, s, flow, c, rfl, hnext, hflow, hdeq,
          congrArg (updateFlow k _) hinner⟩⟩

/-- A packet is taken from the front of the queue of a flow, which has one. -/
def Popped (k : Nat) (s s' : FqCoDel Item) : Prop :=
  ∃ flow item c, s.flows[k]? = some flow ∧ flow.queueDisc.dequeueInternal CoDel.internalQueue = (some item, c) ∧
    s' = s.withChild k c

variable {threshold count len : UInt32}

theorem dropTurn_again {t : UInt32 × UInt32 × QueueDisc (FqCoDel Item) Item}
    (h : dropTurn k threshold (count, len, d) = .again t) :
    t.2.2.m_requeued = d.m_requeued ∧ Popped k d.inner t.2.2.inner := by
  rw [dropTurn] at h
  split at h
  · cases h
  · next flow hflow =>
    split at h
    · next item d₁ hchild =>
      obtain ⟨c, hdeq, hinner⟩ := onChild_inner hchild
      simp only at h
      split at h
      · obtain rfl := Turn.again.inj h
        refine ⟨?_, flow, item, c, hflow, Option.some.inj hdeq, ?_⟩
        · exact (SameSlot.dropAfterDequeue d₁ item _).requeued.trans (onChild_sameSlot hchild).requeued
        · rw [dropAfterDequeue_inner, hinner]
          rfl
      · cases h
    · cases h

theorem dropTurn_leave (h : dropTurn k threshold (count, len, d) = .leave (some d')) :
    d'.m_requeued = d.m_requeued ∧ Popped k d.inner d'.inner := by
  rw [dropTurn] at h
  split at h
  · cases h
  · next flow hflow =>
    split at h
    · next item d₁ hchild =>
      obtain ⟨c, hdeq, hinner⟩ := onChild_inner hchild
      simp only at h
      split at h
      · cases h
      · cases h
        refine ⟨?_, flow, item, c, hflow, Option.some.inj hdeq, ?_⟩
        · exact (SameSlot.dropAfterDequeue d₁ item _).requeued.trans (onChild_sameSlot hchild).requeued
        · rw [dropAfterDequeue_inner, hinner]
          rfl
    · cases h

/-- Packets are taken from the front of a queue, and the slot stays as it is. -/
def Drops (k : Nat) (d d' : QueueDisc (FqCoDel Item) Item) : Prop :=
  d'.m_requeued = d.m_requeued ∧ Relation.ReflTransGen (Popped k) d.inner d'.inner

/-- `FqCoDelDrop` takes packets from the front of a queue. -/
theorem fqCoDelDrop_drops (h : fqCoDelDrop d = some d') : ∃ k, Drops k d d' := by
  rw [fqCoDelDrop] at h
  obtain ⟨flow, -, h⟩ := Option.bind_eq_some_iff.mp h
  refine ⟨(fattest d.inner.flows 0 (0, 0)).2, ?_⟩
  refine turns_of_invariant (I := fun t => Drops (fattest d.inner.flows 0 (0, 0)).2 d t.2.2)
    (J := fun r => ∀ d', r = some d' → Drops (fattest d.inner.flows 0 (0, 0)).2 d d')
    ?_ ?_ ⟨rfl, .refl⟩ (Option.join_eq_some_iff.mp h) d' rfl
  · intro t t' ht hturn
    obtain ⟨hslot, hpop⟩ := dropTurn_again hturn
    exact ⟨hslot.trans ht.1, ht.2.tail hpop⟩
  · rintro t result ht hturn d' rfl
    obtain ⟨hslot, hpop⟩ := dropTurn_leave hturn
    exact ⟨hslot.trans ht.1, ht.2.tail hpop⟩

theorem tagged_same (flowHash q : UInt32) (s : FqCoDel Item) :
    s.tagged flowHash q = { s with m_tags := (s.tagged flowHash q).m_tags } := by
  rw [tagged]
  split
  · rfl
  · rfl

/-- What `DoEnqueue` does to the flow chosen. -/
theorem enqueueFlow_eq_some {ok : Bool} {i : Item} (h : enqueueFlow now i k d = some (ok, d')) :
    d'.m_requeued = d.m_requeued ∧ ∃ flow stored c, d.inner.flows[k]? = some flow ∧
      CoDel.coDelQueueDisc.enqueue now i flow.queueDisc = some (stored, c) ∧
      ∃ k', Relation.ReflTransGen (Popped k') (d.inner.withChild k c) d'.inner := by
  rw [enqueueFlow] at h
  obtain ⟨flow, hflow, h⟩ := Option.bind_eq_some_iff.mp h
  obtain ⟨⟨stored, d₁⟩, hchild, h⟩ := Option.bind_eq_some_iff.mp h
  obtain ⟨c, henq, hinner⟩ := onChild_inner hchild
  have hslot := (onChild_sameSlot hchild).requeued
  have hinner : d₁.inner = d.inner.withChild k c := hinner
  simp only at h
  split at h
  · obtain ⟨d₂, hdrop, h⟩ := Option.bind_eq_some_iff.mp h
    cases h
    obtain ⟨k', hslot', hdrops⟩ := fqCoDelDrop_drops hdrop
    exact ⟨hslot'.trans hslot, flow, stored, c, hflow, henq, k', hinner ▸ hdrops⟩
  · cases h
    exact ⟨hslot, flow, stored, c, hflow, henq, 0, hinner ▸ .refl⟩

/-- `DoEnqueue`, which drops a packet that no filter classifies. -/
theorem doEnqueue_eq_some {C : Classifier Item} {ok : Bool} {i : Item} (h : doEnqueue C now i d = some (ok, d')) :
    C.flowHash i = none ∧ d'.inner = d.inner ∧ d'.m_requeued = d.m_requeued ∨
      ∃ flowHash q k s, C.flowHash i = some flowHash ∧ d.inner.queueIndex flowHash = some q ∧
        (d.inner.tagged flowHash q).flowFor q = (k, s) ∧
        enqueueFlow now i k { d with inner := s.activate k } = some (ok, d') := by
  rw [doEnqueue] at h
  split at h
  · next hnone =>
    cases h
    exact .inl ⟨hnone, rfl, rfl⟩
  · next flowHash hhash =>
    obtain ⟨q, hq, h⟩ := Option.bind_eq_some_iff.mp h
    exact .inr ⟨flowHash, q, _, _, hhash, hq, rfl, h⟩

end Flows

end FqCoDel

end Ns3.TrafficControl
