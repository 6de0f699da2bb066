import Ns3.Internet.Ipv4QueueDiscItem
import Ns3.TrafficControl.FqCoDelFlows

/-!
# The order of the packets of a flow

Each queue keeps its order, and packets are lost at its front only. So the packets of a flow hash are dequeued
in the order of their arrival, as long as those that wait are all in one queue. `SetAssociativeHash` may choose
another queue for a flow while its packets wait in the one that it had before.
-/

namespace Ns3.TrafficControl

open Ns3.Lib Ns3.Network QueueDiscItem QueueDisc
open Ns3.Internet (Ipv4QueueDiscItem)

variable {Item : Type} [QueueDiscItem Item]

namespace FqCoDel

/-- No packet waits in the slot of a flow's queue disc. -/
def Calm (s : FqCoDel Item) : Prop := ∀ flow ∈ s.flows, flow.queueDisc.m_requeued = none

/-- Packets may have been taken from the front of the queues. -/
structure Emptier (s s' : FqCoDel Item) : Prop where
  enabled : s'.m_enableSetAssociativeHash = s.m_enableSetAssociativeHash
  nFlows : s'.m_flows = s.m_flows
  indices : s'.m_flowsIndices = s.m_flowsIndices
  packets : ∀ k, s'.packetsAt k <:+ s.packetsAt k
  calm : Calm s → Calm s'

section Emptier

variable {s s' s'' : FqCoDel Item} {k : Nat} {flow : FqCoDelFlow Item} {now : Time}
  {c c' : QueueDisc (CoDel Item) Item} {item : Option Item} {i : Item}
  {d d' : QueueDisc (FqCoDel Item) Item}

theorem Emptier.refl (s : FqCoDel Item) : Emptier s s := ⟨rfl, rfl, rfl, fun _ => List.suffix_refl _, id⟩

theorem Emptier.trans (h : Emptier s s') (h' : Emptier s' s'') : Emptier s s'' where
  enabled := h'.enabled.trans h.enabled
  nFlows := h'.nFlows.trans h.nFlows
  indices := h'.indices.trans h.indices
  packets k := (h'.packets k).trans (h.packets k)
  calm hs := h'.calm (h.calm hs)

theorem SameQueues.emptier (h : SameQueues s s') : Emptier s s' := by
  refine ⟨?_, ?_, ?_, fun k => ?_, fun hcalm flow hflow => ?_⟩
  · rw [h.config]
  · rw [h.config]
  · rw [h.config]
  · rw [h.packetsAt k]
  · have hmem : flow.queueDisc ∈ s'.flows.map FqCoDelFlow.queueDisc := List.mem_map_of_mem hflow
    rw [h.queues] at hmem
    obtain ⟨flow', hflow', heq⟩ := List.mem_map.mp hmem
    rw [← heq]
    exact hcalm flow' hflow'

theorem calm_withChild (hs : Calm s) (hc : c.m_requeued = none) : Calm (s.withChild k c) := by
  intro flow hflow
  obtain ⟨j, hj⟩ := List.mem_iff_getElem?.mp hflow
  have hj : (s.flows.modify k fun flow => { flow with queueDisc := { c with traces := [] } })[j]? = some flow := hj
  rw [List.getElem?_modify] at hj
  obtain ⟨flow', hflow', heq⟩ := Option.map_eq_some_iff.mp hj
  split at heq
  · rw [← heq]
    exact hc
  · rw [← heq]
    exact hs flow' (List.mem_of_getElem? hflow')

/-- A call of a flow's queue disc that takes packets from the front of its queue. -/
theorem Emptier.withChild (hflow : s.flows[k]? = some flow)
    (hpackets : c.inner.queue.m_packets <:+ flow.queueDisc.inner.queue.m_packets)
    (hslot : flow.queueDisc.m_requeued = none → c.m_requeued = none) : Emptier s (s.withChild k c) where
  enabled := rfl
  nFlows := rfl
  indices := rfl
  packets j := by
    rw [packetsAt_withChild hflow]
    split
    · next hj =>
      subst hj
      rw [packetsAt, hflow]
      exact hpackets
    · exact List.suffix_refl _
  calm hs := calm_withChild hs (hslot (hs flow (List.mem_of_getElem? hflow)))

theorem Popped.emptier (h : Popped k s s') : Emptier s s' := by
  obtain ⟨flow, i, c, hflow, hdeq, rfl⟩ := h
  obtain ⟨q, hq, hinner⟩ := dequeueInternal_eq_some hdeq
  have hacts : Acts CoDel.internalQueue.packets (⟨0, 0⟩, _) (⟨0, single (some i) + 0⟩, c) :=
    dequeueInternal_acts hdeq
  have hpackets : flow.queueDisc.inner.queue.m_packets = i :: q.m_packets := (Queue.dequeue_eq_some hq).1
  refine .withChild hflow ⟨[i], ?_⟩ fun hnone => hacts.sameSlot.requeued.trans hnone
  rw [hpackets, hinner]
  rfl

theorem emptier_of_drops (h : Relation.ReflTransGen (Popped k) s s') : Emptier s s' := by
  induction h with
  | refl => exact .refl s
  | tail _ hpop ih => exact ih.trans hpop.emptier

/-- `Dequeue` of a flow's queue disc. -/
theorem child_dequeues (hnone : c.m_requeued = none)
    (h : CoDel.coDelQueueDisc.dequeue now c = some (item, c')) : CoDel.Dequeues c item c' ∧ c'.m_requeued = none := by
  rw [Methods.dequeue, hnone] at h
  have hdeq := CoDel.doDequeue_dequeues h
  exact ⟨hdeq, hdeq.acts.sameSlot.requeued.trans hnone⟩

/-- A packet was taken out, with those in front of it. -/
def Took (i' : Item) (s s' : FqCoDel Item) : Prop :=
  ∃ k i, CoDel.Marked i i' ∧ i :: s'.packetsAt k <:+ s.packetsAt k

theorem dequeueTurn_emptier (hcalm : Calm d.inner) (h : dequeueTurn now d = .again d') :
    d'.m_requeued = d.m_requeued ∧ Emptier d.inner d'.inner := by
  obtain ⟨hslot, k, s, flow, c, hnext, hflow, hdeq, hinner⟩ := dequeueTurn_again h
  have hsame := (nextFlow_same hnext).emptier
  obtain ⟨hdequeues, hnone⟩ := child_dequeues (hsame.calm hcalm flow (List.mem_of_getElem? hflow)) hdeq
  have hchild : Emptier s (s.withChild k c) := by
    refine .withChild hflow ?_ fun _ => hnone
    rw [(hdequeues.idle rfl).2]
  rw [hinner]
  exact ⟨hslot, (hsame.trans hchild).trans (emptied_same _ k).emptier⟩

theorem dequeueTurn_took (hcalm : Calm d.inner) (h : dequeueTurn now d = .leave (some (item, d'))) :
    d'.m_requeued = d.m_requeued ∧ Emptier d.inner d'.inner ∧ ∀ i', item = some i' → Took i' d.inner d'.inner := by
  obtain ⟨hslot, ⟨rfl, hnext⟩ | ⟨j, k, s, flow, c, rfl, hnext, hflow, hdeq, hinner⟩⟩ := dequeueTurn_leave h
  · exact ⟨hslot, (nextFlow_same hnext).emptier, fun _ h => nomatch h⟩
  · have hsame := nextFlow_same hnext
    obtain ⟨hdequeues, hnone⟩ := child_dequeues (hsame.emptier.calm hcalm flow (List.mem_of_getElem? hflow)) hdeq
    obtain ⟨dropped, i, hmarked, hpackets⟩ := hdequeues.order j rfl
    have hsuffix : i :: c.inner.queue.m_packets <:+ flow.queueDisc.inner.queue.m_packets := ⟨dropped, hpackets.symm⟩
    have hcharge : SameQueues (s.withChild k c) d'.inner := by
      rw [hinner]
      exact charge_same _ k _
    have hchild : Emptier s (s.withChild k c) :=
      .withChild hflow ((List.suffix_cons i _).trans hsuffix) fun _ => hnone
    refine ⟨hslot, (hsame.emptier.trans hchild).trans hcharge.emptier, ?_⟩
    rintro i' ⟨⟩
    refine ⟨k, i, hmarked, ?_⟩
    rw [hcharge.packetsAt k, packetsAt_withChild hflow, if_pos rfl, ← hsame.packetsAt k, packetsAt, hflow]
    exact hsuffix

/-- What `DoDequeue` takes from the queues. -/
theorem doDequeue_took (hcalm : Calm d.inner) (h : doDequeue now d = some (item, d')) :
    d'.m_requeued = d.m_requeued ∧ Emptier d.inner d'.inner ∧ ∀ i', item = some i' → Took i' d.inner d'.inner := by
  refine turns_of_invariant
    (I := fun t : QueueDisc (FqCoDel Item) Item => t.m_requeued = d.m_requeued ∧ Emptier d.inner t.inner)
    (J := fun r => ∀ item d', r = some (item, d') → d'.m_requeued = d.m_requeued ∧ Emptier d.inner d'.inner ∧
      ∀ i', item = some i' → Took i' d.inner d'.inner)
    ?_ ?_ ⟨rfl, .refl _⟩ (Option.join_eq_some_iff.mp h) item d' rfl
  · intro t t' ht hturn
    obtain ⟨hslot, hemptier⟩ := dequeueTurn_emptier (ht.2.calm hcalm) hturn
    exact ⟨hslot.trans ht.1, ht.2.trans hemptier⟩
  · rintro t result ht hturn item d' rfl
    obtain ⟨hslot, hemptier, htook⟩ := dequeueTurn_took (ht.2.calm hcalm) hturn
    refine ⟨hslot.trans ht.1, ht.2.trans hemptier, fun i' hi' => ?_⟩
    obtain ⟨k, i, hmarked, hsuffix⟩ := htook i' hi'
    exact ⟨k, i, hmarked, hsuffix.trans (ht.2.packets k)⟩

end Emptier

/-- The packets of a flow hash. -/
def ofFlow (C : Classifier Item) (F : UInt32) (items : List Item) : List Item :=
  items.filter fun i => C.flowHash i = some F

/-- An item as it waits: `Enqueue` of the queue disc and `Enqueue` of the flow's queue disc have set its time
stamp. -/
def arrival : Op Item → Option Item
  | .enqueue now i => some (setTimeStamp now (setTimeStamp now i))
  | .dequeue _ => none

/-- The packets of each flow hash are returned in the order of their arrival. -/
def InOrder (C : Classifier Item) (calls : List (Op Item)) (r : Session (FqCoDel Item) Item) : Prop :=
  ∃ taken, List.Forall₂ CoDel.Marked taken r.returned ∧
    ∀ F, (ofFlow C F taken).Sublist (ofFlow C F (calls.filterMap arrival))

/-- Each queue where packets of the item's flow hash wait is the one that the item is enqueued to. -/
def Settled (C : Classifier Item) (i : Item) (s : FqCoDel Item) : Prop :=
  ∀ k, (∃ j ∈ s.packetsAt k, C.flowHash j = C.flowHash i) → flowOf C i s = some k

/-- It is so whenever a packet is enqueued. -/
def AllSettled (C : Classifier Item) : Session (FqCoDel Item) Item → List (Op Item) → Prop
  | _, [] => True
  | r, call :: calls =>
    (∀ now i, call = .enqueue now i → Settled C i r.disc.inner) ∧
      ∀ r', (fqCoDelQueueDisc C).serve r call = some r' → AllSettled C r' calls

section Flow

variable {C : Classifier Item} {F : UInt32} {xs ys : List Item} {i : Item}

theorem ofFlow_append (xs ys : List Item) : ofFlow C F (xs ++ ys) = ofFlow C F xs ++ ofFlow C F ys :=
  List.filter_append xs ys

theorem ofFlow_sublist (h : xs.Sublist ys) : (ofFlow C F xs).Sublist (ofFlow C F ys) := h.filter _

theorem ofFlow_other (hi : C.flowHash i ≠ some F) : ofFlow C F [i] = [] := by
  rw [ofFlow, List.filter_singleton, decide_eq_false hi]
  rfl

theorem ofFlow_nil (h : ∀ j ∈ xs, C.flowHash j ≠ some F) : ofFlow C F xs = [] := by
  rw [ofFlow, List.filter_eq_nil_iff]
  intro j hj
  rw [decide_eq_true_eq]
  exact h j hj

end Flow

/-- All waiting packets of the flow hash are in one queue, behind those that were taken out. -/
def Ordered (C : Classifier Item) (arrived taken : List Item) (s : FqCoDel Item) (F : UInt32) : Prop :=
  ∃ k, (∀ j, j ≠ k → ∀ p ∈ s.packetsAt j, C.flowHash p ≠ some F) ∧
    (ofFlow C F (taken ++ s.packetsAt k)).Sublist (ofFlow C F arrived)

section Ordered

variable {C : Classifier Item} {arrived taken : List Item} {s s' : FqCoDel Item} {F : UInt32} {i x : Item} {k : Nat}

theorem Ordered.emptier (h : Ordered C arrived taken s F) (he : Emptier s s') : Ordered C arrived taken s' F := by
  obtain ⟨k, hother, horder⟩ := h
  refine ⟨k, fun j hj p hp => hother j hj p ((he.packets j).mem hp), (ofFlow_sublist ?_).trans horder⟩
  exact (he.packets k).sublist.append_left taken

theorem Ordered.take (h : Ordered C arrived taken s F) (he : Emptier s s')
    (hk : i :: s'.packetsAt k <:+ s.packetsAt k) : Ordered C arrived (taken ++ [i]) s' F := by
  obtain ⟨k', hother, horder⟩ := h
  refine ⟨k', fun j hj p hp => hother j hj p ((he.packets j).mem hp), ?_⟩
  by_cases hkk : k = k'
  · subst hkk
    refine (ofFlow_sublist ?_).trans horder
    rw [List.append_assoc, List.singleton_append]
    exact hk.sublist.append_left taken
  · -- the packet is of another flow hash
    have hi : C.flowHash i ≠ some F := hother k hkk i (hk.mem List.mem_cons_self)
    rw [ofFlow_append, ofFlow_append, ofFlow_other hi, List.append_nil, ← ofFlow_append]
    exact (ofFlow_sublist ((he.packets k').sublist.append_left taken)).trans horder

/-- A packet is put at the end of the queue where the others of its flow hash are. -/
theorem Ordered.store {F' : UInt32} (h : Ordered C arrived taken s F) (hx : C.flowHash x = some F')
    (hk : ∀ j, j ≠ k → ∀ p ∈ s.packetsAt j, C.flowHash p ≠ some F')
    (hsame : ∀ j, j ≠ k → s'.packetsAt j = s.packetsAt j)
    (hstored : (s'.packetsAt k).Sublist (s.packetsAt k ++ [x])) : Ordered C (arrived ++ [x]) taken s' F := by
  obtain ⟨k', hother, horder⟩ := h
  by_cases hF : F' = F
  · subst hF
    refine ⟨k, fun j hj p hp => hk j hj p (hsame j hj ▸ hp), ?_⟩
    have hsublist : (ofFlow C F' (taken ++ s.packetsAt k)).Sublist (ofFlow C F' arrived) := by
      by_cases hkk : k = k'
      · exact hkk ▸ horder
      · -- none of them waits yet
        rw [ofFlow_append, ofFlow_nil (hother k hkk), List.append_nil]
        exact (ofFlow_sublist (List.sublist_append_left _ _)).trans horder
    refine (ofFlow_sublist (hstored.append_left taken)).trans ?_
    rw [← List.append_assoc, ofFlow_append, ofFlow_append _ [x]]
    exact hsublist.append_right _
  · have hne : C.flowHash x ≠ some F := by
      rw [hx]
      exact fun heq => hF (Option.some.inj heq)
    have hflow : ∀ j, (ofFlow C F (s'.packetsAt j)).Sublist (ofFlow C F (s.packetsAt j)) := by
      intro j
      by_cases hj : j = k
      · subst hj
        have hsublist := ofFlow_sublist (C := C) (F := F) hstored
        rw [ofFlow_append, ofFlow_other hne, List.append_nil] at hsublist
        exact hsublist
      · rw [hsame j hj]
    refine ⟨k', fun j hj p hp hpF => ?_, ?_⟩
    · have hmem : p ∈ ofFlow C F (s'.packetsAt j) := List.mem_filter.mpr ⟨hp, decide_eq_true hpF⟩
      exact hother j hj p (List.mem_of_mem_filter ((hflow j).subset hmem)) hpF
    · rw [ofFlow_append, ofFlow_append, ofFlow_other hne, List.append_nil]
      rw [ofFlow_append] at horder
      exact ((hflow k').append_left _).trans horder

end Ordered

/-- The flow `k` of the queue `q` has been chosen, and created if need be. -/
structure Opened (q : UInt32) (k : Nat) (s s' : FqCoDel Item) : Prop where
  enabled : s'.m_enableSetAssociativeHash = s.m_enableSetAssociativeHash
  nFlows : s'.m_flows = s.m_flows
  packets : ∀ j, s'.packetsAt j = s.packetsAt j
  lookup : s'.m_flowsIndices.lookup q = some k
  indices : ∀ h j, s.m_flowsIndices.lookup h = some j → s'.m_flowsIndices.lookup h = some j
  calm : Calm s → Calm s'

section Opened

variable {C : Classifier Item} {arrived taken : List Item} {s s' : FqCoDel Item} {q F : UInt32} {k : Nat}

theorem flowFor_opened (h : s.flowFor q = (k, s')) : Opened q k s s' := by
  rw [flowFor] at h
  split at h
  · next hk =>
    cases h
    exact ⟨rfl, rfl, fun _ => rfl, hk, fun _ _ => id, id⟩
  · next hnone =>
    cases h
    refine ⟨rfl, rfl, fun j => ?_, List.lookup_cons_self, fun h j hj => ?_, fun hcalm flow hflow => ?_⟩
    · rw [packetsAt, packetsAt]
      show (s.flows ++ [s.createFlow q])[j]?.elim _ _ = _
      by_cases hj : j < s.flows.length
      · rw [List.getElem?_append_left hj]
      · rw [List.getElem?_append_right (Nat.not_lt.mp hj), List.getElem?_eq_none (Nat.not_lt.mp hj)]
        cases j - s.flows.length with
        | zero => rfl
        | succ n => rfl
    · show ((q, s.flows.length) :: s.m_flowsIndices).lookup h = some j
      rw [List.lookup_cons]
      split
      · next heq =>
        obtain rfl := beq_iff_eq.mp heq
        rw [hnone] at hj
        cases hj
      · exact hj
    · obtain hflow | hflow := List.mem_append.mp hflow
      · exact hcalm flow hflow
      · obtain rfl := List.mem_singleton.mp hflow
        rfl

theorem opened_of_flowFor {flowHash : UInt32} (h : (s.tagged flowHash q).flowFor q = (k, s')) :
    Opened q k s (s'.activate k) := by
  have hopened := flowFor_opened h
  rw [tagged_same] at hopened
  have hactive := activate_same s' k
  have hemptier := hactive.emptier
  exact ⟨hemptier.enabled.trans hopened.enabled, hemptier.nFlows.trans hopened.nFlows,
    fun j => (hactive.packetsAt j).trans (hopened.packets j), by rw [hemptier.indices]; exact hopened.lookup,
    fun h j hj => by rw [hemptier.indices]; exact hopened.indices h j hj, fun hs => hemptier.calm (hopened.calm hs)⟩

/-- Without set-associative hash, the index of a packet's queue is always the same. -/
structure Routed (C : Classifier Item) (s : FqCoDel Item) : Prop where
  calm : Calm s
  routed : s.m_enableSetAssociativeHash = false → ∀ k, ∀ j ∈ s.packetsAt k,
    ∃ F, C.flowHash j = some F ∧ s.m_flowsIndices.lookup (F % s.m_flows) = some k

theorem Routed.emptier (h : Routed C s) (he : Emptier s s') : Routed C s' where
  calm := he.calm h.calm
  routed hdisabled k j hj := by
    rw [he.enabled] at hdisabled
    rw [he.nFlows, he.indices]
    exact h.routed hdisabled k j ((he.packets k).mem hj)

/-- The packets of the item's flow hash are in the queue that is chosen, if they are anywhere. -/
theorem Routed.one_queue (h : Routed C s) {i : Item} (hi : C.flowHash i = some F) (hq : s.queueIndex F = some q)
    (hopened : Opened q k s s') (hsettled : s.m_enableSetAssociativeHash = true → Settled C i s) (j : Nat)
    (hj : j ≠ k) (p : Item) (hp : p ∈ s.packetsAt j) : C.flowHash p ≠ some F := by
  intro hpF
  have hlookup : s.m_flowsIndices.lookup q = some j := by
    by_cases henabled : s.m_enableSetAssociativeHash = true
    · have hchosen := hsettled henabled j ⟨p, hp, hpF.trans hi.symm⟩
      rw [flowOf, hi] at hchosen
      have hchosen : (s.queueIndex F).bind (fun q => s.m_flowsIndices.lookup q) = some j := hchosen
      rw [hq] at hchosen
      exact hchosen
    · obtain ⟨F', hF', hlookup⟩ := h.routed (Bool.eq_false_iff.mpr henabled) j p hp
      obtain rfl := Option.some.inj (hF'.symm.trans hpF)
      rw [queueIndex, Option.ite_none_left_eq_some, if_neg henabled] at hq
      rw [← Option.some.inj hq.2]
      exact hlookup
  have hsame := hopened.indices q j hlookup
  rw [hopened.lookup] at hsame
  exact hj (Option.some.inj hsame).symm

end Opened

section Enqueue

variable {C : Classifier Item} {arrived taken : List Item} {now : Time} {i : Item} {stored ok : Bool}
  {c c' : QueueDisc (CoDel Item) Item} {d d' : QueueDisc (FqCoDel Item) Item} {s s' : FqCoDel Item}
  {q F : UInt32} {k : Nat} {flow : FqCoDelFlow Item}

/-- `Enqueue` of a flow's queue disc. -/
theorem child_enqueues (h : CoDel.coDelQueueDisc.enqueue now i c = some (stored, c')) :
    c'.m_requeued = c.m_requeued ∧ (c'.inner.queue.m_packets = c.inner.queue.m_packets ∨
      c'.inner.queue.m_packets = c.inner.queue.m_packets ++ [setTimeStamp now i]) := by
  rw [Methods.enqueue] at h
  refine ⟨(CoDel.doEnqueue_acts h).sameSlot.requeued, ?_⟩
  obtain ⟨-, hqueue | hqueue⟩ := CoDel.doEnqueue_queue h
  · exact .inl (congrArg Queue.m_packets hqueue)
  · exact .inr (congrArg Queue.m_packets (Queue.enqueue_eq_some hqueue))

/-- The packet is stored in the queue of the flow chosen, or dropped. -/
theorem Opened.withChild (hopened : Opened q k s s') (hflow : s'.flows[k]? = some flow)
    (hchild : CoDel.coDelQueueDisc.enqueue now i flow.queueDisc = some (stored, c)) :
    (∀ j, j ≠ k → (s'.withChild k c).packetsAt j = s.packetsAt j) ∧
      ((s'.withChild k c).packetsAt k = s.packetsAt k ∨
        (s'.withChild k c).packetsAt k = s.packetsAt k ++ [setTimeStamp now i]) := by
  constructor
  · intro j hj
    rw [packetsAt_withChild hflow, if_neg (Ne.symm hj)]
    exact hopened.packets j
  · have hk : s.packetsAt k = flow.queueDisc.inner.queue.m_packets := by
      rw [← hopened.packets k, packetsAt, hflow]
      rfl
    rw [packetsAt_withChild hflow, if_pos rfl, hk]
    exact (child_enqueues hchild).2

theorem Routed.store (h : Routed C s) (hi : C.flowHash i = some F) (hq : s.queueIndex F = some q)
    (hopened : Opened q k s s') (hflow : s'.flows[k]? = some flow)
    (hchild : CoDel.coDelQueueDisc.enqueue now i flow.queueDisc = some (stored, c)) :
    Routed C (s'.withChild k c) := by
  have hcalm := hopened.calm h.calm
  refine ⟨calm_withChild hcalm ?_, fun hdisabled j p hp => ?_⟩
  · exact (child_enqueues hchild).1.trans (hcalm flow (List.mem_of_getElem? hflow))
  · have hmod : s.m_enableSetAssociativeHash = false := hopened.enabled.symm.trans hdisabled
    have hindex : ∀ F j, s'.m_flowsIndices.lookup (F % s.m_flows) = some j →
        (s'.withChild k c).m_flowsIndices.lookup (F % (s'.withChild k c).m_flows) = some j := by
      intro F j hlookup
      show s'.m_flowsIndices.lookup (F % s'.m_flows) = some j
      rw [hopened.nFlows]
      exact hlookup
    have hwaited : p ∈ s.packetsAt j → ∃ F, C.flowHash p = some F ∧
        (s'.withChild k c).m_flowsIndices.lookup (F % (s'.withChild k c).m_flows) = some j := by
      intro hp
      obtain ⟨F, hF, hlookup⟩ := h.routed hmod j p hp
      exact ⟨F, hF, hindex F j (hopened.indices _ j hlookup)⟩
    obtain ⟨hother, hstored⟩ := hopened.withChild hflow hchild
    by_cases hj : j = k
    · subst hj
      obtain hsame | happend := hstored
      · exact hwaited (hsame ▸ hp)
      · rw [happend, List.mem_append, List.mem_singleton] at hp
        obtain hp | rfl := hp
        · exact hwaited hp
        · refine ⟨F, (C.flowHash_setTimeStamp now i).trans hi, hindex F j ?_⟩
          rw [queueIndex, Option.ite_none_left_eq_some, if_neg (Bool.eq_false_iff.mp hmod)] at hq
          rw [Option.some.inj hq.2]
          exact hopened.lookup
    · exact hwaited (hother j hj ▸ hp)

/-- `DoEnqueue` keeps the order. -/
theorem doEnqueue_ordered (hs : Routed C d.inner) (horder : ∀ F, Ordered C arrived taken d.inner F)
    (hsettled : d.inner.m_enableSetAssociativeHash = true → Settled C i d.inner)
    (h : doEnqueue C now i d = some (ok, d')) :
    d'.m_requeued = d.m_requeued ∧
      d'.inner.m_enableSetAssociativeHash = d.inner.m_enableSetAssociativeHash ∧ Routed C d'.inner ∧
      ∀ F, Ordered C (arrived ++ [setTimeStamp now i]) taken d'.inner F := by
  obtain ⟨-, hinner, hslot⟩ | ⟨flowHash, q, k, s, hhash, hq, hflowFor, henq⟩ := doEnqueue_eq_some h
  · rw [hinner]
    refine ⟨hslot, rfl, hs, fun F => ?_⟩
    obtain ⟨k, hother, hsublist⟩ := horder F
    exact ⟨k, hother, hsublist.trans (ofFlow_sublist (List.sublist_append_left _ _))⟩
  · have hopened := opened_of_flowFor hflowFor
    obtain ⟨hslot, flow, stored, c, hflow, hchild, k', hdrops⟩ := enqueueFlow_eq_some henq
    have hemptier := emptier_of_drops hdrops
    obtain ⟨hother, hstored⟩ := hopened.withChild hflow hchild
    refine ⟨hslot, hemptier.enabled.trans hopened.enabled,
      (hs.store hhash hq hopened hflow hchild).emptier hemptier, fun F => ?_⟩
    refine ((horder F).store ((C.flowHash_setTimeStamp now i).trans hhash)
      (hs.one_queue hhash hq hopened hsettled) hother ?_).emptier hemptier
    obtain hsame | happend := hstored
    · exact hsame ▸ List.sublist_append_left _ _
    · exact happend ▸ List.Sublist.refl _

end Enqueue

/-- The state of a run: the packets taken out, of which the returned ones are copies with marks, and those that
wait. -/
structure Keeps (C : Classifier Item) (arrived : List Item) (r : Session (FqCoDel Item) Item) : Prop where
  requeued : r.disc.m_requeued = none
  routed : Routed C r.disc.inner
  order : ∃ taken, List.Forall₂ CoDel.Marked taken r.returned ∧ ∀ F, Ordered C arrived taken r.disc.inner F

section Runs

variable {C : Classifier Item} {arrived : List Item} {r r' : Session (FqCoDel Item) Item} {call : Op Item}
  {calls : List (Op Item)}

theorem settled_setTimeStamp {now : Time} {i : Item} {s : FqCoDel Item} (h : Settled C i s) :
    Settled C (setTimeStamp now i) s := by
  rw [Settled, flowOf, C.flowHash_setTimeStamp]
  exact h

theorem started_keeps (config : FqCoDel Item) : Keeps C [] (started config) where
  requeued := rfl
  routed := ⟨fun _ hflow => absurd hflow List.not_mem_nil, fun _ _ _ hj => absurd hj List.not_mem_nil⟩
  order := ⟨[], .nil, fun _ => ⟨0, fun _ _ _ hp => absurd hp List.not_mem_nil, List.Sublist.refl _⟩⟩

theorem serve_keeps (h : Keeps C arrived r)
    (hsettled : r.disc.inner.m_enableSetAssociativeHash = true →
      ∀ now i, call = .enqueue now i → Settled C i r.disc.inner)
    (hserve : (fqCoDelQueueDisc C).serve r call = some r') :
    Keeps C (arrived ++ (arrival call).toList) r' ∧
      r'.disc.inner.m_enableSetAssociativeHash = r.disc.inner.m_enableSetAssociativeHash := by
  obtain ⟨taken, hmarked, horder⟩ := h.order
  cases call with
  | enqueue now i =>
    obtain ⟨⟨ok, d⟩, henq, heq⟩ := Option.bind_eq_some_iff.mp hserve
    cases heq
    have henq : doEnqueue C now (setTimeStamp now i) (r.disc.countReceived i) = some (ok, d) := henq
    obtain ⟨hslot, henabled, hrouted, horder'⟩ := doEnqueue_ordered (d := r.disc.countReceived i) h.routed horder
      (fun henabled => settled_setTimeStamp (hsettled henabled now i rfl)) henq
    exact ⟨⟨hslot.trans h.requeued, hrouted, taken, hmarked, horder'⟩, henabled⟩
  | dequeue now =>
    obtain ⟨⟨item, d⟩, hdeq, heq⟩ := Option.bind_eq_some_iff.mp hserve
    cases heq
    rw [Methods.dequeue, h.requeued] at hdeq
    obtain ⟨hslot, hemptier, htook⟩ := doDequeue_took h.routed.calm hdeq
    refine ⟨⟨hslot.trans h.requeued, h.routed.emptier hemptier, ?_⟩, hemptier.enabled⟩
    rw [arrival, Option.toList_none, List.append_nil]
    cases item with
    | none => exact ⟨taken, by simpa using hmarked, fun F => (horder F).emptier hemptier⟩
    | some i' =>
      obtain ⟨k, i, himarked, hk⟩ := htook i' rfl
      refine ⟨taken ++ [i], ?_, fun F => (horder F).take hemptier hk⟩
      exact List.rel_append hmarked (.cons himarked .nil)

theorem runs_keeps (h : Keeps C arrived r)
    (hsettled : r.disc.inner.m_enableSetAssociativeHash = true → AllSettled C r calls)
    (hruns : calls.foldlM (fqCoDelQueueDisc C).serve r = some r') :
    Keeps C (arrived ++ calls.filterMap arrival) r' := by
  induction calls generalizing r arrived with
  | nil =>
    cases hruns
    rw [List.filterMap_nil, List.append_nil]
    exact h
  | cons call calls ih =>
    rw [List.foldlM_cons] at hruns
    obtain ⟨r₁, hserve, hruns⟩ := Option.bind_eq_some_iff.mp hruns
    obtain ⟨hr₁, henabled⟩ := serve_keeps h (fun henabled => (hsettled henabled).1) hserve
    have hrest := ih hr₁ (fun h₁ => (hsettled (henabled ▸ h₁)).2 r₁ hserve) hruns
    have harrived : (call :: calls).filterMap arrival = (arrival call).toList ++ calls.filterMap arrival := by
      cases call <;> rfl
    rw [harrived, ← List.append_assoc]
    exact hrest

end Runs

/-- FQ-CoDel returns the packets of each flow hash in order, if set-associative hash never chooses another queue
for a flow whose packets wait. -/
theorem flow_order (C : Classifier Item) (config : FqCoDel Item) (calls : List (Op Item))
    (r : Session (FqCoDel Item) Item)
    (hsettled : config.m_enableSetAssociativeHash = true → AllSettled C (started config) calls)
    (h : calls.foldlM (fqCoDelQueueDisc C).serve (started config) = some r) : InOrder C calls r := by
  have hkeeps := runs_keeps (started_keeps config) hsettled h
  obtain ⟨taken, hmarked, horder⟩ := hkeeps.order
  refine ⟨taken, hmarked, fun F => ?_⟩
  obtain ⟨k, -, hsublist⟩ := horder F
  exact (ofFlow_sublist (List.sublist_append_left _ _)).trans hsublist

/-- The first byte of the payload tells the flow. -/
def byFirstByte : Classifier Ipv4QueueDiscItem :=
  ⟨fun i => i.payload.head?.map UInt8.toUInt32, fun _ _ => rfl⟩

/-- Two queues, which are one set, and a quantum that is spent by any packet. -/
def oneSet : FqCoDel Ipv4QueueDiscItem :=
  { m_flows := 2, m_setWays := 2, m_quantum := 1, m_enableSetAssociativeHash := true }

/-- The packet with the number `n` of a flow. -/
def packetOf (flow n : UInt8) : Ipv4QueueDiscItem := { payload := [flow, n] }

def twoPackets : List (Op Ipv4QueueDiscItem) :=
  [.enqueue 0 (packetOf 0 1), .enqueue 0 (packetOf 0 2), .dequeue 0, .dequeue 0]

theorem flow_order_two :
    ∃ r, twoPackets.foldlM (fqCoDelQueueDisc byFirstByte).serve (started oneSet) = some r ∧
      r.returned.length = 2 ∧ InOrder byFirstByte twoPackets r := by
  refine ⟨_, rfl, rfl, flow_order byFirstByte oneSet twoPackets _ (fun _ => ?_) rfl⟩
  rw [twoPackets, AllSettled]
  refine ⟨fun now i hi k hk => ?_, fun r₁ hr₁ => ?_⟩
  · obtain ⟨j, hj, -⟩ := hk
    cases hj
  rw [AllSettled]
  refine ⟨fun now i hi k hk => ?_, fun r₂ _ => ?_⟩
  · obtain rfl := Option.some.inj hr₁
    cases hi
    cases k with
    | zero => rfl
    | succ k =>
      obtain ⟨j, hj, -⟩ := hk
      cases hj
  rw [AllSettled]
  refine ⟨nofun, fun r₃ _ => ?_⟩
  rw [AllSettled]
  exact ⟨nofun, fun _ _ => True.intro⟩

/-- While the second queue holds a packet of the second flow, the first queue has become inactive. -/
def movedFlow : List (Op Ipv4QueueDiscItem) :=
  [.enqueue 0 (packetOf 0 1), .enqueue 0 (packetOf 1 1), .enqueue 0 (packetOf 1 2), .enqueue 0 (packetOf 1 3),
    .dequeue 0, .dequeue 0, .dequeue 0, .enqueue 0 (packetOf 1 4), .dequeue 0, .dequeue 0]

/-- A mark leaves the payload alone. -/
theorem payload_marked {i j : Ipv4QueueDiscItem} (h : CoDel.Marked i j) : j.payload = i.payload := by
  induction h with
  | refl => rfl
  | tail _ hmark ih =>
    rw [← ih]
    have hmark : Ipv4QueueDiscItem.marked _ = some _ := hmark
    rw [Ipv4QueueDiscItem.marked, Option.ite_none_right_eq_some] at hmark
    obtain ⟨header, -, rfl⟩ := Option.map_eq_some_iff.mp hmark.2
    rfl

theorem payloads_marked {items items' : List Ipv4QueueDiscItem} (h : List.Forall₂ CoDel.Marked items items') :
    items.map (·.payload) = items'.map (·.payload) := by
  induction h with
  | nil => rfl
  | cons hmarked _ ih => rw [List.map_cons, List.map_cons, ih, payload_marked hmarked]

/-- The flow is told by the payload. -/
theorem ofFlow_payload (F : UInt32) (items : List Ipv4QueueDiscItem) :
    (ofFlow byFirstByte F items).map (·.payload) =
      (items.map (·.payload)).filter fun p => p.head?.map UInt8.toUInt32 = some F := by
  rw [List.filter_map]
  rfl

/-- The fourth packet of the second flow overtakes the third one. -/
theorem not_flow_order_moved :
    checkConfig none oneSet = some oneSet ∧
      ∃ r, movedFlow.foldlM (fqCoDelQueueDisc byFirstByte).serve (started oneSet) = some r ∧
        r.returned.map (·.payload) = [[0, 1], [1, 1], [1, 2], [1, 4], [1, 3]] ∧ ¬ InOrder byFirstByte movedFlow r := by
  have hrun : (movedFlow.foldlM (fqCoDelQueueDisc byFirstByte).serve (started oneSet)).map
      (fun r => r.returned.map (·.payload)) = some [[0, 1], [1, 1], [1, 2], [1, 4], [1, 3]] := by decide +kernel
  obtain ⟨r, hr, hreturned⟩ := Option.map_eq_some_iff.mp hrun
  refine ⟨rfl, r, hr, hreturned, ?_⟩
  rintro ⟨taken, hmarked, horder⟩
  have hsublist := (horder 1).map (·.payload)
  rw [ofFlow_payload, ofFlow_payload, payloads_marked hmarked, hreturned] at hsublist
  exact absurd hsublist (by decide)

end FqCoDel

end Ns3.TrafficControl
