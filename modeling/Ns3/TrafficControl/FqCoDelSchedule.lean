import Mathlib.Algebra.Order.BigOperators.Group.List
import Mathlib.Algebra.Order.Group.Nat
import Ns3.Internet.Ipv4QueueDiscItem
import Ns3.TrafficControl.FqCoDelFlows

/-!
# The schedule of FQ-CoDel

Each flow is on the list that its status names, an inactive flow has no packets, and the deficits stay between
the quantum and minus the size of a packet. So a flow with a positive deficit is found after finitely many
turns, and `DoDequeue` returns; without a packet only if no flow has one. Queues count their packets in 32
bits: all this is as long as no flow has 2^32 of them.
-/

namespace Ns3.TrafficControl

open Ns3.Lib Ns3.Network QueueDiscItem QueueDisc
open Ns3.Internet (Ipv4QueueDiscItem)

variable {Item : Type} [QueueDiscItem Item]

/-- The list that a status names. -/
def FlowStatus.place : FlowStatus → Place
  | .inactive => .out
  | .newFlow => .first
  | .oldFlow => .second

namespace FqCoDel

/-- Where a flow thinks it is. -/
def placeOf (flows : List (FqCoDelFlow Item)) (k : Nat) : Place :=
  flows[k]?.elim .out fun flow => flow.m_status.place

/-- A queue disc of a flow, which may hold `limit` packets, of at most `L` bytes each. -/
structure ChildOk (L : Nat) (limit : UInt32) (c : QueueDisc (CoDel Item) Item) : Prop where
  requeued : c.m_requeued = none
  minBytes : 0 < c.inner.m_minBytes
  maxSize : c.inner.queue.m_maxSize = ⟨.packets, limit⟩
  length : c.inner.queue.m_packets.length ≤ limit.toNat
  sizes : ∀ i ∈ c.inner.queue.m_packets, (getSize i).toNat ≤ L

/-- A flow that holds packets is active, and the deficit of an active flow is within its bounds. -/
structure FlowOk (L : Nat) (limit quantum : UInt32) (flow : FqCoDelFlow Item) : Prop where
  child : ChildOk L limit flow.queueDisc
  waiting : flow.queueDisc.inner.queue.m_packets ≠ [] → flow.m_status ≠ .inactive
  above : flow.m_status ≠ .inactive → -(L : Int) < flow.m_deficit.toInt
  below : flow.m_status ≠ .inactive → flow.m_deficit.toInt ≤ quantum.toNat

/-- The schedule, when no packet has more than `L` bytes. -/
structure Scheduled (L : Nat) (limit quantum : UInt32) (s : FqCoDel Item) : Prop where
  maxSize : s.m_maxSize = limit
  quantum : s.m_quantum = quantum
  listed : Listed (placeOf s.flows) s.m_newFlows s.m_oldFlows
  ok : ∀ (k : Nat) flow, s.flows[k]? = some flow → FlowOk L s.m_maxSize s.m_quantum flow
  indices : ∀ h k, s.m_flowsIndices.lookup h = some k → k < s.flows.length
  positive : 0 < s.m_quantum.toNat
  signed : s.m_quantum.toNat < 2 ^ 31

section Deficit

variable {q size : UInt32} {deficit : Int32} {L : Nat}

theorem toInt_toInt32 (hq : q.toNat < 2 ^ 31) : q.toInt32.toInt = q.toNat := by
  show q.toBitVec.toInt = q.toBitVec.toNat
  exact BitVec.toInt_eq_toNat_of_lt (by rw [UInt32.toNat_toBitVec]; omega)

/-- A deficit that is not positive has room for the quantum. -/
theorem toInt_add_quantum (hq : q.toNat < 2 ^ 31) (hd : deficit.toInt ≤ 0) :
    (deficit + q.toInt32).toInt = deficit.toInt + q.toNat := by
  have hmin : -2 ^ 31 ≤ deficit.toInt := deficit.le_toInt
  rw [Int32.toInt_add, toInt_toInt32 hq]
  exact Int.bmod_eq_of_le (by omega) (by omega)

/-- A size times the word of ones becomes a negative number. -/
theorem toInt_negated (hsize : size.toNat < 2 ^ 31) : (size * 0xffffffff).toInt32.toInt = -(size.toNat : Int) := by
  show (size * 0xffffffff).toBitVec.toInt = _
  rw [BitVec.toInt_eq_toNat_bmod, UInt32.toNat_toBitVec, UInt32.toNat_mul]
  have hmul : ((size.toNat * (0xffffffff : UInt32).toNat % 2 ^ 32 : Nat) : Int) =
      (-(size.toNat : Int)) % (2 ^ 32 : Nat) := by
    have hones : (0xffffffff : UInt32).toNat = 2 ^ 32 - 1 := rfl
    rw [hones]
    omega
  rw [hmul, Int.emod_bmod]
  exact Int.bmod_eq_of_le (by omega) (by omega)

/-- A positive deficit has room for the size of a packet. -/
theorem toInt_sub_size (hsize : size.toNat < 2 ^ 31) (hd : 0 < deficit.toInt) :
    (deficit + (size * 0xffffffff).toInt32).toInt = deficit.toInt - size.toNat := by
  have hmax : deficit.toInt < 2 ^ 31 := deficit.toInt_lt
  rw [Int32.toInt_add, toInt_negated hsize]
  exact Int.bmod_eq_of_le (by omega) (by omega)

end Deficit

section Child

variable {L : Nat} {limit : UInt32} {now : Time} {c c' : QueueDisc (CoDel Item) Item} {i : Item}

theorem getSize_marked {i j : Item} (h : CoDel.Marked i j) : getSize j = getSize i := by
  induction h with
  | refl => rfl
  | tail _ hmark ih => exact (getSize_mark _ _ hmark).trans ih

/-- What is left of the queue is as good. -/
theorem ChildOk.leaves (h : ChildOk L limit c) (taken : List Item) (hrequeued : c'.m_requeued = none)
    (hmin : c'.inner.m_minBytes = c.inner.m_minBytes) (hmax : c'.inner.queue.m_maxSize = c.inner.queue.m_maxSize)
    (hpackets : c.inner.queue.m_packets = taken ++ c'.inner.queue.m_packets) : ChildOk L limit c' where
  requeued := hrequeued
  minBytes := hmin ▸ h.minBytes
  maxSize := hmax.trans h.maxSize
  length := by
    have hlength := h.length
    rw [hpackets, List.length_append] at hlength
    omega
  sizes j hj := h.sizes j (hpackets ▸ List.mem_append_right taken hj)

theorem ChildOk.countable (h : ChildOk L limit c) : CoDel.Countable c where
  minBytes := h.minBytes
  length := Nat.lt_of_le_of_lt h.length limit.toNat_lt

/-- `Dequeue` of a flow's queue disc returns, without a packet only if it has none. -/
theorem ChildOk.dequeue (h : ChildOk L limit c) (now : Time) :
    ∃ item c', CoDel.coDelQueueDisc.dequeue now c = some (item, c') ∧ ChildOk L limit c' ∧
      (∀ j, item = some j → (getSize j).toNat ≤ L) ∧
      (item = none → c.inner.queue.m_packets = [] ∧ c'.inner.queue.m_packets = []) := by
  obtain ⟨item, c', hdo⟩ := CoDel.doDequeue_isSome now h.countable
  have hdeq := CoDel.doDequeue_dequeues hdo
  have hrequeued : c'.m_requeued = none := hdeq.acts.sameSlot.requeued.trans h.requeued
  refine ⟨item, c', ?_, ?_, ?_, ?_⟩
  · rw [Methods.dequeue, h.requeued]
    exact hdo
  · cases item with
    | none => exact h.leaves [] hrequeued hdeq.minBytes hdeq.maxSize (by rw [(hdeq.idle rfl).2]; rfl)
    | some j =>
      obtain ⟨dropped, i, -, hpackets⟩ := hdeq.order j rfl
      refine h.leaves (dropped ++ [i]) hrequeued hdeq.minBytes hdeq.maxSize ?_
      rw [hpackets, List.append_assoc, List.singleton_append]
  · intro j hj
    obtain ⟨dropped, i, hmarked, hpackets⟩ := hdeq.order j hj
    rw [getSize_marked hmarked]
    exact h.sizes i (hpackets ▸ List.mem_append_right dropped List.mem_cons_self)
  · intro hnone
    obtain ⟨hzero, hqueue⟩ := hdeq.idle hnone
    have hnil := Queue.packets_eq_nil _ h.countable.length hzero
    exact ⟨hnil, by rw [hqueue, hnil]⟩

end Child

section Schedule

variable {L : Nat} {limit quantum : UInt32} {s s' : FqCoDel Item} {k : Nat} {flow : FqCoDelFlow Item}

theorem placeOf_of_flow {flows : List (FqCoDelFlow Item)} (h : flows[k]? = some flow) :
    placeOf flows k = flow.m_status.place := by
  rw [placeOf, h]
  rfl

/-- A listed flow exists. -/
theorem flow_of_placeOf {flows : List (FqCoDelFlow Item)} (h : placeOf flows k ≠ .out) :
    ∃ flow, flows[k]? = some flow := by
  rw [placeOf] at h
  cases hflow : flows[k]? with
  | none => exact absurd (by rw [hflow]; rfl) h
  | some flow => exact ⟨flow, rfl⟩

/-- A listed flow is active. -/
theorem active_of_placeOf {flows : List (FqCoDelFlow Item)} (hflow : flows[k]? = some flow)
    (h : placeOf flows k ≠ .out) : flow.m_status ≠ .inactive := by
  intro hinactive
  rw [placeOf_of_flow hflow, hinactive] at h
  exact h rfl

theorem placeOf_modify {flows : List (FqCoDelFlow Item)} (h : flows[k]? = some flow)
    (f : FqCoDelFlow Item → FqCoDelFlow Item) :
    placeOf (flows.modify k f) = Function.update (placeOf flows) k (f flow).m_status.place := by
  funext j
  by_cases hj : j = k
  · subst hj
    rw [Function.update_self, placeOf, List.getElem?_modify, h]
    simp
  · rw [Function.update_of_ne hj, placeOf, placeOf, List.getElem?_modify]
    cases flows[j]? with
    | none => rfl
    | some flow' =>
      show (if k = j then f flow' else flow').m_status.place = _
      rw [if_neg (Ne.symm hj)]
      rfl

/-- A flow changes, and the lists with it. -/
theorem Scheduled.update (h : Scheduled L limit quantum s) (hflow : s.flows[k]? = some flow)
    (f : FqCoDelFlow Item → FqCoDelFlow Item) (hok : FlowOk L s.m_maxSize s.m_quantum (f flow))
    (newFlows oldFlows : List Nat)
    (hlisted : Listed (Function.update (placeOf s.flows) k (f flow).m_status.place) newFlows oldFlows) :
    Scheduled L limit quantum { s.updateFlow k f with m_newFlows := newFlows, m_oldFlows := oldFlows } where
  maxSize := h.maxSize
  quantum := h.quantum
  listed := by
    show Listed (placeOf (s.flows.modify k f)) newFlows oldFlows
    rw [placeOf_modify hflow]
    exact hlisted
  ok j flow' hj := by
    have hj : (s.flows.modify k f)[j]? = some flow' := hj
    rw [List.getElem?_modify] at hj
    obtain ⟨flow₁, hflow₁, heq⟩ := Option.map_eq_some_iff.mp hj
    split at heq
    · next hjk =>
      subst hjk
      obtain rfl := Option.some.inj (hflow.symm.trans hflow₁)
      exact heq ▸ hok
    · exact heq ▸ h.ok j flow₁ hflow₁
  indices hash j hj := by
    show j < (s.flows.modify k f).length
    rw [List.length_modify]
    exact h.indices hash j hj
  positive := h.positive
  signed := h.signed

/-- A flow changes, but not its status. -/
theorem Scheduled.updateFlow (h : Scheduled L limit quantum s) (hflow : s.flows[k]? = some flow)
    (f : FqCoDelFlow Item → FqCoDelFlow Item) (hok : FlowOk L s.m_maxSize s.m_quantum (f flow))
    (hstatus : (f flow).m_status = flow.m_status) : Scheduled L limit quantum (s.updateFlow k f) := by
  refine h.update hflow f hok s.m_newFlows s.m_oldFlows ?_
  rw [hstatus, ← placeOf_of_flow hflow, Function.update_eq_self]
  exact h.listed

/-- A flow that is not positive gets its quantum. -/
theorem FlowOk.increase {limit q : UInt32} (h : FlowOk L limit q flow) (hq : q.toNat < 2 ^ 31)
    (hdeficit : flow.m_deficit.toInt ≤ 0) (hactive : flow.m_status ≠ .inactive) (status : FlowStatus)
    (hstatus : status ≠ .inactive) : FlowOk L limit q ((flow.increaseDeficit q).setStatus status) where
  child := h.child
  waiting _ := hstatus
  above _ := by
    have habove := h.above hactive
    show _ < (flow.m_deficit + q.toInt32).toInt
    rw [toInt_add_quantum hq hdeficit]
    omega
  below _ := by
    show (flow.m_deficit + q.toInt32).toInt ≤ _
    rw [toInt_add_quantum hq hdeficit]
    omega

/-- What the lists weigh: a new flow has two lists to leave, an old flow one. -/
def weight (s : FqCoDel Item) : Nat := 2 * s.m_newFlows.length + s.m_oldFlows.length

/-- The flow is at the front of its list, and may send. -/
structure Front (k : Nat) (s : FqCoDel Item) : Prop where
  first : (∃ newFlows, s.m_newFlows = k :: newFlows) ∨ s.m_newFlows = [] ∧ ∃ oldFlows, s.m_oldFlows = k :: oldFlows
  positive : ∃ flow, s.flows[k]? = some flow ∧ 0 < flow.m_deficit.toInt

theorem deficit_le_zero {deficit : Int32} : deficit ≤ 0 ↔ deficit.toInt ≤ 0 := Int32.le_iff_toInt_le

/-- The loop over the new flows finds one that may send, or leaves none. -/
theorem nextNew_scheduled {newFlows : List Nat} (h : Scheduled L limit quantum s) (hnew : s.m_newFlows = newFlows) :
    ∃ found s', nextNew newFlows s = some (found, s') ∧ Scheduled L limit quantum s' ∧ s'.weight ≤ s.weight ∧
      (found = none → s'.m_newFlows = []) ∧ (∀ k, found = some k → Front k s') := by
  induction newFlows generalizing s with
  | nil =>
    have hsame : { s with m_newFlows := [] } = s := by rw [← hnew]
    exact ⟨none, s, by rw [nextNew, hsame], h, le_rfl, fun _ => hnew, fun _ hk => by cases hk⟩
  | cons k newFlows ih =>
    have hplace : placeOf s.flows k = .first := h.listed.mem_first.mp (hnew ▸ List.mem_cons_self)
    obtain ⟨flow, hflow⟩ := flow_of_placeOf (by rw [hplace]; exact Place.noConfusion)
    rw [nextNew, hflow]
    by_cases hdeficit : flow.m_deficit ≤ 0
    · simp only [hdeficit, if_true]
      have hactive := active_of_placeOf hflow (by rw [hplace]; exact Place.noConfusion)
      have hlisted := h.listed
      rw [hnew] at hlisted
      have hdemoted := h.update hflow (fun flow => (flow.increaseDeficit s.m_quantum).setStatus .oldFlow)
        ((h.ok k flow hflow).increase h.signed (deficit_le_zero.mp hdeficit) hactive _ FlowStatus.noConfusion)
        _ _ hlisted.demote
      obtain ⟨found, s', hfound, hs', hweight, hnone, hfront⟩ := ih hdemoted rfl
      refine ⟨found, s', hfound, hs', hweight.trans ?_, hnone, hfront⟩
      simp only [weight, hnew, List.length_append, List.length_cons, List.length_nil]
      omega
    · simp only [hdeficit, if_false]
      have hsame : { s with m_newFlows := k :: newFlows } = s := by rw [← hnew]
      refine ⟨some k, s, by rw [hsame], h, le_rfl, (fun hk => by cases hk), ?_⟩
      rintro j ⟨⟩
      exact ⟨.inl ⟨newFlows, hnew⟩, flow, hflow, by rw [deficit_le_zero] at hdeficit; omega⟩

/-- In the loop over the old flows there are no new flows. -/
structure OldOnly (L : Nat) (limit quantum : UInt32) (weight : Nat) (s : FqCoDel Item) : Prop where
  scheduled : Scheduled L limit quantum s
  newFlows : s.m_newFlows = []
  weight : s.weight = weight

/-- What a flow lacks becomes less with a quantum. -/
theorem lack_increase (h : Scheduled L limit quantum s) (hflow : s.flows[k]? = some flow) (hdeficit : flow.m_deficit.toInt ≤ 0)
    (j : Nat) : lack (s.updateFlow k fun flow => flow.increaseDeficit s.m_quantum) j ≤ s.lack j ∧
      lack (s.updateFlow k fun flow => flow.increaseDeficit s.m_quantum) k < s.lack k := by
  have hpos := h.positive
  have hless : lack (s.updateFlow k fun flow => flow.increaseDeficit s.m_quantum) k < s.lack k := by
    rw [lack, lack, updateFlow, List.getElem?_modify, hflow]
    simp only [if_true, Option.map_eq_map, Option.map_some, Option.elim_some]
    show (1 - (flow.m_deficit + s.m_quantum.toInt32).toInt).toNat < _
    rw [toInt_add_quantum h.signed hdeficit]
    omega
  refine ⟨?_, hless⟩
  by_cases hj : j = k
  · subst hj
    exact hless.le
  · rw [lack, lack, updateFlow, List.getElem?_modify]
    cases s.flows[j]? with
    | none => exact le_rfl
    | some flow' =>
      show (1 - (if k = j then _ else flow').m_deficit.toInt).toNat ≤ _
      rw [if_neg (Ne.symm hj)]
      exact le_rfl

/-- The measure of the loop over the old flows. -/
def lacking (s : FqCoDel Item) : Nat := (s.m_oldFlows.map s.lack).sum

/-- The front flow's quantum: the flow goes to the end of the list, and lacks less. -/
theorem OldOnly.rotate {w : Nat} {oldFlows : List Nat} (h : OldOnly L limit quantum w s) (hold : s.m_oldFlows = k :: oldFlows)
    (hflow : s.flows[k]? = some flow) (hdeficit : flow.m_deficit.toInt ≤ 0) :
    OldOnly L limit quantum w { s.updateFlow k fun flow => flow.increaseDeficit s.m_quantum with m_oldFlows := oldFlows ++ [k] } ∧
      lacking { s.updateFlow k fun flow => flow.increaseDeficit s.m_quantum with m_oldFlows := oldFlows ++ [k] } <
        s.lacking := by
  have hlisted := h.scheduled.listed
  rw [hold] at hlisted
  have hplace : placeOf s.flows k = .second := hlisted.mem_second.mp List.mem_cons_self
  have hstatus : flow.m_status = .oldFlow := by
    rw [placeOf_of_flow hflow] at hplace
    cases hcase : flow.m_status with
    | oldFlow => rfl
    | inactive => rw [hcase] at hplace; cases hplace
    | newFlow => rw [hcase] at hplace; cases hplace
  have hok := (h.scheduled.ok k flow hflow).increase h.scheduled.signed hdeficit (hstatus ▸ FlowStatus.noConfusion)
    flow.m_status (hstatus ▸ FlowStatus.noConfusion)
  have hlack := lack_increase h.scheduled hflow hdeficit
  constructor
  · refine ⟨?_, h.newFlows, ?_⟩
    · refine h.scheduled.update hflow (fun flow => flow.increaseDeficit s.m_quantum) hok s.m_newFlows _ ?_
      show Listed (Function.update (placeOf s.flows) k flow.m_status.place) _ _
      rw [← placeOf_of_flow hflow, Function.update_eq_self]
      exact hlisted.rotate
    · rw [← h.weight]
      show 2 * s.m_newFlows.length + (oldFlows ++ [k]).length = 2 * s.m_newFlows.length + s.m_oldFlows.length
      rw [hold, List.length_append, List.length_cons]
      rfl
  · rw [lacking, lacking, hold, List.map_append, List.sum_append, List.map_cons, List.sum_cons, Nat.add_comm]
    refine Nat.add_lt_add_of_lt_of_le ?_ (List.sum_le_sum fun j _ => (hlack j).1)
    rw [List.map_nil, List.sum_nil]
    exact (hlack k).2

/-- What a turn of the loop over the old flows does. -/
theorem oldTurn_cases {w : Nat} (h : OldOnly L limit quantum w s) :
    (∃ s', oldTurn s = .again s' ∧ OldOnly L limit quantum w s' ∧ s'.lacking < s.lacking) ∨
      (oldTurn s = .leave (some (none, s)) ∧ s.m_oldFlows = []) ∨
      ∃ k, oldTurn s = .leave (some (some k, s)) ∧ Front k s := by
  rw [oldTurn]
  cases hold : s.m_oldFlows with
  | nil => exact .inr (.inl ⟨rfl, rfl⟩)
  | cons k oldFlows =>
    have hplace : placeOf s.flows k = .second := h.scheduled.listed.mem_second.mp (hold ▸ List.mem_cons_self)
    obtain ⟨flow, hflow⟩ := flow_of_placeOf (by rw [hplace]; exact Place.noConfusion)
    simp only [hflow]
    by_cases hdeficit : flow.m_deficit ≤ 0
    · rw [if_pos hdeficit]
      exact .inl ⟨_, rfl, h.rotate hold hflow (deficit_le_zero.mp hdeficit)⟩
    · rw [if_neg hdeficit]
      refine .inr (.inr ⟨k, rfl, .inr ⟨h.newFlows, oldFlows, hold⟩, flow, hflow, ?_⟩)
      rw [deficit_le_zero] at hdeficit
      omega

/-- What the choice of the next flow comes to. -/
structure Chosen (L : Nat) (limit quantum : UInt32) (weight : Nat) (found : Option Nat) (s : FqCoDel Item) : Prop where
  scheduled : Scheduled L limit quantum s
  weight : s.weight ≤ weight
  none : found = none → s.m_newFlows = [] ∧ s.m_oldFlows = []
  some : ∀ k, found = some k → Front k s

/-- The next flow is found, or no flow is listed. -/
theorem nextFlow_chosen (h : Scheduled L limit quantum s) :
    ∃ found s', nextFlow s = some (found, s') ∧ Chosen L limit quantum s.weight found s' := by
  obtain ⟨found, s₁, hnew, hs₁, hweight, hnone, hsome⟩ := nextNew_scheduled h rfl
  rw [nextFlow, hnew]
  cases found with
  | some k => exact ⟨some k, s₁, rfl, hs₁, hweight, (fun hk => by cases hk), hsome⟩
  | none =>
    simp only
    have hstart : OldOnly L limit quantum s₁.weight s₁ := ⟨hs₁, hnone rfl, rfl⟩
    obtain ⟨result, hturns⟩ := turns_of_measure oldTurn (I := OldOnly L limit quantum s₁.weight) lacking
      (fun t t' ht hturn => by
        obtain ⟨t₁, hagain, ht₁⟩ | ⟨hleave, -⟩ | ⟨k, hleave, -⟩ := oldTurn_cases ht
        · obtain rfl := Turn.again.inj (hagain.symm.trans hturn)
          exact ht₁
        · cases hleave.symm.trans hturn
        · cases hleave.symm.trans hturn) hstart (Nat.lt_succ_self _)
    have hresult : ∃ found s', result = some (found, s') ∧ Chosen L limit quantum s₁.weight found s' := by
      refine turns_of_invariant (I := OldOnly L limit quantum s₁.weight)
        (J := fun r => ∃ found s', r = some (found, s') ∧ Chosen L limit quantum s₁.weight found s') ?_ ?_ hstart hturns
      · intro t t' ht hturn
        obtain ⟨t₁, hagain, ht₁⟩ | ⟨hleave, -⟩ | ⟨k, hleave, -⟩ := oldTurn_cases ht
        · obtain rfl := Turn.again.inj (hagain.symm.trans hturn)
          exact ht₁.1
        · cases hleave.symm.trans hturn
        · cases hleave.symm.trans hturn
      · intro t r ht hturn
        obtain ⟨t₁, hagain, -⟩ | ⟨hleave, hnil⟩ | ⟨k, hleave, hfront⟩ := oldTurn_cases ht
        · cases hagain.symm.trans hturn
        · obtain rfl := Turn.leave.inj (hleave.symm.trans hturn)
          exact ⟨none, t, rfl, ht.scheduled, ht.weight.le, fun _ => ⟨ht.newFlows, hnil⟩, fun _ hk => by cases hk⟩
        · obtain rfl := Turn.leave.inj (hleave.symm.trans hturn)
          refine ⟨some k, t, rfl, ht.scheduled, ht.weight.le, (fun hk => by cases hk), ?_⟩
          rintro j ⟨⟩
          exact hfront
    obtain ⟨found, s', rfl, hchosen⟩ := hresult
    have hturns : turns oldTurn ((s₁.m_oldFlows.map s₁.lack).sum + 1) s₁ = _ := hturns
    refine ⟨found, s', by rw [hturns]; rfl, hchosen.scheduled, hchosen.weight.trans hweight, hchosen.none,
      hchosen.some⟩

/-- A call of the queue disc of a flow. -/
theorem Scheduled.withChild (h : Scheduled L limit quantum s) (hflow : s.flows[k]? = some flow)
    {c : QueueDisc (CoDel Item) Item} (hc : ChildOk L s.m_maxSize c)
    (hwaiting : c.inner.queue.m_packets ≠ [] → flow.m_status ≠ .inactive) : Scheduled L limit quantum (s.withChild k c) := by
  have hok := h.ok k flow hflow
  exact h.updateFlow hflow (fun flow => { flow with queueDisc := { c with traces := [] } })
    ⟨⟨hc.requeued, hc.minBytes, hc.maxSize, hc.length, hc.sizes⟩, hwaiting, hok.above, hok.below⟩ rfl

/-- A flow without packets leaves the front of its list. -/
theorem Scheduled.emptied (h : Scheduled L limit quantum s)
    (hfirst : (∃ newFlows, s.m_newFlows = k :: newFlows) ∨ s.m_newFlows = [] ∧ ∃ oldFlows, s.m_oldFlows = k :: oldFlows)
    (hflow : s.flows[k]? = some flow) (hempty : flow.queueDisc.inner.queue.m_packets = []) :
    Scheduled L limit quantum (s.emptied k) ∧ (s.emptied k).weight < s.weight := by
  have hok := h.ok k flow hflow
  have hlisted := h.listed
  obtain ⟨newFlows, hnew⟩ | ⟨hnil, oldFlows, hold⟩ := hfirst
  · rw [hnew] at hlisted
    have hplace : placeOf s.flows k = .first := hlisted.mem_first.mp List.mem_cons_self
    have hactive := active_of_placeOf hflow (by rw [hplace]; exact Place.noConfusion)
    rw [FqCoDel.emptied, if_pos (hnew ▸ List.cons_ne_nil k newFlows), hnew]
    constructor
    · exact h.update hflow (fun flow => flow.setStatus .oldFlow)
        ⟨hok.child, fun _ => FlowStatus.noConfusion, fun _ => hok.above hactive, fun _ => hok.below hactive⟩
        _ _ hlisted.demote
    · show 2 * newFlows.length + (s.m_oldFlows ++ [k]).length < 2 * s.m_newFlows.length + s.m_oldFlows.length
      rw [hnew, List.length_append, List.length_cons, List.length_cons, List.length_nil]
      omega
  · rw [hold] at hlisted
    rw [FqCoDel.emptied, if_neg (fun hne => hne hnil), hold]
    constructor
    · exact h.update hflow (fun flow => flow.setStatus .inactive)
        ⟨hok.child, fun hne => absurd hempty hne, fun hne => absurd rfl hne, fun hne => absurd rfl hne⟩
        s.m_newFlows _ hlisted.leave
    · show 2 * s.m_newFlows.length + oldFlows.length < 2 * s.m_newFlows.length + s.m_oldFlows.length
      rw [hold, List.length_cons]
      omega

/-- A packet is paid for, with the word that its size becomes. -/
theorem Scheduled.charge (h : Scheduled L limit quantum s) (hflow : s.flows[k]? = some flow) (hpositive : 0 < flow.m_deficit.toInt)
    {size : Nat} (hsize : size ≤ L) {word : UInt32}
    (hword : (flow.m_deficit + word.toInt32).toInt = flow.m_deficit.toInt - size) :
    Scheduled L limit quantum (s.updateFlow k fun flow => flow.increaseDeficit word) := by
  have hok := h.ok k flow hflow
  refine h.updateFlow hflow (fun flow => flow.increaseDeficit word) ⟨hok.child, hok.waiting, ?_, ?_⟩ rfl
  · intro _
    show _ < (flow.m_deficit + word.toInt32).toInt
    rw [hword]
    omega
  · intro hactive
    have hbelow := hok.below hactive
    show (flow.m_deficit + word.toInt32).toInt ≤ _
    rw [hword]
    omega

/-- Without listed flows there are no packets. -/
theorem Scheduled.idle (h : Scheduled L limit quantum s) (hnew : s.m_newFlows = []) (hold : s.m_oldFlows = []) (j : Nat) :
    s.packetsAt j = [] := by
  rw [packetsAt]
  cases hflow : s.flows[j]? with
  | none => rfl
  | some flow =>
    by_contra hne
    have hactive := (h.ok j flow hflow).waiting hne
    have hlisted := h.listed
    rw [hnew, hold] at hlisted
    have hplace := placeOf_of_flow hflow
    cases hstatus : flow.m_status with
    | inactive => exact hactive hstatus
    | newFlow =>
      rw [hstatus] at hplace
      exact List.not_mem_nil (hlisted.mem_first.mpr hplace)
    | oldFlow =>
      rw [hstatus] at hplace
      exact List.not_mem_nil (hlisted.mem_second.mpr hplace)

theorem flow_withChild (hflow : s.flows[k]? = some flow) (c : QueueDisc (CoDel Item) Item) :
    (s.withChild k c).flows[k]? = some { flow with queueDisc := { c with traces := [] } } := by
  rw [withChild, updateFlow, List.getElem?_modify, hflow]
  simp

variable {now : Time} {d d' : QueueDisc (FqCoDel Item) Item}

/-- A turn of `DoDequeue` takes a flow without packets from the front of its list, or returns. -/
theorem dequeueTurn_cases (now : Time) (h : Scheduled L limit quantum d.inner) (hL : L < 2 ^ 31) :
    (∃ d', dequeueTurn now d = .again d' ∧ Scheduled L limit quantum d'.inner ∧ d'.inner.weight < d.inner.weight ∧
        ∀ j, d'.inner.packetsAt j = d.inner.packetsAt j) ∨
      ∃ item d', dequeueTurn now d = .leave (some (item, d')) ∧ Scheduled L limit quantum d'.inner ∧
        (item = none → ∀ j, d.inner.packetsAt j = []) := by
  obtain ⟨found, s, hnext, hchosen⟩ := nextFlow_chosen h
  have hsame := nextFlow_same hnext
  cases found with
  | none =>
    obtain ⟨hnew, hold⟩ := hchosen.none rfl
    refine .inr ⟨none, { d with inner := s }, ?_, hchosen.scheduled, fun _ j => ?_⟩
    · rw [dequeueTurn, hnext]
    · rw [← hsame.packetsAt j]
      exact hchosen.scheduled.idle hnew hold j
  | some k =>
    obtain ⟨hfirst, flow, hflow, hpositive⟩ := hchosen.some k rfl
    have hok := hchosen.scheduled.ok k flow hflow
    obtain ⟨item, c, hdeq, hc, hsize, hempty⟩ := hok.child.dequeue now
    have hflow' := flow_withChild hflow c
    cases item with
    | none =>
      obtain ⟨hnil, hnil'⟩ := hempty rfl
      obtain ⟨d', hturn, hinner⟩ := dequeueTurn_skips hnext hflow hdeq
      have hs := hchosen.scheduled.withChild hflow hc fun hne => absurd hnil' hne
      obtain ⟨hemptied, hless⟩ := hs.emptied hfirst hflow' hnil'
      refine .inl ⟨d', hturn, hinner ▸ hemptied, ?_, ?_⟩
      · rw [hinner]
        exact hless.trans_le hchosen.weight
      · intro j
        rw [hinner, (emptied_same _ k).packetsAt j, packetsAt_withChild hflow, ← hsame.packetsAt j]
        split
        · next hj =>
          subst hj
          rw [hnil', packetsAt, hflow]
          exact hnil.symm
        · rfl
    | some i =>
      obtain ⟨d', hturn, hinner⟩ := dequeueTurn_serves hnext hflow hdeq
      have hactive : flow.m_status ≠ .inactive := by
        refine active_of_placeOf hflow ?_
        obtain ⟨newFlows, hnew⟩ | ⟨-, oldFlows, hold⟩ := hfirst
        · rw [hchosen.scheduled.listed.mem_first.mp (hnew ▸ List.mem_cons_self)]
          exact Place.noConfusion
        · rw [hchosen.scheduled.listed.mem_second.mp (hold ▸ List.mem_cons_self)]
          exact Place.noConfusion
      have hs := hchosen.scheduled.withChild hflow hc fun _ => hactive
      have hsize := hsize i rfl
      refine .inr ⟨some i, d', hturn, ?_, fun hnone => absurd hnone (Option.some_ne_none _)⟩
      rw [hinner]
      exact hs.charge hflow' hpositive hsize (toInt_sub_size (by omega) hpositive)

/-- `DoDequeue` returns, without a packet only if no flow holds one. -/
theorem doDequeue_scheduled (now : Time) (h : Scheduled L limit quantum d.inner) (hL : L < 2 ^ 31) :
    ∃ item d', doDequeue now d = some (item, d') ∧ Scheduled L limit quantum d'.inner ∧
      (item = none → ∀ j, d.inner.packetsAt j = []) := by
  have hstart : Scheduled L limit quantum d.inner ∧ ∀ j, d.inner.packetsAt j = d.inner.packetsAt j := ⟨h, fun _ => rfl⟩
  obtain ⟨result, hturns⟩ := turns_of_measure (dequeueTurn now)
    (I := fun t => Scheduled L limit quantum t.inner ∧ ∀ j, t.inner.packetsAt j = d.inner.packetsAt j) (fun t => t.inner.weight)
    (fun t t' ht hturn => by
      obtain ⟨t₁, hagain, ht₁, hless, hpackets⟩ | ⟨item, t₁, hleave, -⟩ := dequeueTurn_cases now ht.1 hL
      · obtain rfl := Turn.again.inj (hagain.symm.trans hturn)
        exact ⟨⟨ht₁, fun j => (hpackets j).trans (ht.2 j)⟩, hless⟩
      · cases hleave.symm.trans hturn) hstart (Nat.lt_succ_self _)
  have hresult : ∃ item d', result = some (item, d') ∧ Scheduled L limit quantum d'.inner ∧
      (item = none → ∀ j, d.inner.packetsAt j = []) := by
    refine turns_of_invariant (I := fun t => Scheduled L limit quantum t.inner ∧ ∀ j, t.inner.packetsAt j = d.inner.packetsAt j)
      (J := fun r => ∃ item d', r = some (item, d') ∧ Scheduled L limit quantum d'.inner ∧
        (item = none → ∀ j, d.inner.packetsAt j = [])) ?_ ?_ hstart hturns
    · intro t t' ht hturn
      obtain ⟨t₁, hagain, ht₁, -, hpackets⟩ | ⟨item, t₁, hleave, -⟩ := dequeueTurn_cases now ht.1 hL
      · obtain rfl := Turn.again.inj (hagain.symm.trans hturn)
        exact ⟨ht₁, fun j => (hpackets j).trans (ht.2 j)⟩
      · cases hleave.symm.trans hturn
    · intro t r ht hturn
      obtain ⟨t₁, hagain, -⟩ | ⟨item, t₁, hleave, ht₁, hempty⟩ := dequeueTurn_cases now ht.1 hL
      · cases hagain.symm.trans hturn
      · obtain rfl := Turn.leave.inj (hleave.symm.trans hturn)
        exact ⟨item, t₁, rfl, ht₁, fun hitem j => (ht.2 j).symm.trans (hempty hitem j)⟩
  obtain ⟨item, d', rfl, hs, hempty⟩ := hresult
  have hturns : turns (dequeueTurn now) (2 * d.inner.m_newFlows.length + d.inner.m_oldFlows.length + 1) d = _ := hturns
  exact ⟨item, d', by rw [doDequeue, hturns]; rfl, hs, hempty⟩

/-- The queue of the flow does not count to its end. -/
def Roomy (s : FqCoDel Item) (k : Nat) : Prop := (s.packetsAt k).length ≠ 2 ^ 32 - 1

/-- `Enqueue` of a flow's queue disc. -/
theorem ChildOk.enqueue {c c' : QueueDisc (CoDel Item) Item} {i : Item} {stored : Bool}
    (h : ChildOk L limit c) (henq : CoDel.coDelQueueDisc.enqueue now i c = some (stored, c'))
    (hi : (getSize i).toNat ≤ L) (hroom : limit.toNat = 2 ^ 32 - 1 → c.inner.queue.m_packets.length ≠ 2 ^ 32 - 1) :
    ChildOk L limit c' := by
  rw [Methods.enqueue] at henq
  obtain ⟨hmin, hqueue⟩ := CoDel.doEnqueue_queue henq
  have hrequeued : c'.m_requeued = none := (CoDel.doEnqueue_acts henq).sameSlot.requeued.trans h.requeued
  obtain hqueue | hqueue := hqueue
  · exact h.leaves [] hrequeued hmin (congrArg Queue.m_maxSize hqueue)
      (congrArg Queue.m_packets hqueue).symm
  · have hqueue : c.inner.queue.enqueue (setTimeStamp now i) = some c'.inner.queue := hqueue
    have hinsert := Queue.enqueue_eq_some hqueue
    refine ⟨hrequeued, hmin ▸ h.minBytes, ?_, ?_, ?_⟩
    · rw [hinsert]
      exact h.maxSize
    · have hlength := h.length
      have hfull := (Option.ite_none_left_eq_some.mp hqueue).1
      rw [Queue.full, Queue.getCurrentSize, h.maxSize, QueueSize.current, QueueSize.plus, decide_eq_true_eq,
        UInt32.lt_iff_toNat_lt, UInt32.toNat_add, c.inner.queue.nPackets_eq, UInt32.toNat_ofNat'] at hfull
      have hlimit := limit.toNat_lt
      rw [hinsert, Queue.insert_packets, List.length_append, List.length_singleton]
      have hfull : ¬ limit.toNat < (c.inner.queue.m_packets.length % 2 ^ 32 + 1) % 2 ^ 32 := hfull
      by_cases hend : limit.toNat = 2 ^ 32 - 1
      · have := hroom hend
        omega
      · omega
    · intro j hj
      rw [hinsert, Queue.insert_packets, List.mem_append, List.mem_singleton] at hj
      obtain hj | rfl := hj
      · exact h.sizes j hj
      · rw [getSize_setTimeStamp]
        exact hi

/-- A drop from the front of a queue. -/
theorem Scheduled.popped (h : Scheduled L limit quantum s) (hpop : Popped k s s') : Scheduled L limit quantum s' := by
  obtain ⟨flow, item, c, hflow, hdeq, rfl⟩ := hpop
  have hok := h.ok k flow hflow
  obtain ⟨q, hq, hinner⟩ := dequeueInternal_eq_some hdeq
  have hacts : Acts CoDel.internalQueue.packets (⟨0, 0⟩, _) (⟨0, single (some item) + 0⟩, c) :=
    dequeueInternal_acts hdeq
  obtain ⟨hpackets, hmax⟩ := Queue.dequeue_eq_some hq
  have hpackets : flow.queueDisc.inner.queue.m_packets = item :: q.m_packets := hpackets
  refine h.withChild hflow (hok.child.leaves [item] (hacts.sameSlot.requeued.trans hok.child.requeued)
    ?_ ?_ ?_) fun _ => hok.waiting (by rw [hpackets]; exact List.cons_ne_nil _ _)
  · rw [hinner]
    rfl
  · rw [hinner]
    exact hmax
  · rw [hpackets, hinner]
    rfl

theorem Scheduled.drops (h : Scheduled L limit quantum s) (hdrops : Relation.ReflTransGen (Popped k) s s') : Scheduled L limit quantum s' := by
  induction hdrops with
  | refl => exact h
  | tail _ hpop ih => exact ih.popped hpop

theorem enqueueFlow_scheduled {ok : Bool} {i : Item} (h : Scheduled L limit quantum d.inner)
    (henq : enqueueFlow now i k d = some (ok, d')) (hi : (getSize i).toNat ≤ L) (hroom : limit.toNat = 2 ^ 32 - 1 → d.inner.Roomy k)
    (hactive : ∀ flow, d.inner.flows[k]? = some flow → flow.m_status ≠ .inactive) : Scheduled L limit quantum d'.inner := by
  obtain ⟨-, flow, stored, c, hflow, hchild, k', hdrops⟩ := enqueueFlow_eq_some henq
  refine Scheduled.drops (h.withChild hflow ?_ fun _ => hactive flow hflow) hdrops
  refine (h.ok k flow hflow).child.enqueue hchild hi fun hlimit => ?_
  have hlength := hroom (h.maxSize ▸ hlimit)
  rw [Roomy, packetsAt, hflow] at hlength
  exact hlength

/-- A flow at the end of the list of flows. -/
theorem flow_append {flows : List (FqCoDelFlow Item)} {new : FqCoDelFlow Item}
    (h : (flows ++ [new])[k]? = some flow) : flows[k]? = some flow ∨ k = flows.length ∧ flow = new := by
  rw [List.getElem?_append] at h
  split at h
  · exact .inl h
  · rw [List.getElem?_singleton, Option.ite_none_right_eq_some] at h
    exact .inr ⟨by omega, (Option.some.inj h.2).symm⟩

theorem placeOf_append (flows : List (FqCoDelFlow Item)) {new : FqCoDelFlow Item} (hnew : new.m_status = .inactive) :
    placeOf (flows ++ [new]) = placeOf flows := by
  funext j
  rw [placeOf, placeOf]
  by_cases hj : j < flows.length
  · rw [List.getElem?_append_left hj]
  · rw [List.getElem?_append_right (Nat.not_lt.mp hj), List.getElem?_eq_none (Nat.not_lt.mp hj)]
    cases j - flows.length with
    | zero =>
      show new.m_status.place = .out
      rw [hnew]
      rfl
    | succ n => rfl

theorem Scheduled.tagged (h : Scheduled L limit quantum s) (flowHash q : UInt32) : Scheduled L limit quantum (s.tagged flowHash q) := by
  rw [tagged_same]
  exact ⟨h.maxSize, h.quantum, h.listed, h.ok, h.indices, h.positive, h.signed⟩

/-- A flow that is created is inactive. -/
theorem Scheduled.flowFor (h : Scheduled L limit quantum s) {q : UInt32} (hflow : s.flowFor q = (k, s')) :
    Scheduled L limit quantum s' ∧
      (s.m_flowsIndices.lookup q = some k ∧ s' = s ∨ s.m_flowsIndices.lookup q = none ∧ s'.packetsAt k = []) := by
  rw [FqCoDel.flowFor] at hflow
  split at hflow
  · next k hk =>
    cases hflow
    exact ⟨h, .inl ⟨hk, rfl⟩⟩
  · next hnone =>
    cases hflow
    have hchild : ChildOk L s.m_maxSize (s.createFlow q).queueDisc :=
      ⟨rfl, (by decide : (0 : UInt32) < 1500), rfl, Nat.zero_le _, fun i hi => absurd hi List.not_mem_nil⟩
    refine ⟨⟨h.maxSize, h.quantum, ?_, ?_, ?_, h.positive, h.signed⟩, .inr ⟨hnone, ?_⟩⟩
    · show Listed (placeOf (s.flows ++ [s.createFlow q])) _ _
      rw [placeOf_append _ rfl]
      exact h.listed
    · intro j flow hj
      obtain hj | ⟨-, rfl⟩ := flow_append hj
      · exact h.ok j flow hj
      · exact ⟨hchild, fun hne => absurd rfl hne, fun hne => absurd rfl hne, fun hne => absurd rfl hne⟩
    · intro hash j hj
      have hj : ((q, s.flows.length) :: s.m_flowsIndices).lookup hash = some j := hj
      show j < (s.flows ++ [s.createFlow q]).length
      rw [List.length_append, List.length_singleton]
      rw [List.lookup_cons] at hj
      split at hj
      · obtain rfl := Option.some.inj hj
        exact Nat.lt_succ_self _
      · exact Nat.lt_succ_of_lt (h.indices hash j hj)
    · rw [packetsAt]
      show (s.flows ++ [s.createFlow q])[s.flows.length]?.elim [] _ = []
      rw [List.getElem?_concat_length]
      rfl

/-- The flow chosen becomes a new flow, unless it is active. -/
theorem Scheduled.activate (h : Scheduled L limit quantum s) (k : Nat) :
    Scheduled L limit quantum (s.activate k) ∧ ∀ flow, (s.activate k).flows[k]? = some flow → flow.m_status ≠ .inactive := by
  rw [FqCoDel.activate]
  split
  · next hinactive =>
    obtain ⟨flow, hflow, hstatus⟩ := Option.map_eq_some_iff.mp hinactive
    have hok := h.ok k flow hflow
    have hdeficit := toInt_toInt32 h.signed
    have hpositive := h.positive
    constructor
    · refine h.update hflow (fun flow => (flow.setStatus .newFlow).setDeficit s.m_quantum)
        ⟨hok.child, fun _ => FlowStatus.noConfusion, fun _ => ?_, fun _ => hdeficit.le⟩
        _ _ (h.listed.enter (by rw [placeOf_of_flow hflow, hstatus]; rfl))
      show _ < s.m_quantum.toInt32.toInt
      rw [hdeficit]
      omega
    · intro flow' hflow'
      have hflow' : (s.flows.modify k fun flow => (flow.setStatus .newFlow).setDeficit s.m_quantum)[k]? =
        some flow' := hflow'
      rw [List.getElem?_modify, hflow] at hflow'
      simp only [if_true, Option.map_eq_map, Option.map_some, Option.some.injEq] at hflow'
      rw [← hflow']
      exact FlowStatus.noConfusion
  · next hactive =>
    refine ⟨h, fun flow hflow hstatus => hactive ?_⟩
    rw [hflow, Option.map_some, hstatus]

/-- `Enqueue` finds the flow's queue with less than 2^32 - 1 packets. -/
def Room (C : Classifier Item) (i : Item) (s : FqCoDel Item) : Prop :=
  ∀ k, flowOf C i s = some k → s.Roomy k

theorem doEnqueue_scheduled {C : Classifier Item} {ok : Bool} {i : Item} (h : Scheduled L limit quantum d.inner)
    (hi : (getSize i).toNat ≤ L) (hroom : limit.toNat = 2 ^ 32 - 1 → Room C i d.inner) (henq : doEnqueue C now i d = some (ok, d')) :
    Scheduled L limit quantum d'.inner := by
  obtain ⟨-, hinner, -⟩ | ⟨flowHash, q, k, s, hhash, hq, hflow, henq⟩ := doEnqueue_eq_some henq
  · rw [hinner]
    exact h
  · have htagged := tagged_same flowHash q d.inner
    obtain ⟨hs, hqueue⟩ := (h.tagged flowHash q).flowFor hflow
    obtain ⟨hs, hactive⟩ := hs.activate k
    refine enqueueFlow_scheduled hs henq hi (fun hlimit => ?_) hactive
    rw [Roomy, (activate_same s k).packetsAt k]
    obtain ⟨hlookup, rfl⟩ | ⟨-, hnil⟩ := hqueue
    · rw [htagged] at hlookup ⊢
      refine hroom hlimit k ?_
      rw [flowOf, hhash]
      show (d.inner.queueIndex flowHash).bind _ = some k
      rw [hq]
      exact hlookup
    · rw [hnil, List.length_nil]
      omega

end Schedule

/-- There is room whenever a packet is enqueued. -/
def AllRoom (C : Classifier Item) : Session (FqCoDel Item) Item → List (Op Item) → Prop
  | _, [] => True
  | r, call :: calls =>
    (∀ now i, call = .enqueue now i → Room C i r.disc.inner) ∧
      ∀ r', (fqCoDelQueueDisc C).serve r call = some r' → AllRoom C r' calls

/-- The flow is on the list of its status, once, and on no other. -/
structure InPlace (s : FqCoDel Item) (k : Nat) (flow : FqCoDelFlow Item) : Prop where
  inactive : flow.m_status = .inactive → s.m_newFlows.count k = 0 ∧ s.m_oldFlows.count k = 0
  newFlow : flow.m_status = .newFlow → s.m_newFlows.count k = 1 ∧ s.m_oldFlows.count k = 0
  oldFlow : flow.m_status = .oldFlow → s.m_newFlows.count k = 0 ∧ s.m_oldFlows.count k = 1

/-- What the scheduler relies on, if no packet has more than `L` bytes, and what it achieves. -/
structure WellScheduled (L : Nat) (quantum : UInt32) (d : QueueDisc (FqCoDel Item) Item) : Prop where
  inPlace : ∀ (k : Nat) flow, d.inner.flows[k]? = some flow → InPlace d.inner k flow
  waiting : ∀ (k : Nat) flow, d.inner.flows[k]? = some flow →
    flow.queueDisc.inner.queue.m_packets ≠ [] → flow.m_status ≠ .inactive
  deficit : ∀ k ∈ d.inner.m_newFlows ++ d.inner.m_oldFlows, ∃ flow, d.inner.flows[k]? = some flow ∧
    -(L : Int) < flow.m_deficit.toInt ∧ flow.m_deficit.toInt ≤ quantum.toNat
  dequeues : ∀ now, ∃ item d', doDequeue now d = some (item, d') ∧
    (item = none → ∀ k, d.inner.packetsAt k = [])

section Runs

variable {L : Nat} {limit quantum : UInt32} {s : FqCoDel Item} {C : Classifier Item}
  {r r' : Session (FqCoDel Item) Item} {call : Op Item} {calls : List (Op Item)}

theorem Scheduled.inPlace (h : Scheduled L limit quantum s) {k : Nat} {flow : FqCoDelFlow Item}
    (hflow : s.flows[k]? = some flow) : InPlace s k flow := by
  have hfirst := h.listed.first k
  have hsecond := h.listed.second k
  rw [placeOf_of_flow hflow] at hfirst hsecond
  constructor
  all_goals
    intro hstatus
    rw [hstatus] at hfirst hsecond
    exact ⟨hfirst, hsecond⟩

theorem Scheduled.wellScheduled {d : QueueDisc (FqCoDel Item) Item} (h : Scheduled L limit quantum d.inner)
    (hL : L < 2 ^ 31) : WellScheduled L quantum d where
  inPlace k flow hflow := h.inPlace hflow
  waiting k flow hflow := (h.ok k flow hflow).waiting
  deficit k hk := by
    have hplace : placeOf d.inner.flows k ≠ .out := by
      obtain hk | hk := List.mem_append.mp hk
      · rw [h.listed.mem_first.mp hk]
        exact Place.noConfusion
      · rw [h.listed.mem_second.mp hk]
        exact Place.noConfusion
    obtain ⟨flow, hflow⟩ := flow_of_placeOf hplace
    have hactive := active_of_placeOf hflow hplace
    have hok := h.ok k flow hflow
    rw [h.quantum] at hok
    exact ⟨flow, hflow, hok.above hactive, hok.below hactive⟩
  dequeues now := by
    obtain ⟨item, d', hdeq, -, hempty⟩ := doDequeue_scheduled now h hL
    exact ⟨item, d', hdeq, hempty⟩

theorem started_scheduled {config : FqCoDel Item} (hpositive : 0 < config.m_quantum.toNat)
    (hsigned : config.m_quantum.toNat < 2 ^ 31) :
    Scheduled L config.m_maxSize config.m_quantum (started config).disc.inner where
  maxSize := rfl
  quantum := rfl
  listed := .empty
  ok _ _ hflow := nomatch hflow
  indices _ _ hk := nomatch hk
  positive := hpositive
  signed := hsigned

theorem release_inner (d : QueueDisc (FqCoDel Item) Item) (i : Item) :
    (d.release i).inner = d.inner := by
  rw [QueueDisc.release]
  split
  · exact packetDequeued_inner _ _
  · rfl

/-- A call keeps the schedule. -/
theorem serve_scheduled (h : Scheduled L limit quantum r.disc.inner) (hL : L < 2 ^ 31)
    (hsize : ∀ now i, call = .enqueue now i → (getSize i).toNat ≤ L)
    (hroom : limit.toNat = 2 ^ 32 - 1 → ∀ now i, call = .enqueue now i → Room C i r.disc.inner)
    (hserve : (fqCoDelQueueDisc C).serve r call = some r') : Scheduled L limit quantum r'.disc.inner := by
  cases call with
  | enqueue now i =>
    obtain ⟨⟨ok, d⟩, henq, heq⟩ := Option.bind_eq_some_iff.mp hserve
    cases heq
    have henq : doEnqueue C now (setTimeStamp now i) (r.disc.countReceived i) = some (ok, d) := henq
    refine doEnqueue_scheduled (d := r.disc.countReceived i) h ?_ (fun hlimit k hk => ?_) henq
    · rw [getSize_setTimeStamp]
      exact hsize now i rfl
    · refine hroom hlimit now i rfl k ?_
      rw [flowOf, C.flowHash_setTimeStamp] at hk
      exact hk
  | dequeue now =>
    obtain ⟨⟨item, d⟩, hdeq, heq⟩ := Option.bind_eq_some_iff.mp hserve
    cases heq
    rw [Methods.dequeue] at hdeq
    split at hdeq
    · cases hdeq
      rw [release_inner]
      exact h
    · obtain ⟨item', d', hdo, hs, -⟩ := doDequeue_scheduled now h hL
      cases hdo.symm.trans hdeq
      exact hs

theorem runs_scheduled (h : Scheduled L limit quantum r.disc.inner) (hL : L < 2 ^ 31)
    (hsizes : ∀ now i, .enqueue now i ∈ calls → (getSize i).toNat ≤ L)
    (hroom : limit.toNat = 2 ^ 32 - 1 → AllRoom C r calls)
    (hruns : calls.foldlM (fqCoDelQueueDisc C).serve r = some r') : Scheduled L limit quantum r'.disc.inner := by
  induction calls generalizing r with
  | nil =>
    cases hruns
    exact h
  | cons call calls ih =>
    rw [List.foldlM_cons] at hruns
    obtain ⟨r₁, hserve, hruns⟩ := Option.bind_eq_some_iff.mp hruns
    refine ih (serve_scheduled h hL ?_ (fun hlimit => (hroom hlimit).1) hserve) ?_ ?_ hruns
    · rintro now i rfl
      exact hsizes now i List.mem_cons_self
    · intro now i hmem
      exact hsizes now i (List.mem_cons_of_mem call hmem)
    · exact fun hlimit => (hroom hlimit).2 r₁ hserve

end Runs

/-- FQ-CoDel is well scheduled after any calls, if there is room whenever a packet is enqueued and packets are
counted up to the largest number. -/
theorem scheduling (C : Classifier Item) (config : FqCoDel Item) (L : Nat) (calls : List (Op Item))
    (r : Session (FqCoDel Item) Item) (hpositive : 0 < config.m_quantum.toNat)
    (hsigned : config.m_quantum.toNat < 2 ^ 31) (hL : L < 2 ^ 31)
    (hsizes : ∀ now i, .enqueue now i ∈ calls → (getSize i).toNat ≤ L)
    (hroom : config.m_maxSize.toNat = 2 ^ 32 - 1 → AllRoom C (started config) calls)
    (h : calls.foldlM (fqCoDelQueueDisc C).serve (started config) = some r) :
    WellScheduled L config.m_quantum r.disc :=
  (runs_scheduled (started_scheduled hpositive hsigned) hL hsizes hroom h).wellScheduled hL

/-- All packets are of one flow. -/
def oneFlow : Classifier Ipv4QueueDiscItem := ⟨fun _ => some 0, fun _ _ => rfl⟩

/-- A datagram of one byte. -/
def oneByte : Ipv4QueueDiscItem := { payload := [0] }

def oneByteCalls : List (Op Ipv4QueueDiscItem) := [.enqueue 0 oneByte, .enqueue 5 oneByte, .dequeue 9]

theorem scheduling_oneByte :
    ∃ r, oneByteCalls.foldlM (fqCoDelQueueDisc oneFlow).serve (started { m_quantum := 1500 }) = some r ∧
      r.returned.length = 1 ∧ WellScheduled 21 1500 r.disc :=
  ⟨_, rfl, rfl, scheduling oneFlow { m_quantum := 1500 } 21 oneByteCalls _ (by decide) (by decide) (by decide)
    (by
      intro now i hi
      simp only [oneByteCalls, List.mem_cons, Op.enqueue.injEq, reduceCtorEq, List.not_mem_nil, or_false] at hi
      obtain ⟨-, rfl⟩ | ⟨-, rfl⟩ := hi <;> decide) (fun h => absurd h (by decide)) rfl⟩

/-- The largest limit that a queue can have. -/
def unlimited : FqCoDel Ipv4QueueDiscItem := { m_maxSize := 4294967295, m_quantum := 1500 }

/-- One flow with its first quantum. -/
def lone (status : FlowStatus) (c : QueueDisc (CoDel Ipv4QueueDiscItem) Ipv4QueueDiscItem)
    (newFlows oldFlows : List Nat) : FqCoDel Ipv4QueueDiscItem :=
  { unlimited with
    flows := [{ m_deficit := 1500, m_status := status, queueDisc := c }]
    m_flowsIndices := [(0, 0)]
    m_newFlows := newFlows
    m_oldFlows := oldFlows }

/-- The new flow holds `n` packets. -/
def Filled (n : Nat) (s : FqCoDel Ipv4QueueDiscItem) : Prop :=
  ∃ c, s = lone .newFlow c [0] [] ∧ c.m_requeued = none ∧
    c.inner.queue.m_maxSize = ⟨.packets, 4294967295⟩ ∧ c.inner.queue.m_packets.length = n

theorem filled_one : ∃ r, (fqCoDelQueueDisc oneFlow).serve (started unlimited) (.enqueue 0 oneByte) = some r ∧
    Filled 1 r.disc.inner :=
  ⟨_, rfl, _, rfl, rfl, rfl, rfl⟩

theorem not_largest_lt (x : UInt32) : ¬ (4294967295 : UInt32) < x := by
  have hx := x.toNat_lt
  rw [UInt32.lt_iff_toNat_lt]
  show ¬ 4294967295 < x.toNat
  omega

/-- No counter ever says that there is no room. -/
theorem enqueue_unlimited {c : QueueDisc (CoDel Ipv4QueueDiscItem) Ipv4QueueDiscItem}
    (hmax : c.inner.queue.m_maxSize = ⟨.packets, 4294967295⟩) :
    ∃ c', CoDel.coDelQueueDisc.enqueue 0 oneByte c = some (true, c') ∧ c'.m_requeued = c.m_requeued ∧
      c'.inner.queue = c.inner.queue.insert oneByte := by
  have hover : (c.countReceived oneByte).overLimit CoDel.internalQueue oneByte = false := by
    rw [overLimit]
    show decide (c.inner.queue.m_maxSize.m_value < _) = false
    rw [hmax]
    exact decide_eq_false (not_largest_lt _)
  have hfull : c.inner.queue.full oneByte = false := by
    rw [Queue.full, hmax]
    exact decide_eq_false (not_largest_lt _)
  have henq : c.inner.queue.enqueue oneByte = some (c.inner.queue.insert oneByte) := by
    rw [Queue.enqueue, hfull]
    rfl
  refine ⟨({ c.countReceived oneByte with
    inner := { c.inner with queue := c.inner.queue.insert oneByte } } : QueueDisc _ _).packetEnqueued oneByte, ?_, rfl, rfl⟩
  show some (if (c.countReceived oneByte).overLimit CoDel.internalQueue oneByte then _ else
    (c.countReceived oneByte).enqueueInternal CoDel.internalQueue oneByte) = _
  rw [hover, enqueueInternal]
  have henq : (CoDel.internalQueue.get (c.countReceived oneByte).inner).enqueue oneByte = _ := henq
  rw [henq]
  rfl

theorem filled_succ {n : Nat} {r : Session (FqCoDel Ipv4QueueDiscItem) Ipv4QueueDiscItem}
    (h : Filled n r.disc.inner) :
    ∃ r', (fqCoDelQueueDisc oneFlow).serve r (.enqueue 0 oneByte) = some r' ∧ Filled (n + 1) r'.disc.inner := by
  obtain ⟨c, hinner, hrequeued, hmax, hlength⟩ := h
  obtain ⟨c', henq, hrequeued', hqueue⟩ := enqueue_unlimited hmax
  obtain ⟨⟨nPackets, nBytes, stats, quota, running, requeued, peeked, traces, inner⟩, returned⟩ := r
  have hinner : inner = lone .newFlow c [0] [] := hinner
  subst hinner
  let d : QueueDisc (FqCoDel Ipv4QueueDiscItem) Ipv4QueueDiscItem :=
    ⟨nPackets, nBytes, stats, quota, running, requeued, peeked, traces, lone .newFlow c [0] []⟩
  obtain ⟨d', hchild, hinner⟩ := onChild_of_eq
    (childOf 0 { m_deficit := 1500, m_status := .newFlow, queueDisc := c }) _ (d.countReceived oneByte) henq
  have hinner : d'.inner = lone .newFlow { c' with traces := [] } [0] [] := hinner
  have hflow : enqueueFlow 0 oneByte 0 (d.countReceived oneByte) = some (true, d') := by
    have hflows : (d.countReceived oneByte).inner.flows[0]? =
      some { m_deficit := 1500, m_status := .newFlow, queueDisc := c } := rfl
    have hroom : ¬ d'.inner.m_maxSize < d'.m_nPackets := by
      rw [hinner]
      exact not_largest_lt _
    rw [enqueueFlow, hflows]
    simp only [Option.bind_eq_bind, Option.bind_some, hchild]
    rw [if_neg hroom]
    rfl
  refine ⟨{ disc := d', returned := returned }, ?_, { c' with traces := [] }, hinner, ?_, ?_, ?_⟩
  · show (enqueueFlow 0 oneByte 0 (d.countReceived oneByte)).bind _ = _
    rw [hflow]
    rfl
  · exact hrequeued'.trans hrequeued
  · show c'.inner.queue.m_maxSize = _
    rw [hqueue]
    exact hmax
  · show c'.inner.queue.m_packets.length = _
    rw [hqueue, Queue.insert_packets, List.length_append, hlength]
    rfl

theorem filled_runs (n : Nat) :
    ∃ r, (List.replicate (n + 1) (Op.enqueue 0 oneByte)).foldlM (fqCoDelQueueDisc oneFlow).serve
      (started unlimited) = some r ∧ Filled (n + 1) r.disc.inner := by
  induction n with
  | zero => exact filled_one
  | succ n ih =>
    obtain ⟨r, hruns, hr⟩ := ih
    obtain ⟨r', hserve, hr'⟩ := filled_succ hr
    refine ⟨r', ?_, hr'⟩
    rw [List.replicate_succ', List.foldlM_append, hruns]
    show ((fqCoDelQueueDisc oneFlow).serve r (.enqueue 0 oneByte)).bind _ = _
    rw [hserve]
    rfl

/-- A flow whose queue counts no packets has none to give. -/
theorem dequeue_uncounted (now : Time) {c : QueueDisc (CoDel Ipv4QueueDiscItem) Ipv4QueueDiscItem}
    (hrequeued : c.m_requeued = none) (hcount : c.inner.queue.m_nPackets = 0) :
    ∃ c', CoDel.coDelQueueDisc.dequeue now c = some (none, c') ∧ c'.m_requeued = none ∧
      c'.inner.queue = c.inner.queue := by
  have hnone : (CoDel.internalQueue.get c.inner).dequeue = none := (Queue.dequeue_eq_none _).mpr hcount
  refine ⟨{ c with inner := { c.inner with m_dropping := false } }, ?_, hrequeued, rfl⟩
  have hdo : CoDel.doDequeue now c = some (none, { c with inner := { c.inner with m_dropping := false } }) := by
    rw [CoDel.doDequeue, dequeueInternal, hnone]
  rw [← hdo, Methods.dequeue]
  split
  · next hsome => rw [hrequeued] at hsome; cases hsome
  · rfl

/-- The flow is a new flow first, then an old flow, and then inactive. -/
theorem doDequeue_uncounted (now : Time) {d : QueueDisc (FqCoDel Ipv4QueueDiscItem) Ipv4QueueDiscItem}
    {c : QueueDisc (CoDel Ipv4QueueDiscItem) Ipv4QueueDiscItem} (hinner : d.inner = lone .newFlow c [0] [])
    (hrequeued : c.m_requeued = none) (hcount : c.inner.queue.m_nPackets = 0) :
    ∃ d' c', doDequeue now d = some (none, d') ∧ d'.inner = lone .inactive c' [] [] ∧
      c'.inner.queue = c.inner.queue := by
  obtain ⟨c₁, hdeq₁, hrequeued₁, hqueue₁⟩ := dequeue_uncounted now hrequeued hcount
  obtain ⟨d₁, hturn₁, hinner₁⟩ := dequeueTurn_skips (s := lone .newFlow c [0] [])
    (k := 0) (by rw [hinner]; rfl) rfl hdeq₁
  have hinner₁ : d₁.inner = lone .oldFlow { c₁ with traces := [] } [] [0] := hinner₁
  obtain ⟨c₂, hdeq₂, -, hqueue₂⟩ := dequeue_uncounted (c := { c₁ with traces := [] }) now hrequeued₁
    (by show c₁.inner.queue.m_nPackets = 0; rw [hqueue₁]; exact hcount)
  obtain ⟨d₂, hturn₂, hinner₂⟩ := dequeueTurn_skips (s := lone .oldFlow { c₁ with traces := [] } [] [0])
    (k := 0) (by rw [hinner₁]; rfl) rfl hdeq₂
  have hinner₂ : d₂.inner = lone .inactive { c₂ with traces := [] } [] [] := hinner₂
  have hturn₃ : dequeueTurn now d₂ = .leave (some (none, { d₂ with inner := d₂.inner })) := by
    have hnext : nextFlow d₂.inner = some (none, d₂.inner) := by
      rw [hinner₂]
      rfl
    rw [dequeueTurn, hnext]
  refine ⟨d₂, { c₂ with traces := [] }, ?_, hinner₂, hqueue₂.trans hqueue₁⟩
  rw [doDequeue, hinner]
  show (turns (dequeueTurn now) 3 d).join = _
  rw [turns, hturn₁]
  simp only
  rw [turns, hturn₂]
  simp only
  rw [turns, hturn₃]
  rfl

/-- After 2^32 packets no packet is dequeued. -/
theorem not_scheduling_wrap :
    ∃ r, (List.replicate 4294967296 (Op.enqueue 0 oneByte)).foldlM (fqCoDelQueueDisc oneFlow).serve
        (started unlimited) = some r ∧ (r.disc.inner.packetsAt 0).length = 4294967296 ∧
      (∃ d', doDequeue 0 r.disc = some (none, d') ∧ d'.inner.flows.map FqCoDelFlow.m_status = [.inactive] ∧
        (d'.inner.packetsAt 0).length = 4294967296) ∧ ¬ WellScheduled 21 unlimited.m_quantum r.disc := by
  obtain ⟨r, hruns, c, hinner, hrequeued, -, hlength⟩ := filled_runs 4294967295
  have hcount : c.inner.queue.m_nPackets = 0 := by
    rw [c.inner.queue.nPackets_eq, hlength]
    rfl
  obtain ⟨d', c', hdeq, hinactive, hqueue⟩ := doDequeue_uncounted 0 hinner hrequeued hcount
  have hpackets : (r.disc.inner.packetsAt 0).length = 4294967296 := by
    rw [hinner]
    exact hlength
  refine ⟨r, hruns, hpackets, ⟨d', hdeq, by rw [hinactive]; rfl, ?_⟩, fun h => ?_⟩
  · rw [hinactive]
    show c'.inner.queue.m_packets.length = 4294967296
    rw [hqueue, hlength]
  · obtain ⟨item, d'', hdeq', hempty⟩ := h.dequeues 0
    cases hdeq.symm.trans hdeq'
    rw [hempty rfl 0] at hpackets
    cases hpackets

end FqCoDel

end Ns3.TrafficControl
