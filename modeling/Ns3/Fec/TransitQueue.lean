import Ns3.Fec.Packet
import Mathlib.Data.List.Sort

/-!
# The transit queue

Both agents keep packets back in a list sorted by serial and hand them out from its
front: `InsertTransitQueue` and `GetPacket`
(`contrib/fec/model/fec-agent.cc:614–655`, `contrib/fec/model/fec-router-agent.cc:516–560`).
-/

namespace Ns3.Fec

/-- `TransitQueue`. -/
structure TransitQueue where
  serial_ : UInt32
  p_ : Packet
  deriving DecidableEq, Repr

/-- `InsertTransitQueue`: before the first element of larger serial. -/
def insertTransitQueue (tq : TransitQueue) : List TransitQueue → List TransitQueue
  | [] => [tq]
  | t :: q => if t.serial_ > tq.serial_ then tq :: t :: q else t :: insertTransitQueue tq q

/-- The queue is in nondecreasing serial order. -/
def Ordered (q : List TransitQueue) : Prop := q.Pairwise fun a b => a.serial_ ≤ b.serial_

/-- Insertion adds one element and loses none. -/
theorem insertTransitQueue_perm (tq : TransitQueue) (q : List TransitQueue) :
    (insertTransitQueue tq q).Perm (tq :: q) := by
  induction q with
  | nil => exact List.Perm.refl _
  | cons t q ih =>
    rw [insertTransitQueue]
    split
    · exact List.Perm.refl _
    · exact (ih.cons t).trans (List.Perm.swap tq t q)

/-- The elements after an insertion. -/
@[simp] theorem mem_insertTransitQueue {tq t : TransitQueue} {q : List TransitQueue} :
    t ∈ insertTransitQueue tq q ↔ t = tq ∨ t ∈ q := by
  rw [(insertTransitQueue_perm tq q).mem_iff, List.mem_cons]

/-- Insertion keeps the queue in order. -/
theorem Ordered.insert {q : List TransitQueue} (h : Ordered q) (tq : TransitQueue) :
    Ordered (insertTransitQueue tq q) := by
  induction q with
  | nil => simp [insertTransitQueue, Ordered]
  | cons t q ih =>
    obtain ⟨ht, hq⟩ := List.pairwise_cons.mp h
    rw [insertTransitQueue]
    split
    · next hlt =>
      refine List.pairwise_cons.mpr ⟨?_, h⟩
      intro a ha
      rcases List.mem_cons.mp ha with rfl | ha
      · exact UInt32.le_of_lt hlt
      · exact UInt32.le_trans (UInt32.le_of_lt hlt) (ht a ha)
    · next hle =>
      refine List.pairwise_cons.mpr ⟨?_, ih hq⟩
      intro a ha
      rcases mem_insertTransitQueue.mp ha with rfl | ha
      · exact UInt32.not_lt.mp hle
      · exact ht a ha

end Ns3.Fec
