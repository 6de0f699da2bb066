import Mathlib.Algebra.BigOperators.Group.Multiset.Basic
import Mathlib.Data.Int.Bitwise
import Mathlib.Order.Lattice
import Mathlib.Tactic.Abel

/-!
# Accounts of a store

A store counts what it was given, what it put away, what it took out again and what it threw away, by the
number of things or by any other weight, in counters that may wrap around. At any moment the things that
passed through it are in one of four places; the counters balance when they add up to the weights there.
Each entry in the account goes with one move between the places.
-/

namespace Ns3.Lib

/-- The totals that a store counts, in a commutative group such as the words of a machine. -/
@[ext] structure Account (G : Type*) where
  received : G
  enqueued : G
  dequeued : G
  droppedBefore : G
  droppedAfter : G

/-- Where the things are: handed in but not yet put away, put away, taken out again, and gone. -/
structure Places (α : Type*) where
  fresh : Multiset α
  stored : Multiset α
  taken : Multiset α
  left : Multiset α

variable {α G : Type*} [AddCommGroup G] (w : α → G)

/-- The weight of some things. -/
def weigh (s : Multiset α) : G := (s.map w).sum

@[simp] theorem weigh_zero : weigh w 0 = 0 := by simp [weigh]

@[simp] theorem weigh_cons (a : α) (s : Multiset α) : weigh w (a ::ₘ s) = w a + weigh w s := by
  simp [weigh]

@[simp] theorem weigh_add (s t : Multiset α) : weigh w (s + t) = weigh w s + weigh w t := by
  simp [weigh]

/-- A weight of one for each thing counts them. -/
theorem weigh_one (g : G) (s : Multiset α) : weigh (fun _ => g) s = s.card • g := by
  rw [weigh, Multiset.map_const', Multiset.sum_replicate]

namespace Account

/-- The books before anything happened. -/
def empty : Account G := ⟨0, 0, 0, 0, 0⟩

variable (A : Account G)

def receive (a : α) : Account G := { A with received := A.received + w a }

def enqueue (a : α) : Account G := { A with enqueued := A.enqueued + w a }

def dequeue (a : α) : Account G := { A with dequeued := A.dequeued + w a }

def dropBefore (a : α) : Account G := { A with droppedBefore := A.droppedBefore + w a }

def dropAfter (a : α) : Account G := { A with droppedAfter := A.droppedAfter + w a }

/-- Received is enqueued and dropped before; enqueued less dequeued is stored; dequeued is dropped after,
gone or still in hand. -/
structure Balances (p : Places α) : Prop where
  received : A.received = A.enqueued + A.droppedBefore + weigh w p.fresh
  queued : A.enqueued - A.dequeued = weigh w p.stored
  sent : A.dequeued = A.droppedAfter + weigh w p.taken + weigh w p.left

variable {w A}

theorem Balances.empty : (empty : Account G).Balances w ⟨0, 0, 0, 0⟩ := by
  constructor <;> simp [Account.empty]

/-- Only the weights in the four places count. -/
theorem Balances.congr {p q : Places α} (h : A.Balances w p) (hfresh : weigh w q.fresh = weigh w p.fresh)
    (hstored : weigh w q.stored = weigh w p.stored) (htaken : weigh w q.taken = weigh w p.taken)
    (hleft : weigh w q.left = weigh w p.left) : A.Balances w q where
  received := by rw [h.received, hfresh]
  queued := by rw [h.queued, hstored]
  sent := by rw [h.sent, htaken, hleft]

variable {fresh stored taken left : Multiset α} {a : α}

theorem Balances.receive (h : A.Balances w ⟨fresh, stored, taken, left⟩) (a : α) :
    (A.receive w a).Balances w ⟨a ::ₘ fresh, stored, taken, left⟩ where
  received := by
    show A.received + w a = A.enqueued + A.droppedBefore + weigh w (a ::ₘ fresh)
    rw [h.received, weigh_cons]
    abel
  queued := h.queued
  sent := h.sent

theorem Balances.enqueue (h : A.Balances w ⟨a ::ₘ fresh, stored, taken, left⟩) :
    (A.enqueue w a).Balances w ⟨fresh, a ::ₘ stored, taken, left⟩ where
  received := by
    show A.received = A.enqueued + w a + A.droppedBefore + weigh w fresh
    rw [h.received, weigh_cons]
    abel
  queued := by
    show A.enqueued + w a - A.dequeued = weigh w (a ::ₘ stored)
    rw [weigh_cons, ← h.queued]
    abel
  sent := h.sent

theorem Balances.dropBefore (h : A.Balances w ⟨a ::ₘ fresh, stored, taken, left⟩) :
    (A.dropBefore w a).Balances w ⟨fresh, stored, taken, left⟩ where
  received := by
    show A.received = A.enqueued + (A.droppedBefore + w a) + weigh w fresh
    rw [h.received, weigh_cons]
    abel
  queued := h.queued
  sent := h.sent

theorem Balances.dequeue (h : A.Balances w ⟨fresh, a ::ₘ stored, taken, left⟩) :
    (A.dequeue w a).Balances w ⟨fresh, stored, a ::ₘ taken, left⟩ where
  received := h.received
  queued := by
    have hq := h.queued
    rw [weigh_cons] at hq
    show A.enqueued - (A.dequeued + w a) = weigh w stored
    rw [← sub_sub, hq]
    abel
  sent := by
    show A.dequeued + w a = A.droppedAfter + weigh w (a ::ₘ taken) + weigh w left
    rw [h.sent, weigh_cons]
    abel

theorem Balances.dropAfter (h : A.Balances w ⟨fresh, stored, a ::ₘ taken, left⟩) :
    (A.dropAfter w a).Balances w ⟨fresh, stored, taken, left⟩ where
  received := h.received
  queued := h.queued
  sent := by
    show A.dequeued = A.droppedAfter + w a + weigh w taken + weigh w left
    rw [h.sent, weigh_cons]
    abel

/-- What leaves makes no entry. -/
theorem Balances.leave (h : A.Balances w ⟨fresh, stored, a ::ₘ taken, left⟩) :
    A.Balances w ⟨fresh, stored, taken, a ::ₘ left⟩ where
  received := h.received
  queued := h.queued
  sent := by
    show A.dequeued = A.droppedAfter + weigh w taken + weigh w (a ::ₘ left)
    rw [h.sent, weigh_cons, weigh_cons]
    abel

end Account

end Ns3.Lib
