import Mathlib.Data.Int.Bitwise
import Mathlib.Data.List.Basic
import Mathlib.Order.Lattice

/-!
# Writing up to a bound

A writer puts data one behind the other, and counts the room that each of them takes in a word of 32
bits. It stops before the first datum with which the count would pass the bound. Sums that do not fit a
word wrap, so what is written is known of those that do: it is what `fitting` leaves.
-/

namespace Ns3.Lib

/-- What is written at a time. -/
inductive Datum where
  | u8 (x : Nat)
  | u16 (x : Nat)
  | u32 (x : Nat)
  | u64 (x : Nat)
  | raw (bytes : List UInt8)
  deriving DecidableEq, Repr

def Datum.length : Datum → Nat
  | u8 _ => 1
  | u16 _ => 2
  | u32 _ => 4
  | u64 _ => 8
  | raw bytes => bytes.length

/-- A datum, and its place in the output. -/
structure Written where
  place : Nat
  datum : Datum
  deriving DecidableEq, Repr

/-- The place behind a datum. -/
def Written.stop (w : Written) : Nat := w.place + w.datum.length

/-- The next multiple of four. -/
def pad4 (n : Nat) : Nat := (n + 3) / 4 * 4

theorem le_pad4 (n : Nat) : n ≤ pad4 n := by
  unfold pad4
  omega

/-- What a writer does: it puts a datum and moves on by its room, or sets the word at its start. -/
inductive WriteStep where
  | put (d : Datum) (room : Nat)
  | atStart (x : Nat)
  deriving DecidableEq, Repr

namespace WriteStep

/-- A datum with no room to spare. -/
def tight (d : Datum) : WriteStep := put d d.length

/-- A datum with room up to a multiple of four. -/
def padded (d : Datum) : WriteStep := put d (pad4 d.length)

def room : WriteStep → Nat
  | put _ room => room
  | atStart _ => 0

/-- The datum is in its room. -/
def Tidy : WriteStep → Prop
  | put d room => d.length ≤ room
  | atStart _ => True

theorem tidy_tight (d : Datum) : (tight d).Tidy := Nat.le_refl d.length

theorem tidy_padded (d : Datum) : (padded d).Tidy := le_pad4 d.length

end WriteStep

/-- The writer from a place on, with so much counted already: whether it came to its end, and what it has
written. -/
def putAll (maxSize start : Nat) : Nat → Nat → List WriteStep → Bool × List Written
  | _, _, [] => (true, [])
  | place, size, .atStart x :: rest =>
    let r := putAll maxSize start place size rest
    (r.1, ⟨start, .u32 x⟩ :: r.2)
  | place, size, .put d room :: rest =>
    if (size + room) % 2 ^ 32 ≤ maxSize then
      let r := putAll maxSize start (place + room % 2 ^ 32) ((size + room) % 2 ^ 32) rest
      (r.1, ⟨place, d⟩ :: r.2)
    else (false, [])

/-- The room of all steps. -/
def totalRoom (steps : List WriteStep) : Nat := (steps.map WriteStep.room).sum

/-- What the steps write when nothing stops them. -/
def writtenBy (start : Nat) : Nat → List WriteStep → List Written
  | _, [] => []
  | place, .atStart x :: rest => ⟨start, .u32 x⟩ :: writtenBy start place rest
  | place, .put d room :: rest => ⟨place, d⟩ :: writtenBy start (place + room) rest

/-- The steps that there is room for. -/
def fitting : Nat → List WriteStep → List WriteStep
  | _, [] => []
  | left, .atStart x :: rest => .atStart x :: fitting left rest
  | left, .put d room :: rest => if room ≤ left then .put d room :: fitting (left - room) rest else []

/-- The place behind all that is written. -/
def lastStop (ws : List Written) : Nat := ws.foldr (fun w n => max w.stop n) 0

variable {start place size maxSize left n : Nat} {steps : List WriteStep} {ws : List Written}

@[simp] theorem totalRoom_nil : totalRoom [] = 0 := rfl

@[simp] theorem totalRoom_cons (s : WriteStep) (rest : List WriteStep) :
    totalRoom (s :: rest) = s.room + totalRoom rest := by
  simp [totalRoom]

@[simp] theorem totalRoom_append (steps rest : List WriteStep) :
    totalRoom (steps ++ rest) = totalRoom steps + totalRoom rest := by
  simp [totalRoom]

theorem lastStop_le : lastStop ws ≤ n ↔ ∀ w ∈ ws, w.stop ≤ n := by
  induction ws with
  | nil => exact iff_of_true (Nat.zero_le n) fun w hw => absurd hw List.not_mem_nil
  | cons w ws ih =>
    show max w.stop (lastStop ws) ≤ n ↔ _
    rw [Nat.max_le, ih, List.forall_mem_cons]

/-- Steps with room for all of them fit. -/
theorem fitting_eq (h : totalRoom steps ≤ left) : fitting left steps = steps := by
  induction steps generalizing left with
  | nil => rfl
  | cons s rest ih =>
    rw [totalRoom_cons] at h
    cases s with
    | atStart x => rw [fitting, ih (by rwa [WriteStep.room, Nat.zero_add] at h)]
    | put d room =>
      have hroom : room + totalRoom rest ≤ left := h
      rw [fitting, if_pos (by omega), ih (by omega)]

/-- When no sum wraps, what fits is written, and the writer comes to its end if that is all. -/
theorem putAll_eq (steps : List WriteStep) (hsize : size ≤ maxSize) (hsum : size + totalRoom steps < 2 ^ 32)
    (start place : Nat) :
    putAll maxSize start place size steps =
      (decide (size + totalRoom steps ≤ maxSize), writtenBy start place (fitting (maxSize - size) steps)) := by
  induction steps generalizing size place with
  | nil =>
    rw [totalRoom_nil, Nat.add_zero, decide_eq_true hsize]
    rfl
  | cons s rest ih =>
    rw [totalRoom_cons] at hsum ⊢
    cases s with
    | atStart x =>
      rw [WriteStep.room, Nat.zero_add] at hsum ⊢
      rw [putAll, ih hsize hsum]
      rfl
    | put d room =>
      change size + (room + totalRoom rest) < 2 ^ 32 at hsum
      show _ = (decide (size + (room + totalRoom rest) ≤ maxSize), _)
      rw [putAll, fitting, Nat.mod_eq_of_lt (by omega), Nat.mod_eq_of_lt (by omega)]
      by_cases hfit : size + room ≤ maxSize
      · rw [if_pos hfit, if_pos (by omega), ih hfit (by omega), Nat.add_assoc, Nat.sub_add_eq]
        rfl
      · rw [if_neg hfit, if_neg (by omega), decide_eq_false (by omega)]
        rfl

/-- Behind its first word a writer stays within the room it counts. -/
theorem stop_le_of_mem (start place : Nat) (htidy : ∀ s ∈ steps, s.Tidy) (hstart : start + 4 ≤ place) :
    ∀ w ∈ writtenBy start place steps, w.stop ≤ place + totalRoom steps := by
  induction steps generalizing place with
  | nil => exact fun w hw => absurd hw List.not_mem_nil
  | cons s rest ih =>
    obtain ⟨hs, hrest⟩ := List.forall_mem_cons.mp htidy
    rw [totalRoom_cons]
    cases s with
    | atStart x =>
      rw [WriteStep.room, Nat.zero_add]
      refine List.forall_mem_cons.mpr ⟨?_, ih place hrest hstart⟩
      show start + 4 ≤ _
      omega
    | put d room =>
      have hlen : d.length ≤ room := hs
      refine List.forall_mem_cons.mpr ⟨?_, fun w hw => ?_⟩
      · show place + d.length ≤ place + (room + totalRoom rest)
        omega
      · have hle := ih (place + room) hrest (by omega) w hw
        show _ ≤ place + (room + totalRoom rest)
        omega

end Ns3.Lib
