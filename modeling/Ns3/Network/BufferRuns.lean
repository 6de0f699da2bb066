import Ns3.Lib.Slots
import Ns3.Network.BufferCopy

/-!
# Runs of calls on Buffers

The invariant over every run, and the lists of bytes that Buffers stand for.
-/

namespace Ns3.Network

open Ns3.Lib Buffer

/-! ### Results -/

/-- A result satisfies `P`, or an error is not the one of a method that grows a Buffer in place. -/
def Safe {α : Type} (P : α → Prop) : Except BufferError α → Prop
  | .ok a => P a
  | .error e => e ≠ .inPlace

section Safe

variable {α β : Type} {P : α → Prop} {Q : β → Prop} {r : Except BufferError α}

theorem Safe.bind {f : α → Except BufferError β} (hr : Safe P r) (hf : ∀ a, P a → Safe Q (f a)) :
    Safe Q (r.bind f) := by
  cases r with
  | ok a => exact hf a hr
  | error e => exact hr

theorem Safe.map {f : α → β} (hr : Safe P r) (hf : ∀ a, P a → Q (f a)) : Safe Q (r.map f) := by
  cases r with
  | ok a => exact hf a hr
  | error e => exact hr

theorem Safe.mono {P' : α → Prop} (hr : Safe P r) (hf : ∀ a, P a → P' a) : Safe P' r := by
  cases r with
  | ok a => exact hf a hr
  | error e => exact hr

end Safe

/-! ### Writing anywhere -/

/-- Two heaps that differ in the bytes of their blocks alone. -/
structure Heap.Same (h h' : Heap) : Prop where
  shape : ∀ j, (h'.blocks j).shape = (h.blocks j).shape
  count : ∀ j, (h'.blocks j).m_count = (h.blocks j).m_count
  next : h'.next = h.next
  freeList : h'.freeList = h.freeList

section Same

variable {h h' h'' : Heap} {held : List Nat} {live : List Buffer} {it : Iterator} {n : Nat}

theorem Heap.Same.refl (h : Heap) : h.Same h := ⟨fun _ => rfl, fun _ => rfl, rfl, rfl⟩

theorem Heap.Same.trans (hs : h.Same h') (hs' : h'.Same h'') : h.Same h'' :=
  ⟨fun j => (hs'.shape j).trans (hs.shape j), fun j => (hs'.count j).trans (hs.count j),
    hs'.next.trans hs.next, hs'.freeList.trans hs.freeList⟩

theorem Heap.Inv.same (hi : h.Inv held live) (hs : h.Same h') : h'.Inv held live := by
  refine hi.reshape hs.shape (fun j => (hs.count j).trans (hi.count j)) (fun j hj => ?_)
    (fun j hj => ?_) (hs.freeList ▸ hi.nodup)
  · rw [hs.next] at hj
    exact (hs.count j).trans (hi.fresh j hj)
  · rw [hs.freeList] at hj
    rw [hs.next, hs.count]
    exact hi.free j hj

theorem Heap.write_safe (h : Heap) (i off : Nat) (p : List UInt8) : Safe h.Same (h.write i off p) := by
  rw [Heap.write]
  split
  · exact ⟨fun j => (h.wrote_shape i off p j).1, fun j => (h.wrote_shape i off p j).2, rfl, rfl⟩
  · exact nofun

theorem Heap.read_safe (h : Heap) (i off n : Nat) : Safe (fun _ => True) (h.read i off n) := by
  rw [Heap.read]
  split
  · exact trivial
  · exact BufferError.noConfusion

theorem assert_safe (p : Prop) [Decidable p] : Safe (fun _ => True) (Iterator.assert p) := by
  rw [Iterator.assert]
  split
  · exact trivial
  · exact nofun

theorem write_safe (h : Heap) (it : Iterator) (p : List UInt8) :
    Safe (fun r => h.Same r.1) (it.write h p) :=
  (assert_safe _).bind fun _ _ => (h.write_safe _ _ _).map fun _ hs => hs

theorem writeU8_safe (h : Heap) (it : Iterator) (data : UInt8) :
    Safe (fun r => h.Same r.1) (it.writeU8 h data) :=
  (assert_safe _).bind fun _ _ => (h.write_safe _ _ _).map fun _ hs => hs

theorem writeU8s_safe (h : Heap) (it : Iterator) (data : UInt8) (len : Nat) :
    Safe (fun r => h.Same r.1) (it.writeU8s h data len) :=
  (assert_safe _).bind fun _ _ => (h.write_safe _ _ _).map fun _ hs => hs

theorem writeBetween_safe (h : Heap) (it start stop : Iterator) :
    Safe (fun r => h.Same r.1) (it.writeBetween h start stop) :=
  (assert_safe _).bind fun _ _ => (assert_safe _).bind fun _ _ =>
    (h.read_safe _ _ _).bind fun _ _ => (h.write_safe _ _ _).bind fun h₁ hs₁ =>
    (h₁.write_safe _ _ _).bind fun h₂ hs₂ => (h₂.read_safe _ _ _).bind fun _ _ =>
    (h₂.write_safe _ _ _).map fun _ hs₃ => (hs₁.trans hs₂).trans hs₃

end Same

/-! ### Objects -/

namespace Buffers

variable {s : Buffers} {h' : Heap} {b b' o : Buffer} {i j : Nat} {p : List UInt8}

/-- The Buffers that are not destroyed. -/
def live (s : Buffers) : List Buffer := present s.objects

/-- The Buffers but the object `i`. -/
def others (s : Buffers) (i : Nat) : List Buffer := presentBut s.objects i

/-- The invariant of the heap with all Buffers. -/
def Inv (s : Buffers) : Prop := s.heap.Inv [] s.live

/-- What each object reads. -/
def contents (s : Buffers) : List (Option (List UInt8)) := s.objects.map (Option.map (bytes s.heap))

theorem get_eq : s.get i = .ok b ↔ s.objects[i]? = some (some b) := by
  rw [get]
  split
  · next c hc =>
    rw [hc]
    constructor
    · intro heq
      rw [Except.ok.inj heq]
    · intro heq
      rw [Option.some.inj (Option.some.inj heq)]
  · next hc =>
    constructor
    · nofun
    · intro heq
      exact absurd heq (hc b)

theorem get_safe (s : Buffers) (i : Nat) : Safe (fun b => s.get i = .ok b) (s.get i) := by
  cases hget : s.get i with
  | ok b => exact rfl
  | error e =>
    rw [get] at hget
    split at hget
    · cases hget
    · cases hget
      exact nofun

theorem lt_of_get (hget : s.get i = .ok b) : i < s.objects.length := lt_of_getElem? (get_eq.mp hget)

theorem put_perm (hget : s.get i = .ok b) (r : Heap × Buffer) :
    (s.put i r).live.Perm (r.2 :: s.others i) := present_set (lt_of_get hget) r.2

theorem get_put_ne (hij : j ≠ i) (r : Heap × Buffer) : (s.put i r).get j = s.get j := by
  rw [get, get, put]
  dsimp only
  rw [List.getElem?_set_ne (Ne.symm hij)]

theorem mem_live (hget : s.get i = .ok b) : b ∈ s.live := mem_present (get_eq.mp hget)

theorem mem_others (hget : s.get j = .ok o) (hij : j ≠ i) : o ∈ s.others i :=
  mem_presentBut (get_eq.mp hget) hij

/-- The invariant with the object `i` before the other ones. -/
theorem Inv.split (hi : s.Inv) (hget : s.get i = .ok b) : s.heap.Inv [] (b :: s.others i) :=
  Heap.Inv.perm hi (present_perm (get_eq.mp hget))

theorem Inv.put (hget : s.get i = .ok b) {r : Heap × Buffer} (hi : r.1.Inv [] (r.2 :: s.others i)) :
    (s.put i r).Inv :=
  Heap.Inv.perm hi (put_perm hget r).symm

theorem Inv.push {r : Heap × Buffer} (hi : r.1.Inv [] (r.2 :: s.live)) : (s.push r).Inv :=
  Heap.Inv.perm hi (present_push s.objects r.2).symm

theorem writePiece_safe (s : Buffers) (h : Heap) (it : Iterator) (piece : Piece) :
    Safe (fun r => h.Same r.1) (s.writePiece h it piece) := by
  cases piece with
  | write p => exact write_safe h it p
  | writeU8 data => exact writeU8_safe h it data
  | writeU8s data len => exact writeU8s_safe h it data len
  | writeBetween j start stop => exact (get_safe s j).bind fun o _ => writeBetween_safe h it _ _

theorem writePieces_safe (s : Buffers) (pieces : List Piece) (h : Heap) (it : Iterator) :
    Safe h.Same (s.writePieces h it pieces) := by
  induction pieces generalizing h it with
  | nil => exact .refl h
  | cons piece pieces ih =>
    exact (writePiece_safe s h it piece).bind fun r hs => (ih r.1 r.2).mono fun _ => hs.trans

end Buffers

/-! ### The invariant over runs -/

/-- The conditions of `CheckInternalState`, `buffer.cc:218–227`. -/
def Buffer.CheckInternalState (h : Heap) (b : Buffer) : Prop :=
  let d := h.blocks b.m_data
  let offsetsOk := b.m_start ≤ b.m_zeroAreaStart ∧ b.m_zeroAreaStart ≤ b.m_zeroAreaEnd ∧
    b.m_zeroAreaEnd ≤ b.m_end
  let dirtyOk := d.m_dirtyStart ≤ b.m_start ∧ b.m_end ≤ d.m_dirtyEnd
  let internalSizeOk := b.getInternalEnd ≤ d.m_size ∧ b.m_start ≤ d.m_size ∧
    b.m_zeroAreaStart ≤ d.m_size
  0 < d.m_count ∧ offsetsOk ∧ dirtyOk ∧ internalSizeOk

/-- A call leaves no Buffer of 2^31 bytes or more, and what it removes at a start does not take the
offset of the start over 2^32. -/
def BufferCall.Sized (s : Buffers) : BufferCall → Prop
  | construct zeroSize => zeroSize < 2 ^ 31
  | addAtStart i pieces | addAtEnd i pieces =>
    ∀ b, s.get i = .ok b → b.getSize + Piece.total pieces < 2 ^ 31
  | addAtEndBuffer i j =>
    ∀ b o, s.get i = .ok b → s.get j = .ok o → b.getSize + o.getSize < 2 ^ 31
  | removeAtStart i start | createFragment i start _ =>
    ∀ b, s.get i = .ok b → b.m_start + start < 2 ^ 32
  | _ => True

section Runs

variable {s s' : Buffers} {h : Heap} {b o : Buffer} {live : List Buffer} {c : BufferCall} {i j : Nat}

/-- `AddAtEnd` of a Buffer keeps the invariant also where it writes at a wrong offset. -/
theorem addAtEndBuffer_safe (hi : h.Inv [] (b :: live)) (ho : o ∈ live)
    (hn : (b.bytes h).length + (o.bytes h).length < 2 ^ 31) :
    Safe (fun r => r.1.Inv [] (r.2 :: live)) (b.addAtEndBuffer h o) := by
  by_cases hadj : b.Adjacent h o
  · obtain ⟨h₁, b₁, h₂, b₂, -, hg₂, -, heq⟩ := addAtEndBuffer_adjacent hi ho hadj hn
    rw [heq]
    exact (writeBetween_safe _ _ _ _).map fun _ hs => hg₂.inv.same hs
  · obtain ⟨h₁, b₁, h₂, b₂, -, -, hg₂, -, heq⟩ := addAtEndBuffer_apart hi ho hadj hn
    rw [heq]
    exact (writeBetween_safe _ _ _ _).map fun _ hs => hg₂.inv.same hs

/-- Every call keeps the invariant or ends the run. -/
theorem BufferCall.run_safe (hi : s.Inv) (hc : c.Sized s) : Safe Buffers.Inv (c.run s) := by
  cases c with
  | construct zeroSize => exact .push (initializeZeroes_made hi hc).1.inv
  | copy i =>
    exact (s.get_safe i).map fun b hb => .push (copy_made hi (Buffers.mem_live hb)).inv
  | assign i j =>
    refine (s.get_safe i).bind fun b hb => (s.get_safe j).map fun o ho => .put hb ?_
    by_cases hij : j = i
    · obtain rfl : o = b := by
        rw [hij, hb] at ho
        exact (Except.ok.inj ho).symm
      rw [Buffer.assign, if_neg (not_not.mpr rfl)]
      exact (hi.split hb).recommend _
    · exact (assign_made (hi.split hb) (Buffers.mem_others ho hij)).inv
  | addAtStart i pieces =>
    refine (s.get_safe i).bind fun b hb => ?_
    have hsize := hc b hb
    rw [hi.getSize (Buffers.mem_live hb)] at hsize
    obtain ⟨h', b', heq, hg⟩ := addAtStart_grown (hi.split hb) hsize
    rw [heq]
    exact (Buffers.writePieces_safe _ _ _ _).map fun _ hs => .put hb (hg.inv.same hs)
  | addAtEnd i pieces =>
    refine (s.get_safe i).bind fun b hb => ?_
    have hsize := hc b hb
    rw [hi.getSize (Buffers.mem_live hb)] at hsize
    obtain ⟨h', b', heq, hg⟩ := addAtEnd_grown (hi.split hb) hsize
    rw [heq]
    exact (Buffers.writePieces_safe _ _ _ _).map fun _ hs => .put hb (hg.inv.same hs)
  | addAtEndBuffer i j =>
    refine (s.get_safe i).bind fun b hb => (s.get_safe j).bind fun o ho => ?_
    have hsize := hc b o hb ho
    rw [hi.getSize (Buffers.mem_live hb), hi.getSize (Buffers.mem_live ho)] at hsize
    split
    · exact BufferError.noConfusion
    · next hij =>
      exact (addAtEndBuffer_safe (hi.split hb) (Buffers.mem_others ho (Ne.symm hij)) hsize).map
        fun r hr => .put hb hr
  | removeAtStart i start =>
    exact (s.get_safe i).map fun b hb =>
      .put hb (removeAtStart_made (hi.split hb) (hc b hb)).inv
  | removeAtEnd i stop =>
    exact (s.get_safe i).map fun b hb => .put hb (removeAtEnd_made (hi.split hb) stop).inv
  | createFragment i start length =>
    exact (s.get_safe i).map fun b hb =>
      .push (createFragment_made hi (Buffers.mem_live hb) length (hc b hb)).inv
  | createFullCopy i =>
    refine (s.get_safe i).bind fun b hb => ?_
    obtain ⟨h', tmp, heq, hm, -⟩ := createFullCopy_made hi (Buffers.mem_live hb)
    rw [heq]
    exact .push hm.inv
  | peekData i =>
    refine (s.get_safe i).bind fun b hb => ?_
    obtain ⟨h', b', heq, hm, -⟩ := transformIntoRealBuffer_made (hi.split hb)
    rw [heq]
    exact .put hb hm.inv
  | destroy i => exact (s.get_safe i).map fun b hb => (destroy_inv (hi.split hb)).1

/-- The heap of a program at its start. What blocks hold is not specified. -/
def Heap.empty (contents : Nat → Nat → UInt8) : Heap where
  blocks i := ⟨0, 0, 0, 0, contents i⟩

/-- The Buffers that a run of calls can reach. -/
inductive Buffers.Reached : Buffers → Prop
  | init (contents : Nat → Nat → UInt8) : Reached ⟨.empty contents, []⟩
  | step {s s' : Buffers} {c : BufferCall} (hs : Reached s) (hc : c.Sized s) (heq : c.run s = .ok s') :
    Reached s'

theorem Heap.Inv.empty (contents : Nat → Nat → UInt8) : (Heap.empty contents).Inv [] [] where
  ok := nofun
  count := fun _ => rfl
  size_lt := fun _ => Nat.two_pow_pos 31
  fresh := fun _ _ => rfl
  free := nofun
  nodup := List.nodup_nil
  last := nofun

theorem Buffers.Reached.inv (hs : s.Reached) : s.Inv := by
  induction hs with
  | init contents => exact Heap.Inv.empty contents
  | step hs hc heq ih =>
    have := BufferCall.run_safe ih hc
    rw [heq] at this
    exact this

theorem Heap.Inv.checkInternalState (hi : h.Inv [] live) (hb : b ∈ live) : b.CheckInternalState h := by
  have hok := hi.ok b hb
  have hreal := hok.start_le_realEnd
  have hin : b.realEnd ≤ (h.blocks b.m_data).m_size := hok.inside
  have hzero : b.m_zeroAreaStart ≤ (h.blocks b.m_data).m_size := Nat.le_trans hreal hin
  refine ⟨hi.count_pos hb, ⟨hok.start_le, hok.zero_le, hok.end_le⟩,
    ⟨hok.dirtyStart_le, hok.le_dirtyEnd⟩, ?_, Nat.le_trans hok.start_le hzero, hzero⟩
  rw [hi.getInternalEnd hb]
  exact hin

/-- In every run whose removals at a start do not wrap around: the conditions of
`CheckInternalState` hold of every Buffer, a block counts the Buffers on it, and no call fails in the
branch where a Buffer grows in place. -/
theorem Buffers.checkInternalState_reached (hs : s.Reached) :
    (∀ b ∈ s.live, b.CheckInternalState s.heap) ∧
    (∀ i, (s.heap.blocks i).m_count = s.live.countP fun b => b.m_data = i) ∧
    ∀ c : BufferCall, c.Sized s → c.run s ≠ .error .inPlace := by
  refine ⟨fun b hb => hs.inv.checkInternalState hb, fun i => ?_, fun c hc heq => ?_⟩
  · rw [hs.inv.count, List.count_nil, Nat.zero_add]
  · have := BufferCall.run_safe hs.inv hc
    rw [heq] at this
    exact this rfl

/-- The calls of a run, one after the other. -/
def Buffers.runs (s : Buffers) : List BufferCall → Except BufferError Buffers
  | [] => .ok s
  | c :: calls => (c.run s).bind fun s => s.runs calls

instance (h : Heap) (b : Buffer) : Decidable (b.CheckInternalState h) :=
  inferInstanceAs (Decidable (_ ∧ _))

/-- `RemoveAtStart` of 2^32 - 1 bytes at offset 1: the sum wraps around to 0, before the dirty area. -/
def wrapping : List BufferCall :=
  [.construct 0, .addAtStart 0 [.writeU8s 0 2], .removeAtStart 0 2, .addAtStart 0 [.writeU8 0],
    .removeAtStart 0 (2 ^ 32 - 1)]

theorem Buffers.not_checkInternalState_wrapping :
    ∃ s ∈ (Buffers.runs ⟨.empty fun _ _ => 0, []⟩ wrapping).toOption,
      (∀ b ∈ s.live, b.getSize < 2 ^ 31) ∧ ¬ ∀ b ∈ s.live, b.CheckInternalState s.heap := by
  decide +kernel

theorem Buffers.checkInternalState_construct :
    ∃ s, Buffers.Reached s ∧ s.live ≠ [] ∧ (∀ b ∈ s.live, b.CheckInternalState s.heap) ∧
      (∀ i, (s.heap.blocks i).m_count = s.live.countP fun b => b.m_data = i) ∧
      ∀ c : BufferCall, c.Sized s → c.run s ≠ .error .inPlace := by
  have hs : Buffers.Reached (Buffers.push ⟨.empty fun _ _ => 0, []⟩
      (initializeZeroes (.empty fun _ _ => 0) 3)) :=
    .step (.init fun _ _ => 0) (c := .construct 3) (by
      change 3 < 2 ^ 31
      decide) rfl
  exact ⟨_, hs, List.cons_ne_nil _ _, Buffers.checkInternalState_reached hs⟩

end Runs

/-! ### Lists of bytes -/

/-- The bytes of an object. -/
def Buffers.at (l : List (Option (List UInt8))) (i : Nat) : List UInt8 := (l[i]?.getD none).getD []

/-- What a call does to lists of bytes. -/
def BufferCall.apply (l : List (Option (List UInt8))) : BufferCall → List (Option (List UInt8))
  | construct zeroSize => l ++ [some (List.replicate zeroSize 0)]
  | copy i => l ++ [some (Buffers.at l i)]
  | assign i j => l.set i (some (Buffers.at l j))
  | addAtStart i pieces =>
    l.set i (some (pieces.flatMap (Piece.bytes (Buffers.at l)) ++ Buffers.at l i))
  | addAtEnd i pieces =>
    l.set i (some (Buffers.at l i ++ pieces.flatMap (Piece.bytes (Buffers.at l))))
  | addAtEndBuffer i j => l.set i (some (Buffers.at l i ++ Buffers.at l j))
  | removeAtStart i start => l.set i (some ((Buffers.at l i).drop start))
  | removeAtEnd i stop => l.set i (some ((Buffers.at l i).take ((Buffers.at l i).length - stop)))
  | createFragment i start length => l ++ [some (((Buffers.at l i).drop start).take length)]
  | createFullCopy i => l ++ [some (Buffers.at l i)]
  | peekData _ => l
  | destroy i => l.set i none

/-- The object exists. -/
def Buffers.Live (l : List (Option (List UInt8))) (i : Nat) : Prop := ∃ p, l[i]? = some (some p)

/-- A piece is written to the object `i` from bytes of another object that exist. -/
def Piece.Valid (l : List (Option (List UInt8))) (i : Nat) : Piece → Prop
  | writeBetween j start stop =>
    Buffers.Live l j ∧ j ≠ i ∧ start ≤ stop ∧ stop ≤ (Buffers.at l j).length
  | _ => True

/-- A call is one that a program can make: objects exist, fragments are within bounds, no list has
2^31 bytes or more. -/
def BufferCall.Valid (l : List (Option (List UInt8))) : BufferCall → Prop
  | construct zeroSize => zeroSize < 2 ^ 31
  | assign i j => Buffers.Live l i ∧ Buffers.Live l j
  | addAtStart i pieces | addAtEnd i pieces => Buffers.Live l i ∧ (∀ p ∈ pieces, p.Valid l i) ∧
    (Buffers.at l i).length + Piece.total pieces < 2 ^ 31
  | addAtEndBuffer i j => Buffers.Live l i ∧ Buffers.Live l j ∧ i ≠ j ∧
    (Buffers.at l i).length + (Buffers.at l j).length < 2 ^ 31
  | createFragment i start length => Buffers.Live l i ∧ start + length ≤ (Buffers.at l i).length
  | copy i | removeAtStart i _ | removeAtEnd i _ | createFullCopy i | peekData i | destroy i =>
    Buffers.Live l i

/-- `Write` between iterators is given another block than its own, and writes to a Buffer with zeroes
before the offset only when there is nothing to write. -/
def Piece.Clean (s : Buffers) (b : Buffer) (fits plain : Prop) : Piece → Prop
  | writeBetween j start stop =>
    ∀ o, s.get j = .ok o → ¬ (o.m_data = b.m_data ∧ fits) ∧ (plain ∨ stop = start)
  | _ => True

/-- A call does not reach one of the defects: a copy between iterators at a wrong offset or in one
block, or an offset that wraps around. -/
def BufferCall.Clean (s : Buffers) : BufferCall → Prop
  | addAtStart i pieces => ∀ b, s.get i = .ok b →
    ∀ p ∈ pieces, p.Clean s b (b.FitsStart s.heap (Piece.total pieces)) True
  | addAtEnd i pieces => ∀ b, s.get i = .ok b →
    ∀ p ∈ pieces, p.Clean s b (b.FitsEnd s.heap (Piece.total pieces)) b.Plain
  | addAtEndBuffer i j => ∀ b o, s.get i = .ok b → s.get j = .ok o → b.Appends s.heap o
  | removeAtStart i start => ∀ b, s.get i = .ok b → b.m_start + start < 2 ^ 32
  | _ => True

section Lists

variable {s s' : Buffers} {h : Heap} {b b' o : Buffer} {c : BufferCall} {i j n : Nat}
  {pieces : List Piece} {p : List UInt8}

theorem Buffers.at_contents (hget : s.get i = .ok b) : Buffers.at s.contents i = b.bytes s.heap := by
  rw [Buffers.at, contents, List.getElem?_map, get_eq.mp hget]
  rfl

theorem Buffers.Live.get (hl : Buffers.Live s.contents i) : ∃ b, s.get i = .ok b := by
  obtain ⟨l, hl⟩ := hl
  rw [contents, List.getElem?_map] at hl
  cases hobj : s.objects[i]? with
  | none => simp [hobj] at hl
  | some o =>
    cases o with
    | none => simp [hobj] at hl
    | some b => exact ⟨b, get_eq.mpr hobj⟩

/-- One object changes and the others read what they read. -/
theorem Buffers.contents_set (hk : s.heap.Keeps h (s.others i)) (x : Option Buffer) :
    Buffers.contents ⟨h, s.objects.set i x⟩ = s.contents.set i (x.map (bytes h)) := by
  apply List.ext_getElem?
  intro k
  rw [contents, contents, List.getElem?_map]
  dsimp only
  by_cases hk' : i = k
  · subst hk'
    rw [List.getElem?_set, List.getElem?_set, if_pos rfl, if_pos rfl, List.length_map]
    split
    · rfl
    · rfl
  · rw [List.getElem?_set_ne hk', List.getElem?_set_ne hk', List.getElem?_map]
    cases hobj : s.objects[k]? with
    | none => rfl
    | some y =>
      cases y with
      | none => rfl
      | some o =>
        have ho := mem_others (get_eq.mpr hobj) (Ne.symm hk')
        exact congrArg (fun l => some (some l)) (hk o ho)

theorem Buffers.contents_put {r : Heap × Buffer} (hm : s.heap.Made r.1 (s.others i) r.2 p) :
    (s.put i r).contents = s.contents.set i (some p) := by
  rw [← hm.bytes]
  exact contents_set hm.keeps (some r.2)

theorem Buffers.contents_push {r : Heap × Buffer} (hm : s.heap.Made r.1 s.live r.2 p) :
    (s.push r).contents = s.contents ++ [some p] := by
  rw [← hm.bytes, contents, contents]
  change (s.objects ++ [some r.2]).map _ = _
  rw [List.map_append]
  congr 1
  apply List.map_congr_left
  intro x hx
  cases x with
  | none => rfl
  | some o => exact congrArg some (hm.keeps o (List.mem_filterMap.mpr ⟨some o, hx, rfl⟩))

/-- A valid piece is fine where the target is on a block of its own or has not grown in place. -/
theorem Piece.Valid.fine {fits plain : Prop} {piece : Piece} (hv : piece.Valid s.contents i)
    (hc : piece.Clean s b fits plain) (hk : s.heap.Keeps h (s.others i))
    (hplace : b'.m_data = b.m_data ∧ fits ∨ ∀ o ∈ s.others i, o.m_data ≠ b'.m_data) :
    piece.Fine (s.put i (h, b')) h (s.others i) b' plain (Buffers.at s.contents) := by
  cases piece with
  | writeBetween j start stop =>
    obtain ⟨hlive, hij, hle, hstop⟩ := hv
    obtain ⟨o, hget⟩ := hlive.get
    have ho := Buffers.mem_others hget hij
    obtain ⟨hout, hor⟩ := hc o hget
    refine ⟨o, (Buffers.get_put_ne hij _).trans hget, ho, ?_, ?_, hle, hstop, hor⟩
    · rcases hplace with ⟨hdata, hfits⟩ | hown
      · exact fun heq => hout ⟨heq.trans hdata, hfits⟩
      · exact hown o ho
    · rw [hk o ho, Buffers.at_contents hget]
  | _ => exact trivial

/-- `AddAtStart` with its bytes written. -/
theorem addAtStart_run (hi : s.Inv) (hget : s.get i = .ok b) (hv : ∀ p ∈ pieces, p.Valid s.contents i)
    (hsize : (b.bytes s.heap).length + Piece.total pieces < 2 ^ 31)
    (hc : ∀ p ∈ pieces, p.Clean s b (b.FitsStart s.heap (Piece.total pieces)) True) :
    ∃ h b', (BufferCall.addAtStart i pieces).run s = .ok (s.put i (h, b')) ∧
      s.heap.Made h (s.others i) b'
        (pieces.flatMap (Piece.bytes (Buffers.at s.contents)) ++ b.bytes s.heap) := by
  obtain ⟨h, b', heq, hg⟩ := addAtStart_grown (hi.split hget) hsize
  have hlt := (hg.inv.end_lt (b := b') List.mem_cons_self).1
  have hplain : True → b'.m_start = (b'.beginNext 0).m_current := by
    intro _
    rw [beginNext_eq (by omega)]
    rfl
  obtain ⟨hwrite, hlen⟩ := writePieces_eq hg.inv hg.spot hg.inside hg.unseen hplain
    fun p hp => (hv p hp).fine (hc p hp) hg.keeps hg.place
  refine ⟨_, b', ?_, hg.wrote hlen⟩
  rw [BufferCall.run, hget]
  change Except.bind (b.addAtStart s.heap _) _ = _
  rw [heq]
  change Except.map _ ((s.put i (h, b')).writePieces h (b'.beginNext 0) pieces) = _
  rw [hwrite]
  rfl

/-- `AddAtEnd` with its bytes written. -/
theorem addAtEnd_run (hi : s.Inv) (hget : s.get i = .ok b) (hv : ∀ p ∈ pieces, p.Valid s.contents i)
    (hsize : (b.bytes s.heap).length + Piece.total pieces < 2 ^ 31)
    (hc : ∀ p ∈ pieces, p.Clean s b (b.FitsEnd s.heap (Piece.total pieces)) b.Plain) :
    ∃ h b', (BufferCall.addAtEnd i pieces).run s = .ok (s.put i (h, b')) ∧
      s.heap.Made h (s.others i) b'
        (b.bytes s.heap ++ pieces.flatMap (Piece.bytes (Buffers.at s.contents))) := by
  obtain ⟨h, b', heq, hg⟩ := addAtEnd_grown (hi.split hget) hsize
  have hlt := (hg.inv.end_lt (b := b') List.mem_cons_self).2.2
  have hroom := hg.room
  have hplain : b.Plain → b'.realEnd - Piece.total pieces = (b'.endPrev (Piece.total pieces)).m_current := by
    intro hb
    have hb' := hg.plain hb
    rw [Plain] at hb'
    rw [endPrev_eq (by omega) hlt, realEnd, hb', Nat.sub_self, Nat.sub_zero]
    rfl
  obtain ⟨hwrite, hlen⟩ := writePieces_eq hg.inv hg.spot hg.inside hg.unseen hplain
    fun p hp => (hv p hp).fine (hc p hp) hg.keeps hg.place
  refine ⟨_, b', ?_, hg.wrote hlen⟩
  rw [BufferCall.run, hget]
  change Except.bind (b.addAtEnd s.heap _) _ = _
  rw [heq]
  change Except.map _ ((s.put i (h, b')).writePieces h (b'.endPrev _) pieces) = _
  rw [hwrite]
  rfl

/-- A call that does not reach a defect returns, and does what it does to lists of bytes. -/
theorem BufferCall.run_apply (hi : s.Inv) (hv : c.Valid s.contents) (hc : c.Clean s) :
    ∃ s', c.run s = .ok s' ∧ s'.Inv ∧ s'.contents = c.apply s.contents := by
  cases c with
  | construct zeroSize =>
    have hm := (initializeZeroes_made hi hv).1
    exact ⟨_, rfl, .push hm.inv, Buffers.contents_push hm⟩
  | copy i =>
    obtain ⟨b, hget⟩ := Buffers.Live.get hv
    have hm := copy_made hi (Buffers.mem_live hget)
    refine ⟨_, by rw [BufferCall.run, hget]; rfl, .push hm.inv, ?_⟩
    rw [Buffers.contents_push hm, BufferCall.apply, Buffers.at_contents hget]
  | assign i j =>
    obtain ⟨b, hget⟩ := hv.1.get
    obtain ⟨o, hget'⟩ := hv.2.get
    have hm : s.heap.Made (b.assign s.heap o).1 (s.others i) (b.assign s.heap o).2 (o.bytes s.heap) := by
      by_cases hij : j = i
      · obtain rfl : o = b := by
          rw [hij, hget] at hget'
          exact (Except.ok.inj hget').symm
        rw [Buffer.assign, if_neg (not_not.mpr rfl)]
        exact ⟨(hi.split hget).recommend _, fun _ _ => rfl, rfl⟩
      · exact assign_made (hi.split hget) (Buffers.mem_others hget' hij)
    refine ⟨_, by rw [BufferCall.run, hget, hget']; rfl, .put hget hm.inv, ?_⟩
    rw [Buffers.contents_put hm, BufferCall.apply, Buffers.at_contents hget']
  | addAtStart i pieces =>
    obtain ⟨b, hget⟩ := hv.1.get
    have hsize := hv.2.2
    rw [Buffers.at_contents hget] at hsize
    obtain ⟨h, b', heq, hm⟩ := addAtStart_run hi hget hv.2.1 hsize (hc b hget)
    refine ⟨_, heq, .put hget hm.inv, ?_⟩
    rw [Buffers.contents_put hm, BufferCall.apply, Buffers.at_contents hget]
  | addAtEnd i pieces =>
    obtain ⟨b, hget⟩ := hv.1.get
    have hsize := hv.2.2
    rw [Buffers.at_contents hget] at hsize
    obtain ⟨h, b', heq, hm⟩ := addAtEnd_run hi hget hv.2.1 hsize (hc b hget)
    refine ⟨_, heq, .put hget hm.inv, ?_⟩
    rw [Buffers.contents_put hm, BufferCall.apply, Buffers.at_contents hget]
  | addAtEndBuffer i j =>
    obtain ⟨hlive, hlive', hij, hsize⟩ := hv
    obtain ⟨b, hget⟩ := hlive.get
    obtain ⟨o, hget'⟩ := hlive'.get
    rw [Buffers.at_contents hget, Buffers.at_contents hget'] at hsize
    obtain ⟨h, b', heq, hm⟩ := addAtEndBuffer_made (hi.split hget)
      (Buffers.mem_others hget' (Ne.symm hij)) (hc b o hget hget') hsize
    refine ⟨s.put i (h, b'), ?_, .put hget hm.inv, ?_⟩
    · rw [BufferCall.run, hget, hget']
      change (if i = j then _ else _) = _
      rw [if_neg hij, heq]
      rfl
    · rw [Buffers.contents_put hm, BufferCall.apply, Buffers.at_contents hget,
        Buffers.at_contents hget']
  | removeAtStart i start =>
    obtain ⟨b, hget⟩ := Buffers.Live.get hv
    have hm := removeAtStart_made (hi.split hget) (hc b hget)
    refine ⟨s.put i (s.heap, b.removeAtStart start), by rw [BufferCall.run, hget]; rfl,
      .put hget hm.inv, ?_⟩
    rw [Buffers.contents_put hm, BufferCall.apply, Buffers.at_contents hget]
  | removeAtEnd i stop =>
    obtain ⟨b, hget⟩ := Buffers.Live.get hv
    have hm := removeAtEnd_made (hi.split hget) stop
    refine ⟨s.put i (s.heap, b.removeAtEnd stop), by rw [BufferCall.run, hget]; rfl,
      .put hget hm.inv, ?_⟩
    rw [Buffers.contents_put hm, BufferCall.apply, Buffers.at_contents hget]
  | createFragment i start length =>
    obtain ⟨hlive, hle⟩ := hv
    obtain ⟨b, hget⟩ := hlive.get
    have hb := Buffers.mem_live hget
    have hend := hi.end_lt hb
    have hok := hi.ok b hb
    have hlt := hok.size_lt
    rw [Buffers.at_contents hget] at hle
    have hlen := length_bytes (h := s.heap) hok.start_le hok.zero_le hok.end_le
    have hm := createFragment_made hi hb length (show b.m_start + start < 2 ^ 32 by omega)
    have hrest : ((b.bytes s.heap).drop start).length - sub32 b.getSize (add32 start length) =
        length := by
      rw [hi.getSize hb, add32_eq (by omega), sub32_eq hle (by omega), List.length_drop]
      omega
    rw [hrest] at hm
    refine ⟨_, by rw [BufferCall.run, hget]; rfl, .push hm.inv, ?_⟩
    rw [Buffers.contents_push hm, BufferCall.apply, Buffers.at_contents hget]
  | createFullCopy i =>
    obtain ⟨b, hget⟩ := Buffers.Live.get hv
    obtain ⟨h, tmp, heq, hm, -⟩ := createFullCopy_made hi (Buffers.mem_live hget)
    refine ⟨s.push (h, tmp), ?_, .push hm.inv, ?_⟩
    · rw [BufferCall.run, hget]
      change Except.map _ (b.createFullCopy s.heap) = _
      rw [heq]
      rfl
    · rw [Buffers.contents_push hm, BufferCall.apply, Buffers.at_contents hget]
  | peekData i =>
    obtain ⟨b, hget⟩ := Buffers.Live.get hv
    obtain ⟨h, b', heq, hm, -⟩ := transformIntoRealBuffer_made (hi.split hget)
    refine ⟨s.put i (h, b'), ?_, .put hget hm.inv, ?_⟩
    · rw [BufferCall.run, hget]
      change Except.map _ (b.transformIntoRealBuffer s.heap) = _
      rw [heq]
      rfl
    · rw [Buffers.contents_put hm, BufferCall.apply]
      apply List.ext_getElem?
      intro k
      by_cases hk : i = k
      · subst hk
        have hobj := Buffers.get_eq.mp hget
        rw [List.getElem?_set_self (by
          rw [Buffers.contents, List.length_map]
          exact Buffers.lt_of_get hget), Buffers.contents, List.getElem?_map, hobj]
        rfl
      · rw [List.getElem?_set_ne hk]
  | destroy i =>
    obtain ⟨b, hget⟩ := Buffers.Live.get hv
    obtain ⟨hinv, hk⟩ := destroy_inv (hi.split hget)
    exact ⟨⟨b.destroy s.heap, s.objects.set i none⟩, by rw [BufferCall.run, hget]; rfl, hinv,
      Buffers.contents_set hk none⟩

/-- A run of valid calls that do not reach a defect. -/
def Buffers.Clean (s : Buffers) : List BufferCall → Prop
  | [] => True
  | c :: calls => c.Valid s.contents ∧ c.Clean s ∧ ∀ s', c.run s = .ok s' → s'.Clean calls

theorem Buffers.runs_apply {calls : List BufferCall} (hi : s.Inv) (hc : s.Clean calls) :
    ∃ s', s.runs calls = .ok s' ∧ s'.contents = calls.foldl BufferCall.apply s.contents := by
  induction calls generalizing s with
  | nil => exact ⟨s, rfl, rfl⟩
  | cons c calls ih =>
    obtain ⟨hv, hclean, hrest⟩ := hc
    obtain ⟨s₁, heq, hi₁, hcont⟩ := BufferCall.run_apply hi hv hclean
    obtain ⟨s', heq', hcont'⟩ := ih hi₁ (hrest s₁ heq)
    refine ⟨s', ?_, ?_⟩
    · rw [Buffers.runs, heq]
      exact heq'
    · rw [hcont', hcont]
      rfl

/-- From the start of a program, a run of valid calls that do not reach a defect returns, and leaves
Buffers that read what the same calls make of lists of bytes. -/
theorem Buffers.contents_runs (contents : Nat → Nat → UInt8) {calls : List BufferCall}
    (hc : Buffers.Clean ⟨.empty contents, []⟩ calls) :
    ∃ s, Buffers.runs ⟨.empty contents, []⟩ calls = .ok s ∧
      s.contents = calls.foldl BufferCall.apply [] :=
  runs_apply (Heap.Inv.empty contents) hc

/-- The calls can be made one after the other. -/
def BufferCall.ValidRun (l : List (Option (List UInt8))) : List BufferCall → Prop
  | [] => True
  | call :: calls => call.Valid l ∧ ValidRun (call.apply l) calls

/-- A Buffer of a zero and one of a zero and two bytes: their zeroes are joined, and the two bytes
are written two offsets behind the place from which they are read. -/
def joining : List BufferCall :=
  [.construct 0, .addAtEnd 0 [.writeU8s 7 4], .destroy 0, .construct 1, .construct 1,
    .addAtEnd 2 [.write [1, 2]], .addAtEndBuffer 1 2]

theorem Buffers.contents_joining : BufferCall.ValidRun [] joining ∧
    (joining.foldl BufferCall.apply [])[1]? = some (some [0, 0, 1, 2]) ∧
    ∃ s ∈ (Buffers.runs ⟨.empty fun _ _ => 0, []⟩ joining).toOption,
      s.contents[1]? = some (some [0, 0, 7, 7]) := by
  refine ⟨?_, by decide, by decide +kernel⟩
  simp [joining, BufferCall.ValidRun, BufferCall.Valid, BufferCall.apply, Buffers.Live, Buffers.at,
    Piece.Valid, Piece.total, Piece.length, Piece.bytes]

/-- Two Buffers of one block: what one loses at its end, the other still reads. -/
theorem Buffers.contents_runs_shared :
    ∃ s, Buffers.runs ⟨.empty fun _ _ => 0, []⟩ [.construct 2, .copy 0, .removeAtEnd 1 1] = .ok s ∧
      s.contents = [.construct 2, .copy 0, .removeAtEnd 1 1].foldl BufferCall.apply [] := by
  refine Buffers.contents_runs (fun _ _ => 0) ⟨?_, trivial, fun s₁ h₁ => ?_⟩
  · change 2 < 2 ^ 31
    decide
  cases h₁
  refine ⟨⟨_, rfl⟩, trivial, fun s₂ h₂ => ?_⟩
  cases h₂
  exact ⟨⟨_, rfl⟩, trivial, fun _ _ => trivial⟩

end Lists

end Ns3.Network
