import Mathlib.Data.Int.Bitwise
import Mathlib.Data.List.Basic
import Mathlib.Order.Lattice

/-!
# Reading and writing bytes in place

A tape is a row of bytes with a position. Operations read or overwrite the byte at the position and
move on; behind the last byte they have no result. `Turns w a old new` says that `w`, entered where the
bytes `old` follow, leaves `new` in their place, stands behind them and results in `a`: a writer turns
any bytes of the right number into its own, a reader turns the bytes it reads into themselves.
-/

namespace Ns3.Lib

/-- Bytes with a position. -/
structure Tape where
  data : List UInt8
  pos : Nat
deriving DecidableEq, Repr

/-- An operation on a tape, that may fail. -/
abbrev Wire := StateT Tape Option

namespace Wire

/-- The byte at the position, and one further. -/
def readU8 : Wire UInt8 := fun c => c.data[c.pos]?.map fun b => (b, { c with pos := c.pos + 1 })

/-- The byte at the position. -/
def peekU8 : Wire UInt8 := fun c => c.data[c.pos]?.map fun b => (b, c)

/-- Overwrite the byte at the position, and one further. -/
def writeU8 (b : UInt8) : Wire Unit := fun c =>
  if c.pos < c.data.length then some ((), ⟨c.data.set c.pos b, c.pos + 1⟩) else none

/-- Move on by `n` bytes. -/
def next (n : Nat) : Wire Unit := fun c =>
  if c.pos + n ≤ c.data.length then some ((), { c with pos := c.pos + n }) else none

/-- Move back by one byte. -/
def prev : Wire Unit := fun c => if 0 < c.pos then some ((), { c with pos := c.pos - 1 }) else none

/-- The position. -/
def tell : Wire Nat := fun c => some (c.pos, c)

/-- Go to a position. -/
def seek (pos : Nat) : Wire Unit := fun c => some ((), { c with pos })

/-- The number of bytes there are. -/
def size : Wire Nat := fun c => some (c.data.length, c)

/-- Do something with a copy of the tape: the position stays. -/
def aside {α : Type} (w : Wire α) : Wire α := fun c =>
  (w c).map fun r => (r.1, { r.2 with pos := c.pos })

/-- Bytes, one after the other. -/
def writeBytes : List UInt8 → Wire Unit
  | [] => pure ()
  | b :: bs => do writeU8 b; writeBytes bs

/-- The next `n` bytes. -/
def readBytes : Nat → Wire (List UInt8)
  | 0 => pure []
  | n + 1 => do
    let b ← readU8
    let bs ← readBytes n
    pure (b :: bs)

end Wire

variable {α β : Type} {w : Wire α} {f : α → Wire β} {a : α} {b : β} {x : UInt8}
  {old new old' new' bs bs' : List UInt8}

/-- Entered where `old` follows, the operation leaves `new` there, stands behind it and results in
`a`. -/
def Turns (w : Wire α) (a : α) (old new : List UInt8) : Prop :=
  ∀ pre post, w ⟨pre ++ (old ++ post), pre.length⟩ =
    some (a, ⟨pre ++ (new ++ post), pre.length + new.length⟩)

/-- The operation overwrites as many bytes with its own. -/
def Writes (w : Wire Unit) (bs : List UInt8) : Prop :=
  ∀ old, old.length = bs.length → Turns w () old bs

/-- The operation reads the bytes. -/
abbrev Reads (w : Wire α) (a : α) (bs : List UInt8) : Prop := Turns w a bs bs

theorem Turns.ret (a : α) : Turns (pure a) a [] [] := fun _ _ => rfl

theorem Turns.bind (hw : Turns w a old new) (hf : Turns (f a) b old' new') :
    Turns (w >>= f) b (old ++ old') (new ++ new') := by
  intro pre post
  show (w _).bind _ = _
  rw [List.append_assoc, hw pre (old' ++ post)]
  have h := hf (pre ++ new) post
  rw [List.length_append, List.append_assoc] at h
  show f a _ = _
  rw [h, List.append_assoc, List.length_append, Nat.add_assoc, List.append_assoc]

theorem Turns.of_bind_pure (hw : Turns w a old new) (h : f a = pure b) :
    Turns (w >>= f) b old new := by
  have h' : Turns (w >>= f) b (old ++ []) (new ++ []) := hw.bind (by rw [h]; exact Turns.ret b)
  rwa [List.append_nil, List.append_nil] at h'

/-! ### One byte -/

theorem readU8_turns (x : UInt8) : Reads Wire.readU8 x [x] := by
  intro pre post
  show Option.map _ (pre ++ (x :: post))[pre.length]? = _
  rw [List.getElem?_append_right (Nat.le_refl _), Nat.sub_self]
  rfl

theorem writeU8_turns (b x : UInt8) : Turns (Wire.writeU8 b) () [x] [b] := by
  intro pre post
  have hlt : pre.length < (pre ++ ([x] ++ post)).length := by simp
  show (if _ then _ else _) = _
  rw [if_pos hlt, List.set_append_right _ _ (Nat.le_refl _), Nat.sub_self]
  rfl

/-- The byte stays to be read. -/
theorem peekU8_at (pre post : List UInt8) (x : UInt8) :
    Wire.peekU8 ⟨pre ++ x :: post, pre.length⟩ = some (x, ⟨pre ++ x :: post, pre.length⟩) := by
  show Option.map _ (pre ++ x :: post)[pre.length]? = _
  rw [List.getElem?_append_right (Nat.le_refl _), Nat.sub_self]
  rfl

/-- An operation that has been followed. -/
theorem Wire.bind_eq {c c' : Tape} (h : w c = some (a, c')) : (w >>= f) c = f a c' := by
  show (w c).bind _ = _
  rw [h]
  rfl

/-- What is done with a copy changes the bytes only. -/
theorem Wire.aside_eq {c : Tape} {data : List UInt8} (h : ∃ pos, w c = some (a, ⟨data, pos⟩)) :
    Wire.aside w c = some (a, ⟨data, c.pos⟩) := by
  obtain ⟨pos, h⟩ := h
  rw [Wire.aside, h]
  rfl

/-- Go back to the position the operation was entered with. -/
theorem seek_back {pre : List UInt8} {pos : Nat} {data : List UInt8} {f : Unit → Wire β} :
    (Wire.seek pre.length >>= f) ⟨data, pos⟩ = f () ⟨data, pre.length⟩ := rfl

/-! ### Sequences -/

theorem Reads.u8 {f : UInt8 → Wire β} (hf : Reads (f x) b bs) :
    Reads (Wire.readU8 >>= f) b (x :: bs) :=
  (readU8_turns x).bind hf

/-- A byte that is read twice. -/
theorem Reads.u8_prev {f : UInt8 → Wire β} (hf : Reads (f x) b (x :: bs)) :
    Reads (do let y ← Wire.readU8; Wire.prev; f y) b (x :: bs) := by
  intro pre post
  refine (Wire.bind_eq (readU8_turns x pre (bs ++ post))).trans ?_
  exact (Wire.bind_eq (if_pos (Nat.succ_pos pre.length))).trans (hf pre post)

theorem Writes.ret : Writes (pure ()) [] := by
  intro old hold
  rw [List.length_eq_zero_iff.mp hold]
  exact Turns.ret ()

theorem Writes.bind {w : Wire Unit} {f : Unit → Wire Unit} (hw : Writes w bs)
    (hf : Writes (f ()) bs') : Writes (w >>= f) (bs ++ bs') := by
  intro old hold
  rw [List.length_append] at hold
  rw [← List.take_append_drop bs.length old]
  refine (hw _ ?_).bind (hf _ ?_)
  · rw [List.length_take]
    omega
  · rw [List.length_drop]
    omega

theorem writeU8_writes (x : UInt8) : Writes (Wire.writeU8 x) [x] := by
  intro old hold
  obtain ⟨y, rfl⟩ := List.length_eq_one_iff.mp hold
  exact writeU8_turns x y

theorem Writes.u8 {f : Unit → Wire Unit} (hf : Writes (f ()) bs) :
    Writes (Wire.writeU8 x >>= f) (x :: bs) :=
  (writeU8_writes x).bind hf

/-- Bytes that are passed over. -/
theorem next_turns (bs : List UInt8) : Reads (Wire.next bs.length) () bs := by
  intro pre post
  have hle : pre.length + bs.length ≤ (pre ++ (bs ++ post)).length := by
    rw [List.length_append, List.length_append]
    omega
  show (if _ then _ else _) = _
  rw [if_pos hle]

/-- The byte that follows is looked at first. -/
theorem Turns.peek {f : UInt8 → Wire β} (hf : Turns (f x) b (x :: old) new) :
    Turns (Wire.peekU8 >>= f) b (x :: old) new := fun pre post =>
  (Wire.bind_eq (peekU8_at pre (old ++ post) x)).trans (hf pre post)

/-- Something is done with a copy first. -/
theorem Turns.aside_bind (hw : Turns w a old new) (hf : Turns (f a) b (new ++ old') new') :
    Turns (Wire.aside w >>= f) b (old ++ old') new' := by
  intro pre post
  rw [List.append_assoc]
  refine (Wire.bind_eq (Wire.aside_eq ⟨_, hw pre (old' ++ post)⟩)).trans ?_
  rw [← List.append_assoc new]
  exact hf pre post

/-- What a copy has written is passed over. -/
theorem Writes.aside_next {w : Wire Unit} {f : Unit → Wire Unit} {n : Nat} (hw : Writes w bs)
    (hn : bs.length = n) (hf : Writes (f ()) bs') :
    Writes (do Wire.aside w; Wire.next n; f ()) (bs ++ bs') := by
  intro old hold
  rw [List.length_append] at hold
  rw [← List.take_append_drop bs.length old]
  have htake : (old.take bs.length).length = bs.length := by
    rw [List.length_take]
    omega
  have hdrop : (old.drop bs.length).length = bs'.length := by
    rw [List.length_drop]
    omega
  refine (hw _ htake).aside_bind ?_
  subst hn
  exact (next_turns bs).bind (hf _ hdrop)

/-! ### What holds of every result -/

/-- Whatever the bytes are, the results have a property. -/
def Ensures (w : Wire α) (P : α → Prop) : Prop := ∀ c a c', w c = some (a, c') → P a

variable {P : α → Prop} {Q : β → Prop}

theorem Ensures.ret {a : α} (h : P a) : Ensures (pure a) P := by
  rintro c a' c' heq
  cases heq
  exact h

theorem Ensures.fail : Ensures (failure : Wire α) P := nofun

theorem Ensures.of_forall (h : ∀ a, P a) : Ensures w P := fun _ a _ _ => h a

theorem Ensures.bind (hw : Ensures w P) (hf : ∀ a, P a → Ensures (f a) Q) :
    Ensures (w >>= f) Q := by
  intro c b c' heq
  obtain ⟨⟨a, c₁⟩, hfirst, hrest⟩ := Option.bind_eq_some_iff.mp heq
  exact hf a (hw c a c₁ hfirst) c₁ b c' hrest

theorem Ensures.bind_any (hf : ∀ a, Ensures (f a) Q) : Ensures (w >>= f) Q :=
  Ensures.bind (Ensures.of_forall (P := fun _ => True) fun _ => trivial) fun a _ => hf a

theorem Ensures.ite {c : Prop} [Decidable c] {v : Wire α} (hw : Ensures w P) (hv : Ensures v P) :
    Ensures (if c then w else v) P := by
  split
  · exact hw
  · exact hv

theorem Ensures.aside (hw : Ensures w P) : Ensures (Wire.aside w) P := by
  intro c a c' heq
  obtain ⟨⟨a', c₁⟩, hfirst, hrest⟩ := Option.map_eq_some_iff.mp heq
  cases hrest
  exact hw c a' c₁ hfirst

end Ns3.Lib
