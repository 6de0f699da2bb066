import Mathlib.Logic.Function.Basic
import Ns3.Lib.Patch

/-!
# Packet buffers

A Buffer is a window on a block of bytes with an area of zeroes in it that has no bytes in the
block. Buffers share blocks until one of them has to write where another may look. Blocks that no
Buffer uses are kept for later. Source: `src/network/model/buffer.cc` and `buffer.h`.
-/

namespace Ns3.Network

open Ns3.Lib

/-- `uint32_t` addition. -/
def add32 (a b : Nat) : Nat := (a + b) % 2 ^ 32

/-- `uint32_t` subtraction. -/
def sub32 (a b : Nat) : Nat := (a + (2 ^ 32 - b)) % 2 ^ 32

/-- What ends a run: the assertion of a method that grows a Buffer in place fails, one of an iterator
does, a block is accessed outside of its bytes, or there is no such object. -/
inductive BufferError where
  | inPlace
  | iterator
  | outside
  | destroyed
  deriving DecidableEq, Repr

/-- `Buffer::Data`. -/
structure Data where
  m_count : Nat
  m_size : Nat
  m_dirtyStart : Nat
  m_dirtyEnd : Nat
  m_data : Nat → UInt8

/-- The blocks by number, those from `next` on not yet allocated; `g_freeList`, its back first; and
`g_maxSize` and `g_recommendedStart`. What a block holds when it is allocated is not specified. -/
structure Heap where
  blocks : Nat → Data
  next : Nat := 0
  freeList : List Nat := []
  maxSize : Nat := 0
  recommendedStart : Nat := 0

/-- A `Buffer` object; `m_data` is the number of its block. -/
structure Buffer where
  m_data : Nat
  m_maxZeroAreaStart : Nat
  m_zeroAreaStart : Nat
  m_zeroAreaEnd : Nat
  m_start : Nat
  m_end : Nat
  deriving DecidableEq, Repr

namespace Heap

/-! ### Blocks -/

def set (h : Heap) (i : Nat) (d : Data) : Heap := { h with blocks := Function.update h.blocks i d }

/-- The bytes that `memcpy` reads. -/
def read (h : Heap) (i off n : Nat) : Except BufferError (List UInt8) :=
  if n = 0 ∨ off + n ≤ (h.blocks i).m_size then .ok (slice (h.blocks i).m_data off n)
  else .error .outside

/-- The bytes that `memcpy` or `memset` writes. -/
def write (h : Heap) (i off : Nat) (p : List UInt8) : Except BufferError Heap :=
  if p.length = 0 ∨ off + p.length ≤ (h.blocks i).m_size then
    .ok (h.set i { h.blocks i with m_data := patch (h.blocks i).m_data off p })
  else .error .outside

/-- `Recycle`, `buffer.cc:97–116`. -/
def recycle (h : Heap) (i : Nat) : Heap :=
  let h := { h with maxSize := max h.maxSize (h.blocks i).m_size }
  if (h.blocks i).m_size < h.maxSize ∨ 1000 < h.freeList.length then h
  else { h with freeList := i :: h.freeList }

/-- `Allocate`, `buffer.cc:162–177`. -/
def allocate (h : Heap) (reqSize : Nat) : Nat × Heap :=
  (h.next, { h.set h.next { h.blocks h.next with
      m_count := 1
      m_size := if reqSize = 0 then 1 else reqSize } with next := h.next + 1 })

/-- The loop of `Create` on the free list, `buffer.cc:118–144`. -/
def createFrom (h : Heap) (dataSize : Nat) : List Nat → Nat × Heap
  | [] => allocate { h with freeList := [] } dataSize
  | i :: rest =>
    if dataSize ≤ (h.blocks i).m_size then
      (i, { h.set i { h.blocks i with m_count := 1 } with freeList := rest })
    else h.createFrom dataSize rest

/-- `Create`. -/
def create (h : Heap) (dataSize : Nat) : Nat × Heap := h.createFrom dataSize h.freeList

/-- `m_count++`. -/
def retain (h : Heap) (i : Nat) : Heap :=
  h.set i { h.blocks i with m_count := (h.blocks i).m_count + 1 }

/-- `m_count--`, and `Recycle` when it is 0. -/
def release (h : Heap) (i : Nat) : Heap :=
  let h := h.set i { h.blocks i with m_count := (h.blocks i).m_count - 1 }
  if (h.blocks i).m_count = 0 then h.recycle i else h

/-- The dirty area of a block. -/
def setDirty (h : Heap) (i start stop : Nat) : Heap :=
  h.set i { h.blocks i with m_dirtyStart := start, m_dirtyEnd := stop }

end Heap

namespace Buffer

/-! ### Objects -/

/-- `Initialize`, `buffer.cc:243–256`. -/
def initializeZeroes (h : Heap) (zeroSize : Nat) : Heap × Buffer :=
  let (i, h) := h.create 0
  let m_start := min (h.blocks i).m_size h.recommendedStart
  let m_end := add32 m_start zeroSize
  (h.setDirty i m_start m_end,
    { m_data := i
      m_maxZeroAreaStart := m_start
      m_zeroAreaStart := m_start
      m_zeroAreaEnd := m_end
      m_start := m_start
      m_end := m_end })

/-- The copy constructor, `buffer.h:1050–1061`. -/
def copy (h : Heap) (o : Buffer) : Heap × Buffer :=
  (h.retain o.m_data, { o with m_maxZeroAreaStart := o.m_zeroAreaStart })

/-- `operator=`, `buffer.cc:258–281`. -/
def assign (h : Heap) (b o : Buffer) : Heap × Buffer :=
  let h := if b.m_data ≠ o.m_data then (h.release b.m_data).retain o.m_data else h
  ({ h with recommendedStart := max h.recommendedStart b.m_maxZeroAreaStart }, o)

/-- The destructor, `buffer.cc:283–293`. -/
def destroy (h : Heap) (b : Buffer) : Heap :=
  Heap.release { h with recommendedStart := max h.recommendedStart b.m_maxZeroAreaStart } b.m_data

/-- `GetSize`. -/
def getSize (b : Buffer) : Nat := sub32 b.m_end b.m_start

/-- `GetInternalSize`. -/
def getInternalSize (b : Buffer) : Nat :=
  sub32 (add32 (sub32 b.m_zeroAreaStart b.m_start) b.m_end) b.m_zeroAreaEnd

/-- `GetInternalEnd`. -/
def getInternalEnd (b : Buffer) : Nat := sub32 b.m_end (sub32 b.m_zeroAreaEnd b.m_zeroAreaStart)

/-- The last lines of the methods that add and remove bytes. -/
def noted (b : Buffer) : Buffer :=
  { b with m_maxZeroAreaStart := max b.m_maxZeroAreaStart b.m_zeroAreaStart }

/-- The block replaced and the offsets moved by `delta`. -/
def moved (b : Buffer) (i delta : Nat) : Buffer :=
  { b with
    m_data := i
    m_start := add32 b.m_start delta
    m_zeroAreaStart := add32 b.m_zeroAreaStart delta
    m_zeroAreaEnd := add32 b.m_zeroAreaEnd delta
    m_end := add32 b.m_end delta }

/-- The block with `start` bytes before a copy of the bytes of the Buffer, of `newSize` bytes at
least, and the old one released. -/
def recreate (h : Heap) (b : Buffer) (newSize start : Nat) : Except BufferError (Nat × Heap) :=
  let (i, h) := h.create newSize
  (h.read b.m_data b.m_start b.getInternalSize).bind fun p =>
    (h.write i start p).map fun h => (i, h.release b.m_data)

/-- `AddAtStart`, `buffer.cc:308–352`. -/
def addAtStart (h : Heap) (b : Buffer) (start : Nat) : Except BufferError (Heap × Buffer) :=
  let d := h.blocks b.m_data
  let isDirty := 1 < d.m_count ∧ d.m_dirtyStart < b.m_start
  if start ≤ b.m_start ∧ ¬ isDirty then
    if d.m_count = 1 ∨ b.m_start = d.m_dirtyStart then
      .ok (h.setDirty b.m_data (b.m_start - start) d.m_dirtyEnd,
        { b with m_start := b.m_start - start }.noted)
    else .error .inPlace
  else
    (b.recreate h (add32 b.getInternalSize start) start).map fun (i, h) =>
      let b := b.moved i (sub32 start b.m_start)
      let b := { b with m_start := sub32 b.m_start start }
      (h.setDirty i b.m_start b.m_end, b.noted)

/-- `AddAtEnd`, `buffer.cc:353–397`. -/
def addAtEnd (h : Heap) (b : Buffer) (stop : Nat) : Except BufferError (Heap × Buffer) :=
  let d := h.blocks b.m_data
  let isDirty := 1 < d.m_count ∧ b.m_end < d.m_dirtyEnd
  if add32 b.getInternalEnd stop ≤ d.m_size ∧ ¬ isDirty then
    if d.m_count = 1 ∨ b.m_end = d.m_dirtyEnd then
      .ok (h.setDirty b.m_data d.m_dirtyStart (add32 b.m_end stop),
        { b with m_end := add32 b.m_end stop }.noted)
    else .error .inPlace
  else
    (b.recreate h (add32 b.getInternalSize stop) 0).map fun (i, h) =>
      let b := b.moved i (sub32 0 b.m_start)
      let b := { b with m_end := add32 b.m_end stop }
      (h.setDirty i b.m_start b.m_end, b.noted)

/-- `RemoveAtStart`, `buffer.cc:442–486`. -/
def removeAtStart (b : Buffer) (start : Nat) : Buffer :=
  let newStart := add32 b.m_start start
  noted <|
    if newStart ≤ b.m_zeroAreaStart then { b with m_start := newStart }
    else if newStart ≤ b.m_zeroAreaEnd then
      let delta := newStart - b.m_zeroAreaStart
      { b with
        m_start := b.m_zeroAreaStart
        m_zeroAreaEnd := sub32 b.m_zeroAreaEnd delta
        m_end := sub32 b.m_end delta }
    else if newStart ≤ b.m_end then
      let zeroSize := sub32 b.m_zeroAreaEnd b.m_zeroAreaStart
      { b with
        m_start := sub32 newStart zeroSize
        m_zeroAreaStart := sub32 newStart zeroSize
        m_zeroAreaEnd := sub32 newStart zeroSize
        m_end := sub32 b.m_end zeroSize }
    else
      let m_end := sub32 b.m_end (sub32 b.m_zeroAreaEnd b.m_zeroAreaStart)
      { b with m_start := m_end, m_zeroAreaStart := m_end, m_zeroAreaEnd := m_end, m_end := m_end }

/-- `RemoveAtEnd`, `buffer.cc:487–521`. -/
def removeAtEnd (b : Buffer) (stop : Nat) : Buffer :=
  let newEnd := sub32 b.m_end (min stop (sub32 b.m_end b.m_start))
  noted <|
    if b.m_zeroAreaEnd < newEnd then { b with m_end := newEnd }
    else if b.m_zeroAreaStart < newEnd then { b with m_zeroAreaEnd := newEnd, m_end := newEnd }
    else if b.m_start < newEnd then
      { b with m_zeroAreaStart := newEnd, m_zeroAreaEnd := newEnd, m_end := newEnd }
    else
      { b with m_zeroAreaStart := b.m_start, m_zeroAreaEnd := b.m_start, m_end := b.m_start }

/-! ### Iterators -/

/-- `Buffer::Iterator`. -/
structure Iterator where
  m_zeroStart : Nat
  m_zeroEnd : Nat
  m_dataStart : Nat
  m_dataEnd : Nat
  m_current : Nat
  m_data : Nat
  deriving DecidableEq, Repr

/-- An iterator at an offset of the Buffer. -/
def iterator (b : Buffer) (current : Nat) : Iterator where
  m_zeroStart := b.m_zeroAreaStart
  m_zeroEnd := b.m_zeroAreaEnd
  m_dataStart := b.m_start
  m_dataEnd := b.m_end
  m_current := current
  m_data := b.m_data

/-- `Begin`, and `Next` on it. -/
def beginNext (b : Buffer) (delta : Nat) : Iterator := b.iterator (add32 b.m_start delta)

/-- `End`, and `Prev` on it. -/
def endPrev (b : Buffer) (delta : Nat) : Iterator := b.iterator (sub32 b.m_end delta)

namespace Iterator

/-- `NS_ASSERT` of an iterator. -/
def assert (p : Prop) [Decidable p] : Except BufferError Unit :=
  if p then .ok () else .error .iterator

/-- `CheckNoZero`, `buffer.cc:816–824`. -/
def CheckNoZero (it : Iterator) (start stop : Nat) : Prop :=
  ¬ (start < it.m_dataStart ∨ it.m_dataEnd < stop ∨
    it.m_zeroStart < stop ∧ start < it.m_zeroEnd ∧ it.m_zeroEnd ≠ it.m_zeroStart ∧ start ≠ stop)

/-- `Check`, `buffer.cc:825–832`. -/
def Check (it : Iterator) (i : Nat) : Prop :=
  it.m_dataStart ≤ i ∧ ¬ (it.m_zeroStart ≤ i ∧ i < it.m_zeroEnd) ∧ i ≤ it.m_dataEnd

instance (it : Iterator) (start stop : Nat) : Decidable (it.CheckNoZero start stop) :=
  inferInstanceAs (Decidable (¬ _))

instance (it : Iterator) (i : Nat) : Decidable (it.Check i) := inferInstanceAs (Decidable (_ ∧ _))

/-- The offset of the block behind the zero area. -/
def behind (it : Iterator) : Nat := sub32 it.m_current (sub32 it.m_zeroEnd it.m_zeroStart)

/-- `Write` of bytes, `buffer.cc:953–970`. What it asserts takes the number of bytes for their end. -/
def write (h : Heap) (it : Iterator) (p : List UInt8) : Except BufferError (Heap × Iterator) :=
  (assert (it.CheckNoZero it.m_current p.length)).bind fun _ =>
  (h.write it.m_data (if it.m_current ≤ it.m_zeroStart then it.m_current else it.behind) p).map
    fun h => (h, { it with m_current := add32 it.m_current p.length })

/-- `WriteU8`, `buffer.h:868–884`. -/
def writeU8 (h : Heap) (it : Iterator) (data : UInt8) : Except BufferError (Heap × Iterator) :=
  (assert (it.Check it.m_current)).bind fun _ =>
  (h.write it.m_data (if it.m_current < it.m_zeroStart then it.m_current else it.behind)
    [data]).map fun h => (h, { it with m_current := add32 it.m_current 1 })

/-- `WriteU8` of a byte `len` times, `buffer.h:886–903`. -/
def writeU8s (h : Heap) (it : Iterator) (data : UInt8) (len : Nat) :
    Except BufferError (Heap × Iterator) :=
  (assert (it.CheckNoZero it.m_current (add32 it.m_current len))).bind fun _ =>
  (h.write it.m_data (if it.m_current ≤ it.m_zeroStart then it.m_current else it.behind)
    (List.replicate len data)).map fun h => (h, { it with m_current := add32 it.m_current len })

/-- `Write` of what lies between two iterators, `buffer.cc:835–868`. It writes at `m_current` in the
block. -/
def writeBetween (h : Heap) (it start stop : Iterator) : Except BufferError (Heap × Iterator) :=
  (assert (start.m_data = stop.m_data ∧ start.m_current ≤ stop.m_current ∧
    start.m_zeroStart = stop.m_zeroStart ∧ start.m_zeroEnd = stop.m_zeroEnd ∧
    it.m_data ≠ start.m_data)).bind fun _ =>
  let size := sub32 stop.m_current start.m_current
  (assert (it.CheckNoZero it.m_current (add32 it.m_current size))).bind fun _ =>
  -- the bytes before the zero area
  let toCopy₁ := if start.m_current ≤ start.m_zeroStart then
    min size (start.m_zeroStart - start.m_current) else 0
  (h.read start.m_data start.m_current toCopy₁).bind fun p₁ =>
  (h.write it.m_data it.m_current p₁).bind fun h =>
  let from₁ := add32 start.m_current toCopy₁
  let to₁ := add32 it.m_current toCopy₁
  let size := size - toCopy₁
  -- the zeroes
  let toCopy₂ := if from₁ ≤ start.m_zeroEnd then min size (start.m_zeroEnd - from₁) else 0
  (h.write it.m_data to₁ (List.replicate toCopy₂ 0)).bind fun h =>
  let from₂ := add32 from₁ toCopy₂
  let to₂ := add32 to₁ toCopy₂
  let size := size - toCopy₂
  -- the bytes behind the zero area
  let toCopy₃ := min size (sub32 start.m_dataEnd from₂)
  (h.read start.m_data (sub32 from₂ (sub32 start.m_zeroEnd start.m_zeroStart)) toCopy₃).bind fun p₃ =>
  (h.write it.m_data to₂ p₃).map fun h => (h, { it with m_current := add32 to₂ toCopy₃ })

end Iterator

/-! ### Copies -/

/-- `CreateFullCopy`, `buffer.cc:535–558`. -/
def createFullCopy (h : Heap) (b : Buffer) : Except BufferError (Heap × Buffer) :=
  let zeroSize := sub32 b.m_zeroAreaEnd b.m_zeroAreaStart
  if zeroSize ≠ 0 then
    let (h, tmp) := initializeZeroes h 0
    (tmp.addAtStart h zeroSize).bind fun (h, tmp) =>
    ((tmp.beginNext 0).writeU8s h 0 zeroSize).bind fun (h, _) =>
    let dataStart := sub32 b.m_zeroAreaStart b.m_start
    (tmp.addAtStart h dataStart).bind fun (h, tmp) =>
    (h.read b.m_data b.m_start dataStart).bind fun p =>
    ((tmp.beginNext 0).write h p).bind fun (h, _) =>
    let dataEnd := sub32 b.m_end b.m_zeroAreaEnd
    (tmp.addAtEnd h dataEnd).bind fun (h, tmp) =>
    (h.read b.m_data b.m_zeroAreaStart dataEnd).bind fun p =>
    ((tmp.endPrev dataEnd).write h p).map fun (h, _) => (h, tmp)
  else .ok (b.copy h)

/-- `*this = CreateFullCopy ()`, as in `TransformIntoRealBuffer`, `buffer.cc:698–706`. -/
def transformIntoRealBuffer (h : Heap) (b : Buffer) : Except BufferError (Heap × Buffer) :=
  (b.createFullCopy h).map fun (h, tmp) =>
    let (h, b) := b.assign h tmp
    (tmp.destroy h, b)

/-- `CreateFragment`, `buffer.cc:523–533`. -/
def createFragment (h : Heap) (b : Buffer) (start length : Nat) : Heap × Buffer :=
  let (h, tmp) := b.copy h
  (h, (tmp.removeAtStart start).removeAtEnd (sub32 b.getSize (add32 start length)))

/-- `AddAtEnd` of a Buffer, `buffer.cc:399–440`. -/
def addAtEndBuffer (h : Heap) (b o : Buffer) : Except BufferError (Heap × Buffer) :=
  let d := h.blocks b.m_data
  if d.m_count = 1 ∧ (b.m_end = b.m_zeroAreaEnd ∨ b.m_zeroAreaStart = b.m_zeroAreaEnd) ∧
      b.m_end = d.m_dirtyEnd ∧ o.m_start = o.m_zeroAreaStart ∧
      0 < sub32 o.m_zeroAreaEnd o.m_zeroAreaStart then
    -- the zero areas are adjacent
    let zeroSize := sub32 o.m_zeroAreaEnd o.m_zeroAreaStart
    let m_end := add32 b.m_end zeroSize
    let b := { b with
      m_zeroAreaStart := if b.m_zeroAreaStart = b.m_zeroAreaEnd then b.m_end else b.m_zeroAreaStart
      m_zeroAreaEnd := m_end
      m_end := m_end }
    let h := h.setDirty b.m_data d.m_dirtyStart m_end
    let endData := sub32 o.m_end o.m_zeroAreaEnd
    (b.addAtEnd h endData).bind fun (h, b) =>
    ((b.endPrev endData).writeBetween h (o.endPrev endData) (o.endPrev 0)).map fun (h, _) => (h, b)
  else
    (b.transformIntoRealBuffer h).bind fun (h, b) =>
    (b.addAtEnd h o.getSize).bind fun (h, b) =>
    ((b.endPrev o.getSize).writeBetween h (o.beginNext 0) (o.endPrev 0)).map fun (h, _) => (h, b)

/-- `CopyData`, `buffer.cc:748–780`. -/
def copyData (h : Heap) (b : Buffer) (size : Nat) : Except BufferError (List UInt8) :=
  let tmpsize₁ := min (sub32 b.m_zeroAreaStart b.m_start) size
  (h.read b.m_data b.m_start tmpsize₁).bind fun p₁ =>
  let size := size - tmpsize₁
  let tmpsize₂ := min (sub32 b.m_zeroAreaEnd b.m_zeroAreaStart) size
  let size := size - tmpsize₂
  let tmpsize₃ := min (sub32 b.m_end b.m_zeroAreaEnd) size
  (h.read b.m_data b.m_zeroAreaStart tmpsize₃).map fun p₃ =>
    p₁ ++ List.replicate tmpsize₂ 0 ++ p₃

end Buffer

/-! ### Calls -/

/-- What is written to bytes that were added. -/
inductive Piece where
  | write (p : List UInt8)
  | writeU8 (data : UInt8)
  | writeU8s (data : UInt8) (len : Nat)
  /-- The bytes of the object `j` from `start` to `stop`. -/
  | writeBetween (j start stop : Nat)

/-- The number of bytes. -/
def Piece.length : Piece → Nat
  | write p => p.length
  | writeU8 _ => 1
  | writeU8s _ len => len
  | writeBetween _ start stop => stop - start

/-- The number of bytes of all pieces. -/
def Piece.total (pieces : List Piece) : Nat := (pieces.map Piece.length).sum

/-- The Buffers of a program: objects have numbers, in the order in which they are constructed. -/
structure Buffers where
  heap : Heap
  objects : List (Option Buffer) := []

namespace Buffers

def get (s : Buffers) (i : Nat) : Except BufferError Buffer :=
  match s.objects[i]? with
  | some (some b) => .ok b
  | _ => .error .destroyed

def put (s : Buffers) (i : Nat) (r : Heap × Buffer) : Buffers := ⟨r.1, s.objects.set i (some r.2)⟩

def push (s : Buffers) (r : Heap × Buffer) : Buffers := ⟨r.1, s.objects ++ [some r.2]⟩

/-- One piece is written. -/
def writePiece (s : Buffers) (h : Heap) (it : Buffer.Iterator) :
    Piece → Except BufferError (Heap × Buffer.Iterator)
  | .write p => it.write h p
  | .writeU8 data => it.writeU8 h data
  | .writeU8s data len => it.writeU8s h data len
  | .writeBetween j start stop =>
    (s.get j).bind fun o => it.writeBetween h (o.beginNext start) (o.beginNext stop)

/-- The pieces are written one behind the other. -/
def writePieces (s : Buffers) (h : Heap) (it : Buffer.Iterator) : List Piece → Except BufferError Heap
  | [] => .ok h
  | piece :: pieces => (s.writePiece h it piece).bind fun (h, it) => s.writePieces h it pieces

end Buffers

/-- The operations on Buffers. `i` and `j` are numbers of objects. -/
inductive BufferCall where
  | construct (zeroSize : Nat)
  | copy (i : Nat)
  | assign (i j : Nat)
  | addAtStart (i : Nat) (pieces : List Piece)
  | addAtEnd (i : Nat) (pieces : List Piece)
  | addAtEndBuffer (i j : Nat)
  | removeAtStart (i start : Nat)
  | removeAtEnd (i stop : Nat)
  | createFragment (i start length : Nat)
  | createFullCopy (i : Nat)
  | peekData (i : Nat)
  | destroy (i : Nat)

open Buffer in
/-- The Buffers after an operation. -/
def BufferCall.run (s : Buffers) : BufferCall → Except BufferError Buffers
  | construct zeroSize => .ok (s.push (initializeZeroes s.heap zeroSize))
  | copy i => (s.get i).map fun b => s.push (b.copy s.heap)
  | assign i j => (s.get i).bind fun b => (s.get j).map fun o => s.put i (b.assign s.heap o)
  | addAtStart i pieces =>
    (s.get i).bind fun b => (b.addAtStart s.heap (Piece.total pieces)).bind fun (h, b) =>
      ((s.put i (h, b)).writePieces h (b.beginNext 0) pieces).map fun h => s.put i (h, b)
  | addAtEnd i pieces =>
    (s.get i).bind fun b => (b.addAtEnd s.heap (Piece.total pieces)).bind fun (h, b) =>
      ((s.put i (h, b)).writePieces h (b.endPrev (Piece.total pieces)) pieces).map fun h =>
        s.put i (h, b)
  | addAtEndBuffer i j =>
    (s.get i).bind fun b => (s.get j).bind fun o =>
      -- a Buffer at its own end: the iterators that `Write` is given are of the block it writes to
      if i = j then .error .iterator else (b.addAtEndBuffer s.heap o).map (s.put i)
  | removeAtStart i start => (s.get i).map fun b => s.put i (s.heap, b.removeAtStart start)
  | removeAtEnd i stop => (s.get i).map fun b => s.put i (s.heap, b.removeAtEnd stop)
  | createFragment i start length =>
    (s.get i).map fun b => s.push (b.createFragment s.heap start length)
  | createFullCopy i => (s.get i).bind fun b => (b.createFullCopy s.heap).map s.push
  | peekData i => (s.get i).bind fun b => (b.transformIntoRealBuffer s.heap).map (s.put i)
  | destroy i => (s.get i).map fun b => ⟨b.destroy s.heap, s.objects.set i none⟩

end Ns3.Network
