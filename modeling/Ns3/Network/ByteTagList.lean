import Mathlib.Data.Int.Bitwise
import Mathlib.Data.List.Perm.Basic
import Mathlib.Logic.Function.Basic
import Mathlib.Order.Lattice

/-!
# Byte tags

A list of tags with the bytes of a packet that each of them covers. Offsets are stored as they were
when a tag was added; `m_adjustment` says by how much the packet has moved since. Lists share the
block that holds their tags until one of them has to write where another may look. Source:
`src/network/model/byte-tag-list.cc`, `byte-tag-list.h` and `packet.cc`.
-/

namespace Ns3.Network

/-- Conversion to `int32_t`. -/
def int32 (x : Int) : Int := (x + 2 ^ 31) % 2 ^ 32 - 2 ^ 31

/-- A tag: the number of its type, and what `Serialize` writes. -/
structure ByteTag where
  tid : Nat
  data : List UInt8
  deriving DecidableEq, Repr

/-- A tag in a block, and `ByteTagList::Iterator::Item`: offsets are raw in the one, moved and cut in
the other. -/
structure TagItem where
  tag : ByteTag
  start : Int
  stop : Int
  deriving DecidableEq, Repr

/-- The bytes of an item in a block. -/
def TagItem.length (e : TagItem) : Nat := 4 + 4 + 4 + 4 + e.tag.data.length

/-- The bytes of items one behind the other. -/
def TagItem.total (es : List TagItem) : Nat := (es.map TagItem.length).sum

/-- The items in the first `used` bytes. -/
def TagItem.upTo : Nat → List TagItem → List TagItem
  | _, [] => []
  | used, e :: es => if 0 < used then e :: upTo (used - e.length) es else []

/-- `ByteTagListData`; `items` is what `data` holds up to `dirty`. -/
structure ByteTagListData where
  size : Nat
  count : Nat
  dirty : Nat
  items : List TagItem

/-- The blocks by number, those from `next` on not yet allocated; `g_freeList`, its back first; and
`g_maxSize`. -/
structure TagHeap where
  blocks : Nat → ByteTagListData
  next : Nat := 0
  freeList : List Nat := []
  maxSize : Nat := 0

/-- `ByteTagList`. -/
structure ByteTagList where
  m_minStart : Int := 2 ^ 31 - 1
  m_maxEnd : Int := -2 ^ 31
  m_adjustment : Int := 0
  m_used : Nat := 0
  m_data : Option Nat := none
  deriving DecidableEq, Repr

namespace TagHeap

/-! ### Blocks -/

def set (h : TagHeap) (i : Nat) (d : ByteTagListData) : TagHeap :=
  { h with blocks := Function.update h.blocks i d }

/-- The loop of `Allocate` on the free list, `byte-tag-list.cc:360–382`. -/
def allocateFrom (h : TagHeap) (size : Nat) : List Nat → Nat × TagHeap
  | [] => (h.next, { h.set h.next ⟨size, 1, 0, []⟩ with next := h.next + 1, freeList := [] })
  | i :: rest =>
    if size ≤ (h.blocks i).size then
      (i, { h.set i ⟨(h.blocks i).size, 1, 0, []⟩ with freeList := rest })
    else h.allocateFrom size rest

/-- `Allocate`. -/
def allocate (h : TagHeap) (size : Nat) : Nat × TagHeap := h.allocateFrom size h.freeList

/-- `m_data->count++`, for a list with a block. -/
def retain (h : TagHeap) : Option Nat → TagHeap
  | none => h
  | some i => h.set i { h.blocks i with count := (h.blocks i).count + 1 }

/-- `Deallocate`, `byte-tag-list.cc:385–408`. -/
def deallocate (h : TagHeap) : Option Nat → TagHeap
  | none => h
  | some i =>
    let h := { h with maxSize := max h.maxSize (h.blocks i).size }
    let h := h.set i { h.blocks i with count := (h.blocks i).count - 1 }
    if (h.blocks i).count = 0 then
      if 1000 < h.freeList.length ∨ (h.blocks i).size < h.maxSize then h
      else { h with freeList := i :: h.freeList }
    else h

/-- What a block holds in its first `dirty` bytes. -/
def write (h : TagHeap) (i dirty : Nat) (items : List TagItem) : TagHeap :=
  h.set i { h.blocks i with dirty := dirty, items := items }

end TagHeap

namespace ByteTagList

/-! ### Lists -/

/-- The items of a list as they are stored. -/
def items (h : TagHeap) (l : ByteTagList) : List TagItem :=
  match l.m_data with
  | none => []
  | some i => TagItem.upTo l.m_used (h.blocks i).items

/-- `Adjust`. -/
def adjust (l : ByteTagList) (adjustment : Int) : ByteTagList :=
  { l with m_adjustment := int32 (l.m_adjustment + adjustment) }

/-- An item as `PrepareForNext` and `Next` see it, `byte-tag-list.cc:87–120`. -/
def itemIn (l : ByteTagList) (offsetStart offsetEnd : Int) (e : TagItem) : Option TagItem :=
  let m_nextStart := int32 (e.start + l.m_adjustment)
  let m_nextEnd := int32 (e.stop + l.m_adjustment)
  if offsetEnd ≤ m_nextStart ∨ m_nextEnd ≤ offsetStart then none
  else some { e with start := max m_nextStart offsetStart, stop := min m_nextEnd offsetEnd }

/-- What the iterator of `Begin` goes over. -/
def itemsIn (h : TagHeap) (l : ByteTagList) (offsetStart offsetEnd : Int) : List TagItem :=
  (l.items h).filterMap (l.itemIn offsetStart offsetEnd)

/-- What the iterator of `BeginAll` goes over. -/
def allItems (h : TagHeap) (l : ByteTagList) : List TagItem := l.itemsIn h 0 (2 ^ 31 - 1)

/-- The copy constructor. -/
def copy (h : TagHeap) (o : ByteTagList) : TagHeap × ByteTagList := (h.retain o.m_data, o)

/-- `operator=` from another list. -/
def assign (h : TagHeap) (l o : ByteTagList) : TagHeap × ByteTagList :=
  ((h.deallocate l.m_data).retain o.m_data, o)

/-- `Add` of a tag, with the tag written, `byte-tag-list.cc:192–231`. The items that the list has are
before it, in the block as it is or copied to a new one. -/
def add (h : TagHeap) (l : ByteTagList) (tag : ByteTag) (start stop : Int) : TagHeap × ByteTagList :=
  let e : TagItem := ⟨tag, int32 (start - l.m_adjustment), int32 (stop - l.m_adjustment)⟩
  let es := l.items h
  let spaceNeeded := l.m_used + e.length
  let (i, h) := match l.m_data with
    | none => h.allocate spaceNeeded
    | some i =>
      let d := h.blocks i
      if d.size < spaceNeeded ∨ d.count ≠ 1 ∧ d.dirty ≠ l.m_used then
        let (j, h) := h.allocate spaceNeeded
        (j, h.deallocate (some i))
      else (i, h)
  (h.write i spaceNeeded (es ++ [e]),
    { l with
      m_minStart := if e.start < l.m_minStart then e.start else l.m_minStart
      m_maxEnd := if l.m_maxEnd < e.stop then e.stop else l.m_maxEnd
      m_used := spaceNeeded
      m_data := some i })

/-- `Add` of items one after the other. -/
def addItems (h : TagHeap) (l : ByteTagList) : List TagItem → TagHeap × ByteTagList
  | [] => (h, l)
  | e :: es =>
    let (h, l) := l.add h e.tag e.start e.stop
    addItems h l es

/-- A new list with the items takes the place of the old one. -/
def rebuild (h : TagHeap) (l : ByteTagList) (es : List TagItem) : TagHeap × ByteTagList :=
  let (h, list) := addItems h {} es
  let (h, l) := assign h l list
  (h.deallocate list.m_data, l)

/-- `AddAtEnd`, `byte-tag-list.cc:287–318`. -/
def addAtEnd (h : TagHeap) (l : ByteTagList) (appendOffset : Int) : TagHeap × ByteTagList :=
  if l.m_maxEnd ≤ int32 (appendOffset - l.m_adjustment) then (h, l)
  else rebuild h l ((l.allItems h).filterMap fun e =>
    if appendOffset ≤ e.start then none
    else if appendOffset < e.stop then some { e with stop := appendOffset }
    else some e)

/-- `AddAtStart`, `byte-tag-list.cc:320–350`. -/
def addAtStart (h : TagHeap) (l : ByteTagList) (prependOffset : Int) : TagHeap × ByteTagList :=
  if int32 (prependOffset - l.m_adjustment) ≤ l.m_minStart then (h, l)
  else rebuild h l ((l.allItems h).filterMap fun e =>
    if e.stop ≤ prependOffset then none
    else if e.start < prependOffset then some { e with start := prependOffset }
    else some e)

end ByteTagList

/-! ### Packets -/

/-- A `Packet` as far as byte tags go: the size of its Buffer, and its list. -/
structure TaggedPacket where
  size : Nat
  m_byteTagList : ByteTagList := {}
  deriving DecidableEq, Repr

namespace TaggedPacket

open ByteTagList

/-- `AddHeader`, `packet.cc:257–267`. -/
def addHeader (h : TagHeap) (p : TaggedPacket) (size : Nat) : TagHeap × TaggedPacket :=
  let (h, l) := (p.m_byteTagList.adjust size).addAtStart h size
  (h, ⟨p.size + size, l⟩)

/-- `RemoveAtStart`, `packet.cc:361–368`. -/
def removeAtStart (p : TaggedPacket) (size : Nat) : TaggedPacket :=
  ⟨p.size - size, p.m_byteTagList.adjust (int32 (-size))⟩

/-- `RemoveHeader` of a header of `deserialized` bytes, `packet.cc:281–290`. -/
def removeHeader (p : TaggedPacket) (deserialized : Nat) : TaggedPacket := p.removeAtStart deserialized

/-- `AddTrailer`, `packet.cc:308–319`. -/
def addTrailer (h : TagHeap) (p : TaggedPacket) (size : Nat) : TagHeap × TaggedPacket :=
  let (h, l) := p.m_byteTagList.addAtEnd h p.size
  (h, ⟨p.size + size, l⟩)

/-- `AddPaddingAtEnd`, `packet.cc:346–353`. -/
def addPaddingAtEnd (h : TagHeap) (p : TaggedPacket) (size : Nat) : TagHeap × TaggedPacket :=
  p.addTrailer h size

/-- `RemoveAtEnd`, `packet.cc:354–360`. -/
def removeAtEnd (p : TaggedPacket) (size : Nat) : TaggedPacket := { p with size := p.size - size }

/-- `RemoveTrailer` of a trailer of `deserialized` bytes, `packet.cc:320–328`. -/
def removeTrailer (p : TaggedPacket) (deserialized : Nat) : TaggedPacket := p.removeAtEnd deserialized

/-- `CreateFragment`, `packet.cc:226–242`. -/
def createFragment (h : TagHeap) (p : TaggedPacket) (start length : Nat) : TagHeap × TaggedPacket :=
  let (h, byteTagList) := p.m_byteTagList.copy h
  (h, ⟨length, byteTagList.adjust (int32 (-start))⟩)

/-- The list of an appended packet, moved behind `size` bytes. -/
def appended (h : TagHeap) (q : TaggedPacket) (size : Nat) : TagHeap × ByteTagList :=
  let (h, copy) := q.m_byteTagList.copy h
  let (h, copy) := copy.addAtStart h 0
  (h, copy.adjust size)

/-- `AddAtEnd` of another packet, `packet.cc:335–345`. -/
def addAtEnd (h : TagHeap) (p q : TaggedPacket) : TagHeap × TaggedPacket :=
  let (h, l) := p.m_byteTagList.addAtEnd h p.size
  let (h, copy) := q.appended h p.size
  let (h, l) := l.addItems h (copy.allItems h)
  (h.deallocate copy.m_data, ⟨p.size + q.size, l⟩)

/-- `AddByteTag` of some of the bytes, `packet.cc:920–931`. -/
def addByteTagAt (h : TagHeap) (p : TaggedPacket) (tag : ByteTag) (start stop : Nat) :
    TagHeap × TaggedPacket :=
  let (h, l) := p.m_byteTagList.add h tag (int32 start) (int32 stop)
  (h, { p with m_byteTagList := l })

/-- `AddByteTag`, `packet.cc:911–919`. -/
def addByteTag (h : TagHeap) (p : TaggedPacket) (tag : ByteTag) : TagHeap × TaggedPacket :=
  p.addByteTagAt h tag 0 p.size

/-- What `GetByteTagIterator` goes over. -/
def byteTags (h : TagHeap) (p : TaggedPacket) : List TagItem := p.m_byteTagList.itemsIn h 0 p.size

end TaggedPacket

/-- The packets of a program: objects have numbers, in the order in which they are constructed. -/
structure TaggedPackets where
  heap : TagHeap
  objects : List (Option TaggedPacket) := []

namespace TaggedPackets

def get (s : TaggedPackets) (i : Nat) : Option TaggedPacket := s.objects[i]?.join

def put (s : TaggedPackets) (i : Nat) (r : TagHeap × TaggedPacket) : TaggedPackets :=
  ⟨r.1, s.objects.set i (some r.2)⟩

def push (s : TaggedPackets) (r : TagHeap × TaggedPacket) : TaggedPackets :=
  ⟨r.1, s.objects ++ [some r.2]⟩

end TaggedPackets

/-- The operations on packets. `i` and `j` are numbers of objects. -/
inductive PacketCall where
  | construct (size : Nat)
  | copy (i : Nat)
  | addHeader (i size : Nat)
  | removeHeader (i deserialized : Nat)
  | addTrailer (i size : Nat)
  | removeTrailer (i deserialized : Nat)
  | addPaddingAtEnd (i size : Nat)
  | removeAtStart (i size : Nat)
  | removeAtEnd (i size : Nat)
  | createFragment (i start length : Nat)
  | addAtEnd (i j : Nat)
  | addByteTag (i : Nat) (tag : ByteTag)
  | addByteTagAt (i : Nat) (tag : ByteTag) (start stop : Nat)
  | destroy (i : Nat)

open TaggedPacket in
/-- The packets after an operation, none where an assertion fails or there is no such object. -/
def PacketCall.run (s : TaggedPackets) : PacketCall → Option TaggedPackets
  | construct size => some (s.push (s.heap, { size := size }))
  | copy i => (s.get i).map fun p =>
    let (h, l) := p.m_byteTagList.copy s.heap
    s.push (h, { p with m_byteTagList := l })
  | addHeader i size => (s.get i).map fun p => s.put i (p.addHeader s.heap size)
  | removeHeader i deserialized =>
    (s.get i).map fun p => s.put i (s.heap, p.removeHeader deserialized)
  | addTrailer i size => (s.get i).map fun p => s.put i (p.addTrailer s.heap size)
  | removeTrailer i deserialized =>
    (s.get i).map fun p => s.put i (s.heap, p.removeTrailer deserialized)
  | addPaddingAtEnd i size => (s.get i).map fun p => s.put i (p.addPaddingAtEnd s.heap size)
  | removeAtStart i size => (s.get i).map fun p => s.put i (s.heap, p.removeAtStart size)
  | removeAtEnd i size => (s.get i).map fun p => s.put i (s.heap, p.removeAtEnd size)
  | createFragment i start length => (s.get i).bind fun p =>
    if start + length ≤ p.size then some (s.push (p.createFragment s.heap start length)) else none
  | addAtEnd i j => (s.get i).bind fun p => (s.get j).bind fun q =>
    if i = j then none else some (s.put i (p.addAtEnd s.heap q))
  | addByteTag i tag => (s.get i).map fun p => s.put i (p.addByteTag s.heap tag)
  | addByteTagAt i tag start stop => (s.get i).bind fun p =>
    if stop < start then none else some (s.put i (p.addByteTagAt s.heap tag start stop))
  | destroy i => (s.get i).map fun p =>
    ⟨s.heap.deallocate p.m_byteTagList.m_data, s.objects.set i none⟩

end Ns3.Network
