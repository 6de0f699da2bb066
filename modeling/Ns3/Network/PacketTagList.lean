import Ns3.Lib.SharedList

/-!
# Packet tags

Lists of serialized tags that share their tails. A list is changed in place before the first cell with
more than one pointer; from there on it is copied as far as it changes. Source:
`src/network/model/packet-tag-list.cc` and `packet-tag-list.h`.
-/

namespace Ns3.Network

open Ns3.Lib

/-- The methods of tags: the number of the type of a tag, what `Serialize` writes, and what
`Deserialize` makes of bytes. It reads back what was written, and a TagBuffer does not tell how much is
behind that. -/
structure TagMethods (V : Type*) where
  tid : V → Nat
  serialize : V → List UInt8
  deserialize : Nat → List UInt8 → V
  deserialize_serialize : ∀ v rest, deserialize (tid v) (serialize v ++ rest) = v

/-- What a `TagData` holds besides its pointer and count; `size` is the length of `data`. -/
structure StoredTag where
  tid : Nat
  data : List UInt8
  deriving DecidableEq, Repr

/-- `TagData`. -/
abbrev TagData := Cell StoredTag

/-- The `TagData` of a program by number, none where one is freed. -/
abbrev TagNodes := List (Option TagData)

namespace PacketTagList

/-! ### Traversal -/

/-- Where the search of `COWTraverse` ends: behind the last tag, at a merge, or at the type before a
merge. -/
inductive Search where
  | absent
  | merge (prevNext : Option Nat) (cur : Nat)
  | found (prevNext : Option Nat) (cur : Nat)
  deriving DecidableEq, Repr

/-- The search from the head of a list, `packet-tag-list.cc:74–97`. `prevNext` is the node whose
pointer `cur` is, none for that of the list. -/
def search (h : TagNodes) (tid : Nat) : Nat → Option Nat → Option Nat → Option Search
  | 0, _, _ => none
  | _ + 1, _, none => some .absent
  | fuel + 1, prevNext, some cur => (cellAt h cur).bind fun c =>
    if 1 < c.count then some (.merge prevNext cur)
    else if c.value.tid = tid then some (.found prevNext cur)
    else search h tid fuel (some cur) c.next

/-- A search for the first tag of a type, `packet-tag-list.cc:110–122` and in `Add` and `Peek`. -/
def find (h : TagNodes) (tid : Nat) : Nat → Option Nat → Option (Option StoredTag)
  | 0, _ => none
  | _ + 1, none => some none
  | fuel + 1, some cur => (cellAt h cur).bind fun c =>
    if c.value.tid = tid then some (some c.value) else find h tid fuel c.next

/-- The loop that copies merges up to a type, `packet-tag-list.cc:149–164`. -/
def copyTo (h : TagNodes) (m_next : Option Nat) (tid : Nat) :
    Nat → Option Nat → Option Nat → Option (TagNodes × Option Nat × Option Nat × Nat)
  | 0, _, _ => none
  | _ + 1, _, none => none
  | fuel + 1, prevNext, some cur => (cellAt h cur).bind fun c =>
    if c.count ≤ 1 then none
    else if c.value.tid = tid then some (h, m_next, prevNext, cur)
    else
      let h := release h cur
      let copy := h.length
      let h := retain (h ++ [some { c with count := 1 }]) c.next
      let (h, m_next) := link h m_next (some copy) prevNext
      copyTo h m_next tid fuel (some copy) c.next

/-- `COWTraverse`, with none as what it returns when the type is not found. -/
def cowTraverse {β : Type*} (h : TagNodes) (m_next : Option Nat) (tid : Nat)
    (writer : TagNodes → Option Nat → Bool → Nat → Option Nat → Option (β × TagNodes × Option Nat)) :
    Option (Option β × TagNodes × Option Nat) :=
  (search h tid (h.length + 1) none m_next).bind fun
    | .absent => some (none, h, m_next)
    | .found prevNext cur => (writer h m_next true cur prevNext).map fun (b, r) => (some b, r)
    | .merge prevNext cur => (find h tid (h.length + 1) (some cur)).bind fun
      | none => some (none, h, m_next)
      | some _ => (copyTo h m_next tid (h.length + 1) prevNext (some cur)).bind
        fun (h, m_next, prevNext, cur) =>
          (writer h m_next false cur prevNext).map fun (b, r) => (some b, r)

/-- `RemoveWriter`, with what it gives to `Deserialize`. -/
def removeWriter (h : TagNodes) (m_next : Option Nat) (preMerge : Bool) (cur : Nat)
    (prevNext : Option Nat) : Option (StoredTag × TagNodes × Option Nat) :=
  (cellAt h cur).map fun c =>
    let (h, m_next) := link h m_next c.next prevNext
    if preMerge then (c.value, h.set cur none, m_next)
    else (c.value, retain (release h cur) c.next, m_next)

/-- `ReplaceWriter`. In place there are as many bytes as the old value has; `Serialize` asserts that
there is room, and leaves what is behind as it is. -/
def replaceWriter (tag : StoredTag) (h : TagNodes) (m_next : Option Nat) (preMerge : Bool) (cur : Nat)
    (prevNext : Option Nat) : Option (Unit × TagNodes × Option Nat) :=
  (cellAt h cur).bind fun c =>
    if preMerge then
      if tag.data.length ≤ c.value.data.length then
        some ((), h.set cur (some { c with
          value := { c.value with data := tag.data ++ c.value.data.drop tag.data.length } }), m_next)
      else none
    else
      let h := release h cur
      let copy := h.length
      let h := retain (h ++ [some ⟨c.next, 1, tag⟩]) c.next
      some ((), link h m_next (some copy) prevNext)

/-! ### Operations -/

/-- `Remove`, with what it gives to `Deserialize`. -/
def remove (h : TagNodes) (m_next : Option Nat) (tid : Nat) :
    Option (Option StoredTag × TagNodes × Option Nat) :=
  cowTraverse h m_next tid removeWriter

/-- `Add`, with the assertion that no tag of the type is there. -/
def add (h : TagNodes) (m_next : Option Nat) (tag : StoredTag) : Option (TagNodes × Option Nat) :=
  (find h tag.tid (h.length + 1) m_next).bind fun
    | some _ => none
    | none => some (h ++ [some ⟨m_next, 1, tag⟩], some h.length)

/-- `Replace`. -/
def replace (h : TagNodes) (m_next : Option Nat) (tag : StoredTag) :
    Option (Bool × TagNodes × Option Nat) :=
  (cowTraverse h m_next tag.tid (replaceWriter tag)).bind fun
    | (some _, r) => some (true, r)
    | (none, h, m_next) => (add h m_next tag).map fun r => (false, r)

/-- `Peek`, with what it gives to `Deserialize`. -/
def peek (h : TagNodes) (m_next : Option Nat) (tid : Nat) : Option (Option StoredTag) :=
  find h tid (h.length + 1) m_next

/-- A node is freed, if there is one. -/
def free (h : TagNodes) : Option Nat → TagNodes
  | none => h
  | some i => h.set i none

/-- The loop of `RemoveAll`, `packet-tag-list.h:362–378`. -/
def removeAllFrom (h : TagNodes) : Nat → Option Nat → Option Nat → Option TagNodes
  | 0, _, _ => none
  | _ + 1, prev, none => some (free h prev)
  | fuel + 1, prev, some cur => (cellAt h cur).bind fun c =>
    let h := release h cur
    if 0 < c.count - 1 then some (free h prev)
    else removeAllFrom (free h prev) fuel (some cur) c.next

/-- `RemoveAll`. -/
def removeAll (h : TagNodes) (m_next : Option Nat) : Option TagNodes :=
  removeAllFrom h (h.length + 1) none m_next

/-- `operator=`. -/
def assign (h : TagNodes) (m_next o : Option Nat) : Option (TagNodes × Option Nat) :=
  if m_next = o then some (h, m_next)
  else (removeAll h m_next).map fun h => (retain h o, o)

end PacketTagList

/-- A `PacketTagList`. -/
structure PacketTagList where
  m_next : Option Nat := none
  deriving DecidableEq, Repr

/-- The lists of a program: objects have numbers, in the order in which they are constructed. -/
structure PacketTagLists where
  nodes : TagNodes := []
  objects : List (Option PacketTagList) := []
  deriving DecidableEq, Repr

/-- What an operation returns: nothing, whether a type was found, or the value found. -/
inductive TagResult (V : Type*) where
  | done
  | found (b : Bool)
  | value (v : Option V)
  deriving DecidableEq, Repr

/-- The operations on lists. `i` and `j` are numbers of objects. -/
inductive TagCall (V : Type*) where
  | construct
  | copy (i : Nat)
  | assign (i j : Nat)
  | add (i : Nat) (v : V)
  | remove (i tid : Nat)
  | replace (i : Nat) (v : V)
  | peek (i tid : Nat)
  | destroy (i : Nat)

namespace PacketTagLists

def get (s : PacketTagLists) (i : Nat) : Option (Option Nat) :=
  s.objects[i]?.join.map PacketTagList.m_next

def put (s : PacketTagLists) (i : Nat) (r : TagNodes × Option Nat) : PacketTagLists :=
  ⟨r.1, s.objects.set i (some ⟨r.2⟩)⟩

def push (s : PacketTagLists) (r : TagNodes × Option Nat) : PacketTagLists :=
  ⟨r.1, s.objects ++ [some ⟨r.2⟩]⟩

end PacketTagLists

namespace TagMethods

variable {V : Type*} (k : TagMethods V)

/-- A tag as it is stored. -/
def store (v : V) : StoredTag := ⟨k.tid v, k.serialize v⟩

/-- A stored tag as it is read. -/
def load (d : StoredTag) : V := k.deserialize d.tid d.data

end TagMethods

open PacketTagList in
/-- What an operation returns and the lists after it, none where an assertion fails, there is no such
object or a freed node is read. -/
def TagCall.run {V : Type*} (k : TagMethods V) (s : PacketTagLists) :
    TagCall V → Option (TagResult V × PacketTagLists)
  | construct => some (.done, s.push (s.nodes, none))
  | copy i => (s.get i).map fun m_next => (.done, s.push (retain s.nodes m_next, m_next))
  | assign i j => (s.get i).bind fun m_next => (s.get j).bind fun o =>
    (PacketTagList.assign s.nodes m_next o).map fun r => (.done, s.put i r)
  | add i v => (s.get i).bind fun m_next =>
    (PacketTagList.add s.nodes m_next (k.store v)).map fun r => (.done, s.put i r)
  | remove i tid => (s.get i).bind fun m_next =>
    (PacketTagList.remove s.nodes m_next tid).map fun (d, r) => (.value (d.map k.load), s.put i r)
  | replace i v => (s.get i).bind fun m_next =>
    (PacketTagList.replace s.nodes m_next (k.store v)).map fun (b, r) => (.found b, s.put i r)
  | peek i tid => (s.get i).bind fun m_next =>
    (PacketTagList.peek s.nodes m_next tid).map fun d => (.value (d.map k.load), s)
  | destroy i => (s.get i).bind fun m_next =>
    (removeAll s.nodes m_next).map fun nodes => (.done, ⟨nodes, s.objects.set i none⟩)

end Ns3.Network
