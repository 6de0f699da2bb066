import Ns3.Lib.Fragments
import Ns3.Lib.Loop

/-!
# Fragmentation of 6LoWPAN

`DoFragmentation` and `ProcessFragment` of `src/sixlowpan/model/sixlowpan-net-device.cc`, with the headers and
dispatch values of `sixlowpan-header.cc`. A packet is its bytes. Offsets and the datagram size count bytes of
the packet before its header was compressed, of which the fragments carry the compressed ones.

A function has no result where the program stops.
-/

namespace Ns3.SixLowPan

open Ns3.Lib

abbrev Bytes := List UInt8

/-- `SixLowPanDispatch::Dispatch_e`, as far as `GetDispatchType` returns it. -/
inductive Dispatch where
  | nalp
  | ipv6
  | hc1
  | bc0
  | iphc
  | mesh
  | frag1
  | fragN
  | unsupported
deriving DecidableEq, Repr

def getDispatchType (dispatch : UInt8) : Dispatch :=
  if dispatch ≤ 0x3F then .nalp
  else if dispatch = 0x41 then .ipv6
  else if dispatch = 0x42 then .hc1
  else if dispatch = 0x50 then .bc0
  else if 0x60 ≤ dispatch ∧ dispatch ≤ 0x7F then .iphc
  else if 0x80 ≤ dispatch ∧ dispatch ≤ 0xBF then .mesh
  else if 0xC0 ≤ dispatch ∧ dispatch ≤ 0xC7 then .frag1
  else if 0xE0 ≤ dispatch ∧ dispatch ≤ 0xE7 then .fragN
  else .unsupported

/-- The dispatch of a packet: `CopyData` leaves the 0 in its place if there is no byte. -/
def dispatchOf (packet : Bytes) : Dispatch := getDispatchType (packet.head?.getD 0)

/-- `SixLowPanFrag1`, and the fields of a `SixLowPanFragN` but its offset. -/
structure SixLowPanFrag where
  m_datagramSize : UInt16
  m_datagramTag : UInt16
deriving DecidableEq, Repr

namespace SixLowPanFrag

/-- `SetDatagramSize` and `SetDatagramTag`. -/
def set (datagramSize datagramTag : UInt16) : SixLowPanFrag := ⟨datagramSize &&& 0x7FF, datagramTag⟩

/-- The first four bytes of both headers, with the dispatch value. -/
def serialize (dispatch : UInt8) (h : SixLowPanFrag) : Bytes :=
  let temp := h.m_datagramSize ||| (dispatch.toUInt16 <<< 8)
  [(temp >>> 8).toUInt8, (temp &&& 0xff).toUInt8,
    (h.m_datagramTag &&& 0xff).toUInt8, (h.m_datagramTag >>> 8).toUInt8]

/-- What `RemoveHeader` reads of them, and the bytes behind. -/
def remove : Bytes → Option (SixLowPanFrag × Bytes)
  | temp :: size :: byte0 :: byte1 :: packet =>
    some (⟨((temp.toUInt16 <<< 8) ||| size.toUInt16) &&& 0x7FF, (byte1.toUInt16 <<< 8) ||| byte0.toUInt16⟩, packet)
  | _ => none

end SixLowPanFrag

/-- `AddHeader` of a `SixLowPanFrag1`. -/
def addFrag1 (h : SixLowPanFrag) (fragment : Bytes) : Bytes := h.serialize 0xC0 ++ fragment

/-- `AddHeader` of a `SixLowPanFragN`. -/
def addFragN (h : SixLowPanFrag) (datagramOffset : UInt8) (fragment : Bytes) : Bytes :=
  h.serialize 0xE0 ++ datagramOffset :: fragment

/-- `RemoveHeader` of a `SixLowPanFragN`. -/
def removeFragN (packet : Bytes) : Option (SixLowPanFrag × UInt8 × Bytes) :=
  match SixLowPanFrag.remove packet with
  | some (h, datagramOffset :: fragment) => some (h, datagramOffset, fragment)
  | _ => none

/-- `Packet::CreateFragment`. -/
def createFragment (packet : Bytes) (start length : Nat) : Option Bytes :=
  if start + length ≤ packet.length then some ((packet.drop start).take length) else none

/-- The test of `DoSend`, on a size of 16 bits, for a packet that has to be fragmented. -/
def tooBig (l2Mtu : UInt16) (packet : Bytes) (extraHdrSize : UInt32) : Bool :=
  l2Mtu < UInt16.ofNat packet.length + extraHdrSize.toUInt16

section Fragmentation

variable (l2Mtu : UInt16) (header : SixLowPanFrag) (p : Bytes) (packetSize extraHdrSize : UInt32)

/-- Where the loop of `DoFragmentation` is, and the fragments that it has made. -/
structure Cut where
  offset : UInt16
  offsetData : UInt16
  fragments : List Bytes
deriving DecidableEq, Repr

/-- The fragment of the size, if there is anything left for one. -/
def cutOff (size : UInt32) (s : Cut) : Option Cut :=
  if 0 < size then do
    let fragment ← createFragment p s.offsetData.toNat size.toNat
    pure ⟨s.offset + size.toUInt16, s.offsetData + size.toUInt16,
      s.fragments ++ [addFragN header (s.offset >>> 3).toUInt8 fragment]⟩
  else some s

/-- One turn of the loop. -/
def cutTurn (s : Cut) : Turn Cut (Option (List Bytes)) :=
  let size := l2Mtu.toUInt32 - 5 - extraHdrSize
  let size := size - size % 8
  if packetSize < s.offsetData.toUInt32 + size then
    .leave ((cutOff header p (packetSize - s.offsetData.toUInt32) s).map Cut.fragments)
  else
    match cutOff header p size s with
    | some s => .again s
    | none => .leave none

end Fragmentation

/-- `DoFragmentation` with the tag drawn. The loop is cut off after as many turns as it takes to go through the
packet; more turns would go on for ever. -/
def doFragmentation (l2Mtu tag : UInt16) (packet : Bytes) (origPacketSize origHdrSize extraHdrSize : UInt32) :
    Option (List Bytes) := do
  let packetSize := UInt32.ofNat packet.length
  let compressedHeaderSize := packetSize - (origPacketSize - origHdrSize)
  let size := l2Mtu.toUInt32 - 4 - compressedHeaderSize - extraHdrSize
  let size := size - size % 8 + compressedHeaderSize
  let header := SixLowPanFrag.set origPacketSize.toUInt16 tag
  guard (4 < l2Mtu)
  let fragment1 ← createFragment packet 0 size.toNat
  (turns (cutTurn l2Mtu header packet packetSize extraHdrSize) (packet.length + 1)
    ⟨(size + origHdrSize - compressedHeaderSize).toUInt16, size.toUInt16, [addFrag1 header fragment1]⟩).join

/-- The functions of the device that decompress a header: `DecompressLowPanHc1`, and `DecompressLowPanIphc`,
which may find no context. -/
structure Decompression (Address : Type) where
  hc1 : Address → Address → Bytes → Bytes
  iphc : Address → Address → Bytes → Option Bytes

/-- What `ProcessFragment` makes of a first fragment: it may be dropped, and the program stops at an encoding
that it does not know. -/
def Decompression.first {Address : Type} (D : Decompression Address) (src dst : Address) (p : Bytes) :
    Option (Option Bytes) :=
  match dispatchOf p with
  | .ipv6 => some (some p.tail)
  | .hc1 => some (some (D.hc1 src dst p))
  | .iphc => some (D.iphc src dst p)
  | _ => none

/-- `SixLowPanNetDevice::Fragments`. -/
structure Fragments where
  m_packetSize : UInt32 := 0
  m_fragments : List (Bytes × UInt16) := []
  m_firstFragment : Option Bytes := none
deriving DecidableEq, Repr

namespace Fragments

/-- The place of a fragment; a duplicate has to have the same size. -/
def insertAt (fragment : Bytes) (fragmentOffset : UInt16) : List (Bytes × UInt16) → Option (List (Bytes × UInt16))
  | [] => some [(fragment, fragmentOffset)]
  | (f, o) :: rest =>
    if fragmentOffset < o then some ((fragment, fragmentOffset) :: (f, o) :: rest)
    else if o = fragmentOffset then if fragment.length = f.length then some ((f, o) :: rest) else none
    else (insertAt fragment fragmentOffset rest).map ((f, o) :: ·)

/-- `AddFragment`. -/
def addFragment (fragment : Bytes) (fragmentOffset : UInt16) (fs : Fragments) : Option Fragments :=
  (insertAt fragment fragmentOffset fs.m_fragments).map fun l => { fs with m_fragments := l }

/-- `AddFirstFragment`. -/
def addFirstFragment (fragment : Bytes) (fs : Fragments) : Fragments := { fs with m_firstFragment := some fragment }

/-- The end of the last fragment; without a result if there is a gap. -/
def lastEndOffset : UInt16 → List (Bytes × UInt16) → Option UInt16
  | lastEnd, [] => some lastEnd
  | lastEnd, (f, o) :: rest =>
    if lastEnd < o then none else lastEndOffset (max lastEnd (UInt16.ofNat f.length + o)) rest

/-- `IsEntire`. -/
def isEntire (fs : Fragments) : Bool :=
  !fs.m_fragments.isEmpty &&
    match lastEndOffset 0 fs.m_fragments with
    | some lastEnd => lastEnd.toUInt32 = fs.m_packetSize
    | none => false

/-- The fragments behind the first one, put together; the program stops if they overlap. -/
def assemble : UInt16 → List (Bytes × UInt16) → Option Bytes
  | _, [] => some []
  | lastEnd, (f, o) :: rest =>
    if o < lastEnd then none else (assemble (lastEnd + UInt16.ofNat f.length) rest).map (f ++ ·)

/-- `GetPacket`: the first fragment as it came, and the others. -/
def getPacket (fs : Fragments) : Option Bytes :=
  match fs.m_firstFragment, fs.m_fragments with
  | some first, (f, _) :: rest => (assemble (UInt16.ofNat f.length) rest).map (first ++ ·)
  | _, _ => none

end Fragments

/-- `FragmentKey_t`: the addresses, and the size and the tag of the datagram. -/
abbrev FragmentKey (Address : Type) := (Address × Address) × UInt16 × UInt16

/-- The fragments that a device holds: `m_fragments`, in the order of `m_timeoutEventList`, whose entries are
the keys of the map. -/
structure Device (Address : Type) where
  m_fragmentReassemblyListSize : UInt16 := 0
  m_fragments : List (FragmentKey Address × Fragments) := []
deriving DecidableEq, Repr

namespace Device

variable {Address : Type} [DecidableEq Address]

def find (key : FragmentKey Address) (d : Device Address) : Option Fragments := d.m_fragments.lookup key

/-- An entry for a new datagram, for which the oldest one may have to go. -/
def create (key : FragmentKey Address) (packetSize : UInt16) (d : Device Address) : Device Address :=
  let full := d.m_fragmentReassemblyListSize ≠ 0 ∧
    d.m_fragmentReassemblyListSize.toNat ≤ d.m_fragments.length
  { d with m_fragments := (if full then d.m_fragments.tail else d.m_fragments) ++
      [(key, { m_packetSize := packetSize.toUInt32 })] }

def store (key : FragmentKey Address) (fs : Fragments) (d : Device Address) : Device Address :=
  { d with m_fragments := d.m_fragments.map fun e => if e.1 = key then (key, fs) else e }

def erase (key : FragmentKey Address) (d : Device Address) : Device Address :=
  { d with m_fragments := d.m_fragments.filter fun e => e.1 ≠ key }

/-- The part of `ProcessFragment` that follows the headers, for the fragment `p` of the datagram, which is
`first` if it is the first one: the packet, if it is entire, without the header of its first fragment. -/
def reassemble (key : FragmentKey Address) (packetSize : UInt16) (p : Bytes) (offset : UInt16)
    (first : Option Bytes) (d : Device Address) : Option (Option Bytes × Device Address) := do
  let d := if (d.find key).isSome then d else d.create key packetSize
  let fragments ← d.find key
  let fragments ← fragments.addFragment p offset
  let fragments := match first with
    | some packet => fragments.addFirstFragment packet
    | none => fragments
  if fragments.isEntire then do
    let packet ← fragments.getPacket
    let (_, packet) ← SixLowPanFrag.remove packet
    pure (some packet, d.erase key)
  else pure (none, d.store key fragments)

/-- `ProcessFragment`: the packet in place of `true`, and nothing in place of `false`. -/
def processFragment (D : Decompression Address) (packet : Bytes) (src dst : Address) (isFirst : Bool)
    (d : Device Address) : Option (Option Bytes × Device Address) :=
  if isFirst then do
    let (h, p) ← SixLowPanFrag.remove packet
    let decompressed ← D.first src dst p
    match decompressed with
    | none => pure (none, d)
    | some p => reassemble ((src, dst), h.m_datagramSize, h.m_datagramTag) h.m_datagramSize p 0 (some packet) d
  else do
    let (h, datagramOffset, p) ← removeFragN packet
    reassemble ((src, dst), h.m_datagramSize, h.m_datagramTag) h.m_datagramSize p
      (datagramOffset.toUInt16 <<< 3) none d

/-- The call of `ProcessFragment` in `ReceiveFromDevice`, for a packet that is a fragment by its dispatch. -/
def receive (D : Decompression Address) (src dst : Address) (d : Device Address) (packet : Bytes) :
    Option (Option Bytes × Device Address) :=
  match dispatchOf packet with
  | .frag1 => d.processFragment D packet src dst true
  | .fragN => d.processFragment D packet src dst false
  | _ => some (none, d)

/-- Fragments that are received one after the other, with the packets in place of the results. -/
def receiveAll (D : Decompression Address) (src dst : Address) (d : Device Address) :
    List Bytes → Option (List (Option Bytes) × Device Address)
  | [] => some ([], d)
  | packet :: packets => do
    let (result, d) ← d.receive D src dst packet
    let (results, d) ← d.receiveAll D src dst packets
    pure (result :: results, d)

end Device

end Ns3.SixLowPan
