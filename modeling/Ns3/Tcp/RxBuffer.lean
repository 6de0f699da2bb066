import Ns3.Network.SequenceNumber

/-!
# The receive buffer of a TCP socket

`TcpRxBuffer` keeps the segments received, in order of their sequence numbers and cut so that
no two overlap, until `Extract` hands the bytes below `m_nextRxSeq` to the application. It
also keeps the list of SACK blocks to report. Source: `src/internet/model/tcp-rx-buffer.cc`.
-/

namespace Ns3.Tcp

open Ns3.Network

/-- A packet: its payload. -/
abbrev Payload := List UInt8

/-- `Packet::GetSize`. -/
def Payload.getSize (p : Payload) : UInt32 := UInt32.ofNat p.length

/-- `Packet::CreateFragment`. -/
def Payload.createFragment (p : Payload) (start length : UInt32) : Payload :=
  (p.drop start.toNat).take length.toNat

/-- `TcpOptionSack::SackBlock`: the first sequence number and the one behind the last. -/
structure SackBlock where
  first : SequenceNumber32
  second : SequenceNumber32
  deriving DecidableEq, Repr

/-- A stored packet, under the sequence number of its first byte. -/
abbrev RxItem := SequenceNumber32 × Payload

/-- `TcpRxBuffer` (`tcp-rx-buffer.h:218–226`). The map `m_data` is the list of its items. -/
structure TcpRxBuffer where
  m_sackList : List SackBlock := []
  m_nextRxSeq : SequenceNumber32
  m_finSeq : SequenceNumber32 := ⟨0⟩
  m_gotFin : Bool := false
  m_size : UInt32 := 0
  m_maxBuffer : UInt32 := 32768
  m_availBytes : UInt32 := 0
  m_data : List RxItem := []
  deriving DecidableEq, Repr

/-- `m_data[key] = p` in a map ordered by `operator<`. -/
def mapAssign (key : SequenceNumber32) (p : Payload) : List RxItem → List RxItem
  | [] => [(key, p)]
  | (first, q) :: rest =>
    if key.lt first then (key, p) :: (first, q) :: rest
    else if first.lt key then (first, q) :: mapAssign key p rest
    else (first, p) :: rest

/-- What the loop of `Add` over the stored packets leaves. -/
structure Trimmed where
  headSeq : SequenceNumber32
  tailSeq : SequenceNumber32
  m_data : List RxItem
  m_size : UInt32

/-- `while (i != m_data.end () && i->first <= tailSeq)`, `tcp-rx-buffer.cc:158–180`. -/
def removeOverlapped (headSeq tailSeq : SequenceNumber32) (size : UInt32) :
    List RxItem → Trimmed
  | [] => ⟨headSeq, tailSeq, [], size⟩
  | (first, p) :: rest =>
    if first.le tailSeq then
      let lastByteSeq := first.add p.getSize
      if lastByteSeq.gt headSeq then
        if first.gt headSeq && lastByteSeq.lt tailSeq then
          -- the stored packet is embedded in the new one and is erased
          removeOverlapped headSeq tailSeq (size - p.getSize) rest
        else
          let headSeq := if first.le headSeq then lastByteSeq else headSeq
          let tailSeq := if lastByteSeq.ge tailSeq then first else tailSeq
          let r := removeOverlapped headSeq tailSeq size rest
          { r with m_data := (first, p) :: r.m_data }
      else
        let r := removeOverlapped headSeq tailSeq size rest
        { r with m_data := (first, p) :: r.m_data }
    else ⟨headSeq, tailSeq, (first, p) :: rest, size⟩

/-- The first block of the list that touches `begin`, merged with it, and the other blocks. -/
def mergeTouching (begin : SackBlock) : List SackBlock → Option (SackBlock × List SackBlock)
  | [] => none
  | current :: rest =>
    if begin.first = current.second then some (⟨current.first, begin.second⟩, rest)
    else if begin.second = current.first then some (⟨begin.first, current.second⟩, rest)
    else (mergeTouching begin rest).map fun (merged, others) => (merged, current :: others)

/-- The loop of `UpdateSackList`, which starts again after each merge: at most `n` merges. -/
def mergeBlocks : Nat → SackBlock → List SackBlock → List SackBlock
  | 0, begin, rest => begin :: rest
  | n + 1, begin, rest =>
    match mergeTouching begin rest with
    | some (merged, others) => mergeBlocks n merged others
    | none => begin :: rest

/-- `UpdateSackList`, `tcp-rx-buffer.cc:238–330`. Each merge takes a block off the list. -/
def updateSackList (head tail : SequenceNumber32) (blocks : List SackBlock) : List SackBlock :=
  let blocks := mergeBlocks blocks.length ⟨head, tail⟩ blocks
  if blocks.length > 4 then blocks.dropLast else blocks

/-- `ClearSackList`, `tcp-rx-buffer.cc:332–355`. -/
def clearSackList (seq : SequenceNumber32) (blocks : List SackBlock) : List SackBlock :=
  blocks.filter fun block => !block.second.le seq

/-- What the loop of `Add` over `m_data` moves on. -/
structure Front where
  m_nextRxSeq : SequenceNumber32
  m_availBytes : UInt32
  m_sackList : List SackBlock

/-- `for (i = m_data.begin (); i != m_data.end (); ++i)`, `tcp-rx-buffer.cc:207–220`. -/
def Front.advanceOver (f : Front) : List RxItem → Front
  | [] => f
  | (first, p) :: rest =>
    if first.lt f.m_nextRxSeq then f.advanceOver rest
    else if first.gt f.m_nextRxSeq then f
    else
      let next := first.add p.getSize
      Front.advanceOver ⟨next, f.m_availBytes + p.getSize, clearSackList next f.m_sackList⟩ rest

namespace TcpRxBuffer

/-- `MaxRxSequence`, `tcp-rx-buffer.cc:108–120`. -/
def maxRxSequence (b : TcpRxBuffer) : SequenceNumber32 :=
  if b.m_gotFin then b.m_finSeq
  else
    match b.m_data with
    | (first, _) :: _ =>
      if b.m_nextRxSeq.gt first then first.add b.m_maxBuffer else b.m_nextRxSeq.add b.m_maxBuffer
    | [] => b.m_nextRxSeq.add b.m_maxBuffer

/-- `SetFinSequence`, `tcp-rx-buffer.cc:122–130`. -/
def setFinSequence (b : TcpRxBuffer) (s : SequenceNumber32) : TcpRxBuffer :=
  { b with
    m_gotFin := true
    m_finSeq := s
    m_nextRxSeq := if b.m_nextRxSeq = s then b.m_nextRxSeq.add 1 else b.m_nextRxSeq }

/-- `TcpSocketBase::OutOfRange` outside the handshake and the closing states,
`tcp-socket-base.cc:1132`. -/
def outOfRange (b : TcpRxBuffer) (head tail : SequenceNumber32) : Bool :=
  tail.lt b.m_nextRxSeq || b.maxRxSequence.le head

/-- The head and the tail of a packet cut to the receive window, `tcp-rx-buffer.cc:149–155`. -/
def trimToWindow (b : TcpRxBuffer) (headSeq tailSeq : SequenceNumber32) :
    SequenceNumber32 × SequenceNumber32 :=
  let headSeq := if headSeq.lt b.m_nextRxSeq then b.m_nextRxSeq else headSeq
  match b.m_data with
  | (first, _) :: _ =>
    let maxSeq := first.add b.m_maxBuffer
    let tailSeq := if maxSeq.lt tailSeq then maxSeq else tailSeq
    (if tailSeq.lt headSeq then tailSeq else headSeq, tailSeq)
  | [] => (headSeq, tailSeq)

/-- `Add`, `tcp-rx-buffer.cc:139–228`: the packet `p` with sequence number `seq`. -/
def add (b : TcpRxBuffer) (p : Payload) (seq : SequenceNumber32) : Bool × TcpRxBuffer :=
  let (headSeq, tailSeq) := b.trimToWindow seq (seq.add p.getSize)
  let r := removeOverlapped headSeq tailSeq b.m_size b.m_data
  if r.headSeq.ge r.tailSeq then (false, { b with m_data := r.m_data, m_size := r.m_size })
  else
    let fragment := p.createFragment (r.headSeq.diff seq) (r.tailSeq.diff r.headSeq)
    let data := mapAssign r.headSeq fragment r.m_data
    let sackList :=
      if r.headSeq.gt b.m_nextRxSeq then updateSackList r.headSeq r.tailSeq b.m_sackList
      else b.m_sackList
    let front := Front.advanceOver ⟨b.m_nextRxSeq, b.m_availBytes, sackList⟩ data
    let next :=
      if b.m_gotFin && front.m_nextRxSeq == b.m_finSeq then front.m_nextRxSeq.add 1
      else front.m_nextRxSeq
    (true, { b with
      m_data := data
      m_size := r.m_size + fragment.getSize
      m_nextRxSeq := next
      m_availBytes := front.m_availBytes
      m_sackList := front.m_sackList })

/-- `while (extractSize)`, `tcp-rx-buffer.cc:374–398`: what is taken out goes behind
`outPkt`. -/
def extractLoop (extractSize : UInt32) (outPkt : Payload) (b : TcpRxBuffer) :
    List RxItem → Payload × TcpRxBuffer
  | [] => (outPkt, { b with m_data := [] })
  | (first, p) :: rest =>
    if extractSize = 0 then (outPkt, { b with m_data := (first, p) :: rest })
    else if p.getSize ≤ extractSize then
      extractLoop (extractSize - p.getSize) (outPkt ++ p)
        { b with
          m_size := b.m_size - p.getSize
          m_availBytes := b.m_availBytes - p.getSize } rest
    else
      (outPkt ++ p.createFragment 0 extractSize,
        { b with
          m_data := (mapAssign (first.add extractSize)
            (p.createFragment extractSize (p.getSize - extractSize)) ((first, p) :: rest)).tail
          m_size := b.m_size - extractSize
          m_availBytes := b.m_availBytes - extractSize })

/-- `Extract`, `tcp-rx-buffer.cc:363–406`. No packet is an empty one. -/
def extract (b : TcpRxBuffer) (maxSize : UInt32) : Payload × TcpRxBuffer :=
  extractLoop (min maxSize b.m_availBytes) [] b b.m_data

end TcpRxBuffer

end Ns3.Tcp
