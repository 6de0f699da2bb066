import Ns3.Tcp.RxBuffer

/-!
# The send buffer of a TCP socket

`TcpTxBuffer` keeps what the application wrote: the items of `m_sentList` were sent and are not
acknowledged, those of `m_appList` wait. Items are split and merged to fit what is asked for,
and carry the flags of the SACK scoreboard, which five counters sum up. A call that aborts,
follows a null pointer or an iterator that is not of the list, or does not return, has no
result. Source: `src/internet/model/tcp-tx-buffer.cc`.
-/

namespace Ns3.Tcp

open Ns3.Network

/-- `TcpTxItem` (`tcp-tx-item.h:102–113`), with the list node it was allocated for. -/
structure TcpTxItem where
  node : Nat
  m_startSeq : SequenceNumber32 := ⟨0⟩
  m_packet : Payload
  m_lost : Bool := false
  m_sacked : Bool := false
  m_retrans : Bool := false
  deriving DecidableEq, Repr

/-- `m_packet->GetSize ()`. -/
def TcpTxItem.getSize (item : TcpTxItem) : UInt32 := item.m_packet.getSize

/-- `TcpTxBuffer` (`tcp-tx-buffer.h:600–620`). The iterator in `m_highestSack` is the node it
points to, or none for `m_sentList.end ()`; `nextNode` is the next node allocated. -/
structure TcpTxBuffer where
  m_appList : List TcpTxItem := []
  m_sentList : List TcpTxItem := []
  m_maxBuffer : UInt32 := 32768
  m_size : UInt32 := 0
  m_sentSize : UInt32 := 0
  m_firstByteSeq : SequenceNumber32
  m_highestSack : Option Nat × SequenceNumber32 := (none, ⟨0⟩)
  m_lostOut : UInt32 := 0
  m_sackedOut : UInt32 := 0
  m_retrans : UInt32 := 0
  m_dupAckThresh : UInt32 := 0
  m_segmentSize : UInt32 := 0
  m_renoSack : Bool := false
  m_sackEnabled : Bool := true
  nextNode : Nat := 0
  deriving DecidableEq, Repr

/-! ### Items of a list -/

/-- `SplitItems`, `tcp-tx-buffer.cc:380–398`: the first `size` bytes of `t2` become an item of
their own. -/
def splitItems (node : Nat) (t2 : TcpTxItem) (size : UInt32) : TcpTxItem × TcpTxItem :=
  ({ t2 with node := node, m_packet := t2.m_packet.createFragment 0 size },
    { t2 with m_packet := t2.m_packet.drop size.toNat, m_startSeq := t2.m_startSeq.add size })

/-- `MergeItems`, `tcp-tx-buffer.cc:581–625`: `t1` with the bytes of `t2` behind its own, and
what is left of `m_retrans`. -/
def mergeItems (retrans : UInt32) (t1 t2 : TcpTxItem) : TcpTxItem × UInt32 :=
  let merged := { t1 with
    m_packet := t1.m_packet ++ t2.m_packet
    m_retrans := t1.m_retrans && t2.m_retrans }
  (merged,
    if t1.m_retrans == t2.m_retrans then retrans
    else if t1.m_retrans then retrans - t1.getSize else retrans - t2.getSize)

/-- A list of items while `GetPacketFromList` works on it, and the members of the buffer that
change with it. -/
structure ItemList where
  list : List TcpTxItem
  m_retrans : UInt32
  nextNode : Nat

/-- The item found, with the items of its list before and after it. -/
structure Fetched where
  before : List TcpTxItem
  outItem : TcpTxItem
  after : List TcpTxItem
  m_retrans : UInt32
  nextNode : Nat

/-- What one walk of `GetPacketFromList` ends with: the item, or a call of itself on the list it
edited, or neither. -/
inductive Walk where
  | found (f : Fetched)
  | recurse (l : ItemList)
  | fatal

/-- The `while` of `GetPacketFromList`, `tcp-tx-buffer.cc:437–577`. `currentItem` is always
`outItem` behind the first test, so that the branch that compares them is left out. -/
def walkList (numBytes : UInt32) (seq : SequenceNumber32) (retrans : UInt32) (node : Nat)
    (walked : List TcpTxItem) (beginOfCurrentPacket : SequenceNumber32) : List TcpTxItem → Walk
  | [] => .fatal
  | item :: rest =>
    let size := item.getSize
    if seq.lt (beginOfCurrentPacket.add size) then
      if seq == beginOfCurrentPacket then
        if (seq.add numBytes).le (beginOfCurrentPacket.add size) then
          if numBytes = size then .found ⟨walked, item, rest, retrans, node⟩
          else if numBytes < size then
            let (firstPart, item) := splitItems node item numBytes
            .found ⟨walked, firstPart, item :: rest, retrans, node + 1⟩
          else
            -- the loop comes back to this item for ever
            .fatal
        else
          match rest with
          | [] => .found ⟨walked, item, [], retrans, node⟩
          | next :: rest =>
            let (merged, retrans) := mergeItems retrans item next
            .recurse ⟨walked ++ merged :: rest, retrans, node⟩
      else if seq.gt beginOfCurrentPacket then
        let (firstPart, item) := splitItems node item (seq.diff beginOfCurrentPacket)
        .recurse ⟨walked ++ firstPart :: item :: rest, retrans, node + 1⟩
      else .fatal
    else
      walkList numBytes seq retrans node (walked ++ [item]) (beginOfCurrentPacket.add size) rest

/-- `GetPacketFromList`, `tcp-tx-buffer.cc:400–579`, down to `fuel` calls of itself. -/
def getPacketFromList (listStartFrom : SequenceNumber32) (numBytes : UInt32)
    (seq : SequenceNumber32) : Nat → ItemList → Option Fetched
  | 0, _ => none
  | fuel + 1, l =>
    match walkList numBytes seq l.m_retrans l.nextNode [] listStartFrom l.list with
    | .found f => some f
    | .recurse l => getPacketFromList listStartFrom numBytes seq fuel l
    | .fatal => none

/-- The loop of `GetTransmittedSegment` over `m_sentList`, `tcp-tx-buffer.cc:317–345`: how many
bytes to take from `seq` on without merging items of different flags. -/
def mergeLimit (s : UInt32) (seq : SequenceNumber32) : List TcpTxItem → UInt32
  | [] => s
  | item :: rest =>
    if item.m_startSeq == seq then
      match rest with
      | next :: _ =>
        if !next.m_sacked && item.m_lost == next.m_lost then min s (item.getSize + next.getSize)
        else min s item.getSize
      | [] => min s item.getSize
    else mergeLimit s seq rest

/-! ### SACK marks -/

/-- What `Update` changes apart from the items. -/
structure Sacking where
  m_lostOut : UInt32
  m_sackedOut : UInt32
  m_highestSack : Option Nat × SequenceNumber32
  bytesSacked : UInt32 := 0

/-- The `while` of `Update` over the sent items, `tcp-tx-buffer.cc:801–860`. -/
def markBlock (block : SackBlock) :
    Sacking → SequenceNumber32 → List TcpTxItem → List TcpTxItem × Sacking
  | st, _, [] => ([], st)
  | st, beginOfCurrentPacket, item :: rest =>
    let pktSize := item.getSize
    let endOfCurrentPacket := beginOfCurrentPacket.add pktSize
    if beginOfCurrentPacket.ge block.first && endOfCurrentPacket.le block.second then
      if item.m_sacked then
        let (rest, st) := markBlock block st endOfCurrentPacket rest
        (item :: rest, st)
      else
        let (rest, st) := markBlock block
          { m_lostOut := if item.m_lost then st.m_lostOut - pktSize else st.m_lostOut
            m_sackedOut := st.m_sackedOut + pktSize
            m_highestSack :=
              if st.m_highestSack.1.isNone || st.m_highestSack.2.le endOfCurrentPacket then
                (some item.node, beginOfCurrentPacket)
              else st.m_highestSack
            bytesSacked := st.bytesSacked + pktSize } endOfCurrentPacket rest
        ({ item with m_lost := false, m_sacked := true } :: rest, st)
    else if endOfCurrentPacket.gt block.second then (item :: rest, st)
    else
      let (rest, st) := markBlock block st endOfCurrentPacket rest
      (item :: rest, st)

/-- The items of `UpdateLostCount` from the one SACKed highest down to the second one, the
number of them SACKed, and `m_lostOut`; `tcp-tx-buffer.cc:897–915`. -/
def markLost (dupAckThresh lostOut : UInt32) (items : List TcpTxItem) :
    List TcpTxItem × UInt32 × UInt32 :=
  items.foldr (fun item (rest, sacked, lostOut) =>
    let sacked := if item.m_sacked then sacked + 1 else sacked
    if dupAckThresh ≤ sacked && !item.m_sacked && !item.m_lost then
      ({ item with m_lost := true } :: rest, sacked, lostOut + item.getSize)
    else (item :: rest, sacked, lostOut)) ([], 0, lostOut)

/-- The items up to a node, the one it holds included, and those behind it. -/
def splitAfter (node : Nat) : List TcpTxItem → Option (List TcpTxItem × List TcpTxItem)
  | [] => none
  | item :: rest =>
    if item.node = node then some ([item], rest)
    else (splitAfter node rest).map fun (upTo, after) => (item :: upTo, after)

/-- The first item not SACKed is SACKed, `tcp-tx-buffer.cc:1401–1412`. -/
def sackFirst : List TcpTxItem → Option (TcpTxItem × List TcpTxItem)
  | [] => none
  | item :: rest =>
    if item.m_sacked then (sackFirst rest).map fun (it, rest) => (it, item :: rest)
    else
      let it := { item with m_sacked := true }
      some (it, it :: rest)

namespace TcpTxBuffer

/-- `TailSequence`. -/
def tailSequence (b : TcpTxBuffer) : SequenceNumber32 := b.m_firstByteSeq.add b.m_size

/-- The first sequence number not sent, `m_firstByteSeq + m_sentSize`. -/
def sentEnd (b : TcpTxBuffer) : SequenceNumber32 := b.m_firstByteSeq.add b.m_sentSize

/-- `Available`. -/
def available (b : TcpTxBuffer) : UInt32 := b.m_maxBuffer - b.m_size

/-- `Add`, `tcp-tx-buffer.cc:179–203`. -/
def add (b : TcpTxBuffer) (p : Payload) : Bool × TcpTxBuffer :=
  if p.getSize ≤ b.available then
    if 0 < p.getSize then
      (true, { b with
        m_appList := b.m_appList ++ [{ node := b.nextNode, m_packet := p }]
        m_size := b.m_size + p.getSize
        nextNode := b.nextNode + 1 })
    else (true, b)
  else (false, b)

/-- `SizeFromSequence`, `tcp-tx-buffer.cc:205–220`. -/
def sizeFromSequence (b : TcpTxBuffer) (seq : SequenceNumber32) : UInt32 :=
  if b.tailSequence.ge seq then b.tailSequence.diff seq else 0

/-- `GetNewSegment`, `tcp-tx-buffer.cc:280–303`. -/
def getNewSegment (b : TcpTxBuffer) (numBytes : UInt32) : Option (TcpTxItem × TcpTxBuffer) :=
  let startOfAppList := b.sentEnd
  (getPacketFromList startOfAppList numBytes startOfAppList (b.m_appList.length + 2)
    ⟨b.m_appList, b.m_retrans, b.nextNode⟩).map fun f =>
      let item := { f.outItem with m_startSeq := startOfAppList }
      (item, { b with
        m_appList := f.before ++ f.after
        m_sentList := b.m_sentList ++ [item]
        m_sentSize := b.m_sentSize + item.getSize
        m_retrans := f.m_retrans
        nextNode := f.nextNode })

/-- `GetTransmittedSegment`, `tcp-tx-buffer.cc:305–355`. -/
def getTransmittedSegment (b : TcpTxBuffer) (numBytes : UInt32) (seq : SequenceNumber32) :
    Option (TcpTxItem × TcpTxBuffer) :=
  let s := mergeLimit numBytes seq b.m_sentList
  (getPacketFromList b.m_firstByteSeq s seq (b.m_sentList.length + 2)
    ⟨b.m_sentList, b.m_retrans, b.nextNode⟩).map fun f =>
      let item := { f.outItem with m_retrans := true }
      (item, { b with
        m_sentList := f.before ++ item :: f.after
        m_retrans := if f.outItem.m_retrans then f.m_retrans else f.m_retrans + item.getSize
        nextNode := f.nextNode })

/-- `CopyFromSequence`, `tcp-tx-buffer.cc:222–278`, down to `fuel` calls of itself. No item is
the null pointer. -/
def copyWithin : Nat → TcpTxBuffer → UInt32 → SequenceNumber32 →
    Option (Option TcpTxItem × TcpTxBuffer)
  | 0, _, _, _ => none
  | fuel + 1, b, numBytes, seq =>
    if b.m_firstByteSeq.gt seq then none
    else
      let s := min numBytes (b.sizeFromSequence seq)
      if s = 0 then some (none, b)
      else if b.sentEnd.ge (seq.add s) then
        (b.getTransmittedSegment s seq).map fun (item, b) => (some item, b)
      else if b.sentEnd.le seq then
        if b.sentEnd == seq then
          (b.getNewSegment s).map fun (item, b) => (some item, b)
        else none
      else if b.sentEnd.m_value > seq.m_value && b.sentEnd.m_value < seq.m_value + s then
        -- the block spans the end of what was sent, in values that do not wrap
        copyWithin fuel b (b.sentEnd.m_value - seq.m_value) seq
      else
        -- `outItem` is still null
        none

/-- `CopyFromSequence`. Called again, it is asked for bytes sent only. -/
def copyFromSequence (b : TcpTxBuffer) (numBytes : UInt32) (seq : SequenceNumber32) :
    Option (Option TcpTxItem × TcpTxBuffer) :=
  copyWithin 2 b numBytes seq

/-- `FindHighestSacked`, `tcp-tx-buffer.cc:357–377`. -/
def findHighestSacked (b : TcpTxBuffer) : Option Nat × SequenceNumber32 :=
  go b.m_firstByteSeq (none, ⟨0⟩) b.m_sentList
where
  go (beginOfCurrentPacket : SequenceNumber32) (ret : Option Nat × SequenceNumber32) :
      List TcpTxItem → Option Nat × SequenceNumber32
    | [] => ret
    | item :: rest =>
      go (beginOfCurrentPacket.add item.getSize)
        (if item.m_sacked then (some item.node, beginOfCurrentPacket) else ret) rest

/-- `RemoveFromCounts`, `tcp-tx-buffer.cc:627–647`. -/
def removeFromCounts (b : TcpTxBuffer) (item : TcpTxItem) (size : UInt32) : TcpTxBuffer :=
  { b with
    m_sackedOut := if item.m_sacked then b.m_sackedOut - size else b.m_sackedOut
    m_retrans := if item.m_retrans then b.m_retrans - size else b.m_retrans
    m_lostOut := if item.m_lost then b.m_lostOut - size else b.m_lostOut }

/-- `AddRenoSack`, `tcp-tx-buffer.cc:1380–1422`. The list is not empty. -/
def addRenoSack (b : TcpTxBuffer) : Option TcpTxBuffer :=
  match b.m_sentList with
  | [] => none
  | head :: rest =>
    match sackFirst rest with
    | some (it, rest) => some { b with
        m_sentList := head :: rest
        m_sackedOut := b.m_sackedOut + it.getSize
        m_highestSack := (some it.node, it.m_startSeq)
        m_renoSack := true }
    | none => some { b with m_renoSack := true }

/-- `MarkHeadAsLost`, `tcp-tx-buffer.cc:1349–1378`. -/
def markHeadAsLost (b : TcpTxBuffer) : TcpTxBuffer :=
  match b.m_sentList with
  | [] => b
  | head :: rest => { b with
      m_sentList := { head with m_sacked := false, m_retrans := false, m_lost := true } :: rest
      m_sackedOut := if head.m_sacked then b.m_sackedOut - head.getSize else b.m_sackedOut
      m_retrans := if head.m_retrans then b.m_retrans - head.getSize else b.m_retrans
      m_lostOut := if head.m_lost then b.m_lostOut else b.m_lostOut + head.getSize }

/-- The `while` of `DiscardUpTo`, `tcp-tx-buffer.cc:684–743`. The iterator stands at the head. -/
def discardLoop : Nat → UInt32 → TcpTxBuffer → Option TcpTxBuffer
  | 0, _, _ => none
  | fuel + 1, offset, b =>
    if 0 < b.m_size && 0 < offset then
      -- data is moved from `m_appList` when nothing is left that was sent
      let moved :=
        if b.m_sentList.isEmpty then
          match b.copyFromSequence offset b.m_firstByteSeq with
          | some (some _, b) => some b
          | _ => none
        else some b
      match moved with
      | none => none
      | some b =>
        match b.m_sentList with
        | [] => none
        | item :: rest =>
          let pktSize := item.getSize
          if pktSize ≤ offset then
            discardLoop fuel (offset - pktSize) ({ b with
              m_sentList := rest
              m_size := b.m_size - pktSize
              m_sentSize := b.m_sentSize - pktSize
              m_firstByteSeq := b.m_firstByteSeq.add pktSize }.removeFromCounts item pktSize)
          else
            some ({ b with
              m_sentList :=
                { item with
                  m_packet := item.m_packet.createFragment offset (pktSize - offset)
                  m_startSeq := item.m_startSeq.add offset } :: rest
              m_size := b.m_size - offset
              m_sentSize := b.m_sentSize - offset
              m_firstByteSeq := b.m_firstByteSeq.add offset }.removeFromCounts item offset)
    else some b

/-- A head that is SACKed gives its mark to another item, `tcp-tx-buffer.cc:750–763`. -/
def moveSackFromHead (b : TcpTxBuffer) : Option TcpTxBuffer :=
  match b.m_sentList with
  | [] => some b
  | head :: rest =>
    if head.m_sacked then
      ({ b with
        m_sentList := { head with m_sacked := false } :: rest
        m_sackedOut := b.m_sackedOut - head.getSize }.addRenoSack).map markHeadAsLost
    else some b

/-- `DiscardUpTo`, `tcp-tx-buffer.cc:665–781`. -/
def discardUpTo (b : TcpTxBuffer) (seq : SequenceNumber32) : Option TcpTxBuffer :=
  if b.m_firstByteSeq.ge seq then some b
  else
    match discardLoop (b.m_sentList.length + 2) (seq.diff b.m_firstByteSeq) b with
    | none => none
    | some b =>
      let b : TcpTxBuffer :=
        { b with m_firstByteSeq := if b.m_size = 0 then seq else b.m_firstByteSeq }
      b.moveSackFromHead.map fun b => { b with
        m_highestSack :=
          if b.m_highestSack.2.le b.m_firstByteSeq then (none, ⟨0⟩) else b.m_highestSack }

/-- `UpdateLostCount`, `tcp-tx-buffer.cc:879–926`. -/
def updateLostCount (b : TcpTxBuffer) : Option TcpTxBuffer :=
  match b.m_highestSack.1.bind fun node => splitAfter node b.m_sentList with
  | some (head :: items, after) =>
    let (items, sacked, lostOut) := markLost b.m_dupAckThresh b.m_lostOut items
    let lost := b.m_dupAckThresh ≤ sacked && !head.m_lost
    some { b with
      m_sentList := { head with m_lost := head.m_lost || lost } :: items ++ after
      m_lostOut := if lost then lostOut + head.getSize else lostOut }
  | _ => none

/-- The `for` of `Update` over the SACK blocks, `tcp-tx-buffer.cc:788–861`, and whether it came
to its end. -/
def markBlocks (b : TcpTxBuffer) (st : Sacking) (items : List TcpTxItem) :
    List SackBlock → List TcpTxItem × Sacking × Bool
  | [] => (items, st, true)
  | block :: list =>
    if b.sentEnd.lt block.first then (items, st, false)
    else
      let (items, st) := markBlock block st b.m_firstByteSeq items
      b.markBlocks st items list

/-- `Update`, `tcp-tx-buffer.cc:783–877`. -/
def update (b : TcpTxBuffer) (list : List SackBlock) : Option (UInt32 × TcpTxBuffer) :=
  let (items, st, finished) :=
    b.markBlocks ⟨b.m_lostOut, b.m_sackedOut, b.m_highestSack, 0⟩ b.m_sentList list
  let b := { b with
    m_sentList := items
    m_lostOut := st.m_lostOut
    m_sackedOut := st.m_sackedOut
    m_highestSack := st.m_highestSack }
  if finished && 0 < st.bytesSacked then b.updateLostCount.map fun b => (st.bytesSacked, b)
  else some (st.bytesSacked, b)

/-- `IsLost`, `tcp-tx-buffer.cc:928–968`. -/
def isLost (b : TcpTxBuffer) (seq : SequenceNumber32) : Bool :=
  if seq.ge b.m_highestSack.2 then false else go b.m_firstByteSeq b.m_sentList
where
  go (beginOfCurrentPacket : SequenceNumber32) : List TcpTxItem → Bool
    | [] => false
    | item :: rest =>
      if beginOfCurrentPacket.ge seq && item.m_lost then true
      else if beginOfCurrentPacket.ge seq && item.m_sacked then false
      else go (beginOfCurrentPacket.add item.getSize) rest

/-- The loop of `NextSeg`, `tcp-tx-buffer.cc:994–1021`: the sequence number of rule 1, or else
the one saved for rule 3. -/
def nextLost (isRecovery : Bool) : SequenceNumber32 → Option SequenceNumber32 → List TcpTxItem →
    SequenceNumber32 ⊕ Option SequenceNumber32
  | _, seqPerRule3, [] => .inr seqPerRule3
  | beginOfCurrentPkt, seqPerRule3, item :: rest =>
    let next := beginOfCurrentPkt.add item.getSize
    if !item.m_retrans && !item.m_sacked then
      if item.m_lost then .inl beginOfCurrentPkt
      -- 0 stands for a number not saved yet
      else if (seqPerRule3.getD ⟨0⟩).m_value == 0 && isRecovery then
        nextLost isRecovery next (some beginOfCurrentPkt) rest
      else nextLost isRecovery next seqPerRule3 rest
    else nextLost isRecovery next seqPerRule3 rest

/-- `NextSeg`, `tcp-tx-buffer.cc:970–1071`, with the receiver's window that `m_rWndCallback`
returns: `seq` and `seqHigh`, unless it returns false. -/
def nextSeg (b : TcpTxBuffer) (rWnd : UInt32) (isRecovery : Bool) :
    Option (SequenceNumber32 × SequenceNumber32) :=
  match nextLost isRecovery b.m_firstByteSeq none b.m_sentList with
  | .inl seq => some (seq, seq.add b.m_segmentSize)
  | .inr seqPerRule3 =>
    if 0 < b.sizeFromSequence b.sentEnd then
      if b.m_sentSize ≤ rWnd then
        some (b.sentEnd, b.sentEnd.add (min b.m_segmentSize (rWnd - b.m_sentSize)))
      else none
    else seqPerRule3.map fun seq => (seq, seq.add b.m_segmentSize)

/-- `BytesInFlight`, `tcp-tx-buffer.cc:1073–1094`. -/
def bytesInFlight (b : TcpTxBuffer) : UInt32 :=
  b.m_sentSize - (b.m_sackedOut + b.m_lostOut) + b.m_retrans

/-- `IsLostRFC`, `tcp-tx-buffer.cc:1159–1214`, of the item at the front of the list. -/
def isLostRFC (b : TcpTxBuffer) (seq : SequenceNumber32) (segment : List TcpTxItem) : Bool :=
  match segment with
  | [] => false
  | item :: _ => if item.m_sacked then false else go 0 0 seq segment
where
  go (count bytes : UInt32) (beginOfCurrentPacket : SequenceNumber32) : List TcpTxItem → Bool
    | [] => false
    | item :: rest =>
      let count := if item.m_sacked then count + 1 else count
      let bytes := if item.m_sacked then bytes + item.getSize else bytes
      if item.m_sacked && (b.m_dupAckThresh ≤ count ||
          bytes > (b.m_dupAckThresh - 1) * b.m_segmentSize) then true
      else if beginOfCurrentPacket.ge b.m_highestSack.2 then item.m_lost && !item.m_retrans
      else go count bytes (beginOfCurrentPacket.add item.getSize) rest

/-- `BytesInFlightRFC`, `tcp-tx-buffer.cc:1096–1157`. -/
def bytesInFlightRFC (b : TcpTxBuffer) : UInt32 := go b.m_firstByteSeq b.m_sentList
where
  go (beginOfCurrentPkt : SequenceNumber32) : List TcpTxItem → UInt32
    | [] => 0
    | item :: rest =>
      (if !item.m_sacked && (!b.isLostRFC beginOfCurrentPkt (item :: rest) || item.m_retrans) then
        item.getSize else 0) + go (beginOfCurrentPkt.add item.getSize) rest

/-- `ResetRenoSack`, `tcp-tx-buffer.cc:1216–1228`. -/
def resetRenoSack (b : TcpTxBuffer) : TcpTxBuffer :=
  { b with
    m_sackedOut := 0
    m_sentList := b.m_sentList.map fun item => { item with m_sacked := false }
    m_highestSack := (none, ⟨0⟩) }

/-- `ResetSentList`, `tcp-tx-buffer.cc:1237–1258`. -/
def resetSentList (b : TcpTxBuffer) : TcpTxBuffer :=
  { b with
    m_appList := (b.m_sentList.map fun item =>
      { item with m_retrans := false, m_sacked := false, m_lost := false }) ++ b.m_appList
    m_sentList := []
    m_sentSize := 0
    m_lostOut := 0
    m_retrans := 0
    m_sackedOut := 0
    m_highestSack := (none, ⟨0⟩) }

/-- `ResetLastSegmentSent`, `tcp-tx-buffer.cc:1260–1276`. -/
def resetLastSegmentSent (b : TcpTxBuffer) : TcpTxBuffer :=
  match b.m_sentList.getLast? with
  | none => b
  | some item => { b with
      m_sentList := b.m_sentList.dropLast
      m_sentSize := b.m_sentSize - item.getSize
      m_retrans := if item.m_retrans then b.m_retrans - item.getSize else b.m_retrans
      m_appList := item :: b.m_appList }

/-- `SetSentListLost`, `tcp-tx-buffer.cc:1278–1323`. -/
def setSentListLost (b : TcpTxBuffer) (resetSack : Bool) : TcpTxBuffer :=
  if resetSack then { b with
    m_retrans := 0
    m_sackedOut := 0
    m_lostOut := b.m_sentSize
    m_highestSack := (none, ⟨0⟩)
    m_sentList := b.m_sentList.map fun item =>
      { item with m_sacked := false, m_lost := true, m_retrans := false } }
  else { b with
    m_retrans := 0
    m_lostOut := b.m_sentList.foldl (fun lostOut item =>
      if item.m_lost || !item.m_sacked then lostOut + item.getSize else lostOut) 0
    m_sentList := b.m_sentList.map fun item =>
      { item with m_lost := item.m_lost || !item.m_sacked, m_retrans := false } }

/-- `DeleteRetransmittedFlagFromHead`, `tcp-tx-buffer.cc:1338–1347`. -/
def deleteRetransmittedFlagFromHead (b : TcpTxBuffer) : TcpTxBuffer :=
  if b.m_sentSize = 0 then b
  else
    match b.m_sentList with
    | [] => b
    | head :: rest =>
      if head.m_retrans then { b with
        m_sentList := { head with m_retrans := false } :: rest
        m_retrans := b.m_retrans - head.getSize }
      else b

end TcpTxBuffer

/-! ### Runs -/

/-- The calls that change a send buffer. -/
inductive TxCall where
  | add (p : Payload)
  | copyFromSequence (numBytes : UInt32) (seq : SequenceNumber32)
  | discardUpTo (seq : SequenceNumber32)
  | update (list : List SackBlock)
  | addRenoSack
  | resetRenoSack
  | markHeadAsLost
  | deleteRetransmittedFlagFromHead
  | setSentListLost (resetSack : Bool)
  | resetSentList
  | resetLastSegmentSent

/-- The buffer after a call. -/
def TxCall.run (b : TcpTxBuffer) : TxCall → Option TcpTxBuffer
  | add p => some (b.add p).2
  | copyFromSequence numBytes seq => (b.copyFromSequence numBytes seq).map Prod.snd
  | discardUpTo seq => b.discardUpTo seq
  | update list => (b.update list).map Prod.snd
  | addRenoSack => b.addRenoSack
  | resetRenoSack => some b.resetRenoSack
  | markHeadAsLost => some b.markHeadAsLost
  | deleteRetransmittedFlagFromHead => some b.deleteRetransmittedFlagFromHead
  | setSentListLost resetSack => some (b.setSentListLost resetSack)
  | resetSentList => some b.resetSentList
  | resetLastSegmentSent => some b.resetLastSegmentSent

/-- A buffer after `SetHeadSequence`, to which nothing was added yet. -/
structure TcpTxBuffer.Empty (b : TcpTxBuffer) : Prop where
  appList : b.m_appList = []
  sentList : b.m_sentList = []
  size : b.m_size = 0
  sentSize : b.m_sentSize = 0
  highestSack : b.m_highestSack = (none, ⟨0⟩)
  lostOut : b.m_lostOut = 0
  sackedOut : b.m_sackedOut = 0
  retrans : b.m_retrans = 0

/-- The buffers reached from an empty one by the calls allowed. -/
inductive TxReached (allowed : TcpTxBuffer → TxCall → Prop) : TcpTxBuffer → Prop where
  | start {b : TcpTxBuffer} (h : b.Empty) : TxReached allowed b
  | step {b b' : TcpTxBuffer} {c : TxCall} (h : TxReached allowed b) (hc : allowed b c)
      (hrun : c.run b = some b') : TxReached allowed b'

end Ns3.Tcp
