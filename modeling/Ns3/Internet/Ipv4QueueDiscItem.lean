import Ns3.Internet.Ipv4Header
import Ns3.Network.Queue

/-!
# `Ipv4QueueDiscItem`

The item of `src/internet/model/ipv4-queue-disc-item.cc`: a packet whose IPv4 header is kept aside until
`AddHeader` puts it in front, and can be marked until then. A packet is the list of the headers in front of
its payload.
-/

namespace Ns3.Internet

open Ns3.Network

structure Ipv4QueueDiscItem where
  headers : List Ipv4Header := []
  payload : List UInt8
  m_header : Ipv4Header := {}
  m_headerAdded : Bool := false
  m_txq : UInt8 := 0
  m_tstamp : Time := 0
deriving DecidableEq, Repr

namespace Ipv4QueueDiscItem

/-- The size of the packet. -/
def packetSize (i : Ipv4QueueDiscItem) : UInt32 :=
  (i.headers.map Ipv4Header.getSerializedSize).sum + UInt32.ofNat i.payload.length

/-- `GetSize`. -/
def size (i : Ipv4QueueDiscItem) : UInt32 :=
  if i.m_headerAdded then i.packetSize else i.packetSize + i.m_header.getSerializedSize

/-- `AddHeader`, which asserts that the header has not been added. -/
def withHeader (i : Ipv4QueueDiscItem) : Option Ipv4QueueDiscItem :=
  if i.m_headerAdded then none
  else some { i with headers := i.m_header :: i.headers, m_headerAdded := true }

/-- `Mark`: the codepoint CE (3), unless the header has been added or says Not-ECT (0). -/
def marked (i : Ipv4QueueDiscItem) : Option Ipv4QueueDiscItem :=
  if !i.m_headerAdded && i.m_header.m_tos &&& 0x3 ≠ 0 then
    (i.m_header.set (.setEcn 3)).map fun h => { i with m_header := h }
  else none

theorem size_withHeader (i i' : Ipv4QueueDiscItem) (h : i.withHeader = some i') : i'.size = i.size := by
  rw [withHeader] at h
  split at h
  · cases h
  · next hadded =>
    obtain rfl := Option.some.inj h
    rw [size, if_pos rfl, size, if_neg hadded, packetSize, packetSize, List.map_cons, List.sum_cons, add_assoc]
    exact add_comm _ _

theorem size_marked (i i' : Ipv4QueueDiscItem) (h : i.marked = some i') : i'.size = i.size := by
  rw [marked] at h
  split at h
  · obtain rfl := Option.some.inj h
    rfl
  · cases h

instance : QueueDiscItem Ipv4QueueDiscItem where
  getSize := size
  getTxQueueIndex := m_txq
  getTimeStamp := m_tstamp
  setTimeStamp t i := { i with m_tstamp := t }
  addHeader := withHeader
  mark := marked
  getDsField i := some i.m_header.m_tos
  getSize_setTimeStamp _ _ := rfl
  getSize_addHeader := size_withHeader
  getSize_mark := size_marked

end Ipv4QueueDiscItem

end Ns3.Internet
