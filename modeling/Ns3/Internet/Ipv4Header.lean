import Ns3.Network.IpChecksum

/-!
# `Ipv4Header`

The header of `src/internet/model/ipv4-header.cc`: its setters, `Serialize` and `Deserialize`. The
writer always claims a header of five words and keeps the payload size; the reader takes the header's
size from the first byte, and `GetSerializedSize` answers with that. So the fields survive, but a header
that was read with options is not written again with the size it had.
-/

namespace Ns3.Internet

open Ns3.Lib Ns3.Network

/-- `UNINITIALIZED` of `ipv4-address.cc`, the address of the default constructor. -/
abbrev uninitialized : UInt32 := 0x66666666

/-- The fields; `m_flags` has three bits. -/
structure Ipv4Header where
  m_calcChecksum : Bool := false
  m_payloadSize : UInt16 := 0
  m_identification : UInt16 := 0
  m_tos : UInt8 := 0
  m_ttl : UInt8 := 0
  m_protocol : UInt8 := 0
  m_flags : BitVec 3 := 0
  m_fragmentOffset : UInt16 := 0
  m_source : UInt32 := uninitialized
  m_destination : UInt32 := uninitialized
  m_checksum : UInt16 := 0
  m_goodChecksum : Bool := true
  m_headerSize : UInt16 := 5 * 4
deriving DecidableEq, Repr

namespace Ipv4Header

/-- The flags `DONT_FRAGMENT` and `MORE_FRAGMENTS`. -/
def dontFragment : BitVec 3 := 1

def moreFragments : BitVec 3 := 2

/-- A call of a setter. -/
inductive Setter where
  | enableChecksum
  | setPayloadSize (size : UInt16)
  | setIdentification (identification : UInt16)
  | setTos (tos : UInt8)
  | setDscp (dscp : UInt8)
  | setEcn (ecn : UInt8)
  | setMoreFragments
  | setLastFragment
  | setDontFragment
  | setMayFragment
  | setFragmentOffset (offsetBytes : UInt16)
  | setTtl (ttl : UInt8)
  | setProtocol (protocol : UInt8)
  | setSource (source : UInt32)
  | setDestination (dst : UInt32)
deriving DecidableEq, Repr

/-- What a setter does; `SetFragmentOffset` aborts at an offset that is no multiple of 8. -/
def set (h : Ipv4Header) : Setter → Option Ipv4Header
  | .enableChecksum => some { h with m_calcChecksum := true }
  | .setPayloadSize size => some { h with m_payloadSize := size }
  | .setIdentification identification => some { h with m_identification := identification }
  | .setTos tos => some { h with m_tos := tos }
  | .setDscp dscp => some { h with m_tos := (h.m_tos &&& (0x3 : UInt8)) ||| dscp <<< 2 }
  | .setEcn ecn => some { h with m_tos := (h.m_tos &&& (0xFC : UInt8)) ||| ecn }
  | .setMoreFragments => some { h with m_flags := h.m_flags ||| moreFragments }
  | .setLastFragment => some { h with m_flags := h.m_flags &&& ~~~moreFragments }
  | .setDontFragment => some { h with m_flags := h.m_flags ||| dontFragment }
  | .setMayFragment => some { h with m_flags := h.m_flags &&& ~~~dontFragment }
  | .setFragmentOffset offsetBytes =>
    if offsetBytes &&& 0x7 ≠ 0 then none else some { h with m_fragmentOffset := offsetBytes }
  | .setTtl ttl => some { h with m_ttl := ttl }
  | .setProtocol protocol => some { h with m_protocol := protocol }
  | .setSource source => some { h with m_source := source }
  | .setDestination dst => some { h with m_destination := dst }

def getSerializedSize (h : Ipv4Header) : UInt32 := h.m_headerSize.toUInt32

/-- A byte with the bits of the flags set in it. -/
def addFlags (flagsFrag : UInt8) (m_flags : BitVec 3) : UInt8 :=
  let flagsFrag := if m_flags &&& dontFragment ≠ 0 then flagsFrag ||| (1 : UInt8) <<< 6 else flagsFrag
  if m_flags &&& moreFragments ≠ 0 then flagsFrag ||| (1 : UInt8) <<< 5 else flagsFrag

/-- The fragment offset in units of 8 bytes. -/
def fragmentOffset (h : Ipv4Header) : UInt32 := h.m_fragmentOffset.toUInt32 / 8

/-- The byte of the flags and the high bits of the offset. -/
def flagsFrag (h : Ipv4Header) : UInt8 :=
  addFlags ((h.fragmentOffset >>> 8) &&& 0x1f).toUInt8 h.m_flags

/-- The fields, with no checksum yet. -/
def writeFields (h : Ipv4Header) : Wire Unit := do
  Wire.writeU8 ((4 : UInt8) <<< 4 ||| (5 : UInt8))
  Wire.writeU8 h.m_tos
  writeHtonU16 (h.m_payloadSize + 5 * 4)
  writeHtonU16 h.m_identification
  Wire.writeU8 h.flagsFrag
  Wire.writeU8 (h.fragmentOffset &&& 0xff).toUInt8
  Wire.writeU8 h.m_ttl
  Wire.writeU8 h.m_protocol
  writeHtonU16 0
  writeHtonU32 h.m_source
  writeHtonU32 h.m_destination

/-- The checksum, put into its place. -/
def writeChecksum (start : Nat) : Wire Unit := do
  Wire.seek start
  let checksum ← calculateIpChecksum 20 0
  Wire.seek start
  Wire.next 10
  writeU16 checksum

/-- `Ipv4Header::Serialize`; the iterator is a copy. -/
def serialize (h : Ipv4Header) : Wire Unit := Wire.aside do
  let start ← Wire.tell
  h.writeFields
  if h.m_calcChecksum then writeChecksum start else pure ()

/-- The flags that the byte of the flags has. -/
def flagsOf (flags : UInt8) : BitVec 3 :=
  let m_flags := if flags &&& (1 : UInt8) <<< 6 ≠ 0 then 0 ||| dontFragment else 0
  if flags &&& (1 : UInt8) <<< 5 ≠ 0 then m_flags ||| moreFragments else m_flags

/-- The fields behind the first byte. -/
def readFields (h : Ipv4Header) (headerSize : UInt16) : Wire Ipv4Header := do
  let m_tos ← Wire.readU8
  let size ← readNtohU16
  let m_identification ← readNtohU16
  let flags ← Wire.readU8
  Wire.prev
  let high ← Wire.readU8
  let low ← Wire.readU8
  let m_ttl ← Wire.readU8
  let m_protocol ← Wire.readU8
  let m_checksum ← readU16
  let m_source ← readNtohU32
  let m_destination ← readNtohU32
  pure { h with
    m_tos, m_identification, m_ttl, m_protocol, m_checksum, m_source, m_destination
    m_payloadSize := size - headerSize
    m_flags := flagsOf flags
    m_fragmentOffset := ((high &&& 0x1f).toUInt16 <<< 8 ||| low.toUInt16) <<< 3
    m_headerSize := headerSize }

/-- The check of the checksum. -/
def verify (h : Ipv4Header) (start : Nat) (headerSize : UInt16) : Wire Ipv4Header :=
  if h.m_calcChecksum then do
    Wire.seek start
    let checksum ← calculateIpChecksum headerSize 0
    pure { h with m_goodChecksum := checksum == 0 }
  else pure h

/-- `Ipv4Header::Deserialize`, what it returns and the header then; the iterator is a copy. -/
def deserialize (h : Ipv4Header) : Wire (UInt32 × Ipv4Header) := Wire.aside do
  let start ← Wire.tell
  let verIhl ← Wire.readU8
  let headerSize := (verIhl &&& 0x0f).toUInt16 * 4
  if verIhl >>> 4 ≠ 4 then pure (0, h)
  else do
    let h ← h.readFields headerSize
    let h ← h.verify start headerSize
    pure (h.getSerializedSize, h)

end Ipv4Header

end Ns3.Internet
