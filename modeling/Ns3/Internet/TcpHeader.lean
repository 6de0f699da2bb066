import Ns3.Internet.TcpOption

/-!
# `TcpHeader`

The header of `src/internet/model/tcp-header.cc`: the setters, `AppendOption`, `Serialize` and
`Deserialize`. Three lengths are kept: `AppendOption` adds up `m_optionsLen` and `m_length`, the writer
pads what it has written, and `CalculateHeaderLength` walks the options again. The checksum is over a
pseudo header and the first bytes of the buffer, as many as its size has modulo 2^16.
-/

namespace Ns3.Internet

open Ns3.Lib Ns3.Network

/-- The addresses that `InitializeChecksum` is given. -/
inductive Addresses where
  | ipv4 (source destination : UInt32)
  | ipv6 (source destination : { bs : List UInt8 // bs.length = 16 })
deriving DecidableEq, Repr

structure TcpHeader where
  m_sourcePort : UInt16 := 0
  m_destinationPort : UInt16 := 0
  m_sequenceNumber : UInt32 := 0
  m_ackNumber : UInt32 := 0
  m_length : Nat := 5
  m_flags : UInt8 := 0
  m_windowSize : UInt16 := 0xffff
  m_urgentPointer : UInt16 := 0
  m_addresses : Option Addresses := none
  m_protocol : UInt8 := 0
  m_calcChecksum : Bool := false
  m_goodChecksum : Bool := true
  m_options : List TcpOption := []
  m_optionsLen : Nat := 0
deriving DecidableEq, Repr

namespace TcpHeader

/-- The most bytes of options there may be. -/
def m_maxOptionsLen : Nat := 40

/-- `AppendOption`: whether the option is accepted, and the header then. -/
def appendOption (h : TcpHeader) (option : TcpOption) : Bool × TcpHeader :=
  if (h.m_optionsLen + option.getSerializedSize) % 2 ^ 32 ≤ m_maxOptionsLen then
    if !TcpOption.isKindKnown option.getKind then (false, h)
    else if option.getKind ≠ TcpOption.END.getKind then
      let m_optionsLen := (h.m_optionsLen + option.getSerializedSize) % 256
      let totalLen := 20 + 3 + m_optionsLen
      (true, { h with
        m_options := h.m_options ++ [option], m_optionsLen, m_length := totalLen / 4 % 256 })
    else (true, h)
  else (false, h)

/-- A call that makes a header. -/
inductive Setter where
  | enableChecksums
  | setSourcePort (port : UInt16)
  | setDestinationPort (port : UInt16)
  | setSequenceNumber (sequenceNumber : UInt32)
  | setAckNumber (ackNumber : UInt32)
  | setFlags (flags : UInt8)
  | setWindowSize (windowSize : UInt16)
  | setUrgentPointer (urgentPointer : UInt16)
  | initializeChecksum (addresses : Addresses) (protocol : UInt8)
  | appendOption (option : TcpOption)
deriving DecidableEq, Repr

def set (h : TcpHeader) : Setter → TcpHeader
  | .enableChecksums => { h with m_calcChecksum := true }
  | .setSourcePort port => { h with m_sourcePort := port }
  | .setDestinationPort port => { h with m_destinationPort := port }
  | .setSequenceNumber sequenceNumber => { h with m_sequenceNumber := sequenceNumber }
  | .setAckNumber ackNumber => { h with m_ackNumber := ackNumber }
  | .setFlags flags => { h with m_flags := flags }
  | .setWindowSize windowSize => { h with m_windowSize := windowSize }
  | .setUrgentPointer urgentPointer => { h with m_urgentPointer := urgentPointer }
  | .initializeChecksum addresses protocol =>
    { h with m_addresses := some addresses, m_protocol := protocol }
  | .appendOption option => (h.appendOption option).2

/-- The size of the options, a number of 32 bits. -/
def optionsSize (options : List TcpOption) : Nat :=
  (options.map TcpOption.getSerializedSize).sum % 2 ^ 32

/-- `CalculateHeaderLength`, a number of 8 bits. -/
def calculateHeaderLength (h : TcpHeader) : Nat :=
  let len := (20 + optionsSize h.m_options) % 2 ^ 32
  let len := if len % 4 ≠ 0 then (len + (4 - len % 4)) % 2 ^ 32 else len
  len / 4 % 256

def getSerializedSize (h : TcpHeader) : Nat := h.calculateHeaderLength * 4

/-- What is summed besides the segment, of a segment of `size` bytes. -/
def pseudoHeader (addresses : Addresses) (protocol : UInt8) (size : UInt16) : List UInt8 :=
  match addresses with
  | .ipv4 source destination => be32 source ++ (be32 destination ++ (0 :: protocol :: be16 size))
  | .ipv6 source destination =>
    source.1 ++ (destination.1 ++ (0 :: 0 :: (be16 size ++ [0, 0, 0, protocol])))

/-- `CalculateHeaderChecksum`; without addresses it sums memory that nobody wrote. -/
def calculateHeaderChecksum (h : TcpHeader) (size : UInt16) : Option UInt16 :=
  h.m_addresses.bind fun addresses =>
    let buf := pseudoHeader addresses h.m_protocol size
    (calculateIpChecksum (UInt16.ofNat buf.length) 0 ⟨buf, 0⟩).map fun r => ~~~r.1

/-- The sixteen and the next four bytes of a header, with no checksum yet. -/
def writeFields (h : TcpHeader) : Wire Unit := do
  writeHtonU16 h.m_sourcePort
  writeHtonU16 h.m_destinationPort
  writeHtonU32 h.m_sequenceNumber
  writeHtonU32 h.m_ackNumber
  writeHtonU16 (UInt16.ofNat h.m_length <<< 12 ||| h.m_flags.toUInt16)
  writeHtonU16 h.m_windowSize
  writeHtonU16 0
  writeHtonU16 h.m_urgentPointer

def writeOptions : List TcpOption → Wire Unit
  | [] => pure ()
  | op :: options => do
    Wire.aside op.serialize
    Wire.next op.getSerializedSize
    writeOptions options

/-- `END`s up to the next word. -/
def writePadding (optionLen : Nat) : Wire Unit :=
  if optionLen % 4 = 0 then pure ()
  else do
    Wire.writeU8 TcpOption.END.getKind
    writePadding (optionLen + 1)
termination_by (4 - optionLen % 4) % 4
decreasing_by omega

/-- The header, with no checksum yet. -/
def writeHeader (h : TcpHeader) : Wire Unit := do
  h.writeFields
  writeOptions h.m_options
  writePadding (optionsSize h.m_options)

/-- The checksum over the buffer as it is. -/
def checksum (h : TcpHeader) (start : Nat) : Wire UInt16 := do
  let size ← Wire.size
  let headerChecksum ← StateT.lift (h.calculateHeaderChecksum (UInt16.ofNat size))
  Wire.seek start
  calculateIpChecksum (UInt16.ofNat size) headerChecksum.toUInt32

/-- The checksum, put into its place. -/
def writeChecksum (h : TcpHeader) (start : Nat) : Wire Unit := do
  let checksum ← h.checksum start
  Wire.seek start
  Wire.next 16
  writeU16 checksum

/-- `TcpHeader::Serialize`; the iterator is a copy. -/
def serialize (h : TcpHeader) : Wire Unit := Wire.aside do
  let start ← Wire.tell
  h.writeHeader
  if h.m_calcChecksum then h.writeChecksum start else pure ()

/-- The options in the next `optionLen` bytes, added to a header. After `fuel` options the loop is taken
to go on for ever: every option that is not of size 0 leaves fewer bytes. -/
def readOptions : Nat → Nat → TcpHeader → Wire TcpHeader
  | _, 0, h => pure h
  | 0, _ + 1, _ => failure
  | fuel + 1, optionLen, h => do
    let kind ← Wire.peekU8
    let (optionSize, op) ← Wire.aside (TcpOption.createOption kind).deserialize
    if optionSize ≠ op.getSerializedSize then pure h
    else if optionLen < optionSize then pure h
    else do
      Wire.next optionSize
      let h := { h with
        m_options := h.m_options ++ [op], m_optionsLen := (h.m_optionsLen + optionSize) % 256 }
      if op.getKind = TcpOption.END.getKind then do
        Wire.next (optionLen - optionSize)
        pure { h with m_optionsLen := (h.m_optionsLen + (optionLen - optionSize)) % 256 }
      else readOptions fuel (optionLen - optionSize) h

/-- The fields before the options. -/
def readFields (h : TcpHeader) : Wire TcpHeader := do
  let m_sourcePort ← readNtohU16
  let m_destinationPort ← readNtohU16
  let m_sequenceNumber ← readNtohU32
  let m_ackNumber ← readNtohU32
  let field ← readNtohU16
  let m_windowSize ← readNtohU16
  Wire.next 2
  let m_urgentPointer ← readNtohU16
  pure { h with
    m_sourcePort, m_destinationPort, m_sequenceNumber, m_ackNumber, m_windowSize, m_urgentPointer
    m_flags := (field &&& 0xFF).toUInt8
    m_length := (field >>> 12).toNat
    m_options := [], m_optionsLen := 0 }

/-- The check of the checksum. -/
def verify (h : TcpHeader) (start : Nat) : Wire TcpHeader :=
  if h.m_calcChecksum then do
    let checksum ← h.checksum start
    pure { h with m_goodChecksum := checksum == 0 }
  else pure h

/-- `TcpHeader::Deserialize`, what it returns and the header then; the iterator is a copy. -/
def deserialize (h : TcpHeader) : Wire (Nat × TcpHeader) := Wire.aside do
  let start ← Wire.tell
  let h ← h.readFields
  if h.m_length < 5 ∨ m_maxOptionsLen < (h.m_length - 5) * 4 then pure (20, h)
  else do
    let h ← readOptions (m_maxOptionsLen + 1) ((h.m_length - 5) * 4) h
    let h ← h.verify start
    pure (h.getSerializedSize, h)

end TcpHeader

end Ns3.Internet
