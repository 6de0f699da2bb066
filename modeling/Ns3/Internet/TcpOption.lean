import Mathlib.Tactic.SplitIfs
import Ns3.Network.IpChecksum

/-!
# `TcpOption`

The options of `src/internet/model/tcp-option.cc`, `tcp-option-rfc793.cc`, `tcp-option-winscale.cc`,
`tcp-option-sack-permitted.cc`, `tcp-option-sack.cc` and `tcp-option-ts.cc`: their kinds, sizes,
`Serialize` and `Deserialize`. A size is a number of 32 bits, so that of a SACK option with very many
blocks has wrapped.
-/

namespace Ns3.Internet

open Ns3.Lib Ns3.Network

/-- The classes of options under the names of their kinds. -/
inductive TcpOption where
  | END
  | NOP
  | MSS (m_mss : UInt16)
  | WINSCALE (m_scale : UInt8)
  | SACKPERMITTED
  | SACK (m_sackList : List (UInt32 × UInt32))
  | TS (m_timestamp m_echo : UInt32)
  | UNKNOWN (m_kind m_size : UInt8) (m_content : List UInt8)
deriving DecidableEq, Repr

namespace TcpOption

def getKind : TcpOption → UInt8
  | .END => 0
  | .NOP => 1
  | .MSS _ => 2
  | .WINSCALE _ => 3
  | .SACKPERMITTED => 4
  | .SACK _ => 5
  | .TS _ _ => 8
  | .UNKNOWN m_kind _ _ => m_kind

def isKindKnown (kind : UInt8) : Bool := kind ∈ ([0, 1, 2, 3, 4, 5, 8] : List UInt8)

/-- `CreateOption`, with what the constructors set. -/
def createOption (kind : UInt8) : TcpOption :=
  if kind = 0 then .END
  else if kind = 1 then .NOP
  else if kind = 2 then .MSS 1460
  else if kind = 3 then .WINSCALE 0
  else if kind = 4 then .SACKPERMITTED
  else if kind = 5 then .SACK []
  else if kind = 8 then .TS 0 0
  else .UNKNOWN 0xFF 0 []

def getSerializedSize : TcpOption → Nat
  | .END => 1
  | .NOP => 1
  | .MSS _ => 4
  | .WINSCALE _ => 3
  | .SACKPERMITTED => 2
  | .SACK m_sackList => (2 + m_sackList.length * 8) % 2 ^ 32
  | .TS _ _ => 10
  | .UNKNOWN _ m_size _ => m_size.toNat

/-- The edges of the blocks of a SACK option. -/
def writeBlocks : List (UInt32 × UInt32) → Wire Unit
  | [] => pure ()
  | (leftEdge, rightEdge) :: blocks => do
    writeHtonU32 leftEdge
    writeHtonU32 rightEdge
    writeBlocks blocks

def readBlocks : Nat → Wire (List (UInt32 × UInt32))
  | 0 => pure []
  | sackCount + 1 => do
    let leftEdge ← readNtohU32
    let rightEdge ← readNtohU32
    let blocks ← readBlocks sackCount
    pure ((leftEdge, rightEdge) :: blocks)

def serialize : TcpOption → Wire Unit
  | .END => Wire.writeU8 0
  | .NOP => Wire.writeU8 1
  | .MSS m_mss => do
    Wire.writeU8 2
    Wire.writeU8 4
    writeHtonU16 m_mss
  | .WINSCALE m_scale => do
    Wire.writeU8 3
    Wire.writeU8 3
    Wire.writeU8 m_scale
  | .SACKPERMITTED => do
    Wire.writeU8 4
    Wire.writeU8 2
  | .SACK m_sackList => do
    Wire.writeU8 5
    Wire.writeU8 (UInt8.ofNat (m_sackList.length * 8 + 2))
    writeBlocks m_sackList
  | .TS m_timestamp m_echo => do
    Wire.writeU8 8
    Wire.writeU8 10
    writeHtonU32 m_timestamp
    writeHtonU32 m_echo
  | .UNKNOWN m_kind m_size m_content =>
    if m_size = 0 then pure ()
    else do
      Wire.writeU8 m_kind
      Wire.writeU8 m_size
      Wire.writeBytes (m_content.take (m_size.toNat - 2))

/-- The value of an option that has a size byte, or 0 for a malformed one. -/
def readSized (op : TcpOption) (length : UInt8) (value : Wire TcpOption) : Wire (Nat × TcpOption) := do
  let readKind ← Wire.readU8
  if readKind ≠ op.getKind then pure (0, op)
  else do
    let size ← Wire.readU8
    if size ≠ length then pure (0, op)
    else do
      let op ← value
      pure (op.getSerializedSize, op)

/-- An option that is only its kind. -/
def readBare (op : TcpOption) : Wire (Nat × TcpOption) := do
  let readKind ← Wire.readU8
  if readKind ≠ op.getKind then pure (0, op) else pure (op.getSerializedSize, op)

/-- `Deserialize`, what it returns and the option then. The MSS option aborts where the others return
0 for a wrong size. -/
def deserialize : TcpOption → Wire (Nat × TcpOption)
  | .END => readBare .END
  | .NOP => readBare .NOP
  | .MSS m_mss => do
    let readKind ← Wire.readU8
    if readKind ≠ 2 then pure (0, .MSS m_mss)
    else do
      let size ← Wire.readU8
      if size ≠ 4 then failure
      else do
        let m_mss ← readNtohU16
        pure (4, .MSS m_mss)
  | .WINSCALE m_scale => readSized (.WINSCALE m_scale) 3 do
    let m_scale ← Wire.readU8
    pure (.WINSCALE m_scale)
  | .SACKPERMITTED => readSized .SACKPERMITTED 2 (pure .SACKPERMITTED)
  | .SACK m_sackList => do
    let readKind ← Wire.readU8
    if readKind ≠ 5 then pure (0, .SACK m_sackList)
    else do
      let size ← Wire.readU8
      let m_sackList ← readBlocks ((size.toNat - 2) / 8)
      pure ((TcpOption.SACK m_sackList).getSerializedSize, .SACK m_sackList)
  | .TS m_timestamp m_echo => readSized (.TS m_timestamp m_echo) 10 do
    let m_timestamp ← readNtohU32
    let m_echo ← readNtohU32
    pure (.TS m_timestamp m_echo)
  | .UNKNOWN _ _ m_content => do
    let m_kind ← Wire.readU8
    let m_size ← Wire.readU8
    if m_size.toNat < 2 ∨ m_size.toNat > 40 then pure (0, .UNKNOWN m_kind m_size m_content)
    else do
      let m_content ← Wire.readBytes (m_size.toNat - 2)
      pure (m_size.toNat, .UNKNOWN m_kind m_size m_content)

/-! ### The bytes of an option -/

/-- Options that a header can be given: not the end of the list, and of a known kind. -/
def Appendable : TcpOption → Prop
  | .END => False
  | .UNKNOWN _ _ _ => False
  | _ => True

def blockBytes (blocks : List (UInt32 × UInt32)) : List UInt8 :=
  blocks.flatMap fun block => be32 block.1 ++ be32 block.2

/-- What an option is on the wire, behind its kind. -/
def body : TcpOption → List UInt8
  | .END => []
  | .NOP => []
  | .MSS m_mss => 4 :: be16 m_mss
  | .WINSCALE m_scale => [3, m_scale]
  | .SACKPERMITTED => [2]
  | .SACK m_sackList => UInt8.ofNat (m_sackList.length * 8 + 2) :: blockBytes m_sackList
  | .TS m_timestamp m_echo => 10 :: (be32 m_timestamp ++ be32 m_echo)
  | .UNKNOWN _ m_size m_content => m_size :: m_content

def bytes (op : TcpOption) : List UInt8 := op.getKind :: op.body

theorem length_blockBytes (blocks : List (UInt32 × UInt32)) :
    (blockBytes blocks).length = 8 * blocks.length := by
  induction blocks with
  | nil => rfl
  | cons block blocks ih =>
    rw [blockBytes, List.flatMap_cons, List.length_append, List.length_append, length_be32,
      length_be32, ← blockBytes, ih, List.length_cons]
    omega

/-- The size of an option is the number of its bytes, up to the wrap. -/
theorem getSerializedSize_eq {op : TcpOption} (ha : op.Appendable) :
    op.getSerializedSize = op.bytes.length % 2 ^ 32 := by
  cases op with
  | UNKNOWN m_kind m_size m_content => exact ha.elim
  | SACK m_sackList =>
    simp only [getSerializedSize, bytes, body, List.length_cons, length_blockBytes]
    congr 1
    omega
  | _ => rfl

theorem writeBlocks_writes (blocks : List (UInt32 × UInt32)) :
    Writes (writeBlocks blocks) (blockBytes blocks) := by
  induction blocks with
  | nil => exact Writes.ret
  | cons block blocks ih =>
    rw [blockBytes, List.flatMap_cons, ← blockBytes, List.append_assoc]
    exact (writeHtonU32_writes _).bind ((writeHtonU32_writes _).bind ih)

theorem readBlocks_reads (blocks : List (UInt32 × UInt32)) :
    Reads (readBlocks blocks.length) blocks (blockBytes blocks) := by
  induction blocks with
  | nil => exact Turns.ret []
  | cons block blocks ih =>
    rw [blockBytes, List.flatMap_cons, ← blockBytes, List.append_assoc]
    exact (readNtohU32_reads _).bind ((readNtohU32_reads _).bind (ih.of_bind_pure rfl))

theorem serialize_writes {op : TcpOption} (ha : op.Appendable) : Writes op.serialize op.bytes := by
  cases op with
  | END => exact writeU8_writes 0
  | NOP => exact writeU8_writes 1
  | MSS m_mss => exact Writes.u8 (Writes.u8 (writeHtonU16_writes m_mss))
  | WINSCALE m_scale => exact Writes.u8 (Writes.u8 (writeU8_writes m_scale))
  | SACKPERMITTED => exact Writes.u8 (writeU8_writes 2)
  | SACK m_sackList => exact Writes.u8 (Writes.u8 (writeBlocks_writes m_sackList))
  | TS m_timestamp m_echo =>
    exact Writes.u8 (Writes.u8 ((writeHtonU32_writes _).bind (writeHtonU32_writes _)))
  | UNKNOWN m_kind m_size m_content => exact ha.elim

theorem readSized_reads (op : TcpOption) (length : UInt8) {op' : TcpOption} {value : Wire TcpOption}
    {bs : List UInt8} (hvalue : Reads value op' bs) :
    Reads (readSized op length value) (op'.getSerializedSize, op') (op.getKind :: length :: bs) := by
  refine Reads.u8 ?_
  rw [if_neg (not_not.mpr rfl)]
  refine Reads.u8 ?_
  rw [if_neg (not_not.mpr rfl)]
  exact hvalue.of_bind_pure rfl

/-- An option that takes at most forty bytes is read back. -/
theorem deserialize_reads {op : TcpOption} (ha : op.Appendable) (hlen : op.bytes.length ≤ 40) :
    Reads (createOption op.getKind).deserialize (op.bytes.length, op) op.bytes := by
  cases op with
  | END => exact ha.elim
  | NOP => exact Reads.u8 (Turns.ret _)
  | MSS m_mss => exact Reads.u8 (Reads.u8 ((readNtohU16_reads m_mss).of_bind_pure rfl))
  | WINSCALE m_scale =>
    have hvalue : Reads (do let m_scale ← Wire.readU8; pure (WINSCALE m_scale)) (WINSCALE m_scale)
        [m_scale] :=
      (readU8_turns m_scale).of_bind_pure rfl
    exact readSized_reads (WINSCALE 0) 3 hvalue
  | SACKPERMITTED => exact readSized_reads .SACKPERMITTED 2 (Turns.ret .SACKPERMITTED)
  | SACK m_sackList =>
    simp only [bytes, body, List.length_cons, length_blockBytes] at hlen
    have hcount : ((UInt8.ofNat (m_sackList.length * 8 + 2)).toNat - 2) / 8 = m_sackList.length := by
      rw [UInt8.toNat_ofNat']
      omega
    have hsize : (TcpOption.SACK m_sackList).getSerializedSize =
        (TcpOption.SACK m_sackList).bytes.length := by
      rw [getSerializedSize_eq (show (TcpOption.SACK m_sackList).Appendable from trivial)]
      simp only [bytes, body, List.length_cons, length_blockBytes]
      omega
    refine Reads.u8 (Reads.u8 ?_)
    rw [hcount, ← hsize]
    exact (readBlocks_reads m_sackList).of_bind_pure rfl
  | TS m_timestamp m_echo =>
    have hvalue : Reads (do
        let m_timestamp ← readNtohU32
        let m_echo ← readNtohU32
        pure (TS m_timestamp m_echo)) (TS m_timestamp m_echo) (be32 m_timestamp ++ be32 m_echo) :=
      (readNtohU32_reads m_timestamp).bind ((readNtohU32_reads m_echo).of_bind_pure rfl)
    exact readSized_reads (TS 0 0) 10 hvalue
  | UNKNOWN m_kind m_size m_content => exact ha.elim

/-! ### How much a reader takes for an option -/

/-- The bytes of an option, and none for those that a header is not given. -/
def weight : TcpOption → Nat
  | .END => 0
  | .UNKNOWN _ _ _ => 0
  | .SACK m_sackList => 2 + 8 * m_sackList.length
  | op => op.getSerializedSize

theorem weight_eq {op : TcpOption} (ha : op.Appendable) : op.weight = op.bytes.length := by
  cases op with
  | SACK m_sackList =>
    simp only [weight, bytes, body, List.length_cons, length_blockBytes]
    omega
  | END => exact ha.elim
  | UNKNOWN m_kind m_size m_content => exact ha.elim
  | _ => rfl

/-- A SACK option has fewer than 32 blocks. -/
def FewBlocks (op : TcpOption) : Prop := ∀ m_sackList, op = .SACK m_sackList → m_sackList.length < 32

theorem FewBlocks.weight_le {op : TcpOption} (hfew : op.FewBlocks) :
    op.weight ≤ op.getSerializedSize := by
  cases op with
  | SACK m_sackList =>
    have hlt := hfew m_sackList rfl
    rw [weight, getSerializedSize]
    omega
  | END => exact Nat.zero_le _
  | UNKNOWN m_kind m_size m_content => exact Nat.zero_le _
  | _ => exact Nat.le_refl _

theorem readBlocks_length (n : Nat) : Ensures (readBlocks n) fun blocks => blocks.length = n := by
  induction n with
  | zero => exact Ensures.ret rfl
  | succ n ih =>
    refine Ensures.bind_any fun _ => Ensures.bind_any fun _ => ih.bind fun blocks hlen => ?_
    exact Ensures.ret (congrArg (· + 1) hlen)

theorem readSized_few {op : TcpOption} {length : UInt8} {value : Wire TcpOption} (hop : op.FewBlocks)
    (hvalue : Ensures value FewBlocks) : Ensures (readSized op length value) fun r => r.2.FewBlocks := by
  refine Ensures.bind_any fun _ => Ensures.ite (Ensures.ret hop) ?_
  refine Ensures.bind_any fun _ => Ensures.ite (Ensures.ret hop) ?_
  exact hvalue.bind fun _ hfew => Ensures.ret hfew

/-- The reader counts the blocks by a byte. -/
theorem deserialize_few {op : TcpOption} (hop : op.FewBlocks) :
    Ensures op.deserialize fun r => r.2.FewBlocks := by
  cases op with
  | END => exact Ensures.bind_any fun _ => Ensures.ite (Ensures.ret hop) (Ensures.ret hop)
  | NOP => exact Ensures.bind_any fun _ => Ensures.ite (Ensures.ret hop) (Ensures.ret hop)
  | MSS m_mss =>
    refine Ensures.bind_any fun _ => Ensures.ite (Ensures.ret hop) ?_
    refine Ensures.bind_any fun _ => Ensures.ite Ensures.fail ?_
    exact Ensures.bind_any fun _ => Ensures.ret nofun
  | WINSCALE m_scale => exact readSized_few hop (Ensures.bind_any fun _ => Ensures.ret nofun)
  | SACKPERMITTED => exact readSized_few hop (Ensures.ret nofun)
  | SACK m_sackList =>
    refine Ensures.bind_any fun _ => Ensures.ite (Ensures.ret hop) ?_
    refine Ensures.bind_any fun size => (readBlocks_length _).bind fun blocks hlen => ?_
    refine Ensures.ret fun m_sackList heq => ?_
    have hsize := size.toNat_lt
    obtain rfl := TcpOption.SACK.inj heq
    omega
  | TS m_timestamp m_echo =>
    exact readSized_few hop (Ensures.bind_any fun _ => Ensures.bind_any fun _ => Ensures.ret nofun)
  | UNKNOWN m_kind m_size m_content =>
    refine Ensures.bind_any fun _ => Ensures.bind_any fun _ => Ensures.ite (Ensures.ret nofun) ?_
    exact Ensures.bind_any fun _ => Ensures.ret nofun

theorem createOption_few (kind : UInt8) : (createOption kind).FewBlocks := by
  intro m_sackList heq
  rw [createOption] at heq
  split_ifs at heq
  cases heq
  decide

end TcpOption

end Ns3.Internet
