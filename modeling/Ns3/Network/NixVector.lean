import Ns3.Lib.Bits
import Ns3.Network.Buffer

/-!
# Nix-vectors

The indices of the neighbours on a route, packed into 32-bit words with as many bits as each needs, and
taken out from the last one to the first. Source: `src/network/model/nix-vector.cc`.
-/

namespace Ns3.Network

/-- What ends a call: a fatal error, a shift of a `uint32_t` by 32 or more, which is undefined, an access
outside of the vector or the buffer, or a failed assertion. -/
inductive NixError where
  | fatal
  | shift
  | outOfRange
  | assert
  deriving DecidableEq, Repr

/-- `NixVector`. -/
structure NixVector where
  m_nixVector : List (BitVec 32) := [0]
  m_used : Nat := 0
  m_currentVectorBitSize : Nat := 0
  m_totalBitSize : Nat := 0
  deriving DecidableEq, Repr

namespace NixVector

/-- `x << k`. -/
def shl (x : BitVec 32) (k : Nat) : Except NixError (BitVec 32) :=
  if k < 32 then .ok (x <<< k) else .error .shift

/-- `x >> k`. -/
def shr (x : BitVec 32) (k : Nat) : Except NixError (BitVec 32) :=
  if k < 32 then .ok (x >>> k) else .error .shift

/-- `m_nixVector.at`. -/
def wordAt (nix : NixVector) (i : Nat) : Except NixError (BitVec 32) :=
  match nix.m_nixVector[i]? with
  | none => .error .outOfRange
  | some x => .ok x

/-- `m_nixVector.back`. -/
def back (nix : NixVector) : Except NixError (BitVec 32) :=
  match nix.m_nixVector.getLast? with
  | none => .error .outOfRange
  | some x => .ok x

/-- `AddNeighborIndex`, `nix-vector.cc:87–161`. -/
def addNeighborIndex (nix : NixVector) (newBits : BitVec 32) (numberOfBits : Nat) :
    Except NixError NixVector :=
  if 32 < numberOfBits then .error .fatal
  else if 32 < add32 nix.m_currentVectorBitSize numberOfBits then
    if nix.m_currentVectorBitSize = 32 then
      .ok { nix with
        m_nixVector := nix.m_nixVector ++ [newBits]
        m_currentVectorBitSize := numberOfBits
        m_totalBitSize := add32 nix.m_totalBitSize numberOfBits }
    else do
      let tempBits ← shl newBits nix.m_currentVectorBitSize
      let back ← nix.back
      let rest ← shr newBits (sub32 32 nix.m_currentVectorBitSize)
      .ok { nix with
        m_nixVector := nix.m_nixVector.dropLast ++ [tempBits ||| back, rest]
        m_currentVectorBitSize := sub32 numberOfBits (sub32 32 nix.m_currentVectorBitSize)
        m_totalBitSize := add32 nix.m_totalBitSize numberOfBits }
  else do
    let newBits ← shl newBits nix.m_currentVectorBitSize
    let back ← nix.back
    .ok { nix with
      m_nixVector := nix.m_nixVector.dropLast ++ [newBits ||| back]
      m_currentVectorBitSize := add32 nix.m_currentVectorBitSize numberOfBits
      m_totalBitSize := add32 nix.m_totalBitSize numberOfBits }

/-- `GetRemainingBits`. -/
def getRemainingBits (nix : NixVector) : Nat := sub32 nix.m_totalBitSize nix.m_used

/-- `ExtractNeighborIndex`, `nix-vector.cc:163–211`. -/
def extractNeighborIndex (nix : NixVector) (numberOfBits : Nat) :
    Except NixError (BitVec 32 × NixVector) :=
  if 32 < numberOfBits then .error .fatal
  else
    let totalRemainingBits := nix.getRemainingBits
    if totalRemainingBits < numberOfBits then .error .fatal
    else if numberOfBits ≤ 0 then .error .fatal
    else
      let vectorIndex := (totalRemainingBits - 1) / 32
      let used := { nix with m_used := add32 nix.m_used numberOfBits }
      if 0 < vectorIndex ∧ (totalRemainingBits - 1) % 32 < numberOfBits - 1 then do
        let word ← nix.wordAt vectorIndex
        let extractedBits ← shl word (32 - totalRemainingBits % 32)
        let extractedBits ← shr extractedBits (sub32 (32 - totalRemainingBits % 32)
          (sub32 numberOfBits (totalRemainingBits % 32)))
        let word ← nix.wordAt (vectorIndex - 1)
        let low ← shr word (sub32 32 (sub32 numberOfBits (totalRemainingBits % 32)))
        .ok (extractedBits ||| low, used)
      else do
        let word ← nix.wordAt vectorIndex
        let extractedBits ← shl word (32 - totalRemainingBits % 32)
        let extractedBits ← shr extractedBits (32 - numberOfBits)
        .ok (extractedBits, used)

/-- The loop of `BitCount`; a `uint32_t` has 32 bits. -/
def countBits : Nat → Nat → Nat
  | 0, _ => 0
  | fuel + 1, n => if n ≠ 0 then countBits fuel (n >>> 1) + 1 else 0

/-- `BitCount`. -/
def bitCount (numberOfNeighbors : Nat) : Nat :=
  if numberOfNeighbors < 2 then 1 else countBits 32 (numberOfNeighbors - 1)

/-! ### Serialization -/

/-- `GetSerializedSize`. -/
def getSerializedSize (nix : NixVector) : Nat := (4 + 4 + 4 + 4 * nix.m_nixVector.length) % 2 ^ 32

/-- Words are written as long as there is room; `size` bytes are written already. -/
def writeWords (maxSize : Nat) : Nat → List (BitVec 32) → Option (List (BitVec 32))
  | _, [] => some []
  | size, x :: xs =>
    if add32 size 4 ≤ maxSize then (writeWords maxSize (add32 size 4) xs).map (x :: ·) else none

/-- `Serialize`, none where it returns 0. -/
def serialize (nix : NixVector) (maxSize : Nat) : Option (List (BitVec 32)) :=
  writeWords maxSize 0 (BitVec.ofNat 32 nix.m_used :: BitVec.ofNat 32 nix.m_currentVectorBitSize ::
    BitVec.ofNat 32 nix.m_totalBitSize :: nix.m_nixVector)

/-- The loop of `Deserialize`. -/
def readWords : List (BitVec 32) → Nat → Except NixError (List (BitVec 32))
  | _, 0 => .ok []
  | [], _ + 1 => .error .outOfRange
  | x :: xs, sizeCheck =>
    if sizeCheck < 4 then .error .assert else (readWords xs (sizeCheck - 4)).map (x :: ·)

/-- `Deserialize`, `nix-vector.cc:276–316`. -/
def deserialize (buffer : List (BitVec 32)) (size : Nat) : Except NixError NixVector :=
  let sizeCheck := sub32 size 4
  if sizeCheck < 12 then .error .assert
  else match buffer with
    | used :: current :: total :: rest =>
      (readWords rest (sizeCheck - 12)).map fun words => ⟨words, used.toNat, current.toNat, total.toNat⟩
    | _ => .error .outOfRange

/-- A nix-vector is serialized, into a buffer with `room` bytes more than it needs, and deserialized. -/
def send (nix : NixVector) (room : Nat) : Except NixError NixVector :=
  match nix.serialize (nix.getSerializedSize + room) with
  | none => .error .outOfRange
  | some buffer => deserialize buffer (add32 nix.getSerializedSize 4)

/-! ### Routes -/

/-- A node of a route: the number of its neighbours, the index of the next one, and whether the packet
is serialized before the index is taken out, with how much room. -/
structure Hop where
  numberOfNeighbors : Nat
  index : Nat
  sent : Option Nat := none
  deriving DecidableEq, Repr

/-- The indices of a route are put into a nix-vector. -/
def addAll (nix : NixVector) : List Hop → Except NixError NixVector
  | [] => .ok nix
  | hop :: hops => do
    let nix ← nix.addNeighborIndex (BitVec.ofNat 32 hop.index) (bitCount hop.numberOfNeighbors)
    nix.addAll hops

/-- Indices are taken out. -/
def extractAll (nix : NixVector) : List Hop → Except NixError (List (BitVec 32) × NixVector)
  | [] => .ok ([], nix)
  | hop :: hops => do
    let nix ← match hop.sent with
      | none => .ok nix
      | some room => nix.send room
    let (index, nix) ← nix.extractNeighborIndex (bitCount hop.numberOfNeighbors)
    let (indices, nix) ← nix.extractAll hops
    .ok (index :: indices, nix)

/-- The indices of a route are put into a new nix-vector and taken out again. -/
def route (hops : List Hop) : Except NixError (List (BitVec 32) × NixVector) := do
  let nix ← addAll {} hops
  nix.extractAll hops.reverse

end NixVector

end Ns3.Network
