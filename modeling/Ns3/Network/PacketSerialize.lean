import Ns3.Lib.BoundedWrite
import Ns3.Network.ByteTagList
import Ns3.Network.NixVector
import Ns3.Network.PacketTagList

/-!
# Packets written to an output of a given size

`Packet::Serialize` writes five sections, each behind its length, and pads them to multiples of four. It
tests the sizes of the sections against `maxSize`, but neither the lengths nor the padding, which
`GetSerializedSize` counts. Where there is no nix-vector only a length is written, and it is counted.
Words are stored in the order of the host. Source: `src/network/model/packet.cc:585–797`,
`buffer.cc:560–650`, `byte-tag-list.cc:427–547`, `packet-tag-list.cc:303–391`,
`packet-metadata.cc:1133–1286` and `nix-vector.cc:213–275`.
-/

namespace Ns3.Network

open Ns3.Lib

/-- The registry of types: the hash of the name of a type by its number, and the name. -/
structure TypeIds where
  getHash : Nat → Nat
  getName : Nat → List UInt8

/-- `SmallItem` and `ExtraItem` of a header, a trailer or a payload. -/
structure MetadataItem where
  typeUid : Nat
  size : Nat
  chunkUid : Nat
  fragmentStart : Nat
  fragmentEnd : Nat
  packetUid : Nat
  deriving DecidableEq, Repr

/-- `PacketMetadata`: its items from `m_head` to `m_tail`, and the static `m_enable`. -/
structure PacketMetadata where
  m_packetUid : Nat
  m_enable : Bool := false
  items : List MetadataItem := []
  deriving DecidableEq, Repr

/-- What `Serialize` reads of a `Packet`: its Buffer and the blocks that Buffers share, what `BeginAll` goes
over of its byte tags, and its packet tags from the head on. -/
structure SerializedPacket where
  heap : Heap
  m_buffer : Buffer
  m_byteTagList : List TagItem := []
  m_packetTagList : List StoredTag := []
  m_metadata : PacketMetadata
  m_nixVector : Option NixVector := none

/-- `(size + 3) & (~3)`. -/
def align32 (size : Nat) : Nat := add32 size 3 / 4 * 4

/-- A section of the output: what `GetSerializedSize` returns for it, and what its `Serialize` does. -/
structure SerializeSection where
  size : Nat
  steps : List WriteStep

/-! ### Sections -/

/-- `NixVector::Serialize`. -/
def NixVector.serializeSection (nix : NixVector) : SerializeSection where
  size := nix.getSerializedSize
  steps := .tight (.u32 nix.m_used) :: .tight (.u32 nix.m_currentVectorBitSize) ::
    .tight (.u32 nix.m_totalBitSize) :: nix.m_nixVector.map fun x => .tight (.u32 x.toNat)

/-- The number of tags before the tags, and set anew behind each of them. -/
def countedTags (tags : List (List WriteStep)) : List WriteStep :=
  .tight (.u32 0) :: tags.zipIdx.flatMap fun (tag, i) => tag ++ [.atStart (add32 i 1)]

/-- `ByteTagList::GetSerializedSize`. -/
def byteTagListSize (tags : List TagItem) : Nat :=
  tags.foldl (fun size item => add32 (add32 (add32 size 4) (3 * 4)) (align32 item.tag.data.length)) 4

/-- `ByteTagList::Serialize`. -/
def byteTagSection (types : TypeIds) (tags : List TagItem) : SerializeSection where
  size := byteTagListSize tags
  steps := countedTags (tags.map fun item =>
    [.tight (.u32 (types.getHash item.tag.tid)), .tight (.u32 item.tag.data.length),
      .tight (.u32 (item.start % 2 ^ 32).toNat), .tight (.u32 (item.stop % 2 ^ 32).toNat),
      .padded (.raw item.tag.data)])

/-- `PacketTagList::GetSerializedSize`. -/
def packetTagListSize (tags : List StoredTag) : Nat :=
  tags.foldl (fun size cur => add32 (add32 (add32 size 4) 4) (align32 cur.data.length)) 4

/-- `PacketTagList::Serialize`. -/
def packetTagSection (types : TypeIds) (tags : List StoredTag) : SerializeSection where
  size := packetTagListSize tags
  steps := countedTags (tags.map fun cur =>
    [.tight (.u32 cur.data.length), .tight (.u32 (types.getHash cur.tid)), .padded (.raw cur.data)])

namespace PacketMetadata

/-- The number of the type of an item, 0 for payload. -/
def uid (item : MetadataItem) : Nat := item.typeUid / 2

def getSerializedSize (types : TypeIds) (m : PacketMetadata) : Nat :=
  if !m.m_enable then 8
  else m.items.foldl (fun totalSize item =>
    add32 (add32 totalSize (if uid item = 0 then 4 else 4 + (types.getName (uid item)).length))
      (1 + 4 + 2 + 4 + 4 + 8)) 8

/-- What is written of an item. -/
def itemSteps (types : TypeIds) (item : MetadataItem) : List WriteStep :=
  (if uid item ≠ 0 then
    [.tight (.u32 (types.getName (uid item)).length), .tight (.raw (types.getName (uid item)))]
  else [.tight (.u32 0)]) ++
  [.tight (.u8 (item.typeUid % 2)), .tight (.u32 item.size), .tight (.u16 item.chunkUid),
    .tight (.u32 item.fragmentStart), .tight (.u32 item.fragmentEnd), .tight (.u64 item.packetUid)]

/-- `PacketMetadata::Serialize`; `AddToRaw` tests the place behind the datum. -/
def serializeSection (types : TypeIds) (m : PacketMetadata) : SerializeSection where
  size := m.getSerializedSize types
  steps := .tight (.u64 m.m_packetUid) :: m.items.flatMap (itemSteps types)

end PacketMetadata

namespace Buffer

/-- The bytes before the zero area and behind it, which lie together in the block. -/
def dataStart (h : Heap) (b : Buffer) : List UInt8 :=
  slice (h.blocks b.m_data).m_data b.m_start (sub32 b.m_zeroAreaStart b.m_start)

def dataEnd (h : Heap) (b : Buffer) : List UInt8 :=
  slice (h.blocks b.m_data).m_data b.m_zeroAreaStart (sub32 b.m_end b.m_zeroAreaEnd)

/-- `Buffer::GetSerializedSize`. -/
def getSerializedSize (b : Buffer) : Nat :=
  add32 (add32 (4 + 4) (align32 (sub32 b.m_zeroAreaStart b.m_start)))
    (add32 4 (align32 (sub32 b.m_end b.m_zeroAreaEnd)))

/-- `Buffer::Serialize`. -/
def serializeSection (h : Heap) (b : Buffer) : SerializeSection where
  size := b.getSerializedSize
  steps :=
    [.tight (.u32 (sub32 b.m_zeroAreaEnd b.m_zeroAreaStart)), .tight (.u32 (sub32 b.m_zeroAreaStart b.m_start)),
      .padded (.raw (b.dataStart h)), .tight (.u32 (sub32 b.m_end b.m_zeroAreaEnd)), .padded (.raw (b.dataEnd h))]

end Buffer

/-! ### Packets -/

/-- The sections from a place on, with so much counted already: what is returned, and what is written. -/
def putSections (maxSize : Nat) : Nat → Nat → List SerializeSection → Nat × List Written
  | _, _, [] => (1, [])
  | size, place, s :: rest =>
    if add32 size s.size ≤ maxSize then
      -- the length counts itself, and is not counted
      let length : Written := ⟨place, .u32 (add32 s.size 4)⟩
      let serialized := putAll s.size (place + 4) (place + 4) 0 s.steps
      if serialized.1 then
        let r := putSections maxSize (add32 size s.size) (place + 4 + align32 s.size) rest
        (r.1, length :: serialized.2 ++ r.2)
      else (0, length :: serialized.2)
    else (0, [])

namespace SerializedPacket

variable (types : TypeIds) (p : SerializedPacket)

/-- The sections behind that of the nix-vector. -/
def sections : List SerializeSection :=
  [byteTagSection types p.m_byteTagList, packetTagSection types p.m_packetTagList,
    p.m_metadata.serializeSection types, p.m_buffer.serializeSection p.heap]

/-- `GetSerializedSize`, `packet.cc:585–635`. -/
def getSerializedSize : Nat :=
  let size := match p.m_nixVector with
    | some nix => add32 (add32 0 (align32 nix.getSerializedSize)) 4
    | none => add32 0 4
  let size := add32 (add32 size (align32 (packetTagListSize p.m_packetTagList))) 4
  let size := add32 (add32 size (align32 (byteTagListSize p.m_byteTagList))) 4
  let size := add32 (add32 size (align32 (p.m_metadata.getSerializedSize types))) 4
  add32 (add32 size (align32 p.m_buffer.getSerializedSize)) 4

/-- `Serialize`, `packet.cc:637–797`: what it returns, and what it writes. -/
def serialize (maxSize : Nat) : Nat × List Written :=
  match p.m_nixVector with
  | some nix => putSections maxSize 0 0 (nix.serializeSection :: p.sections types)
  | none =>
    if 4 ≤ maxSize then
      let r := putSections maxSize 4 4 (p.sections types)
      (r.1, ⟨0, .u32 4⟩ :: r.2)
    else (0, [])

/-- Nothing is written behind the first `maxSize` bytes, and 1 is returned if they hold the packet, else 0. -/
def Respects (maxSize : UInt32) : Prop :=
  (∀ w ∈ (p.serialize types maxSize.toNat).2, w.stop ≤ maxSize.toNat) ∧
    ((p.serialize types maxSize.toNat).1 = 1 ↔ p.getSerializedSize types ≤ maxSize.toNat) ∧
    ((p.serialize types maxSize.toNat).1 = 0 ↔ ¬p.getSerializedSize types ≤ maxSize.toNat)

end SerializedPacket

/-! ### Sizes -/

theorem align32_eq (n : Nat) : align32 n = pad4 n % 2 ^ 32 := by
  unfold align32 add32 pad4
  omega

theorem add32_mod_left (a b : Nat) : add32 (a % 2 ^ 32) b = (a + b) % 2 ^ 32 := by
  unfold add32
  omega

/-- A count that wraps as it grows. -/
theorem foldl_count {α : Type*} (f : Nat → α → Nat) (room : α → Nat)
    (hf : ∀ n a, f (n % 2 ^ 32) a = (n + room a) % 2 ^ 32) (l : List α) {n : Nat} (hn : n < 2 ^ 32) :
    l.foldl f n = (n + (l.map room).sum) % 2 ^ 32 := by
  have hmod : ∀ n, l.foldl f (n % 2 ^ 32) = (n + (l.map room).sum) % 2 ^ 32 := by
    induction l with
    | nil => simp
    | cons a l ih =>
      intro n
      rw [List.foldl_cons, hf, ih, List.map_cons, List.sum_cons, Nat.add_assoc]
  rw [← hmod, Nat.mod_eq_of_lt hn]

theorem totalRoom_flatMap {α : Type*} (f : α → List WriteStep) (l : List α) :
    totalRoom (l.flatMap f) = (l.map fun a => totalRoom (f a)).sum := by
  induction l with
  | nil => rfl
  | cons a l ih => rw [List.flatMap_cons, totalRoom_append, ih, List.map_cons, List.sum_cons]

theorem totalRoom_countedTags (tags : List (List WriteStep)) :
    totalRoom (countedTags tags) = 4 + (tags.map totalRoom).sum := by
  rw [countedTags, totalRoom_cons, totalRoom_flatMap]
  have hroom : ∀ x : List WriteStep × Nat, totalRoom (x.1 ++ [.atStart (add32 x.2 1)]) = totalRoom x.1 := by
    intro x
    rw [totalRoom_append, totalRoom_cons, totalRoom_nil]
    rfl
  simp only [hroom]
  have hmap : (tags.zipIdx.map fun x => totalRoom x.1) = tags.map totalRoom := by
    show tags.zipIdx.map (totalRoom ∘ Prod.fst) = _
    rw [← List.map_map, List.zipIdx_map_fst]
  rw [hmap]
  rfl

theorem byteTagListSize_eq (types : TypeIds) (tags : List TagItem) :
    byteTagListSize tags = totalRoom (byteTagSection types tags).steps % 2 ^ 32 := by
  rw [byteTagListSize, foldl_count _ (fun item : TagItem => 16 + pad4 item.tag.data.length) ?_ tags (by decide)]
  · rw [byteTagSection, totalRoom_countedTags, List.map_map]
    congr 3
    apply List.map_congr_left
    intro item _
    show _ = 4 + (4 + (4 + (4 + (pad4 item.tag.data.length + 0))))
    omega
  · intro n item
    rw [add32_mod_left, add32_mod_left, align32_eq, add32_mod_left, Nat.add_mod_mod]
    congr 1
    omega

theorem packetTagListSize_eq (types : TypeIds) (tags : List StoredTag) :
    packetTagListSize tags = totalRoom (packetTagSection types tags).steps % 2 ^ 32 := by
  rw [packetTagListSize, foldl_count _ (fun cur : StoredTag => 8 + pad4 cur.data.length) ?_ tags (by decide)]
  · rw [packetTagSection, totalRoom_countedTags, List.map_map]
    congr 3
    apply List.map_congr_left
    intro cur _
    show _ = 4 + (4 + (pad4 cur.data.length + 0))
    omega
  · intro n cur
    rw [add32_mod_left, add32_mod_left, align32_eq, add32_mod_left, Nat.add_mod_mod]
    congr 1
    omega

theorem totalRoom_itemSteps (types : TypeIds) (item : MetadataItem) :
    totalRoom (PacketMetadata.itemSteps types item) =
      (if PacketMetadata.uid item = 0 then 4 else 4 + (types.getName (PacketMetadata.uid item)).length) + 23 := by
  rw [PacketMetadata.itemSteps, totalRoom_append]
  by_cases h : PacketMetadata.uid item = 0
  · rw [if_neg (not_not.mpr h), if_pos h]
    rfl
  · rw [if_pos h, if_neg h]
    rfl

theorem PacketMetadata.totalRoom_steps (types : TypeIds) (m : PacketMetadata) :
    totalRoom (m.serializeSection types).steps =
      8 + (m.items.map fun item => totalRoom (itemSteps types item)).sum := by
  rw [serializeSection, totalRoom_cons, totalRoom_flatMap]
  rfl

theorem PacketMetadata.getSerializedSize_eq (types : TypeIds) (m : PacketMetadata) (h : m.m_enable) :
    m.getSerializedSize types = totalRoom (m.serializeSection types).steps % 2 ^ 32 := by
  rw [getSerializedSize, h, totalRoom_steps]
  show List.foldl _ 8 _ = _
  rw [foldl_count _ (fun item => totalRoom (itemSteps types item)) ?_ m.items (by decide)]
  intro n item
  rw [add32_mod_left, add32_mod_left, totalRoom_itemSteps]
  congr 1

theorem NixVector.totalRoom_steps (nix : NixVector) :
    totalRoom nix.serializeSection.steps = 12 + 4 * nix.m_nixVector.length := by
  have hwords : ∀ words : List (BitVec 32),
      totalRoom (words.map fun x => WriteStep.tight (.u32 x.toNat)) = 4 * words.length := by
    intro words
    induction words with
    | nil => rfl
    | cons x words ih =>
      rw [List.map_cons, totalRoom_cons, ih, List.length_cons]
      show 4 + _ = _
      omega
  rw [serializeSection, totalRoom_cons, totalRoom_cons, totalRoom_cons, hwords]
  show 4 + (4 + (4 + _)) = _
  omega

theorem Buffer.getSerializedSize_eq (h : Heap) (b : Buffer) :
    b.getSerializedSize = totalRoom (b.serializeSection h).steps % 2 ^ 32 := by
  have htotal : totalRoom (b.serializeSection h).steps =
      12 + pad4 (sub32 b.m_zeroAreaStart b.m_start) + pad4 (sub32 b.m_end b.m_zeroAreaEnd) := by
    show 4 + (4 + (pad4 (slice _ _ _).length + (4 + (pad4 (slice _ _ _).length + 0)))) = _
    rw [length_slice, length_slice]
    omega
  rw [getSerializedSize, htotal, align32_eq, align32_eq]
  unfold add32
  omega

/-! ### What a section writes -/

namespace SerializeSection

/-- A section counts no more than what its steps take, and begins with a word. -/
structure Sound (s : SerializeSection) : Prop where
  size_le : s.size ≤ totalRoom s.steps
  head : ∃ d room rest, s.steps = .put d room :: rest ∧ 4 ≤ room
  tidy : ∀ step ∈ s.steps, step.Tidy

/-- All that a section does fits in its size. -/
def Whole (s : SerializeSection) : Prop := totalRoom s.steps ≤ s.size

instance (s : SerializeSection) : Decidable s.Whole := inferInstanceAs (Decidable (_ ≤ _))

/-- What a section writes at a place, with its length. -/
def written (s : SerializeSection) (place : Nat) : List Written :=
  ⟨place, .u32 (add32 s.size 4)⟩ :: writtenBy (place + 4) (place + 4) (fitting s.size s.steps)

/-- The place behind what a section writes. -/
def stop (s : SerializeSection) (place : Nat) : Nat := lastStop (s.written place)

end SerializeSection

theorem tidy_countedTags {tags : List (List WriteStep)} (h : ∀ tag ∈ tags, ∀ step ∈ tag, step.Tidy) :
    ∀ step ∈ countedTags tags, step.Tidy := by
  refine List.forall_mem_cons.mpr ⟨WriteStep.tidy_tight _, fun step hstep => ?_⟩
  obtain ⟨⟨tag, i⟩, htag, hstep⟩ := List.mem_flatMap.mp hstep
  rcases List.mem_append.mp hstep with hstep | hstep
  · exact h tag (List.fst_mem_of_mem_zipIdx htag) step hstep
  · rw [List.mem_singleton.mp hstep]
    trivial

theorem NixVector.sound (nix : NixVector) : nix.serializeSection.Sound where
  size_le := by
    rw [totalRoom_steps]
    exact Nat.le_trans (Nat.mod_le _ _) (by omega)
  head := ⟨_, _, _, rfl, Nat.le_refl _⟩
  tidy := by
    simp only [serializeSection, List.forall_mem_cons, List.forall_mem_map]
    exact ⟨WriteStep.tidy_tight _, WriteStep.tidy_tight _, WriteStep.tidy_tight _, fun _ _ => WriteStep.tidy_tight _⟩

theorem byteTagSection_sound (types : TypeIds) (tags : List TagItem) : (byteTagSection types tags).Sound where
  size_le := (byteTagListSize_eq types tags).trans_le (Nat.mod_le _ _)
  head := ⟨_, _, _, rfl, Nat.le_refl _⟩
  tidy := by
    refine tidy_countedTags (List.forall_mem_map.mpr fun item _ => ?_)
    simp only [List.forall_mem_cons]
    exact ⟨WriteStep.tidy_tight _, WriteStep.tidy_tight _, WriteStep.tidy_tight _, WriteStep.tidy_tight _,
      WriteStep.tidy_padded _, List.forall_mem_nil _⟩

theorem packetTagSection_sound (types : TypeIds) (tags : List StoredTag) : (packetTagSection types tags).Sound where
  size_le := (packetTagListSize_eq types tags).trans_le (Nat.mod_le _ _)
  head := ⟨_, _, _, rfl, Nat.le_refl _⟩
  tidy := by
    refine tidy_countedTags (List.forall_mem_map.mpr fun cur _ => ?_)
    simp only [List.forall_mem_cons]
    exact ⟨WriteStep.tidy_tight _, WriteStep.tidy_tight _, WriteStep.tidy_padded _, List.forall_mem_nil _⟩

theorem PacketMetadata.sound (types : TypeIds) (m : PacketMetadata) : (m.serializeSection types).Sound where
  size_le := by
    by_cases h : m.m_enable
    · exact (m.getSerializedSize_eq types h).trans_le (Nat.mod_le _ _)
    · have hsize : m.getSerializedSize types = 8 := by
        rw [getSerializedSize, Bool.not_eq_true _ |>.mp h]
        rfl
      rw [totalRoom_steps]
      exact hsize.trans_le (Nat.le_add_right _ _)
  head := ⟨.u64 m.m_packetUid, 8, _, rfl, by decide⟩
  tidy := by
    refine List.forall_mem_cons.mpr ⟨WriteStep.tidy_tight _, fun step hstep => ?_⟩
    obtain ⟨item, -, hstep⟩ := List.mem_flatMap.mp hstep
    have hitem : ∀ step ∈ itemSteps types item, step.Tidy := by
      rw [itemSteps, List.forall_mem_append]
      refine ⟨?_, by simp [WriteStep.tidy_tight]⟩
      split <;> simp [WriteStep.tidy_tight]
    exact hitem step hstep

theorem Buffer.sound (h : Heap) (b : Buffer) : (b.serializeSection h).Sound where
  size_le := (b.getSerializedSize_eq h).trans_le (Nat.mod_le _ _)
  head := ⟨_, _, _, rfl, Nat.le_refl _⟩
  tidy := by simp [serializeSection, WriteStep.tidy_tight, WriteStep.tidy_padded]

theorem SerializedPacket.sections_sound (types : TypeIds) (p : SerializedPacket) :
    ∀ s ∈ p.sections types, s.Sound := by
  simp only [sections, List.forall_mem_cons]
  exact ⟨byteTagSection_sound types _, packetTagSection_sound types _, p.m_metadata.sound types,
    p.m_buffer.sound p.heap, List.forall_mem_nil _⟩

/-! ### Sections one behind the other -/

/-- The bytes of the sections with their lengths and padding, from their steps and from their sizes. -/
def lengthOf (sections : List SerializeSection) : Nat :=
  (sections.map fun s => 4 + pad4 (totalRoom s.steps)).sum

def sizeOf (sections : List SerializeSection) : Nat := (sections.map fun s => 4 + pad4 s.size).sum

/-- The first section whose size does not fit behind the sizes before it, without lengths and padding, finds
nothing written too far; and if there is none the whole fits. `counted` are the sizes before, and `written`
is where what was written ends. -/
def SparedFrom (total maxSize : Nat) : Nat → Nat → Nat → List SerializeSection → Prop
  | _, _, _, [] => total ≤ maxSize
  | counted, place, written, s :: rest =>
    if counted + s.size ≤ maxSize then
      if s.Whole then
        SparedFrom total maxSize (counted + s.size) (place + 4 + pad4 s.size) (max written (s.stop place)) rest
      else max written (s.stop place) ≤ maxSize ∧ maxSize < total
    else written ≤ maxSize

/-- What is returned says whether the total fits, and nothing is written too far. -/
def RespectsFrom (total maxSize written : Nat) (r : Nat × List Written) : Prop :=
  (written ≤ maxSize ∧ ∀ w ∈ r.2, w.stop ≤ maxSize) ∧ (r.1 = 1 ↔ total ≤ maxSize) ∧
    (r.1 = 0 ↔ ¬total ≤ maxSize)

section Sections

variable {s : SerializeSection} {place counted written maxSize total : Nat} {ss : List SerializeSection}

/-- A section stays within its size when all of it fits. -/
theorem SerializeSection.Sound.stop_le (h : s.Sound) (hwhole : s.Whole) (place : Nat) :
    s.stop place ≤ place + 4 + s.size := by
  obtain ⟨d, room, rest, hsteps, hroom⟩ := h.head
  have hsize := Nat.le_antisymm h.size_le hwhole
  have htidy := h.tidy
  rw [hsteps, List.forall_mem_cons] at htidy
  have hd : d.length ≤ room := htidy.1
  have htotal : s.size = room + totalRoom rest := by rw [hsize, hsteps, totalRoom_cons]; rfl
  have hrest := stop_le_of_mem (place + 4) (place + 4 + room) htidy.2 (by omega)
  rw [stop, written, fitting_eq hwhole, hsteps]
  refine lastStop_le.mpr (List.forall_mem_cons.mpr ⟨?_, List.forall_mem_cons.mpr ⟨?_, fun w hw => ?_⟩⟩)
  · exact Nat.le_add_right (place + 4) s.size
  · show place + 4 + d.length ≤ _
    omega
  · have hle := hrest w hw
    omega

theorem respectsFrom_append (ws : List Written) (r : Nat × List Written) :
    RespectsFrom total maxSize written (r.1, ws ++ r.2) ↔
      RespectsFrom total maxSize (max written (lastStop ws)) r := by
  unfold RespectsFrom
  rw [List.forall_mem_append, Nat.max_le, lastStop_le]
  exact and_congr and_assoc.symm Iff.rfl

theorem respectsFrom_zero (ws : List Written) :
    RespectsFrom total maxSize written (0, ws) ↔ max written (lastStop ws) ≤ maxSize ∧ maxSize < total := by
  unfold RespectsFrom
  rw [Nat.max_le, lastStop_le]
  refine and_congr Iff.rfl ⟨fun h => Nat.lt_of_not_le (h.2.mp rfl), fun h => ?_⟩
  exact ⟨iff_of_false Nat.zero_ne_one (Nat.not_le.mpr h), iff_of_true rfl (Nat.not_le.mpr h)⟩

/-- The sections keep to the output exactly when they are spared. -/
theorem putSections_respects (hsound : ∀ s ∈ ss, s.Sound) (hcounted : counted ≤ maxSize)
    (hplace : counted ≤ place) (hlength : place + lengthOf ss < 2 ^ 32) (htotal : total = place + sizeOf ss)
    (hwritten : written ≤ place) :
    RespectsFrom total maxSize written (putSections maxSize counted place ss) ↔
      SparedFrom total maxSize counted place written ss := by
  induction ss generalizing counted place written with
  | nil =>
    rw [sizeOf, List.map_nil, List.sum_nil, Nat.add_zero] at htotal
    rw [putSections, SparedFrom]
    constructor
    · exact fun h => h.2.1.mp rfl
    · intro h
      exact ⟨⟨by omega, List.forall_mem_nil _⟩, iff_of_true rfl h, iff_of_false (by decide) (not_not.mpr h)⟩
  | cons s rest ih =>
    obtain ⟨hs, hrest⟩ := List.forall_mem_cons.mp hsound
    have hsize := hs.size_le
    have hpad := le_pad4 (totalRoom s.steps)
    have hpad' := le_pad4 s.size
    have hmono : pad4 s.size ≤ pad4 (totalRoom s.steps) := by
      unfold pad4
      omega
    have hlen : lengthOf (s :: rest) = 4 + pad4 (totalRoom s.steps) + lengthOf rest := rfl
    have hsz : sizeOf (s :: rest) = 4 + pad4 s.size + sizeOf rest := rfl
    rw [hlen] at hlength
    rw [hsz] at htotal
    have hsum : add32 counted s.size = counted + s.size := Nat.mod_eq_of_lt (by omega)
    have halign : align32 s.size = pad4 s.size := by
      rw [align32_eq, Nat.mod_eq_of_lt (by omega)]
    have hput := putAll_eq s.steps (Nat.zero_le s.size) (by omega) (place + 4) (place + 4)
    rw [Nat.zero_add, Nat.sub_zero] at hput
    rw [putSections, SparedFrom, hsum, halign, hput]
    dsimp only
    by_cases hfit : counted + s.size ≤ maxSize
    · rw [if_pos hfit, if_pos hfit]
      by_cases hwhole : totalRoom s.steps ≤ s.size
      · have hstop := hs.stop_le hwhole place
        rw [if_pos (decide_eq_true hwhole), if_pos (show s.Whole from hwhole),
          ← ih hrest hfit (by omega) (by omega) (by omega) (by omega)]
        exact respectsFrom_append (s.written place) _
      · rw [if_neg (by simpa using hwhole), if_neg (show ¬s.Whole from hwhole)]
        exact respectsFrom_zero (s.written place)
    · rw [if_neg hfit, if_neg hfit, respectsFrom_zero]
      refine ⟨fun h => Nat.le_trans (Nat.le_max_left _ _) h.1, fun h => ⟨?_, by omega⟩⟩
      exact Nat.max_le.mpr ⟨h, Nat.zero_le _⟩

end Sections

namespace SerializedPacket

variable (types : TypeIds) (p : SerializedPacket)

/-- The bytes of a serialized packet. -/
def length : Nat :=
  match p.m_nixVector with
  | some nix => lengthOf (nix.serializeSection :: p.sections types)
  | none => 4 + lengthOf (p.sections types)

/-- The output is large enough, or so small that the sections which pass their tests fit. -/
def Spared (maxSize : UInt32) : Prop :=
  match p.m_nixVector with
  | some nix =>
    SparedFrom (p.getSerializedSize types) maxSize.toNat 0 0 0 (nix.serializeSection :: p.sections types)
  | none => 4 ≤ maxSize.toNat → SparedFrom (p.getSerializedSize types) maxSize.toNat 4 4 4 (p.sections types)

variable {types p}

theorem sizeOf_le {ss : List SerializeSection} (h : ∀ s ∈ ss, s.Sound) : sizeOf ss ≤ lengthOf ss := by
  induction ss with
  | nil => exact Nat.le_refl 0
  | cons s ss ih =>
    obtain ⟨hs, hss⟩ := List.forall_mem_cons.mp h
    have hmono : pad4 s.size ≤ pad4 (totalRoom s.steps) := by
      have hle := hs.size_le
      unfold pad4
      omega
    exact Nat.add_le_add (Nat.add_le_add_left hmono 4) (ih hss)

/-- The size of a packet whose bytes can be counted. -/
theorem getSerializedSize_eq (hlength : p.length types < 2 ^ 32) :
    p.getSerializedSize types =
      match p.m_nixVector with
      | some nix => sizeOf (nix.serializeSection :: p.sections types)
      | none => 4 + sizeOf (p.sections types) := by
  have hsound := p.sections_sound types
  have hsections : sizeOf (p.sections types) =
      4 + pad4 (byteTagListSize p.m_byteTagList) + (4 + pad4 (packetTagListSize p.m_packetTagList) +
        (4 + pad4 (p.m_metadata.getSerializedSize types) + (4 + pad4 p.m_buffer.getSerializedSize + 0))) := rfl
  have hle := sizeOf_le hsound
  unfold length at hlength
  unfold getSerializedSize
  cases hnix : p.m_nixVector with
  | none =>
    rw [hnix] at hlength
    simp only [align32_eq, add32, Nat.mod_add_mod, Nat.add_mod_mod]
    dsimp only at hlength
    rw [Nat.mod_eq_of_lt (by omega)]
    omega
  | some nix =>
    rw [hnix] at hlength
    have hle := sizeOf_le (List.forall_mem_cons.mpr ⟨nix.sound, hsound⟩)
    have hcons : sizeOf (nix.serializeSection :: p.sections types) =
        4 + pad4 nix.getSerializedSize + sizeOf (p.sections types) := rfl
    simp only [align32_eq, add32, Nat.mod_add_mod, Nat.add_mod_mod]
    dsimp only at hlength
    rw [Nat.mod_eq_of_lt (by omega)]
    omega

end SerializedPacket

/-- `Serialize` keeps to its output exactly when it is large enough or so small that the sections which pass
their tests fit. -/
theorem serialize_respects (types : TypeIds) (p : SerializedPacket) (hlength : p.length types < 2 ^ 32)
    (maxSize : UInt32) : p.Respects types maxSize ↔ p.Spared types maxSize := by
  have hsound := p.sections_sound types
  have htotal := SerializedPacket.getSerializedSize_eq hlength
  unfold SerializedPacket.length at hlength
  unfold SerializedPacket.Respects SerializedPacket.serialize SerializedPacket.Spared
  cases hnix : p.m_nixVector with
  | some nix =>
    rw [hnix] at hlength htotal
    have h := putSections_respects (List.forall_mem_cons.mpr ⟨nix.sound, hsound⟩) (Nat.zero_le maxSize.toNat)
      (Nat.le_refl 0) (by rwa [Nat.zero_add]) (htotal.trans (Nat.zero_add _).symm) (Nat.le_refl 0)
    dsimp only
    rw [← h, RespectsFrom, and_iff_right (Nat.zero_le maxSize.toNat)]
  | none =>
    rw [hnix] at hlength htotal
    dsimp only
    by_cases hfirst : 4 ≤ maxSize.toNat
    · rw [if_pos hfirst, forall_prop_of_true hfirst,
        ← putSections_respects hsound hfirst (Nat.le_refl 4) hlength htotal (Nat.le_refl 4)]
      unfold RespectsFrom
      rw [List.forall_mem_cons]
      rfl
    · rw [if_neg hfirst, forall_prop_of_false hfirst]
      have hbig : ¬p.getSerializedSize types ≤ maxSize.toNat := by
        dsimp only at htotal
        omega
      exact iff_of_true ⟨List.forall_mem_nil _, iff_of_false Nat.zero_ne_one hbig, iff_of_true rfl hbig⟩ trivial

/-- A packet of one byte, with no tags and no metadata. -/
def oneBytePacket : SerializedPacket where
  heap := ⟨fun _ => ⟨1, 1, 0, 1, fun _ => 7⟩, 1, [], 0, 0⟩
  m_buffer := ⟨0, 1, 1, 1, 0, 1⟩
  m_metadata := { m_packetUid := 0 }

def noTypes : TypeIds := ⟨fun _ => 0, fun _ => []⟩

theorem serialize_respects_oneByte : oneBytePacket.Respects noTypes 52 ↔ oneBytePacket.Spared noTypes 52 :=
  serialize_respects noTypes oneBytePacket (by decide +kernel) 52

/-- An output of 36 bytes for a packet of 52: it returns 1, and has written up to byte 52. -/
theorem not_serialize_respects_short :
    oneBytePacket.getSerializedSize noTypes = 52 ∧ (oneBytePacket.serialize noTypes 36).1 = 1 ∧
      lastStop (oneBytePacket.serialize noTypes 36).2 = 52 ∧ ¬oneBytePacket.Respects noTypes 36 := by
  have hsize : oneBytePacket.getSerializedSize noTypes = 52 := by decide +kernel
  have hreturned : (oneBytePacket.serialize noTypes 36).1 = 1 := by decide +kernel
  refine ⟨hsize, hreturned, by decide +kernel, fun h => ?_⟩
  have hle := h.2.1.mp hreturned
  rw [hsize] at hle
  exact absurd hle (by decide)

end Ns3.Network
