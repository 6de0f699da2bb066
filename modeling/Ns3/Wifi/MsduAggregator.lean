import Ns3.Network.IpChecksum

/-!
# Aggregation of MSDUs

`WifiMacQueueItem::Aggregate` appends MSDUs to a QoS data frame, each with a subframe header, and pads what is before to a
multiple of four bytes. `MsduAggregator::Deaggregate` takes them apart again. Reading behind the end of a packet has no
result.
Source: `src/wifi/model/msdu-aggregator.cc`, `src/wifi/model/amsdu-subframe-header.cc`,
`src/wifi/model/wifi-mac-queue-item.cc`.
-/

namespace Ns3.Wifi

open Ns3.Lib

/-- `Mac48Address`. -/
structure Mac48Address where
  b0 : UInt8
  b1 : UInt8
  b2 : UInt8
  b3 : UInt8
  b4 : UInt8
  b5 : UInt8
deriving DecidableEq, Repr

namespace Mac48Address

/-- `WriteTo`. -/
def writeTo (ad : Mac48Address) : Wire Unit := do
  Wire.writeU8 ad.b0
  Wire.writeU8 ad.b1
  Wire.writeU8 ad.b2
  Wire.writeU8 ad.b3
  Wire.writeU8 ad.b4
  Wire.writeU8 ad.b5

/-- `ReadFrom`. -/
def readFrom : Wire Mac48Address := do
  let b0 ← Wire.readU8
  let b1 ← Wire.readU8
  let b2 ← Wire.readU8
  let b3 ← Wire.readU8
  let b4 ← Wire.readU8
  let b5 ← Wire.readU8
  pure { b0, b1, b2, b3, b4, b5 }

def bytes (ad : Mac48Address) : List UInt8 := [ad.b0, ad.b1, ad.b2, ad.b3, ad.b4, ad.b5]

theorem writeTo_writes (ad : Mac48Address) : Writes ad.writeTo ad.bytes := (writeU8_writes _).u8.u8.u8.u8.u8

theorem readFrom_reads (ad : Mac48Address) : Reads readFrom ad ad.bytes :=
  Reads.u8 (Reads.u8 (Reads.u8 (Reads.u8 (Reads.u8 ((readU8_turns _).of_bind_pure rfl)))))

end Mac48Address

/-- `AmsduSubframeHeader`. -/
structure AmsduSubframeHeader where
  m_da : Mac48Address
  m_sa : Mac48Address
  m_length : UInt16 := 0
deriving DecidableEq, Repr

namespace AmsduSubframeHeader

/-- `GetSerializedSize`. -/
def getSerializedSize : Nat := 6 + 6 + 2

/-- `Serialize`. -/
def serialize (hdr : AmsduSubframeHeader) : Wire Unit := do
  hdr.m_da.writeTo
  hdr.m_sa.writeTo
  Network.writeHtonU16 hdr.m_length

/-- `Deserialize`. -/
def deserialize : Wire AmsduSubframeHeader := do
  let m_da ← Mac48Address.readFrom
  let m_sa ← Mac48Address.readFrom
  let m_length ← Network.readNtohU16
  pure { m_da, m_sa, m_length }

/-- `Packet::AddHeader`. -/
def addTo (hdr : AmsduSubframeHeader) (packet : List UInt8) : Option (List UInt8) :=
  (hdr.serialize ⟨List.replicate getSerializedSize 0 ++ packet, 0⟩).map fun r => r.2.data

/-- `Packet::RemoveHeader`. -/
def removeFrom (packet : List UInt8) : Option (AmsduSubframeHeader × List UInt8) :=
  (deserialize ⟨packet, 0⟩).map fun r => (r.1, r.2.data.drop r.2.pos)

def bytes (hdr : AmsduSubframeHeader) : List UInt8 := hdr.m_da.bytes ++ (hdr.m_sa.bytes ++ Network.be16 hdr.m_length)

theorem bytes_length (hdr : AmsduSubframeHeader) : hdr.bytes.length = 14 := rfl

theorem addTo_eq (hdr : AmsduSubframeHeader) (packet : List UInt8) : hdr.addTo packet = some (hdr.bytes ++ packet) := by
  have hwrites : Writes hdr.serialize hdr.bytes :=
    hdr.m_da.writeTo_writes.bind (hdr.m_sa.writeTo_writes.bind (Network.writeHtonU16_writes _))
  have hwrite := hwrites (List.replicate getSerializedSize 0) rfl [] packet
  rw [List.nil_append, List.length_nil] at hwrite
  rw [addTo, hwrite]
  rfl

theorem removeFrom_eq (hdr : AmsduSubframeHeader) (packet : List UInt8) :
    removeFrom (hdr.bytes ++ packet) = some (hdr, packet) := by
  have hreads : Reads deserialize hdr hdr.bytes :=
    hdr.m_da.readFrom_reads.bind (hdr.m_sa.readFrom_reads.bind ((Network.readNtohU16_reads _).of_bind_pure rfl))
  have hread := hreads [] packet
  rw [List.nil_append, List.length_nil] at hread
  rw [removeFrom, hread, Option.map_some, Nat.zero_add]
  exact congrArg (fun rest => some (hdr, rest)) List.drop_left

end AmsduSubframeHeader

/-- `MsduAggregator::CalculatePadding`. -/
def calculatePadding (amsduSize : UInt16) : Nat := (4 - amsduSize.toNat % 4) % 4

/-- `MsduAggregator::GetSizeIfAggregated`. -/
def getSizeIfAggregated (msduSize amsduSize : UInt16) : UInt16 :=
  UInt16.ofNat (amsduSize.toNat + calculatePadding amsduSize + 14 + msduSize.toNat)

/-- What of the header of a QoS data frame aggregation reads and sets. -/
structure QosDataHeader where
  toDs : Bool
  fromDs : Bool
  addr1 : Mac48Address
  addr2 : Mac48Address
  addr3 : Mac48Address
  addr4 : Mac48Address
  isQosAmsdu : Bool := false
deriving DecidableEq, Repr

/-- `WifiMacQueueItem`. -/
structure WifiMacQueueItem where
  m_header : QosDataHeader
  m_packet : List UInt8
  m_msduList : List (List UInt8 × AmsduSubframeHeader) := []
deriving DecidableEq, Repr

namespace WifiMacQueueItem

/-- The subframe header of an MSDU, as `DoAggregate` fills it in. -/
def subframeHeader (msdu : WifiMacQueueItem) : AmsduSubframeHeader where
  m_da := if msdu.m_header.toDs then msdu.m_header.addr3 else msdu.m_header.addr1
  m_sa :=
    if !msdu.m_header.fromDs then msdu.m_header.addr2
    else if !msdu.m_header.toDs then msdu.m_header.addr3 else msdu.m_header.addr4
  m_length := UInt16.ofNat msdu.m_packet.length

/-- `DoAggregate`. -/
def doAggregate (msdu item : WifiMacQueueItem) : Option WifiMacQueueItem :=
  let padding :=
    if 0 < item.m_packet.length then calculatePadding (UInt16.ofNat item.m_packet.length) else 0
  (msdu.subframeHeader.addTo msdu.m_packet).map fun amsduSubframe =>
    { item with
      m_msduList := item.m_msduList ++ [(msdu.m_packet, msdu.subframeHeader)]
      m_packet := item.m_packet ++ List.replicate padding 0 ++ amsduSubframe }

/-- `SetAddr3` in `Aggregate`: the BSSID, in a frame to or from an access point. -/
def setAmsdu (h : QosDataHeader) : QosDataHeader :=
  { h with
    isQosAmsdu := true
    addr3 := if h.toDs && !h.fromDs then h.addr1 else if !h.toDs && h.fromDs then h.addr2 else h.addr3 }

/-- `Aggregate`. -/
def aggregate (msdu item : WifiMacQueueItem) : Option WifiMacQueueItem :=
  if msdu.m_header.isQosAmsdu then none
  else if item.m_msduList.isEmpty then
    (doAggregate item { item with m_packet := [] }).bind fun amsdu =>
      doAggregate msdu { amsdu with m_header := setAmsdu amsdu.m_header }
  else doAggregate msdu item

/-- `Aggregate`, of one MSDU after the other. -/
def aggregates : List WifiMacQueueItem → WifiMacQueueItem → Option WifiMacQueueItem
  | [], item => some item
  | msdu :: rest, item => (aggregate msdu item).bind (aggregates rest)

end WifiMacQueueItem

/-- The loop of `MsduAggregator::Deaggregate`, with so many turns left and so many bytes taken. -/
def deaggregateFrom (maxSize : Nat) : Nat → Nat → List UInt8 → Option (List (List UInt8 × AmsduSubframeHeader))
  | 0, deserialized, _ => if deserialized < maxSize then none else some []
  | turns + 1, deserialized, packet =>
    if deserialized < maxSize then
      (AmsduSubframeHeader.removeFrom packet).bind fun r =>
        let extractedLength := r.1.m_length.toNat
        let padding := (4 - (extractedLength + 14) % 4) % 4
        let deserialized := deserialized + 14 + extractedLength
        let skipped := if 0 < padding ∧ deserialized < maxSize then padding else 0
        if r.2.length < extractedLength + skipped then none
        else
          (deaggregateFrom maxSize turns (deserialized + skipped) (r.2.drop (extractedLength + skipped))).map fun set =>
            (r.2.take extractedLength, r.1) :: set
    else some []

/-- `MsduAggregator::Deaggregate`. Every turn takes a subframe header at least. -/
def deaggregate (aggregatedPacket : List UInt8) : Option (List (List UInt8 × AmsduSubframeHeader)) :=
  deaggregateFrom aggregatedPacket.length aggregatedPacket.length 0 aggregatedPacket

/-! ### The subframes of an A-MSDU -/

/-- An MSDU behind its header. -/
def subframe (s : List UInt8 × AmsduSubframeHeader) : List UInt8 := s.2.bytes ++ s.1

/-- How much is missing to a multiple of four bytes. -/
def missing (size : Nat) : Nat := (4 - size % 4) % 4

/-- Subframes, all but the last one padded. -/
def joinSubframes : List (List UInt8 × AmsduSubframeHeader) → List UInt8
  | [] => []
  | [s] => subframe s
  | s :: s' :: rest => subframe s ++ List.replicate (missing (subframe s).length) 0 ++ joinSubframes (s' :: rest)

variable {s : List UInt8 × AmsduSubframeHeader} {list : List (List UInt8 × AmsduSubframeHeader)}
  {item amsdu msdu : WifiMacQueueItem} {msdus done : List WifiMacQueueItem}

theorem calculatePadding_eq (size : Nat) : calculatePadding (UInt16.ofNat size) = missing size := by
  rw [calculatePadding, missing, UInt16.toNat_ofNat']
  omega

theorem subframe_length (s : List UInt8 × AmsduSubframeHeader) : (subframe s).length = 14 + s.1.length := by
  rw [subframe, List.length_append, AmsduSubframeHeader.bytes_length]

theorem joinSubframes_pos (hne : list ≠ []) : 14 ≤ (joinSubframes list).length := by
  match list, hne with
  | [s], _ =>
    rw [joinSubframes, subframe_length]
    omega
  | s :: s' :: rest, _ =>
    rw [joinSubframes, List.length_append, List.length_append, subframe_length]
    omega

/-- One more subframe, behind the padding of all that is before. -/
theorem joinSubframes_concat (hne : list ≠ []) (s : List UInt8 × AmsduSubframeHeader) :
    joinSubframes (list ++ [s]) =
      joinSubframes list ++ List.replicate (missing (joinSubframes list).length) 0 ++ subframe s := by
  induction list with
  | nil => exact absurd rfl hne
  | cons first rest ih =>
    cases rest with
    | nil => rfl
    | cons second rest =>
      have hmissing : missing (joinSubframes (first :: second :: rest)).length = missing (joinSubframes (second :: rest)).length := by
        rw [joinSubframes, List.length_append, List.length_append, List.length_replicate]
        simp only [missing]
        omega
      rw [hmissing, List.cons_append, List.cons_append, joinSubframes, ← List.cons_append, ih (List.cons_ne_nil _ _), joinSubframes]
      simp only [List.append_assoc]

/-- The MSDUs that were aggregated. -/
structure Aggregated (done : List WifiMacQueueItem) (item : WifiMacQueueItem) : Prop where
  list : item.m_msduList = done.map fun msdu => (msdu.m_packet, msdu.subframeHeader)
  packet : item.m_packet = joinSubframes item.m_msduList

theorem doAggregate_eq (msdu item : WifiMacQueueItem) : WifiMacQueueItem.doAggregate msdu item = some { item with
    m_msduList := item.m_msduList ++ [(msdu.m_packet, msdu.subframeHeader)]
    m_packet := item.m_packet ++ List.replicate (if 0 < item.m_packet.length then missing item.m_packet.length else 0) 0 ++
      subframe (msdu.m_packet, msdu.subframeHeader) } := by
  rw [WifiMacQueueItem.doAggregate, AmsduSubframeHeader.addTo_eq, Option.map_some, calculatePadding_eq]
  rfl

theorem Aggregated.doAggregate (h : Aggregated done item) (hne : done ≠ []) (msdu : WifiMacQueueItem) :
    ∃ amsdu, WifiMacQueueItem.doAggregate msdu item = some amsdu ∧ Aggregated (done ++ [msdu]) amsdu ∧
      amsdu.m_header = item.m_header := by
  refine ⟨_, doAggregate_eq msdu item, ⟨?_, ?_⟩, rfl⟩
  · rw [h.list, List.map_append]
    rfl
  · have hlist : item.m_msduList ≠ [] := by
      rw [h.list]
      exact fun hnil => hne (List.map_eq_nil_iff.mp hnil)
    have hpos := joinSubframes_pos hlist
    rw [joinSubframes_concat hlist, h.packet, if_pos (by omega)]

theorem Aggregated.aggregates (h : Aggregated done item) (hne : done ≠ [])
    (hplain : ∀ msdu ∈ msdus, msdu.m_header.isQosAmsdu = false) :
    ∃ amsdu, WifiMacQueueItem.aggregates msdus item = some amsdu ∧ Aggregated (done ++ msdus) amsdu ∧
      amsdu.m_header = item.m_header := by
  induction msdus generalizing item done with
  | nil =>
    refine ⟨item, rfl, ?_, rfl⟩
    rw [List.append_nil]
    exact h
  | cons msdu rest ih =>
    obtain ⟨item₁, hstep, h₁, hheader⟩ := h.doAggregate hne msdu
    have haggregate : WifiMacQueueItem.aggregate msdu item = some item₁ := by
      have hlist : item.m_msduList.isEmpty = false := by
        rw [h.list, List.isEmpty_map]
        exact List.isEmpty_eq_false_iff.mpr hne
      rw [WifiMacQueueItem.aggregate, hplain msdu List.mem_cons_self, hlist]
      exact hstep
    obtain ⟨amsdu, hrest, h', hheader'⟩ := ih h₁ (List.append_ne_nil_of_right_ne_nil _ (List.cons_ne_nil _ _))
      fun m hm => hplain m (List.mem_cons_of_mem _ hm)
    refine ⟨amsdu, ?_, ?_, hheader'.trans hheader⟩
    · rw [WifiMacQueueItem.aggregates, haggregate, Option.bind_some, hrest]
    · rw [List.append_assoc] at h'
      exact h'

/-- The first MSDU is aggregated to the frame's own. -/
theorem aggregate_first (hempty : item.m_msduList = []) (hplain : msdu.m_header.isQosAmsdu = false) :
    ∃ amsdu, WifiMacQueueItem.aggregate msdu item = some amsdu ∧ Aggregated [item, msdu] amsdu ∧
      amsdu.m_header = WifiMacQueueItem.setAmsdu item.m_header := by
  have hone : Aggregated [item] { item with
      m_header := WifiMacQueueItem.setAmsdu item.m_header
      m_msduList := [(item.m_packet, item.subframeHeader)]
      m_packet := subframe (item.m_packet, item.subframeHeader) } := ⟨rfl, rfl⟩
  obtain ⟨amsdu, hstep, h, hheader⟩ := hone.doAggregate (List.cons_ne_nil _ _) msdu
  refine ⟨amsdu, ?_, h, hheader⟩
  have hnone : item.m_msduList.isEmpty = true := by
    rw [hempty]
    rfl
  have hown : WifiMacQueueItem.doAggregate item { item with m_packet := [] } = some { item with
      m_msduList := [(item.m_packet, item.subframeHeader)]
      m_packet := subframe (item.m_packet, item.subframeHeader) } := by
    rw [doAggregate_eq]
    show some (WifiMacQueueItem.mk _ _ (item.m_msduList ++ _)) = _
    rw [hempty]
    rfl
  rw [WifiMacQueueItem.aggregate, hplain, if_neg Bool.false_ne_true, if_pos hnone, hown, Option.bind_some]
  exact hstep

/-! ### Taking an A-MSDU apart -/

theorem deaggregateFrom_joinSubframes (hfits : ∀ s ∈ list, s.2.m_length.toNat = s.1.length) {maxSize turns deserialized : Nat}
    (hturns : list.length ≤ turns) (hsize : deserialized + (joinSubframes list).length = maxSize) :
    deaggregateFrom maxSize turns deserialized (joinSubframes list) = some list := by
  induction list generalizing turns deserialized with
  | nil =>
    have hall : ¬ deserialized < maxSize := by
      rw [joinSubframes, List.length_nil] at hsize
      omega
    cases turns <;> exact if_neg hall
  | cons s rest ih =>
    obtain ⟨turns, rfl⟩ : ∃ n, turns = n + 1 := ⟨turns - 1, by rw [List.length_cons] at hturns; omega⟩
    have hpos := joinSubframes_pos (List.cons_ne_nil s rest)
    have hlength := hfits s List.mem_cons_self
    rw [deaggregateFrom, if_pos (by omega)]
    cases rest with
    | nil =>
      have hsize' : deserialized + 14 + s.1.length = maxSize := by
        rw [joinSubframes, subframe_length] at hsize
        omega
      rw [joinSubframes, subframe, AmsduSubframeHeader.removeFrom_eq, Option.bind_some]
      simp only [hlength]
      rw [if_neg (show ¬ (0 < (4 - (s.1.length + 14) % 4) % 4 ∧ deserialized + 14 + s.1.length < maxSize) by omega)]
      rw [if_neg (by omega)]
      simp only [Nat.add_zero, List.drop_length, List.take_length]
      have hnil : deaggregateFrom maxSize turns (deserialized + 14 + s.1.length) [] = some [] :=
        ih (fun s hs => absurd hs List.not_mem_nil) (Nat.zero_le turns) hsize'
      rw [hnil]
      rfl
    | cons s' rest =>
      have hrest := joinSubframes_pos (List.cons_ne_nil s' rest)
      rw [joinSubframes, subframe_length, List.append_assoc, subframe, List.append_assoc, AmsduSubframeHeader.removeFrom_eq,
        Option.bind_some]
      rw [joinSubframes, List.length_append, List.length_append, List.length_replicate, subframe_length] at hsize
      simp only [hlength]
      have hmissing : (if 0 < (4 - (s.1.length + 14) % 4) % 4 ∧ deserialized + 14 + s.1.length < maxSize then
          (4 - (s.1.length + 14) % 4) % 4 else 0) = missing (14 + s.1.length) := by
        simp only [missing] at hsize ⊢
        split <;> omega
      rw [hmissing, if_neg]
      · have hdrop : (s.1 ++ (List.replicate (missing (14 + s.1.length)) 0 ++ joinSubframes (s' :: rest))).drop
            (s.1.length + missing (14 + s.1.length)) = joinSubframes (s' :: rest) := by
          rw [← List.append_assoc]
          exact List.drop_left' (by rw [List.length_append, List.length_replicate])
        rw [hdrop, ih (fun s hs => hfits s (List.mem_cons_of_mem _ hs)) (Nat.le_of_succ_le_succ hturns) (by omega),
          List.take_left]
        rfl
      · rw [List.length_append, List.length_append, List.length_replicate]
        omega

theorem length_le_joinSubframes (list : List (List UInt8 × AmsduSubframeHeader)) : list.length ≤ (joinSubframes list).length := by
  induction list with
  | nil => exact Nat.le_refl _
  | cons s rest ih =>
    cases rest with
    | nil =>
      rw [joinSubframes, subframe_length, List.length_singleton]
      omega
    | cons s' rest =>
      rw [joinSubframes, List.length_append, List.length_append, subframe_length, List.length_cons]
      omega

theorem deaggregate_joinSubframes (hfits : ∀ s ∈ list, s.2.m_length.toNat = s.1.length) :
    deaggregate (joinSubframes list) = some list :=
  deaggregateFrom_joinSubframes hfits (length_le_joinSubframes list) (Nat.zero_add _)

/-- What was aggregated is taken apart again, and an A-MSDU grows by as much as was computed. -/
theorem deaggregate_aggregates (item msdu : WifiMacQueueItem) (rest : List WifiMacQueueItem) (hempty : item.m_msduList = [])
    (hplain : ∀ m ∈ msdu :: rest, m.m_header.isQosAmsdu = false)
    (hsize : ∀ m ∈ item :: msdu :: rest, m.m_packet.length < 2 ^ 16) :
    ∃ amsdu, WifiMacQueueItem.aggregates (msdu :: rest) item = some amsdu ∧
      deaggregate amsdu.m_packet = some ((item :: msdu :: rest).map fun m => (m.m_packet, m.subframeHeader)) ∧
      amsdu.m_header = WifiMacQueueItem.setAmsdu item.m_header ∧
      ∀ next amsdu', WifiMacQueueItem.aggregate next amsdu = some amsdu' → UInt16.ofNat amsdu'.m_packet.length =
        getSizeIfAggregated (UInt16.ofNat next.m_packet.length) (UInt16.ofNat amsdu.m_packet.length) := by
  obtain ⟨item₁, hfirst, h₁, hheader₁⟩ := aggregate_first hempty (hplain msdu List.mem_cons_self)
  obtain ⟨amsdu, hrest, h, hheader⟩ := h₁.aggregates (List.cons_ne_nil _ _) fun m hm => hplain m (List.mem_cons_of_mem _ hm)
  refine ⟨amsdu, ?_, ?_, hheader.trans hheader₁, fun next amsdu' hnext => ?_⟩
  · rw [WifiMacQueueItem.aggregates, hfirst, Option.bind_some, hrest]
  · rw [h.packet, deaggregate_joinSubframes]
    · exact congrArg some h.list
    · intro s hs
      rw [h.list] at hs
      obtain ⟨m, hm, rfl⟩ := List.mem_map.mp hs
      exact UInt16.toNat_ofNat_of_lt (hsize m hm)
  · have hlist : amsdu.m_msduList ≠ [] := by
      rw [h.list]
      exact List.cons_ne_nil _ _
    have hpos := joinSubframes_pos hlist
    rw [← h.packet] at hpos
    rw [WifiMacQueueItem.aggregate, List.isEmpty_eq_false_iff.mpr hlist] at hnext
    split at hnext
    · cases hnext
    · rw [if_neg Bool.false_ne_true, doAggregate_eq] at hnext
      obtain rfl := Option.some.inj hnext
      rw [getSizeIfAggregated, calculatePadding_eq]
      apply UInt16.toNat_inj.mp
      simp only [List.length_append, List.length_replicate, subframe_length, UInt16.toNat_ofNat', if_pos (show 0 < amsdu.m_packet.length by omega)]
      omega

/-- A station sends two MSDUs to its access point, 1, that are for the station 3. -/
theorem deaggregate_aggregates_station :
    ∃ amsdu, WifiMacQueueItem.aggregates
        [⟨⟨true, false, ⟨0, 0, 0, 0, 0, 1⟩, ⟨0, 0, 0, 0, 0, 2⟩, ⟨0, 0, 0, 0, 0, 3⟩, ⟨0, 0, 0, 0, 0, 0⟩, false⟩, [2, 3, 4], []⟩]
        ⟨⟨true, false, ⟨0, 0, 0, 0, 0, 1⟩, ⟨0, 0, 0, 0, 0, 2⟩, ⟨0, 0, 0, 0, 0, 3⟩, ⟨0, 0, 0, 0, 0, 0⟩, false⟩, [1], []⟩ = some amsdu ∧
      deaggregate amsdu.m_packet = some [([1], ⟨⟨0, 0, 0, 0, 0, 3⟩, ⟨0, 0, 0, 0, 0, 2⟩, 1⟩),
        ([2, 3, 4], ⟨⟨0, 0, 0, 0, 0, 3⟩, ⟨0, 0, 0, 0, 0, 2⟩, 3⟩)] := by
  obtain ⟨amsdu, haggregates, hdeaggregate, -⟩ := deaggregate_aggregates
    ⟨⟨true, false, ⟨0, 0, 0, 0, 0, 1⟩, ⟨0, 0, 0, 0, 0, 2⟩, ⟨0, 0, 0, 0, 0, 3⟩, ⟨0, 0, 0, 0, 0, 0⟩, false⟩, [1], []⟩
    ⟨⟨true, false, ⟨0, 0, 0, 0, 0, 1⟩, ⟨0, 0, 0, 0, 0, 2⟩, ⟨0, 0, 0, 0, 0, 3⟩, ⟨0, 0, 0, 0, 0, 0⟩, false⟩, [2, 3, 4], []⟩ []
    rfl (by simp) (by simp)
  exact ⟨amsdu, haggregates, hdeaggregate⟩

end Ns3.Wifi
