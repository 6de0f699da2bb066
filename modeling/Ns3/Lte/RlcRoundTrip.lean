import Ns3.Lte.AmTransmitState

/-!
# Round trips of RLC headers

The headers that `LteRlcUm` and `LteRlcAm` build from length indicators, and STATUS headers built from missing sequence
numbers. Each counts its length in 16 bits as it is built, and the offset of a segment is read back from two bytes that are
put together without a shift.
-/

namespace Ns3.Lte

open Ns3.Lib

variable {k : Nat}

theorem extensionBitsOf_length (k : Nat) : (extensionBitsOf k).length = k + 1 := by
  rw [extensionBitsOf, List.length_append, List.length_replicate]
  rfl

/-- A length that 16 bits hold. -/
theorem toNat_ofNat_eq_iff (n : Nat) : (UInt16.ofNat n).toNat = n ↔ n < 2 ^ 16 := by
  show n % 2 ^ 16 = n ↔ n < 2 ^ 16
  omega

/-! ### The header of a UM PDU -/

namespace LteRlcHeader

/-- One more length indicator, as `LteRlcUm` pushes it. -/
def pushField (h : LteRlcHeader) (lengthIndicator : UInt16) : LteRlcHeader :=
  (h.pushExtensionBit eLiFieldsFollows).pushLengthIndicator lengthIndicator

/-- The header that `LteRlcUm` builds. -/
def forFields (framingInfo : UInt8) (sequenceNumber : SequenceNumber10) (lengthIndicators : List UInt16) : LteRlcHeader :=
  (((lengthIndicators.foldl pushField {}).pushExtensionBit dataFieldFollows).setSequenceNumber
    sequenceNumber).setFramingInfo framingInfo

/-- The length in the header is that of its extension bits, the first of which is in the fixed part. -/
def Counted (h : LteRlcHeader) : Prop :=
  h.m_extensionBits ≠ [] → h.m_headerLength = UInt16.ofNat (2 + fieldsSize (h.m_extensionBits.length - 1))

theorem Counted.pushExtensionBit {h : LteRlcHeader} (hc : h.Counted) (bit : UInt8) :
    (h.pushExtensionBit bit).Counted := by
  intro _
  show (if (h.m_extensionBits ++ [bit]).length = 1 then 2 else h.m_headerLength + fieldLength (h.m_extensionBits ++ [bit])) =
    UInt16.ofNat (2 + fieldsSize ((h.m_extensionBits ++ [bit]).length - 1))
  rw [List.length_append, List.length_singleton, Nat.add_sub_cancel]
  by_cases hempty : h.m_extensionBits = []
  · rw [hempty]
    rfl
  · have hpos := List.length_pos_iff.mpr hempty
    rw [if_neg (by omega), hc hempty, fieldLength, List.length_append, List.length_singleton,
      fieldsSize_succ h.m_extensionBits.length hpos, ← Nat.add_assoc]
    split
    · exact (UInt16.ofNat_add _ _).symm
    · exact (UInt16.ofNat_add _ _).symm

theorem Counted.pushFields {h : LteRlcHeader} (hc : h.Counted) (lis : List UInt16) :
    (lis.foldl pushField h).Counted ∧
      (lis.foldl pushField h).m_extensionBits = h.m_extensionBits ++ List.replicate lis.length eLiFieldsFollows ∧
      (lis.foldl pushField h).m_lengthIndicators = h.m_lengthIndicators ++ lis := by
  induction lis generalizing h with
  | nil => exact ⟨hc, (List.append_nil _).symm, (List.append_nil _).symm⟩
  | cons li lis ih =>
    have hpush : (h.pushField li).Counted := hc.pushExtensionBit eLiFieldsFollows
    obtain ⟨hcounted, hbits, hlis⟩ := ih hpush
    rw [List.foldl_cons]
    refine ⟨hcounted, ?_, ?_⟩
    · rw [hbits]
      exact List.append_assoc _ _ _
    · rw [hlis]
      exact List.append_assoc _ _ _

variable {lis : List UInt16}

theorem forFields_built (framingInfo : UInt8) (sequenceNumber : SequenceNumber10) (hsn : sequenceNumber.m_value < 1024) (hfits : Fits lis) :
    (forFields framingInfo sequenceNumber lis).Built lis.length ∧
      (forFields framingInfo sequenceNumber lis).m_headerLength = UInt16.ofNat (2 + fieldsSize lis.length) := by
  have hstart : Counted {} := fun hne => absurd rfl hne
  obtain ⟨hcounted, hbits, hlis⟩ := hstart.pushFields lis
  have hbits' : (forFields framingInfo sequenceNumber lis).m_extensionBits = extensionBitsOf lis.length := by
    show (lis.foldl pushField {}).m_extensionBits ++ [dataFieldFollows] = _
    rw [hbits]
    rfl
  have hlength : (forFields framingInfo sequenceNumber lis).m_headerLength = _ :=
    hcounted.pushExtensionBit dataFieldFollows (List.append_ne_nil_of_right_ne_nil _ (List.cons_ne_nil _ _))
  refine ⟨⟨?_, hsn, hbits', ?_, ?_⟩, ?_⟩
  · exact Nat.lt_of_le_of_lt Nat.and_le_right (by decide)
  · exact congrArg List.length hlis
  · show Fits (lis.foldl pushField {}).m_lengthIndicators
    rw [hlis]
    exact hfits
  · rw [hlength]
    show UInt16.ofNat (2 + fieldsSize ((forFields framingInfo sequenceNumber lis).m_extensionBits.length - 1)) = _
    rw [hbits', extensionBitsOf_length]
    rfl

/-- The header writes as many bytes as its size says, for `k` length indicators, and is read back from them, whatever is
behind. -/
def RoundTrips (h : LteRlcHeader) (k : Nat) : Prop :=
  ∃ bytes, h.serialize = some bytes ∧ bytes.length = h.getSerializedSize ∧ bytes.length = 2 + (3 * k + 1) / 2 ∧
    ∀ rest, ∃ h', LteRlcHeader.deserialize (bytes ++ rest) = some h' ∧ h'.getSerializedSize = bytes.length ∧
      h'.m_framingInfo = h.m_framingInfo ∧ h'.m_sequenceNumber.m_value = h.m_sequenceNumber.m_value ∧
      h'.m_extensionBits = h.m_extensionBits ∧ h'.m_lengthIndicators = h.m_lengthIndicators

theorem Built.readsBack_iff {h : LteRlcHeader} (hb : h.Built k)
    (hlength : h.m_headerLength = UInt16.ofNat (2 + fieldsSize k)) : h.RoundTrips k ↔ 2 + fieldsSize k < 2 ^ 16 := by
  obtain ⟨bytes, hserialize, hbytes, hread⟩ := hb.deserialize
  have hsize : h.getSerializedSize = (UInt16.ofNat (2 + fieldsSize k)).toNat := congrArg UInt16.toNat hlength
  constructor
  · rintro ⟨bytes', hserialize', hsize', -⟩
    obtain rfl : bytes = bytes' := Option.some.inj (hserialize.symm.trans hserialize')
    rw [hbytes, hsize] at hsize'
    exact (toNat_ofNat_eq_iff _).mp hsize'.symm
  · intro hlt
    have hnat := (toNat_ofNat_eq_iff _).mpr hlt
    refine ⟨bytes, hserialize, by rw [hbytes, hsize, hnat], hbytes, fun rest => ⟨_, hread rest, ?_, rfl, rfl, ?_, rfl⟩⟩
    · rw [hbytes]
      exact hnat
    · exact hb.extensionBits.symm

end LteRlcHeader

/-- The headers that `LteRlcUm` builds are read back exactly when their length can be counted. -/
theorem um_header_exact (framingInfo : UInt8) (sequenceNumber : SequenceNumber10) (lengthIndicators : List UInt16)
    (hsn : sequenceNumber.m_value < 1024) (hfits : Fits lengthIndicators) :
    (LteRlcHeader.forFields framingInfo sequenceNumber lengthIndicators).RoundTrips lengthIndicators.length ↔
      lengthIndicators.length ≤ 43688 := by
  obtain ⟨hbuilt, hlength⟩ := LteRlcHeader.forFields_built framingInfo sequenceNumber hsn hfits
  rw [hbuilt.readsBack_iff hlength, fieldsSize]
  omega

theorem um_header_exact_two :
    (LteRlcHeader.forFields 1 (.ofValue 1023) [40, 2047]).RoundTrips 2 ↔ [(40 : UInt16), 2047].length ≤ 43688 :=
  um_header_exact 1 (.ofValue 1023) [40, 2047] (by decide) (by simp [Fits])

/-- With 43689 length indicators the counted length is 0. -/
theorem not_um_header_exact_long :
    ¬ ∀ (framingInfo : UInt8) (sequenceNumber : SequenceNumber10) (lengthIndicators : List UInt16),
      sequenceNumber.m_value < 1024 → Fits lengthIndicators →
        (LteRlcHeader.forFields framingInfo sequenceNumber lengthIndicators).RoundTrips lengthIndicators.length := by
  intro hall
  have hfits : Fits (List.replicate 43689 0) := by
    intro li hli
    rw [List.eq_of_mem_replicate hli]
    decide
  have htrips := hall 0 (.ofValue 0) (List.replicate 43689 0) (by decide) hfits
  obtain ⟨hbuilt, hlength⟩ := LteRlcHeader.forFields_built 0 (.ofValue 0) (by decide) hfits
  rw [hbuilt.readsBack_iff hlength, fieldsSize, List.length_replicate] at htrips
  omega

/-! ### The header of an AM data PDU -/

namespace LteRlcAmHeader

/-- One more length indicator, as `LteRlcAm` pushes it. -/
def pushField (h : LteRlcAmHeader) (lengthIndicator : UInt16) : LteRlcAmHeader :=
  (h.pushExtensionBit eLiFieldsFollows).pushLengthIndicator lengthIndicator

/-- A header that is to be set on a data PDU. -/
structure DataFields where
  resegmentationFlag : UInt8
  pollingBit : UInt8
  framingInfo : UInt8
  sequenceNumber : SequenceNumber10
  lastSegmentFlag : UInt8
  segmentOffset : UInt16
  lengthIndicators : List UInt16

/-- The header that `LteRlcAm` builds. -/
def forFields (f : DataFields) : LteRlcAmHeader :=
  let header := ((f.lengthIndicators.foldl pushField (setDataPdu {})).pushExtensionBit dataFieldFollows).setSequenceNumber
    f.sequenceNumber
  let header := ((header.setResegmentationFlag f.resegmentationFlag).setLastSegmentFlag f.lastSegmentFlag).setSegmentOffset
    f.segmentOffset
  (header.setFramingInfo f.framingInfo).setPollingBit f.pollingBit

/-- The length in the header is that of its extension bits, the first of which is in the fixed part. -/
def Counted (h : LteRlcAmHeader) : Prop :=
  h.m_headerLength = UInt16.ofNat (4 + fieldsSize (h.m_extensionBits.length - 1))

theorem Counted.pushExtensionBit {h : LteRlcAmHeader} (hc : h.Counted) (bit : UInt8) :
    (h.pushExtensionBit bit).Counted := by
  show (if 1 < (h.m_extensionBits ++ [bit]).length then h.m_headerLength + fieldLength (h.m_extensionBits ++ [bit])
    else h.m_headerLength) = UInt16.ofNat (4 + fieldsSize ((h.m_extensionBits ++ [bit]).length - 1))
  rw [hc, fieldLength, List.length_append, List.length_singleton, Nat.add_sub_cancel]
  by_cases hempty : h.m_extensionBits.length = 0
  · rw [if_neg (by omega), hempty]
  · rw [if_pos (by omega), fieldsSize_succ h.m_extensionBits.length (by omega), ← Nat.add_assoc]
    split
    · exact (UInt16.ofNat_add _ _).symm
    · exact (UInt16.ofNat_add _ _).symm

theorem Counted.pushFields {h : LteRlcAmHeader} (hc : h.Counted) (lis : List UInt16) :
    (lis.foldl pushField h).Counted ∧
      lis.foldl pushField h =
        { h with
          m_headerLength := (lis.foldl pushField h).m_headerLength
          m_extensionBits := h.m_extensionBits ++ List.replicate lis.length eLiFieldsFollows
          m_lengthIndicators := h.m_lengthIndicators ++ lis } := by
  induction lis generalizing h with
  | nil =>
    refine ⟨hc, ?_⟩
    show h = { h with
      m_extensionBits := h.m_extensionBits ++ []
      m_lengthIndicators := h.m_lengthIndicators ++ [] }
    rw [List.append_nil, List.append_nil]
  | cons li lis ih =>
    have hpush : (h.pushField li).Counted := hc.pushExtensionBit eLiFieldsFollows
    obtain ⟨hcounted, heq⟩ := ih hpush
    rw [List.foldl_cons]
    refine ⟨hcounted, heq.trans ?_⟩
    have hbits : (h.pushField li).m_extensionBits ++ List.replicate lis.length eLiFieldsFollows =
        h.m_extensionBits ++ List.replicate (li :: lis).length eLiFieldsFollows := List.append_assoc _ _ _
    have hlis : (h.pushField li).m_lengthIndicators ++ lis = h.m_lengthIndicators ++ li :: lis := List.append_assoc _ _ _
    rw [hbits, hlis]
    rfl

theorem and_one_lt (x : UInt8) : (x &&& 0x01).toNat < 2 := Nat.lt_of_le_of_lt Nat.and_le_right (by decide)

theorem forFields_framed {f : DataFields} (hsn : f.sequenceNumber.m_value < 1024) (hfits : Fits f.lengthIndicators) :
    (forFields f).Framed f.lengthIndicators.length ∧
      (forFields f).m_headerLength = UInt16.ofNat (4 + fieldsSize f.lengthIndicators.length) := by
  have hstart : Counted (setDataPdu {}) := rfl
  obtain ⟨hcounted, heq⟩ := hstart.pushFields f.lengthIndicators
  have hbits : (forFields f).m_extensionBits = extensionBitsOf f.lengthIndicators.length := by
    show (f.lengthIndicators.foldl pushField (setDataPdu {})).m_extensionBits ++ [dataFieldFollows] = _
    rw [heq]
    rfl
  have hlis : (forFields f).m_lengthIndicators = f.lengthIndicators := by
    show (f.lengthIndicators.foldl pushField (setDataPdu {})).m_lengthIndicators = _
    rw [heq]
    rfl
  have hlength : (forFields f).m_headerLength = UInt16.ofNat (4 + fieldsSize ((forFields f).m_extensionBits.length - 1)) :=
    hcounted.pushExtensionBit dataFieldFollows
  refine ⟨⟨?_, and_one_lt _, and_one_lt _, ?_, hsn, and_one_lt _, ?_, hbits, by rw [hlis], by rwa [hlis]⟩, ?_⟩
  · show (f.lengthIndicators.foldl pushField (setDataPdu {})).m_dataControlBit = _
    rw [heq]
    rfl
  · exact Nat.lt_of_le_of_lt Nat.and_le_right (by decide)
  · exact Nat.lt_of_le_of_lt Nat.and_le_right (by decide)
  · rw [hlength, hbits, extensionBitsOf_length]
    rfl

/-- The two bytes of an offset make the offset again when the first one is 0. -/
theorem readOffset_eq_iff {segmentOffset : UInt16} (h : segmentOffset.toNat < 2 ^ 15) :
    readOffset segmentOffset = segmentOffset ↔ segmentOffset.toNat < 256 := by
  have hsmall : segmentOffset.toNat / 256 ||| segmentOffset.toNat % 256 < 2 ^ 8 :=
    Nat.or_lt_two_pow (by omega) (by omega)
  rw [← UInt16.toNat_inj, readOffset, UInt16.toNat_ofNat_of_lt' (by
    rw [UInt16.size]
    omega)]
  constructor
  · intro heq
    omega
  · intro hlt
    rw [Nat.div_eq_of_lt hlt, Nat.zero_or, Nat.mod_eq_of_lt hlt]

/-- The header writes as many bytes as its size says, and is read back from them, whatever is behind. -/
def RoundTrips (h : LteRlcAmHeader) : Prop :=
  ∃ bytes, h.serialize = some bytes ∧ bytes.length = h.getSerializedSize ∧
    ∀ rest, ∃ h', LteRlcAmHeader.deserialize (bytes ++ rest) = some h' ∧ h'.getSerializedSize = bytes.length ∧
      h'.m_dataControlBit = h.m_dataControlBit ∧
      (h.m_dataControlBit = dataPdu →
        h'.m_resegmentationFlag = h.m_resegmentationFlag ∧ h'.m_pollingBit = h.m_pollingBit ∧
        h'.m_framingInfo = h.m_framingInfo ∧ h'.m_sequenceNumber.m_value = h.m_sequenceNumber.m_value ∧
        h'.m_lastSegmentFlag = h.m_lastSegmentFlag ∧ h'.m_segmentOffset = h.m_segmentOffset ∧
        h'.m_extensionBits = h.m_extensionBits ∧ h'.m_lengthIndicators = h.m_lengthIndicators) ∧
      (h.m_dataControlBit = controlPdu →
        h'.m_controlPduType = h.m_controlPduType ∧ h'.m_ackSn.m_value = h.m_ackSn.m_value ∧
        h'.m_nackSnList = h.m_nackSnList)

theorem Framed.readsBack_iff {h : LteRlcAmHeader} (hb : h.Framed k)
    (hlength : h.m_headerLength = UInt16.ofNat (4 + fieldsSize k)) :
    h.RoundTrips ↔ 4 + fieldsSize k < 2 ^ 16 ∧ h.m_segmentOffset.toNat < 256 := by
  obtain ⟨bytes, hserialize, hbytes, hread⟩ := hb.deserialize
  have hsize : h.getSerializedSize = (UInt16.ofNat (4 + fieldsSize k)).toNat := congrArg UInt16.toNat hlength
  constructor
  · rintro ⟨bytes', hserialize', hsize', hread'⟩
    obtain rfl : bytes = bytes' := Option.some.inj (hserialize.symm.trans hserialize')
    obtain ⟨h', hh', -, -, hdata, -⟩ := hread' []
    obtain rfl : h.receivedAt k = h' := Option.some.inj ((hread []).symm.trans hh')
    rw [hbytes, hsize] at hsize'
    exact ⟨(toNat_ofNat_eq_iff _).mp hsize'.symm,
      (readOffset_eq_iff hb.segmentOffset).mp (hdata hb.dataControlBit).2.2.2.2.2.1⟩
  · rintro ⟨hlt, hoffset⟩
    have hnat := (toNat_ofNat_eq_iff _).mpr hlt
    refine ⟨bytes, hserialize, by rw [hbytes, hsize, hnat], fun rest => ⟨_, hread rest, ?_, ?_, fun _ => ?_, fun hcontrol => ?_⟩⟩
    · rw [hbytes]
      exact hnat
    · exact hb.dataControlBit.symm
    · exact ⟨rfl, rfl, rfl, rfl, rfl, (readOffset_eq_iff hb.segmentOffset).mpr hoffset, hb.extensionBits.symm, rfl⟩
    · rw [hb.dataControlBit] at hcontrol
      exact absurd hcontrol (by decide)

end LteRlcAmHeader

/-! ### The header of a STATUS PDU -/

/-- A sequence number that is missing has 10 bits. -/
def NacksFit (nacks : List Nat) : Prop := ∀ nack ∈ nacks, nack < 1024

section

variable {even next : Nat}

theorem nackHigh_toNat (odd : Nat) : (UInt8.ofNat ((odd >>> 1) &&& 0xFF)).toNat = odd / 2 % 256 := by
  have hand := and_mask (odd >>> 1) 0 8
  show ((odd >>> 1) &&& (2 ^ 8 - 1) * 2 ^ 0) % 2 ^ 8 = _
  rw [hand, Nat.shiftRight_eq_div_pow]
  omega

theorem nackLow_eq (odd : Nat) : (odd <<< 7) &&& 0x80 = odd % 2 * 128 := by
  have hand := and_mask (odd <<< 7) 7 1
  show (odd <<< 7) &&& (2 ^ 1 - 1) * 2 ^ 7 = _
  rw [hand, Nat.shiftLeft_eq]
  omega

theorem nackMiddle_toNat (odd : Nat) (heven : even < 1024) :
    (UInt8.ofNat (((odd <<< 7) &&& 0x80) ||| 0x40 ||| ((even >>> 5) &&& 0x1F))).toNat = odd % 2 * 128 + 64 + even / 32 := by
  have hand := and_mask (even >>> 5) 0 5
  have hlow : (even >>> 5) &&& 0x1F = even / 32 := by
    show (even >>> 5) &&& (2 ^ 5 - 1) * 2 ^ 0 = _
    rw [hand, Nat.shiftRight_eq_div_pow]
    omega
  have hmore : odd % 2 * 128 ||| 0x40 = odd % 2 * 128 + 64 := or_eq_add (s := 7) (by omega) (by omega)
  rw [nackLow_eq, hlow, hmore, or_eq_add (s := 6) (by omega) (by omega)]
  show _ % 2 ^ 8 = _
  omega

theorem nackEven_eq (even : Nat) : (even <<< 3) &&& 0xF8 = even % 32 * 8 := by
  have hand := and_mask (even <<< 3) 3 5
  show (even <<< 3) &&& (2 ^ 5 - 1) * 2 ^ 3 = _
  rw [hand, Nat.shiftLeft_eq]
  omega

theorem nackNext_eq (hnext : next < 1024) : (next >>> 9) &&& 0x01 = next / 512 := by
  have hand := and_mask (next >>> 9) 0 1
  show (next >>> 9) &&& (2 ^ 1 - 1) * 2 ^ 0 = _
  rw [hand, Nat.shiftRight_eq_div_pow]
  omega

theorem nackTail_toNat (even : Nat) (hnext : next < 1024) :
    (UInt8.ofNat (((even <<< 3) &&& 0xF8) ||| 0x04 ||| ((next >>> 9) &&& 0x01))).toNat = even % 32 * 8 + 4 + next / 512 := by
  have hmore : even % 32 * 8 ||| 0x04 = even % 32 * 8 + 4 := or_eq_add (s := 3) (by omega) (by omega)
  rw [nackEven_eq, nackNext_eq hnext, hmore, or_eq_add (s := 2) (by omega) (by omega)]
  show _ % 2 ^ 8 = _
  omega

/-- A sequence number in the last bit of a byte, a byte and the first bit of another. -/
theorem readOdd_eq (next : Nat) (byte byte' byte'' : UInt8) (h : byte.toNat % 2 = next / 512)
    (h' : byte'.toNat = next / 2 % 256) (h'' : byte''.toNat / 128 = next % 2) :
    ((byte &&& 0x01).toNat <<< 9) ||| (byte'.toNat <<< 1) ||| ((byte'' &&& 0x80) >>> 7).toNat = next := by
  have hlow : ((byte'' &&& 0x80) >>> 7).toNat = _ := readField (s := 7) (w := 1) byte'' rfl rfl (by decide)
  have hand := and_mask byte.toNat 0 1
  have hhigh : (byte &&& 0x01).toNat = next / 512 := by
    show byte.toNat &&& (2 ^ 1 - 1) * 2 ^ 0 = _
    rw [hand]
    omega
  have hor : next / 512 * 2 ^ 9 ||| next / 2 % 256 * 2 ^ 1 = next / 512 * 2 ^ 9 + next / 2 % 256 * 2 ^ 1 :=
    or_eq_add (s := 9) (by omega) (by omega)
  rw [hhigh, h', hlow, Nat.shiftLeft_eq, Nat.shiftLeft_eq, hor, or_eq_add (s := 1) (by omega) (by omega)]
  omega

/-- A sequence number in the last five bits of a byte and the first five bits of another. -/
theorem readEven_eq (byte byte' : UInt8) (heven : even < 1024) (h : byte.toNat % 32 = even / 32)
    (h' : byte'.toNat / 8 = even % 32) :
    ((byte &&& 0x1F).toNat <<< 5) ||| ((byte' &&& 0xF8) >>> 3).toNat = even := by
  have hlow : ((byte' &&& 0xF8) >>> 3).toNat = _ := readField (s := 3) (w := 5) byte' rfl rfl (by decide)
  have hand := and_mask byte.toNat 0 5
  have hhigh : (byte &&& 0x1F).toNat = even / 32 := by
    show byte.toNat &&& (2 ^ 5 - 1) * 2 ^ 0 = _
    rw [hand]
    omega
  rw [hhigh, hlow, Nat.shiftLeft_eq, or_eq_add (s := 5) (by omega) (by omega)]
  omega

end

/-- The two bytes that `writeNacks` begins with, and those behind them, which hold the further sequence numbers. -/
structure NackBytes (odd : Nat) (nacks : List Nat) (byte3 byte4 : UInt8) (tail : Bytes) : Prop where
  bytes : writeNacks odd nacks = byte3 :: byte4 :: tail
  high : byte3.toNat = odd / 2 % 256
  low : byte4.toNat / 128 = odd % 2
  more : (byte4 &&& 0x40) >>> 6 = if nacks = [] then 0 else 1
  length : 2 + tail.length = fieldsSize (nacks.length + 1)
  read : nacks ≠ [] → ∀ rest, readNacks byte4 (tail ++ rest) =
    some (nacks, UInt16.ofNat (fieldsSize (nacks.length + 1) - 2))

theorem nackBytes : ∀ (odd : Nat) (nacks : List Nat), NacksFit nacks → ∃ byte3 byte4 tail, NackBytes odd nacks byte3 byte4 tail
  | odd, [], _ => by
    have hlow : (UInt8.ofNat ((odd <<< 7) &&& 0x80)).toNat = odd % 2 * 128 := by
      rw [nackLow_eq]
      show _ % 2 ^ 8 = _
      omega
    refine ⟨_, _, [], rfl, nackHigh_toNat odd, by omega, ?_, rfl, fun hne => absurd rfl hne⟩
    rw [← UInt8.toNat_inj, readField (s := 6) (w := 1) _ rfl rfl (by decide), hlow]
    show _ = 0
    omega
  | odd, [even], hfit => by
    have heven := hfit even List.mem_cons_self
    have hmiddle := nackMiddle_toNat odd heven
    have hlast : (UInt8.ofNat ((even <<< 3) &&& 0xF8)).toNat = even % 32 * 8 := by
      rw [nackEven_eq]
      show _ % 2 ^ 8 = _
      omega
    refine ⟨_, _, _, rfl, nackHigh_toNat odd, by omega, ?_, ?_, fun _ rest => ?_⟩
    · rw [← UInt8.toNat_inj, readField (s := 6) (w := 1) _ rfl rfl (by decide), hmiddle]
      show _ = 1
      omega
    · exact (by decide : 3 = fieldsSize 2)
    · generalize UInt8.ofNat (((odd <<< 7) &&& 0x80) ||| 0x40 ||| ((even >>> 5) &&& 0x1F)) = byte at hmiddle ⊢
      generalize UInt8.ofNat ((even <<< 3) &&& 0xF8) = byte' at hlast ⊢
      have hnack := readEven_eq byte byte' heven (by omega) (by omega)
      have hmore : ¬ (byte' &&& 0x04) >>> 2 = 1 := by
        rw [← UInt8.toNat_inj, readField (s := 2) (w := 1) _ rfl rfl (by decide), hlast]
        show ¬ _ = 1
        omega
      rw [List.singleton_append, readNacks.eq_def]
      simp only [hnack]
      rw [if_neg hmore]
      exact congrArg (fun size => some ([even], size)) (by decide : (1 : UInt16) = UInt16.ofNat (fieldsSize 2 - 2))
  | odd, even :: next :: nacks, hfit => by
    have heven := hfit even List.mem_cons_self
    have hnext := hfit next (List.mem_cons_of_mem _ List.mem_cons_self)
    obtain ⟨byte3, byte4, tail, ih⟩ := nackBytes next nacks fun n hn =>
      hfit n (List.mem_cons_of_mem _ (List.mem_cons_of_mem _ hn))
    have hmiddle := nackMiddle_toNat odd heven
    have htail := nackTail_toNat even hnext
    refine ⟨UInt8.ofNat ((odd >>> 1) &&& 0xFF), UInt8.ofNat (((odd <<< 7) &&& 0x80) ||| 0x40 ||| ((even >>> 5) &&& 0x1F)),
      UInt8.ofNat (((even <<< 3) &&& 0xF8) ||| 0x04 ||| ((next >>> 9) &&& 0x01)) :: byte3 :: byte4 :: tail,
      ?_, nackHigh_toNat odd, ?_, ?_, ?_, fun _ rest => ?_⟩
    · rw [writeNacks, ih.bytes]
    · omega
    · rw [← UInt8.toNat_inj, readField (s := 6) (w := 1) _ rfl rfl (by decide), hmiddle]
      show _ = 1
      omega
    · have hlen := ih.length
      rw [fieldsSize] at hlen ⊢
      rw [List.length_cons, List.length_cons, List.length_cons, List.length_cons, List.length_cons]
      omega
    · generalize UInt8.ofNat (((odd <<< 7) &&& 0x80) ||| 0x40 ||| ((even >>> 5) &&& 0x1F)) = byte at hmiddle ⊢
      generalize UInt8.ofNat (((even <<< 3) &&& 0xF8) ||| 0x04 ||| ((next >>> 9) &&& 0x01)) = byte' at htail ⊢
      have hhigh := ih.high
      have hlow := ih.low
      have hnack := readEven_eq byte byte' heven (by omega) (by omega)
      have hnack' := readOdd_eq next byte' byte3 byte4 (by omega) hhigh hlow
      have hmore : (byte' &&& 0x04) >>> 2 = 1 := by
        rw [← UInt8.toNat_inj, readField (s := 2) (w := 1) _ rfl rfl (by decide), htail]
        show _ = 1
        omega
      rw [List.cons_append, List.cons_append, List.cons_append, readNacks]
      simp only [hnack, hnack', ih.more]
      rw [if_pos hmore]
      cases nacks with
      | nil =>
        rw [if_pos rfl, if_neg (by decide)]
        exact congrArg (fun size => some ([even, next], size)) (by decide : (3 : UInt16) = UInt16.ofNat (fieldsSize 3 - 2))
      | cons nack nacks =>
        have hread := ih.read (List.cons_ne_nil _ _) rest
        have hsize : fieldsSize ((even :: next :: nack :: nacks).length + 1) - 2 =
            fieldsSize ((nack :: nacks).length + 1) - 2 + 3 := by
          rw [fieldsSize, fieldsSize, List.length_cons, List.length_cons, List.length_cons]
          omega
        rw [if_neg (List.cons_ne_nil _ _), if_pos rfl, hread, hsize, UInt16.ofNat_add]
        rfl

namespace LteRlcAmHeader

/-- The header that `LteRlcAm` builds of a STATUS PDU. -/
def forStatus (ackSn : SequenceNumber10) (nacks : List Nat) : LteRlcAmHeader :=
  (nacks.foldl (fun h nack => h.pushNack nack) (setControlPdu statusPdu {})).setAckSn ackSn

theorem pushNacks_eq (h : LteRlcAmHeader) (nacks : List Nat)
    (hlength : h.m_headerLength = UInt16.ofNat (2 + fieldsSize h.m_nackSnList.length)) :
    nacks.foldl (fun h nack => h.pushNack nack) h =
      { h with
        m_headerLength := UInt16.ofNat (2 + fieldsSize (h.m_nackSnList ++ nacks).length)
        m_nackSnList := h.m_nackSnList ++ nacks } := by
  induction nacks generalizing h with
  | nil =>
    rw [List.foldl_nil, List.append_nil, ← hlength]
  | cons nack nacks ih =>
    have hpush : (h.pushNack nack).m_headerLength = UInt16.ofNat (2 + fieldsSize (h.pushNack nack).m_nackSnList.length) := by
      show (if (h.m_nackSnList ++ [nack]).length % 2 = 0 then h.m_headerLength + 1 else h.m_headerLength + 2) =
        UInt16.ofNat (2 + fieldsSize (h.m_nackSnList ++ [nack]).length)
      rw [List.length_append, List.length_singleton, fieldsSize_succ (h.m_nackSnList.length + 1) (Nat.succ_pos _),
        Nat.add_sub_cancel, hlength, ← Nat.add_assoc]
      by_cases hodd : (h.m_nackSnList.length + 1) % 2 = 0
      · rw [if_pos hodd, if_pos (by omega)]
        exact (UInt16.ofNat_add _ _).symm
      · rw [if_neg hodd, if_neg (by omega)]
        exact (UInt16.ofNat_add _ _).symm
    have happend : (h.pushNack nack).m_nackSnList ++ nacks = h.m_nackSnList ++ nack :: nacks := List.append_assoc _ _ _
    rw [List.foldl_cons, ih _ hpush, happend]
    rfl

theorem forStatus_eq (ackSn : SequenceNumber10) (nacks : List Nat) :
    forStatus ackSn nacks =
      { setControlPdu statusPdu {} with
        m_headerLength := UInt16.ofNat (2 + fieldsSize nacks.length)
        m_nackSnList := nacks
        m_ackSn := ackSn } := by
  rw [forStatus, pushNacks_eq _ _ rfl]
  rfl

/-- What is read back of a STATUS header. -/
def statusReceivedAt (ackSn : SequenceNumber10) (nacks : List Nat) : LteRlcAmHeader :=
  { m_headerLength := UInt16.ofNat (2 + fieldsSize nacks.length)
    m_dataControlBit := controlPdu
    m_controlPduType := statusPdu
    m_ackSn := { m_value := ackSn.m_value }
    m_nackSnList := nacks }

/-- The first byte of a STATUS header. -/
def statusByte (ackSn : SequenceNumber10) : UInt8 :=
  ((controlPdu <<< 7) &&& (0x80 : UInt8)) ||| ((statusPdu <<< 4) &&& (0x70 : UInt8)) |||
    UInt8.ofNat ((ackSn.m_value >>> 6) &&& 0x0F)

theorem statusByte_toNat {n : SequenceNumber10} (hn : n.m_value < 1024) : (statusByte n).toNat = n.m_value / 64 := by
  have hand := and_mask (n.m_value >>> 6) 0 4
  have hhigh : (n.m_value >>> 6) &&& 0x0F = n.m_value / 64 := by
    show (n.m_value >>> 6) &&& (2 ^ 4 - 1) * 2 ^ 0 = _
    rw [hand, Nat.shiftRight_eq_div_pow]
    omega
  show (0 ||| 0 ||| ((n.m_value >>> 6) &&& 0x0F) % 2 ^ 8) = _
  rw [hhigh, Nat.zero_or, Nat.zero_or]
  omega

theorem ackLow_eq (ack : Nat) : (ack <<< 2) &&& 0xFC = ack % 64 * 4 := by
  have hand := and_mask (ack <<< 2) 2 6
  show (ack <<< 2) &&& (2 ^ 6 - 1) * 2 ^ 2 = _
  rw [hand, Nat.shiftLeft_eq]
  omega

theorem readAck_eq {byte byte' : UInt8} {ack : Nat} (hack : ack < 1024) (h : byte.toNat = ack / 64)
    (h' : byte'.toNat / 4 = ack % 64) : ((byte &&& 0x0F).toNat <<< 6) ||| ((byte' &&& 0xFC) >>> 2).toNat = ack := by
  have hlow : ((byte' &&& 0xFC) >>> 2).toNat = _ := readField (s := 2) (w := 6) byte' rfl rfl (by decide)
  have hand := and_mask byte.toNat 0 4
  have hhigh : (byte &&& 0x0F).toNat = ack / 64 := by
    show byte.toNat &&& (2 ^ 4 - 1) * 2 ^ 0 = _
    rw [hand]
    omega
  rw [hhigh, hlow, Nat.shiftLeft_eq, or_eq_add (s := 6) (by omega) (by omega)]
  omega

/-- The second byte, when no sequence number is missing and when `odd` is the first one. -/
theorem ackByte_toNat (ack : Nat) : (UInt8.ofNat ((ack <<< 2) &&& 0xFC)).toNat = ack % 64 * 4 := by
  rw [ackLow_eq]
  show _ % 2 ^ 8 = _
  omega

theorem ackNackByte_toNat (ack : Nat) {odd : Nat} (hodd : odd < 1024) :
    (UInt8.ofNat (((ack <<< 2) &&& 0xFC) ||| 0x02 ||| ((odd >>> 9) &&& 0x01))).toNat = ack % 64 * 4 + 2 + odd / 512 := by
  have hmore : ack % 64 * 4 ||| 0x02 = ack % 64 * 4 + 2 := or_eq_add (s := 2) (by omega) (by omega)
  rw [ackLow_eq, nackNext_eq hodd, hmore, or_eq_add (s := 1) (by omega) (by omega)]
  show _ % 2 ^ 8 = _
  omega

variable {ackSn : SequenceNumber10} {nacks : List Nat}

/-- What is read of the first two bytes. -/
theorem deserialize_status (byte1 byte2 : UInt8) (hack : ackSn.m_value < 1024) (hbyte1 : byte1.toNat = ackSn.m_value / 64)
    (hbyte2 : byte2.toNat / 4 = ackSn.m_value % 64) :
    (byte1 &&& 0x80) >>> 7 = controlPdu ∧ (byte1 &&& 0x70) >>> 4 = statusPdu ∧
      ((byte1 &&& 0x0F).toNat <<< 6) ||| ((byte2 &&& 0xFC) >>> 2).toNat = ackSn.m_value ∧
      (SequenceNumber10.ofValue 0xffff).assign ackSn.m_value = { m_value := ackSn.m_value } := by
  refine ⟨?_, ?_, readAck_eq hack hbyte1 hbyte2, ?_⟩
  · rw [← UInt8.toNat_inj, readField (s := 7) (w := 1) _ rfl rfl (by decide), hbyte1]
    show _ = 0
    omega
  · rw [← UInt8.toNat_inj, readField (s := 4) (w := 3) _ rfl rfl (by decide), hbyte1]
    show _ = 0
    omega
  · rw [SequenceNumber10.assign, Nat.mod_eq_of_lt hack]
    rfl

/-- What is written of a STATUS header. -/
def statusBytes (ackSn : SequenceNumber10) : List Nat → Bytes
  | [] => [statusByte ackSn, UInt8.ofNat ((ackSn.m_value <<< 2) &&& 0xFC)]
  | oddNack :: nacks =>
    statusByte ackSn :: UInt8.ofNat (((ackSn.m_value <<< 2) &&& 0xFC) ||| 0x02 ||| ((oddNack >>> 9) &&& 0x01)) ::
      writeNacks oddNack nacks

theorem forStatus_serialize (ackSn : SequenceNumber10) (nacks : List Nat) :
    (forStatus ackSn nacks).serialize = some (statusBytes ackSn nacks) := by
  rw [forStatus_eq]
  cases nacks with
  | nil => rfl
  | cons oddNack nacks => rfl

theorem forStatus_deserialize (hack : ackSn.m_value < 1024) (hfit : NacksFit nacks) :
    (statusBytes ackSn nacks).length = 2 + fieldsSize nacks.length ∧
      ∀ rest, LteRlcAmHeader.deserialize (statusBytes ackSn nacks ++ rest) = some (statusReceivedAt ackSn nacks) := by
  have hbyte1 := statusByte_toNat hack
  cases nacks with
  | nil =>
    have hbyte2 := ackByte_toNat ackSn.m_value
    refine ⟨rfl, fun rest => ?_⟩
    rw [statusBytes]
    generalize UInt8.ofNat ((ackSn.m_value <<< 2) &&& 0xFC) = byte2 at hbyte2 ⊢
    obtain ⟨hcontrol, htype, hack', hassign⟩ := deserialize_status (statusByte ackSn) byte2 hack hbyte1 (by omega)
    have hmore : ¬ (byte2 &&& 0x02) >>> 1 = 1 := by
      rw [← UInt8.toNat_inj, readField (s := 1) (w := 1) _ rfl rfl (by decide), hbyte2]
      show ¬ _ = 1
      omega
    rw [List.cons_append, List.cons_append, LteRlcAmHeader.deserialize, deserializeControl.eq_def, hcontrol,
      if_neg (by decide)]
    simp only [htype, hack', hassign]
    rw [if_neg hmore]
    rfl
  | cons odd nacks =>
    have hodd := hfit odd List.mem_cons_self
    have hbyte2 := ackNackByte_toNat ackSn.m_value hodd
    obtain ⟨byte3, byte4, tail, hnacks⟩ := nackBytes odd nacks fun n hn => hfit n (List.mem_cons_of_mem _ hn)
    rw [statusBytes, hnacks.bytes]
    refine ⟨?_, fun rest => ?_⟩
    · have hlength := hnacks.length
      rw [List.length_cons, List.length_cons, List.length_cons, List.length_cons, List.length_cons]
      omega
    · generalize UInt8.ofNat (((ackSn.m_value <<< 2) &&& 0xFC) ||| 0x02 ||| ((odd >>> 9) &&& 0x01)) = byte2 at hbyte2 ⊢
      have hhigh := hnacks.high
      have hlow := hnacks.low
      obtain ⟨hcontrol, htype, hack', hassign⟩ := deserialize_status (statusByte ackSn) byte2 hack hbyte1 (by omega)
      have hmore : (byte2 &&& 0x02) >>> 1 = 1 := by
        rw [← UInt8.toNat_inj, readField (s := 1) (w := 1) _ rfl rfl (by decide), hbyte2]
        show _ = 1
        omega
      have hnack := readOdd_eq odd byte2 byte3 byte4 (by omega) hhigh hlow
      rw [List.cons_append, List.cons_append, List.cons_append, List.cons_append, LteRlcAmHeader.deserialize,
        deserializeControl, hcontrol, if_neg (by decide)]
      simp only [htype, hack', hassign, hnack, hnacks.more]
      rw [if_pos hmore]
      cases nacks with
      | nil =>
        have hsize : (4 : UInt16) = UInt16.ofNat (2 + fieldsSize 1) := by decide
        rw [if_pos rfl, if_neg (by decide), hsize]
        rfl
      | cons nack nacks =>
        have hread := hnacks.read (List.cons_ne_nil _ _) rest
        have hsize : 2 + fieldsSize (odd :: nack :: nacks).length =
            4 + (fieldsSize ((nack :: nacks).length + 1) - 2) := by
          rw [fieldsSize, fieldsSize, List.length_cons, List.length_cons]
          omega
        rw [if_neg (List.cons_ne_nil _ _), if_pos rfl, hread, statusReceivedAt, hsize, UInt16.ofNat_add]
        rfl

theorem forStatus_readsBack_iff (hack : ackSn.m_value < 1024) (hfit : NacksFit nacks) :
    (forStatus ackSn nacks).RoundTrips ↔ 2 + fieldsSize nacks.length < 2 ^ 16 := by
  obtain ⟨hbytes, hread⟩ := forStatus_deserialize hack hfit
  have hserialize := forStatus_serialize ackSn nacks
  have hsize : (forStatus ackSn nacks).getSerializedSize = (UInt16.ofNat (2 + fieldsSize nacks.length)).toNat := by
    rw [forStatus_eq]
    rfl
  constructor
  · rintro ⟨bytes', hserialize', hsize', -⟩
    obtain rfl : statusBytes ackSn nacks = bytes' := Option.some.inj (hserialize.symm.trans hserialize')
    rw [hbytes, hsize] at hsize'
    exact (toNat_ofNat_eq_iff _).mp hsize'.symm
  · intro hlt
    have hnat := (toNat_ofNat_eq_iff _).mpr hlt
    refine ⟨_, hserialize, by rw [hbytes, hsize, hnat], fun rest => ⟨_, hread rest, ?_, ?_, fun hdata => ?_, fun _ => ?_⟩⟩
    · rw [hbytes]
      exact hnat
    · rw [forStatus_eq]
      rfl
    · rw [forStatus_eq] at hdata
      exact absurd hdata (by decide : ¬ controlPdu = dataPdu)
    · rw [forStatus_eq]
      exact ⟨rfl, rfl, rfl⟩

end LteRlcAmHeader

/-- The headers of data PDUs that `LteRlcAm` builds are read back exactly when their length can be counted and the offset
of the segment fits in one byte, the headers of STATUS PDUs exactly when their length can be counted. -/
theorem am_header_exact (f : LteRlcAmHeader.DataFields) (ackSn : SequenceNumber10) (nacks : List Nat)
    (hsn : f.sequenceNumber.m_value < 1024) (hfits : Fits f.lengthIndicators) (hack : ackSn.m_value < 1024)
    (hnacks : NacksFit nacks) :
    ((LteRlcAmHeader.forFields f).RoundTrips ↔
      f.lengthIndicators.length ≤ 43687 ∧ (f.segmentOffset &&& 0x7FFF).toNat < 256) ∧
    ((LteRlcAmHeader.forStatus ackSn nacks).RoundTrips ↔ nacks.length ≤ 43688) := by
  obtain ⟨hframed, hlength⟩ := LteRlcAmHeader.forFields_framed hsn hfits
  have hdata := hframed.readsBack_iff hlength
  have hoffset : (LteRlcAmHeader.forFields f).m_segmentOffset = f.segmentOffset &&& 0x7FFF := rfl
  rw [hoffset, fieldsSize] at hdata
  have hstatus := LteRlcAmHeader.forStatus_readsBack_iff hack hnacks
  rw [fieldsSize] at hstatus
  constructor
  · rw [hdata]
    omega
  · rw [hstatus]
    omega

theorem am_header_exact_two :
    ((LteRlcAmHeader.forFields ⟨1, 0, 2, .ofValue 7, 1, 255, [40, 2047]⟩).RoundTrips ↔
      [(40 : UInt16), 2047].length ≤ 43687 ∧ ((255 : UInt16) &&& 0x7FFF).toNat < 256) ∧
    ((LteRlcAmHeader.forStatus (.ofValue 9) [3, 5, 1023]).RoundTrips ↔ [3, 5, 1023].length ≤ 43688) :=
  am_header_exact ⟨1, 0, 2, .ofValue 7, 1, 255, [40, 2047]⟩ (.ofValue 9) [3, 5, 1023] (by decide) (by simp [Fits])
    (by decide) (by simp [NacksFit])

/-- The offset 256 is read as 1. -/
theorem not_am_header_exact_offset :
    ¬ ∀ f : LteRlcAmHeader.DataFields, f.sequenceNumber.m_value < 1024 → f.segmentOffset.toNat < 2 ^ 15 →
      Fits f.lengthIndicators → (LteRlcAmHeader.forFields f).RoundTrips := by
  intro hall
  have htrips := hall ⟨1, 0, 0, .ofValue 7, 1, 256, []⟩ (by decide) (by decide) (by simp [Fits])
  obtain ⟨hframed, hlength⟩ := LteRlcAmHeader.forFields_framed (f := ⟨1, 0, 0, .ofValue 7, 1, 256, []⟩) (by decide)
    (by simp [Fits])
  have hoffset := ((hframed.readsBack_iff hlength).mp htrips).2
  exact absurd hoffset (by decide)

end Ns3.Lte
