import Ns3.Internet.Ipv4Header

/-!
# What an `Ipv4Header` is read back as

The bytes of the header as the writer lays them out, for any fields; the reader takes any bytes for
such a layout. The checksum is the complement of a sum that is not 0, so with it the sum is all ones.
-/

namespace Ns3.Internet

open Ns3.Lib Ns3.Network

namespace Ipv4Header

/-! ### The setters -/

/-- What holds of a header that only setters were called on. -/
structure Made (h : Ipv4Header) : Prop where
  flags : h.m_flags &&& 4 = 0
  offset : h.m_fragmentOffset.toNat % 8 = 0
  headerSize : h.m_headerSize = 20

theorem Made.set {h h' : Ipv4Header} {s : Setter} (hm : h.Made) (hs : h.set s = some h') :
    h'.Made := by
  have hflags : ∀ f g : BitVec 3, f &&& 4 = 0 → (g = 1 ∨ g = 2) →
      (f ||| g) &&& 4 = 0 ∧ (f &&& ~~~g) &&& 4 = 0 := by decide
  cases s with
  | setFragmentOffset offsetBytes =>
    rw [Ipv4Header.set] at hs
    split at hs
    · cases hs
    · next h0 =>
      have h0 := UInt16.toNat_inj.mpr (not_not.mp h0)
      rw [UInt16.toNat_and] at h0
      cases hs
      exact ⟨hm.flags, (Nat.and_two_pow_sub_one_eq_mod _ 3).symm.trans h0, hm.headerSize⟩
  | setMoreFragments => cases hs; exact ⟨(hflags _ 2 hm.flags (.inr rfl)).1, hm.offset, hm.headerSize⟩
  | setLastFragment => cases hs; exact ⟨(hflags _ 2 hm.flags (.inr rfl)).2, hm.offset, hm.headerSize⟩
  | setDontFragment => cases hs; exact ⟨(hflags _ 1 hm.flags (.inl rfl)).1, hm.offset, hm.headerSize⟩
  | setMayFragment => cases hs; exact ⟨(hflags _ 1 hm.flags (.inl rfl)).2, hm.offset, hm.headerSize⟩
  | _ => cases hs; exact ⟨hm.flags, hm.offset, hm.headerSize⟩

theorem Made.run {h h' : Ipv4Header} {setters : List Setter} (hm : h.Made)
    (hrun : setters.foldlM Ipv4Header.set h = some h') : h'.Made := by
  induction setters generalizing h with
  | nil => cases hrun; exact hm
  | cons s setters ih =>
    obtain ⟨h₁, hs, hrest⟩ := Option.bind_eq_some_iff.mp hrun
    exact ih (hm.set hs) hrest

/-! ### The bytes -/

end Ipv4Header

/-- The first twenty bytes of a header, as the words they are. -/
structure Ipv4Words where
  verIhl : UInt8
  tos : UInt8
  size : UInt16
  identification : UInt16
  flagsFrag : UInt8
  frag : UInt8
  ttl : UInt8
  protocol : UInt8
  checksum : UInt16
  source : UInt32
  destination : UInt32

namespace Ipv4Words

/-- The bytes behind the first. -/
def tail (w : Ipv4Words) : List UInt8 :=
  w.tos :: (be16 w.size ++ (be16 w.identification ++ (w.flagsFrag :: w.frag :: w.ttl :: w.protocol ::
    (le16 w.checksum ++ (be32 w.source ++ be32 w.destination)))))

def bytes (w : Ipv4Words) : List UInt8 := w.verIhl :: w.tail

/-- The size that the first byte claims. -/
def headerSize (w : Ipv4Words) : UInt16 := (w.verIhl &&& 0x0f).toUInt16 * 4

@[simp] theorem length_bytes (w : Ipv4Words) : w.bytes.length = 20 := rfl

/-- Twenty bytes are such words; the third and fourth byte are the size. -/
theorem exists_bytes {bs : List UInt8} (hlen : bs.length = 20) :
    ∃ w : Ipv4Words, w.bytes = bs ∧ bs[0]? = some w.verIhl ∧
      (bs.drop 2).take 2 = be16 w.size := by
  match bs, hlen with
  | [b0, b1, b2, b3, b4, b5, b6, b7, b8, b9, b10, b11, b12, b13, b14, b15, b16, b17, b18, b19], _ =>
    obtain ⟨size, hsize, -⟩ := exists_be16 b2 b3
    obtain ⟨identification, hid, -⟩ := exists_be16 b4 b5
    obtain ⟨checksum, hchecksum⟩ := exists_le16 b10 b11
    obtain ⟨source, hsource⟩ := exists_be32 b12 b13 b14 b15
    obtain ⟨destination, hdestination⟩ := exists_be32 b16 b17 b18 b19
    refine ⟨⟨b0, b1, size, identification, b6, b7, b8, b9, checksum, source, destination⟩, ?_, rfl,
      hsize.symm⟩
    rw [bytes, tail, hsize, hid, hchecksum, hsource, hdestination]
    rfl

end Ipv4Words

namespace Ipv4Header

/-- The words of a header, with a checksum. -/
def words (h : Ipv4Header) (checksum : UInt16) : Ipv4Words where
  verIhl := 0x45
  tos := h.m_tos
  size := h.m_payloadSize + 20
  identification := h.m_identification
  flagsFrag := h.flagsFrag
  frag := (h.fragmentOffset &&& 0xff).toUInt8
  ttl := h.m_ttl
  protocol := h.m_protocol
  checksum := checksum
  source := h.m_source
  destination := h.m_destination

theorem words_version (h : Ipv4Header) (checksum : UInt16) :
    (h.words checksum).verIhl >>> 4 = 4 :=
  show (0x45 : UInt8) >>> 4 = 4 by decide

theorem words_headerSize (h : Ipv4Header) (checksum : UInt16) :
    (h.words checksum).headerSize = 20 :=
  show ((0x45 : UInt8) &&& 0x0f).toUInt16 * 4 = 20 by decide

/-- The bytes of a header, with a checksum. -/
def bytes (h : Ipv4Header) (checksum : UInt16) : List UInt8 := (h.words checksum).bytes

@[simp] theorem length_bytes (h : Ipv4Header) (checksum : UInt16) : (h.bytes checksum).length = 20 :=
  rfl

theorem writeFields_writes (h : Ipv4Header) : Writes h.writeFields (h.bytes 0) := by
  rw [bytes, Ipv4Words.bytes, Ipv4Words.tail]
  refine Writes.u8 (Writes.u8 ?_)
  refine (writeHtonU16_writes _).bind ((writeHtonU16_writes _).bind ?_)
  refine Writes.u8 (Writes.u8 (Writes.u8 (Writes.u8 ?_)))
  refine (show Writes _ (le16 0) from writeHtonU16_writes 0).bind ?_
  exact (writeHtonU32_writes _).bind (writeHtonU32_writes _)

/-- The header that the reader makes of words. -/
def ofWords (h : Ipv4Header) (w : Ipv4Words) : Ipv4Header :=
  { h with
    m_tos := w.tos, m_identification := w.identification, m_ttl := w.ttl, m_protocol := w.protocol
    m_checksum := w.checksum, m_source := w.source, m_destination := w.destination
    m_payloadSize := w.size - w.headerSize
    m_flags := flagsOf w.flagsFrag
    m_fragmentOffset := ((w.flagsFrag &&& 0x1f).toUInt16 <<< 8 ||| w.frag.toUInt16) <<< 3
    m_headerSize := w.headerSize }

theorem readFields_reads (h : Ipv4Header) (w : Ipv4Words) :
    Reads (h.readFields w.headerSize) (h.ofWords w) w.tail := by
  refine Reads.u8 ((readNtohU16_reads _).bind ((readNtohU16_reads _).bind (Reads.u8_prev ?_)))
  refine Reads.u8 (Reads.u8 (Reads.u8 (Reads.u8 ?_)))
  refine (readU16_reads _).bind ((readNtohU32_reads _).bind ?_)
  exact (readNtohU32_reads _).of_bind_pure rfl

/-! ### The checksum -/

/-- The checksum that is written. -/
def checksumOf (h : Ipv4Header) : UInt16 :=
  if h.m_calcChecksum then UInt16.ofNat (65535 - endAround (wordSum (h.bytes 0))) else 0

/-- The bytes before the checksum, and those behind it. -/
def front (h : Ipv4Header) : List UInt8 := (h.bytes 0).take 10

def back (h : Ipv4Header) : List UInt8 := (h.bytes 0).drop 12

@[simp] theorem length_front (h : Ipv4Header) : h.front.length = 10 := rfl

theorem bytes_eq (h : Ipv4Header) (checksum : UInt16) :
    h.bytes checksum = h.front ++ (le16 checksum ++ h.back) := rfl

/-- The sum of the words is not 0, and the checksum is its complement. -/
theorem endAround_bytes (h : Ipv4Header) (hcalc : h.m_calcChecksum) :
    endAround (wordSum (h.bytes h.checksumOf)) = 65535 := by
  have hpos : 0 < 0 + wordSum (h.front ++ (le16 0 ++ h.back)) := by
    show 0 < 0 + ((0x45 : UInt8).toNat + _ + _)
    have h45 : (0x45 : UInt8).toNat = 69 := rfl
    omega
  have hsum := endAround_with_complement (a := h.front) (b := h.back) (by rw [length_front]) hpos
  rw [← bytes_eq, ← bytes_eq, Nat.zero_add, Nat.zero_add] at hsum
  rw [checksumOf, if_pos hcalc]
  exact hsum

theorem writeChecksum_eq (h : Ipv4Header) {pre : List UInt8} (post : List UInt8) (pos : Nat) :
    ∃ pos', writeChecksum pre.length ⟨pre ++ (h.bytes 0 ++ post), pos⟩ =
      some ((), ⟨pre ++ (h.bytes (UInt16.ofNat (65535 - endAround (wordSum (h.bytes 0)))) ++ post),
        pos'⟩) := by
  have hsum := calculateIpChecksum_reads 20 0 (show (h.bytes 0).length = 20 from rfl) (by decide) pre
    post
  rw [show (0 : UInt32).toNat = 0 from rfl, Nat.zero_add] at hsum
  rw [writeChecksum, seek_back, Wire.bind_eq hsum, seek_back]
  generalize UInt16.ofNat (65535 - endAround (wordSum (h.bytes 0))) = checksum
  have hpatch := (next_turns h.front).bind (f := fun _ => writeU16 checksum)
    (writeU16_writes checksum (le16 0) rfl) pre (h.back ++ post)
  refine ⟨pre.length + (h.front ++ le16 checksum).length, ?_⟩
  rw [bytes_eq, bytes_eq]
  simp only [List.append_assoc] at hpatch ⊢
  exact hpatch

theorem serialize_eq (h : Ipv4Header) {old : List UInt8} (pre post : List UInt8)
    (hold : old.length = 20) :
    h.serialize ⟨pre ++ (old ++ post), pre.length⟩ =
      some ((), ⟨pre ++ (h.bytes h.checksumOf ++ post), pre.length⟩) := by
  have hwrite := h.writeFields_writes old hold pre post
  refine Wire.aside_eq ?_
  rw [Wire.bind_eq (show Wire.tell _ = some (pre.length, _) from rfl), Wire.bind_eq hwrite, checksumOf]
  split
  · exact h.writeChecksum_eq post _
  · exact ⟨_, rfl⟩

/-! ### Reading -/

theorem flagsOf_addFlags : ∀ (x : Fin 32) (f : BitVec 3), f &&& 4 = 0 →
    flagsOf (addFlags (UInt8.ofNat x) f) = f ∧
      addFlags (UInt8.ofNat x) f &&& 0x1f = UInt8.ofNat x := by
  decide

theorem toNat_fragmentOffset (h : Ipv4Header) :
    h.fragmentOffset.toNat = h.m_fragmentOffset.toNat / 8 := by
  rw [fragmentOffset, UInt32.toNat_div, UInt16.toNat_toUInt32]
  rfl

theorem highOffset (h : Ipv4Header) :
    ((h.fragmentOffset >>> 8) &&& 0x1f).toUInt8 = UInt8.ofNat (h.m_fragmentOffset.toNat / 2048) := by
  have hoff := h.m_fragmentOffset.toNat_lt
  apply UInt8.toNat_inj.mp
  rw [UInt32.toNat_toUInt8, UInt32.toNat_and, UInt32.toNat_shiftRight, toNat_fragmentOffset,
    UInt8.toNat_ofNat']
  show (_ >>> 8 &&& 2 ^ 5 - 1) % 256 = _ % 256
  rw [Nat.shiftRight_eq_div_pow, Nat.and_two_pow_sub_one_eq_mod]
  omega

/-- The reader's header is the one that was written. -/
theorem Made.ofWords {h : Ipv4Header} (hm : h.Made) (h₀ : Ipv4Header) (checksum : UInt16) :
    h₀.ofWords (h.words checksum) =
      { h with
        m_checksum := checksum, m_calcChecksum := h₀.m_calcChecksum
        m_goodChecksum := h₀.m_goodChecksum } := by
  have hoff := h.m_fragmentOffset.toNat_lt
  have hmod := hm.offset
  obtain ⟨hflags, hhigh⟩ := flagsOf_addFlags ⟨h.m_fragmentOffset.toNat / 2048, by omega⟩ h.m_flags
    hm.flags
  have hff : h.flagsFrag = addFlags (UInt8.ofNat (h.m_fragmentOffset.toNat / 2048)) h.m_flags := by
    rw [flagsFrag, highOffset]
  have hsize : h.m_payloadSize + 20 - 20 = h.m_payloadSize := UInt16.add_sub_cancel _ _
  have hoffset : ((h.flagsFrag &&& 0x1f).toUInt16 <<< 8 |||
      (h.fragmentOffset &&& 0xff).toUInt8.toUInt16) <<< 3 = h.m_fragmentOffset := by
    apply UInt16.toNat_inj.mp
    rw [hff, hhigh, lowByte32, UInt16.toNat_shiftLeft, toNat_join16, UInt8.toNat_ofNat',
      UInt8.toNat_ofNat', toNat_fragmentOffset]
    show _ <<< 3 % 65536 = _
    rw [Nat.shiftLeft_eq]
    dsimp only
    omega
  rw [Ipv4Header.ofWords, words_headerSize]
  show Ipv4Header.mk _ (h.m_payloadSize + 20 - 20) _ _ _ _ (flagsOf h.flagsFrag)
    (((h.flagsFrag &&& 0x1f).toUInt16 <<< 8 ||| (h.fragmentOffset &&& 0xff).toUInt8.toUInt16) <<< 3) _ _ _
    _ 20 = _
  rw [hsize, hoffset, hff, hflags, ← hm.headerSize]
  rfl

/-- What the check of the checksum makes of a header. -/
def verified (h : Ipv4Header) (bs : List UInt8) : Ipv4Header :=
  if h.m_calcChecksum then { h with m_goodChecksum := endAround (wordSum bs) == 65535 } else h

theorem verified_payloadSize (h : Ipv4Header) (w : Ipv4Words) (bs : List UInt8) :
    ((h.ofWords w).verified bs).m_payloadSize = w.size - w.headerSize := by
  rw [verified]
  split <;> rfl

theorem verified_headerSize (h : Ipv4Header) (w : Ipv4Words) (bs : List UInt8) :
    ((h.ofWords w).verified bs).m_headerSize = w.headerSize := by
  rw [verified]
  split <;> rfl

theorem verify_eq (h : Ipv4Header) {headerSize : UInt16} {bs : List UInt8}
    (hlen : bs.length = headerSize.toNat) (pre post : List UInt8) (pos : Nat) :
    ∃ pos', h.verify pre.length headerSize ⟨pre ++ (bs ++ post), pos⟩ =
      some (h.verified bs, ⟨pre ++ (bs ++ post), pos'⟩) := by
  rw [verify, verified]
  split
  · have hsum := calculateIpChecksum_reads headerSize 0 hlen (by decide) pre post
    rw [show (0 : UInt32).toNat = 0 from rfl, Nat.zero_add] at hsum
    rw [seek_back, Wire.bind_eq hsum]
    have hlt := endAround_lt (wordSum bs)
    have hones : (UInt16.ofNat (65535 - endAround (wordSum bs)) == 0) =
        (endAround (wordSum bs) == 65535) := by
      rw [Bool.eq_iff_iff, beq_iff_eq, beq_iff_eq, ← UInt16.toNat_inj, UInt16.toNat_ofNat']
      show _ % 65536 = 0 ↔ _
      omega
    rw [hones]
    exact ⟨_, rfl⟩
  · exact ⟨pos, rfl⟩

theorem deserialize_eq (h : Ipv4Header) {w : Ipv4Words} {options : List UInt8}
    (hversion : w.verIhl >>> 4 = 4) (hlen : 20 + options.length = w.headerSize.toNat)
    (pre post : List UInt8) :
    h.deserialize ⟨pre ++ (w.bytes ++ (options ++ post)), pre.length⟩ =
      some ((w.headerSize.toUInt32, (h.ofWords w).verified (w.bytes ++ options)),
        ⟨pre ++ (w.bytes ++ (options ++ post)), pre.length⟩) := by
  refine Wire.aside_eq ?_
  rw [Wire.bind_eq (show Wire.tell _ = some (pre.length, _) from rfl)]
  have hfirst := readU8_turns w.verIhl pre (w.tail ++ (options ++ post))
  have hfields := readFields_reads h w (pre ++ [w.verIhl]) (options ++ post)
  rw [List.append_assoc, List.length_append] at hfields
  have hsize : (w.bytes ++ options).length = w.headerSize.toNat := by
    rw [List.length_append, Ipv4Words.length_bytes, hlen]
  obtain ⟨pos', hverify⟩ := (h.ofWords w).verify_eq hsize pre post
    (pre.length + [w.verIhl].length + w.tail.length)
  rw [List.append_assoc] at hverify
  refine ⟨pos', (Wire.bind_eq hfirst).trans ?_⟩
  show (if _ then _ else _ : Wire _) _ = _
  rw [if_neg (not_not.mpr hversion)]
  refine (Wire.bind_eq hfields).trans ((Wire.bind_eq hverify).trans ?_)
  rw [verified]
  split <;> rfl

/-! ### Written and read back -/

/-- A header is written at the start of a buffer, and another one reads it there. -/
def writeRead (h reader : Ipv4Header) (buffer : List UInt8) : Option (UInt32 × Ipv4Header) := do
  let ((), written) ← h.serialize ⟨buffer, 0⟩
  let (result, _) ← reader.deserialize ⟨written.data, 0⟩
  pure result

theorem writeRead_eq (h reader : Ipv4Header) {buffer : List UInt8} (hsize : 20 ≤ buffer.length) :
    h.writeRead reader buffer = some (20,
      (reader.ofWords (h.words h.checksumOf)).verified (h.bytes h.checksumOf)) := by
  have hwrite := h.serialize_eq [] (buffer.drop 20) (List.length_take_of_le hsize)
  have hread := reader.deserialize_eq (w := h.words h.checksumOf) (h.words_version _)
    (show 20 + ([] : List UInt8).length = _ by rw [words_headerSize]; rfl) [] (buffer.drop 20)
  rw [List.take_append_drop] at hwrite
  rw [List.append_nil, words_headerSize] at hread
  rw [writeRead]
  show (h.serialize ⟨[] ++ buffer, ([] : List UInt8).length⟩).bind _ = _
  rw [hwrite]
  show (reader.deserialize ⟨[] ++ ((h.words h.checksumOf).bytes ++ ([] ++ buffer.drop 20)),
    ([] : List UInt8).length⟩).bind _ = _
  rw [hread]
  rfl

/-- The bytes of a header of `ihl` words. -/
theorem exists_words {ihl : Nat} {bs : List UInt8} {size : UInt16} (hlow : 5 ≤ ihl) (hhigh : ihl ≤ 15)
    (hlen : bs.length = 4 * ihl) (hfirst : bs[0]? = some (UInt8.ofNat (4 * 16 + ihl)))
    (hsize : (bs.drop 2).take 2 = be16 size) :
    ∃ w : Ipv4Words, w.bytes ++ bs.drop 20 = bs ∧ w.verIhl >>> 4 = 4 ∧
      w.headerSize.toNat = 4 * ihl ∧ w.size = size := by
  have hbyte : ∀ i : Fin 16, UInt8.ofNat (4 * 16 + i) >>> 4 = 4 ∧
      ((UInt8.ofNat (4 * 16 + i) &&& 0x0f).toUInt16 * 4).toNat = 4 * i := by decide
  have htwenty : (bs.take 20).length = 20 := by
    rw [List.length_take]
    omega
  obtain ⟨w, hw, hwfirst, hword⟩ := Ipv4Words.exists_bytes htwenty
  rw [List.getElem?_take_of_lt (by decide), hfirst] at hwfirst
  have hverIhl := Option.some.inj hwfirst
  have htake : ((bs.take 20).drop 2).take 2 = (bs.drop 2).take 2 := by
    rw [List.drop_take, List.take_take]
    rfl
  rw [htake, hsize] at hword
  obtain ⟨hversion, hclaimed⟩ := hbyte ⟨ihl, by omega⟩
  refine ⟨w, ?_, ?_, ?_, (be16_injective hword).symm⟩
  · rw [hw, List.take_append_drop]
  · rw [← hverIhl]
    exact hversion
  · rw [Ipv4Words.headerSize, ← hverIhl]
    exact hclaimed

/-- A header that setters made is read back with all its fields and a good checksum. A header that
was read with options is written again as one of twenty bytes: what is read then has the same payload
size, but the size of the header only if there were no options. -/
theorem codec (reader : Ipv4Header) (buffer : List UInt8) :
    (∀ (setters : List Setter) (h : Ipv4Header),
      setters.foldlM Ipv4Header.set {} = some h → h.m_calcChecksum → reader.m_calcChecksum →
      h.getSerializedSize.toNat ≤ buffer.length →
      ∃ checksum, h.writeRead reader buffer =
        some (20, { h with m_checksum := checksum, m_goodChecksum := true })) ∧
    ∀ (ihl : Nat) (bs : List UInt8) (size : UInt16) (h₀ : Ipv4Header),
      5 ≤ ihl → ihl ≤ 15 → bs.length = 4 * ihl → bs[0]? = some (UInt8.ofNat (4 * 16 + ihl)) →
      (bs.drop 2).take 2 = be16 size → 4 * ihl ≤ size.toNat →
      ∃ h, h₀.deserialize ⟨bs, 0⟩ = some ((UInt32.ofNat (4 * ihl), h), ⟨bs, 0⟩) ∧
        h.getSerializedSize = UInt32.ofNat (4 * ihl) ∧
        h.m_payloadSize.toNat + 4 * ihl = size.toNat ∧
        (buffer.length = 4 * ihl →
          ∃ consumed h', h.writeRead reader buffer = some (consumed, h') ∧
            (consumed = UInt32.ofNat (4 * ihl) ∧ h'.m_payloadSize = h.m_payloadSize ↔ ihl = 5)) := by
  constructor
  · intro setters h hrun hcalc hreader hsize
    have hm : h.Made := Made.run ⟨by decide, rfl, rfl⟩ hrun
    rw [getSerializedSize, hm.headerSize] at hsize
    refine ⟨h.checksumOf, ?_⟩
    rw [writeRead_eq h reader hsize, hm.ofWords, verified, if_pos hreader, endAround_bytes h hcalc,
      show reader.m_calcChecksum = h.m_calcChecksum from hreader.trans hcalc.symm]
    rfl
  · intro ihl bs size h₀ hlow hhigh hlen hfirst hsize hle
    obtain ⟨w, hw, hversion, hclaimed, rfl⟩ := exists_words hlow hhigh hlen hfirst hsize
    have hrest : 20 + (bs.drop 20).length = w.headerSize.toNat := by
      rw [List.length_drop, hclaimed]
      omega
    have hread := h₀.deserialize_eq hversion hrest [] []
    rw [List.append_nil, hw] at hread
    have hheader : w.headerSize = UInt16.ofNat (4 * ihl) := by
      rw [← hclaimed, UInt16.ofNat_toNat]
    have hwide : w.headerSize.toUInt32 = UInt32.ofNat (4 * ihl) := by
      apply UInt32.toNat_inj.mp
      rw [UInt16.toNat_toUInt32, hclaimed, UInt32.toNat_ofNat']
      omega
    rw [hwide] at hread
    refine ⟨_, hread, ?_, ?_, ?_⟩
    · rw [getSerializedSize, verified_headerSize, hwide]
    · rw [verified_payloadSize, UInt16.toNat_sub_of_le _ _ (UInt16.le_iff_toNat_le.mpr (by omega)), hclaimed]
      omega
    · intro hbuffer
      refine ⟨_, _, writeRead_eq _ reader (by omega), ?_⟩
      have hpayload : ∀ h : Ipv4Header, ((reader.ofWords (h.words h.checksumOf)).verified
          (h.bytes h.checksumOf)).m_payloadSize = h.m_payloadSize := by
        intro h
        rw [verified_payloadSize, words_headerSize]
        exact UInt16.add_sub_cancel _ _
      rw [hpayload, ← UInt32.toNat_inj, UInt32.toNat_ofNat']
      have h20 : (20 : UInt32).toNat = 20 := rfl
      constructor
      · rintro ⟨hsame, -⟩
        omega
      · rintro rfl
        exact ⟨rfl, rfl⟩

/-- A header of 24 bytes: six words, of which the last is options, and no payload. -/
def optionsHeader : List UInt8 :=
  [0x46, 0, 0, 24, 0, 0, 0, 0, 64, 17, 0, 0, 10, 0, 0, 1, 10, 0, 0, 2, 1, 1, 1, 0]

theorem codec_made :
    (∃ checksum, ({ m_calcChecksum := true, m_payloadSize := 100, m_flags := 2
                    m_fragmentOffset := 1480 } : Ipv4Header).writeRead
        { m_calcChecksum := true } (List.replicate 120 0) =
      some (20, { m_calcChecksum := true, m_payloadSize := 100, m_flags := 2
                  m_fragmentOffset := 1480, m_checksum := checksum, m_goodChecksum := true })) ∧
    ∃ h, ({} : Ipv4Header).deserialize ⟨optionsHeader, 0⟩ = some ((24, h), ⟨optionsHeader, 0⟩) ∧
      h.getSerializedSize = 24 ∧ h.m_payloadSize.toNat + 24 = (24 : UInt16).toNat ∧
      ((List.replicate 24 (0 : UInt8)).length = 24 →
        ∃ consumed h', h.writeRead {} (List.replicate 24 0) = some (consumed, h') ∧
          (consumed = 24 ∧ h'.m_payloadSize = h.m_payloadSize ↔ 6 = 5)) :=
  ⟨(codec { m_calcChecksum := true } (List.replicate 120 0)).1
      [.enableChecksum, .setPayloadSize 100, .setMoreFragments, .setFragmentOffset 1480] _
      rfl rfl rfl (by decide),
    (codec {} (List.replicate 24 0)).2 6 optionsHeader 24 {} (by decide) (by decide) rfl rfl rfl (by decide)⟩

theorem codec_options :
    ({} : Ipv4Header).deserialize ⟨optionsHeader, 0⟩ =
      some ((24, { m_ttl := 64, m_protocol := 17, m_source := 0x0a000001, m_destination := 0x0a000002
                   m_headerSize := 24 }), ⟨optionsHeader, 0⟩) ∧
    ({ m_ttl := 64, m_protocol := 17, m_source := 0x0a000001, m_destination := 0x0a000002
       m_headerSize := 24 } : Ipv4Header).writeRead {} (List.replicate 24 0) =
      some (20, { m_ttl := 64, m_protocol := 17, m_source := 0x0a000001, m_destination := 0x0a000002
                  m_headerSize := 20 }) := by
  decide

end Ipv4Header

end Ns3.Internet
