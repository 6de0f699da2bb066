import Mathlib.Order.Nat
import Ns3.Lib.BitField
import Ns3.Lte.RlcAmHeader

/-!
# What the headers of RLC PDUs are read back as

A header whose extension bits end its length indicators, each of at most 11 bits, is read back from the bytes that it
writes, whatever is behind them.
-/

namespace Ns3.Lte

open Ns3.Lib

/-! ### Extension bits and length indicators -/

/-- The extension bits of `n` length indicators. -/
def extensionBitsOf (n : Nat) : List UInt8 := List.replicate n eLiFieldsFollows ++ [dataFieldFollows]

/-- The bytes of `n` length indicators. -/
def fieldsSize (n : Nat) : Nat := (3 * n + 1) / 2

theorem fieldsSize_succ (n : Nat) (hn : 0 < n) :
    fieldsSize n = fieldsSize (n - 1) + if (n + 1) % 2 = 1 then 1 else 2 := by
  rw [fieldsSize, fieldsSize]
  split <;> omega

/-- A length indicator has 11 bits. -/
def Fits (lengthIndicators : List UInt16) : Prop := ∀ li ∈ lengthIndicators, li.toNat < 2048

variable {e e' : UInt8} {li li' : UInt16}

theorem oddByte_toNat (he : e.toNat < 2) (hli : li.toNat < 2048) :
    (oddByte e li).toNat = e.toNat * 128 + li.toNat / 16 := by
  have hlow : (((li >>> 4) &&& 0x007F).toUInt8).toNat = li.toNat / 16 := by
    have hand := and_mask (li.toNat >>> 4) 0 7
    show ((li.toNat >>> 4) &&& (2 ^ 7 - 1) * 2 ^ 0) % 2 ^ 8 = _
    rw [hand, Nat.shiftRight_eq_div_pow]
    omega
  rw [oddByte, UInt8.toNat_or, writeField (s := 7) (w := 1) rfl rfl (by decide) (by decide) he, hlow,
    or_eq_add (s := 7) (by omega) (by omega)]
  rfl

theorem lowNibble_toNat (li : UInt16) : (((li <<< 4) &&& 0x00F0).toUInt8).toNat = li.toNat % 16 * 16 := by
  have hand := and_mask (li.toNat <<< 4 % 2 ^ 16) 4 4
  show ((li.toNat <<< 4 % 2 ^ 16) &&& (2 ^ 4 - 1) * 2 ^ 4) % 2 ^ 8 = _
  rw [hand, Nat.shiftLeft_eq]
  omega

theorem middleByte_toNat (li : UInt16) (he : e'.toNat < 2) (hli : li'.toNat < 2048) :
    (((li <<< 4) &&& 0x00F0).toUInt8 ||| ((e' <<< 3) &&& (0x08 : UInt8)) ||| ((li' >>> 8) &&& 0x0007).toUInt8).toNat =
      li.toNat % 16 * 16 + e'.toNat * 8 + li'.toNat / 256 := by
  have hlow : (((li' >>> 8) &&& 0x0007).toUInt8).toNat = li'.toNat / 256 := by
    have hand := and_mask (li'.toNat >>> 8) 0 3
    show ((li'.toNat >>> 8) &&& (2 ^ 3 - 1) * 2 ^ 0) % 2 ^ 8 = _
    rw [hand, Nat.shiftRight_eq_div_pow]
    omega
  have hbit : li.toNat % 16 * 16 ||| e'.toNat * 2 ^ 3 = li.toNat % 16 * 16 + e'.toNat * 2 ^ 3 :=
    or_eq_add (s := 4) (by omega) (by omega)
  rw [UInt8.toNat_or, UInt8.toNat_or, lowNibble_toNat,
    writeField (s := 3) (w := 1) rfl rfl (by decide) (by decide) he, hlow, hbit,
    or_eq_add (s := 3) (by omega) (by omega)]
  rfl

theorem lastByte_toNat (li : UInt16) : ((li &&& 0x00FF).toUInt8).toNat = li.toNat % 256 := by
  have hand := and_mask li.toNat 0 8
  show (li.toNat &&& (2 ^ 8 - 1) * 2 ^ 0) % 2 ^ 8 = _
  rw [hand]
  omega

theorem readOddLi_toNat (byte1 byte2 : UInt8) :
    (((byte1 &&& 0x7F).toUInt16 <<< 4) ||| ((byte2 &&& 0xF0).toUInt16 >>> 4)).toNat =
      byte1.toNat % 128 * 16 + byte2.toNat / 16 := by
  have hlt := byte2.toNat_lt
  have hhigh : ((byte1 &&& 0x7F).toUInt16 <<< 4).toNat = byte1.toNat % 128 * 16 := by
    have hand := and_mask byte1.toNat 0 7
    show ((byte1.toNat &&& (2 ^ 7 - 1) * 2 ^ 0) <<< 4) % 2 ^ 16 = _
    rw [hand, Nat.shiftLeft_eq]
    omega
  have hlow : ((byte2 &&& 0xF0).toUInt16 >>> 4).toNat = byte2.toNat / 16 := by
    have hand := and_mask byte2.toNat 4 4
    show (byte2.toNat &&& (2 ^ 4 - 1) * 2 ^ 4) >>> 4 = _
    rw [hand, Nat.shiftRight_eq_div_pow]
    omega
  rw [UInt16.toNat_or, hhigh, hlow, or_eq_add (s := 4) (by omega) (by omega)]

theorem readEvenLi_toNat (byte2 byte3 : UInt8) :
    (((byte2 &&& 0x07).toUInt16 <<< 8) ||| (byte3 &&& 0xFF).toUInt16).toNat = byte2.toNat % 8 * 256 + byte3.toNat := by
  have hlt := byte3.toNat_lt
  have hhigh : ((byte2 &&& 0x07).toUInt16 <<< 8).toNat = byte2.toNat % 8 * 256 := by
    have hand := and_mask byte2.toNat 0 3
    show ((byte2.toNat &&& (2 ^ 3 - 1) * 2 ^ 0) <<< 8) % 2 ^ 16 = _
    rw [hand, Nat.shiftLeft_eq]
    omega
  have hlow : ((byte3 &&& 0xFF).toUInt16).toNat = byte3.toNat := by
    have hand := and_mask byte3.toNat 0 8
    show byte3.toNat &&& (2 ^ 8 - 1) * 2 ^ 0 = _
    rw [hand]
    omega
  rw [UInt16.toNat_or, hhigh, hlow, or_eq_add (s := 8) (by omega) (by omega)]

/-- The last field, when it is an odd one. -/
theorem readFields_oddField (he : e = dataFieldFollows) (hli : li.toNat < 2048) (rest : Bytes) :
    readFields (oddField e li ++ rest) = some ([e], [li], 2) := by
  have he' : e.toNat < 2 := by rw [he]; decide
  have hbyte := oddByte_toNat he' hli
  have hE : (oddByte e li &&& 0x80) >>> 7 = e := by
    rw [← UInt8.toNat_inj, readField (s := 7) (w := 1) _ rfl rfl (by decide), hbyte]
    omega
  have hLi : (((oddByte e li &&& 0x7F).toUInt16 <<< 4) |||
      ((((li <<< 4) &&& 0x00F0).toUInt8 &&& 0xF0).toUInt16 >>> 4)) = li := by
    rw [← UInt16.toNat_inj, readOddLi_toNat, hbyte, lowNibble_toNat]
    omega
  show readFields (oddByte e li :: ((li <<< 4) &&& 0x00F0).toUInt8 :: rest) = _
  unfold readFields
  simp only [hE, hLi]
  rw [if_neg (by rw [he]; decide)]

/-- Two fields. -/
theorem readFields_evenField (he : e = eLiFieldsFollows) (hli : li.toNat < 2048) (he' : e'.toNat < 2)
    (hli' : li'.toNat < 2048) (rest : Bytes) :
    readFields (evenField e li e' li' ++ rest) =
      if e' = eLiFieldsFollows then
        (readFields rest).map fun fields => (e :: e' :: fields.1, li :: li' :: fields.2.1, fields.2.2 + 3)
      else some ([e, e'], [li, li'], 3) := by
  have he₂ : e.toNat < 2 := by rw [he]; decide
  have hbyte := oddByte_toNat he₂ hli
  have hmiddle := middleByte_toNat li he' hli'
  have hlast := lastByte_toNat li'
  show readFields (oddByte e li :: (((li <<< 4) &&& 0x00F0).toUInt8 ||| ((e' <<< 3) &&& (0x08 : UInt8)) |||
    ((li' >>> 8) &&& 0x0007).toUInt8) :: (li' &&& 0x00FF).toUInt8 :: rest) = _
  generalize oddByte e li = byte1 at hbyte ⊢
  generalize ((li <<< 4) &&& 0x00F0).toUInt8 ||| ((e' <<< 3) &&& (0x08 : UInt8)) |||
    ((li' >>> 8) &&& 0x0007).toUInt8 = byte2 at hmiddle ⊢
  generalize (li' &&& 0x00FF).toUInt8 = byte3 at hlast ⊢
  have hE : (byte1 &&& 0x80) >>> 7 = e := by
    rw [← UInt8.toNat_inj, readField (s := 7) (w := 1) _ rfl rfl (by decide), hbyte]
    omega
  have hLi : (((byte1 &&& 0x7F).toUInt16 <<< 4) ||| ((byte2 &&& 0xF0).toUInt16 >>> 4)) = li := by
    rw [← UInt16.toNat_inj, readOddLi_toNat, hbyte, hmiddle]
    omega
  have hE' : (byte2 &&& 0x08) >>> 3 = e' := by
    rw [← UInt8.toNat_inj, readField (s := 3) (w := 1) _ rfl rfl (by decide), hmiddle]
    omega
  have hLi' : (((byte2 &&& 0x07).toUInt16 <<< 8) ||| (byte3 &&& 0xFF).toUInt16) = li' := by
    rw [← UInt16.toNat_inj, readEvenLi_toNat, hmiddle, hlast]
    omega
  rw [readFields]
  simp only [hE, hLi, hE', hLi']
  rw [if_pos he]

/-- The fields are read back, whatever is behind them. -/
theorem readFields_writeFields : ∀ (lis : List UInt16) (n : Nat), lis.length = n + 1 → Fits lis → ∀ rest,
    readFields (writeFields (extensionBitsOf n) lis ++ rest) =
      some (extensionBitsOf n, lis, UInt16.ofNat (fieldsSize (n + 1)))
  | [li], 0, _, hfits, rest => readFields_oddField rfl (hfits li List.mem_cons_self) rest
  | [li, li'], 1, _, hfits, rest => by
    show readFields (evenField eLiFieldsFollows li dataFieldFollows li' ++ [] ++ rest) = _
    rw [List.append_nil, readFields_evenField rfl (hfits li List.mem_cons_self) (by decide)
      (hfits li' (List.mem_cons_of_mem _ List.mem_cons_self)), if_neg (by decide)]
    rfl
  | li :: li' :: li'' :: lis, n + 2, hlength, hfits, rest => by
    have ih := readFields_writeFields (li'' :: lis) n (by simpa using hlength)
      (fun l hl => hfits l (List.mem_cons_of_mem _ (List.mem_cons_of_mem _ hl))) rest
    show readFields (evenField eLiFieldsFollows li eLiFieldsFollows li' ++
      writeFields (extensionBitsOf n) (li'' :: lis) ++ rest) = _
    rw [List.append_assoc, readFields_evenField rfl (hfits li List.mem_cons_self) (by decide)
      (hfits li' (List.mem_cons_of_mem _ List.mem_cons_self)), if_pos rfl, ih, Option.map_some]
    have hsize : UInt16.ofNat (fieldsSize (n + 1)) + 3 = UInt16.ofNat (fieldsSize (n + 2 + 1)) := by
      rw [show fieldsSize (n + 2 + 1) = fieldsSize (n + 1) + 3 by rw [fieldsSize, fieldsSize]; omega, UInt16.ofNat_add]
      rfl
    rw [hsize]
    rfl

theorem writeFields_length : ∀ (lis : List UInt16) (n : Nat), lis.length = n + 1 →
    (writeFields (extensionBitsOf n) lis).length = fieldsSize (n + 1)
  | [_], 0, _ => rfl
  | [_, _], 1, _ => rfl
  | li :: li' :: li'' :: lis, n + 2, hlength => by
    have ih := writeFields_length (li'' :: lis) n (by simpa using hlength)
    show (evenField eLiFieldsFollows li eLiFieldsFollows li' ++ writeFields (extensionBitsOf n) (li'' :: lis)).length = _
    rw [List.length_append, ih]
    show 3 + fieldsSize (n + 1) = fieldsSize (n + 2 + 1)
    rw [fieldsSize, fieldsSize]
    omega

/-! ### Sequence numbers -/

theorem highBits_toNat {n : SequenceNumber10} (hn : n.m_value < 1024) : (highBits n).toNat = n.m_value / 256 := by
  have hand := and_mask (n.m_value >>> 8) 0 2
  show ((n.m_value >>> 8) &&& (2 ^ 2 - 1) * 2 ^ 0) % 2 ^ 8 = _
  rw [hand, Nat.shiftRight_eq_div_pow]
  omega

theorem lowBits_toNat (n : SequenceNumber10) : (lowBits n).toNat = n.m_value % 256 := by
  have hand := and_mask n.m_value 0 8
  show (n.m_value &&& (2 ^ 8 - 1) * 2 ^ 0) % 2 ^ 8 = _
  rw [hand]
  omega

/-- A sequence number as it is in a header that was read. -/
def SequenceNumber10.received (n : SequenceNumber10) : SequenceNumber10 := { m_value := n.m_value }

theorem readSequenceNumber_eq {byte1 byte2 : UInt8} {n : SequenceNumber10} (hn : n.m_value < 1024)
    (h1 : byte1.toNat % 4 = n.m_value / 256) (h2 : byte2.toNat = n.m_value % 256) :
    readSequenceNumber byte1 byte2 = n.received := by
  have hvalue : ((byte1 &&& 0x03).toNat <<< 8 ||| byte2.toNat) % 1024 = n.m_value := by
    have hand := and_mask byte1.toNat 0 2
    have hhigh : (byte1 &&& 0x03).toNat <<< 8 = byte1.toNat % 4 * 256 := by
      show (byte1.toNat &&& (2 ^ 2 - 1) * 2 ^ 0) <<< 8 = _
      rw [hand, Nat.shiftLeft_eq]
      omega
    rw [hhigh, or_eq_add (s := 8) (by omega) (by omega)]
    omega
  show SequenceNumber10.mk _ _ = SequenceNumber10.mk _ _
  rw [hvalue]
  rfl

/-! ### The headers -/

theorem extensionBitsOf_succ (n : Nat) : extensionBitsOf (n + 1) = eLiFieldsFollows :: extensionBitsOf n := rfl

/-- The extension bit of the fixed part. -/
def fixedBit (n : Nat) : UInt8 := if n = 0 then dataFieldFollows else eLiFieldsFollows

theorem fixedBit_lt (n : Nat) : (fixedBit n).toNat < 2 := by
  rw [fixedBit]
  split <;> decide

theorem head_extensionBitsOf (n : Nat) : extensionBitsOf n = fixedBit n :: (extensionBitsOf n).tail := by
  cases n with
  | zero => rfl
  | succ n => rfl

namespace LteRlcHeader

/-- A header that was built for `n` length indicators. -/
structure Built (h : LteRlcHeader) (n : Nat) : Prop where
  framingInfo : h.m_framingInfo.toNat < 4
  sequenceNumber : h.m_sequenceNumber.m_value < 1024
  extensionBits : h.m_extensionBits = extensionBitsOf n
  lengthIndicators : h.m_lengthIndicators.length = n
  fits : Fits h.m_lengthIndicators

/-- The header as it is read. -/
def received (h : LteRlcHeader) (n : Nat) : LteRlcHeader :=
  { m_headerLength := UInt16.ofNat (2 + fieldsSize n)
    m_framingInfo := h.m_framingInfo
    m_sequenceNumber := h.m_sequenceNumber.received
    m_extensionBits := extensionBitsOf n
    m_lengthIndicators := h.m_lengthIndicators }

theorem Built.deserialize {h : LteRlcHeader} {n : Nat} (hb : h.Built n) :
    ∃ bytes, h.serialize = some bytes ∧ bytes.length = 2 + fieldsSize n ∧
      ∀ rest, LteRlcHeader.deserialize (bytes ++ rest) = some (h.received n) := by
  have he := fixedBit_lt n
  have hf := hb.framingInfo
  have hsn := hb.sequenceNumber
  have hbyte : ((((h.m_framingInfo <<< 3) &&& (0x18 : UInt8)) ||| ((fixedBit n <<< 2) &&& (0x04 : UInt8)) |||
      highBits h.m_sequenceNumber)).toNat = h.m_framingInfo.toNat * 8 + (fixedBit n).toNat * 4 +
        h.m_sequenceNumber.m_value / 256 := by
    have hor : h.m_framingInfo.toNat * 2 ^ 3 ||| (fixedBit n).toNat * 2 ^ 2 =
        h.m_framingInfo.toNat * 2 ^ 3 + (fixedBit n).toNat * 2 ^ 2 := or_eq_add (s := 3) (by omega) (by omega)
    rw [UInt8.toNat_or, UInt8.toNat_or, writeField (s := 3) (w := 2) rfl rfl (by decide) (by decide) hf,
      writeField (s := 2) (w := 1) rfl rfl (by decide) (by decide) he, highBits_toNat hsn, hor,
      or_eq_add (s := 2) (by omega) (by omega)]
    rfl
  have hlow := lowBits_toNat h.m_sequenceNumber
  refine ⟨_, by rw [serialize, hb.extensionBits, head_extensionBitsOf], ?_, fun rest => ?_⟩
  · have hlis := hb.lengthIndicators
    cases n with
    | zero =>
      rw [List.length_eq_zero_iff] at hlis
      rw [hlis]
      rfl
    | succ n =>
      rw [List.length_cons, List.length_cons, extensionBitsOf_succ, List.tail_cons, writeFields_length _ n hlis]
      omega
  · generalize ((h.m_framingInfo <<< 3) &&& (0x18 : UInt8)) ||| ((fixedBit n <<< 2) &&& (0x04 : UInt8)) |||
      highBits h.m_sequenceNumber = byte1 at hbyte ⊢
    generalize lowBits h.m_sequenceNumber = byte2 at hlow ⊢
    have hbit : (byte1 &&& 0x04) >>> 2 = fixedBit n := by
      rw [← UInt8.toNat_inj, readField (s := 2) (w := 1) _ rfl rfl (by decide), hbyte]
      omega
    have hframing : (byte1 &&& 0x18) >>> 3 = h.m_framingInfo := by
      rw [← UInt8.toNat_inj, readField (s := 3) (w := 2) _ rfl rfl (by decide), hbyte]
      omega
    have hread := readSequenceNumber_eq hsn (show byte1.toNat % 4 = _ by omega) hlow
    rw [List.cons_append, List.cons_append, LteRlcHeader.deserialize]
    simp only [hbit, hframing, hread]
    have hlis := hb.lengthIndicators
    cases n with
    | zero =>
      rw [if_pos (show fixedBit 0 = dataFieldFollows from rfl), received, List.length_eq_zero_iff.mp hlis]
      rfl
    | succ n =>
      rw [if_neg (show ¬ fixedBit (n + 1) = dataFieldFollows by rw [fixedBit, if_neg (Nat.succ_ne_zero n)]; decide),
        extensionBitsOf_succ, List.tail_cons, readFields_writeFields _ n hlis hb.fits, Option.map_some, received,
        UInt16.ofNat_add]
      rfl

end LteRlcHeader

namespace LteRlcAmHeader

/-- The header of a data PDU that was built for `n` length indicators. -/
structure Built (h : LteRlcAmHeader) (n : Nat) : Prop where
  dataControlBit : h.m_dataControlBit = dataPdu
  resegmentationFlag : h.m_resegmentationFlag.toNat < 2
  pollingBit : h.m_pollingBit.toNat < 2
  framingInfo : h.m_framingInfo.toNat < 4
  sequenceNumber : h.m_sequenceNumber.m_value < 1024
  lastSegmentFlag : h.m_lastSegmentFlag.toNat < 2
  segmentOffset : h.m_segmentOffset = 0
  extensionBits : h.m_extensionBits = extensionBitsOf n
  lengthIndicators : h.m_lengthIndicators.length = n
  fits : Fits h.m_lengthIndicators

/-- The header as it is read. -/
def received (h : LteRlcAmHeader) (n : Nat) : LteRlcAmHeader :=
  { m_headerLength := UInt16.ofNat (4 + fieldsSize n)
    m_dataControlBit := dataPdu
    m_resegmentationFlag := h.m_resegmentationFlag
    m_pollingBit := h.m_pollingBit
    m_framingInfo := h.m_framingInfo
    m_sequenceNumber := h.m_sequenceNumber.received
    m_lastSegmentFlag := h.m_lastSegmentFlag
    m_segmentOffset := 0
    m_extensionBits := extensionBitsOf n
    m_lengthIndicators := h.m_lengthIndicators }

theorem firstByte_toNat {reseg poll framing bit : UInt8} {n : SequenceNumber10} (hreseg : reseg.toNat < 2)
    (hpoll : poll.toNat < 2) (hframing : framing.toNat < 4) (hbit : bit.toNat < 2) (hn : n.m_value < 1024) :
    (((dataPdu <<< 7) &&& (0x80 : UInt8)) ||| ((reseg <<< 6) &&& (0x40 : UInt8)) |||
      ((poll <<< 5) &&& (0x20 : UInt8)) ||| ((framing <<< 3) &&& (0x18 : UInt8)) ||| ((bit <<< 2) &&& (0x04 : UInt8)) |||
      highBits n).toNat =
        128 + reseg.toNat * 64 + poll.toNat * 32 + framing.toNat * 8 + bit.toNat * 4 + n.m_value / 256 := by
  have hor₁ : 1 * 2 ^ 7 ||| reseg.toNat * 2 ^ 6 = 1 * 2 ^ 7 + reseg.toNat * 2 ^ 6 :=
    or_eq_add (s := 7) (by omega) (by omega)
  have hor₂ : 1 * 2 ^ 7 + reseg.toNat * 2 ^ 6 ||| poll.toNat * 2 ^ 5 =
      1 * 2 ^ 7 + reseg.toNat * 2 ^ 6 + poll.toNat * 2 ^ 5 := or_eq_add (s := 6) (by omega) (by omega)
  have hor₃ : 1 * 2 ^ 7 + reseg.toNat * 2 ^ 6 + poll.toNat * 2 ^ 5 ||| framing.toNat * 2 ^ 3 =
      1 * 2 ^ 7 + reseg.toNat * 2 ^ 6 + poll.toNat * 2 ^ 5 + framing.toNat * 2 ^ 3 :=
    or_eq_add (s := 5) (by omega) (by omega)
  have hor₄ : 1 * 2 ^ 7 + reseg.toNat * 2 ^ 6 + poll.toNat * 2 ^ 5 + framing.toNat * 2 ^ 3 ||| bit.toNat * 2 ^ 2 =
      1 * 2 ^ 7 + reseg.toNat * 2 ^ 6 + poll.toNat * 2 ^ 5 + framing.toNat * 2 ^ 3 + bit.toNat * 2 ^ 2 :=
    or_eq_add (s := 3) (by omega) (by omega)
  have hdata : (dataPdu <<< 7 &&& (0x80 : UInt8)).toNat = 1 * 2 ^ 7 := rfl
  rw [UInt8.toNat_or, UInt8.toNat_or, UInt8.toNat_or, UInt8.toNat_or, UInt8.toNat_or, hdata,
    writeField (s := 6) (w := 1) rfl rfl (by decide) (by decide) hreseg,
    writeField (s := 5) (w := 1) rfl rfl (by decide) (by decide) hpoll,
    writeField (s := 3) (w := 2) rfl rfl (by decide) (by decide) hframing,
    writeField (s := 2) (w := 1) rfl rfl (by decide) (by decide) hbit, highBits_toNat hn, hor₁, hor₂, hor₃, hor₄,
    or_eq_add (s := 2) (by omega) (by omega)]
  omega

/-- The header of a data PDU, or of a segment of one, that was built for `n` length indicators. -/
structure Framed (h : LteRlcAmHeader) (n : Nat) : Prop where
  dataControlBit : h.m_dataControlBit = dataPdu
  resegmentationFlag : h.m_resegmentationFlag.toNat < 2
  pollingBit : h.m_pollingBit.toNat < 2
  framingInfo : h.m_framingInfo.toNat < 4
  sequenceNumber : h.m_sequenceNumber.m_value < 1024
  lastSegmentFlag : h.m_lastSegmentFlag.toNat < 2
  segmentOffset : h.m_segmentOffset.toNat < 2 ^ 15
  extensionBits : h.m_extensionBits = extensionBitsOf n
  lengthIndicators : h.m_lengthIndicators.length = n
  fits : Fits h.m_lengthIndicators

/-- The offset that is read, its two bytes put together without a shift. -/
def readOffset (segmentOffset : UInt16) : UInt16 :=
  UInt16.ofNat (segmentOffset.toNat / 256 ||| segmentOffset.toNat % 256)

/-- The header as it is read. -/
def receivedAt (h : LteRlcAmHeader) (n : Nat) : LteRlcAmHeader :=
  { h.received n with m_segmentOffset := readOffset h.m_segmentOffset }

theorem Framed.deserialize {h : LteRlcAmHeader} {n : Nat} (hb : h.Framed n) :
    ∃ bytes, h.serialize = some bytes ∧ bytes.length = 4 + fieldsSize n ∧
      ∀ rest, LteRlcAmHeader.deserialize (bytes ++ rest) = some (h.receivedAt n) := by
  have he := fixedBit_lt n
  have hreseg := hb.resegmentationFlag
  have hpoll := hb.pollingBit
  have hframing := hb.framingInfo
  have hsn := hb.sequenceNumber
  have hlast := hb.lastSegmentFlag
  have hbyte := firstByte_toNat hreseg hpoll hframing he hsn
  have hlow := lowBits_toNat h.m_sequenceNumber
  have hsegment := hb.segmentOffset
  have hthird : (((h.m_lastSegmentFlag <<< 7) &&& (0x80 : UInt8)) |||
      ((h.m_segmentOffset >>> 8) &&& 0x007F).toUInt8).toNat =
        h.m_lastSegmentFlag.toNat * 128 + h.m_segmentOffset.toNat / 256 := by
    have hhigh : (((h.m_segmentOffset >>> 8) &&& 0x007F).toUInt8).toNat = h.m_segmentOffset.toNat / 256 := by
      have hand := and_mask (h.m_segmentOffset.toNat >>> 8) 0 7
      show ((h.m_segmentOffset.toNat >>> 8) &&& (2 ^ 7 - 1) * 2 ^ 0) % 2 ^ 8 = _
      rw [hand, Nat.shiftRight_eq_div_pow]
      omega
    rw [UInt8.toNat_or, writeField (s := 7) (w := 1) rfl rfl (by decide) (by decide) hlast, hhigh,
      or_eq_add (s := 7) (by omega) (by omega)]
    rfl
  have hfourth := lastByte_toNat h.m_segmentOffset
  refine ⟨_, by rw [serialize, if_pos hb.dataControlBit, hb.extensionBits, head_extensionBitsOf], ?_, fun rest => ?_⟩
  · have hlis := hb.lengthIndicators
    cases n with
    | zero =>
      rw [List.length_eq_zero_iff.mp hlis]
      rfl
    | succ n =>
      rw [List.length_cons, List.length_cons, List.length_cons, List.length_cons, extensionBitsOf_succ, List.tail_cons,
        writeFields_length _ n hlis]
      omega
  · generalize ((dataPdu <<< 7) &&& (0x80 : UInt8)) ||| ((h.m_resegmentationFlag <<< 6) &&& (0x40 : UInt8)) |||
      ((h.m_pollingBit <<< 5) &&& (0x20 : UInt8)) ||| ((h.m_framingInfo <<< 3) &&& (0x18 : UInt8)) |||
      ((fixedBit n <<< 2) &&& (0x04 : UInt8)) ||| highBits h.m_sequenceNumber = byte1 at hbyte ⊢
    generalize lowBits h.m_sequenceNumber = byte2 at hlow ⊢
    generalize ((h.m_lastSegmentFlag <<< 7) &&& (0x80 : UInt8)) |||
      ((h.m_segmentOffset >>> 8) &&& 0x007F).toUInt8 = byte3 at hthird ⊢
    generalize (h.m_segmentOffset &&& 0x00FF).toUInt8 = byte4 at hfourth ⊢
    have hdata : (byte1 &&& 0x80) >>> 7 = dataPdu := by
      rw [← UInt8.toNat_inj, readField (s := 7) (w := 1) _ rfl rfl (by decide), hbyte]
      show _ = 1
      omega
    have hreseg' : (byte1 &&& 0x40) >>> 6 = h.m_resegmentationFlag := by
      rw [← UInt8.toNat_inj, readField (s := 6) (w := 1) _ rfl rfl (by decide), hbyte]
      omega
    have hpoll' : (byte1 &&& 0x20) >>> 5 = h.m_pollingBit := by
      rw [← UInt8.toNat_inj, readField (s := 5) (w := 1) _ rfl rfl (by decide), hbyte]
      omega
    have hframing' : (byte1 &&& 0x18) >>> 3 = h.m_framingInfo := by
      rw [← UInt8.toNat_inj, readField (s := 3) (w := 2) _ rfl rfl (by decide), hbyte]
      omega
    have hbit : (byte1 &&& 0x04) >>> 2 = fixedBit n := by
      rw [← UInt8.toNat_inj, readField (s := 2) (w := 1) _ rfl rfl (by decide), hbyte]
      omega
    have hlast' : (byte3 &&& 0x80) >>> 7 = h.m_lastSegmentFlag := by
      rw [← UInt8.toNat_inj, readField (s := 7) (w := 1) _ rfl rfl (by decide), hthird]
      omega
    have hoffset : ((byte3 &&& 0x7F) ||| byte4).toUInt16 = readOffset h.m_segmentOffset := by
      have hand := and_mask byte3.toNat 0 7
      have hhigh : byte3.toNat / 2 ^ 0 % 2 ^ 7 * 2 ^ 0 = h.m_segmentOffset.toNat / 256 := by omega
      have hsmall : h.m_segmentOffset.toNat / 256 ||| h.m_segmentOffset.toNat % 256 < 2 ^ 8 :=
        Nat.or_lt_two_pow (by omega) (by omega)
      rw [← UInt16.toNat_inj, readOffset, UInt16.toNat_ofNat_of_lt' (by
        rw [UInt16.size]
        omega)]
      show (byte3.toNat &&& (2 ^ 7 - 1) * 2 ^ 0) ||| byte4.toNat = _
      rw [hand, hhigh, hfourth]
    have hread := readSequenceNumber_eq hsn (show byte1.toNat % 4 = _ by omega) hlow
    rw [List.cons_append, List.cons_append, List.cons_append, List.cons_append, LteRlcAmHeader.deserialize,
      if_pos hdata, deserializeData]
    simp only [hdata, hreseg', hpoll', hframing', hbit, hlast', hoffset, hread]
    have hlis := hb.lengthIndicators
    cases n with
    | zero =>
      rw [if_pos (show fixedBit 0 = dataFieldFollows from rfl), receivedAt, received, List.length_eq_zero_iff.mp hlis]
      rfl
    | succ n =>
      rw [if_neg (show ¬ fixedBit (n + 1) = dataFieldFollows by rw [fixedBit, if_neg (Nat.succ_ne_zero n)]; decide),
        extensionBitsOf_succ, List.tail_cons, readFields_writeFields _ n hlis hb.fits, Option.map_some, receivedAt, received,
        UInt16.ofNat_add]
      rfl

theorem Built.framed {h : LteRlcAmHeader} {n : Nat} (hb : h.Built n) : h.Framed n :=
  ⟨hb.dataControlBit, hb.resegmentationFlag, hb.pollingBit, hb.framingInfo, hb.sequenceNumber, hb.lastSegmentFlag,
    by rw [hb.segmentOffset]; decide, hb.extensionBits, hb.lengthIndicators, hb.fits⟩

theorem Built.deserialize {h : LteRlcAmHeader} {n : Nat} (hb : h.Built n) :
    ∃ bytes, h.serialize = some bytes ∧ bytes.length = 4 + fieldsSize n ∧
      ∀ rest, LteRlcAmHeader.deserialize (bytes ++ rest) = some (h.received n) := by
  have hsame : h.receivedAt n = h.received n := by
    rw [receivedAt, hb.segmentOffset]
    rfl
  rw [← hsame]
  exact hb.framed.deserialize

/-- What is read is built as well. -/
theorem Built.received {h : LteRlcAmHeader} {n : Nat} (hb : h.Built n) : (h.received n).Built n :=
  ⟨rfl, hb.resegmentationFlag, hb.pollingBit, hb.framingInfo, hb.sequenceNumber, hb.lastSegmentFlag, rfl, rfl,
    hb.lengthIndicators, hb.fits⟩

theorem Built.setPollingBit {h : LteRlcAmHeader} {n : Nat} (hb : h.Built n) {bit : UInt8} (hbit : bit.toNat < 2) :
    (h.setPollingBit bit).Built n := by
  have hlt : (bit &&& 0x01).toNat < 2 := Nat.lt_of_le_of_lt Nat.and_le_left hbit
  exact ⟨hb.dataControlBit, hb.resegmentationFlag, hlt, hb.framingInfo, hb.sequenceNumber, hb.lastSegmentFlag,
    hb.segmentOffset, hb.extensionBits, hb.lengthIndicators, hb.fits⟩

end LteRlcAmHeader

end Ns3.Lte
