import Ns3.Wifi.RecipientBlockAck

/-!
# The scoreboard of a block ack

A recipient keeps the set of the numbers that it has received, of which no two wrap to the same one in the window.
Over any calls the `BlockAckWindow` of an agreement has a bit for each number in its window, which says whether it
was received, and a `BlockAck` that is filled from it acknowledges these numbers and no others.
-/

namespace Ns3.Wifi

open Ns3.Lib

/-- The start of the window and the numbers received. -/
structure Scoreboard where
  start : Nat
  received : Set Nat

namespace Scoreboard

/-- The number of a sequence number, counted from the start of the window. -/
def number (seq : Nat) (sb : Scoreboard) : Nat := sb.start + getDistance seq (sb.start % 4096)

/-- An MPDU is received unless it is old; the window extends to it if it is behind its end. -/
def mpdu (size seq : Nat) (sb : Scoreboard) : Scoreboard :=
  if sb.number seq < sb.start + 2048 then
    ⟨max sb.start (sb.number seq + 1 - size), insert (sb.number seq) sb.received⟩
  else sb

/-- The window starts where a request says, unless this is old. -/
def bar (seq : Nat) (sb : Scoreboard) : Scoreboard :=
  if sb.number seq < sb.start + 2048 then ⟨sb.number seq, sb.received⟩ else sb

/-- The scoreboard after a call. -/
def call {Packet : Type} (size : Nat) (sb : Scoreboard) : RecipientBlockAckAgreement.Call Packet → Scoreboard
  | .mpdu mpdu => sb.mpdu size mpdu.m_seqSeq
  | .bar startingSequenceNumber => sb.bar startingSequenceNumber
  | .flush => sb

end Scoreboard

/-! ### One call -/

section Call

variable {w : BlockAckWindow} {size seq : Nat} {sb : Scoreboard}

/-- The distance of a sequence number is that of its number. -/
theorem Tracks.distance (h : Tracks w size sb.start sb.received) (hseq : seq < 4096) :
    getDistance seq w.m_winStart % 2 ^ 16 = sb.number seq - sb.start ∧ sb.start ≤ sb.number seq := by
  have hlt : getDistance seq (sb.start % 4096) < 4096 := getDistance_lt hseq (Nat.mod_lt _ (by decide))
  rw [h.winStart, Scoreboard.number]
  omega

theorem Tracks.receiveMpdu (h : Tracks w size sb.start sb.received) (hsize : size ≤ 256) (hseq : seq < 4096) :
    ∃ w', w.receiveMpdu seq = some w' ∧ Tracks w' size (sb.mpdu size seq).start (sb.mpdu size seq).received := by
  obtain ⟨hdistance, hle⟩ := h.distance hseq
  have hpos := Nat.zero_lt_of_lt h.head_lt
  rw [BlockAckWindow.receiveMpdu, hdistance, BlockAckWindow.getWinSize, h.length, Scoreboard.mpdu]
  by_cases hin : sb.number seq - sb.start < size
  · -- in the window
    obtain ⟨w', hset, hw'⟩ := h.setBitAt hin
    have hmax : max sb.start (sb.number seq + 1 - size) = sb.start := Nat.max_eq_left (by omega)
    rw [Nat.add_sub_of_le hle] at hw'
    rw [if_pos hin, if_pos (by omega : sb.number seq < sb.start + 2048), hmax]
    exact ⟨w', hset, hw'⟩
  · rw [if_neg hin]
    by_cases hnew : sb.number seq < sb.start + 2048
    · -- behind its end
      have hadvance := h.advance (sb.number seq - sb.start - size + 1)
      have hstart : sb.start + (sb.number seq - sb.start - size + 1) = sb.number seq + 1 - size := by omega
      have hlast : sb.number seq + 1 - size + (size - 1) = sb.number seq := by omega
      have hmax : max sb.start (sb.number seq + 1 - size) = sb.number seq + 1 - size := Nat.max_eq_right (by omega)
      rw [hstart] at hadvance
      obtain ⟨w', hset, hw'⟩ := hadvance.setBitAt (Nat.sub_lt hpos Nat.one_pos)
      rw [hlast] at hw'
      rw [if_pos (by omega : sb.number seq - sb.start < 2048), if_pos hnew, hmax]
      refine ⟨w', ?_, hw'⟩
      show (w.advance _).setBitAt ((w.advance _).m_window.length - 1) = some w'
      rw [hadvance.length]
      exact hset
    · rw [if_neg (by omega), if_neg hnew]
      exact ⟨w, rfl, h⟩

theorem Tracks.receiveBar (h : Tracks w size sb.start sb.received) (hsize : size ≤ 256) (hseq : seq < 4096) :
    Tracks (w.receiveBar seq) size (sb.bar seq).start (sb.bar seq).received := by
  obtain ⟨hdistance, hle⟩ := h.distance hseq
  rw [BlockAckWindow.receiveBar, hdistance, BlockAckWindow.getWinSize, h.length, Scoreboard.bar]
  by_cases hin : 0 < sb.number seq - sb.start ∧ sb.number seq - sb.start < size
  · have hadvance := h.advance (sb.number seq - sb.start)
    rw [Nat.add_sub_of_le hle] at hadvance
    rw [if_pos hin, if_pos (by omega : sb.number seq < sb.start + 2048)]
    exact hadvance
  · rw [if_neg hin]
    by_cases hnew : sb.number seq < sb.start + 2048
    · rw [if_pos hnew]
      by_cases hzero : sb.number seq = sb.start
      · rw [if_neg (by omega), hzero]
        exact h
      · have hreset := h.reset (sb.number seq) (by omega)
        rw [if_pos (by omega)]
        rw [show sb.number seq % 4096 = seq from add_getDistance_mod hseq _] at hreset
        exact hreset
    · rw [if_neg (by omega), if_neg hnew]
      exact h

end Call

/-! ### The bitmap of a header -/

namespace CtrlBAckResponseHeader

/-- The bit of a bitmap. -/
def bitOf (bitmap : List UInt8) (i : Nat) : Option Bool :=
  bitmap[i / 8]?.map fun byte => byte &&& 1 <<< UInt8.ofNat (i % 8) ≠ 0

theorem and_bits : ∀ a < 8, ∀ b < 8,
    (1 : UInt8) <<< UInt8.ofNat a &&& 1 <<< UInt8.ofNat b = if a = b then 1 <<< UInt8.ofNat b else 0 := by
  decide

theorem bit_ne_zero : ∀ b < 8, (1 : UInt8) <<< UInt8.ofNat b ≠ 0 := by
  decide

theorem or_bit (byte : UInt8) {a b : Nat} (ha : a < 8) (hb : b < 8) :
    (byte ||| 1 <<< UInt8.ofNat a) &&& 1 <<< UInt8.ofNat b ≠ 0 ↔ a = b ∨ byte &&& 1 <<< UInt8.ofNat b ≠ 0 := by
  have hdistrib : ∀ p q : UInt8, (byte ||| p) &&& q = (byte &&& q) ||| (p &&& q) := by
    intro p q
    apply UInt8.toNat_inj.mp
    simp only [UInt8.toNat_and, UInt8.toNat_or, Nat.and_or_distrib_right]
  rw [hdistrib, and_bits a ha b hb, ne_eq, UInt8.or_eq_zero_iff]
  by_cases heq : a = b
  · rw [if_pos heq]
    exact iff_of_true (fun h => bit_ne_zero b hb h.2) (.inl heq)
  · rw [if_neg heq, and_iff_left rfl, or_iff_right heq]

theorem bitOf_modify {bitmap : List UInt8} {i : Nat} (hi : i < 8 * bitmap.length) (j : Nat) :
    bitOf (bitmap.modify (i / 8) (· ||| 1 <<< UInt8.ofNat (i % 8))) j =
      if i = j then some true else bitOf bitmap j := by
  rw [bitOf, bitOf, List.getElem?_modify]
  by_cases hbyte : i / 8 = j / 8
  · obtain ⟨byte, hget⟩ : ∃ byte, bitmap[j / 8]? = some byte :=
      ⟨_, List.getElem?_eq_getElem (by omega : j / 8 < bitmap.length)⟩
    have hor := or_bit byte (Nat.mod_lt i (by decide)) (Nat.mod_lt j (by decide))
    rw [hget, Option.map_eq_map, Option.map_some, if_pos hbyte, Option.map_some, Option.map_some,
      decide_eq_decide.mpr hor]
    by_cases heq : i = j
    · rw [if_pos heq, decide_eq_true (Or.inl (by rw [heq]))]
    · rw [if_neg heq, Option.some_inj, decide_eq_decide, or_iff_right (by omega)]
  · have hne : i ≠ j := fun heq => hbyte (by rw [heq])
    simp only [if_neg hbyte, if_neg hne]
    cases bitmap[j / 8]? <;> rfl

/-- The instance of a header, for the window of a scoreboard, of which the first `filled` bits are filled in. -/
structure Filled (index len : Nat) (sb : Scoreboard) (filled : Nat) (header : CtrlBAckResponseHeader) : Prop where
  variant : header.m_baType.m_variant ∈ ([.compressed, .extendedCompressed, .multiSta] : List BlockAckVariant)
  bitmapLen : ∃ bitmapLen, header.m_baType.m_bitmapLen[index]? = some bitmapLen ∧ bitmapLen.toNat = len
  info : ∃ info, header.m_baInfo[index]? = some info ∧ info.m_startingSeq = sb.start % 4096 ∧
    header.allAck info = false ∧ info.m_bitmap.length = len ∧
    ∀ i < len * 8, ∃ b, bitOf info.m_bitmap i = some b ∧ (b = true ↔ i < filled ∧ sb.start + i ∈ sb.received)

variable {index len filled : Nat} {sb : Scoreboard} {header : CtrlBAckResponseHeader}

/-- The place of a sequence number is its distance. -/
theorem Filled.isInBitmap (h : Filled index len sb filled header) {seq : Nat} (hseq : seq < 4096) :
    header.isInBitmap index seq = some (decide (getDistance seq (sb.start % 4096) < len * 8)) := by
  obtain ⟨bitmapLen, hlen, rfl⟩ := h.bitmapLen
  obtain ⟨info, hinfo, hstart, -⟩ := h.info
  have hvariant : header.m_baType.m_variant ≠ .basic := by
    intro heq
    have := h.variant
    rw [heq] at this
    exact absurd this (by decide)
  have hmod : sb.start % 4096 < 4096 := Nat.mod_lt _ (by decide)
  rw [CtrlBAckResponseHeader.isInBitmap, hlen, hinfo, getDistance_eq hseq hmod]
  show some (decide (_ < ((header.nAckedMpdus bitmapLen : Nat) : Int))) = _
  rw [nAckedMpdus, if_neg hvariant, hstart, Option.some_inj, decide_eq_decide,
    Int.tmod_eq_emod_of_nonneg (by omega)]
  omega

theorem indexInBitmap_eq {seq : Nat} {info : BaInfoInstance} (hseq : seq < 4096)
    (hstart : info.m_startingSeq = sb.start % 4096) :
    indexInBitmap seq info = getDistance seq (sb.start % 4096) := by
  have hmod : sb.start % 4096 < 4096 := Nat.mod_lt _ (by decide)
  rw [indexInBitmap, hstart, getDistance_eq hseq hmod]
  split <;> omega

/-- One more bit. -/
theorem Filled.setReceivedPacket (h : Filled index len sb filled header) (hlen : filled < len * 8) (hsmall : len < 256)
    {marked : Bool} (hmarked : marked = true ↔ sb.start + filled ∈ sb.received) :
    ∃ header', (if marked then header.setReceivedPacket index ((sb.start % 4096 + filled) % 4096) else some header) =
        some header' ∧ Filled index len sb (filled + 1) header' := by
  obtain ⟨info, hinfo, hstart, hall, hlength, hbits⟩ := h.info
  cases marked with
  | false =>
    refine ⟨header, rfl, h.variant, h.bitmapLen, info, hinfo, hstart, hall, hlength, fun i hi => ?_⟩
    obtain ⟨b, hb, hbit⟩ := hbits i hi
    refine ⟨b, hb, hbit.trans (and_congr_left fun hmem => ?_)⟩
    have hne : i ≠ filled := by
      rintro rfl
      exact Bool.false_ne_true (hmarked.mpr hmem)
    omega
  | true =>
    have hseq : (sb.start % 4096 + filled) % 4096 < 4096 := Nat.mod_lt _ (by decide)
    have hdistance : getDistance ((sb.start % 4096 + filled) % 4096) (sb.start % 4096) = filled := by
      rw [Nat.mod_add_mod, getDistance_mod (Nat.le_add_right _ _) (by omega), Nat.add_sub_cancel_left]
    have hset : header.setReceivedPacket index ((sb.start % 4096 + filled) % 4096) = some (header.withInfo index
        { info with m_bitmap := info.m_bitmap.modify (filled / 8) (· ||| 1 <<< UInt8.ofNat (filled % 8)) }) := by
      have hvariant := h.variant
      rw [CtrlBAckResponseHeader.setReceivedPacket, h.isInBitmap hseq, hdistance, decide_eq_true hlen]
      simp only [Option.bind_eq_bind, Option.bind_some, if_true, hinfo, indexInBitmap_eq hseq hstart, hdistance]
      cases hv : header.m_baType.m_variant with
      | basic =>
        rw [hv] at hvariant
        exact absurd hvariant (by decide)
      | multiTid =>
        rw [hv] at hvariant
        exact absurd hvariant (by decide)
      | compressed => rfl
      | extendedCompressed => rfl
      | multiSta => rfl
    obtain ⟨hindex, -⟩ := List.getElem?_eq_some_iff.mp hinfo
    refine ⟨_, (if_pos rfl).trans hset, h.variant, h.bitmapLen, _, List.getElem?_set_self hindex, hstart, hall,
      (List.length_modify ..).trans hlength, fun i hi => ?_⟩
    show ∃ b, bitOf (info.m_bitmap.modify (filled / 8) (· ||| 1 <<< UInt8.ofNat (filled % 8))) i = some b ∧ _
    rw [bitOf_modify (by omega)]
    by_cases heq : filled = i
    · subst heq
      exact ⟨true, if_pos rfl, iff_of_true rfl ⟨Nat.lt_succ_self _, hmarked.mp rfl⟩⟩
    · obtain ⟨b, hb, hbit⟩ := hbits i hi
      refine ⟨b, (if_neg heq).trans hb, hbit.trans (and_congr_left fun _ => ?_)⟩
      omega

/-- All bits of the window. -/
theorem Filled.fill {w : BlockAckWindow} {size n : Nat} (hw : Tracks w size sb.start sb.received) (hsize : size ≤ len * 8)
    (hsmall : len < 256) (h : Filled index len sb filled header) (hn : filled + n = size) :
    ∃ header', w.fill index (sb.start % 4096) n filled header = some header' ∧ Filled index len sb size header' := by
  induction n generalizing filled header with
  | zero =>
    obtain rfl : filled = size := hn
    exact ⟨header, rfl, h⟩
  | succ n ih =>
    obtain ⟨b, hb, hmarked⟩ := hw.bitAt (i := filled) (by omega)
    obtain ⟨header₁, hset, h₁⟩ := h.setReceivedPacket (by omega) hsmall hmarked
    obtain ⟨header', hfill, h'⟩ := ih h₁ (by omega)
    refine ⟨header', ?_, h'⟩
    rw [BlockAckWindow.fill, hb, Option.bind_some, hset, Option.bind_some]
    exact hfill

/-- A header that can take the bits of a window at the index: its bitmap is long enough, and it does not acknowledge
everything anyway. -/
structure Fillable (size index : Nat) (header : CtrlBAckResponseHeader) : Prop where
  variant : header.m_baType.m_variant ∈ ([.compressed, .extendedCompressed, .multiSta] : List BlockAckVariant)
  bitmapLen : ∃ bitmapLen, header.m_baType.m_bitmapLen[index]? = some bitmapLen ∧ size ≤ bitmapLen.toNat * 8
  info : ∃ info, header.m_baInfo[index]? = some info ∧ header.allAck info = false

/-- A new bitmap has no bits. -/
theorem Fillable.restart {size : Nat} (h : Fillable size index header) (sb : Scoreboard) :
    ∃ len header', size ≤ len * 8 ∧ len < 256 ∧ header.restart index (sb.start % 4096) = some header' ∧
      Filled index len sb 0 header' := by
  obtain ⟨bitmapLen, hlen, hsize⟩ := h.bitmapLen
  obtain ⟨info, hinfo, hall⟩ := h.info
  obtain ⟨hindex, -⟩ := List.getElem?_eq_some_iff.mp hinfo
  have hrestart : header.restart index (sb.start % 4096) = some (header.withInfo index
      { info with m_startingSeq := sb.start % 4096, m_bitmap := List.replicate bitmapLen.toNat 0 }) := by
    rw [CtrlBAckResponseHeader.restart, hlen, hinfo]
    rfl
  refine ⟨bitmapLen.toNat, _, hsize, bitmapLen.toNat_lt, hrestart, h.variant, ⟨bitmapLen, hlen, rfl⟩, _,
    List.getElem?_set_self hindex, rfl, hall, List.length_replicate, fun i hi => ?_⟩
  refine ⟨false, ?_, iff_of_false Bool.false_ne_true fun hmem => absurd hmem.1 (Nat.not_lt_zero i)⟩
  show bitOf (List.replicate bitmapLen.toNat 0) i = some false
  rw [bitOf, List.getElem?_replicate, if_pos (by omega), Option.map_some, UInt8.zero_and]
  rfl

/-- What a header says of a sequence number. -/
theorem Filled.isPacketReceived (h : Filled index len sb filled header) (hfilled : filled ≤ len * 8)
    {seq : Nat} (hseq : seq < 4096) :
    ∃ b, header.isPacketReceived index seq = some b ∧
      (b = true ↔ sb.number seq < sb.start + filled ∧ sb.number seq ∈ sb.received) := by
  obtain ⟨info, hinfo, hstart, hall, -, hbits⟩ := h.info
  have hnumber : sb.number seq = sb.start + getDistance seq (sb.start % 4096) := rfl
  rw [CtrlBAckResponseHeader.isPacketReceived, hinfo, hnumber, Nat.add_lt_add_iff_left]
  simp only [Option.bind_eq_bind, Option.bind_some, hall, h.isInBitmap hseq, indexInBitmap_eq hseq hstart]
  by_cases hlt : getDistance seq (sb.start % 4096) < len * 8
  · obtain ⟨b, hb, hbit⟩ := hbits _ hlt
    refine ⟨b, ?_, hbit⟩
    rw [decide_eq_true hlt]
    have hvariant := h.variant
    obtain ⟨byte, hbyte, rfl⟩ := Option.map_eq_some_iff.mp hb
    rw [hbyte, if_neg (by exact Bool.false_ne_true), if_pos rfl]
    cases hv : header.m_baType.m_variant with
    | basic =>
      rw [hv] at hvariant
      exact absurd hvariant (by decide)
    | multiTid =>
      rw [hv] at hvariant
      exact absurd hvariant (by decide)
    | compressed => rfl
    | extendedCompressed => rfl
    | multiSta => rfl
  · rw [decide_eq_false hlt]
    exact ⟨false, rfl, iff_of_false Bool.false_ne_true fun hmem => hlt (hmem.1.trans_le hfilled)⟩

end CtrlBAckResponseHeader

namespace RecipientBlockAckAgreement

variable {Packet : Type} {agreement : RecipientBlockAckAgreement Packet} {sb : Scoreboard}

/-- The arguments of a call. -/
def Call.Valid : Call Packet → Prop
  | .mpdu m => m.m_seqSeq < 4096
  | .bar seq => seq < 4096
  | .flush => True

/-- What the reordering buffer leaves alone. -/
structure Same (agreement agreement' : RecipientBlockAckAgreement Packet) : Prop where
  htSupported : agreement'.m_htSupported = agreement.m_htSupported
  bufferSize : agreement'.m_bufferSize = agreement.m_bufferSize
  winSizeB : agreement'.m_winSizeB = agreement.m_winSizeB
  scoreboard : agreement'.m_scoreboard = agreement.m_scoreboard

theorem storeMpdu_same (mpdu : Mpdu Packet) : Same agreement (agreement.storeMpdu mpdu).2 := by
  rw [storeMpdu]
  split
  · exact ⟨rfl, rfl, rfl, rfl⟩
  · split <;> exact ⟨rfl, rfl, rfl, rfl⟩

theorem moveToBar_same (seq : Nat) : Same agreement (agreement.moveToBar seq).2 := by
  rw [moveToBar]
  split <;> exact ⟨rfl, rfl, rfl, rfl⟩

/-- The scoreboard of an agreement, and the fields that no call changes. -/
structure Scored (size : Nat) (ht : Bool) (agreement : RecipientBlockAckAgreement Packet) (sb : Scoreboard) :
    Prop where
  tracks : Tracks agreement.m_scoreboard size sb.start sb.received
  htSupported : agreement.m_htSupported = ht
  bufferSize : agreement.m_bufferSize = size
  winSizeB : agreement.m_winSizeB = size

variable {size : Nat} {ht : Bool}

theorem Scored.same (h : Scored size ht agreement sb) {agreement' : RecipientBlockAckAgreement Packet}
    (hsame : Same agreement agreement') : Scored size ht agreement' sb where
  tracks := hsame.scoreboard ▸ h.tracks
  htSupported := hsame.htSupported.trans h.htSupported
  bufferSize := hsame.bufferSize.trans h.bufferSize
  winSizeB := hsame.winSizeB.trans h.winSizeB

theorem Scored.call (h : Scored size ht agreement sb) (hsize : size ≤ 256) {c : Call Packet}
    (hc : c.Valid) :
    ∃ passed agreement', agreement.call c = some (passed, agreement') ∧
      Scored size ht agreement' (sb.call size c) := by
  cases c with
  | mpdu m =>
    obtain ⟨w, hw, htracks⟩ := h.tracks.receiveMpdu hsize hc
    refine ⟨_, _, by rw [RecipientBlockAckAgreement.call, notifyReceivedMpdu, hw]; rfl, ?_⟩
    have hscored : Scored size ht { agreement with m_scoreboard := w } (sb.call size (.mpdu m)) :=
      ⟨htracks, h.htSupported, h.bufferSize, h.winSizeB⟩
    exact hscored.same (storeMpdu_same m)
  | bar seq =>
    refine ⟨_, _, rfl, ?_⟩
    have hscored : Scored size ht { agreement with m_scoreboard := agreement.m_scoreboard.receiveBar seq }
        (sb.bar seq) := ⟨h.tracks.receiveBar hsize hc, h.htSupported, h.bufferSize, h.winSizeB⟩
    exact hscored.same (moveToBar_same seq)
  | flush => exact ⟨_, _, rfl, h.same ⟨rfl, rfl, rfl, rfl⟩⟩

/-- The scoreboard over any calls. -/
theorem Scored.calls (h : Scored size ht agreement sb) (hsize : size ≤ 256)
    {cs : List (Call Packet)} (hcs : ∀ c ∈ cs, c.Valid) :
    ∃ passed agreement', agreement.calls cs = some (passed, agreement') ∧
      Scored size ht agreement' (cs.foldl (Scoreboard.call size) sb) := by
  induction cs generalizing agreement sb with
  | nil => exact ⟨[], agreement, rfl, h⟩
  | cons c cs ih =>
    obtain ⟨hc, hcs⟩ := List.forall_mem_cons.mp hcs
    obtain ⟨passed, agreement₁, hcall, h₁⟩ := h.call hsize hc
    obtain ⟨passed', agreement', hcalls, h'⟩ := ih h₁ hcs
    refine ⟨passed ++ passed', agreement', ?_, h'⟩
    rw [RecipientBlockAckAgreement.calls, hcall]
    show (agreement₁.calls cs).bind _ = _
    rw [hcalls]
    rfl

/-- A header that is filled from the scoreboard acknowledges what was received and is in the window. -/
theorem Scored.fillBlockAckBitmap (h : Scored size ht agreement sb) {index : Nat} {header : CtrlBAckResponseHeader}
    (hheader : header.Fillable size index) :
    ∃ header', agreement.fillBlockAckBitmap index header = some header' ∧
      ∀ seq < 4096, ∃ b, header'.isPacketReceived index seq = some b ∧
        (b = true ↔ sb.number seq < sb.start + size ∧ sb.number seq ∈ sb.received) := by
  obtain ⟨len, header₀, hlen, hsmall, hrestart, h₀⟩ := hheader.restart sb
  obtain ⟨header', hfill, h'⟩ := h₀.fill h.tracks hlen hsmall (Nat.zero_add size)
  refine ⟨header', ?_, fun seq hseq => h'.isPacketReceived hlen hseq⟩
  have hvariant := hheader.variant
  have hbits : (header.restart index agreement.m_scoreboard.m_winStart).bind (fun header => agreement.m_scoreboard.fill
      index agreement.m_scoreboard.m_winStart agreement.m_scoreboard.getWinSize 0 header) = some header' := by
    rw [h.tracks.winStart, hrestart, BlockAckWindow.getWinSize, h.tracks.length]
    exact hfill
  rw [RecipientBlockAckAgreement.fillBlockAckBitmap]
  cases hv : header.m_baType.m_variant with
  | basic =>
    rw [hv] at hvariant
    exact absurd hvariant (by decide)
  | multiTid =>
    rw [hv] at hvariant
    exact absurd hvariant (by decide)
  | compressed => exact hbits
  | extendedCompressed => exact hbits
  | multiSta => exact hbits

/-- The header of an agreement has room for its window. -/
theorem Scored.fillable (h : Scored size true agreement sb) (hsize : size ≤ 256) :
    (CtrlBAckResponseHeader.ofType agreement.getBlockAckType).Fillable size 0 := by
  rw [getBlockAckType, h.htSupported, h.bufferSize]
  by_cases hlarge : 64 < size
  · rw [if_neg (by decide), if_pos hlarge]
    exact ⟨by decide, ⟨32, rfl, hsize⟩, _, rfl, rfl⟩
  · rw [if_neg (by decide), if_neg hlarge]
    exact ⟨by decide, ⟨8, rfl, Nat.le_of_not_lt hlarge⟩, _, rfl, rfl⟩

theorem scored_create {startingSeq : Nat} (hstart : startingSeq < 4096) (hpos : 0 < size) :
    Scored size ht (create size startingSeq ht : RecipientBlockAckAgreement Packet)
      ⟨startingSeq, ∅⟩ := ⟨.init hstart hpos, rfl, rfl, rfl⟩

/-- After any calls the bits of the window say which of its numbers were received, and so does a `BlockAck` that is
filled from it. -/
theorem scoreboard_exact (startingSeq bufferSize : Nat) (htSupported : Bool) (cs : List (Call Packet))
    (hstart : startingSeq < 4096) (hpos : 1 ≤ bufferSize) (hsize : bufferSize ≤ 256) (hcs : ∀ c ∈ cs, c.Valid) :
    ∃ passed agreement, (create bufferSize startingSeq htSupported).calls cs = some (passed, agreement) ∧
      ∃ sb, sb = cs.foldl (Scoreboard.call bufferSize) ⟨startingSeq, ∅⟩ ∧
        agreement.m_scoreboard.m_winStart = sb.start % 4096 ∧
        (∀ i < bufferSize, ∃ b, agreement.m_scoreboard.bitAt i = some b ∧
          (b = true ↔ sb.start + i ∈ sb.received)) ∧
        (∀ index header, CtrlBAckResponseHeader.Fillable bufferSize index header →
          ∃ header', agreement.fillBlockAckBitmap index header = some header' ∧
            ∀ seq < 4096, ∃ b, header'.isPacketReceived index seq = some b ∧
              (b = true ↔ sb.number seq < sb.start + bufferSize ∧ sb.number seq ∈ sb.received)) ∧
        (htSupported → (CtrlBAckResponseHeader.ofType agreement.getBlockAckType).Fillable bufferSize 0) := by
  obtain ⟨passed, agreement, hcalls, h⟩ := (scored_create hstart hpos).calls hsize hcs
  refine ⟨passed, agreement, hcalls, _, rfl, h.tracks.winStart, fun i hi => h.tracks.bitAt hi,
    fun index header hheader => h.fillBlockAckBitmap hheader, ?_⟩
  rintro rfl
  exact h.fillable hsize

theorem scoreboard_exact_wrap : ∃ passed agreement,
    (create 8 4090 true : RecipientBlockAckAgreement Unit).calls [.mpdu ⟨4094, ()⟩, .mpdu ⟨3, ()⟩, .bar 4093] =
      some (passed, agreement) ∧
      ∃ sb, sb = ([.mpdu ⟨4094, ()⟩, .mpdu ⟨3, ()⟩, .bar 4093] : List (Call Unit)).foldl (Scoreboard.call 8) ⟨4090, ∅⟩ ∧
        agreement.m_scoreboard.m_winStart = sb.start % 4096 ∧
        (∀ i < 8, ∃ b, agreement.m_scoreboard.bitAt i = some b ∧ (b = true ↔ sb.start + i ∈ sb.received)) ∧
        (∀ index header, CtrlBAckResponseHeader.Fillable 8 index header →
          ∃ header', agreement.fillBlockAckBitmap index header = some header' ∧
            ∀ seq < 4096, ∃ b, header'.isPacketReceived index seq = some b ∧
              (b = true ↔ sb.number seq < sb.start + 8 ∧ sb.number seq ∈ sb.received)) ∧
        (true → (CtrlBAckResponseHeader.ofType agreement.getBlockAckType).Fillable 8 0) :=
  scoreboard_exact 4090 8 true [.mpdu ⟨4094, ()⟩, .mpdu ⟨3, ()⟩, .bar 4093] (by decide) (by decide) (by decide)
    (List.forall_mem_cons.mpr ⟨(by decide : 4094 < 4096), List.forall_mem_cons.mpr ⟨(by decide : 3 < 4096),
      List.forall_mem_cons.mpr ⟨(by decide : 4093 < 4096), fun _ hc => nomatch hc⟩⟩⟩)

end RecipientBlockAckAgreement

end Ns3.Wifi
