import Ns3.Network.IpChecksum
import Ns3.SixLowPan.Fragmentation

/-!
# Reassembly of 6LoWPAN

The fragments that `DoFragmentation` makes are consecutive in the packet before compression, fit the MTU, and
`ProcessFragment` puts the compressed packet together from them, in whatever order they come and however often.
-/

namespace Ns3.SixLowPan

open Ns3.Lib Ns3.Network

/-! ### Headers -/

namespace SixLowPanFrag

variable {h : SixLowPanFrag} {p : Bytes}

theorem tag_bytes (tag : UInt16) :
    ((tag >>> 8).toUInt8.toUInt16 <<< 8) ||| (tag &&& 0xff).toUInt8.toUInt16 = tag := by
  have htag := tag.toNat_lt
  apply UInt16.toNat_inj.mp
  rw [toNat_join16, UInt16.toNat_toUInt8, UInt16.toNat_toUInt8, UInt16.toNat_shiftRight, UInt16.toNat_and,
    Nat.shiftRight_eq_div_pow]
  show 256 * (tag.toNat / 2 ^ 8 % 2 ^ 8) + (tag.toNat &&& 2 ^ 8 - 1) % 2 ^ 8 = tag.toNat
  rw [Nat.and_two_pow_sub_one_eq_mod]
  omega

/-- A size behind the bits of a dispatch. -/
theorem or_dispatch {n k : Nat} (hn : n < 2048) (hk : k < 32) :
    UInt16.ofNat n ||| UInt16.ofNat (2 ^ 11 * k) = UInt16.ofNat (2 ^ 11 * k + n) := by
  apply UInt16.toNat_inj.mp
  rw [UInt16.toNat_or, UInt16.toNat_ofNat_of_lt' (hn.trans (by decide)),
    UInt16.toNat_ofNat_of_lt' (by show _ < 65536; omega), UInt16.toNat_ofNat_of_lt' (by show _ < 65536; omega),
    Nat.or_comm, Nat.two_pow_add_eq_or_of_lt hn]

theorem dispatch_bytes : ∀ j < 8, getDispatchType (UInt8.ofNat (8 * 24 + j)) = .frag1 ∧
    getDispatchType (UInt8.ofNat (8 * 28 + j)) = .fragN := by
  decide

/-- What the two bytes of dispatch and size are read as. -/
theorem size_bytes {n : Nat} (hn : n < 2048) {dispatch : UInt8} (hdispatch : dispatch ∈ ([0xC0, 0xE0] : List UInt8)) :
    let temp := UInt16.ofNat n ||| (dispatch.toUInt16 <<< 8)
    (((temp >>> 8).toUInt8.toUInt16 <<< 8) ||| (temp &&& 0xff).toUInt8.toUInt16) &&& 0x7FF = UInt16.ofNat n ∧
      getDispatchType (temp >>> 8).toUInt8 = if dispatch = 0xC0 then .frag1 else .fragN := by
  intro temp
  obtain ⟨k, hk, hshift, htype⟩ : ∃ k < 32, dispatch.toUInt16 <<< 8 = UInt16.ofNat (2 ^ 11 * k) ∧ ∀ j < 8,
      getDispatchType (UInt8.ofNat (8 * k + j)) = if dispatch = 0xC0 then .frag1 else .fragN := by
    obtain rfl | hdispatch := List.mem_cons.mp hdispatch
    · exact ⟨24, by decide, rfl, fun j hj => (dispatch_bytes j hj).1⟩
    · obtain rfl := List.mem_singleton.mp hdispatch
      exact ⟨28, by decide, rfl, fun j hj => (dispatch_bytes j hj).2⟩
  have htemp : temp.toNat = 2 ^ 11 * k + n := by
    show (UInt16.ofNat n ||| (dispatch.toUInt16 <<< 8)).toNat = _
    rw [hshift, or_dispatch hn hk, UInt16.toNat_ofNat_of_lt' (by show _ < 65536; omega)]
  constructor
  · rw [tag_bytes]
    apply UInt16.toNat_inj.mp
    rw [UInt16.toNat_and, htemp, UInt16.toNat_ofNat_of_lt' (hn.trans (by decide))]
    show (2 ^ 11 * k + n) &&& 2 ^ 11 - 1 = n
    rw [Nat.and_two_pow_sub_one_eq_mod]
    omega
  · have hbyte : (temp >>> 8).toUInt8 = UInt8.ofNat (8 * k + n / 256) := by
      apply UInt8.toNat_inj.mp
      rw [UInt16.toNat_toUInt8, UInt16.toNat_shiftRight, htemp, Nat.shiftRight_eq_div_pow,
        UInt8.toNat_ofNat_of_lt' (by show _ < 256; omega)]
      show (2 ^ 11 * k + n) / 2 ^ 8 % 2 ^ 8 = _
      omega
    rw [hbyte]
    exact htype _ (by omega)

theorem remove_serialize (hsize : h.m_datagramSize.toNat < 2048) {dispatch : UInt8}
    (hdispatch : dispatch ∈ ([0xC0, 0xE0] : List UInt8)) : remove (h.serialize dispatch ++ p) = some (h, p) := by
  have hbytes := (size_bytes hsize hdispatch).1
  rw [UInt16.ofNat_toNat] at hbytes
  show some (SixLowPanFrag.mk _ _, p) = _
  rw [hbytes, tag_bytes]

theorem dispatchOf_serialize (hsize : h.m_datagramSize.toNat < 2048) {dispatch : UInt8}
    (hdispatch : dispatch ∈ ([0xC0, 0xE0] : List UInt8)) :
    dispatchOf (h.serialize dispatch ++ p) = if dispatch = 0xC0 then .frag1 else .fragN := by
  have hbytes := (size_bytes hsize hdispatch).2
  rw [UInt16.ofNat_toNat] at hbytes
  exact hbytes

end SixLowPanFrag

/-! ### Making fragments -/

theorem toNat_rounded (size : UInt32) : (size - size % 8).toNat = size.toNat / 8 * 8 := by
  have hmod : (size % 8).toNat = size.toNat % 8 := UInt32.toNat_mod _ _
  rw [UInt32.toNat_sub_of_le _ _ (UInt32.le_iff_toNat_le.mpr (by rw [hmod]; exact Nat.mod_le _ _)), hmod]
  omega

theorem createFragment_eq {packet : Bytes} {start length : Nat} (h : start + length ≤ packet.length) :
    createFragment packet start length = some ((packet.drop start).take length) := if_pos h

/-- A fragment other than the first one. -/
def frameN (header : SixLowPanFrag) (c : Chunk UInt8) : Bytes :=
  addFragN header (UInt16.ofNat c.1 >>> 3).toUInt8 c.2

section Cut

variable {l2Mtu : UInt16} {header : SixLowPanFrag} {p : Bytes} {extraHdrSize : UInt32} {room : Nat}

theorem cutOff_eq {size : UInt32} {s : Cut} (hpos : 0 < size.toNat) (hfit : s.offsetData.toNat + size.toNat ≤ p.length) :
    cutOff header p size s = some ⟨s.offset + size.toUInt16, s.offsetData + size.toUInt16, s.fragments ++
      [addFragN header (s.offset >>> 3).toUInt8 ((p.drop s.offsetData.toNat).take size.toNat)]⟩ := by
  have hpos : 0 < size := UInt32.lt_iff_toNat_lt.mpr hpos
  rw [cutOff, if_pos hpos, createFragment_eq hfit]
  rfl

/-- What the fragments made so far are: consecutive pieces of the packet from `start` on, the first of them at
the offset `first`. -/
structure CutAt (header : SixLowPanFrag) (p : Bytes) (room start first : Nat) (pre : List Bytes) (s : Cut)
    (cs : List (Chunk UInt8)) : Prop where
  start_le : start ≤ s.offsetData.toNat
  fits : s.offsetData.toNat ≤ p.length
  offset : s.offset.toNat = first + (s.offsetData.toNat - start)
  fragments : s.fragments = pre ++ cs.map (frameN header)
  consecutive : Consecutive first cs
  values : cs.flatMap Prod.snd = (p.drop start).take (s.offsetData.toNat - start)
  rooms : ∀ c ∈ cs, c.1 % 8 = 0 ∧ c.2.length ≤ room

variable {start first : Nat} {pre : List Bytes} {s : Cut} {cs : List (Chunk UInt8)}

theorem CutAt.total (h : CutAt header p room start first pre s cs) : total cs = s.offsetData.toNat - start := by
  have hstart := h.start_le
  have hfits := h.fits
  rw [← length_flatMap, h.values, List.length_take, List.length_drop]
  omega

/-- One more fragment. -/
theorem CutAt.more (h : CutAt header p room start first pre s cs) (haligned : s.offset.toNat % 8 = 0)
    (size : UInt32) (hpos : 0 < size.toNat) (hroom : size.toNat ≤ room)
    (hfit : s.offsetData.toNat + size.toNat ≤ p.length) (hp : p.length < 2 ^ 16)
    (hend : first + (p.length - start) < 2 ^ 16) :
    ∃ s' cs', cutOff header p size s = some s' ∧ s'.offsetData.toNat = s.offsetData.toNat + size.toNat ∧
      s'.offset.toNat = s.offset.toNat + size.toNat ∧ CutAt header p room start first pre s' cs' := by
  have hstart := h.start_le
  have hoffset := h.offset
  have hlen : ((p.drop s.offsetData.toNat).take size.toNat).length = size.toNat := by
    rw [List.length_take, List.length_drop]
    omega
  have hsize : size.toUInt16.toNat = size.toNat := by
    rw [UInt32.toNat_toUInt16]
    omega
  have hdata : (s.offsetData + size.toUInt16).toNat = s.offsetData.toNat + size.toNat := by
    rw [UInt16.toNat_add, hsize]
    omega
  have hnext : (s.offset + size.toUInt16).toNat = s.offset.toNat + size.toNat := by
    rw [UInt16.toNat_add, hsize]
    omega
  refine ⟨_, cs ++ [(s.offset.toNat, (p.drop s.offsetData.toNat).take size.toNat)], cutOff_eq hpos hfit, hdata, hnext, ?_⟩
  constructor
  · show start ≤ (s.offsetData + size.toUInt16).toNat
    omega
  · show (s.offsetData + size.toUInt16).toNat ≤ p.length
    omega
  · show (s.offset + size.toUInt16).toNat = first + ((s.offsetData + size.toUInt16).toNat - start)
    omega
  · rw [List.map_append, ← List.append_assoc, h.fragments]
    show _ = pre ++ cs.map (frameN header) ++ [addFragN header (UInt16.ofNat s.offset.toNat >>> 3).toUInt8 _]
    rw [UInt16.ofNat_toNat]
  · refine h.consecutive.append ⟨?_, ?_, trivial⟩
    · rw [h.total]
      exact hoffset
    · rw [← List.length_pos_iff, hlen]
      exact hpos
  · rw [List.flatMap_append, h.values, List.flatMap_singleton]
    show _ = (p.drop start).take ((s.offsetData + size.toUInt16).toNat - start)
    have hsplit : s.offsetData.toNat + size.toNat - start = s.offsetData.toNat - start + size.toNat := by omega
    have hdrop : start + (s.offsetData.toNat - start) = s.offsetData.toNat := by omega
    rw [hdata, hsplit, List.take_add, List.drop_drop, hdrop]
  · intro c hc
    obtain hc | hc := List.mem_append.mp hc
    · exact h.rooms c hc
    · obtain rfl := List.mem_singleton.mp hc
      exact ⟨haligned, hlen.trans_le hroom⟩

/-- All fragments have been made. -/
structure CutUp (header : SixLowPanFrag) (p : Bytes) (room start first : Nat) (pre : List Bytes)
    (fragments : List Bytes) (cs : List (Chunk UInt8)) : Prop where
  fragments : fragments = pre ++ cs.map (frameN header)
  consecutive : Consecutive first cs
  values : cs.flatMap Prod.snd = p.drop start
  rooms : ∀ c ∈ cs, c.1 % 8 = 0 ∧ c.2.length ≤ room

theorem CutAt.up (h : CutAt header p room start first pre s cs) (hend : s.offsetData.toNat = p.length) :
    CutUp header p room start first pre s.fragments cs where
  fragments := h.fragments
  consecutive := h.consecutive
  values := by
    rw [h.values, hend, ← List.length_drop, List.take_length]
  rooms := h.rooms

/-- The room for the pieces of a packet. -/
structure Rooms (l2Mtu : UInt16) (extraHdrSize packetSize : UInt32) (p : Bytes) (room start first : Nat) : Prop where
  room_eq : (l2Mtu.toUInt32 - 5 - extraHdrSize).toNat / 8 * 8 = room
  positive : 0 < room
  room_lt : room < 2 ^ 16
  packetSize : packetSize.toNat = p.length
  short : p.length < 2 ^ 16
  ends : first + (p.length - start) < 2 ^ 16

variable {packetSize : UInt32}

theorem cutTurn_cases (hr : Rooms l2Mtu extraHdrSize packetSize p room start first)
    (h : CutAt header p room start first pre s cs) (haligned : s.offset.toNat % 8 = 0) :
    (∃ s' cs', cutTurn l2Mtu header p packetSize extraHdrSize s = .again s' ∧
        CutAt header p room start first pre s' cs' ∧ s'.offset.toNat % 8 = 0 ∧
        s.offsetData.toNat < s'.offsetData.toNat) ∨
      ∃ fragments cs', cutTurn l2Mtu header p packetSize extraHdrSize s = .leave (some fragments) ∧
        CutUp header p room start first pre fragments cs' := by
  have hw := toNat_rounded (l2Mtu.toUInt32 - 5 - extraHdrSize)
  rw [hr.room_eq] at hw
  have hmod : room % 8 = 0 := by
    have := hr.room_eq
    omega
  have hfits := h.fits
  have hshort := hr.short
  have hpositive := hr.positive
  have hlt := hr.room_lt
  rw [cutTurn]
  generalize l2Mtu.toUInt32 - 5 - extraHdrSize - (l2Mtu.toUInt32 - 5 - extraHdrSize) % 8 = w at hw
  have hx : s.offsetData.toUInt32.toNat = s.offsetData.toNat := rfl
  have hsum : (s.offsetData.toUInt32 + w).toNat = s.offsetData.toNat + room := by
    rw [UInt32.toNat_add, hx, hw]
    omega
  by_cases hlast : packetSize < s.offsetData.toUInt32 + w
  · simp only [hlast, if_true]
    rw [UInt32.lt_iff_toNat_lt, hr.packetSize, hsum] at hlast
    have hrest : (packetSize - s.offsetData.toUInt32).toNat = p.length - s.offsetData.toNat := by
      have hle : s.offsetData.toUInt32 ≤ packetSize := by
        rw [UInt32.le_iff_toNat_le, hr.packetSize]
        exact hfits
      rw [UInt32.toNat_sub_of_le _ _ hle, hr.packetSize, hx]
    by_cases hend : s.offsetData.toNat = p.length
    · -- the fragments have filled the packet exactly
      have hzero : ¬ 0 < packetSize - s.offsetData.toUInt32 := by
        rw [UInt32.lt_iff_toNat_lt, hrest, hend, Nat.sub_self]
        exact Nat.lt_irrefl 0
      rw [cutOff, if_neg hzero]
      exact .inr ⟨_, _, rfl, h.up hend⟩
    · obtain ⟨s', cs', hcut, hdata, -, hs'⟩ := h.more haligned (packetSize - s.offsetData.toUInt32)
        (by omega) (by omega) (by omega) hshort hr.ends
      rw [hcut]
      exact .inr ⟨_, _, rfl, hs'.up (by omega)⟩
  · simp only [hlast, if_false]
    rw [UInt32.lt_iff_toNat_lt, hr.packetSize, hsum] at hlast
    obtain ⟨s', cs', hcut, hdata, hoffset, hs'⟩ := h.more haligned w (by omega) (by omega) (by omega)
      hshort hr.ends
    rw [hcut]
    exact .inl ⟨s', cs', rfl, hs', by omega, by omega⟩

/-- The loop makes all fragments. -/
theorem cutTurns (hr : Rooms l2Mtu extraHdrSize packetSize p room start first)
    (h : CutAt header p room start first pre s cs) (haligned : s.offset.toNat % 8 = 0) :
    ∃ fragments cs', turns (cutTurn l2Mtu header p packetSize extraHdrSize) (p.length + 1) s = some (some fragments) ∧
      CutUp header p room start first pre fragments cs' := by
  have hstart : ∃ cs, CutAt header p room start first pre s cs ∧ s.offset.toNat % 8 = 0 := ⟨cs, h, haligned⟩
  obtain ⟨result, hturns⟩ := turns_of_measure (cutTurn l2Mtu header p packetSize extraHdrSize)
    (I := fun s => ∃ cs, CutAt header p room start first pre s cs ∧ s.offset.toNat % 8 = 0)
    (fun s => p.length - s.offsetData.toNat)
    (fun s s' hs hturn => by
      obtain ⟨cs, hcs, haligned⟩ := hs
      obtain ⟨s₁, cs₁, hagain, hcs₁, haligned₁, hless⟩ | ⟨fragments, cs₁, hleave, -⟩ := cutTurn_cases hr hcs haligned
      · obtain rfl := Turn.again.inj (hagain.symm.trans hturn)
        have := hcs₁.fits
        exact ⟨⟨cs₁, hcs₁, haligned₁⟩, by omega⟩
      · cases hleave.symm.trans hturn) hstart (Nat.lt_succ_of_le (Nat.sub_le _ _))
  obtain ⟨fragments, cs', rfl, hup⟩ : ∃ fragments cs', result = some fragments ∧
      CutUp header p room start first pre fragments cs' := by
    refine turns_of_invariant (I := fun s => ∃ cs, CutAt header p room start first pre s cs ∧ s.offset.toNat % 8 = 0)
      (J := fun result => ∃ fragments cs', result = some fragments ∧
        CutUp header p room start first pre fragments cs') ?_ ?_ hstart hturns
    · rintro s s' ⟨cs, hcs, haligned⟩ hturn
      obtain ⟨s₁, cs₁, hagain, hcs₁, haligned₁, -⟩ | ⟨fragments, cs₁, hleave, -⟩ := cutTurn_cases hr hcs haligned
      · obtain rfl := Turn.again.inj (hagain.symm.trans hturn)
        exact ⟨cs₁, hcs₁, haligned₁⟩
      · cases hleave.symm.trans hturn
    · rintro s result ⟨cs, hcs, haligned⟩ hturn
      obtain ⟨s₁, cs₁, hagain, -⟩ | ⟨fragments, cs₁, hleave, hup⟩ := cutTurn_cases hr hcs haligned
      · cases hagain.symm.trans hturn
      · obtain rfl := Turn.leave.inj (hleave.symm.trans hturn)
        exact ⟨fragments, cs₁, rfl, hup⟩
  exact ⟨fragments, cs', hturns, hup⟩

end Cut

/-- What is known of a packet, `hdr` compressed and `rest`, that `DoSend` fragments: it was `origPacketSize` bytes,
of which `origHdrSize` are compressed. -/
structure Sendable (l2Mtu : UInt16) (hdr rest : Bytes) (origPacketSize origHdrSize extraHdrSize : UInt32) : Prop where
  compressed : hdr ≠ []
  small : origPacketSize.toNat ≤ 2047
  size : origPacketSize.toNat = origHdrSize.toNat + rest.length
  aligned : origHdrSize.toNat % 8 = 0
  mtu : hdr.length + extraHdrSize.toNat + 12 ≤ l2Mtu.toNat
  big : tooBig l2Mtu (hdr ++ rest) extraHdrSize

section Sendable

variable {l2Mtu : UInt16} {hdr rest : Bytes} {origPacketSize origHdrSize extraHdrSize : UInt32}

/-- The packet is really too big, whatever its size wraps to. -/
theorem Sendable.exceeds (h : Sendable l2Mtu hdr rest origPacketSize origHdrSize extraHdrSize) :
    l2Mtu.toNat < hdr.length + rest.length + extraHdrSize.toNat ∧ hdr.length + rest.length < 2 ^ 16 := by
  have hbig : l2Mtu < UInt16.ofNat (hdr ++ rest).length + extraHdrSize.toUInt16 := of_decide_eq_true h.big
  have hsmall := h.small
  have hsize := h.size
  have hmtu := h.mtu
  have hlt := l2Mtu.toNat_lt
  rw [UInt16.lt_iff_toNat_lt, UInt16.toNat_add, UInt16.toNat_ofNat', UInt32.toNat_toUInt16, List.length_append] at hbig
  omega

/-- The tail of a packet behind its header. -/
theorem drop_header (hdr rest : Bytes) (n : Nat) : (hdr ++ rest).drop (hdr.length + n) = rest.drop n := by
  rw [List.drop_append, List.drop_eq_nil_of_le (Nat.le_add_right _ _), List.nil_append, Nat.add_sub_cancel_left]

theorem Sendable.compressedHeaderSize (h : Sendable l2Mtu hdr rest origPacketSize origHdrSize extraHdrSize) :
    (UInt32.ofNat (hdr ++ rest).length).toNat = hdr.length + rest.length ∧
      (UInt32.ofNat (hdr ++ rest).length - (origPacketSize - origHdrSize)).toNat = hdr.length := by
  have hsize := h.size
  have hlength : (hdr ++ rest).length = hdr.length + rest.length := List.length_append
  have hpacket : (UInt32.ofNat (hdr ++ rest).length).toNat = hdr.length + rest.length := by
    rw [UInt32.toNat_ofNat_of_lt' ((hlength.trans_lt h.exceeds.2).trans (by decide)), hlength]
  have hle : origHdrSize ≤ origPacketSize := by
    rw [UInt32.le_iff_toNat_le]
    omega
  have hdata : (origPacketSize - origHdrSize).toNat = rest.length := by
    rw [UInt32.toNat_sub_of_le _ _ hle]
    omega
  refine ⟨hpacket, ?_⟩
  rw [UInt32.toNat_sub_of_le _ _ (by rw [UInt32.le_iff_toNat_le, hpacket, hdata]; omega), hpacket, hdata]
  omega

/-- The differences of sizes do not wrap. -/
theorem toNat_room {c x : UInt32} {k : UInt32} (hfits : k.toNat + c.toNat + x.toNat ≤ l2Mtu.toNat) :
    (l2Mtu.toUInt32 - k - c - x).toNat = l2Mtu.toNat - k.toNat - c.toNat - x.toNat := by
  have h₀ : l2Mtu.toUInt32.toNat = l2Mtu.toNat := rfl
  have h₁ : (l2Mtu.toUInt32 - k).toNat = l2Mtu.toNat - k.toNat :=
    UInt32.toNat_sub_of_le _ _ (by rw [UInt32.le_iff_toNat_le, h₀]; omega)
  have h₂ : (l2Mtu.toUInt32 - k - c).toNat = l2Mtu.toNat - k.toNat - c.toNat := by
    rw [UInt32.toNat_sub_of_le _ _ (by rw [UInt32.le_iff_toNat_le, h₁]; omega), h₁]
  rw [UInt32.toNat_sub_of_le _ _ (by rw [UInt32.le_iff_toNat_le, h₂]; omega), h₂]

/-- `DoFragmentation` makes a first fragment, of `n` bytes behind the header, and the others. -/
theorem doFragmentation_eq (h : Sendable l2Mtu hdr rest origPacketSize origHdrSize extraHdrSize) (tag : UInt16) :
    ∃ n cs, doFragmentation l2Mtu tag (hdr ++ rest) origPacketSize origHdrSize extraHdrSize =
        some (addFrag1 (.set origPacketSize.toUInt16 tag) (hdr ++ rest.take n) ::
          cs.map (frameN (.set origPacketSize.toUInt16 tag))) ∧
      0 < n ∧ n ≤ rest.length ∧ 4 + (hdr.length + n) + extraHdrSize.toNat ≤ l2Mtu.toNat ∧
      Consecutive (origHdrSize.toNat + n) cs ∧ cs.flatMap Prod.snd = rest.drop n ∧
      ∀ c ∈ cs, c.1 % 8 = 0 ∧ 5 + c.2.length + extraHdrSize.toNat ≤ l2Mtu.toNat := by
  obtain ⟨hexceeds, hshort⟩ := h.exceeds
  obtain ⟨hpacket, hc⟩ := h.compressedHeaderSize
  have hcompressed := List.length_pos_iff.mpr h.compressed
  have hsmall := h.small
  have hsize := h.size
  have haligned := h.aligned
  have hmtu := h.mtu
  have hlt := l2Mtu.toNat_lt
  have hlength : (hdr ++ rest).length = hdr.length + rest.length := List.length_append
  rw [doFragmentation]
  generalize UInt32.ofNat (hdr ++ rest).length - (origPacketSize - origHdrSize) = c at hc
  have hfirst : (l2Mtu.toUInt32 - 4 - c - extraHdrSize).toNat = l2Mtu.toNat - 4 - c.toNat - extraHdrSize.toNat :=
    toNat_room (by show 4 + c.toNat + extraHdrSize.toNat ≤ _; omega)
  have hnext : (l2Mtu.toUInt32 - 5 - extraHdrSize).toNat = l2Mtu.toNat - 5 - extraHdrSize.toNat := by
    have hroom : (l2Mtu.toUInt32 - 5 - 0 - extraHdrSize).toNat = l2Mtu.toNat - 5 - 0 - extraHdrSize.toNat :=
      toNat_room (by show 5 + 0 + extraHdrSize.toNat ≤ _; omega)
    rw [UInt32.sub_zero] at hroom
    exact hroom
  have hrounded := toNat_rounded (l2Mtu.toUInt32 - 4 - c - extraHdrSize)
  rw [hfirst, hc] at hrounded
  obtain ⟨n, hn⟩ : ∃ n, (l2Mtu.toNat - 4 - hdr.length - extraHdrSize.toNat) / 8 * 8 = n := ⟨_, rfl⟩
  rw [hn] at hrounded
  generalize l2Mtu.toUInt32 - 4 - c - extraHdrSize - (l2Mtu.toUInt32 - 4 - c - extraHdrSize) % 8 = w at hrounded
  -- the sizes behind the first fragment
  have hw : (w + c).toNat = n + hdr.length := by
    rw [UInt32.toNat_add, hrounded, hc]
    omega
  have hoffset : (w + c + origHdrSize - c).toUInt16.toNat = origHdrSize.toNat + n := by
    have hsum : (w + c + origHdrSize).toNat = n + hdr.length + origHdrSize.toNat := by
      rw [UInt32.toNat_add, hw]
      omega
    rw [UInt32.toNat_toUInt16, UInt32.toNat_sub_of_le _ _ (by rw [UInt32.le_iff_toNat_le, hsum]; omega), hsum]
    omega
  have hdata : (w + c).toUInt16.toNat = hdr.length + n := by
    rw [UInt32.toNat_toUInt16, hw]
    omega
  have hguard : (4 : UInt16) < l2Mtu := by
    rw [UInt16.lt_iff_toNat_lt]
    show 4 < _
    omega
  have hfragment : createFragment (hdr ++ rest) 0 (w + c).toNat = some (hdr ++ rest.take n) := by
    rw [createFragment_eq (by omega), hw, List.drop_zero, List.take_append, List.take_of_length_le (by omega),
      Nat.add_sub_cancel]
  have hrooms : Rooms l2Mtu extraHdrSize (UInt32.ofNat (hdr ++ rest).length) (hdr ++ rest)
      ((l2Mtu.toNat - 5 - extraHdrSize.toNat) / 8 * 8) (hdr.length + n) (origHdrSize.toNat + n) := by
    refine ⟨by rw [hnext], by omega, by omega, by rw [hpacket, hlength], by omega, by omega⟩
  have hat : CutAt (.set origPacketSize.toUInt16 tag) (hdr ++ rest) ((l2Mtu.toNat - 5 - extraHdrSize.toNat) / 8 * 8)
      (hdr.length + n) (origHdrSize.toNat + n) [addFrag1 (.set origPacketSize.toUInt16 tag) (hdr ++ rest.take n)]
      ⟨(w + c + origHdrSize - c).toUInt16, (w + c).toUInt16,
        [addFrag1 (.set origPacketSize.toUInt16 tag) (hdr ++ rest.take n)]⟩ [] := by
    refine ⟨by rw [hdata], by rw [hdata]; omega, ?_, rfl, trivial, ?_, fun _ hc => nomatch hc⟩
    · rw [hoffset, hdata, Nat.sub_self, Nat.add_zero]
    · rw [hdata, Nat.sub_self]
      rfl
  obtain ⟨fragments, cs, hturns, hup⟩ := cutTurns hrooms hat (by show (w + c + origHdrSize - c).toUInt16.toNat % 8 = 0; omega)
  refine ⟨n, cs, ?_, by omega, by omega, by omega, hup.consecutive, ?_, fun c hc => ?_⟩
  · simp only [hguard, guard, if_true, Option.pure_def, Option.bind_eq_bind, Option.bind_some, hfragment, hturns,
      hup.fragments, Option.join_some, List.singleton_append]
  · rw [hup.values, drop_header]
  · obtain ⟨hmod, hroom⟩ := hup.rooms c hc
    exact ⟨hmod, by omega⟩

end Sendable

/-! ### Putting fragments together -/

/-- Fragments as a device holds them. -/
def stored (cs : List (Chunk UInt8)) : List (Bytes × UInt16) := cs.map fun c => (c.2, UInt16.ofNat c.1)

theorem ofNat_lt {m n : Nat} (hm : m < 2 ^ 16) (hn : n < 2 ^ 16) : UInt16.ofNat m < UInt16.ofNat n ↔ m < n := by
  rw [UInt16.lt_iff_toNat_lt, UInt16.toNat_ofNat_of_lt' hm, UInt16.toNat_ofNat_of_lt' hn]

theorem ofNat_inj {m n : Nat} (hm : m < 2 ^ 16) (hn : n < 2 ^ 16) : UInt16.ofNat m = UInt16.ofNat n ↔ m = n := by
  rw [← UInt16.toNat_inj, UInt16.toNat_ofNat_of_lt' hm, UInt16.toNat_ofNat_of_lt' hn]

theorem max_ofNat {m n : Nat} (hm : m < 2 ^ 16) (hn : n < 2 ^ 16) :
    max (UInt16.ofNat m) (UInt16.ofNat n) = UInt16.ofNat (max m n) := by
  have hle : UInt16.ofNat m ≤ UInt16.ofNat n ↔ m ≤ n := by
    rw [UInt16.le_iff_toNat_le, UInt16.toNat_ofNat_of_lt' hm, UInt16.toNat_ofNat_of_lt' hn]
  show (if UInt16.ofNat m ≤ UInt16.ofNat n then _ else _) = _
  by_cases h : m ≤ n
  · rw [if_pos (hle.mpr h), max_eq_right h]
  · rw [if_neg (mt hle.mp h), max_eq_left (Nat.le_of_not_le h)]

namespace Fragments

variable {c : Chunk UInt8} {cs : List (Chunk UInt8)} {e : Nat}

theorem insertAt_stored (hc : c.1 < 2 ^ 16) (hcs : ∀ d ∈ cs, d.1 < 2 ^ 16)
    (hsame : ∀ d ∈ cs, d.1 = c.1 → c.2.length = d.2.length) :
    insertAt c.2 (UInt16.ofNat c.1) (stored cs) = some (stored (collect c cs)) := by
  induction cs with
  | nil => rfl
  | cons d ds ih =>
    have hd := hcs d List.mem_cons_self
    show insertAt c.2 (UInt16.ofNat c.1) ((d.2, UInt16.ofNat d.1) :: stored ds) = _
    rw [insertAt, collect]
    by_cases hlt : c.1 < d.1
    · rw [if_pos ((ofNat_lt hc hd).mpr hlt), if_pos hlt]
      rfl
    · rw [if_neg (mt (ofNat_lt hc hd).mp hlt), if_neg hlt]
      by_cases heq : d.1 = c.1
      · rw [if_pos ((ofNat_inj hd hc).mpr heq), if_pos heq, if_pos (hsame d List.mem_cons_self heq)]
        rfl
      · rw [if_neg (mt (ofNat_inj hd hc).mp heq), if_neg heq,
          ih (fun x hx => hcs x (List.mem_cons_of_mem _ hx)) fun x hx => hsame x (List.mem_cons_of_mem _ hx)]
        rfl

theorem lastEndOffset_stored (he : e < 2 ^ 16) (hcs : ∀ d ∈ cs, d.stop < 2 ^ 16) :
    lastEndOffset (UInt16.ofNat e) (stored cs) = (reach e cs).map UInt16.ofNat := by
  induction cs generalizing e with
  | nil => rfl
  | cons d ds ih =>
    have hd := hcs d List.mem_cons_self
    have hstart : d.1 < 2 ^ 16 := (Nat.le_add_right _ _).trans_lt hd
    show lastEndOffset (UInt16.ofNat e) ((d.2, UInt16.ofNat d.1) :: stored ds) = _
    rw [lastEndOffset, reach]
    by_cases hlt : e < d.1
    · rw [if_pos ((ofNat_lt he hstart).mpr hlt), if_pos hlt]
      rfl
    · have hmax : max (UInt16.ofNat e) (UInt16.ofNat d.2.length + UInt16.ofNat d.1) = UInt16.ofNat (max e d.stop) := by
        rw [← UInt16.ofNat_add, Nat.add_comm]
        exact max_ofNat he hd
      rw [if_neg (mt (ofNat_lt he hstart).mp hlt), if_neg hlt, hmax,
        ih (max_lt he hd) fun x hx => hcs x (List.mem_cons_of_mem _ hx)]

theorem assemble_stored (h : Consecutive e cs) (hend : e + total cs < 2 ^ 16) :
    assemble (UInt16.ofNat e) (stored cs) = some (cs.flatMap Prod.snd) := by
  induction cs generalizing e with
  | nil => rfl
  | cons d ds ih =>
    obtain ⟨rfl, -, hds⟩ := h
    rw [total_cons, ← Nat.add_assoc] at hend
    show assemble (UInt16.ofNat d.1) ((d.2, UInt16.ofNat d.1) :: stored ds) = _
    rw [assemble, if_neg (UInt16.lt_irrefl _), ← UInt16.ofNat_add]
    show (assemble (UInt16.ofNat d.stop) (stored ds)).map _ = _
    rw [ih hds hend]
    rfl

end Fragments

namespace Device

variable {Address : Type} [DecidableEq Address] {key : FragmentKey Address} {d : Device Address}

theorem lookup_append_new {l : List (FragmentKey Address × Fragments)} (h : l.lookup key = none) (fs : Fragments) :
    (l ++ [(key, fs)]).lookup key = some fs := by
  rw [List.lookup_append, h, List.lookup_cons_self]
  rfl

theorem lookup_tail {l : List (FragmentKey Address × Fragments)} (h : l.lookup key = none) :
    l.tail.lookup key = none := by
  cases l with
  | nil => rfl
  | cons e l =>
    rw [List.lookup_eq_none_iff] at h ⊢
    exact fun x hx => h x (List.mem_cons_of_mem _ hx)

theorem find_create (h : d.find key = none) (packetSize : UInt16) :
    (d.create key packetSize).find key = some { m_packetSize := packetSize.toUInt32 } := by
  apply lookup_append_new
  split
  · exact lookup_tail h
  · exact h

theorem lookup_replace {l : List (FragmentKey Address × Fragments)} {fs : Fragments} (h : l.lookup key = some fs)
    (fs' : Fragments) : (l.map fun e => if e.1 = key then (key, fs') else e).lookup key = some fs' := by
  induction l with
  | nil => cases h
  | cons e l ih =>
    obtain ⟨k, x⟩ := e
    by_cases hk : k = key
    · subst hk
      rw [List.map_cons, if_pos rfl, List.lookup_cons_self]
    · have hne : (key == k) = false := beq_false_of_ne (Ne.symm hk)
      rw [List.lookup_cons, hne] at h
      rw [List.map_cons, if_neg hk, List.lookup_cons, hne]
      exact ih h

theorem find_store {fs : Fragments} (h : d.find key = some fs) (fs' : Fragments) :
    (d.store key fs').find key = some fs' := lookup_replace h fs'

theorem find_erase : (d.erase key).find key = none := by
  show (d.m_fragments.filter _).lookup key = none
  rw [List.lookup_eq_none_iff]
  intro e he
  rw [bne_iff_ne]
  exact (of_decide_eq_true (List.mem_filter.mp he).2).symm

end Device

/-! ### The fragments of one datagram -/

/-- A datagram whose fragments carry `c₀` and `cs` of the packet before compression; `frame0` is the fragment of
`c₀`, and the frames together hold the compressed packet. -/
structure Datagram (header : SixLowPanFrag) (frame0 packet : Bytes) (c₀ : Chunk UInt8) (cs : List (Chunk UInt8)) :
    Prop where
  consecutive : Consecutive 0 (c₀ :: cs)
  total_eq : total (c₀ :: cs) = header.m_datagramSize.toNat
  size_lt : header.m_datagramSize.toNat < 2048
  aligned : ∀ c ∈ cs, c.1 % 8 = 0
  whole : SixLowPanFrag.remove (frame0 ++ cs.flatMap Prod.snd) = some (header, packet)

namespace Datagram

variable {header : SixLowPanFrag} {frame0 packet : Bytes} {c₀ c : Chunk UInt8} {cs : List (Chunk UInt8)}
  {got : List Nat}

theorem stop_lt (h : Datagram header frame0 packet c₀ cs) (hc : c ∈ c₀ :: cs) : c.stop < 2048 := by
  have hle := h.consecutive.stop_le hc
  rw [Nat.zero_add, h.total_eq] at hle
  exact hle.trans_lt h.size_lt

theorem start_lt (h : Datagram header frame0 packet c₀ cs) (hc : c ∈ c₀ :: cs) : c.1 < 2048 :=
  (Nat.le_add_right _ _).trans_lt (h.stop_lt hc)

/-- The state of the entry of a datagram, of which the fragments at `got` have come. -/
structure Collected (header : SixLowPanFrag) (frame0 : Bytes) (all : List (Chunk UInt8)) (got : List Nat)
    (fs : Fragments) : Prop where
  fragments : fs.m_fragments = stored (kept got all)
  packetSize : fs.m_packetSize = header.m_datagramSize.toUInt32
  firstFragment : 0 ∈ got → fs.m_firstFragment = some frame0

/-- `AddFragment` of one that has come. -/
theorem addFragment_collected (h : Datagram header frame0 packet c₀ cs) {fs : Fragments}
    (hfs : Collected header frame0 (c₀ :: cs) got fs) (hc : c ∈ c₀ :: cs) :
    fs.addFragment c.2 (UInt16.ofNat c.1) =
      some { fs with m_fragments := stored (kept (c.1 :: got) (c₀ :: cs)) } := by
  have hkept : ∀ d ∈ kept got (c₀ :: cs), d ∈ c₀ :: cs := fun d hd => List.mem_of_mem_filter hd
  rw [Fragments.addFragment, hfs.fragments, Fragments.insertAt_stored ((h.start_lt hc).trans (by decide))
    (fun d hd => (h.start_lt (hkept d hd)).trans (by decide)), collect_kept h.consecutive.increasing hc]
  · rfl
  · intro d hd heq
    rw [h.consecutive.eq_of_start (hkept d hd) hc heq]

/-- `IsEntire` says whether all have come. -/
theorem isEntire_iff (h : Datagram header frame0 packet c₀ cs) {fs : Fragments}
    (hfs : Collected header frame0 (c₀ :: cs) got fs) (hgot : kept got (c₀ :: cs) ≠ []) :
    fs.isEntire ↔ ∀ c ∈ c₀ :: cs, c.1 ∈ got := by
  have hstop : ∀ d ∈ kept got (c₀ :: cs), d.stop ≤ 2047 :=
    fun d hd => Nat.le_of_lt_succ (h.stop_lt (List.mem_of_mem_filter hd))
  have hempty : fs.m_fragments.isEmpty = false := by
    rw [hfs.fragments, stored, List.isEmpty_eq_false_iff, ne_eq, List.map_eq_nil_iff]
    exact hgot
  have hreach : Fragments.lastEndOffset 0 (stored (kept got (c₀ :: cs))) = _ :=
    Fragments.lastEndOffset_stored (e := 0) (by decide)
      (fun d hd => (Nat.lt_succ_of_le (hstop d hd)).trans (by decide : 2048 < 2 ^ 16))
  rw [← reach_kept h.consecutive, Nat.zero_add, h.total_eq, Fragments.isEntire, hempty, hfs.fragments, hreach,
    hfs.packetSize, Bool.not_false, Bool.true_and]
  cases hend : reach 0 (kept got (c₀ :: cs)) with
  | none => exact iff_of_false Bool.false_ne_true (Option.some_ne_none _).symm
  | some e =>
    have he : e < 2 ^ 16 := (Nat.lt_succ_of_le (reach_le (Nat.zero_le _) hstop hend)).trans (by decide : 2048 < 2 ^ 16)
    show decide ((UInt16.ofNat e).toUInt32 = header.m_datagramSize.toUInt32) = true ↔ _
    rw [decide_eq_true_iff, ← UInt32.toNat_inj, Option.some_inj]
    show (UInt16.ofNat e).toNat = header.m_datagramSize.toNat ↔ _
    rw [UInt16.toNat_ofNat_of_lt' he]

/-- `GetPacket` when all have come. -/
theorem getPacket_all (h : Datagram header frame0 packet c₀ cs) {fs : Fragments}
    (hfs : Collected header frame0 (c₀ :: cs) got fs) (hall : ∀ c ∈ c₀ :: cs, c.1 ∈ got) :
    fs.getPacket = some (frame0 ++ cs.flatMap Prod.snd) := by
  have hstart := h.consecutive.1
  have htotal := h.total_eq
  have hlt := h.size_lt
  rw [total_cons] at htotal
  have hrest : Consecutive c₀.2.length cs := by
    have := h.consecutive.2.2
    rw [Chunk.stop, hstart, Nat.zero_add] at this
    exact this
  have hfirst := hfs.firstFragment (hstart ▸ hall c₀ List.mem_cons_self)
  have hfragments : fs.m_fragments = (c₀.2, UInt16.ofNat c₀.1) :: stored cs := by
    rw [hfs.fragments, kept_all hall]
    rfl
  rw [Fragments.getPacket, hfirst, hfragments]
  show (Fragments.assemble (UInt16.ofNat c₀.2.length) (stored cs)).map _ = _
  rw [Fragments.assemble_stored hrest (by omega)]
  rfl

section Device

variable {Address : Type} [DecidableEq Address] {key : FragmentKey Address} {d : Device Address}

/-- The device holds the fragments at `got` of the datagram, and no entry if there are none. -/
def Holds (header : SixLowPanFrag) (frame0 : Bytes) (all : List (Chunk UInt8)) (key : FragmentKey Address)
    (got : List Nat) (d : Device Address) : Prop :=
  (got = [] ∧ d.find key = none) ∨ ∃ fs, d.find key = some fs ∧ Collected header frame0 all got fs

/-- The entry of the datagram, which is made if there is none. -/
theorem Holds.entry {all : List (Chunk UInt8)} (h : Holds header frame0 all key got d) :
    ∃ fs, (if (d.find key).isSome then d else d.create key header.m_datagramSize).find key = some fs ∧
      Collected header frame0 all got fs := by
  obtain ⟨rfl, hnone⟩ | ⟨fs, hfs, hcollected⟩ := h
  · rw [hnone, if_neg (by exact Bool.false_ne_true)]
    refine ⟨_, Device.find_create hnone _, ?_, rfl, fun h => nomatch h⟩
    show [] = stored (all.filter _)
    rw [List.filter_eq_nil_iff.mpr (fun c _ => by rw [decide_eq_true_iff]; exact List.not_mem_nil)]
    rfl
  · rw [hfs, if_pos (by rfl)]
    exact ⟨fs, hfs, hcollected⟩

/-- The entry is done with if all have come. -/
theorem finish_step (h : Datagram header frame0 packet c₀ cs) {fs fs' : Fragments} (hentry : d.find key = some fs)
    (hc : c ∈ c₀ :: cs) (hfs : Collected header frame0 (c₀ :: cs) (c.1 :: got) fs') :
    ∃ d', (if fs'.isEntire then do
          let packet ← fs'.getPacket
          let (_, packet) ← SixLowPanFrag.remove packet
          pure (some packet, d.erase key)
        else pure (none, d.store key fs')) =
        some (if ∀ x ∈ c₀ :: cs, x.1 ∈ c.1 :: got then some packet else none, d') ∧
      Holds header frame0 (c₀ :: cs) key (if ∀ x ∈ c₀ :: cs, x.1 ∈ c.1 :: got then [] else c.1 :: got) d' := by
  have hkept : kept (c.1 :: got) (c₀ :: cs) ≠ [] :=
    List.ne_nil_of_mem (List.mem_filter.mpr ⟨hc, decide_eq_true List.mem_cons_self⟩)
  have hentire := h.isEntire_iff hfs hkept
  by_cases hall : ∀ x ∈ c₀ :: cs, x.1 ∈ c.1 :: got
  · rw [if_pos hall, if_pos hall, if_pos (hentire.mpr hall), h.getPacket_all hfs hall, Option.bind_eq_bind,
      Option.bind_some, h.whole]
    exact ⟨_, rfl, .inl ⟨rfl, Device.find_erase⟩⟩
  · rw [if_neg hall, if_neg hall, if_neg (mt hentire.mp hall)]
    exact ⟨_, rfl, .inr ⟨fs', Device.find_store hentry fs', hfs⟩⟩

/-- One fragment: the packet is entire if it was the last one missing, and then its entry goes. -/
theorem reassemble_step (h : Datagram header frame0 packet c₀ cs) (hd : Holds header frame0 (c₀ :: cs) key got d)
    (hc : c ∈ c₀ :: cs) (first : Option Bytes) (hfirst : first = if c.1 = 0 then some frame0 else none) :
    ∃ d', d.reassemble key header.m_datagramSize c.2 (UInt16.ofNat c.1) first =
        some (if ∀ x ∈ c₀ :: cs, x.1 ∈ c.1 :: got then some packet else none, d') ∧
      Holds header frame0 (c₀ :: cs) key (if ∀ x ∈ c₀ :: cs, x.1 ∈ c.1 :: got then [] else c.1 :: got) d' := by
  obtain ⟨fs, hentry, hfs⟩ := hd.entry
  rw [Device.reassemble]
  generalize (if (d.find key).isSome then d else d.create key header.m_datagramSize) = d₁ at hentry
  simp only [hentry, h.addFragment_collected hfs hc, Option.bind_eq_bind, Option.bind_some]
  by_cases hzero : c.1 = 0
  · rw [if_pos hzero] at hfirst
    subst hfirst
    exact h.finish_step hentry hc ⟨rfl, hfs.packetSize, fun _ => rfl⟩
  · rw [if_neg hzero] at hfirst
    subst hfirst
    refine h.finish_step hentry hc ⟨rfl, hfs.packetSize, fun hmem => ?_⟩
    exact hfs.firstFragment ((List.mem_cons.mp hmem).resolve_left (Ne.symm hzero))

end Device

/-- The frame of a fragment. -/
def frame (header : SixLowPanFrag) (frame0 : Bytes) (c : Chunk UInt8) : Bytes :=
  if c.1 = 0 then frame0 else frameN header c

theorem offset_byte {n : Nat} (hn : n < 2048) (haligned : n % 8 = 0) :
    (UInt16.ofNat n >>> 3).toUInt8.toUInt16 <<< 3 = UInt16.ofNat n := by
  apply UInt16.toNat_inj.mp
  rw [UInt16.toNat_shiftLeft, UInt8.toNat_toUInt16, UInt16.toNat_toUInt8, UInt16.toNat_shiftRight,
    UInt16.toNat_ofNat_of_lt' (hn.trans (by decide)), Nat.shiftLeft_eq, Nat.shiftRight_eq_div_pow]
  show n / 2 ^ 3 % 2 ^ 8 * 2 ^ 3 % 2 ^ 16 = n
  omega

theorem removeFragN_frameN (h : Datagram header frame0 packet c₀ cs) :
    removeFragN (frameN header c) = some (header, (UInt16.ofNat c.1 >>> 3).toUInt8, c.2) := by
  rw [removeFragN, frameN, addFragN, SixLowPanFrag.remove_serialize h.size_lt (by decide)]

theorem dispatchOf_frameN (h : Datagram header frame0 packet c₀ cs) : dispatchOf (frameN header c) = .fragN :=
  SixLowPanFrag.dispatchOf_serialize h.size_lt (by decide)

theorem pos_of_mem (h : Datagram header frame0 packet c₀ cs) (hc : c ∈ cs) : c.1 ≠ 0 := by
  have hpos := lt_stop h.consecutive.2.1
  have hle := h.consecutive.2.2.le hc
  omega

theorem frame_of_mem (h : Datagram header frame0 packet c₀ cs) (hc : c ∈ cs) :
    frame header frame0 c = frameN header c := if_neg (h.pos_of_mem hc)

theorem frame_first (h : Datagram header frame0 packet c₀ cs) : frame header frame0 c₀ = frame0 :=
  if_pos h.consecutive.1

/-- The frames are different. -/
theorem frame_inj (h : Datagram header frame0 packet c₀ cs) (hframe0 : dispatchOf frame0 = .frag1) {d : Chunk UInt8}
    (hc : c ∈ c₀ :: cs) (hd : d ∈ c₀ :: cs) (heq : frame header frame0 c = frame header frame0 d) : c.1 = d.1 := by
  obtain rfl | hc' := List.mem_cons.mp hc <;> obtain rfl | hd' := List.mem_cons.mp hd
  · rfl
  · rw [h.frame_first, h.frame_of_mem hd'] at heq
    cases (heq ▸ hframe0).symm.trans h.dispatchOf_frameN
  · rw [h.frame_first, h.frame_of_mem hc'] at heq
    cases (heq ▸ hframe0).symm.trans h.dispatchOf_frameN
  · rw [h.frame_of_mem hc', h.frame_of_mem hd'] at heq
    have hbyte := congrArg removeFragN heq
    rw [h.removeFragN_frameN, h.removeFragN_frameN, Option.some_inj, Prod.mk.injEq, Prod.mk.injEq] at hbyte
    have hoffset : UInt16.ofNat c.1 = UInt16.ofNat d.1 := by
      rw [← offset_byte (h.start_lt hc) (h.aligned c hc'), hbyte.2.1,
        offset_byte (h.start_lt hd) (h.aligned d hd')]
    exact (ofNat_inj ((h.start_lt hc).trans (by decide)) ((h.start_lt hd).trans (by decide))).mp hoffset

end Datagram

/-! ### Any order and any duplicates -/

/-- Which of the arriving fragments is the last one missing, when those of `got` have come. With it, the datagram
is done and none has come. -/
def completions (fragments : List Bytes) : List Bytes → List Bytes → List Bool
  | _, [] => []
  | got, f :: arriving =>
    decide (∀ g ∈ fragments, g ∈ f :: got) ::
      completions fragments (if ∀ g ∈ fragments, g ∈ f :: got then [] else f :: got) arriving

namespace Datagram

variable {header : SixLowPanFrag} {p frame0 packet : Bytes} {c₀ c : Chunk UInt8} {cs : List (Chunk UInt8)}
  {Address : Type} [DecidableEq Address] {D : Decompression Address} {src dst : Address} {d : Device Address}

theorem receive_step (h : Datagram header (addFrag1 header p) packet c₀ cs)
    (hfirst : D.first src dst p = some (some c₀.2)) {got : List Nat}
    (hd : Holds header (addFrag1 header p) (c₀ :: cs) ((src, dst), header.m_datagramSize, header.m_datagramTag) got d)
    (hc : c ∈ c₀ :: cs) :
    ∃ d', d.receive D src dst (frame header (addFrag1 header p) c) =
        some (if ∀ x ∈ c₀ :: cs, x.1 ∈ c.1 :: got then some packet else none, d') ∧
      Holds header (addFrag1 header p) (c₀ :: cs) ((src, dst), header.m_datagramSize, header.m_datagramTag)
        (if ∀ x ∈ c₀ :: cs, x.1 ∈ c.1 :: got then [] else c.1 :: got) d' := by
  obtain rfl | hc' := List.mem_cons.mp hc
  · have hzero := h.consecutive.1
    obtain ⟨d', hreassemble, hd'⟩ := h.reassemble_step hd hc (some (addFrag1 header p)) (if_pos hzero).symm
    refine ⟨d', ?_, hd'⟩
    have hdispatch : dispatchOf (addFrag1 header p) = .frag1 :=
      SixLowPanFrag.dispatchOf_serialize h.size_lt (by decide)
    have hremove : SixLowPanFrag.remove (addFrag1 header p) = some (header, p) :=
      SixLowPanFrag.remove_serialize h.size_lt (by decide)
    have hoffset : UInt16.ofNat c.1 = 0 := by
      rw [hzero]
      rfl
    rw [hoffset] at hreassemble
    rw [h.frame_first, Device.receive, hdispatch]
    show Device.processFragment D _ src dst true d = _
    rw [Device.processFragment, if_pos rfl, hremove, Option.bind_eq_bind, Option.bind_some]
    show (D.first src dst p).bind _ = _
    rw [hfirst]
    exact hreassemble
  · have hzero := h.pos_of_mem hc'
    obtain ⟨d', hreassemble, hd'⟩ := h.reassemble_step hd hc none (if_neg hzero).symm
    refine ⟨d', ?_, hd'⟩
    rw [h.frame_of_mem hc', Device.receive, h.dispatchOf_frameN]
    show Device.processFragment D _ src dst false d = _
    rw [← offset_byte (h.start_lt hc) (h.aligned c hc')] at hreassemble
    rw [Device.processFragment, if_neg (by exact Bool.false_ne_true), h.removeFragN_frameN]
    exact hreassemble

theorem receiveAll_eq (h : Datagram header (addFrag1 header p) packet c₀ cs)
    (hfirst : D.first src dst p = some (some c₀.2)) (got : List (Chunk UInt8)) (hgot : ∀ c ∈ got, c ∈ c₀ :: cs)
    (hd : Holds header (addFrag1 header p) (c₀ :: cs) ((src, dst), header.m_datagramSize, header.m_datagramTag)
      (got.map Prod.fst) d) {arriving : List (Chunk UInt8)} (harriving : ∀ c ∈ arriving, c ∈ c₀ :: cs) :
    ∃ d', d.receiveAll D src dst (arriving.map (frame header (addFrag1 header p))) =
      some ((completions ((c₀ :: cs).map (frame header (addFrag1 header p)))
        (got.map (frame header (addFrag1 header p))) (arriving.map (frame header (addFrag1 header p)))).map
          fun whole => if whole then some packet else none, d') := by
  have hdispatch : dispatchOf (addFrag1 header p) = .frag1 :=
    SixLowPanFrag.dispatchOf_serialize h.size_lt (by decide)
  induction arriving generalizing got d with
  | nil => exact ⟨d, rfl⟩
  | cons c arriving ih =>
    obtain ⟨hc, harriving⟩ := List.forall_mem_cons.mp harriving
    have hgot' : ∀ x ∈ c :: got, x ∈ c₀ :: cs := List.forall_mem_cons.mpr ⟨hc, hgot⟩
    -- a fragment has come with its position or with its frame
    have hiff : (∀ x ∈ c₀ :: cs, x.1 ∈ c.1 :: got.map Prod.fst) ↔
        ∀ g ∈ (c₀ :: cs).map (frame header (addFrag1 header p)),
          g ∈ frame header (addFrag1 header p) c :: got.map (frame header (addFrag1 header p)) := by
      rw [List.forall_mem_map]
      refine forall₂_congr fun x hx => ?_
      rw [← List.map_cons (f := Prod.fst), ← List.map_cons (f := frame header (addFrag1 header p)), List.mem_map,
        List.mem_map]
      refine exists_congr fun y => and_congr_right fun hy => ⟨fun heq => ?_, fun heq => ?_⟩
      · rw [h.consecutive.eq_of_start (hgot' y hy) hx heq]
      · exact h.frame_inj hdispatch (hgot' y hy) hx heq
    obtain ⟨d₁, hreceive, hd₁⟩ := h.receive_step hfirst hd hc
    rw [List.map_cons (l := arriving), Device.receiveAll, hreceive, completions, Option.bind_eq_bind, Option.bind_some]
    by_cases hall : ∀ x ∈ c₀ :: cs, x.1 ∈ c.1 :: got.map Prod.fst
    · rw [if_pos hall] at hd₁
      obtain ⟨d', hrest⟩ := ih [] (fun _ hx => nomatch hx) hd₁ harriving
      rw [if_pos hall, if_pos (hiff.mp hall), decide_eq_true (hiff.mp hall)]
      simp only [hrest]
      exact ⟨d', rfl⟩
    · rw [if_neg hall] at hd₁
      obtain ⟨d', hrest⟩ := ih (c :: got) hgot' hd₁ harriving
      rw [if_neg hall, if_neg (mt hiff.mpr hall), decide_eq_false (mt hiff.mpr hall)]
      simp only [hrest]
      exact ⟨d', rfl⟩

end Datagram

section

variable {Address : Type} [DecidableEq Address] {l2Mtu : UInt16} {hdr rest : Bytes}
  {origPacketSize origHdrSize extraHdrSize : UInt32}

theorem set_datagramSize (h : origPacketSize.toNat ≤ 2047) (tag : UInt16) :
    (SixLowPanFrag.set origPacketSize.toUInt16 tag).m_datagramSize = origPacketSize.toUInt16 := by
  rw [← UInt16.toNat_inj]
  show (origPacketSize.toUInt16 &&& 0x7FF).toNat = _
  rw [UInt16.toNat_and, UInt32.toNat_toUInt16]
  show origPacketSize.toNat % 2 ^ 16 &&& 2 ^ 11 - 1 = _
  rw [Nat.and_two_pow_sub_one_eq_mod]
  omega

/-- What `DoFragmentation` makes of a packet are the fragments of a datagram. -/
theorem Sendable.datagram (h : Sendable l2Mtu hdr rest origPacketSize origHdrSize extraHdrSize) (tag : UInt16)
    {n : Nat} {cs : List (Chunk UInt8)} (hpos : 0 < n) (hn : n ≤ rest.length)
    (hcs : Consecutive (origHdrSize.toNat + n) cs) (hvalues : cs.flatMap Prod.snd = rest.drop n)
    (haligned : ∀ c ∈ cs, c.1 % 8 = 0) {hdr' : Bytes} (hhdr' : hdr'.length = origHdrSize.toNat) :
    Datagram (.set origPacketSize.toUInt16 tag) (addFrag1 (.set origPacketSize.toUInt16 tag) (hdr ++ rest.take n))
      (hdr ++ rest) (0, hdr' ++ rest.take n) cs := by
  have hsmall := h.small
  have hsize := h.size
  have hheader := congrArg UInt16.toNat (set_datagramSize hsmall tag)
  rw [UInt32.toNat_toUInt16, Nat.mod_eq_of_lt (by omega)] at hheader
  have hlength : (hdr' ++ rest.take n).length = origHdrSize.toNat + n := by
    rw [List.length_append, hhdr', List.length_take, Nat.min_eq_left hn]
  constructor
  · refine ⟨rfl, List.ne_nil_of_length_pos (hlength ▸ Nat.add_pos_right _ hpos), ?_⟩
    show Consecutive (0 + (hdr' ++ rest.take n).length) cs
    rw [Nat.zero_add, hlength]
    exact hcs
  · have htotal := length_flatMap cs
    rw [hvalues, List.length_drop] at htotal
    rw [total_cons, ← htotal, hheader]
    show (hdr' ++ rest.take n).length + _ = _
    omega
  · omega
  · exact haligned
  · rw [addFrag1, List.append_assoc, SixLowPanFrag.remove_serialize (by omega) (by decide), hvalues, List.append_assoc,
      List.take_append_drop]

theorem exists_map_eq {α β : Type*} {f : α → β} {all : List α} {bs : List β} (h : ∀ b ∈ bs, b ∈ all.map f) :
    ∃ as : List α, (∀ a ∈ as, a ∈ all) ∧ as.map f = bs := by
  induction bs with
  | nil => exact ⟨[], (fun _ ha => nomatch ha), rfl⟩
  | cons b bs ih =>
    obtain ⟨hb, hbs⟩ := List.forall_mem_cons.mp h
    obtain ⟨a, ha, rfl⟩ := List.mem_map.mp hb
    obtain ⟨as, has, rfl⟩ := ih hbs
    exact ⟨a :: as, List.forall_mem_cons.mpr ⟨ha, has⟩, rfl⟩

end

end Ns3.SixLowPan
