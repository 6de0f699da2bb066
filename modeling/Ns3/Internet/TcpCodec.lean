import Ns3.Internet.TcpHeader

/-!
# What a `TcpHeader` is read back as

The bytes of a header with options of at most forty bytes, and the header that is read from them. The
checksum that is written makes the sum all ones as far as the sum covers it, which is decided by the
size of the segment modulo 2^16.
-/

namespace Ns3.Internet

open Ns3.Lib Ns3.Network

/-- The options, one after the other. -/
def optionBytes (options : List TcpOption) : List UInt8 := options.flatMap TcpOption.bytes

@[simp] theorem optionBytes_cons (op : TcpOption) (options : List TcpOption) :
    optionBytes (op :: options) = op.bytes ++ optionBytes options := rfl

theorem length_le_optionBytes (options : List TcpOption) :
    options.length ≤ (optionBytes options).length := by
  induction options with
  | nil => exact Nat.le_refl 0
  | cons op options ih =>
    rw [optionBytes_cons, List.length_append, List.length_cons, TcpOption.bytes, List.length_cons]
    omega

namespace TcpHeader

/-- The bytes that pad `n` bytes to words. -/
def padding (n : Nat) : Nat := (4 - n % 4) % 4

/-! ### The setters -/

/-- What holds of a header that only setters were called on. -/
structure Made (h : TcpHeader) : Prop where
  appendable : ∀ op ∈ h.m_options, op.Appendable
  optionsLen : h.m_optionsLen = (h.m_options.map TcpOption.getSerializedSize).sum % 256
  small : h.m_optionsLen ≤ 40
  length : h.m_length = (23 + h.m_optionsLen) / 4

theorem Made.appendOption {h : TcpHeader} (hm : h.Made) {option : TcpOption}
    (ha : option.Appendable) : (h.appendOption option).2.Made := by
  have hsmall := hm.small
  have hlen := hm.optionsLen
  rw [TcpHeader.appendOption]
  split
  · next hsize =>
    rw [m_maxOptionsLen] at hsize
    split
    · exact hm
    · split
      · constructor
        · intro op hop
          rcases List.mem_append.mp hop with hop | hop
          · exact hm.appendable op hop
          · rw [List.mem_singleton.mp hop]
            exact ha
        · show _ % 256 = _ % 256
          rw [List.map_append, List.sum_append, List.map_singleton, List.sum_singleton, hlen]
          omega
        · show _ % 256 ≤ 40
          omega
        · show (20 + 3 + _ % 256) / 4 % 256 = (23 + _ % 256) / 4
          omega
      · exact hm
  · exact hm

theorem Made.set {h : TcpHeader} (hm : h.Made) {s : Setter}
    (ha : ∀ option, s = .appendOption option → option.Appendable) : (h.set s).Made := by
  cases s with
  | appendOption option => exact hm.appendOption (ha option rfl)
  | _ => exact ⟨hm.appendable, hm.optionsLen, hm.small, hm.length⟩

theorem Made.run {h : TcpHeader} (hm : h.Made) {setters : List Setter}
    (ha : ∀ option, .appendOption option ∈ setters → option.Appendable) :
    (setters.foldl TcpHeader.set h).Made := by
  induction setters generalizing h with
  | nil => exact hm
  | cons s setters ih =>
    refine ih (hm.set fun option hs => ha option ?_) fun option hop =>
      ha option (List.mem_cons_of_mem _ hop)
    rw [hs]
    exact List.mem_cons_self

/-! ### Options that fit -/

section Fits

variable {h : TcpHeader}

theorem sum_sizes {options : List TcpOption} (ha : ∀ op ∈ options, op.Appendable)
    (hlen : (optionBytes options).length ≤ 40) :
    (options.map TcpOption.getSerializedSize).sum = (optionBytes options).length := by
  induction options with
  | nil => rfl
  | cons op options ih =>
    rw [optionBytes_cons, List.length_append] at hlen ⊢
    rw [List.map_cons, List.sum_cons, ih (fun o ho => ha o (List.mem_cons_of_mem _ ho)) (by omega),
      TcpOption.getSerializedSize_eq (ha op List.mem_cons_self)]
    omega

theorem optionsSize_eq {options : List TcpOption} (ha : ∀ op ∈ options, op.Appendable)
    (hlen : (optionBytes options).length ≤ 40) : optionsSize options = (optionBytes options).length := by
  rw [optionsSize, sum_sizes ha hlen]
  omega

theorem Made.length_eq (hm : h.Made) (hlen : (optionBytes h.m_options).length ≤ 40) :
    4 * h.m_length = 20 + (optionBytes h.m_options).length +
      padding (optionBytes h.m_options).length := by
  rw [hm.length, hm.optionsLen, sum_sizes hm.appendable hlen, padding]
  omega

theorem calculateHeaderLength_eq {options : List TcpOption} {n : Nat} (ho : h.m_options = options)
    (hsize : optionsSize options = n) (hn : n ≤ 40) :
    4 * h.calculateHeaderLength = 20 + n + padding n := by
  rw [calculateHeaderLength, ho, hsize, padding]
  split
  · omega
  · omega

theorem Made.getSerializedSize_eq (hm : h.Made) (hlen : (optionBytes h.m_options).length ≤ 40) :
    h.getSerializedSize = 4 * h.m_length := by
  rw [hm.length_eq hlen, getSerializedSize, Nat.mul_comm]
  exact calculateHeaderLength_eq rfl (optionsSize_eq hm.appendable hlen) hlen

end Fits

/-! ### The bytes -/

/-- The word of the length and the flags. -/
def lengthAndFlags (h : TcpHeader) : UInt16 := UInt16.ofNat h.m_length <<< 12 ||| h.m_flags.toUInt16

/-- The bytes before the checksum. -/
def front (h : TcpHeader) : List UInt8 :=
  be16 h.m_sourcePort ++ (be16 h.m_destinationPort ++ (be32 h.m_sequenceNumber ++
    (be32 h.m_ackNumber ++ (be16 h.lengthAndFlags ++ be16 h.m_windowSize))))

/-- The bytes behind the checksum. -/
def back (h : TcpHeader) : List UInt8 :=
  be16 h.m_urgentPointer ++ (optionBytes h.m_options ++
    List.replicate (padding (optionBytes h.m_options).length) 0)

/-- The bytes of a header, with a checksum. -/
def bytes (h : TcpHeader) (checksum : UInt16) : List UInt8 := h.front ++ (le16 checksum ++ h.back)

@[simp] theorem length_front (h : TcpHeader) : h.front.length = 16 := rfl

theorem length_bytes (h : TcpHeader) (checksum : UInt16) :
    (h.bytes checksum).length = 20 + (optionBytes h.m_options).length +
      padding (optionBytes h.m_options).length := by
  rw [bytes, back, List.length_append, List.length_append, List.length_append, List.length_append,
    List.length_replicate, length_front, length_le16, length_be16]
  omega

theorem writeFields_writes (h : TcpHeader) :
    Writes h.writeFields (h.front ++ (le16 0 ++ be16 h.m_urgentPointer)) := by
  simp only [front, List.append_assoc]
  refine (writeHtonU16_writes _).bind ((writeHtonU16_writes _).bind ?_)
  refine (writeHtonU32_writes _).bind ((writeHtonU32_writes _).bind ?_)
  refine (writeHtonU16_writes _).bind ((writeHtonU16_writes _).bind ?_)
  refine (show Writes _ (le16 0) from writeHtonU16_writes 0).bind ?_
  exact writeHtonU16_writes _

theorem writeOptions_writes {options : List TcpOption} (ha : ∀ op ∈ options, op.Appendable)
    (hlen : (optionBytes options).length ≤ 40) : Writes (writeOptions options) (optionBytes options) := by
  induction options with
  | nil => exact Writes.ret
  | cons op options ih =>
    rw [optionBytes_cons, List.length_append] at hlen
    have hop := ha op List.mem_cons_self
    have hsize : op.bytes.length = op.getSerializedSize := by
      rw [TcpOption.getSerializedSize_eq hop]
      omega
    have hrest := ih (fun o ho => ha o (List.mem_cons_of_mem _ ho)) (by omega)
    have hfirst := TcpOption.serialize_writes hop
    exact hfirst.aside_next (f := fun _ => writeOptions options) hsize hrest

theorem writePadding_writes (n : Nat) : Writes (writePadding n) (List.replicate (padding n) 0) := by
  induction n using writePadding.induct with
  | case1 n h =>
    rw [writePadding, if_pos h, padding, h]
    exact Writes.ret
  | case2 n h ih =>
    have hpad : padding n = padding (n + 1) + 1 := by
      rw [padding, padding]
      omega
    rw [writePadding, if_neg h, hpad, List.replicate_succ]
    exact Writes.u8 ih

/-! ### The checksum -/

/-- The sum of the pseudo header, for a segment of `size` bytes. -/
def pseudoSum (h : TcpHeader) (size : Nat) : Nat :=
  match h.m_addresses with
  | none => 0
  | some addresses => endAround (wordSum (pseudoHeader addresses h.m_protocol (UInt16.ofNat size)))

/-- What the checksum of a segment covers: as many bytes as its size has modulo 2^16. -/
def coveredSum (h : TcpHeader) (data : List UInt8) : Nat :=
  h.pseudoSum data.length + wordSum (data.take (data.length % 65536))

theorem length_pseudoHeader (addresses : Addresses) (protocol : UInt8) (size : UInt16) :
    (pseudoHeader addresses protocol size).length < 65536 := by
  cases addresses with
  | ipv4 source destination => exact Nat.lt_of_lt_of_le (show 12 < 13 by decide) (by decide)
  | ipv6 source destination =>
    rw [pseudoHeader, List.length_append, List.length_append, source.2, destination.2]
    exact Nat.lt_of_lt_of_le (show 40 < 41 by decide) (by decide)

theorem calculateHeaderChecksum_eq {h : TcpHeader} (ha : h.m_addresses.isSome) (size : Nat) :
    ∃ c, h.calculateHeaderChecksum (UInt16.ofNat size) = some c ∧ c.toNat = h.pseudoSum size := by
  obtain ⟨addresses, haddresses⟩ := Option.isSome_iff_exists.mp ha
  rw [calculateHeaderChecksum, pseudoSum, haddresses]
  have hlen := length_pseudoHeader addresses h.m_protocol (UInt16.ofNat size)
  show ∃ c, Option.map (fun r : UInt16 × Tape => ~~~r.1)
      (calculateIpChecksum
        (UInt16.ofNat (pseudoHeader addresses h.m_protocol (UInt16.ofNat size)).length) 0
        ⟨pseudoHeader addresses h.m_protocol (UInt16.ofNat size), 0⟩) = some c ∧
    c.toNat = endAround (wordSum (pseudoHeader addresses h.m_protocol (UInt16.ofNat size)))
  generalize pseudoHeader addresses h.m_protocol (UInt16.ofNat size) = buf at hlen ⊢
  have hsum := calculateIpChecksum_reads (UInt16.ofNat buf.length) 0
    (UInt16.toNat_ofNat_of_lt' hlen).symm (by decide) [] []
  rw [List.append_nil, show (0 : UInt32).toNat = 0 from rfl, Nat.zero_add] at hsum
  have hlt := endAround_lt (wordSum buf)
  refine ⟨~~~UInt16.ofNat (65535 - endAround (wordSum buf)), congrArg (Option.map _) hsum, ?_⟩
  rw [UInt16.toNat_not, UInt16.toNat_ofNat']
  show 65536 - 1 - _ % 65536 = endAround (wordSum buf)
  omega

theorem checksum_eq {h : TcpHeader} (ha : h.m_addresses.isSome) (data : List UInt8) (pos : Nat) :
    ∃ pos', h.checksum 0 ⟨data, pos⟩ =
      some (UInt16.ofNat (65535 - endAround (h.coveredSum data)), ⟨data, pos'⟩) := by
  obtain ⟨c, hc, htoNat⟩ := calculateHeaderChecksum_eq ha data.length
  have hcovered : (data.take (data.length % 65536)).length = (UInt16.ofNat data.length).toNat := by
    rw [List.length_take, UInt16.toNat_ofNat']
    omega
  have hlt : c.toUInt32.toNat < 65536 := by
    rw [UInt16.toNat_toUInt32]
    exact c.toNat_lt
  have hsum := calculateIpChecksum_reads _ c.toUInt32 hcovered hlt [] (data.drop (data.length % 65536))
  rw [List.take_append_drop, UInt16.toNat_toUInt32, htoNat] at hsum
  refine ⟨([] : List UInt8).length + (data.take (data.length % 65536)).length, ?_⟩
  rw [checksum, Wire.bind_eq (show Wire.size ⟨data, pos⟩ = some (data.length, ⟨data, pos⟩) from rfl)]
  rw [Wire.bind_eq (show StateT.lift _ (⟨data, pos⟩ : Tape) = some (c, ⟨data, pos⟩) by
    rw [hc]
    rfl)]
  exact hsum

/-- The checksum that is written. -/
def checksumOf (h : TcpHeader) (payload : List UInt8) : UInt16 :=
  if h.m_calcChecksum then UInt16.ofNat (65535 - endAround (h.coveredSum (h.bytes 0 ++ payload)))
  else 0

theorem Made.writeHeader_writes {h : TcpHeader} (hm : h.Made)
    (hlen : (optionBytes h.m_options).length ≤ 40) : Writes h.writeHeader (h.bytes 0) := by
  rw [writeHeader, optionsSize_eq hm.appendable hlen]
  have hall := h.writeFields_writes.bind (f := fun _ => do
    writeOptions h.m_options
    writePadding (optionBytes h.m_options).length)
    ((writeOptions_writes hm.appendable hlen).bind (writePadding_writes _))
  rwa [List.append_assoc, List.append_assoc] at hall

theorem Made.serialize_eq {h : TcpHeader} (hm : h.Made) (hlen : (optionBytes h.m_options).length ≤ 40)
    (ha : h.m_calcChecksum → h.m_addresses.isSome) {old : List UInt8}
    (hold : old.length = h.getSerializedSize) (payload : List UInt8) :
    h.serialize ⟨old ++ payload, 0⟩ = some ((), ⟨h.bytes (h.checksumOf payload) ++ payload, 0⟩) := by
  have hsame : old.length = (h.bytes 0).length := by
    rw [hold, hm.getSerializedSize_eq hlen, hm.length_eq hlen, length_bytes]
  have hwrite := hm.writeHeader_writes hlen old hsame [] payload
  rw [serialize]
  refine Wire.aside_eq ?_
  rw [Wire.bind_eq (show Wire.tell _ = some (0, _) from rfl)]
  rw [Wire.bind_eq (show h.writeHeader ⟨old ++ payload, 0⟩ = _ from hwrite), checksumOf]
  split
  · next hcalc =>
    obtain ⟨pos', hsum⟩ := checksum_eq (ha hcalc) (h.bytes 0 ++ payload)
      (([] : List UInt8).length + (h.bytes 0).length)
    generalize UInt16.ofNat (65535 - endAround (h.coveredSum (h.bytes 0 ++ payload))) = c at hsum ⊢
    have hpatch := (next_turns h.front).bind (f := fun _ => writeU16 c)
      (writeU16_writes c (le16 0) rfl) [] (h.back ++ payload)
    refine ⟨([] : List UInt8).length + (h.front ++ le16 c).length, ?_⟩
    rw [writeChecksum]
    refine (Wire.bind_eq hsum).trans ?_
    simp only [bytes, List.append_assoc] at hpatch ⊢
    exact hpatch
  · exact ⟨_, rfl⟩

/-! ### Reading -/

theorem toNat_lengthAndFlags {h : TcpHeader} (hlen : h.m_length < 16) :
    h.lengthAndFlags.toNat = 4096 * h.m_length + h.m_flags.toNat := by
  have hflags := h.m_flags.toNat_lt
  have hsize : (UInt16.ofNat h.m_length).toNat = h.m_length := UInt16.toNat_ofNat_of_lt' (by
    show _ < 65536
    omega)
  rw [lengthAndFlags, UInt16.toNat_or, UInt16.toNat_shiftLeft, hsize]
  show h.m_length <<< 12 % 65536 ||| h.m_flags.toNat = _
  rw [Nat.shiftLeft_eq, Nat.mod_eq_of_lt (by omega), ← Nat.shiftLeft_eq,
    toNat_shl_or _ _ (show h.m_flags.toNat < 2 ^ 12 by omega)]
  omega

/-- The header that is read from the bytes before the options of another. -/
def withFields (reader h : TcpHeader) : TcpHeader :=
  { reader with
    m_sourcePort := h.m_sourcePort, m_destinationPort := h.m_destinationPort
    m_sequenceNumber := h.m_sequenceNumber, m_ackNumber := h.m_ackNumber
    m_windowSize := h.m_windowSize, m_urgentPointer := h.m_urgentPointer
    m_flags := h.m_flags, m_length := h.m_length, m_options := [], m_optionsLen := 0 }

theorem readFields_reads (reader : TcpHeader) {h : TcpHeader} (hlen : h.m_length < 16) (c : UInt16) :
    Reads reader.readFields (reader.withFields h) (h.front ++ (le16 c ++ be16 h.m_urgentPointer)) := by
  have hfield := toNat_lengthAndFlags hlen
  have hflags := h.m_flags.toNat_lt
  have hlow : (h.lengthAndFlags &&& 0xFF).toUInt8 = h.m_flags := by
    rw [lowByte16, hfield]
    exact ofNat_eq_byte _ (by omega)
  have hhigh : (h.lengthAndFlags >>> 12).toNat = h.m_length := by
    rw [UInt16.toNat_shiftRight, hfield]
    show _ >>> 12 = _
    rw [Nat.shiftRight_eq_div_pow]
    omega
  simp only [front, List.append_assoc]
  refine (readNtohU16_reads _).bind ((readNtohU16_reads _).bind ?_)
  refine (readNtohU32_reads _).bind ((readNtohU32_reads _).bind ?_)
  refine (readNtohU16_reads _).bind ((readNtohU16_reads _).bind ?_)
  refine (next_turns (le16 c)).bind ((readNtohU16_reads _).of_bind_pure ?_)
  rw [hlow, hhigh]
  rfl

/-- What padding is read as. -/
def endOptions (n : Nat) : List TcpOption := if n = 0 then [] else [.END]

/-- A header with an option that took `n` bytes. -/
def push (h : TcpHeader) (options : List TcpOption) (n : Nat) : TcpHeader :=
  { h with m_options := h.m_options ++ options, m_optionsLen := (h.m_optionsLen + n) % 256 }

theorem push_push (h : TcpHeader) (options options' : List TcpOption) (n n' : Nat) :
    (h.push options n).push options' n' = h.push (options ++ options') (n + n') := by
  simp only [push, List.append_assoc, Nat.mod_add_mod, Nat.add_assoc]

/-- An option that is there is read, and then those behind it. -/
theorem readOptions_option {op : TcpOption} (ha : op.Appendable) (hlen : op.bytes.length ≤ 40)
    {fuel n : Nat} {h h' : TcpHeader} {bs : List UInt8}
    (hrest : Reads (readOptions fuel n (h.push [op] op.bytes.length)) h' bs) :
    Reads (readOptions (fuel + 1) (op.bytes.length + n) h) h' (op.bytes ++ bs) := by
  have hsize : op.getSerializedSize = op.bytes.length := by
    rw [TcpOption.getSerializedSize_eq ha]
    omega
  have hend : op.getKind ≠ TcpOption.END.getKind := by
    cases op with
    | END => exact ha.elim
    | UNKNOWN m_kind m_size m_content => exact ha.elim
    | _ => simp [TcpOption.getKind]
  have hne : op.bytes.length + n ≠ 0 := by
    rw [TcpOption.bytes, List.length_cons]
    omega
  rw [readOptions.eq_3 _ _ _ hne]
  refine Turns.peek ?_
  refine (TcpOption.deserialize_reads ha hlen).aside_bind ?_
  dsimp only
  rw [if_neg (not_not.mpr hsize.symm), if_neg (by omega), if_neg hend, Nat.add_sub_cancel_left]
  exact (next_turns op.bytes).bind hrest

/-- The padding is read as one option, and the rest of it is passed over. -/
theorem readOptions_padding (fuel k : Nat) (h : TcpHeader) :
    Reads (readOptions (fuel + 1) (k + 1) h) (h.push [.END] (k + 1)) (List.replicate (k + 1) 0) := by
  rw [readOptions.eq_3 _ _ _ (show k + 1 = 0 → False from Nat.succ_ne_zero k), List.replicate_succ]
  refine Turns.peek ?_
  have hread : Reads (TcpOption.createOption 0).deserialize (1, .END) [0] := Reads.u8 (Turns.ret _)
  refine hread.aside_bind ?_
  dsimp only
  have hsize : ¬1 ≠ TcpOption.END.getSerializedSize := by decide
  rw [if_neg hsize, if_neg (by omega), if_pos rfl, Nat.add_sub_cancel]
  refine (next_turns [0]).bind ?_
  have hpass := next_turns (List.replicate k (0 : UInt8))
  rw [List.length_replicate] at hpass
  refine hpass.of_bind_pure (congrArg pure ?_)
  rw [push]
  simp only [Nat.mod_add_mod, Nat.add_assoc, Nat.add_comm 1 k]

theorem readOptions_reads {options : List TcpOption} (ha : ∀ op ∈ options, op.Appendable)
    (hlen : (optionBytes options).length ≤ 40) {fuel : Nat} (hfuel : options.length < fuel) (p : Nat)
    {h : TcpHeader} (hsmall : h.m_optionsLen < 256) :
    Reads (readOptions fuel ((optionBytes options).length + p) h)
      (h.push (options ++ endOptions p) ((optionBytes options).length + p))
      (optionBytes options ++ List.replicate p 0) := by
  induction options generalizing fuel h with
  | nil =>
    obtain ⟨fuel, rfl⟩ : ∃ f, fuel = f + 1 := ⟨fuel - 1, by omega⟩
    rw [show optionBytes [] = [] from rfl, List.nil_append, List.nil_append, List.length_nil,
      Nat.zero_add]
    cases p with
    | zero =>
      have hsame : h.push (endOptions 0) 0 = h := by
        simp only [push, endOptions, if_pos, List.append_nil, Nat.add_zero, Nat.mod_eq_of_lt hsmall]
      rw [hsame, readOptions]
      exact Turns.ret h
    | succ k => exact readOptions_padding fuel k h
  | cons op options ih =>
    obtain ⟨fuel, rfl⟩ : ∃ f, fuel = f + 1 := ⟨fuel - 1, by omega⟩
    rw [optionBytes_cons, List.length_append] at hlen
    rw [List.length_cons] at hfuel
    have hrest := ih (fun o ho => ha o (List.mem_cons_of_mem _ ho)) (by omega)
      (show options.length < fuel by omega) (h := h.push [op] op.bytes.length)
      (Nat.mod_lt _ (by decide))
    rw [push_push] at hrest
    have hall := readOptions_option (ha op List.mem_cons_self) (by omega) hrest
    rw [optionBytes_cons, List.length_append, Nat.add_assoc, List.append_assoc]
    exact hall

/-- What the check of the checksum makes of a header. -/
def verified (h : TcpHeader) (data : List UInt8) : TcpHeader :=
  if h.m_calcChecksum then { h with m_goodChecksum := endAround (h.coveredSum data) == 65535 } else h

theorem verified_good {h : TcpHeader} (hcalc : h.m_calcChecksum) (data : List UInt8) :
    (h.verified data).m_goodChecksum = (endAround (h.coveredSum data) == 65535) := by
  rw [verified, if_pos hcalc]

theorem verify_eq {h : TcpHeader} (ha : h.m_calcChecksum → h.m_addresses.isSome) (data : List UInt8)
    (pos : Nat) : ∃ pos', h.verify 0 ⟨data, pos⟩ = some (h.verified data, ⟨data, pos'⟩) := by
  rw [verify, verified]
  split
  · next hcalc =>
    obtain ⟨pos', hsum⟩ := checksum_eq (ha hcalc) data pos
    have hlt := endAround_lt (h.coveredSum data)
    have hones : (UInt16.ofNat (65535 - endAround (h.coveredSum data)) == 0) =
        (endAround (h.coveredSum data) == 65535) := by
      rw [Bool.eq_iff_iff, beq_iff_eq, beq_iff_eq, ← UInt16.toNat_inj, UInt16.toNat_ofNat']
      show _ % 65536 = 0 ↔ _
      omega
    refine ⟨pos', (Wire.bind_eq hsum).trans ?_⟩
    rw [hones]
    rfl
  · exact ⟨pos, rfl⟩

/-- The header that is read from the bytes of another. -/
def readBack (reader h : TcpHeader) (data : List UInt8) : TcpHeader :=
  ((reader.withFields h).push
    (h.m_options ++ endOptions (padding (optionBytes h.m_options).length))
    ((optionBytes h.m_options).length + padding (optionBytes h.m_options).length)).verified data

theorem verified_options (h : TcpHeader) (data : List UInt8) :
    (h.verified data).m_options = h.m_options := by
  rw [verified]
  split <;> rfl

theorem Made.readBack_getSerializedSize {h : TcpHeader} (hm : h.Made)
    (hlen : (optionBytes h.m_options).length ≤ 40) (reader : TcpHeader) (data : List UInt8) :
    (reader.readBack h data).getSerializedSize = h.getSerializedSize := by
  have hoptions : (reader.readBack h data).m_options =
      h.m_options ++ endOptions (padding (optionBytes h.m_options).length) :=
    verified_options _ _
  rw [hm.getSerializedSize_eq hlen, hm.length_eq hlen, getSerializedSize, Nat.mul_comm]
  by_cases hp : padding (optionBytes h.m_options).length = 0
  · rw [hp, endOptions, if_pos rfl, List.append_nil] at hoptions
    rw [calculateHeaderLength_eq hoptions (optionsSize_eq hm.appendable hlen) hlen]
  · rw [endOptions, if_neg hp] at hoptions
    have hsize : optionsSize (h.m_options ++ [.END]) = (optionBytes h.m_options).length + 1 := by
      rw [optionsSize, List.map_append, List.sum_append, sum_sizes hm.appendable hlen]
      show (_ + (1 + 0)) % 2 ^ 32 = _
      omega
    rw [padding] at hp
    rw [calculateHeaderLength_eq hoptions hsize (by omega), padding, padding]
    omega

theorem Made.deserialize_eq {h : TcpHeader} (hm : h.Made)
    (hlen : (optionBytes h.m_options).length ≤ 40) {reader : TcpHeader}
    (ha : reader.m_calcChecksum → reader.m_addresses.isSome) (c : UInt16) (payload : List UInt8) :
    reader.deserialize ⟨h.bytes c ++ payload, 0⟩ =
      some ((h.getSerializedSize, reader.readBack h (h.bytes c ++ payload)),
        ⟨h.bytes c ++ payload, 0⟩) := by
  have hlength := hm.length_eq hlen
  have hpad : (optionBytes h.m_options).length + padding (optionBytes h.m_options).length ≤ 40 := by
    rw [padding]
    omega
  have hspace : (h.m_length - 5) * 4 =
      (optionBytes h.m_options).length + padding (optionBytes h.m_options).length := by
    omega
  have hfields := readFields_reads reader (show h.m_length < 16 by omega) c []
    (optionBytes h.m_options ++ List.replicate (padding (optionBytes h.m_options).length) 0 ++ payload)
  have hoptions := readOptions_reads hm.appendable hlen
    (Nat.lt_of_le_of_lt (Nat.le_trans (length_le_optionBytes _) hlen) (show 40 < 41 by decide))
    (padding (optionBytes h.m_options).length) (show (reader.withFields h).m_optionsLen < 256 from
      Nat.zero_lt_succ 255)
    (h.front ++ (le16 c ++ be16 h.m_urgentPointer)) payload
  have hdata : h.bytes c ++ payload = [] ++ ((h.front ++ (le16 c ++ be16 h.m_urgentPointer)) ++
      (optionBytes h.m_options ++
        List.replicate (padding (optionBytes h.m_options).length) 0 ++ payload)) := by
    simp only [bytes, back, List.append_assoc, List.nil_append]
  have hverify := fun pos => verify_eq (h := (reader.withFields h).push
    (h.m_options ++ endOptions (padding (optionBytes h.m_options).length))
    ((optionBytes h.m_options).length + padding (optionBytes h.m_options).length)) ha
    (h.bytes c ++ payload) pos
  have hsize := hm.readBack_getSerializedSize hlen reader (h.bytes c ++ payload)
  rw [hdata] at hverify hsize ⊢
  obtain ⟨pos', hverify⟩ := hverify ((h.front ++ (le16 c ++ be16 h.m_urgentPointer)).length +
    (optionBytes h.m_options ++
      List.replicate (padding (optionBytes h.m_options).length) 0).length)
  refine Wire.aside_eq ⟨pos', ?_⟩
  rw [Wire.bind_eq (show Wire.tell _ = some (0, _) from rfl)]
  refine (Wire.bind_eq hfields).trans ?_
  have hread : ((reader.withFields h).m_length - 5) * 4 = _ := hspace
  have hroom : ¬((reader.withFields h).m_length < 5 ∨
      m_maxOptionsLen < ((reader.withFields h).m_length - 5) * 4) := by
    rw [hread, m_maxOptionsLen]
    show ¬(h.m_length < 5 ∨ _)
    omega
  rw [if_neg hroom, hread]
  refine (Wire.bind_eq hoptions).trans ((Wire.bind_eq hverify).trans ?_)
  rw [← hsize]
  rfl

/-! ### The checksum that is read -/

theorem wordSum_front_pos {h : TcpHeader} (hlow : 0 < h.m_length) (hhigh : h.m_length < 16) :
    0 < wordSum h.front := by
  have hfield := toNat_lengthAndFlags hhigh
  have hflags := h.m_flags.toNat_lt
  have hbyte : 0 < (UInt8.ofNat (h.lengthAndFlags.toNat / 256)).toNat := by
    rw [UInt8.toNat_ofNat', hfield]
    omega
  simp only [front, be16, be32, wordSum, List.cons_append, List.nil_append]
  omega

/-- With the same addresses and protocol the sum is all ones as far as it covers the checksum. -/
theorem Made.goodChecksum_iff {h : TcpHeader} (hm : h.Made)
    (hlen : (optionBytes h.m_options).length ≤ 40) {reader : TcpHeader} (payload : List UInt8)
    (hcalc : h.m_calcChecksum) (hreader : reader.m_calcChecksum)
    (haddresses : reader.m_addresses = h.m_addresses) (hprotocol : reader.m_protocol = h.m_protocol) :
    (reader.readBack h (h.bytes (h.checksumOf payload) ++ payload)).m_goodChecksum ↔
      (h.checksumOf payload).toNat /
        256 ^ min ((h.getSerializedSize + payload.length) % 65536 - 16) 2 = 0 := by
  have hlength := hm.length_eq hlen
  have hpad : padding (optionBytes h.m_options).length ≤ 3 := by
    rw [padding]
    omega
  have htotal : ∀ c, (h.bytes c ++ payload).length = h.getSerializedSize + payload.length := by
    intro c
    rw [List.length_append, length_bytes, hm.getSerializedSize_eq hlen, hlength]
  have hsum : ∀ r : TcpHeader, r.m_addresses = h.m_addresses → r.m_protocol = h.m_protocol → ∀ c,
      r.coveredSum (h.bytes c ++ payload) =
        h.pseudoSum (h.getSerializedSize + payload.length) +
          wordSum ((h.front ++ (le16 c ++ (h.back ++ payload))).take
            ((h.getSerializedSize + payload.length) % 65536)) := by
    intro r hra hrp c
    rw [coveredSum, htotal, bytes, List.append_assoc, List.append_assoc, pseudoSum, pseudoSum, hra, hrp]
  have hgood : (reader.readBack h (h.bytes (h.checksumOf payload) ++ payload)).m_goodChecksum =
      (endAround (h.pseudoSum (h.getSerializedSize + payload.length) +
        wordSum ((h.front ++ (le16 (h.checksumOf payload) ++ (h.back ++ payload))).take
          ((h.getSerializedSize + payload.length) % 65536))) == 65535) := by
    refine (verified_good (h := (reader.withFields h).push _ _) hreader _).trans ?_
    exact congrArg (endAround · == 65535) (hsum _ haddresses hprotocol _)
  have hlt := endAround_lt (h.coveredSum (h.bytes 0 ++ payload))
  have hword : (UInt16.ofNat (65535 - endAround (h.coveredSum (h.bytes 0 ++ payload)))).toNat =
      65535 - endAround (h.coveredSum (h.bytes 0 ++ payload)) :=
    UInt16.toNat_ofNat_of_lt' (by
      show _ < 65536
      omega)
  rw [hgood, beq_iff_eq, checksumOf, if_pos hcalc, hword, hsum h rfl rfl]
  refine endAround_covered (by rw [length_front]) rfl fun hall => ?_
  have hfront := wordSum_front_pos (h := h) (by omega) (by omega)
  rw [length_front] at hall
  rw [List.take_append, length_front, List.take_of_length_le (by rw [length_front]; omega),
    wordSum_append _ (by rw [length_front])]
  omega

/-! ### Options that do not fit -/

theorem readOptions_weight (fuel n : Nat) (h : TcpHeader) :
    Ensures (readOptions fuel n h) fun h' =>
      (h'.m_options.map TcpOption.weight).sum ≤ (h.m_options.map TcpOption.weight).sum + n := by
  induction fuel generalizing n h with
  | zero =>
    cases n with
    | zero =>
      rw [readOptions]
      exact Ensures.ret (Nat.le_refl _)
    | succ n => exact Ensures.fail
  | succ fuel ih =>
    by_cases hn : n = 0
    · rw [hn, readOptions]
      exact Ensures.ret (Nat.le_refl _)
    · rw [readOptions.eq_3 _ _ _ hn]
      refine Ensures.bind_any fun kind => ?_
      have hread := (TcpOption.deserialize_few (TcpOption.createOption_few kind)).aside
      refine hread.bind fun r hfew => ?_
      obtain ⟨optionSize, op⟩ := r
      have hweight := TcpOption.FewBlocks.weight_le hfew
      dsimp only at hweight ⊢
      split
      · exact Ensures.ret (Nat.le_add_right _ _)
      · next hsize =>
        split
        · exact Ensures.ret (Nat.le_add_right _ _)
        · next hroom =>
          have hsum : ((h.m_options ++ [op]).map TcpOption.weight).sum =
              (h.m_options.map TcpOption.weight).sum + op.weight := by
            rw [List.map_append, List.sum_append, List.map_singleton, List.sum_singleton]
          refine Ensures.bind_any fun _ => ?_
          split
          · refine Ensures.bind_any fun _ => Ensures.ret ?_
            dsimp only
            omega
          · refine fun c h' c' heq => Nat.le_trans (ih _ _ c h' c' heq) ?_
            dsimp only
            omega

theorem verify_options (h : TcpHeader) (start : Nat) :
    Ensures (h.verify start) fun h' => h'.m_options = h.m_options := by
  rw [verify]
  refine Ensures.ite ?_ (Ensures.ret rfl)
  exact Ensures.bind_any fun _ => Ensures.ret rfl

theorem readFields_options (reader : TcpHeader) :
    Ensures reader.readFields fun h => h.m_options = [] := by
  iterate 8 refine Ensures.bind_any fun _ => ?_
  exact Ensures.ret rfl

/-- At most forty bytes are read as options. -/
theorem deserialize_weight (reader : TcpHeader) :
    Ensures reader.deserialize fun r => (r.2.m_options.map TcpOption.weight).sum ≤ 40 := by
  refine Ensures.aside (Ensures.bind_any fun start => ?_)
  refine (readFields_options reader).bind fun h hnone => ?_
  split
  · refine Ensures.ret ?_
    rw [hnone]
    exact Nat.zero_le 40
  · next hroom =>
    rw [m_maxOptionsLen] at hroom
    refine (readOptions_weight _ _ h).bind fun h₁ hweight => ?_
    refine (verify_options h₁ start).bind fun h₂ hsame => Ensures.ret ?_
    rw [hnone] at hweight
    rw [hsame]
    simp only [List.map_nil, List.sum_nil] at hweight
    omega

theorem sum_weights {options : List TcpOption} (ha : ∀ op ∈ options, op.Appendable) :
    (options.map TcpOption.weight).sum = (optionBytes options).length := by
  induction options with
  | nil => rfl
  | cons op options ih =>
    rw [List.map_cons, List.sum_cons, optionBytes_cons, List.length_append,
      ih fun o ho => ha o (List.mem_cons_of_mem _ ho), TcpOption.weight_eq (ha op List.mem_cons_self)]

/-! ### The round trip -/

/-- Two headers say the same, but for the addresses, the checksum and the options. -/
structure SameFields (h h' : TcpHeader) : Prop where
  sourcePort : h'.m_sourcePort = h.m_sourcePort
  destinationPort : h'.m_destinationPort = h.m_destinationPort
  sequenceNumber : h'.m_sequenceNumber = h.m_sequenceNumber
  ackNumber : h'.m_ackNumber = h.m_ackNumber
  length : h'.m_length = h.m_length
  flags : h'.m_flags = h.m_flags
  windowSize : h'.m_windowSize = h.m_windowSize
  urgentPointer : h'.m_urgentPointer = h.m_urgentPointer

/-- Both sides check, with the same addresses and protocol. -/
structure SameCheck (h reader : TcpHeader) : Prop where
  written : h.m_calcChecksum
  read : reader.m_calcChecksum
  addresses : reader.m_addresses = h.m_addresses
  protocol : reader.m_protocol = h.m_protocol

/-- A header is written before a payload, with exactly as many bytes as it has a size, and read from
there by another: of the same size and with the same fields and options, but for an `END` that stands
for the padding; and where both sides check, the checksum is good. -/
def RoundTrips (h reader : TcpHeader) (old payload : List UInt8) : Prop :=
  ∃ written h', written.length = h.getSerializedSize ∧ h.getSerializedSize = 4 * h.m_length ∧
    h.serialize ⟨old ++ payload, 0⟩ = some ((), ⟨written ++ payload, 0⟩) ∧
    reader.deserialize ⟨written ++ payload, 0⟩ =
      some ((h.getSerializedSize, h'), ⟨written ++ payload, 0⟩) ∧
    h.SameFields h' ∧ (∃ n, h'.m_options = h.m_options ++ endOptions n) ∧
    (h.SameCheck reader → h'.m_goodChecksum)

/-- The part of the checksum that the size modulo 2^16 does not reach is 0. -/
def Covered (h : TcpHeader) (payload : List UInt8) : Prop :=
  (h.checksumOf payload).toNat /
    256 ^ min ((h.getSerializedSize + payload.length) % 65536 - 16) 2 = 0

theorem readBack_sameFields (reader h : TcpHeader) (data : List UInt8) :
    h.SameFields (reader.readBack h data) := by
  rw [readBack, verified]
  split <;> exact ⟨rfl, rfl, rfl, rfl, rfl, rfl, rfl, rfl⟩

theorem Made.roundTrips_iff_covered {h : TcpHeader} (hm : h.Made) {reader : TcpHeader}
    {old payload : List UInt8} (hwriter : h.m_calcChecksum → h.m_addresses.isSome)
    (hreader : reader.m_calcChecksum → reader.m_addresses.isSome)
    (hold : old.length = h.getSerializedSize) :
    h.RoundTrips reader old payload ↔
      (optionBytes h.m_options).length ≤ 40 ∧ (h.SameCheck reader → h.Covered payload) := by
  constructor
  · rintro ⟨written, h', -, -, hwrite, hread, -, ⟨n, hsame⟩, hgood⟩
    have hweight := deserialize_weight reader _ _ _ hread
    dsimp only at hweight
    rw [hsame, List.map_append, List.sum_append, sum_weights hm.appendable] at hweight
    have hlen : (optionBytes h.m_options).length ≤ 40 := by omega
    refine ⟨hlen, fun hcheck => ?_⟩
    have hwrite' := (hm.serialize_eq hlen hwriter hold payload).symm.trans hwrite
    have hwritten := congrArg Tape.data (Prod.mk.inj (Option.some.inj hwrite')).2
    have hread' := (hm.deserialize_eq hlen hreader (h.checksumOf payload) payload).symm
    dsimp only at hwritten
    rw [hwritten, hread] at hread'
    have hback := (Prod.mk.inj (Prod.mk.inj (Option.some.inj hread')).1).2
    refine (hm.goodChecksum_iff hlen payload hcheck.written hcheck.read hcheck.addresses
      hcheck.protocol).mp ?_
    rw [hwritten, hback]
    exact hgood hcheck
  · rintro ⟨hlen, hcovered⟩
    refine ⟨h.bytes (h.checksumOf payload), _, ?_, hm.getSerializedSize_eq hlen,
      hm.serialize_eq hlen hwriter hold payload, hm.deserialize_eq hlen hreader _ payload,
      readBack_sameFields reader h _, ⟨_, verified_options _ _⟩, fun hcheck => ?_⟩
    · rw [length_bytes, hm.getSerializedSize_eq hlen, hm.length_eq hlen]
    · exact (hm.goodChecksum_iff hlen payload hcheck.written hcheck.read hcheck.addresses
        hcheck.protocol).mpr (hcovered hcheck)

/-- The header of the constructor. -/
theorem made_default : Made {} :=
  ⟨fun _ hop => (List.not_mem_nil hop).elim, rfl, by decide, rfl⟩

/-- A header that setters made makes the round trip exactly when its options take at most forty bytes
and, where both sides check, the checksum is covered by the size modulo 2^16. -/
theorem roundTrips_iff {setters : List Setter} {reader : TcpHeader} {old payload : List UInt8}
    (hoptions : ∀ option, .appendOption option ∈ setters → option.Appendable)
    (hwriter : (setters.foldl TcpHeader.set {}).m_calcChecksum →
      (setters.foldl TcpHeader.set {}).m_addresses.isSome)
    (hreader : reader.m_calcChecksum → reader.m_addresses.isSome)
    (hold : old.length = (setters.foldl TcpHeader.set {}).getSerializedSize) :
    (setters.foldl TcpHeader.set {}).RoundTrips reader old payload ↔
      (optionBytes (setters.foldl TcpHeader.set {}).m_options).length ≤ 40 ∧
        ((setters.foldl TcpHeader.set {}).SameCheck reader →
          (setters.foldl TcpHeader.set {}).Covered payload) :=
  (made_default.run hoptions).roundTrips_iff_covered hwriter hreader hold

/-- Calls that make a header with options of two sizes and checksums. -/
def synSetters : List Setter :=
  [.enableChecksums, .initializeChecksum (.ipv4 0x0a000001 0x0a000002) 6, .setSourcePort 80,
    .appendOption (.MSS 1460), .appendOption (.WINSCALE 7)]

theorem roundTrips_iff_syn :
    (synSetters.foldl TcpHeader.set {}).RoundTrips
        { m_calcChecksum := true, m_addresses := some (.ipv4 0x0a000001 0x0a000002), m_protocol := 6 }
        (List.replicate 28 0) [1, 2, 3] ↔
      (optionBytes (synSetters.foldl TcpHeader.set {}).m_options).length ≤ 40 ∧
        ((synSetters.foldl TcpHeader.set {}).SameCheck
          { m_calcChecksum := true, m_addresses := some (.ipv4 0x0a000001 0x0a000002), m_protocol := 6 } →
          (synSetters.foldl TcpHeader.set {}).Covered [1, 2, 3]) :=
  roundTrips_iff (fun option hop => by
    simp only [synSetters, List.mem_cons, reduceCtorEq, false_or, List.not_mem_nil, or_false,
      Setter.appendOption.injEq] at hop
    rcases hop with rfl | rfl
    · trivial
    · trivial) (fun _ => rfl) (fun _ => rfl) rfl

/-- A header that checks, between the addresses 10.0.0.1 and 10.0.0.2. -/
def checking : TcpHeader :=
  [Setter.enableChecksums, .initializeChecksum (.ipv4 0x0a000001 0x0a000002) 6].foldl TcpHeader.set {}

/-- With a payload of 65516 bytes the segment has 65536, of which the checksum covers none. -/
theorem not_roundTrips_full :
    ¬checking.RoundTrips checking (List.replicate 20 0) (List.replicate 65516 0) := by
  have hm : checking.Made := made_default.run fun option hop => by
    simp only [List.mem_cons, reduceCtorEq, List.not_mem_nil, or_false] at hop
  intro htrip
  have hcovered := ((hm.roundTrips_iff_covered (fun _ => rfl) (fun _ => rfl) rfl).mp htrip).2
    ⟨rfl, rfl, rfl, rfl⟩
  have hlen : (checking.bytes 0 ++ List.replicate 65516 0).length = 65536 := by
    rw [List.length_append, List.length_replicate]
    rfl
  have hpseudo : checking.pseudoSum 65536 = 2324 := by
    have hwords : wordSum (pseudoHeader (.ipv4 0x0a000001 0x0a000002) 6 (UInt16.ofNat 65536)) = 2324 := by
      decide
    show endAround (wordSum (pseudoHeader (.ipv4 0x0a000001 0x0a000002) 6 (UInt16.ofNat 65536))) = _
    rw [hwords]
    exact endAround_of_lt (by decide)
  have hsum : checking.coveredSum (checking.bytes 0 ++ List.replicate 65516 0) = 2324 := by
    rw [coveredSum, hlen, hpseudo]
    rfl
  rw [Covered, checksumOf, if_pos (show checking.m_calcChecksum = true from rfl), hsum,
    endAround_of_lt (by decide), List.length_replicate] at hcovered
  exact absurd hcovered (by decide)

end TcpHeader

end Ns3.Internet
