import Ns3.Internet.TcpCodec
import Ns3.Lib.Loop

/-!
# How `TcpHeader::Deserialize` goes over the bytes

The positions that `Deserialize` reads at, how far it gets, and what it returns, over a memory that goes
on behind the buffer. The fixed fields are 20 bytes. Source: `src/internet/model/tcp-header.cc`,
`tcp-option.cc`, `tcp-option-sack.cc`, `tcp-option-rfc793.cc`, `tcp-option-winscale.cc`,
`tcp-option-sack-permitted.cc`, `tcp-option-ts.cc`.
-/

namespace Ns3.Internet

open Ns3.Lib

namespace TcpOption

/-- The size of an option that has a size byte of `size`, unless it is malformed. -/
def extent (kind size : UInt8) : Option ℕ :=
  if kind = 2 then if size = 4 then some 4 else none
  else if kind = 3 then if size = 3 then some 3 else none
  else if kind = 4 then if size = 2 then some 2 else none
  else if kind = 5 then some (2 + (size.toNat - 2) / 8 * 8)
  else if kind = 8 then if size = 10 then some 10 else none
  else if size.toNat < 2 ∨ size.toNat > 40 then none
  else some size.toNat

/-- `Deserialize` of an option: the bytes it reads, what it returns unless it aborts, and what
`GetSerializedSize` is then. -/
structure Reading where
  read : ℕ
  result : Option (ℕ × ℕ)
deriving DecidableEq, Repr

def reading (kind size : UInt8) : Reading :=
  if kind = 0 ∨ kind = 1 then ⟨1, some (1, 1)⟩
  else
    match extent kind size with
    | some n => ⟨n, some (n, n)⟩
    | none =>
      if kind = 2 then ⟨2, none⟩
      else if kind = 3 then ⟨2, some (0, 3)⟩
      else if kind = 4 then ⟨2, some (0, 2)⟩
      else if kind = 8 then ⟨2, some (0, 10)⟩
      -- an unknown option keeps the size that it has read
      else ⟨2, some (0, size.toNat)⟩

end TcpOption

namespace TcpHeader

/-- The end of what has been read, and what is returned unless it aborts. -/
structure Parsed where
  read : ℕ
  returned : Option ℕ
deriving DecidableEq, Repr

/-- The variables of the loop; `len` is the length of the header with the options that are accepted. -/
structure Scan where
  i : ℕ := 20
  optionLen : ℕ
  len : ℕ := 20
  read : ℕ := 20

variable (bytes : ℕ → UInt8)

/-- `GetSerializedSize`, of what is accepted. -/
def Scan.leave (s : Scan) : Parsed :=
  ⟨s.read, some ((if s.len % 4 ≠ 0 then s.len + (4 - s.len % 4) else s.len) / 4 % 256 * 4)⟩

def scanTurn (s : Scan) : Turn Scan Parsed :=
  if s.optionLen = 0 then .leave s.leave
  else
    let r := TcpOption.reading (bytes s.i) (bytes (s.i + 1))
    let s := { s with read := max s.read (s.i + r.read) }
    match r.result with
    | none => .leave ⟨s.read, none⟩
    | some (optionSize, size) =>
      if optionSize ≠ size then .leave s.leave
      else if s.optionLen < optionSize then .leave s.leave
      else if bytes s.i = 0 then
        .again { s with i := s.i + optionSize + (s.optionLen - optionSize), optionLen := 0, len := s.len + optionSize }
      else
        .again { s with i := s.i + optionSize, optionLen := s.optionLen - optionSize, len := s.len + optionSize }

/-- `m_length` as it is read. -/
def lengthField : ℕ := (bytes 12).toNat / 16

/-- `Deserialize`, the check of the checksum apart. -/
def Parses (p : Parsed) : Prop :=
  if lengthField bytes < 5 ∨ m_maxOptionsLen < (lengthField bytes - 5) * 4 then p = ⟨20, some 20⟩
  else Leaves (scanTurn bytes) { optionLen := (lengthField bytes - 5) * 4 } p

/-- It terminates, reads nothing behind the header, and returns the size of the header unless it aborts. -/
def Total : Prop :=
  ∃ p, Parses bytes p ∧ p.read ≤ lengthField bytes * 4 ∧
    (p.returned = none ∨ (5 ≤ lengthField bytes → p.returned = some (lengthField bytes * 4)))

end TcpHeader

/-- What may stand in the option area. -/
inductive OptionArea : List UInt8 → Prop
  | nil : OptionArea []
  /-- The end of the options, with no more padding than to the next word. -/
  | stop {rest : List UInt8} (h : rest.length ≤ 3) : OptionArea (0 :: rest)
  | nop {rest : List UInt8} (h : OptionArea rest) : OptionArea (1 :: rest)
  /-- An option that is all there. -/
  | option {kind size : UInt8} {value rest : List UInt8} (hkind : 1 < kind)
      (hextent : TcpOption.extent kind size = some (2 + value.length)) (h : OptionArea rest) :
      OptionArea (kind :: size :: (value ++ rest))
  /-- An option of a known fixed size with a wrong size byte, which aborts. -/
  | abort {size : UInt8} {rest : List UInt8} (hsize : size ≠ 4) : OptionArea (2 :: size :: rest)
  /-- A malformed option in the last three bytes, but not an unknown one of size 0. -/
  | malformed {kind size : UInt8} {rest : List UInt8} (hkind : 1 < kind) (hextent : TcpOption.extent kind size = none)
      (hsize : size = 0 → TcpOption.isKindKnown kind) (h : rest.length ≤ 1) : OptionArea (kind :: size :: rest)

namespace TcpOption

variable {kind size : UInt8} {n : ℕ}

theorem two_le_extent (h : extent kind size = some n) : 2 ≤ n := by
  unfold extent at h
  split_ifs at h <;> (have hn := Option.some.inj h; omega)

theorem reading_extent (hkind : 1 < kind) (h : extent kind size = some n) :
    reading kind size = ⟨n, some (n, n)⟩ := by
  have hnot : ¬(kind = 0 ∨ kind = 1) := by
    rintro (rfl | rfl) <;> exact absurd hkind (by decide)
  rw [reading, if_neg hnot, h]

/-- A malformed option: the reader aborts, or returns 0. -/
theorem reading_malformed (hkind : 1 < kind) (h : extent kind size = none) :
    if kind = 2 then reading kind size = ⟨2, none⟩
    else ∃ m, reading kind size = ⟨2, some (0, m)⟩ ∧ (m = 0 ↔ size = 0 ∧ ¬isKindKnown kind) := by
  have hnot : ¬(kind = 0 ∨ kind = 1) := by
    rintro (rfl | rfl) <;> exact absurd hkind (by decide)
  rw [reading, if_neg hnot, h]
  dsimp only
  by_cases h2 : kind = 2
  · rw [if_pos h2, if_pos h2]
  rw [if_neg h2, if_neg h2]
  by_cases h3 : kind = 3
  · exact ⟨3, by rw [if_pos h3], iff_of_false (by decide) fun hs => hs.2 (by rw [h3]; decide)⟩
  rw [if_neg h3]
  by_cases h4 : kind = 4
  · exact ⟨2, by rw [if_pos h4], iff_of_false (by decide) fun hs => hs.2 (by rw [h4]; decide)⟩
  rw [if_neg h4]
  by_cases h8 : kind = 8
  · exact ⟨10, by rw [if_pos h8], iff_of_false (by decide) fun hs => hs.2 (by rw [h8]; decide)⟩
  rw [if_neg h8]
  refine ⟨size.toNat, rfl, ?_⟩
  have h5 : kind ≠ 5 := by
    rintro rfl
    cases h
  have hknown : ¬isKindKnown kind := by
    rw [isKindKnown, decide_eq_true_eq]
    simp only [List.mem_cons, List.not_mem_nil, or_false]
    push Not
    exact ⟨fun h => hnot (.inl h), fun h => hnot (.inr h), h2, h3, h4, h5, h8⟩
  rw [and_iff_left hknown, ← UInt8.toNat_inj]
  rfl

end TcpOption

namespace OptionArea

variable {kind size : UInt8} {rest : List UInt8}

theorem stop_iff : OptionArea (0 :: rest) ↔ rest.length ≤ 3 := by
  refine ⟨fun h => ?_, .stop⟩
  cases h with
  | stop h => exact h
  | option hkind => exact absurd hkind (by decide)
  | malformed hkind => exact absurd hkind (by decide)

theorem nop_iff : OptionArea (1 :: rest) ↔ OptionArea rest := by
  refine ⟨fun h => ?_, .nop⟩
  cases h with
  | nop h => exact h
  | option hkind => exact absurd hkind (by decide)
  | malformed hkind => exact absurd hkind (by decide)

/-- No option but the end and `NOP` is a single byte. -/
theorem not_single (hkind : 1 < kind) : ¬OptionArea [kind] := by
  intro h
  cases h with
  | stop h => exact absurd hkind (by decide)
  | nop h => exact absurd hkind (by decide)

theorem option_iff (hkind : 1 < kind) {n : ℕ} (hextent : TcpOption.extent kind size = some n) :
    OptionArea (kind :: size :: rest) ↔ n ≤ 2 + rest.length ∧ OptionArea (rest.drop (n - 2)) := by
  have htwo := TcpOption.two_le_extent hextent
  constructor
  · intro h
    generalize harea : kind :: size :: rest = area at h
    cases h with
    | nil => cases harea
    | stop h =>
      cases harea
      exact absurd hkind (by decide)
    | nop h =>
      cases harea
      exact absurd hkind (by decide)
    | @option kind' size' value rest' _ hextent' h =>
      cases harea
      have hn : n = 2 + value.length := Option.some.inj (hextent.symm.trans hextent')
      rw [List.length_append, show n - 2 = value.length by omega, List.drop_left]
      exact ⟨by omega, h⟩
    | abort hsize =>
      cases harea
      rw [TcpOption.extent, if_pos rfl, if_neg hsize] at hextent
      cases hextent
    | malformed _ hnone =>
      cases harea
      cases hextent.symm.trans hnone
  · rintro ⟨hle, h⟩
    have hvalue : (rest.take (n - 2)).length = n - 2 := by
      rw [List.length_take]
      omega
    rw [← List.take_append_drop (n - 2) rest]
    exact .option hkind (by rw [hextent, hvalue, Nat.add_sub_of_le htwo]) h

theorem malformed_iff (hkind : 1 < kind) (hextent : TcpOption.extent kind size = none) :
    OptionArea (kind :: size :: rest) ↔
      kind = 2 ∨ (size = 0 → TcpOption.isKindKnown kind) ∧ rest.length ≤ 1 := by
  constructor
  · intro h
    generalize harea : kind :: size :: rest = area at h
    cases h with
    | nil => cases harea
    | stop h =>
      cases harea
      exact absurd hkind (by decide)
    | nop h =>
      cases harea
      exact absurd hkind (by decide)
    | option _ hsome =>
      cases harea
      cases hextent.symm.trans hsome
    | abort _ =>
      cases harea
      exact .inl rfl
    | malformed _ _ hsize h =>
      cases harea
      exact .inr ⟨hsize, h⟩
  · rintro (rfl | ⟨hsize, h⟩)
    · refine .abort fun hfour => ?_
      rw [TcpOption.extent, if_pos rfl, if_pos hfour] at hextent
      cases hextent
    · exact .malformed hkind hextent hsize h

end OptionArea

namespace TcpHeader

variable {bytes : ℕ → UInt8}

/-! ### A turn -/

/-- Every option read has moved on, and the options are all that there is. -/
structure Scan.Steady (s : Scan) (stop : ℕ) : Prop where
  ends : s.i + s.optionLen = stop
  len : s.len = s.i
  read : s.read ≤ s.i

/-- What is left to be done is right: nothing is read behind `stop`, and `stop` is returned. -/
def Parsed.Right (p : Parsed) (stop : ℕ) : Prop :=
  p.read ≤ stop ∧ (p.returned = none ∨ p.returned = some stop)

theorem Scan.leave_eq {s : Scan} (h : s.len ≤ 60) : s.leave = ⟨s.read, some ((s.len + 3) / 4 * 4)⟩ := by
  rw [Scan.leave]
  congr 2
  split_ifs <;> omega

theorem scanTurn_done {s : Scan} (h : s.optionLen = 0) : scanTurn bytes s = .leave s.leave := by
  rw [scanTurn, if_pos h]

variable {s : Scan} {kind size : UInt8}

theorem scanTurn_stop (h : s.optionLen ≠ 0) (hkind : bytes s.i = 0) :
    scanTurn bytes s = .again
      { s with i := s.i + 1 + (s.optionLen - 1), optionLen := 0, len := s.len + 1, read := max s.read (s.i + 1) } := by
  rw [scanTurn, if_neg h, hkind, show TcpOption.reading 0 _ = ⟨1, some (1, 1)⟩ from if_pos (.inl rfl)]
  dsimp only
  rw [if_neg (not_not.mpr rfl), if_neg (by omega), if_pos hkind]

theorem scanTurn_nop (h : s.optionLen ≠ 0) (hkind : bytes s.i = 1) :
    scanTurn bytes s = .again
      { s with i := s.i + 1, optionLen := s.optionLen - 1, len := s.len + 1, read := max s.read (s.i + 1) } := by
  rw [scanTurn, if_neg h, hkind, show TcpOption.reading 1 _ = ⟨1, some (1, 1)⟩ from if_pos (.inr rfl)]
  dsimp only
  rw [if_neg (not_not.mpr rfl), if_neg (by omega), if_neg (by rw [hkind]; decide)]

theorem scanTurn_option (h : s.optionLen ≠ 0) (hkind : 1 < bytes s.i) {n : ℕ}
    (hextent : TcpOption.extent (bytes s.i) (bytes (s.i + 1)) = some n) :
    scanTurn bytes s =
      if s.optionLen < n then .leave { s with read := max s.read (s.i + n) }.leave
      else .again
        { s with i := s.i + n, optionLen := s.optionLen - n, len := s.len + n, read := max s.read (s.i + n) } := by
  have hzero : bytes s.i ≠ 0 := fun h => absurd (h ▸ hkind) (by decide)
  rw [scanTurn, if_neg h, TcpOption.reading_extent hkind hextent]
  dsimp only
  rw [if_neg (not_not.mpr rfl), if_neg hzero]

/-- The reader of a malformed option has read two bytes; it aborts, or the loop is left, or it stands still. -/
theorem scanTurn_malformed (h : s.optionLen ≠ 0) (hkind : 1 < bytes s.i)
    (hextent : TcpOption.extent (bytes s.i) (bytes (s.i + 1)) = none) :
    scanTurn bytes s =
      if bytes s.i = 2 then .leave ⟨max s.read (s.i + 2), none⟩
      else if bytes (s.i + 1) = 0 ∧ ¬TcpOption.isKindKnown (bytes s.i) then
        .again { s with read := max s.read (s.i + 2) }
      else .leave { s with read := max s.read (s.i + 2) }.leave := by
  have hzero : bytes s.i ≠ 0 := fun h => absurd (h ▸ hkind) (by decide)
  have hreading := TcpOption.reading_malformed hkind hextent
  rw [scanTurn, if_neg h]
  by_cases htwo : bytes s.i = 2
  · rw [if_pos htwo] at hreading ⊢
    rw [hreading]
  · rw [if_neg htwo] at hreading ⊢
    obtain ⟨m, hm, hstill⟩ := hreading
    rw [hm]
    dsimp only
    by_cases hm : m = 0
    · rw [if_pos (hstill.mp hm), if_neg (not_not.mpr hm.symm), if_neg (Nat.not_lt_zero _), if_neg hzero]
      rfl
    · rw [if_neg (mt hstill.mpr hm), if_pos (Ne.symm hm)]

/-! ### The loop -/

private theorem one_lt_kind (hzero : kind ≠ 0) (hone : kind ≠ 1) : 1 < kind := by
  rw [UInt8.lt_iff_toNat_lt]
  rw [← UInt8.toNat_inj.ne] at hzero hone
  have hzero' : kind.toNat ≠ 0 := hzero
  have hone' : kind.toNat ≠ 1 := hone
  show 1 < kind.toNat
  omega

/-- The loop ends right. -/
def Scan.Fares (bytes : ℕ → UInt8) (s : Scan) (stop : ℕ) : Prop :=
  ∃ p, Leaves (scanTurn bytes) s p ∧ p.Right stop

theorem Scan.fares_of_leave {p : Parsed} {stop : ℕ} (h : scanTurn bytes s = .leave p) :
    s.Fares bytes stop ↔ p.Right stop := by
  simp only [Scan.Fares, leaves_iff_of_leave h, exists_eq_left]

theorem Scan.fares_of_again {s' : Scan} {stop : ℕ} (h : scanTurn bytes s = .again s') :
    s.Fares bytes stop ↔ s'.Fares bytes stop := by
  simp only [Scan.Fares, leaves_iff_of_again h]

/-- An unknown option of size 0 is accepted for ever. -/
theorem Scan.not_fares_still {stop : ℕ} (h : s.optionLen ≠ 0) (hkind : 1 < bytes s.i)
    (hextent : TcpOption.extent (bytes s.i) (bytes (s.i + 1)) = none) (htwo : bytes s.i ≠ 2)
    (hstill : bytes (s.i + 1) = 0 ∧ ¬TcpOption.isKindKnown (bytes s.i)) : ¬s.Fares bytes stop := by
  rintro ⟨p, hp, -⟩
  have hstep : ∀ s' : Scan, s'.i = s.i ∧ s'.optionLen = s.optionLen →
      ∃ s₁, scanTurn bytes s' = .again s₁ ∧ s₁.i = s.i ∧ s₁.optionLen = s.optionLen := by
    rintro s' ⟨hi, hlen⟩
    rw [← hi] at hkind hextent htwo hstill
    refine ⟨{ s' with read := max s'.read (s'.i + 2) }, ?_, hi, hlen⟩
    rw [scanTurn_malformed (hlen ▸ h) hkind hextent, if_neg htwo, if_pos hstill]
  exact (diverges_iff _ _).mp (diverges_of_invariant hstep ⟨rfl, rfl⟩) ⟨p, hp⟩

/-- A malformed option aborts, or it ends the loop where it stands, or it is accepted for ever. -/
theorem Scan.fares_malformed {stop n : ℕ} (hs : s.Steady stop) (hword : stop % 4 = 0) (hstop : stop ≤ 60)
    (hn : s.optionLen = n + 1) (hkind : 1 < bytes s.i)
    (hextent : TcpOption.extent (bytes s.i) (bytes (s.i + 1)) = none) :
    s.Fares bytes stop ↔ OptionArea (bytes s.i :: (List.range' (s.i + 1) n).map bytes) := by
  obtain ⟨hends, hlen, hread⟩ := hs
  have hne : s.optionLen ≠ 0 := by omega
  have hturn := scanTurn_malformed hne hkind hextent
  match n with
  | 0 =>
    refine iff_of_false ?_ (OptionArea.not_single hkind)
    by_cases htwo : bytes s.i = 2
    · rw [if_pos htwo] at hturn
      rw [Scan.fares_of_leave hturn]
      exact fun h => absurd h.1 (by dsimp only; omega)
    rw [if_neg htwo] at hturn
    by_cases hstill : bytes (s.i + 1) = 0 ∧ ¬TcpOption.isKindKnown (bytes s.i)
    · exact Scan.not_fares_still hne hkind hextent htwo hstill
    · rw [if_neg hstill] at hturn
      rw [Scan.fares_of_leave hturn, Scan.leave_eq (by dsimp only; omega)]
      exact fun h => absurd h.1 (by dsimp only; omega)
  | n + 1 =>
    rw [List.range'_succ, List.map_cons, OptionArea.malformed_iff hkind hextent, List.length_map,
      List.length_range']
    by_cases htwo : bytes s.i = 2
    · rw [if_pos htwo] at hturn
      rw [Scan.fares_of_leave hturn]
      exact iff_of_true ⟨by dsimp only; omega, .inl rfl⟩ (.inl htwo)
    rw [if_neg htwo] at hturn
    rw [or_iff_right htwo]
    by_cases hstill : bytes (s.i + 1) = 0 ∧ ¬TcpOption.isKindKnown (bytes s.i)
    · refine iff_of_false (Scan.not_fares_still hne hkind hextent htwo hstill) ?_
      exact fun h => hstill.2 (h.1 hstill.1)
    · rw [if_neg hstill] at hturn
      rw [Scan.fares_of_leave hturn, Scan.leave_eq (by dsimp only; omega), Parsed.Right, Option.some_inj]
      rw [not_and, not_not] at hstill
      dsimp only
      constructor
      · rintro ⟨-, h | h⟩
        · cases h
        · exact ⟨hstill, by omega⟩
      · rintro ⟨-, h⟩
        exact ⟨by omega, .inr (by omega)⟩

/-- The loop ends right exactly on an option area. -/
theorem Scan.fares_iff {stop : ℕ} (hs : s.Steady stop) (hword : stop % 4 = 0) (hstop : stop ≤ 60) :
    s.Fares bytes stop ↔ OptionArea ((List.range' s.i s.optionLen).map bytes) := by
  generalize hn : s.optionLen = n
  induction n using Nat.strong_induction_on generalizing s with
  | _ n ih =>
    obtain ⟨hends, hlen, hread⟩ := hs
    match n, hn with
    | 0, hn =>
      rw [Scan.fares_of_leave (scanTurn_done hn), Scan.leave_eq (by omega)]
      refine iff_of_true ⟨?_, .inr (congrArg some ?_)⟩ .nil
      · show s.read ≤ stop
        omega
      · omega
    | n + 1, hn =>
      have hne : s.optionLen ≠ 0 := by omega
      rw [List.range'_succ, List.map_cons]
      by_cases hzero : bytes s.i = 0
      · rw [hzero, OptionArea.stop_iff, List.length_map, List.length_range',
          Scan.fares_of_again (scanTurn_stop hne hzero), Scan.fares_of_leave (scanTurn_done rfl),
          Scan.leave_eq (by dsimp only; omega), Parsed.Right, Option.some_inj]
        dsimp only
        constructor
        · rintro ⟨-, h | h⟩
          · cases h
          · omega
        · intro h
          exact ⟨by omega, .inr (by omega)⟩
      by_cases hone : bytes s.i = 1
      · rw [hone, OptionArea.nop_iff, Scan.fares_of_again (scanTurn_nop hne hone)]
        refine ih n (Nat.lt_succ_self n) ⟨?_, ?_, ?_⟩ ?_ <;> dsimp only <;> omega
      have hkind : 1 < bytes s.i := one_lt_kind hzero hone
      cases hextent : TcpOption.extent (bytes s.i) (bytes (s.i + 1)) with
      | some m =>
        have htwo := TcpOption.two_le_extent hextent
        have hturn := scanTurn_option hne hkind hextent
        by_cases hfits : s.optionLen < m
        · rw [if_pos hfits] at hturn
          rw [Scan.fares_of_leave hturn, Scan.leave_eq (by dsimp only; omega)]
          refine iff_of_false (fun h => absurd h.1 (by dsimp only; omega)) fun h => ?_
          match n with
          | 0 => exact OptionArea.not_single hkind h
          | n + 1 =>
            rw [List.range'_succ, List.map_cons, OptionArea.option_iff hkind hextent, List.length_map,
              List.length_range'] at h
            omega
        · rw [if_neg hfits] at hturn
          rw [Scan.fares_of_again hturn]
          obtain ⟨n, rfl⟩ : ∃ n', n = n' + 1 := ⟨n - 1, by omega⟩
          rw [List.range'_succ, List.map_cons, OptionArea.option_iff hkind hextent, List.length_map,
            List.length_range', and_iff_right (by omega), ← List.map_drop, List.drop_range', ih (n + 2 - m) (by omega)]
          · dsimp only
            rw [show s.i + 1 + 1 + (m - 2) * 1 = s.i + m by omega, show n - (m - 2) = n + 2 - m by omega]
          · refine ⟨?_, ?_, ?_⟩ <;> dsimp only <;> omega
          · dsimp only
            omega
      | none =>
        exact Scan.fares_malformed ⟨hends, hlen, hread⟩ hword hstop hn hkind hextent

/-! ### The header -/

/-- A buffer, and what is in memory behind it. -/
def memory (bs : List UInt8) (beyond : ℕ → UInt8) (i : ℕ) : UInt8 := bs.getD i (beyond i)

theorem range_memory {bs : List UInt8} {beyond : ℕ → UInt8} {i n : ℕ} (h : i + n ≤ bs.length) :
    (List.range' i n).map (memory bs beyond) = (bs.drop i).take n := by
  apply List.ext_getElem
  · simp only [List.length_map, List.length_range', List.length_take, List.length_drop]
    omega
  · intro k hk _
    simp only [List.length_map, List.length_range'] at hk
    simp only [List.getElem_map, List.getElem_range', List.getElem_take, List.getElem_drop, Nat.one_mul, memory]
    exact (List.getElem_eq_getD _).symm

/-- The data offset of a buffer. -/
def dataOffset (bs : List UInt8) : ℕ := (bs.getD 12 0).toNat / 16

theorem lengthField_memory {bs : List UInt8} {beyond : ℕ → UInt8} (h : 60 ≤ bs.length) :
    lengthField (memory bs beyond) = dataOffset bs := by
  have hlt : 12 < bs.length := by omega
  rw [lengthField, dataOffset, memory, ← List.getElem_eq_getD (h := hlt), ← List.getElem_eq_getD (h := hlt)]

/-- Parsing is total exactly when there is room for the fixed fields and the rest is an option area. -/
theorem total_iff (bytes : ℕ → UInt8) :
    Total bytes ↔ 5 ≤ lengthField bytes ∧
      OptionArea ((List.range' 20 ((lengthField bytes - 5) * 4)).map bytes) := by
  have hfield : lengthField bytes ≤ 15 := by
    have := (bytes 12).toNat_lt
    rw [lengthField]
    omega
  by_cases hfive : 5 ≤ lengthField bytes
  · have hs : Scan.Steady { optionLen := (lengthField bytes - 5) * 4 } (lengthField bytes * 4) :=
      ⟨by dsimp only; omega, rfl, Nat.le_refl _⟩
    rw [and_iff_right hfive, ← Scan.fares_iff hs (Nat.mul_mod_left _ _) (by omega)]
    have hparses : ∀ p, Parses bytes p ↔
        Leaves (scanTurn bytes) { optionLen := (lengthField bytes - 5) * 4 } p := by
      intro p
      rw [Parses, if_neg (by rw [m_maxOptionsLen]; omega)]
    simp only [Total, hparses, forall_true_left, hfive, Scan.Fares, Parsed.Right]
  · refine iff_of_false ?_ fun h => hfive h.1
    rintro ⟨p, hp, hread, -⟩
    rw [Parses, if_pos (.inl (by omega))] at hp
    rw [hp] at hread
    dsimp only at hread
    omega

theorem parsing_total (bs : List UInt8) (beyond : ℕ → UInt8) (h : 60 ≤ bs.length) :
    Total (memory bs beyond) ↔
      5 ≤ dataOffset bs ∧ OptionArea ((bs.drop 20).take ((dataOffset bs - 5) * 4)) := by
  have hfield : dataOffset bs ≤ 15 := by
    have := (bs.getD 12 0).toNat_lt
    rw [dataOffset]
    omega
  rw [total_iff, lengthField_memory h, range_memory (by omega)]

/-- A header of 60 bytes with one word of options. -/
def headerWith (options : List UInt8) : List UInt8 :=
  List.replicate 12 0 ++ [0x60] ++ List.replicate 7 0 ++ options ++ List.replicate 36 0

theorem parsing_total_scale : Total (memory (headerWith [1, 3, 3, 7]) fun _ => 0) := by
  refine (parsing_total _ _ (by decide)).mpr ⟨by decide, ?_⟩
  exact .nop (@OptionArea.option 3 3 [7] [] (by decide) rfl .nil)

/-- An unknown option with a size byte of 0 is accepted again and again. -/
theorem not_parsing_total_zero :
    (headerWith [254, 0, 0, 0]).length = 60 ∧ ¬Total (memory (headerWith [254, 0, 0, 0]) fun _ => 0) := by
  refine ⟨by decide, fun h => ?_⟩
  have harea := ((total_iff _).mp h).2
  have hbytes : (List.range' 20 ((lengthField (memory (headerWith [254, 0, 0, 0]) fun _ => 0) - 5) * 4)).map
      (memory (headerWith [254, 0, 0, 0]) fun _ => 0) = [254, 0, 0, 0] := by decide
  rw [hbytes, OptionArea.malformed_iff (by decide) rfl] at harea
  rcases harea with h | ⟨h, -⟩
  · exact absurd h (by decide)
  · exact absurd (h rfl) (by decide)

end TcpHeader

end Ns3.Internet
