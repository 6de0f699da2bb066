import Mathlib.Data.Nat.Size
import Ns3.Network.NixVector

/-!
# Routes in nix-vectors

A nix-vector gives back the indices that were put into it, unless a word is exactly full on the way.
-/

namespace Ns3.Network

open Ns3.Lib NixVector

namespace NixVector

variable {nix nix' : NixVector} {x v : BitVec 32} {n k i p used : Nat} {ws : List (BitVec 32)}

/-! ### Bits to count -/

theorem lt_countBits {fuel : Nat} (hn : n < 2 ^ fuel) :
    n < 2 ^ countBits fuel n ∧ countBits fuel n ≤ fuel := by
  induction fuel generalizing n with
  | zero => exact ⟨hn, Nat.le_refl _⟩
  | succ fuel ih =>
    rw [countBits]
    split
    · have hhalf : n / 2 < 2 ^ fuel := by
        rw [Nat.pow_succ] at hn
        omega
      obtain ⟨hlt, hle⟩ := ih hhalf
      rw [Nat.shiftRight_eq_div_pow, Nat.pow_one, Nat.pow_succ]
      omega
    · next hzero =>
      obtain rfl := not_not.mp hzero
      exact ⟨Nat.one_pos, Nat.zero_le _⟩

/-- The bits of an index below the number of neighbours, 1 to 32 of them. -/
theorem bitCount_spec {index : Nat} (hi : index < n) (hn : n < 2 ^ 32) :
    index < 2 ^ bitCount n ∧ 1 ≤ bitCount n ∧ bitCount n ≤ 32 := by
  rw [bitCount]
  split
  · omega
  · obtain ⟨hlt, hle⟩ := lt_countBits (show n - 1 < 2 ^ 32 by omega)
    have hpos : 1 ≤ countBits 32 (n - 1) := by
      by_contra hzero
      rw [Nat.lt_one_iff.mp (Nat.lt_of_not_le hzero)] at hlt
      omega
    omega

/-! ### Shifts -/

theorem shl_eq (hk : k < 32) : shl x k = .ok (x <<< k) := if_pos hk

theorem shr_eq (hk : k < 32) : shr x k = .ok (x >>> k) := if_pos hk

theorem of_shl {y : BitVec 32} (h : shl x k = .ok y) : k < 32 := by
  by_contra hge
  rw [shl, if_neg hge] at h
  cases h

theorem of_bind {α β : Type} {r : Except NixError α} {f : α → Except NixError β} {b : β}
    (h : r.bind f = .ok b) : ∃ a, r = .ok a ∧ f a = .ok b := by
  cases r with
  | ok a => exact ⟨a, rfl, h⟩
  | error e => cases h

/-! ### Words -/

/-- A nix-vector of `n` bits: the last word has those in use, and behind them there are zeroes. -/
structure Packed (nix : NixVector) (n : Nat) : Prop where
  words : ∃ ws x, nix.m_nixVector = ws ++ [x] ∧ n = 32 * ws.length + nix.m_currentVectorBitSize
  current : nix.m_currentVectorBitSize ≤ 32
  total : nix.m_totalBitSize = n
  zero : ∀ p, n ≤ p → bitAt nix.m_nixVector p = false

theorem packed_new : Packed {} 0 where
  words := ⟨[], 0, rfl, rfl⟩
  current := Nat.zero_le _
  total := rfl
  zero p _ := (bitAt_singleton 0 p).trans BitVec.getLsbD_zero

/-- Behind `c` bits of the last word there are those of an index. -/
theorem bitAt_shl_or {c : Nat} {y : BitVec 32} (hzero : ∀ q, c ≤ q → x.getLsbD q = false) {q : Nat}
    (hq : q < 32) (hy : y = v <<< c ||| x) :
    y.getLsbD q = if q < c then x.getLsbD q else v.getLsbD (q - c) := by
  rw [hy, BitVec.getLsbD_or, BitVec.getLsbD_shiftLeft, decide_eq_true hq, Bool.true_and]
  split
  · next hlt => rw [decide_eq_true hlt, Bool.not_true, Bool.false_and, Bool.false_or]
  · next hlt =>
    rw [decide_eq_false hlt, Bool.not_false, Bool.true_and, hzero q (Nat.le_of_not_lt hlt), Bool.or_false]

/-- The bits of an index come behind those that are there. -/
theorem addNeighborIndex_bits (h : nix.Packed n) (hpos : 1 ≤ k) (hk : k ≤ 32)
    (hv : ∀ q, k ≤ q → v.getLsbD q = false) (hn : n + k < 2 ^ 32) :
    ∃ nix', nix.addNeighborIndex v k = .ok nix' ∧ nix'.m_used = nix.m_used ∧ nix'.Packed (n + k) ∧
      ∀ p, bitAt nix'.m_nixVector p =
        if p < n then bitAt nix.m_nixVector p else v.getLsbD (p - n) := by
  obtain ⟨ws, x, hws, hsize⟩ := h.words
  have hcur := h.current
  have htotal : add32 nix.m_totalBitSize k = n + k := by
    rw [h.total, add32, Nat.mod_eq_of_lt hn]
  have hold : ∀ p, bitAt nix.m_nixVector p =
      if p < 32 * ws.length then bitAt ws p else x.getLsbD (p - 32 * ws.length) := by
    intro p
    rw [hws, bitAt_append, bitAt_singleton]
  have hzero : ∀ q, nix.m_currentVectorBitSize ≤ q → x.getLsbD q = false := by
    intro q hq
    have := h.zero (32 * ws.length + q) (by omega)
    rw [hold, if_neg (by omega), Nat.add_sub_cancel_left] at this
    exact this
  have hback : nix.back = .ok x := by
    rw [back, hws, List.getLast?_append_of_ne_nil _ (List.cons_ne_nil _ _)]
    rfl
  have hdrop : nix.m_nixVector.dropLast = ws := by
    rw [hws, List.dropLast_concat]
  have hadd : add32 nix.m_currentVectorBitSize k = nix.m_currentVectorBitSize + k := by
    rw [add32, Nat.mod_eq_of_lt (by omega)]
  have hsub : sub32 32 nix.m_currentVectorBitSize = 32 - nix.m_currentVectorBitSize := by
    rw [sub32]
    omega
  -- what the bits are, whichever words they are in
  have hpacked : ∀ nix' : NixVector, (∃ ws x, nix'.m_nixVector = ws ++ [x] ∧
      n + k = 32 * ws.length + nix'.m_currentVectorBitSize) → nix'.m_currentVectorBitSize ≤ 32 →
      nix'.m_totalBitSize = n + k → (∀ p, bitAt nix'.m_nixVector p =
        if p < n then bitAt nix.m_nixVector p else v.getLsbD (p - n)) → nix'.Packed (n + k) := by
    intro nix' hwords hcur' htotal' hbits
    refine ⟨hwords, hcur', htotal', fun p hp => ?_⟩
    rw [hbits, if_neg (by omega)]
    exact hv _ (by omega)
  rw [addNeighborIndex, if_neg (Nat.not_lt.mpr hk), hadd]
  by_cases hover : 32 < nix.m_currentVectorBitSize + k
  · rw [if_pos hover]
    by_cases hfull : nix.m_currentVectorBitSize = 32
    · -- a new word
      have hbits : ∀ p, bitAt (nix.m_nixVector ++ [v]) p =
          if p < n then bitAt nix.m_nixVector p else v.getLsbD (p - n) := by
        intro p
        have hlen : 32 * nix.m_nixVector.length = n := by
          rw [hws, List.length_append, List.length_singleton]
          omega
        rw [bitAt_append, hlen, bitAt_singleton]
      rw [if_pos hfull]
      refine ⟨_, rfl, rfl, hpacked _ ⟨nix.m_nixVector, v, rfl, ?_⟩ hk htotal hbits, hbits⟩
      dsimp only
      rw [hws, List.length_append, List.length_singleton]
      omega
    · -- the low bits in the last word, the others in a new one
      have hlt : nix.m_currentVectorBitSize < 32 := by omega
      have hbits : ∀ p, bitAt (ws ++ [v <<< nix.m_currentVectorBitSize ||| x,
          v >>> (32 - nix.m_currentVectorBitSize)]) p =
          if p < n then bitAt nix.m_nixVector p else v.getLsbD (p - n) := by
        intro p
        rw [bitAt_append, bitAt_pair, hold]
        by_cases hp : p < 32 * ws.length
        · rw [if_pos hp, if_pos hp, if_pos (by omega)]
        · rw [if_neg hp, if_neg hp]
          obtain ⟨q, rfl⟩ := Nat.exists_eq_add_of_le (Nat.le_of_not_lt hp)
          rw [Nat.add_sub_cancel_left]
          split
          · next hq =>
            rw [bitAt_shl_or hzero hq rfl]
            split
            · rw [if_pos (by omega)]
            · rw [if_neg (by omega), hsize, Nat.add_sub_add_left]
          · rw [BitVec.getLsbD_ushiftRight, if_neg (by omega)]
            congr 1
            omega
      rw [if_neg hfull, shl_eq hlt, hback, hsub, shr_eq (by omega), hdrop]
      have hrest : sub32 k (32 - nix.m_currentVectorBitSize) = nix.m_currentVectorBitSize + k - 32 := by
        rw [sub32]
        omega
      refine ⟨_, rfl, rfl, hpacked _ ⟨ws ++ [v <<< nix.m_currentVectorBitSize ||| x],
        v >>> (32 - nix.m_currentVectorBitSize), ?_, ?_⟩ ?_ htotal hbits, hbits⟩
      · dsimp only
        rw [List.append_assoc]
        rfl
      · dsimp only
        rw [hrest, List.length_append, List.length_singleton]
        omega
      · dsimp only
        omega
  · -- in the last word
    have hlt : nix.m_currentVectorBitSize < 32 := by omega
    have hbits : ∀ p, bitAt (ws ++ [v <<< nix.m_currentVectorBitSize ||| x]) p =
        if p < n then bitAt nix.m_nixVector p else v.getLsbD (p - n) := by
      intro p
      rw [bitAt_append, bitAt_singleton, hold]
      by_cases hp : p < 32 * ws.length
      · rw [if_pos hp, if_pos hp, if_pos (by omega)]
      · rw [if_neg hp, if_neg hp]
        obtain ⟨q, rfl⟩ := Nat.exists_eq_add_of_le (Nat.le_of_not_lt hp)
        rw [Nat.add_sub_cancel_left]
        by_cases hq : q < 32
        · rw [bitAt_shl_or hzero hq rfl]
          split
          · rw [if_pos (by omega)]
          · rw [if_neg (by omega), hsize, Nat.add_sub_add_left]
        · rw [BitVec.getLsbD_of_ge _ _ (Nat.le_of_not_lt hq), if_neg (by omega)]
          exact (hv _ (by omega)).symm
    rw [if_neg hover, shl_eq hlt, hback, hdrop]
    refine ⟨_, rfl, rfl, hpacked _ ⟨ws, v <<< nix.m_currentVectorBitSize ||| x, rfl, ?_⟩ ?_ htotal hbits,
      hbits⟩
    · dsimp only
      omega
    · dsimp only
      omega

/-! ### Taking out -/

theorem wordAt_eq {i : Nat} (hi : i < nix.m_nixVector.length) :
    nix.wordAt i = .ok (nix.m_nixVector.getD i 0) := by
  rw [wordAt, List.getElem?_eq_getElem hi, List.getD_eq_getElem _ _ hi]

/-- The low bits of a word, moved to the top and back so that `k` of them are left. -/
theorem getLsbD_shl_shr {r q : Nat} (hr : r ≤ 32) (hk : k ≤ 32) :
    (x <<< (32 - r) >>> (32 - k)).getLsbD q = (decide (q < k ∧ k ≤ r + q) && x.getLsbD (r + q - k)) := by
  rw [BitVec.getLsbD_ushiftRight, BitVec.getLsbD_shiftLeft]
  by_cases hin : q < k ∧ k ≤ r + q
  · rw [decide_eq_true hin, decide_eq_true (by omega), decide_eq_false (by omega), Bool.not_false,
      Bool.and_true, Bool.true_and]
    congr 1
    omega
  · rw [decide_eq_false hin, Bool.false_and]
    by_cases hlt : 32 - k + q < 32
    · rw [decide_eq_true (p := 32 - k + q < 32 - r) (by omega), Bool.not_true, Bool.and_false,
        Bool.false_and]
    · rw [decide_eq_false hlt, Bool.false_and, Bool.false_and]

/-- The last bits that remain are taken out, unless they end with a word. -/
theorem extractNeighborIndex_bits (hpos : 1 ≤ k) (hk : k ≤ 32) (hle : k ≤ nix.getRemainingBits)
    (hclear : nix.getRemainingBits % 32 ≠ 0)
    (hlen : nix.getRemainingBits ≤ 32 * nix.m_nixVector.length) :
    ∃ y, nix.extractNeighborIndex k = .ok (y, { nix with m_used := add32 nix.m_used k }) ∧
      ∀ q, y.getLsbD q = (decide (q < k) && bitAt nix.m_nixVector (nix.getRemainingBits - k + q)) := by
  rw [extractNeighborIndex]
  dsimp only
  generalize nix.getRemainingBits = total at *
  obtain ⟨r, j, hr, rfl⟩ : ∃ r j, r = total % 32 ∧ total = 32 * j + r :=
    ⟨total % 32, total / 32, rfl, (Nat.div_add_mod total 32).symm⟩
  have hr32 : r < 32 := by omega
  have hindex : (32 * j + r - 1) / 32 = j := by omega
  have hlow : (32 * j + r - 1) % 32 = r - 1 := by omega
  have hj : j < nix.m_nixVector.length := by omega
  rw [if_neg (Nat.not_lt.mpr hk), if_neg (Nat.not_lt.mpr hle), if_neg (by omega), hindex, hlow, ← hr]
  by_cases hspan : 0 < j ∧ r - 1 < k - 1
  · obtain ⟨i, rfl⟩ := Nat.exists_eq_succ_of_ne_zero (Nat.ne_of_gt hspan.1)
    have hkr : sub32 k r = k - r := by
      rw [sub32]
      omega
    have htop : sub32 (32 - r) (k - r) = 32 - k := by
      rw [sub32]
      omega
    have hlow : sub32 32 (k - r) = 32 - (k - r) := by
      rw [sub32]
      omega
    rw [if_pos hspan, wordAt_eq hj, hkr, htop, hlow]
    refine ⟨nix.m_nixVector.getD (i + 1) 0 <<< (32 - r) >>> (32 - k) |||
      nix.m_nixVector.getD i 0 >>> (32 - (k - r)), ?_, fun q => ?_⟩
    · change Except.bind (shl _ _) _ = _
      rw [shl_eq (by omega)]
      change Except.bind (shr _ _) _ = _
      rw [shr_eq (by omega)]
      change Except.bind (nix.wordAt (i + 1 - 1)) _ = _
      rw [Nat.add_sub_cancel, wordAt_eq (by omega)]
      change Except.bind (shr _ _) _ = _
      rw [shr_eq (by omega)]
      rfl
    · rw [BitVec.getLsbD_or, getLsbD_shl_shr (by omega) hk, BitVec.getLsbD_ushiftRight]
      by_cases hq : q < k
      · by_cases hhigh : k ≤ r + q
        · rw [decide_eq_true hq, decide_eq_true ⟨hq, hhigh⟩, Bool.true_and, Bool.true_and,
            BitVec.getLsbD_of_ge _ (32 - (k - r) + q) (by omega), Bool.or_false]
          have hplace : 32 * (i + 1) + r - k + q = 32 * (i + 1) + (r + q - k) := by omega
          rw [hplace, bitAt_word (by omega)]
        · rw [decide_eq_true hq, decide_eq_false (fun hand => hhigh hand.2), Bool.false_and,
            Bool.false_or, Bool.true_and]
          have hplace : 32 * (i + 1) + r - k + q = 32 * i + (32 - (k - r) + q) := by omega
          rw [hplace, bitAt_word (by omega)]
      · rw [decide_eq_false hq, decide_eq_false (fun hand => hq hand.1), Bool.false_and, Bool.false_and,
          Bool.false_or]
        exact BitVec.getLsbD_of_ge _ _ (by omega)
  · have hkr : k ≤ r := by omega
    rw [if_neg hspan, wordAt_eq hj]
    refine ⟨nix.m_nixVector.getD j 0 <<< (32 - r) >>> (32 - k), ?_, fun q => ?_⟩
    · change Except.bind (shl _ _) _ = _
      rw [shl_eq (by omega)]
      change Except.bind (shr _ _) _ = _
      rw [shr_eq (by omega)]
      rfl
    · rw [getLsbD_shl_shr (by omega) hk]
      by_cases hq : q < k
      · rw [decide_eq_true hq, decide_eq_true ⟨hq, by omega⟩, Bool.true_and, Bool.true_and]
        have hplace : 32 * j + r - k + q = 32 * j + (r + q - k) := by omega
        rw [hplace, bitAt_word (by omega)]
      · rw [decide_eq_false hq, decide_eq_false (fun hand => hq hand.1), Bool.false_and,
          Bool.false_and]

/-- An index that is taken out is not longer than what remains, and that does not end with a word. -/
theorem of_extractNeighborIndex {y : BitVec 32} (h : nix.extractNeighborIndex k = .ok (y, nix')) :
    k ≤ nix.getRemainingBits ∧ nix.getRemainingBits % 32 ≠ 0 ∧
      nix' = { nix with m_used := add32 nix.m_used k } := by
  rw [extractNeighborIndex] at h
  dsimp only at h
  split at h
  · cases h
  split at h
  · cases h
  next hle =>
  split at h
  · cases h
  -- in both cases the first shift is by what the last word has not
  have hshift : ∀ {i : Nat} {f : BitVec 32 → Except NixError (BitVec 32 × NixVector)},
      (nix.wordAt i).bind (fun word => (shl word (32 - nix.getRemainingBits % 32)).bind f) =
        .ok (y, nix') → nix.getRemainingBits % 32 ≠ 0 ∧ ∃ z, f z = .ok (y, nix') := by
    intro i f h
    obtain ⟨word, -, h⟩ := of_bind h
    obtain ⟨z, hz, h⟩ := of_bind h
    have := of_shl hz
    exact ⟨by omega, z, h⟩
  split at h
  · obtain ⟨hclear, z, h⟩ := hshift h
    obtain ⟨_, -, h⟩ := of_bind h
    obtain ⟨_, -, h⟩ := of_bind h
    obtain ⟨_, -, h⟩ := of_bind h
    exact ⟨Nat.le_of_not_lt hle, hclear, (congrArg Prod.snd (Except.ok.inj h)).symm⟩
  · obtain ⟨hclear, z, h⟩ := hshift h
    obtain ⟨_, -, h⟩ := of_bind h
    exact ⟨Nat.le_of_not_lt hle, hclear, (congrArg Prod.snd (Except.ok.inj h)).symm⟩

/-! ### Serialization -/

theorem writeWords_eq {maxSize size : Nat} (hle : size + 4 * ws.length ≤ maxSize)
    (hlt : size + 4 * ws.length < 2 ^ 32) : writeWords maxSize size ws = some ws := by
  induction ws generalizing size with
  | nil => rfl
  | cons x ws ih =>
    rw [List.length_cons] at hle hlt
    have hadd : add32 size 4 = size + 4 := by
      rw [add32]
      omega
    rw [writeWords, hadd, if_pos (by omega), ih (by omega) (by omega)]
    rfl

theorem of_writeWords {maxSize size : Nat} {buffer : List (BitVec 32)}
    (h : writeWords maxSize size ws = some buffer) : buffer = ws := by
  induction ws generalizing size buffer with
  | nil => exact (Option.some.inj h).symm
  | cons x ws ih =>
    rw [writeWords] at h
    split at h
    · obtain ⟨rest, hrest, rfl⟩ := Option.map_eq_some_iff.mp h
      rw [ih hrest]
    · cases h

theorem readWords_eq (ws : List (BitVec 32)) : readWords ws (4 * ws.length) = .ok ws := by
  induction ws with
  | nil => rfl
  | cons x ws ih =>
    have hlen : 4 * (x :: ws).length = 4 * ws.length + 4 := by
      rw [List.length_cons]
      omega
    rw [hlen, readWords, if_neg (by omega), Nat.add_sub_cancel, ih]
    · rfl
    · nofun

/-- The counters of a nix-vector fit their type. -/
structure Fits (nix : NixVector) : Prop where
  used : nix.m_used < 2 ^ 32
  current : nix.m_currentVectorBitSize < 2 ^ 32
  total : nix.m_totalBitSize < 2 ^ 32

theorem toNat_ofNat32 (hn : n < 2 ^ 32) : (BitVec.ofNat 32 n).toNat = n := by
  rw [BitVec.toNat_ofNat, Nat.mod_eq_of_lt hn]

/-- A nix-vector comes out of its serialization as it was. -/
theorem send_eq (hf : nix.Fits) (hlen : 16 + 4 * nix.m_nixVector.length < 2 ^ 32) (room : Nat) :
    nix.send room = .ok nix := by
  have hsize : nix.getSerializedSize = 12 + 4 * nix.m_nixVector.length := by
    rw [getSerializedSize]
    omega
  have hadd : add32 nix.getSerializedSize 4 = 12 + 4 * nix.m_nixVector.length + 4 := by
    rw [hsize, add32]
    omega
  have hcheck : sub32 (12 + 4 * nix.m_nixVector.length + 4) 4 = 12 + 4 * nix.m_nixVector.length := by
    rw [sub32]
    omega
  have hwrite : nix.serialize (nix.getSerializedSize + room) = some (BitVec.ofNat 32 nix.m_used ::
      BitVec.ofNat 32 nix.m_currentVectorBitSize :: BitVec.ofNat 32 nix.m_totalBitSize ::
      nix.m_nixVector) := by
    apply writeWords_eq
    · rw [hsize, List.length_cons, List.length_cons, List.length_cons]
      omega
    · rw [List.length_cons, List.length_cons, List.length_cons]
      omega
  rw [send, hwrite]
  dsimp only
  rw [hadd]
  unfold deserialize
  rw [hcheck, if_neg (by omega)]
  have hrest : 12 + 4 * nix.m_nixVector.length - 12 = 4 * nix.m_nixVector.length :=
    Nat.add_sub_cancel_left ..
  simp only [hrest, readWords_eq nix.m_nixVector, toNat_ofNat32 hf.used, toNat_ofNat32 hf.current,
    toNat_ofNat32 hf.total]
  rfl

/-- Whatever comes out has the counters that went in. -/
theorem of_send (hf : nix.Fits) {room : Nat} (h : nix.send room = .ok nix') :
    nix'.m_used = nix.m_used ∧ nix'.m_totalBitSize = nix.m_totalBitSize ∧ nix'.Fits := by
  rw [send] at h
  split at h
  · cases h
  · next buffer hbuffer =>
    rw [serialize] at hbuffer
    rw [of_writeWords hbuffer] at h
    unfold deserialize at h
    generalize sub32 (add32 nix.getSerializedSize 4) 4 = sizeCheck at h
    dsimp only at h
    split at h
    · cases h
    · rw [toNat_ofNat32 hf.used, toNat_ofNat32 hf.current, toNat_ofNat32 hf.total] at h
      cases hread : readWords nix.m_nixVector (sizeCheck - 12) with
      | error e =>
        rw [hread] at h
        cases h
      | ok words =>
        rw [hread] at h
        obtain rfl := Except.ok.inj h
        exact ⟨rfl, rfl, hf.used, hf.current, hf.total⟩

/-! ### Routes -/

/-- The bits of an index. -/
def Hop.bits (hop : Hop) : Nat := bitCount hop.numberOfNeighbors

/-- The index as a word. -/
def Hop.word (hop : Hop) : BitVec 32 := BitVec.ofNat 32 hop.index

/-- The bits of a route. -/
def bits (hops : List Hop) : Nat := (hops.map Hop.bits).sum

/-- An index is one of a neighbour. -/
def Hop.Valid (hop : Hop) : Prop := hop.index < hop.numberOfNeighbors ∧ hop.numberOfNeighbors < 2 ^ 32

theorem Hop.Valid.bits {hop : Hop} (h : hop.Valid) : 1 ≤ hop.bits ∧ hop.bits ≤ 32 :=
  (bitCount_spec h.1 h.2).2

theorem Hop.Valid.zero {hop : Hop} (h : hop.Valid) (q : Nat) (hq : hop.bits ≤ q) :
    hop.word.getLsbD q = false := by
  have hlt := (bitCount_spec h.1 h.2).1
  have hle : 2 ^ hop.bits ≤ 2 ^ q := Nat.pow_le_pow_right (by decide) hq
  rw [Hop.word, BitVec.getLsbD_ofNat, Nat.testBit_lt_two_pow (Nat.lt_of_lt_of_le hlt hle), Bool.and_false]

section Routes

variable {hops rest : List Hop} {hop : Hop} {ws' : List (BitVec 32)}

theorem bits_cons : bits (hop :: hops) = hop.bits + bits hops := rfl

theorem bits_reverse : bits hops.reverse = bits hops := by
  rw [bits, List.map_reverse, List.sum_reverse]
  rfl

/-- Words hold the indices of a route, the last one first in the list. -/
def Carries (ws : List (BitVec 32)) : List Hop → Prop
  | [] => True
  | hop :: hops =>
    (∀ q, q < hop.bits → bitAt ws (bits hops + q) = hop.word.getLsbD q) ∧ Carries ws hops

theorem Carries.congr (h : Carries ws hops) (hsame : ∀ p, p < bits hops → bitAt ws' p = bitAt ws p) :
    Carries ws' hops := by
  induction hops with
  | nil => exact trivial
  | cons hop hops ih =>
    rw [bits_cons] at hsame
    refine ⟨fun q hq => ?_, ih h.2 fun p hp => hsame p (by omega)⟩
    rw [hsame _ (by omega)]
    exact h.1 q hq

theorem addAll_carries (rest : List Hop) (hv : ∀ hop ∈ hops, hop.Valid) (hp : nix.Packed n) (hn : n = bits rest)
    (hused : nix.m_used = 0) (hc : Carries nix.m_nixVector rest) (hlt : n + bits hops < 2 ^ 32) :
    ∃ nix', nix.addAll hops = .ok nix' ∧ nix'.Packed (n + bits hops) ∧ nix'.m_used = 0 ∧
      Carries nix'.m_nixVector (hops.reverse ++ rest) := by
  induction hops generalizing nix n rest with
  | nil => exact ⟨nix, rfl, hp, hused, hc⟩
  | cons hop hops ih =>
    have hvalid := hv hop List.mem_cons_self
    obtain ⟨hpos, hle⟩ := hvalid.bits
    rw [bits_cons] at hlt
    obtain ⟨nix₁, heq, hused₁, hp₁, hbits⟩ :=
      addNeighborIndex_bits (v := hop.word) hp hpos hle hvalid.zero (by omega)
    have hc₁ : Carries nix₁.m_nixVector (hop :: rest) := by
      refine ⟨fun q hq => ?_, hc.congr fun p hp => ?_⟩
      · rw [hbits, if_neg (by omega), hn, Nat.add_sub_cancel_left]
      · rw [hbits, if_pos (by omega)]
    obtain ⟨nix', heq', hp', hused', hc'⟩ := ih (hop :: rest)
      (fun h hh => hv h (List.mem_cons_of_mem _ hh)) hp₁
      (by rw [bits_cons]; omega) (hused₁.trans hused) hc₁ (by omega)
    refine ⟨nix', ?_, ?_, hused', ?_⟩
    · change Except.bind (nix.addNeighborIndex hop.word hop.bits) _ = _
      rw [heq]
      exact heq'
    · rw [bits_cons, ← Nat.add_assoc]
      exact hp'
    · rw [List.reverse_cons, List.append_assoc]
      exact hc'

/-- Nowhere on a route is a word exactly full. -/
def Clear : List Hop → Prop
  | [] => True
  | hop :: hops => bits (hop :: hops) % 32 ≠ 0 ∧ Clear hops

/-- What is sent before an index is taken out. -/
def sendTo (nix : NixVector) (hop : Hop) : Except NixError NixVector :=
  match hop.sent with
  | none => .ok nix
  | some room => nix.send room

theorem extractAll_cons (nix : NixVector) (hop : Hop) (hops : List Hop) :
    nix.extractAll (hop :: hops) = (nix.sendTo hop).bind fun nix =>
      (nix.extractNeighborIndex hop.bits).bind fun r => (r.2.extractAll hops).bind fun r' =>
        .ok (r.1 :: r'.1, r'.2) := by
  rw [extractAll, sendTo]
  cases hop.sent <;> rfl

theorem extractAll_eq (hv : ∀ hop ∈ hops, hop.Valid) (hc : Carries nix.m_nixVector hops)
    (hrest : nix.m_used + bits hops = nix.m_totalBitSize) (hf : nix.Fits) (hclear : Clear hops)
    (hlen : bits hops ≤ 32 * nix.m_nixVector.length)
    (hroom : 16 + 4 * nix.m_nixVector.length < 2 ^ 32) :
    ∃ nix', nix.extractAll hops = .ok (hops.map Hop.word, nix') ∧ nix'.getRemainingBits = 0 := by
  induction hops generalizing nix with
  | nil =>
    refine ⟨nix, rfl, ?_⟩
    rw [getRemainingBits, sub32, ← hrest]
    change (nix.m_used + 0 + (2 ^ 32 - nix.m_used)) % 2 ^ 32 = 0
    have := hf.used
    omega
  | cons hop hops ih =>
    have hvalid := hv hop List.mem_cons_self
    obtain ⟨hpos, hle⟩ := hvalid.bits
    have htotal := hf.total
    have hused := hf.used
    rw [bits_cons] at hrest hlen
    have hremain : nix.getRemainingBits = hop.bits + bits hops := by
      rw [getRemainingBits, sub32]
      omega
    have hclear' := hclear.1
    rw [bits_cons, ← hremain] at hclear'
    have hsend : nix.sendTo hop = .ok nix := by
      rw [sendTo]
      cases hop.sent with
      | none => rfl
      | some room => exact send_eq hf hroom room
    obtain ⟨y, hy, hbits⟩ := extractNeighborIndex_bits hpos hle (by omega) hclear' (by omega)
    have hword : y = hop.word := by
      apply BitVec.eq_of_getLsbD_eq
      intro q _
      rw [hbits, hremain]
      by_cases hq : q < hop.bits
      · rw [decide_eq_true hq, Bool.true_and, Nat.add_sub_cancel_left]
        exact hc.1 q hq
      · rw [decide_eq_false hq, Bool.false_and, hvalid.zero q (Nat.le_of_not_lt hq)]
    have hadd : add32 nix.m_used hop.bits = nix.m_used + hop.bits := by
      rw [add32]
      omega
    rw [hadd, hword] at hy
    have hf' : Fits { nix with m_used := nix.m_used + hop.bits } :=
      ⟨by dsimp only; omega, hf.current, htotal⟩
    have hrest' : nix.m_used + hop.bits + bits hops = nix.m_totalBitSize := by omega
    obtain ⟨nix', heq, hzero⟩ := @ih { nix with m_used := nix.m_used + hop.bits }
      (fun h hh => hv h (List.mem_cons_of_mem _ hh)) hc.2 hrest' hf' hclear.2
      (by dsimp only; omega) hroom
    refine ⟨nix', ?_, hzero⟩
    rw [extractAll_cons, hsend]
    change (nix.extractNeighborIndex hop.bits).bind _ = _
    rw [hy]
    change (extractAll _ hops).bind _ = _
    rw [heq]
    rfl

/-! ### Where a word is full -/

theorem of_addNeighborIndex (hf : nix.Fits) (h : nix.addNeighborIndex v k = .ok nix') :
    nix'.m_used = nix.m_used ∧ nix'.m_totalBitSize = add32 nix.m_totalBitSize k ∧ nix'.Fits := by
  have hmod : ∀ m : Nat, m % 2 ^ 32 < 2 ^ 32 := fun m => Nat.mod_lt _ (by decide)
  rw [addNeighborIndex] at h
  split at h
  · cases h
  next hk =>
  split at h
  · split at h
    · obtain rfl := Except.ok.inj h
      refine ⟨rfl, rfl, hf.used, ?_, hmod _⟩
      dsimp only
      omega
    · obtain ⟨_, -, h⟩ := of_bind h
      obtain ⟨_, -, h⟩ := of_bind h
      obtain ⟨_, -, h⟩ := of_bind h
      obtain rfl := Except.ok.inj h
      exact ⟨rfl, rfl, hf.used, hmod _, hmod _⟩
  · obtain ⟨_, -, h⟩ := of_bind h
    obtain ⟨_, -, h⟩ := of_bind h
    obtain rfl := Except.ok.inj h
    exact ⟨rfl, rfl, hf.used, hmod _, hmod _⟩

theorem of_addAll (hf : nix.Fits) (hn : nix.m_totalBitSize = n % 2 ^ 32)
    (h : nix.addAll hops = .ok nix') :
    nix'.m_used = nix.m_used ∧ nix'.m_totalBitSize = (n + bits hops) % 2 ^ 32 ∧ nix'.Fits := by
  induction hops generalizing nix n with
  | nil =>
    obtain rfl := Except.ok.inj h
    exact ⟨rfl, hn, hf⟩
  | cons hop hops ih =>
    obtain ⟨nix₁, hadd, h⟩ := of_bind h
    obtain ⟨hused, htotal, hf₁⟩ := of_addNeighborIndex hf hadd
    have hn₁ : nix₁.m_totalBitSize = (n + hop.bits) % 2 ^ 32 := by
      rw [htotal, add32, hn, Nat.mod_add_mod]
      rfl
    obtain ⟨hused', htotal', hf'⟩ := ih hf₁ hn₁ h
    rw [Nat.add_assoc] at htotal'
    exact ⟨hused'.trans hused, htotal', hf'⟩

theorem of_sendTo (hf : nix.Fits) (h : nix.sendTo hop = .ok nix') :
    nix'.getRemainingBits = nix.getRemainingBits ∧ nix'.Fits := by
  rw [sendTo] at h
  cases hsent : hop.sent with
  | none =>
    rw [hsent] at h
    obtain rfl := Except.ok.inj h
    exact ⟨rfl, hf⟩
  | some room =>
    rw [hsent] at h
    obtain ⟨hused, htotal, hf'⟩ := of_send hf h
    rw [getRemainingBits, getRemainingBits, hused, htotal]
    exact ⟨rfl, hf'⟩

/-- What is taken out was put in without counting over 2^32 bits, and no word was full. -/
theorem of_extractAll {r : List (BitVec 32) × NixVector} (hf : nix.Fits)
    (hremain : nix.getRemainingBits = bits hops % 2 ^ 32) (h : nix.extractAll hops = .ok r) :
    bits hops < 2 ^ 32 ∧ Clear hops := by
  induction hops generalizing nix r with
  | nil => exact ⟨by decide, trivial⟩
  | cons hop hops ih =>
    rw [extractAll_cons] at h
    obtain ⟨nix₁, hsend, h⟩ := of_bind h
    obtain ⟨⟨y, nix₂⟩, hextract, h⟩ := of_bind h
    obtain ⟨r', hrest, -⟩ := of_bind h
    obtain ⟨hremain₁, hf₁⟩ := of_sendTo hf hsend
    obtain ⟨hle, hclear, rfl⟩ := of_extractNeighborIndex hextract
    rw [hremain₁] at hle hclear
    rw [bits_cons] at hremain
    have hused := hf₁.used
    have htotal := hf₁.total
    have hadd : add32 nix₁.m_used hop.bits = (nix₁.m_used + hop.bits) % 2 ^ 32 := rfl
    have hremain₂ : getRemainingBits { nix₁ with m_used := add32 nix₁.m_used hop.bits } =
        bits hops % 2 ^ 32 := by
      rw [getRemainingBits, sub32] at hremain₁ ⊢
      dsimp only
      omega
    have hf₂ : Fits { nix₁ with m_used := add32 nix₁.m_used hop.bits } :=
      ⟨Nat.mod_lt _ (by decide), hf₁.current, htotal⟩
    obtain ⟨hlt, hclear'⟩ := ih hf₂ hremain₂ hrest
    have hlt' : hop.bits + bits hops < 2 ^ 32 := by omega
    rw [bits_cons]
    refine ⟨hlt', ?_, hclear'⟩
    rw [bits_cons]
    rw [hremain, Nat.mod_eq_of_lt hlt'] at hclear
    exact hclear

theorem clear_iff : Clear hops ↔ ∀ l, l <:+ hops → l ≠ [] → bits l % 32 ≠ 0 := by
  induction hops with
  | nil =>
    refine ⟨fun _ l hl hne => absurd (List.suffix_nil.mp hl) hne, fun _ => trivial⟩
  | cons hop hops ih =>
    constructor
    · intro hclear l hl hne
      rcases List.suffix_cons_iff.mp hl with rfl | hl
      · exact hclear.1
      · exact ih.mp hclear.2 l hl hne
    · intro h
      exact ⟨h _ (List.suffix_refl _) (List.cons_ne_nil _ _),
        ih.mpr fun l hl hne => h l (hl.trans (List.suffix_cons _ _)) hne⟩

theorem clear_reverse : Clear hops.reverse ↔ ∀ l, l <+: hops → l ≠ [] → bits l % 32 ≠ 0 := by
  rw [clear_iff]
  constructor
  · intro h l hl hne
    rw [← bits_reverse]
    exact h l.reverse (List.reverse_suffix.mpr hl) (fun hnil => hne (List.reverse_eq_nil_iff.mp hnil))
  · intro h l hl hne
    rw [← bits_reverse]
    exact h l.reverse (List.reverse_suffix.mp (by rwa [List.reverse_reverse]))
      (fun hnil => hne (List.reverse_eq_nil_iff.mp hnil))

/-- The indices of a route come out of a nix-vector, the last one first, and leave no bits, exactly
when there are fewer than 2^32 bits and none of the indices ends where a word ends. -/
theorem route_iff (hv : ∀ hop ∈ hops, hop.Valid) :
    (bits hops < 2 ^ 32 ∧ ∀ l, l <+: hops → l ≠ [] → bits l % 32 ≠ 0) ↔
      ∃ indices nix, route hops = .ok (indices, nix) ∧
        indices.map BitVec.toNat = hops.reverse.map Hop.index ∧ nix.getRemainingBits = 0 := by
  rw [← clear_reverse]
  constructor
  · rintro ⟨hlt, hclear⟩
    obtain ⟨nix, hadd, hp, hused, hc⟩ := addAll_carries [] hv packed_new rfl rfl trivial
      (by omega)
    rw [Nat.zero_add] at hp
    rw [List.append_nil] at hc
    obtain ⟨ws, x, hws, hn⟩ := hp.words
    have hlen : nix.m_nixVector.length = ws.length + 1 := by
      rw [hws, List.length_append, List.length_singleton]
    have hcur := hp.current
    have htotal := hp.total
    obtain ⟨nix', hextract, hzero⟩ := extractAll_eq (fun hop hh => hv hop (List.mem_reverse.mp hh)) hc
      (by rw [bits_reverse]; omega) ⟨by omega, by omega, by omega⟩ hclear (by rw [bits_reverse]; omega)
      (by omega)
    refine ⟨hops.reverse.map Hop.word, nix', ?_, ?_, hzero⟩
    · change Except.bind (addAll {} hops) _ = _
      rw [hadd]
      exact hextract
    · rw [List.map_map]
      refine List.map_congr_left fun hop hh => ?_
      have hvalid := hv hop (List.mem_reverse.mp hh)
      exact toNat_ofNat32 (Nat.lt_trans hvalid.1 hvalid.2)
  · rintro ⟨indices, nix, h, -⟩
    obtain ⟨nix₁, hadd, h⟩ := of_bind h
    obtain ⟨hused, htotal, hf⟩ := of_addAll (n := 0) ⟨by decide, by decide, by decide⟩ rfl hadd
    rw [Nat.zero_add] at htotal
    have hremain : nix₁.getRemainingBits = bits hops.reverse % 2 ^ 32 := by
      rw [getRemainingBits, sub32, htotal, hused, bits_reverse]
      change (_ + (2 ^ 32 - 0)) % 2 ^ 32 = _
      omega
    have := of_extractAll hf hremain h
    rw [bits_reverse] at this
    exact this

/-- 32 indices of one bit fill a word: to take the last of them out, the word is shifted by 32. -/
theorem route_full : (∀ hop ∈ List.replicate 32 (⟨2, 1, none⟩ : Hop), hop.Valid) ∧
    route (List.replicate 32 ⟨2, 1, none⟩) = .error .shift := by
  refine ⟨fun hop hh => ?_, by decide +kernel⟩
  rw [(List.mem_replicate.mp hh).2]
  exact ⟨by decide, by decide⟩

/-- A node with 3 neighbours and one with 2^32 - 1: the second index is in two words, and the vector is
sent before it is taken out. -/
theorem route_iff_spanning :
    (bits [⟨3, 2, none⟩, ⟨2 ^ 32 - 1, 2 ^ 31 + 5, some 8⟩] < 2 ^ 32 ∧
        ∀ l, l <+: [⟨3, 2, none⟩, ⟨2 ^ 32 - 1, 2 ^ 31 + 5, some 8⟩] → l ≠ [] → bits l % 32 ≠ 0) ↔
      ∃ indices nix, route [⟨3, 2, none⟩, ⟨2 ^ 32 - 1, 2 ^ 31 + 5, some 8⟩] = .ok (indices, nix) ∧
        indices.map BitVec.toNat = [⟨3, 2, none⟩, ⟨2 ^ 32 - 1, 2 ^ 31 + 5, some 8⟩].reverse.map Hop.index ∧
        nix.getRemainingBits = 0 := by
  refine route_iff fun hop hh => ?_
  simp only [List.mem_cons, List.not_mem_nil, or_false] at hh
  rcases hh with rfl | rfl
  · exact ⟨by decide, by decide⟩
  · exact ⟨by decide, by decide⟩

end Routes

end NixVector

end Ns3.Network
