import Ns3.Wifi.Scoreboard

/-!
# The reordering buffer of a block ack

The MPDUs that a recipient holds have numbers that increase in the order of its map. A call passes those with
numbers below the new start of the window, and the others stay. The start that `NotifyReceivedMpdu` computes for
an MPDU behind the window is not reduced to 12 bits, and so no sequence number equals it when it wraps.
-/

namespace Ns3.Wifi.RecipientBlockAckAgreement

open Ns3.Lib

variable {Packet : Type}

/-- MPDUs with the numbers of `ps`, which increase from `lo` on and stay below `hi`. -/
structure Sequenced (lo hi : Nat) (ps : List (Nat × Mpdu Packet)) (ms : List (Mpdu Packet)) : Prop where
  mpdus : ms = ps.map Prod.snd
  seqs : ∀ p ∈ ps, p.2.m_seqSeq = p.1 % 4096
  increasing : ps.Pairwise fun p q => p.1 < q.1
  inside : ∀ p ∈ ps, lo ≤ p.1 ∧ p.1 < hi

variable {lo hi n : Nat} {p : Nat × Mpdu Packet} {ps : List (Nat × Mpdu Packet)} {m : Mpdu Packet}
  {ms : List (Mpdu Packet)}

namespace Sequenced

theorem nil : Sequenced lo hi ([] : List (Nat × Mpdu Packet)) [] :=
  ⟨rfl, (fun _ hp => nomatch hp), List.Pairwise.nil, fun _ hp => nomatch hp⟩

theorem mono {lo' hi' : Nat} (h : Sequenced lo hi ps ms) (hinside : ∀ p ∈ ps, lo' ≤ p.1 ∧ p.1 < hi') :
    Sequenced lo' hi' ps ms := ⟨h.mpdus, h.seqs, h.increasing, hinside⟩

theorem numbered {hi' : Nat} (h : Sequenced lo hi ps ms) (hle : hi ≤ hi') : Sequenced lo hi' ps (ps.map Prod.snd) :=
  ⟨rfl, h.seqs, h.increasing, fun p hp => ⟨(h.inside p hp).1, (h.inside p hp).2.trans_le hle⟩⟩

theorem tail (h : Sequenced lo hi (p :: ps) ms) : Sequenced (p.1 + 1) hi ps (ps.map Prod.snd) where
  mpdus := rfl
  seqs q hq := h.seqs q (List.mem_cons_of_mem _ hq)
  increasing := (List.pairwise_cons.mp h.increasing).2
  inside q hq := ⟨(List.pairwise_cons.mp h.increasing).1 q hq, (h.inside q (List.mem_cons_of_mem _ hq)).2⟩

theorem cons (hp : p.2.m_seqSeq = p.1 % 4096) (hlo : lo ≤ p.1) (hhi : p.1 < hi) (h : Sequenced (p.1 + 1) hi ps ms) :
    Sequenced lo hi (p :: ps) (p.2 :: ms) where
  mpdus := congrArg (p.2 :: ·) h.mpdus
  seqs := List.forall_mem_cons.mpr ⟨hp, h.seqs⟩
  increasing := List.pairwise_cons.mpr ⟨fun q hq => (h.inside q hq).1, h.increasing⟩
  inside := List.forall_mem_cons.mpr ⟨⟨hlo, hhi⟩, fun q hq => ⟨by have := (h.inside q hq).1; omega, (h.inside q hq).2⟩⟩

/-- A number that is not too far is in the list if its sequence number is. -/
theorem mem_seqs_iff (h : Sequenced lo hi ps ms) (hhi : hi ≤ lo + 4096) (hlo : lo ≤ n) (hn : n < hi) :
    n % 4096 ∈ ms.map Mpdu.m_seqSeq ↔ n ∈ ps.map Prod.fst := by
  rw [h.mpdus, List.map_map, List.mem_map, List.mem_map]
  refine exists_congr fun p => and_congr_right fun hp => ?_
  have hseq := h.seqs p hp
  have hinside := h.inside p hp
  show p.2.m_seqSeq = n % 4096 ↔ p.1 = n
  omega

end Sequenced

theorem compare_eq {base a b : Nat} (ha : base ≤ a) (ha' : a < base + 4096) (hb : base ≤ b) (hb' : b < base + 4096) :
    compare (base % 4096) (a % 4096) (b % 4096) = decide (a < b) := by
  rw [compare, decide_eq_decide, Int.tmod_eq_emod_of_nonneg (by omega), Int.tmod_eq_emod_of_nonneg (by omega)]
  omega

/-- An MPDU is put in its place, unless there is one with its number. -/
theorem insert_eq {base : Nat} (h : Sequenced lo hi ps ms) (hbase : base ≤ lo) (hhi : hi ≤ base + 4096) (hlo : lo ≤ n)
    (hn : n < hi) (hm : m.m_seqSeq = n % 4096) :
    ∃ ps', Sequenced lo hi ps' (insert (base % 4096) m ms) ∧
      (n ∈ ps.map Prod.fst ∧ ps' = ps ∨ n ∉ ps.map Prod.fst ∧ ps'.Perm ((n, m) :: ps)) := by
  induction ps generalizing lo ms with
  | nil =>
    obtain rfl : ms = [] := h.mpdus
    exact ⟨[(n, m)], .cons hm hlo hn .nil, .inr ⟨List.not_mem_nil, List.Perm.refl _⟩⟩
  | cons p ps ih =>
    obtain rfl : ms = p.2 :: ps.map Prod.snd := h.mpdus
    have hseq := h.seqs p List.mem_cons_self
    have hinside := h.inside p List.mem_cons_self
    have hbefore : compare (base % 4096) m.m_seqSeq p.2.m_seqSeq = decide (n < p.1) := by
      rw [hm, hseq]
      exact compare_eq (by omega) (by omega) (by omega) (by omega)
    have hafter : compare (base % 4096) p.2.m_seqSeq m.m_seqSeq = decide (p.1 < n) := by
      rw [hm, hseq]
      exact compare_eq (by omega) (by omega) (by omega) (by omega)
    rw [insert, hbefore, hafter]
    obtain hlt | heq | hgt := Nat.lt_trichotomy n p.1
    · rw [if_pos (decide_eq_true hlt)]
      have hstay : Sequenced (n + 1) hi (p :: ps) (p.2 :: ps.map Prod.snd) := h.tail.cons hseq (by omega) hinside.2
      refine ⟨(n, m) :: p :: ps, hstay.cons hm hlo hn, .inr ⟨fun hmem => ?_, List.Perm.refl _⟩⟩
      obtain ⟨q, hq, hqn⟩ := List.mem_map.mp hmem
      have := (hstay.inside q hq).1
      omega
    · rw [decide_eq_false (by omega), decide_eq_false (by omega)]
      exact ⟨p :: ps, h, .inl ⟨List.mem_cons.mpr (.inl heq), rfl⟩⟩
    · rw [decide_eq_false (by omega), decide_eq_true hgt]
      obtain ⟨ps', hps', hcases⟩ := ih h.tail (by omega) (by omega)
      refine ⟨p :: ps', hps'.cons hseq hinside.1 hinside.2, ?_⟩
      obtain ⟨hmem, rfl⟩ | ⟨hmem, hperm⟩ := hcases
      · exact .inl ⟨List.mem_cons_of_mem _ hmem, rfl⟩
      · refine .inr ⟨fun hcons => ?_, (hperm.cons p).trans (List.Perm.swap _ _ _)⟩
        exact (List.mem_cons.mp hcons).elim (by omega) hmem

/-- MPDUs are passed as long as their numbers follow one another. -/
theorem untilFirstLost_eq (h : Sequenced lo hi ps ms) (hhi : hi ≤ lo + 4096) :
    ∃ ps₁ ps₂ start, ps = ps₁ ++ ps₂ ∧
      untilFirstLost (lo % 4096) ms = (ps₁.map Prod.snd, start % 4096, ps₂.map Prod.snd) ∧
      lo ≤ start ∧ start ≤ max lo hi ∧ (∀ p ∈ ps₁, p.1 < start) ∧
      Sequenced (start + 1) hi ps₂ (ps₂.map Prod.snd) := by
  induction ps generalizing lo ms with
  | nil =>
    obtain rfl : ms = [] := h.mpdus
    exact ⟨[], [], lo, rfl, rfl, le_rfl, le_max_left _ _, (fun _ hp => nomatch hp), .nil⟩
  | cons p ps ih =>
    obtain rfl : ms = p.2 :: ps.map Prod.snd := h.mpdus
    have hseq := h.seqs p List.mem_cons_self
    have hinside := h.inside p List.mem_cons_self
    rw [untilFirstLost]
    by_cases hfirst : p.1 = lo
    · have htail := h.tail
      rw [hfirst] at htail
      obtain ⟨ps₁, ps₂, start, rfl, huntil, hle, hmax, hpassed, hleft⟩ := ih htail (by omega)
      refine ⟨p :: ps₁, ps₂, start, rfl, ?_, by omega, by omega, ?_, hleft⟩
      · rw [if_pos (by rw [hseq, hfirst]), Nat.mod_add_mod, huntil]
        rfl
      · exact List.forall_mem_cons.mpr ⟨by omega, hpassed⟩
    · refine ⟨[], p :: ps, lo, rfl, if_neg (by omega), le_rfl, le_max_left _ _, (fun _ hp => nomatch hp), ?_⟩
      exact h.tail.cons hseq (by omega) hinside.2

/-- MPDUs are passed up to the new start of the window. -/
theorem lessThan_eq {base start : Nat} (h : Sequenced lo hi ps ms) (hbase : base ≤ lo) (hhi : hi ≤ base + 4096)
    (hstart : base ≤ start) (hnear : start < base + 4096) {less : Mpdu Packet → Bool}
    (hless : ∀ m, less m = decide (getDistance m.m_seqSeq (base % 4096) < getDistance (start % 4096) (base % 4096))) :
    ∃ ps₁ ps₂, ps = ps₁ ++ ps₂ ∧ ms.takeWhile less = ps₁.map Prod.snd ∧ ms.dropWhile less = ps₂.map Prod.snd ∧
      (∀ p ∈ ps₁, p.1 < start) ∧ Sequenced (max lo start) hi ps₂ (ps₂.map Prod.snd) := by
  induction ps generalizing lo ms with
  | nil =>
    obtain rfl : ms = [] := h.mpdus
    exact ⟨[], [], rfl, rfl, rfl, (fun _ hp => nomatch hp), .nil⟩
  | cons p ps ih =>
    obtain rfl : ms = p.2 :: ps.map Prod.snd := h.mpdus
    have hseq := h.seqs p List.mem_cons_self
    have hinside := h.inside p List.mem_cons_self
    have hp : less p.2 = decide (p.1 < start) := by
      rw [hless, hseq, getDistance_mod (by omega) (by omega), getDistance_mod hstart hnear, decide_eq_decide]
      omega
    by_cases hlt : p.1 < start
    · obtain ⟨ps₁, ps₂, rfl, htake, hdrop, hpassed, hleft⟩ := ih h.tail (by omega)
      rw [decide_eq_true hlt] at hp
      refine ⟨p :: ps₁, ps₂, rfl, ?_, ?_, List.forall_mem_cons.mpr ⟨hlt, hpassed⟩, hleft.mono fun q hq => ?_⟩
      · rw [List.takeWhile_cons_of_pos hp, htake]
        rfl
      · rw [List.dropWhile_cons_of_pos hp, hdrop]
      · have := hleft.inside q hq
        omega
    · rw [decide_eq_false hlt] at hp
      have hstop : ¬ less p.2 = true := by
        rw [hp]
        exact Bool.false_ne_true
      refine ⟨[], p :: ps, rfl, List.takeWhile_cons_of_neg hstop, List.dropWhile_cons_of_neg hstop,
        (fun _ hp => nomatch hp), h.tail.cons hseq (by omega) hinside.2⟩

/-! ### Calls -/

/-- The MPDUs of `ps` are in the buffer, inside the window that starts at `start` but not at its start. -/
structure Buffered (size start : Nat) (ps : List (Nat × Mpdu Packet)) (agreement : RecipientBlockAckAgreement Packet) :
    Prop where
  winStartB : agreement.m_winStartB = start % 4096
  winSizeB : agreement.m_winSizeB = size
  sequenced : Sequenced (start + 1) (start + size) ps agreement.m_bufferedMpdus

/-- Of the MPDUs of `ps` the first ones are passed, those before the new start of the window, which is not behind
`last`. -/
def Passes (size start last : Nat) (ps : List (Nat × Mpdu Packet))
    (result : List (Mpdu Packet) × RecipientBlockAckAgreement Packet) : Prop :=
  ∃ ps₁ ps₂ start', ps = ps₁ ++ ps₂ ∧ result.1 = ps₁.map Prod.snd ∧ Buffered size start' ps₂ result.2 ∧
    start ≤ start' ∧ start' ≤ last ∧ ∀ p ∈ ps₁, p.1 < start'

variable {size start : Nat} {agreement : RecipientBlockAckAgreement Packet}

theorem passUntil (hstart : agreement.m_winStartB = start % 4096) (hsize : agreement.m_winSizeB = size)
    (h : Sequenced start hi ps agreement.m_bufferedMpdus) (hhi : hi ≤ start + size) (hnear : hi ≤ start + 4096) :
    Passes size start (max start hi) ps agreement.passBufferedMpdusUntilFirstLost := by
  obtain ⟨ps₁, ps₂, start', rfl, huntil, hle, hmax, hpassed, hleft⟩ := untilFirstLost_eq h hnear
  rw [passBufferedMpdusUntilFirstLost, hstart, huntil]
  refine ⟨ps₁, ps₂, start', rfl, rfl, ⟨rfl, hsize, ?_⟩, hle, hmax, hpassed⟩
  refine hleft.mono fun p hp => ?_
  have := hleft.inside p hp
  omega

theorem passTo {start' : Nat} (hstart : agreement.m_winStartB = start % 4096) (hsize : agreement.m_winSizeB = size)
    (h : Sequenced start hi ps agreement.m_bufferedMpdus) (hle : start ≤ start') (hfar : start' < start + 4096)
    (hhi : hi ≤ start' + size) (hnear : hi ≤ start + 4096) :
    Passes size start (max start' hi) ps (agreement.passBufferedMpdus (start' % 4096)) := by
  obtain ⟨ps₁, ps₂, rfl, htake, hdrop, hpassed, hleft⟩ := lessThan_eq h le_rfl hnear hle hfar fun _ => rfl
  rw [max_eq_right hle] at hleft
  rw [passBufferedMpdus, passBufferedMpdusWithSeqNumberLessThan, hstart, htake, hdrop]
  have hstart' : { agreement with
      m_winStartB := start' % 4096, m_bufferedMpdus := ps₂.map Prod.snd }.m_winStartB = start' % 4096 := rfl
  obtain ⟨ps₁', ps₂', start'', rfl, hpass, hbuffered, hle', hlast, hpassed'⟩ :=
    passUntil hstart' hsize hleft hhi (by omega)
  refine ⟨ps₁ ++ ps₁', ps₂', start'', by rw [List.append_assoc], ?_, hbuffered, hle.trans hle', hlast, fun p hp => ?_⟩
  · exact (congrArg (ps₁.map Prod.snd ++ ·) hpass).trans List.map_append.symm
  · obtain hp | hp := List.mem_append.mp hp
    · exact (hpassed p hp).trans_le hle'
    · exact hpassed' p hp

/-! ### What calls pass -/

/-- How far the start of the window moves, back if it is more than half of the numbers. -/
def moved (winStartB winStartB' : Nat) : Int :=
  let distance := getDistance winStartB' winStartB
  if distance ≤ 2048 then distance else (distance : Int) - 4096

/-- The numbers of the MPDUs that calls pass, counted from the start of the window before each call. -/
def numbers (start : Int) (agreement : RecipientBlockAckAgreement Packet) : List (Call Packet) → List Int
  | [] => []
  | c :: cs =>
    match agreement.call c with
    | none => []
    | some (passed, agreement') =>
      passed.map (fun m => start + getDistance m.m_seqSeq agreement.m_winStartB) ++
        numbers (start + moved agreement.m_winStartB agreement'.m_winStartB) agreement' cs

/-- The MPDU that a call stores: it is not old, and the buffer has none with its sequence number. -/
def stored (agreement : RecipientBlockAckAgreement Packet) : Call Packet → List (Mpdu Packet)
  | .mpdu m =>
    if getDistance m.m_seqSeq agreement.m_winStartB < 2048 ∧
        m.m_seqSeq ∉ agreement.m_bufferedMpdus.map Mpdu.m_seqSeq then [m] else []
  | .bar _ => []
  | .flush => []

/-- All MPDUs that calls store. -/
def storedAll (agreement : RecipientBlockAckAgreement Packet) : List (Call Packet) → List (Mpdu Packet)
  | [] => []
  | c :: cs =>
    agreement.stored c ++
      match agreement.call c with
      | none => []
      | some (_, agreement') => storedAll agreement' cs

/-- The start of the window does not wrap in 16 bits. -/
def Call.Extends (agreement : RecipientBlockAckAgreement Packet) : Call Packet → Prop
  | .mpdu m =>
    getDistance m.m_seqSeq agreement.m_winStartB < agreement.m_winSizeB ∨
      2048 ≤ getDistance m.m_seqSeq agreement.m_winStartB ∨ agreement.m_winSizeB ≤ m.m_seqSeq + 1
  | .bar _ => True
  | .flush => True

/-- A `Flush` whose scoreboard starts behind the window sets the window back. -/
def Call.SetsBack (agreement : RecipientBlockAckAgreement Packet) : Call Packet → Prop
  | .mpdu _ => False
  | .bar _ => False
  | .flush => 2048 < getDistance agreement.m_scoreboard.m_winStart agreement.m_winStartB

/-- Calls of which no start wraps, and none of which comes after the window was set back. -/
def Proper (agreement : RecipientBlockAckAgreement Packet) : List (Call Packet) → Prop
  | [] => True
  | c :: cs =>
    c.Extends agreement ∧ (c.SetsBack agreement → cs = []) ∧
      ∀ passed agreement', agreement.call c = some (passed, agreement') → Proper agreement' cs

theorem Passes.mono {last last' : Nat} {result : List (Mpdu Packet) × RecipientBlockAckAgreement Packet}
    (h : Passes size start last ps result) (hle : last ≤ last') : Passes size start last' ps result := by
  obtain ⟨ps₁, ps₂, start', hps, hpass, hbuffered, hstart, hlast, hpassed⟩ := h
  exact ⟨ps₁, ps₂, start', hps, hpass, hbuffered, hstart, hlast.trans hle, hpassed⟩

/-- Nothing is passed. -/
theorem Buffered.passes {last : Nat} (h : Buffered size start ps agreement) (hlast : start ≤ last) :
    Passes size start last ps ([], agreement) :=
  ⟨[], ps, start, rfl, rfl, h, le_rfl, hlast, fun _ hp => nomatch hp⟩

theorem Buffered.weaken (h : Buffered size start ps agreement) :
    Sequenced start (start + size) ps agreement.m_bufferedMpdus :=
  h.sequenced.mono fun p hp => ⟨Nat.le_of_succ_le (h.sequenced.inside p hp).1, (h.sequenced.inside p hp).2⟩

/-- Where the start of the window is for the last MPDU of it. -/
theorem startOfWindow_eq (hpos : 1 ≤ size) (hle : size ≤ n % 4096 + 1) :
    startOfWindow (n % 4096) size = (n + 1 - size) % 4096 := by
  rw [startOfWindow]
  omega

/-- What an insertion adds is what is stored. -/
theorem perm_stored {d : Nat} {ps' : List (Nat × Mpdu Packet)} (hmpdus : ms = ps.map Prod.snd) (hd : d < 2048)
    (hmem : m.m_seqSeq ∈ ms.map Mpdu.m_seqSeq ↔ n ∈ ps.map Prod.fst)
    (hcases : n ∈ ps.map Prod.fst ∧ ps' = ps ∨ n ∉ ps.map Prod.fst ∧ ps'.Perm ((n, m) :: ps)) :
    (ps'.map Prod.snd).Perm ((if d < 2048 ∧ m.m_seqSeq ∉ ms.map Mpdu.m_seqSeq then [m] else []) ++ ms) := by
  obtain ⟨hn, rfl⟩ | ⟨hn, hperm⟩ := hcases
  · rw [if_neg fun h => h.2 (hmem.mpr hn), hmpdus]
    rfl
  · rw [if_pos ⟨hd, mt hmem.mp hn⟩, hmpdus]
    exact hperm.map Prod.snd

/-- The part of `NotifyReceivedMpdu` about the buffer. -/
theorem storeMpdu_passes (hb : Buffered size start ps agreement) (hpos : 1 ≤ size) (hsize : size ≤ 256)
    (hm : m.m_seqSeq < 4096) (hextends : (Call.mpdu m).Extends agreement) :
    ∃ ps', Passes size start (start + 2048) ps' (agreement.storeMpdu m) ∧
      (ps'.map Prod.snd).Perm (agreement.stored (.mpdu m) ++ agreement.m_bufferedMpdus) ∧
      Sequenced start (start + 4096) ps' (ps'.map Prod.snd) := by
  have hlt := getDistance_lt hm (Nat.mod_lt start (by decide : 0 < 4096))
  have hseq := add_getDistance_mod hm start
  rw [Call.Extends, hb.winStartB, hb.winSizeB] at hextends
  rw [storeMpdu, stored, hb.winStartB, hb.winSizeB]
  generalize getDistance m.m_seqSeq (start % 4096) = d at hlt hseq hextends
  rw [Nat.mod_eq_of_lt (by omega : d < 2 ^ 16)]
  obtain ⟨n, hn⟩ : ∃ n, start + d = n := ⟨_, rfl⟩
  rw [hn] at hseq
  by_cases hin : d < size
  · -- in the window
    obtain ⟨ps', hps', hcases⟩ := insert_eq hb.weaken le_rfl (by omega) (by omega) (by omega : n < start + size) hseq.symm
    have hmem := hb.weaken.mem_seqs_iff (by omega) (by omega : start ≤ n) (by omega : n < start + size)
    rw [hseq] at hmem
    refine ⟨ps', ?_, perm_stored hb.sequenced.mpdus (by omega) hmem hcases, hps'.numbered (by omega)⟩
    · rw [if_pos hin]
      exact Passes.mono (passUntil rfl rfl hps' le_rfl (by omega))
        (max_le (by omega) (by omega) : max start (start + size) ≤ start + 2048)
  · by_cases hnew : d < 2048
    · -- behind its end
      have hwide : Sequenced start (n + 1) ps agreement.m_bufferedMpdus := hb.weaken.mono fun p hp => by
        have := hb.weaken.inside p hp
        omega
      obtain ⟨ps', hps', hcases⟩ := insert_eq hwide le_rfl (by omega) (by omega) (Nat.lt_succ_self n) hseq.symm
      have hmem := hwide.mem_seqs_iff (by omega) (by omega : start ≤ n) (Nat.lt_succ_self n)
      rw [hseq] at hmem
      have hwindow : startOfWindow m.m_seqSeq size = (n + 1 - size) % 4096 := by
        rw [← hseq]
        exact startOfWindow_eq hpos (by omega)
      refine ⟨ps', ?_, perm_stored hb.sequenced.mpdus hnew hmem hcases, hps'.numbered (by omega)⟩
      · rw [if_neg hin, if_pos hnew, hwindow]
        exact Passes.mono (passTo rfl rfl hps' (by omega) (by omega) (by omega) (by omega))
          (max_le (by omega) (by omega) : max (n + 1 - size) (n + 1) ≤ start + 2048)
    · rw [if_neg hin, if_neg hnew, if_neg fun h => hnew h.1]
      refine ⟨ps, hb.passes (Nat.le_add_right _ _), ?_, hb.weaken.numbered (by omega)⟩
      rw [hb.sequenced.mpdus]
      rfl

/-- The MPDUs of the buffer, passed up to a new start of the window. -/
theorem Buffered.passTo (hb : Buffered size start ps agreement) (hsize : size ≤ 256) {d : Nat} (hd : d < 4096) :
    Passes size start (start + max d 2048) ps (agreement.passBufferedMpdus ((start + d) % 4096)) :=
  (RecipientBlockAckAgreement.passTo hb.winStartB hb.winSizeB hb.weaken (Nat.le_add_right _ _) (by omega) (by omega)
    (by omega)).mono (by omega)

/-- The part of `NotifyReceivedBar` about the buffer. -/
theorem moveToBar_passes (hb : Buffered size start ps agreement) (hsize : size ≤ 256) {seq : Nat} (hseq : seq < 4096) :
    Passes size start (start + 2048) ps (agreement.moveToBar seq) := by
  have hlt := getDistance_lt hseq (Nat.mod_lt start (by decide : 0 < 4096))
  rw [moveToBar, hb.winStartB, Nat.mod_eq_of_lt (by omega : getDistance seq (start % 4096) < 2 ^ 16)]
  by_cases hnew : 0 < getDistance seq (start % 4096) ∧ getDistance seq (start % 4096) < 2048
  · have hpasses := hb.passTo hsize hlt
    rw [add_getDistance_mod hseq, max_eq_right hnew.2.le] at hpasses
    rw [if_pos hnew]
    exact hpasses
  · rw [if_neg hnew]
    exact hb.passes (Nat.le_add_right _ _)

/-- One call passes the first MPDUs of those that were there or came with it. -/
theorem call_passes {sb : Scoreboard} {ht : Bool} (hb : Buffered size start ps agreement)
    (hs : Scored size ht agreement sb) (hpos : 1 ≤ size) (hsize : size ≤ 256) {c : Call Packet} (hc : c.Valid)
    (hextends : c.Extends agreement) :
    ∃ passed agreement' ps' last, agreement.call c = some (passed, agreement') ∧
      Passes size start last ps' (passed, agreement') ∧ (¬ c.SetsBack agreement → last ≤ start + 2048) ∧
      (ps'.map Prod.snd).Perm (agreement.stored c ++ agreement.m_bufferedMpdus) ∧
      Sequenced start (start + 4096) ps' (ps'.map Prod.snd) := by
  have hsame : (ps.map Prod.snd).Perm agreement.m_bufferedMpdus := hb.sequenced.mpdus ▸ List.Perm.refl _
  have hinside : Sequenced start (start + 4096) ps (ps.map Prod.snd) := hb.weaken.numbered (by omega)
  cases c with
  | mpdu m =>
    obtain ⟨w, hw, -⟩ := hs.tracks.receiveMpdu hsize hc
    have hb' : Buffered size start ps { agreement with m_scoreboard := w } := ⟨hb.winStartB, hb.winSizeB, hb.sequenced⟩
    obtain ⟨ps', hpasses, hperm, hps'⟩ := storeMpdu_passes hb' hpos hsize hc hextends
    exact ⟨_, _, ps', _, by rw [call, notifyReceivedMpdu, hw]; rfl, hpasses, fun _ => le_rfl, hperm, hps'⟩
  | bar seq =>
    have hb' : Buffered size start ps { agreement with m_scoreboard := agreement.m_scoreboard.receiveBar seq } :=
      ⟨hb.winStartB, hb.winSizeB, hb.sequenced⟩
    exact ⟨_, _, ps, _, rfl, moveToBar_passes hb' hsize hc, fun _ => le_rfl, hsame, hinside⟩
  | flush =>
    have hwin : agreement.m_scoreboard.m_winStart < 4096 := by
      rw [hs.tracks.winStart]
      exact Nat.mod_lt _ (by decide)
    have hpasses := hb.passTo hsize (getDistance_lt hwin (Nat.mod_lt start (by decide : 0 < 4096)))
    rw [add_getDistance_mod hwin] at hpasses
    refine ⟨_, _, ps, _, rfl, hpasses, fun hback => ?_, hsame, hinside⟩
    rw [Call.SetsBack, hb.winStartB] at hback
    omega

theorem moved_eq {start' : Nat} (hle : start ≤ start') (hfar : start' ≤ start + 2048) :
    (start : Int) + moved (start % 4096) (start' % 4096) = start' := by
  rw [moved, getDistance_mod hle (by omega)]
  show (start : Int) + (if start' - start ≤ 2048 then _ else _) = _
  rw [if_pos (by omega)]
  omega

/-- The numbers of MPDUs that are passed. -/
theorem map_numbers (h : Sequenced start (start + 4096) ps ms) :
    (ps.map Prod.snd).map (fun m => (start : Int) + getDistance m.m_seqSeq (start % 4096)) =
      ps.map fun p => (p.1 : Int) := by
  rw [List.map_map]
  refine List.map_congr_left fun p hp => ?_
  obtain ⟨hle, hlt⟩ := h.inside p hp
  show (start : Int) + getDistance p.2.m_seqSeq (start % 4096) = p.1
  rw [h.seqs p hp, getDistance_mod hle hlt]
  omega

/-- Over calls, the numbers of the MPDUs that are passed increase, and an MPDU that is stored is passed or stays. -/
theorem calls_passes {sb : Scoreboard} {ht : Bool} (hb : Buffered size start ps agreement)
    (hs : Scored size ht agreement sb) (hpos : 1 ≤ size) (hsize : size ≤ 256) {cs : List (Call Packet)}
    (hcs : ∀ c ∈ cs, c.Valid) (hproper : Proper agreement cs) :
    ∃ passed agreement', agreement.calls cs = some (passed, agreement') ∧
      (∃ start' ps', Buffered size start' ps' agreement') ∧
      (numbers start agreement cs).Pairwise (· < ·) ∧ (∀ k ∈ numbers start agreement cs, (start : Int) ≤ k) ∧
      (passed ++ agreement'.m_bufferedMpdus).Perm (storedAll agreement cs ++ agreement.m_bufferedMpdus) := by
  induction cs generalizing agreement start ps sb with
  | nil => exact ⟨[], agreement, rfl, ⟨start, ps, hb⟩, List.Pairwise.nil, (fun _ hk => nomatch hk), List.Perm.refl _⟩
  | cons c cs ih =>
    obtain ⟨hc, hcs⟩ := List.forall_mem_cons.mp hcs
    obtain ⟨hextends, hlast, hrest⟩ := hproper
    obtain ⟨passed, agreement₁, ps', last, hcall, hpasses, hnear, hperm, hps'⟩ := call_passes hb hs hpos hsize hc hextends
    obtain ⟨ps₁, ps₂, start₁, rfl, hpassed, hb₁, hle, hmax, hlt⟩ := hpasses
    obtain rfl : passed = ps₁.map Prod.snd := hpassed
    -- the numbers of the MPDUs that the call passes
    have hps₁ : Sequenced start (start + 4096) ps₁ (ps₁.map Prod.snd) :=
      ⟨rfl, fun p hp => hps'.seqs p (List.mem_append_left _ hp), (List.pairwise_append.mp hps'.increasing).1,
        fun p hp => hps'.inside p (List.mem_append_left _ hp)⟩
    have hnumbers : (ps₁.map fun p => (p.1 : Int)).Pairwise (· < ·) :=
      List.pairwise_map.mpr (hps₁.increasing.imp fun h => Int.ofNat_lt.mpr h)
    have hrange : ∀ k ∈ ps₁.map (fun p => (p.1 : Int)), (start : Int) ≤ k ∧ k < start₁ := by
      intro k hk
      obtain ⟨p, hp, rfl⟩ := List.mem_map.mp hk
      exact ⟨Int.ofNat_le.mpr (hps₁.inside p hp).1, Int.ofNat_lt.mpr (hlt p hp)⟩
    have hbuffered : agreement₁.m_bufferedMpdus = ps₂.map Prod.snd := hb₁.sequenced.mpdus
    rw [List.map_append] at hperm
    simp only [calls, numbers, storedAll, hcall, hb.winStartB, map_numbers hps₁, Option.bind_eq_bind, Option.bind_some]
    by_cases hback : c.SetsBack agreement
    · obtain rfl := hlast hback
      refine ⟨_, _, rfl, ⟨start₁, ps₂, hb₁⟩, ?_, fun k hk => ?_, ?_⟩
      · rw [numbers, List.append_nil]
        exact hnumbers
      · rw [numbers, List.append_nil] at hk
        exact (hrange k hk).1
      · rw [storedAll, List.append_nil, List.append_nil, hbuffered]
        exact hperm
    · obtain ⟨passed', agreement', hcall', hs₁⟩ := hs.call hsize hc
      obtain ⟨rfl, rfl⟩ := Prod.mk.inj (Option.some.inj (hcall.symm.trans hcall'))
      obtain ⟨passed', agreement', hcalls, hfinal, hincreasing, hfrom, hperm'⟩ := ih hb₁ hs₁ hcs (hrest _ _ hcall)
      rw [hb₁.winStartB, moved_eq hle (hmax.trans (hnear hback)), hcalls]
      refine ⟨_, _, rfl, hfinal, ?_, fun k hk => ?_, ?_⟩
      · exact List.pairwise_append.mpr ⟨hnumbers, hincreasing, fun k hk l hl => (hrange k hk).2.trans_le (hfrom l hl)⟩
      · obtain hk | hk := List.mem_append.mp hk
        · exact (hrange k hk).1
        · exact (Int.ofNat_le.mpr hle).trans (hfrom k hk)
      · rw [hbuffered] at hperm'
        rw [List.append_assoc, List.append_assoc]
        have hmove := (hperm'.append_left (ps₁.map Prod.snd)).trans (List.perm_append_comm_assoc _ _ _)
        exact hmove.trans ((hperm.append_left _).trans (List.perm_append_comm_assoc _ _ _))

/-- The start of the window is a sequence number; what is buffered is inside the window, but not at its start. -/
theorem Buffered.inside (h : Buffered size start ps agreement) (hsize : size ≤ 256) :
    agreement.m_winStartB < 4096 ∧ ∀ m ∈ agreement.m_bufferedMpdus,
      getDistance m.m_seqSeq agreement.m_winStartB < agreement.m_winSizeB ∧ m.m_seqSeq ≠ agreement.m_winStartB := by
  rw [h.winStartB, h.winSizeB]
  refine ⟨Nat.mod_lt _ (by decide), fun m hm => ?_⟩
  rw [h.sequenced.mpdus] at hm
  obtain ⟨p, hp, rfl⟩ := List.mem_map.mp hm
  obtain ⟨hlo, hhi⟩ := h.sequenced.inside p hp
  rw [h.sequenced.seqs p hp, getDistance_mod (by omega) (by omega)]
  omega

/-- Whatever is called, as long as no start wraps and nothing comes after the window was set back: the start of the
window stays a sequence number, the MPDUs that are buffered are inside the window but not at its start, the
numbers of those that were passed increase, and these and the buffered ones are those that were stored. -/
theorem reordering (startingSeq bufferSize : Nat) (htSupported : Bool) (cs : List (Call Packet))
    (hstart : startingSeq < 4096) (hpos : 1 ≤ bufferSize) (hsize : bufferSize ≤ 256) (hcs : ∀ c ∈ cs, c.Valid)
    (hproper : Proper (create bufferSize startingSeq htSupported) cs) :
    ∃ passed agreement, (create bufferSize startingSeq htSupported).calls cs = some (passed, agreement) ∧
      agreement.m_winStartB < 4096 ∧
      (∀ m ∈ agreement.m_bufferedMpdus, getDistance m.m_seqSeq agreement.m_winStartB < agreement.m_winSizeB ∧
        m.m_seqSeq ≠ agreement.m_winStartB) ∧
      (numbers startingSeq (create bufferSize startingSeq htSupported) cs).Pairwise (· < ·) ∧
      (passed ++ agreement.m_bufferedMpdus).Perm (storedAll (create bufferSize startingSeq htSupported) cs) := by
  have hb : Buffered bufferSize startingSeq [] (create bufferSize startingSeq htSupported : RecipientBlockAckAgreement Packet) :=
    ⟨(Nat.mod_eq_of_lt hstart).symm, rfl, .nil⟩
  obtain ⟨passed, agreement, hcalls, ⟨start', ps', hfinal⟩, hincreasing, -, hperm⟩ :=
    calls_passes hb (scored_create hstart hpos) hpos hsize hcs hproper
  obtain ⟨hlt, hinside⟩ := hfinal.inside hsize
  refine ⟨passed, agreement, hcalls, hlt, hinside, hincreasing, hperm.trans ?_⟩
  show (_ ++ []).Perm _
  rw [List.append_nil]

theorem reordering_two : ∃ passed agreement,
    (create 8 4090 true).calls [.mpdu ⟨4092, ()⟩, .bar 4091] = some (passed, agreement) ∧
      agreement.m_winStartB < 4096 ∧
      (∀ m ∈ agreement.m_bufferedMpdus, getDistance m.m_seqSeq agreement.m_winStartB < agreement.m_winSizeB ∧
        m.m_seqSeq ≠ agreement.m_winStartB) ∧
      (numbers 4090 (create 8 4090 true) [.mpdu ⟨4092, ()⟩, .bar 4091]).Pairwise (· < ·) ∧
      (passed ++ agreement.m_bufferedMpdus).Perm (storedAll (create 8 4090 true) [.mpdu ⟨4092, ()⟩, .bar 4091]) :=
  reordering 4090 8 true [.mpdu ⟨4092, ()⟩, .bar 4091] (by decide) (by decide) (by decide)
    (List.forall_mem_cons.mpr ⟨(by decide : 4092 < 4096), List.forall_mem_cons.mpr ⟨(by decide : 4091 < 4096),
      fun _ hc => nomatch hc⟩⟩)
    ⟨.inl (by decide), (fun h => h.elim), fun _ _ _ => ⟨trivial, (fun h => h.elim), fun _ _ _ => trivial⟩⟩

/-- An MPDU behind the window, whose sequence number has wrapped, leaves a start of the window that is not a sequence
number; and after a `Flush` has set the window back, an MPDU is passed again. -/
theorem not_reordering_wrap :
    (∃ passed agreement, (create 64 4000 true).calls [.mpdu ⟨10, ()⟩] = some (passed, agreement) ∧
      agreement.m_winStartB = 65483 ∧ ¬ agreement.m_winStartB < 4096) ∧
    numbers 0 (create 64 0 true) [.mpdu ⟨0, ()⟩, .flush, .mpdu ⟨0, ()⟩] = [0, 0] :=
  ⟨⟨_, _, rfl, rfl, by decide⟩, by decide⟩

end Ns3.Wifi.RecipientBlockAckAgreement
