import Ns3.Fec.Agent

/-!
# Rate control on ACKs of recovered packets

The receiver acknowledges a recovered packet with an ACK tagged type 6 that carries the
packet's round id. `ReceivedAck` hands such an ACK to `ProcessAckofRecoveredPacket`,
which lowers the window, when its round is new. The round id is 32 bits wide in the tag
and in `rec_rid_`, and 8 bits wide in the local variable between them.
Source: `src/internet/model/tcp-socket-base.cc:1805–1916,3346–3480`.
-/

namespace Ns3.Tcp
open Ns3.Fec

/-- What `ReceivedAck` reads of a sending socket. -/
structure AckSocket where
  rec_rid_ : UInt32 := 1
  m_nodeId : UInt32
  m_fec : FecAgent

/-- One call of `ReceivedAck`. `untagged` is the type the local `FecTag` happens to hold
when the packet has no tag: its constructor leaves `m_type` unset. -/
structure Ack where
  ackNumber : UInt32
  oldHeadSequence : UInt32
  packet : Packet
  untagged : UInt8 := 0

/-- Where `ReceivedAck` takes an ACK. -/
inductive AckBranch where
  | stale
  | processAckofRecoveredPacket
  | processAck
  deriving DecidableEq, Repr

/-- The packet of `CreateAckPacket`, `tcp-socket-base.cc:3454–3463`. -/
def createAckPacket (roundId : UInt32) : Packet :=
  ({} : Packet).addPacketTag { m_type := 6, m_roundId := roundId }

/-- `ReceivedAck`, `tcp-socket-base.cc:1805–1916`, up to the branch taken. -/
def receivedAck (s : AckSocket) (ack : Ack) : AckSocket × AckBranch :=
  if seqLt ack.ackNumber ack.oldHeadSequence then (s, .stale)
  else
    let own := s.m_fec.m_fwin ≠ 0 ∧ s.m_nodeId = s.m_fec.m_srcId
    let tag := ack.packet.peekPacketTag { m_type := ack.untagged }
    let type : UInt8 := if own then tag.m_type else 0
    let rid : UInt8 := if own then tag.m_roundId.toUInt8 else 0
    if s.m_fec.m_fwin ≠ 0 ∧ type = 6 ∧ s.rec_rid_ < rid.toUInt32 ∧
        s.m_fec.m_rateControlValue < 1 then
      ({ s with rec_rid_ := rid.toUInt32 }, .processAckofRecoveredPacket)
    else (s, .processAck)

/-- The branches taken by a run of ACKs. -/
def receivedAcks (s : AckSocket) : List Ack → List AckBranch
  | [] => []
  | ack :: acks => (receivedAck s ack).2 :: receivedAcks (receivedAck s ack).1 acks

/-- The round an ACK reports as recovered. -/
def Ack.recoveredRound (ack : Ack) : Option UInt32 :=
  match ack.packet.tag with
  | some tag => if tag.m_type = 6 then some tag.m_roundId else none
  | none => none

/-- ACK `i` is the first of its round, and the round is greater than `high` and than all
rounds before. -/
def NewRound (high : UInt32) (acks : List Ack) (i : Nat) : Prop :=
  ∃ rid, acks[i]?.bind Ack.recoveredRound = some rid ∧ high < rid ∧
    ∀ j < i, ∀ rid', acks[j]?.bind Ack.recoveredRound = some rid' → rid' < rid

/-- Rate control reacts to the first ACK of each new round, and to nothing else. -/
def ReactsOncePerRound (s : AckSocket) (high : UInt32) (acks : List Ack) : Prop :=
  ∀ i, (receivedAcks s acks)[i]? = some .processAckofRecoveredPacket ↔ NewRound high acks i

/-- The new rounds of a run of ACKs, in order. -/
def newRounds (high : UInt32) : List Ack → List UInt32
  | [] => []
  | ack :: acks =>
    match ack.recoveredRound with
    | some rid => if high < rid then rid :: newRounds rid acks else newRounds high acks
    | none => newRounds high acks

/-- The sending socket has FEC and rate control on. -/
structure RateControlled (s : AckSocket) : Prop where
  fwin : s.m_fec.m_fwin ≠ 0
  src : s.m_nodeId = s.m_fec.m_srcId
  rate : s.m_fec.m_rateControlValue < 1

/-- The guard sees the low byte of the round id only. -/
theorem receivedAck_eq {s : AckSocket} (hs : RateControlled s) {ack : Ack}
    (hwin : ¬ seqLt ack.ackNumber ack.oldHeadSequence) :
    receivedAck s ack =
      match ack.recoveredRound with
      | some rid =>
        if s.rec_rid_ < rid.toUInt8.toUInt32 then
          ({ s with rec_rid_ := rid.toUInt8.toUInt32 }, .processAckofRecoveredPacket)
        else (s, .processAck)
      | none => (s, .processAck) := by
  have hrate := hs.rate
  rw [receivedAck, if_neg hwin]
  simp only [hs.fwin, hs.src, ne_eq, not_false_eq_true, true_and, if_true, hrate, and_true,
    Ack.recoveredRound, Packet.peekPacketTag]
  cases ack.packet.tag with
  | none =>
    -- an untagged packet may look like type 6, but never with a round id above 0
    simp
  | some tag =>
    by_cases htype : tag.m_type = 6
    · simp [htype]
    · simp [htype]

private theorem newRound_zero (high : UInt32) (ack : Ack) (acks : List Ack) :
    NewRound high (ack :: acks) 0 ↔ ∃ rid, ack.recoveredRound = some rid ∧ high < rid := by
  simp [NewRound]

private theorem newRound_succ_of_none {ack : Ack} (h : ack.recoveredRound = none)
    (high : UInt32) (acks : List Ack) (i : Nat) :
    NewRound high (ack :: acks) (i + 1) ↔ NewRound high acks i := by
  constructor
  · rintro ⟨rid, hi, hlt, hj⟩
    refine ⟨rid, by simpa using hi, hlt, ?_⟩
    intro j hji rid' hr
    exact hj (j + 1) (by omega) rid' (by simpa using hr)
  · rintro ⟨rid, hi, hlt, hj⟩
    refine ⟨rid, by simpa using hi, hlt, ?_⟩
    intro j hji rid' hr
    cases j with
    | zero => simp [h] at hr
    | succ j => exact hj j (by omega) rid' (by simpa using hr)

private theorem newRound_succ_of_some {ack : Ack} {r : UInt32} (h : ack.recoveredRound = some r)
    (high : UInt32) (acks : List Ack) (i : Nat) :
    NewRound high (ack :: acks) (i + 1) ↔ NewRound (if high < r then r else high) acks i := by
  constructor
  · rintro ⟨rid, hi, hlt, hj⟩
    have hr : r < rid := hj 0 (by omega) r (by simpa using h)
    refine ⟨rid, by simpa using hi, by split <;> assumption, ?_⟩
    intro j hji rid' hr'
    exact hj (j + 1) (by omega) rid' (by simpa using hr')
  · rintro ⟨rid, hi, hlt, hj⟩
    have hlt' : high < rid ∧ r < rid := by
      split at hlt
      · exact ⟨by grind, hlt⟩
      · exact ⟨hlt, by grind⟩
    refine ⟨rid, by simpa using hi, hlt'.1, ?_⟩
    intro j hji rid' hr'
    cases j with
    | zero =>
      have : rid' = r := by simpa [h, eq_comm] using hr'
      rw [this]
      exact hlt'.2
    | succ j => exact hj j (by omega) rid' (by simpa using hr')

private theorem forall_index_iff {p q : Nat → Prop} :
    (∀ i, p i ↔ q i) ↔ (p 0 ↔ q 0) ∧ ∀ i, p (i + 1) ↔ q (i + 1) := by
  constructor
  · intro h
    exact ⟨h 0, fun i => h (i + 1)⟩
  · rintro ⟨h0, hs⟩ i
    cases i with
    | zero => exact h0
    | succ i => exact hs i

private theorem reacts_iff {s : AckSocket} (hs : RateControlled s) (high : UInt32)
    (hrec : s.rec_rid_ = high.toUInt8.toUInt32) (acks : List Ack)
    (hwin : ∀ ack ∈ acks, ¬ seqLt ack.ackNumber ack.oldHeadSequence)
    (hmono : (acks.filterMap Ack.recoveredRound).Pairwise (· ≤ ·))
    (hhigh : ∀ rid ∈ acks.filterMap Ack.recoveredRound, high ≤ rid ∨ high = 1) :
    ReactsOncePerRound s high acks ↔
      (high :: newRounds high acks).IsChain fun r r' => r.toUInt8 < r'.toUInt8 := by
  induction acks generalizing s high with
  | nil => simp [ReactsOncePerRound, receivedAcks, newRounds, NewRound]
  | cons ack acks ih =>
    have hack := receivedAck_eq hs (hwin ack (by simp))
    have hwin' : ∀ ack ∈ acks, ¬ seqLt ack.ackNumber ack.oldHeadSequence :=
      fun a ha => hwin a (by simp [ha])
    rw [ReactsOncePerRound, forall_index_iff]
    simp only [receivedAcks, List.getElem?_cons_zero, List.getElem?_cons_succ,
      Option.some.injEq, newRound_zero]
    cases hr : ack.recoveredRound with
    | none =>
      simp only [hr] at hack
      rw [List.filterMap_cons_none hr] at hmono hhigh
      simp only [hack, newRound_succ_of_none hr, newRounds, hr, reduceCtorEq, false_and,
        exists_false, iff_self, true_and]
      exact ih hs high hrec hwin' hmono hhigh
    | some r =>
      simp only [hr] at hack
      rw [List.filterMap_cons_some hr] at hmono hhigh
      obtain ⟨hle, hmono'⟩ := List.pairwise_cons.mp hmono
      have hkey : s.rec_rid_ < r.toUInt8.toUInt32 ↔ high.toUInt8 < r.toUInt8 := by
        rw [hrec]
        simp [UInt32.lt_iff_toNat_lt, UInt8.lt_iff_toNat_lt]
      simp only [newRound_succ_of_some hr, newRounds, hr, Option.some.injEq, exists_eq_left']
      by_cases hnew : high < r
      · simp only [hnew, if_true, iff_true, List.isChain_cons_cons]
        by_cases hlow : high.toUInt8 < r.toUInt8
        · simp only [hack, hkey.mpr hlow, if_true, hlow, true_and]
          exact ih (s := { s with rec_rid_ := r.toUInt8.toUInt32 }) ⟨hs.fwin, hs.src, hs.rate⟩ r
            rfl hwin' hmono' (fun rid hrid => .inl (hle rid hrid))
        · rw [if_neg (mt hkey.mp hlow)] at hack
          simp [hack, hlow]
      · have hlow : ¬ high.toUInt8 < r.toUInt8 := by
          rcases hhigh r (by simp) with h | h
          · have : r = high := by grind
            rw [this]
            exact UInt8.lt_irrefl _
          · have hr01 : r = 0 ∨ r = 1 := by
              rw [h] at hnew
              grind
            rcases hr01 with rfl | rfl <;> rw [h] <;> decide
        simp only [hack, mt hkey.mp hlow, if_false, hnew, reduceCtorEq, iff_self, true_and]
        exact ih hs high hrec hwin' hmono' (fun rid hrid => hhigh rid (by simp [hrid]))

/-- Rate control reacts once per recovered round exactly when the low byte of each new
round id is greater than the low byte of the new round id before it, the first being
compared with 1. -/
theorem reactsOncePerRound_iff (s : AckSocket) (hs : RateControlled s) (hrec : s.rec_rid_ = 1)
    (acks : List Ack) (hwin : ∀ ack ∈ acks, ¬ seqLt ack.ackNumber ack.oldHeadSequence)
    (hmono : (acks.filterMap Ack.recoveredRound).Pairwise (· ≤ ·)) :
    ReactsOncePerRound s 1 acks ↔
      (1 :: newRounds 1 acks).IsChain fun r r' => r.toUInt8 < r'.toUInt8 :=
  reacts_iff hs 1 hrec acks hwin hmono (fun _ _ => .inr rfl)

/-- A sender of node 0 with FEC on and rate control value 0. -/
def rateControlledSocket : AckSocket :=
  { m_nodeId := 0, m_fec := { m_fwin := 1, m_rateControlValue := 0 } }

/-- In-window ACKs for the given rounds. -/
def acksOf (rounds : List UInt32) : List Ack :=
  rounds.map fun rid => ⟨0, 0, createAckPacket rid, 0⟩

private theorem rateControlled_rateControlledSocket : RateControlled rateControlledSocket :=
  ⟨by decide, rfl, by decide⟩

/-- Three ACKs of two rounds below 256. -/
theorem reactsOncePerRound_two_three :
    ReactsOncePerRound rateControlledSocket 1 (acksOf [2, 2, 3]) :=
  (reactsOncePerRound_iff rateControlledSocket rateControlled_rateControlledSocket rfl
    (acksOf [2, 2, 3]) (by decide) (by decide)).mpr (by decide)

/-- Round 256 looks like round 0: its first ACK is taken for an old one. -/
theorem not_reactsOncePerRound_256 :
    RateControlled rateControlledSocket ∧ rateControlledSocket.rec_rid_ = 1 ∧
      (∀ ack ∈ acksOf [255, 256], ¬ seqLt ack.ackNumber ack.oldHeadSequence) ∧
      ((acksOf [255, 256]).filterMap Ack.recoveredRound).Pairwise (· ≤ ·) ∧
      ¬ ReactsOncePerRound rateControlledSocket 1 (acksOf [255, 256]) := by
  have hwin : ∀ ack ∈ acksOf [255, 256], ¬ seqLt ack.ackNumber ack.oldHeadSequence := by decide
  have hmono : ((acksOf [255, 256]).filterMap Ack.recoveredRound).Pairwise (· ≤ ·) := by decide
  refine ⟨rateControlled_rateControlledSocket, rfl, hwin, hmono, ?_⟩
  intro h
  have hchain := (reacts_iff rateControlled_rateControlledSocket 1 rfl (acksOf [255, 256]) hwin
    hmono (fun _ _ => .inr rfl)).mp h
  revert hchain
  decide

end Ns3.Tcp
