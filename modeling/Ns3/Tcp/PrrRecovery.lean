import Mathlib.Algebra.Order.Floor.Ring
import Mathlib.Data.Int.Bitwise
import Mathlib.Data.Rat.Floor
import Mathlib.Order.Lattice
import Mathlib.Tactic.Positivity
import Mathlib.Tactic.SplitIfs

/-!
# Proportional rate reduction

`TcpPrrRecovery` counts the bytes delivered and sent since the recovery was entered in `uint32_t`
members, and computes the window from their product with the slow start threshold, from their
difference, and from conversions to `int`. The doubles are exact. Source:
`src/internet/model/tcp-prr-recovery.cc`.
-/

namespace Ns3.Tcp

/-- `ReductionBound_t`. -/
inductive ReductionBound where
  | CRB
  | SSRB
  deriving DecidableEq, Repr

/-- The members of `TcpSocketState` that a recovery reads and writes. -/
structure TcpSocketState where
  m_cWnd : UInt32 := 0
  m_cWndInfl : UInt32 := 0
  m_ssThresh : UInt32 := 0
  m_segmentSize : UInt32 := 0
  m_bytesInFlight : UInt32 := 0
  m_isRetransDataAcked : Bool := false
  deriving DecidableEq, Repr

structure TcpPrrRecovery where
  m_prrDelivered : UInt32 := 0
  m_prrOut : UInt32 := 0
  m_recoveryFlightSize : UInt32 := 0
  m_reductionBoundMode : ReductionBound := .SSRB
  deriving DecidableEq, Repr

/-- A `uint32_t` converted to `int`. -/
def int (x : UInt32) : ℤ := if x.toNat < 2 ^ 31 then x.toNat else x.toNat - 2 ^ 32

/-- A real without a fractional part converted to `int`, which is undefined outside its range. -/
def realToInt (x : ℤ) : Option ℤ := if -2 ^ 31 ≤ x ∧ x < 2 ^ 31 then some x else none

namespace TcpPrrRecovery

/-- The bytes to send, before the fast retransmit is forced. -/
def sendCount (s : TcpPrrRecovery) (tcb : TcpSocketState) (deliveredBytes : UInt32) : Option ℤ :=
  if tcb.m_bytesInFlight > tcb.m_ssThresh then
    -- a real divided by zero converts to no `int`
    if s.m_recoveryFlightSize = 0 then none
    else realToInt (⌈((s.m_prrDelivered * tcb.m_ssThresh).toNat : ℚ) / s.m_recoveryFlightSize.toNat⌉ -
      s.m_prrOut.toNat)
  else
    let limit := match s.m_reductionBoundMode with
      | .CRB => int (s.m_prrDelivered - s.m_prrOut)
      | .SSRB =>
        if tcb.m_isRetransDataAcked then
          int (max (s.m_prrDelivered - s.m_prrOut) deliveredBytes + tcb.m_segmentSize)
        else int deliveredBytes
    some (min limit (int (tcb.m_ssThresh - tcb.m_bytesInFlight)))

def doRecovery (s : TcpPrrRecovery) (tcb : TcpSocketState) (deliveredBytes : UInt32) :
    Option (TcpPrrRecovery × TcpSocketState) :=
  let s := { s with m_prrDelivered := s.m_prrDelivered + deliveredBytes }
  (s.sendCount tcb deliveredBytes).map fun sendCount =>
    -- a fast retransmit is forced upon entering the recovery
    let sendCount := max sendCount (int (if s.m_prrOut > 0 then 0 else tcb.m_segmentSize))
    let cWnd := tcb.m_bytesInFlight + UInt32.ofInt sendCount
    (s, { tcb with m_cWnd := cWnd, m_cWndInfl := cWnd })

def enterRecovery (s : TcpPrrRecovery) (tcb : TcpSocketState) (_dupAckCount unAckDataCount : UInt32)
    (deliveredBytes : UInt32) : Option (TcpPrrRecovery × TcpSocketState) :=
  { s with m_prrOut := 0, m_prrDelivered := 0, m_recoveryFlightSize := unAckDataCount }.doRecovery
    tcb deliveredBytes

def updateBytesSent (s : TcpPrrRecovery) (bytesSent : UInt32) : TcpPrrRecovery :=
  { s with m_prrOut := s.m_prrOut + bytesSent }

end TcpPrrRecovery

/-- The calls a socket makes. Between them it changes its state as it likes. -/
inductive RecoveryCall where
  | enterRecovery (tcb : TcpSocketState) (dupAckCount unAckDataCount deliveredBytes : UInt32)
  | doRecovery (tcb : TcpSocketState) (deliveredBytes : UInt32)
  | updateBytesSent (bytesSent : UInt32)

/-- What has happened since the recovery was entered, in integers. -/
structure Progress where
  delivered : ℕ := 0
  out : ℕ := 0
  flightSize : ℕ := 0

def Progress.after (p : Progress) : RecoveryCall → Progress
  | .enterRecovery _ _ unAckDataCount deliveredBytes => ⟨deliveredBytes.toNat, 0, unAckDataCount.toNat⟩
  | .doRecovery _ deliveredBytes => { p with delivered := p.delivered + deliveredBytes.toNat }
  | .updateBytesSent bytesSent => { p with out := p.out + bytesSent.toNat }

namespace Progress

variable (p : Progress) (mode : ReductionBound) (tcb : TcpSocketState) (deliveredBytes : UInt32)

/-- A segment is sent at once when nothing has been. -/
def atLeast : ℤ := if 0 < p.out then 0 else tcb.m_segmentSize.toNat

/-- The bytes of the flight that the reduction allows for. -/
def share : ℤ := ⌈((p.delivered * tcb.m_ssThresh.toNat : ℕ) : ℚ) / p.flightSize⌉

def room : ℤ := tcb.m_ssThresh.toNat - tcb.m_bytesInFlight.toNat

/-- The bytes to send over the integers. -/
def sendCount : ℤ :=
  if tcb.m_bytesInFlight.toNat > tcb.m_ssThresh.toNat then p.share tcb - p.out
  else
    let limit : ℤ := match mode with
      | .CRB => p.delivered - p.out
      | .SSRB =>
        if tcb.m_isRetransDataAcked then
          max ((p.delivered : ℤ) - p.out) deliveredBytes.toNat + tcb.m_segmentSize.toNat
        else deliveredBytes.toNat
    min limit (room tcb)

/-- The products, differences and conversions of the code come out as over the integers, or what
is lost does not reach the window. -/
def Exact : Prop :=
  if tcb.m_bytesInFlight.toNat > tcb.m_ssThresh.toNat then
    (p.delivered * tcb.m_ssThresh.toNat < 2 ^ 32 ∧ p.share tcb - p.out < 2 ^ 31) ∨
      p.share tcb - p.out ≤ p.atLeast tcb
  else mode = .SSRB → tcb.m_isRetransDataAcked = true →
    if p.out ≤ p.delivered then
      max ((p.delivered : ℤ) - p.out) deliveredBytes.toNat + tcb.m_segmentSize.toNat < 2 ^ 31 ∨
        room tcb ≤ p.atLeast tcb
    else room tcb ≤ max 0 ((p.delivered : ℤ) - p.out + tcb.m_segmentSize.toNat) ∨
      deliveredBytes.toNat + tcb.m_segmentSize.toNat = 0

end Progress

/-- `P` holds of what has happened after each call. -/
def EachCall (P : Progress → RecoveryCall → Prop) : Progress → List RecoveryCall → Prop
  | _, [] => True
  | p, c :: cs => P (p.after c) c ∧ EachCall P (p.after c) cs

/-- The byte counts of a socket are below `2 ^ 31`. -/
structure TcpSocketState.Small (tcb : TcpSocketState) : Prop where
  ssThresh : tcb.m_ssThresh.toNat < 2 ^ 31
  segmentSize : tcb.m_segmentSize.toNat < 2 ^ 31
  bytesInFlight : tcb.m_bytesInFlight.toNat < 2 ^ 31

/-- So are the sums since the recovery was entered. -/
structure Progress.Small (p : Progress) : Prop where
  delivered : p.delivered < 2 ^ 31
  out : p.out < 2 ^ 31
  flightSize : p.flightSize < 2 ^ 31
  pos : 0 < p.flightSize

def RecoveryCall.Small (p : Progress) : RecoveryCall → Prop
  | .enterRecovery tcb _ _ _ => p.Small ∧ tcb.Small
  | .doRecovery tcb _ => p.Small ∧ tcb.Small
  | .updateBytesSent _ => p.Small

def RecoveryCall.Exact (mode : ReductionBound) (p : Progress) : RecoveryCall → Prop
  | .enterRecovery tcb _ _ deliveredBytes => p.Exact mode tcb deliveredBytes
  | .doRecovery tcb deliveredBytes => p.Exact mode tcb deliveredBytes
  | .updateBytesSent _ => True

namespace TcpPrrRecovery

/-- The members count what has happened. -/
structure Counts (s : TcpPrrRecovery) (p : Progress) : Prop where
  delivered : s.m_prrDelivered.toNat = p.delivered
  out : s.m_prrOut.toNat = p.out
  flightSize : s.m_recoveryFlightSize.toNat = p.flightSize

/-- The window that is prescribed: above the bytes in flight, what is sent over the integers. -/
def Prescribed (p : Progress) (mode : ReductionBound) (tcb : TcpSocketState) (deliveredBytes : UInt32)
    (tcb' : TcpSocketState) : Prop :=
  (tcb'.m_cWnd.toNat : ℤ) - tcb.m_bytesInFlight.toNat =
    max (p.sendCount mode tcb deliveredBytes) (p.atLeast tcb)

/-- Each recovery of a run leaves the window that is prescribed. -/
def Follows : Progress → TcpPrrRecovery → List RecoveryCall → Prop
  | _, _, [] => True
  | p, s, .updateBytesSent bytesSent :: cs =>
    Follows (p.after (.updateBytesSent bytesSent)) (s.updateBytesSent bytesSent) cs
  | p, s, .doRecovery tcb deliveredBytes :: cs =>
    let p := p.after (.doRecovery tcb deliveredBytes)
    ∃ s' tcb', s.doRecovery tcb deliveredBytes = some (s', tcb') ∧
      Prescribed p s.m_reductionBoundMode tcb deliveredBytes tcb' ∧ Follows p s' cs
  | p, s, .enterRecovery tcb dupAckCount unAckDataCount deliveredBytes :: cs =>
    let p := p.after (.enterRecovery tcb dupAckCount unAckDataCount deliveredBytes)
    ∃ s' tcb', s.enterRecovery tcb dupAckCount unAckDataCount deliveredBytes = some (s', tcb') ∧
      Prescribed p s.m_reductionBoundMode tcb deliveredBytes tcb' ∧ Follows p s' cs

/-! ### Machine words against integers -/

theorem int_of_lt {x : UInt32} (h : x.toNat < 2 ^ 31) : int x = x.toNat := if_pos h

theorem int_lt (x : UInt32) : int x < 2 ^ 31 := by
  have hx := x.toNat_lt
  unfold int
  split <;> omega

/-- The difference of two counts, as an `int`. -/
theorem int_sub {x y : UInt32} (hx : x.toNat < 2 ^ 31) (hy : y.toNat < 2 ^ 31) :
    int (x - y) = x.toNat - y.toNat := by
  have hsub := UInt32.toNat_sub x y
  unfold int
  split <;> omega

theorem realToInt_eq_some {x c : ℤ} : realToInt x = some c ↔ (-2 ^ 31 ≤ x ∧ x < 2 ^ 31) ∧ x = c := by
  unfold realToInt
  rw [Option.ite_none_right_eq_some, Option.some.injEq]

/-- A product taken modulo `2 ^ 32` loses more than the rounding of the quotient. -/
theorem ceil_mod_lt {n F : ℕ} (hF : 0 < F) (hF' : F < 2 ^ 32) (hn : 2 ^ 32 ≤ n) :
    ⌈((n % 2 ^ 32 : ℕ) : ℚ) / F⌉ < ⌈(n : ℚ) / F⌉ := by
  have hpos : (0 : ℚ) < F := by exact_mod_cast hF
  have hadd : n % 2 ^ 32 + F ≤ n := by omega
  have hle : ((n % 2 ^ 32 : ℕ) : ℚ) / F + 1 ≤ (n : ℚ) / F := by
    rw [div_add_one hpos.ne']
    exact div_le_div_of_nonneg_right (by exact_mod_cast hadd) hpos.le
  have hceil := Int.ceil_le_ceil hle
  rw [Int.ceil_add_one] at hceil
  omega

section Step

variable {s : TcpPrrRecovery} {p : Progress} {tcb : TcpSocketState} {deliveredBytes : UInt32}

theorem atLeast_lt (p : Progress) (htcb : tcb.Small) : 0 ≤ p.atLeast tcb ∧ p.atLeast tcb < 2 ^ 31 := by
  have hsegment := htcb.segmentSize
  unfold Progress.atLeast
  split <;> omega

/-- Above the threshold the product has to fit, or to be too small to matter. -/
theorem sendCount_above (hs : s.Counts p) (hp : p.Small) (htcb : tcb.Small)
    (habove : tcb.m_bytesInFlight > tcb.m_ssThresh) :
    (∃ c, s.sendCount tcb deliveredBytes = some c ∧
        max c (p.atLeast tcb) = max (p.share tcb - p.out) (p.atLeast tcb)) ↔
      (p.delivered * tcb.m_ssThresh.toNat < 2 ^ 32 ∧ p.share tcb - p.out < 2 ^ 31) ∨
        p.share tcb - p.out ≤ p.atLeast tcb := by
  have hflight : s.m_recoveryFlightSize ≠ 0 := by
    intro h
    have hpos := hp.pos
    rw [← hs.flightSize, h] at hpos
    exact absurd hpos (by decide)
  have hsend : s.sendCount tcb deliveredBytes =
      realToInt (⌈((p.delivered * tcb.m_ssThresh.toNat % 2 ^ 32 : ℕ) : ℚ) / p.flightSize⌉ - p.out) := by
    rw [sendCount, if_pos habove, if_neg hflight, UInt32.toNat_mul, hs.delivered, hs.out, hs.flightSize]
  have hfloor := atLeast_lt p htcb
  have hout := hp.out
  have hceil : 0 ≤ ⌈((p.delivered * tcb.m_ssThresh.toNat % 2 ^ 32 : ℕ) : ℚ) / p.flightSize⌉ :=
    Int.ceil_nonneg (by positivity)
  simp only [hsend, realToInt_eq_some, Progress.share]
  by_cases hfit : p.delivered * tcb.m_ssThresh.toNat < 2 ^ 32
  · rw [Nat.mod_eq_of_lt hfit] at hceil ⊢
    constructor
    · rintro ⟨c, ⟨hc, rfl⟩, hmax⟩
      exact .inl ⟨hfit, hc.2⟩
    · intro h
      exact ⟨_, ⟨⟨by omega, by omega⟩, rfl⟩, rfl⟩
  · have hless := ceil_mod_lt hp.pos (Nat.lt_trans hp.flightSize (by decide)) (Nat.le_of_not_lt hfit)
    constructor
    · rintro ⟨c, ⟨hc, rfl⟩, hmax⟩
      omega
    · intro h
      exact ⟨_, ⟨⟨by omega, by omega⟩, rfl⟩, by omega⟩

/-- The limit for retransmitted data that is acknowledged: out of the range of an `int` it is negative, and
so it is when more has been sent than delivered. -/
theorem limit_retransmitted (hs : s.Counts p) (hp : p.Small) (htcb : tcb.Small)
    (hdelivered : deliveredBytes.toNat < 2 ^ 31) :
    int (max (s.m_prrDelivered - s.m_prrOut) deliveredBytes + tcb.m_segmentSize) =
      if p.out ≤ p.delivered then
        let limit : ℤ := max ((p.delivered : ℤ) - p.out) deliveredBytes.toNat + tcb.m_segmentSize.toNat
        if limit < 2 ^ 31 then limit else limit - 2 ^ 32
      else (p.delivered : ℤ) - p.out + tcb.m_segmentSize.toNat := by
  have hsub := UInt32.toNat_sub s.m_prrDelivered s.m_prrOut
  rw [hs.delivered, hs.out] at hsub
  have hmax : (max (s.m_prrDelivered - s.m_prrOut) deliveredBytes).toNat =
      max (s.m_prrDelivered - s.m_prrOut).toNat deliveredBytes.toNat := by
    show (if s.m_prrDelivered - s.m_prrOut ≤ deliveredBytes then _ else _ : UInt32).toNat = _
    rw [max_def]
    simp only [UInt32.le_iff_toNat_le]
    split <;> rfl
  have hadd := UInt32.toNat_add (max (s.m_prrDelivered - s.m_prrOut) deliveredBytes) tcb.m_segmentSize
  rw [hmax] at hadd
  have hp1 := hp.delivered
  have hp2 := hp.out
  have hsegment := htcb.segmentSize
  unfold int
  dsimp only
  split_ifs <;> omega

/-- At or below it the difference of the sums must not be taken for a large count. -/
theorem sendCount_below (hs : s.Counts p) (hp : p.Small) (htcb : tcb.Small)
    (hdelivered : deliveredBytes.toNat < 2 ^ 31) (hbelow : ¬tcb.m_bytesInFlight > tcb.m_ssThresh) :
    (∃ c, s.sendCount tcb deliveredBytes = some c ∧ max c (p.atLeast tcb) =
        max (p.sendCount s.m_reductionBoundMode tcb deliveredBytes) (p.atLeast tcb)) ↔
      p.Exact s.m_reductionBoundMode tcb deliveredBytes := by
  have hroom : int (tcb.m_ssThresh - tcb.m_bytesInFlight) = Progress.room tcb :=
    int_sub htcb.ssThresh htcb.bytesInFlight
  have hleft : int (s.m_prrDelivered - s.m_prrOut) = p.delivered - p.out := by
    rw [int_sub (hs.delivered ▸ hp.delivered) (hs.out ▸ hp.out), hs.delivered, hs.out]
  have hbelow' : ¬tcb.m_bytesInFlight.toNat > tcb.m_ssThresh.toNat :=
    fun h => hbelow (UInt32.lt_iff_toNat_lt.mpr h)
  have hfloor := atLeast_lt p htcb
  unfold sendCount Progress.sendCount Progress.Exact
  rw [if_neg hbelow, if_neg hbelow', if_neg hbelow', hroom, hleft]
  cases s.m_reductionBoundMode with
  | CRB =>
    constructor
    · exact fun _ h => absurd h (by decide)
    · exact fun _ => ⟨_, rfl, rfl⟩
  | SSRB =>
    cases tcb.m_isRetransDataAcked with
    | false =>
      constructor
      · exact fun _ _ h => absurd h (by decide)
      · exact fun _ => ⟨_, rfl, by rw [int_of_lt hdelivered]; rfl⟩
    | true =>
      have hp1 := hp.delivered
      have hp2 := hp.out
      have hsegment := htcb.segmentSize
      have hroom0 : 0 ≤ Progress.room tcb := by
        have hle : tcb.m_bytesInFlight.toNat ≤ tcb.m_ssThresh.toNat := Nat.le_of_not_lt hbelow'
        unfold Progress.room
        omega
      have hroom1 : Progress.room tcb < 2 ^ 31 := hroom ▸ int_lt _
      rw [if_pos rfl, if_pos rfl, limit_retransmitted hs hp htcb hdelivered]
      simp only [Option.some.injEq, exists_eq_left', true_imp_iff]
      by_cases hle : p.out ≤ p.delivered
      · rw [if_pos hle, if_pos hle]
        split <;> omega
      · rw [if_neg hle, if_neg hle]
        have hnone : p.atLeast tcb = 0 := if_pos (by omega)
        omega

theorem sendCount_lt {c : ℤ} (h : s.sendCount tcb deliveredBytes = some c) : c < 2 ^ 31 := by
  unfold sendCount at h
  split at h
  · split at h
    · cases h
    · exact (realToInt_eq_some.mp h).1.2.trans_eq' (realToInt_eq_some.mp h).2
  · have hroom := int_lt (tcb.m_ssThresh - tcb.m_bytesInFlight)
    have hc := Option.some.inj h
    omega

theorem sendCount_exact (hs : s.Counts p) (hp : p.Small) (htcb : tcb.Small)
    (hdelivered : deliveredBytes.toNat < 2 ^ 31) :
    (∃ c, s.sendCount tcb deliveredBytes = some c ∧ max c (p.atLeast tcb) =
        max (p.sendCount s.m_reductionBoundMode tcb deliveredBytes) (p.atLeast tcb)) ↔
      p.Exact s.m_reductionBoundMode tcb deliveredBytes := by
  by_cases habove : tcb.m_bytesInFlight > tcb.m_ssThresh
  · have habove' : tcb.m_bytesInFlight.toNat > tcb.m_ssThresh.toNat := UInt32.lt_iff_toNat_lt.mp habove
    unfold Progress.sendCount Progress.Exact
    rw [if_pos habove', if_pos habove']
    exact sendCount_above hs hp htcb habove
  · exact sendCount_below hs hp htcb hdelivered habove

/-- The window leaves room for what is sent, which is no more than an `int`. -/
theorem window_toNat (hs : s.Counts p) (htcb : tcb.Small) {c : ℤ} (hc : c < 2 ^ 31) :
    ((tcb.m_bytesInFlight + UInt32.ofInt (max c (int (if s.m_prrOut > 0 then 0 else tcb.m_segmentSize)))).toNat : ℤ) -
        tcb.m_bytesInFlight.toNat = max c (p.atLeast tcb) := by
  have hfloor : int (if s.m_prrOut > 0 then 0 else tcb.m_segmentSize) = p.atLeast tcb := by
    unfold Progress.atLeast
    rw [← hs.out]
    by_cases hout : s.m_prrOut > 0
    · rw [if_pos hout, if_pos (show 0 < s.m_prrOut.toNat from UInt32.lt_iff_toNat_lt.mp hout)]
      rfl
    · rw [if_neg hout, int_of_lt htcb.segmentSize,
        if_neg fun h : 0 < s.m_prrOut.toNat => hout (UInt32.lt_iff_toNat_lt.mpr h)]
  obtain ⟨hfloor0, hfloor1⟩ := atLeast_lt p htcb
  have hflight := htcb.bytesInFlight
  rw [hfloor]
  have hcount : (UInt32.ofInt (max c (p.atLeast tcb))).toNat = (max c (p.atLeast tcb)).toNat := by
    rw [UInt32.ofInt, UInt32.toNat_ofNat']
    omega
  rw [UInt32.toNat_add, hcount]
  omega

/-- A call of `DoRecovery` leaves the window that is prescribed exactly under the condition. -/
theorem doRecovery_exact (hs : { s with m_prrDelivered := s.m_prrDelivered + deliveredBytes }.Counts p)
    (hp : p.Small) (htcb : tcb.Small) (hdelivered : deliveredBytes.toNat < 2 ^ 31)
    (Q : TcpPrrRecovery → Prop) :
    (∃ s' tcb', s.doRecovery tcb deliveredBytes = some (s', tcb') ∧
        Prescribed p s.m_reductionBoundMode tcb deliveredBytes tcb' ∧ Q s') ↔
      p.Exact s.m_reductionBoundMode tcb deliveredBytes ∧
        Q { s with m_prrDelivered := s.m_prrDelivered + deliveredBytes } := by
  have hexact := sendCount_exact hs hp htcb hdelivered
  dsimp only at hexact
  rw [← hexact]
  unfold doRecovery
  simp only [Option.map_eq_some_iff, Prod.mk.injEq]
  constructor
  · rintro ⟨s', tcb', ⟨c, hc, rfl, rfl⟩, hwindow, hQ⟩
    refine ⟨⟨c, hc, ?_⟩, hQ⟩
    rw [← window_toNat hs htcb (sendCount_lt hc)]
    exact hwindow
  · rintro ⟨⟨c, hc, hcount⟩, hQ⟩
    refine ⟨_, _, ⟨c, hc, rfl, rfl⟩, ?_, hQ⟩
    rw [Prescribed, ← hcount]
    exact window_toNat hs htcb (sendCount_lt hc)

end Step

/-- The members keep counting while the sums are small. -/
theorem Counts.delivered_add {s : TcpPrrRecovery} {p : Progress} (h : s.Counts p) (tcb : TcpSocketState)
    {deliveredBytes : UInt32} (hsum : p.delivered + deliveredBytes.toNat < 2 ^ 31) :
    { s with m_prrDelivered := s.m_prrDelivered + deliveredBytes }.Counts
      (p.after (.doRecovery tcb deliveredBytes)) := by
  refine ⟨?_, h.out, h.flightSize⟩
  show (s.m_prrDelivered + deliveredBytes).toNat = _
  rw [UInt32.toNat_add, h.delivered]
  exact Nat.mod_eq_of_lt (by omega)

theorem Counts.sent_add {s : TcpPrrRecovery} {p : Progress} (h : s.Counts p) {bytesSent : UInt32}
    (hsum : p.out + bytesSent.toNat < 2 ^ 31) :
    (s.updateBytesSent bytesSent).Counts (p.after (.updateBytesSent bytesSent)) := by
  refine ⟨h.delivered, ?_, h.flightSize⟩
  show (s.m_prrOut + bytesSent).toNat = _
  rw [UInt32.toNat_add, h.out]
  exact Nat.mod_eq_of_lt (by omega)

theorem counts_entered (s : TcpPrrRecovery) (p : Progress) (tcb : TcpSocketState)
    (dupAckCount unAckDataCount deliveredBytes : UInt32) :
    { s with
        m_prrOut := 0
        m_prrDelivered := 0 + deliveredBytes
        m_recoveryFlightSize := unAckDataCount }.Counts
      (p.after (.enterRecovery tcb dupAckCount unAckDataCount deliveredBytes)) :=
  ⟨by rw [UInt32.zero_add]; rfl, rfl, rfl⟩

theorem follows_iff {s : TcpPrrRecovery} {p : Progress} (hs : s.Counts p) {cs : List RecoveryCall}
    (hcs : EachCall RecoveryCall.Small p cs) :
    Follows p s cs ↔ EachCall (RecoveryCall.Exact s.m_reductionBoundMode) p cs := by
  induction cs generalizing s p with
  | nil => exact Iff.rfl
  | cons c cs ih =>
    obtain ⟨hsmall, hcs⟩ := hcs
    cases c with
    | updateBytesSent bytesSent =>
      exact (ih (hs.sent_add hsmall.out) hcs).trans (iff_of_eq (true_and _)).symm
    | doRecovery tcb deliveredBytes =>
      have hcount := hs.delivered_add tcb hsmall.1.delivered
      have hdelivered := Nat.lt_of_le_of_lt (Nat.le_add_left _ _) hsmall.1.delivered
      exact (doRecovery_exact hcount hsmall.1 hsmall.2 hdelivered _).trans (and_congr Iff.rfl (ih hcount hcs))
    | enterRecovery tcb dupAckCount unAckDataCount deliveredBytes =>
      have hcount := counts_entered s p tcb dupAckCount unAckDataCount deliveredBytes
      exact (doRecovery_exact hcount hsmall.1 hsmall.2 hsmall.1.delivered _).trans
        (and_congr Iff.rfl (ih hcount hcs))

/-- A run from `EnterRecovery` on keeps to the window of the integers exactly when each of its calls is
exact. -/
theorem proportional_rate (s : TcpPrrRecovery) (tcb : TcpSocketState)
    (dupAckCount unAckDataCount deliveredBytes : UInt32) (cs : List RecoveryCall)
    (hsmall : EachCall RecoveryCall.Small {}
      (.enterRecovery tcb dupAckCount unAckDataCount deliveredBytes :: cs)) :
    Follows {} s (.enterRecovery tcb dupAckCount unAckDataCount deliveredBytes :: cs) ↔
      EachCall (RecoveryCall.Exact s.m_reductionBoundMode) {}
        (.enterRecovery tcb dupAckCount unAckDataCount deliveredBytes :: cs) := by
  obtain ⟨hfirst, hcs⟩ := hsmall
  have hcount := counts_entered s {} tcb dupAckCount unAckDataCount deliveredBytes
  exact (doRecovery_exact hcount hfirst.1 hfirst.2 hfirst.1.delivered _).trans
    (and_congr Iff.rfl (follows_iff hcount hcs))

theorem proportional_rate_three :
    Follows {} {} [.enterRecovery { m_ssThresh := 2500, m_segmentSize := 500, m_bytesInFlight := 3000 } 3 3000 0,
        .updateBytesSent 500,
        .doRecovery { m_ssThresh := 2500, m_segmentSize := 500, m_bytesInFlight := 3000 } 1000] ↔
      EachCall (RecoveryCall.Exact .SSRB) {}
        [.enterRecovery { m_ssThresh := 2500, m_segmentSize := 500, m_bytesInFlight := 3000 } 3 3000 0,
          .updateBytesSent 500,
          .doRecovery { m_ssThresh := 2500, m_segmentSize := 500, m_bytesInFlight := 3000 } 1000] :=
  proportional_rate {} { m_ssThresh := 2500, m_segmentSize := 500, m_bytesInFlight := 3000 } 3 3000 0 _
    ⟨⟨⟨by decide, by decide, by decide, by decide⟩, by decide, by decide, by decide⟩,
      ⟨by decide, by decide, by decide, by decide⟩,
      ⟨⟨by decide, by decide, by decide, by decide⟩, by decide, by decide, by decide⟩, trivial⟩

/-- 50000 bytes delivered of a flight of 200000, with a threshold of 100000: the product wraps, and the
window leaves 3526 bytes to send in the place of 25000. -/
theorem not_proportional_rate_product :
    EachCall RecoveryCall.Small {}
        [.enterRecovery { m_ssThresh := 100000, m_segmentSize := 1000, m_bytesInFlight := 150000 } 3 200000 50000] ∧
      ¬Follows {} {}
        [.enterRecovery { m_ssThresh := 100000, m_segmentSize := 1000, m_bytesInFlight := 150000 } 3 200000 50000] := by
  refine ⟨⟨⟨⟨by decide, by decide, by decide, by decide⟩, by decide, by decide, by decide⟩, trivial⟩, ?_⟩
  rintro ⟨s', tcb', hcall, hwindow, -⟩
  have hcode : (enterRecovery {} { m_ssThresh := 100000, m_segmentSize := 1000, m_bytesInFlight := 150000 }
      3 200000 50000).map (fun r => r.2.m_cWnd) = some 153526 := by decide +kernel
  rw [hcall] at hcode
  have hcwnd : tcb'.m_cWnd = 153526 := Option.some.inj hcode
  rw [Prescribed, hcwnd] at hwindow
  exact absurd hwindow (by decide +kernel)

end TcpPrrRecovery

end Ns3.Tcp
