import Mathlib.Data.Nat.Cast.Order.Field
import Ns3.Internet.Ipv4QueueDiscItem
import Ns3.Lib.TokenBucket
import Ns3.TrafficControl.TbfQueueDisc

/-!
# What a token bucket filter lets through

Both buckets are debited together, at each packet that is returned. The levels never exceed the sizes of the
buckets. Each bucket is one of `Lib.TokenBucket` with the time of the last packet and the level stored then;
as the tokens that came in are rounded, a packet may cost half a token too little.
-/

namespace Ns3.TrafficControl

open Ns3.Lib Ns3.Network QueueDiscItem QueueDisc

variable {τ Item : Type} [QueueDiscItem Item]

namespace Tbf

theorem getSeconds_sub (s t : Time) : getSeconds (s - t) = getSeconds s - getSeconds t := by
  simp only [getSeconds, Int.cast_sub]
  ring

theorem getSeconds_le {s t : Time} : getSeconds s ≤ getSeconds t ↔ s ≤ t := by
  rw [getSeconds, getSeconds, div_le_div_iff_of_pos_right (by norm_num), Int.cast_le]

theorem credited_le (tokens capacity : UInt32) (rate : UInt64) (delta : ℚ) :
    credited tokens capacity rate delta ≤ capacity.toNat := by
  rw [credited]
  split
  · exact le_rfl
  · next h => exact not_lt.mp h

theorem toNat_toWord {x : ℤ} {capacity : UInt32} (h : 0 ≤ x) (hle : x ≤ capacity.toNat) :
    ((toWord x).toNat : ℤ) = x := by
  have hlt := capacity.toNat_lt
  rw [toWord, UInt32.toNat_ofNat']
  omega

/-- What no packet changes. -/
structure SameConfig (s s' : Tbf τ Item) : Prop where
  burst : s'.m_burst = s.m_burst
  mtu : s'.m_mtu = s.m_mtu
  rate : s'.m_rate = s.m_rate
  peakRate : s'.m_peakRate = s.m_peakRate

/-- What only a returned packet changes. -/
structure SameBuckets (s s' : Tbf τ Item) : Prop extends SameConfig s s' where
  btokens : s'.m_btokens = s.m_btokens
  ptokens : s'.m_ptokens = s.m_ptokens
  checkPoint : s'.m_timeCheckPoint = s.m_timeCheckPoint

omit [QueueDiscItem Item] in
theorem SameConfig.trans {s₁ s₂ s₃ : Tbf τ Item} (h : SameConfig s₁ s₂) (h' : SameConfig s₂ s₃) :
    SameConfig s₁ s₃ :=
  ⟨h'.burst.trans h.burst, h'.mtu.trans h.mtu, h'.rate.trans h.rate, h'.peakRate.trans h.peakRate⟩

omit [QueueDiscItem Item] in
theorem SameBuckets.trans {s₁ s₂ s₃ : Tbf τ Item} (h : SameBuckets s₁ s₂) (h' : SameBuckets s₂ s₃) :
    SameBuckets s₁ s₃ :=
  ⟨h.toSameConfig.trans h'.toSameConfig, h'.btokens.trans h.btokens, h'.ptokens.trans h.ptokens,
    h'.checkPoint.trans h.checkPoint⟩

/-- What a packet of the given size does to the buckets. -/
structure Pays (s s' : Tbf τ Item) (now : Time) (pktSize : UInt32) : Prop extends SameConfig s s' where
  btoks : 0 ≤ s.btoks now pktSize
  ptoks : 0 ≤ s.ptoks now pktSize
  btokens : s'.m_btokens = toWord (s.btoks now pktSize)
  ptokens : s'.m_ptokens = toWord (s.ptoks now pktSize)
  checkPoint : s'.m_timeCheckPoint = now

variable {C : Child τ Item} {isExpired : Time → Option Time → Bool} {now : Time}
  {d d' : QueueDisc (Tbf τ Item) Item}

theorem enqueue_spec {item : Item} {ok : Bool} (hready : C.Ready d.inner.child)
    (h : (tbfQueueDisc C isExpired).enqueue now item d = some (ok, d')) :
    SameBuckets d.inner d'.inner ∧ C.Ready d'.inner.child := by
  obtain ⟨c, henq, hinner⟩ := onChild_inner h
  rw [hinner]
  exact ⟨⟨⟨rfl, rfl, rfl, rfl⟩, rfl, rfl, rfl⟩, C.ready_traces (C.ready_enqueue hready henq)⟩

omit [QueueDiscItem Item] in
theorem setWatchdog_spec {btoks ptoks : ℤ} (h : setWatchdog isExpired now btoks ptoks d = some d') :
    SameBuckets d.inner d'.inner ∧ d'.inner.child = d.inner.child := by
  rw [setWatchdog] at h
  split at h
  · obtain ⟨delay, -, heq⟩ := Option.bind_eq_some_iff.mp h
    obtain rfl := Option.some.inj heq
    exact ⟨⟨⟨rfl, rfl, rfl, rfl⟩, rfl, rfl, rfl⟩, rfl⟩
  · obtain rfl := Option.some.inj h
    exact ⟨⟨⟨rfl, rfl, rfl, rfl⟩, rfl, rfl, rfl⟩, rfl⟩

/-- A packet that `DoDequeue` returns is paid for with its own size; else the buckets stay as they are. -/
theorem doDequeue_spec {item : Option Item} (hready : C.Ready d.inner.child)
    (h : doDequeue C isExpired now d = some (item, d')) :
    C.Ready d'.inner.child ∧
      item.elim (SameBuckets d.inner d'.inner) fun i => Pays d.inner d'.inner now (getSize i) := by
  obtain ⟨⟨itemPeek, d₁⟩, hpeek, h⟩ := Option.bind_eq_some_iff.mp h
  obtain ⟨c, hchild, hinner⟩ := onChild_inner hpeek
  have hready₁ : C.Ready d₁.inner.child := by
    rw [hinner]
    exact C.ready_traces (C.ready_peek hready hchild)
  have hsame₁ : SameBuckets d.inner d₁.inner := by
    rw [hinner]
    exact ⟨⟨rfl, rfl, rfl, rfl⟩, rfl, rfl, rfl⟩
  cases itemPeek with
  | none =>
    obtain ⟨rfl, rfl⟩ := Prod.mk.inj (Option.some.inj h)
    exact ⟨hready₁, hsame₁⟩
  | some i =>
    have hbtoks : ∀ pktSize, d₁.inner.btoks now pktSize = d.inner.btoks now pktSize := by
      intro pktSize
      rw [hinner]
      rfl
    have hptoks : ∀ pktSize, d₁.inner.ptoks now pktSize = d.inner.ptoks now pktSize := by
      intro pktSize
      rw [hinner]
      rfl
    simp only [hbtoks, hptoks] at h
    split at h
    · next hnonneg =>
      obtain ⟨⟨taken, d₂⟩, htake, h⟩ := Option.bind_eq_some_iff.mp h
      obtain ⟨c₂, hdeq, hinner₂⟩ := onChild_inner htake
      have hready₂ : C.Ready d₂.inner.child := by
        rw [hinner₂]
        exact C.ready_traces (C.ready_dequeue hready₁ hdeq)
      cases taken with
      | none =>
        obtain ⟨rfl, rfl⟩ := Prod.mk.inj (Option.some.inj h)
        refine ⟨hready₂, hsame₁.trans ?_⟩
        rw [hinner₂]
        exact ⟨⟨rfl, rfl, rfl, rfl⟩, rfl, rfl, rfl⟩
      | some j =>
        obtain ⟨rfl, rfl⟩ := Prod.mk.inj (Option.some.inj h)
        have hdeq' : C.dequeue now { c with traces := [] } = some (some j, c₂) := by
          rw [hinner] at hdeq
          exact hdeq
        have hsize := C.dequeue_peek hready hchild hdeq'
        refine ⟨hready₂, ?_⟩
        show Pays d.inner _ now (getSize j)
        rw [hsize]
        refine ⟨hsame₁.toSameConfig.trans ?_, hnonneg.1, hnonneg.2, rfl, rfl, rfl⟩
        rw [hinner₂]
        exact ⟨rfl, rfl, rfl, rfl⟩
    · obtain ⟨d₂, hwatch, h⟩ := Option.bind_eq_some_iff.mp h
      obtain ⟨rfl, rfl⟩ := Prod.mk.inj (Option.some.inj h)
      obtain ⟨hsame₂, hchild₂⟩ := setWatchdog_spec hwatch
      exact ⟨hchild₂ ▸ hready₁, hsame₁.trans hsame₂⟩

theorem round_le (x : ℚ) : (round x : ℚ) ≤ x + 1 / 2 := by
  rw [round]
  split
  · exact Int.floor_le _
  · have hlt := Int.lt_floor_add_one (-x + 1 / 2)
    push_cast
    linarith

/-- The rate is cut to whole bytes for each second. -/
theorem toNat_div_le (rate : UInt64) : ((rate / 8).toNat : ℚ) ≤ rate.toNat / 8 := by
  rw [UInt64.toNat_div]
  exact Nat.cast_div_le

/-- Rounding credits at most half a token more than came in. -/
theorem credited_le_add (tokens capacity : UInt32) (rate : UInt64) {delta : ℚ} (h : 0 ≤ delta) :
    (credited tokens capacity rate delta : ℚ) ≤ tokens.toNat + rate.toNat / 8 * delta + 1 / 2 := by
  have hround := round_le (delta * ((rate / 8).toNat : ℚ))
  have hrate : delta * ((rate / 8).toNat : ℚ) ≤ rate.toNat / 8 * delta := by
    rw [mul_comm]
    exact mul_le_mul_of_nonneg_right (toNat_div_le rate) h
  have hle : credited tokens capacity rate delta ≤ tokens.toNat + round (delta * ((rate / 8).toNat : ℚ)) := by
    rw [credited]
    split
    · next hfull => exact le_of_lt hfull
    · exact le_rfl
  have hcast : (credited tokens capacity rate delta : ℚ) ≤
      ((tokens.toNat + round (delta * ((rate / 8).toNat : ℚ)) : ℤ) : ℚ) := Int.cast_le.mpr hle
  push_cast at hcast
  linarith

/-- One bucket, debited with a packet that it has the tokens for. -/
theorem conforms_credited {H : Withdrawals ℚ} {tokens capacity pktSize : UInt32} {rate : UInt64} {last : Time}
    (h : Conforms (capacity.toNat : ℚ) (rate.toNat / 8) (1 / 2) H (getSeconds last) tokens.toNat)
    (hlast : last ≤ now)
    (hnonneg : 0 ≤ credited tokens capacity rate (getSeconds (now - last)) - pktSize.toNat) :
    Conforms (capacity.toNat : ℚ) (rate.toNat / 8) (1 / 2) ((getSeconds now, (pktSize.toNat : ℚ)) :: H)
      (getSeconds now)
      (toWord (credited tokens capacity rate (getSeconds (now - last)) - pktSize.toNat)).toNat := by
  have hsince : 0 ≤ getSeconds (now - last) := by
    rw [getSeconds_sub, sub_nonneg]
    exact getSeconds_le.mpr hlast
  have hcap := credited_le tokens capacity rate (getSeconds (now - last))
  have hcredit := credited_le_add tokens capacity rate hsince
  have hlevel := toNat_toWord hnonneg ((sub_le_self _ (Int.natCast_nonneg _)).trans hcap)
  have hlevel' : ((toWord (credited tokens capacity rate (getSeconds (now - last)) - pktSize.toNat)).toNat : ℚ)
      + pktSize.toNat = credited tokens capacity rate (getSeconds (now - last)) := by
    exact_mod_cast eq_sub_iff_add_eq.mp hlevel
  refine h.withdraw (by positivity) (getSeconds_le.mpr hlast) (Nat.cast_nonneg _) ?_ ?_
  · rw [hlevel']
    exact_mod_cast hcap
  · rw [hlevel', ← getSeconds_sub]
    exact hcredit

/-- A call of `Enqueue` or of `DoDequeue` with its time; whether the watchdog's event has expired is for the
simulator to say. -/
inductive Request (Item : Type)
  | enqueue (now : Time) (item : Item)
  | dequeue (now : Time) (isExpired : Bool)

def Request.time : Request Item → Time
  | .enqueue now _ => now
  | .dequeue now _ => now

/-- A filter with the packets that `DoDequeue` returned, in bytes. -/
structure Served (τ Item : Type) where
  disc : QueueDisc (Tbf τ Item) Item
  returned : Withdrawals ℚ := []

variable (C)

def serve (r : Served τ Item) : Request Item → Option (Served τ Item)
  | .enqueue now item => do
    let (_, d) ← (tbfQueueDisc C fun _ _ => true).enqueue now item r.disc
    pure { r with disc := d }
  | .dequeue now isExpired => do
    let (item, d) ← doDequeue C (fun _ _ => isExpired) now r.disc
    let entries := item.toList.map fun i => (getSeconds now, ((getSize i).toNat : ℚ))
    pure { disc := d, returned := entries ++ r.returned }

variable {C}

/-- The levels never exceed the sizes of the buckets. -/
structure Levels (s : Tbf τ Item) : Prop where
  btokens : s.m_btokens ≤ s.m_burst
  ptokens : s.m_ptokens ≤ s.m_mtu

/-- A filter of the configuration `s` whose buckets conform, last called at the time `now`. -/
structure Metered (C : Child τ Item) (s : Tbf τ Item) (r : Served τ Item) (now : Time) : Prop where
  ready : C.Ready r.disc.inner.child
  config : SameConfig s r.disc.inner
  levels : Levels r.disc.inner
  checkPoint : r.disc.inner.m_timeCheckPoint ≤ now
  bucket : Conforms (s.m_burst.toNat : ℚ) (s.m_rate.toNat / 8) (1 / 2) r.returned
    (getSeconds r.disc.inner.m_timeCheckPoint) r.disc.inner.m_btokens.toNat
  peakBucket : 0 < s.m_peakRate → Conforms (s.m_mtu.toNat : ℚ) (s.m_peakRate.toNat / 8) (1 / 2) r.returned
    (getSeconds r.disc.inner.m_timeCheckPoint) r.disc.inner.m_ptokens.toNat

variable {s : Tbf τ Item} {r r' : Served τ Item} {last : Time}

theorem Metered.same (h : Metered C s r last) (hsame : SameBuckets r.disc.inner d'.inner)
    (hready : C.Ready d'.inner.child) (hnow : last ≤ now) : Metered C s { r with disc := d' } now where
  ready := hready
  config := h.config.trans hsame.toSameConfig
  levels := by
    constructor
    · show d'.inner.m_btokens ≤ d'.inner.m_burst
      rw [hsame.btokens, hsame.burst]
      exact h.levels.btokens
    · show d'.inner.m_ptokens ≤ d'.inner.m_mtu
      rw [hsame.ptokens, hsame.mtu]
      exact h.levels.ptokens
  checkPoint := hsame.checkPoint ▸ h.checkPoint.trans hnow
  bucket := hsame.checkPoint ▸ hsame.btokens ▸ h.bucket
  peakBucket hpeak := hsame.checkPoint ▸ hsame.ptokens ▸ h.peakBucket hpeak

omit [QueueDiscItem Item] in
theorem Pays.btokens_le {s s' : Tbf τ Item} {pktSize : UInt32} (h : Pays s s' now pktSize) :
    s'.m_btokens ≤ s'.m_burst := by
  have hcap := credited_le s.m_btokens s.m_burst s.m_rate (s.delta now)
  have hle : s.btoks now pktSize ≤ s.m_burst.toNat :=
    (sub_le_self _ (Int.natCast_nonneg _)).trans hcap
  have hword := toNat_toWord h.btoks hle
  rw [h.btokens, h.burst, UInt32.le_iff_toNat_le]
  omega

omit [QueueDiscItem Item] in
theorem Pays.ptokens_le {s s' : Tbf τ Item} {pktSize : UInt32} (h : Pays s s' now pktSize) :
    s'.m_ptokens ≤ s'.m_mtu := by
  have hle : s.ptoks now pktSize ≤ s.m_mtu.toNat := by
    rw [Tbf.ptoks]
    split
    · exact (sub_le_self _ (Int.natCast_nonneg _)).trans (credited_le ..)
    · exact Int.natCast_nonneg _
  have hword := toNat_toWord h.ptoks hle
  rw [h.ptokens, h.mtu, UInt32.le_iff_toNat_le]
  omega

theorem Metered.pay (h : Metered C s r last) {pktSize : UInt32} (hpays : Pays r.disc.inner d'.inner now pktSize)
    (hready : C.Ready d'.inner.child) (hnow : last ≤ now) :
    Metered C s ⟨d', (getSeconds now, (pktSize.toNat : ℚ)) :: r.returned⟩ now where
  ready := hready
  config := h.config.trans hpays.toSameConfig
  levels := ⟨hpays.btokens_le, hpays.ptokens_le⟩
  checkPoint := le_of_eq hpays.checkPoint
  bucket := by
    have hbtoks := hpays.btoks
    show Conforms _ _ _ _ (getSeconds d'.inner.m_timeCheckPoint) (d'.inner.m_btokens.toNat : ℚ)
    rw [hpays.checkPoint, hpays.btokens]
    rw [btoks, h.config.burst, h.config.rate] at hbtoks ⊢
    exact conforms_credited h.bucket (h.checkPoint.trans hnow) hbtoks
  peakBucket hpeak := by
    have hptoks := hpays.ptoks
    show Conforms _ _ _ _ (getSeconds d'.inner.m_timeCheckPoint) (d'.inner.m_ptokens.toNat : ℚ)
    rw [hpays.checkPoint, hpays.ptokens]
    rw [ptoks, h.config.mtu, h.config.peakRate, if_pos hpeak] at hptoks ⊢
    exact conforms_credited (h.peakBucket hpeak) (h.checkPoint.trans hnow) hptoks

theorem serve_metered {call : Request Item} (h : Metered C s r last) (hnow : last ≤ call.time)
    (hserve : serve C r call = some r') : Metered C s r' call.time := by
  cases call with
  | enqueue now item =>
    obtain ⟨⟨ok, d⟩, henqueue, heq⟩ := Option.bind_eq_some_iff.mp hserve
    obtain rfl := Option.some.inj heq
    obtain ⟨hsame, hready⟩ := enqueue_spec h.ready henqueue
    exact h.same hsame hready hnow
  | dequeue now isExpired =>
    obtain ⟨⟨item, d⟩, hdequeue, heq⟩ := Option.bind_eq_some_iff.mp hserve
    obtain rfl := Option.some.inj heq
    obtain ⟨hready, hspec⟩ := doDequeue_spec h.ready hdequeue
    cases item with
    | none => exact h.same hspec hready hnow
    | some item => exact h.pay hspec hready hnow

theorem serves_metered {calls : List (Request Item)} (h : Metered C s r last)
    (hordered : (last :: calls.map Request.time).Pairwise (· ≤ ·)) (hruns : calls.foldlM (serve C) r = some r') :
    ∃ now, Metered C s r' now := by
  induction calls generalizing r last with
  | nil =>
    obtain rfl := Option.some.inj hruns
    exact ⟨last, h⟩
  | cons call calls ih =>
    obtain ⟨r₁, hserve, hrest⟩ := Option.bind_eq_some_iff.mp hruns
    obtain ⟨hfirst, hlater⟩ := List.pairwise_cons.mp hordered
    exact ih (serve_metered h (hfirst _ List.mem_cons_self) hserve) hlater hrest

/-- A filter before its first packet, given what `CheckConfig` has left. -/
def opened (s : Tbf τ Item) : Served τ Item where
  disc := { inner := initializeParams s }

theorem opened_metered (hready : C.Ready s.child) : Metered C s (opened s) 0 where
  ready := hready
  config := ⟨rfl, rfl, rfl, rfl⟩
  levels := ⟨UInt32.le_refl _, UInt32.le_refl _⟩
  checkPoint := le_rfl
  bucket := .full (Nat.cast_nonneg _) (by positivity) _
  peakBucket _ := .full (Nat.cast_nonneg _) (by positivity) _

/-- What a bucket lets through in any interval of time: its size, what comes in, and half a token for each
packet but the first. -/
def Limited (capacity : UInt32) (rate : UInt64) (H : Withdrawals ℚ) : Prop :=
  ∀ a b, a ≤ b →
    taken H a b ≤ capacity.toNat + ⌈rate.toNat * (b - a) / 8 + ((withdrawals H a b - 1 : ℕ) : ℚ) / 2⌉

theorem limited_of_conforms {H : Withdrawals ℚ} {capacity : UInt32} {rate : UInt64} {t L : ℚ}
    (h : Conforms (capacity.toNat : ℚ) (rate.toNat / 8) (1 / 2) H t L) : Limited capacity rate H := by
  intro a b hab
  have hwithin := h.within a b hab
  have hceil := Int.le_ceil (rate.toNat * (b - a) / 8 + ((withdrawals H a b - 1 : ℕ) : ℚ) / 2)
  linarith

/-- The configuration of a filter over a child queue disc, before `CheckConfig`. -/
def configured (C : Child τ Item) (m_burst m_mtu : UInt32) (m_rate m_peakRate : UInt64) : Tbf τ Item where
  child := { inner := C.start }
  m_burst := m_burst
  m_mtu := m_mtu
  m_rate := m_rate
  m_peakRate := m_peakRate
  m_btokens := 0
  m_ptokens := 0
  m_timeCheckPoint := 0
  m_id := none

omit [QueueDiscItem Item] in
theorem checkConfig_child {deviceMtu : Option UInt32} {s₀ : Tbf τ Item}
    (h : checkConfig deviceMtu s₀ = some s) : s.child = s₀.child := by
  rw [checkConfig] at h
  have heq := (Option.ite_none_left_eq_some.mp h).2
  obtain rfl := Option.some.inj heq
  split
  · rfl
  · rfl

/-- A datagram of 20 bytes. -/
def bareHeader : Internet.Ipv4QueueDiscItem := { payload := [] }

/-- A filter over a FIFO queue disc, which gets a token each second. -/
def perSecond : Tbf (Queue Internet.Ipv4QueueDiscItem) Internet.Ipv4QueueDiscItem :=
  configured (fifoChild ⟨.packets, 10⟩) 20 0 8 0

/-- Each packet is taken half a second before the last of its tokens comes in. -/
def halfSecondsEarly : List (Request Internet.Ipv4QueueDiscItem) :=
  [.enqueue 0 bareHeader, .enqueue 0 bareHeader, .enqueue 0 bareHeader,
    .dequeue 0 true, .dequeue 19500000000 true, .dequeue 39000000000 true]

theorem halfSecondsEarly_served :
    (halfSecondsEarly.foldlM (serve (fifoChild ⟨.packets, 10⟩)) (opened perSecond)).map
      (fun r => taken r.returned 0 39) = some 60 := by
  decide +kernel

end Tbf

end Ns3.TrafficControl
