import Ns3.Lib.Loop
import Ns3.Wifi.BlockAckWindow

/-!
# The transmit window of an originator

The window handling of `OriginatorBlockAckAgreement` in `src/wifi/model/originator-block-ack-agreement.cc`. The
history of an agreement has the numbers that were transmitted, acked and discarded; the bits of the window are the
acked numbers in it, and it moves past a number only for one of three reasons.

A function has no result where the program stops.
-/

namespace Ns3.Wifi

open Ns3.Lib

/-- `OriginatorBlockAckAgreement`, as far as its window goes. -/
structure OriginatorBlockAckAgreement where
  m_startingSeq : Nat
  m_bufferSize : Nat
  m_txWindow : BlockAckWindow := {}
deriving DecidableEq, Repr

namespace OriginatorBlockAckAgreement

/-- `InitTxWindow`. -/
def initTxWindow (agreement : OriginatorBlockAckAgreement) : OriginatorBlockAckAgreement :=
  { agreement with m_txWindow := .init agreement.m_startingSeq agreement.m_bufferSize }

/-- The distance that the notifications compute, a `uint16_t`. -/
def distance (seqNumber : Nat) (agreement : OriginatorBlockAckAgreement) : Nat :=
  getDistance seqNumber agreement.m_txWindow.m_winStart % 2 ^ 16

/-- The loop of `AdvanceTxWindow`. -/
def advanceTurn (w : BlockAckWindow) : Turn BlockAckWindow (Option BlockAckWindow) :=
  match w.bitAt 0 with
  | none => .leave none
  | some true => .again (w.advance 1)
  | some false => .leave (some w)

/-- `AdvanceTxWindow` of a window. The loop is cut off after as many turns as it takes to go through the window; more
turns would go on for ever. -/
def advanceTxWindow (w : BlockAckWindow) (agreement : OriginatorBlockAckAgreement) :
    Option OriginatorBlockAckAgreement :=
  (turns advanceTurn (w.getWinSize + 1) w).join.map fun w => { agreement with m_txWindow := w }

/-- `NotifyTransmittedMpdu`. -/
def notifyTransmittedMpdu (mpduSeqNumber : Nat) (agreement : OriginatorBlockAckAgreement) :
    Option OriginatorBlockAckAgreement :=
  let distance := agreement.distance mpduSeqNumber
  if 2048 ≤ distance then some agreement
  else if agreement.m_txWindow.getWinSize ≤ distance then
    agreement.advanceTxWindow (agreement.m_txWindow.advance (distance - agreement.m_txWindow.getWinSize + 1))
  else some agreement

/-- `NotifyAckedMpdu`. -/
def notifyAckedMpdu (mpduSeqNumber : Nat) (agreement : OriginatorBlockAckAgreement) :
    Option OriginatorBlockAckAgreement :=
  let distance := agreement.distance mpduSeqNumber
  if 2048 ≤ distance then some agreement
  else (agreement.m_txWindow.setBitAt distance).bind fun w => agreement.advanceTxWindow w

/-- `NotifyDiscardedMpdu`. -/
def notifyDiscardedMpdu (mpduSeqNumber : Nat) (agreement : OriginatorBlockAckAgreement) :
    Option OriginatorBlockAckAgreement :=
  let distance := agreement.distance mpduSeqNumber
  if 2048 ≤ distance then some agreement
  else agreement.advanceTxWindow (agreement.m_txWindow.advance (distance + 1))

/-- What an agreement is notified of. -/
inductive Event where
  | transmitted (mpduSeqNumber : Nat)
  | acked (mpduSeqNumber : Nat)
  | discarded (mpduSeqNumber : Nat)
deriving DecidableEq, Repr

def Event.seq : Event → Nat
  | .transmitted seq | .acked seq | .discarded seq => seq

/-- One notification. -/
def notify (agreement : OriginatorBlockAckAgreement) : Event → Option OriginatorBlockAckAgreement
  | .transmitted seq => agreement.notifyTransmittedMpdu seq
  | .acked seq => agreement.notifyAckedMpdu seq
  | .discarded seq => agreement.notifyDiscardedMpdu seq

/-- The start of the window and the numbers of the MPDUs that an agreement has been notified of, but for those that
were old. -/
structure History where
  start : Nat
  transmitted : Set Nat
  acked : Set Nat
  discarded : Set Nat

namespace History

variable (h : History) (e : Event)

/-- The number of the MPDU of an event. -/
def number : Nat := h.start + getDistance e.seq (h.start % 4096)

/-- The history with the number of an event that is not old. -/
def add : History :=
  match e with
  | .transmitted _ => { h with transmitted := insert (h.number e) h.transmitted }
  | .acked _ => { h with acked := insert (h.number e) h.acked }
  | .discarded _ => { h with discarded := insert (h.number e) h.discarded }

/-- The history after an event that leaves the window at `winStart`. -/
def after (winStart : Nat) : History :=
  { (if h.number e < h.start + 2048 then h.add e else h) with
    start := h.start + getDistance winStart (h.start % 4096) }

/-- What is acked was transmitted before, or is old. -/
def Fits : Prop :=
  match e with
  | .acked _ => h.number e < h.start + 2048 → h.number e ∈ h.transmitted
  | .transmitted _ | .discarded _ => True

end History

/-- A notification with the history. -/
def step (s : OriginatorBlockAckAgreement × History) (e : Event) : Option (OriginatorBlockAckAgreement × History) :=
  (s.1.notify e).map fun agreement => (agreement, s.2.after e agreement.m_txWindow.m_winStart)

/-- Why the window has moved past a number: it was acked, it or a later one was discarded, or one was transmitted that
is at least the size of the window beyond it. -/
def Passed (size : Nat) (h : History) (n : Nat) : Prop :=
  n ∈ h.acked ∨ (∃ m ∈ h.discarded, n ≤ m) ∨ ∃ m ∈ h.transmitted, n + size ≤ m

/-- What holds after every notification. -/
structure Holds (size first : Nat) (agreement : OriginatorBlockAckAgreement) (h : History) : Prop where
  tracks : Tracks agreement.m_txWindow size h.start h.acked
  unacked : h.start ∉ h.acked
  below : ∀ n ∈ h.transmitted, n < h.start + size
  forwards : first ≤ h.start
  passed : ∀ n, first ≤ n → n < h.start → Passed size h n

variable {size first start : Nat} {w : BlockAckWindow} {marked : Set Nat} {agreement : OriginatorBlockAckAgreement}
  {h : History} {e : Event}

theorem advanceTurn_cases (hw : Tracks w size start marked) :
    start ∈ marked ∧ advanceTurn w = .again (w.advance 1) ∧ Tracks (w.advance 1) size (start + 1) marked ∨
      start ∉ marked ∧ advanceTurn w = .leave (some w) := by
  obtain ⟨b, hb, hmarked⟩ := hw.bitAt (Nat.zero_lt_of_lt hw.head_lt)
  rw [Nat.add_zero] at hmarked
  rw [advanceTurn, hb]
  cases b with
  | true => exact .inl ⟨hmarked.mp rfl, rfl, hw.advance 1⟩
  | false => exact .inr ⟨fun h => Bool.false_ne_true (hmarked.mpr h), rfl⟩

/-- The loop goes on to the next number that is not marked. -/
theorem advanceTurns {n : Nat} (hw : Tracks w size start marked) (hn : ∀ k ∈ marked, k < start + n) :
    ∃ w' start', turns advanceTurn (n + 1) w = some (some w') ∧ Tracks w' size start' marked ∧ start ≤ start' ∧
      start' ∉ marked ∧ ∀ k, start ≤ k → k < start' → k ∈ marked := by
  induction n generalizing w start with
  | zero =>
    obtain ⟨hmem, -⟩ | ⟨hnot, hturn⟩ := advanceTurn_cases hw
    · exact absurd (hn _ hmem) (Nat.lt_irrefl _)
    · exact ⟨w, start, by rw [turns, hturn], hw, le_rfl, hnot, fun k hle hlt => absurd hlt (Nat.not_lt.mpr hle)⟩
  | succ n ih =>
    obtain ⟨hmem, hturn, hw'⟩ | ⟨hnot, hturn⟩ := advanceTurn_cases hw
    · obtain ⟨w', start', hturns, hw'', hle, hnot, hbetween⟩ := ih hw' fun k hk => by
        have := hn k hk
        omega
      refine ⟨w', start', by rw [turns, hturn]; exact hturns, hw'', by omega, hnot, fun k hk hlt => ?_⟩
      obtain rfl | hk := Nat.eq_or_lt_of_le hk
      · exact hmem
      · exact hbetween k hk hlt
    · exact ⟨w, start, by rw [turns, hturn], hw, le_rfl, hnot, fun k hle hlt => absurd hlt (Nat.not_lt.mpr hle)⟩

theorem advanceTxWindow_eq (hw : Tracks w size start marked) (agreement : OriginatorBlockAckAgreement) :
    ∃ w' start', agreement.advanceTxWindow w = some { agreement with m_txWindow := w' } ∧
      Tracks w' size start' marked ∧ start ≤ start' ∧ start' ∉ marked ∧ ∀ k, start ≤ k → k < start' → k ∈ marked := by
  obtain ⟨w', start', hturns, hrest⟩ := advanceTurns hw hw.below
  refine ⟨w', start', ?_, hrest⟩
  rw [advanceTxWindow, BlockAckWindow.getWinSize, hw.length, hturns]
  rfl

/-! ### One notification -/

theorem Passed.mono {h' : History} {n : Nat} (hp : Passed size h n) (hacked : ∀ k ∈ h.acked, k ∈ h'.acked)
    (hdiscarded : ∀ k ∈ h.discarded, k ∈ h'.discarded) (htransmitted : ∀ k ∈ h.transmitted, k ∈ h'.transmitted) :
    Passed size h' n := by
  obtain hn | ⟨m, hm, hle⟩ | ⟨m, hm, hle⟩ := hp
  · exact .inl (hacked n hn)
  · exact .inr (.inl ⟨m, hdiscarded m hm, hle⟩)
  · exact .inr (.inr ⟨m, htransmitted m hm, hle⟩)

/-- The history of an event with a number has what was there before. -/
theorem Passed.add {n : Nat} (hp : Passed size h n) (e : Event) : Passed size (h.add e) n := by
  cases e with
  | transmitted seq => exact hp.mono (fun _ => id) (fun _ => id) fun _ => Set.mem_insert_of_mem _
  | acked seq => exact hp.mono (fun _ => Set.mem_insert_of_mem _) (fun _ => id) fun _ => id
  | discarded seq => exact hp.mono (fun _ => id) (fun _ => Set.mem_insert_of_mem _) fun _ => id

/-- The agreement that a notification leaves, for the history with its number. -/
structure Moves (size first start : Nat) (h' : History) (agreement' : OriginatorBlockAckAgreement) (start' : Nat) :
    Prop where
  tracks : Tracks agreement'.m_txWindow size start' h'.acked
  unacked : start' ∉ h'.acked
  below : ∀ n ∈ h'.transmitted, n < start' + size
  forwards : start ≤ start'
  near : start' ≤ start + 2048
  passed : ∀ n, first ≤ n → n < start' → Passed size h' n

/-- The window is where a notification has moved it, and goes on. -/
theorem advanceTxWindow_moves (h' : History) {start₁ : Nat} (hw : Tracks w size start₁ h'.acked)
    (agreement : OriginatorBlockAckAgreement) (hforwards : start ≤ start₁) (hnear : start₁ ≤ start + 2048)
    (hacked : ∀ n ∈ h'.acked, n < start + 2048) (hbelow : ∀ n ∈ h'.transmitted, n < start₁ + size)
    (hpassed : ∀ n, first ≤ n → n < start₁ → Passed size h' n) :
    ∃ agreement' start', agreement.advanceTxWindow w = some agreement' ∧ Moves size first start h' agreement' start' := by
  obtain ⟨w', start', hadvance, htracks, hle, hnot, hbetween⟩ := advanceTxWindow_eq hw agreement
  refine ⟨_, start', hadvance, htracks, hnot, fun n hn => (hbelow n hn).trans_le (by omega), hforwards.trans hle, ?_,
    fun n hn hlt => ?_⟩
  · obtain rfl | hlt := Nat.eq_or_lt_of_le hle
    · exact hnear
    · -- the last number that the window has gone over
      have := hacked _ (hbetween (start' - 1) (by omega) (by omega))
      omega
  · by_cases hbefore : n < start₁
    · exact hpassed n hn hbefore
    · exact .inl (hbetween n (Nat.le_of_not_lt hbefore) hlt)

/-- Nothing moves. -/
theorem Holds.moves (hh : Holds size first agreement h) {h' : History} (hacked : h'.acked = h.acked)
    (hbelow : ∀ n ∈ h'.transmitted, n < h.start + size) (hpassed : ∀ n, Passed size h n → Passed size h' n) :
    Moves size first h.start h' agreement h.start where
  tracks := hacked ▸ hh.tracks
  unacked := hacked ▸ hh.unacked
  below := hbelow
  forwards := le_rfl
  near := Nat.le_add_right _ _
  passed n hn hlt := hpassed n (hh.passed n hn hlt)

theorem Holds.distance (hh : Holds size first agreement h) {seq : Nat} (hseq : seq < 4096) :
    h.start + agreement.distance seq = h.start + getDistance seq (h.start % 4096) := by
  have hlt := getDistance_lt hseq (Nat.mod_lt h.start (by decide : 0 < 4096))
  rw [OriginatorBlockAckAgreement.distance, hh.tracks.winStart, Nat.mod_eq_of_lt (by omega)]

theorem notify_moves (hh : Holds size first agreement h) (hpos : 1 ≤ size) (hsize : size ≤ 256) (hseq : e.seq < 4096)
    (hfits : h.Fits e) :
    ∃ agreement' start', agreement.notify e = some agreement' ∧
      Moves size first h.start (if h.number e < h.start + 2048 then h.add e else h) agreement' start' := by
  have hnumber : h.start + agreement.distance e.seq = h.number e := hh.distance hseq
  have hlength : agreement.m_txWindow.getWinSize = size := hh.tracks.length
  have hadd : ∀ n, Passed size h n → Passed size (h.add e) n := fun n hn => hn.add e
  have hacked : ∀ n ∈ h.acked, n < h.start + 2048 := fun n hn => (hh.tracks.below n hn).trans_le (by omega)
  by_cases hold : h.start + 2048 ≤ h.number e
  · -- an old MPDU
    rw [if_neg (by omega)]
    refine ⟨agreement, h.start, ?_, hh.moves rfl hh.below fun _ => id⟩
    cases e <;> exact if_pos (show 2048 ≤ agreement.distance _ by
      simp only [Event.seq] at hnumber
      omega)
  · rw [if_pos (by omega)]
    cases e with
    | transmitted seq =>
      simp only [Event.seq] at hnumber
      rw [notify, notifyTransmittedMpdu, if_neg (by omega), hlength]
      by_cases hin : size ≤ agreement.distance seq
      · rw [if_pos hin]
        have hstart : h.start + (agreement.distance seq - size + 1) = h.number (.transmitted seq) + 1 - size := by omega
        have hw := hh.tracks.advance (agreement.distance seq - size + 1)
        rw [hstart] at hw
        refine advanceTxWindow_moves (h.add (.transmitted seq)) hw agreement (by omega) (by omega) hacked ?_ ?_
        · rintro n (rfl | hn)
          · omega
          · have := hh.below n hn
            omega
        · intro n hn hlt
          by_cases hbefore : n < h.start
          · exact hadd n (hh.passed n hn hbefore)
          · exact .inr (.inr ⟨_, Set.mem_insert _ _, by omega⟩)
      · rw [if_neg hin]
        refine ⟨agreement, h.start, rfl, hh.moves rfl ?_ hadd⟩
        rintro n (rfl | hn)
        · omega
        · exact hh.below n hn
    | acked seq =>
      simp only [Event.seq] at hnumber
      have hbelow := hh.below _ (hfits (by omega))
      obtain ⟨w', hset, hw'⟩ := hh.tracks.setBitAt (by omega : agreement.distance seq < size)
      rw [hnumber] at hw'
      rw [notify, notifyAckedMpdu, if_neg (by omega), hset, Option.bind_some]
      refine advanceTxWindow_moves (h.add (.acked seq)) hw' agreement le_rfl (by omega) ?_ hh.below
        fun n hn hlt => hadd n (hh.passed n hn hlt)
      rintro n (rfl | hn)
      · omega
      · exact hacked n hn
    | discarded seq =>
      simp only [Event.seq] at hnumber
      rw [notify, notifyDiscardedMpdu, if_neg (by omega)]
      have hstart : h.start + (agreement.distance seq + 1) = h.number (.discarded seq) + 1 := by omega
      have hw := hh.tracks.advance (agreement.distance seq + 1)
      rw [hstart] at hw
      refine advanceTxWindow_moves (h.add (.discarded seq)) hw agreement (by omega) (by omega) hacked
        (fun n hn => (hh.below n hn).trans_le (by omega)) fun n hn hlt => ?_
      exact .inr (.inl ⟨_, Set.mem_insert _ _, Nat.le_of_lt_succ hlt⟩)

/-- The number of the start after a notification. -/
theorem Moves.start_eq {h' : History} {start' : Nat} (hmoves : Moves size first start h' agreement start') :
    start + getDistance agreement.m_txWindow.m_winStart (start % 4096) = start' := by
  have hle := hmoves.forwards
  have hnear := hmoves.near
  rw [hmoves.tracks.winStart, getDistance_mod hle (by omega), Nat.add_sub_of_le hle]

theorem step_holds (hh : Holds size first agreement h) (hpos : 1 ≤ size) (hsize : size ≤ 256) (hseq : e.seq < 4096)
    (hfits : h.Fits e) :
    ∃ agreement' h', step (agreement, h) e = some (agreement', h') ∧ Holds size first agreement' h' ∧
      h.start ≤ h'.start ∧ h'.start ≤ h.start + 2048 := by
  obtain ⟨agreement', start', hnotify, hmoves⟩ := notify_moves hh hpos hsize hseq hfits
  have hstart := hmoves.start_eq
  refine ⟨agreement', _, by rw [step, hnotify]; rfl, ?_, ?_⟩
  · rw [History.after, hstart]
    exact ⟨hmoves.tracks, hmoves.unacked, hmoves.below, hh.forwards.trans hmoves.forwards, hmoves.passed⟩
  · rw [History.after, hstart]
    exact ⟨hmoves.forwards, hmoves.near⟩

/-! ### Any notifications -/

/-- A new agreement, with nothing in its history. -/
def started (startingSeq bufferSize : Nat) : OriginatorBlockAckAgreement × History :=
  (initTxWindow { m_startingSeq := startingSeq, m_bufferSize := bufferSize }, ⟨startingSeq, ∅, ∅, ∅⟩)

/-- Notifications one after the other. -/
def run (s : OriginatorBlockAckAgreement × History) : List Event → Option (OriginatorBlockAckAgreement × History)
  | [] => some s
  | e :: es => (step s e).bind fun s => run s es

/-- What is acked was transmitted before, or is old, whenever it is acked. -/
def Fitting (s : OriginatorBlockAckAgreement × History) : List Event → Prop
  | [] => True
  | e :: es => s.2.Fits e ∧ ∀ s', step s e = some s' → Fitting s' es

theorem run_holds (hh : Holds size first agreement h) (hpos : 1 ≤ size) (hsize : size ≤ 256) {es : List Event}
    (hes : ∀ e ∈ es, e.seq < 4096) (hfits : Fitting (agreement, h) es) :
    ∃ agreement' h', run (agreement, h) es = some (agreement', h') ∧ Holds size first agreement' h' := by
  induction es generalizing agreement h with
  | nil => exact ⟨agreement, h, rfl, hh⟩
  | cons e es ih =>
    obtain ⟨he, hes⟩ := List.forall_mem_cons.mp hes
    obtain ⟨agreement₁, h₁, hstep, hh₁, -⟩ := step_holds hh hpos hsize he hfits.1
    obtain ⟨agreement', h', hrun, hh'⟩ := ih hh₁ hes (hfits.2 _ hstep)
    exact ⟨agreement', h', by rw [run, hstep]; exact hrun, hh'⟩

theorem started_holds {startingSeq bufferSize : Nat} (hstart : startingSeq < 4096) (hpos : 1 ≤ bufferSize) :
    Holds bufferSize startingSeq (started startingSeq bufferSize).1 (started startingSeq bufferSize).2 where
  tracks := .init hstart hpos
  unacked := Set.notMem_empty _
  below _ hn := hn.elim
  forwards := le_rfl
  passed _ hn hlt := absurd hlt (Nat.not_lt.mpr hn)

/-- After any notifications, of which none stops, the first bit of the window is not set, and the bits that are set
are those of the acked numbers; the window has moved past a number only for a reason, and the next notification
will only move it forwards. -/
theorem transmit_window (startingSeq bufferSize : Nat) (es : List Event) (hstart : startingSeq < 4096)
    (hpos : 1 ≤ bufferSize) (hsize : bufferSize ≤ 256) (hes : ∀ e ∈ es, e.seq < 4096)
    (hfits : Fitting (started startingSeq bufferSize) es) :
    ∃ agreement h, run (started startingSeq bufferSize) es = some (agreement, h) ∧
      agreement.m_txWindow.m_winStart = h.start % 4096 ∧
      agreement.m_txWindow.bitAt 0 = some false ∧
      (∀ i < bufferSize, ∃ b, agreement.m_txWindow.bitAt i = some b ∧ (b = true ↔ h.start + i ∈ h.acked)) ∧
      (∀ n ∈ h.acked, n < h.start + bufferSize) ∧
      (∀ n, startingSeq ≤ n → n < h.start → Passed bufferSize h n) ∧
      ∀ e : Event, e.seq < 4096 → h.Fits e → ∃ agreement' h', step (agreement, h) e = some (agreement', h') ∧
        h.start ≤ h'.start ∧ h'.start ≤ h.start + 2048 := by
  obtain ⟨agreement, h, hrun, hh⟩ := run_holds (started_holds hstart hpos) hpos hsize hes hfits
  refine ⟨agreement, h, hrun, hh.tracks.winStart, ?_, fun i hi => hh.tracks.bitAt hi, hh.tracks.below, hh.passed,
    fun e he hfit => ?_⟩
  · obtain ⟨b, hb, hmarked⟩ := hh.tracks.bitAt (Nat.zero_lt_of_lt hh.tracks.head_lt)
    cases b with
    | false => exact hb
    | true => exact absurd (hmarked.mp rfl) hh.unacked
  · obtain ⟨agreement', h', hstep, -, hforwards⟩ := step_holds hh hpos hsize he hfit
    exact ⟨agreement', h', hstep, hforwards⟩

theorem transmit_window_two : ∃ agreement h, run (started 4095 2) [.transmitted 4095, .acked 4095] = some (agreement, h) ∧
    agreement.m_txWindow.m_winStart = h.start % 4096 ∧
    agreement.m_txWindow.bitAt 0 = some false ∧
    (∀ i < 2, ∃ b, agreement.m_txWindow.bitAt i = some b ∧ (b = true ↔ h.start + i ∈ h.acked)) ∧
    (∀ n ∈ h.acked, n < h.start + 2) ∧
    (∀ n, 4095 ≤ n → n < h.start → Passed 2 h n) ∧
    ∀ e : Event, e.seq < 4096 → h.Fits e → ∃ agreement' h', step (agreement, h) e = some (agreement', h') ∧
      h.start ≤ h'.start ∧ h'.start ≤ h.start + 2048 :=
  transmit_window 4095 2 [.transmitted 4095, .acked 4095] (by decide) (by decide) (by decide) (by decide)
    ⟨trivial, fun s' hs => by
      obtain rfl := Option.some.inj hs
      exact ⟨fun _ => Set.mem_insert _ _, fun _ _ => trivial⟩⟩

end OriginatorBlockAckAgreement

end Ns3.Wifi
