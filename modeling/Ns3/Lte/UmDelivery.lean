import Ns3.Lte.SduDelivery
import Ns3.Lte.UmReordering

/-!
# From one UM RLC entity to another

A transmitting side that accepts SDUs and sends a PDU for each transmission opportunity, a channel that loses, repeats and
reorders PDUs, and a receiving side with its t-Reordering timer. The PDUs that were sent stay in the channel.

When the PDUs arrive one after the other, exactly the SDUs are delivered that are no more in the transmission buffer.
Whatever is lost, what is delivered are SDUs that were accepted, each at most once and in their order.
-/

namespace Ns3.Lte

open Ns3.Lib

/-- Two entities: the SDUs that were accepted, the transmission opportunities that were used with the PDUs that were sent,
and the numbers of those PDUs that have arrived, the last one first. -/
structure UmLink where
  tx : UmTransmitter
  rx : UmReceiver := {}
  accepted : List Bytes := []
  sent : List (Nat × Bytes) := []
  arrived : List Nat := []

/-- What happens to them. A PDU arrives by its number in the order of sending. -/
inductive UmCall where
  | transmitPdcpPdu (p : Bytes)
  | notifyTxOpportunity (bytes : Nat)
  | receivePdu (i : Nat)
  | expireReorderingTimer
deriving DecidableEq, Repr

theorem UmCarries.append {sdus : List Bytes} {c c' : Mark} {n : Nat} {packet : Bytes} (h : UmCarries sdus c c' n packet)
    (added : List Bytes) : UmCarries (sdus ++ added) c c' n packet := by
  obtain ⟨header, hheader, hsn, hframing, pieces, hpieces, hcut⟩ := h
  exact ⟨header, hheader, hsn, hframing, pieces, hpieces, hcut.append added⟩

instance UmReceiver.KeepsOrder.decidable (sn : Nat) (rx : UmReceiver) : Decidable (KeepsOrder sn rx) :=
  decidable_of_iff
    ((512 ≤ past rx.m_vrUh.m_value sn → ∀ low ∈ rx.m_rxBuffer.keys, ∀ high ∈ sn :: rx.m_rxBuffer.keys,
        512 ≤ past (sn + 1) low → past (sn + 1) high < 512 → low < high) ∧
      ¬ ((∀ k < 1024, rx.movedVrUr sn ≤ k → k ∈ sn :: rx.m_rxBuffer.keys) ∧ 0 ∈ sn :: rx.m_rxBuffer.keys))
    ⟨fun h => ⟨fun hpast low hlow high hhigh => h.1 hpast low hlow high (List.mem_cons.mpr hhigh),
        fun hover => h.2 ⟨fun k hk hk' => List.mem_cons.mpr (hover.1 k hk' hk), List.mem_cons.mpr hover.2⟩⟩,
      fun h => ⟨fun hpast low hlow high hhigh => h.leftBehind hpast low hlow high (List.mem_cons.mp hhigh),
        fun hover => h.wrap ⟨fun k hk hk' => List.mem_cons.mp (hover.1 k hk' hk), List.mem_cons.mp hover.2⟩⟩⟩

namespace UmLink

/-- Two entities that are new. -/
def new (m_maxTxBufferSize : Nat) : UmLink := { tx := { m_maxTxBufferSize } }

/-- One call. -/
def call (limit : Nat) : UmCall → UmLink → Option UmLink
  | .transmitPdcpPdu p, l =>
    some { l with
      tx := l.tx.transmitPdcpPdu p
      accepted := if l.tx.Accepts p then l.accepted ++ [p] else l.accepted }
  | .notifyTxOpportunity bytes, l =>
    (l.tx.notifyTxOpportunity bytes).map fun result =>
      { l with tx := result.2, sent := l.sent ++ result.1.toList.map fun packet => (bytes, packet) }
  | .receivePdu i, l =>
    match l.sent[i]? with
    | none => some l
    | some pdu => (l.rx.receivePdu limit pdu.2).map fun rx => { l with rx, arrived := i :: l.arrived }
  | .expireReorderingTimer, l =>
    if l.rx.m_reorderingTimer then (l.rx.expireReorderingTimer limit).map fun rx => { l with rx } else some l

/-- Calls one after the other. -/
def calls (limit : Nat) : List UmCall → UmLink → Option UmLink
  | [], l => some l
  | first :: rest, l => (l.call limit first).bind (calls limit rest)

/-- Each of these calls is allowed when it comes. -/
def Obey (Allowed : UmLink → UmCall → Prop) (limit : Nat) : List UmCall → UmLink → Prop
  | [], _ => True
  | first :: rest, l => Allowed l first ∧ ∀ l', l.call limit first = some l' → Obey Allowed limit rest l'

instance Obey.decidable {Allowed : UmLink → UmCall → Prop} [∀ l c, Decidable (Allowed l c)] (limit : Nat) :
    ∀ list l, Decidable (Obey Allowed limit list l)
  | [], _ => .isTrue trivial
  | first :: rest, l =>
    have := fun l' => @Obey.decidable Allowed _ limit rest l'
    inferInstanceAs (Decidable (Allowed l first ∧ ∀ l' ∈ l.call limit first, Obey Allowed limit rest l'))

/-- The number behind the highest one that has arrived. -/
def front (l : UmLink) : Nat := l.arrived.foldr (fun i n => max (i + 1) n) 0

/-- SDUs are not empty, the opportunities are below 2^16 bytes, and PDUs arrive one after the other. -/
def InSequence (l : UmLink) : UmCall → Prop
  | .transmitPdcpPdu p => p ≠ []
  | .notifyTxOpportunity bytes => bytes < 2 ^ 16
  | .receivePdu i => i = l.arrived.length
  | .expireReorderingTimer => True

instance InSequence.decidable (l : UmLink) : ∀ c, Decidable (l.InSequence c)
  | .transmitPdcpPdu p => inferInstanceAs (Decidable (p ≠ []))
  | .notifyTxOpportunity bytes => inferInstanceAs (Decidable (bytes < 2 ^ 16))
  | .receivePdu i => inferInstanceAs (Decidable (i = l.arrived.length))
  | .expireReorderingTimer => .isTrue trivial

/-- A PDU arrives when no more than 512 with higher numbers have arrived and fewer than 512 are missing before it, and it
meets neither slip of the reception buffer. -/
def NearBy (l : UmLink) : UmCall → Prop
  | .transmitPdcpPdu p => p ≠ []
  | .notifyTxOpportunity bytes => bytes < 2 ^ 16
  | .receivePdu i => l.front ≤ i + 512 ∧ i < l.front + 512 ∧ UmReceiver.KeepsOrder (i % 1024) l.rx
  | .expireReorderingTimer => True

instance NearBy.decidable (l : UmLink) : ∀ c, Decidable (l.NearBy c)
  | .transmitPdcpPdu p => inferInstanceAs (Decidable (p ≠ []))
  | .notifyTxOpportunity bytes => inferInstanceAs (Decidable (bytes < 2 ^ 16))
  | .receivePdu i => inferInstanceAs (Decidable (l.front ≤ i + 512 ∧ i < l.front + 512 ∧ UmReceiver.KeepsOrder (i % 1024) l.rx))
  | .expireReorderingTimer => .isTrue trivial

/-! ### What was sent -/

/-- The transmitting side, and the PDUs with the marks that they are between. -/
structure Sending (marks : Nat → Mark) (l : UmLink) : Prop where
  start : marks 0 = {}
  sends : SendsFrom l.accepted (marks l.sent.length) l.sent.length l.tx
  carries : ∀ {i : Nat} {pdu : Nat × Bytes}, l.sent[i]? = some pdu →
    pdu.2.length ≤ pdu.1 ∧ UmCarries l.accepted (marks i) (marks (i + 1)) i pdu.2

variable {marks : Nat → Mark} {l : UmLink}

theorem Sending.item_le (h : Sending marks l) {i j : Nat} (hle : i ≤ j) (hj : j ≤ l.sent.length) :
    (marks i).item ≤ (marks j).item := by
  induction j, hle using Nat.le_induction with
  | base => exact Nat.le_refl _
  | succ j _ ih =>
    obtain ⟨-, header, -, -, -, pieces, -, hcut⟩ := h.carries (List.getElem?_eq_getElem hj)
    exact (ih (Nat.le_of_succ_le hj)).trans hcut.item_le

/-- The marks up to that of the transmitting side are within the SDUs. -/
theorem Sending.within (h : Sending marks l) {i : Nat} (hi : i ≤ l.sent.length) : (marks i).Within l.accepted := by
  cases i with
  | zero =>
    rw [h.start]
    exact ⟨Nat.zero_le _, fun hne => absurd rfl hne⟩
  | succ i =>
    obtain ⟨-, header, -, -, -, pieces, -, hcut⟩ := h.carries (List.getElem?_eq_getElem hi)
    exact hcut.within

theorem sending_new (m : Nat) : Sending (fun _ => {}) (new m) := by
  refine ⟨rfl, ⟨⟨Nat.zero_le _, fun hne => absurd rfl hne⟩, fun sdu hsdu => absurd hsdu List.not_mem_nil, rfl, rfl, rfl⟩,
    fun {i pdu} hpdu => ?_⟩
  cases hpdu

theorem Sending.transmitPdcpPdu (h : Sending marks l) {p : Bytes} (hp : p ≠ []) :
    Sending marks { l with
      tx := l.tx.transmitPdcpPdu p
      accepted := if l.tx.Accepts p then l.accepted ++ [p] else l.accepted } := by
  refine ⟨h.start, h.sends.transmitPdcpPdu hp, fun {i pdu} hpdu => ?_⟩
  obtain ⟨hlength, hcarries⟩ := h.carries hpdu
  refine ⟨hlength, ?_⟩
  show UmCarries (if l.tx.Accepts p then l.accepted ++ [p] else l.accepted) _ _ _ _
  split
  · exact hcarries.append [p]
  · exact hcarries

/-- An opportunity is not used, or one more PDU is sent. -/
theorem Sending.notifyTxOpportunity (h : Sending marks l) {bytes : Nat} (hbytes : bytes < 2 ^ 16) :
    l.call 1024 (.notifyTxOpportunity bytes) = some l ∨
      ∃ l' pdu marks', l.call 1024 (.notifyTxOpportunity bytes) = some l' ∧ l'.sent = l.sent ++ [pdu] ∧
        l'.accepted = l.accepted ∧ l'.rx = l.rx ∧ l'.arrived = l.arrived ∧ (∀ i ≤ l.sent.length, marks' i = marks i) ∧
        Sending marks' l' := by
  rcases h.sends.notifyTxOpportunity hbytes with hnone | ⟨packet, tx', c', hsome, hlength, hcarries, hsends⟩
  · left
    rw [UmLink.call, hnone, Option.map_some]
    simp
  · right
    refine ⟨{ l with tx := tx', sent := l.sent ++ [(bytes, packet)] }, (bytes, packet),
      fun i => if i ≤ l.sent.length then marks i else c', ?_, rfl, rfl, rfl, rfl, fun i hi => if_pos hi, ?_, ?_,
      fun {i pdu} hpdu => ?_⟩
    · rw [UmLink.call, hsome, Option.map_some]
      simp
    · rw [if_pos (Nat.zero_le _), h.start]
    · rw [List.length_append, List.length_singleton, if_neg (by omega)]
      exact hsends
    · by_cases hi : i < l.sent.length
      · rw [List.getElem?_append_left hi] at hpdu
        rw [if_pos hi.le, if_pos (Nat.succ_le_of_lt hi)]
        exact h.carries hpdu
      · have hlt := (List.getElem?_eq_some_iff.mp hpdu).1
        rw [List.length_append, List.length_singleton] at hlt
        obtain rfl : i = l.sent.length := by omega
        rw [List.getElem?_concat_length] at hpdu
        obtain rfl := Option.some.inj hpdu
        rw [if_pos (Nat.le_refl _), if_neg (by omega)]
        exact ⟨hlength, hcarries⟩

/-! ### What arrives -/

/-- The PDU with a number that stands for the place of it among those that were sent. -/
def SentAt (l : UmLink) (y : Nat) (packet : Bytes) : Prop := ∃ i bytes, y = i + 1024 ∧ l.sent[i]? = some (bytes, packet)

theorem Sending.splittable (h : Sending marks l) (y : Nat) (packet : Bytes) (hsent : l.SentAt y packet) :
    UmReceiver.Splittable packet := by
  obtain ⟨i, bytes, -, hpdu⟩ := hsent
  obtain ⟨-, header, hheader, -, -, pieces, hpieces, -⟩ := h.carries hpdu
  exact ⟨header, pieces, hheader, hpieces⟩

/-- The header of a PDU as it is read, with what the PDU carries. -/
theorem Sending.read (h : Sending marks l) {j : Nat} {pdu : Nat × Bytes} (hpdu : l.sent[j]? = some pdu) :
    ∃ header, LteRlcHeader.deserialize pdu.2 = some header ∧ header.m_sequenceNumber.m_value = (j + 1024) % 1024 ∧
      Between l.accepted (marks j) (marks (j + 1)) (j + 1024)
        ⟨header.m_framingInfo, header.m_sequenceNumber, header.m_extensionBits, header.m_lengthIndicators⟩
        (pdu.2.drop header.getSerializedSize) := by
  obtain ⟨-, header, hheader, hbetween⟩ := h.carries hpdu
  have hsn : header.m_sequenceNumber.m_value = (j + 1024) % 1024 :=
    hbetween.sequenceNumber.trans (Nat.add_mod_right _ _).symm
  exact ⟨header, hheader, hsn, { hbetween with sequenceNumber := hsn }⟩

/-! ### PDUs are lost, repeated and reordered -/

/-- What is known of the reassembly: of the SDUs that the PDUs before a number complete, some have been delivered. -/
def KnownPartly (marks : Nat → Mark) (l : UmLink) (y : Nat) (r : Reassembly) : Prop :=
  ∃ i, y = i + 1024 ∧ i ≤ l.sent.length ∧ Partly l.accepted (marks i) y r

theorem Sending.takes_partly (h : Sending marks l) : UmReceiver.Takes (KnownPartly marks l) l.SentAt := by
  rintro e m r packet ⟨i, rfl, -, hknown⟩ ⟨j, bytes, rfl, hpdu⟩ hle hlt
  obtain ⟨header, hheader, hsn, hbetween⟩ := h.read hpdu
  have hj := (List.getElem?_eq_some_iff.mp hpdu).1
  obtain ⟨r', hr, hpartly⟩ := hknown.next hbetween hle (by omega) (h.item_le (by omega) hj.le) fun heq => by
    rw [show j = i by omega]
  refine ⟨r', ?_, j + 1, by omega, hj, hpartly⟩
  rw [umReassembleAndDeliver, hheader, Option.bind_some]
  exact hr

/-- What holds whatever the channel does: the window reaches up to the number behind the highest one that has arrived. -/
structure Lossy (marks : Nat → Mark) (l : UmLink) : Prop where
  sending : Sending marks l
  tracked : ∃ r x e, UmReceiver.Tracked (KnownPartly marks l) l.SentAt l.rx (l.front + 512) r x e

theorem lossy_new (m : Nat) : Lossy (fun _ => {}) (new m) := by
  refine ⟨sending_new m, 1024, 0, 1024, ?_⟩
  rw [show (new m).front = 0 from rfl]
  refine ⟨rfl, rfl, by omega, by omega, ⟨fun sn packet hpacket => ?_, ?_, Nat.le_refl _, fun y hy hy' => by omega⟩, rfl, rfl,
    fun hfalse => absurd hfalse Bool.false_ne_true⟩
  · cases hpacket
  · exact ⟨0, rfl, Nat.le_refl _, rfl, rfl, List.Sublist.refl _, .inl rfl⟩

theorem Lossy.call (h : Lossy marks l) {c : UmCall} (hnear : l.NearBy c) :
    ∃ marks' l', l.call 1024 c = some l' ∧ Lossy marks' l' := by
  obtain ⟨r, x, e, htracked⟩ := h.tracked
  cases c with
  | transmitPdcpPdu p =>
    refine ⟨marks, _, rfl, h.sending.transmitPdcpPdu hnear, r, x, e, htracked.mono (fun y r hknown => ?_) fun _ _ hsent => hsent⟩
    obtain ⟨i, hy, hi, hpartly⟩ := hknown
    refine ⟨i, hy, hi, ?_⟩
    show Partly (if l.tx.Accepts p then l.accepted ++ [p] else l.accepted) _ _ _
    split
    · exact hpartly.append (h.sending.within hi) [p]
    · exact hpartly
  | notifyTxOpportunity bytes =>
    rcases h.sending.notifyTxOpportunity hnear with hnone | ⟨l', pdu, marks', hcall, hsent', haccepted, hrx, harrived, hmarks, hsending⟩
    · exact ⟨marks, l, hnone, h⟩
    · refine ⟨marks', l', hcall, hsending, r, x, e, ?_⟩
      rw [hrx, front, harrived]
      refine htracked.mono (fun y r hknown => ?_) fun y packet hsent => ?_
      · obtain ⟨i, hy, hi, hpartly⟩ := hknown
        refine ⟨i, hy, ?_, ?_⟩
        · rw [hsent', List.length_append]
          omega
        · rw [hmarks i hi, haccepted]
          exact hpartly
      · obtain ⟨i, bytes, hy, hpdu⟩ := hsent
        refine ⟨i, bytes, hy, ?_⟩
        rw [hsent', List.getElem?_append_left (List.getElem?_eq_some_iff.mp hpdu).1]
        exact hpdu
  | receivePdu i =>
    obtain ⟨hbehind, hahead, hkeeps⟩ := hnear
    rw [UmLink.call]
    cases hpdu : l.sent[i]? with
    | none => exact ⟨marks, l, rfl, h⟩
    | some pdu =>
      obtain ⟨header, hheader, hsn, -⟩ := h.sending.read hpdu
      rw [← Nat.add_mod_right i 1024] at hkeeps
      obtain ⟨rx', r', x', e', hreceive, -, -, htracked'⟩ := htracked.receive h.sending.takes_partly h.sending.splittable hsn
        (by omega) (by omega) ⟨i, pdu.1, rfl, hpdu⟩ hkeeps
      refine ⟨marks, { l with rx := rx', arrived := i :: l.arrived }, ?_, ⟨h.sending.start, h.sending.sends, h.sending.carries⟩,
        r', x', e', ?_⟩
      · show (l.rx.receivePdu 1024 pdu.2).map _ = _
        rw [UmReceiver.receivePdu, hheader, Option.bind_some, hreceive]
        rfl
      · have hfront : ({ l with rx := rx', arrived := i :: l.arrived } : UmLink).front = max (i + 1) l.front := rfl
        rw [hfront, show max (i + 1) l.front + 512 = max (l.front + 512) (i + 1024 - 511) by omega]
        exact htracked'
  | expireReorderingTimer =>
    rw [UmLink.call]
    by_cases hrunning : l.rx.m_reorderingTimer = true
    · obtain ⟨rx', r', x', e', hexpire, -, -, htracked'⟩ :=
        htracked.expireReorderingTimer h.sending.takes_partly h.sending.splittable hrunning
      refine ⟨marks, { l with rx := rx' }, ?_, ⟨h.sending.start, h.sending.sends, h.sending.carries⟩, r', x', e', htracked'⟩
      rw [if_pos hrunning, hexpire]
      rfl
    · exact ⟨marks, l, if_neg hrunning, h⟩

theorem Lossy.calls {list : List UmCall} (h : Lossy marks l) (hobey : Obey NearBy 1024 list l) :
    ∃ marks' l', l.calls 1024 list = some l' ∧ Lossy marks' l' := by
  induction list generalizing marks l with
  | nil => exact ⟨marks, l, rfl, h⟩
  | cons first rest ih =>
    obtain ⟨marks₁, l₁, hcall, h₁⟩ := h.call hobey.1
    obtain ⟨marks', l', hcalls, h'⟩ := ih h₁ (hobey.2 l₁ hcall)
    exact ⟨marks', l', by rw [UmLink.calls, hcall, Option.bind_some, hcalls], h'⟩

/-- What two entities promise whatever is lost, repeated or reordered: the SDUs that were delivered are SDUs that were
accepted, each at most once and in their order; a PDU fits into its opportunity, and the size of the buffer is that of what
is in it. -/
structure DeliversWhole (l : UmLink) : Prop where
  delivered : l.rx.reassembly.received.Sublist l.accepted
  done : l.rx.reassembly.m_sdusBuffer = []
  fits : ∀ pdu ∈ l.sent, pdu.2.length ≤ pdu.1
  size : l.tx.m_txBufferSize = totalSize l.tx.m_txBuffer % 2 ^ 32

theorem Sending.fits (h : Sending marks l) : ∀ pdu ∈ l.sent, pdu.2.length ≤ pdu.1 := by
  intro pdu hpdu
  obtain ⟨i, hi⟩ := List.mem_iff_getElem?.mp hpdu
  exact (h.carries hi).1

/-- Only whole SDUs are delivered, in their order. -/
theorem um_delivers_whole (m : Nat) (list : List UmCall) (hobey : Obey NearBy 1024 list (new m)) :
    ∃ l, (new m).calls 1024 list = some l ∧ DeliversWhole l := by
  obtain ⟨marks, l, hcalls, hlossy⟩ := (lossy_new m).calls hobey
  obtain ⟨r, x, e, htracked⟩ := hlossy.tracked
  obtain ⟨i, -, -, hpartly⟩ := htracked.content.known
  exact ⟨l, hcalls, hpartly.received.trans (List.take_sublist _ _), hpartly.buffer, hlossy.sending.fits,
    hlossy.sending.sends.size⟩

/-- The first PDU is lost, and the other two change places: the second SDU is delivered, when the timer has expired. -/
theorem um_delivers_whole_lost :
    Obey NearBy 1024 [.transmitPdcpPdu [1, 2, 3], .transmitPdcpPdu [4], .notifyTxOpportunity 4, .notifyTxOpportunity 3,
        .notifyTxOpportunity 10, .receivePdu 2, .receivePdu 1, .expireReorderingTimer] (new 100) ∧
      ∃ l, (new 100).calls 1024 [.transmitPdcpPdu [1, 2, 3], .transmitPdcpPdu [4], .notifyTxOpportunity 4,
        .notifyTxOpportunity 3, .notifyTxOpportunity 10, .receivePdu 2, .receivePdu 1, .expireReorderingTimer] = some l ∧
        DeliversWhole l :=
  ⟨by decide +kernel, um_delivers_whole 100 _ (by decide +kernel)⟩

/-! ### PDUs arrive one after the other -/

/-- What is known of the reassembly from the next PDU on: what the PDUs before complete has been delivered. -/
def KnownAll (marks : Nat → Mark) (l : UmLink) (n y : Nat) (r : Reassembly) : Prop :=
  ∃ i, y = i + 1024 ∧ n ≤ i ∧ Reassembled l.accepted (marks i) y r

/-- The next PDU. -/
def NextAt (l : UmLink) (n y : Nat) (packet : Bytes) : Prop := y = n + 1024 ∧ ∃ bytes, l.sent[n]? = some (bytes, packet)

theorem Sending.takes_all (h : Sending marks l) (n : Nat) : UmReceiver.Takes (KnownAll marks l n) (l.NextAt n) := by
  rintro e m r packet ⟨i, rfl, hi, hknown⟩ ⟨rfl, bytes, hpdu⟩ hle -
  obtain rfl : i = n := by omega
  obtain ⟨header, hheader, -, hbetween⟩ := h.read hpdu
  obtain ⟨r', hr, hnext⟩ := hknown.next hbetween true
  refine ⟨r', ?_, i + 1, by omega, Nat.le_succ i, hnext⟩
  rw [umReassembleAndDeliver, hheader, Option.bind_some]
  exact hr

/-- What holds between calls when nothing is lost: the buffer is empty, and the SDUs that the PDUs complete that have
arrived have been delivered. -/
structure InStep (marks : Nat → Mark) (l : UmLink) : Prop where
  sending : Sending marks l
  le : l.arrived.length ≤ l.sent.length
  vrUh : l.rx.m_vrUh.m_value = l.arrived.length % 1024
  vrUr : l.rx.m_vrUr.m_value = l.arrived.length % 1024
  empty : ∀ sn, l.rx.m_rxBuffer.lookup sn = none
  idle : l.rx.m_reorderingTimer = false
  reassembled : Reassembled l.accepted (marks l.arrived.length) l.arrived.length l.rx.reassembly

theorem inStep_new (m : Nat) : InStep (fun _ => {}) (new m) :=
  ⟨sending_new m, Nat.le_refl _, rfl, rfl, fun _ => rfl, rfl, rfl, rfl, rfl, fun _ => rfl, fun hne => absurd rfl hne⟩

/-- Neither slip is met when nothing is buffered. -/
theorem keepsOrder_of_empty {rx : UmReceiver} (hempty : ∀ sn, rx.m_rxBuffer.lookup sn = none) (hvrUr : rx.m_vrUr.m_value < 1024)
    (sn : Nat) : UmReceiver.KeepsOrder sn rx := by
  have hnone : ∀ k, k ∉ rx.m_rxBuffer := fun k hk => by
    have hsome := AList.lookup_isSome.mpr hk
    rw [hempty k] at hsome
    cases hsome
  refine ⟨fun _ low hlow => absurd hlow (hnone low), fun hover => ?_⟩
  obtain rfl := hover.2.resolve_right (hnone 0)
  have hlt : rx.movedVrUr 0 < 1024 := by
    rw [UmReceiver.movedVrUr]
    split
    · exact hvrUr
    · exact Nat.mod_lt _ (by decide)
  have heq := (hover.1 (max (rx.movedVrUr 0) 1) (Nat.le_max_left _ _) (by omega)).resolve_right (hnone _)
  omega

theorem InStep.tracked (h : InStep marks l) :
    UmReceiver.Tracked (KnownAll marks l l.arrived.length) (l.NextAt l.arrived.length) l.rx (l.arrived.length + 512)
      (l.arrived.length + 1024) 0 (l.arrived.length + 1024) := by
  refine ⟨?_, ?_, by omega, by omega, ⟨fun sn packet hpacket => ?_, ?_, Nat.le_refl _, fun y hy hy' => by omega⟩,
    h.empty _, ?_, fun htrue => ?_⟩
  · rw [h.vrUh]
    omega
  · rw [h.vrUr]
    omega
  · cases (h.empty sn).symm.trans hpacket
  · refine ⟨l.arrived.length, rfl, Nat.le_refl _, { h.reassembled with expected := ?_ }⟩
    rw [h.reassembled.expected]
    omega
  · rw [h.idle, decide_eq_false (by omega)]
  · cases h.idle.symm.trans htrue

/-- The next PDU arrives. -/
theorem InStep.receive (h : InStep marks l) {pdu : Nat × Bytes} (hpdu : l.sent[l.arrived.length]? = some pdu) :
    ∃ rx, l.rx.receivePdu 1024 pdu.2 = some rx ∧ InStep marks { l with rx, arrived := l.arrived.length :: l.arrived } := by
  generalize hn : l.arrived.length = n at *
  obtain ⟨header, hheader, hsn, -⟩ := h.sending.read hpdu
  have htracked := h.tracked
  rw [hn] at htracked
  have hsplit : ∀ y packet, l.NextAt n y packet → UmReceiver.Splittable packet := by
    rintro y packet ⟨rfl, bytes, hpacket⟩
    exact h.sending.splittable (n + 1024) packet ⟨n, bytes, rfl, hpacket⟩
  have hkeeps : UmReceiver.KeepsOrder ((n + 1024) % 1024) l.rx :=
    keepsOrder_of_empty h.empty (by rw [h.vrUr]; exact Nat.mod_lt _ (by decide)) _
  obtain ⟨rx', r', x', e', hreceive, -, -, hnext⟩ := htracked.receive (h.sending.takes_all n) hsplit hsn (by omega) (by omega)
    ⟨rfl, pdu.1, hpdu⟩ hkeeps
  have hb : max (n + 512) (n + 1024 - 511) = n + 513 := by omega
  rw [hb] at hnext
  obtain ⟨i, rfl, hi, hreassembled⟩ := hnext.content.known
  have hle := hnext.content.le
  have hhigh := hnext.high
  -- the PDU cannot be left in the buffer, as it would be the one that VR(UR) waits for
  have hdone : i = n + 1 := by
    by_contra hne
    obtain ⟨z, hz, hz', -, hz'', hpresent⟩ := hnext.content.dense (i + 1024) (Nat.le_refl _) (by omega)
    exact hpresent ((show r' = z by omega) ▸ hnext.missing)
  subst hdone
  have hr : r' = n + 1 + 1024 := by omega
  have hlt := (List.getElem?_eq_some_iff.mp hpdu).1
  refine ⟨rx', ?_, ⟨⟨h.sending.start, h.sending.sends, h.sending.carries⟩, ?_, ?_, ?_, ?_, ?_, ?_⟩⟩
  · rw [UmReceiver.receivePdu, hheader, Option.bind_some, hreceive]
  · show (n :: l.arrived).length ≤ _
    rw [List.length_cons, hn]
    exact hlt
  · show rx'.m_vrUh.m_value = (n :: l.arrived).length % 1024
    rw [List.length_cons, hn, hnext.vrUh]
    omega
  · show rx'.m_vrUr.m_value = (n :: l.arrived).length % 1024
    rw [List.length_cons, hn, hnext.vrUr]
    omega
  · exact hnext.content.missing_of_le (by omega)
  · show rx'.m_reorderingTimer = false
    rw [hnext.running, decide_eq_false (by omega)]
  · show Reassembled l.accepted (marks (n :: l.arrived).length) (n :: l.arrived).length rx'.reassembly
    rw [List.length_cons, hn]
    exact { hreassembled with expected := hreassembled.expected.trans (Nat.add_mod_right _ _) }

theorem InStep.call (h : InStep marks l) {c : UmCall} (hnext : l.InSequence c) :
    ∃ marks' l', l.call 1024 c = some l' ∧ InStep marks' l' := by
  cases c with
  | transmitPdcpPdu p =>
    refine ⟨marks, _, rfl, h.sending.transmitPdcpPdu hnext, h.le, h.vrUh, h.vrUr, h.empty, h.idle, ?_⟩
    show Reassembled (if l.tx.Accepts p then l.accepted ++ [p] else l.accepted) _ _ _
    split
    · exact h.reassembled.append (h.sending.within h.le) [p]
    · exact h.reassembled
  | notifyTxOpportunity bytes =>
    rcases h.sending.notifyTxOpportunity hnext with hnone | ⟨l', pdu, marks', hcall, hsent, haccepted, hrx, harrived, hmarks, hsending⟩
    · exact ⟨marks, l, hnone, h⟩
    · refine ⟨marks', l', hcall, hsending, ?_, ?_, ?_, ?_, ?_, ?_⟩
      · rw [harrived, hsent, List.length_append]
        exact h.le.trans (Nat.le_add_right _ _)
      · rw [hrx, harrived]
        exact h.vrUh
      · rw [hrx, harrived]
        exact h.vrUr
      · rw [hrx]
        exact h.empty
      · rw [hrx]
        exact h.idle
      · rw [hrx, harrived, haccepted, hmarks _ h.le]
        exact h.reassembled
  | receivePdu i =>
    obtain rfl : i = l.arrived.length := hnext
    rw [UmLink.call]
    cases hpdu : l.sent[l.arrived.length]? with
    | none => exact ⟨marks, l, rfl, h⟩
    | some pdu =>
      obtain ⟨rx, hreceive, hin⟩ := h.receive hpdu
      refine ⟨marks, _, ?_, hin⟩
      show (l.rx.receivePdu 1024 pdu.2).map _ = _
      rw [hreceive]
      rfl
  | expireReorderingTimer =>
    exact ⟨marks, l, if_neg (by rw [h.idle]; exact Bool.false_ne_true), h⟩

theorem InStep.calls {list : List UmCall} (h : InStep marks l) (hobey : Obey InSequence 1024 list l) :
    ∃ marks' l', l.calls 1024 list = some l' ∧ InStep marks' l' := by
  induction list generalizing marks l with
  | nil => exact ⟨marks, l, rfl, h⟩
  | cons first rest ih =>
    obtain ⟨marks₁, l₁, hcall, h₁⟩ := h.call hobey.1
    obtain ⟨marks', l', hcalls, h'⟩ := ih h₁ (hobey.2 l₁ hcall)
    exact ⟨marks', l', by rw [UmLink.calls, hcall, Option.bind_some, hcalls], h'⟩

/-- Of each of these SDUs something is still in the buffer, to its end. -/
def Pending (sdus : List Bytes) (buffer : List Sdu) : Prop :=
  List.Forall₂ (fun sdu queued => queued.bytes ≠ [] ∧ queued.bytes <:+ sdu) sdus buffer

/-- What two entities promise when the PDUs arrive one after the other: what was delivered is the beginning of what was
accepted; when all PDUs have arrived, the others are those of which something has not been sent. Nothing is left in the
reception buffer, and t-Reordering does not run. -/
structure DeliversAll (l : UmLink) : Prop where
  delivered : l.rx.reassembly.received <+: l.accepted
  pending : l.arrived.length = l.sent.length →
    Pending (l.accepted.drop l.rx.reassembly.received.length) l.tx.m_txBuffer
  empty : ∀ sn, sn ∉ l.rx.m_rxBuffer
  idle : l.rx.m_reorderingTimer = false
  fits : ∀ pdu ∈ l.sent, pdu.2.length ≤ pdu.1
  size : l.tx.m_txBufferSize = totalSize l.tx.m_txBuffer % 2 ^ 32

theorem pending_queueAt {sdus : List Bytes} {c : Mark} (hne : ∀ sdu ∈ sdus, sdu ≠ []) (hc : c.Within sdus) :
    Pending (sdus.drop c.item) (queueAt sdus c) := by
  have hwhole : ∀ rest : List Bytes, (∀ sdu ∈ rest, sdu ≠ []) → Pending rest (rest.map fun sdu => ⟨sdu, .fullSdu⟩) := by
    intro rest hrest
    induction rest with
    | nil => exact .nil
    | cons sdu rest ih =>
      exact .cons ⟨hrest sdu List.mem_cons_self, List.suffix_refl _⟩ (ih fun s hs => hrest s (List.mem_cons_of_mem _ hs))
  have hqueued := queued_queueAt hne hc
  cases hitem : sdus[c.item]? with
  | none =>
    rw [queueAt, List.drop_eq_nil_of_le (List.getElem?_eq_none_iff.mp hitem)]
    exact .nil
  | some first =>
    obtain ⟨hlt, hfirst⟩ := List.getElem?_eq_some_iff.mp hitem
    rw [queueAt_of_item hitem] at hqueued ⊢
    rw [List.drop_eq_getElem_cons hlt, hfirst]
    exact .cons ⟨List.length_pos_iff.mp (hqueued _ List.mem_cons_self).ne_nil, List.drop_suffix _ _⟩
      (hwhole _ fun sdu hsdu => hne sdu (List.mem_of_mem_drop hsdu))

/-- Segmentation and reassembly are inverse. -/
theorem um_delivers_all (m : Nat) (list : List UmCall) (hobey : Obey InSequence 1024 list (new m)) :
    ∃ l, (new m).calls 1024 list = some l ∧ DeliversAll l := by
  obtain ⟨marks, l, hcalls, h⟩ := (inStep_new m).calls hobey
  have hwithin := h.sending.within h.le
  refine ⟨l, hcalls, ?_, fun hall => ?_, fun sn hsn => ?_, h.idle, h.sending.fits, h.sending.sends.size⟩
  · rw [h.reassembled.received]
    exact List.take_prefix _ _
  · rw [h.reassembled.received, List.length_take_of_le hwithin.1, hall, h.sending.sends.buffer]
    exact pending_queueAt h.sending.sends.nonempty h.sending.sends.within
  · have hsome := AList.lookup_isSome.mpr hsn
    rw [h.empty sn] at hsome
    cases hsome

/-- An SDU is delivered that was sent in two PDUs. -/
theorem um_delivers_all_two :
    Obey InSequence 1024 [.transmitPdcpPdu [1, 2, 3], .notifyTxOpportunity 4, .receivePdu 0, .notifyTxOpportunity 10,
        .receivePdu 1] (new 100) ∧
      ∃ l, (new 100).calls 1024 [.transmitPdcpPdu [1, 2, 3], .notifyTxOpportunity 4, .receivePdu 0, .notifyTxOpportunity 10,
        .receivePdu 1] = some l ∧ DeliversAll l :=
  ⟨by decide +kernel, um_delivers_all 100 _ (by decide +kernel)⟩

end UmLink

end Ns3.Lte
