import Ns3.Fec.Decode

/-!
# Searches and scans of ascending lists

The entries of a round, and those of one of its groups, are entered in ascending serial
order. On such a list the searches mark one entry, and the counts are counts over the
whole list of the unmarked entries below a bound.
-/

namespace Ns3.Fec

variable {H : Type}

/-- Entries in strictly ascending serial order. -/
def Ascending (es : List (PacketInfo H)) : Prop := es.Pairwise fun a b => a.serial_ < b.serial_

/-- The entry as received, when it is the one with this serial. -/
def mark (serial : UInt32) (e : PacketInfo H) : PacketInfo H :=
  if e.serial_ = serial then { e with check_ := true } else e

/-- The entry with its request flag taken back. -/
def unflag (e : PacketInfo H) : PacketInfo H := { e with flag_ := false }

/-- An unmarked entry below a bound. -/
def lost (bound : UInt32) (e : PacketInfo H) : Bool := !e.check_ && decide (e.serial_ < bound)

@[simp] theorem serial_mark (serial : UInt32) (e : PacketInfo H) :
    (mark serial e).serial_ = e.serial_ := by
  unfold mark
  split <;> rfl

@[simp] theorem gid_mark (serial : UInt32) (e : PacketInfo H) : (mark serial e).gid_ = e.gid_ := by
  unfold mark
  split <;> rfl

@[simp] theorem flag_mark (serial : UInt32) (e : PacketInfo H) :
    (mark serial e).flag_ = e.flag_ := by
  unfold mark
  split <;> rfl

theorem mark_of_ne {serial : UInt32} {e : PacketInfo H} (h : e.serial_ ≠ serial) :
    mark serial e = e := if_neg h

theorem mark_of_eq {serial : UInt32} {e : PacketInfo H} (h : e.serial_ = serial) :
    mark serial e = { e with check_ := true } := if_pos h

@[simp] theorem check_mark (serial : UInt32) (e : PacketInfo H) :
    (mark serial e).check_ = (e.check_ || decide (e.serial_ = serial)) := by
  unfold mark
  split
  · next h => simp [h]
  · next h => simp [h]

/-- Marking keeps the order. -/
theorem Ascending.mark {es : List (PacketInfo H)} (h : Ascending es) (serial : UInt32) :
    Ascending (es.map (mark serial)) := by
  simpa [Ascending, List.pairwise_map] using h

/-- A group's entries are in the order of the round's. -/
theorem Ascending.filter {es : List (PacketInfo H)} (h : Ascending es)
    (p : PacketInfo H → Bool) : Ascending (es.filter p) := List.Pairwise.filter p h

/-- Two entries of an ascending list with the same serial are the same. -/
theorem Ascending.eq_of_serial {es : List (PacketInfo H)} (h : Ascending es) {a b : PacketInfo H}
    (ha : a ∈ es) (hb : b ∈ es) (hab : a.serial_ = b.serial_) : a = b := by
  induction es with
  | nil => cases ha
  | cons e es ih =>
    obtain ⟨he, hes⟩ := List.pairwise_cons.mp h
    rcases List.mem_cons.mp ha with rfl | ha' <;> rcases List.mem_cons.mp hb with rfl | hb'
    · rfl
    · exact absurd (he b hb') (by grind)
    · exact absurd (he a ha') (by grind)
    · exact ih hes ha' hb'

private theorem map_mark_of_lt {serial : UInt32} {es : List (PacketInfo H)}
    (h : ∀ e ∈ es, serial < e.serial_) : es.map (mark serial) = es := by
  have hid : ∀ e ∈ es, mark serial e = e := fun e he => mark_of_ne (by have := h e he; grind)
  rw [List.map_congr_left hid, List.map_id']

/-- `MarkRoundFecTable` on an ascending list that has the packet. -/
theorem markRoundEntry_of_mem {es : List (PacketInfo H)} (hes : Ascending es) {serial : UInt32}
    {gid : UInt8} (h : ∃ e ∈ es, e.serial_ = serial ∧ e.gid_ = gid) :
    markRoundEntry serial gid es = some (es.map (mark serial)) := by
  induction es with
  | nil =>
    obtain ⟨e, he, -⟩ := h
    cases he
  | cons a es ih =>
    obtain ⟨ha, hes'⟩ := List.pairwise_cons.mp hes
    obtain ⟨e, he, hser, hgid⟩ := h
    rw [markRoundEntry]
    by_cases heq : a.serial_ = serial
    · have hea : e = a := hes.eq_of_serial he (by simp) (hser.trans heq.symm)
      subst hea
      rw [if_pos ⟨hser, hgid⟩, List.map_cons, mark_of_eq hser, map_mark_of_lt]
      exact fun e' he' => hser ▸ ha e' he'
    · have hmem : e ∈ es := by
        rcases List.mem_cons.mp he with rfl | h
        · exact absurd hser heq
        · exact h
      rw [if_neg (fun h => heq h.1), ih hes' ⟨e, hmem, hser, hgid⟩, List.map_cons, mark_of_ne heq]
      rfl

private theorem countP_lost_of_le {bound : UInt32} {es : List (PacketInfo H)}
    (h : ∀ e ∈ es, bound ≤ e.serial_) : es.countP (lost bound) = 0 := by
  rw [List.countP_eq_zero]
  intro e he
  have hle := h e he
  have hlt : ¬ e.serial_ < bound := by grind
  simp [lost, hlt]

private theorem add_ofNat_succ (n : UInt32) (k : Nat) :
    n + 1 + UInt32.ofNat k = n + UInt32.ofNat (k + 1) := by
  rw [UInt32.ofNat_add, UInt32.add_assoc, UInt32.add_comm (UInt32.ofNat k)]
  rfl

/-- `MarkGroupFecTable` on an ascending list that has the packet. -/
theorem markGroupEntry_of_mem {es : List (PacketInfo H)} (hes : Ascending es) {serial : UInt32}
    (h : ∃ e ∈ es, e.serial_ = serial) (n : UInt32) :
    markGroupEntry serial es n =
      some (es.map (mark serial), n + UInt32.ofNat (es.countP (lost serial))) := by
  induction es generalizing n with
  | nil =>
    obtain ⟨e, he, -⟩ := h
    cases he
  | cons a es ih =>
    obtain ⟨ha, hes'⟩ := List.pairwise_cons.mp hes
    obtain ⟨e, he, hser⟩ := h
    rw [markGroupEntry]
    by_cases heq : a.serial_ = serial
    · have hcount : (a :: es).countP (lost serial) = 0 := by
        apply countP_lost_of_le
        intro e' he'
        rcases List.mem_cons.mp he' with rfl | h'
        · grind
        · have := ha e' h'
          grind
      rw [if_pos heq, hcount, List.map_cons, mark_of_eq heq, map_mark_of_lt]
      · simp
      · exact fun e' he' => heq ▸ ha e' he'
    · have hmem : e ∈ es := by
        rcases List.mem_cons.mp he with rfl | h
        · exact absurd hser heq
        · exact h
      have hlt : a.serial_ < serial := hser ▸ ha e hmem
      rw [if_neg heq]
      dsimp only
      rw [ih hes' ⟨e, hmem, hser⟩, List.map_cons, mark_of_ne heq, List.countP_cons]
      cases hc : a.check_ with
      | false => simp [lost, hc, hlt, add_ofNat_succ]
      | true => simp [lost, hc]

/-- `CheckGroupFecTable` on an ascending list that has the packet: the count, and the last
lost entry when there is one and it is the only one. -/
theorem checkGroupEntry_of_mem {es : List (PacketInfo H)} (hes : Ascending es) {serial : UInt32}
    (h : ∃ e ∈ es, e.serial_ = serial) (nlost m : UInt32) (rec : Option (PacketInfo H)) :
    checkGroupEntry serial nlost es m rec =
      some (m + UInt32.ofNat (es.countP (lost serial)),
        if nlost = 1 ∧ m + UInt32.ofNat (es.countP (lost serial)) = 1 then
          (es.filter (lost serial)).getLast?.or rec
        else none) := by
  induction es generalizing m rec with
  | nil =>
    obtain ⟨e, he, -⟩ := h
    cases he
  | cons a es ih =>
    obtain ⟨ha, hes'⟩ := List.pairwise_cons.mp hes
    obtain ⟨e, he, hser⟩ := h
    rw [checkGroupEntry]
    by_cases heq : a.serial_ = serial
    · have hle : ∀ e' ∈ a :: es, serial ≤ e'.serial_ := by
        intro e' he'
        rcases List.mem_cons.mp he' with rfl | h'
        · grind
        · have := ha e' h'
          grind
      have hnil : (a :: es).filter (lost serial) = [] := by
        rw [← List.length_eq_zero_iff, ← List.countP_eq_length_filter, countP_lost_of_le hle]
      rw [if_pos heq, countP_lost_of_le hle, hnil]
      simp
    · have hmem : e ∈ es := by
        rcases List.mem_cons.mp he with rfl | h
        · exact absurd hser heq
        · exact h
      have hlt : a.serial_ < serial := hser ▸ ha e hmem
      rw [if_neg heq, List.countP_cons]
      cases hc : a.check_ with
      | false =>
        have hlost : lost serial a = true := by simp [lost, hc, hlt]
        rw [if_pos ⟨hlt, rfl⟩, ih hes' ⟨e, hmem, hser⟩, List.filter_cons_of_pos hlost]
        simp only [hlost, if_true, add_ofNat_succ]
        by_cases hn : nlost = 1
        · simp only [hn, if_true, true_and, List.getLast?_cons]
          cases (es.filter (lost serial)).getLast? <;> rfl
        · simp only [hn, if_false, false_and]
      | true =>
        have hlost : ¬ lost serial a = true := by simp [lost, hc]
        rw [if_neg (by simp), ih hes' ⟨e, hmem, hser⟩, List.filter_cons_of_neg hlost]
        simp only [hlost]
        rfl

/-! ### The scan of a round -/

/-- The entries a data packet's scan reaches. -/
def reached (tag : FecTag) (e : PacketInfo H) : Bool :=
  decide (tag.m_type = 1 → e.serial_ ≤ tag.m_serial)

/-- The entry a scan asks a retransmission for. -/
def asks (tag : FecTag) (bound : UInt32) (request : Bool) (e : PacketInfo H) : Bool :=
  lost bound e && reached tag e && decide (tag.m_type = 1) && !e.flag_ && request

/-- The entry as the scan leaves it. -/
def flagAsked (tag : FecTag) (bound : UInt32) (request : Bool) (e : PacketInfo H) :
    PacketInfo H :=
  if asks tag bound request e then { e with flag_ := true } else e

@[simp] theorem unflag_flagAsked (tag : FecTag) (bound : UInt32) (request : Bool)
    (e : PacketInfo H) : unflag (flagAsked tag bound request e) = unflag e := by
  unfold flagAsked
  split <;> rfl

private theorem not_reached {tag : FecTag} (htype : tag.m_type = 1) {es : List (PacketInfo H)}
    (h : ∀ e ∈ es, tag.m_serial < e.serial_) : ∀ e ∈ es, reached tag e = false := by
  intro e he
  have hlt := h e he
  have hle : ¬ e.serial_ ≤ tag.m_serial := by grind
  simp [reached, htype, hle]

private theorem scanRound_cons (tag : FecTag) (bound : UInt32) (request : Bool)
    (e : PacketInfo H) (es : List (PacketInfo H)) (n : UInt32) (hreach : reached tag e = true) :
    scanRound tag bound request (e :: es) n =
      if tag.m_type = 1 ∧ tag.m_serial = e.serial_ then
        ⟨if lost bound e then n + 1 else n, flagAsked tag bound request e :: es,
          if asks tag bound request e then [e] else []⟩
      else
        ⟨(scanRound tag bound request es (if lost bound e then n + 1 else n)).sumlost,
          flagAsked tag bound request e ::
            (scanRound tag bound request es (if lost bound e then n + 1 else n)).pi,
          (if asks tag bound request e then [e] else []) ++
            (scanRound tag bound request es (if lost bound e then n + 1 else n)).asked⟩ := by
  have hlost : (e.check_ = false ∧ e.serial_ < bound) ↔ lost bound e = true := by
    simp [lost]
  have hask : ((e.check_ = false ∧ e.serial_ < bound) ∧ tag.m_type = 1 ∧ e.flag_ = false ∧
      request = true) ↔ asks tag bound request e = true := by
    simp only [asks, hreach, Bool.and_true, Bool.and_eq_true, decide_eq_true_eq,
      Bool.not_eq_true', hlost]
    tauto
  rw [scanRound]
  simp only [hask, flagAsked]
  split <;> simp only [hlost]

/-- The scan on an ascending list that has the data packet: a count, a flag and a list of
requests over the entries it reaches. -/
theorem scanRound_eq {tag : FecTag} {es : List (PacketInfo H)} (hes : Ascending es)
    (bound : UInt32) (request : Bool) (n : UInt32)
    (hown : tag.m_type = 1 → ∃ o ∈ es, o.serial_ = tag.m_serial) :
    scanRound tag bound request es n =
      ⟨n + UInt32.ofNat (es.countP fun e => lost bound e && reached tag e),
        es.map (flagAsked tag bound request), es.filter (asks tag bound request)⟩ := by
  induction es generalizing n with
  | nil => simp [scanRound]
  | cons a es ih =>
    obtain ⟨ha, hes'⟩ := List.pairwise_cons.mp hes
    have hreach : reached tag a = true := by
      rw [reached, decide_eq_true_eq]
      intro htype
      obtain ⟨o, ho, hser⟩ := hown htype
      rcases List.mem_cons.mp ho with rfl | ho
      · grind
      · have := ha o ho
        grind
    rw [scanRound_cons tag bound request a es n hreach]
    split
    · next hstop =>
      -- the packet's own entry: the rest is not reached
      have hrest : ∀ e ∈ es, reached tag e = false :=
        not_reached hstop.1 fun e he => hstop.2 ▸ ha e he
      have hflag : ∀ e ∈ es, flagAsked tag bound request e = e := by
        intro e he
        simp [flagAsked, asks, hrest e he]
      have hasks : es.filter (asks tag bound request) = [] := by
        apply List.filter_eq_nil_iff.mpr
        intro e he
        simp [asks, hrest e he]
      have hcount : (es.countP fun e => lost bound e && reached tag e) = 0 := by
        rw [List.countP_eq_zero]
        intro e he
        simp [hrest e he]
      rw [List.countP_cons, hcount, List.map_cons, List.map_congr_left hflag, List.map_id',
        List.filter_cons, hasks]
      cases lost bound a <;> simp [hreach]
    · next hgo =>
      have hown' : tag.m_type = 1 → ∃ o ∈ es, o.serial_ = tag.m_serial := by
        intro htype
        obtain ⟨o, ho, hser⟩ := hown htype
        rcases List.mem_cons.mp ho with rfl | ho
        · exact absurd ⟨htype, hser.symm⟩ hgo
        · exact ⟨o, ho, hser⟩
      rw [ih hes' _ hown', List.countP_cons, List.map_cons, List.filter_cons]
      congr 1
      · cases lost bound a
        · simp
        · simp [hreach, add_ofNat_succ]
      · split <;> rfl

end Ns3.Fec
