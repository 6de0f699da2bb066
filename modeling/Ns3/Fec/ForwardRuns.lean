import Ns3.Fec.Forward

/-!
# Runs of the decoding router

The packets of the encoding router reach `IpForward` in the order they were sent, with any
losses. Whatever the encoder does, every packet that came in or was recovered was handed on
once or is in the transit queue once; when the encoder is in step, the packets of a round
leave in serial order.
-/

namespace Ns3.Fec

/-- The two routers: what came in at the second, what it recovered, and what it handed on. -/
structure ForwardNet where
  net : RouterNet
  rid_ : UInt32 := 1
  arrived : List Carried := []
  recovered : List Carried := []
  out : List Departure := []

namespace ForwardNet

/-- The decoding router. -/
def l3 (f : ForwardNet) : Ipv4L3ProtocolwithFecDecode := ⟨f.net.l3.m_fec, f.rid_⟩

/-- The packets in the transit queue. -/
def held (f : ForwardNet) : List Carried := f.net.l3.m_fec.tq_.map TransitQueue.carried

/-- The packets handed on by `IpForward` and `Free`, in order. -/
def departed (f : ForwardNet) : List Carried := ownDepartures f.out

/-- The packets `SendRealOut` got from `IpForward` and `Free`, in order. -/
def passed (f : ForwardNet) : List Carried :=
  (f.out.filter fun d => d.via ≠ .SendRxRequest).filterMap Departure.transmit

/-- The packet can be the next one at `IpForward`: it was sent after those before it, in a
round whose id has not wrapped, and is above the segment size. -/
structure Arrives (f : ForwardNet) (x : InFlight) : Prop where
  sent : x ∈ f.net.sent
  order : f.net.InOrder x
  rid_ne : x.tag.m_roundId ≠ 0
  size : x.packet.getSize > f.net.l3.m_fec.m_segmentSize.toNat

/-- What `IpForward` leaves. -/
def forward (f : ForwardNet) (x : InFlight) (header : Ipv4Header) (r : Forwarded) : ForwardNet :=
  { net := f.net.deliver x r.l3.m_fec
    rid_ := r.l3.rid_
    arrived := f.arrived ++ if x.tag.m_type = 2 then [] else [⟨x.packet, header⟩]
    recovered := f.recovered ++ (r.recovered.map (Carried.recovery ⟨x.packet, header⟩)).toList
    out := f.out ++ r.out }

/-- One step: a call of `SendRealOut` at the encoding router that `calls` allows, or one of
`IpForward` at the decoding router. -/
inductive Step (calls : RouterNet → SendCall → Prop) (f : ForwardNet) : ForwardNet → Prop where
  | send (c : SendCall) (hc : calls f.net c) (l3 : Ipv4L3ProtocolwithFecEncode) (out : List Sent)
      (hok : f.net.l3.sendRealOut c = .ok (l3, out)) :
      Step calls f { f with net := f.net.send c l3 out }
  | forward (x : InFlight) (hx : f.Arrives x) (header : Ipv4Header) (r : Forwarded)
      (hok : f.l3.ipForward x.packet header = .ok r) : Step calls f (f.forward x header r)

/-- The nets reached from a fresh agent. -/
inductive Reached (calls : RouterNet → SendCall → Prop) (fec : FecRouterAgent) :
    ForwardNet → Prop where
  | start : Reached calls fec { net := { l3 := .setFec fec } }
  | step {f f' : ForwardNet} (h : Reached calls fec f) (hstep : Step calls f f') :
      Reached calls fec f'

/-! ### No packet is lost or duplicated -/

/-- What holds of the queue and of the packets handed on, whatever the tables hold. -/
structure Conserved (fec : FecRouterAgent) (f : ForwardNet) : Prop where
  fwin : f.net.l3.m_fec.m_fwin = fec.m_fwin
  mode : f.net.l3.m_fec.m_storeMode = fec.m_storeMode
  balance : (f.departed ++ f.held).Perm (f.arrived ++ f.recovered)
  came : ∀ c ∈ f.arrived, c.tag.m_type ≠ 2 ∧ ∃ y ∈ f.net.got, y.packet = c.packet
  ascending : f.arrived.Pairwise fun c c' =>
    c.tag.m_roundId = c'.tag.m_roundId → c.tag.m_serial < c'.tag.m_serial
  made : ∀ c ∈ f.recovered, c.tag.m_type = 4
  round : ∀ q ∈ f.net.l3.m_fec.tq_, q.carried.tag.m_roundId = f.rid_
  serial : ∀ q ∈ f.net.l3.m_fec.tq_, q.carried.tag.m_serial = q.serial_
  rid : f.rid_ = 1 ∨ ∃ y ∈ f.net.got, y.tag.m_roundId = f.rid_
  rid_le : ∀ y ∈ f.net.got, y.tag.m_roundId ≤ f.rid_

namespace Conserved

variable {fec : FecRouterAgent} {f : ForwardNet}

/-- A packet that arrives is of the round of the queue or of a later one. -/
theorem rid_le_of_arrives (h : Conserved fec f) {x : InFlight} (hx : f.Arrives x) :
    f.rid_ ≤ x.tag.m_roundId := by
  rcases h.rid with hone | ⟨y, hy, hrid⟩
  · have := hx.rid_ne
    rw [hone]
    grind
  · rw [← hrid]
    rcases hx.order y hy with hlt | ⟨heq, -⟩
    · exact UInt32.le_of_lt hlt
    · rw [heq]
      exact UInt32.le_refl _

/-- The round of the queue after the packet is the packet's. -/
theorem rid_after (h : Conserved fec f) {x : InFlight} (hx : f.Arrives x) :
    (if f.rid_ < x.tag.m_roundId then x.tag.m_roundId else f.rid_) = x.tag.m_roundId := by
  have := h.rid_le_of_arrives hx
  split <;> grind

/-- A call of `SendRealOut` moves nothing here. -/
theorem send (h : Conserved fec f) {c : SendCall} {l3 : Ipv4L3ProtocolwithFecEncode}
    {out : List Sent} (hok : f.net.l3.sendRealOut c = .ok (l3, out)) :
    Conserved fec { f with net := f.net.send c l3 out } := by
  have hsame := Ipv4L3ProtocolwithFecEncode.sendRealOut_same hok
  have htq : l3.m_fec.tq_ = f.net.l3.m_fec.tq_ := hsame.tq
  exact
    { fwin := hsame.fwin.trans h.fwin
      mode := hsame.storeMode.trans h.mode
      balance := by
        rw [held, RouterNet.send, htq]
        exact h.balance
      came := h.came
      ascending := h.ascending
      made := h.made
      round := by
        rw [RouterNet.send, htq]
        exact h.round
      serial := by
        rw [RouterNet.send, htq]
        exact h.serial
      rid := h.rid
      rid_le := h.rid_le }

/-- A call of `IpForward` hands the packet and the queue on, or keeps them. -/
theorem forward (h : Conserved fec f) {x : InFlight} (hx : f.Arrives x) {header : Ipv4Header}
    {r : Forwarded} {d : Decoded RouterHdr} {left : List Carried}
    (hp : f.l3.Passage ⟨x.packet, header⟩ r d left) : Conserved fec (f.forward x header r) := by
  have hrid : r.l3.rid_ = x.tag.m_roundId := hp.rid.trans (h.rid_after hx)
  -- what a packet of the round finds in the queue
  have hkept : ∀ q ∈ f.l3.kept x.tag.m_roundId, q ∈ f.net.l3.m_fec.tq_ ∧ f.rid_ = x.tag.m_roundId := by
    intro q hq
    unfold Ipv4L3ProtocolwithFecDecode.kept at hq
    split at hq
    · cases hq
    · next hlt =>
      have := h.rid_le_of_arrives hx
      exact ⟨hq, UInt32.le_antisymm this (UInt32.not_lt.mp hlt)⟩
  have hqueue : ∀ q ∈ r.l3.m_fec.tq_,
      q.carried.tag.m_roundId = x.tag.m_roundId ∧ q.carried.tag.m_serial = q.serial_ := by
    intro q hq
    rcases hp.moved.mem_kept hq with hq | rfl
    · rcases mem_withRecovered hq with hq | ⟨e, -, hser, hcar⟩
      · obtain ⟨hmem, hsame⟩ := hkept q hq
        exact ⟨(h.round q hmem).trans hsame, h.serial q hmem⟩
      · rw [hcar, hser, Carried.tag_recovery]
        exact ⟨rfl, rfl⟩
    · exact ⟨rfl, rfl⟩
  exact
    { fwin := hp.settings.fwin.trans h.fwin
      mode := hp.settings.storeMode.trans h.mode
      balance := by
        rw [List.perm_iff_count]
        intro c
        have hold := h.balance.count_eq c
        have hmoved : (left ++ r.l3.m_fec.tq_.map TransitQueue.carried).count c =
            ((withRecovered ⟨x.packet, header⟩ r.recovered (f.l3.kept x.tag.m_roundId)).map
              TransitQueue.carried ++
              if x.tag.m_type = 2 then [] else [(⟨x.packet, header⟩ : Carried)]).count c := by
          rw [hp.recovered]
          exact hp.moved.perm.count_eq c
        have hrec := (map_carried_withRecovered ⟨x.packet, header⟩ r.recovered
          (f.l3.kept x.tag.m_roundId)).count_eq c
        have hrel : (f.l3.released x.tag.m_roundId ++
            (f.l3.kept x.tag.m_roundId).map TransitQueue.carried).count c = f.held.count c :=
          congrArg (List.count c) (f.l3.released_append_kept x.tag.m_roundId)
        have hout : ownDepartures r.out = f.l3.released x.tag.m_roundId ++ left := hp.out
        simp only [List.count_append] at hold hmoved hrec hrel
        simp only [departed, held, ForwardNet.forward, RouterNet.deliver, ownDepartures_append,
          hout, List.count_append] at hold hrel ⊢
        omega
      came := by
        intro c hc
        rcases List.mem_append.mp hc with hc | hc
        · obtain ⟨htype, y, hy, hpk⟩ := h.came c hc
          exact ⟨htype, y, List.mem_append_left _ hy, hpk⟩
        · split at hc
          · cases hc
          · next htype =>
            rw [List.mem_singleton.mp hc]
            exact ⟨htype, x, List.mem_append_right _ (by simp), rfl⟩
      ascending := by
        refine List.pairwise_append.mpr ⟨h.ascending, ?_, ?_⟩
        · split <;> simp
        · intro c hc c' hc' hsame
          split at hc'
          · cases hc'
          · rw [List.mem_singleton.mp hc'] at hsame ⊢
            obtain ⟨-, y, hy, hpk⟩ := h.came c hc
            have htag : c.tag = y.tag := by rw [Carried.tag, ← hpk]; rfl
            rw [htag] at hsame ⊢
            rcases hx.order y hy with hlt | ⟨-, hlt⟩
            · rw [hsame] at hlt
              exact absurd hlt (UInt32.lt_irrefl _)
            · exact hlt
      made := by
        intro c hc
        rcases List.mem_append.mp hc with hc | hc
        · exact h.made c hc
        · obtain ⟨e, -, rfl⟩ := Option.map_eq_some_iff.mp (Option.mem_toList.mp hc)
          rw [Carried.tag_recovery]
          rfl
      round := fun q hq => (hqueue q hq).1.trans hrid.symm
      serial := fun q hq => (hqueue q hq).2
      rid := .inr ⟨x, List.mem_append_right _ (by simp), hrid.symm⟩
      rid_le := by
        intro y hy
        rw [ForwardNet.forward, hrid]
        rcases List.mem_append.mp hy with hy | hy
        · exact UInt32.le_trans (h.rid_le y hy) (h.rid_le_of_arrives hx)
        · rw [List.mem_singleton.mp hy]
          exact UInt32.le_refl _ }

end Conserved

/-! ### The packets of a round leave in serial order -/

/-- Of one round, the first packet is not behind the second. -/
def InSerialOrder (c c' : Carried) : Prop :=
  c.tag.m_roundId = c'.tag.m_roundId → c.tag.m_serial ≤ c'.tag.m_serial

/-- No packet before this one can be recovered any more: its round is gone or overrun, or all
its missing data packets come later. -/
def Settled (s : Shape) (n : RouterNet) (c : Carried) : Prop :=
  c.tag.m_roundId ∉ n.rids ∨
    Overrun n.log n.delivered (fun _ => s.fwin * s.nGroups.toUInt32) c.tag.m_roundId s.nGroups ∨
    ∀ m ∈ missing n.log n.delivered c.tag.m_roundId, m.type_ = false → c.tag.m_serial ≤ m.serial_

/-- Where the packets handed on and kept come from. -/
structure Sourced (f : ForwardNet) : Prop where
  reach : ∀ c ∈ f.departed ++ f.held, ∃ y ∈ f.net.got, y.tag.m_roundId = c.tag.m_roundId ∧
    c.tag.m_serial ≤ y.tag.m_serial
  origin : ∀ c ∈ f.recovered, ∃ y ∈ f.net.got, y.tag.m_type = 2 ∧
    y.tag.m_roundId = c.tag.m_roundId ∧ y.tag.m_groupId = c.tag.m_groupId
  once : f.recovered.Nodup

/-- The packets handed on are in order, those kept come after them, and packets are only kept
behind a missing one. -/
structure Lined (s : Shape) (f : ForwardNet) : Prop where
  sorted : Ordered f.net.l3.m_fec.tq_
  order : f.departed.Pairwise InSerialOrder
  ahead : ∀ c ∈ f.departed, ∀ q ∈ f.net.l3.m_fec.tq_, InSerialOrder c q.carried
  settled : ∀ c ∈ f.departed, Settled s f.net c
  cause : f.net.l3.m_fec.tq_ ≠ [] → ∃ m ∈ missing f.net.log f.net.delivered f.rid_,
    ∃ y ∈ f.net.got, y.tag.m_roundId = f.rid_ ∧ m.serial_ < y.tag.m_serial

section Order

variable {s : Shape} {fec : FecRouterAgent} {f : ForwardNet} {D' D'' : Deliveries} {i : Nat}
  {R : List (RoundFecTable RouterHdr)} {t : RoundFecTable RouterHdr}
  {Q : List (GroupFecTable RouterHdr)} {T : GroupFecTable RouterHdr}

/-- More packets of a round come after those that are settled. -/
theorem Settled.send {n n' : RouterNet} (h : RouterNet.Good s n D' i R t Q T) {c : Carried}
    (hreach : ∃ y ∈ n.got, y.tag.m_roundId = c.tag.m_roundId ∧ c.tag.m_serial ≤ y.tag.m_serial)
    (hc : Settled s n c) (hgrown : RouterNet.Grown s n i R t n') : Settled s n' c := by
  have hrids := (hgrown.rids h).2
  obtain ⟨es, xs, later, hsent, hrecords, habove, -, -, -, hgot, -, -⟩ := hgrown
  obtain ⟨y, hy, hyrid, hyser⟩ := hreach
  have hlog : n'.log = n.log ++ recordsOf t.rid_ s.nGroups es := by
    rw [RouterNet.log, hsent, List.map_append, hrecords]
    rfl
  have hD : n'.delivered = n.delivered := by
    funext rid serial
    rw [RouterNet.delivered, hgot]
    rfl
  have hpast := h.rid_le (h.got_sent y hy)
  rw [Settled, hlog, hD]
  rcases hc with hgone | hover | hall
  · left
    intro hmem
    rcases hrids _ hmem with hold | hlt
    · exact hgone hold
    · rw [hyrid] at hpast
      grind
  · exact .inr (.inl (hover.append _))
  · right
    right
    intro m hm htype
    obtain ⟨hmem, hmiss⟩ := List.mem_filter.mp hm
    rw [entered_recordsOf] at hmem
    split at hmem
    · next heq =>
      rcases List.mem_append.mp hmem with hmem | hmem
      · exact hall m (List.mem_filter.mpr ⟨hmem, hmiss⟩) htype
      · have hle := h.serial_le (h.got_sent y hy) (hyrid.trans heq)
        have hlt := habove m hmem
        rw [UInt32.le_iff_toNat_le] at hyser ⊢
        omega
    · exact hall m (List.mem_filter.mpr ⟨hmem, hmiss⟩) htype

/-- A later delivery of the round, or of a later one, settles no less. -/
theorem Settled.deliver {n : RouterNet} {c : Carried} {x : InFlight} {fec' : FecRouterAgent}
    (hc : Settled s n c) (hlatest : Latest n.log n.delivered x.tag)
    (hrids : ∀ k ∈ (n.deliver x fec').rids, k ∈ n.rids) : Settled s (n.deliver x fec') c := by
  rw [Settled, RouterNet.delivered_deliver]
  rcases hc with hgone | hover | hall
  · exact .inl fun hmem => hgone (hrids _ hmem)
  · exact .inr (.inl (hover.add hlatest))
  · right
    right
    intro m hm htype
    obtain ⟨hmem, hmiss⟩ := List.mem_filter.mp hm
    refine hall m (List.mem_filter.mpr ⟨hmem, ?_⟩) htype
    simp only [Deliveries.add, Bool.not_eq_true', Bool.or_eq_false_iff] at hmiss ⊢
    exact ⟨hmiss.1, hmiss.2.1⟩

/-- A call of `SendRealOut` moves nothing here. -/
theorem Lined.send (hl : Lined s f) (hsrc : Sourced f)
    (h : RouterNet.Good s f.net D' i R t Q T) {c : SendCall} {l3 : Ipv4L3ProtocolwithFecEncode}
    {out : List Sent} (htq : (f.net.send c l3 out).l3.m_fec.tq_ = f.net.l3.m_fec.tq_)
    (hgrown : RouterNet.Grown s f.net i R t (f.net.send c l3 out)) :
    Lined s { f with net := f.net.send c l3 out } := by
  have hlog := f.net.log_send c l3 out
  exact
    { sorted := by
        rw [htq]
        exact hl.sorted
      order := hl.order
      ahead := by
        rw [htq]
        exact hl.ahead
      settled := fun c hc =>
        (hl.settled c hc).send h (hsrc.reach c (List.mem_append_left _ hc)) hgrown
      cause := by
        rw [htq]
        intro hne
        obtain ⟨m, hm, y, hy, hyrid, hlt⟩ := hl.cause hne
        obtain ⟨hmem, hmiss⟩ := List.mem_filter.mp hm
        refine ⟨m, List.mem_filter.mpr ⟨?_, hmiss⟩, y, hy, hyrid, hlt⟩
        rw [hlog, entered_append]
        exact List.mem_append_left _ hmem }

/-- A call of `SendRealOut` moves nothing here. -/
theorem Sourced.send (hsrc : Sourced f) {c : SendCall} {l3 : Ipv4L3ProtocolwithFecEncode}
    {out : List Sent} (htq : (f.net.send c l3 out).l3.m_fec.tq_ = f.net.l3.m_fec.tq_) :
    Sourced { f with net := f.net.send c l3 out } :=
    { reach := by
        rw [held, htq]
        exact hsrc.reach
      origin := hsrc.origin
      once := hsrc.once }

/-- The packets handed on and those kept when a packet of the round has come in but is not
dealt with yet. -/
structure Waiting (s : Shape) (n : RouterNet) (x : InFlight) (left : List Carried)
    (tq : List TransitQueue) : Prop where
  sorted : Ordered tq
  order : left.Pairwise InSerialOrder
  ahead : ∀ c ∈ left, ∀ q ∈ tq, InSerialOrder c q.carried
  settled : ∀ c ∈ left, Settled s n c
  before : ∀ c ∈ left, c.tag.m_roundId = x.tag.m_roundId → c.tag.m_serial < x.tag.m_serial
  queue : ∀ q ∈ tq, q.carried.tag.m_roundId = x.tag.m_roundId ∧
    q.carried.tag.m_serial = q.serial_ ∧ q.serial_ < x.tag.m_serial
  cause : tq ≠ [] → ∃ m ∈ missing n.log n.delivered x.tag.m_roundId, m.serial_ < x.tag.m_serial

/-- A missing packet of another serial is missing after the delivery. -/
private theorem missing_deliver {n : RouterNet} {x : InFlight} (fec' : FecRouterAgent)
    {m : PacketInfo RouterHdr} (hm : m ∈ missing n.log n.delivered x.tag.m_roundId)
    (hlt : m.serial_ < x.tag.m_serial) :
    m ∈ missing (n.deliver x fec').log (n.deliver x fec').delivered x.tag.m_roundId := by
  obtain ⟨hmem, hmiss⟩ := List.mem_filter.mp hm
  rw [RouterNet.delivered_deliver]
  refine List.mem_filter.mpr ⟨hmem, ?_⟩
  have hne : ¬ m.serial_ = x.tag.m_serial := by grind
  simpa [Deliveries.add, hne] using hmiss

/-- The rounds before the packet's are gone once it is delivered. -/
private theorem not_mem_rids (hq : f.net.Queued) (h : RouterNet.Good s f.net D' i R t Q T)
    {x : InFlight} (hx : f.Arrives x) {request : Bool} {d : Decoded RouterHdr}
    (ho : Outcome f.net.log f.net.delivered D' x.tag (s.fwin * s.nGroups.toUInt32) request
      ⟨R ++ [t], Q ++ [T]⟩ d D'') {fec' : FecRouterAgent} (htables : fec'.toFecTables = d.tables)
    {k : UInt32} (hk : k < x.tag.m_roundId) : k ∉ (f.net.deliver x fec').rids := by
  obtain ⟨old, u, q, hsplit, hrid, -, hrt⟩ := hq.outcome h hx.sent hx.order ho
  have hsorted := h.live.rt_sorted
  change (R ++ [t]).Pairwise _ at hsorted
  rw [hsplit] at hsorted
  have hlater := (List.pairwise_cons.mp (List.pairwise_append.mp hsorted).2.1).1
  have hrt' : (f.net.deliver x fec').l3.m_fec.rt_ = d.tables.rt_ :=
    congrArg FecTables.rt_ htables
  have hmem : ∀ v ∈ d.tables.rt_, x.tag.m_roundId ≤ v.rid_ := by
    intro v hv
    rcases hrt with ⟨-, hd⟩ | hd
    · rw [hd] at hv
      rw [← hrid]
      exact UInt32.le_of_lt (hlater v hv)
    · rw [hd] at hv
      rcases List.mem_cons.mp hv with rfl | hv
      · exact UInt32.le_of_eq hrid.symm
      · rw [← hrid]
        exact UInt32.le_of_lt (hlater v hv)
  intro hin
  rw [RouterNet.rids, hrt'] at hin
  obtain ⟨v, hv, rfl⟩ := List.mem_map.mp hin
  have := hmem v hv
  grind

/-- What was handed on or kept of the packet's round is before the packet. -/
private theorem Sourced.before (hsrc : Sourced f) {x : InFlight} (hx : f.Arrives x) {c : Carried}
    (hc : c ∈ f.departed ++ f.held) (hrid : c.tag.m_roundId = x.tag.m_roundId) :
    c.tag.m_serial < x.tag.m_serial := by
  obtain ⟨y, hy, hyrid, hle⟩ := hsrc.reach c hc
  rcases hx.order y hy with hlt | ⟨-, hlt⟩
  · rw [hyrid, hrid] at hlt
    exact absurd hlt (UInt32.lt_irrefl _)
  · grind

/-- The older round's packets go, and those of the packet's round stay. -/
private theorem Lined.waiting (hl : Lined s f) (hc : Conserved fec f) (hsrc : Sourced f)
    (hq : f.net.Queued) (h : RouterNet.Good s f.net D' i R t Q T) {x : InFlight}
    (hx : f.Arrives x) {request : Bool} {d : Decoded RouterHdr}
    (ho : Outcome f.net.log f.net.delivered D' x.tag (s.fwin * s.nGroups.toUInt32) request
      ⟨R ++ [t], Q ++ [T]⟩ d D'') {fec' : FecRouterAgent} (htables : fec'.toFecTables = d.tables)
    (hrids : ∀ k ∈ (f.net.deliver x fec').rids, k ∈ f.net.rids) :
    Waiting s (f.net.deliver x fec') x (f.departed ++ f.l3.released x.tag.m_roundId)
      (f.l3.kept x.tag.m_roundId) := by
  by_cases hlt : f.rid_ < x.tag.m_roundId
  · have hkept : f.l3.kept x.tag.m_roundId = [] := if_pos hlt
    have hreleased : f.l3.released x.tag.m_roundId = f.held := if_pos hlt
    -- everything left is of an older round
    have hold : ∀ c ∈ f.departed ++ f.held, c.tag.m_roundId < x.tag.m_roundId := by
      intro c hmem
      obtain ⟨y, hy, hyrid, -⟩ := hsrc.reach c hmem
      have := hc.rid_le y hy
      grind
    rw [hkept, hreleased]
    exact
      { sorted := List.Pairwise.nil
        order := by
          refine List.pairwise_append.mpr ⟨hl.order, ?_, ?_⟩
          · rw [held, List.pairwise_map]
            refine List.Pairwise.imp_of_mem ?_ hl.sorted
            intro a b ha hb hab _
            rw [hc.serial a ha, hc.serial b hb]
            exact hab
          · intro c hmem c' hmem'
            obtain ⟨q, hq', rfl⟩ := List.mem_map.mp hmem'
            exact hl.ahead c hmem q hq'
        ahead := by simp
        settled := fun c hmem => .inl (not_mem_rids hq h hx ho htables (hold c hmem))
        before := by
          intro c hmem hrid
          have := hold c hmem
          grind
        queue := by simp
        cause := by simp }
  · have hrid : f.rid_ = x.tag.m_roundId :=
      UInt32.le_antisymm (hc.rid_le_of_arrives hx) (UInt32.not_lt.mp hlt)
    have hkept : f.l3.kept x.tag.m_roundId = f.net.l3.m_fec.tq_ := if_neg hlt
    have hreleased : f.l3.released x.tag.m_roundId = [] := if_neg hlt
    rw [hkept, hreleased, List.append_nil]
    exact
      { sorted := hl.sorted
        order := hl.order
        ahead := hl.ahead
        settled := fun c hmem => (hl.settled c hmem).deliver (h.latest hx.order) hrids
        before := fun c hmem => hsrc.before hx (List.mem_append_left _ hmem)
        queue := by
          intro q hmem
          have hround := (hc.round q hmem).trans hrid
          have hserial := hc.serial q hmem
          refine ⟨hround, hserial, ?_⟩
          rw [← hserial]
          exact hsrc.before hx (List.mem_append_right _ (List.mem_map_of_mem hmem)) hround
        cause := by
          intro hne
          obtain ⟨m, hm, y, hy, hyrid, hmy⟩ := hl.cause hne
          rw [hrid] at hm hyrid
          have hyx : y.tag.m_serial < x.tag.m_serial := by
            rcases hx.order y hy with hlt' | ⟨-, hlt'⟩
            · rw [hyrid] at hlt'
              exact absurd hlt' (UInt32.lt_irrefl _)
            · exact hlt'
          have hmx := UInt32.lt_trans hmy hyx
          exact ⟨m, missing_deliver fec' hm hmx, hmx⟩ }

/-- A recovered packet goes where it belongs in the queue. -/
private theorem Waiting.withRecovered {n : RouterNet} {x : InFlight} {left : List Carried}
    {tq : List TransitQueue} {fec' : FecRouterAgent}
    (hw : Waiting s (n.deliver x fec') x left tq) (header : Ipv4Header)
    {e : Option (PacketInfo RouterHdr)}
    (he : ∀ e', e = some e' → e' ∈ missing n.log n.delivered x.tag.m_roundId ∧
      e'.serial_ < x.tag.m_serial ∧
      ∀ c ∈ left, c.tag.m_roundId = x.tag.m_roundId → c.tag.m_serial ≤ e'.serial_) :
    Waiting s (n.deliver x fec') x left (withRecovered ⟨x.packet, header⟩ e tq) := by
  cases e with
  | none => exact hw
  | some e =>
    obtain ⟨hmiss, hlt, hle⟩ := he e rfl
    have hcases : ∀ q ∈ Fec.withRecovered ⟨x.packet, header⟩ (some e) tq, q ∈ tq ∨
        q.serial_ = e.serial_ ∧ q.carried = Carried.recovery ⟨x.packet, header⟩ e := by
      intro q hq
      rcases mem_withRecovered hq with hq | ⟨e', he', hq⟩
      · exact .inl hq
      · obtain rfl := Option.some.inj he'
        exact .inr hq
    exact
      { sorted := Ordered.insert hw.sorted _
        order := hw.order
        ahead := by
          intro c hc q hq
          rcases hcases q hq with hq | ⟨-, hcar⟩
          · exact hw.ahead c hc q hq
          · intro hrid
            rw [hcar, Carried.tag_recovery] at hrid ⊢
            exact hle c hc hrid
        settled := hw.settled
        before := hw.before
        queue := by
          intro q hq
          rcases hcases q hq with hq | ⟨hser, hcar⟩
          · exact hw.queue q hq
          · rw [hser, hcar, Carried.tag_recovery]
            exact ⟨rfl, rfl, hlt⟩
        cause := fun _ => ⟨e, missing_deliver fec' hmiss hlt, hlt⟩ }

/-- What a pass in order says about the missing packets of the round and about its end. -/
structure Told (s : Shape) (n : RouterNet) (x : InFlight) (d : Decoded RouterHdr) : Prop where
  lost : 0 < d.sumlost →
    ∃ m ∈ missing n.log n.delivered x.tag.m_roundId, m.serial_ < x.tag.m_serial
  calm : x.tag.m_type = 1 → d.sumlost = 0 →
    ∀ m ∈ missing n.log n.delivered x.tag.m_roundId, x.tag.m_serial ≤ m.serial_
  early : d.group = none → Overrun n.log n.delivered (fun _ => s.fwin * s.nGroups.toUInt32)
    x.tag.m_roundId s.nGroups
  few : ∀ g, d.group = some g → ¬ x.tag.m_nGroups.toUInt32 < g.nlost
  last : IsLast x.tag s.nGroups → x.tag.m_roundId ∉ n.rids

/-- A pass in order tells this of the net after it. -/
private theorem told (hs : RouterNet.Fits s) (hu : RouterNet.UpToDate s f.net D')
    (hq : f.net.Queued) (h : RouterNet.Good s f.net D' i R t Q T) {x : InFlight}
    (hx : f.Arrives x) {request : Bool} {d : Decoded RouterHdr}
    (ho : Outcome f.net.log f.net.delivered D' x.tag (s.fwin * s.nGroups.toUInt32) request
      ⟨R ++ [t], Q ++ [T]⟩ d D'') {fec' : FecRouterAgent} (htables : fec'.toFecTables = d.tables) :
    Told s (f.net.deliver x fec') x d := by
  obtain ⟨hsum, hgroup⟩ := hu.reports hs h hq hx.sent hx.order ho
  have hsame : lostBefore (f.net.deliver x fec').log (f.net.deliver x fec').delivered
      x.tag.m_roundId x.tag.m_serial (s.fwin * s.nGroups.toUInt32) =
        lostBefore f.net.log f.net.delivered x.tag.m_roundId x.tag.m_serial
          (s.fwin * s.nGroups.toUInt32) := by
    rw [RouterNet.delivered_deliver]
    exact lostBefore_add _ _ _ fun _ => UInt32.le_refl _
  have hlt := lostBefore_lt h.live.logged f.net.delivered x.tag.m_roundId x.tag.m_serial
    (s.fwin * s.nGroups.toUInt32)
  have hnat : d.sumlost.toNat = lostBefore (f.net.deliver x fec').log
      (f.net.deliver x fec').delivered x.tag.m_roundId x.tag.m_serial
        (s.fwin * s.nGroups.toUInt32) := by
    rw [hsum, hsame, UInt32.toNat_ofNat', Nat.mod_eq_of_lt hlt]
  exact
    { lost := by
        intro hpos
        have hpos' : 0 < d.sumlost.toNat := UInt32.lt_iff_toNat_lt.mp hpos
        rw [hnat, lostBefore, List.countP_pos_iff] at hpos'
        obtain ⟨m, hm, hlost⟩ := hpos'
        simp only [Bool.and_eq_true, decide_eq_true_eq] at hlost
        exact ⟨m, hm, hlost.1⟩
      calm := by
        intro htype hzero m hm
        rw [hzero, lostBefore] at hnat
        have hnone := List.countP_eq_zero.mp hnat.symm m hm
        have hbound := h.serial_le_bound hs hx.sent htype
        simp only [Bool.and_eq_true, decide_eq_true_eq] at hnone
        by_contra hmx
        rw [UInt32.not_le] at hmx
        exact hnone ⟨hmx, by grind⟩
      early := by
        intro hnone
        rcases hgroup with ⟨-, hearly⟩ | ⟨g, hg, -⟩
        · have hover : Overrun f.net.log (f.net.delivered.add x.tag)
              (fun _ => s.fwin * s.nGroups.toUInt32) x.tag.m_roundId x.tag.m_nGroups :=
            Overrun.of_early (List.mem_map_of_mem hx.sent) x.taggedBy hearly
          rw [h.groups hx.sent] at hover
          rw [RouterNet.delivered_deliver]
          exact hover
        · rw [hnone] at hg
          cases hg
      few := by
        intro g hg
        rcases hgroup with ⟨hnone, -⟩ | ⟨g', hg', -, hfew⟩
        · rw [hnone] at hg
          cases hg
        · obtain rfl := Option.some.inj (hg.symm.trans hg')
          exact hfew
      last := by
        intro hlast hmem
        obtain ⟨old, u, hsplit, hrid⟩ := ho.popped
          (fun u q hrt => hq.not_past h hx.sent hx.order hrt)
          (fun u hmem hrid => by rw [h.table_nGroups hx.sent hmem hrid]; exact hlast)
        have hsorted := h.live.rt_sorted
        change (R ++ [t]).Pairwise _ at hsorted
        change R ++ [t] = old ++ u :: d.tables.rt_ at hsplit
        rw [hsplit] at hsorted
        have hrt : (f.net.deliver x fec').l3.m_fec.rt_ = d.tables.rt_ :=
          congrArg FecTables.rt_ htables
        rw [RouterNet.rids, hrt] at hmem
        obtain ⟨v, hv, hvrid⟩ := List.mem_map.mp hmem
        have := (List.pairwise_cons.mp (List.pairwise_append.mp hsorted).2.1).1 v hv
        grind }

/-- The packet is handed on or kept in its place. -/
private theorem Waiting.moved {n : RouterNet} {x : InFlight} {header : Ipv4Header}
    {left left' : List Carried} {tq tq' : List TransitQueue} (hw : Waiting s n x left tq)
    {d : Decoded RouterHdr} (htold : Told s n x d) (htype : x.tag.m_type = 1 ∨ x.tag.m_type = 2)
    (hm : Moved .USE s.nGroups ⟨x.packet, header⟩ d tq left' tq') :
    Ordered tq' ∧ (left ++ left').Pairwise InSerialOrder ∧
      (∀ c ∈ left ++ left', ∀ q ∈ tq', InSerialOrder c q.carried) ∧
      (∀ c ∈ left ++ left', Settled s n c) ∧
      (tq' ≠ [] → ∃ m ∈ missing n.log n.delivered x.tag.m_roundId, m.serial_ < x.tag.m_serial) := by
  -- the queue in order behind the packets handed on
  have hflush : (left ++ tq.map TransitQueue.carried).Pairwise InSerialOrder := by
    refine List.pairwise_append.mpr ⟨hw.order, ?_, ?_⟩
    · rw [List.pairwise_map]
      refine List.Pairwise.imp_of_mem ?_ hw.sorted
      intro a b ha hb hab _
      rw [(hw.queue a ha).2.1, (hw.queue b hb).2.1]
      exact hab
    · intro c hc c' hc'
      obtain ⟨q, hq, rfl⟩ := List.mem_map.mp hc'
      exact hw.ahead c hc q hq
  -- the packet behind all of them
  have hafter : ∀ c ∈ left ++ tq.map TransitQueue.carried,
      InSerialOrder c ⟨x.packet, header⟩ := by
    intro c hc hrid
    rcases List.mem_append.mp hc with hc | hc
    · exact UInt32.le_of_lt (hw.before c hc hrid)
    · obtain ⟨q, hq, rfl⟩ := List.mem_map.mp hc
      rw [(hw.queue q hq).2.1]
      exact UInt32.le_of_lt (hw.queue q hq).2.2
  have hover : Overrun n.log n.delivered (fun _ => s.fwin * s.nGroups.toUInt32) x.tag.m_roundId
      s.nGroups ∨ x.tag.m_roundId ∉ n.rids → ∀ c ∈ left ++ tq.map TransitQueue.carried,
        Settled s n c := by
    intro hwhy c hc
    rcases List.mem_append.mp hc with hc | hc
    · exact hw.settled c hc
    · obtain ⟨q, hq, rfl⟩ := List.mem_map.mp hc
      rw [Settled, (hw.queue q hq).1]
      exact hwhy.elim (fun ho => .inr (.inl ho)) .inl
  cases hm with
  | stored h1 hmode hsum g hg hn =>
    rw [List.append_nil]
    refine ⟨Ordered.insert hw.sorted _, hw.order, ?_, hw.settled, fun _ => htold.lost hsum⟩
    intro c hc q hq
    rcases mem_insertTransitQueue.mp hq with rfl | hq
    · exact hafter c (List.mem_append_left _ hc)
    · exact hw.ahead c hc q hq
  | passed h2 hcalm =>
    have h1 := htype.resolve_right h2
    have hmiss := htold.calm h1 (hcalm h1 rfl).1
    -- nothing is missing before the packet, so nothing is kept
    have hnil : tq = [] := by
      by_contra hne
      obtain ⟨m, hm, hlt⟩ := hw.cause hne
      exact UInt32.not_lt.mpr (hmiss m hm) hlt
    subst hnil
    refine ⟨List.Pairwise.nil, ?_, by simp, ?_, fun hne => absurd rfl hne⟩
    · refine List.pairwise_append.mpr ⟨hw.order, List.pairwise_singleton _ _, ?_⟩
      intro c hc c' hc'
      rw [List.mem_singleton.mp hc']
      exact hafter c (List.mem_append_left _ hc)
    · intro c hc
      rcases List.mem_append.mp hc with hc | hc
      · exact hw.settled c hc
      · rw [List.mem_singleton.mp hc]
        exact .inr (.inr fun m hm _ => hmiss m hm)
  | flushed h2 hlost =>
    have hearly : Overrun n.log n.delivered (fun _ => s.fwin * s.nGroups.toUInt32)
        x.tag.m_roundId s.nGroups := by
      rcases hlost with hnone | ⟨g, hg, hlt⟩
      · exact htold.early hnone
      · exact absurd hlt (htold.few g hg)
    rw [← List.append_assoc]
    refine ⟨List.Pairwise.nil, ?_, by simp, ?_, fun hne => absurd rfl hne⟩
    · refine List.pairwise_append.mpr ⟨hflush, List.pairwise_singleton _ _, ?_⟩
      intro c hc c' hc'
      rw [List.mem_singleton.mp hc']
      exact hafter c hc
    · intro c hc
      rcases List.mem_append.mp hc with hc | hc
      · exact hover (.inl hearly) c hc
      · rw [List.mem_singleton.mp hc]
        exact .inr (.inl hearly)
  | absorbed h2 =>
    rw [List.append_nil]
    exact ⟨hw.sorted, hw.order, hw.ahead, hw.settled, hw.cause⟩
  | cleared h2 hlost =>
    have hwhy : Overrun n.log n.delivered (fun _ => s.fwin * s.nGroups.toUInt32)
        x.tag.m_roundId s.nGroups ∨ x.tag.m_roundId ∉ n.rids := by
      rcases hlost with hnone | ⟨g, hg, hlt⟩ | hgid
      · exact .inl (htold.early hnone)
      · exact absurd hlt (htold.few g hg)
      · exact .inr (htold.last ⟨h2, hgid⟩)
    exact ⟨List.Pairwise.nil, hflush, by simp, hover hwhy, fun hne => absurd rfl hne⟩

/-- A call of `IpForward` hands on what comes from the packet and from what was there. -/
theorem Sourced.forward (hs : RouterNet.Fits s) (hsrc : Sourced f)
    (hq : f.net.Queued) (hu : RouterNet.UpToDate s f.net D')
    (h : RouterNet.Good s f.net D' i R t Q T) {x : InFlight} (hx : f.Arrives x)
    {header : Ipv4Header} {r : Forwarded} {d : Decoded RouterHdr} {left : List Carried}
    (hp : f.l3.Passage ⟨x.packet, header⟩ r d left) {request : Bool}
    (ho : Outcome f.net.log f.net.delivered D' x.tag (s.fwin * s.nGroups.toUInt32) request
      ⟨R ++ [t], Q ++ [T]⟩ d D'') : Sourced (f.forward x header r) := by
  have hxgot : x ∈ f.net.got ++ [x] := List.mem_append_right _ (by simp)
  have hrec := fun e => hu.recovered hs h hq hx.sent hx.order ho (e := e)
  -- what was there before has come before
  have hold : ∀ c ∈ f.departed ++ f.held, ∃ y ∈ f.net.got ++ [x],
      y.tag.m_roundId = c.tag.m_roundId ∧ c.tag.m_serial ≤ y.tag.m_serial := by
    intro c hmem
    obtain ⟨y, hy, hrid, hle⟩ := hsrc.reach c hmem
    exact ⟨y, List.mem_append_left _ hy, hrid, hle⟩
  have hheld : ∀ c ∈ f.l3.released x.tag.m_roundId ++
      (f.l3.kept x.tag.m_roundId).map TransitQueue.carried, c ∈ f.departed ++ f.held := by
    intro c hmem
    rw [f.l3.released_append_kept] at hmem
    exact List.mem_append_right _ hmem
  have hmoved : ∀ c ∈ left ++ r.l3.m_fec.tq_.map TransitQueue.carried, ∃ y ∈ f.net.got ++ [x],
      y.tag.m_roundId = c.tag.m_roundId ∧ c.tag.m_serial ≤ y.tag.m_serial := by
    intro c hmem
    rcases List.mem_append.mp (hp.moved.perm.mem_iff.mp hmem) with hmem | hmem
    · rcases List.mem_append.mp ((map_carried_withRecovered _ _ _).mem_iff.mp hmem)
        with hmem | hmem
      · exact hold c (hheld c (List.mem_append_right _ hmem))
      · obtain ⟨e, he, rfl⟩ := Option.map_eq_some_iff.mp (Option.mem_toList.mp hmem)
        obtain ⟨-, -, -, hlt, -⟩ := hrec e he
        rw [Carried.tag_recovery]
        exact ⟨x, hxgot, rfl, UInt32.le_of_lt hlt⟩
    · split at hmem
      · cases hmem
      · rw [List.mem_singleton.mp hmem]
        exact ⟨x, hxgot, rfl, UInt32.le_refl _⟩
  exact
    { reach := by
        intro c hmem
        have hout : (f.forward x header r).departed =
            f.departed ++ (f.l3.released x.tag.m_roundId ++ left) := by
          rw [departed, ForwardNet.forward, ownDepartures_append, hp.out]
          rfl
        rw [hout] at hmem
        rcases List.mem_append.mp hmem with hmem | hmem
        · rcases List.mem_append.mp hmem with hmem | hmem
          · exact hold c (List.mem_append_left _ hmem)
          · rcases List.mem_append.mp hmem with hmem | hmem
            · exact hold c (hheld c (List.mem_append_left _ hmem))
            · exact hmoved c (List.mem_append_left _ hmem)
        · exact hmoved c (List.mem_append_right _ hmem)
      origin := by
        intro c hmem
        rcases List.mem_append.mp hmem with hmem | hmem
        · obtain ⟨y, hy, hyt⟩ := hsrc.origin c hmem
          exact ⟨y, List.mem_append_left _ hy, hyt⟩
        · obtain ⟨e, he, rfl⟩ := Option.map_eq_some_iff.mp (Option.mem_toList.mp hmem)
          rw [hp.recovered] at he
          rw [Carried.tag_recovery]
          exact ⟨x, hxgot, (hrec e he).1, rfl, rfl⟩
      once := by
        refine List.nodup_append.mpr ⟨hsrc.once, ?_, ?_⟩
        · cases r.recovered <;> simp
        · intro c hmem c' hmem' heq
          obtain ⟨e, he, rfl⟩ := Option.map_eq_some_iff.mp (Option.mem_toList.mp hmem')
          rw [hp.recovered] at he
          -- a group's FEC packet comes once
          obtain ⟨y, hy, hytype, hyrid, hygid⟩ := hsrc.origin c hmem
          rw [heq, Carried.tag_recovery] at hyrid hygid
          obtain rfl := h.eq_of_group hs (h.got_sent y hy) hx.sent hytype (hrec e he).1 hyrid hygid
          exact (hx.order y hy).asymm (hx.order y hy) }

/-- A call of `IpForward` hands packets on in order. -/
theorem Lined.forward (hs : RouterNet.Fits s) (hl : Lined s f) (hc : Conserved fec f)
    (hsrc : Sourced f) (hmode : fec.m_storeMode = .USE) (hq : f.net.Queued)
    (hu : RouterNet.UpToDate s f.net D') (h : RouterNet.Good s f.net D' i R t Q T) {x : InFlight}
    (hx : f.Arrives x) {header : Ipv4Header} {r : Forwarded} {d : Decoded RouterHdr}
    {left : List Carried} (hp : f.l3.Passage ⟨x.packet, header⟩ r d left) {request : Bool}
    (ho : Outcome f.net.log f.net.delivered D' x.tag (s.fwin * s.nGroups.toUInt32) request
      ⟨R ++ [t], Q ++ [T]⟩ d D'')
    (hrids : ∀ k ∈ (f.net.deliver x r.l3.m_fec).rids, k ∈ f.net.rids) :
    Lined s (f.forward x header r) := by
  have hwait := hl.waiting hc hsrc hq h hx ho hp.tables hrids
  have hwait' := hwait.withRecovered header (e := d.group.bind GroupOutcome.recovered) (by
    intro e he
    obtain ⟨-, hmiss, hdata, hlt, hcalm⟩ := hu.recovered hs h hq hx.sent hx.order ho he
    refine ⟨hmiss, hlt, ?_⟩
    intro c hmem hrid
    rcases List.mem_append.mp hmem with hmem | hmem
    · -- the recovered packet was missing when `c` left
      rcases hl.settled c hmem with hgone | hover | hall
      · exact absurd (hrid ▸ hq x hx.sent hx.order) hgone
      · exact absurd (hrid ▸ hover) hcalm
      · exact hall e (hrid ▸ hmiss) hdata
    · unfold Ipv4L3ProtocolwithFecDecode.released at hmem
      split at hmem
      · next hlt' =>
        obtain ⟨y, hy, hyrid, -⟩ := hsrc.reach c (List.mem_append_right _ hmem)
        have := hc.rid_le y hy
        change f.rid_ < _ at hlt'
        grind
      · cases hmem)
  have htold := told hs hu hq h hx ho hp.tables
  have hmoved := hp.moved
  rw [show f.l3.m_fec.m_storeMode = .USE from hc.mode.trans hmode,
    show f.l3.m_fec.m_nGroups = s.nGroups from h.filling.fec_nGroups] at hmoved
  obtain ⟨hsorted, horder, hahead, hsettled, hcause⟩ := hwait'.moved htold (h.types hx.sent) hmoved
  have hrid : r.l3.rid_ = x.tag.m_roundId := hp.rid.trans (hc.rid_after hx)
  have hout : (f.forward x header r).departed =
      f.departed ++ f.l3.released x.tag.m_roundId ++ left := by
    rw [departed, ForwardNet.forward, ownDepartures_append, hp.out, List.append_assoc]
    rfl
  exact
    { sorted := hsorted
      order := by
        rw [hout]
        exact horder
      ahead := by
        rw [hout]
        exact hahead
      settled := by
        rw [hout]
        exact hsettled
      cause := by
        intro hne
        obtain ⟨m, hm, hlt⟩ := hcause hne
        rw [ForwardNet.forward, hrid]
        exact ⟨m, hm, x, List.mem_append_right _ (by simp), rfl, hlt⟩ }

/-- What holds besides when the encoder is in step. -/
structure Sound (s : Shape) (fec : FecRouterAgent) (f : ForwardNet) (D' : Deliveries) : Prop where
  queued : f.net.Queued
  upToDate : RouterNet.UpToDate s f.net D'
  sourced : Sourced f
  lined : fec.m_storeMode = .USE → Lined s f

/-- A call of `SendRealOut` in step. -/
theorem Sound.send (hso : Sound s fec f D') (h : RouterNet.Good s f.net D' i R t Q T)
    {c : SendCall} {l3 : Ipv4L3ProtocolwithFecEncode} {out : List Sent}
    (htq : (f.net.send c l3 out).l3.m_fec.tq_ = f.net.l3.m_fec.tq_)
    (hgrown : RouterNet.Grown s f.net i R t (f.net.send c l3 out)) :
    Sound s fec { f with net := f.net.send c l3 out } D' where
  queued := hso.queued.send h hgrown
  upToDate := hso.upToDate.send h hgrown
  sourced := hso.sourced.send htq
  lined := fun hmode => (hso.lined hmode).send hso.sourced h htq hgrown

/-- A call of `IpForward` that returns. -/
theorem Sound.forward (hs : RouterNet.Fits s) (hso : Sound s fec f D') (hc : Conserved fec f)
    (h : RouterNet.Good s f.net D' i R t Q T) {x : InFlight} (hx : f.Arrives x)
    {header : Ipv4Header} {r : Forwarded} {d : Decoded RouterHdr} {left : List Carried}
    (hp : f.l3.Passage ⟨x.packet, header⟩ r d left) :
    ∃ D'' i' R' t' Q' T', RouterNet.Good s (f.forward x header r).net D'' i' R' t' Q' T' ∧
      Sound s fec (f.forward x header r) D'' := by
  obtain ⟨D'', ho⟩ := h.decoded hx.sent hp.decoded
  obtain ⟨⟨R', t', Q', T', hgood⟩, hrids⟩ := h.deliver hx.sent ho hp.settings hp.tables
  refine ⟨D'', i, R', t', Q', T', hgood, ?_⟩
  exact
    { queued := hso.queued.deliver hs h hx.sent hx.order ho hp.tables
      upToDate := hso.upToDate.deliver hs h hx.sent hx.order ho hp.tables
      sourced := hso.sourced.forward hs hso.queued hso.upToDate h hx hp ho
      lined := fun hmode =>
        (hso.lined hmode).forward hs hc hso.sourced hmode hso.queued hso.upToDate h hx hp ho hrids }

end Order

/-- What is conserved at the start. -/
theorem Conserved.start (fec : FecRouterAgent) (htq : fec.tq_ = []) :
    Conserved fec { net := { l3 := .setFec fec } } := by
  have htq' : (Ipv4L3ProtocolwithFecEncode.setFec fec).m_fec.tq_ = [] := htq
  exact
    { fwin := rfl
      mode := rfl
      balance := by
        rw [held, htq']
        exact List.Perm.refl _
      came := by simp
      ascending := List.Pairwise.nil
      made := by simp
      round := by simp [htq']
      serial := by simp [htq']
      rid := .inl rfl
      rid_le := by simp }

/-- Whatever the encoder does, every net reached is conserved. -/
theorem Reached.conserved {calls : RouterNet → SendCall → Prop} {fec : FecRouterAgent}
    (hfwin : fec.m_fwin > 0) (htq : fec.tq_ = []) {f : ForwardNet} (h : Reached calls fec f) :
    Conserved fec f := by
  induction h with
  | start => exact Conserved.start fec htq
  | step _ hstep ih =>
    cases hstep with
    | send c hc l3 out hok => exact ih.send hok
    | forward x hx header r hok =>
      obtain ⟨d, left, hp⟩ := Ipv4L3ProtocolwithFecDecode.ipForward_passage
        (c := ⟨x.packet, header⟩) hx.size (ih.fwin ▸ hfwin) hok
      exact ih.forward hx hp

/-- Before anything was sent everything holds. -/
private theorem Sound.first {s : Shape} {fec : FecRouterAgent} (htq : fec.tq_ = []) :
    Sound s fec { net := { l3 := (Ipv4L3ProtocolwithFecEncode.setFec fec).start } }
      noDeliveries := by
  have htq' : (Ipv4L3ProtocolwithFecEncode.setFec fec).start.m_fec.tq_ = [] := by
    rw [Ipv4L3ProtocolwithFecEncode.start]
    split <;> exact htq
  exact
    { queued := by simp [RouterNet.Queued]
      upToDate := by simp [RouterNet.UpToDate, Seen, entered, RouterNet.log]
      sourced :=
        { reach := by simp [departed, held, htq', ownDepartures]
          origin := by simp
          once := List.nodup_nil }
      lined := fun _ =>
        { sorted := by simp [htq', Ordered]
          order := List.Pairwise.nil
          ahead := by simp [departed, ownDepartures]
          settled := by simp [departed, ownDepartures]
          cause := by simp [htq'] } }

/-- When the encoder is in step, nothing was sent yet, or everything holds. -/
theorem Reached.sound {s : Shape} {fec : FecRouterAgent} (hs : RouterNet.Fits s)
    (hfec : Fresh s fec) (htq : fec.tq_ = []) {f : ForwardNet}
    (h : Reached RouterNet.Sendable fec f) :
    f = { net := { l3 := .setFec fec } } ∨
      ∃ D' i R t Q T, RouterNet.Good s f.net D' i R t Q T ∧ Sound s fec f D' := by
  have hfwin : fec.m_fwin > 0 := by
    rw [hfec.fwin]
    have := s.fwin_ne
    grind
  induction h with
  | start => exact .inl rfl
  | step hprev hstep ih =>
    have hcons := hprev.conserved hfwin htq
    cases hstep with
    | send c hc l3 out hok =>
      have hsame := (Ipv4L3ProtocolwithFecEncode.sendRealOut_same hok).tq
      rcases ih with rfl | ⟨D', i, R, t, Q, T, hg, hso⟩
      · rcases RouterNet.first_send hs hfec hc hok with heq | ⟨⟨i, R, t, Q, T, hg⟩, hgrown⟩
        · left
          rw [heq]
        · right
          refine ⟨_, i, R, t, Q, T, hg, (Sound.first htq).send (RouterNet.Good.first hfec) ?_ hgrown⟩
          rw [Ipv4L3ProtocolwithFecEncode.start]
          split <;> exact hsame
      · obtain ⟨⟨i', R', t', Q', T', hg'⟩, hgrown⟩ := hg.send hs hc (hg.sendStep hc hok)
        exact .inr ⟨D', i', R', t', Q', T', hg', hso.send hg hsame hgrown⟩
    | forward x hx header r hok =>
      rcases ih with rfl | ⟨D', i, R, t, Q, T, hg, hso⟩
      · cases hx.sent
      · obtain ⟨d, left, hp⟩ := Ipv4L3ProtocolwithFecDecode.ipForward_passage
          (c := ⟨x.packet, header⟩) hx.size (hcons.fwin ▸ hfwin) hok
        exact .inr (hso.forward hs hcons hg hx hp)

/-! ### Without the transit queue -/

/-- The data packets among the packets. -/
def dataOf (cs : List Carried) : List Carried := cs.filter fun c => c.tag.m_type = 1

/-- With `DISUSE` only recovered packets are kept. -/
structure Direct (f : ForwardNet) : Prop where
  held : ∀ q ∈ f.net.l3.m_fec.tq_, q.carried.tag.m_type = 4
  data : dataOf f.departed = dataOf f.arrived

/-- With `DISUSE` a data packet is handed on as it comes. -/
theorem Direct.forward {f : ForwardNet} (hd : Direct f)
    (hmode : f.net.l3.m_fec.m_storeMode = .DISUSE) {x : InFlight} {header : Ipv4Header}
    {r : Forwarded} {d : Decoded RouterHdr} {left : List Carried}
    (hp : f.l3.Passage ⟨x.packet, header⟩ r d left) : Direct (f.forward x header r) := by
  have hkept : ∀ q ∈ f.l3.kept x.tag.m_roundId, q.carried.tag.m_type = 4 := by
    intro q hq
    unfold Ipv4L3ProtocolwithFecDecode.kept at hq
    split at hq
    · cases hq
    · exact hd.held q hq
  have hqueue : ∀ q ∈ withRecovered ⟨x.packet, header⟩ (d.group.bind GroupOutcome.recovered)
      (f.l3.kept x.tag.m_roundId), q.carried.tag.m_type = 4 := by
    intro q hq
    rcases mem_withRecovered hq with hq | ⟨e, -, -, hcar⟩
    · exact hkept q hq
    · rw [hcar, Carried.tag_recovery]
      rfl
  have hnone : ∀ tq : List TransitQueue, (∀ q ∈ tq, q.carried.tag.m_type = 4) →
      dataOf (tq.map TransitQueue.carried) = [] := by
    intro tq htq
    rw [dataOf, List.filter_eq_nil_iff]
    intro c hc
    obtain ⟨q, hq, rfl⟩ := List.mem_map.mp hc
    rw [htq q hq]
    decide
  have hreleased : dataOf (f.l3.released x.tag.m_roundId) = [] := by
    unfold Ipv4L3ProtocolwithFecDecode.released
    split
    · exact hnone _ hd.held
    · rfl
  have hmoved := hp.moved
  change Moved f.net.l3.m_fec.m_storeMode _ _ _ (withRecovered _ _ (f.l3.kept x.tag.m_roundId)) _ _
    at hmoved
  rw [hmode] at hmoved
  -- what leaves besides is the packet, unless it is an FEC packet
  have hleft : dataOf left =
        dataOf (if x.tag.m_type = 2 then [] else [(⟨x.packet, header⟩ : Carried)]) ∧
      ∀ q ∈ r.l3.m_fec.tq_, q.carried.tag.m_type = 4 := by
    generalize r.l3.m_fec.tq_ = tq' at hmoved ⊢
    generalize withRecovered ⟨x.packet, header⟩ (d.group.bind GroupOutcome.recovered)
      (f.l3.kept x.tag.m_roundId) = tq at hmoved hqueue
    cases hmoved with
    | stored htype hmode' => cases hmode'
    | passed htype hcalm =>
      rw [if_neg (show ¬ x.tag.m_type = 2 from htype)]
      exact ⟨rfl, hqueue⟩
    | flushed htype hlost =>
      rw [if_neg (show ¬ x.tag.m_type = 2 from htype), dataOf, List.filter_append]
      refine ⟨?_, by simp⟩
      rw [← dataOf, hnone _ hqueue, List.nil_append, dataOf]
    | absorbed htype =>
      rw [if_pos (show x.tag.m_type = 2 from htype)]
      exact ⟨rfl, hqueue⟩
    | cleared htype hlost =>
      rw [if_pos (show x.tag.m_type = 2 from htype)]
      exact ⟨hnone _ hqueue, by simp⟩
  exact
    { held := hleft.2
      data := by
        have hout : (f.forward x header r).departed =
            f.departed ++ (f.l3.released x.tag.m_roundId ++ left) := by
          rw [departed, ForwardNet.forward, ownDepartures_append, hp.out]
          rfl
        have hold := hd.data
        have hnew := hleft.1
        rw [hout]
        unfold dataOf at hold hnew hreleased ⊢
        rw [ForwardNet.forward, List.filter_append, List.filter_append, List.filter_append,
          hreleased, hnew, hold, List.nil_append] }

/-- With `DISUSE` every net reached handed the data packets on as they came. -/
theorem Reached.direct {calls : RouterNet → SendCall → Prop} {fec : FecRouterAgent}
    (hfwin : fec.m_fwin > 0) (htq : fec.tq_ = []) (hmode : fec.m_storeMode = .DISUSE)
    {f : ForwardNet} (h : Reached calls fec f) : Direct f := by
  induction h with
  | start =>
    have htq' : (Ipv4L3ProtocolwithFecEncode.setFec fec).m_fec.tq_ = [] := htq
    exact ⟨by simp [htq'], rfl⟩
  | step hprev hstep ih =>
    have hcons := hprev.conserved hfwin htq
    cases hstep with
    | send c hc l3 out hok =>
      refine ⟨?_, ih.data⟩
      rw [RouterNet.send, (Ipv4L3ProtocolwithFecEncode.sendRealOut_same hok).tq]
      exact ih.held
    | forward x hx header r hok =>
      obtain ⟨d, left, hp⟩ := Ipv4L3ProtocolwithFecDecode.ipForward_passage
        (c := ⟨x.packet, header⟩) hx.size (hcons.fwin ▸ hfwin) hok
      exact ih.forward (hcons.mode.trans hmode) hp

/-! ### What each packet is -/

/-- The packets that reach `SendRealOut` are those handed on but for those whose time to live
has run out. -/
theorem passed_eq (f : ForwardNet) :
    f.passed = (f.departed.filter fun c => c.header.m_ttl ≠ 1).map Carried.hop := by
  have hzero : ∀ v : UInt8, v - 1 = 0 ↔ v = 1 := by
    intro v
    grind
  rw [passed, departed, ownDepartures]
  induction f.out.filter fun d => d.via ≠ .SendRxRequest with
  | nil => rfl
  | cons d ds ih =>
    rw [List.filterMap_cons, List.map_cons, List.filter_cons, ih]
    by_cases h : d.carried.header.m_ttl = 1
    · simp [Departure.transmit, Carried.hop, h]
    · simp [Departure.transmit, Carried.hop, hzero, h]

/-- No packet comes in twice. -/
theorem Conserved.nodup_arrived {fec : FecRouterAgent} {f : ForwardNet} (h : Conserved fec f) :
    f.arrived.Nodup := by
  refine h.ascending.imp ?_
  intro c c' hlt heq
  subst heq
  exact UInt32.lt_irrefl _ (hlt rfl)

/-- A data packet that came in was handed on once or is kept once. -/
theorem Conserved.count_data {fec : FecRouterAgent} {f : ForwardNet} (h : Conserved fec f)
    {c : Carried} (hc : c ∈ f.arrived) (htype : c.tag.m_type = 1) :
    f.departed.count c + f.held.count c = 1 := by
  have hcount := h.balance.count_eq c
  have hone : f.arrived.count c = 1 := List.count_eq_one_of_mem h.nodup_arrived hc
  have hzero : f.recovered.count c = 0 := by
    rw [List.count_eq_zero]
    intro hmem
    have := h.made c hmem
    rw [htype] at this
    cases this
  rw [List.count_append, List.count_append, hone, hzero] at hcount
  exact hcount

/-- No FEC packet is handed on or kept. -/
theorem Conserved.type_ne {fec : FecRouterAgent} {f : ForwardNet} (h : Conserved fec f)
    {c : Carried} (hc : c ∈ f.departed ++ f.held) : c.tag.m_type ≠ 2 := by
  rcases List.mem_append.mp (h.balance.mem_iff.mp hc) with hc | hc
  · exact (h.came c hc).1
  · rw [h.made c hc]
    decide

/-- A packet in order is forwarded: `Recv` returns. -/
theorem returns {s : Shape} {f : ForwardNet} {D' : Deliveries} {i : Nat}
    {R : List (RoundFecTable RouterHdr)} {t : RoundFecTable RouterHdr}
    {Q : List (GroupFecTable RouterHdr)} {T : GroupFecTable RouterHdr} (hs : RouterNet.Fits s)
    (h : RouterNet.Good s f.net D' i R t Q T) (hfwin : f.net.l3.m_fec.m_fwin > 0) {x : InFlight}
    (hx : f.Arrives x) (header : Ipv4Header) : ∃ r, f.l3.ipForward x.packet header = .ok r := by
  have hgot : x ∉ f.net.got := fun hmem => (hx.order x hmem).asymm (hx.order x hmem)
  rcases h.recv_cases hs hx.sent hgot header with ⟨-, r, hr⟩ | ⟨hstranded, -⟩
  · obtain ⟨d, hd, -⟩ := (FecRouterAgent.recv_ok_iff _ _ _ _).mp hr
    have heq := Ipv4L3ProtocolwithFecDecode.ipForward_eq_map (l := f.l3) (c := ⟨x.packet, header⟩)
      hx.size hfwin
    change decode x.tag (f.l3.m_fec.m_fwin * x.tag.m_nGroups.toUInt32)
      (f.l3.m_fec.m_sendRxRequest = .ON) f.l3.m_fec.toFecTables = _ at hd
    change _ = (decode x.tag (f.l3.m_fec.m_fwin * x.tag.m_nGroups.toUInt32)
      (f.l3.m_fec.m_sendRxRequest = .ON) f.l3.m_fec.toFecTables).map _ at heq
    rw [hd] at heq
    exact ⟨_, heq⟩
  · exact absurd hstranded (h.not_stranded hs hx.sent hx.order)

/-- When the encoder is in step, no packet is handed on or kept twice. -/
theorem Sound.nodup {s : Shape} {fec : FecRouterAgent} {f : ForwardNet} {D' : Deliveries} {i : Nat}
    {R : List (RoundFecTable RouterHdr)} {t : RoundFecTable RouterHdr}
    {Q : List (GroupFecTable RouterHdr)} {T : GroupFecTable RouterHdr}
    (hso : Sound s fec f D') (hc : Conserved fec f) (h : RouterNet.Good s f.net D' i R t Q T) :
    (f.departed ++ f.held).Nodup := by
  refine hc.balance.nodup_iff.mpr (List.nodup_append.mpr ⟨hc.nodup_arrived, hso.sourced.once, ?_⟩)
  intro c hmem c' hmem' heq
  obtain ⟨htype, y, hy, hpk⟩ := hc.came c hmem
  have htag : c.tag = y.tag := by rw [Carried.tag, ← hpk]; rfl
  have hfour := hc.made c' hmem'
  rw [← heq, htag] at hfour
  rcases h.types (h.got_sent y hy) with h1 | h2
  · rw [h1] at hfour
    cases hfour
  · rw [h2] at hfour
    cases hfour

end ForwardNet

open RouterNet ForwardNet

/-- Packets handed to `IpForward` in order. Whatever the encoder did: the packets handed on and
those kept are those that came in and those recovered, each data packet once; the ones whose
time to live has not run out reach `SendRealOut`; no FEC packet does; the packets kept are of
one round; and with `DISUSE` the data packets leave in order. When the encoder is in step, no
packet is handed on or kept twice, every call returns, and with `USE` all packets leave in
order. -/
theorem ipForward_conserves (s : Shape) (hs : Fits s) (fec : FecRouterAgent) (hfec : Fresh s fec)
    (htq : fec.tq_ = []) :
    (∀ calls f, ForwardNet.Reached calls fec f →
      f.passed = (f.departed.filter fun c => c.header.m_ttl ≠ 1).map Carried.hop ∧
      (f.departed ++ f.held).Perm (f.arrived ++ f.recovered) ∧
      (∀ c ∈ f.arrived, c.tag.m_type = 1 → f.departed.count c + f.held.count c = 1) ∧
      (∀ c ∈ f.departed ++ f.held, c.tag.m_type ≠ 2) ∧
      (∀ c ∈ f.held, c.tag.m_roundId = f.rid_) ∧
      (fec.m_storeMode = .DISUSE → (dataOf f.departed).Pairwise InSerialOrder)) ∧
    ∀ f, ForwardNet.Reached Sendable fec f →
      (f.departed ++ f.held).Nodup ∧
      (∀ x header, f.Arrives x → ∃ r, f.l3.ipForward x.packet header = .ok r) ∧
      (fec.m_storeMode = .USE → f.departed.Pairwise InSerialOrder) := by
  have hfwin : fec.m_fwin > 0 := by
    rw [hfec.fwin]
    have := s.fwin_ne
    grind
  refine ⟨?_, ?_⟩
  · intro calls f hf
    have hc := hf.conserved hfwin htq
    refine ⟨f.passed_eq, hc.balance, fun c => hc.count_data, fun c => hc.type_ne, ?_, ?_⟩
    · intro c hmem
      obtain ⟨q, hq, rfl⟩ := List.mem_map.mp hmem
      exact hc.round q hq
    · intro hmode
      rw [(hf.direct hfwin htq hmode).data]
      refine (hc.ascending.imp ?_).filter _
      intro c c' hlt hrid
      exact UInt32.le_of_lt (hlt hrid)
  · intro f hf
    have hc := hf.conserved hfwin htq
    rcases hf.sound hs hfec htq with rfl | ⟨D', i, R, t, Q, T, hg, hso⟩
    · have hnil : (Ipv4L3ProtocolwithFecEncode.setFec fec).m_fec.tq_ = [] := htq
      refine ⟨by simp [departed, held, ownDepartures, hnil], ?_, fun _ => List.Pairwise.nil⟩
      intro x header hx
      cases hx.sent
    · exact ⟨hso.nodup hc hg, fun x header hx => ForwardNet.returns hs hg (hc.fwin ▸ hfwin) hx header,
        fun hmode => (hso.lined hmode).order⟩

/-- The first data packet arrives at the decoding router. -/
theorem ipForward_conserves_two : ∃ f : ForwardNet, f.arrived.length = 1 ∧
    (f.departed ++ f.held).Perm (f.arrived ++ f.recovered) ∧ (f.departed ++ f.held).Nodup ∧
      f.departed.Pairwise InSerialOrder := by
  have h0 : ForwardNet.Reached Sendable twoAgent _ := .start
  have h1 := h0.step (.send fullCall ⟨by decide, by decide, by decide⟩ _ _ rfl)
  have h2 := h1.step (.forward (Shape.two.fullFlight 0)
    ⟨by decide, by decide, by decide, by decide⟩ { m_ttl := 64 } _ rfl)
  have h := ipForward_conserves Shape.two (by unfold Fits; decide) twoAgent fresh_twoAgent rfl
  exact ⟨_, rfl, (h.1 _ _ h2).2.1, (h.2 _ h2).1, (h.2 _ h2).2.2 rfl⟩

/-- An agent of shape `Shape.two` that does not use the transit queue for data packets. -/
def directAgent : FecRouterAgent := { twoAgent with m_storeMode := .DISUSE }

/-- A data packet whose time to live runs out here is neither passed to `SendRealOut` nor kept;
and with `DISUSE` the first data packet, recovered by the FEC packet of its group, leaves after
the second one. -/
theorem not_ipForward_conserves_two :
    (∃ f, ForwardNet.Reached Sendable twoAgent f ∧ ∃ c ∈ f.arrived, c.tag.m_type = 1 ∧
      f.held = [] ∧ f.passed = []) ∧
    ∃ f, ForwardNet.Reached Sendable directAgent f ∧
      f.departed.map (fun c => (c.tag.m_roundId, c.tag.m_serial)) = [(1, 2), (1, 1)] := by
  constructor
  · have h0 : ForwardNet.Reached Sendable twoAgent _ := .start
    have h1 := h0.step (.send fullCall ⟨by decide, by decide, by decide⟩ _ _ rfl)
    have h2 := h1.step (.forward (Shape.two.fullFlight 0)
      ⟨by decide, by decide, by decide, by decide⟩ { m_ttl := 1 } _ rfl)
    exact ⟨_, h2, _, List.mem_singleton_self _, by decide, rfl, by decide⟩
  · have h0 : ForwardNet.Reached Sendable directAgent _ := .start
    have h1 := h0.step (.send fullCall ⟨by decide, by decide, by decide⟩ _ _ rfl)
    have h2 := h1.step (.send fullCall ⟨by decide, by decide, by decide⟩ _ _ rfl)
    have h3 := h2.step (.forward (Shape.two.fullFlight 1)
      ⟨by decide, by decide, by decide, by decide⟩ { m_ttl := 64 } _ rfl)
    have h4 := h3.step (.forward (Shape.two.fullFec 0)
      ⟨by decide, by decide, by decide, by decide⟩ { m_ttl := 64 } _ rfl)
    have h5 := h4.step (.forward (Shape.two.fullFec 1)
      ⟨by decide, by decide, by decide, by decide⟩ { m_ttl := 64 } _ rfl)
    exact ⟨_, h5, by decide⟩

end Ns3.Fec
