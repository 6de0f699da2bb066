import Ns3.Internet.ArpCache

/-!
# Packets on their way through the ARP cache

A node is given packets, receives ARP messages and lets time pass, in any order, but not past the event of the timer.
Every packet is sent once, is lost or waits. Packets to one address are sent in the order in which they were given, to a
hardware address that was learned for it.
-/

namespace Ns3.Internet

variable {Ip Packet Mac : Type} [DecidableEq Ip]

/-- A node with one cache. For each address there are the packets that were given to it, those that it sent, with the
hardware address, those that were lost, the number of requests, and the time since when packets wait. -/
structure ArpNode (Ip Packet Mac : Type) [DecidableEq Ip] where
  device : Mac
  addresses : List Ip
  cache : ArpCache Ip Packet Mac
  now : Nat := 0
  given : Ip → List Packet := fun _ => []
  sent : Ip → List (Packet × Option Mac) := fun _ => []
  lost : Ip → List Packet := fun _ => []
  requested : Ip → Nat := fun _ => 0
  since : Ip → Nat := fun _ => 0
  learned : List (Ip × Mac) := []

/-- What happens to it. -/
inductive ArpCall (Ip Packet Mac : Type) where
  | send (destination : Ip) (packet : Packet)
  | receive (arp : ArpHeader Ip Mac)
  | advance (time : Nat)
  | handleWaitReplyTimeout
  | flush
  | remove (destination : Ip)
  | addPermanent (destination : Ip) (macAddress : Mac)

/-- What becomes of the packets that were given for one address. -/
structure ArpAccount (given : List Packet) (sent : List (Packet × Option Mac)) (lost waiting : List Packet) : Prop where
  all : given.Perm (sent.map Prod.fst ++ lost ++ waiting)
  order : (sent.map Prod.fst ++ waiting).Sublist given

namespace ArpAccount

variable {given lost waiting : List Packet} {sent : List (Packet × Option Mac)} {packet : Packet}

theorem nil : ArpAccount ([] : List Packet) ([] : List (Packet × Option Mac)) [] [] := ⟨.nil, .slnil⟩

theorem wait (h : ArpAccount given sent lost waiting) (packet : Packet) :
    ArpAccount (given ++ [packet]) sent lost (waiting ++ [packet]) where
  all := by
    rw [← List.append_assoc]
    exact h.all.append_right _
  order := by
    rw [← List.append_assoc]
    exact h.order.append (List.Sublist.refl _)

theorem drop (h : ArpAccount given sent lost waiting) (packet : Packet) :
    ArpAccount (given ++ [packet]) sent (lost ++ [packet]) waiting where
  all := by
    refine (h.all.append_right [packet]).trans ?_
    rw [List.append_assoc _ waiting, ← List.append_assoc _ lost, List.append_assoc _ [packet]]
    exact List.Perm.append_left _ List.perm_append_comm
  order := h.order.trans (List.sublist_append_left _ _)

theorem send (h : ArpAccount given sent lost []) (packet : Packet) (mac : Option Mac) :
    ArpAccount (given ++ [packet]) (sent ++ [(packet, mac)]) lost [] where
  all := by
    refine (h.all.append_right [packet]).trans ?_
    rw [List.append_nil, List.append_nil, List.map_append, List.append_assoc, List.append_assoc]
    exact List.Perm.append_left _ List.perm_append_comm
  order := by
    have horder := h.order.append (List.Sublist.refl [packet])
    rw [List.append_nil] at horder
    rw [List.append_nil, List.map_append]
    exact horder

theorem lose (h : ArpAccount given sent lost waiting) : ArpAccount given sent (lost ++ waiting) [] where
  all := by
    rw [List.append_nil, ← List.append_assoc]
    exact h.all
  order := by
    rw [List.append_nil]
    exact (List.sublist_append_left _ _).trans h.order

/-- The packets that wait are sent. -/
theorem flush (h : ArpAccount given sent lost waiting) (mac : Option Mac) :
    ArpAccount given (sent ++ waiting.map fun packet => (packet, mac)) lost [] where
  all := by
    refine h.all.trans ?_
    rw [List.append_nil, List.map_append, List.map_map, List.append_assoc, List.append_assoc]
    refine List.Perm.append_left _ (List.perm_append_comm.trans ?_)
    rw [show Prod.fst ∘ (fun packet : Packet => (packet, mac)) = id from rfl, List.map_id]
  order := by
    rw [List.append_nil, List.map_append, List.map_map, show Prod.fst ∘ (fun packet : Packet => (packet, mac)) = id from rfl,
      List.map_id]
    exact h.order

end ArpAccount

namespace ArpNode

/-- Something is added to what is noted for an address. -/
def note {α : Type} (destination : Ip) (added : List α) (noted : Ip → List α) (ip : Ip) : List α :=
  if ip = destination then noted ip ++ added else noted ip

/-- A packet was looked up. -/
def answered (n : ArpNode Ip Packet Mac) (destination : Ip) (packet : Packet) :
    ArpAnswer Mac × ArpCache Ip Packet Mac → ArpNode Ip Packet Mac
  | (.send mac, cache) => { n with cache, sent := note destination [(packet, mac)] n.sent }
  | (.request, cache) =>
    { n with
      cache
      requested := fun ip => if ip = destination then n.requested ip + 1 else n.requested ip
      since := fun ip => if ip = destination then n.now else n.since ip }
  | (.wait, cache) => { n with cache }
  | (.drop, cache) => { n with cache, lost := note destination [packet] n.lost }

/-- A packet goes to `Ipv4Interface::Send`. -/
def lookup (destination : Ip) (packet : Packet) (n : ArpNode Ip Packet Mac) : Option (ArpNode Ip Packet Mac) :=
  (n.cache.lookup packet destination n.now).map (n.answered destination packet)

/-- Packets one after the other. -/
def lookups (destination : Ip) : List Packet → ArpNode Ip Packet Mac → Option (ArpNode Ip Packet Mac)
  | [], n => some n
  | packet :: rest, n => (n.lookup destination packet).bind (lookups destination rest)

/-- One call. -/
def call [DecidableEq Mac] : ArpCall Ip Packet Mac → ArpNode Ip Packet Mac → Option (ArpNode Ip Packet Mac)
  | .send destination packet, n => lookup destination packet { n with given := note destination [packet] n.given }
  | .receive arp, n =>
    match n.cache.receive n.device arp n.now n.addresses with
    | (.flushed pending, cache) =>
      lookups arp.m_ipv4Source pending { n with cache, learned := (arp.m_ipv4Source, arp.m_macSource) :: n.learned }
    | (_, cache) => some { n with cache }
  | .advance time, n => some { n with now := n.now + time }
  | .handleWaitReplyTimeout, n =>
    some { n with
      cache := n.cache.handleWaitReplyTimeout n.now
      lost := fun ip => n.lost ip ++ ((n.cache.m_arpCache.lookup ip).map (·.givenUp n.cache.m_maxRetries)).getD []
      requested := fun ip =>
        if (n.cache.m_arpCache.lookup ip).any (·.asksAgain n.cache.m_maxRetries) then n.requested ip + 1 else n.requested ip }
  | .flush, n => some { n with cache := n.cache.flush, lost := fun ip => n.lost ip ++ n.cache.waiting ip }
  | .remove destination, n =>
    some { n with
      cache := n.cache.remove destination
      lost := note destination (n.cache.waiting destination) n.lost }
  | .addPermanent destination macAddress, n =>
    (n.cache.addPermanent destination macAddress n.now).map fun cache =>
      { n with cache, learned := (destination, macAddress) :: n.learned }

/-- Calls one after the other. -/
def calls [DecidableEq Mac] : List (ArpCall Ip Packet Mac) → ArpNode Ip Packet Mac → Option (ArpNode Ip Packet Mac)
  | [], n => some n
  | first :: rest, n => (n.call first).bind (calls rest)

/-- Time does not pass the event of the timer. An entry is added for an address that has none. -/
def Legal (n : ArpNode Ip Packet Mac) : ArpCall Ip Packet Mac → Prop
  | .advance time => ∀ t, n.cache.m_waitReplyTimer = some t → n.now + time ≤ t
  | .addPermanent destination _ => n.cache.m_arpCache.lookup destination = none
  | _ => True

/-- Each call is legal when it comes. -/
def Run [DecidableEq Mac] : List (ArpCall Ip Packet Mac) → ArpNode Ip Packet Mac → Prop
  | [], _ => True
  | first :: rest, n => n.Legal first ∧ ∀ n', n.call first = some n' → Run rest n'

/-! ### What holds between calls -/

/-- An entry in a cache, with the hardware addresses that were learned, the number of requests, and the time since when it
waits. -/
structure Entry (c : ArpCache Ip Packet Mac) (learned : List (Ip × Mac)) (requested since : Nat) (destination : Ip)
    (e : ArpEntry Packet Mac) : Prop where
  idle : e.m_state ≠ .waitReply → e.m_pending = [] ∧ e.m_retries = 0
  bound : e.m_pending.length ≤ max 1 c.m_pendingQueueSize
  known : e.m_state = .alive ∨ e.m_state = .permanent → ∃ mac, e.m_macAddress = some mac ∧ (destination, mac) ∈ learned
  asks : e.m_state = .waitReply → e.m_retries ≤ c.m_maxRetries ∧ e.m_retries < requested ∧
    ∃ t, c.m_waitReplyTimer = some t ∧ t ≤ e.m_lastSeen + c.m_waitReplyTimeout ∧
      t ≤ since + (e.m_retries + 1) * c.m_waitReplyTimeout

/-- Every packet that was given was sent, was lost or waits; the packets to one address were sent in their order, to a
hardware address that was learned for it. An entry with packets that wait has been asked for, and the timer, which does
not come late, runs. -/
structure Resolving (n : ArpNode Ip Packet Mac) : Prop where
  entries : ∀ destination e, n.cache.m_arpCache.lookup destination = some e →
    Entry n.cache n.learned (n.requested destination) (n.since destination) destination e
  timer : ∀ t, n.cache.m_waitReplyTimer = some t → n.now ≤ t ∧ t ≤ n.now + n.cache.m_waitReplyTimeout
  accounts : ∀ destination,
    ArpAccount (n.given destination) (n.sent destination) (n.lost destination) (n.cache.waiting destination)
  known : ∀ destination, ∀ packet ∈ n.sent destination, ∃ mac, packet.2 = some mac ∧ (destination, mac) ∈ n.learned

variable {n : ArpNode Ip Packet Mac} {c c' : ArpCache Ip Packet Mac} {learned learned' : List (Ip × Mac)}
  {requested requested' since : Nat} {destination ip : Ip} {e : ArpEntry Packet Mac} {packet : Packet}

/-- What an entry is measured by. -/
def SameSettings (c c' : ArpCache Ip Packet Mac) : Prop :=
  c'.m_maxRetries = c.m_maxRetries ∧ c'.m_pendingQueueSize = c.m_pendingQueueSize ∧
    c'.m_waitReplyTimeout = c.m_waitReplyTimeout

theorem sameSettings_start (now : Nat) (c : ArpCache Ip Packet Mac) : SameSettings c (c.startWaitReplyTimer now) := by
  rw [ArpCache.startWaitReplyTimer]
  split <;> exact ⟨rfl, rfl, rfl⟩

theorem Entry.mono (h : Entry c learned requested since destination e) (hsame : SameSettings c c')
    (htimer : ∀ t, c.m_waitReplyTimer = some t → c'.m_waitReplyTimer = some t) (hlearned : learned ⊆ learned')
    (hrequested : requested ≤ requested') : Entry c' learned' requested' since destination e := by
  obtain ⟨hmax, hsize, htimeout⟩ := hsame
  refine ⟨h.idle, hsize ▸ h.bound, fun hstate => ?_, fun hwaits => ?_⟩
  · obtain ⟨mac, hmac, hmem⟩ := h.known hstate
    exact ⟨mac, hmac, hlearned hmem⟩
  · obtain ⟨hretries, hless, t, ht, hle⟩ := h.asks hwaits
    rw [hmax, htimeout]
    exact ⟨hretries, hless.trans_le hrequested, t, htimer t ht, hle⟩

theorem note_self {α : Type} (added : List α) (noted : Ip → List α) :
    note destination added noted destination = noted destination ++ added := if_pos rfl

theorem note_ne {α : Type} (added : List α) (noted : Ip → List α) (hne : ip ≠ destination) :
    note destination added noted ip = noted ip := if_neg hne

theorem waiting_place (c : ArpCache Ip Packet Mac) (destination ip : Ip) (e : ArpEntry Packet Mac) :
    (c.place destination e).waiting ip = if ip = destination then e.m_pending else c.waiting ip := by
  rw [ArpCache.waiting, ArpCache.lookup_place]
  split <;> rfl

theorem waiting_start (now : Nat) (c : ArpCache Ip Packet Mac) : (c.startWaitReplyTimer now).waiting = c.waiting := by
  funext ip
  rw [ArpCache.waiting, ArpCache.startWaitReplyTimer_cache]
  rfl

/-- An entry that waits is not expired. -/
theorem Resolving.not_expired (h : Resolving n) (he : n.cache.m_arpCache.lookup destination = some e)
    (hwaits : e.m_state = .waitReply) : n.cache.isExpired e n.now = false := by
  obtain ⟨-, -, t, ht, hle, -⟩ := (h.entries destination e he).asks hwaits
  have hnow := (h.timer t ht).1
  rw [ArpCache.isExpired, hwaits]
  exact decide_eq_false (by omega)

/-- A packet that was given is looked up. -/
def give (destination : Ip) (packet : Packet) (n : ArpNode Ip Packet Mac) : ArpNode Ip Packet Mac :=
  { n with given := note destination [packet] n.given }

/-- The first packet for an address. -/
theorem Resolving.waitFor (h : Resolving n) (hstate : e.m_state = .alive ∨ e.m_state = .dead) (hpending : e.m_pending = [])
    (hretries : e.m_retries = 0) (hwaiting : n.cache.waiting destination = []) :
    ∃ n', (n.cache.waitFor e packet destination n.now).map ((give destination packet n).answered destination packet) = some n' ∧
      Resolving n' := by
  have hmark : e.markWaitReply packet n.now =
      some { e with m_state := .waitReply, m_pending := [packet], m_lastSeen := n.now } := by
    rw [ArpEntry.markWaitReply, hpending]
    exact if_pos ⟨hstate, rfl⟩
  rw [ArpCache.waitFor, hmark]
  generalize hentry : ({ e with m_state := .waitReply, m_pending := [packet], m_lastSeen := n.now } : ArpEntry Packet Mac) = e'
  obtain ⟨t, ht, hnow, hle⟩ := ArpCache.timer_startWaitReplyTimer (c := n.cache.place destination e') h.timer
  have hsame : SameSettings n.cache ((n.cache.place destination e').startWaitReplyTimer n.now) :=
    sameSettings_start n.now (n.cache.place destination e')
  refine ⟨{ give destination packet n with
      cache := (n.cache.place destination e').startWaitReplyTimer n.now
      requested := fun ip => if ip = destination then n.requested ip + 1 else n.requested ip
      since := fun ip => if ip = destination then n.now else n.since ip },
    rfl, fun ip e₁ he₁ => ?_, fun t' ht' => ?_, fun ip => ?_, h.known⟩
  · have hlookup : (n.cache.place destination e').m_arpCache.lookup ip = some e₁ := by
      rw [← ArpCache.startWaitReplyTimer_cache n.now]
      exact he₁
    rw [ArpCache.lookup_place] at hlookup
    show Entry _ n.learned (if ip = destination then n.requested ip + 1 else n.requested ip)
      (if ip = destination then n.now else n.since ip) ip e₁
    by_cases heq : ip = destination
    · rw [if_pos heq] at hlookup
      rw [if_pos heq, if_pos heq]
      obtain rfl := Option.some.inj hlookup
      subst hentry
      refine ⟨fun hne => absurd rfl hne, Nat.le_max_left _ _, fun hor => ?_, fun _ => ⟨?_, ?_, t, ht, ?_, ?_⟩⟩
      · rcases hor with hor | hor <;> cases hor
      · exact hretries.le.trans (Nat.zero_le _)
      · exact hretries.trans_lt (Nat.succ_pos _)
      · exact hle.trans_eq (congrArg (n.now + ·) hsame.2.2.symm)
      · refine (hle.trans_eq (congrArg (n.now + ·) hsame.2.2.symm)).trans (Nat.add_le_add_left ?_ _)
        exact Nat.le_mul_of_pos_left _ (Nat.succ_pos _)
    · rw [if_neg heq] at hlookup
      rw [if_neg heq, if_neg heq]
      refine (h.entries ip e₁ hlookup).mono hsame (fun t' ht' => ?_) (List.Subset.refl _) (Nat.le_refl _)
      exact (congrArg ArpCache.m_waitReplyTimer
        (ArpCache.startWaitReplyTimer_running n.now (c := n.cache.place destination e') ht')).trans ht'
  · obtain rfl := Option.some.inj (ht.symm.trans ht')
    exact ⟨hnow, hle.trans_eq (congrArg (n.now + ·) hsame.2.2.symm)⟩
  · show ArpAccount (note destination [packet] n.given ip) (n.sent ip) (n.lost ip)
      (((n.cache.place destination e').startWaitReplyTimer n.now).waiting ip)
    rw [waiting_start, waiting_place]
    by_cases heq : ip = destination
    · subst heq
      have haccount := (h.accounts ip).wait packet
      rw [hwaiting] at haccount
      rw [note_self, if_pos rfl, ← hentry]
      exact haccount
    · rw [note_ne _ _ heq, if_neg heq]
      exact h.accounts ip

/-- Nothing but what is noted for an address changes. -/
theorem Resolving.noted (h : Resolving n) {given sent lost}
    (hgiven : ∀ ip ≠ destination, given ip = n.given ip) (hsent : ∀ ip ≠ destination, sent ip = n.sent ip)
    (hlost : ∀ ip ≠ destination, lost ip = n.lost ip)
    (haccount : ArpAccount (given destination) (sent destination) (lost destination) (n.cache.waiting destination))
    (hknown : ∀ packet ∈ sent destination, ∃ mac, packet.2 = some mac ∧ (destination, mac) ∈ n.learned) :
    Resolving { n with given, sent, lost } := by
  refine ⟨h.entries, h.timer, fun ip => ?_, fun ip packet hpacket => ?_⟩
  · by_cases heq : ip = destination
    · subst heq
      exact haccount
    · show ArpAccount (given ip) (sent ip) (lost ip) (n.cache.waiting ip)
      rw [hgiven ip heq, hsent ip heq, hlost ip heq]
      exact h.accounts ip
  · by_cases heq : ip = destination
    · subst heq
      exact hknown packet hpacket
    · exact h.known ip packet (hsent ip heq ▸ hpacket)

/-- An entry is placed in the cache, and nothing but what is noted for its address changes. -/
theorem Resolving.place (h : Resolving n) {given sent lost} (hlearned : n.learned ⊆ learned)
    (hentry : Entry n.cache learned (n.requested destination) (n.since destination) destination e)
    (hgiven : ∀ ip ≠ destination, given ip = n.given ip) (hsent : ∀ ip ≠ destination, sent ip = n.sent ip)
    (hlost : ∀ ip ≠ destination, lost ip = n.lost ip)
    (haccount : ArpAccount (given destination) (sent destination) (lost destination) e.m_pending)
    (hknown : ∀ packet ∈ sent destination, ∃ mac, packet.2 = some mac ∧ (destination, mac) ∈ learned) :
    Resolving { n with cache := n.cache.place destination e, given, sent, lost, learned } := by
  refine ⟨fun ip e₁ he₁ => ?_, h.timer, fun ip => ?_, fun ip packet hpacket => ?_⟩
  · have hlookup := (ArpCache.lookup_place n.cache destination ip e).symm.trans he₁
    by_cases heq : ip = destination
    · subst heq
      rw [if_pos rfl] at hlookup
      obtain rfl := Option.some.inj hlookup
      exact hentry.mono ⟨rfl, rfl, rfl⟩ (fun _ ht => ht) (List.Subset.refl _) (Nat.le_refl _)
    · rw [if_neg heq] at hlookup
      exact (h.entries ip e₁ hlookup).mono ⟨rfl, rfl, rfl⟩ (fun _ ht => ht) hlearned (Nat.le_refl _)
  · show ArpAccount (given ip) (sent ip) (lost ip) ((n.cache.place destination e).waiting ip)
    rw [waiting_place]
    by_cases heq : ip = destination
    · subst heq
      rw [if_pos rfl]
      exact haccount
    · rw [if_neg heq, hgiven ip heq, hsent ip heq, hlost ip heq]
      exact h.accounts ip
  · by_cases heq : ip = destination
    · subst heq
      exact hknown packet hpacket
    · obtain ⟨mac, hmac, hmem⟩ := h.known ip packet (hsent ip heq ▸ hpacket)
      exact ⟨mac, hmac, hlearned hmem⟩

/-! ### The calls -/

theorem Resolving.send (h : Resolving n) (destination : Ip) (packet : Packet) :
    ∃ n', (give destination packet n).lookup destination packet = some n' ∧ Resolving n' := by
  show ∃ n', (n.cache.lookup packet destination n.now).map _ = some n' ∧ Resolving n'
  have hdrop : ∃ n', (some (ArpAnswer.drop, n.cache)).map ((give destination packet n).answered destination packet) = some n' ∧
      Resolving n' := by
    refine ⟨{ n with given := note destination [packet] n.given, lost := note destination [packet] n.lost }, rfl,
      h.noted (fun _ hne => note_ne _ _ hne) (fun _ _ => rfl) (fun _ hne => note_ne _ _ hne) ?_ (h.known destination)⟩
    rw [note_self, note_self]
    exact (h.accounts destination).drop packet
  rw [ArpCache.lookup]
  cases he : n.cache.m_arpCache.lookup destination with
  | none => exact h.waitFor (.inl rfl) rfl rfl (ArpCache.waiting_of_none he)
  | some e =>
    have hentry := h.entries destination e he
    have haccount := h.accounts destination
    have hwaiting := ArpCache.waiting_of_lookup he
    have hagain : e.m_state = .alive ∨ e.m_state = .dead →
        ∃ n', (n.cache.waitFor e packet destination n.now).map ((give destination packet n).answered destination packet) = some n' ∧
          Resolving n' := by
      intro hstate
      obtain ⟨hpending, hretries⟩ := hentry.idle (by rcases hstate with hstate | hstate <;> rw [hstate] <;> decide)
      exact h.waitFor hstate hpending hretries (hwaiting.trans hpending)
    have hsend : e.m_state = .alive ∨ e.m_state = .permanent →
        ∃ n', (some (ArpAnswer.send e.m_macAddress, n.cache)).map ((give destination packet n).answered destination packet) =
          some n' ∧ Resolving n' := by
      intro hstate
      obtain ⟨hpending, -⟩ := hentry.idle (by rcases hstate with hstate | hstate <;> rw [hstate] <;> decide)
      refine ⟨{ n with
          given := note destination [packet] n.given
          sent := note destination [(packet, e.m_macAddress)] n.sent }, rfl,
        h.noted (fun _ hne => note_ne _ _ hne) (fun _ hne => note_ne _ _ hne) (fun _ _ => rfl) ?_ fun sent hsent => ?_⟩
      · rw [hwaiting, hpending] at haccount ⊢
        rw [note_self, note_self]
        exact haccount.send packet e.m_macAddress
      · rw [note_self] at hsent
        rcases List.mem_append.mp hsent with hsent | hsent
        · exact h.known destination sent hsent
        · obtain rfl := List.mem_singleton.mp hsent
          exact hentry.known hstate
    dsimp only
    cases hexpired : n.cache.isExpired e n.now with
    | true =>
      rw [if_pos rfl]
      cases hstate : e.m_state with
      | alive => exact hagain (.inl hstate)
      | dead => exact hagain (.inr hstate)
      | waitReply =>
        rw [h.not_expired he hstate] at hexpired
        cases hexpired
      | permanent =>
        rw [ArpCache.isExpired, hstate] at hexpired
        cases hexpired
    | false =>
      rw [if_neg Bool.false_ne_true]
      cases hstate : e.m_state with
      | dead => exact hdrop
      | alive => exact hsend (.inl hstate)
      | permanent => exact hsend (.inr hstate)
      | waitReply =>
        dsimp only
        by_cases hfull : n.cache.m_pendingQueueSize ≤ e.m_pending.length
        · rw [if_pos hfull]
          exact hdrop
        · rw [if_neg hfull]
          refine ⟨{ n with
              cache := n.cache.place destination { e with m_state := .waitReply, m_pending := e.m_pending ++ [packet] }
              given := note destination [packet] n.given }, rfl,
            h.place (List.Subset.refl _)
              ⟨fun hne => absurd rfl hne, ?_, fun hor => hentry.known (by rw [hstate]; exact hor), fun _ => hentry.asks hstate⟩
              (fun _ hne => note_ne _ _ hne) (fun _ _ => rfl) (fun _ _ => rfl) ?_ (h.known destination)⟩
          · show (e.m_pending ++ [packet]).length ≤ _
            rw [List.length_append, List.length_singleton]
            omega
          · rw [hwaiting] at haccount
            rw [note_self]
            exact haccount.wait packet

theorem note_note {α : Type} (first rest : List α) (noted : Ip → List α) :
    note destination rest (note destination first noted) = note destination (first ++ rest) noted := by
  funext ip
  simp only [note]
  split
  · exact List.append_assoc _ _ _
  · rfl

/-- The hardware address was learned just now. -/
theorem lookups_alive (he : n.cache.m_arpCache.lookup destination = some e) (hstate : e.m_state = .alive)
    (hseen : e.m_lastSeen = n.now) (packets : List Packet) :
    n.lookups destination packets =
      some { n with sent := note destination (packets.map fun packet => (packet, e.m_macAddress)) n.sent } := by
  induction packets generalizing n with
  | nil =>
    have hnote : note destination [] n.sent = n.sent := by
      funext ip
      simp [note]
    rw [lookups, List.map_nil, hnote]
  | cons packet rest ih =>
    have hlookup : n.lookup destination packet =
        some { n with sent := note destination [(packet, e.m_macAddress)] n.sent } := by
      have hexpired : n.cache.isExpired e n.now = false := by
        rw [ArpCache.isExpired, hstate, hseen]
        simp
      rw [lookup, ArpCache.lookup, he]
      dsimp only
      rw [hexpired, if_neg Bool.false_ne_true, hstate]
      rfl
    rw [lookups, hlookup, Option.bind_some,
      ih (n := { n with sent := note destination [(packet, e.m_macAddress)] n.sent }) he hseen]
    show some { n with sent := note destination _ (note destination _ n.sent) } = _
    rw [note_note]
    rfl

/-- A message leaves the cache alone, or it is a reply that was waited for. -/
theorem receive_cases [DecidableEq Mac] (device : Mac) (arp : ArpHeader Ip Mac) (now : Nat) (c : ArpCache Ip Packet Mac)
    (addresses : List Ip) :
    ((c.receive device arp now addresses).2 = c ∧ ∀ pending, (c.receive device arp now addresses).1 ≠ .flushed pending) ∨
      ∃ e, c.m_arpCache.lookup arp.m_ipv4Source = some e ∧ e.m_state = .waitReply ∧
        c.receive device arp now addresses = (.flushed e.m_pending,
          c.place arp.m_ipv4Source { e.markAlive arp.m_macSource now with m_pending := [] }) := by
  induction addresses with
  | nil => exact .inl ⟨rfl, fun _ hflushed => by cases hflushed⟩
  | cons address rest ih =>
    rw [ArpCache.receive]
    split
    · exact .inl ⟨rfl, fun _ hflushed => by cases hflushed⟩
    · split
      · rw [ArpCache.takeReply]
        cases he : c.m_arpCache.lookup arp.m_ipv4Source with
        | none => exact .inl ⟨rfl, fun _ hflushed => by cases hflushed⟩
        | some e =>
          dsimp only
          by_cases hwaits : e.m_state = .waitReply
          · rw [if_pos hwaits]
            exact .inr ⟨e, rfl, hwaits, rfl⟩
          · rw [if_neg hwaits]
            exact .inl ⟨rfl, fun _ hflushed => by cases hflushed⟩
      · exact ih

theorem Resolving.receive [DecidableEq Mac] (h : Resolving n) (arp : ArpHeader Ip Mac) :
    ∃ n', n.call (.receive arp) = some n' ∧ Resolving n' := by
  rw [call]
  rcases receive_cases n.device arp n.now n.cache n.addresses with ⟨hcache, hnot⟩ | ⟨e, he, hwaits, hreceive⟩
  · rcases hreceive : n.cache.receive n.device arp n.now n.addresses with ⟨received, cache⟩
    rw [hreceive] at hcache hnot
    obtain rfl : cache = n.cache := hcache
    cases received with
    | flushed pending => exact absurd rfl (hnot pending)
    | ignored => exact ⟨n, rfl, h⟩
    | replied => exact ⟨n, rfl, h⟩
    | dropped => exact ⟨n, rfl, h⟩
  · rw [hreceive]
    dsimp only
    have hlookup := (ArpCache.lookup_place n.cache arp.m_ipv4Source arp.m_ipv4Source
      { e.markAlive arp.m_macSource n.now with m_pending := [] }).trans (if_pos rfl)
    refine ⟨_, lookups_alive (n := { n with
        cache := n.cache.place arp.m_ipv4Source { e.markAlive arp.m_macSource n.now with m_pending := [] }
        learned := (arp.m_ipv4Source, arp.m_macSource) :: n.learned }) hlookup rfl rfl e.m_pending,
      h.place (List.subset_cons_self _ _) ⟨fun _ => ⟨rfl, rfl⟩, Nat.zero_le _,
        fun _ => ⟨arp.m_macSource, rfl, List.mem_cons_self⟩, fun hwaits' => by cases hwaits'⟩
        (fun _ _ => rfl) (fun _ hne => note_ne _ _ hne) (fun _ _ => rfl) ?_ fun sent hsent => ?_⟩
    · have haccount := (h.accounts arp.m_ipv4Source).flush (some arp.m_macSource)
      rw [ArpCache.waiting_of_lookup he] at haccount
      rw [note_self]
      exact haccount
    · rw [note_self] at hsent
      rcases List.mem_append.mp hsent with hsent | hsent
      · obtain ⟨mac, hmac, hmem⟩ := h.known arp.m_ipv4Source sent hsent
        exact ⟨mac, hmac, List.mem_cons_of_mem _ hmem⟩
      · obtain ⟨packet, -, rfl⟩ := List.mem_map.mp hsent
        exact ⟨arp.m_macSource, rfl, List.mem_cons_self⟩

/-- The timer expires. -/
theorem Resolving.handleWaitReplyTimeout [DecidableEq Mac] (h : Resolving n) :
    ∃ n', n.call .handleWaitReplyTimeout = some n' ∧ Resolving n' := by
  refine ⟨_, rfl, fun ip e₁ he₁ => ?_, fun t ht => ?_, fun ip => ?_, h.known⟩
  · have hlookup := (ArpCache.lookup_handleWaitReplyTimeout n.now n.cache ip).symm.trans he₁
    obtain ⟨e, he, rfl⟩ := Option.map_eq_some_iff.mp hlookup
    have hentry := h.entries ip e he
    show Entry _ _ (if (n.cache.m_arpCache.lookup ip).any (·.asksAgain n.cache.m_maxRetries) then _ else _) (n.since ip) ip _
    rw [he, Option.any_some, ArpEntry.waitReplyTimeout]
    by_cases hwaits : e.m_state = .waitReply
    · obtain ⟨hretries, hless, t, ht, -, hsince⟩ := hentry.asks hwaits
      have hnow := (h.timer t ht).1
      rw [if_pos hwaits]
      by_cases hmore : e.m_retries < n.cache.m_maxRetries
      · have hasks : e.asksAgain n.cache.m_maxRetries = true := by
          rw [ArpEntry.asksAgain, hwaits]
          exact decide_eq_true hmore
        rw [if_pos hmore, if_pos hasks]
        refine ⟨fun hne => absurd hwaits hne, hentry.bound, fun hor => hentry.known hor, fun _ => ⟨hmore, Nat.succ_lt_succ hless,
          _, ArpCache.timer_handleWaitReplyTimeout he hasks, Nat.le_refl _, ?_⟩⟩
        show n.now + n.cache.m_waitReplyTimeout ≤ n.since ip + (e.m_retries + 1 + 1) * n.cache.m_waitReplyTimeout
        rw [Nat.succ_mul (e.m_retries + 1)]
        omega
      · rw [if_neg hmore]
        refine ⟨fun _ => ⟨rfl, rfl⟩, Nat.zero_le _, fun hor => ?_, fun hwaits' => ?_⟩
        · rcases hor with hor | hor <;> cases hor
        · cases hwaits'
    · rw [if_neg hwaits]
      exact ⟨hentry.idle, hentry.bound, hentry.known, fun hwaits' => absurd hwaits' hwaits⟩
  · have htimer : (n.cache.handleWaitReplyTimeout n.now).m_waitReplyTimer = some t := ht
    rw [ArpCache.handleWaitReplyTimeout] at htimer
    dsimp only at htimer
    split at htimer
    · obtain rfl := Option.some.inj htimer
      exact ⟨Nat.le_add_right _ _, Nat.le_refl _⟩
    · cases htimer
  · have haccount := h.accounts ip
    show ArpAccount (n.given ip) (n.sent ip) (n.lost ip ++ _) ((n.cache.handleWaitReplyTimeout n.now).waiting ip)
    cases he : n.cache.m_arpCache.lookup ip with
    | none =>
      rw [ArpCache.waiting_of_none he] at haccount
      rw [ArpCache.waiting, ArpCache.lookup_handleWaitReplyTimeout, he, Option.map_none, Option.getD_none, List.append_nil]
      exact haccount
    | some e =>
      rw [ArpCache.waiting_of_lookup he] at haccount
      rw [ArpCache.waiting, ArpCache.lookup_handleWaitReplyTimeout, he, Option.map_some, Option.map_some, Option.map_some,
        Option.getD_some, Option.getD_some, ArpEntry.givenUp, ArpEntry.waitReplyTimeout]
      by_cases hwaits : e.m_state = .waitReply
      · by_cases hmore : e.m_retries < n.cache.m_maxRetries
        · rw [if_neg (fun hboth => hboth.2 hmore), if_pos hwaits, if_pos hmore, List.append_nil]
          exact haccount
        · rw [if_pos ⟨hwaits, hmore⟩, if_pos hwaits, if_neg hmore]
          exact haccount.lose
      · rw [if_neg (fun hboth => hwaits hboth.1), if_neg hwaits, List.append_nil]
        exact haccount

theorem Resolving.flush (h : Resolving n) :
    Resolving { n with cache := n.cache.flush, lost := fun ip => n.lost ip ++ n.cache.waiting ip } := by
  refine ⟨fun ip e he => ?_, fun t ht => ?_, fun ip => (h.accounts ip).lose, h.known⟩
  · have hnone : (∅ : AList fun _ : Ip => ArpEntry Packet Mac).lookup ip = some e := he
    rw [AList.lookup_empty] at hnone
    cases hnone
  · cases ht

theorem Resolving.remove (h : Resolving n) (destination : Ip) :
    Resolving { n with
      cache := n.cache.remove destination
      lost := note destination (n.cache.waiting destination) n.lost } := by
  refine ⟨fun ip e he => ?_, h.timer, fun ip => ?_, h.known⟩
  · have hlookup : (n.cache.m_arpCache.erase destination).lookup ip = some e := he
    by_cases heq : ip = destination
    · rw [heq, AList.lookup_erase] at hlookup
      cases hlookup
    · rw [AList.lookup_erase_ne heq] at hlookup
      exact (h.entries ip e hlookup).mono ⟨rfl, rfl, rfl⟩ (fun _ ht => ht) (List.Subset.refl _) (Nat.le_refl _)
  · show ArpAccount (n.given ip) (n.sent ip) (note destination (n.cache.waiting destination) n.lost ip)
      (((n.cache.m_arpCache.erase destination).lookup ip).map ArpEntry.m_pending |>.getD [])
    by_cases heq : ip = destination
    · subst heq
      rw [note_self, AList.lookup_erase]
      exact (h.accounts ip).lose
    · rw [note_ne _ _ heq, AList.lookup_erase_ne heq]
      exact h.accounts ip

theorem Resolving.addPermanent (h : Resolving n) (hnone : n.cache.m_arpCache.lookup destination = none) (macAddress : Mac) :
    ∃ n', (n.cache.addPermanent destination macAddress n.now).map
        (fun cache => { n with cache, learned := (destination, macAddress) :: n.learned }) = some n' ∧ Resolving n' := by
  have hadd : n.cache.addPermanent destination macAddress n.now = some (n.cache.place destination
      { m_state := .permanent, m_macAddress := some macAddress, m_lastSeen := n.now }) := by
    rw [ArpCache.addPermanent, hnone]
    rfl
  have haccount := h.accounts destination
  rw [ArpCache.waiting_of_none hnone] at haccount
  rw [hadd]
  refine ⟨{ n with
      cache := n.cache.place destination { m_state := .permanent, m_macAddress := some macAddress, m_lastSeen := n.now }
      learned := (destination, macAddress) :: n.learned }, rfl, h.place (List.subset_cons_self _ _)
    ⟨fun _ => ⟨rfl, rfl⟩, Nat.zero_le _, fun _ => ⟨macAddress, rfl, List.mem_cons_self⟩, fun hwaits => ?_⟩
    (fun _ _ => rfl) (fun _ _ => rfl) (fun _ _ => rfl) haccount fun packet hpacket => ?_⟩
  · cases hwaits
  · obtain ⟨mac, hmac, hmem⟩ := h.known destination packet hpacket
    exact ⟨mac, hmac, List.mem_cons_of_mem _ hmem⟩

theorem Resolving.call [DecidableEq Mac] (h : Resolving n) {call : ArpCall Ip Packet Mac} (hlegal : n.Legal call) :
    ∃ n', n.call call = some n' ∧ Resolving n' := by
  cases call with
  | send destination packet => exact h.send destination packet
  | receive arp => exact h.receive arp
  | advance time =>
    refine ⟨_, rfl, h.entries, fun t ht => ⟨hlegal t ht, (h.timer t ht).2.trans ?_⟩, h.accounts, h.known⟩
    show n.now + n.cache.m_waitReplyTimeout ≤ n.now + time + n.cache.m_waitReplyTimeout
    omega
  | handleWaitReplyTimeout => exact h.handleWaitReplyTimeout
  | flush => exact ⟨_, rfl, h.flush⟩
  | remove destination => exact ⟨_, rfl, h.remove destination⟩
  | addPermanent destination macAddress => exact h.addPermanent hlegal macAddress

/-- A node that was given nothing yet, whose cache has these settings. -/
def start (device : Mac) (addresses : List Ip) (settings : ArpCache Ip Packet Mac) : ArpNode Ip Packet Mac :=
  { device, addresses, cache := settings.flush }

theorem resolving_start (device : Mac) (addresses : List Ip) (settings : ArpCache Ip Packet Mac) :
    Resolving (start device addresses settings) := by
  refine ⟨fun ip e he => ?_, fun t ht => ?_, fun _ => .nil, fun _ _ hpacket => absurd hpacket List.not_mem_nil⟩
  · cases he
  · cases ht

/-- What a node promises for the packets to an address: each was sent, was lost or waits, those that were sent were sent in
their order, to a hardware address that was learned for it, and a packet does not wait longer than all requests take. -/
structure Resolves (n : ArpNode Ip Packet Mac) (destination : Ip) : Prop where
  account : ArpAccount (n.given destination) (n.sent destination) (n.lost destination) (n.cache.waiting destination)
  known : ∀ packet ∈ n.sent destination, ∃ mac, packet.2 = some mac ∧ (destination, mac) ∈ n.learned
  bound : (n.cache.waiting destination).length ≤ max 1 n.cache.m_pendingQueueSize
  waits : n.cache.waiting destination ≠ [] → 0 < n.requested destination ∧
    n.now ≤ n.since destination + (n.cache.m_maxRetries + 1) * n.cache.m_waitReplyTimeout

theorem Resolving.resolves (h : Resolving n) (destination : Ip) : Resolves n destination := by
  refine ⟨h.accounts destination, h.known destination, ?_, fun hne => ?_⟩
  · cases he : n.cache.m_arpCache.lookup destination with
    | none =>
      rw [ArpCache.waiting_of_none he]
      exact Nat.zero_le _
    | some e =>
      rw [ArpCache.waiting_of_lookup he]
      exact (h.entries destination e he).bound
  · cases he : n.cache.m_arpCache.lookup destination with
    | none => exact absurd (ArpCache.waiting_of_none he) hne
    | some e =>
      rw [ArpCache.waiting_of_lookup he] at hne
      have hentry := h.entries destination e he
      have hwaits : e.m_state = .waitReply := by
        by_contra hidle
        exact hne (hentry.idle hidle).1
      obtain ⟨hretries, hless, t, ht, -, hsince⟩ := hentry.asks hwaits
      refine ⟨Nat.zero_lt_of_lt hless, (h.timer t ht).1.trans (hsince.trans ?_)⟩
      exact Nat.add_le_add_left (Nat.mul_le_mul_right _ (Nat.succ_le_succ hretries)) _

instance Legal.decidable (n : ArpNode Ip Packet Mac) : ∀ call, Decidable (n.Legal call)
  | .advance time => inferInstanceAs (Decidable (∀ t ∈ n.cache.m_waitReplyTimer, n.now + time ≤ t))
  | .addPermanent destination _ => decidable_of_iff _ (Option.isNone_iff_eq_none (o := n.cache.m_arpCache.lookup destination))
  | .send _ _ | .receive _ | .handleWaitReplyTimeout | .flush | .remove _ => .isTrue trivial

instance Run.decidable [DecidableEq Mac] : ∀ (list : List (ArpCall Ip Packet Mac)) (n : ArpNode Ip Packet Mac), Decidable (Run list n)
  | [], _ => .isTrue trivial
  | first :: rest, n =>
    have := fun n' => Run.decidable rest n'
    inferInstanceAs (Decidable (n.Legal first ∧ ∀ n' ∈ n.call first, Run rest n'))

/-- Every packet is sent, is lost or waits, and the packets to one address are sent in their order. -/
theorem arp_resolves [DecidableEq Mac] (device : Mac) (addresses : List Ip) (settings : ArpCache Ip Packet Mac)
    (list : List (ArpCall Ip Packet Mac)) (hrun : Run list (start device addresses settings)) :
    ∃ n, (start device addresses settings).calls list = some n ∧ ∀ destination, Resolves n destination := by
  suffices hall : ∀ n, Resolving n → Run list n → ∃ n', n.calls list = some n' ∧ Resolving n' by
    obtain ⟨n, hcalls, h⟩ := hall _ (resolving_start device addresses settings) hrun
    exact ⟨n, hcalls, h.resolves⟩
  clear hrun
  induction list with
  | nil => exact fun n h _ => ⟨n, rfl, h⟩
  | cons first rest ih =>
    intro n h hrun
    obtain ⟨n₁, hcall, h₁⟩ := h.call hrun.1
    obtain ⟨n', hcalls, h'⟩ := ih n₁ h₁ (hrun.2 n₁ hcall)
    exact ⟨n', by rw [calls, hcall, Option.bind_some, hcalls], h'⟩

/-- Two packets wait for the reply to the second request. -/
theorem arp_resolves_two :
    Run [.send 7 1, .send 7 2, .advance 1000000000, .handleWaitReplyTimeout, .receive ⟨2, 9, 4, 7, 5⟩, .send 7 3]
        (start 4 [5] ({} : ArpCache Nat Nat Nat)) ∧
      ∃ n, (start 4 [5] ({} : ArpCache Nat Nat Nat)).calls
        [.send 7 1, .send 7 2, .advance 1000000000, .handleWaitReplyTimeout, .receive ⟨2, 9, 4, 7, 5⟩, .send 7 3] = some n ∧
        ∀ destination, Resolves n destination :=
  ⟨by decide +kernel, arp_resolves 4 [5] {} _ (by decide +kernel)⟩

end ArpNode

end Ns3.Internet
