import Mathlib.Data.Int.Bitwise
import Mathlib.Data.List.AList
import Mathlib.Order.Lattice

/-!
# The ARP cache

`ArpCache` has an entry for each address that packets go to, with the packets that wait for its hardware address.
One timer serves all entries: when it expires, those that wait are asked for again or given up. A call has no result where
an assertion fails or the program stops with a fatal error. Times are nanoseconds.
Source: `src/internet/model/arp-cache.cc`, `src/internet/model/arp-l3-protocol.cc`.
-/

namespace Ns3.Internet

/-- `ArpCache::Entry::ArpCacheEntryState_e`. -/
inductive ArpCacheEntryState where
  | alive
  | waitReply
  | dead
  | permanent
deriving DecidableEq, Repr

/-- `ArpCache::Entry`. Its address is its key in the cache. -/
structure ArpEntry (Packet Mac : Type) where
  m_state : ArpCacheEntryState := .alive
  m_lastSeen : Nat := 0
  m_macAddress : Option Mac := none
  m_pending : List Packet := []
  m_retries : Nat := 0

/-- `ArpCache`. Of the timer there is the time when it expires, while it runs. -/
structure ArpCache (Ip Packet Mac : Type) [DecidableEq Ip] where
  m_aliveTimeout : Nat := 120000000000
  m_deadTimeout : Nat := 100000000000
  m_waitReplyTimeout : Nat := 1000000000
  m_maxRetries : Nat := 3
  m_pendingQueueSize : Nat := 3
  m_waitReplyTimer : Option Nat := none
  m_arpCache : AList fun _ : Ip => ArpEntry Packet Mac := ∅

/-- `ArpHeader`. -/
structure ArpHeader (Ip Mac : Type) where
  m_type : UInt16
  m_macSource : Mac
  m_macDest : Mac
  m_ipv4Source : Ip
  m_ipv4Dest : Ip

namespace ArpHeader

variable {Ip Mac : Type} (arp : ArpHeader Ip Mac)

def isRequest : Bool := arp.m_type == 1

def isReply : Bool := arp.m_type == 2

end ArpHeader

namespace ArpEntry

variable {Packet Mac : Type} (e : ArpEntry Packet Mac)

/-- `MarkDead`, of an entry that is not permanent. -/
def markDead (now : Nat) : ArpEntry Packet Mac := { e with m_state := .dead, m_retries := 0, m_lastSeen := now }

/-- `MarkAlive`, of an entry that waits. -/
def markAlive (macAddress : Mac) (now : Nat) : ArpEntry Packet Mac :=
  { e with m_macAddress := some macAddress, m_state := .alive, m_retries := 0, m_lastSeen := now }

/-- `MarkPermanent`. -/
def markPermanent (now : Nat) : Option (ArpEntry Packet Mac) :=
  if e.m_macAddress.isSome then some { e with m_state := .permanent, m_retries := 0, m_lastSeen := now } else none

/-- `MarkWaitReply`, without the timer. -/
def markWaitReply (waiting : Packet) (now : Nat) : Option (ArpEntry Packet Mac) :=
  if (e.m_state = .alive ∨ e.m_state = .dead) ∧ e.m_pending.isEmpty then
    some { e with m_state := .waitReply, m_pending := [waiting], m_lastSeen := now }
  else none

/-- `IncrementRetries`. -/
def incrementRetries (now : Nat) : ArpEntry Packet Mac := { e with m_retries := e.m_retries + 1, m_lastSeen := now }

/-- The entry is asked for again when the timer expires. -/
def asksAgain (m_maxRetries : Nat) : Bool := e.m_state = .waitReply && e.m_retries < m_maxRetries

/-- What is done with an entry when the timer expires. -/
def waitReplyTimeout (m_maxRetries now : Nat) : ArpEntry Packet Mac :=
  if e.m_state = .waitReply then
    if e.m_retries < m_maxRetries then e.incrementRetries now else { e.markDead now with m_pending := [] }
  else e

/-- The packets of an entry that are dropped when the timer expires. -/
def givenUp (m_maxRetries : Nat) : List Packet :=
  if e.m_state = .waitReply ∧ ¬ e.m_retries < m_maxRetries then e.m_pending else []

end ArpEntry

/-- What `ArpL3Protocol::Lookup` does with a packet: it may be sent, or waits, with a request to be sent or without one, or is
dropped. -/
inductive ArpAnswer (Mac : Type) where
  | send (hardwareDestination : Option Mac)
  | request
  | wait
  | drop

/-- What `ArpL3Protocol::Receive` does with a message: the packets that waited may be sent. -/
inductive ArpReceived (Packet : Type) where
  | ignored
  | replied
  | dropped
  | flushed (pending : List Packet)

namespace ArpCache

variable {Ip Packet Mac : Type} [DecidableEq Ip]

/-- `Entry::IsExpired`. -/
def isExpired (c : ArpCache Ip Packet Mac) (entry : ArpEntry Packet Mac) (now : Nat) : Bool :=
  match entry.m_state with
  | .waitReply => c.m_waitReplyTimeout < now - entry.m_lastSeen
  | .dead => c.m_deadTimeout < now - entry.m_lastSeen
  | .alive => c.m_aliveTimeout < now - entry.m_lastSeen
  | .permanent => false

/-- `StartWaitReplyTimer`. -/
def startWaitReplyTimer (now : Nat) (c : ArpCache Ip Packet Mac) : ArpCache Ip Packet Mac :=
  if c.m_waitReplyTimer.isSome then c else { c with m_waitReplyTimer := some (now + c.m_waitReplyTimeout) }

/-- An entry is placed in the cache. -/
def place (destination : Ip) (entry : ArpEntry Packet Mac) (c : ArpCache Ip Packet Mac) : ArpCache Ip Packet Mac :=
  { c with m_arpCache := c.m_arpCache.insert destination entry }

/-- A packet waits for a reply, and a request is sent. -/
def waitFor (entry : ArpEntry Packet Mac) (packet : Packet) (destination : Ip) (now : Nat) (c : ArpCache Ip Packet Mac) :
    Option (ArpAnswer Mac × ArpCache Ip Packet Mac) :=
  (entry.markWaitReply packet now).map fun entry => (.request, (c.place destination entry).startWaitReplyTimer now)

/-- `ArpL3Protocol::Lookup`. -/
def lookup (packet : Packet) (destination : Ip) (now : Nat) (c : ArpCache Ip Packet Mac) :
    Option (ArpAnswer Mac × ArpCache Ip Packet Mac) :=
  match c.m_arpCache.lookup destination with
  | some entry =>
    if c.isExpired entry now then
      match entry.m_state with
      | .dead | .alive => c.waitFor entry packet destination now
      | .waitReply | .permanent => none
    else
      match entry.m_state with
      | .dead => some (.drop, c)
      | .alive | .permanent => some (.send entry.m_macAddress, c)
      | .waitReply =>
        if c.m_pendingQueueSize ≤ entry.m_pending.length then some (.drop, c)
        else some (.wait, c.place destination { entry with m_pending := entry.m_pending ++ [packet] })
  | none => c.waitFor {} packet destination now

/-- A reply for one of the node's addresses. The packets that wait are taken out together. -/
def takeReply (arp : ArpHeader Ip Mac) (now : Nat) (c : ArpCache Ip Packet Mac) : ArpReceived Packet × ArpCache Ip Packet Mac :=
  match c.m_arpCache.lookup arp.m_ipv4Source with
  | some entry =>
    if entry.m_state = .waitReply then
      (.flushed entry.m_pending,
        c.place arp.m_ipv4Source { entry.markAlive arp.m_macSource now with m_pending := [] })
    else (.dropped, c)
  | none => (.dropped, c)

/-- `ArpL3Protocol::Receive`, on a device with these addresses. -/
def receive [DecidableEq Mac] (device : Mac) (arp : ArpHeader Ip Mac) (now : Nat) (c : ArpCache Ip Packet Mac) :
    List Ip → ArpReceived Packet × ArpCache Ip Packet Mac
  | [] => (.ignored, c)
  | address :: rest =>
    if arp.isRequest ∧ arp.m_ipv4Dest = address then (.replied, c)
    else if arp.isReply ∧ arp.m_ipv4Dest = address ∧ arp.m_macDest = device then c.takeReply arp now
    else c.receive device arp now rest

/-- `HandleWaitReplyTimeout`. -/
def handleWaitReplyTimeout (now : Nat) (c : ArpCache Ip Packet Mac) : ArpCache Ip Packet Mac :=
  { c with
    m_arpCache :=
      ⟨c.m_arpCache.entries.map (.map id fun _ => (ArpEntry.waitReplyTimeout · c.m_maxRetries now)),
        c.m_arpCache.nodupKeys.map₂ _ _⟩
    m_waitReplyTimer :=
      if c.m_arpCache.entries.any fun entry => entry.2.asksAgain c.m_maxRetries then some (now + c.m_waitReplyTimeout)
      else none }

/-- `Flush`. -/
def flush (c : ArpCache Ip Packet Mac) : ArpCache Ip Packet Mac := { c with m_arpCache := ∅, m_waitReplyTimer := none }

/-- `Remove`. -/
def remove (destination : Ip) (c : ArpCache Ip Packet Mac) : ArpCache Ip Packet Mac := { c with m_arpCache := c.m_arpCache.erase destination }

/-- `Add`, `SetMacAddress` and `MarkPermanent`. -/
def addPermanent (destination : Ip) (macAddress : Mac) (now : Nat) (c : ArpCache Ip Packet Mac) : Option (ArpCache Ip Packet Mac) :=
  if (c.m_arpCache.lookup destination).isSome then none
  else (ArpEntry.markPermanent { m_macAddress := some macAddress } now).map fun entry => c.place destination entry

theorem lookup_handleWaitReplyTimeout (now : Nat) (c : ArpCache Ip Packet Mac) (destination : Ip) :
    (c.handleWaitReplyTimeout now).m_arpCache.lookup destination =
      (c.m_arpCache.lookup destination).map (ArpEntry.waitReplyTimeout · c.m_maxRetries now) :=
  List.dlookup_map₂ (f := fun _ => (ArpEntry.waitReplyTimeout · c.m_maxRetries now)) destination

/-- The timer runs again when an entry waits. -/
theorem timer_handleWaitReplyTimeout {now : Nat} {c : ArpCache Ip Packet Mac} {destination : Ip} {entry : ArpEntry Packet Mac}
    (hentry : c.m_arpCache.lookup destination = some entry) (hasks : entry.asksAgain c.m_maxRetries = true) :
    (c.handleWaitReplyTimeout now).m_waitReplyTimer = some (now + c.m_waitReplyTimeout) :=
  if_pos (List.any_eq_true.mpr ⟨⟨destination, entry⟩, List.of_mem_dlookup (Option.mem_def.mpr hentry), hasks⟩)

/-- The packets that wait for the hardware address of one. -/
def waiting (c : ArpCache Ip Packet Mac) (destination : Ip) : List Packet :=
  ((c.m_arpCache.lookup destination).map ArpEntry.m_pending).getD []

theorem waiting_of_lookup {c : ArpCache Ip Packet Mac} {destination : Ip} {entry : ArpEntry Packet Mac}
    (hentry : c.m_arpCache.lookup destination = some entry) : c.waiting destination = entry.m_pending := by
  rw [waiting, hentry]
  rfl

theorem waiting_of_none {c : ArpCache Ip Packet Mac} {destination : Ip} (hnone : c.m_arpCache.lookup destination = none) :
    c.waiting destination = [] := by
  rw [waiting, hnone]
  rfl

theorem lookup_place (c : ArpCache Ip Packet Mac) (destination ip : Ip) (entry : ArpEntry Packet Mac) :
    (c.place destination entry).m_arpCache.lookup ip = if ip = destination then some entry else c.m_arpCache.lookup ip := by
  by_cases heq : ip = destination
  · subst heq
    rw [if_pos rfl]
    exact AList.lookup_insert _
  · rw [if_neg heq]
    exact AList.lookup_insert_ne heq

@[simp] theorem startWaitReplyTimer_cache (now : Nat) (c : ArpCache Ip Packet Mac) :
    (c.startWaitReplyTimer now).m_arpCache = c.m_arpCache := by
  rw [startWaitReplyTimer]
  split <;> rfl

/-- The timer runs then, and does not expire later than a timer that is started now. -/
theorem timer_startWaitReplyTimer {now : Nat} {c : ArpCache Ip Packet Mac}
    (htimer : ∀ t, c.m_waitReplyTimer = some t → now ≤ t ∧ t ≤ now + c.m_waitReplyTimeout) :
    ∃ t, (c.startWaitReplyTimer now).m_waitReplyTimer = some t ∧ now ≤ t ∧ t ≤ now + c.m_waitReplyTimeout := by
  rw [startWaitReplyTimer]
  split
  · rename_i hrunning
    obtain ⟨t, ht⟩ := Option.isSome_iff_exists.mp hrunning
    exact ⟨t, ht, htimer t ht⟩
  · exact ⟨_, rfl, Nat.le_add_right _ _, Nat.le_refl _⟩

/-- A timer that runs is left alone. -/
theorem startWaitReplyTimer_running (now : Nat) {t : Nat} {c : ArpCache Ip Packet Mac} (ht : c.m_waitReplyTimer = some t) :
    c.startWaitReplyTimer now = c := by
  rw [startWaitReplyTimer, ht]
  rfl

end ArpCache

end Ns3.Internet
