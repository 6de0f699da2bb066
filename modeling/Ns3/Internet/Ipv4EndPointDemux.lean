import Mathlib.Data.Int.Bitwise
import Mathlib.Data.List.Nodup
import Mathlib.Logic.Function.Iterate
import Mathlib.Order.Lattice

/-!
# Transport endpoints and their lookup

`Ipv4EndPointDemux` hands out endpoints, each for a local address and port and possibly for a peer, and looks up the
endpoint of an arriving packet. A new endpoint is compared with the old ones word for word, while the lookup also knows
the any address and the network addresses of the incoming interface.
Source: `src/internet/model/ipv4-end-point-demux.cc`, `src/internet/model/ipv4-end-point.cc`.
-/

namespace Ns3.Internet

variable {δ : Type*}

/-- `Ipv4EndPoint`, without its callbacks. Devices are only compared; the address 0 is any address. -/
structure Ipv4EndPoint (δ : Type*) where
  m_localAddr : UInt32
  m_localPort : UInt16
  m_peerAddr : UInt32 := 0
  m_peerPort : UInt16 := 0
  m_boundnetdevice : Option δ := none
  m_rxEnabled : Bool := true
  deriving DecidableEq

/-- `Ipv4InterfaceAddress`. -/
structure InterfaceAddress where
  m_local : UInt32
  m_mask : UInt32

/-- `Ipv4Interface`. -/
structure Ipv4Interface (δ : Type*) where
  m_device : δ
  m_ifaddrs : List InterfaceAddress

/-- `Ipv4EndPointDemux`. An endpoint stands for its own pointer: no two in the list are alike (`Allocated`). -/
structure Ipv4EndPointDemux (δ : Type*) where
  m_ephemeral : UInt16 := 49152
  m_portLast : UInt16 := 65535
  m_portFirst : UInt16 := 49152
  m_endPoints : List (Ipv4EndPoint δ) := []

/-- The addresses and ports of a packet. -/
structure FourTuple where
  daddr : UInt32
  dport : UInt16
  saddr : UInt32
  sport : UInt16

namespace Ipv4EndPointDemux

section Model

variable [DecidableEq δ]

/-! ### Allocation -/

/-- `LookupPortLocal`. -/
def lookupPortLocal (port : UInt16) (d : Ipv4EndPointDemux δ) : Bool := d.m_endPoints.any fun i => i.m_localPort = port

/-- `LookupLocal`. -/
def lookupLocal (boundNetDevice : Option δ) (addr : UInt32) (port : UInt16) (d : Ipv4EndPointDemux δ) : Bool :=
  d.m_endPoints.any fun i => i.m_localPort = port ∧ i.m_localAddr = addr ∧ i.m_boundnetdevice = boundNetDevice

/-- The next port to try. -/
def nextPort (d : Ipv4EndPointDemux δ) (port : UInt16) : UInt16 :=
  if port + 1 < d.m_portFirst ∨ port + 1 > d.m_portLast then d.m_portFirst else port + 1

/-- The loop of `AllocateEphemeralPort`, with so many turns to go. -/
def searchPort (d : Ipv4EndPointDemux δ) : Nat → UInt16 → Option UInt16
  | 0, _ => none
  | count + 1, port =>
    if d.lookupPortLocal (d.nextPort port) then searchPort d count (d.nextPort port) else some (d.nextPort port)

/-- `AllocateEphemeralPort`. -/
def allocateEphemeralPort (d : Ipv4EndPointDemux δ) : UInt16 × Ipv4EndPointDemux δ :=
  match d.searchPort (d.m_portLast.toNat + 1 - d.m_portFirst.toNat) d.m_ephemeral with
  | none => (0, d)
  | some port => (port, { d with m_ephemeral := port })

/-- `Allocate (address)`. -/
def allocateAddress (address : UInt32) (d : Ipv4EndPointDemux δ) : Option (Ipv4EndPoint δ) × Ipv4EndPointDemux δ :=
  let (port, d) := d.allocateEphemeralPort
  if port = 0 then (none, d)
  else
    let endPoint := { m_localAddr := address, m_localPort := port }
    (some endPoint, { d with m_endPoints := d.m_endPoints ++ [endPoint] })

/-- `Allocate ()`. -/
def allocate (d : Ipv4EndPointDemux δ) : Option (Ipv4EndPoint δ) × Ipv4EndPointDemux δ := d.allocateAddress 0

/-- `Allocate (boundNetDevice, address, port)`. -/
def allocateLocal (boundNetDevice : Option δ) (address : UInt32) (port : UInt16) (d : Ipv4EndPointDemux δ) :
    Option (Ipv4EndPoint δ) × Ipv4EndPointDemux δ :=
  if d.lookupLocal boundNetDevice address port ∨ d.lookupLocal none address port then (none, d)
  else
    let endPoint := { m_localAddr := address, m_localPort := port }
    (some endPoint, { d with m_endPoints := d.m_endPoints ++ [endPoint] })

/-- `Allocate (boundNetDevice, port)`. -/
def allocatePort (boundNetDevice : Option δ) (port : UInt16) (d : Ipv4EndPointDemux δ) :
    Option (Ipv4EndPoint δ) × Ipv4EndPointDemux δ := d.allocateLocal boundNetDevice 0 port

/-- `Allocate (boundNetDevice, localAddress, localPort, peerAddress, peerPort)`. -/
def allocatePeer (boundNetDevice : Option δ) (localAddress : UInt32) (localPort : UInt16) (peerAddress : UInt32)
    (peerPort : UInt16) (d : Ipv4EndPointDemux δ) : Option (Ipv4EndPoint δ) × Ipv4EndPointDemux δ :=
  if d.m_endPoints.any fun i => i.m_localPort = localPort ∧ i.m_localAddr = localAddress ∧ i.m_peerPort = peerPort ∧
      i.m_peerAddr = peerAddress ∧ (i.m_boundnetdevice = boundNetDevice ∨ i.m_boundnetdevice = none)
  then (none, d)
  else
    let endPoint :=
      { m_localAddr := localAddress, m_localPort := localPort, m_peerAddr := peerAddress, m_peerPort := peerPort }
    (some endPoint, { d with m_endPoints := d.m_endPoints ++ [endPoint] })

/-- `DeAllocate`. -/
def deAllocate (endPoint : Ipv4EndPoint δ) (d : Ipv4EndPointDemux δ) : Ipv4EndPointDemux δ :=
  { d with m_endPoints := d.m_endPoints.erase endPoint }

/-- The calls that change the endpoints. -/
inductive Call (δ : Type*) where
  | allocate
  | allocateAddress (address : UInt32)
  | allocatePort (boundNetDevice : Option δ) (port : UInt16)
  | allocateLocal (boundNetDevice : Option δ) (address : UInt32) (port : UInt16)
  | allocatePeer (boundNetDevice : Option δ) (localAddress : UInt32) (localPort : UInt16) (peerAddress : UInt32)
      (peerPort : UInt16)
  | deAllocate (endPoint : Ipv4EndPoint δ)

/-- One call. -/
def Call.run (d : Ipv4EndPointDemux δ) : Call δ → Ipv4EndPointDemux δ
  | .allocate => d.allocate.2
  | .allocateAddress address => (d.allocateAddress address).2
  | .allocatePort boundNetDevice port => (d.allocatePort boundNetDevice port).2
  | .allocateLocal boundNetDevice address port => (d.allocateLocal boundNetDevice address port).2
  | .allocatePeer boundNetDevice localAddress localPort peerAddress peerPort =>
    (d.allocatePeer boundNetDevice localAddress localPort peerAddress peerPort).2
  | .deAllocate endPoint => d.deAllocate endPoint

/-! ### Lookup -/

/-- `localAddressIsSubnetAny`: the local address is a network of the interface, and the packet goes to that network. -/
def isSubnetAny (incomingInterface : Ipv4Interface δ) (daddr localAddress : UInt32) : Bool :=
  incomingInterface.m_ifaddrs.any fun addr =>
    localAddress = addr.m_local &&& addr.m_mask ∧ addr.m_local &&& addr.m_mask = daddr &&& addr.m_mask

/-- The lists of `Lookup`. -/
structure Retvals (δ : Type*) where
  retval1 : List (Ipv4EndPoint δ) := []
  retval2 : List (Ipv4EndPoint δ) := []
  retval3 : List (Ipv4EndPoint δ) := []
  retval4 : List (Ipv4EndPoint δ) := []

/-- A list with one more endpoint, if it matches. -/
def pushIf (c : Bool) (endP : Ipv4EndPoint δ) (retval : List (Ipv4EndPoint δ)) : List (Ipv4EndPoint δ) :=
  if c then retval ++ [endP] else retval

/-- One turn of the loop of `Lookup`. -/
def lookupTurn (t : FourTuple) (incomingInterface : Ipv4Interface δ) (r : Retvals δ) (endP : Ipv4EndPoint δ) :
    Retvals δ :=
  if !endP.m_rxEnabled then r
  else if endP.m_localPort ≠ t.dport then r
  else if endP.m_boundnetdevice.any (· ≠ incomingInterface.m_device) then r
  else
    let localAddressMatchesExact : Bool := endP.m_localAddr = t.daddr
    let localAddressIsAny : Bool := !localAddressMatchesExact && endP.m_localAddr = 0
    let localAddressIsSubnetAny : Bool :=
      !localAddressMatchesExact && !localAddressIsAny && isSubnetAny incomingInterface t.daddr endP.m_localAddr
    if !localAddressMatchesExact && !localAddressIsAny && !localAddressIsSubnetAny then r
    else
      let remotePortMatchesExact : Bool := endP.m_peerPort = t.sport
      let remotePortMatchesWildCard : Bool := endP.m_peerPort = 0
      let remoteAddressMatchesExact : Bool := endP.m_peerAddr = t.saddr
      let remoteAddressMatchesWildCard : Bool := endP.m_peerAddr = 0
      if !(remotePortMatchesExact || remotePortMatchesWildCard) then r
      else if !(remoteAddressMatchesExact || remoteAddressMatchesWildCard) then r
      else
        let localAddressMatchesWildCard := localAddressIsAny || localAddressIsSubnetAny
        { retval4 := pushIf (localAddressMatchesExact && remoteAddressMatchesExact && remotePortMatchesExact) endP
            r.retval4
          retval3 := pushIf (localAddressMatchesWildCard && remoteAddressMatchesExact && remotePortMatchesExact) endP
            r.retval3
          retval2 := pushIf (localAddressMatchesExact && remoteAddressMatchesWildCard && remotePortMatchesWildCard) endP
            r.retval2
          retval1 := pushIf (localAddressMatchesWildCard && remoteAddressMatchesWildCard && remotePortMatchesWildCard)
            endP r.retval1 }

/-- The most exact list. -/
def Retvals.mostExact (r : Retvals δ) : List (Ipv4EndPoint δ) :=
  if r.retval4 ≠ [] then r.retval4
  else if r.retval3 ≠ [] then r.retval3
  else if r.retval2 ≠ [] then r.retval2
  else r.retval1

/-- `Lookup`, without a result when it aborts. -/
def lookup (t : FourTuple) (incomingInterface : Ipv4Interface δ) (d : Ipv4EndPointDemux δ) :
    Option (List (Ipv4EndPoint δ)) :=
  let retval := (d.m_endPoints.foldl (lookupTurn t incomingInterface) {}).mostExact
  if retval.length > 1 then none else some retval

end Model

/-! ### The endpoints allocated -/

/-- What every run keeps. -/
structure Allocated (d : Ipv4EndPointDemux δ) : Prop where
  nodup : d.m_endPoints.Nodup
  unbound : ∀ e ∈ d.m_endPoints, e.m_boundnetdevice = none
  enabled : ∀ e ∈ d.m_endPoints, e.m_rxEnabled = true
  portFirst : d.m_portFirst = 49152
  portLast : d.m_portLast = 65535
  ephemeral : 49152 ≤ d.m_ephemeral.toNat

variable {d : Ipv4EndPointDemux δ}

/-- A new endpoint unlike the old ones. -/
theorem Allocated.push (h : Allocated d) {e : Ipv4EndPoint δ} (hunbound : e.m_boundnetdevice = none)
    (henabled : e.m_rxEnabled = true) (hnew : e ∉ d.m_endPoints) :
    Allocated { d with m_endPoints := d.m_endPoints ++ [e] } where
  nodup := by
    rw [List.nodup_append]
    refine ⟨h.nodup, List.nodup_singleton e, fun a ha b hb hab => ?_⟩
    rw [List.mem_singleton] at hb
    exact hnew (hb ▸ hab ▸ ha)
  unbound := List.forall_mem_append.mpr ⟨h.unbound, List.forall_mem_singleton.mpr hunbound⟩
  enabled := List.forall_mem_append.mpr ⟨h.enabled, List.forall_mem_singleton.mpr henabled⟩
  portFirst := h.portFirst
  portLast := h.portLast
  ephemeral := h.ephemeral

/-! ### Ephemeral ports -/

theorem toNat_nextPort (h : Allocated d) {port : UInt16} (hport : 49152 ≤ port.toNat) :
    (d.nextPort port).toNat = 49152 + (port.toNat - 49152 + 1) % 16384 := by
  have hlt := port.toNat_lt
  have hone : (port + 1).toNat = (port.toNat + 1) % 65536 := UInt16.toNat_add port 1
  have hfirst : (49152 : UInt16).toNat = 49152 := rfl
  have hlast : (65535 : UInt16).toNat = 65535 := rfl
  have houtside : (port + 1 < (49152 : UInt16) ∨ port + 1 > (65535 : UInt16)) ↔ port.toNat = 65535 := by
    rw [gt_iff_lt, UInt16.lt_iff_toNat_lt, UInt16.lt_iff_toNat_lt, hfirst, hlast, hone]
    omega
  rw [nextPort, h.portFirst, h.portLast]
  by_cases hwrap : port.toNat = 65535
  · rw [if_pos (houtside.mpr hwrap), hfirst]
    omega
  · rw [if_neg (mt houtside.mp hwrap), hone]
    omega

/-- The ports tried go round the range. -/
theorem toNat_nextPort_iterate (h : Allocated d) {port : UInt16} (hport : 49152 ≤ port.toNat) (k : Nat) :
    (d.nextPort^[k] port).toNat = 49152 + (port.toNat - 49152 + k) % 16384 := by
  have hlt := port.toNat_lt
  induction k with
  | zero =>
    rw [Function.iterate_zero, id_eq]
    omega
  | succ k ih =>
    rw [Function.iterate_succ_apply', toNat_nextPort h (by omega), ih]
    omega

/-- Every port of the range is tried. -/
theorem exists_nextPort_iterate (h : Allocated d) {port p : UInt16} (hport : 49152 ≤ port.toNat) (hp : 49152 ≤ p.toNat) :
    ∃ k < 16384, d.nextPort^[k + 1] port = p := by
  have hlt := port.toNat_lt
  have hplt := p.toNat_lt
  refine ⟨(p.toNat + 16384 - port.toNat - 1) % 16384, Nat.mod_lt _ (by decide), ?_⟩
  rw [← UInt16.toNat_inj, toNat_nextPort_iterate h hport]
  omega

theorem searchPort_some {count : Nat} {port p : UInt16} (hsearch : d.searchPort count port = some p) :
    (∃ k < count, d.nextPort^[k + 1] port = p) ∧ d.lookupPortLocal p = false := by
  induction count generalizing port with
  | zero => cases hsearch
  | succ count ih =>
    rw [searchPort] at hsearch
    split at hsearch
    · obtain ⟨⟨k, hk, hp⟩, hfree⟩ := ih hsearch
      exact ⟨⟨k + 1, Nat.succ_lt_succ hk, hp⟩, hfree⟩
    · next hfree =>
      obtain rfl := Option.some.inj hsearch
      exact ⟨⟨0, Nat.succ_pos _, rfl⟩, Bool.eq_false_iff.mpr hfree⟩

theorem searchPort_none {count : Nat} {port : UInt16} (hsearch : d.searchPort count port = none) :
    ∀ k < count, d.lookupPortLocal (d.nextPort^[k + 1] port) = true := by
  induction count generalizing port with
  | zero => exact fun k hk => absurd hk (Nat.not_lt_zero k)
  | succ count ih =>
    rw [searchPort] at hsearch
    split at hsearch
    · next hused =>
      intro k hk
      cases k with
      | zero => exact hused
      | succ k => exact ih hsearch k (Nat.lt_of_succ_lt_succ hk)
    · cases hsearch

theorem lookupPortLocal_iff {port : UInt16} :
    d.lookupPortLocal port = true ↔ ∃ e ∈ d.m_endPoints, e.m_localPort = port := by
  rw [lookupPortLocal, List.any_eq_true]
  simp only [decide_eq_true_eq]

/-- `AllocateEphemeralPort`: a port of the range that no endpoint has, or 0 when the endpoints have them all. -/
theorem Allocated.allocateEphemeralPort (h : Allocated d) :
    Allocated d.allocateEphemeralPort.2 ∧ d.allocateEphemeralPort.2.m_endPoints = d.m_endPoints ∧
      (d.allocateEphemeralPort.1 ≠ 0 → 49152 ≤ d.allocateEphemeralPort.1.toNat ∧
        ∀ e ∈ d.m_endPoints, e.m_localPort ≠ d.allocateEphemeralPort.1) ∧
      (d.allocateEphemeralPort.1 = 0 ↔ ∀ p : UInt16, 49152 ≤ p.toNat → ∃ e ∈ d.m_endPoints, e.m_localPort = p) := by
  have hcount : d.m_portLast.toNat + 1 - d.m_portFirst.toNat = 16384 := by rw [h.portFirst, h.portLast]; rfl
  rw [Ipv4EndPointDemux.allocateEphemeralPort, hcount]
  cases hsearch : d.searchPort 16384 d.m_ephemeral with
  | none =>
    refine ⟨h, rfl, fun hne => absurd rfl hne, iff_of_true rfl fun p hp => ?_⟩
    obtain ⟨k, hk, rfl⟩ := exists_nextPort_iterate h h.ephemeral hp
    exact lookupPortLocal_iff.mp (searchPort_none hsearch k hk)
  | some port =>
    obtain ⟨⟨k, -, hk⟩, hfree⟩ := searchPort_some hsearch
    have hport : 49152 ≤ port.toNat := by
      rw [← hk, toNat_nextPort_iterate h h.ephemeral]
      omega
    have hunused : ¬ ∃ e ∈ d.m_endPoints, e.m_localPort = port := fun hused =>
      Bool.false_ne_true (hfree.symm.trans (lookupPortLocal_iff.mpr hused))
    refine ⟨⟨h.nodup, h.unbound, h.enabled, h.portFirst, h.portLast, hport⟩, rfl,
      fun _ => ⟨hport, fun e he heq => hunused ⟨e, he, heq⟩⟩, iff_of_false ?_ fun hall => hunused (hall port hport)⟩
    rintro rfl
    exact absurd hport (by decide)

/-! ### Runs -/

theorem Allocated.allocateAddress (h : Allocated d) (address : UInt32) : Allocated (d.allocateAddress address).2 := by
  obtain ⟨hd, hkept, hport, -⟩ := h.allocateEphemeralPort
  rw [Ipv4EndPointDemux.allocateAddress]
  dsimp only
  split
  · exact hd
  · next hne =>
    refine hd.push rfl rfl fun hmem => ?_
    rw [hkept] at hmem
    exact (hport hne).2 _ hmem rfl

section Runs

variable [DecidableEq δ]

theorem Allocated.allocateLocal (h : Allocated d) (boundNetDevice : Option δ) (address : UInt32) (port : UInt16) :
    Allocated (d.allocateLocal boundNetDevice address port).2 := by
  rw [Ipv4EndPointDemux.allocateLocal]
  split
  · exact h
  · next hnew =>
    refine h.push rfl rfl fun hmem => hnew (.inr ?_)
    rw [lookupLocal, List.any_eq_true]
    exact ⟨_, hmem, decide_eq_true ⟨rfl, rfl, rfl⟩⟩

theorem Allocated.allocatePeer (h : Allocated d) (boundNetDevice : Option δ) (localAddress : UInt32)
    (localPort : UInt16) (peerAddress : UInt32) (peerPort : UInt16) :
    Allocated (d.allocatePeer boundNetDevice localAddress localPort peerAddress peerPort).2 := by
  rw [Ipv4EndPointDemux.allocatePeer]
  split
  · exact h
  · next hnew =>
    refine h.push rfl rfl fun hmem => hnew ?_
    rw [List.any_eq_true]
    exact ⟨_, hmem, decide_eq_true ⟨rfl, rfl, rfl, rfl, .inr rfl⟩⟩

theorem Allocated.deAllocate (h : Allocated d) (endPoint : Ipv4EndPoint δ) : Allocated (d.deAllocate endPoint) where
  nodup := h.nodup.erase endPoint
  unbound := fun e he => h.unbound e (List.mem_of_mem_erase he)
  enabled := fun e he => h.enabled e (List.mem_of_mem_erase he)
  portFirst := h.portFirst
  portLast := h.portLast
  ephemeral := h.ephemeral

theorem Allocated.run (h : Allocated d) (call : Call δ) : Allocated (call.run d) := by
  cases call with
  | allocate => exact h.allocateAddress 0
  | allocateAddress address => exact h.allocateAddress address
  | allocatePort boundNetDevice port => exact h.allocateLocal boundNetDevice 0 port
  | allocateLocal boundNetDevice address port => exact h.allocateLocal boundNetDevice address port
  | allocatePeer boundNetDevice localAddress localPort peerAddress peerPort =>
    exact h.allocatePeer boundNetDevice localAddress localPort peerAddress peerPort
  | deAllocate endPoint => exact h.deAllocate endPoint

theorem Allocated.runs (calls : List (Call δ)) (h : Allocated d) : Allocated (calls.foldl Call.run d) := by
  induction calls generalizing d with
  | nil => exact h
  | cons call calls ih => exact ih (h.run call)

end Runs

/-! ### The endpoint that matches best -/

/-- What of an endpoint and a packet is alike, from the least to the most. -/
inductive Level where
  | localPort
  | localAddress
  | remotePair
  | all
  deriving DecidableEq

/-- The number of a case of `Lookup`. -/
def Level.rank : Level → Nat
  | .localPort => 1
  | .localAddress => 2
  | .remotePair => 3
  | .all => 4

/-- The endpoint has another address than the packet, but one that stands for it at the interface. -/
def LocalWild (t : FourTuple) (incomingInterface : Ipv4Interface δ) (e : Ipv4EndPoint δ) : Prop :=
  e.m_localAddr ≠ t.daddr ∧ (e.m_localAddr = 0 ∨ ∃ addr ∈ incomingInterface.m_ifaddrs,
    e.m_localAddr = addr.m_local &&& addr.m_mask ∧ addr.m_local &&& addr.m_mask = t.daddr &&& addr.m_mask)

/-- The endpoint matches the packet at a level. -/
def Matches (t : FourTuple) (incomingInterface : Ipv4Interface δ) : Level → Ipv4EndPoint δ → Prop
  | .all, e => e.m_localPort = t.dport ∧ e.m_localAddr = t.daddr ∧ e.m_peerAddr = t.saddr ∧ e.m_peerPort = t.sport
  | .remotePair, e =>
    e.m_localPort = t.dport ∧ LocalWild t incomingInterface e ∧ e.m_peerAddr = t.saddr ∧ e.m_peerPort = t.sport
  | .localAddress, e => e.m_localPort = t.dport ∧ e.m_localAddr = t.daddr ∧ e.m_peerAddr = 0 ∧ e.m_peerPort = 0
  | .localPort, e => e.m_localPort = t.dport ∧ LocalWild t incomingInterface e ∧ e.m_peerAddr = 0 ∧ e.m_peerPort = 0

instance (t : FourTuple) (incomingInterface : Ipv4Interface δ) (e : Ipv4EndPoint δ) :
    Decidable (LocalWild t incomingInterface e) := inferInstanceAs (Decidable (_ ∧ _))

instance (t : FourTuple) (incomingInterface : Ipv4Interface δ) (level : Level) :
    DecidablePred (Matches t incomingInterface level) := fun _ =>
  match level with
  | .all | .remotePair | .localAddress | .localPort => inferInstanceAs (Decidable (_ ∧ _))

/-- The level is the best one at which any endpoint matches. -/
def Best (d : Ipv4EndPointDemux δ) (t : FourTuple) (incomingInterface : Ipv4Interface δ) (level : Level) : Prop :=
  (∃ e ∈ d.m_endPoints, Matches t incomingInterface level e) ∧
    ∀ finer : Level, level.rank < finer.rank → ∀ e ∈ d.m_endPoints, ¬ Matches t incomingInterface finer e

/-- The list of a level. -/
def Retvals.at (r : Retvals δ) : Level → List (Ipv4EndPoint δ)
  | .all => r.retval4
  | .remotePair => r.retval3
  | .localAddress => r.retval2
  | .localPort => r.retval1

section Lookup

variable {t : FourTuple} {incomingInterface : Ipv4Interface δ} {e f : Ipv4EndPoint δ}

theorem decide_localWild : decide (LocalWild t incomingInterface e) =
    ((!decide (e.m_localAddr = t.daddr) && decide (e.m_localAddr = 0)) ||
      (!decide (e.m_localAddr = t.daddr) && !(!decide (e.m_localAddr = t.daddr) && decide (e.m_localAddr = 0)) &&
        isSubnetAny incomingInterface t.daddr e.m_localAddr)) := by
  have hsubnet : isSubnetAny incomingInterface t.daddr e.m_localAddr = true ↔ ∃ addr ∈ incomingInterface.m_ifaddrs,
      e.m_localAddr = addr.m_local &&& addr.m_mask ∧ addr.m_local &&& addr.m_mask = t.daddr &&& addr.m_mask := by
    rw [isSubnetAny, List.any_eq_true]
    simp only [decide_eq_true_eq]
  rw [Bool.eq_iff_iff, decide_eq_true_iff]
  unfold LocalWild
  rw [← hsubnet]
  by_cases hexact : e.m_localAddr = t.daddr
  · simp [hexact]
  · by_cases hany : e.m_localAddr = 0
    · simp [hany]
    · simp [hexact, hany]

variable [DecidableEq δ]

/-- One turn puts an endpoint on the list of each level at which it matches. -/
theorem lookupTurn_at (hunbound : e.m_boundnetdevice = none) (henabled : e.m_rxEnabled = true) (r : Retvals δ)
    (level : Level) : (lookupTurn t incomingInterface r e).at level =
      pushIf (Matches t incomingInterface level e) e (r.at level) := by
  rw [lookupTurn, henabled, hunbound]
  by_cases hport : e.m_localPort = t.dport
  · have hmatches : decide (Matches t incomingInterface level e) = match level with
        | .all => decide (e.m_localAddr = t.daddr) && decide (e.m_peerAddr = t.saddr) && decide (e.m_peerPort = t.sport)
        | .remotePair =>
          decide (LocalWild t incomingInterface e) && decide (e.m_peerAddr = t.saddr) && decide (e.m_peerPort = t.sport)
        | .localAddress => decide (e.m_localAddr = t.daddr) && decide (e.m_peerAddr = 0) && decide (e.m_peerPort = 0)
        | .localPort =>
          decide (LocalWild t incomingInterface e) && decide (e.m_peerAddr = 0) && decide (e.m_peerPort = 0) := by
      cases level <;> simp only [Matches, hport, true_and, Bool.decide_and, Bool.and_assoc]
    rw [hmatches, decide_localWild]
    simp only [hport, ne_eq, not_true_eq_false, if_false, Option.any_none, Bool.false_eq_true, Bool.not_true]
    -- the conditions are booleans now
    generalize decide (e.m_localAddr = t.daddr) = exact
    generalize decide (e.m_localAddr = 0) = any
    generalize isSubnetAny incomingInterface t.daddr e.m_localAddr = subnet
    generalize decide (e.m_peerAddr = t.saddr) = address
    generalize decide (e.m_peerAddr = 0) = anyAddress
    generalize decide (e.m_peerPort = t.sport) = port
    generalize decide (e.m_peerPort = 0) = anyPort
    cases exact <;> cases any <;> cases subnet <;> cases address <;> cases anyAddress <;> cases port <;>
      cases anyPort <;> cases level <;> rfl
  · have hnone : decide (Matches t incomingInterface level e) = false :=
      decide_eq_false fun hmatches => hport (by cases level <;> exact hmatches.1)
    rw [hnone]
    simp only [ne_eq, hport, not_false_eq_true, if_true, Bool.not_true, Bool.false_eq_true, if_false]
    rfl

/-- After the loop a list has the endpoints that match at its level. -/
theorem foldl_lookupTurn_at (endPoints : List (Ipv4EndPoint δ)) (hunbound : ∀ e ∈ endPoints, e.m_boundnetdevice = none)
    (henabled : ∀ e ∈ endPoints, e.m_rxEnabled = true) (r : Retvals δ) (level : Level) :
    (endPoints.foldl (lookupTurn t incomingInterface) r).at level =
      r.at level ++ endPoints.filter (Matches t incomingInterface level) := by
  induction endPoints generalizing r with
  | nil => exact (List.append_nil _).symm
  | cons e endPoints ih =>
    obtain ⟨hunbound, hunbounds⟩ := List.forall_mem_cons.mp hunbound
    obtain ⟨henabled, henableds⟩ := List.forall_mem_cons.mp henabled
    rw [List.foldl_cons, ih hunbounds henableds, lookupTurn_at hunbound henabled, List.filter_cons, pushIf]
    split
    · rw [List.append_assoc]
      rfl
    · rfl

/-- The list that `Lookup` takes. -/
theorem mostExact_eq (h : Allocated d) (t : FourTuple) (incomingInterface : Ipv4Interface δ) :
    (∃ level, Best d t incomingInterface level ∧
      (d.m_endPoints.foldl (lookupTurn t incomingInterface) {}).mostExact =
        d.m_endPoints.filter (Matches t incomingInterface level)) ∨
    (∀ level, ∀ e ∈ d.m_endPoints, ¬ Matches t incomingInterface level e) ∧
      (d.m_endPoints.foldl (lookupTurn t incomingInterface) {}).mostExact = [] := by
  have hlist : ∀ level, (d.m_endPoints.foldl (lookupTurn t incomingInterface) {}).at level =
      d.m_endPoints.filter (Matches t incomingInterface level) := fun level => by
    rw [foldl_lookupTurn_at _ h.unbound h.enabled]
    cases level <;> rfl
  generalize d.m_endPoints.foldl (lookupTurn t incomingInterface) {} = r at hlist
  have hnone : ∀ level, r.at level = [] → ∀ e ∈ d.m_endPoints, ¬ Matches t incomingInterface level e := by
    intro level hempty e he hmatches
    rw [hlist, List.filter_eq_nil_iff] at hempty
    exact hempty e he (decide_eq_true hmatches)
  have hbest : ∀ level, r.at level ≠ [] → (∀ finer : Level, level.rank < finer.rank → r.at finer = []) →
      Best d t incomingInterface level := by
    intro level hne hfiner
    obtain ⟨e, he⟩ := List.exists_mem_of_ne_nil _ hne
    rw [hlist, List.mem_filter] at he
    exact ⟨⟨e, he.1, of_decide_eq_true he.2⟩, fun finer hrank => hnone finer (hfiner finer hrank)⟩
  by_cases h4 : r.retval4 = []
  · by_cases h3 : r.retval3 = []
    · by_cases h2 : r.retval2 = []
      · have hr : r.mostExact = r.at .localPort := by simp only [Retvals.mostExact, h4, h3, h2, ne_eq, not_true_eq_false,
          if_false, Retvals.at]
        rw [hr]
        by_cases h1 : r.retval1 = []
        · refine .inr ⟨fun level => hnone level ?_, h1⟩
          cases level with
          | all => exact h4
          | remotePair => exact h3
          | localAddress => exact h2
          | localPort => exact h1
        · refine .inl ⟨.localPort, hbest .localPort h1 fun finer hrank => ?_, hlist .localPort⟩
          cases finer with
          | all => exact h4
          | remotePair => exact h3
          | localAddress => exact h2
          | localPort => exact absurd hrank (Nat.lt_irrefl _)
      · refine .inl ⟨.localAddress, hbest .localAddress h2 fun finer hrank => ?_, ?_⟩
        · cases finer with
          | all => exact h4
          | remotePair => exact h3
          | localAddress => exact absurd hrank (Nat.lt_irrefl _)
          | localPort => exact absurd hrank (by decide)
        · rw [← hlist]
          simp only [Retvals.mostExact, h4, h3, h2, ne_eq, not_true_eq_false, not_false_eq_true, if_false, if_true,
            Retvals.at]
    · refine .inl ⟨.remotePair, hbest .remotePair h3 fun finer hrank => ?_, ?_⟩
      · cases finer with
        | all => exact h4
        | remotePair => exact absurd hrank (Nat.lt_irrefl _)
        | localAddress | localPort => exact absurd hrank (by decide)
      · rw [← hlist]
        simp only [Retvals.mostExact, h4, h3, ne_eq, not_true_eq_false, not_false_eq_true, if_false, if_true, Retvals.at]
  · refine .inl ⟨.all, hbest .all h4 fun finer hrank => ?_, ?_⟩
    · cases finer with
      | all => exact absurd hrank (Nat.lt_irrefl _)
      | remotePair | localAddress | localPort => exact absurd hrank (by decide)
    · rw [← hlist]
      simp only [Retvals.mostExact, h4, ne_eq, not_false_eq_true, if_true, Retvals.at]

omit [DecidableEq δ] in
theorem one_lt_length_iff {l : List (Ipv4EndPoint δ)} (hl : l.Nodup) :
    1 < l.length ↔ ∃ e ∈ l, ∃ f ∈ l, e ≠ f := by
  cases l with
  | nil => exact iff_of_false (Nat.not_lt_zero 1) nofun
  | cons e l =>
    cases l with
    | nil =>
      refine iff_of_false (Nat.lt_irrefl 1) ?_
      rintro ⟨a, ha, b, hb, hne⟩
      exact hne ((List.mem_singleton.mp ha).trans (List.mem_singleton.mp hb).symm)
    | cons f l =>
      have hne : e ≠ f := fun heq => (List.nodup_cons.mp hl).1 (heq ▸ List.mem_cons_self ..)
      exact iff_of_true (Nat.succ_lt_succ (Nat.succ_pos _))
        ⟨e, List.mem_cons_self .., f, List.mem_cons_of_mem _ (List.mem_cons_self ..), hne⟩

omit [DecidableEq δ] in
/-- Two endpoints with the packet's own address, and with the same peer, are the same. -/
theorem Allocated.unique (h : Allocated d) {level : Level} (hlevel : level = .all ∨ level = .localAddress)
    (he : e ∈ d.m_endPoints) (hf : f ∈ d.m_endPoints) (hematch : Matches t incomingInterface level e)
    (hfmatch : Matches t incomingInterface level f) : e = f := by
  have hbound : e.m_boundnetdevice = f.m_boundnetdevice := (h.unbound e he).trans (h.unbound f hf).symm
  have hrx : e.m_rxEnabled = f.m_rxEnabled := (h.enabled e he).trans (h.enabled f hf).symm
  obtain ⟨addr, port, peerAddr, peerPort, bound, rx⟩ := e
  obtain ⟨addr', port', peerAddr', peerPort', bound', rx'⟩ := f
  dsimp only at hbound hrx
  rcases hlevel with rfl | rfl
  all_goals
    obtain ⟨hport, haddr, hpeer, hpeerPort⟩ := hematch
    obtain ⟨hport', haddr', hpeer', hpeerPort'⟩ := hfmatch
    dsimp only at hport haddr hpeer hpeerPort hport' haddr' hpeer' hpeerPort'
    rw [hport, hport', haddr, haddr', hpeer, hpeer', hpeerPort, hpeerPort', hbound, hrx]

omit [DecidableEq δ] in
theorem Best.unique {level level' : Level} (h : Best d t incomingInterface level)
    (h' : Best d t incomingInterface level') : level = level' := by
  have hle : level.rank ≤ level'.rank := Nat.le_of_not_lt fun hlt =>
    h.1.elim fun e he => h'.2 level hlt e he.1 he.2
  have hge : level'.rank ≤ level.rank := Nat.le_of_not_lt fun hlt =>
    h'.1.elim fun e he => h.2 level' hlt e he.1 he.2
  have hrank := Nat.le_antisymm hle hge
  cases level <;> cases level' <;> first | rfl | cases hrank

/-- `Lookup` aborts when two endpoints match at the best level, and else has the one that matches there. -/
theorem Allocated.lookup (h : Allocated d) (t : FourTuple) (incomingInterface : Ipv4Interface δ) :
    (d.lookup t incomingInterface = none ↔ ∃ level, Best d t incomingInterface level ∧
      ∃ e ∈ d.m_endPoints, ∃ f ∈ d.m_endPoints, e ≠ f ∧ Matches t incomingInterface level e ∧
        Matches t incomingInterface level f) ∧
    ∀ found, d.lookup t incomingInterface = some found → found.length ≤ 1 ∧
      ∀ e, e ∈ found ↔ e ∈ d.m_endPoints ∧ ∃ level, Best d t incomingInterface level ∧
        Matches t incomingInterface level e := by
  have hlookup : d.lookup t incomingInterface =
      if (d.m_endPoints.foldl (lookupTurn t incomingInterface) {}).mostExact.length > 1 then none
      else some (d.m_endPoints.foldl (lookupTurn t incomingInterface) {}).mostExact := rfl
  rcases mostExact_eq h t incomingInterface with ⟨level, hbest, hretval⟩ | ⟨hnone, hretval⟩
  · rw [hretval] at hlookup
    have hlong := one_lt_length_iff (h.nodup.filter (Matches t incomingInterface level))
    have hmem : ∀ e, e ∈ d.m_endPoints.filter (Matches t incomingInterface level) ↔
        e ∈ d.m_endPoints ∧ Matches t incomingInterface level e := fun e => by
      rw [List.mem_filter, decide_eq_true_iff]
    rw [hlookup]
    refine ⟨?_, fun found hfound => ?_⟩
    · rw [ite_eq_left_iff]
      constructor
      · intro habort
        obtain ⟨e, he, f, hf, hne⟩ := hlong.mp (Decidable.byContradiction fun hshort => nomatch habort hshort)
        rw [hmem] at he hf
        exact ⟨level, hbest, e, he.1, f, hf.1, hne, he.2, hf.2⟩
      · rintro ⟨level', hbest', e, he, f, hf, hne, hematch, hfmatch⟩ hshort
        obtain rfl := hbest.unique hbest'
        exact absurd (hlong.mpr ⟨e, (hmem e).mpr ⟨he, hematch⟩, f, (hmem f).mpr ⟨hf, hfmatch⟩, hne⟩) hshort
    · obtain ⟨hshort, hretval⟩ := Option.ite_none_left_eq_some.mp hfound
      obtain rfl := Option.some.inj hretval
      refine ⟨Nat.le_of_not_lt hshort, fun e => (hmem e).trans (and_congr_right fun _ => ?_)⟩
      exact ⟨fun hmatches => ⟨level, hbest, hmatches⟩, fun ⟨level', hbest', hmatches⟩ =>
        (hbest.unique hbest') ▸ hmatches⟩
  · rw [hretval] at hlookup
    rw [hlookup]
    refine ⟨iff_of_false (Option.some_ne_none _) ?_, fun found hfound => ?_⟩
    · rintro ⟨level, ⟨⟨e, he, hmatches⟩, -⟩, -⟩
      exact hnone level e he hmatches
    · obtain rfl := Option.some.inj hfound
      refine ⟨Nat.zero_le 1, fun e => iff_of_false List.not_mem_nil ?_⟩
      rintro ⟨he, level, -, hmatches⟩
      exact hnone level e he hmatches

/-- Over every run of calls: the packet's own address leaves one endpoint at most, `Lookup` aborts exactly when two
endpoints match best and else has the one that does, and a port is found in the range whenever there is a free one. -/
theorem demultiplexing (calls : List (Call δ)) (t : FourTuple) (incomingInterface : Ipv4Interface δ) :
    (∀ level : Level, level = .all ∨ level = .localAddress → ∀ e ∈ (calls.foldl Call.run {}).m_endPoints,
      ∀ f ∈ (calls.foldl Call.run {}).m_endPoints, Matches t incomingInterface level e →
        Matches t incomingInterface level f → e = f) ∧
    ((calls.foldl Call.run {}).lookup t incomingInterface = none ↔
      ∃ level, Best (calls.foldl Call.run {}) t incomingInterface level ∧
        ∃ e ∈ (calls.foldl Call.run {}).m_endPoints, ∃ f ∈ (calls.foldl Call.run {}).m_endPoints,
          e ≠ f ∧ Matches t incomingInterface level e ∧ Matches t incomingInterface level f) ∧
    (∀ found, (calls.foldl Call.run {}).lookup t incomingInterface = some found → found.length ≤ 1 ∧
      ∀ e, e ∈ found ↔ e ∈ (calls.foldl Call.run {}).m_endPoints ∧
        ∃ level, Best (calls.foldl Call.run {}) t incomingInterface level ∧ Matches t incomingInterface level e) ∧
    ((calls.foldl Call.run {}).allocateEphemeralPort.1 ≠ 0 →
      49152 ≤ (calls.foldl Call.run {}).allocateEphemeralPort.1.toNat ∧
        ∀ e ∈ (calls.foldl Call.run {}).m_endPoints,
          e.m_localPort ≠ (calls.foldl Call.run {}).allocateEphemeralPort.1) ∧
    ((calls.foldl Call.run {}).allocateEphemeralPort.1 = 0 ↔
      ∀ port : UInt16, 49152 ≤ port.toNat →
        ∃ e ∈ (calls.foldl Call.run {}).m_endPoints, e.m_localPort = port) := by
  have hstart : Allocated ({} : Ipv4EndPointDemux δ) := ⟨.nil, nofun, nofun, rfl, rfl, Nat.le_refl _⟩
  have h := hstart.runs calls
  obtain ⟨-, -, hfree, hfull⟩ := h.allocateEphemeralPort
  obtain ⟨habort, hfound⟩ := h.lookup t incomingInterface
  exact ⟨fun _ hlevel _ he _ hf => h.unique hlevel he hf, habort, hfound, hfree, hfull⟩

/-- An endpoint for any address and one for a network of the interface: a packet to that network makes `Lookup` abort. -/
theorem not_demultiplexing_wild : Ipv4EndPointDemux.lookup
    { daddr := 0x0a0000ff, dport := 80, saddr := 0x0a000002, sport := 5000 }
    { m_device := 0, m_ifaddrs := [{ m_local := 0x0a000001, m_mask := 0xffffff00 }] }
    ([.allocatePort none 80, .allocateLocal none 0x0a000000 80].foldl Call.run ({} : Ipv4EndPointDemux Nat)) = none := by
  decide

end Lookup

end Ipv4EndPointDemux

end Ns3.Internet
