import Mathlib.Data.List.Induction
import Ns3.Internet.Ipv4Send

/-!
# Lookup of static routes

`Ipv4StaticRouting` keeps its routes in the order in which they were added, each with its metric. `LookupStatic` goes once
through them with the longest mask and the shortest metric so far, and stops at the first host route that it takes.
Sources: `src/internet/model/ipv4-static-routing.cc`, `ipv4-routing-table-entry.cc` and `src/network/utils/ipv4-address.cc`.
-/

namespace Ns3.Internet

open Ipv4L3ProtocolwithFecEncode (isLocalMulticast)

/-- `Ipv4RoutingTableEntry`. -/
structure Ipv4RoutingTableEntry where
  m_dest : UInt32
  m_destNetworkMask : UInt32
  m_gateway : UInt32 := 0
  m_interface : UInt32
deriving DecidableEq, Repr

/-- What the `Ipv4` object tells of its interfaces; `getLocal` is the first address of the interface of a device. -/
structure Ipv4Interfaces where
  getNetDevice : UInt32 → ℕ
  sourceAddressSelection : UInt32 → UInt32 → UInt32
  getLocal : ℕ → UInt32

/-- The loop of `GetPrefixLength`, for so many turns. -/
def prefixLengthFrom : Nat → UInt32 → Nat
  | 0, _ => 0
  | n + 1, mask => if mask ≠ 0 then prefixLengthFrom n (mask <<< 1) + 1 else 0

/-- `GetPrefixLength`. -/
def getPrefixLength (mask : UInt32) : Nat := prefixLengthFrom 32 mask

/-- `IsMatch`. -/
def isMatch (mask a b : UInt32) : Bool := a &&& mask = b &&& mask

/-- `m_networkRoutes`: the routes with their metrics. -/
abbrev NetworkRoutes := List (Ipv4RoutingTableEntry × UInt32)

namespace Ipv4StaticRouting

/-- `LookupRoute`. -/
def lookupRoute (route : Ipv4RoutingTableEntry) (metric : UInt32) (routes : NetworkRoutes) : Bool :=
  routes.any fun j =>
    j.1.m_dest = route.m_dest && j.1.m_destNetworkMask = route.m_destNetworkMask && j.1.m_gateway = route.m_gateway &&
      j.1.m_interface = route.m_interface && j.2 = metric

/-- The end of both functions `AddNetworkRouteTo`. -/
def addRoute (route : Ipv4RoutingTableEntry) (metric : UInt32) (routes : NetworkRoutes) : NetworkRoutes :=
  if !lookupRoute route metric routes then routes ++ [(route, metric)] else routes

/-- `AddNetworkRouteTo`, through a next hop. -/
def addNetworkRouteTo (network networkMask nextHop interface metric : UInt32) : NetworkRoutes → NetworkRoutes :=
  addRoute ⟨network, networkMask, nextHop, interface⟩ metric

/-- `AddNetworkRouteTo`, without a next hop. -/
def addNetworkRouteTo' (network networkMask interface metric : UInt32) : NetworkRoutes → NetworkRoutes :=
  addRoute ⟨network, networkMask, 0, interface⟩ metric

/-- `AddHostRouteTo`, through a next hop. -/
def addHostRouteTo (dest nextHop interface metric : UInt32) : NetworkRoutes → NetworkRoutes :=
  addNetworkRouteTo dest 0xffffffff nextHop interface metric

/-- `AddHostRouteTo`, without a next hop. -/
def addHostRouteTo' (dest interface metric : UInt32) : NetworkRoutes → NetworkRoutes :=
  addNetworkRouteTo' dest 0xffffffff interface metric

/-- `SetDefaultRoute`. -/
def setDefaultRoute (nextHop interface metric : UInt32) : NetworkRoutes → NetworkRoutes :=
  addNetworkRouteTo 0 0 nextHop interface metric

/-- A call that adds a route. -/
inductive Call where
  | networkRoute (network networkMask nextHop interface metric : UInt32)
  | networkRoute' (network networkMask interface metric : UInt32)
  | hostRoute (dest nextHop interface metric : UInt32)
  | hostRoute' (dest interface metric : UInt32)
  | defaultRoute (nextHop interface metric : UInt32)

/-- The routes after a call. -/
def step (routes : NetworkRoutes) : Call → NetworkRoutes
  | .networkRoute network networkMask nextHop interface metric =>
    addNetworkRouteTo network networkMask nextHop interface metric routes
  | .networkRoute' network networkMask interface metric => addNetworkRouteTo' network networkMask interface metric routes
  | .hostRoute dest nextHop interface metric => addHostRouteTo dest nextHop interface metric routes
  | .hostRoute' dest interface metric => addHostRouteTo' dest interface metric routes
  | .defaultRoute nextHop interface metric => setDefaultRoute nextHop interface metric routes

/-- The routes after calls. -/
def routesAfter (calls : List Call) : NetworkRoutes := calls.foldl step []

/-- What the loop of `LookupStatic` has found so far. -/
structure Found where
  longest_mask : Nat := 0
  shortest_metric : UInt32 := 0xffffffff
  rtentry : Option Ipv4Route := none
deriving DecidableEq, Repr

section Lookup

variable (ipv4 : Ipv4Interfaces) (dest : UInt32) (oif : Option ℕ)

/-- The route that is returned for an entry. -/
def routeOf (j : Ipv4RoutingTableEntry) : Ipv4Route where
  m_dest := j.m_dest
  m_source := ipv4.sourceAddressSelection j.m_interface j.m_dest
  m_gateway := some j.m_gateway
  m_outputDevice := ipv4.getNetDevice j.m_interface

/-- Whether the entry is on the requested device. -/
def onDevice (j : Ipv4RoutingTableEntry) : Bool :=
  match oif with
  | some device => device = ipv4.getNetDevice j.m_interface
  | none => true

/-- The loop of `LookupStatic`. -/
def scan (found : Found) : NetworkRoutes → Found
  | [] => found
  | (j, metric) :: routes =>
    let masklen := getPrefixLength j.m_destNetworkMask
    if isMatch j.m_destNetworkMask dest j.m_dest then
      if !onDevice ipv4 oif j then scan found routes
      else if masklen < found.longest_mask then scan found routes
      else
        let shortest_metric := if found.longest_mask < masklen then 0xffffffff else found.shortest_metric
        if shortest_metric < metric then
          scan { found with longest_mask := masklen, shortest_metric := shortest_metric } routes
        else
          let found := { longest_mask := masklen, shortest_metric := metric, rtentry := some (routeOf ipv4 j) }
          if masklen = 32 then found else scan found routes
    else scan found routes

/-- `LookupStatic`, which does not return if a local multicast is to be sent without a device. -/
def lookupStatic (routes : NetworkRoutes) : Option (Option Ipv4Route) :=
  if isLocalMulticast dest then
    oif.map fun device =>
      some { m_dest := dest, m_source := ipv4.getLocal device, m_gateway := some 0, m_outputDevice := device }
  else some (scan ipv4 dest oif {} routes).rtentry

end Lookup

end Ipv4StaticRouting

/-! ### Prefix lengths -/

theorem prefixLengthFrom_le (n : Nat) (mask : UInt32) : prefixLengthFrom n mask ≤ n := by
  induction n generalizing mask with
  | zero => exact Nat.le_refl 0
  | succ n ih =>
    rw [prefixLengthFrom]
    split
    · exact Nat.succ_le_succ (ih _)
    · exact Nat.zero_le _

theorem getPrefixLength_le (mask : UInt32) : getPrefixLength mask ≤ 32 := prefixLengthFrom_le 32 mask

namespace Ipv4StaticRouting

/-! ### The table -/

/-- The entry and the metric that a call is about. -/
def Call.entry : Call → Ipv4RoutingTableEntry × UInt32
  | .networkRoute network networkMask nextHop interface metric => (⟨network, networkMask, nextHop, interface⟩, metric)
  | .networkRoute' network networkMask interface metric => (⟨network, networkMask, 0, interface⟩, metric)
  | .hostRoute dest nextHop interface metric => (⟨dest, 0xffffffff, nextHop, interface⟩, metric)
  | .hostRoute' dest interface metric => (⟨dest, 0xffffffff, 0, interface⟩, metric)
  | .defaultRoute nextHop interface metric => (⟨0, 0, nextHop, interface⟩, metric)

theorem step_eq (routes : NetworkRoutes) (call : Call) :
    step routes call = addRoute call.entry.1 call.entry.2 routes := by
  cases call <;> rfl

theorem lookupRoute_iff (route : Ipv4RoutingTableEntry) (metric : UInt32) (routes : NetworkRoutes) :
    lookupRoute route metric routes = true ↔ (route, metric) ∈ routes := by
  unfold lookupRoute
  rw [List.any_eq_true]
  constructor
  · rintro ⟨⟨j, _⟩, hmem, hj⟩
    cases j
    cases route
    simp only [Bool.and_eq_true, decide_eq_true_eq] at hj
    obtain ⟨⟨⟨⟨rfl, rfl⟩, rfl⟩, rfl⟩, rfl⟩ := hj
    exact hmem
  · intro hmem
    exact ⟨_, hmem, by simp⟩

/-- What is looked for is found in the table as in the calls: an entry that is left out stands further ahead. -/
theorem find_routesAfter (p : Ipv4RoutingTableEntry × UInt32 → Bool) (calls : List Call) :
    (routesAfter calls).find? p = (calls.map Call.entry).find? p ∧
      ∀ e, e ∈ routesAfter calls ↔ e ∈ calls.map Call.entry := by
  induction calls using List.reverseRecOn with
  | nil => exact ⟨rfl, fun _ => Iff.rfl⟩
  | append_singleton calls call ih =>
    obtain ⟨ihfind, ihmem⟩ := ih
    have hstep : routesAfter (calls ++ [call]) = addRoute call.entry.1 call.entry.2 (routesAfter calls) := by
      unfold routesAfter
      rw [List.foldl_append, List.foldl_cons, List.foldl_nil, step_eq]
    rw [hstep, List.map_append, List.map_singleton, addRoute, List.find?_append, ← ihfind]
    by_cases hold : (call.entry.1, call.entry.2) ∈ routesAfter calls
    · simp only [(lookupRoute_iff _ _ _).mpr hold, Bool.not_true, Bool.false_eq_true, if_false]
      refine ⟨?_, fun e => ?_⟩
      · cases hfind : (routesAfter calls).find? p with
        | some e => rfl
        | none =>
          have hp : ¬p call.entry := List.find?_eq_none.mp hfind _ hold
          simp [hp]
      · rw [List.mem_append, List.mem_singleton, ← ihmem]
        exact ⟨Or.inl, fun he => he.elim id fun he => he ▸ hold⟩
    · rw [Bool.eq_false_iff.mpr (mt (lookupRoute_iff _ _ _).mp hold)]
      refine ⟨by simp, fun e => ?_⟩
      simp [ihmem]

theorem mem_routesAfter {calls : List Call} {e : Ipv4RoutingTableEntry × UInt32} :
    e ∈ routesAfter calls ↔ e ∈ calls.map Call.entry := (find_routesAfter (fun _ => true) calls).2 e

/-! ### The loop -/

section Lookup

variable (ipv4 : Ipv4Interfaces) (dest : UInt32) (oif : Option ℕ)

/-- The length of the mask of an entry. -/
def masklen (e : Ipv4RoutingTableEntry × UInt32) : Nat := getPrefixLength e.1.m_destNetworkMask

/-- The entry matches, on the requested device. -/
def candidate (e : Ipv4RoutingTableEntry × UInt32) : Bool :=
  isMatch e.1.m_destNetworkMask dest e.1.m_dest && onDevice ipv4 oif e.1

/-- A candidate whose mask covers the whole destination: the loop leaves at the first of these. -/
def hostCandidate (e : Ipv4RoutingTableEntry × UInt32) : Bool := candidate ipv4 dest oif e && masklen e == 32

/-- Among the entries of which `p` holds, none has a longer mask, and none of this length a smaller metric. -/
def Optimal (p : Ipv4RoutingTableEntry × UInt32 → Prop) (e : Ipv4RoutingTableEntry × UInt32) : Prop :=
  p e ∧ ∀ e', p e' → masklen e' ≤ masklen e ∧ (masklen e' = masklen e → e.2 ≤ e'.2)

/-- What the loop has found among the entries of which `p` holds. -/
inductive Best (p : Ipv4RoutingTableEntry × UInt32 → Prop) : Found → Prop
  | nothing (hnone : ∀ e, ¬p e) : Best p {}
  | entry (e) (hoptimal : Optimal p e) : Best p ⟨masklen e, e.2, some (routeOf ipv4 e.1)⟩

variable {ipv4 dest oif}

theorem Best.congr {p q : Ipv4RoutingTableEntry × UInt32 → Prop} (h : ∀ e, p e ↔ q e) {found : Found}
    (hbest : Best ipv4 p found) : Best ipv4 q found := by
  have hpq : p = q := funext fun e => propext (h e)
  exact hpq ▸ hbest

/-- The loop takes an entry that is not worse than what it has. -/
def Takes (found : Found) (e : Ipv4RoutingTableEntry × UInt32) : Prop :=
  found.longest_mask < masklen e ∨ found.longest_mask = masklen e ∧ e.2 ≤ found.shortest_metric

theorem scan_cons_skip {found : Found} {e : Ipv4RoutingTableEntry × UInt32} (routes : NetworkRoutes)
    (he : candidate ipv4 dest oif e = false) : scan ipv4 dest oif found (e :: routes) = scan ipv4 dest oif found routes := by
  obtain ⟨j, metric⟩ := e
  unfold candidate at he
  simp only [scan]
  cases hmatch : isMatch j.m_destNetworkMask dest j.m_dest with
  | false => rfl
  | true =>
    rw [hmatch, Bool.true_and] at he
    rw [he]
    rfl

theorem scan_cons_worse {found : Found} {e : Ipv4RoutingTableEntry × UInt32} (routes : NetworkRoutes)
    (he : candidate ipv4 dest oif e = true) (hworse : ¬Takes found e) :
    scan ipv4 dest oif found (e :: routes) = scan ipv4 dest oif found routes := by
  obtain ⟨j, metric⟩ := e
  obtain ⟨hmatch, hdevice⟩ := Bool.and_eq_true_iff.mp he
  simp only at hmatch hdevice
  unfold Takes masklen at hworse
  simp only [not_or, not_and, Nat.not_lt, UInt32.not_le] at hworse
  obtain ⟨hle, hmetric⟩ := hworse
  simp only [scan, hmatch, hdevice, Bool.not_true, Bool.false_eq_true, if_true, if_false]
  by_cases hlt : getPrefixLength j.m_destNetworkMask < found.longest_mask
  · rw [if_pos hlt]
  · have heq : found.longest_mask = getPrefixLength j.m_destNetworkMask := Nat.le_antisymm (Nat.not_lt.mp hlt) hle
    rw [if_neg hlt, if_neg (Nat.not_lt.mpr hle), if_pos (hmetric heq), ← heq]

/-- No metric is larger than the one the loop starts with. -/
theorem metric_le (metric : UInt32) : metric ≤ 0xffffffff := by
  have hlt : metric.toNat < 2 ^ 32 := metric.toNat_lt
  rw [UInt32.le_iff_toNat_le]
  show metric.toNat ≤ 4294967295
  omega

theorem scan_cons_takes {found : Found} {e : Ipv4RoutingTableEntry × UInt32} (routes : NetworkRoutes)
    (he : candidate ipv4 dest oif e = true) (htakes : Takes found e) :
    scan ipv4 dest oif found (e :: routes) =
      if masklen e = 32 then ⟨masklen e, e.2, some (routeOf ipv4 e.1)⟩
      else scan ipv4 dest oif ⟨masklen e, e.2, some (routeOf ipv4 e.1)⟩ routes := by
  obtain ⟨j, metric⟩ := e
  obtain ⟨hmatch, hdevice⟩ := Bool.and_eq_true_iff.mp he
  simp only at hmatch hdevice
  simp only [scan, hmatch, hdevice, Bool.not_true, Bool.false_eq_true, if_true, if_false]
  unfold Takes masklen at htakes
  have hge : ¬getPrefixLength j.m_destNetworkMask < found.longest_mask := by
    simp only at htakes
    omega
  have hmetric : ¬(if found.longest_mask < getPrefixLength j.m_destNetworkMask then 0xffffffff
      else found.shortest_metric) < metric := by
    rw [UInt32.not_lt]
    split
    · exact metric_le metric
    · rcases htakes with hlt | ⟨_, hle⟩
      · contradiction
      · exact hle
  rw [if_neg hge, if_neg hmetric]
  rfl

theorem Best.takes {p : Ipv4RoutingTableEntry × UInt32 → Prop} {found : Found} (hbest : Best ipv4 p found)
    {e : Ipv4RoutingTableEntry × UInt32} (htakes : Takes found e) :
    Best ipv4 (fun e' => e' = e ∨ p e') ⟨masklen e, e.2, some (routeOf ipv4 e.1)⟩ := by
  refine Best.entry e ⟨Or.inl rfl, fun e' he' => ?_⟩
  rcases he' with rfl | he'
  · exact ⟨Nat.le_refl _, fun _ => UInt32.le_refl _⟩
  cases hbest with
  | nothing hnone => exact absurd he' (hnone e')
  | entry old hoptimal =>
    obtain ⟨hlen, hmetric⟩ := hoptimal.2 e' he'
    rcases htakes with hlonger | ⟨hsame, hle⟩
    · exact ⟨Nat.le_trans hlen (Nat.le_of_lt hlonger), fun heq => absurd (heq ▸ hlonger) (Nat.not_lt.mpr hlen)⟩
    · exact ⟨hsame ▸ hlen, fun heq => UInt32.le_trans hle (hmetric (heq.trans hsame.symm))⟩

theorem Best.worse {p : Ipv4RoutingTableEntry × UInt32 → Prop} {found : Found} (hbest : Best ipv4 p found)
    {e : Ipv4RoutingTableEntry × UInt32} (hworse : ¬Takes found e) : Best ipv4 (fun e' => e' = e ∨ p e') found := by
  unfold Takes at hworse
  simp only [not_or, not_and, Nat.not_lt, UInt32.not_le] at hworse
  cases hbest with
  | nothing hnone =>
    -- an empty find takes whatever comes
    have hmetric := hworse.2 (Nat.le_antisymm (Nat.zero_le _) hworse.1)
    exact absurd hmetric (UInt32.not_lt.mpr (metric_le e.2))
  | entry old hoptimal =>
    refine Best.entry old ⟨Or.inr hoptimal.1, fun e' he' => ?_⟩
    rcases he' with rfl | he'
    · exact ⟨hworse.1, fun heq => UInt32.le_of_lt (hworse.2 heq.symm)⟩
    · exact hoptimal.2 e' he'

/-- Without a host route the loop finds an optimal entry. -/
theorem scan_best {p : Ipv4RoutingTableEntry × UInt32 → Prop} {found : Found} (hbest : Best ipv4 p found)
    {routes : NetworkRoutes} (hhost : ∀ e ∈ routes, hostCandidate ipv4 dest oif e = false) :
    Best ipv4 (fun e => (e ∈ routes ∧ candidate ipv4 dest oif e = true) ∨ p e) (scan ipv4 dest oif found routes) := by
  induction routes generalizing p found with
  | nil => exact hbest.congr fun e => by simp
  | cons e routes ih =>
    have hrest : ∀ e ∈ routes, hostCandidate ipv4 dest oif e = false := fun e he => hhost e (List.mem_cons_of_mem _ he)
    cases he : candidate ipv4 dest oif e with
    | false =>
      rw [scan_cons_skip routes he]
      refine (ih hbest hrest).congr fun e' => ?_
      rw [List.mem_cons]
      constructor
      · rintro (⟨hmem, hcand⟩ | hp)
        · exact Or.inl ⟨Or.inr hmem, hcand⟩
        · exact Or.inr hp
      · rintro (⟨rfl | hmem, hcand⟩ | hp)
        · rw [he] at hcand
          contradiction
        · exact Or.inl ⟨hmem, hcand⟩
        · exact Or.inr hp
    | true =>
      have hmem : ∀ e', (e' ∈ routes ∧ candidate ipv4 dest oif e' = true) ∨ (e' = e ∨ p e') ↔
          (e' ∈ e :: routes ∧ candidate ipv4 dest oif e' = true) ∨ p e' := by
        intro e'
        rw [List.mem_cons]
        constructor
        · rintro (⟨hmem, hcand⟩ | rfl | hp)
          · exact Or.inl ⟨Or.inr hmem, hcand⟩
          · exact Or.inl ⟨Or.inl rfl, he⟩
          · exact Or.inr hp
        · rintro (⟨rfl | hmem, hcand⟩ | hp)
          · exact Or.inr (Or.inl rfl)
          · exact Or.inl ⟨hmem, hcand⟩
          · exact Or.inr (Or.inr hp)
      by_cases htakes : Takes found e
      · have hshort : masklen e ≠ 32 := by
          have := hhost e List.mem_cons_self
          rw [hostCandidate, he, Bool.true_and, beq_eq_false_iff_ne] at this
          exact this
        rw [scan_cons_takes routes he htakes, if_neg hshort]
        exact (ih (hbest.takes htakes) hrest).congr hmem
      · rw [scan_cons_worse routes he htakes]
        exact (ih (hbest.worse htakes) hrest).congr hmem

/-- The loop leaves at the first host route. -/
theorem scan_host {found : Found} (hfound : found.longest_mask < 32) {routes : NetworkRoutes}
    {e : Ipv4RoutingTableEntry × UInt32} (he : routes.find? (hostCandidate ipv4 dest oif) = some e) :
    (scan ipv4 dest oif found routes).rtentry = some (routeOf ipv4 e.1) := by
  induction routes generalizing found with
  | nil => cases he
  | cons e' routes ih =>
    cases hcand : candidate ipv4 dest oif e' with
    | false =>
      rw [scan_cons_skip routes hcand]
      exact ih hfound (by rwa [List.find?_cons_of_neg (by simp [hostCandidate, hcand])] at he)
    | true =>
      by_cases hhost : masklen e' = 32
      · rw [List.find?_cons_of_pos (by simp [hostCandidate, hcand, hhost])] at he
        cases he
        rw [scan_cons_takes routes hcand (Or.inl (hhost ▸ hfound)), if_pos hhost]
      · rw [List.find?_cons_of_neg (by simp [hostCandidate, hhost])] at he
        by_cases htakes : Takes found e'
        · rw [scan_cons_takes routes hcand htakes, if_neg hhost]
          exact ih (Nat.lt_of_le_of_ne (getPrefixLength_le _) hhost) he
        · rw [scan_cons_worse routes hcand htakes]
          exact ih hfound he

/-! ### The lookup -/

variable (ipv4 dest oif)

/-- An entry that was added and matches on the requested device. -/
def Matching (calls : List Call) (e : Ipv4RoutingTableEntry × UInt32) : Prop :=
  e ∈ calls.map Call.entry ∧ candidate ipv4 dest oif e = true

/-- There is a route just when an entry matches, and it is that of an entry with a longest mask, and with the smallest
metric of these. -/
def Answers (calls : List Call) (rtentry : Option Ipv4Route) : Prop :=
  (rtentry.isSome ↔ ∃ e, Matching ipv4 dest oif calls e) ∧
    ∀ route, rtentry = some route → ∃ e, Optimal (Matching ipv4 dest oif calls) e ∧ route = routeOf ipv4 e.1

/-- The first host route that was added has the smallest metric of the host routes, or is the same route as one that has. -/
def FirstHostBest (calls : List Call) : Prop :=
  ∀ e, (calls.map Call.entry).find? (hostCandidate ipv4 dest oif) = some e →
    ∃ e' ∈ calls.map Call.entry, hostCandidate ipv4 dest oif e' ∧ routeOf ipv4 e.1 = routeOf ipv4 e'.1 ∧
      ∀ e'' ∈ calls.map Call.entry, hostCandidate ipv4 dest oif e'' → e'.2 ≤ e''.2

variable {ipv4 dest oif}

theorem Best.answers {p : Ipv4RoutingTableEntry × UInt32 → Prop} {found : Found} (hbest : Best ipv4 p found) :
    (found.rtentry.isSome ↔ ∃ e, p e) ∧
      ∀ route, found.rtentry = some route → ∃ e, Optimal p e ∧ route = routeOf ipv4 e.1 := by
  cases hbest with
  | nothing hnone => exact ⟨⟨nofun, fun ⟨e, he⟩ => absurd he (hnone e)⟩, nofun⟩
  | entry e hoptimal =>
    refine ⟨⟨fun _ => ⟨e, hoptimal.1⟩, fun _ => rfl⟩, ?_⟩
    intro route hroute
    exact ⟨e, hoptimal, (Option.some.inj hroute).symm⟩

/-- A host route is optimal just when its metric is the smallest of the host routes. -/
theorem optimal_host_iff {calls : List Call} {e host : Ipv4RoutingTableEntry × UInt32}
    (hmem : host ∈ calls.map Call.entry) (hhost : hostCandidate ipv4 dest oif host = true) :
    Optimal (Matching ipv4 dest oif calls) e ↔
      (e ∈ calls.map Call.entry ∧ hostCandidate ipv4 dest oif e = true) ∧
        ∀ e'' ∈ calls.map Call.entry, hostCandidate ipv4 dest oif e'' → e.2 ≤ e''.2 := by
  have hsplit : ∀ e, hostCandidate ipv4 dest oif e = true ↔ candidate ipv4 dest oif e = true ∧ masklen e = 32 := by
    intro e
    rw [hostCandidate, Bool.and_eq_true, beq_iff_eq]
  have hle : ∀ e : Ipv4RoutingTableEntry × UInt32, masklen e ≤ 32 := fun e => getPrefixLength_le _
  constructor
  · rintro ⟨⟨hadded, hcand⟩, hbest⟩
    have hlen : masklen e = 32 := by
      have := (hbest host ⟨hmem, ((hsplit host).mp hhost).1⟩).1
      rw [((hsplit host).mp hhost).2] at this
      exact Nat.le_antisymm (hle e) this
    refine ⟨⟨hadded, (hsplit e).mpr ⟨hcand, hlen⟩⟩, ?_⟩
    intro e'' hadded'' hhost''
    obtain ⟨hcand'', hlen''⟩ := (hsplit e'').mp hhost''
    exact (hbest e'' ⟨hadded'', hcand''⟩).2 (hlen''.trans hlen.symm)
  · rintro ⟨⟨hadded, hhoste⟩, hmetric⟩
    obtain ⟨hcand, hlen⟩ := (hsplit e).mp hhoste
    refine ⟨⟨hadded, hcand⟩, fun e'' he'' => ⟨hlen ▸ hle e'', fun heq => ?_⟩⟩
    exact hmetric e'' he''.1 ((hsplit e'').mpr ⟨he''.2, heq.trans hlen⟩)

/-- The lookup answers right just when the first host route that was added is one with the smallest metric. -/
theorem static_lookup (ipv4 : Ipv4Interfaces) (dest : UInt32) (oif : Option ℕ) (calls : List Call)
    (hunicast : isLocalMulticast dest = false) :
    (∃ rtentry, lookupStatic ipv4 dest oif (routesAfter calls) = some rtentry ∧ Answers ipv4 dest oif calls rtentry) ↔
      FirstHostBest ipv4 dest oif calls := by
  have hlookup : lookupStatic ipv4 dest oif (routesAfter calls) =
      some (scan ipv4 dest oif {} (routesAfter calls)).rtentry := by
    unfold lookupStatic
    rw [hunicast]
    rfl
  simp only [hlookup, Option.some.injEq, exists_eq_left']
  unfold FirstHostBest
  cases hfind : (calls.map Call.entry).find? (hostCandidate ipv4 dest oif) with
  | none =>
    have hhost : ∀ e ∈ routesAfter calls, hostCandidate ipv4 dest oif e = false := fun e he =>
      Bool.eq_false_iff.mpr (List.find?_eq_none.mp hfind e (mem_routesAfter.mp he))
    have hbest : Best ipv4 (Matching ipv4 dest oif calls) (scan ipv4 dest oif {} (routesAfter calls)) :=
      (scan_best (p := fun _ => False) (Best.nothing fun _ => id) hhost).congr fun e => by
        rw [or_false, mem_routesAfter]
        exact Iff.rfl
    exact ⟨fun _ _ => nofun, fun _ => hbest.answers⟩
  | some host =>
    have hmem : host ∈ calls.map Call.entry := List.mem_of_find?_eq_some hfind
    have hhost : hostCandidate ipv4 dest oif host = true := List.find?_some hfind
    have hfound : ({} : Found).longest_mask < 32 := Nat.zero_lt_succ 31
    rw [scan_host hfound ((find_routesAfter _ calls).1.trans hfind)]
    have hcand : Matching ipv4 dest oif calls host := ⟨hmem, (Bool.and_eq_true_iff.mp hhost).1⟩
    constructor
    · rintro ⟨_, hroute⟩ e he
      cases he
      obtain ⟨e', hoptimal, hsame⟩ := hroute _ rfl
      obtain ⟨⟨hadded, hhost'⟩, hmetric⟩ := (optimal_host_iff hmem hhost).mp hoptimal
      exact ⟨e', hadded, hhost', hsame, hmetric⟩
    · intro hfirst
      obtain ⟨e', hadded, hhost', hsame, hmetric⟩ := hfirst host rfl
      refine ⟨⟨fun _ => ⟨host, hcand⟩, fun _ => rfl⟩, fun route hroute => ?_⟩
      exact ⟨e', (optimal_host_iff hmem hhost).mpr ⟨⟨hadded, hhost'⟩, hmetric⟩, (Option.some.inj hroute).symm.trans hsame⟩

end Lookup

/-- Interfaces whose devices have their numbers. -/
def numbered : Ipv4Interfaces := ⟨UInt32.toNat, fun _ _ => 0x0a000001, fun _ => 0x0a000001⟩

/-- With a default route and a route to the network, in either order, the lookup answers right. -/
theorem static_lookup_network :
    isLocalMulticast 0x0a010203 = false ∧
      ∃ rtentry, lookupStatic numbered 0x0a010203 (some 1)
        (routesAfter [.networkRoute 0x0a010000 0xffff0000 0x0a000002 1 7, .defaultRoute 0x0a000003 1 0]) = some rtentry ∧
      Answers numbered 0x0a010203 (some 1)
        [.networkRoute 0x0a010000 0xffff0000 0x0a000002 1 7, .defaultRoute 0x0a000003 1 0] rtentry := by
  refine ⟨by decide, (static_lookup numbered 0x0a010203 (some 1) _ (by decide)).mpr ?_⟩
  have hfind : ([.networkRoute 0x0a010000 0xffff0000 0x0a000002 1 7, .defaultRoute 0x0a000003 1 0].map Call.entry).find?
      (hostCandidate numbered 0x0a010203 (some 1)) = none := by decide
  intro e he
  rw [hfind] at he
  cases he

/-- Of two routes to one host, the lookup takes the one added first, though its metric is larger. -/
theorem not_static_lookup_metric :
    ¬∃ rtentry, lookupStatic numbered 0x0a010203 none
        (routesAfter [.hostRoute 0x0a010203 0x0a000002 1 5, .hostRoute 0x0a010203 0x0a000003 1 1]) = some rtentry ∧
      Answers numbered 0x0a010203 none
        [.hostRoute 0x0a010203 0x0a000002 1 5, .hostRoute 0x0a010203 0x0a000003 1 1] rtentry := by
  rintro ⟨rtentry, hlookup, _, hroute⟩
  have htaken : lookupStatic numbered 0x0a010203 none
      (routesAfter [.hostRoute 0x0a010203 0x0a000002 1 5, .hostRoute 0x0a010203 0x0a000003 1 1]) =
        some (some (routeOf numbered ⟨0x0a010203, 0xffffffff, 0x0a000002, 1⟩)) := by decide
  rw [htaken] at hlookup
  cases hlookup
  obtain ⟨e, ⟨⟨hadded, _⟩, hbest⟩, hsame⟩ := hroute _ rfl
  have hgateway : e.1.m_gateway = 0x0a000002 := Option.some.inj (congrArg Ipv4Route.m_gateway hsame.symm)
  have hother := hbest (⟨0x0a010203, 0xffffffff, 0x0a000003, 1⟩, 1) ⟨by decide, by decide⟩
  have hfirst : e = (⟨0x0a010203, 0xffffffff, 0x0a000002, 1⟩, 5) := by
    rcases List.mem_cons.mp hadded with rfl | hadded
    · rfl
    · rw [List.mem_singleton.mp hadded] at hgateway
      exact absurd hgateway (by decide)
  rw [hfirst] at hother
  exact absurd (hother.2 rfl) (by decide)

end Ipv4StaticRouting

end Ns3.Internet
