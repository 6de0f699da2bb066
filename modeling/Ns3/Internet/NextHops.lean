import Ns3.Internet.ShortestPaths

/-!
# The next hops of global routing

The exit directions of a vertex are the first hops of the shortest paths to it, in every run whose turns are plain: no
vertex is found late by a path of equal cost, the root has one link to each neighbour, a network next to the root is
reached in no other way, and any other network has one exit direction.
-/

namespace Ns3.Internet.GlobalRouteManager

open Ns3.Lib

/-- The links behind the records of the root: the address at the other end of a point-to-point link, and the interface
that owns a local address. -/
structure Links where
  peer : UInt32 → UInt32
  owner : UInt32 → Int

/-- The database and `FindOutgoingInterfaceId` describe the links. -/
structure Describes (m : GlobalRouteManager) (rlsa : RoutingLSA) (links : Links) : Prop where
  peer : ∀ l ∈ rlsa.m_linkRecords, l.m_linkType = .PointToPoint → ∀ w ∈ m.m_lsdb, w.m_linkStateId = l.m_linkId →
    ∃ back ∈ w.m_linkRecords, back.m_linkId = rlsa.m_linkStateId ∧ back.m_linkData = links.peer l.m_linkData
  address : ∀ l ∈ rlsa.m_linkRecords, l.m_linkType = .PointToPoint →
    m.findOutgoingInterfaceId l.m_linkData 0xffffffff = links.owner l.m_linkData
  network : ∀ l ∈ rlsa.m_linkRecords, l.m_linkType = .TransitNetwork → ∀ w ∈ m.m_lsdb, w.m_linkStateId = l.m_linkId →
    ∃ l' ∈ rlsa.m_linkRecords, l'.m_linkType = .TransitNetwork ∧ l'.m_linkId = l.m_linkId ∧
      m.findOutgoingInterfaceId w.m_linkStateId w.m_networkLSANetworkMask = links.owner l'.m_linkData

/-- The first hop of a path of some cost, once the path has come to a router: the neighbour's address on the link over
which the path leaves the root, and the interface at that link. -/
inductive Hop (m : GlobalRouteManager) (links : Links) (rlsa : RoutingLSA) : UInt32 → Nat → NodeExit → Prop
  | router {l : LinkRecord} (hl : l ∈ rlsa.m_linkRecords) (hlink : l.m_linkType = .PointToPoint) :
    Hop m links rlsa l.m_linkId l.m_metric.toNat (links.peer l.m_linkData, links.owner l.m_linkData)
  | behind {l l' : LinkRecord} {w : RoutingLSA} (hl : l ∈ rlsa.m_linkRecords) (hlink : l.m_linkType = .TransitNetwork)
      (hedge : m.Edge l.m_linkId w.m_linkStateId 0) (hw : w ∈ m.m_lsdb) (hl' : l' ∈ w.m_linkRecords)
      (hid : l'.m_linkId = l.m_linkId) :
    Hop m links rlsa w.m_linkStateId l.m_metric.toNat (l'.m_linkData, links.owner l.m_linkData)
  | edge {v w : UInt32} {c n : Nat} {e : NodeExit} (hop : Hop m links rlsa v c e) (hedge : m.Edge v w n) :
    Hop m links rlsa w (c + n) e

/-- The first hop of a path of some cost. A network next to the root has no next hop. -/
def FirstHop (m : GlobalRouteManager) (links : Links) (rlsa : RoutingLSA) (w : UInt32) (c : Nat) (e : NodeExit) : Prop :=
  Hop m links rlsa w c e ∨ ∃ l ∈ rlsa.m_linkRecords, l.m_linkType = .TransitNetwork ∧ l.m_linkId = w ∧
    l.m_metric.toNat = c ∧ e = (0, links.owner l.m_linkData)

/-- The root has one link to each neighbour, and each router next to it has one link back. -/
def Single (m : GlobalRouteManager) (rlsa : RoutingLSA) : Prop :=
  ∀ l ∈ rlsa.m_linkRecords, l.m_linkType ≠ .StubNetwork → (linksTo l.m_linkId rlsa).length = 1 ∧
    ∀ w ∈ m.getLSA l.m_linkId, w.m_lsType = .RouterLSA → (linksTo rlsa.m_linkStateId w).length = 1

/-- What must hold before a turn for the exit directions to be right. -/
structure Plain (m : GlobalRouteManager) (root : UInt32) (c : Calculation) : Prop where
  inTime : ∀ n, (∀ w ∈ c.popped, m.Edge c.v.m_vertexId w.m_vertexId n →
    c.v.m_distanceFromRoot.toNat + n ≠ w.m_distanceFromRoot.toNat) ∧
      (m.Edge c.v.m_vertexId root n → c.v.m_distanceFromRoot.toNat + n ≠ 0)
  single : c.v.m_vertexId = root → m.Single c.v.m_lsa
  network : c.v.m_vertexType = .NetworkLSA →
    c.v.m_parents = [root] ∧ (∀ addr ∈ c.v.m_lsa.m_attachedRouters, ∀ w ∈ m.getLSAByLinkData addr,
      c.spf.status w.m_linkStateId ≠ .LSA_SPF_IN_SPFTREE → (linksTo c.v.m_vertexId w).length = 1) ∨
    root ∉ c.v.m_parents ∧ c.v.m_ecmpRootExits.length = 1

/-- The exit direction that a link of the root gives to a vertex. -/
def linkExit (links : Links) (w : SPFVertex) (l : LinkRecord) : NodeExit :=
  (match w.m_vertexType with
    | .RouterLSA => links.peer l.m_linkData
    | .NetworkLSA => 0, links.owner l.m_linkData)

/-- A link of the root leads to the vertex at its distance, with an exit direction. -/
def FromRoot (links : Links) (rlsa : RoutingLSA) (w : SPFVertex) (e : NodeExit) : Prop :=
  ∃ l ∈ rlsa.m_linkRecords, l.m_linkType ≠ .StubNetwork ∧ l.m_linkId = w.m_vertexId ∧
    l.m_metric.toNat = w.m_distanceFromRoot.toNat ∧ e = linkExit links w l

/-- Where an exit direction of a vertex comes from. -/
def Given (m : GlobalRouteManager) (links : Links) (rlsa : RoutingLSA) (w : SPFVertex) (e : NodeExit) : Prop :=
  rlsa.m_linkStateId ∈ w.m_parents ∧ FromRoot links rlsa w e ∨
    (∃ p ∈ w.m_parents, p ≠ rlsa.m_linkStateId) ∧ Hop m links rlsa w.m_vertexId w.m_distanceFromRoot.toNat e

/-- The exit directions that a vertex of the tree gives to one behind it. -/
def Give (links : Links) (rlsa : RoutingLSA) (u w : SPFVertex) (e : NodeExit) : Prop :=
  if u.m_vertexId = rlsa.m_linkStateId then FromRoot links rlsa w e
  else if u.m_vertexType = .NetworkLSA ∧ rlsa.m_linkStateId ∈ u.m_parents then
    ∃ l ∈ linksTo u.m_vertexId w.m_lsa, ∃ e₀ ∈ u.m_ecmpRootExits, e = (l.m_linkData, e₀.2)
  else e ∈ u.m_ecmpRootExits

/-- Every exit direction comes from somewhere, and every edge of the tree that is on a path of the found cost has given
its own. -/
structure Aimed (m : GlobalRouteManager) (links : Links) (rlsa : RoutingLSA)
    (Done : UInt32 → UInt32 → Nat → Prop) (tree : List SPFVertex) (s : SPF) : Prop where
  given : ∀ w, w ∈ tree ∨ w ∈ s.candidate → w.m_vertexId ≠ rlsa.m_linkStateId → ∀ e ∈ w.m_ecmpRootExits,
    Given m links rlsa w e
  complete : ∀ u ∈ tree, ∀ w, w ∈ tree ∨ w ∈ s.candidate → ∀ n, Done u.m_vertexId w.m_vertexId n →
    u.m_distanceFromRoot.toNat + n = w.m_distanceFromRoot.toNat →
      w.m_vertexId ≠ rlsa.m_linkStateId ∧ u.m_vertexId ∈ w.m_parents ∧
        ∀ e, Give links rlsa u w e → e ∈ w.m_ecmpRootExits

/-- What is known of the root and its links. -/
structure Setting (m : GlobalRouteManager) (links : Links) (rlsa : RoutingLSA) : Prop where
  consistent : m.Consistent
  mem : rlsa ∈ m.m_lsdb
  router : rlsa.m_lsType = .RouterLSA
  describes : m.Describes rlsa links
  single : m.Single rlsa

/-- A vertex as it is found from `v` over an edge of cost `n`. -/
structure Fresh (m : GlobalRouteManager) (links : Links) (rlsa : RoutingLSA) (v : SPFVertex) (n : Nat) (w : SPFVertex) :
    Prop where
  parents : w.m_parents = [v.m_vertexId]
  distance : w.m_distanceFromRoot.toNat = v.m_distanceFromRoot.toNat + n
  given : ∀ e ∈ w.m_ecmpRootExits, Given m links rlsa w e
  give : ∀ e, Give links rlsa v w e → e ∈ w.m_ecmpRootExits

section

variable {m : GlobalRouteManager} {links : Links} {rlsa : RoutingLSA} {v w w' : SPFVertex} {l : LinkRecord}
  {e : NodeExit}

theorem mem_linksTo {id : UInt32} {lsa : RoutingLSA} :
    l ∈ linksTo id lsa ↔ l ∈ lsa.m_linkRecords ∧ l.m_linkId = id := by
  rw [linksTo, List.mem_filter, decide_eq_true_iff]

/-- Two links to a vertex are the same where there is one. -/
theorem eq_of_single {id : UInt32} {lsa : RoutingLSA} {l l' : LinkRecord} (hone : (linksTo id lsa).length = 1)
    (hl : l ∈ lsa.m_linkRecords) (hid : l.m_linkId = id) (hl' : l' ∈ lsa.m_linkRecords) (hid' : l'.m_linkId = id) :
    l = l' := by
  obtain ⟨a, ha⟩ := List.length_eq_one_iff.mp hone
  have hmem : ∀ {b : LinkRecord}, b ∈ lsa.m_linkRecords → b.m_linkId = id → b = a := fun hb hbid => by
    have hfound := mem_linksTo.mpr ⟨hb, hbid⟩
    rw [ha] at hfound
    exact List.mem_singleton.mp hfound
  rw [hmem hl hid, hmem hl' hid']

/-- A link of a router that is not to a stub network: to a router or to a network. -/
theorem Setting.link_type (h : Setting m links rlsa) {lsa : RoutingLSA} (hlsa : lsa ∈ m.m_lsdb)
    (hrouter : lsa.m_lsType = .RouterLSA) (hl : l ∈ lsa.m_linkRecords) (hlink : l.m_linkType ≠ .StubNetwork)
    {w : RoutingLSA} (hw : w ∈ m.m_lsdb) (hid : w.m_linkStateId = l.m_linkId) :
    w.m_lsType = .RouterLSA ∧ l.m_linkType = .PointToPoint ∨ w.m_lsType = .NetworkLSA ∧ l.m_linkType = .TransitNetwork := by
  obtain ⟨w₀, hw₀, hw₀id, hends⟩ := (h.consistent.records lsa hlsa hrouter l hl).resolve_left hlink
  obtain rfl := h.consistent.eq_of_id hw₀ hw (hw₀id.trans hid.symm)
  exact hends.imp (fun hrouter => ⟨hrouter.2.1, hrouter.1⟩) fun hnetwork => ⟨hnetwork.2, hnetwork.1⟩

/-- From the root: the one link gives the exit direction. -/
theorem Setting.fresh_root (h : Setting m links rlsa) (hl : l ∈ rlsa.m_linkRecords) (hlink : l.m_linkType ≠ .StubNetwork)
    (hw : w.m_lsa ∈ m.m_lsdb) (hid : w.m_vertexId = l.m_linkId) (hv : v.m_lsa = rlsa)
    (hzero : v.m_distanceFromRoot.toNat = 0) {limit : Nat}
    (hhops : m.nextHops limit rlsa.m_linkStateId v w (some l) = some w') {d : UInt32}
    (hd : d.toNat = v.m_distanceFromRoot.toNat + l.m_metric.toNat) :
    Fresh m links rlsa v l.m_metric.toNat { w' with m_distanceFromRoot := d, m_parents := [v.m_vertexId] } := by
  have hvid : v.m_vertexId = rlsa.m_linkStateId := by rw [SPFVertex.m_vertexId, hv]
  obtain ⟨hone, hback⟩ := h.single l hl hlink
  have hget : m.getLSA l.m_linkId = some w.m_lsa := by
    rw [← hid]
    exact h.consistent.getLSA hw
  have hexit : w' = w.setRootExitDirection (linkExit links w l) := by
    rw [nextHops, if_pos hvid] at hhops
    rcases h.link_type h.mem h.router hl hlink hw hid with ⟨htype, hlinktype⟩ | ⟨htype, hlinktype⟩
    · have hvtype : w.m_vertexType = .RouterLSA := htype
      rw [hvtype] at hhops
      dsimp only at hhops
      rw [Option.bind_some] at hhops
      obtain ⟨linkRemote, hremote, rfl⟩ := Option.map_eq_some_iff.mp hhops
      rw [spfGetNextLink_eq, hvid] at hremote
      have hremote' := mem_linksTo.mp (List.mem_of_getElem? hremote)
      obtain ⟨back, hbackmem, hbackid, hpeer⟩ := h.describes.peer l hl hlinktype w.m_lsa hw hid
      obtain rfl := eq_of_single (hback w.m_lsa hget htype) hremote'.1 hremote'.2 hbackmem hbackid
      rw [linkExit, hvtype, hpeer, h.describes.address l hl hlinktype]
    · have hvtype : w.m_vertexType = .NetworkLSA := htype
      rw [hvtype] at hhops
      obtain rfl := Option.some.inj hhops
      obtain ⟨l', hl', -, hl'id, hfind⟩ := h.describes.network l hl hlinktype w.m_lsa hw hid
      obtain rfl := eq_of_single hone hl rfl hl' hl'id
      rw [linkExit, hvtype, SPFVertex.m_vertexId, hfind]
  subst hexit
  have hmetric : l.m_metric.toNat = d.toNat := by rw [hd, hzero, Nat.zero_add]
  refine ⟨rfl, hd, fun e he => ?_, fun e hgive => ?_⟩
  · obtain rfl := List.mem_singleton.mp he
    exact .inl ⟨by rw [hvid]; exact List.mem_cons_self .., l, hl, hlink, hid.symm, hmetric, rfl⟩
  · rw [Give, if_pos hvid] at hgive
    obtain ⟨l', hl', -, hl'id, -, rfl⟩ := hgive
    obtain rfl := eq_of_single hone hl rfl hl' (hl'id.trans hid)
    exact List.mem_cons_self ..

/-- The exit directions of a router that is not the root are first hops. -/
theorem Setting.hop_router (h : Setting m links rlsa) (hv : v.m_lsa ∈ m.m_lsdb) (hrouter : v.m_vertexType = .RouterLSA)
    (hgiven : Given m links rlsa v e) : Hop m links rlsa v.m_vertexId v.m_distanceFromRoot.toNat e := by
  rcases hgiven with ⟨-, l, hl, hlink, hid, hmetric, rfl⟩ | ⟨-, hop⟩
  · rcases h.link_type h.mem h.router hl hlink hv hid.symm with ⟨-, htype⟩ | ⟨htype, -⟩
    · have hhop : Hop m links rlsa l.m_linkId l.m_metric.toNat _ := .router hl htype
      rw [hid, hmetric] at hhop
      rw [linkExit, hrouter]
      exact hhop
    · have hboth := hrouter.symm.trans htype
      cases hboth
  · exact hop

/-- From another router: its exit directions are inherited. -/
theorem Setting.fresh_router (h : Setting m links rlsa) (hv : v.m_lsa ∈ m.m_lsdb)
    (hrouter : v.m_vertexType = .RouterLSA) (hne : v.m_vertexId ≠ rlsa.m_linkStateId)
    (hgiven : ∀ e ∈ v.m_ecmpRootExits, Given m links rlsa v e) {n : Nat} (hedge : m.Edge v.m_vertexId w.m_vertexId n)
    {limit : Nat} (hhops : m.nextHops limit rlsa.m_linkStateId v w (some l) = some w') {d : UInt32}
    (hd : d.toNat = v.m_distanceFromRoot.toNat + n) :
    Fresh m links rlsa v n { w' with m_distanceFromRoot := d, m_parents := [v.m_vertexId] } := by
  rw [nextHops, if_neg hne, if_neg (by rw [hrouter]; decide)] at hhops
  obtain rfl := Option.some.inj hhops
  refine ⟨rfl, hd, fun e he => .inr ⟨⟨_, List.mem_cons_self .., hne⟩, ?_⟩, fun e hgive => ?_⟩
  · have hhop := Hop.edge (h.hop_router hv hrouter (hgiven e he)) hedge
    rw [← hd] at hhop
    exact hhop
  · rw [Give, if_neg hne, if_neg fun hboth => by rw [hrouter] at hboth; cases hboth.1] at hgive
    exact hgive

/-- An exit direction of a network that only the root leads to. -/
theorem Setting.exit_network (h : Setting m links rlsa) (hv : v.m_lsa ∈ m.m_lsdb) (hnetwork : v.m_vertexType = .NetworkLSA)
    (hparents : v.m_parents = [rlsa.m_linkStateId]) (hgiven : Given m links rlsa v e) :
    ∃ l ∈ rlsa.m_linkRecords, l.m_linkType = .TransitNetwork ∧ l.m_linkId = v.m_vertexId ∧
      l.m_metric.toNat = v.m_distanceFromRoot.toNat ∧ e = (0, links.owner l.m_linkData) := by
  rcases hgiven with ⟨-, l, hl, hlink, hid, hmetric, rfl⟩ | ⟨⟨p, hp, hne⟩, -⟩
  · rcases h.link_type h.mem h.router hl hlink hv hid.symm with ⟨htype, -⟩ | ⟨-, htype⟩
    · have hboth := hnetwork.symm.trans htype
      cases hboth
    · exact ⟨l, hl, htype, hid, hmetric, by rw [linkExit, hnetwork]⟩
  · rw [hparents] at hp
    exact absurd (List.mem_singleton.mp hp) hne

/-- From a network: the one link of the router gives the next hop next to the root, and the one exit direction is
inherited elsewhere. -/
theorem Setting.fresh_network (h : Setting m links rlsa) (hv : v.m_lsa ∈ m.m_lsdb)
    (hnetwork : v.m_vertexType = .NetworkLSA) (hne : v.m_vertexId ≠ rlsa.m_linkStateId)
    (hgiven : ∀ e ∈ v.m_ecmpRootExits, Given m links rlsa v e)
    (hplain : v.m_parents = [rlsa.m_linkStateId] ∧ (linksTo v.m_vertexId w.m_lsa).length = 1 ∨
      rlsa.m_linkStateId ∉ v.m_parents ∧ v.m_ecmpRootExits.length = 1)
    {exit : NodeExit} (hexit : v.m_ecmpRootExits.head? = some exit) (hw : w.m_lsa ∈ m.m_lsdb)
    (hedge : m.Edge v.m_vertexId w.m_vertexId 0) {limit : Nat} (hlimit : 2 ≤ limit)
    (hhops : m.nextHops limit rlsa.m_linkStateId v w none = some w') {d : UInt32}
    (hd : d.toNat = v.m_distanceFromRoot.toNat + 0) :
    Fresh m links rlsa v 0 { w' with m_distanceFromRoot := d, m_parents := [v.m_vertexId] } := by
  have hmem := List.mem_of_mem_head? hexit
  rw [nextHops, if_neg hne, if_pos hnetwork] at hhops
  rcases hplain with ⟨hparents, hone⟩ | ⟨hnot, hone⟩
  · obtain ⟨back, hback⟩ := List.length_eq_one_iff.mp hone
    obtain ⟨l, hl, htransit, hid, hmetric, hexiteq⟩ := h.exit_network hv hnetwork hparents (hgiven exit hmem)
    have hbackmem := mem_linksTo.mp (hback ▸ List.mem_singleton_self back)
    rw [if_pos (by rw [hparents]; rfl), turns_linkTurn hback (Nat.zero_le 1) hexit hlimit] at hhops
    obtain rfl := Option.some.inj hhops
    refine ⟨rfl, hd, fun e he => .inr ⟨⟨_, List.mem_cons_self .., hne⟩, ?_⟩, fun e hgive => ?_⟩
    · obtain rfl := List.mem_singleton.mp he
      have hhop : Hop m links rlsa w.m_vertexId l.m_metric.toNat _ :=
        .behind hl htransit (by rw [hid]; exact hedge) hw hbackmem.1 (hbackmem.2.trans hid.symm)
      rw [hmetric, ← Nat.add_zero v.m_distanceFromRoot.toNat, ← hd] at hhop
      rw [hexiteq]
      exact hhop
    · rw [Give, if_neg hne, if_pos ⟨hnetwork, by rw [hparents]; exact List.mem_cons_self ..⟩] at hgive
      obtain ⟨l', hl', e₀, he₀, rfl⟩ := hgive
      have hl'eq : l' ∈ [back] := hback ▸ hl'
      obtain rfl := List.mem_singleton.mp hl'eq
      -- the root has one link to the network
      obtain ⟨l₀, hl₀, -, hid₀, -, rfl⟩ := h.exit_network hv hnetwork hparents (hgiven e₀ he₀)
      obtain rfl := eq_of_single (h.single l hl (by rw [htransit]; decide)).1 hl rfl hl₀ (hid₀.trans hid.symm)
      rw [hexiteq]
      exact List.mem_cons_self ..
  · have hparent : ¬ v.m_parents.head? = some rlsa.m_linkStateId := fun hhead => hnot (List.mem_of_mem_head? hhead)
    obtain ⟨only, honly⟩ := List.length_eq_one_iff.mp hone
    rw [if_neg hparent, hexit] at hhops
    obtain rfl := Option.some.inj hhops
    rw [honly, List.head?_cons, Option.some.injEq] at hexit
    subst hexit
    refine ⟨rfl, hd, fun e he => .inr ⟨⟨_, List.mem_cons_self .., hne⟩, ?_⟩, fun e hgive => ?_⟩
    · obtain rfl := List.mem_singleton.mp he
      rcases hgiven _ hmem with ⟨hroot, -⟩ | ⟨-, hop⟩
      · exact absurd hroot hnot
      · have hhop := hop.edge hedge
        rw [← hd] at hhop
        exact hhop
    · rw [Give, if_neg hne, if_neg fun hboth => hnot hboth.2, honly] at hgive
      exact hgive

/-! ### What `SPFNext` does with an edge -/

section

variable {root : UInt32} {Done : UInt32 → UInt32 → Nat → Prop} {last : Nat} {tree : List SPFVertex} {s s' : SPF}

theorem Placed.eq_of_tree (h : Placed m root Done last tree s) {u u' : SPFVertex} (hu : u ∈ tree) (hu' : u' ∈ tree)
    (hid : u.m_vertexId = u'.m_vertexId) : u = u' := by
  have hids := h.ids
  rw [List.map_append] at hids
  exact List.inj_on_of_nodup_map (List.nodup_append.mp hids).1 hu hu' hid

/-- Nothing comes of an edge, a new candidate does, or an old one stays, is merged with the new one or is changed. -/
theorem Placed.examine_cases (hm : m.Consistent) (h : Placed m root Done last tree s) {limit : Nat}
    {l : Option LinkRecord} {w_lsa : RoutingLSA} (hw : w_lsa ∈ m.m_lsdb)
    (hs : m.examine limit root v l w_lsa s = some s') :
    s.status w_lsa.m_linkStateId = .LSA_SPF_IN_SPFTREE ∧ s' = s ∨
    s.status w_lsa.m_linkStateId = .LSA_SPF_NOT_EXPLORED ∧
      (∃ w, m.nextHops limit root v { m_lsa := w_lsa } l = some w ∧
        s'.candidate = CandidateQueue.push { w with m_distanceFromRoot := distance v l, m_parents := [v.m_vertexId] }
          s.candidate) ∨
    s.status w_lsa.m_linkStateId = .LSA_SPF_CANDIDATE ∧ ∃ cw ∈ s.candidate, cw.m_lsa = w_lsa ∧
      (cw.m_distanceFromRoot < distance v l ∧ s' = s ∨
      cw.m_distanceFromRoot = distance v l ∧ (∃ w, m.nextHops limit root v { m_lsa := w_lsa } l = some w ∧
        s'.candidate = CandidateQueue.update (SPFVertex.mergeParent m.pointer
          { w with m_distanceFromRoot := distance v l, m_parents := [v.m_vertexId] }
          (SPFVertex.mergeRootExitDirections
            { w with m_distanceFromRoot := distance v l, m_parents := [v.m_vertexId] } cw)) s.candidate) ∨
      distance v l < cw.m_distanceFromRoot ∧ ∃ w, m.nextHops limit root v cw l = some w ∧
        s'.candidate = CandidateQueue.reorder (CandidateQueue.update
          { w with m_distanceFromRoot := distance v l, m_parents := [v.m_vertexId] } s.candidate)) := by
  rw [GlobalRouteManager.examine] at hs
  cases hstatus : s.status w_lsa.m_linkStateId with
  | LSA_SPF_IN_SPFTREE =>
    rw [hstatus] at hs
    exact .inl ⟨rfl, (Option.some.inj hs).symm⟩
  | LSA_SPF_NOT_EXPLORED =>
    rw [hstatus] at hs
    obtain ⟨_, hcalc, rfl⟩ := Option.map_eq_some_iff.mp hs
    obtain ⟨w, hhop, rfl⟩ := Option.map_eq_some_iff.mp hcalc
    exact .inr (.inl ⟨rfl, w, hhop, rfl⟩)
  | LSA_SPF_CANDIDATE =>
    rw [hstatus] at hs
    obtain ⟨cw, hfind, hs⟩ := Option.bind_eq_some_iff.mp hs
    obtain ⟨hcw, hid⟩ := CandidateQueue.mem_of_find hfind
    refine .inr (.inr ⟨rfl, cw, hcw, hm.eq_of_id (h.lsa cw (.inr hcw)) hw hid, ?_⟩)
    by_cases hlt : cw.m_distanceFromRoot < distance v l
    · rw [if_pos hlt] at hs
      exact .inl ⟨hlt, (Option.some.inj hs).symm⟩
    rw [if_neg hlt] at hs
    by_cases heq : cw.m_distanceFromRoot = distance v l
    · rw [if_pos heq] at hs
      obtain ⟨_, hcalc, rfl⟩ := Option.map_eq_some_iff.mp hs
      obtain ⟨w, hhop, rfl⟩ := Option.map_eq_some_iff.mp hcalc
      exact .inr (.inl ⟨heq, w, hhop, rfl⟩)
    · rw [if_neg heq] at hs
      obtain ⟨_, hcalc, rfl⟩ := Option.map_eq_some_iff.mp hs
      obtain ⟨w, hhop, rfl⟩ := Option.map_eq_some_iff.mp hcalc
      exact .inr (.inr ⟨UInt32.lt_of_le_of_ne (UInt32.not_lt.mp hlt) (Ne.symm heq), w, hhop, rfl⟩)

theorem fromRoot_congr {w w' : SPFVertex} (hlsa : w'.m_lsa = w.m_lsa)
    (hdistance : w'.m_distanceFromRoot = w.m_distanceFromRoot) (h : FromRoot links rlsa w e) :
    FromRoot links rlsa w' e := by
  obtain ⟨l, hl, hlink, hid, hmetric, rfl⟩ := h
  refine ⟨l, hl, hlink, by rw [SPFVertex.m_vertexId, hlsa]; exact hid, by rw [hdistance]; exact hmetric, ?_⟩
  rw [linkExit, linkExit, SPFVertex.m_vertexType, SPFVertex.m_vertexType, hlsa]

/-- What an edge gives depends only on the vertex and its distance. -/
theorem give_congr {u w w' : SPFVertex} (hlsa : w'.m_lsa = w.m_lsa)
    (hdistance : w'.m_distanceFromRoot = w.m_distanceFromRoot) (h : Give links rlsa u w e) : Give links rlsa u w' e := by
  rw [Give] at h ⊢
  split
  · next hroot =>
    rw [if_pos hroot] at h
    exact fromRoot_congr hlsa hdistance h
  · next hroot =>
    rw [if_neg hroot] at h
    rw [hlsa]
    exact h

theorem given_mono {w w' : SPFVertex} (hlsa : w'.m_lsa = w.m_lsa)
    (hdistance : w'.m_distanceFromRoot = w.m_distanceFromRoot) (hparents : ∀ p ∈ w.m_parents, p ∈ w'.m_parents)
    (h : Given m links rlsa w e) : Given m links rlsa w' e := by
  rcases h with ⟨hroot, hfrom⟩ | ⟨⟨p, hp, hne⟩, hop⟩
  · exact .inl ⟨hparents _ hroot, fromRoot_congr hlsa hdistance hfrom⟩
  · refine .inr ⟨⟨p, hparents p hp, hne⟩, ?_⟩
    rw [SPFVertex.m_vertexId, hlsa, hdistance]
    exact hop

/-- A merged vertex has the parents of both. -/
theorem mem_merged_parents {pointer : UInt32 → Nat} {w cw : SPFVertex} {p : UInt32} :
    p ∈ (SPFVertex.mergeParent pointer w (SPFVertex.mergeRootExitDirections w cw)).m_parents ↔
      p ∈ cw.m_parents ∨ p ∈ w.m_parents := by
  rw [SPFVertex.mergeParent, mem_uniqueRuns, List.mem_insertionSort, List.mem_append]
  rfl

/-- A merged vertex has the exit directions of both. -/
theorem mem_merged_exits {pointer : UInt32 → Nat} {w cw : SPFVertex} :
    e ∈ (SPFVertex.mergeParent pointer w (SPFVertex.mergeRootExitDirections w cw)).m_ecmpRootExits ↔
      e ∈ cw.m_ecmpRootExits ∨ e ∈ w.m_ecmpRootExits := by
  have hexits : (SPFVertex.mergeParent pointer w (SPFVertex.mergeRootExitDirections w cw)).m_ecmpRootExits =
      uniqueRuns ((cw.m_ecmpRootExits ++ w.m_ecmpRootExits).insertionSort SPFVertex.exitLe) := rfl
  rw [hexits, mem_uniqueRuns, List.mem_insertionSort, List.mem_append]

/-- An edge that is on no path of a found cost changes nothing. -/
theorem Aimed.keep (h : Aimed m links rlsa Done tree s) (hp : Placed m root Done last tree s) (hv : v ∈ tree)
    {x : UInt32} {n : Nat} (hslack : ∀ w, w ∈ tree ∨ w ∈ s.candidate → w.m_vertexId = x →
      v.m_distanceFromRoot.toNat + n ≠ w.m_distanceFromRoot.toNat) :
    Aimed m links rlsa (fun y z c => Done y z c ∨ y = v.m_vertexId ∧ z = x ∧ c = n) tree s where
  given := h.given
  complete := by
    rintro u hu w hw k (hdone | ⟨huv, hwx, rfl⟩) htight
    · exact h.complete u hu w hw k hdone htight
    · obtain rfl := hp.eq_of_tree hu hv huv
      exact absurd htight (hslack w hw hwx)

/-- A vertex is put among the candidates, or in the place of the one it was. -/
theorem Aimed.put (h : Aimed m links rlsa Done tree s) (hp : Placed m root Done last tree s) (hv : v ∈ tree) {n : Nat}
    (hnew : ∀ u ∈ tree, u.m_vertexId ≠ w.m_vertexId) (hroot : w.m_vertexId ≠ rlsa.m_linkStateId)
    (hmem : ∀ u, u ∈ s'.candidate → u = w ∨ u ∈ s.candidate ∧ u.m_vertexId ≠ w.m_vertexId)
    (hgiven : ∀ e ∈ w.m_ecmpRootExits, Given m links rlsa w e)
    (hcomplete : ∀ u ∈ tree, ∀ k, Done u.m_vertexId w.m_vertexId k ∨ u = v ∧ k = n →
      u.m_distanceFromRoot.toNat + k = w.m_distanceFromRoot.toNat →
        u.m_vertexId ∈ w.m_parents ∧ ∀ e, Give links rlsa u w e → e ∈ w.m_ecmpRootExits) :
    Aimed m links rlsa (fun y z c => Done y z c ∨ y = v.m_vertexId ∧ z = w.m_vertexId ∧ c = n) tree s' where
  given := by
    rintro u (hu | hu) hne
    · exact h.given u (.inl hu) hne
    · rcases hmem u hu with rfl | ⟨hu, -⟩
      · exact hgiven
      · exact h.given u (.inr hu) hne
  complete := by
    have hold : ∀ u ∈ tree, ∀ x, (x ∈ tree ∨ x ∈ s.candidate) → x.m_vertexId ≠ w.m_vertexId → ∀ k,
        (Done u.m_vertexId x.m_vertexId k ∨ u.m_vertexId = v.m_vertexId ∧ x.m_vertexId = w.m_vertexId ∧ k = n) →
        u.m_distanceFromRoot.toNat + k = x.m_distanceFromRoot.toNat → x.m_vertexId ≠ rlsa.m_linkStateId ∧
          u.m_vertexId ∈ x.m_parents ∧ ∀ e, Give links rlsa u x e → e ∈ x.m_ecmpRootExits := by
      intro u hu x hx hne k hdone htight
      exact h.complete u hu x hx k (hdone.resolve_right fun hnow => hne hnow.2.1) htight
    rintro u hu x (hx | hx) k hdone htight
    · exact hold u hu x (.inl hx) (hnew x hx) k hdone htight
    · rcases hmem x hx with rfl | ⟨hx, hne⟩
      · refine ⟨hroot, hcomplete u hu k (hdone.imp_right fun hnow => ⟨?_, hnow.2.2⟩) htight⟩
        exact hp.eq_of_tree hu hv hnow.1
      · exact hold u hu x (.inr hx) hne k hdone htight

/-- An edge that leads to no vertex of the tree by a path of its own cost is looked at. -/
theorem Aimed.examine (hset : Setting m links rlsa) (hcost : m.CostsFit rlsa.m_linkStateId)
    (hp : Placed m rlsa.m_linkStateId Done last tree s) (h : Aimed m links rlsa Done tree s) (hv : v ∈ tree)
    (hlast : v.m_distanceFromRoot.toNat = last) {limit : Nat} {l : Option LinkRecord} {w_lsa : RoutingLSA}
    (hw : w_lsa ∈ m.m_lsdb) {n : Nat} (hedge : m.Edge v.m_vertexId w_lsa.m_linkStateId n)
    (hdistance : (distance v l).toNat = (last + n) % 2 ^ 32)
    (hlate : ∀ u ∈ tree, u.m_vertexId = w_lsa.m_linkStateId →
      v.m_distanceFromRoot.toNat + n ≠ u.m_distanceFromRoot.toNat)
    (hfresh : s.status w_lsa.m_linkStateId ≠ .LSA_SPF_IN_SPFTREE → ∀ {w w' : SPFVertex}, w.m_lsa = w_lsa →
      m.nextHops limit rlsa.m_linkStateId v w l = some w' → ∀ {d : UInt32},
        d.toNat = v.m_distanceFromRoot.toNat + n →
          Fresh m links rlsa v n { w' with m_distanceFromRoot := d, m_parents := [v.m_vertexId] })
    (hs : m.examine limit rlsa.m_linkStateId v l w_lsa s = some s') :
    Aimed m links rlsa (fun x y c => Done x y c ∨ x = v.m_vertexId ∧ y = w_lsa.m_linkStateId ∧ c = n) tree s' := by
  have hm := hset.consistent
  have hat : At tree v.m_vertexId last := ⟨v, hv, rfl, hlast⟩
  obtain ⟨r, hr, hrid, -⟩ := hp.frontier.source
  have hfit : s.status w_lsa.m_linkStateId ≠ .LSA_SPF_IN_SPFTREE →
      (∀ u ∈ tree, u.m_vertexId ≠ w_lsa.m_linkStateId) ∧ (distance v l).toNat = v.m_distanceFromRoot.toNat + n := by
    intro hstatus
    have hnew := hp.not_inTree hstatus
    obtain ⟨vs, htrail, -⟩ := hp.frontier.extend hat hedge fun e ⟨u, hu, hid, _⟩ => hnew u hu hid
    exact ⟨hnew, by rw [hdistance, Nat.mod_eq_of_lt (hcost _ _ _ htrail), hlast]⟩
  rcases hp.examine_cases hm hw hs with ⟨hstatus, rfl⟩ | ⟨hstatus, w, hhop, hcand⟩ | ⟨hstatus, cw, hcw, hcwlsa, hcases⟩
  · refine h.keep hp hv fun u hu hid => ?_
    rcases hu with hu | hu
    · exact hlate u hu hid
    · have hcand := (hp.isCandidate _).mpr ⟨u, hu, hid⟩
      rw [hstatus] at hcand
      cases hcand
  · have hne : s.status w_lsa.m_linkStateId ≠ .LSA_SPF_IN_SPFTREE := by rw [hstatus]; decide
    obtain ⟨hnew, hdist⟩ := hfit hne
    have hf := hfresh hne rfl hhop hdist
    have hlsa : w.m_lsa = w_lsa := nextHops_lsa hhop
    generalize hw₂ : ({ w with m_distanceFromRoot := distance v l, m_parents := [v.m_vertexId] } : SPFVertex) = w₂
      at hf hcand
    obtain rfl : w₂.m_lsa = w_lsa := by rw [← hw₂]; exact hlsa
    refine h.put hp hv hnew (fun hid => hnew r hr (hrid.trans hid.symm)) (fun u hu => ?_) hf.given ?_
    · rw [hcand, (CandidateQueue.push_perm _ _).mem_iff, List.mem_cons] at hu
      refine hu.imp_right fun hu => ⟨hu, fun hid => ?_⟩
      have hold := (hp.isCandidate _).mpr ⟨u, hu, hid⟩
      rw [SPFVertex.m_vertexId, hstatus] at hold
      cases hold
    · rintro u hu k (hdone | ⟨rfl, rfl⟩) -
      · rcases hp.frontier.edge ⟨u, hu, rfl, rfl⟩ hdone with ⟨e, x, hx, hxid, -⟩ | ⟨e, ⟨x, hx, hxid, -⟩, -⟩
        · exact absurd hxid (hnew x hx)
        · have hold := (hp.isCandidate _).mpr ⟨x, hx, hxid⟩
          rw [SPFVertex.m_vertexId, hstatus] at hold
          cases hold
      · exact ⟨by rw [hf.parents]; exact List.mem_cons_self .., hf.give⟩
  · have hne : s.status w_lsa.m_linkStateId ≠ .LSA_SPF_IN_SPFTREE := by rw [hstatus]; decide
    obtain ⟨hnew, hdist⟩ := hfit hne
    have honly : ∀ u ∈ s.candidate, u.m_vertexId = w_lsa.m_linkStateId → u = cw := fun u hu hid =>
      hp.eq_of_id hu hcw (by rw [hid, SPFVertex.m_vertexId, hcwlsa])
    rcases hcases with ⟨hlt, rfl⟩ | ⟨heq, w, hhop, hcand⟩ | ⟨hlt, w, hhop, hcand⟩
    · rw [UInt32.lt_iff_toNat_lt] at hlt
      refine h.keep hp hv fun u hu hid => ?_
      rcases hu with hu | hu
      · exact hlate u hu hid
      · rw [honly u hu hid]
        omega
    · have hf := hfresh hne rfl hhop hdist
      have hlsa : w.m_lsa = w_lsa := nextHops_lsa hhop
      generalize hw₂ : ({ w with m_distanceFromRoot := distance v l, m_parents := [v.m_vertexId] } : SPFVertex) = w₂
        at hf hcand
      have hlsa₂ : w₂.m_lsa = cw.m_lsa := by
        rw [← hw₂, hcwlsa]
        exact hlsa
      have hdist₂ : w₂.m_distanceFromRoot = cw.m_distanceFromRoot := by rw [← hw₂, heq]
      have hparents := @mem_merged_parents m.pointer w₂ cw
      have hexits := fun e => @mem_merged_exits e m.pointer w₂ cw
      have hlsa₃ : (SPFVertex.mergeParent m.pointer w₂ (SPFVertex.mergeRootExitDirections w₂ cw)).m_lsa = cw.m_lsa := rfl
      have hdist₃ : (SPFVertex.mergeParent m.pointer w₂
        (SPFVertex.mergeRootExitDirections w₂ cw)).m_distanceFromRoot = cw.m_distanceFromRoot := rfl
      generalize SPFVertex.mergeParent m.pointer w₂ (SPFVertex.mergeRootExitDirections w₂ cw) = w₃ at *
      obtain rfl : w₃.m_lsa = w_lsa := hlsa₃.trans hcwlsa
      have hroot : w₃.m_vertexId ≠ rlsa.m_linkStateId := fun hid => hnew r hr (hrid.trans hid.symm)
      have hcwid : cw.m_vertexId = w₃.m_vertexId := congrArg RoutingLSA.m_linkStateId hcwlsa
      refine h.put hp hv hnew hroot (fun u hu => ?_) (fun e he => ?_) ?_
      · rw [hcand] at hu
        exact (CandidateQueue.mem_update ⟨cw, hcw, hcwid⟩).mp hu
      · rcases (hexits e).mp he with he | he
        · exact given_mono hlsa₃ hdist₃ (fun p hmem => hparents.mpr (.inl hmem))
            (h.given cw (.inr hcw) (hcwid ▸ hroot) e he)
        · exact given_mono (hlsa₃.trans hlsa₂.symm) (hdist₃.trans hdist₂.symm) (fun p hmem => hparents.mpr (.inr hmem))
            (hf.given e he)
      · rintro u hu k (hdone | ⟨rfl, rfl⟩) htight
        · obtain ⟨-, hparent, hgive⟩ := h.complete u hu cw (.inr hcw) k (hcwid ▸ hdone) (hdist₃ ▸ htight)
          exact ⟨hparents.mpr (.inl hparent),
            fun e he => (hexits e).mpr (.inl (hgive e (give_congr hlsa₃.symm hdist₃.symm he)))⟩
        · refine ⟨hparents.mpr (.inr (by rw [hf.parents]; exact List.mem_cons_self ..)), fun e he => ?_⟩
          exact (hexits e).mpr (.inr (hf.give e (give_congr (hlsa₂.trans hlsa₃.symm) (hdist₂.trans hdist₃.symm) he)))
    · have hf := hfresh hne hcwlsa hhop hdist
      have hlsa : w.m_lsa = w_lsa := (nextHops_lsa hhop).trans hcwlsa
      generalize hw₂ : ({ w with m_distanceFromRoot := distance v l, m_parents := [v.m_vertexId] } : SPFVertex) = w₂
        at hf hcand
      have hdist₂ : w₂.m_distanceFromRoot = distance v l := by rw [← hw₂]
      obtain rfl : w₂.m_lsa = w_lsa := by rw [← hw₂]; exact hlsa
      have hcwid : cw.m_vertexId = w₂.m_vertexId := congrArg RoutingLSA.m_linkStateId hcwlsa
      refine h.put hp hv hnew (fun hid => hnew r hr (hrid.trans hid.symm)) (fun u hu => ?_) hf.given ?_
      · rw [hcand, (CandidateQueue.reorder_perm _).mem_iff] at hu
        exact (CandidateQueue.mem_update ⟨cw, hcw, hcwid⟩).mp hu
      · rintro u hu k (hdone | ⟨rfl, rfl⟩) htight
        · -- the older edges are on no path of the new cost
          rw [UInt32.lt_iff_toNat_lt, ← hdist₂] at hlt
          rcases hp.frontier.edge ⟨u, hu, rfl, rfl⟩ hdone with ⟨e, x, hx, hxid, -⟩ | ⟨e, ⟨x, hx, hxid, rfl⟩, hle⟩
          · exact absurd hxid (hnew x hx)
          · rw [honly x hx hxid] at hle
            omega
        · exact ⟨by rw [hf.parents]; exact List.mem_cons_self .., hf.give⟩

theorem Aimed.done {Done' : UInt32 → UInt32 → Nat → Prop} (h : Aimed m links rlsa Done tree s)
    (hdone : ∀ {v w k}, Done' v w k → Done v w k) : Aimed m links rlsa Done' tree s where
  given := h.given
  complete := fun u hu w hw n hdone' => h.complete u hu w hw n (hdone hdone')

/-- One of a router's records is looked at. -/
theorem Aimed.nextRecord (hset : Setting m links rlsa) (hcost : m.CostsFit rlsa.m_linkStateId)
    (hp : Placed m rlsa.m_linkStateId Done last tree s) (h : Aimed m links rlsa Done tree s) (hv : v ∈ tree)
    (hrouter : v.m_vertexType = .RouterLSA) (hlast : v.m_distanceFromRoot.toNat = last)
    (hzero : v.m_vertexId = rlsa.m_linkStateId → v.m_distanceFromRoot.toNat = 0)
    (hlate : ∀ u ∈ tree, ∀ n, m.Edge v.m_vertexId u.m_vertexId n →
      v.m_distanceFromRoot.toNat + n ≠ u.m_distanceFromRoot.toNat)
    {limit : Nat} {l : LinkRecord} (hl : l ∈ v.m_lsa.m_linkRecords)
    (hs : m.nextRecord limit rlsa.m_linkStateId v s l = some s') :
    Aimed m links rlsa (fun x y c => Done x y c ∨ x = v.m_vertexId ∧
      l.m_linkType ≠ .StubNetwork ∧ y = l.m_linkId ∧ c = l.m_metric.toNat) tree s' := by
  have hm := hset.consistent
  have hlsa := hp.lsa v (.inl hv)
  by_cases hstub : l.m_linkType = .StubNetwork
  · rw [GlobalRouteManager.nextRecord, hstub] at hs
    obtain rfl := Option.some.inj hs
    exact h.done fun hdone => hdone.resolve_right fun hlink => hlink.2.1 hstub
  · obtain ⟨w_lsa, hw, hid, -⟩ := (hm.records v.m_lsa hlsa hrouter l hl).resolve_left hstub
    have hedge : m.Edge v.m_vertexId w_lsa.m_linkStateId l.m_metric.toNat := by
      rw [hid]
      exact .record hlsa hrouter hl hstub
    rw [nextRecord_eq hm hlsa hrouter hl hstub hw hid] at hs
    have haimed := h.examine hset hcost hp hv hlast hw hedge (toNat_distance hrouter hlast l)
      (fun u hu huid => hlate u hu _ (huid ▸ hedge)) (fun _ w w' hwlsa hhops d hd => by
        subst hwlsa
        by_cases hroot : v.m_vertexId = rlsa.m_linkStateId
        · have hvlsa : v.m_lsa = rlsa := hm.eq_of_id hlsa hset.mem hroot
          exact hset.fresh_root (hvlsa ▸ hl) hstub hw hid hvlsa (hzero hroot) hhops hd
        · exact hset.fresh_router hlsa hrouter hroot (h.given v (.inl hv) hroot) hedge hhops hd) hs
    exact haimed.done fun hdone => hdone.imp_right fun hrecord => ⟨hrecord.1, hrecord.2.2.1.trans hid.symm, hrecord.2.2.2⟩

/-- One of a network's attached routers is looked at. -/
theorem Aimed.nextAttached (hset : Setting m links rlsa) (hcost : m.CostsFit rlsa.m_linkStateId)
    (hp : Placed m rlsa.m_linkStateId Done last tree s) (h : Aimed m links rlsa Done tree s) (hv : v ∈ tree)
    (hnetwork : v.m_vertexType = .NetworkLSA) (hlast : v.m_distanceFromRoot.toNat = last)
    (hlate : ∀ u ∈ tree, ∀ n, m.Edge v.m_vertexId u.m_vertexId n →
      v.m_distanceFromRoot.toNat + n ≠ u.m_distanceFromRoot.toNat)
    {limit : Nat} (hlimit : 2 ≤ limit) {addr : UInt32} (haddr : addr ∈ v.m_lsa.m_attachedRouters)
    (hplain : v.m_parents = [rlsa.m_linkStateId] ∧ (∀ w ∈ m.getLSAByLinkData addr,
        s.status w.m_linkStateId ≠ .LSA_SPF_IN_SPFTREE → (linksTo v.m_vertexId w).length = 1) ∨
      rlsa.m_linkStateId ∉ v.m_parents ∧ v.m_ecmpRootExits.length = 1)
    (hs : m.nextAttached limit rlsa.m_linkStateId v s addr = some s') :
    Aimed m links rlsa (fun x y c => Done x y c ∨ x = v.m_vertexId ∧ ∃ w, m.getLSAByLinkData addr = some w ∧
      y = w.m_linkStateId ∧ c = 0) tree s' := by
  have hm := hset.consistent
  have hlsa := hp.lsa v (.inl hv)
  obtain ⟨hne, exit, hexit⟩ := hp.exit hm ⟨rlsa, hset.mem, rfl, hset.router⟩ hv hnetwork
  rw [GlobalRouteManager.nextAttached] at hs
  cases hget : m.getLSAByLinkData addr with
  | none =>
    rw [hget] at hs
    obtain rfl := Option.some.inj hs
    refine h.done fun hdone => hdone.resolve_right ?_
    rintro ⟨-, w, hw, -⟩
    cases hw
  | some w_lsa =>
    rw [hget] at hs
    have hw := mem_of_getLSAByLinkData hget
    have hedge : m.Edge v.m_vertexId w_lsa.m_linkStateId 0 := .attached hlsa hnetwork haddr hget
    have hdistance : (distance v none).toNat = (last + 0) % 2 ^ 32 := by
      rw [distance_none, hlast, Nat.add_zero, ← hlast, Nat.mod_eq_of_lt v.m_distanceFromRoot.toNat_lt]
    have haimed := h.examine hset hcost hp hv hlast hw hedge hdistance
      (fun u hu huid => hlate u hu _ (huid ▸ hedge)) (fun hstatus w w' hwlsa hhops d hd => by
        subst hwlsa
        exact hset.fresh_network hlsa hnetwork hne (h.given v (.inl hv) hne)
          (hplain.imp_left fun hboth => ⟨hboth.1, hboth.2 _ hget hstatus⟩) hexit hw hedge hlimit hhops hd) hs
    refine haimed.done fun hdone => hdone.imp_right ?_
    rintro ⟨hx, w, hw, hy, hc⟩
    exact ⟨hx, by rw [hy, Option.some.inj hw], hc⟩

/-! ### When all edges have been looked at -/

/-- All edges of the tree have been looked at, and nothing is left to take. -/
structure Settled (m : GlobalRouteManager) (links : Links) (rlsa : RoutingLSA) (tree : List SPFVertex) : Prop where
  lsa : ∀ u ∈ tree, u.m_lsa ∈ m.m_lsdb
  root : ∃ r ∈ tree, r.m_vertexId = rlsa.m_linkStateId ∧ r.m_distanceFromRoot.toNat = 0
  reached : ∀ {x c}, Walk m.Edge rlsa.m_linkStateId x c → ∃ u ∈ tree, u.m_vertexId = x
  least : ∀ u ∈ tree, LeastCost m.Edge rlsa.m_linkStateId u.m_vertexId u.m_distanceFromRoot.toNat
  given : ∀ w ∈ tree, w.m_vertexId ≠ rlsa.m_linkStateId → ∀ e ∈ w.m_ecmpRootExits, Given m links rlsa w e
  complete : ∀ u ∈ tree, ∀ w ∈ tree, ∀ n, m.Edge u.m_vertexId w.m_vertexId n →
    u.m_distanceFromRoot.toNat + n = w.m_distanceFromRoot.toNat →
      w.m_vertexId ≠ rlsa.m_linkStateId ∧ u.m_vertexId ∈ w.m_parents ∧
        ∀ e, Give links rlsa u w e → e ∈ w.m_ecmpRootExits
  parents : ∀ u ∈ tree, u.m_vertexType = .NetworkLSA →
    u.m_parents = [rlsa.m_linkStateId] ∨ rlsa.m_linkStateId ∉ u.m_parents

theorem Setting.edge_link (h : Setting m links rlsa) {l : LinkRecord} (hl : l ∈ rlsa.m_linkRecords)
    (hlink : l.m_linkType ≠ .StubNetwork) : m.Edge rlsa.m_linkStateId l.m_linkId l.m_metric.toNat :=
  .record h.mem h.router hl hlink

theorem Setting.walk_link (h : Setting m links rlsa) {l : LinkRecord} (hl : l ∈ rlsa.m_linkRecords)
    (hlink : l.m_linkType ≠ .StubNetwork) : Walk m.Edge rlsa.m_linkStateId l.m_linkId l.m_metric.toNat := by
  have hwalk := Walk.edge .root (h.edge_link hl hlink)
  rw [Nat.zero_add] at hwalk
  exact hwalk

theorem Setting.hop_walk (h : Setting m links rlsa) {x : UInt32} {c : Nat} (hop : Hop m links rlsa x c e) :
    Walk m.Edge rlsa.m_linkStateId x c := by
  induction hop with
  | router hl hlink => exact h.walk_link hl (by rw [hlink]; exact nofun)
  | behind hl hlink hedge hw hl' hid => exact (h.walk_link hl (by rw [hlink]; exact nofun)).edge hedge
  | edge hop hedge ih => exact ih.edge hedge

/-- The vertex that a walk of least cost reaches. -/
theorem Settled.at_least (h : Settled m links rlsa tree) {x : UInt32} {c : Nat}
    (hwalk : Walk m.Edge rlsa.m_linkStateId x c) (hleast : ∀ c', Walk m.Edge rlsa.m_linkStateId x c' → c ≤ c') :
    ∃ u ∈ tree, u.m_vertexId = x ∧ u.m_distanceFromRoot.toNat = c := by
  obtain ⟨u, hu, rfl⟩ := h.reached hwalk
  exact ⟨u, hu, rfl, (h.least u hu).unique ⟨hwalk, hleast⟩⟩

/-- The distance of the vertex is the least cost. -/
theorem Settled.distance_eq (h : Settled m links rlsa tree) {u : SPFVertex} (hu : u ∈ tree) {x : UInt32} {c : Nat}
    (hid : u.m_vertexId = x) (hwalk : Walk m.Edge rlsa.m_linkStateId x c)
    (hleast : ∀ c', Walk m.Edge rlsa.m_linkStateId x c' → c ≤ c') : u.m_distanceFromRoot.toNat = c := by
  subst hid
  exact (h.least u hu).unique ⟨hwalk, hleast⟩

theorem Settled.root_zero (h : Settled m links rlsa tree) {u : SPFVertex} (hu : u ∈ tree)
    (hid : u.m_vertexId = rlsa.m_linkStateId) : u.m_distanceFromRoot.toNat = 0 :=
  Nat.le_zero.mp ((h.least u hu).2 0 (hid ▸ .root))

/-- No path of no cost comes back to the root. -/
theorem Settled.hop_root (h : Settled m links rlsa tree) (hset : Setting m links rlsa)
    (hop : Hop m links rlsa rlsa.m_linkStateId 0 e) : False := by
  obtain ⟨r, hr, hrid, hrzero⟩ := h.root
  -- the last edge of the path is from a vertex of the tree
  have hlast : ∀ {v n c}, Walk m.Edge rlsa.m_linkStateId v c → m.Edge v rlsa.m_linkStateId n → c + n = 0 → False := by
    intro v n c hwalk hedge hzero
    obtain ⟨u, hu, rfl, hdist⟩ := h.at_least hwalk fun c' _ => by omega
    exact (h.complete u hu r hr n (by rw [hrid]; exact hedge) (by rw [hdist, hrzero]; exact hzero)).1 hrid
  generalize hx : rlsa.m_linkStateId = x at hop
  generalize hc : 0 = c at hop
  cases hop with
  | router hl hlink =>
    refine hlast .root ?_ (by rw [Nat.zero_add])
    have hedge := hset.edge_link hl (by rw [hlink]; exact nofun)
    rw [← hx, ← hc] at hedge
    exact hedge
  | behind hl hlink hedge hw hl' hid =>
    exact hlast (hset.walk_link hl (by rw [hlink]; exact nofun)) (hx ▸ hedge) hc.symm
  | edge hop hedge => exact hlast (hset.hop_walk hop) (hx ▸ hedge) hc.symm

/-- A path that ends at a network that only the root leads to has not come to a router. -/
theorem Settled.hop_network (h : Settled m links rlsa tree) (hset : Setting m links rlsa) {u : SPFVertex}
    (hu : u ∈ tree) (hnetwork : u.m_vertexType = .NetworkLSA) (hparents : u.m_parents = [rlsa.m_linkStateId])
    (hop : Hop m links rlsa u.m_vertexId u.m_distanceFromRoot.toNat e) : False := by
  have hm := hset.consistent
  have hlsa := h.lsa u hu
  have htype : ∀ {w : RoutingLSA}, w ∈ m.m_lsdb → w.m_linkStateId = u.m_vertexId → w.m_lsType = .NetworkLSA := by
    intro w hw hid
    rw [hm.eq_of_id hw hlsa hid]
    exact hnetwork
  generalize hx : u.m_vertexId = x at hop
  generalize hc : u.m_distanceFromRoot.toNat = c at hop
  cases hop with
  | router hl hlink =>
    rcases hset.link_type hset.mem hset.router hl (by rw [hlink]; exact nofun) hlsa hx with ⟨hrouter, -⟩ | ⟨-, hlink'⟩
    · have hboth := hnetwork.symm.trans hrouter
      cases hboth
    · rw [hlink] at hlink'
      cases hlink'
  | behind hl hlink hedge hw hl' hid =>
    obtain ⟨net, hnet, hnetid, hends⟩ := (hm.records rlsa hset.mem hset.router _ hl).resolve_left
      (by rw [hlink]; exact nofun)
    have hnettype : net.m_lsType = .NetworkLSA := (hends.resolve_left fun hp2p => by
      rw [hlink] at hp2p
      cases hp2p.1).2
    rw [← hnetid] at hedge
    obtain ⟨addr, haddr, w', howner, hid', -⟩ := hm.edge_of_network hnet hnettype hedge
    have hrouter := (hm.attached net hnet hnettype addr haddr w' howner).1
    rw [htype (mem_of_getLSAByLinkData howner) (hid'.symm.trans hx.symm)] at hrouter
    cases hrouter
  | edge hop hedge =>
    rename_i v c' n
    subst hx
    obtain ⟨y, hy, rfl, rfl⟩ := h.at_least (hset.hop_walk hop) fun c'' hwalk => by
      have hle := (h.least u hu).2 _ (hwalk.edge hedge)
      omega
    obtain ⟨-, hparent, -⟩ := h.complete y hy u hu n hedge hc.symm
    rw [hparents] at hparent
    have hroot := List.mem_singleton.mp hparent
    rw [h.root_zero hy hroot, hroot] at hop
    exact h.hop_root hset hop

/-- The first hops of the paths of least cost have been given to their vertex. -/
theorem Settled.mem_exits (h : Settled m links rlsa tree) (hset : Setting m links rlsa) {x : UInt32} {c : Nat}
    (hop : Hop m links rlsa x c e) (hleast : ∀ c', Walk m.Edge rlsa.m_linkStateId x c' → c ≤ c') :
    ∀ u ∈ tree, u.m_vertexId = x → e ∈ u.m_ecmpRootExits := by
  obtain ⟨r, hr, hrid, hrzero⟩ := h.root
  induction hop with
  | router hl hlink =>
    rename_i l
    rintro u hu hid
    have hne : l.m_linkType ≠ .StubNetwork := by rw [hlink]; exact nofun
    have hdist := h.distance_eq hu hid (hset.walk_link hl hne) hleast
    obtain ⟨-, -, hgive⟩ := h.complete r hr u hu l.m_metric.toNat (by rw [hrid, hid]; exact hset.edge_link hl hne)
      (by rw [hrzero, hdist, Nat.zero_add])
    refine hgive _ ?_
    rw [Give, if_pos hrid]
    refine ⟨l, hl, hne, hid.symm, hdist.symm, ?_⟩
    rcases hset.link_type hset.mem hset.router hl hne (h.lsa u hu) hid with ⟨htype, -⟩ | ⟨-, hlink'⟩
    · have hvtype : u.m_vertexType = .RouterLSA := htype
      rw [linkExit, hvtype]
    · rw [hlink] at hlink'
      cases hlink'
  | behind hl hlink hedge hw hl' hid' =>
    rename_i l l' w
    rintro u hu hid
    have hne : l.m_linkType ≠ .StubNetwork := by rw [hlink]; exact nofun
    obtain rfl := hset.consistent.eq_of_id (h.lsa u hu) hw hid
    have hwalk := hset.walk_link hl hne
    obtain ⟨x, hx, hxid, hxdist⟩ := h.at_least hwalk fun c' hwalk' => hleast c' (hwalk'.edge hedge)
    have hdist := h.distance_eq hu rfl (hwalk.edge hedge) hleast
    obtain ⟨hxroot, hparent, hgive⟩ := h.complete r hr x hx l.m_metric.toNat
      (by rw [hrid, hxid]; exact hset.edge_link hl hne) (by rw [hrzero, hxdist, Nat.zero_add])
    rw [hrid] at hparent
    have hxtype : x.m_vertexType = .NetworkLSA := by
      rcases hset.link_type hset.mem hset.router hl hne (h.lsa x hx) hxid with ⟨-, hlink'⟩ | ⟨htype, -⟩
      · rw [hlink] at hlink'
        cases hlink'
      · exact htype
    have hdirect : (0, links.owner l.m_linkData) ∈ x.m_ecmpRootExits := by
      refine hgive _ ?_
      rw [Give, if_pos hrid]
      exact ⟨l, hl, hne, hxid.symm, hxdist.symm, by rw [linkExit, hxtype]⟩
    obtain ⟨-, -, hgive'⟩ := h.complete x hx u hu 0 (by rw [hxid]; exact hedge) (by rw [hxdist, hdist])
    refine hgive' _ ?_
    rw [Give, if_neg hxroot, if_pos ⟨hxtype, hparent⟩]
    exact ⟨l', mem_linksTo.mpr ⟨hl', hid'.trans hxid.symm⟩, _, hdirect, rfl⟩
  | edge hop hedge ih =>
    rename_i v w c n e
    rintro u hu hid
    have hleast' : ∀ c', Walk m.Edge rlsa.m_linkStateId v c' → c ≤ c' := fun c' hwalk =>
      Nat.le_of_add_le_add_right (hleast _ (hwalk.edge hedge))
    have hwalk := hset.hop_walk hop
    obtain ⟨x, hx, rfl, rfl⟩ := h.at_least hwalk hleast'
    have hdist := h.distance_eq hu hid (hwalk.edge hedge) hleast
    have hexit := ih hleast' x hx rfl
    obtain ⟨-, -, hgive⟩ := h.complete x hx u hu n (hid ▸ hedge) hdist.symm
    refine hgive _ ?_
    have hxroot : x.m_vertexId ≠ rlsa.m_linkStateId := fun hroot => by
      rw [h.root_zero hx hroot, hroot] at hop
      exact h.hop_root hset hop
    have hxonly : ¬ (x.m_vertexType = .NetworkLSA ∧ rlsa.m_linkStateId ∈ x.m_parents) := fun hboth =>
      h.hop_network hset hx hboth.1 ((h.parents x hx hboth.1).resolve_right fun hnot => hnot hboth.2) hop
    rw [Give, if_neg hxroot, if_neg hxonly]
    exact hexit

/-- The exit directions of a vertex are the first hops of the paths of least cost. -/
theorem Settled.firstHop (h : Settled m links rlsa tree) (hset : Setting m links rlsa) {w : SPFVertex} (hw : w ∈ tree)
    (hne : w.m_vertexId ≠ rlsa.m_linkStateId) :
    e ∈ w.m_ecmpRootExits ↔ FirstHop m links rlsa w.m_vertexId w.m_distanceFromRoot.toNat e := by
  obtain ⟨r, hr, hrid, hrzero⟩ := h.root
  constructor
  · intro he
    rcases h.given w hw hne e he with ⟨-, l, hl, hlink, hid, hmetric, rfl⟩ | ⟨-, hop⟩
    · rcases hset.link_type hset.mem hset.router hl hlink (h.lsa w hw) hid.symm with ⟨htype, hlink'⟩ | ⟨htype, hlink'⟩
      · have hvtype : w.m_vertexType = .RouterLSA := htype
        have hop : Hop m links rlsa l.m_linkId l.m_metric.toNat _ := .router hl hlink'
        rw [hid, hmetric] at hop
        rw [linkExit, hvtype]
        exact .inl hop
      · have hvtype : w.m_vertexType = .NetworkLSA := htype
        exact .inr ⟨l, hl, hlink', hid, hmetric, by rw [linkExit, hvtype]⟩
    · exact .inl hop
  · rintro (hop | ⟨l, hl, hlink, hid, hmetric, rfl⟩)
    · exact h.mem_exits hset hop (h.least w hw).2 w hw rfl
    · have hne : l.m_linkType ≠ .StubNetwork := by rw [hlink]; exact nofun
      obtain ⟨-, -, hgive⟩ := h.complete r hr w hw l.m_metric.toNat (by rw [hrid, ← hid]; exact hset.edge_link hl hne)
        (by rw [hrzero, hmetric, Nat.zero_add])
      refine hgive _ ?_
      rw [Give, if_pos hrid]
      refine ⟨l, hl, hne, hid, hmetric, ?_⟩
      rcases hset.link_type hset.mem hset.router hl hne (h.lsa w hw) hid.symm with ⟨-, hlink'⟩ | ⟨htype, -⟩
      · rw [hlink] at hlink'
        cases hlink'
      · have hvtype : w.m_vertexType = .NetworkLSA := htype
        rw [linkExit, hvtype]

/-! ### Runs -/

/-- The state before a turn, with the exit directions. -/
structure Sighted (m : GlobalRouteManager) (links : Links) (rlsa : RoutingLSA) (c : Calculation) : Prop where
  head : Head m rlsa.m_linkStateId rlsa c
  aimed : Aimed m links rlsa (fun u w n => u ≠ c.v.m_vertexId ∧ m.Edge u w n) ((calculation rlsa).v :: c.popped) c.spf
  parents : ∀ u ∈ (calculation rlsa).v :: c.popped, u.m_vertexId ≠ c.v.m_vertexId → u.m_vertexType = .NetworkLSA →
    u.m_parents = [rlsa.m_linkStateId] ∨ rlsa.m_linkStateId ∉ u.m_parents

theorem Plain.not_tripled {c : Calculation} (h : Plain m root c) : ¬ m.Tripled root c := by
  rintro ⟨hnetwork, hparent, addr, haddr, w, hw, hstatus, hlinks⟩
  rcases h.network hnetwork with ⟨-, hone⟩ | ⟨hnot, -⟩
  · have hlength := hone addr haddr w hw hstatus
    omega
  · exact hnot (List.mem_of_mem_head? hparent)

/-- `SPFNext` of a plain turn looks at all edges of the vertex. -/
theorem Sighted.spfNext (hset : Setting m links rlsa) (hcost : m.CostsFit rlsa.m_linkStateId) {limit : Nat}
    (hlimit : 2 ≤ limit) {c : Calculation} (h : Sighted m links rlsa c) (hplain : Plain m rlsa.m_linkStateId c) :
    ∃ s, m.spfNext limit rlsa.m_linkStateId c.v c.spf = some s ∧
      Placed m rlsa.m_linkStateId m.Edge c.v.m_distanceFromRoot.toNat ((calculation rlsa).v :: c.popped) s ∧
      Aimed m links rlsa m.Edge ((calculation rlsa).v :: c.popped) s ∧
      ∀ u ∈ (calculation rlsa).v :: c.popped, u.m_vertexType = .NetworkLSA →
        u.m_parents = [rlsa.m_linkStateId] ∨ rlsa.m_linkStateId ∉ u.m_parents := by
  have hm := hset.consistent
  have hlsa := h.head.placed.lsa c.v (.inl h.head.mem)
  have hzero : ∀ u ∈ (calculation rlsa).v :: c.popped, u.m_vertexId = rlsa.m_linkStateId →
      u.m_distanceFromRoot.toNat = 0 := fun u hu hid => by
    rw [h.head.placed.eq_of_tree hu (List.mem_cons_self ..) hid]
    rfl
  have hlate : ∀ u ∈ (calculation rlsa).v :: c.popped, ∀ n, m.Edge c.v.m_vertexId u.m_vertexId n →
      c.v.m_distanceFromRoot.toNat + n ≠ u.m_distanceFromRoot.toNat := by
    intro u hu n hedge
    rcases List.mem_cons.mp hu with rfl | hu
    · exact (hplain.inTime n).2 hedge
    · exact (hplain.inTime n).1 u hu hedge
  have hparents : ∀ u ∈ (calculation rlsa).v :: c.popped, u.m_vertexType = .NetworkLSA →
      u.m_parents = [rlsa.m_linkStateId] ∨ rlsa.m_linkStateId ∉ u.m_parents := by
    intro u hu hnetwork
    by_cases hid : u.m_vertexId = c.v.m_vertexId
    · obtain rfl := h.head.placed.eq_of_tree hu h.head.mem hid
      exact (hplain.network hnetwork).imp And.left And.left
    · exact h.parents u hu hid hnetwork
  rw [GlobalRouteManager.spfNext]
  cases htype : c.v.m_vertexType with
  | RouterLSA =>
    obtain ⟨s, hs, hplaced, haimed⟩ := foldlM_done
      (I := fun Done s => Placed m rlsa.m_linkStateId Done c.v.m_distanceFromRoot.toNat
        ((calculation rlsa).v :: c.popped) s ∧ Aimed m links rlsa Done ((calculation rlsa).v :: c.popped) s)
      (fun hboth hdone => ⟨hboth.1.done fun _ => hdone, hboth.2.done hdone⟩)
      (fun (l : LinkRecord) y k => l.m_linkType ≠ .StubNetwork ∧ y = l.m_linkId ∧ k = l.m_metric.toNat)
      c.v.m_lsa.m_linkRecords (fun l hl Done s hboth => by
        obtain ⟨hp, ha⟩ := hboth
        obtain ⟨s', hs', hp'⟩ := hp.nextRecord hm hcost limit h.head.mem htype rfl hl
        exact ⟨s', hs', hp', ha.nextRecord hset hcost hp h.head.mem htype rfl (hzero c.v h.head.mem) hlate hl hs'⟩)
      ⟨h.head.placed, h.aimed⟩
    have hdone : ∀ {u w n}, m.Edge u w n → (u ≠ c.v.m_vertexId ∧ m.Edge u w n) ∨ u = c.v.m_vertexId ∧
        ∃ l ∈ c.v.m_lsa.m_linkRecords, l.m_linkType ≠ .StubNetwork ∧ w = l.m_linkId ∧ n = l.m_metric.toNat := by
      intro u w n hedge
      by_cases hu : u = c.v.m_vertexId
      · subst hu
        exact .inr ⟨rfl, hm.edge_of_router hlsa htype hedge⟩
      · exact .inl ⟨hu, hedge⟩
    exact ⟨s, hs, hplaced.done fun _ => hdone, haimed.done hdone, hparents⟩
  | NetworkLSA =>
    obtain ⟨s, hs, hplaced, haimed⟩ := foldlM_done
      (I := fun Done s => Placed m rlsa.m_linkStateId Done c.v.m_distanceFromRoot.toNat
        ((calculation rlsa).v :: c.popped) s ∧ Aimed m links rlsa Done ((calculation rlsa).v :: c.popped) s)
      (fun hboth hdone => ⟨hboth.1.done fun _ => hdone, hboth.2.done hdone⟩)
      (fun addr y k => ∃ w, m.getLSAByLinkData addr = some w ∧ y = w.m_linkStateId ∧ k = 0)
      c.v.m_lsa.m_attachedRouters (fun addr haddr Done s hboth => by
        obtain ⟨hp, ha⟩ := hboth
        have hin : ∀ x, s.status x = .LSA_SPF_IN_SPFTREE ↔ c.spf.status x = .LSA_SPF_IN_SPFTREE := fun x =>
          (hp.inTree x).trans (h.head.placed.inTree x).symm
        have hnet := (hplain.network htype).imp_left fun hboth => (⟨hboth.1, fun w hw hstatus =>
          hboth.2 addr haddr w hw (mt (hin _).mpr hstatus)⟩ : _ ∧ ∀ w ∈ m.getLSAByLinkData addr,
            s.status w.m_linkStateId ≠ .LSA_SPF_IN_SPFTREE → (linksTo c.v.m_vertexId w).length = 1)
        obtain ⟨s', hs', hp'⟩ := hp.nextAttached hm hcost ⟨rlsa, hset.mem, rfl, hset.router⟩ hlimit h.head.mem htype rfl
          haddr fun hparent hlinked => by
            obtain ⟨w, hw, hstatus, hlinks⟩ := hlinked
            exact hplain.not_tripled ⟨htype, hparent, addr, haddr, w, hw, mt (hin _).mpr hstatus, hlinks⟩
        exact ⟨s', hs', hp', ha.nextAttached hset hcost hp h.head.mem htype rfl hlate hlimit haddr hnet hs'⟩)
      ⟨h.head.placed, h.aimed⟩
    have hdone : ∀ {u w n}, m.Edge u w n → (u ≠ c.v.m_vertexId ∧ m.Edge u w n) ∨ u = c.v.m_vertexId ∧
        ∃ addr ∈ c.v.m_lsa.m_attachedRouters, ∃ w', m.getLSAByLinkData addr = some w' ∧ w = w'.m_linkStateId ∧ n = 0 := by
      intro u w n hedge
      by_cases hu : u = c.v.m_vertexId
      · subst hu
        exact .inr ⟨rfl, hm.edge_of_network hlsa htype hedge⟩
      · exact .inl ⟨hu, hedge⟩
    exact ⟨s, hs, hplaced.done fun _ => hdone, haimed.done hdone, hparents⟩

/-- The first candidate goes to the tree with its exit directions. -/
theorem Sighted.again {popped : List SPFVertex} {candidate : CandidateQueue}
    (hp : Placed m rlsa.m_linkStateId m.Edge last ((calculation rlsa).v :: popped) s)
    (h : Aimed m links rlsa m.Edge ((calculation rlsa).v :: popped) s)
    (hparents : ∀ u ∈ (calculation rlsa).v :: popped, u.m_vertexType = .NetworkLSA →
      u.m_parents = [rlsa.m_linkStateId] ∨ rlsa.m_linkStateId ∉ u.m_parents)
    (hordered : popped.Pairwise fun u w => u.m_distanceFromRoot.toNat ≤ w.m_distanceFromRoot.toNat)
    (hs : s.candidate = v :: candidate) :
    Sighted m links rlsa
      ⟨v, popped ++ [v], ⟨Function.update s.status v.m_vertexId .LSA_SPF_IN_SPFTREE, candidate⟩⟩ := by
  have htree : ∀ u ∈ (calculation rlsa).v :: (popped ++ [v]), u ∈ (calculation rlsa).v :: popped ∨ u = v := by
    intro u hu
    rw [← List.cons_append, List.mem_append, List.mem_singleton] at hu
    exact hu
  have hold : ∀ u, u ∈ (calculation rlsa).v :: (popped ++ [v]) ∨ u ∈ candidate →
      u ∈ (calculation rlsa).v :: popped ∨ u ∈ s.candidate := by
    rw [hs]
    rintro u (hu | hu)
    · rcases htree u hu with hu | rfl
      · exact .inl hu
      · exact .inr (List.mem_cons_self ..)
    · exact .inr (List.mem_cons_of_mem _ hu)
  refine ⟨hp.pop hordered hs, ⟨fun w hw => h.given w (hold w hw), ?_⟩, ?_⟩
  · rintro u hu w hw n ⟨hne, hedge⟩
    rcases htree u hu with hu | rfl
    · exact h.complete u hu w (hold w hw) n hedge
    · exact absurd rfl hne
  · intro u hu hne
    rcases htree u hu with hu | rfl
    · exact hparents u hu
    · exact absurd rfl hne

theorem Aimed.settled (hp : Placed m rlsa.m_linkStateId m.Edge last tree s) (h : Aimed m links rlsa m.Edge tree s)
    (hparents : ∀ u ∈ tree, u.m_vertexType = .NetworkLSA →
      u.m_parents = [rlsa.m_linkStateId] ∨ rlsa.m_linkStateId ∉ u.m_parents) (hs : s.candidate = []) :
    Settled m links rlsa tree where
  lsa := fun u hu => hp.lsa u (.inl hu)
  root := hp.frontier.source
  reached := fun hwalk => by
    obtain ⟨e, u, hu, hid, -⟩ := hp.frontier.reached (fun x e ⟨u, hu, _⟩ => by rw [hs] at hu; cases hu) hwalk
    exact ⟨u, hu, hid⟩
  least := fun u hu => hp.frontier.least ⟨u, hu, rfl, rfl⟩
  given := fun w hw => h.given w (.inl hw)
  complete := fun u hu w hw => h.complete u hu w (.inl hw)
  parents := hparents

/-- A run of plain turns finds the paths and their first hops. -/
theorem turns_sighted (hset : Setting m links rlsa) (hcost : m.CostsFit rlsa.m_linkStateId) {limit : Nat}
    (hlimit : 2 ≤ limit) {c : Calculation} (h : Sighted m links rlsa c) {n : Nat}
    (hn : m.m_lsdb.length ≤ n + c.popped.length)
    (heach : EachTurn (Plain m rlsa.m_linkStateId) (m.spfTurn limit rlsa.m_linkStateId) n c) :
    ∃ popped, turns (m.spfTurn limit rlsa.m_linkStateId) n c = some (some popped) ∧
      m.ShortestPaths rlsa.m_linkStateId popped ∧ ∀ w ∈ popped, ∀ e, e ∈ w.m_ecmpRootExits ↔
        FirstHop m links rlsa w.m_vertexId w.m_distanceFromRoot.toNat e := by
  induction n generalizing c with
  | zero =>
    have hlength := h.head.placed.length_le
    rw [List.length_cons] at hlength
    omega
  | succ n ih =>
    obtain ⟨hplain, hrest⟩ := heach
    obtain ⟨s, hs, hplaced, haimed, hparents⟩ := h.spfNext hset hcost hlimit hplain
    rw [turns]
    cases hcand : s.candidate with
    | nil =>
      have hturn : m.spfTurn limit rlsa.m_linkStateId c = .leave (some c.popped) := by
        rw [spfTurn, hs]
        dsimp only
        rw [hcand]
      rw [hturn]
      have hpaths := hplaced.shortestPaths rfl h.head.ordered hcand
      refine ⟨c.popped, rfl, hpaths, fun w hw e => ?_⟩
      exact (haimed.settled hplaced hparents hcand).firstHop hset (List.mem_cons_of_mem _ hw)
        ((hpaths.all _).mp ⟨w, hw, rfl⟩).1
    | cons v candidate =>
      have hturn : m.spfTurn limit rlsa.m_linkStateId c = .again ⟨v, c.popped ++ [v],
          ⟨Function.update s.status v.m_vertexId .LSA_SPF_IN_SPFTREE, candidate⟩⟩ := by
        rw [spfTurn, hs]
        dsimp only
        rw [hcand]
      rw [hturn] at hrest ⊢
      exact ih (Sighted.again hplaced haimed hparents h.head.ordered hcand)
        (by rw [List.length_append, List.length_singleton]; omega) hrest

end

end

/-- The routers 1 and 2 with links between them. -/
def besideRouter (records back : List LinkRecord) (nNodes : Nat) : GlobalRouteManager where
  m_lsdb :=
    [{ m_lsType := .RouterLSA, m_linkStateId := 1, m_linkRecords := records },
      { m_lsType := .RouterLSA, m_linkStateId := 2, m_linkRecords := back }]
  nNodes := nNodes
  findOutgoingInterfaceId := fun a _ => if a = 11 then 1 else 2
  pointer := UInt32.toNat

/-- The links from 11 to 12 and from 13 to 14. -/
def twoLinks : Links where
  peer := fun a => a + 1
  owner := fun a => if a = 11 then 1 else 2

end Ns3.Internet.GlobalRouteManager
