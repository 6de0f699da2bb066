import Ns3.Internet.GlobalRouteManager
import Ns3.Lib.ShortestPath
import Mathlib.Tactic.FinCases

/-!
# The shortest paths of global routing

Over a consistent link-state database `SPFCalculate` pops every vertex that can be reached, each once and with its least
cost, unless a router with three links to a network next to the root keeps it busy forever.
-/

namespace Ns3.Internet.GlobalRouteManager

open Ns3.Lib

/-- The edges of the LSA graph. -/
inductive Edge (m : GlobalRouteManager) : UInt32 → UInt32 → Nat → Prop
  | record {lsa : RoutingLSA} {l : LinkRecord} (hlsa : lsa ∈ m.m_lsdb) (hrouter : lsa.m_lsType = .RouterLSA)
      (hl : l ∈ lsa.m_linkRecords) (hlink : l.m_linkType ≠ .StubNetwork) :
    Edge m lsa.m_linkStateId l.m_linkId l.m_metric.toNat
  | attached {lsa w : RoutingLSA} {addr : UInt32} (hlsa : lsa ∈ m.m_lsdb) (hnetwork : lsa.m_lsType = .NetworkLSA)
      (haddr : addr ∈ lsa.m_attachedRouters) (hw : m.getLSAByLinkData addr = some w) :
    Edge m lsa.m_linkStateId w.m_linkStateId 0

/-- The other end of a record is in the database, and a point-to-point link or an attached router has a link back. -/
structure Consistent (m : GlobalRouteManager) : Prop where
  ids : (m.m_lsdb.map RoutingLSA.m_linkStateId).Nodup
  records : ∀ lsa ∈ m.m_lsdb, lsa.m_lsType = .RouterLSA → ∀ l ∈ lsa.m_linkRecords, l.m_linkType = .StubNetwork ∨
    ∃ w ∈ m.m_lsdb, w.m_linkStateId = l.m_linkId ∧
      (l.m_linkType = .PointToPoint ∧ w.m_lsType = .RouterLSA ∧
          (∃ back ∈ w.m_linkRecords, back.m_linkType = .PointToPoint ∧ back.m_linkId = lsa.m_linkStateId) ∨
        l.m_linkType = .TransitNetwork ∧ w.m_lsType = .NetworkLSA)
  attached : ∀ lsa ∈ m.m_lsdb, lsa.m_lsType = .NetworkLSA → ∀ addr ∈ lsa.m_attachedRouters,
    ∀ w ∈ m.getLSAByLinkData addr, w.m_lsType = .RouterLSA ∧
      ∃ back ∈ w.m_linkRecords, back.m_linkType = .TransitNetwork ∧ back.m_linkId = lsa.m_linkStateId

/-- The costs of paths fit the distance of a vertex. -/
def CostsFit (m : GlobalRouteManager) (root : UInt32) : Prop :=
  ∀ vs w c, Trail m.Edge root vs w c → c < 2 ^ 32

/-- The vertices of a list, with their distances. -/
def At (vertices : List SPFVertex) (x : UInt32) (d : Nat) : Prop :=
  ∃ u ∈ vertices, u.m_vertexId = x ∧ u.m_distanceFromRoot.toNat = d

/-- The statuses and candidates are those of the frontier of the tree, when the edges `Done` have been looked at. -/
structure Placed (m : GlobalRouteManager) (root : UInt32) (Done : UInt32 → UInt32 → Nat → Prop) (last : Nat)
    (tree : List SPFVertex) (s : SPF) : Prop where
  ids : ((tree ++ s.candidate).map SPFVertex.m_vertexId).Nodup
  inTree : ∀ x, s.status x = .LSA_SPF_IN_SPFTREE ↔ ∃ u ∈ tree, u.m_vertexId = x
  isCandidate : ∀ x, s.status x = .LSA_SPF_CANDIDATE ↔ ∃ u ∈ s.candidate, u.m_vertexId = x
  lsa : ∀ u, u ∈ tree ∨ u ∈ s.candidate → u.m_lsa ∈ m.m_lsdb
  exits : ∀ u, u ∈ tree ∨ u ∈ s.candidate → u.m_vertexId = root ∨ u.m_ecmpRootExits ≠ []
  sorted : CandidateQueue.Sorted s.candidate
  frontier : Frontier m.Edge Done root last (At tree) (At s.candidate)

section

variable {m : GlobalRouteManager} {root : UInt32} {Done : UInt32 → UInt32 → Nat → Prop} {last : Nat}
  {tree : List SPFVertex} {s : SPF}

theorem mem_of_getLSA {addr : UInt32} {lsa : RoutingLSA} (h : m.getLSA addr = some lsa) :
    lsa ∈ m.m_lsdb ∧ lsa.m_linkStateId = addr := by
  rw [getLSA] at h
  exact ⟨List.mem_of_find?_eq_some h, by simpa using List.find?_some h⟩

theorem Consistent.eq_of_id (hm : m.Consistent) {lsa w : RoutingLSA} (hlsa : lsa ∈ m.m_lsdb) (hw : w ∈ m.m_lsdb)
    (hid : lsa.m_linkStateId = w.m_linkStateId) : lsa = w :=
  List.inj_on_of_nodup_map hm.ids hlsa hw hid

theorem Consistent.getLSA (hm : m.Consistent) {lsa : RoutingLSA} (hlsa : lsa ∈ m.m_lsdb) :
    m.getLSA lsa.m_linkStateId = some lsa := by
  have hsome : (m.getLSA lsa.m_linkStateId).isSome :=
    List.find?_isSome.mpr ⟨lsa, hlsa, decide_eq_true rfl⟩
  obtain ⟨w, hw⟩ := Option.isSome_iff_exists.mp hsome
  obtain ⟨hmem, hid⟩ := mem_of_getLSA hw
  rw [hw, hm.eq_of_id hmem hlsa hid]

theorem mem_of_getLSAByLinkData {addr : UInt32} {lsa : RoutingLSA} (h : m.getLSAByLinkData addr = some lsa) :
    lsa ∈ m.m_lsdb := List.mem_of_find?_eq_some h

theorem Consistent.edge_of_router (hm : m.Consistent) {lsa : RoutingLSA} (hlsa : lsa ∈ m.m_lsdb)
    (hrouter : lsa.m_lsType = .RouterLSA) {w : UInt32} {k : Nat} (hedge : m.Edge lsa.m_linkStateId w k) :
    ∃ l ∈ lsa.m_linkRecords, l.m_linkType ≠ .StubNetwork ∧ w = l.m_linkId ∧ k = l.m_metric.toNat := by
  generalize hid : lsa.m_linkStateId = v at hedge
  cases hedge with
  | record hmem _ hl hlink =>
    obtain rfl := hm.eq_of_id hlsa hmem hid
    exact ⟨_, hl, hlink, rfl, rfl⟩
  | attached hmem hnetwork _ _ =>
    rw [hm.eq_of_id hlsa hmem hid, hnetwork] at hrouter
    cases hrouter

theorem Consistent.edge_of_network (hm : m.Consistent) {lsa : RoutingLSA} (hlsa : lsa ∈ m.m_lsdb)
    (hnetwork : lsa.m_lsType = .NetworkLSA) {w : UInt32} {k : Nat} (hedge : m.Edge lsa.m_linkStateId w k) :
    ∃ addr ∈ lsa.m_attachedRouters, ∃ w', m.getLSAByLinkData addr = some w' ∧ w = w'.m_linkStateId ∧ k = 0 := by
  generalize hid : lsa.m_linkStateId = v at hedge
  cases hedge with
  | record hmem hrouter _ _ =>
    rw [hm.eq_of_id hlsa hmem hid, hrouter] at hnetwork
    cases hnetwork
  | attached hmem _ haddr hw =>
    obtain rfl := hm.eq_of_id hlsa hmem hid
    exact ⟨_, haddr, _, hw, rfl, rfl⟩

/-- A vertex is put among the candidates, or in the place of the one it was. -/
theorem Placed.put (h : Placed m root Done last tree s) {v : UInt32} (hv : At tree v last) {w : SPFVertex} {k : Nat}
    (hedge : m.Edge v w.m_vertexId k) (hlsa : w.m_lsa ∈ m.m_lsdb) (hexits : w.m_ecmpRootExits ≠ [])
    (hnew : ∀ u ∈ tree, u.m_vertexId ≠ w.m_vertexId) {candidate : CandidateQueue}
    (hmem : ∀ u, u ∈ candidate ↔ u = w ∨ u ∈ s.candidate ∧ u.m_vertexId ≠ w.m_vertexId)
    (hnodup : (candidate.map SPFVertex.m_vertexId).Nodup) (hsorted : CandidateQueue.Sorted candidate)
    (hfrom : w.m_distanceFromRoot.toNat = last + k ∨ At s.candidate w.m_vertexId w.m_distanceFromRoot.toNat)
    (hle : w.m_distanceFromRoot.toNat ≤ last + k)
    (hless : ∀ u ∈ s.candidate, u.m_vertexId = w.m_vertexId →
      w.m_distanceFromRoot.toNat ≤ u.m_distanceFromRoot.toNat) :
    Placed m root (fun x y c => Done x y c ∨ x = v ∧ y = w.m_vertexId ∧ c = k) last tree
      ⟨Function.update s.status w.m_vertexId .LSA_SPF_CANDIDATE, candidate⟩ := by
  have hold : ∀ u, u ∈ tree ∨ u ∈ candidate → (u ∈ tree ∨ u ∈ s.candidate) ∨ u = w := by
    rintro u (hu | hu)
    · exact .inl (.inl hu)
    · exact ((hmem u).mp hu).elim .inr fun hu => .inl (.inr hu.1)
  refine ⟨?_, fun x => ?_, fun x => ?_, fun u hu => ?_, fun u hu => ?_, hsorted, ?_⟩
  · have hids := h.ids
    rw [List.map_append, List.nodup_append] at hids ⊢
    refine ⟨hids.1, hnodup, ?_⟩
    intro x hx y hy hxy
    obtain ⟨u, hu, rfl⟩ := List.mem_map.mp hx
    obtain ⟨u', hu', rfl⟩ := List.mem_map.mp hy
    rcases (hmem u').mp hu' with rfl | ⟨hcand, -⟩
    · exact hnew u hu hxy
    · exact hids.2.2 _ hx _ (List.mem_map_of_mem hcand) hxy
  · dsimp only
    by_cases hx : x = w.m_vertexId
    · rw [hx, Function.update_self]
      refine iff_of_false (by decide) ?_
      rintro ⟨u, hu, hid⟩
      exact hnew u hu hid
    · rw [Function.update_of_ne hx]
      exact h.inTree x
  · dsimp only
    by_cases hx : x = w.m_vertexId
    · rw [hx, Function.update_self]
      exact iff_of_true rfl ⟨w, (hmem w).mpr (.inl rfl), rfl⟩
    · rw [Function.update_of_ne hx, h.isCandidate]
      constructor
      · rintro ⟨u, hu, rfl⟩
        exact ⟨u, (hmem u).mpr (.inr ⟨hu, hx⟩), rfl⟩
      · rintro ⟨u, hu, rfl⟩
        rcases (hmem u).mp hu with rfl | ⟨hu, -⟩
        · exact absurd rfl hx
        · exact ⟨u, hu, rfl⟩
  · rcases hold u hu with hu | rfl
    · exact h.lsa u hu
    · exact hlsa
  · rcases hold u hu with hu | rfl
    · exact h.exits u hu
    · exact .inr hexits
  · refine h.frontier.relax hv hedge (fun {x e} hx => ?_) (fun {e} hcand => ?_) (fun {e} hcand => ?_)
      (.inr ⟨_, ⟨w, (hmem w).mpr (.inl rfl), rfl, rfl⟩, hle⟩)
    · constructor
      · rintro ⟨u, hu, rfl, rfl⟩
        rcases (hmem u).mp hu with rfl | ⟨hu, -⟩
        · exact absurd rfl hx
        · exact ⟨u, hu, rfl, rfl⟩
      · rintro ⟨u, hu, rfl, rfl⟩
        exact ⟨u, (hmem u).mpr (.inr ⟨hu, hx⟩), rfl, rfl⟩
    · obtain ⟨u, hu, hid, rfl⟩ := hcand
      rcases (hmem u).mp hu with rfl | ⟨-, hne⟩
      · refine hfrom.symm.imp_right fun heq => ⟨heq, ?_⟩
        rintro e ⟨u', hu', hid', -⟩
        exact hnew u' hu' hid'
      · exact absurd hid hne
    · obtain ⟨u, hu, hid, rfl⟩ := hcand
      exact ⟨_, ⟨w, (hmem w).mpr (.inl rfl), rfl, rfl⟩, hless u hu hid⟩

/-- Nothing is put where the vertex is in the tree, or near enough among the candidates. -/
theorem Placed.keep (h : Placed m root Done last tree s) {v w : UInt32} (hv : At tree v last) {k : Nat}
    (hedge : m.Edge v w k) (hfound : (∃ e, At tree w e) ∨ ∃ e, At s.candidate w e ∧ e ≤ last + k) :
    Placed m root (fun x y c => Done x y c ∨ x = v ∧ y = w ∧ c = k) last tree s :=
  { h with frontier := h.frontier.relax hv hedge (fun _ => Iff.rfl) .inl (fun hcand => ⟨_, hcand, Nat.le_refl _⟩) hfound }

theorem Placed.not_inTree (h : Placed m root Done last tree s) {x : UInt32}
    (hstatus : s.status x ≠ .LSA_SPF_IN_SPFTREE) : ∀ u ∈ tree, u.m_vertexId ≠ x :=
  fun u hu hid => hstatus ((h.inTree x).mpr ⟨u, hu, hid⟩)

theorem Placed.nodup (h : Placed m root Done last tree s) : (s.candidate.map SPFVertex.m_vertexId).Nodup := by
  have hids := h.ids
  rw [List.map_append] at hids
  exact (List.nodup_append.mp hids).2.1

/-- A candidate is the only one with its id. -/
theorem Placed.eq_of_id (h : Placed m root Done last tree s) {u w : SPFVertex} (hu : u ∈ s.candidate)
    (hw : w ∈ s.candidate) (hid : u.m_vertexId = w.m_vertexId) : u = w := List.inj_on_of_nodup_map h.nodup hu hw hid

theorem spfNexthopCalculation_eq {limit : Nat} {v w w' : SPFVertex} {l : Option LinkRecord} {distance : UInt32}
    (h : m.nextHops limit root v w l = some w') : m.spfNexthopCalculation limit root v w l distance =
      some { w' with m_distanceFromRoot := distance, m_parents := [v.m_vertexId] } := by
  rw [spfNexthopCalculation, h]
  rfl

/-- Where a next hop is found for an LSA that is not in the tree, `SPFNext` looks at the edge to it. -/
theorem Placed.examine (hm : m.Consistent) (hcost : m.CostsFit root) (h : Placed m root Done last tree s) (limit : Nat) {v : SPFVertex}
    (hv : v ∈ tree) (hlast : v.m_distanceFromRoot.toNat = last) {w_lsa : RoutingLSA} (hw : w_lsa ∈ m.m_lsdb)
    {l : Option LinkRecord} {k : Nat} (hedge : m.Edge v.m_vertexId w_lsa.m_linkStateId k)
    (hdistance : (distance v l).toNat = (last + k) % 2 ^ 32)
    (hhops : s.status w_lsa.m_linkStateId ≠ .LSA_SPF_IN_SPFTREE → ∀ w : SPFVertex, w.m_lsa = w_lsa →
      ∃ w', m.nextHops limit root v w l = some w' ∧ w'.m_lsa = w_lsa ∧ w'.m_ecmpRootExits ≠ []) :
    ∃ s', m.examine limit root v l w_lsa s = some s' ∧
      Placed m root (fun x y c => Done x y c ∨ x = v.m_vertexId ∧ y = w_lsa.m_linkStateId ∧ c = k) last tree s' := by
  have hat : At tree v.m_vertexId last := ⟨v, hv, rfl, hlast⟩
  rw [GlobalRouteManager.examine]
  cases hstatus : s.status w_lsa.m_linkStateId with
  | LSA_SPF_IN_SPFTREE =>
    obtain ⟨u, hu, hid⟩ := (h.inTree _).mp hstatus
    exact ⟨s, rfl, h.keep hat hedge (.inl ⟨_, u, hu, hid, rfl⟩)⟩
  | LSA_SPF_NOT_EXPLORED =>
    have hne : s.status w_lsa.m_linkStateId ≠ .LSA_SPF_IN_SPFTREE := by rw [hstatus]; exact nofun
    have hnew := h.not_inTree hne
    have hfit : (distance v l).toNat = last + k := by
      obtain ⟨vs, htrail, -⟩ := h.frontier.extend hat hedge fun e ⟨u, hu, hid, _⟩ => hnew u hu hid
      rw [hdistance, Nat.mod_eq_of_lt (hcost _ _ _ htrail)]
    obtain ⟨w, hhop, hlsa, hexits⟩ := hhops hne { m_lsa := w_lsa } rfl
    dsimp only
    rw [spfNexthopCalculation_eq hhop, Option.map_some]
    refine ⟨_, rfl, ?_⟩
    obtain rfl : w.m_lsa = w_lsa := hlsa
    have hfresh : ∀ u ∈ s.candidate, u.m_vertexId ≠ w.m_lsa.m_linkStateId := fun u hu hid => by
      have hcand := (h.isCandidate w.m_lsa.m_linkStateId).mpr ⟨u, hu, hid⟩
      rw [hstatus] at hcand
      cases hcand
    generalize hw' : ({ w with m_distanceFromRoot := distance v l, m_parents := [v.m_vertexId] } : SPFVertex) = w'
    have hid : w'.m_vertexId = w.m_lsa.m_linkStateId := by rw [← hw']; rfl
    have hdist : w'.m_distanceFromRoot.toNat = last + k := by rw [← hw']; exact hfit
    rw [← hid] at hedge hnew hfresh ⊢
    have hperm := CandidateQueue.push_perm w' s.candidate
    refine h.put hat hedge (by rw [← hw']; exact hw) (by rw [← hw']; exact hexits) hnew (fun u => ?_) ?_
      (CandidateQueue.push_sorted w' h.sorted) (.inl hdist) (Nat.le_of_eq hdist) fun u hu huid => absurd huid (hfresh u hu)
    · rw [hperm.mem_iff, List.mem_cons]
      exact or_congr_right ⟨fun hu => ⟨hu, hfresh u hu⟩, And.left⟩
    · rw [(hperm.map _).nodup_iff, List.map_cons, List.nodup_cons]
      refine ⟨fun hmem => ?_, h.nodup⟩
      obtain ⟨u, hu, huid⟩ := List.mem_map.mp hmem
      exact hfresh u hu huid
  | LSA_SPF_CANDIDATE =>
    have hne : s.status w_lsa.m_linkStateId ≠ .LSA_SPF_IN_SPFTREE := by rw [hstatus]; exact nofun
    have hnew := h.not_inTree hne
    have hfit : (distance v l).toNat = last + k := by
      obtain ⟨vs, htrail, -⟩ := h.frontier.extend hat hedge fun e ⟨u, hu, hid, _⟩ => hnew u hu hid
      rw [hdistance, Nat.mod_eq_of_lt (hcost _ _ _ htrail)]
    obtain ⟨cw, hfind⟩ := CandidateQueue.exists_find ((h.isCandidate _).mp hstatus)
    obtain ⟨hcw, hcwid⟩ := CandidateQueue.mem_of_find hfind
    dsimp only
    rw [hfind, Option.bind_some]
    have hcwlsa : cw.m_lsa = w_lsa := hm.eq_of_id (h.lsa cw (.inr hcw)) hw hcwid
    have hsame : ∀ u ∈ s.candidate, u.m_vertexId = w_lsa.m_linkStateId → u = cw := fun u hu hid =>
      h.eq_of_id hu hcw (hid.trans hcwid.symm)
    have hupdate : Function.update s.status w_lsa.m_linkStateId .LSA_SPF_CANDIDATE = s.status := by
      rw [← hstatus, Function.update_eq_self]
    -- a vertex in the place of the candidate
    have hplace : ∀ {w' : SPFVertex} {candidate : CandidateQueue}, w'.m_lsa = w_lsa → w'.m_ecmpRootExits ≠ [] →
        w'.m_distanceFromRoot = distance v l → distance v l ≤ cw.m_distanceFromRoot →
        candidate.Perm (CandidateQueue.update w' s.candidate) → CandidateQueue.Sorted candidate →
        Placed m root (fun x y c => Done x y c ∨ x = v.m_vertexId ∧ y = w_lsa.m_linkStateId ∧ c = k) last tree
          ⟨s.status, candidate⟩ := by
      intro w' candidate hlsa hexits hdist hle hperm hsorted
      subst hlsa
      rw [UInt32.le_iff_toNat_le, ← hdist] at hle
      rw [← hdist] at hfit
      rw [← hupdate]
      refine h.put hat hedge hw hexits hnew (fun u => ?_) ?_ hsorted (.inl hfit) (Nat.le_of_eq hfit)
        fun u hu hid => by rw [hsame u hu hid]; exact hle
      · rw [hperm.mem_iff]
        exact CandidateQueue.mem_update ⟨cw, hcw, hcwid⟩
      · rw [(hperm.map _).nodup_iff, CandidateQueue.update_ids]
        exact h.nodup
    by_cases hlt : cw.m_distanceFromRoot < distance v l
    · rw [if_pos hlt]
      rw [UInt32.lt_iff_toNat_lt] at hlt
      exact ⟨s, rfl, h.keep hat hedge (.inr ⟨_, ⟨cw, hcw, hcwid, rfl⟩, by omega⟩)⟩
    rw [if_neg hlt]
    have hle : distance v l ≤ cw.m_distanceFromRoot := UInt32.not_lt.mp hlt
    by_cases heq : cw.m_distanceFromRoot = distance v l
    · rw [if_pos heq]
      obtain ⟨w, hhop, hlsa, hexits⟩ := hhops hne { m_lsa := w_lsa } rfl
      rw [spfNexthopCalculation_eq hhop, Option.map_some]
      refine ⟨_, rfl, hplace (by exact hcwlsa) ?_ (by exact heq) hle (.refl _)
        (CandidateQueue.update_sorted h.sorted fun u hu hid => ?_)⟩
      · obtain ⟨exit, hexit⟩ := List.exists_mem_of_ne_nil _ hexits
        refine List.ne_nil_of_mem ((mem_uniqueRuns _).mpr ((List.mem_insertionSort _).mpr (List.mem_append_right _ hexit)))
      · rw [hsame u hu (hid.trans hcwid)]
        exact SPFVertex.key_congr rfl rfl
    · rw [if_neg heq]
      obtain ⟨w, hhop, hlsa, hexits⟩ := hhops hne cw hcwlsa
      rw [spfNexthopCalculation_eq hhop, Option.map_some]
      exact ⟨_, rfl, hplace (by exact hlsa) (by exact hexits) rfl hle (CandidateQueue.reorder_perm _)
        (CandidateQueue.reorder_sorted _)⟩

theorem Placed.done {Done' : UInt32 → UInt32 → Nat → Prop} (h : Placed m root Done last tree s)
    (hdone : ∀ {v d w k}, At tree v d → Done' v w k → Done v w k) : Placed m root Done' last tree s :=
  { h with frontier := h.frontier.done hdone }

/-- A loop whose turns look at an edge each looks at all of them. -/
theorem foldlM_done {α : Type*} {f : SPF → α → Option SPF} {I : (UInt32 → UInt32 → Nat → Prop) → SPF → Prop}
    (hmono : ∀ {Done Done' s}, I Done s → (∀ {v w k}, Done' v w k → Done v w k) → I Done' s)
    (target : α → UInt32 → Nat → Prop) {v : UInt32} (records : List α)
    (hstep : ∀ a ∈ records, ∀ Done s, I Done s → ∃ s', f s a = some s' ∧
      I (fun x y c => Done x y c ∨ x = v ∧ target a y c) s')
    (h : I Done s) :
    ∃ s', records.foldlM f s = some s' ∧ I (fun x y c => Done x y c ∨ x = v ∧ ∃ a ∈ records, target a y c) s' := by
  induction records generalizing Done s with
  | nil =>
    refine ⟨s, rfl, hmono h fun hdone => hdone.resolve_right ?_⟩
    rintro ⟨-, a, ha, -⟩
    exact absurd ha List.not_mem_nil
  | cons a records ih =>
    obtain ⟨s₁, hs₁, h₁⟩ := hstep a (List.mem_cons_self ..) Done s h
    obtain ⟨s', hs', h'⟩ := ih (fun b hb => hstep b (List.mem_cons_of_mem _ hb)) h₁
    refine ⟨s', by rw [List.foldlM_cons, hs₁]; exact hs', hmono h' fun hdone => ?_⟩
    rcases hdone with hdone | ⟨hx, b, hb, htarget⟩
    · exact .inl (.inl hdone)
    · rcases List.mem_cons.mp hb with rfl | hb
      · exact .inl (.inr ⟨hx, htarget⟩)
      · exact .inr ⟨hx, b, hb, htarget⟩

/-! ### The records of a vertex -/

/-- The distance over a link record. -/
theorem toNat_distance {v : SPFVertex} (hrouter : v.m_vertexType = .RouterLSA)
    (hlast : v.m_distanceFromRoot.toNat = last) (l : LinkRecord) :
    (distance v (some l)).toNat = (last + l.m_metric.toNat) % 2 ^ 32 := by
  rw [distance_some hrouter, UInt32.toNat_add, hlast, UInt16.toNat_toUInt32]

/-- A record that is not of a stub network leads to the LSA at its other end. -/
theorem nextRecord_eq (hm : m.Consistent) {v : SPFVertex} (hv : v.m_lsa ∈ m.m_lsdb)
    (hrouter : v.m_vertexType = .RouterLSA) {l : LinkRecord} (hl : l ∈ v.m_lsa.m_linkRecords)
    (hlink : l.m_linkType ≠ .StubNetwork) {w_lsa : RoutingLSA} (hw : w_lsa ∈ m.m_lsdb)
    (hid : w_lsa.m_linkStateId = l.m_linkId) {limit : Nat} :
    m.nextRecord limit root v s l = m.examine limit root v (some l) w_lsa s := by
  have hget : m.getLSA l.m_linkId = some w_lsa := by rw [← hid, hm.getLSA hw]
  obtain ⟨_, _, _, hends⟩ := (hm.records v.m_lsa hv hrouter l hl).resolve_left hlink
  rw [nextRecord]
  rcases hends with ⟨htype, -⟩ | ⟨htype, -⟩
  · rw [htype]
    dsimp only
    rw [hget, Option.bind_some]
  · rw [htype]
    dsimp only
    rw [hget, Option.bind_some]

/-- The root is a router of the database. -/
def IsRouter (m : GlobalRouteManager) (root : UInt32) : Prop :=
  ∃ rlsa ∈ m.m_lsdb, rlsa.m_linkStateId = root ∧ rlsa.m_lsType = .RouterLSA

theorem linksTo_ne_nil {id : UInt32} {w : RoutingLSA} (h : ∃ back ∈ w.m_linkRecords, back.m_linkId = id) :
    linksTo id w ≠ [] := by
  obtain ⟨back, hback, hid⟩ := h
  exact List.ne_nil_of_mem (List.mem_filter.mpr ⟨hback, decide_eq_true hid⟩)

/-- The next hop for a link of a router. -/
theorem Placed.nextHops_record (hm : m.Consistent) (h : Placed m root Done last tree s) (limit : Nat) {v : SPFVertex}
    (hv : v ∈ tree) (hrouter : v.m_vertexType = .RouterLSA) {l : LinkRecord} (hl : l ∈ v.m_lsa.m_linkRecords)
    (hlink : l.m_linkType ≠ .StubNetwork) {w : SPFVertex} (hw : w.m_lsa ∈ m.m_lsdb) (hid : w.m_vertexId = l.m_linkId) :
    ∃ w', m.nextHops limit root v w (some l) = some w' ∧ w'.m_lsa = w.m_lsa ∧ w'.m_ecmpRootExits ≠ [] := by
  rw [nextHops]
  by_cases hroot : v.m_vertexId = root
  · rw [if_pos hroot]
    cases htype : w.m_vertexType with
    | NetworkLSA => exact ⟨_, rfl, rfl, List.cons_ne_nil _ _⟩
    | RouterLSA =>
      obtain ⟨w₀, hw₀, hw₀id, hends⟩ :=
        (hm.records v.m_lsa (h.lsa v (.inl hv)) hrouter l hl).resolve_left hlink
      obtain rfl := hm.eq_of_id hw₀ hw (hw₀id.trans hid.symm)
      obtain ⟨-, -, back, hback, -, hbackid⟩ := hends.resolve_right fun hnetwork => by
        have hboth := htype.symm.trans hnetwork.2
        cases hboth
      obtain ⟨first, rest, hlinks⟩ := List.exists_cons_of_ne_nil (linksTo_ne_nil ⟨back, hback, hbackid⟩)
      have hnext : spfGetNextLink w v none = some first := by
        rw [spfGetNextLink_eq, SPFVertex.m_vertexId, hlinks]
        rfl
      dsimp only
      rw [Option.bind_some, hnext, Option.map_some]
      exact ⟨_, rfl, rfl, List.cons_ne_nil _ _⟩
  · rw [if_neg hroot, if_neg (by rw [hrouter]; decide)]
    exact ⟨_, rfl, rfl, (h.exits v (.inl hv)).resolve_left hroot⟩

/-- A network in the tree has an exit direction. -/
theorem Placed.exit (hm : m.Consistent) (hroot : m.IsRouter root) (h : Placed m root Done last tree s) {v : SPFVertex}
    (hv : v ∈ tree) (hnetwork : v.m_vertexType = .NetworkLSA) :
    v.m_vertexId ≠ root ∧ ∃ exit, v.m_ecmpRootExits.head? = some exit := by
  have hne : v.m_vertexId ≠ root := by
    obtain ⟨rlsa, hrlsa, hid, hrouter⟩ := hroot
    intro heq
    have hlsa := hm.eq_of_id hrlsa (h.lsa v (.inl hv)) (hid.trans heq.symm)
    rw [hlsa] at hrouter
    have hboth := hrouter.symm.trans hnetwork
    cases hboth
  obtain ⟨exit, exits, hexits⟩ := List.exists_cons_of_ne_nil ((h.exits v (.inl hv)).resolve_left hne)
  exact ⟨hne, exit, by rw [hexits]; rfl⟩

/-- The next hop for an attached router, which does not have three links to a network next to the root. -/
theorem Placed.nextHops_attached (hm : m.Consistent) (hroot : m.IsRouter root) (h : Placed m root Done last tree s)
    {limit : Nat} (hlimit : 2 ≤ limit) {v : SPFVertex} (hv : v ∈ tree) (hnetwork : v.m_vertexType = .NetworkLSA)
    {w : SPFVertex} (hback : ∃ back ∈ w.m_lsa.m_linkRecords, back.m_linkId = v.m_vertexId)
    (hfew : v.m_parents.head? = some root → (linksTo v.m_vertexId w.m_lsa).length < 3) :
    ∃ w', m.nextHops limit root v w none = some w' ∧ w'.m_lsa = w.m_lsa ∧ w'.m_ecmpRootExits ≠ [] := by
  obtain ⟨hne, exit, hexit⟩ := h.exit hm hroot hv hnetwork
  rw [nextHops, if_neg hne, if_pos hnetwork]
  by_cases hparent : v.m_parents.head? = some root
  · obtain ⟨first, rest, hlinks⟩ := List.exists_cons_of_ne_nil (linksTo_ne_nil hback)
    have hless := hfew hparent
    rw [hlinks, List.length_cons] at hless
    rw [if_pos hparent, turns_linkTurn hlinks (by omega) hexit hlimit]
    exact ⟨_, rfl, rfl, List.cons_ne_nil _ _⟩
  · rw [if_neg hparent, hexit]
    exact ⟨_, rfl, rfl, List.cons_ne_nil _ _⟩

/-- The attached router is not in the tree and has three links to the network. -/
def Busy (m : GlobalRouteManager) (v : SPFVertex) (s : SPF) (addr : UInt32) : Prop :=
  ∃ w, m.getLSAByLinkData addr = some w ∧ s.status w.m_linkStateId ≠ .LSA_SPF_IN_SPFTREE ∧
    3 ≤ (linksTo v.m_vertexId w).length

/-- `SPFNext` never gets past such a router, where the root is the network's first parent. -/
theorem Placed.nextAttached_busy (hm : m.Consistent) (hroot : m.IsRouter root) (h : Placed m root Done last tree s)
    (limit : Nat) {v : SPFVertex} (hv : v ∈ tree) (hnetwork : v.m_vertexType = .NetworkLSA)
    (hlast : v.m_distanceFromRoot.toNat = last) (hparent : v.m_parents.head? = some root) {addr : UInt32}
    (hbusy : m.Busy v s addr) : m.nextAttached limit root v s addr = none := by
  obtain ⟨w_lsa, hw, hstatus, hlinks⟩ := hbusy
  obtain ⟨hne, exit, hexit⟩ := h.exit hm hroot hv hnetwork
  have hhops : ∀ w : SPFVertex, w.m_lsa = w_lsa → ∀ d, m.spfNexthopCalculation limit root v w none d = none := by
    intro w hlsa d
    rw [spfNexthopCalculation, nextHops, if_neg hne, if_pos hnetwork, if_pos hparent,
      diverges_linkTurn (by rw [hlsa]; exact hlinks) hexit limit]
    rfl
  rw [nextAttached, hw]
  dsimp only
  rw [GlobalRouteManager.examine]
  cases hcase : s.status w_lsa.m_linkStateId with
  | LSA_SPF_IN_SPFTREE => exact absurd hcase hstatus
  | LSA_SPF_NOT_EXPLORED =>
    dsimp only
    rw [hhops { m_lsa := w_lsa } rfl]
    rfl
  | LSA_SPF_CANDIDATE =>
    obtain ⟨cw, hfind⟩ := CandidateQueue.exists_find ((h.isCandidate _).mp hcase)
    obtain ⟨hcw, hcwid⟩ := CandidateQueue.mem_of_find hfind
    have hcwlsa : cw.m_lsa = w_lsa := hm.eq_of_id (h.lsa cw (.inr hcw)) (mem_of_getLSAByLinkData hw) hcwid
    have hnear : ¬ cw.m_distanceFromRoot < distance v none := by
      rw [distance_none, UInt32.lt_iff_toNat_lt, hlast, Nat.not_lt]
      exact h.frontier.last_le ⟨cw, hcw, rfl, rfl⟩
    dsimp only
    rw [hfind, Option.bind_some, if_neg hnear, hhops { m_lsa := w_lsa } rfl, hhops cw hcwlsa]
    split <;> rfl

/-- One of a router's records is looked at. -/
theorem Placed.nextRecord (hm : m.Consistent) (hcost : m.CostsFit root) (limit : Nat) {v : SPFVertex}
    (h : Placed m root Done last tree s) (hv : v ∈ tree) (hrouter : v.m_vertexType = .RouterLSA)
    (hlast : v.m_distanceFromRoot.toNat = last) {l : LinkRecord} (hl : l ∈ v.m_lsa.m_linkRecords) :
    ∃ s', m.nextRecord limit root v s l = some s' ∧
      Placed m root (fun x y c => Done x y c ∨ x = v.m_vertexId ∧
        l.m_linkType ≠ .StubNetwork ∧ y = l.m_linkId ∧ c = l.m_metric.toNat) last tree s' := by
  by_cases hstub : l.m_linkType = .StubNetwork
  · refine ⟨s, by rw [GlobalRouteManager.nextRecord, hstub],
      h.done fun _ hdone => hdone.resolve_right fun hlink => hlink.2.1 hstub⟩
  · obtain ⟨w_lsa, hw, hid, -⟩ := (hm.records v.m_lsa (h.lsa v (.inl hv)) hrouter l hl).resolve_left hstub
    have hedge : m.Edge v.m_vertexId w_lsa.m_linkStateId l.m_metric.toNat := by
      rw [hid]
      exact .record (h.lsa v (.inl hv)) hrouter hl hstub
    obtain ⟨s', hs', h'⟩ := h.examine hm hcost limit hv hlast hw hedge (toNat_distance hrouter hlast l)
      fun _ w hlsa => by
        subst hlsa
        exact h.nextHops_record hm limit hv hrouter hl hstub hw hid
    refine ⟨s', ?_, h'.done fun _ hdone => hdone.imp_right fun ⟨hx, _, hy, hc⟩ => ⟨hx, hy.trans hid.symm, hc⟩⟩
    rw [nextRecord_eq hm (h.lsa v (.inl hv)) hrouter hl hstub hw hid, hs']

/-- One of a network's attached routers is looked at, when it is not a busy one. -/
theorem Placed.nextAttached (hm : m.Consistent) (hcost : m.CostsFit root) (hroot : m.IsRouter root) {limit : Nat}
    (hlimit : 2 ≤ limit) {v : SPFVertex} (h : Placed m root Done last tree s) (hv : v ∈ tree)
    (hnetwork : v.m_vertexType = .NetworkLSA) (hlast : v.m_distanceFromRoot.toNat = last) {addr : UInt32}
    (haddr : addr ∈ v.m_lsa.m_attachedRouters) (hfree : v.m_parents.head? = some root → ¬ m.Busy v s addr) :
    ∃ s', m.nextAttached limit root v s addr = some s' ∧
      Placed m root (fun x y c => Done x y c ∨ x = v.m_vertexId ∧ ∃ w, m.getLSAByLinkData addr = some w ∧
        y = w.m_linkStateId ∧ c = 0) last tree s' := by
  cases hget : m.getLSAByLinkData addr with
  | none =>
    refine ⟨s, by rw [GlobalRouteManager.nextAttached, hget], h.done fun _ hdone => hdone.resolve_right ?_⟩
    rintro ⟨-, w, hw, -⟩
    cases hw
  | some w_lsa =>
    have hlsa := h.lsa v (.inl hv)
    obtain ⟨-, back, hback, -, hbackid⟩ := hm.attached v.m_lsa hlsa hnetwork addr haddr w_lsa hget
    have hdistance : (distance v none).toNat = (last + 0) % 2 ^ 32 := by
      rw [distance_none, hlast, Nat.add_zero, ← hlast, Nat.mod_eq_of_lt v.m_distanceFromRoot.toNat_lt]
    obtain ⟨s', hs', h'⟩ := h.examine hm hcost limit hv hlast (mem_of_getLSAByLinkData hget)
      (.attached hlsa hnetwork haddr hget) hdistance fun hstatus w hw => by
        subst hw
        refine h.nextHops_attached hm hroot hlimit hv hnetwork ⟨back, hback, hbackid⟩ fun hparent => ?_
        exact Nat.lt_of_not_le fun hlinks => hfree hparent ⟨w.m_lsa, hget, hstatus, hlinks⟩
    refine ⟨s', by rw [GlobalRouteManager.nextAttached, hget]; exact hs', h'.done fun _ hdone => ?_⟩
    refine hdone.imp_right fun ⟨hx, w, hw, hy, hc⟩ => ⟨hx, ?_, hc⟩
    rw [hy, Option.some.inj hw]

/-! ### Turns -/

/-- The state before a turn: the edges of all vertices but the one taken last have been looked at. -/
structure Head (m : GlobalRouteManager) (root : UInt32) (rlsa : RoutingLSA) (c : Calculation) : Prop where
  placed : Placed m root (fun u w k => u ≠ c.v.m_vertexId ∧ m.Edge u w k) c.v.m_distanceFromRoot.toNat
    ((calculation rlsa).v :: c.popped) c.spf
  mem : c.v ∈ (calculation rlsa).v :: c.popped
  ordered : c.popped.Pairwise fun u w => u.m_distanceFromRoot.toNat ≤ w.m_distanceFromRoot.toNat

/-- A network is taken whose first parent is the root, and a router with three links to it is not in the tree. -/
def Tripled (m : GlobalRouteManager) (root : UInt32) (c : Calculation) : Prop :=
  c.v.m_vertexType = .NetworkLSA ∧ c.v.m_parents.head? = some root ∧
    ∃ addr ∈ c.v.m_lsa.m_attachedRouters, m.Busy c.v c.spf addr

/-- `SPFNext` looks at all edges of the vertex. -/
theorem Head.spfNext (hm : m.Consistent) (hcost : m.CostsFit root) (hroot : m.IsRouter root) {limit : Nat}
    (hlimit : 2 ≤ limit) {rlsa : RoutingLSA} {c : Calculation} (h : Head m root rlsa c) (hfree : ¬ m.Tripled root c) :
    ∃ s, m.spfNext limit root c.v c.spf = some s ∧
      Placed m root m.Edge c.v.m_distanceFromRoot.toNat ((calculation rlsa).v :: c.popped) s := by
  have hlsa := h.placed.lsa c.v (.inl h.mem)
  rw [GlobalRouteManager.spfNext]
  cases htype : c.v.m_vertexType with
  | RouterLSA =>
    obtain ⟨s, hs, hplaced⟩ := foldlM_done
      (I := fun Done s => Placed m root Done c.v.m_distanceFromRoot.toNat ((calculation rlsa).v :: c.popped) s)
      (fun hplaced hdone => hplaced.done fun _ => hdone)
      (fun (l : LinkRecord) y k => l.m_linkType ≠ .StubNetwork ∧ y = l.m_linkId ∧ k = l.m_metric.toNat)
      c.v.m_lsa.m_linkRecords (fun l hl Done s hs => hs.nextRecord hm hcost limit h.mem htype rfl hl) h.placed
    refine ⟨s, hs, hplaced.done fun {u _ _ _} _ hedge => ?_⟩
    by_cases hu : u = c.v.m_vertexId
    · subst hu
      exact .inr ⟨rfl, hm.edge_of_router hlsa htype hedge⟩
    · exact .inl ⟨hu, hedge⟩
  | NetworkLSA =>
    obtain ⟨s, hs, hplaced⟩ := foldlM_done
      (I := fun Done s => Placed m root Done c.v.m_distanceFromRoot.toNat ((calculation rlsa).v :: c.popped) s)
      (fun hplaced hdone => hplaced.done fun _ => hdone)
      (fun addr y k => ∃ w, m.getLSAByLinkData addr = some w ∧ y = w.m_linkStateId ∧ k = 0)
      c.v.m_lsa.m_attachedRouters (fun addr haddr Done s hs =>
        hs.nextAttached hm hcost hroot hlimit h.mem htype rfl haddr fun hparent ⟨w, hw, hstatus, hlinks⟩ =>
          hfree ⟨htype, hparent, addr, haddr, w, hw, fun hin => hstatus ((hs.inTree _).mpr
            ((h.placed.inTree _).mp hin)), hlinks⟩) h.placed
    refine ⟨s, hs, hplaced.done fun {u _ _ _} _ hedge => ?_⟩
    by_cases hu : u = c.v.m_vertexId
    · subst hu
      exact .inr ⟨rfl, hm.edge_of_network hlsa htype hedge⟩
    · exact .inl ⟨hu, hedge⟩

/-- With three links to a network next to the root `SPFNext` does not come back. -/
theorem Head.spfNext_tripled (hm : m.Consistent) (hcost : m.CostsFit root) (hroot : m.IsRouter root) {limit : Nat}
    (hlimit : 2 ≤ limit) {rlsa : RoutingLSA} {c : Calculation} (h : Head m root rlsa c) (hbusy : m.Tripled root c) :
    m.spfNext limit root c.v c.spf = none := by
  obtain ⟨hnetwork, hparent, addr, haddr, haddrbusy⟩ := hbusy
  have hgo : ∀ (addrs : List UInt32) (Done : UInt32 → UInt32 → Nat → Prop) (s : SPF),
      Placed m root Done c.v.m_distanceFromRoot.toNat ((calculation rlsa).v :: c.popped) s →
      (∀ a ∈ addrs, a ∈ c.v.m_lsa.m_attachedRouters) → (∃ a ∈ addrs, m.Busy c.v s a) →
      addrs.foldlM (m.nextAttached limit root c.v) s = none := by
    intro addrs
    induction addrs with
    | nil => exact fun _ _ _ _ ⟨_, ha, _⟩ => absurd ha List.not_mem_nil
    | cons a addrs ih =>
      intro Done s hs hsub hbusy
      rw [List.foldlM_cons]
      by_cases ha : m.Busy c.v s a
      · rw [hs.nextAttached_busy hm hroot limit h.mem hnetwork rfl hparent ha]
        rfl
      · obtain ⟨s₁, hs₁, h₁⟩ := hs.nextAttached hm hcost hroot hlimit h.mem hnetwork rfl
          (hsub a (List.mem_cons_self ..)) fun _ => ha
        rw [hs₁]
        refine ih _ s₁ h₁ (fun b hb => hsub b (List.mem_cons_of_mem _ hb)) ?_
        -- what is in the tree stays the same
        obtain ⟨b, hb, w, hw, hstatus, hlinks⟩ := hbusy
        rcases List.mem_cons.mp hb with rfl | hb
        · exact absurd ⟨w, hw, hstatus, hlinks⟩ ha
        · exact ⟨b, hb, w, hw, fun hin => hstatus ((hs.inTree _).mpr ((h₁.inTree _).mp hin)), hlinks⟩
  rw [GlobalRouteManager.spfNext, hnetwork]
  exact hgo _ _ _ h.placed (fun _ ha => ha) ⟨addr, haddr, haddrbusy⟩

theorem at_append {us vs : List SPFVertex} {x : UInt32} {d : Nat} : At (us ++ vs) x d ↔ At us x d ∨ At vs x d := by
  simp only [At, List.mem_append, or_and_right, exists_or]

theorem at_singleton {v : SPFVertex} {x : UInt32} {d : Nat} :
    At [v] x d ↔ x = v.m_vertexId ∧ d = v.m_distanceFromRoot.toNat := by
  simp only [At, List.mem_singleton, exists_eq_left]
  exact and_congr eq_comm eq_comm

/-- The first candidate goes to the tree. -/
theorem Placed.pop {rlsa : RoutingLSA} {popped : List SPFVertex} {v : SPFVertex} {candidate : CandidateQueue}
    (h : Placed m root m.Edge last ((calculation rlsa).v :: popped) s)
    (hordered : popped.Pairwise fun u w => u.m_distanceFromRoot.toNat ≤ w.m_distanceFromRoot.toNat)
    (hs : s.candidate = v :: candidate) :
    Head m root rlsa ⟨v, popped ++ [v], ⟨Function.update s.status v.m_vertexId .LSA_SPF_IN_SPFTREE, candidate⟩⟩ := by
  have hids := h.ids
  rw [hs] at hids
  have hnodup : ((((calculation rlsa).v :: (popped ++ [v])) ++ candidate).map SPFVertex.m_vertexId).Nodup := by
    rw [List.cons_append, List.append_assoc]
    exact hids
  rw [List.map_append, List.nodup_append] at hids
  obtain ⟨htreeids, hcandids, hapart⟩ := hids
  have hfresh : v.m_vertexId ∉ candidate.map SPFVertex.m_vertexId := (List.nodup_cons.mp hcandids).1
  have hvtree : ∀ u ∈ (calculation rlsa).v :: popped, u.m_vertexId ≠ v.m_vertexId := fun u hu heq =>
    hapart _ (List.mem_map_of_mem hu) _ (List.mem_map_of_mem (List.mem_cons_self ..)) heq
  have hmem : ∀ u, u ∈ (calculation rlsa).v :: (popped ++ [v]) ↔ u ∈ (calculation rlsa).v :: popped ∨ u = v := fun u => by
    rw [← List.cons_append, List.mem_append, List.mem_singleton]
  have hsorted := h.sorted
  rw [CandidateQueue.Sorted, hs, List.pairwise_cons] at hsorted
  have hold : ∀ u, u ∈ (calculation rlsa).v :: (popped ++ [v]) ∨ u ∈ candidate →
      u ∈ (calculation rlsa).v :: popped ∨ u ∈ s.candidate := by
    rw [hs]
    rintro u (hu | hu)
    · rcases (hmem u).mp hu with hu | rfl
      · exact .inl hu
      · exact .inr (List.mem_cons_self ..)
    · exact .inr (List.mem_cons_of_mem _ hu)
  have hvcand : At s.candidate v.m_vertexId v.m_distanceFromRoot.toNat :=
    ⟨v, by rw [hs]; exact List.mem_cons_self .., rfl, rfl⟩
  refine ⟨⟨hnodup, fun x => ?_, fun x => ?_, fun u hu => h.lsa u (hold u hu), fun u hu => h.exits u (hold u hu),
    hsorted.2, ?_⟩, (hmem v).mpr (.inr rfl), ?_⟩
  · dsimp only
    by_cases hx : x = v.m_vertexId
    · rw [hx, Function.update_self]
      exact iff_of_true rfl ⟨v, (hmem v).mpr (.inr rfl), rfl⟩
    · rw [Function.update_of_ne hx, h.inTree]
      refine exists_congr fun u => and_congr_left fun hid => ?_
      rw [hmem, or_iff_left fun heq => hx (by rw [← hid, heq])]
  · dsimp only
    by_cases hx : x = v.m_vertexId
    · rw [hx, Function.update_self]
      refine iff_of_false (by decide) ?_
      rintro ⟨u, hu, hid⟩
      exact hfresh (hid ▸ List.mem_map_of_mem hu)
    · rw [Function.update_of_ne hx, h.isCandidate, hs]
      refine exists_congr fun u => and_congr_left fun hid => ?_
      rw [List.mem_cons, or_iff_right fun heq => hx (by rw [← hid, heq])]
  · have hpop := h.frontier.pop hvcand (fun {x e} hcand => by
      obtain ⟨u, hu, -, rfl⟩ := hcand
      rw [hs] at hu
      rcases List.mem_cons.mp hu with rfl | hu
      · exact Nat.le_refl _
      · exact SPFVertex.distance_le_of_key_le (hsorted.1 u hu)) fun e hat => by
        obtain ⟨u, hu, hid, -⟩ := hat
        exact hvtree u hu hid
    have htree : At ((calculation rlsa).v :: (popped ++ [v])) = fun x e =>
        At ((calculation rlsa).v :: popped) x e ∨ x = v.m_vertexId ∧ e = v.m_distanceFromRoot.toNat := by
      funext x e
      rw [← List.cons_append, at_append, at_singleton]
    have hcand : At candidate = fun x e => At s.candidate x e ∧ x ≠ v.m_vertexId := by
      funext x e
      rw [hs, ← List.singleton_append, at_append, at_singleton, eq_iff_iff]
      constructor
      · intro hat
        refine ⟨.inr hat, ?_⟩
        rintro rfl
        obtain ⟨u, hu, hid, -⟩ := hat
        exact hfresh (hid ▸ List.mem_map_of_mem hu)
      · rintro ⟨⟨heq, -⟩ | hat, hne⟩
        · exact absurd heq hne
        · exact hat
    dsimp only
    rw [htree, hcand]
    exact hpop
  · refine List.pairwise_append.mpr ⟨hordered, List.pairwise_singleton _ _, fun u hu w hw => ?_⟩
    obtain rfl := List.mem_singleton.mp hw
    exact Nat.le_trans (h.frontier.le_last ⟨u, List.mem_cons_of_mem _ hu, rfl, rfl⟩) (h.frontier.last_le hvcand)

/-- What `SPFCalculate` is for: every vertex but the root that can be reached is popped once, in the order of the
distances, and its distance is the least cost. -/
structure ShortestPaths (m : GlobalRouteManager) (root : UInt32) (popped : List SPFVertex) : Prop where
  once : (popped.map SPFVertex.m_vertexId).Nodup
  all : ∀ x, (∃ v ∈ popped, v.m_vertexId = x) ↔ x ≠ root ∧ ∃ c, Walk m.Edge root x c
  ordered : popped.Pairwise fun u w => u.m_distanceFromRoot.toNat ≤ w.m_distanceFromRoot.toNat
  least : ∀ v ∈ popped, LeastCost m.Edge root v.m_vertexId v.m_distanceFromRoot.toNat

/-- Without candidates the paths are found. -/
theorem Placed.shortestPaths {rlsa : RoutingLSA} (hrlsa : rlsa.m_linkStateId = root) {popped : List SPFVertex}
    (h : Placed m root m.Edge last ((calculation rlsa).v :: popped) s)
    (hordered : popped.Pairwise fun u w => u.m_distanceFromRoot.toNat ≤ w.m_distanceFromRoot.toNat)
    (hs : s.candidate = []) : m.ShortestPaths root popped := by
  have hids := h.ids
  rw [hs, List.append_nil, List.map_cons, List.nodup_cons] at hids
  have hleast : ∀ v ∈ popped, LeastCost m.Edge root v.m_vertexId v.m_distanceFromRoot.toNat := fun v hv =>
    h.frontier.least ⟨v, List.mem_cons_of_mem _ hv, rfl, rfl⟩
  refine ⟨hids.2, fun x => ⟨?_, ?_⟩, hordered, hleast⟩
  · rintro ⟨v, hv, rfl⟩
    refine ⟨fun heq => hids.1 ?_, _, (hleast v hv).1⟩
    have hroot : (calculation rlsa).v.m_vertexId = v.m_vertexId := hrlsa.trans heq.symm
    rw [hroot]
    exact List.mem_map_of_mem hv
  · rintro ⟨hne, c, hwalk⟩
    obtain ⟨e, u, hu, rfl, -⟩ := h.frontier.reached (fun x e ⟨u, hu, _⟩ => by rw [hs] at hu; cases hu) hwalk
    rcases List.mem_cons.mp hu with rfl | hu
    · exact absurd hrlsa hne
    · exact ⟨u, hu, rfl⟩

/-- There are no more vertices in the tree than LSAs. -/
theorem Placed.length_le (h : Placed m root Done last tree s) : tree.length ≤ m.m_lsdb.length := by
  have hids := h.ids
  rw [List.map_append] at hids
  have hsub : tree.map SPFVertex.m_vertexId ⊆ m.m_lsdb.map RoutingLSA.m_linkStateId := fun x hx => by
    obtain ⟨u, hu, rfl⟩ := List.mem_map.mp hx
    exact List.mem_map_of_mem (h.lsa u (.inl hu))
  simpa using (List.subperm_of_subset (List.nodup_append.mp hids).1 hsub).length_le

/-- The loop finds the paths exactly when no turn meets a router with three links. -/
theorem turns_spfTurn (hm : m.Consistent) (hcost : m.CostsFit root) (hroot : m.IsRouter root) {limit : Nat}
    (hlimit : 2 ≤ limit) {rlsa : RoutingLSA} (hrlsa : rlsa.m_linkStateId = root) {c : Calculation}
    (h : Head m root rlsa c) {n : Nat} (hn : m.m_lsdb.length ≤ n + c.popped.length) :
    (∃ popped, turns (m.spfTurn limit root) n c = some (some popped) ∧ m.ShortestPaths root popped) ↔
      EachTurn (fun c => ¬ m.Tripled root c) (m.spfTurn limit root) n c := by
  induction n generalizing c with
  | zero =>
    have hlength := h.placed.length_le
    rw [List.length_cons] at hlength
    omega
  | succ n ih =>
    rw [turns, EachTurn]
    by_cases hbusy : m.Tripled root c
    · have hturn : m.spfTurn limit root c = .leave none := by
        rw [spfTurn, h.spfNext_tripled hm hcost hroot hlimit hbusy]
      rw [hturn]
      refine iff_of_false ?_ fun hboth => hboth.1 hbusy
      rintro ⟨popped, hpopped, -⟩
      cases hpopped
    · obtain ⟨s, hs, hplaced⟩ := h.spfNext hm hcost hroot hlimit hbusy
      cases hcand : s.candidate with
      | nil =>
        have hturn : m.spfTurn limit root c = .leave (some c.popped) := by
          rw [spfTurn, hs]
          dsimp only
          rw [hcand]
        rw [hturn]
        exact iff_of_true ⟨c.popped, rfl, hplaced.shortestPaths hrlsa h.ordered hcand⟩ ⟨hbusy, trivial⟩
      | cons v candidate =>
        have hturn : m.spfTurn limit root c = .again ⟨v, c.popped ++ [v],
            ⟨Function.update s.status v.m_vertexId .LSA_SPF_IN_SPFTREE, candidate⟩⟩ := by
          rw [spfTurn, hs]
          dsimp only
          rw [hcand]
        rw [hturn]
        dsimp only
        rw [ih (hplaced.pop h.ordered hcand) (by rw [List.length_append, List.length_singleton]; omega)]
        exact (and_iff_right hbusy).symm

/-- The state before the first turn. -/
theorem head_start {rlsa : RoutingLSA} (hrlsa : rlsa ∈ m.m_lsdb)
    (hid : rlsa.m_linkStateId = root) : Head m root rlsa (calculation rlsa) := by
  have hat : At [(calculation rlsa).v] = fun x d => x = root ∧ d = 0 := by
    funext x d
    rw [at_singleton, ← hid]
    rfl
  refine ⟨⟨List.nodup_singleton _, fun x => ?_, fun x => ?_, fun u hu => ?_, fun u hu => ?_, .nil, ?_⟩,
    List.mem_cons_self .., .nil⟩
  · by_cases hx : x = rlsa.m_linkStateId
    · rw [calculation, hx]
      dsimp only
      rw [Function.update_self]
      exact iff_of_true rfl ⟨_, List.mem_cons_self .., rfl⟩
    · rw [calculation]
      dsimp only
      rw [Function.update_of_ne hx]
      refine iff_of_false (by decide) ?_
      rintro ⟨u, hu, rfl⟩
      rw [List.mem_singleton] at hu
      exact hx (by rw [hu]; rfl)
  · refine iff_of_false ?_ fun ⟨_, hu, _⟩ => absurd hu List.not_mem_nil
    by_cases hx : x = rlsa.m_linkStateId
    · rw [calculation, hx]
      dsimp only
      rw [Function.update_self]
      exact nofun
    · rw [calculation]
      dsimp only
      rw [Function.update_of_ne hx]
      exact nofun
  · rcases hu with hu | hu
    · rw [List.mem_singleton.mp hu]
      exact hrlsa
    · exact absurd hu List.not_mem_nil
  · rcases hu with hu | hu
    · rw [List.mem_singleton.mp hu]
      exact .inl hid
    · exact absurd hu List.not_mem_nil
  · have hstart : Frontier m.Edge (fun u w k => u ≠ (calculation rlsa).v.m_vertexId ∧ m.Edge u w k) root 0
        (fun x d => x = root ∧ d = 0) fun _ _ => False :=
      frontier_root.done fun htree hedge => absurd (htree.1.trans hid.symm) hedge.1
    have hnone : At (calculation rlsa).spf.candidate = fun _ _ => False := by
      funext x d
      rw [eq_iff_iff, iff_false]
      exact fun ⟨_, hu, _⟩ => absurd hu List.not_mem_nil
    have hzero : (calculation rlsa).v.m_distanceFromRoot.toNat = 0 := rfl
    have hpopped : (calculation rlsa).popped = [] := rfl
    rw [hnone, hpopped, hat, hzero]
    exact hstart

/-- A database of no more LSAs than a metric has values keeps the costs small. -/
theorem Consistent.costsFit (hm : m.Consistent) (hroot : m.IsRouter root) (hsize : m.m_lsdb.length ≤ 65536) :
    m.CostsFit root := by
  have hedge : ∀ {v w k}, m.Edge v w k → w ∈ m.m_lsdb.map RoutingLSA.m_linkStateId ∧ k < 65536 := by
    intro v w k h
    cases h with
    | record hlsa hrouter hl hlink =>
      obtain ⟨w, hw, hid, -⟩ := (hm.records _ hlsa hrouter _ hl).resolve_left hlink
      exact ⟨hid ▸ List.mem_map_of_mem hw, UInt16.toNat_lt _⟩
    | attached _ _ _ hw => exact ⟨List.mem_map_of_mem (mem_of_getLSAByLinkData hw), by decide⟩
  have hgo : ∀ vs w c, Trail m.Edge root vs w c →
      vs ⊆ m.m_lsdb.map RoutingLSA.m_linkStateId ∧ c < 65536 * vs.length := by
    intro vs w c h
    induction h with
    | root =>
      obtain ⟨rlsa, hrlsa, hid, -⟩ := hroot
      refine ⟨fun x hx => ?_, by rw [List.length_singleton]; decide⟩
      rw [List.mem_singleton.mp hx, ← hid]
      exact List.mem_map_of_mem hrlsa
    | edge htrail h hnew ih =>
      obtain ⟨hw, hk⟩ := hedge h
      refine ⟨List.cons_subset.mpr ⟨hw, ih.1⟩, ?_⟩
      rw [List.length_cons]
      omega
  intro vs w c h
  obtain ⟨hsub, hless⟩ := hgo vs w c h
  have hlength := (List.subperm_of_subset h.nodup hsub).length_le
  rw [List.length_map] at hlength
  omega

end

theorem spfCalculate_eq {m : GlobalRouteManager} {root : UInt32} {rlsa : RoutingLSA} {limit : Nat}
    (hrlsa : m.getLSA root = some rlsa) (hstub : m.nNodes = 0 ∨ m.checkForStubNode root = some false) :
    m.spfCalculate limit root = (turns (m.spfTurn limit root) limit (calculation rlsa)).join := by
  rw [spfCalculate, hrlsa, Option.bind_some]
  rcases hstub with hzero | hstub
  · rw [hzero]
    rfl
  · rw [hstub]
    exact ite_self _

/-- The router 1, and the router 2 with the given records, at the network 10. -/
def besideNetwork (records : List LinkRecord) (attachedRouters : List UInt32) : GlobalRouteManager where
  m_lsdb :=
    [{ m_lsType := .RouterLSA, m_linkStateId := 1, m_linkRecords := [⟨10, 11, .TransitNetwork, 1⟩] },
      { m_lsType := .RouterLSA, m_linkStateId := 2, m_linkRecords := records },
      { m_lsType := .NetworkLSA, m_linkStateId := 10, m_networkLSANetworkMask := 0xffffff00,
        m_attachedRouters := attachedRouters }]
  nNodes := 2
  findOutgoingInterfaceId := fun _ _ => 1
  pointer := UInt32.toNat

/-- The router 2 has three links. -/
def tripledNetwork : GlobalRouteManager :=
  besideNetwork [⟨10, 12, .TransitNetwork, 1⟩, ⟨10, 13, .TransitNetwork, 1⟩, ⟨10, 14, .TransitNetwork, 1⟩]
    [11, 12, 13, 14]

end Ns3.Internet.GlobalRouteManager
