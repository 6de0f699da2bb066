import Ns3.Lib.Loop
import Mathlib.Data.List.Sort

/-!
# Global routing

`GlobalRouteManagerImpl` computes the shortest paths from a router over the link-state database: the vertices are
routers and transit networks, a sorted list holds the candidates, and each vertex collects the exit directions from the
root by which it is reached.
Source: `src/internet/model/global-route-manager-impl.cc`, `src/internet/model/candidate-queue.cc`,
`src/internet/model/global-router-interface.cc`.
-/

namespace Ns3.Internet

open Ns3.Lib

/-- `GlobalRoutingLinkRecord::LinkType`. -/
inductive LinkType where
  | Unknown
  | PointToPoint
  | TransitNetwork
  | StubNetwork
  | VirtualLink
  deriving DecidableEq, Repr

/-- `GlobalRoutingLinkRecord`. -/
structure LinkRecord where
  m_linkId : UInt32
  m_linkData : UInt32
  m_linkType : LinkType
  m_metric : UInt16
  deriving DecidableEq, Repr

/-- `GlobalRoutingLSA::LSType`, of the two types that are in the database, and `SPFVertex::VertexType`. -/
inductive LSType where
  | RouterLSA
  | NetworkLSA
  deriving DecidableEq, Repr

/-- `GlobalRoutingLSA`, without the status. -/
structure RoutingLSA where
  m_lsType : LSType
  m_linkStateId : UInt32
  m_linkRecords : List LinkRecord := []
  m_networkLSANetworkMask : UInt32 := 0
  m_attachedRouters : List UInt32 := []
  deriving DecidableEq, Repr

/-- `GlobalRoutingLSA::SPFStatus`. -/
inductive SPFStatus where
  | LSA_SPF_NOT_EXPLORED
  | LSA_SPF_CANDIDATE
  | LSA_SPF_IN_SPFTREE
  deriving DecidableEq, Repr

/-- `NodeExit_t`: the next hop, and the number of the interface. -/
abbrev NodeExit := UInt32 × Int

/-- `SPFVertex`. A parent stands as its vertex id, and the children are left out. -/
structure SPFVertex where
  m_lsa : RoutingLSA
  m_distanceFromRoot : UInt32 := 0xffffffff
  m_parents : List UInt32 := []
  m_ecmpRootExits : List NodeExit := []
  deriving DecidableEq, Repr

/-- `std::list::unique`. -/
def uniqueRuns {α : Type*} [DecidableEq α] : List α → List α
  | [] => []
  | [a] => [a]
  | a :: b :: l => if a = b then uniqueRuns (b :: l) else a :: uniqueRuns (b :: l)

/-- `GlobalRouteManagerImpl`. The database is in the order of the link state ids, `pointer` is where a vertex lies in
memory, and `findOutgoingInterfaceId` looks into the node at the root. -/
structure GlobalRouteManager where
  m_lsdb : List RoutingLSA
  nNodes : Nat
  findOutgoingInterfaceId : UInt32 → UInt32 → Int
  pointer : UInt32 → Nat

namespace SPFVertex

/-- `GetVertexId`. -/
def m_vertexId (v : SPFVertex) : UInt32 := v.m_lsa.m_linkStateId

/-- `GetVertexType`. -/
def m_vertexType (v : SPFVertex) : LSType := v.m_lsa.m_lsType

/-- `SetRootExitDirection`. -/
def setRootExitDirection (exit : NodeExit) (w : SPFVertex) : SPFVertex := { w with m_ecmpRootExits := [exit] }

/-- `InheritAllRootExitDirections`. -/
def inheritAllRootExitDirections (v w : SPFVertex) : SPFVertex := { w with m_ecmpRootExits := v.m_ecmpRootExits }

/-- The order of `std::pair`. -/
def exitLe (a b : NodeExit) : Prop := a.1 < b.1 ∨ a.1 = b.1 ∧ a.2 ≤ b.2

instance : DecidableRel exitLe := fun _ _ => inferInstanceAs (Decidable (_ ∨ _))

/-- `MergeRootExitDirections`. -/
def mergeRootExitDirections (w cw : SPFVertex) : SPFVertex :=
  { cw with m_ecmpRootExits := uniqueRuns ((cw.m_ecmpRootExits ++ w.m_ecmpRootExits).insertionSort exitLe) }

/-- `MergeParent`. The parents are sorted by their places in memory. -/
def mergeParent (pointer : UInt32 → Nat) (w cw : SPFVertex) : SPFVertex :=
  { cw with m_parents := uniqueRuns ((cw.m_parents ++ w.m_parents).insertionSort fun a b => pointer a ≤ pointer b) }

/-- `CompareSPFVertex`. -/
def compare (v1 v2 : SPFVertex) : Bool :=
  v1.m_distanceFromRoot < v2.m_distanceFromRoot ||
    v1.m_distanceFromRoot = v2.m_distanceFromRoot && v1.m_vertexType = .NetworkLSA && v2.m_vertexType = .RouterLSA

end SPFVertex

/-! ### The candidates -/

/-- `CandidateQueue`. -/
abbrev CandidateQueue := List SPFVertex

namespace CandidateQueue

/-- `Push`. -/
def push (vNew : SPFVertex) (m_candidates : CandidateQueue) : CandidateQueue :=
  m_candidates.takeWhile (fun v => !vNew.compare v) ++ vNew :: m_candidates.dropWhile fun v => !vNew.compare v

/-- `Find`. -/
def find (addr : UInt32) (m_candidates : CandidateQueue) : Option SPFVertex :=
  m_candidates.find? fun v => v.m_vertexId = addr

/-- `Reorder`. -/
def reorder (m_candidates : CandidateQueue) : CandidateQueue :=
  m_candidates.insertionSort fun v1 v2 => v2.compare v1 = false

/-- The vertex `Find` has found is changed. -/
def update (cw : SPFVertex) (m_candidates : CandidateQueue) : CandidateQueue :=
  m_candidates.map fun v => if v.m_vertexId = cw.m_vertexId then cw else v

end CandidateQueue

/-! ### The calculation -/

/-- What the calculation changes: the statuses of the LSAs by link state id, and the candidates. -/
structure SPF where
  status : UInt32 → SPFStatus
  candidate : CandidateQueue

namespace GlobalRouteManager

/-- `GetLSA`. -/
def getLSA (addr : UInt32) (m : GlobalRouteManager) : Option RoutingLSA :=
  m.m_lsdb.find? fun lsa => lsa.m_linkStateId = addr

/-- `GetLSAByLinkData`. -/
def getLSAByLinkData (addr : UInt32) (m : GlobalRouteManager) : Option RoutingLSA :=
  m.m_lsdb.find? fun temp => temp.m_linkRecords.any fun lr => lr.m_linkType = .TransitNetwork && lr.m_linkData = addr

/-- The loop of `SPFGetNextLink`. -/
def nextLink (id : UInt32) : Bool → Bool → List LinkRecord → Option LinkRecord
  | _, _, [] => none
  | skip, found_prev_link, l :: records =>
    if l.m_linkId = id then
      if !found_prev_link then nextLink id skip true records
      else if skip = false then some l
      else nextLink id false found_prev_link records
    else nextLink id skip found_prev_link records

/-- `SPFGetNextLink`. -/
def spfGetNextLink (v w : SPFVertex) (prev_link : Option LinkRecord) : Option LinkRecord :=
  nextLink w.m_vertexId prev_link.isSome prev_link.isNone v.m_lsa.m_linkRecords

/-- One turn of the loop over the links of a router to a network next to the root. -/
def linkTurn (v : SPFVertex) : Option LinkRecord × SPFVertex →
    Turn (Option LinkRecord × SPFVertex) (Option SPFVertex)
  | (prev, w) =>
    match spfGetNextLink w v prev with
    | none => .leave (some w)
    | some linkRemote =>
      match v.m_ecmpRootExits.head? with
      | none => .leave none
      | some exit => .again (some linkRemote, w.setRootExitDirection (linkRemote.m_linkData, exit.2))

/-- The exit directions that `SPFNexthopCalculation` gives to `w`. -/
def nextHops (limit : Nat) (root : UInt32) (v w : SPFVertex) (l : Option LinkRecord) (m : GlobalRouteManager) :
    Option SPFVertex :=
  if v.m_vertexId = root then
    match w.m_vertexType with
    | .RouterLSA =>
      l.bind fun l => (spfGetNextLink w v none).map fun linkRemote =>
        w.setRootExitDirection (linkRemote.m_linkData, m.findOutgoingInterfaceId l.m_linkData 0xffffffff)
    | .NetworkLSA =>
      some (w.setRootExitDirection (0, m.findOutgoingInterfaceId w.m_vertexId w.m_lsa.m_networkLSANetworkMask))
  else if v.m_vertexType = .NetworkLSA then
    if v.m_parents.head? = some root then (turns (linkTurn v) limit (none, w)).join
    else v.m_ecmpRootExits.head?.map fun exit => w.setRootExitDirection exit
  else some (v.inheritAllRootExitDirections w)

/-- `SPFNexthopCalculation`. -/
def spfNexthopCalculation (limit : Nat) (root : UInt32) (v w : SPFVertex) (l : Option LinkRecord) (distance : UInt32)
    (m : GlobalRouteManager) : Option SPFVertex :=
  (m.nextHops limit root v w l).map fun w => { w with m_distanceFromRoot := distance, m_parents := [v.m_vertexId] }

/-- The `distance` that `SPFNext` computes. -/
def distance (v : SPFVertex) (l : Option LinkRecord) : UInt32 :=
  match v.m_vertexType, l with
  | .RouterLSA, some l => v.m_distanceFromRoot + l.m_metric.toUInt32
  | _, _ => v.m_distanceFromRoot

theorem distance_none (v : SPFVertex) : distance v none = v.m_distanceFromRoot := by
  rw [distance]
  exact nofun

theorem distance_some {v : SPFVertex} (hrouter : v.m_vertexType = .RouterLSA) (l : LinkRecord) :
    distance v (some l) = v.m_distanceFromRoot + l.m_metric.toUInt32 := by
  unfold distance
  rw [hrouter]

/-- What `SPFNext` does with the LSA that a record leads to. -/
def examine (limit : Nat) (root : UInt32) (v : SPFVertex) (l : Option LinkRecord) (w_lsa : RoutingLSA) (s : SPF)
    (m : GlobalRouteManager) : Option SPF :=
  let distance := distance v l
  match s.status w_lsa.m_linkStateId with
  | .LSA_SPF_IN_SPFTREE => some s
  | .LSA_SPF_NOT_EXPLORED =>
    (m.spfNexthopCalculation limit root v { m_lsa := w_lsa } l distance).map fun w =>
      { status := Function.update s.status w_lsa.m_linkStateId .LSA_SPF_CANDIDATE
        candidate := CandidateQueue.push w s.candidate }
  | .LSA_SPF_CANDIDATE =>
    (CandidateQueue.find w_lsa.m_linkStateId s.candidate).bind fun cw =>
      if cw.m_distanceFromRoot < distance then some s
      else if cw.m_distanceFromRoot = distance then
        (m.spfNexthopCalculation limit root v { m_lsa := w_lsa } l distance).map fun w =>
          { s with candidate :=
              CandidateQueue.update ((cw |> w.mergeRootExitDirections) |> w.mergeParent m.pointer) s.candidate }
      else
        (m.spfNexthopCalculation limit root v cw l distance).map fun cw =>
          { s with candidate := CandidateQueue.reorder (CandidateQueue.update cw s.candidate) }

/-- A turn of `SPFNext` for a link record. -/
def nextRecord (limit : Nat) (root : UInt32) (v : SPFVertex) (m : GlobalRouteManager) (s : SPF) (l : LinkRecord) :
    Option SPF :=
  match l.m_linkType with
  | .StubNetwork => some s
  | .PointToPoint | .TransitNetwork => (m.getLSA l.m_linkId).bind fun w_lsa => m.examine limit root v (some l) w_lsa s
  | .Unknown | .VirtualLink => none

/-- A turn of `SPFNext` for an attached router. -/
def nextAttached (limit : Nat) (root : UInt32) (v : SPFVertex) (m : GlobalRouteManager) (s : SPF) (addr : UInt32) :
    Option SPF :=
  match m.getLSAByLinkData addr with
  | none => some s
  | some w_lsa => m.examine limit root v none w_lsa s

/-- `SPFNext`. -/
def spfNext (limit : Nat) (root : UInt32) (v : SPFVertex) (s : SPF) (m : GlobalRouteManager) : Option SPF :=
  match v.m_vertexType with
  | .RouterLSA => v.m_lsa.m_linkRecords.foldlM (m.nextRecord limit root v) s
  | .NetworkLSA => v.m_lsa.m_attachedRouters.foldlM (m.nextAttached limit root v) s

/-- The state of the loop of `SPFCalculate`: the vertex taken last, those popped, and the rest. -/
structure Calculation where
  v : SPFVertex
  popped : List SPFVertex
  spf : SPF

/-- One turn of the loop of `SPFCalculate`. -/
def spfTurn (limit : Nat) (root : UInt32) (m : GlobalRouteManager) (c : Calculation) :
    Turn Calculation (Option (List SPFVertex)) :=
  match m.spfNext limit root c.v c.spf with
  | none => .leave none
  | some s =>
    match s.candidate with
    | [] => .leave (some c.popped)
    | v :: candidate =>
      .again
        { v := v
          popped := c.popped ++ [v]
          spf := ⟨Function.update s.status v.m_vertexId .LSA_SPF_IN_SPFTREE, candidate⟩ }

/-- `CheckForStubNode`. -/
def checkForStubNode (root : UInt32) (m : GlobalRouteManager) : Option Bool :=
  (m.getLSA root).bind fun rlsa =>
    match rlsa.m_linkRecords.filter fun l => l.m_linkType = .TransitNetwork || l.m_linkType = .PointToPoint with
    | [] => some true
    | [transitLink] =>
      if transitLink.m_linkType = .PointToPoint then
        (m.getLSA transitLink.m_linkId).map fun w_lsa =>
          w_lsa.m_linkRecords.any fun lr => lr.m_linkType = .PointToPoint && lr.m_linkId = rlsa.m_linkStateId
      else some false
    | _ => some false

/-- Where the loop of `SPFCalculate` starts. -/
def calculation (rlsa : RoutingLSA) : Calculation where
  v := { m_lsa := rlsa, m_distanceFromRoot := 0 }
  popped := []
  spf := ⟨Function.update (fun _ => .LSA_SPF_NOT_EXPLORED) rlsa.m_linkStateId .LSA_SPF_IN_SPFTREE, []⟩

/-- The vertices that `SPFCalculate` pops, when no loop takes more than `limit` turns. -/
def spfCalculate (limit : Nat) (root : UInt32) (m : GlobalRouteManager) : Option (List SPFVertex) :=
  (m.getLSA root).bind fun rlsa =>
    if 0 < m.nNodes then
      (m.checkForStubNode root).bind fun
        | true => some []
        | false => (turns (m.spfTurn limit root) limit (calculation rlsa)).join
    else (turns (m.spfTurn limit root) limit (calculation rlsa)).join

end GlobalRouteManager

/-! ### The order of the candidates -/

namespace SPFVertex

/-- Where a vertex stands among the candidates: by its distance, and networks first. -/
def key (v : SPFVertex) : Nat := 2 * v.m_distanceFromRoot.toNat + if v.m_vertexType = .RouterLSA then 1 else 0

theorem compare_iff (v1 v2 : SPFVertex) : v1.compare v2 = true ↔ v1.key < v2.key := by
  rw [compare, Bool.or_eq_true, Bool.and_eq_true, Bool.and_eq_true, decide_eq_true_iff, decide_eq_true_iff,
    decide_eq_true_iff, decide_eq_true_iff, UInt32.lt_iff_toNat_lt, ← UInt32.toNat_inj, key, key]
  cases v1.m_vertexType <;> cases v2.m_vertexType <;> simp <;> omega

theorem compare_eq_false_iff (v1 v2 : SPFVertex) : v1.compare v2 = false ↔ v2.key ≤ v1.key := by
  rw [← Bool.not_eq_true, compare_iff, Nat.not_lt]

theorem distance_le_of_key_le {v w : SPFVertex} (h : v.key ≤ w.key) :
    v.m_distanceFromRoot.toNat ≤ w.m_distanceFromRoot.toNat := by
  rw [key, key] at h
  split at h <;> split at h <;> omega

theorem key_congr {v w : SPFVertex} (hlsa : v.m_lsa = w.m_lsa) (hdistance : v.m_distanceFromRoot = w.m_distanceFromRoot) :
    v.key = w.key := by rw [key, key, m_vertexType, m_vertexType, hlsa, hdistance]

end SPFVertex

namespace CandidateQueue

/-- The candidates are in order. -/
def Sorted (candidate : CandidateQueue) : Prop := candidate.Pairwise fun v w => v.key ≤ w.key

theorem push_perm (vNew : SPFVertex) (candidate : CandidateQueue) : (push vNew candidate).Perm (vNew :: candidate) := by
  refine List.perm_middle.trans (List.Perm.of_eq ?_)
  rw [List.takeWhile_append_dropWhile]

theorem push_sorted (vNew : SPFVertex) {candidate : CandidateQueue} (h : Sorted candidate) :
    Sorted (push vNew candidate) := by
  induction candidate with
  | nil => exact List.pairwise_singleton _ _
  | cons v candidate ih =>
    obtain ⟨hv, hrest⟩ := List.pairwise_cons.mp h
    rw [push]
    cases hcompare : vNew.compare v with
    | false =>
      rw [List.takeWhile_cons_of_pos (by rw [hcompare]; rfl), List.dropWhile_cons_of_pos (by rw [hcompare]; rfl)]
      refine List.pairwise_cons.mpr ⟨fun w hw => ?_, ih hrest⟩
      rcases List.mem_cons.mp ((push_perm vNew candidate).mem_iff.mp hw) with rfl | hw
      · exact (SPFVertex.compare_eq_false_iff _ _).mp hcompare
      · exact hv w hw
    | true =>
      rw [List.takeWhile_cons_of_neg (by rw [hcompare]; exact Bool.false_ne_true),
        List.dropWhile_cons_of_neg (by rw [hcompare]; exact Bool.false_ne_true)]
      have hlt := (SPFVertex.compare_iff _ _).mp hcompare
      refine List.pairwise_cons.mpr ⟨fun w hw => ?_, h⟩
      rcases List.mem_cons.mp hw with rfl | hw
      · exact Nat.le_of_lt hlt
      · exact Nat.le_trans (Nat.le_of_lt hlt) (hv w hw)

theorem reorder_perm (candidate : CandidateQueue) : (reorder candidate).Perm candidate := List.perm_insertionSort _ _

theorem reorder_sorted (candidate : CandidateQueue) : Sorted (reorder candidate) := by
  have htotal : Std.Total fun v1 v2 : SPFVertex => v2.compare v1 = false := ⟨fun a b => by
    rw [SPFVertex.compare_eq_false_iff, SPFVertex.compare_eq_false_iff]
    exact Nat.le_total _ _⟩
  have htrans : IsTrans SPFVertex fun v1 v2 : SPFVertex => v2.compare v1 = false := ⟨fun a b c hab hbc => by
    rw [SPFVertex.compare_eq_false_iff] at hab hbc ⊢
    exact Nat.le_trans hab hbc⟩
  exact (List.pairwise_insertionSort _ candidate).imp fun h => (SPFVertex.compare_eq_false_iff _ _).mp h

theorem mem_of_find {addr : UInt32} {candidate : CandidateQueue} {cw : SPFVertex} (h : find addr candidate = some cw) :
    cw ∈ candidate ∧ cw.m_vertexId = addr := by
  rw [find] at h
  exact ⟨List.mem_of_find?_eq_some h, by simpa using List.find?_some h⟩

theorem exists_find {addr : UInt32} {candidate : CandidateQueue} (h : ∃ v ∈ candidate, v.m_vertexId = addr) :
    ∃ cw, find addr candidate = some cw :=
  Option.isSome_iff_exists.mp (List.find?_isSome.mpr (h.imp fun _ hv => ⟨hv.1, decide_eq_true hv.2⟩))

theorem update_ids (cw : SPFVertex) (candidate : CandidateQueue) :
    (update cw candidate).map SPFVertex.m_vertexId = candidate.map SPFVertex.m_vertexId := by
  rw [update, List.map_map]
  refine List.map_congr_left fun v _ => ?_
  rw [Function.comp_apply]
  split
  · next h => exact h.symm
  · rfl

theorem mem_update {cw v : SPFVertex} {candidate : CandidateQueue} (h : ∃ w ∈ candidate, w.m_vertexId = cw.m_vertexId) :
    v ∈ update cw candidate ↔ v = cw ∨ v ∈ candidate ∧ v.m_vertexId ≠ cw.m_vertexId := by
  rw [update, List.mem_map]
  constructor
  · rintro ⟨w, hw, rfl⟩
    split
    · exact .inl rfl
    · next hne => exact .inr ⟨hw, hne⟩
  · rintro (rfl | ⟨hv, hne⟩)
    · obtain ⟨w, hw, hid⟩ := h
      exact ⟨w, hw, if_pos hid⟩
    · exact ⟨v, hv, if_neg hne⟩

/-- A vertex that stands where the old one stood keeps the order. -/
theorem update_sorted {cw : SPFVertex} {candidate : CandidateQueue} (h : Sorted candidate)
    (hkey : ∀ v ∈ candidate, v.m_vertexId = cw.m_vertexId → v.key = cw.key) : Sorted (update cw candidate) := by
  rw [Sorted, update, List.pairwise_map]
  have hsame : ∀ v ∈ candidate, (if v.m_vertexId = cw.m_vertexId then cw else v).key = v.key := fun v hv => by
    split
    · next hid => exact (hkey v hv hid).symm
    · rfl
  refine h.imp_of_mem fun hv hw hle => ?_
  rw [hsame _ hv, hsame _ hw]
  exact hle

end CandidateQueue

theorem mem_uniqueRuns {α : Type*} [DecidableEq α] {a : α} (l : List α) : a ∈ uniqueRuns l ↔ a ∈ l := by
  fun_induction uniqueRuns l with
  | case1 => exact Iff.rfl
  | case2 => exact Iff.rfl
  | case3 b l ih =>
    rw [ih, List.mem_cons (b := b) (l := b :: l)]
    exact (or_iff_right_of_imp fun hab => hab ▸ List.mem_cons_self ..).symm
  | case4 b c l hne ih => rw [List.mem_cons, ih, List.mem_cons (b := b)]

/-! ### Links between two vertices -/

namespace GlobalRouteManager

/-- The records of a router that lead to a vertex. -/
def linksTo (id : UInt32) (lsa : RoutingLSA) : List LinkRecord := lsa.m_linkRecords.filter fun l => l.m_linkId = id

theorem nextLink_eq (id : UInt32) (skip found : Bool) (records : List LinkRecord) :
    nextLink id skip found records =
      (records.filter fun l => l.m_linkId = id)[skip.toNat + (!found).toNat]? := by
  induction records generalizing skip found with
  | nil => rfl
  | cons l records ih =>
    rw [nextLink]
    by_cases hid : l.m_linkId = id
    · rw [if_pos hid, List.filter_cons, if_pos (decide_eq_true hid), ih, ih]
      cases skip <;> cases found <;> rfl
    · rw [if_neg hid, List.filter_cons, if_neg (by rw [decide_eq_false hid]; exact Bool.false_ne_true), ih]

/-- Without a previous link the first one is found, and with any previous link the third one. -/
theorem spfGetNextLink_eq (v w : SPFVertex) (prev : Option LinkRecord) :
    spfGetNextLink v w prev = (linksTo w.m_vertexId v.m_lsa)[if prev.isSome then 2 else 0]? := by
  rw [spfGetNextLink, nextLink_eq, linksTo]
  cases prev <;> rfl

section

variable {v w : SPFVertex} {exit : NodeExit}

theorem linkTurn_none {prev : Option LinkRecord} (h : spfGetNextLink w v prev = none) :
    linkTurn v (prev, w) = .leave (some w) := by rw [linkTurn, h]

theorem linkTurn_some {prev : Option LinkRecord} {l : LinkRecord} (h : spfGetNextLink w v prev = some l)
    (hexit : v.m_ecmpRootExits.head? = some exit) :
    linkTurn v (prev, w) = .again (some l, w.setRootExitDirection (l.m_linkData, exit.2)) := by rw [linkTurn, h, hexit]

/-- One link or two to the network: the first one gives the next hop. -/
theorem turns_linkTurn {l : LinkRecord} {rest : List LinkRecord} (hlinks : linksTo v.m_vertexId w.m_lsa = l :: rest)
    (hrest : rest.length ≤ 1) (hexit : v.m_ecmpRootExits.head? = some exit) {limit : Nat} (hlimit : 2 ≤ limit) :
    turns (linkTurn v) limit (none, w) = some (some (w.setRootExitDirection (l.m_linkData, exit.2))) := by
  obtain ⟨n, rfl⟩ : ∃ n, limit = n + 2 := ⟨limit - 2, by omega⟩
  have hfirst : spfGetNextLink w v none = some l := by
    rw [spfGetNextLink_eq, hlinks]
    rfl
  have hsecond : spfGetNextLink (w.setRootExitDirection (l.m_linkData, exit.2)) v (some l) = none := by
    rw [spfGetNextLink_eq, SPFVertex.setRootExitDirection, hlinks]
    exact List.getElem?_eq_none (Nat.succ_le_succ hrest)
  rw [turns, linkTurn_some hfirst hexit]
  dsimp only
  rw [turns, linkTurn_none hsecond]

/-- Three links or more to the network: the third one is found over and over. -/
theorem diverges_linkTurn (hlinks : 3 ≤ (linksTo v.m_vertexId w.m_lsa).length)
    (hexit : v.m_ecmpRootExits.head? = some exit) : Diverges (linkTurn v) (none, w) := by
  refine diverges_of_invariant (I := fun s => s.2.m_lsa = w.m_lsa) ?_ rfl
  rintro ⟨prev, u⟩ hlsa
  dsimp only at hlsa
  obtain ⟨l, hl⟩ : ∃ l, spfGetNextLink u v prev = some l := by
    rw [spfGetNextLink_eq, hlsa]
    refine ⟨_, List.getElem?_eq_getElem ?_⟩
    split <;> omega
  exact ⟨_, linkTurn_some hl hexit, hlsa⟩

/-- Next hops are given to the vertex, and nothing else. -/
theorem nextHops_lsa {m : GlobalRouteManager} {limit : Nat} {root : UInt32} {l : Option LinkRecord} {w' : SPFVertex}
    (h : m.nextHops limit root v w l = some w') : w'.m_lsa = w.m_lsa := by
  rw [nextHops] at h
  split at h
  · split at h
    · obtain ⟨l, -, h⟩ := Option.bind_eq_some_iff.mp h
      obtain ⟨linkRemote, -, rfl⟩ := Option.map_eq_some_iff.mp h
      rfl
    · obtain rfl := Option.some.inj h
      rfl
  · split at h
    · split at h
      · have hturns := Option.join_eq_some_iff.mp h
        refine turns_of_invariant (I := fun s => s.2.m_lsa = w.m_lsa)
          (J := fun o : Option SPFVertex => ∀ u, o = some u → u.m_lsa = w.m_lsa) ?_ ?_ rfl hturns w' rfl
        · rintro ⟨prev, u⟩ s' hu hagain
          rw [linkTurn] at hagain
          split at hagain
          · cases hagain
          · split at hagain
            · cases hagain
            · obtain rfl := Turn.again.inj hagain
              exact hu
        · rintro ⟨prev, u⟩ o hu hleave u' rfl
          rw [linkTurn] at hleave
          split at hleave
          · obtain rfl := Option.some.inj (Turn.leave.inj hleave)
            exact hu
          · split at hleave
            · cases Turn.leave.inj hleave
            · cases hleave
      · obtain ⟨exit, -, rfl⟩ := Option.map_eq_some_iff.mp h
        rfl
    · obtain rfl := Option.some.inj h
      rfl

end

end GlobalRouteManager

end Ns3.Internet
