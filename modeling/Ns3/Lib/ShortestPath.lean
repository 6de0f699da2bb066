import Mathlib.Data.Int.Bitwise
import Mathlib.Data.List.Nodup
import Mathlib.Order.Lattice

/-!
# Shortest paths from a root

Walks of a graph whose edges have costs, and the cut between the vertices whose least cost is known and the candidates
that an edge of theirs leads to: the nearest candidate has its least cost, and when no candidate is left every vertex
that can be reached is known.
-/

namespace Ns3.Lib

variable {V : Type*}

/-- A walk from the root to a vertex, with its cost. -/
inductive Walk (Edge : V → V → Nat → Prop) (root : V) : V → Nat → Prop
  | root : Walk Edge root root 0
  | edge {v w : V} {c m : Nat} (hwalk : Walk Edge root v c) (hedge : Edge v w m) : Walk Edge root w (c + m)

/-- A walk that comes to no vertex twice, with its vertices from the last to the root. -/
inductive Trail (Edge : V → V → Nat → Prop) (root : V) : List V → V → Nat → Prop
  | root : Trail Edge root [root] root 0
  | edge {vs : List V} {v w : V} {c m : Nat} (htrail : Trail Edge root vs v c) (hedge : Edge v w m) (hnew : w ∉ vs) :
    Trail Edge root (w :: vs) w (c + m)

/-- The least cost of a walk to a vertex. -/
def LeastCost (Edge : V → V → Nat → Prop) (root w : V) (d : Nat) : Prop :=
  Walk Edge root w d ∧ ∀ c, Walk Edge root w c → d ≤ c

/-- The vertices in the tree with their least costs, none of them above `last`, and the candidates with the costs found
so far, when the edges `Done` from the tree have been looked at. -/
structure Frontier (Edge Done : V → V → Nat → Prop) (root : V) (last : Nat) (tree candidate : V → Nat → Prop) : Prop where
  source : tree root 0
  least : ∀ {v d}, tree v d → LeastCost Edge root v d
  trail : ∀ {w d}, tree w d ∨ candidate w d → ∃ vs, Trail Edge root vs w d ∧ ∀ x ∈ vs, x = w ∨ ∃ e, tree x e
  edge : ∀ {v d w m}, tree v d → Done v w m → (∃ e, tree w e) ∨ ∃ e, candidate w e ∧ e ≤ d + m
  le_last : ∀ {v d}, tree v d → d ≤ last
  last_le : ∀ {w d}, candidate w d → last ≤ d

section

variable {Edge Done : V → V → Nat → Prop} {root : V} {last : Nat} {tree candidate : V → Nat → Prop}

theorem Trail.walk {vs : List V} {w : V} {c : Nat} (h : Trail Edge root vs w c) : Walk Edge root w c := by
  induction h with
  | root => exact .root
  | edge _ hedge _ ih => exact .edge ih hedge

theorem Trail.nodup {vs : List V} {w : V} {c : Nat} (h : Trail Edge root vs w c) : vs.Nodup := by
  induction h with
  | root => exact List.nodup_singleton root
  | edge _ _ hnew ih => exact List.nodup_cons.mpr ⟨hnew, ih⟩

theorem LeastCost.unique {w : V} {c d : Nat} (hc : LeastCost Edge root w c) (hd : LeastCost Edge root w d) : c = d :=
  Nat.le_antisymm (hc.2 d hd.1) (hd.2 c hc.1)

/-- At the start only the root is known. -/
theorem frontier_root : Frontier Edge (fun _ _ _ => False) root 0 (fun v d => v = root ∧ d = 0) (fun _ _ => False) where
  source := ⟨rfl, rfl⟩
  least := by
    rintro v d ⟨rfl, rfl⟩
    exact ⟨.root, fun c _ => Nat.zero_le c⟩
  trail := by
    rintro w d (⟨rfl, rfl⟩ | h)
    · exact ⟨[w], .root, fun x hx => .inl (List.mem_singleton.mp hx)⟩
    · exact h.elim
  edge := fun _ hdone => hdone.elim
  le_last := by
    rintro v d ⟨-, rfl⟩
    exact Nat.le_refl 0
  last_le := fun h => h.elim

/-- A walk ends in the tree, or passes a candidate. -/
theorem Frontier.passes (h : Frontier Edge Edge root last tree candidate) {w : V} {c : Nat} (hwalk : Walk Edge root w c) :
    (∃ e, tree w e) ∨ ∃ x e, candidate x e ∧ e ≤ c := by
  induction hwalk with
  | root => exact .inl ⟨0, h.source⟩
  | edge hwalk hedge ih =>
    rcases ih with ⟨e, htree⟩ | ⟨x, e, hcand, hle⟩
    · rcases h.edge htree hedge with hknown | ⟨e', hcand, hle⟩
      · exact .inl hknown
      · have hleast := (h.least htree).2 _ hwalk
        exact .inr ⟨_, e', hcand, by omega⟩
    · exact .inr ⟨x, e, hcand, Nat.le_add_right_of_le hle⟩

/-- Without candidates every vertex that a walk reaches is known. -/
theorem Frontier.reached (h : Frontier Edge Edge root last tree candidate) (hnone : ∀ x e, ¬ candidate x e) {w : V} {c : Nat}
    (hwalk : Walk Edge root w c) : ∃ e, tree w e :=
  (h.passes hwalk).resolve_right fun ⟨x, e, hcand, _⟩ => hnone x e hcand

/-- The nearest candidate has its least cost, and goes to the tree. -/
theorem Frontier.pop (h : Frontier Edge Edge root last tree candidate) {v : V} {d : Nat} (hv : candidate v d)
    (hmin : ∀ {x e}, candidate x e → d ≤ e) (hnew : ∀ e, ¬ tree v e) :
    Frontier Edge (fun u w m => u ≠ v ∧ Edge u w m) root d (fun x e => tree x e ∨ x = v ∧ e = d)
      (fun x e => candidate x e ∧ x ≠ v) where
  source := .inl h.source
  least := by
    rintro x e (htree | ⟨rfl, rfl⟩)
    · exact h.least htree
    · obtain ⟨vs, htrail, -⟩ := h.trail (.inr hv)
      refine ⟨htrail.walk, fun c hwalk => ?_⟩
      rcases h.passes hwalk with ⟨e', htree⟩ | ⟨y, e', hcand, hle⟩
      · exact absurd htree (hnew e')
      · exact Nat.le_trans (hmin hcand) hle
  trail := by
    intro w e hw
    have hold : tree w e ∨ candidate w e := by
      rcases hw with (htree | ⟨rfl, rfl⟩) | ⟨hcand, -⟩
      · exact .inl htree
      · exact .inr hv
      · exact .inr hcand
    obtain ⟨vs, htrail, hvs⟩ := h.trail hold
    exact ⟨vs, htrail, fun x hx => (hvs x hx).imp_right fun ⟨e', htree⟩ => ⟨e', .inl htree⟩⟩
  edge := by
    rintro u e w m (htree | ⟨rfl, -⟩) ⟨hne, hedge⟩
    · rcases h.edge htree hedge with ⟨e', hknown⟩ | ⟨e', hcand, hle⟩
      · exact .inl ⟨e', .inl hknown⟩
      · by_cases hw : w = v
        · exact .inl ⟨d, .inr ⟨hw, rfl⟩⟩
        · exact .inr ⟨e', ⟨hcand, hw⟩, hle⟩
    · exact absurd rfl hne
  le_last := by
    rintro x e (htree | ⟨-, rfl⟩)
    · exact Nat.le_trans (h.le_last htree) (h.last_le hv)
    · exact Nat.le_refl e
  last_le := fun hcand => hmin hcand.1

/-- An edge to a vertex that is not in the tree goes on with a trail. -/
theorem Frontier.extend (h : Frontier Edge Done root last tree candidate) {v w : V} {d m : Nat} (hv : tree v d)
    (hedge : Edge v w m) (hnew : ∀ e, ¬ tree w e) :
    ∃ vs, Trail Edge root vs w (d + m) ∧ ∀ x ∈ vs, x = w ∨ ∃ e, tree x e := by
  obtain ⟨vs, htrail, hvs⟩ := h.trail (.inl hv)
  have hall : ∀ x ∈ vs, ∃ e, tree x e := fun x hx => (hvs x hx).elim (fun heq => ⟨d, heq ▸ hv⟩) id
  refine ⟨w :: vs, .edge htrail hedge fun hmem => ?_, fun x hx => ?_⟩
  · obtain ⟨e, htree⟩ := hall w hmem
    exact hnew e htree
  · exact (List.mem_cons.mp hx).imp_right (hall x)

/-- An edge from the vertex that came last has been looked at: its end is known or a candidate that is near enough. -/
theorem Frontier.relax (h : Frontier Edge Done root last tree candidate) {v w : V} {m : Nat} (hv : tree v last)
    (hedge : Edge v w m) {candidate' : V → Nat → Prop}
    (hother : ∀ {x e}, x ≠ w → (candidate' x e ↔ candidate x e))
    (hfrom : ∀ {e}, candidate' w e → candidate w e ∨ e = last + m ∧ ∀ e', ¬ tree w e')
    (hless : ∀ {e}, candidate w e → ∃ e', candidate' w e' ∧ e' ≤ e)
    (hfound : (∃ e, tree w e) ∨ ∃ e, candidate' w e ∧ e ≤ last + m) :
    Frontier Edge (fun x y k => Done x y k ∨ x = v ∧ y = w ∧ k = m) root last tree candidate' where
  source := h.source
  least := h.least
  trail := by
    rintro x e (htree | hcand)
    · exact h.trail (.inl htree)
    · by_cases hx : x = w
      · subst hx
        rcases hfrom hcand with hold | ⟨rfl, hnew⟩
        · exact h.trail (.inr hold)
        · exact h.extend hv hedge hnew
      · exact h.trail (.inr ((hother hx).mp hcand))
  edge := by
    rintro u d x k htree (hdone | ⟨rfl, rfl, rfl⟩)
    · rcases h.edge htree hdone with hknown | ⟨e, hcand, hle⟩
      · exact .inl hknown
      · by_cases hx : x = w
        · subst hx
          obtain ⟨e', hcand', hle'⟩ := hless hcand
          exact .inr ⟨e', hcand', Nat.le_trans hle' hle⟩
        · exact .inr ⟨e, (hother hx).mpr hcand, hle⟩
    · rw [(h.least htree).unique (h.least hv)]
      exact hfound
  le_last := h.le_last
  last_le := by
    intro x e hcand
    by_cases hx : x = w
    · subst hx
      rcases hfrom hcand with hold | ⟨rfl, -⟩
      · exact h.last_le hold
      · exact Nat.le_add_right last m
    · exact h.last_le ((hother hx).mp hcand)

/-- The edges looked at may be named otherwise. -/
theorem Frontier.done {Done' : V → V → Nat → Prop} (h : Frontier Edge Done root last tree candidate)
    (hdone : ∀ {v d w m}, tree v d → Done' v w m → Done v w m) : Frontier Edge Done' root last tree candidate :=
  { h with edge := fun htree hdone' => h.edge htree (hdone htree hdone') }

end

end Ns3.Lib
