import Mathlib.Data.List.Nodup
import Mathlib.Order.Nat
import Ns3.Lib.Chunks

/-!
# Fragments of a sequence

A sequence that is cut into consecutive fragments, and a collection of some of them in the order of their
positions, to which a fragment is added unless one is there with its position. Whatever the order in which the
fragments come, the collection holds those that have come, and it reaches the end of the sequence without a gap
exactly if all have.
-/

namespace Ns3.Lib

variable {α : Type*}

/-- Fragments that follow one another from position `a` on, none of them empty. -/
def Consecutive : Nat → List (Chunk α) → Prop
  | _, [] => True
  | a, c :: cs => c.1 = a ∧ c.2 ≠ [] ∧ Consecutive c.stop cs

/-- A fragment added at its place, unless there is one with its position. -/
def collect (c : Chunk α) : List (Chunk α) → List (Chunk α)
  | [] => [c]
  | d :: ds => if c.1 < d.1 then c :: d :: ds else if d.1 = c.1 then d :: ds else d :: collect c ds

/-- How far the fragments reach, from a position on; without a result if there is a gap. -/
def reach : Nat → List (Chunk α) → Option Nat
  | e, [] => some e
  | e, c :: cs => if e < c.1 then none else reach (max e c.stop) cs

/-- The fragments whose positions are among `got`. -/
def kept (got : List Nat) (cs : List (Chunk α)) : List (Chunk α) := cs.filter fun c => c.1 ∈ got

variable {a : Nat} {got : List Nat} {c : Chunk α} {cs ds : List (Chunk α)}

theorem lt_stop (h : c.2 ≠ []) : c.1 < c.stop :=
  Nat.lt_add_of_pos_right (List.length_pos_iff.mpr h)

namespace Consecutive

theorem le (h : Consecutive a cs) (hc : c ∈ cs) : a ≤ c.1 := by
  induction cs generalizing a with
  | nil => cases hc
  | cons d cs ih =>
    obtain ⟨hd, hne, hcs⟩ := h
    obtain rfl | hc := List.mem_cons.mp hc
    · exact hd.ge
    · exact hd.ge.trans ((lt_stop hne).le.trans (ih hcs hc))

/-- The positions increase. -/
theorem increasing (h : Consecutive a cs) : cs.Pairwise fun c d => c.1 < d.1 := by
  induction cs generalizing a with
  | nil => exact List.Pairwise.nil
  | cons c cs ih =>
    obtain ⟨-, hne, hcs⟩ := h
    exact List.pairwise_cons.mpr ⟨fun d hd => (lt_stop hne).trans_le (hcs.le hd), ih hcs⟩

/-- A fragment is known by its position. -/
theorem eq_of_start (h : Consecutive a cs) {d : Chunk α} (hc : c ∈ cs) (hd : d ∈ cs) (heq : c.1 = d.1) : c = d := by
  have hnodup : (cs.map Prod.fst).Nodup := List.pairwise_map.mpr (h.increasing.imp Nat.ne_of_lt)
  exact List.inj_on_of_nodup_map hnodup hc hd heq

theorem append (h : Consecutive a cs) (h' : Consecutive (a + total cs) ds) : Consecutive a (cs ++ ds) := by
  induction cs generalizing a with
  | nil => exact h'
  | cons c cs ih =>
    obtain ⟨hc, hne, hcs⟩ := h
    refine ⟨hc, hne, ih hcs ?_⟩
    rw [total_cons, ← Nat.add_assoc] at h'
    rw [Chunk.stop, hc]
    exact h'

/-- No fragment ends behind the last one. -/
theorem stop_le (h : Consecutive a cs) (hc : c ∈ cs) : c.stop ≤ a + total cs := by
  induction cs generalizing a with
  | nil => cases hc
  | cons d cs ih =>
    obtain ⟨hd, -, hcs⟩ := h
    rw [total_cons]
    obtain rfl | hc := List.mem_cons.mp hc
    · rw [Chunk.stop, hd]
      omega
    · have hle := ih hcs hc
      have hstop : d.stop = a + d.2.length := congrArg (· + d.2.length) hd
      omega

end Consecutive

theorem kept_cons_pos (h : c.1 ∈ got) : kept got (c :: cs) = c :: kept got cs :=
  List.filter_cons_of_pos (decide_eq_true h)

theorem kept_cons_neg (h : c.1 ∉ got) : kept got (c :: cs) = kept got cs :=
  List.filter_cons_of_neg (by rw [decide_eq_true_eq]; exact h)

/-- A position before all of them. -/
theorem kept_of_lt (h : ∀ d ∈ cs, a < d.1) : kept (a :: got) cs = kept got cs := by
  refine List.filter_congr fun d hd => decide_eq_decide.mpr ?_
  rw [List.mem_cons, or_iff_right (h d hd).ne']

/-- Adding a fragment to those that have come. -/
theorem collect_kept (h : cs.Pairwise fun c d => c.1 < d.1) (hc : c ∈ cs) :
    collect c (kept got cs) = kept (c.1 :: got) cs := by
  induction cs with
  | nil => cases hc
  | cons d cs ih =>
    obtain ⟨hd, hcs⟩ := List.pairwise_cons.mp h
    by_cases hcd : c = d
    · subst hcd
      rw [kept_cons_pos List.mem_cons_self, kept_of_lt hd]
      by_cases hgot : c.1 ∈ got
      · rw [kept_cons_pos hgot, collect, if_neg (Nat.lt_irrefl _), if_pos rfl]
      · rw [kept_cons_neg hgot]
        cases hkept : kept got cs with
        | nil => rfl
        | cons e es =>
          have he : e ∈ cs := List.mem_of_mem_filter (hkept ▸ List.mem_cons_self : e ∈ kept got cs)
          rw [collect, if_pos (hd e he)]
    · have hmem : c ∈ cs := (List.mem_cons.mp hc).resolve_left (fun heq => hcd heq)
      have hlt : d.1 < c.1 := hd c hmem
      by_cases hgot : d.1 ∈ got
      · rw [kept_cons_pos hgot, kept_cons_pos (List.mem_cons_of_mem _ hgot), collect,
          if_neg (Nat.not_lt.mpr hlt.le), if_neg hlt.ne, ih hcs hmem]
      · have hgot' : d.1 ∉ c.1 :: got := fun h => (List.mem_cons.mp h).elim hlt.ne hgot
        rw [kept_cons_neg hgot, kept_cons_neg hgot', ih hcs hmem]

/-- Those that have come reach the end exactly if they are all. -/
theorem reach_kept (h : Consecutive a cs) :
    reach a (kept got cs) = some (a + total cs) ↔ ∀ c ∈ cs, c.1 ∈ got := by
  induction cs generalizing a with
  | nil => simp [kept, reach]
  | cons c cs ih =>
    obtain ⟨hc, hne, hcs⟩ := h
    have hstop : max a c.stop = c.stop := max_eq_right (hc ▸ (lt_stop hne).le)
    have htotal : a + total (c :: cs) = c.stop + total cs := by
      rw [total_cons, Chunk.stop, hc, Nat.add_assoc]
    rw [List.forall_mem_cons]
    by_cases hgot : c.1 ∈ got
    · rw [kept_cons_pos hgot, reach, if_neg (by omega), hstop, htotal, and_iff_right hgot]
      exact ih hcs
    · rw [kept_cons_neg hgot]
      refine iff_of_false ?_ fun hall => hgot hall.1
      have hlt := lt_stop hne
      cases hkept : kept got cs with
      | nil =>
        rw [reach, htotal]
        intro heq
        have := Option.some.inj heq
        omega
      | cons e es =>
        -- the next one is behind a gap
        have he : e ∈ cs := List.mem_of_mem_filter (hkept ▸ List.mem_cons_self : e ∈ kept got cs)
        have hle := hcs.le he
        rw [reach, if_pos (by omega)]
        exact (Option.some_ne_none _).symm

/-- They reach no further than they go. -/
theorem reach_le {e n : Nat} {b : Nat} (he : e ≤ n) (hcs : ∀ c ∈ cs, c.stop ≤ n) (h : reach e cs = some b) :
    b ≤ n := by
  induction cs generalizing e with
  | nil => exact Option.some.inj h ▸ he
  | cons c cs ih =>
    obtain ⟨hc, hcs⟩ := List.forall_mem_cons.mp hcs
    rw [reach, Option.ite_none_left_eq_some] at h
    exact ih (max_le he hc) hcs h.2

/-! ### The covered prefix -/

/-- Every position before `n` is covered, and `n` is not. -/
structure PrefixEnd (cs : List (Chunk α)) (n : Nat) : Prop where
  covered : ∀ i < n, Covers cs i
  open_ : ¬Covers cs n

theorem covers_snoc {p : Nat} : Covers (cs ++ [c]) p ↔ Covers cs p ∨ c.1 ≤ p ∧ p < c.stop := by
  unfold Covers
  simp only [List.mem_append, List.mem_singleton]
  constructor
  · rintro ⟨d, hd | rfl, h⟩
    · exact .inl ⟨d, hd, h⟩
    · exact .inr h
  · rintro (⟨d, hd, h⟩ | h)
    · exact ⟨d, .inl hd, h⟩
    · exact ⟨c, .inr rfl, h⟩

namespace PrefixEnd

variable {m n : Nat}

theorem nil : PrefixEnd ([] : List (Chunk α)) 0 :=
  ⟨fun _ hi => absurd hi (Nat.not_lt_zero _), fun ⟨_, hc, _⟩ => absurd hc List.not_mem_nil⟩

theorem unique (hm : PrefixEnd cs m) (hn : PrefixEnd cs n) : m = n := by
  obtain hlt | heq | hgt := Nat.lt_trichotomy m n
  · exact absurd (hn.covered m hlt) hm.open_
  · exact heq
  · exact absurd (hm.covered n hgt) hn.open_

/-- A fragment behind a gap changes nothing. -/
theorem snoc_gap (h : PrefixEnd cs n) (hgap : n < c.1) : PrefixEnd (cs ++ [c]) n := by
  refine ⟨fun i hi => covers_snoc.mpr (.inl (h.covered i hi)), fun hn => ?_⟩
  obtain hn | hn := covers_snoc.mp hn
  · exact h.open_ hn
  · omega

/-- A fragment that starts where those before it have got to, or before that, extends the prefix to its end. -/
theorem snoc (h : PrefixEnd cs n) (hsorted : ∀ d ∈ cs, d.1 ≤ c.1) (hc : c.1 ≤ n) :
    PrefixEnd (cs ++ [c]) (max n c.stop) := by
  refine ⟨fun i hi => covers_snoc.mpr ?_, fun hmax => ?_⟩
  · by_cases hin : i < n
    · exact .inl (h.covered i hin)
    · exact .inr ⟨by omega, by omega⟩
  · obtain ⟨d, hd, hle, hlt⟩ | hlast := covers_snoc.mp hmax
    -- one that reaches so far would cover the end of the prefix before
    · exact h.open_ ⟨d, hd, (hsorted d hd).trans hc, by omega⟩
    · omega

end PrefixEnd

theorem kept_all (h : ∀ c ∈ cs, c.1 ∈ got) : kept got cs = cs :=
  List.filter_eq_self.mpr fun c hc => decide_eq_true (h c hc)

theorem length_flatMap (cs : List (Chunk α)) : (cs.flatMap Prod.snd).length = total cs := List.length_flatMap

end Ns3.Lib
