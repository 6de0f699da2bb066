import Mathlib.Data.Int.Bitwise
import Mathlib.Logic.Basic
import Mathlib.Order.Lattice

/-!
# Loops without a bound

A `while (true)` body either goes round again in a new state or leaves with a
result. Executing it for at most `n` turns is structural in `n`; leaving after
some number of turns and never leaving are the two possible fates of a loop.
A body that goes round again only in the state it was given is decided by its
first turn.
-/

namespace Ns3.Lib

/-- What one turn of a loop body does. -/
inductive Turn (σ α : Type*) where
  | again (s : σ)
  | leave (a : α)

variable {σ α : Type*}

/-- At most `n` turns of the loop, from state `s`. -/
def turns (body : σ → Turn σ α) : Nat → σ → Option α
  | 0, _ => none
  | n + 1, s =>
    match body s with
    | .leave a => some a
    | .again s' => turns body n s'

/-- The loop entered in `s` leaves with `a` after finitely many turns. -/
def Leaves (body : σ → Turn σ α) (s : σ) (a : α) : Prop := ∃ n, turns body n s = some a

/-- The loop entered in `s` never leaves. -/
def Diverges (body : σ → Turn σ α) (s : σ) : Prop := ∀ n, turns body n s = none

/-- A body that leaves the state alone whenever it goes round again. -/
def Stationary (body : σ → Turn σ α) : Prop := ∀ s s', body s = .again s' → s' = s

/-- The first turn of a loop, without a result when it goes round again. -/
def firstTurn (body : σ → Turn σ α) (s : σ) : Option α :=
  match body s with
  | .leave a => some a
  | .again _ => none

/-- More turns never change a result. -/
theorem turns_mono {body : σ → Turn σ α} {m n : Nat} {s : σ} {a : α} (hmn : m ≤ n)
    (h : turns body m s = some a) : turns body n s = some a := by
  induction m generalizing n s with
  | zero => simp [turns] at h
  | succ m ih =>
    obtain ⟨k, rfl⟩ : ∃ k, n = k + 1 := ⟨n - 1, by omega⟩
    simp only [turns] at h ⊢
    split
    · next b hb => rw [hb] at h; exact h
    · next s' hs => rw [hs] at h; exact ih (by omega) h

/-- A loop has at most one result. -/
theorem Leaves.unique {body : σ → Turn σ α} {s : σ} {a b : α}
    (ha : Leaves body s a) (hb : Leaves body s b) : a = b := by
  obtain ⟨m, hm⟩ := ha
  obtain ⟨n, hn⟩ := hb
  have hm' := turns_mono (Nat.le_max_left m n) hm
  have hn' := turns_mono (Nat.le_max_right m n) hn
  exact Option.some.inj (hm'.symm.trans hn')

theorem leaves_iff_of_leave {body : σ → Turn σ α} {s : σ} {a b : α} (hs : body s = .leave a) :
    Leaves body s b ↔ b = a := by
  constructor
  · rintro ⟨n, hn⟩
    cases n with
    | zero => cases hn
    | succ n =>
      rw [turns, hs] at hn
      exact (Option.some.inj hn).symm
  · rintro rfl
    exact ⟨1, by rw [turns, hs]⟩

theorem leaves_iff_of_again {body : σ → Turn σ α} {s s' : σ} {a : α} (hs : body s = .again s') :
    Leaves body s a ↔ Leaves body s' a := by
  constructor
  · rintro ⟨n, hn⟩
    cases n with
    | zero => cases hn
    | succ n =>
      rw [turns, hs] at hn
      exact ⟨n, hn⟩
  · rintro ⟨n, hn⟩
    refine ⟨n + 1, ?_⟩
    rw [turns, hs]
    exact hn

/-- A loop that goes round again inside an invariant leaves with what the invariant gives. -/
theorem turns_of_invariant {body : σ → Turn σ α} {I : σ → Prop} {J : α → Prop}
    (hagain : ∀ s s', I s → body s = .again s' → I s')
    (hleave : ∀ s a, I s → body s = .leave a → J a) {n : Nat} {s : σ} {a : α} (hs : I s)
    (h : turns body n s = some a) : J a := by
  induction n generalizing s with
  | zero => cases h
  | succ n ih =>
    rw [turns] at h
    cases hbody : body s with
    | leave b =>
      rw [hbody] at h
      exact hleave s a hs (hbody.trans (congrArg Turn.leave (Option.some.inj h)))
    | again s' =>
      rw [hbody] at h
      exact ih (hagain s s' hs hbody) h

/-- A loop whose turns make a measure smaller leaves. -/
theorem turns_of_measure (body : σ → Turn σ α) {I : σ → Prop} (measure : σ → Nat)
    (hagain : ∀ s s', I s → body s = .again s' → I s' ∧ measure s' < measure s) {n : Nat} {s : σ} (hs : I s)
    (hn : measure s < n) : ∃ a, turns body n s = some a := by
  induction n generalizing s with
  | zero => exact absurd hn (Nat.not_lt_zero _)
  | succ n ih =>
    rw [turns]
    cases hbody : body s with
    | leave a => exact ⟨a, rfl⟩
    | again s' =>
      obtain ⟨hs', hless⟩ := hagain s s' hs hbody
      exact ih hs' (Nat.lt_of_lt_of_le hless (Nat.le_of_lt_succ hn))

/-- What holds at each of at most `n` turns, before the turn. -/
def EachTurn (P : σ → Prop) (body : σ → Turn σ α) : Nat → σ → Prop
  | 0, _ => True
  | n + 1, s =>
    P s ∧ match body s with
      | .leave _ => True
      | .again s' => EachTurn P body n s'

instance EachTurn.decidable (P : σ → Prop) [DecidablePred P] (body : σ → Turn σ α) :
    (n : Nat) → (s : σ) → Decidable (EachTurn P body n s)
  | 0, _ => .isTrue trivial
  | n + 1, s =>
    match h : body s with
    | .leave _ => decidable_of_iff (P s) (by rw [EachTurn, h, and_iff_left trivial])
    | .again s' =>
      have := EachTurn.decidable P body n s'
      decidable_of_iff (P s ∧ EachTurn P body n s') (by rw [EachTurn, h])

/-- Turns of two loops that do alike. -/
inductive Turn.Rel {σ' α' : Type*} (R : σ → σ' → Prop) (Q : α → α' → Prop) : Turn σ α → Turn σ' α' → Prop
  | again {s : σ} {s' : σ'} (h : R s s') : Turn.Rel R Q (.again s) (.again s')
  | leave {a : α} {a' : α'} (h : Q a a') : Turn.Rel R Q (.leave a) (.leave a')

theorem rel_imp {α' : Type*} {Q Q' : α → α' → Prop} {a : Option α} {a' : Option α'} (ha : Option.Rel Q a a')
    (himp : ∀ x x', Q x x' → Q' x x') : Option.Rel Q' a a' := by
  cases ha with
  | none => exact .none
  | some h => exact .some (himp _ _ h)

/-- Functions that do alike after results that are alike. -/
theorem rel_bind {β : Type*} {α' β' : Type*} {Q : α → α' → Prop} {Q' : β → β' → Prop} {a : Option α}
    {a' : Option α'} {f : α → Option β} {f' : α' → Option β'} (ha : Option.Rel Q a a')
    (hf : ∀ x x', a = some x → a' = some x' → Q x x' → Option.Rel Q' (f x) (f' x')) :
    Option.Rel Q' (a.bind f) (a'.bind f') := by
  cases ha with
  | none => exact .none
  | some h => exact hf _ _ rfl rfl h

/-- Two loops whose turns do alike leave alike. -/
theorem turns_rel {σ' α' : Type*} {body : σ → Turn σ α} {body' : σ' → Turn σ' α'} {P : σ → Prop}
    {R : σ → σ' → Prop} {Q : α → α' → Prop}
    (hbody : ∀ s s', P s → R s s' → Turn.Rel R Q (body s) (body' s')) {n : Nat} {s : σ} {s' : σ'}
    (heach : EachTurn P body n s) (hs : R s s') : Option.Rel Q (turns body n s) (turns body' n s') := by
  induction n generalizing s s' with
  | zero => exact .none
  | succ n ih =>
    have hturn := hbody s s' heach.1 hs
    have hrest := heach.2
    rw [turns, turns]
    cases hb : body s with
    | leave a =>
      rw [hb] at hturn
      cases hb' : body' s' with
      | leave a' =>
        rw [hb'] at hturn
        cases hturn with
        | leave h => exact .some h
      | again s₁' =>
        rw [hb'] at hturn
        cases hturn
    | again s₁ =>
      rw [hb] at hturn hrest
      cases hb' : body' s' with
      | leave a' =>
        rw [hb'] at hturn
        cases hturn
      | again s₁' =>
        rw [hb'] at hturn
        cases hturn with
        | again h => exact ih hrest h

/-- Diverging is exactly not leaving. -/
theorem diverges_iff (body : σ → Turn σ α) (s : σ) :
    Diverges body s ↔ ¬ ∃ a, Leaves body s a := by
  constructor
  · rintro h ⟨a, n, hn⟩
    simp [h n] at hn
  · intro h n
    cases hn : turns body n s with
    | none => rfl
    | some a => exact absurd ⟨a, n, hn⟩ h

/-- A loop that goes round again into a diverging state diverges. -/
theorem Diverges.again {body : σ → Turn σ α} {s s' : σ} (hs : body s = .again s')
    (h : Diverges body s') : Diverges body s := by
  intro n
  cases n with
  | zero => rfl
  | succ n =>
    rw [turns, hs]
    exact h n

/-- A loop that goes round again inside an invariant diverges there. -/
theorem diverges_of_invariant {body : σ → Turn σ α} {I : σ → Prop}
    (hstep : ∀ s, I s → ∃ s', body s = .again s' ∧ I s') {s : σ} (hs : I s) :
    Diverges body s := by
  intro n
  induction n generalizing s with
  | zero => rfl
  | succ n ih =>
    obtain ⟨s', hbody, hs'⟩ := hstep s hs
    rw [turns, hbody]
    exact ih hs'

private theorem turns_stationary {body : σ → Turn σ α} (hb : Stationary body) (s : σ) (n : Nat) :
    turns body (n + 1) s = firstTurn body s := by
  induction n with
  | zero =>
    simp only [turns, firstTurn]
  | succ n ih =>
    rw [turns, firstTurn]
    cases hs : body s with
    | leave a => rfl
    | again s' =>
      have : s' = s := hb s s' hs
      subst this
      simp only [ih, firstTurn, hs]

/-- The first turn of a stationary body gives the loop's result. -/
theorem firstTurn_eq_some_iff {body : σ → Turn σ α} (hb : Stationary body) (s : σ) (a : α) :
    firstTurn body s = some a ↔ Leaves body s a := by
  constructor
  · intro h
    exact ⟨1, by rw [turns_stationary hb, h]⟩
  · rintro ⟨n, hn⟩
    cases n with
    | zero => simp [turns] at hn
    | succ n => rw [← turns_stationary hb s n, hn]

/-- A stationary body without a result on its first turn loops for ever. -/
theorem firstTurn_eq_none_iff {body : σ → Turn σ α} (hb : Stationary body) (s : σ) :
    firstTurn body s = none ↔ Diverges body s := by
  rw [diverges_iff, Option.eq_none_iff_forall_ne_some]
  simp only [ne_eq, firstTurn_eq_some_iff hb, not_exists]

/-! ### Loops that may stop the program -/

/-- A loop whose turns may stop the program, when it goes round again at most `n` times. -/
def rounds (body : σ → Option (Turn σ α)) : Nat → σ → Option α
  | 0, s =>
    (body s).bind fun
      | .leave a => some a
      | .again _ => none
  | n + 1, s =>
    (body s).bind fun
      | .leave a => some a
      | .again s' => rounds body n s'

/-- What holds where a turn goes round again or leaves. -/
def Turn.Meets (P : σ → Prop) (Q : α → Prop) : Turn σ α → Prop
  | .again s => P s
  | .leave a => Q a

/-- A loop whose turns keep an invariant of a smaller rank leaves with what the turns promise. -/
theorem rounds_of_rank {body : σ → Option (Turn σ α)} {I : Nat → σ → Prop} {J : α → Prop}
    (hbody : ∀ k s, I k s → ∃ t, body s = some t ∧ t.Meets (fun s' => ∃ k' < k, I k' s') J) {n k : Nat} {s : σ}
    (hs : I k s) (hn : k ≤ n) : ∃ a, rounds body n s = some a ∧ J a := by
  induction n generalizing k s with
  | zero =>
    obtain ⟨t, ht, hmeets⟩ := hbody k s hs
    cases t with
    | again s' =>
      obtain ⟨k', hk', -⟩ := hmeets
      omega
    | leave a => exact ⟨a, by rw [rounds, ht, Option.bind_some], hmeets⟩
  | succ n ih =>
    obtain ⟨t, ht, hmeets⟩ := hbody k s hs
    cases t with
    | again s' =>
      obtain ⟨k', hk', hs'⟩ := hmeets
      obtain ⟨a, ha, hJ⟩ := ih hs' (by omega)
      exact ⟨a, by rw [rounds, ht, Option.bind_some]; exact ha, hJ⟩
    | leave a => exact ⟨a, by rw [rounds, ht, Option.bind_some], hmeets⟩

/-- A loop whose turns keep an invariant leaves with what the turns promise, if it leaves. -/
theorem rounds_of_invariant {body : σ → Option (Turn σ α)} {I : σ → Prop} {J : α → Prop}
    (hbody : ∀ s t, I s → body s = some t → t.Meets I J) {n : Nat} {s : σ} {a : α} (hs : I s)
    (h : rounds body n s = some a) : J a := by
  induction n generalizing s with
  | zero =>
    rw [rounds] at h
    obtain ⟨t, ht, hleave⟩ := Option.bind_eq_some_iff.mp h
    have hmeets := hbody s t hs ht
    cases t with
    | again s' => cases hleave
    | leave b =>
      cases hleave
      exact hmeets
  | succ n ih =>
    rw [rounds] at h
    obtain ⟨t, ht, hrest⟩ := Option.bind_eq_some_iff.mp h
    have hmeets := hbody s t hs ht
    cases t with
    | again s' => exact ih hmeets hrest
    | leave b =>
      cases hrest
      exact hmeets

end Ns3.Lib
