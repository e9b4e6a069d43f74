import Mathlib.Order.Lattice
import Mathlib.Order.Nat

/-!
# Fair runs of a transition function

A system of any number of parties is a function that says which action is possible in which state and
what it leads to. Finite runs carry invariants, infinite runs carry progress:

* `exec_invariant`, `Run.invariant`: what every action keeps holds along a run;
* `Run.leadsTo_of_fair`: an action that stays useful, and is possible again and again, is taken by a run
  that is fair to it;
* `Run.leadsTo_of_rank`: progress in a rank is progress;
* `Run.ofSchedule`: the run that a schedule gives.

Fairness is strong fairness: an action that is possible again and again is taken again and again. A lock
that is handed to every waiting party in the end gives this for the action that takes it.
-/

namespace NoKV.Lib

section Finite

variable {σ α : Type} (step : σ → α → Option σ)

/-- The state after a sequence of actions, if each was possible in its turn. -/
def exec : σ → List α → Option σ
  | s, [] => some s
  | s, a :: as => (step s a).bind fun s' => exec s' as

variable {step}

lemma exec_invariant {I : σ → Prop} (hstep : ∀ s a s', I s → step s a = some s' → I s') {s s' : σ}
    {as : List α} (hs : I s) (h : exec step s as = some s') : I s' := by
  induction as generalizing s with
  | nil =>
    cases h
    exact hs
  | cons a _ ih =>
    obtain ⟨mid, hmid, hrest⟩ := Option.bind_eq_some_iff.1 h
    exact ih (hstep s a mid hs hmid) hrest

end Finite

/-- An infinite run. In each moment one action happens, or nothing does. -/
structure Run {σ α : Type} (step : σ → α → Option σ) where
  state : ℕ → σ
  action : ℕ → Option α
  next : ∀ n, (action n = none ∧ state (n + 1) = state n) ∨
    ∃ a, action n = some a ∧ step (state n) a = some (state (n + 1))

namespace Run

variable {σ α : Type} {step : σ → α → Option σ} (ρ : Run step)

/-- An action that is possible again and again is taken again and again. -/
def Fair (a : α) : Prop :=
  (∀ n, ∃ m, n ≤ m ∧ (step (ρ.state m) a).isSome) → ∀ n, ∃ m, n ≤ m ∧ ρ.action m = some a

/-- Whenever `P` holds, `Q` holds then or later. -/
def LeadsTo (P Q : σ → Prop) : Prop := ∀ n, P (ρ.state n) → ∃ m, n ≤ m ∧ Q (ρ.state m)

variable {ρ}

section

variable {I : σ → Prop} (hstep : ∀ s a s', I s → step s a = some s' → I s')
include hstep

/-- What every action keeps holds from the moment it first holds. -/
lemma invariant_from {n : ℕ} (hn : I (ρ.state n)) {m : ℕ} (hm : n ≤ m) : I (ρ.state m) := by
  induction m, hm using Nat.le_induction with
  | base => exact hn
  | succ m _ ih =>
    rcases ρ.next m with ⟨_, heq⟩ | ⟨a, _, hact⟩
    · rwa [heq]
    · exact hstep _ a _ ih hact

lemma invariant (h0 : I (ρ.state 0)) (n : ℕ) : I (ρ.state n) :=
  invariant_from hstep h0 (Nat.zero_le n)

end

variable {P Q R : σ → Prop}

lemma LeadsTo.trans (hpq : ρ.LeadsTo P Q) (hqr : ρ.LeadsTo Q R) : ρ.LeadsTo P R := by
  intro n hn
  obtain ⟨m, hnm, hm⟩ := hpq n hn
  obtain ⟨k, hmk, hk⟩ := hqr m hm
  exact ⟨k, hnm.trans hmk, hk⟩

/-- `P` goes on for ever, or `Q` holds at some later moment. -/
lemma stays_or (hkeep : ∀ s a s', P s → step s a = some s' → P s' ∨ Q s') {n : ℕ}
    (hn : P (ρ.state n)) : (∀ m, n ≤ m → P (ρ.state m)) ∨ ∃ m, n ≤ m ∧ Q (ρ.state m) := by
  by_cases hq : ∃ m, n ≤ m ∧ Q (ρ.state m)
  · exact Or.inr hq
  · left
    intro m hm
    induction m, hm using Nat.le_induction with
    | base => exact hn
    | succ m _ ih =>
      rcases ρ.next m with ⟨_, heq⟩ | ⟨a, _, hact⟩
      · rwa [heq]
      · rcases hkeep _ a _ ih hact with hp | hq'
        · exact hp
        · exact absurd ⟨m + 1, by omega, hq'⟩ hq

/-- **Progress by a fair action.** Every action keeps `P` or reaches `Q`, the action `a` reaches `Q`, and
while `P` goes on `a` becomes possible again. -/
theorem leadsTo_of_fair {a : α} (hfair : ρ.Fair a)
    (hkeep : ∀ s b s', P s → step s b = some s' → P s' ∨ Q s')
    (hact : ∀ s s', P s → step s a = some s' → Q s')
    (hon : ∀ n, (∀ m, n ≤ m → P (ρ.state m)) → ∃ m, n ≤ m ∧ (step (ρ.state m) a).isSome) :
    ρ.LeadsTo P Q := by
  intro n hn
  rcases stays_or hkeep hn with hstays | hq
  · have hagain : ∀ k, ∃ m, k ≤ m ∧ (step (ρ.state m) a).isSome := by
      intro k
      obtain ⟨m, hm, hen⟩ := hon (max n k) fun m hm => hstays m (Nat.max_le.1 hm).1
      exact ⟨m, (Nat.max_le.1 hm).2, hen⟩
    obtain ⟨m, hm, htaken⟩ := hfair hagain n
    rcases ρ.next m with ⟨hnone, _⟩ | ⟨b, hb, hstep⟩
    · rw [htaken] at hnone
      cases hnone
    · cases htaken.symm.trans hb
      exact ⟨m + 1, by omega, hact _ _ (hstays m hm) hstep⟩
  · exact hq

/-- **Progress by rank.** From `P` the run reaches `Q`, or `P` again with a smaller rank. -/
theorem leadsTo_of_rank (rank : σ → ℕ)
    (h : ∀ k, ρ.LeadsTo (fun s => P s ∧ rank s = k) fun s => Q s ∨ (P s ∧ rank s < k)) :
    ρ.LeadsTo P Q := by
  have hbelow : ∀ k n, P (ρ.state n) → rank (ρ.state n) = k → ∃ m, n ≤ m ∧ Q (ρ.state m) := by
    intro k
    induction k using Nat.strong_induction_on with
    | h k ih =>
      intro n hn hk
      obtain ⟨m, hnm, hq | ⟨hp, hlt⟩⟩ := h k n ⟨hn, hk⟩
      · exact ⟨m, hnm, hq⟩
      · obtain ⟨l, hml, hl⟩ := ih _ hlt m hp rfl
        exact ⟨l, hnm.trans hml, hl⟩
  intro n hn
  exact hbelow _ n hn rfl

section Schedule

variable {σ α : Type} (step : σ → α → Option σ) (s : σ) (schedule : ℕ → α)

/-- The states of a run that follows a schedule; an action that is not possible in its turn is left out. -/
def follow : ℕ → σ
  | 0 => s
  | n + 1 => (step (follow n) (schedule n)).getD (follow n)

def ofSchedule : Run step where
  state := follow step s schedule
  action n := (step (follow step s schedule n) (schedule n)).map fun _ => schedule n
  next n := by
    cases h : step (follow step s schedule n) (schedule n) with
    | none => exact Or.inl ⟨rfl, by simp [follow, h]⟩
    | some s' => exact Or.inr ⟨_, rfl, by simp [follow, h]⟩

variable {step s schedule}

lemma ofSchedule_next {n : ℕ} {s' : σ} (h : step ((ofSchedule step s schedule).state n) (schedule n) = some s') :
    (ofSchedule step s schedule).state (n + 1) = s' ∧
      (ofSchedule step s schedule).action n = some (schedule n) := by
  have hfollow : step (follow step s schedule n) (schedule n) = some s' := h
  exact ⟨by simp [ofSchedule, follow, hfollow], by simp [ofSchedule, hfollow]⟩

end Schedule

end Run

end NoKV.Lib
