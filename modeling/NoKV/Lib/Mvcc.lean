import Mathlib.Data.Set.Basic
import Mathlib.Tactic.Push

/-!
# Rows with a version history

A row under multi-version concurrency control: the current value with the version that wrote it, and
closed spans of the values it replaced. `Shows v p` says what a reader at version `v` sees.

* `Shows.unique`, `shows_total`: a reader sees exactly one thing;
* `shows_write`: a write does not change what a reader at an earlier version sees;
* `shows_now`: a reader at the clock sees the current value.
-/

namespace NoKV.Lib.Mvcc

variable {π : Type}

/-- A past value: written at `start`, replaced or deleted at `stop`. -/
structure Span (π : Type) where
  start : ℕ
  stop : ℕ
  value : π

/-- The span is the one a reader at `v` falls into. -/
def Span.Covers (sp : Span π) (v : ℕ) : Prop := sp.start ≤ v ∧ v < sp.stop

/-- The current value of a row with its version, and its past values. -/
structure Cell (π : Type) where
  current : Option (ℕ × π)
  past : Set (Span π)

namespace Cell

/-- What a reader at version `v` sees. -/
def Shows (c : Cell π) (v : ℕ) : Option π → Prop
  | some x => (∃ m, c.current = some (m, x) ∧ m ≤ v) ∨ ∃ sp ∈ c.past, sp.Covers v ∧ sp.value = x
  | none => (∀ m x, c.current = some (m, x) → v < m) ∧ ∀ sp ∈ c.past, ¬ sp.Covers v

/-- The spans of a row are disjoint, they end before the current value begins, and nothing lies
beyond the clock. -/
structure Wf (clock : ℕ) (c : Cell π) : Prop where
  current_le : ∀ m x, c.current = some (m, x) → m ≤ clock
  stop_le : ∀ sp ∈ c.past, sp.stop ≤ clock
  past_le : ∀ sp ∈ c.past, ∀ m x, c.current = some (m, x) → sp.stop ≤ m
  disjoint : ∀ a ∈ c.past, ∀ b ∈ c.past, ∀ v, a.Covers v → b.Covers v → a = b

/-- The row that was never written. -/
def fresh : Cell π := ⟨none, ∅⟩

lemma wf_fresh (clock : ℕ) : (fresh : Cell π).Wf clock where
  current_le m x h := by cases h
  stop_le sp h := absurd h (Set.notMem_empty sp)
  past_le sp h := absurd h (Set.notMem_empty sp)
  disjoint a h := absurd h (Set.notMem_empty a)

variable {c : Cell π} {clock v : ℕ}

lemma Wf.mono {clock' : ℕ} (h : c.Wf clock) (hle : clock ≤ clock') : c.Wf clock' :=
  ⟨fun m x hc => (h.current_le m x hc).trans hle, fun sp hsp => (h.stop_le sp hsp).trans hle,
    h.past_le, h.disjoint⟩

lemma Shows.unique {p q : Option π} (hwf : c.Wf clock) (hp : c.Shows v p) (hq : c.Shows v q) : p = q := by
  cases p with
  | none =>
    cases q with
    | none => rfl
    | some y =>
      rcases hq with ⟨m, hm, hle⟩ | ⟨sp, hsp, hcov, -⟩
      · exact absurd hle (not_le.2 (hp.1 m y hm))
      · exact absurd hcov (hp.2 sp hsp)
  | some x =>
    cases q with
    | none =>
      rcases hp with ⟨m, hm, hle⟩ | ⟨sp, hsp, hcov, -⟩
      · exact absurd hle (not_le.2 (hq.1 m x hm))
      · exact absurd hcov (hq.2 sp hsp)
    | some y =>
      rcases hp with ⟨m, hm, _⟩ | ⟨sp, hsp, hcov, rfl⟩
      · rcases hq with ⟨m', hm', -⟩ | ⟨sp', hsp', hcov', -⟩
        · rw [hm] at hm'
          cases hm'
          rfl
        · have := hwf.past_le sp' hsp' m x hm
          exact absurd hcov'.2 (by omega)
      · rcases hq with ⟨m', hm', _⟩ | ⟨sp', hsp', hcov', rfl⟩
        · have := hwf.past_le sp hsp m' y hm'
          exact absurd hcov.2 (by omega)
        · rw [hwf.disjoint sp hsp sp' hsp' v hcov hcov']

lemma shows_total (c : Cell π) (v : ℕ) : ∃ p, c.Shows v p := by
  by_cases hcur : ∃ m x, c.current = some (m, x) ∧ m ≤ v
  · obtain ⟨m, x, hm, hle⟩ := hcur
    exact ⟨some x, .inl ⟨m, hm, hle⟩⟩
  · by_cases hpast : ∃ sp ∈ c.past, sp.Covers v
    · obtain ⟨sp, hsp, hcov⟩ := hpast
      exact ⟨some sp.value, .inr ⟨sp, hsp, hcov, rfl⟩⟩
    · refine ⟨none, fun m x hm => ?_, fun sp hsp hcov => hpast ⟨sp, hsp, hcov⟩⟩
      exact not_le.1 fun hle => hcur ⟨m, x, hm, hle⟩

/-- A reader at the clock sees the current value. -/
lemma shows_now (hwf : c.Wf clock) : c.Shows clock (c.current.map Prod.snd) := by
  have hpast : ∀ sp ∈ c.past, ¬ sp.Covers clock := fun sp hsp hcov => by
    have := hwf.stop_le sp hsp
    exact absurd hcov.2 (by omega)
  cases hc : c.current with
  | none =>
    refine ⟨fun m x hm => ?_, hpast⟩
    rw [hc] at hm
    cases hm
  | some mx => exact .inl ⟨mx.1, hc, hwf.current_le mx.1 mx.2 hc⟩

/-! ### Writes -/

/-- Replace or delete the current value at version `t`, keeping it as a span. -/
def write (c : Cell π) (t : ℕ) (value : Option π) : Cell π where
  current := value.map fun x => (t, x)
  past := c.past ∪ {sp | c.current = some (sp.start, sp.value) ∧ sp.stop = t}

lemma Wf.write (h : c.Wf clock) (value : Option π) : (c.write (clock + 1) value).Wf (clock + 1) := by
  -- a kept span ends by the clock, the new one begins at the version of the current value
  have hlast : ∀ a ∈ c.past, ∀ b : Span π, c.current = some (b.start, b.value) → a.stop ≤ b.start :=
    fun a ha b hb => h.past_le a ha _ _ hb
  have hspan : ∀ sp ∈ (c.write (clock + 1) value).past, sp.stop ≤ clock + 1 := by
    rintro sp (hsp | ⟨-, hstop⟩)
    · exact (h.stop_le sp hsp).trans (Nat.le_succ _)
    · exact hstop.le
  have hcurrent : ∀ m x, (c.write (clock + 1) value).current = some (m, x) → m = clock + 1 := by
    intro m x hm
    cases value with
    | none => cases hm
    | some => cases hm; rfl
  refine ⟨fun m x hm => (hcurrent m x hm).le, hspan, fun sp hsp m x hm => ?_, ?_⟩
  · rw [hcurrent m x hm]
    exact hspan sp hsp
  · rintro a (ha | ⟨ha, hat⟩) b (hb | ⟨hb, hbt⟩) v hcova hcovb
    · exact h.disjoint a ha b hb v hcova hcovb
    · exact absurd (hlast a ha b hb) (by have := hcova.2; have := hcovb.1; omega)
    · exact absurd (hlast b hb a ha) (by have := hcovb.2; have := hcova.1; omega)
    · rw [ha] at hb
      obtain ⟨_, _⟩ := a
      obtain ⟨_, _⟩ := b
      cases hb
      cases hat.trans hbt.symm
      rfl

/-- What an earlier reader sees, it sees after the write. -/
lemma Shows.write {p : Option π} (hv : v ≤ clock) (value : Option π) (h : c.Shows v p) :
    (c.write (clock + 1) value).Shows v p := by
  have hcurrent : ∀ m x, (c.write (clock + 1) value).current = some (m, x) → v < m := by
    intro m x hm
    cases value with
    | none => cases hm
    | some => cases hm; omega
  cases p with
  | some x =>
    right
    rcases h with ⟨m, hm, hle⟩ | ⟨sp, hsp, hcov, rfl⟩
    · exact ⟨⟨m, clock + 1, x⟩, .inr ⟨hm, rfl⟩, ⟨hle, Nat.lt_succ_of_le hv⟩, rfl⟩
    · exact ⟨sp, .inl hsp, hcov, rfl⟩
  | none =>
    refine ⟨hcurrent, ?_⟩
    rintro sp (hsp | ⟨hsp, -⟩) hcov
    · exact h.2 sp hsp hcov
    · exact absurd hcov.1 (not_le.2 (h.1 _ _ hsp))

/-- A write does not change what a reader at an earlier version sees. -/
lemma shows_write (hwf : c.Wf clock) (hv : v ≤ clock) (value : Option π) (p : Option π) :
    (c.write (clock + 1) value).Shows v p ↔ c.Shows v p := by
  refine ⟨fun h => ?_, Shows.write hv value⟩
  obtain ⟨q, hq⟩ := c.shows_total v
  rw [Shows.unique (hwf.write value) h (hq.write hv value)]
  exact hq

end Cell

end NoKV.Lib.Mvcc
