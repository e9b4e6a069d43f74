import Mathlib.Data.List.Forall2

/-!
# Two runs that one party cannot tell apart

A machine answers each operation and moves its state. For a party that owns some of the operations,
an *unwinding* consists of a relation `same` on states that foreign operations respect and that the
party's own operations preserve, with answers that are `alike`, whenever the two states are `sync`.

* `Unwinding.two_runs`: two runs with the same operations of the party, each made in `sync` states,
  give it the same answers and leave the same states, whatever the foreign operations are.
-/

namespace NoKV.Lib

open List

/-- One operation of a run: the state it found, its answer, and the state it left. -/
structure Event (σ ι ω : Type) where
  before : σ
  op : ι
  answer : ω
  after : σ

section Runs

variable {σ ι ω : Type} (step : σ → ι → ω × σ)

def trace : σ → List ι → List (Event σ ι ω)
  | _, [] => []
  | s, op :: ops => ⟨s, op, (step s op).1, (step s op).2⟩ :: trace (step s op).2 ops

def stateAfter (s : σ) (ops : List ι) : σ := ops.foldl (fun s op => (step s op).2) s

variable (mine : ι → Prop) [DecidablePred mine]

/-- The events of the operations of one party. -/
def eventsOf (s : σ) (ops : List ι) : List (Event σ ι ω) := (trace step s ops).filter fun e => mine e.op

@[simp] lemma eventsOf_nil (s : σ) : eventsOf step mine s [] = [] := rfl

variable {step mine} {op : ι}

lemma eventsOf_mine {s : σ} (h : mine op) (ops : List ι) : eventsOf step mine s (op :: ops) =
      ⟨s, op, (step s op).1, (step s op).2⟩ :: eventsOf step mine (step s op).2 ops := by
  unfold eventsOf
  rw [trace, filter_cons_of_pos (by simpa using h)]

lemma eventsOf_foreign {s : σ} (h : ¬ mine op) (ops : List ι) :
    eventsOf step mine s (op :: ops) = eventsOf step mine (step s op).2 ops := by
  unfold eventsOf
  rw [trace, filter_cons_of_neg (by simpa using h)]

lemma eventsOf_append (s : σ) (ops ops' : List ι) :
    eventsOf step mine s (ops ++ ops') =
      eventsOf step mine s ops ++ eventsOf step mine (stateAfter step s ops) ops' := by
  induction ops generalizing s with
  | nil => rfl
  | cons op _ ih =>
    rw [cons_append]
    by_cases hmine : mine op
    · rw [eventsOf_mine hmine, eventsOf_mine hmine, ih]
      rfl
    · rw [eventsOf_foreign hmine, eventsOf_foreign hmine, ih]
      rfl

lemma eventsOf_eq_nil {ops : List ι} (h : ∀ op ∈ ops, ¬ mine op) (s : σ) :
    eventsOf step mine s ops = [] := by
  induction ops generalizing s with
  | nil => rfl
  | cons op _ ih =>
    rw [eventsOf_foreign (h op mem_cons_self)]
    exact ih (fun o ho => h o (mem_cons_of_mem _ ho)) _

lemma eventsOf_concat {ops : List ι} (h : ∀ op ∈ ops, ¬ mine op) (hop : mine op) (s : σ) :
    eventsOf step mine s (ops ++ [op]) = [⟨stateAfter step s ops, op, (step (stateAfter step s ops) op).1,
      (step (stateAfter step s ops) op).2⟩] := by
  rw [eventsOf_append, eventsOf_eq_nil h, nil_append, eventsOf_mine hop, eventsOf_nil]

end Runs

/-- The conditions under which a party cannot tell two runs apart. -/
structure Unwinding {σ ι ω : Type} (step : σ → ι → ω × σ) (mine : ι → Prop) (inv : σ → Prop)
    (sync same : σ → σ → Prop) (alike : ω → ω → Prop) : Prop where
  equivalence : Equivalence same
  keeps : ∀ s op, inv s → inv (step s op).2
  respects : ∀ s op, inv s → ¬ mine op → same (step s op).2 s
  consistent : ∀ s t op, inv s → inv t → mine op → sync s t → same s t →
    alike (step s op).1 (step t op).1 ∧ same (step s op).2 (step t op).2

namespace Unwinding

variable {σ ι ω : Type} {step : σ → ι → ω × σ} {mine : ι → Prop} [DecidablePred mine] {inv : σ → Prop}
  {sync same : σ → σ → Prop} {alike : ω → ω → Prop}

variable (h : Unwinding step mine inv sync same alike) {ops : List ι}
include h

/-- A run without an operation of the party leaves it the same state. -/
lemma of_nil {s : σ} (hs : inv s) (hnil : eventsOf step mine s ops = []) :
    same (stateAfter step s ops) s := by
  induction ops generalizing s with
  | nil => exact h.equivalence.refl s
  | cons op _ ih =>
    by_cases hmine : mine op
    · rw [eventsOf_mine hmine] at hnil
      cases hnil
    · rw [eventsOf_foreign hmine] at hnil
      exact h.equivalence.trans (ih (h.keeps s op hs) hnil) (h.respects s op hs hmine)

/-- The first operation of the party in a run finds the same state as the run. -/
lemma of_cons {t : σ} (ht : inv t) {e : Event σ ι ω} {rest : List (Event σ ι ω)}
    (hcons : eventsOf step mine t ops = e :: rest) :
    ∃ ops', same e.before t ∧ inv e.before ∧ mine e.op ∧ e.answer = (step e.before e.op).1 ∧
      e.after = (step e.before e.op).2 ∧ rest = eventsOf step mine e.after ops' ∧
      stateAfter step t ops = stateAfter step e.after ops' := by
  induction ops generalizing t with
  | nil => cases hcons
  | cons op ops ih =>
    by_cases hmine : mine op
    · rw [eventsOf_mine hmine] at hcons
      obtain ⟨rfl, rfl⟩ := List.cons.inj hcons
      exact ⟨ops, h.equivalence.refl t, ht, hmine, rfl, rfl, rfl, rfl⟩
    · rw [eventsOf_foreign hmine] at hcons
      obtain ⟨ops', hsame, hrest⟩ := ih (h.keeps t op ht) hcons
      exact ⟨ops', h.equivalence.trans hsame (h.respects t op ht hmine), hrest⟩

/-- **Unwinding.** Two runs in which the party makes the same operations in states that are in step
answer it alike, and it finds the same state behind each of its operations and at the end. -/
theorem two_runs {s t : σ} {ops' : List ι} (hs : inv s) (ht : inv t) (hsame : same s t)
    (hview : List.Forall₂ (fun a b => a.op = b.op ∧ sync a.before b.before) (eventsOf step mine s ops)
      (eventsOf step mine t ops')) :
    List.Forall₂ (fun a b => alike a.answer b.answer ∧ same a.after b.after) (eventsOf step mine s ops)
        (eventsOf step mine t ops') ∧
      same (stateAfter step s ops) (stateAfter step t ops') := by
  induction ops generalizing s t ops' with
  | nil =>
    have hnil : eventsOf step mine t ops' = [] := forall₂_nil_left_iff.1 hview
    rw [eventsOf_nil, hnil]
    exact ⟨.nil, h.equivalence.trans hsame (h.equivalence.symm (h.of_nil ht hnil))⟩
  | cons op _ ih =>
    by_cases hmine : mine op
    · rw [eventsOf_mine hmine] at hview ⊢
      obtain ⟨e, _, ⟨rfl, hsync⟩, hview, hcons⟩ := forall₂_cons_left_iff.1 hview
      obtain ⟨_, hbefore, hinv, -, hanswer, hafter, rfl, hend⟩ := h.of_cons ht hcons
      have hfound : same s e.before := h.equivalence.trans hsame (h.equivalence.symm hbefore)
      obtain ⟨halike, hleft⟩ := h.consistent s e.before _ hs hinv hmine hsync hfound
      rw [← hafter] at hleft
      have hkept : inv e.after := hafter ▸ h.keeps _ _ hinv
      obtain ⟨hrest, hfinal⟩ := ih (h.keeps s _ hs) hkept hleft hview
      rw [hcons, hend]
      exact ⟨.cons ⟨hanswer ▸ halike, hleft⟩ hrest, hfinal⟩
    · rw [eventsOf_foreign hmine] at hview ⊢
      exact ih (h.keeps s op hs) ht (h.equivalence.trans (h.respects s op hs hmine) hsame) hview

end Unwinding

end NoKV.Lib
