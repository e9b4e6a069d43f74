import NoKV.Lib.Except

/-!
# Programs of I/O operations

A program issues operations one after the other. Each operation is answered with a value or with an
error, and the program goes on with the answer until it returns or fails. The *fate* of an operation
says how it goes; a run whose fates are used up was stopped before its next operation.

* `exec`: a run; `runWith`: the run in which every operation has the same fate;
* `wp F C Q p s`: with fates in `F`, the program `p` returns from `s` with `Q` and is stopped only in
  states with `C` (`exec_of_wp`); `wp_bind`, `wp_mapError`, `wp_attempt` and
  `wp_stable` are its rules.
-/

namespace NoKV.Lib

/-- A program of operations `Op`, each answered with its `Answer` or an error of type `δ`, that fails
with `ε` and returns `α`. -/
inductive Io {Op : Type} (Answer : Op → Type) (δ ε α : Type) where
  | pure (a : α)
  | fail (e : ε)
  | call (op : Op) (k : Except δ (Answer op) → Io Answer δ ε α)

namespace Io

variable {Op : Type} {Answer : Op → Type} {δ ε ε' α β : Type}

def bind : Io Answer δ ε α → (α → Io Answer δ ε β) → Io Answer δ ε β
  | .pure a, f => f a
  | .fail e, _ => .fail e
  | .call op k, f => .call op fun answer => (k answer).bind f

instance : Monad (Io Answer δ ε) where
  pure := Io.pure
  bind := Io.bind

/-- The outcome of a program as a value. -/
def attempt : Io Answer δ ε α → Io Answer δ ε' (Except ε α)
  | .pure a => .pure (.ok a)
  | .fail e => .pure (.error e)
  | .call op k => .call op fun answer => (k answer).attempt

instance : MonadExceptOf ε (Io Answer δ ε) where
  throw := Io.fail
  tryCatch p handle := do
    match ← p.attempt with
    | .ok a => .pure a
    | .error e => handle e

/-- The program with its errors changed. -/
def mapError (f : ε → ε') : Io Answer δ ε α → Io Answer δ ε' α
  | .pure a => .pure a
  | .fail e => .fail (f e)
  | .call op k => .call op fun answer => (k answer).mapError f

/-- The outcome of a computation without operations. -/
def ofExcept : Except ε α → Io Answer δ ε α
  | .ok a => .pure a
  | .error e => .fail e

instance : MonadLift (Except ε) (Io Answer δ ε) := ⟨ofExcept⟩

def perform (op : Op) : Io Answer δ δ (Answer op) := .call op ofExcept

section Runs

variable {σ φ : Type} (step : (op : Op) → φ → σ → Except δ (Answer op) × σ)

/-- A run with the fates of its operations. It has no outcome if it was stopped. -/
def exec : Io Answer δ ε α → List φ → σ → Option (Except ε α) × σ
  | .pure a, _, s => (some (.ok a), s)
  | .fail e, _, s => (some (.error e), s)
  | .call _ _, [], s => (none, s)
  | .call op k, fate :: fates, s => exec (k (step op fate s).1) fates (step op fate s).2

/-- The run in which every operation has one fate. -/
def runWith (fate : φ) : Io Answer δ ε α → σ → Except ε α × σ
  | .pure a, s => (.ok a, s)
  | .fail e, s => (.error e, s)
  | .call op k, s => runWith fate (k (step op fate s).1) (step op fate s).2

/-- Runs with fates in `F` return with `Q` and are stopped only where `C` holds. -/
def wp (F : φ → Prop) (C : σ → Prop) (Q : Except ε α → σ → Prop) : Io Answer δ ε α → σ → Prop
  | .pure a, s => Q (.ok a) s
  | .fail e, s => Q (.error e) s
  | .call op k, s => C s ∧ ∀ fate, F fate → wp F C Q (k (step op fate s).1) (step op fate s).2

variable {step} {F : φ → Prop} {C : σ → Prop}

variable {p : Io Answer δ ε α} {s : σ} {Q : Except ε α → σ → Prop} {f : α → Io Answer δ ε β}

lemma runWith_bind_of_ok {fate : φ} {s' : σ} {a : α} (h : p.runWith step fate s = (.ok a, s')) :
    (p >>= f).runWith step fate s = (f a).runWith step fate s' := by
  induction p generalizing s with
  | pure =>
    cases h
    rfl
  | fail => cases h
  | call _ _ ih => exact ih _ h

lemma exec_of_wp {fates : List φ} (h : wp step F C Q p s) (hfates : ∀ fate ∈ fates, F fate) :
    match exec step p fates s with
    | (some r, s') => Q r s'
    | (none, s') => C s' := by
  induction fates generalizing p s with
  | nil =>
    cases p with
    | pure a | fail e => exact h
    | call => exact h.1
  | cons fate _ ih =>
    cases p with
    | pure a | fail e => exact h
    | call =>
      refine ih (h.2 fate (hfates fate List.mem_cons_self)) fun fate' hfate' => ?_
      exact hfates fate' (List.mem_cons_of_mem _ hfate')

lemma wp_mono {Q' : Except ε α → σ → Prop} (h : wp step F C Q p s) (himp : ∀ r s', Q r s' → Q' r s') :
    wp step F C Q' p s := by
  induction p generalizing s with
  | pure a | fail e => exact himp _ _ h
  | call _ _ ih => exact ⟨h.1, fun fate hfate => ih _ (h.2 fate hfate)⟩

/-- What every step keeps holds at the end as well. -/
lemma wp_stable {R : σ → Prop} (hstep : ∀ op fate s, R s → R (step op fate s).2) (h : wp step F C Q p s)
    (hR : R s) : wp step F C (fun r s' => Q r s' ∧ R s') p s := by
  induction p generalizing s with
  | pure a | fail e => exact ⟨h, hR⟩
  | call op k ih => exact ⟨h.1, fun fate hfate => ih _ (h.2 fate hfate) (hstep op fate s hR)⟩

/-- The postcondition of a program that another one follows. -/
def andThen (Q : Except ε β → σ → Prop) (next : α → σ → Prop) : Except ε α → σ → Prop
  | .ok a, s => next a s
  | .error e, s => Q (.error e) s

lemma wp_bind {Q : Except ε β → σ → Prop} (h : wp step F C (andThen Q fun a => wp step F C Q (f a)) p s) :
    wp step F C Q (p >>= f) s := by
  induction p generalizing s with
  | pure a | fail e => exact h
  | call _ _ ih => exact ⟨h.1, fun fate hfate => ih _ (h.2 fate hfate)⟩

lemma wp_mapError {Q : Except ε' α → σ → Prop} {f : ε → ε'}
    (h : wp step F C (fun r => Q (r.mapError f)) p s) : wp step F C Q (p.mapError f) s := by
  induction p generalizing s with
  | pure a | fail e => exact h
  | call _ _ ih => exact ⟨h.1, fun fate hfate => ih _ (h.2 fate hfate)⟩

lemma wp_attempt {Q : Except ε' (Except ε α) → σ → Prop} (h : wp step F C (fun r => Q (.ok r)) p s) :
    wp step F C Q (p.attempt) s := by
  induction p generalizing s with
  | pure a | fail e => exact h
  | call _ _ ih => exact ⟨h.1, fun fate hfate => ih _ (h.2 fate hfate)⟩

lemma wp_ofExcept {x : Except ε α} (h : Q x s) : wp step F C Q (ofExcept x) s := by
  cases x <;> exact h

lemma wp_perform {op : Op} {Q : Except δ (Answer op) → σ → Prop} (hstop : C s)
    (h : ∀ fate, F fate → Q (step op fate s).1 (step op fate s).2) : wp step F C Q (perform op) s :=
  ⟨hstop, fun fate hfate => wp_ofExcept (h fate hfate)⟩

end Runs

end Io

end NoKV.Lib
