import NoKV.Lib.Except

/-!
# Programs that observe a shared state

A read-only client of a shared state is a tree: it observes the whole state at one moment and goes
on with what it saw, until it returns or fails. `runAt` runs it while the state stands still, `May`
lets every observation see any of a set of states, and `runFailing` lets observations fail.

* `runAt_bind`, `may_bind`: the semantics are compositional;
* `runFailing_cases`: a failed observation is the only difference that it makes;
* `Settles`: with a large enough bound, a bounded program ends, and always in the same way.
-/

namespace NoKV.Lib

/-- Why a bounded program stopped without a value: it failed, its loop bound ran out, or it reached
code that is declared unreachable. -/
inductive Halt (ε : Type) where
  | err (e : ε)
  | fuel
  | unreachable
  deriving DecidableEq

/-- A program that observes states of type `σ`, fails with `ε` and returns `α`. -/
inductive Prog (σ ε α : Type) where
  | pure (a : α)
  | fail (e : ε)
  | look (k : σ → Prog σ ε α)

namespace Prog

variable {σ ε α β : Type} {p : Prog σ ε α} {failed : ℕ → Option ε} {f : α → Prog σ ε β}

def bind : Prog σ ε α → (α → Prog σ ε β) → Prog σ ε β
  | .pure a, f => f a
  | .fail e, _ => .fail e
  | .look k, f => .look fun s => (k s).bind f

instance : Monad (Prog σ ε) where
  pure := Prog.pure
  bind := Prog.bind

instance : MonadExceptOf ε (Prog σ ε) where
  throw := Prog.fail
  tryCatch
    | .fail e, h => h e
    | p, _ => p

/-- The outcome of a computation that observes nothing. -/
def ofExcept : Except ε α → Prog σ ε α
  | .ok a => .pure a
  | .error e => .fail e

instance : MonadLift (Except ε) (Prog σ ε) := ⟨ofExcept⟩

/-- Observe the state. -/
def get : Prog σ ε σ := .look .pure

/-- A program without a loop bound, inside one with a bound. -/
def bounded : Prog σ ε α → Prog σ (Halt ε) α
  | .pure a => .pure a
  | .fail e => .fail (.err e)
  | .look k => .look fun s => (k s).bounded

instance : MonadLift (Prog σ ε) (Prog σ (Halt ε)) := ⟨bounded⟩

/-- The outcome of a program as a value. -/
def attempt : Prog σ ε α → Prog σ ε (Except ε α)
  | .pure a => .pure (.ok a)
  | .fail e => .pure (.error e)
  | .look k => .look fun s => (k s).attempt

/-- Run the program on a state that stands still. -/
def runAt (s : σ) : Prog σ ε α → Except ε α
  | .pure a => .ok a
  | .fail e => .error e
  | .look k => (k s).runAt s

section RunAt

variable (s : σ)

@[simp] lemma runAt_pure (a : α) : (Pure.pure a : Prog σ ε α).runAt s = .ok a := rfl

@[simp] lemma runAt_throw (e : ε) : (throw e : Prog σ ε α).runAt s = .error e := rfl

@[simp] lemma runAt_get : (get : Prog σ ε σ).runAt s = .ok s := rfl

@[simp] lemma runAt_look (k : σ → Prog σ ε α) : (look k).runAt s = (k s).runAt s := rfl

@[simp] lemma runAt_bind (p : Prog σ ε α) (f : α → Prog σ ε β) :
    (p >>= f).runAt s = p.runAt s >>= fun a => (f a).runAt s := by
  induction p with
  | pure => rfl
  | fail => rfl
  | look k ih => exact ih s

@[simp] lemma runAt_map (p : Prog σ ε α) (f : α → β) :
    (f <$> p).runAt s = f <$> p.runAt s := by
  induction p with
  | pure => rfl
  | fail => rfl
  | look k ih => exact ih s

@[simp] lemma runAt_ofExcept (x : Except ε α) : (ofExcept x : Prog σ ε α).runAt s = x := by
  cases x <;> rfl

@[simp] lemma runAt_liftM (x : Except ε α) : (liftM x : Prog σ ε α).runAt s = x :=
  runAt_ofExcept s x

@[simp] lemma runAt_refuseIf (c : Prop) [Decidable c] (e : ε) :
    (refuseIf c e : Prog σ ε Unit).runAt s = refuseIf c e := by
  unfold refuseIf
  split <;> rfl

@[simp] lemma runAt_okOr (x : Option α) (e : ε) :
    (okOr x e : Prog σ ε α).runAt s = okOr x e := by
  cases x <;> rfl

@[simp] lemma runAt_bounded (p : Prog σ ε α) : p.bounded.runAt s = (p.runAt s).mapError .err := by
  induction p with
  | pure => rfl
  | fail => rfl
  | look k ih => exact ih s

@[simp] lemma runAt_liftM_bounded (p : Prog σ ε α) :
    (liftM p : Prog σ (Halt ε) α).runAt s = (p.runAt s).mapError .err := runAt_bounded s p

@[simp] lemma runAt_attempt (p : Prog σ ε α) : p.attempt.runAt s = .ok (p.runAt s) := by
  induction p with
  | pure => rfl
  | fail => rfl
  | look k ih => exact ih s

@[simp] lemma runAt_foldlM {γ : Type} (f : β → γ → Prog σ ε β) (b : β) (l : List γ) :
    (l.foldlM f b).runAt s = l.foldlM (fun b c => (f b c).runAt s) b := by
  induction l generalizing b with
  | nil => rfl
  | cons c l ih =>
    rw [List.foldlM_cons, runAt_bind, List.foldlM_cons]
    exact bind_congr fun b' => ih b'

@[simp] lemma runAt_forM {γ : Type} (f : γ → Prog σ ε Unit) (l : List γ) :
    (l.forM f).runAt s = l.forM fun c => (f c).runAt s := by
  induction l with
  | nil => rfl
  | cons c l ih =>
    show (f c >>= fun _ => l.forM f).runAt s = (f c).runAt s >>= fun _ => l.forM fun c => (f c).runAt s
    rw [runAt_bind, ih]

@[simp] lemma runAt_ite (c : Prop) [Decidable c] (p q : Prog σ ε α) :
    (if c then p else q).runAt s = if c then p.runAt s else q.runAt s := by
  split <;> rfl

end RunAt

/-! ### Runs over a set of states -/

/-- The program can return `a` when every state it observes is one of `P`. -/
inductive May (P : σ → Prop) : Prog σ ε α → α → Prop
  | pure (a : α) : May P (.pure a) a
  | look {k : σ → Prog σ ε α} {s : σ} {a : α} : P s → May P (k s) a → May P (.look k) a

section May

variable {P : σ → Prop}

variable {p : Prog σ ε α} {a : α}

lemma may_of_runAt {s : σ} (hs : P s) (h : p.runAt s = .ok a) : May P p a := by
  induction p with
  | pure =>
    cases Except.ok.inj h
    exact .pure a
  | fail => cases h
  | look k ih => exact .look hs (ih s h)

lemma may_bind {f : α → Prog σ ε β} {b : β} : May P (p >>= f) b ↔ ∃ a, May P p a ∧ May P (f a) b := by
  induction p with
  | pure a =>
    refine ⟨fun h => ⟨a, .pure a, h⟩, ?_⟩
    rintro ⟨a', ha, h⟩
    cases ha
    exact h
  | fail =>
    refine ⟨(fun h => nomatch h), ?_⟩
    rintro ⟨_, ha, h⟩
    cases ha
  | look k ih =>
    constructor
    · intro h
      cases h with
      | look hs h =>
        obtain ⟨a, ha, hb⟩ := (ih _).1 h
        exact ⟨a, .look hs ha, hb⟩
    · rintro ⟨a, ha, hb⟩
      cases ha with
      | look hs ha => exact .look hs ((ih _).2 ⟨a, ha, hb⟩)

lemma may_pure {b : α} : May P (Pure.pure a : Prog σ ε α) b ↔ a = b := by
  constructor
  · intro h
    cases h
    rfl
  · rintro rfl
    exact .pure a

lemma may_get {s : σ} : May P (get : Prog σ ε σ) s ↔ P s := by
  constructor
  · intro h
    cases h with
    | look hs h =>
      cases h
      exact hs
  · intro hs
    exact .look hs (.pure s)

lemma may_liftM {x : Except ε α} : May P (liftM x : Prog σ ε α) a ↔ x = .ok a := by
  cases x with
  | ok =>
    constructor
    · intro h
      cases h
      rfl
    · intro h
      cases h
      exact .pure _
  | error => exact ⟨(fun h => nomatch h), (fun h => nomatch h)⟩

lemma may_fail {e : ε} : ¬ May P (fail e : Prog σ ε α) a := fun h => nomatch h

lemma may_bounded : May P p.bounded a ↔ May P p a := by
  induction p with
  | pure =>
    constructor
    · intro h
      cases h
      exact .pure _
    · intro h
      cases h
      exact .pure _
  | fail => exact ⟨(fun h => nomatch h), (fun h => nomatch h)⟩
  | look k ih =>
    constructor
    · intro h
      cases h with
      | look hs h => exact .look hs ((ih _).1 h)
    · intro h
      cases h with
      | look hs h => exact .look hs ((ih _).2 h)

lemma may_liftM_bounded : May P (liftM p : Prog σ (Halt ε) α) a ↔ May P p a := may_bounded

lemma may_refuseIf {c : Prop} [Decidable c] {e : ε} {u : Unit} :
    May P (refuseIf c e : Prog σ ε Unit) u ↔ ¬ c := by
  unfold refuseIf
  split
  next h => exact ⟨(fun h' => nomatch h'), fun h' => absurd h h'⟩
  next h => exact ⟨fun _ => h, fun _ => .pure ()⟩

end May

/-! ### Observations that fail -/

/-- Run the program on a state that stands still, where the observation with number `n` fails with
`failed n`. Returns the number of the next observation. -/
def runFailing (failed : ℕ → Option ε) (s : σ) : Prog σ ε α → ℕ → Except ε α × ℕ
  | .pure a, n => (.ok a, n)
  | .fail e, n => (.error e, n)
  | .look k, n =>
    match failed n with
    | some e => (.error e, n + 1)
    | none => (k s).runFailing failed s (n + 1)

/-- A run ends as if every observation succeeded, or with the failure of one. -/
lemma runFailing_cases (failed : ℕ → Option ε) (s : σ) (p : Prog σ ε α) (n : ℕ) :
    (p.runFailing failed s n).1 = p.runAt s ∨
      ∃ m e, failed m = some e ∧ (p.runFailing failed s n).1 = .error e := by
  induction p generalizing n with
  | pure a | fail e => exact .inl rfl
  | look k ih =>
    unfold runFailing
    cases hfailed : failed n with
    | some e => exact .inr ⟨n, e, hfailed, rfl⟩
    | none => exact ih s (n + 1)

lemma runAt_of_runFailing {s : σ} {n : ℕ} {a : α} (h : (p.runFailing failed s n).1 = .ok a) :
    p.runAt s = .ok a := by
  rcases runFailing_cases failed s p n with heq | ⟨m, e, -, heq⟩
  · rw [← heq, h]
  · rw [h] at heq
    cases heq

lemma runFailing_map (failed : ℕ → Option ε) (s : σ) (g : α → β) (p : Prog σ ε α) (n : ℕ) :
    ((g <$> p).runFailing failed s n).1 = g <$> (p.runFailing failed s n).1 := by
  induction p generalizing n with
  | pure a | fail e => rfl
  | look k ih =>
    show (runFailing failed s (.look fun s => g <$> k s) n).1 = _
    unfold runFailing
    cases failed n with
    | some e => rfl
    | none => exact ih s (n + 1)

/-- The program observes nothing. -/
def Blind (p : Prog σ ε α) : Prop := ∃ x : Except ε α, p = ofExcept x

lemma blind_pure (a : α) : Blind (Pure.pure a : Prog σ ε α) := ⟨.ok a, rfl⟩

lemma blind_throw (e : ε) : Blind (throw e : Prog σ ε α) := ⟨.error e, rfl⟩

lemma blind_liftM (x : Except ε α) : Blind (liftM x : Prog σ ε α) := ⟨x, rfl⟩

lemma blind_okOr (x : Option α) (e : ε) : Blind (okOr x e : Prog σ ε α) := by
  cases x with
  | none => exact blind_throw e
  | some a => exact blind_pure a

lemma Blind.bind (hp : Blind p) (hf : ∀ a, Blind (f a)) : Blind (p >>= f) := by
  obtain ⟨x, rfl⟩ := hp
  cases x with
  | error e => exact blind_throw e
  | ok a => exact hf a

/-- The program observes once and decides by what it saw. -/
def Once (p : Prog σ ε α) : Prop := ∃ k : σ → Prog σ ε α, p = look k ∧ ∀ s, Blind (k s)

lemma once_get : Once (get : Prog σ ε σ) := ⟨.pure, rfl, blind_pure⟩

lemma Once.bind (hp : Once p) (hf : ∀ a, Blind (f a)) : Once (p >>= f) := by
  obtain ⟨k, rfl, hk⟩ := hp
  exact ⟨fun s => k s >>= f, rfl, fun s => (hk s).bind hf⟩

lemma Once.runFailing (hp : Once p) (failed : ℕ → Option ε) (s : σ) (n : ℕ) :
    (p.runFailing failed s n).1 = match failed n with
      | some e => .error e
      | none => p.runAt s := by
  obtain ⟨k, rfl, hk⟩ := hp
  unfold Prog.runFailing
  cases failed n with
  | some => rfl
  | none =>
    obtain ⟨x, hx⟩ := hk s
    show ((k s).runFailing failed s (n + 1)).1 = (k s).runAt s
    rw [hx]
    cases x <;> rfl

end Prog

/-! ### Programs with a bound -/

/-- With every large enough bound the outcome is `x`. -/
def Settles {ε α : Type} (run : ℕ → Except (Halt ε) α) (x : Except ε α) : Prop :=
  ∃ bound, ∀ fuel ≥ bound, run fuel = x.mapError Halt.err

section Settles

variable {ε α β : Type} {run : ℕ → Except (Halt ε) α} {x : Except ε α}

lemma settles_of_eq (h : ∀ fuel, run fuel = x.mapError Halt.err) : Settles run x :=
  ⟨0, fun fuel _ => h fuel⟩

lemma settles_congr {run' : ℕ → Except (Halt ε) α} (h : Settles run x) (heq : ∀ fuel, run' fuel = run fuel) :
    Settles run' x := by
  obtain ⟨bound, hbound⟩ := h
  exact ⟨bound, fun fuel hfuel => (heq fuel).trans (hbound fuel hfuel)⟩

lemma Settles.bind (h : Settles run x) {next : ℕ → α → Except (Halt ε) β} {y : α → Except ε β}
    (hnext : ∀ a, x = .ok a → Settles (fun fuel => next fuel a) (y a)) :
    Settles (fun fuel => run fuel >>= next fuel) (x >>= y) := by
  obtain ⟨bound, hbound⟩ := h
  cases x with
  | error => exact ⟨bound, fun fuel hfuel => by dsimp only; rw [hbound fuel hfuel]; rfl⟩
  | ok a =>
    obtain ⟨bound', hbound'⟩ := hnext a rfl
    refine ⟨max bound bound', fun fuel hfuel => ?_⟩
    have hfirst := hbound fuel (Nat.le_trans (Nat.le_max_left _ _) hfuel)
    have hsecond := hbound' fuel (Nat.le_trans (Nat.le_max_right _ _) hfuel)
    dsimp only at hsecond ⊢
    rw [hfirst]
    exact hsecond

lemma Settles.map (h : Settles run x) (f : α → β) : Settles (fun fuel => f <$> run fuel) (f <$> x) := by
  obtain ⟨bound, hbound⟩ := h
  refine ⟨bound, fun fuel hfuel => ?_⟩
  dsimp only
  rw [hbound fuel hfuel]
  cases x <;> rfl

end Settles

end NoKV.Lib
