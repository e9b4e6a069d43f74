import Mathlib.Logic.Relation
import NoKV.Lib.Prog

/-!
# Sessions on a state

A session owns the state while it runs: it observes it with read programs and moves it, and it may
fail in between. What it moved before a failure stays moved.
-/

namespace NoKV.Lib

/-- A fallible computation on a state of type `σ`. -/
abbrev Session (σ ε : Type) := ExceptT ε (StateM σ)

namespace Session

variable {σ ε α β : Type}

def exec (x : Session σ ε α) (s : σ) : Except ε α × σ := x s

/-- Observe the state with a program. -/
def observe (p : Prog σ ε α) : Session σ ε α := fun s => (p.runAt s, s)

instance : MonadLift (Prog σ ε) (Session σ ε) := ⟨observe⟩

variable {s s' : σ}

@[simp] lemma exec_liftM (p : Prog σ ε α) : (liftM p : Session σ ε α).exec s = (p.runAt s, s) := rfl

@[simp] lemma exec_liftM_except (x : Except ε α) : (liftM x : Session σ ε α).exec s = (x, s) := rfl

@[simp] lemma exec_refuseIf (c : Prop) [Decidable c] (e : ε) :
    (refuseIf c e : Session σ ε Unit).exec s = (refuseIf c e, s) := by
  unfold refuseIf
  split <;> rfl

lemma exec_bind (x : Session σ ε α) (f : α → Session σ ε β) :
    (x >>= f).exec s = match x.exec s with
      | (.ok a, s') => (f a).exec s'
      | (.error e, s') => (.error e, s') := by
  unfold exec
  show (match x s with | (a, s') => ExceptT.bindCont f a s') = _
  rcases x s with ⟨a | e, _⟩ <;> rfl

variable {x : Session σ ε α} {e : ε} {f : α → Session σ ε β} {p : Prog σ ε α}

lemma bind_of_ok {a : α} (h : x.exec s = (.ok a, s')) : (x >>= f).exec s = (f a).exec s' := by
  rw [exec_bind, h]

lemma bind_of_error (h : x.exec s = (.error e, s')) : (x >>= f).exec s = (.error e, s') := by
  rw [exec_bind, h]

lemma bind_cases (x : Session σ ε α) (f : α → Session σ ε β) (s : σ) :
    (∃ e s', x.exec s = (.error e, s') ∧ (x >>= f).exec s = (.error e, s')) ∨
      ∃ a s', x.exec s = (.ok a, s') ∧ (x >>= f).exec s = (f a).exec s' := by
  rw [exec_bind]
  rcases x.exec s with ⟨e | a, s'⟩
  · exact .inl ⟨e, s', rfl, rfl⟩
  · exact .inr ⟨a, s', rfl, rfl⟩

lemma observe_bind_of_ok {a : α} (h : p.runAt s = .ok a) :
    ((liftM p : Session σ ε α) >>= f).exec s = (f a).exec s :=
  bind_of_ok (by rw [exec_liftM, h])

lemma refuseIf_bind_of_not {c : Prop} [Decidable c] {f : Unit → Session σ ε β} (h : ¬ c) :
    (refuseIf c e >>= f).exec s = (f ()).exec s :=
  bind_of_ok (by rw [exec_refuseIf, refuseIf_of_not h])

lemma refuseIf_bind_of {c : Prop} [Decidable c] {f : Unit → Session σ ε β} (h : c) :
    (refuseIf c e >>= f).exec s = (.error e, s) :=
  bind_of_error (by rw [exec_refuseIf, refuseIf_of h])

/-! ### Where a session moves the state -/

/-- The session moves the state in steps of `r`, also when it fails. -/
def Moves (r : σ → σ → Prop) (x : Session σ ε α) : Prop := ∀ s, Relation.ReflTransGen r s (x.exec s).2

variable {r : σ → σ → Prop}

lemma moves_pure (a : α) : Moves r (pure a : Session σ ε α) := fun _ => .refl

lemma moves_throw (e : ε) : Moves r (throw e : Session σ ε α) := fun _ => .refl

lemma moves_liftM (p : Prog σ ε α) : Moves r (liftM p : Session σ ε α) := fun _ => .refl

lemma moves_liftM_except (x : Except ε α) : Moves r (liftM x : Session σ ε α) := fun _ => .refl

lemma moves_refuseIf (c : Prop) [Decidable c] (e : ε) : Moves r (refuseIf c e : Session σ ε Unit) := by
  intro s
  rw [exec_refuseIf]

lemma Moves.bind (hx : Moves r x) (hf : ∀ a, Moves r (f a)) : Moves r (x >>= f) := by
  intro s
  have hs := hx s
  rw [exec_bind]
  rcases hexec : x.exec s with ⟨e | a, s'⟩
  · rw [hexec] at hs
    exact hs
  · rw [hexec] at hs
    exact hs.trans (hf a s')

end Session

end NoKV.Lib
