import Mathlib.Data.List.Forall2

/-!
# Fallible computations

`refuseIf` is the early return of a check that fails. `bind_eq_ok` and `refuseIf_eq_ok` turn the
success of a sequence of checked steps into the success of every step.
-/

namespace NoKV.Lib

open List

variable {ε α β : Type} {x : Except ε α} {b : β} {y : Except ε β} {f : α → Except ε β}

/-- Fail with `e` when the condition holds. -/
def refuseIf {m : Type → Type} [Pure m] [MonadExceptOf ε m] (c : Prop) [Decidable c] (e : ε) :
    m Unit :=
  if c then throwThe ε e else pure ()

/-- A value that must be there. -/
def okOr {m : Type → Type} [Pure m] [MonadExceptOf ε m] (x : Option α) (e : ε) : m α :=
  match x with
  | some a => pure a
  | none => throwThe ε e

/-- Check a value that may be absent. -/
def ifSome (x : Option α) (check : α → Except ε Unit) : Except ε Unit :=
  match x with
  | some a => check a
  | none => pure ()

lemma bind_eq_ok : (x >>= f) = .ok b ↔ ∃ a, x = .ok a ∧ f a = .ok b := by
  cases x with
  | ok a =>
    refine ⟨fun h => ⟨a, rfl, h⟩, ?_⟩
    rintro ⟨a', ha, h⟩
    cases ha
    exact h
  | error =>
    refine ⟨(fun h => nomatch h), ?_⟩
    rintro ⟨_, ha, _⟩
    cases ha

/-- A step whose value is not used has passed. -/
lemma ok_of_bind (h : (x >>= fun _ => y) = .ok b) : y = .ok b := by
  obtain ⟨_, _, h⟩ := bind_eq_ok.1 h
  exact h

lemma map_eq_ok {f : α → β} : (f <$> x) = .ok b ↔ ∃ a, x = .ok a ∧ f a = b := by
  cases x with
  | ok a | error e => simp [Functor.map, Except.map]

variable {a : α} {c : Prop} {e : ε} {u : Unit} {l : List α} {r : List β}

lemma pure_eq_ok {b : α} : (pure a : Except ε α) = .ok b ↔ a = b :=
  ⟨Except.ok.inj, fun h => h ▸ rfl⟩

lemma bind_pure_eq_ok {f : α → β} (h : (x >>= fun a => pure (f a)) = .ok b) : ∃ a, x = .ok a ∧ f a = b := by
  obtain ⟨a, hx, h⟩ := bind_eq_ok.1 h
  exact ⟨a, hx, pure_eq_ok.1 h⟩

@[simp] lemma refuseIf_eq_ok [Decidable c] : (refuseIf c e : Except ε Unit) = .ok u ↔ ¬ c := by
  unfold refuseIf
  split
  next h => exact ⟨(fun h' => nomatch h'), fun h' => absurd h h'⟩
  next h => exact ⟨fun _ => h, fun _ => rfl⟩

lemma of_refuseIf_not [Decidable (¬ c)] (h : (refuseIf (¬ c) e : Except ε Unit) = .ok u) : c :=
  not_not.1 (refuseIf_eq_ok.1 h)

/-- A check has passed, and what follows it. -/
lemma refuseIf_bind [Decidable c] (h : (refuseIf c e >>= fun _ => y) = .ok b) : ¬ c ∧ y = .ok b := by
  obtain ⟨_, hc, h⟩ := bind_eq_ok.1 h
  exact ⟨refuseIf_eq_ok.1 hc, h⟩

lemma refuseIf_not_bind [Decidable (¬ c)] (h : (refuseIf (¬ c) e >>= fun _ => y) = .ok b) :
    c ∧ y = .ok b := by
  obtain ⟨hc, h⟩ := refuseIf_bind h
  exact ⟨not_not.1 hc, h⟩

lemma refuseIf_of_not [Decidable c] (h : ¬ c) :
    (refuseIf c e : Except ε Unit) = .ok () := refuseIf_eq_ok.2 h

lemma refuseIf_of [Decidable c] (h : c) : (refuseIf c e : Except ε Unit) = .error e := if_pos h

@[simp] lemma okOr_eq_ok {x : Option α} : (okOr x e : Except ε α) = .ok a ↔ x = some a := by
  cases x with
  | none => exact ⟨(fun h => nomatch h), (fun h => nomatch h)⟩
  | some => exact ⟨fun h => congrArg some (Except.ok.inj h), fun h => Option.some.inj h ▸ rfl⟩

@[simp] lemma ifSome_eq_ok {x : Option α} {check : α → Except ε Unit} :
    ifSome x check = .ok u ↔ ∀ a, x = some a → check a = .ok () := by
  cases x with
  | none => exact ⟨(fun _ _ h => nomatch h), fun _ => rfl⟩
  | some a =>
    refine ⟨fun h b hb => ?_, fun h => h a rfl⟩
    cases hb
    exact h

@[simp] lemma ok_bind (a : α) (f : α → Except ε β) : (Except.ok a >>= f) = f a := rfl

lemma bind_congr_ok {g : α → Except ε β} (h : ∀ a, x = .ok a → f a = g a) : (x >>= f) = (x >>= g) := by
  cases x with
  | ok a => exact h a rfl
  | error => rfl

@[simp] lemma error_bind (e : ε) (f : α → Except ε β) : (Except.error e >>= f) = .error e := rfl

@[simp] lemma mapError_eq_ok {ε' : Type} {f : ε → ε'} : x.mapError f = .ok a ↔ x = .ok a := by
  cases x <;> simp [Except.mapError]

/-- What every step of a fold keeps, the fold keeps. -/
lemma foldlM_invariant {f : β → α → Except ε β} {b' : β} (P : β → Prop)
    (hstep : ∀ b a b', a ∈ l → P b → f b a = .ok b' → P b') (hb : P b) (h : l.foldlM f b = .ok b') : P b' := by
  induction l generalizing b with
  | nil =>
    cases Except.ok.inj h
    exact hb
  | cons a l ih =>
    obtain ⟨b₁, h₁, h⟩ := bind_eq_ok.1 h
    exact ih (fun b a b' ha => hstep b a b' (mem_cons_of_mem _ ha))
      (hstep b a b₁ (mem_cons_self ..) hb h₁) h

/-- A fold may leave out the elements that its step passes over. -/
lemma foldlM_filter {f : β → α → Except ε β} (p : α → Bool)
    (h : ∀ b, ∀ a ∈ l, p a = false → f b a = .ok b) (b : β) : l.foldlM f b = (l.filter p).foldlM f b := by
  induction l generalizing b with
  | nil => rfl
  | cons a l ih =>
    have hrest := ih fun b c hc => h b c (mem_cons_of_mem _ hc)
    rw [foldlM_cons]
    cases hp : p a with
    | false =>
      rw [h b a (mem_cons_self ..) hp, ok_bind, filter_cons_of_neg (by simp [hp])]
      exact hrest b
    | true =>
      rw [filter_cons_of_pos hp, foldlM_cons]
      exact bind_congr hrest

/-- A fold whose steps succeed and finish their element, once and for all, finishes every element. -/
lemma foldlM_total {f : β → α → Except ε β} (P : β → Prop) (Done : α → β → Prop)
    (hstep : ∀ b, ∀ a ∈ l, P b → ∃ b', f b a = .ok b' ∧ P b' ∧ Done a b' ∧ ∀ c, Done c b → Done c b') (hb : P b) :
    ∃ b', l.foldlM f b = .ok b' ∧ P b' ∧ (∀ a ∈ l, Done a b') ∧ ∀ c, Done c b → Done c b' := by
  induction l generalizing b with
  | nil => exact ⟨b, rfl, hb, fun a ha => absurd ha not_mem_nil, fun c hc => hc⟩
  | cons a l ih =>
    obtain ⟨_, h₁, hb₁, hdone, hkeep⟩ := hstep b a (mem_cons_self ..) hb
    obtain ⟨b', h', hb', hall, hkeep'⟩ :=
      ih (fun b c hc => hstep b c (mem_cons_of_mem _ hc)) hb₁
    refine ⟨b', ?_, hb', ?_, fun c hc => hkeep' c (hkeep c hc)⟩
    · rw [foldlM_cons, h₁, ok_bind, h']
    · intro c hc
      rcases mem_cons.1 hc with rfl | hc
      · exact hkeep' c hdone
      · exact hall c hc

lemma forM_eq_ok {f : α → Except ε Unit} : l.forM f = .ok u ↔ ∀ a ∈ l, f a = .ok () := by
  induction l with
  | nil => exact ⟨fun _ a ha => absurd ha not_mem_nil, fun _ => rfl⟩
  | cons a l ih =>
    show (f a >>= fun _ => l.forM f) = .ok u ↔ _
    rw [bind_eq_ok]
    constructor
    · rintro ⟨_, ha, hl⟩ b hb
      rcases mem_cons.1 hb with rfl | hb
      · exact ha
      · exact ih.1 hl b hb
    · intro h
      exact ⟨(), h a (mem_cons_self ..), ih.2 fun b hb => h b (mem_cons_of_mem _ hb)⟩

lemma exists_of_forall₂_right {R : α → β → Prop} (h : List.Forall₂ R l r) (hb : b ∈ r) : ∃ a ∈ l, R a b := by
  induction h with
  | nil => cases hb
  | cons hab _ ih =>
    rcases mem_cons.1 hb with rfl | hb
    · exact ⟨_, mem_cons_self .., hab⟩
    · obtain ⟨a, ha, hR⟩ := ih hb
      exact ⟨a, mem_cons_of_mem _ ha, hR⟩

lemma exists_of_forall₂_left {R : α → β → Prop} (h : List.Forall₂ R l r) (ha : a ∈ l) :
    ∃ b ∈ r, R a b := exists_of_forall₂_right h.flip ha

lemma mapM_eq_ok : l.mapM f = .ok r ↔ List.Forall₂ (fun a b => f a = .ok b) l r := by
  induction l generalizing r with
  | nil =>
    rw [mapM_nil, pure_eq_ok, forall₂_nil_left_iff, eq_comm]
  | cons a l ih =>
    rw [mapM_cons, bind_eq_ok, forall₂_cons_left_iff]
    constructor
    · rintro ⟨b, hb, h⟩
      obtain ⟨r', hr', h⟩ := bind_eq_ok.1 h
      exact ⟨b, r', hb, ih.1 hr', (pure_eq_ok.1 h).symm⟩
    · rintro ⟨b, r', hb, hr', rfl⟩
      exact ⟨b, hb, bind_eq_ok.2 ⟨r', ih.2 hr', rfl⟩⟩

lemma mapM_total (h : ∀ a ∈ l, ∃ b, f a = .ok b) : ∃ r, l.mapM f = .ok r := by
  induction l with
  | nil => exact ⟨[], rfl⟩
  | cons a l ih =>
    obtain ⟨b, hb⟩ := h a (mem_cons_self ..)
    obtain ⟨r, hr⟩ := ih fun c hc => h c (mem_cons_of_mem _ hc)
    exact ⟨b :: r, by rw [mapM_cons, hb, ok_bind, hr]; rfl⟩

/-! ### Two computations with one outcome -/

/-- The computations fail with one error, or return related values. -/
inductive Matches (R : α → β → Prop) : Except ε α → Except ε β → Prop
  | ok {a : α} {b : β} (related : R a b) : Matches R (.ok a) (.ok b)
  | error (e : ε) : Matches R (.error e) (.error e)

section Matches

variable {α' β' : Type} {R : α → β → Prop} {S : α' → β' → Prop} {x : Except ε α} {y : Except ε β}

section

variable (h : Matches R x y)
include h

lemma Matches.bind {f : α → Except ε α'} {g : β → Except ε β'}
    (hfg : ∀ a b, x = .ok a → y = .ok b → R a b → Matches S (f a) (g b)) : Matches S (x >>= f) (y >>= g) := by
  cases h with
  | ok hR => exact hfg _ _ rfl rfl hR
  | error e => exact .error e

lemma Matches.map {f : α → α'} {g : β → β'} (hfg : ∀ a b, R a b → S (f a) (g b)) :
    Matches S (f <$> x) (g <$> y) := by
  cases h with
  | ok hR => exact .ok (hfg _ _ hR)
  | error e => exact .error e

lemma Matches.mono {R' : α → β → Prop} (hR : ∀ a b, R a b → R' a b) : Matches R' x y := by
  cases h with
  | ok hab => exact .ok (hR _ _ hab)
  | error e => exact .error e

lemma Matches.mapError {ε' : Type} (f : ε → ε') : Matches R (x.mapError f) (y.mapError f) := by
  cases h with
  | ok hR => exact .ok hR
  | error e => exact .error (f e)

lemma Matches.and_eq_ok : Matches (fun a b => R a b ∧ x = .ok a ∧ y = .ok b) x y := by
  cases h with
  | ok hR => exact .ok ⟨hR, rfl, rfl⟩
  | error e => exact .error e

end

lemma matches_self (z : Except ε α) : Matches Eq z z := by
  cases z with
  | ok => exact .ok rfl
  | error e => exact .error e

/-- Equal computations go on alike. -/
lemma matches_bind {z z' : Except ε α} (h : z = z') {f : α → Except ε α'} {g : α → Except ε β'}
    (hfg : ∀ a, z = .ok a → Matches S (f a) (g a)) : Matches S (z >>= f) (z' >>= g) := by
  subst h
  cases z with
  | ok a => exact hfg a rfl
  | error e => exact .error e

end Matches

end NoKV.Lib
