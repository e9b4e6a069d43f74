import Mathlib.Data.Finset.Card
import Mathlib.Logic.Function.Basic
import NoKV.Lib.Fair

/-!
# Covering rounds

Any number of concurrent calls of `CoveringRounds::run` share the rounds of one proof. A stretch of code
under the lock is one step; a call releases the lock while it runs a round and while it waits for the
condition variable. The log keeps the order in which calls arrive and rounds start and return.

* `Inv`: a round that a call may take as its answer started behind the arrival of the call, since the
  number a call needs is above the number of every round that was started when the call took it;
* `covering_rounds`: rounds do not overlap, and the answer of a call is the outcome of a round that
  covers it; the calls of a fair run return, if they are finitely many;
* `call_overtaken`: with ever new calls one of them may wait for ever.
-/

namespace NoKV.Server.Rounds

open Lib List

/-! ### The calls -/

structure RoundState (T : Type) where
  started : ℕ
  completed : ℕ
  running : Bool
  succeeded : Option (ℕ × T)

/-- What a call returns: the outcome of a round, or that the lock is poisoned. -/
inductive Answer (T E : Type) where
  | outcome (outcome : Except E T)
  | poisoned

/-- Where a call stands between two stretches under the lock. -/
inductive Point (T E : Type) where
  | idle
  | arriving
  | waiting (needed : ℕ)
  | woken (needed : ℕ)
  | inRound (needed current : ℕ)
  | finishing (needed current : ℕ) (outcome : Except E T)
  | returned (answer : Answer T E)

inductive Event (T E ι : Type) where
  | arrive (i : ι)
  | start (i : ι) (current : ℕ)
  | finish (i : ι) (current : ℕ) (outcome : Except E T)

structure World (T E ι : Type) where
  state : RoundState T
  poisoned : Bool
  callers : ι → Point T E
  log : List (Event T E ι)

inductive Action (T E ι : Type) where
  | call (i : ι)
  /-- The call takes the lock and goes on until it releases it. -/
  | advance (i : ι)
  /-- The round that the call runs returns. -/
  | finishRound (i : ι) (outcome : Except E T)
  /-- The condition variable wakes the call without a notification. -/
  | spurious (i : ι)
  /-- A call panics under the lock. -/
  | poison

variable {T E ι : Type}

def World.init : World T E ι := ⟨⟨0, 0, false, none⟩, false, fun _ => .idle, []⟩

/-- What `notify_all` does to a call. -/
def Point.wake : Point T E → Point T E
  | .waiting needed => .woken needed
  | point => point

section Step

variable [DecidableEq ι]

def World.move (w : World T E ι) (i : ι) (point : Point T E) : World T E ι :=
  { w with callers := Function.update w.callers i point }

/-- One pass of the loop of `run`. -/
def World.pass (w : World T E ι) (i : ι) (needed : ℕ) : World T E ι :=
  match w.state.succeeded.filter fun success => needed ≤ success.1 with
  | some (_, value) => w.move i (.returned (.outcome (.ok value)))
  | none =>
    let needed := if needed ≤ w.state.completed then w.state.started + 1 else needed
    if w.state.running then w.move i (.waiting needed)
    else
      let current := w.state.started + 1
      { w.move i (.inRound needed current) with
        state := { w.state with running := true, started := current }
        log := w.log ++ [.start i current] }

/-- The stretch behind a round. -/
def World.finish (w : World T E ι) (i : ι) (needed current : ℕ) (outcome : Except E T) : World T E ι :=
  let succeeded := match outcome with
    | .ok value => some (current, value)
    | .error _ => w.state.succeeded
  let w := { w with
    state := { w.state with running := false, completed := current, succeeded }
    callers := fun j => (w.callers j).wake }
  if needed ≤ current then w.move i (.returned (.outcome outcome)) else w.pass i needed

/-- A stretch under the lock. -/
def World.locked (w : World T E ι) (i : ι) (stretch : World T E ι) : World T E ι :=
  if w.poisoned then w.move i (.returned .poisoned) else stretch

def step (w : World T E ι) : Action T E ι → Option (World T E ι)
  | .call i => match w.callers i with
    | .idle => some { w.move i .arriving with log := w.log ++ [.arrive i] }
    | _ => none
  | .advance i => match w.callers i with
    | .arriving => some (w.locked i (w.pass i (w.state.started + 1)))
    | .woken needed => some (w.locked i (w.pass i needed))
    | .finishing needed current outcome => some (w.locked i (w.finish i needed current outcome))
    | _ => none
  | .finishRound i outcome => match w.callers i with
    | .inRound needed current => some
      { w.move i (.finishing needed current outcome) with log := w.log ++ [.finish i current outcome] }
    | _ => none
  | .spurious i => match w.callers i with
    | .waiting needed => some (w.move i (.woken needed))
    | _ => none
  | .poison => some { w with poisoned := true }

end Step

/-! ### What holds along a run -/

/-- The call arrived, and the rounds from `needed` on were started behind that. -/
def Since (log : List (Event T E ι)) (i : ι) (needed : ℕ) : Prop :=
  ∃ a : ℕ, log[a]? = some (.arrive i) ∧ ∀ (b : ℕ) j c, b ≤ a → log[b]? = some (.start j c) → c < needed

/-- Round `current` of `j` started and returned. -/
def Ran (log : List (Event T E ι)) (j : ι) (current : ℕ) (outcome : Except E T) : Prop :=
  ∃ b d : ℕ, b < d ∧ log[b]? = some (.start j current) ∧ log[d]? = some (.finish j current outcome)

/-- A round of `j` that started behind the arrival of `i` returned the outcome. -/
def Covers (log : List (Event T E ι)) (i j : ι) (outcome : Except E T) : Prop :=
  ∃ current a b d : ℕ, a < b ∧ b < d ∧ log[a]? = some (.arrive i) ∧ log[b]? = some (.start j current) ∧
    log[d]? = some (.finish j current outcome)

def Point.round : Point T E → Option ℕ
  | .inRound _ current => some current
  | .finishing _ current _ => some current
  | _ => none

/-- What holds of one call. -/
def PointInv (w : World T E ι) (i : ι) : Point T E → Prop
  | .idle => True
  | .arriving => ∃ a : ℕ, w.log[a]? = some (.arrive i)
  | .waiting needed => needed ≤ w.state.started + 1 ∧ Since w.log i needed
  | .woken needed => needed ≤ w.state.started + 1 ∧ Since w.log i needed
  | .inRound needed current =>
    needed ≤ current ∧ Since w.log i needed ∧ ∃ b : ℕ, w.log[b]? = some (.start i current)
  | .finishing needed current outcome =>
    needed ≤ current ∧ Since w.log i needed ∧ Ran w.log i current outcome
  | .returned (.outcome (.ok value)) => ∃ j, Covers w.log i j (.ok value)
  | .returned (.outcome (.error error)) => Covers w.log i i (.error error)
  | .returned .poisoned => w.poisoned = true

structure Inv (w : World T E ι) : Prop where
  completed : w.state.completed ≤ w.state.started
  started : ∀ (b : ℕ) j c, w.log[b]? = some (.start j c) → c ≤ w.state.started
  succeeded : ∀ c value, w.state.succeeded = some (c, value) → ∃ j, Ran w.log j c (.ok value)
  /-- who runs a round runs the last one that was started, and runs it alone -/
  round : ∀ i c, (w.callers i).round = some c → w.state.running = true ∧ c = w.state.started ∧
    ∀ j, (w.callers j).round ≠ none → j = i
  /-- a call sleeps only while another one runs a round that will wake it -/
  asleep : w.poisoned = false → w.state.running = true → ∃ j, (w.callers j).round ≠ none
  waiting : ∀ i needed, w.callers i = .waiting needed → w.state.running = true
  callers : ∀ i, PointInv w i (w.callers i)

section Log

variable {log : List (Event T E ι)} {i j : ι} {needed current : ℕ} {outcome : Except E T}

lemma getElem?_grow {e : Event T E ι} {a : ℕ} (more : List (Event T E ι)) (h : log[a]? = some e) :
    (log ++ more)[a]? = some e := by
  rw [getElem?_append_left (List.getElem?_eq_some_iff.1 h).1, h]

lemma Since.grow (h : Since log i needed) (more : List (Event T E ι)) : Since (log ++ more) i needed := by
  obtain ⟨a, ha, hbefore⟩ := h
  have hlt := (List.getElem?_eq_some_iff.1 ha).1
  refine ⟨a, getElem?_grow more ha, fun b j c hb hstart => hbefore b j c hb ?_⟩
  rwa [getElem?_append_left (by omega)] at hstart

lemma Ran.grow (h : Ran log j current outcome) (more : List (Event T E ι)) :
    Ran (log ++ more) j current outcome := by
  obtain ⟨b, d, hlt, hb, hd⟩ := h
  exact ⟨b, d, hlt, getElem?_grow more hb, getElem?_grow more hd⟩

lemma Covers.grow (h : Covers log i j outcome) (more : List (Event T E ι)) :
    Covers (log ++ more) i j outcome := by
  obtain ⟨c, a, b, d, hab, hbd, ha, hb, hd⟩ := h
  exact ⟨c, a, b, d, hab, hbd, getElem?_grow more ha, getElem?_grow more hb, getElem?_grow more hd⟩

/-- A round from the needed one on covers the call. -/
lemma Ran.covers (h : Ran log j current outcome) (hsince : Since log i needed) (hle : needed ≤ current) :
    Covers log i j outcome := by
  obtain ⟨b, d, hbd, hb, hd⟩ := h
  obtain ⟨a, ha, hbefore⟩ := hsince
  refine ⟨current, a, b, d, ?_, hbd, ha, hb, hd⟩
  by_contra hle'
  exact absurd (hbefore b j current (by omega) hb) (by omega)

end Log

variable {w w' : World T E ι} {i j : ι} {point : Point T E} {needed : ℕ}

lemma PointInv.grow (h : PointInv w j point) {more : List (Event T E ι)} (hlog : w'.log = w.log ++ more)
    (hstarted : w.state.started ≤ w'.state.started) (hpoisoned : w.poisoned = true → w'.poisoned = true) :
    PointInv w' j point := by
  unfold PointInv at h ⊢
  rw [hlog]
  split at h
  · trivial
  · exact h.imp fun a ha => getElem?_grow more ha
  · exact ⟨by omega, h.2.grow more⟩
  · exact ⟨by omega, h.2.grow more⟩
  · exact ⟨h.1, h.2.1.grow more, h.2.2.imp fun b hb => getElem?_grow more hb⟩
  · exact ⟨h.1, h.2.1.grow more, h.2.2.grow more⟩
  · exact h.imp fun j hj => hj.grow more
  · exact h.grow more
  · exact hpoisoned h

/-- What a call needs from now on was not started before. -/
lemma Inv.since (h : Inv w) (harrived : ∃ a : ℕ, w.log[a]? = some (.arrive i))
    (hneeded : w.state.started < needed) : Since w.log i needed := by
  obtain ⟨a, ha⟩ := harrived
  exact ⟨a, ha, fun b j c _ hstart => (h.started b j c hstart).trans_lt hneeded⟩

/-- The log takes an event that starts no round. -/
lemma Inv.log (h : Inv w) {event : Event T E ι} (hstart : ∀ j c, event ≠ .start j c) :
    Inv { w with log := w.log ++ [event] } := by
  refine ⟨h.completed, fun b j c hb => ?_, fun c value hs => ?_, h.round, h.asleep, h.waiting, fun j => ?_⟩
  · rcases mem_append.1 (mem_of_getElem? hb) with hmem | hmem
    · obtain ⟨b, hb⟩ := mem_iff_getElem?.1 hmem
      exact h.started b j c hb
    · exact absurd (mem_singleton.1 hmem).symm (hstart j c)
  · exact (h.succeeded c value hs).imp fun j hj => hj.grow _
  · exact (h.callers j).grow rfl le_rfl id

lemma inv_init : Inv (World.init : World T E ι) :=
  ⟨le_rfl, by simp [World.init], by simp [World.init], by simp [World.init, Point.round],
    by simp [World.init], by simp [World.init], fun _ => trivial⟩

variable [DecidableEq ι] {stretch : World T E ι}

/-- A call moves to another point and goes on with its round, or runs none. -/
lemma Inv.move (h : Inv w)
    (hround : point.round = (w.callers i).round ∨ point.round = none ∧ w.poisoned = true)
    (hwaiting : ∀ needed, point = .waiting needed → w.state.running = true) (hpoint : PointInv w i point) :
    Inv (w.move i point) := by
  have hsame : ∀ j, ((w.move i point).callers j).round = (w.callers j).round ∨
      ((w.move i point).callers j).round = none ∧ w.poisoned = true := by
    intro j
    by_cases hj : j = i
    · simpa [World.move, hj] using hround
    · simp [World.move, hj]
  have hsome : ∀ j c, ((w.move i point).callers j).round = some c → (w.callers j).round = some c := by
    intro j c hc
    rcases hsame j with heq | ⟨hnone, _⟩
    · rw [← heq, hc]
    · simp [hnone] at hc
  refine ⟨h.completed, h.started, h.succeeded, fun j c hc => ?_, fun hsafe hrun => ?_, fun j needed hj => ?_,
    fun j => ?_⟩
  · obtain ⟨hrun, hlast, halone⟩ := h.round j c (hsome j c hc)
    refine ⟨hrun, hlast, fun k hk => halone k ?_⟩
    obtain ⟨d, hd⟩ := Option.ne_none_iff_exists'.1 hk
    simp [hsome k d hd]
  · obtain ⟨j, hj⟩ := h.asleep hsafe hrun
    have hsafe : w.poisoned = false := hsafe
    rcases hsame j with heq | ⟨_, hbad⟩
    · exact ⟨j, heq ▸ hj⟩
    · simp [hsafe] at hbad
  · by_cases hji : j = i
    · exact hwaiting needed (by simpa [World.move, hji] using hj)
    · exact h.waiting j needed (by simpa [World.move, hji] using hj)
  · by_cases hj : j = i
    · simpa [World.move, hj, PointInv] using hpoint
    · simpa [World.move, hj, PointInv] using h.callers j

/-- A call that finds no round running starts one. -/
lemma Inv.start (h : Inv w) (hrun : w.state.running = false) (hsince : Since w.log i needed)
    (hle : needed ≤ w.state.started + 1) : Inv
      { w.move i (.inRound needed (w.state.started + 1)) with
        state := { w.state with running := true, started := w.state.started + 1 }
        log := w.log ++ [.start i (w.state.started + 1)] } := by
  have hidle : ∀ j, (w.callers j).round = none := by
    intro j
    by_contra hj
    obtain ⟨c, hc⟩ := Option.ne_none_iff_exists'.1 hj
    simp [(h.round j c hc).1] at hrun
  have halone : ∀ j, ((w.move i (.inRound needed (w.state.started + 1))).callers j).round ≠ none → j = i := by
    intro j hj
    by_contra hji
    simp [World.move, hji, hidle] at hj
  refine ⟨h.completed.trans (Nat.le_succ _), fun b j c hb => ?_, fun c value hs => ?_, fun j c hc => ?_,
    fun _ _ => ⟨i, by simp [World.move, Point.round]⟩, fun _ _ _ => rfl, fun j => ?_⟩
  · rcases mem_append.1 (mem_of_getElem? hb) with hmem | hmem
    · obtain ⟨b, hb⟩ := mem_iff_getElem?.1 hmem
      exact (h.started b j c hb).trans (Nat.le_succ _)
    · simp only [mem_singleton, Event.start.injEq] at hmem
      simp [hmem.2]
  · exact (h.succeeded c value hs).imp fun j hj => hj.grow _
  · obtain rfl := halone j (by simp [hc])
    refine ⟨rfl, ?_, halone⟩
    simpa [World.move, Point.round, eq_comm] using hc
  · by_cases hj : j = i
    · subst hj
      simp only [World.move, Function.update_self]
      exact ⟨hle, hsince.grow _, w.log.length, by simp⟩
    · simp only [World.move, Function.update_of_ne hj]
      exact (h.callers j).grow rfl (Nat.le_succ _) id

lemma Inv.pass (h : Inv w) (hround : (w.callers i).round = none) (hsince : Since w.log i needed)
    (hle : needed ≤ w.state.started + 1) : Inv (w.pass i needed) := by
  unfold World.pass
  split
  next c value hs =>
    obtain ⟨hs, hc⟩ := Option.filter_eq_some_iff.1 hs
    obtain ⟨j, hran⟩ := h.succeeded c value hs
    exact h.move (Or.inl hround.symm) (by simp) ⟨j, hran.covers hsince (by simpa using hc)⟩
  next =>
    -- the number a call needs grows only to one that no round has yet
    have hnext : ∀ next, (next = if needed ≤ w.state.completed then w.state.started + 1 else needed) →
        Since w.log i next ∧ next ≤ w.state.started + 1 := by
      rintro _ rfl
      split
      · exact ⟨h.since (hsince.imp fun a ha => ha.1) (Nat.lt_succ_self _), le_rfl⟩
      · exact ⟨hsince, hle⟩
    obtain ⟨hsince, hle⟩ := hnext _ rfl
    by_cases hrun : w.state.running = true
    · rw [if_pos hrun]
      exact h.move (Or.inl hround.symm) (fun _ _ => hrun) ⟨hle, hsince⟩
    · rw [if_neg hrun]
      exact h.start (by simpa using hrun) hsince hle

lemma Point.round_wake (point : Point T E) : point.wake.round = point.round := by
  cases point <;> rfl

lemma Inv.finish (h : Inv w) {current : ℕ} {outcome : Except E T}
    (hpoint : w.callers i = .finishing needed current outcome) : Inv (w.finish i needed current outcome) := by
  have hi := h.callers i
  rw [hpoint] at hi
  obtain ⟨hle, hsince, hran⟩ := hi
  obtain ⟨_, hlast, halone⟩ := h.round i current (by simp [hpoint, Point.round])
  have hcovers := hran.covers hsince hle
  unfold World.finish
  rw [if_pos hle]
  -- the round of the call was the only one, so that none is left
  have hnone : ∀ j, (Function.update (fun j => (w.callers j).wake) i (.returned (.outcome outcome)) j).round
      = none := by
    intro j
    by_cases hj : j = i
    · simp [hj, Point.round]
    · rw [Function.update_of_ne hj, Point.round_wake]
      by_contra hround
      exact hj (halone j hround)
  refine ⟨hlast.le, h.started, fun c value hs => ?_, fun j c hc => ?_, fun _ hrun => ?_, fun j needed hj => ?_,
    fun j => ?_⟩
  · cases outcome with
    | ok =>
      obtain ⟨rfl, rfl⟩ := hs
      exact ⟨i, hran⟩
    | error => exact h.succeeded c value hs
  · simp [World.move, hnone j] at hc
  · simp [World.move] at hrun
  · -- everybody who waited is woken
    by_cases hji : j = i
    · simp [World.move, hji] at hj
    · simp only [World.move, Function.update_of_ne hji] at hj
      cases hcall : w.callers j <;> simp [hcall, Point.wake] at hj
  · -- the call returns the outcome of a round that started behind its arrival
    by_cases hj : j = i
    · subst hj
      simp only [World.move, Function.update_self]
      cases outcome with
      | ok => exact ⟨j, hcovers⟩
      | error => exact hcovers
    · simp only [World.move, Function.update_of_ne hj]
      have hother := h.callers j
      cases hcall : w.callers j <;> rw [hcall] at hother <;> exact hother

lemma Inv.locked (h : Inv w) (hstretch : Inv stretch) : Inv (w.locked i stretch) := by
  unfold World.locked
  split
  next hbad => exact h.move (Or.inr ⟨rfl, hbad⟩) (by simp) hbad
  next => exact hstretch

lemma inv_step (w : World T E ι) (action : Action T E ι) (w' : World T E ι) (h : Inv w)
    (hstep : step w action = some w') : Inv w' := by
  unfold step at hstep
  split at hstep
  next i =>
    -- the call arrives
    split at hstep <;> simp only [Option.some.injEq, reduceCtorEq] at hstep
    next hpoint =>
      subst hstep
      exact (h.log (by simp)).move (Or.inl (by simp [hpoint, Point.round])) (by simp) ⟨w.log.length, by simp⟩
  next i =>
    -- it has the lock: for the first time, woken, or with the outcome of its round
    have hi := h.callers i
    split at hstep <;> simp only [Option.some.injEq, reduceCtorEq] at hstep
    next hpoint =>
      subst hstep
      rw [hpoint] at hi
      exact h.locked (h.pass (by simp [hpoint, Point.round]) (h.since hi (Nat.lt_succ_self _)) le_rfl)
    next needed hpoint =>
      subst hstep
      rw [hpoint] at hi
      exact h.locked (h.pass (by simp [hpoint, Point.round]) hi.2 hi.1)
    next needed current outcome hpoint =>
      subst hstep
      exact h.locked (h.finish hpoint)
  next i outcome =>
    -- the round returns
    have hi := h.callers i
    split at hstep <;> simp only [Option.some.injEq, reduceCtorEq] at hstep
    next needed current hpoint =>
      subst hstep
      rw [hpoint] at hi
      obtain ⟨hle, hsince, b, hb⟩ := hi
      refine (h.log (by simp)).move (Or.inl (by simp [hpoint, Point.round])) (by simp) ⟨hle, hsince.grow _, ?_⟩
      exact ⟨b, w.log.length, (List.getElem?_eq_some_iff.1 hb).1, getElem?_grow _ hb, by simp⟩
  next i =>
    -- a waiting call is woken without a notification
    have hi := h.callers i
    split at hstep <;> simp only [Option.some.injEq, reduceCtorEq] at hstep
    next needed hpoint =>
      subst hstep
      rw [hpoint] at hi
      exact h.move (Or.inl (by simp [hpoint, Point.round])) (by simp) hi
  next =>
    -- the lock is poisoned
    simp only [Option.some.injEq] at hstep
    subst hstep
    exact ⟨h.completed, h.started, h.succeeded, h.round, by simp, h.waiting,
      fun j => (h.callers j).grow (append_nil _).symm le_rfl fun _ => rfl⟩

/-! ### Every call returns -/

def Point.isReturned : Point T E → Bool
  | .returned _ => true
  | _ => false

/-- The next move of the call is its own, under the lock. -/
def Point.ready : Point T E → Bool
  | .arriving => true
  | .woken _ => true
  | .finishing _ _ _ => true
  | _ => false

lemma pass_point (w : World T E ι) (i : ι) (needed : ℕ) :
    ((w.pass i needed).callers i).isReturned = true ∨ ((w.pass i needed).callers i).round ≠ none ∨
      ∃ next, (w.pass i needed).callers i = .waiting next := by
  unfold World.pass
  split
  · simp [World.move, Point.isReturned]
  · dsimp only
    split <;> simp [World.move, Point.round]

lemma pass_called (w : World T E ι) (i : ι) (needed : ℕ) : (w.pass i needed).callers i ≠ .idle := by
  intro hidle
  rcases pass_point w i needed with h | h | ⟨_, h⟩ <;> simp [hidle, Point.isReturned, Point.round] at h

lemma pass_other (hj : j ≠ i) : (w.pass i needed).callers j = w.callers j := by
  unfold World.pass
  split
  · simp [World.move, hj]
  · dsimp only
    split <;> simp [World.move, hj]

lemma finish_other {current : ℕ} {outcome : Except E T} (hj : j ≠ i) :
    (w.finish i needed current outcome).callers j = (w.callers j).wake := by
  unfold World.finish
  dsimp only
  split
  · simp [World.move, hj]
  · simp [pass_other hj]

lemma finish_called (w : World T E ι) (i : ι) (needed current : ℕ) (outcome : Except E T) :
    (w.finish i needed current outcome).callers i ≠ .idle := by
  unfold World.finish
  dsimp only
  split
  · simp [World.move]
  · exact pass_called _ i needed

/-- How an action moves the call `i`. -/
inductive Moves (i : ι) : Action T E ι → Point T E → Point T E → Prop where
  | stay {action : Action T E ι} {point : Point T E} : Moves i action point point
  | wake {action : Action T E ι} {needed : ℕ} : Moves i action (.waiting needed) (.woken needed)
  | call : Moves i (.call i) .idle .arriving
  | look {point point' : Point T E} : point.ready = true → point' ≠ .idle → Moves i (.advance i) point point'
  | round {needed current : ℕ} {outcome : Except E T} :
    Moves i (.finishRound i outcome) (.inRound needed current) (.finishing needed current outcome)

omit [DecidableEq ι] in
lemma moves_wake {action : Action T E ι} : Moves i action point point.wake := by
  cases point <;> constructor

lemma locked_moves (hready : (w.callers i).ready = true) (hown : stretch.callers i ≠ .idle)
    (hother : ∀ j, j ≠ i → Moves j (.advance i) (w.callers j) (stretch.callers j)) (j : ι) :
    Moves j (.advance i) (w.callers j) ((w.locked i stretch).callers j) := by
  unfold World.locked
  by_cases hj : j = i
  · subst hj
    refine .look hready ?_
    split <;> simp [World.move, hown]
  · split
    · simpa [World.move, hj] using .stay
    · exact hother j hj

section Step

variable {action : Action T E ι} (hstep : step w action = some w')

include hstep

lemma step_moves (j : ι) : Moves j action (w.callers j) (w'.callers j) := by
  have hmove : ∀ i point, Moves i action (w.callers i) point →
      Moves j action (w.callers j) ((w.move i point).callers j) := by
    intro i point hmoves
    by_cases hj : j = i
    · simpa [World.move, hj] using hmoves
    · simpa [World.move, hj] using .stay
  unfold step at hstep
  split at hstep
  next i =>
    split at hstep <;> cases hstep
    next hpoint => exact hmove i _ (hpoint ▸ .call)
  next i =>
    split at hstep <;> cases hstep
    next hpoint =>
      exact locked_moves (by simp [hpoint, Point.ready]) (pass_called w i _)
        (fun j hj => by simpa [pass_other hj] using .stay) j
    next hpoint =>
      exact locked_moves (by simp [hpoint, Point.ready]) (pass_called w i _)
        (fun j hj => by simpa [pass_other hj] using .stay) j
    next needed current outcome hpoint =>
      exact locked_moves (by simp [hpoint, Point.ready]) (finish_called w i needed current outcome)
        (fun j hj => by simpa [finish_other hj] using moves_wake) j
  next i _ =>
    split at hstep <;> cases hstep
    next hpoint => exact hmove i _ (hpoint ▸ .round)
  next i =>
    split at hstep <;> cases hstep
    next hpoint => exact hmove i _ (hpoint ▸ .wake)
  next =>
    cases hstep
    exact .stay

lemma step_ready (hready : (w.callers i).ready = true) :
    w'.callers i = w.callers i ∨ action = .advance i := by
  have hmoves := step_moves hstep i
  generalize w.callers i = point, w'.callers i = point' at hmoves hready
  cases hmoves <;> simp_all [Point.ready]

lemma step_returned (hdone : (w.callers i).isReturned = true) : (w'.callers i).isReturned = true := by
  have hmoves := step_moves hstep i
  generalize w.callers i = point, w'.callers i = point' at hmoves hdone
  cases hmoves with
  | look => cases point <;> simp_all [Point.ready, Point.isReturned]
  | _ => simp_all [Point.isReturned]

lemma step_called (hcalled : w.callers i ≠ .idle) : w'.callers i ≠ .idle := by
  have hmoves := step_moves hstep i
  generalize w.callers i = point, w'.callers i = point' at hmoves hcalled
  cases hmoves <;> simp_all

end Step

section Live

variable {ρ : Run (step : World T E ι → Action T E ι → Option (World T E ι))}
  (h0 : ρ.state 0 = .init) (hsafe : ∀ m, (ρ.state m).poisoned = false) (hfair : ∀ i, ρ.Fair (.advance i))
  (hrounds : ∀ i m needed current, (ρ.state m).callers i = .inRound needed current →
    ∃ k outcome, m ≤ k ∧ ρ.action k = some (.finishRound i outcome))

include h0 in
lemma run_inv (m : ℕ) : Inv (ρ.state m) := Run.invariant inv_step (h0 ▸ inv_init) m

include h0 hsafe hfair

lemma leadsTo_advance {Q : World T E ι → Prop} (hready : point.ready = true)
    (hact : ∀ w w', Inv w → w.poisoned = false → w.callers i = point →
      step w (.advance i) = some w' → Q w') : ρ.LeadsTo (fun w => w.callers i = point) Q := by
  have htaken : ∀ w w', Inv w ∧ w.callers i = point → step w (.advance i) = some w' →
      Q w' ∨ w'.poisoned = true := by
    intro w w' ⟨hinv, hpoint⟩ hstep
    cases hbad : w.poisoned with
    | false => exact Or.inl (hact w w' hinv hbad hpoint hstep)
    | true =>
      right
      simp only [step] at hstep
      split at hstep <;> simp only [Option.some.injEq, reduceCtorEq] at hstep <;>
        simp [← hstep, World.locked, hbad, World.move]
  have hleads := Run.leadsTo_of_fair (hfair i) (P := fun w => Inv w ∧ w.callers i = point)
    (Q := fun w => Q w ∨ w.poisoned = true) ?_ htaken ?_
  · intro m hm
    obtain ⟨k, hmk, hq | hbad⟩ := hleads m ⟨run_inv h0 m, hm⟩
    · exact ⟨k, hmk, hq⟩
    · simp [hsafe k] at hbad
  · intro w b w' ⟨hinv, hpoint⟩ hstep
    rcases step_ready hstep (hpoint ▸ hready) with hsame | rfl
    · exact Or.inl ⟨inv_step _ _ _ hinv hstep, hsame.trans hpoint⟩
    · exact Or.inr (htaken w w' ⟨hinv, hpoint⟩ hstep)
  · intro m hm
    refine ⟨m, le_rfl, ?_⟩
    have hpoint := (hm m le_rfl).2
    cases point <;> simp_all [step, Point.ready]

lemma finishing_returns {needed current : ℕ} {outcome : Except E T} :
    ρ.LeadsTo (fun w => w.callers i = .finishing needed current outcome)
      fun w => (w.callers i).isReturned = true := by
  refine leadsTo_advance h0 hsafe hfair rfl fun w w' hinv hsafe hpoint hstep => ?_
  have hi := hinv.callers i
  rw [hpoint] at hi
  simp only [step, hpoint, Option.some.injEq] at hstep
  simp [← hstep, World.locked, hsafe, World.finish, hi.1, World.move, Point.isReturned]

include hrounds

lemma round_returns : ρ.LeadsTo (fun w => (w.callers i).round ≠ none)
    fun w => (w.callers i).isReturned = true := by
  intro m hm
  cases hpoint : (ρ.state m).callers i with
  | inRound needed current =>
    obtain ⟨k, outcome, _, hk⟩ := hrounds i m needed current hpoint
    rcases ρ.next k with ⟨hnone, _⟩ | ⟨a, ha, hstep⟩
    · simp [hk] at hnone
    · obtain rfl := Option.some.inj (hk.symm.trans ha)
      simp only [step] at hstep
      split at hstep <;> simp only [Option.some.injEq, reduceCtorEq] at hstep
      next needed current _ =>
        have hpoint : (ρ.state (k + 1)).callers i = .finishing needed current outcome := by
          simp [← hstep, World.move]
        obtain ⟨l, _, hl⟩ := finishing_returns h0 hsafe hfair (k + 1) hpoint
        exact ⟨l, by omega, hl⟩
  | finishing => exact finishing_returns h0 hsafe hfair m hpoint
  | _ => simp [hpoint, Point.round] at hm

omit hrounds

/-- A call that is about to look at the rounds returns, runs one, or sleeps. -/
lemma ready_passes (hpoint : point = .arriving ∨ ∃ needed, point = .woken needed) :
    ρ.LeadsTo (fun w => w.callers i = point) fun w => (w.callers i).isReturned = true ∨
      (w.callers i).round ≠ none ∨ ∃ needed, w.callers i = .waiting needed := by
  have hready : point.ready = true := by
    rcases hpoint with rfl | ⟨_, rfl⟩ <;> rfl
  refine leadsTo_advance h0 hsafe hfair hready fun w w' _ hsafe hw hstep => ?_
  have hpass : ∃ needed, w.pass i needed = w' := by
    rcases hpoint with rfl | ⟨needed, rfl⟩ <;>
      simp only [step, hw, World.locked, hsafe, Option.some.injEq] at hstep <;> exact ⟨_, hstep⟩
  obtain ⟨needed, rfl⟩ := hpass
  exact pass_point w i needed

/-- A call that is under way returns, or a round is run: who sleeps is not alone. -/
lemma leadsTo_round : ρ.LeadsTo (fun w => w.callers i ≠ .idle)
    fun w => (w.callers i).isReturned = true ∨ ∃ j, (w.callers j).round ≠ none := by
  have hasleep : ∀ m needed, (ρ.state m).callers i = .waiting needed →
      ∃ j, ((ρ.state m).callers j).round ≠ none := by
    intro m needed hwait
    have hinv := run_inv h0 m
    exact hinv.asleep (hsafe m) (hinv.waiting i needed hwait)
  have hready : ∀ m point, (point = .arriving ∨ ∃ needed, point = .woken needed) →
      (ρ.state m).callers i = point → ∃ k, m ≤ k ∧
        (((ρ.state k).callers i).isReturned = true ∨ ∃ j, ((ρ.state k).callers j).round ≠ none) := by
    intro m point hpoint hm
    obtain ⟨k, hmk, hdone | hround | ⟨needed, hwait⟩⟩ := ready_passes h0 hsafe hfair hpoint m hm
    · exact ⟨k, hmk, Or.inl hdone⟩
    · exact ⟨k, hmk, Or.inr ⟨i, hround⟩⟩
    · exact ⟨k, hmk, Or.inr (hasleep k needed hwait)⟩
  intro m hm
  cases hpoint : (ρ.state m).callers i with
  | idle => exact absurd hpoint hm
  | arriving => exact hready m _ (Or.inl rfl) hpoint
  | woken needed => exact hready m _ (Or.inr ⟨needed, rfl⟩) hpoint
  | waiting needed => exact ⟨m, le_rfl, Or.inr (hasleep m needed hpoint)⟩
  | inRound needed current | finishing needed current outcome =>
    exact ⟨m, le_rfl, Or.inr ⟨i, by simp [hpoint, Point.round]⟩⟩
  | returned => exact ⟨m, le_rfl, Or.inl (by simp [hpoint, Point.isReturned])⟩

omit h0 hsafe hfair in
lemma returned_from {m k : ℕ} (hmk : m ≤ k) (hdone : ((ρ.state m).callers i).isReturned = true) :
    ((ρ.state k).callers i).isReturned = true :=
  Run.invariant_from (fun _ _ _ h hstep => step_returned hstep h) hdone hmk

include hrounds

/-- Each round ends with the return of the call that ran it, so that the calls that have not returned
grow fewer until the call at hand is not one of them. -/
lemma call_returns {called : Finset ι} (hcalled : ∀ m i, (ρ.state m).callers i ≠ .idle → i ∈ called) :
    ρ.LeadsTo (fun w => w.callers i ≠ .idle) fun w => (w.callers i).isReturned = true := by
  apply Run.leadsTo_of_rank fun w => (called.filter fun j => (w.callers j).isReturned = false).card
  intro k m ⟨hm, hk⟩
  obtain ⟨a, hma, hdone | ⟨j, hj⟩⟩ := leadsTo_round h0 hsafe hfair m hm
  · exact ⟨a, hma, Or.inl hdone⟩
  obtain ⟨b, hab, hb⟩ := round_returns h0 hsafe hfair hrounds a hj
  have hmb := hma.trans hab
  refine ⟨b, hmb, Or.inr ⟨Run.invariant_from (fun _ _ _ h hstep => step_called hstep h) hm hmb, ?_⟩⟩
  rw [← hk]
  -- `j` had not returned at first, and has now
  have hja : ((ρ.state a).callers j).isReturned = false ∧ (ρ.state a).callers j ≠ .idle := by
    cases hpoint : (ρ.state a).callers j <;> simp_all [Point.round, Point.isReturned]
  refine Finset.card_lt_card (Finset.ssubset_iff_of_subset ?_ |>.2 ⟨j, ?_, by simp [hb]⟩)
  · intro l hl
    simp only [Finset.mem_filter] at hl ⊢
    refine ⟨hl.1, Bool.eq_false_iff.2 fun hdone => ?_⟩
    simp [returned_from hmb hdone] at hl
  · simp only [Finset.mem_filter]
    refine ⟨hcalled a j hja.2, Bool.eq_false_iff.2 fun hdone => ?_⟩
    simp [returned_from hma hdone] at hja

end Live

/-- What the callers of `run` may rely on. -/
structure Covering (T E ι : Type) [DecidableEq ι] : Prop where
  one_round : ∀ actions w, exec step (World.init : World T E ι) actions = some w → ∀ i j needed needed' c c',
    w.callers i = .inRound needed c → w.callers j = .inRound needed' c' → i = j
  ok : ∀ actions w, exec step (World.init : World T E ι) actions = some w → ∀ i value,
    w.callers i = .returned (.outcome (.ok value)) → ∃ j, Covers w.log i j (.ok value)
  error : ∀ actions w, exec step (World.init : World T E ι) actions = some w → ∀ i error,
    w.callers i = .returned (.outcome (.error error)) → Covers w.log i i (.error error)
  poisoned : ∀ actions w, exec step (World.init : World T E ι) actions = some w → ∀ i,
    w.callers i = .returned .poisoned → w.poisoned = true
  /-- of finitely many calls, if each round returns and whoever asks for the lock gets it -/
  returns : ∀ ρ : Run (step : World T E ι → Action T E ι → Option (World T E ι)), ρ.state 0 = .init →
    (∃ called : Finset ι, ∀ m i, (ρ.state m).callers i ≠ .idle → i ∈ called) →
    (∀ m, (ρ.state m).poisoned = false) → (∀ i, ρ.Fair (.advance i)) →
    (∀ i m needed current, (ρ.state m).callers i = .inRound needed current →
      ∃ k outcome, m ≤ k ∧ ρ.action k = some (.finishRound i outcome)) →
    ∀ i m, (ρ.state m).callers i ≠ .idle → ∃ k outcome, m ≤ k ∧
      (ρ.state k).callers i = .returned (.outcome outcome)

/-- **Covering rounds.** -/
theorem covering_rounds (T E ι : Type) [DecidableEq ι] : Covering T E ι := by
  have hrun : ∀ actions w, exec step (World.init : World T E ι) actions = some w → Inv w :=
    fun actions w h => exec_invariant inv_step inv_init h
  refine ⟨fun actions w h i j _ _ c c' hi hj => ?_, fun actions w h i value hi => ?_,
    fun actions w h i error hi => ?_, fun actions w h i hi => ?_, ?_⟩
  · exact ((hrun actions w h).round j c' (by simp [hj, Point.round])).2.2 i (by simp [hi, Point.round])
  · simpa [hi, PointInv] using (hrun actions w h).callers i
  · simpa [hi, PointInv] using (hrun actions w h).callers i
  · simpa [hi, PointInv] using (hrun actions w h).callers i
  · intro ρ h0 ⟨called, hcalled⟩ hsafe hfair hrounds i m hm
    obtain ⟨k, hmk, hk⟩ := call_returns h0 hsafe hfair hrounds hcalled m hm
    cases hpoint : (ρ.state k).callers i with
    | returned answer =>
      cases answer with
      | outcome outcome => exact ⟨k, outcome, hmk, hpoint⟩
      | poisoned =>
        have hbad := (run_inv h0 k).callers i
        simp [hpoint, PointInv, hsafe k] at hbad
    | _ => simp [hpoint, Point.isReturned] at hk

/-! ### A call that is overtaken for ever -/

namespace Overtaken

/-- The first `n` calls behind call 0 returned the error of their rounds; two more are under way. -/
def callers (n : ℕ) (first current next : Point Unit Unit) (j : ℕ) : Point Unit Unit :=
  if j = 0 then first else if j ≤ n then .returned (.outcome (.error ())) else if j = n + 1 then current
  else if j = n + 2 then next else .idle

variable {n : ℕ} {first current next point : Point Unit Unit} {state : RoundState Unit}
  {log : List (Event Unit Unit ℕ)}

@[simp] lemma callers_zero : callers n first current next 0 = first := rfl

@[simp] lemma callers_current : callers n first current next (n + 1) = current := by
  simp [callers]

@[simp] lemma callers_next : callers n first current next (n + 2) = next := by
  simp [callers]

lemma callers_returned {j : ℕ} (h0 : 0 < j) (hj : j ≤ n) :
    callers n first current next j = .returned (.outcome (.error ())) := by
  simp [callers, hj, show j ≠ 0 by omega]

lemma update_first : Function.update (callers n first current next) 0 point = callers n point current next := by
  funext j
  unfold callers
  grind

lemma update_current :
    Function.update (callers n first current next) (n + 1) point = callers n first point next := by
  funext j
  unfold callers
  grind

lemma update_next :
    Function.update (callers n first current next) (n + 2) point = callers n first current point := by
  funext j
  unfold callers
  grind

lemma callers_wake : (fun j => (callers n first current next j).wake) =
    callers n first.wake current.wake next.wake := by
  funext j
  unfold callers
  split_ifs <;> rfl

lemma callers_succ :
    callers n first (.returned (.outcome (.error ()))) next = callers (n + 1) first next .idle := by
  funext j
  unfold callers
  grind

/-- One round: call `n + 1` starts it and call 0 waits for it, call `n + 2` arrives and the round fails. It
is call `n + 2` that has the lock first then. -/
def turn (n : ℕ) : ℕ → Action Unit Unit ℕ
  | 0 => .advance (n + 1)
  | 1 => .advance 0
  | 2 => .call (n + 2)
  | 3 => .finishRound (n + 1) (.error ())
  | _ => .advance (n + 1)

def schedule : ℕ → Action Unit Unit ℕ
  | 0 => .call 0
  | 1 => .call 1
  | t + 2 => turn (t / 5) (t % 5)

def run : Run (step : World Unit Unit ℕ → Action Unit Unit ℕ → Option (World Unit Unit ℕ)) :=
  .ofSchedule step .init schedule

/-- The world in round `n + 1`, before step `r` of it. -/
def At (n : ℕ) (w : World Unit Unit ℕ) : ℕ → Prop
  | 0 => ∃ first log, (first = .arriving ∨ ∃ needed, first = .woken needed) ∧
    w = ⟨⟨n, n, false, none⟩, false, callers n first .arriving .idle, log⟩
  | 1 => ∃ first log, (first = .arriving ∨ ∃ needed, first = .woken needed) ∧
    w = ⟨⟨n + 1, n, true, none⟩, false, callers n first (.inRound (n + 1) (n + 1)) .idle, log⟩
  | 2 => ∃ needed log, w =
    ⟨⟨n + 1, n, true, none⟩, false, callers n (.waiting needed) (.inRound (n + 1) (n + 1)) .idle, log⟩
  | 3 => ∃ needed log, w =
    ⟨⟨n + 1, n, true, none⟩, false, callers n (.waiting needed) (.inRound (n + 1) (n + 1)) .arriving, log⟩
  | _ => ∃ needed log, w = ⟨⟨n + 1, n, true, none⟩, false,
    callers n (.waiting needed) (.finishing (n + 1) (n + 1) (.error ())) .arriving, log⟩

variable {w : World Unit Unit ℕ}

/-- Each step of a round is possible, and the last one leads to the next round. -/
lemma at_turn {t : ℕ} (h : At (t / 5) w (t % 5)) :
    ∃ w', step w (turn (t / 5) (t % 5)) = some w' ∧ At ((t + 1) / 5) w' ((t + 1) % 5) := by
  obtain ⟨n, r, hr, rfl⟩ : ∃ n r, r < 5 ∧ t = 5 * n + r := ⟨t / 5, t % 5, by omega, by omega⟩
  rw [show (5 * n + r) / 5 = n by omega, show (5 * n + r) % 5 = r by omega] at h ⊢
  obtain rfl | hlt : r = 4 ∨ r < 4 := by omega
  · -- the round is over: its call returns and the calls that wait wake up
    rw [show (5 * n + 4 + 1) / 5 = n + 1 by omega, show (5 * n + 4 + 1) % 5 = 0 by omega]
    obtain ⟨needed, log, rfl⟩ := h
    refine ⟨_, ?_, .woken needed, log, Or.inr ⟨needed, rfl⟩, rfl⟩
    simp only [step, turn, callers_current, World.locked, World.finish, World.move, callers_wake, update_current,
      callers_succ, le_refl, if_true, Bool.false_eq_true, if_false]
    rfl
  rw [show (5 * n + r + 1) / 5 = n by omega, show (5 * n + r + 1) % 5 = r + 1 by omega]
  obtain rfl | rfl | rfl | rfl : r = 0 ∨ r = 1 ∨ r = 2 ∨ r = 3 := by omega
  · obtain ⟨first, log, hfirst, rfl⟩ := h
    refine ⟨_, ?_, first, log ++ [.start (n + 1) (n + 1)], hfirst, rfl⟩
    simp [step, turn, World.locked, World.pass, World.move, update_current]
  · obtain ⟨first, log, rfl | ⟨needed, rfl⟩, rfl⟩ := h
    · refine ⟨_, ?_, n + 2, log, rfl⟩
      simp [step, turn, World.locked, World.pass, World.move, update_first]
    · refine ⟨_, ?_, if needed ≤ n then n + 2 else needed, log, rfl⟩
      simp [step, turn, World.locked, World.pass, World.move, update_first]
  · obtain ⟨needed, log, rfl⟩ := h
    refine ⟨_, ?_, needed, log ++ [.arrive (n + 2)], rfl⟩
    simp [step, turn, World.move, update_next]
  · obtain ⟨needed, log, rfl⟩ := h
    refine ⟨_, ?_, needed, log ++ [.finish (n + 1) (n + 1) (.error ())], rfl⟩
    simp [step, turn, World.move, update_current]

lemma run_next {t : ℕ} {w' : World Unit Unit ℕ} (h : step (run.state t) (schedule t) = some w') :
    run.state (t + 1) = w' ∧ run.action t = some (schedule t) :=
  Run.ofSchedule_next h

lemma run_zero : run.state 0 = ⟨⟨0, 0, false, none⟩, false, callers 0 .idle .idle .idle, []⟩ := by
  refine congrArg (World.mk _ _ · _) (funext fun j => ?_)
  unfold callers
  grind

lemma run_one : run.state 1 = ⟨⟨0, 0, false, none⟩, false, callers 0 .arriving .idle .idle, [.arrive 0]⟩ := by
  refine (run_next (t := 0) ?_).1
  simp [run_zero, step, schedule, World.move, update_first]

lemma at_run (t : ℕ) : At (t / 5) (run.state (t + 2)) (t % 5) := by
  induction t with
  | zero =>
    refine ⟨.arriving, [.arrive 0, .arrive 1], Or.inl rfl, (run_next (t := 1) ?_).1⟩
    rw [run_one]
    simp [step, schedule, World.move, update_current (n := 0)]
  | succ t ih =>
    obtain ⟨w', hstep, hat⟩ := at_turn ih
    exact (run_next (t := t + 2) hstep).1 ▸ hat

lemma action_run (t : ℕ) : run.action (t + 2) = some (turn (t / 5) (t % 5)) := by
  obtain ⟨w', hstep, -⟩ := at_turn (at_run t)
  exact (run_next (t := t + 2) hstep).2

/-- What the world looks like at each moment of the run. -/
lemma run_shape (m : ℕ) : ∃ n state first current next log, m ≤ 5 * n + 6 ∧
    run.state m = ⟨state, false, callers n first current next, log⟩ ∧ (0 < m → first ≠ .idle) ∧
    first.isReturned = false ∧ first.round = none ∧ next.round = none ∧
    (∀ needed c, current = .inRound needed c → m ≤ 5 * n + 5) := by
  obtain rfl | rfl | ⟨t, rfl⟩ : m = 0 ∨ m = 1 ∨ ∃ t, m = t + 2 := by
    obtain _ | _ | t := m
    · exact Or.inl rfl
    · exact Or.inr (Or.inl rfl)
    · exact Or.inr (Or.inr ⟨t, rfl⟩)
  · exact ⟨0, _, _, _, _, _, by omega, run_zero, by omega, rfl, rfl, rfl, by simp⟩
  · exact ⟨0, _, _, _, _, _, by omega, run_one, by simp, rfl, rfl, rfl, by simp⟩
  have hat := at_run t
  unfold At at hat
  split at hat
  · obtain ⟨first, log, rfl | ⟨_, rfl⟩, hw⟩ := hat <;>
      exact ⟨t / 5, _, _, _, _, _, by omega, hw, by simp, rfl, rfl, rfl, by omega⟩
  · obtain ⟨first, log, rfl | ⟨_, rfl⟩, hw⟩ := hat <;>
      exact ⟨t / 5, _, _, _, _, _, by omega, hw, by simp, rfl, rfl, rfl, by omega⟩
  · obtain ⟨_, _, hw⟩ := hat
    exact ⟨t / 5, _, _, _, _, _, by omega, hw, by simp, rfl, rfl, rfl, by omega⟩
  · obtain ⟨_, _, hw⟩ := hat
    exact ⟨t / 5, _, _, _, _, _, by omega, hw, by simp, rfl, rfl, rfl, by omega⟩
  · obtain ⟨_, _, hw⟩ := hat
    exact ⟨t / 5, _, _, _, _, _, by omega, hw, by simp, rfl, rfl, rfl, by simp⟩

/-- Call 0 takes the lock in every round, and every other call returns after its own. -/
lemma run_fair (i : ℕ) : run.Fair (.advance i) := by
  intro hagain m
  obtain rfl | hi : i = 0 ∨ 0 < i := by omega
  · refine ⟨5 * m + 1 + 2, by omega, ?_⟩
    rw [action_run, show (5 * m + 1) / 5 = m by omega, show (5 * m + 1) % 5 = 1 by omega, turn]
  · obtain ⟨k, hk, hpossible⟩ := hagain (5 * i + 7)
    obtain ⟨n, _, _, _, _, _, hkn, hw, -⟩ := run_shape k
    simp [hw, step, callers_returned hi (show i ≤ n by omega)] at hpossible

lemma round_ends {i m needed c : ℕ} (h : (run.state m).callers i = .inRound needed c) :
    ∃ k outcome, m ≤ k ∧ run.action k = some (.finishRound i outcome) := by
  obtain ⟨n, _, first, current, next, _, -, hw, -, -, hfirst, hnext, hcurrent⟩ := run_shape m
  rw [hw] at h
  obtain rfl : i = n + 1 := by
    unfold callers at h
    dsimp only at h
    split_ifs at h <;> first | assumption | simp_all [Point.round]
  refine ⟨5 * n + 3 + 2, .error (), hcurrent needed c (by simpa using h), ?_⟩
  rw [action_run, show (5 * n + 3) / 5 = n by omega, show (5 * n + 3) % 5 = 3 by omega, turn]

lemma under_way (m : ℕ) : ∃ underWay : Finset ℕ, underWay.card ≤ 3 ∧
    ∀ i ∉ underWay, (run.state m).callers i = .idle ∨ ((run.state m).callers i).isReturned = true := by
  obtain ⟨n, _, first, current, next, _, -, hw, -⟩ := run_shape m
  refine ⟨{0, n + 1, n + 2}, Finset.card_le_three, fun i hi => ?_⟩
  simp only [Finset.mem_insert, Finset.mem_singleton, not_or] at hi
  rw [hw]
  by_cases hle : i ≤ n
  · right
    simp [callers_returned (by omega) hle, Point.isReturned]
  · simp [callers, hi, hle]

end Overtaken

/-- **A call that is overtaken for ever.** No round hangs, the lock is never poisoned and each call that
asks for the lock gets it; but every round fails, and whenever one does a newer call starts the next
round first. Call 0 never returns, with at most three calls under way at any time. -/
theorem call_overtaken :
    ∃ ρ : Run (step : World Unit Unit ℕ → Action Unit Unit ℕ → Option (World Unit Unit ℕ)),
      ρ.state 0 = .init ∧ (∀ m, (ρ.state m).poisoned = false) ∧ (∀ i, ρ.Fair (.advance i)) ∧
      (∀ i m needed current, (ρ.state m).callers i = .inRound needed current →
        ∃ k outcome, m ≤ k ∧ ρ.action k = some (.finishRound i outcome)) ∧
      (∀ m, ∃ underWay : Finset ℕ, underWay.card ≤ 3 ∧
        ∀ i ∉ underWay, (ρ.state m).callers i = .idle ∨ ((ρ.state m).callers i).isReturned = true) ∧
      (∀ m, 0 < m → (ρ.state m).callers 0 ≠ .idle ∧ ((ρ.state m).callers 0).isReturned = false) := by
  refine ⟨Overtaken.run, rfl, fun m => ?_, Overtaken.run_fair, fun _ _ _ _ => Overtaken.round_ends,
    Overtaken.under_way, fun m hm => ?_⟩
  · obtain ⟨_, _, _, _, _, _, -, hw, -⟩ := Overtaken.run_shape m
    rw [hw]
  · obtain ⟨_, _, _, _, _, _, -, hw, hcalled, hwaits, -⟩ := Overtaken.run_shape m
    rw [hw]
    exact ⟨hcalled hm, hwaits⟩

end NoKV.Server.Rounds
