import Mathlib.Data.List.Basic
import Mathlib.Data.List.Nodup

/-!
# Hash-chained logs

A log whose records carry their position and the digest of the record before them. A record type is
given by its three projections.

* `chainFrom_append`: a chain is cut anywhere into two chains that meet at one tail;
* `ChainFrom.pos_getElem`: the positions of a chain are consecutive, so a position names one record.
-/

namespace NoKV.Lib

open List

variable {ρ δ : Type}

/-- The position of a record, the digest it continues and its own digest. -/
structure Link (ρ δ : Type) where
  pos : ρ → ℕ
  prev : ρ → δ
  digest : ρ → δ

namespace Link

variable (L : Link ρ δ)

/-- The digest at the end of a log that starts behind `d`. -/
def tail (d : δ) : List ρ → δ
  | [] => d
  | r :: rest => tail (L.digest r) rest

/-- The log continues position `n` with digest `d`. -/
def ChainFrom (n : ℕ) (d : δ) : List ρ → Prop
  | [] => True
  | r :: rest => L.pos r = n + 1 ∧ L.prev r = d ∧ ChainFrom (n + 1) (L.digest r) rest

variable {L}

@[simp] lemma tail_append (d : δ) (xs ys : List ρ) : L.tail d (xs ++ ys) = L.tail (L.tail d xs) ys := by
  induction xs generalizing d with
  | nil => rfl
  | cons x _ ih => exact ih (L.digest x)

variable {n : ℕ} {d : δ} {xs : List ρ} {r : ρ}

lemma chainFrom_append {ys : List ρ} :
    L.ChainFrom n d (xs ++ ys) ↔ L.ChainFrom n d xs ∧ L.ChainFrom (n + xs.length) (L.tail d xs) ys := by
  induction xs generalizing n d with
  | nil => simp [ChainFrom, tail]
  | cons x xs ih =>
    rw [cons_append, ChainFrom, ChainFrom, ih, tail, length_cons, and_assoc, and_assoc,
      Nat.add_right_comm, Nat.add_assoc n xs.length 1]

lemma chainFrom_concat :
    L.ChainFrom n d (xs ++ [r]) ↔
      L.ChainFrom n d xs ∧ L.pos r = n + xs.length + 1 ∧ L.prev r = L.tail d xs := by
  rw [chainFrom_append]
  simp [ChainFrom]

variable (h : L.ChainFrom n d xs)
include h

/-- The positions of a chain are consecutive. -/
lemma ChainFrom.pos_getElem {i : ℕ} (hi : i < xs.length) : L.pos xs[i] = n + i + 1 := by
  induction xs generalizing n d i with
  | nil => exact absurd hi (Nat.not_lt_zero _)
  | cons _ _ ih =>
    obtain ⟨hpos, -, hrest⟩ := h
    cases i with
    | zero => exact hpos
    | succ =>
      have := ih hrest (Nat.lt_of_succ_lt_succ hi)
      rw [getElem_cons_succ, this]
      omega

lemma ChainFrom.prev_getElem {i : ℕ} (hi : i + 1 < xs.length) : L.prev xs[i + 1] = L.digest xs[i] := by
  induction xs generalizing n d i with
  | nil => exact absurd hi (Nat.not_lt_zero _)
  | cons x xs ih =>
    cases i with
    | zero =>
      obtain ⟨-, -, hrest⟩ := h
      cases xs with
      | nil => exact absurd hi (by simp)
      | cons => exact hrest.2.1
    | succ => exact ih h.2.2 (Nat.lt_of_succ_lt_succ hi)

lemma ChainFrom.pos_getLast (hne : xs ≠ []) : L.pos (xs.getLast hne) = n + xs.length := by
  have hpos := length_pos_of_ne_nil hne
  rw [getLast_eq_getElem, h.pos_getElem]
  omega

lemma ChainFrom.pos_bounds (hr : r ∈ xs) : n < L.pos r ∧ L.pos r ≤ n + xs.length := by
  obtain ⟨i, hi, rfl⟩ := getElem_of_mem hr
  rw [h.pos_getElem hi]
  omega

lemma ChainFrom.pairwise : xs.Pairwise fun a b => L.pos a < L.pos b := by
  induction xs generalizing n d with
  | nil => exact .nil
  | cons _ _ ih =>
    obtain ⟨hpos, -, hrest⟩ := h
    refine List.Pairwise.cons (fun r hr => ?_) (ih hrest)
    rw [hpos]
    exact (hrest.pos_bounds hr).1

lemma ChainFrom.mem_drop {k : ℕ} : r ∈ xs.drop k ↔ r ∈ xs ∧ n + k < L.pos r := by
  rw [mem_drop_iff_getElem]
  constructor
  · rintro ⟨i, hi, rfl⟩
    refine ⟨getElem_mem _, ?_⟩
    rw [h.pos_getElem (by omega)]
    omega
  · rintro ⟨hr, hlt⟩
    obtain ⟨i, hi, rfl⟩ := getElem_of_mem hr
    rw [h.pos_getElem hi] at hlt
    exact ⟨i - k, by omega, by congr 1; omega⟩

/-- A position names one record. -/
lemma ChainFrom.eq_of_pos {a b : ρ} (ha : a ∈ xs) (hb : b ∈ xs) (heq : L.pos a = L.pos b) : a = b := by
  obtain ⟨i, hi, rfl⟩ := getElem_of_mem ha
  obtain ⟨j, hj, rfl⟩ := getElem_of_mem hb
  rw [h.pos_getElem hi, h.pos_getElem hj] at heq
  have : i = j := by omega
  subst this
  rfl

end Link

end NoKV.Lib
