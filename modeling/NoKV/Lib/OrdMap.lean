import Mathlib.Order.Lattice
import Mathlib.Data.List.Pairwise
import Mathlib.Data.List.Perm.Subperm
import Mathlib.Data.Prod.Basic

/-!
# Ordered finite maps

A finite map as the list of its rows in strictly increasing key order. The order is part of the
structure, so an out-of-order or duplicated row cannot be built, and two maps that answer every
lookup alike are equal (`OrdMap.ext_get`).
-/

namespace NoKV.Lib

open List

/-- A finite map from `κ` to `ν`, kept as its rows in key order. -/
structure OrdMap (κ ν : Type) [LinearOrder κ] where
  rows : List (κ × ν)
  sorted : rows.Pairwise fun a b => a.1 < b.1

namespace OrdMap

variable {κ ν : Type} [LinearOrder κ]

instance [DecidableEq ν] : DecidableEq (OrdMap κ ν) := fun a b =>
  decidable_of_iff (a.rows = b.rows) ⟨fun h => by cases a; cases b; cases h; rfl, fun h => h ▸ rfl⟩

def empty : OrdMap κ ν := ⟨[], List.Pairwise.nil⟩

/-- The value of the first row with key `k`. -/
def lookupRow (k : κ) : List (κ × ν) → Option ν
  | [] => none
  | row :: rest => if row.1 = k then some row.2 else lookupRow k rest

def get (m : OrdMap κ ν) (k : κ) : Option ν := lookupRow k m.rows

/-- Put a row at its place in an ordered list of rows, replacing a row of the same key. -/
def insertRow (k : κ) (v : ν) : List (κ × ν) → List (κ × ν)
  | [] => [(k, v)]
  | row :: rest =>
    if k < row.1 then (k, v) :: row :: rest
    else if k = row.1 then (k, v) :: rest
    else row :: insertRow k v rest

/-! ### The list operations -/

variable {k : κ} {v : ν} {l : List (κ × ν)} {m : OrdMap κ ν}

lemma mem_insertRow {r : κ × ν} (h : r ∈ insertRow k v l) : r = (k, v) ∨ r ∈ l := by
  induction l with
  | nil => left; simpa [insertRow] using h
  | cons _ _ ih =>
    simp only [insertRow] at h
    split at h
    · rcases mem_cons.1 h with h | h
      · exact Or.inl h
      · exact Or.inr h
    · split at h
      · rcases mem_cons.1 h with h | h
        · exact Or.inl h
        · exact Or.inr (mem_cons_of_mem _ h)
      · rcases mem_cons.1 h with h | h
        · exact Or.inr (h ▸ mem_cons_self ..)
        · exact (ih h).imp_right (mem_cons_of_mem _)

lemma insertRow_sorted (k : κ) (v : ν) (h : l.Pairwise fun a b => a.1 < b.1) :
    (insertRow k v l).Pairwise fun a b => a.1 < b.1 := by
  induction l with
  | nil => simp [insertRow]
  | cons _ _ ih =>
    obtain ⟨hrow, hrest⟩ := pairwise_cons.1 h
    simp only [insertRow]
    split
    next hlt =>
      refine pairwise_cons.2 ⟨fun b hb => ?_, h⟩
      rcases mem_cons.1 hb with rfl | hb
      · exact hlt
      · exact hlt.trans (hrow b hb)
    next hnlt =>
      split
      next heq => exact pairwise_cons.2 ⟨fun b hb => heq ▸ hrow b hb, hrest⟩
      next hne =>
        refine pairwise_cons.2 ⟨fun b hb => ?_, ih hrest⟩
        rcases mem_insertRow hb with rfl | hb
        · exact lt_of_le_of_ne (not_lt.1 hnlt) (Ne.symm hne)
        · exact hrow b hb

lemma lookupRow_insertRow (k : κ) (v : ν) (l : List (κ × ν)) (k' : κ) :
    lookupRow k' (insertRow k v l) = if k' = k then some v else lookupRow k' l := by
  induction l with
  | nil => simp [insertRow, lookupRow, eq_comm]
  | cons row _ ih =>
    simp only [insertRow]
    split
    · simp only [lookupRow, eq_comm]
    · split
      next heq =>
        subst heq
        simp only [lookupRow, eq_comm]
        split <;> rfl
      next hne =>
        simp only [lookupRow, ih]
        by_cases h : row.1 = k'
        · subst h
          rw [if_pos rfl, if_pos rfl, if_neg (Ne.symm hne)]
        · rw [if_neg h, if_neg h]

lemma lookupRow_filter_ne (k : κ) (l : List (κ × ν)) (k' : κ) :
    lookupRow k' (l.filter fun r => r.1 ≠ k) = if k' = k then none else lookupRow k' l := by
  induction l with
  | nil => simp [lookupRow]
  | cons row _ ih =>
    by_cases h : row.1 = k
    · rw [filter_cons_of_neg (by simpa using h), ih]
      by_cases hk : k' = k
      · rw [if_pos hk, if_pos hk]
      · rw [if_neg hk, if_neg hk, lookupRow, if_neg (by rw [h]; exact Ne.symm hk)]
    · rw [filter_cons_of_pos (by simpa using h)]
      simp only [lookupRow, ih]
      by_cases hk : row.1 = k'
      · subst hk
        rw [if_pos rfl, if_neg h, if_pos rfl]
      · rw [if_neg hk, if_neg hk]

lemma mem_iff_lookupRow (h : l.Pairwise fun a b => a.1 < b.1) : (k, v) ∈ l ↔ lookupRow k l = some v := by
  induction l with
  | nil => simp [lookupRow]
  | cons row _ ih =>
    obtain ⟨hrow, hrest⟩ := pairwise_cons.1 h
    simp only [lookupRow, mem_cons]
    by_cases hk : row.1 = k
    · rw [if_pos hk]
      constructor
      · rintro (rfl | hmem)
        · rfl
        · exact absurd hk (hrow _ hmem).ne
      · intro hv
        left
        rw [← Option.some.inj hv, ← hk]
    · rw [if_neg hk, ← ih hrest]
      constructor
      · rintro (rfl | hmem)
        · exact absurd rfl hk
        · exact hmem
      · exact Or.inr

/-! ### The map operations -/

/-- The map with `v` stored under `k`. -/
def insert (m : OrdMap κ ν) (k : κ) (v : ν) : OrdMap κ ν :=
  ⟨insertRow k v m.rows, insertRow_sorted k v m.sorted⟩

/-- The map without a row under `k`. -/
def erase (m : OrdMap κ ν) (k : κ) : OrdMap κ ν :=
  ⟨m.rows.filter fun r => r.1 ≠ k, m.sorted.filter _⟩

lemma mem_rows : (k, v) ∈ m.rows ↔ m.get k = some v :=
  mem_iff_lookupRow m.sorted

@[simp] lemma get_empty (k : κ) : (empty : OrdMap κ ν).get k = none := rfl

lemma get_insert (m : OrdMap κ ν) (k : κ) (v : ν) (k' : κ) :
    (m.insert k v).get k' = if k' = k then some v else m.get k' :=
  lookupRow_insertRow k v m.rows k'

@[simp] lemma get_insert_self (m : OrdMap κ ν) (k : κ) (v : ν) : (m.insert k v).get k = some v := by
  rw [get_insert, if_pos rfl]

lemma get_insert_of_ne {k' : κ} (v : ν) (h : k' ≠ k) : (m.insert k v).get k' = m.get k' := by
  rw [get_insert, if_neg h]

lemma get_erase (m : OrdMap κ ν) (k k' : κ) :
    (m.erase k).get k' = if k' = k then none else m.get k' :=
  lookupRow_filter_ne k m.rows k'

lemma get_insert_cases {k' : κ} {w : ν} (h : (m.insert k v).get k' = some w) :
    (k' = k ∧ w = v) ∨ (k' ≠ k ∧ m.get k' = some w) := by
  rw [get_insert] at h
  split at h
  next hk =>
    cases h
    exact .inl ⟨hk, rfl⟩
  next hk => exact .inr ⟨hk, h⟩

lemma get_of_get_erase {k' : κ} (h : (m.erase k).get k' = some v) : m.get k' = some v := by
  rw [get_erase] at h
  split at h
  · cases h
  · exact h

lemma get_foldl_erase (keys : List κ) (m : OrdMap κ ν) (k : κ) :
    (keys.foldl erase m).get k = if k ∈ keys then none else m.get k := by
  induction keys generalizing m with
  | nil => simp
  | cons key _ ih =>
    rw [foldl_cons, ih, get_erase]
    by_cases hk : k = key <;> simp [hk]

/-- Two maps with the same rows as a set are the same map. -/
lemma ext_get {n : OrdMap κ ν} (h : ∀ k, m.get k = n.get k) : m = n := by
  have hperm : m.rows.Perm n.rows := by
    refine (perm_ext_iff_of_nodup ?_ ?_).2 fun r => ?_
    · exact m.sorted.imp fun hlt heq => absurd (heq ▸ hlt) (lt_irrefl _)
    · exact n.sorted.imp fun hlt heq => absurd (heq ▸ hlt) (lt_irrefl _)
    · obtain ⟨k, v⟩ := r
      rw [mem_rows, mem_rows, h k]
  have hrows : m.rows = n.rows :=
    hperm.eq_of_pairwise (fun a b _ _ hab hba => absurd (hab.trans hba) (lt_irrefl _)) m.sorted n.sorted
  cases m
  cases n
  cases hrows
  rfl

/-- Ordered rows are known from their set. -/
lemma rows_ext {l' : List (κ × ν)} (hs : l.Pairwise fun a b => a.1 < b.1)
    (hs' : l'.Pairwise fun a b => a.1 < b.1) (h : ∀ k v, (k, v) ∈ l ↔ (k, v) ∈ l') : l = l' := by
  have hmaps : (⟨l, hs⟩ : OrdMap κ ν) = ⟨l', hs'⟩ := by
    refine ext_get fun k => Option.ext fun v => ?_
    rw [← mem_rows, ← mem_rows]
    exact h k v
  exact congrArg rows hmaps

end OrdMap

end NoKV.Lib
