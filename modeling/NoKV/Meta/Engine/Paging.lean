import NoKV.Meta.Engine.ReadAt

/-!
# Walking a keyspace page by page

Recovery scans read the rows of a keyspace page by page and fold them; a step may end the walk
before the rows do. On a bounded store that stands still the pages do not show: the walk folds the
rows of one scan (`walkPages_runAt`).
-/

namespace NoKV.Meta

open Lib Store State
open Prog hiding bind pure get

/-- Whether a walk goes on behind a row. -/
inductive Walk (β : Type) where
  | next (acc : β)
  | stop (acc : β)

namespace Walk

variable {β : Type}

def acc : Walk β → β
  | next b => b
  | stop b => b

end Walk

section Program

variable {β : Type} (record : String) (step : β → Bytes → Bytes → Shard (Walk β))

def walkItems : List ScanItem → β → Shard (Walk β)
  | [], acc => return .next acc
  | .group _ :: _, _ => throw (corrupt record "non-delimited scan returned a common prefix")
  | .row key value :: rest, acc => do
    match ← step acc key value with
    | .stop acc => return .stop acc
    | .next acc => walkItems rest acc

/-- The pages of a scan, each with the limit its accumulator asks for. -/
def walkPages [Pager] (keyspace : Keyspace) (keyPrefix : Bytes) (limit : β → ℕ) (operation : String) :
    ℕ → Option Bytes → β → Loop (Walk β)
  | 0, _, _ => throw .fuel
  | fuel + 1, after, acc => do
    let page ← liftM (scanPage keyspace keyPrefix after (limit acc) none 0 operation)
    match ← (liftM (walkItems record step page.items acc) : Loop (Walk β)) with
    | .stop acc => return .stop acc
    | .next acc =>
      if page.more then
        walkPages keyspace keyPrefix limit operation fuel (nextCursor after page.items) acc
      else return .next acc

end Program

/-! ### What a walk computes -/

section Pages

variable {β : Type} {record : String} {step : β → Bytes → Bytes → Shard (Walk β)} {s : State}
  {items : List ScanItem} {after : Option Bytes} {keyspace : Keyspace} {keyPrefix : Bytes}

lemma walkItems_append (xs ys : List ScanItem) (acc : β) :
    (walkItems record step (xs ++ ys) acc).runAt s =
      (walkItems record step xs acc).runAt s >>= fun w =>
        match w with
        | .stop acc => .ok (.stop acc)
        | .next acc => (walkItems record step ys acc).runAt s := by
  induction xs generalizing acc with
  | nil => rfl
  | cons item _ ih =>
    cases item with
    | group => rfl
    | row =>
      rw [List.cons_append, walkItems, walkItems, runAt_bind, runAt_bind, bind_assoc]
      refine bind_congr fun w => ?_
      cases w with
      | stop => rfl
      | next acc => exact ih acc

lemma walkItems_invariant {I : β → Prop}
    (hstep : ∀ acc key value acc', I acc → (step acc key value).runAt s = .ok (.next acc') → I acc')
    {acc acc' : β} (hacc : I acc) (h : (walkItems record step items acc).runAt s = .ok (.next acc')) :
    I acc' := by
  induction items generalizing acc with
  | nil =>
    cases Except.ok.inj h
    exact hacc
  | cons item _ ih =>
    cases item with
    | group => cases h
    | row =>
      rw [walkItems, runAt_bind] at h
      obtain ⟨w, hw, h⟩ := bind_eq_ok.1 h
      cases w with
      | stop => cases Except.ok.inj h
      | next => exact ih (hstep _ _ _ _ hacc hw) h

variable [Pager]

/-- The scan of one page without fence records. -/
def plainScan (keyspace : Keyspace) (keyPrefix : Bytes) (after : Option Bytes) (limit : ℕ) : Scan :=
  ⟨keyspace, keyPrefix, after, limit, 8388608, none⟩

lemma scanPage_runAt {limit : ℕ} (h : ScanOk (plainScan keyspace keyPrefix after limit)) (operation : String)
    (s : State) : (scanPage keyspace keyPrefix after limit none 0 operation).runAt s =
      .ok (Pager.page s (plainScan keyspace keyPrefix after limit)) := by
  have hrequest : scanRequest keyspace keyPrefix after limit none 0 =
      .ok (plainScan keyspace keyPrefix after limit) := rfl
  unfold scanPage
  rw [hrequest, runAt_bind, runAt_liftM, ok_bind, runAt_bind,
    readBatch_runAt (validateBatch_scan h)]
  rfl

/-- **On a store that stands still a walk folds the rows of one scan**, however the adapter cuts them
into pages. -/
theorem walkPages_runAt (hbounded : Bounded s) {limit : β → ℕ} {operation : String} {I : β → Prop}
    (hstep : ∀ acc key value acc', I acc → (step acc key value).runAt s = .ok (.next acc') → I acc')
    (hlimit : ∀ acc, I acc → 0 < limit acc ∧ limit acc ≤ 520) (hpre : keyPrefix.length ≤ 8205) {fuel : ℕ}
    {acc : β} (hacc : I acc) (hitems : ∀ n, s.scanItems (plainScan keyspace keyPrefix after n) = items)
    (hcursor : ∀ n, checkCursor (plainScan keyspace keyPrefix after n) storeLimits = .ok ())
    (hfuel : items.length < fuel) :
    (walkPages record step keyspace keyPrefix limit operation fuel after acc).runAt s =
      ((walkItems record step items acc).runAt s).mapError .err := by
  -- a page is a first part of the items, and it is not empty unless it is the last
  induction fuel generalizing after acc items with
  | zero => exact absurd hfuel (Nat.not_lt_zero _)
  | succ _ ih =>
    obtain ⟨hpos, hle⟩ := hlimit acc hacc
    have hok : ScanOk (plainScan keyspace keyPrefix after (limit acc)) :=
      ⟨hpos, hle, hpre, show 8205 + 65535 ≤ 8388608 by decide, le_refl _, hcursor _⟩
    obtain ⟨_, hcut⟩ := exists_pageCut hbounded hok
    have hsplit := (hitems _).symm.trans hcut.split
    unfold walkPages
    rw [runAt_bind, runAt_liftM_bounded, scanPage_runAt hok]
    show (liftM (walkItems record step _ acc) >>= _ : Loop (Walk β)).runAt s = _
    rw [runAt_bind, runAt_liftM_bounded, hsplit, walkItems_append]
    cases hw : (walkItems record step (Pager.page s (plainScan keyspace keyPrefix after
        (limit acc))).items acc).runAt s with
    | error e => rfl
    | ok w =>
      cases w with
      | stop => rfl
      | next =>
        have hacc' := walkItems_invariant hstep hacc hw
        show (if _ then _ else _ : Loop (Walk β)).runAt s = _
        split
        next hmore =>
          have hshorter := hcut.shorter hmore
          rw [hitems] at hshorter
          exact ih hacc' (fun n => hcut.resume) (fun n => hcut.cursor) (by omega)
        next hmore =>
          rw [hcut.last (Bool.not_eq_true _ ▸ hmore)]
          rfl

end Pages

/-! ### Walks over all rows -/

section Rows

variable {β : Type} {record : String} {s : State}

/-- Rows as the items of a scan without a delimiter. -/
def rowItems (rows : List (Bytes × Bytes)) : List ScanItem := rows.map fun r => .row r.1 r.2

lemma walkItems_rows (f : β → Bytes → Bytes → Shard β) (rows : List (Bytes × Bytes)) (acc : β) :
    (walkItems record (fun acc key value => Walk.next <$> f acc key value) (rowItems rows) acc).runAt s =
      Walk.next <$> rows.foldlM (fun acc r => (f acc r.1 r.2).runAt s) acc := by
  induction rows generalizing acc with
  | nil => rfl
  | cons r _ ih =>
    unfold rowItems at ih ⊢
    rw [List.map_cons, walkItems, runAt_bind, runAt_map, List.foldlM_cons]
    cases (f acc r.1 r.2).runAt s with
    | error => rfl
    | ok acc => exact ih acc

lemma scanItems_plainScan (keyspace : Keyspace) (keyPrefix : Bytes) (n : ℕ) :
    s.scanItems (plainScan keyspace keyPrefix none n) = rowItems (s.prefixRows keyspace keyPrefix) := by
  unfold State.scanItems rowItems
  rw [show (plainScan keyspace keyPrefix none n).after = none from rfl, afterCursor_none]
  exact rollup_none _ (prefixRows_sorted _ _)

lemma walkRows_runAt [Pager] (hbounded : Bounded s) {keyspace : Keyspace} {keyPrefix : Bytes}
    {limit : ℕ} {operation : String} (f : β → Bytes → Bytes → Shard β) (hpos : 0 < limit)
    (hle : limit ≤ 520) (hpre : keyPrefix.length ≤ 8205) {fuel : ℕ} (acc : β)
    (hfuel : (s.prefixRows keyspace keyPrefix).length < fuel) :
    (walkPages record (fun acc key value => Walk.next <$> f acc key value) keyspace keyPrefix
        (fun _ => limit) operation fuel none acc).runAt s =
      (Walk.next <$> (s.prefixRows keyspace keyPrefix).foldlM
        (fun acc r => (f acc r.1 r.2).runAt s) acc).mapError .err := by
  rw [walkPages_runAt hbounded (I := fun _ => True) (fun _ _ _ _ _ _ => trivial)
    (fun _ _ => ⟨hpos, hle⟩) hpre trivial (scanItems_plainScan keyspace keyPrefix) (fun _ => rfl)
    (by unfold rowItems; rwa [List.length_map]), walkItems_rows]

end Rows

end NoKV.Meta
