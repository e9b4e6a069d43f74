import NoKV.Meta.Engine.Scan

/-!
# Scans return pages of the store that committed their version

While sessions commit, a scan observes different states of one run. Pages under one clock belong to
one state, and every state still shows the older versions, so a scan returns a page of the store that
committed its version (`snapshotPage`), whatever it met on the way.

* `collectCurrentScanAtClock_may`, `historicalScan_may`: what the two paths can return while the store
  moves; `scanPrefixAtImpl_settles`: what a scan returns when the store stands still;
* `snapshots_along`: the states of a run show every version the run committed;
* `scanPrefixAt_snapshot`: the scans, their pages, and the agreement of the two paths.
-/

namespace NoKV.Meta

open Lib Store State Mvcc List
open Prog hiding bind pure get

section CurrentPath

variable [Pager] {shard : LogicalShardId} {f : MetadataFamily} {keyPrefix : Bytes} {delimiter : Option UInt8}
  {limit : ℕ} {version expectedClock : ReadVersion} {context : ReadFenceContext}

/-- Pages of current rows that were read under one clock make up the page of the version. -/
lemma collectCurrentScanAtClock_may {P : State → Prop} {items : List DelimitedMetadataScanItem}
    (hitems : ∀ s, P s → fenceAt shard context s = .ok expectedClock → ∀ after n,
      (s.scanItems (fencedScan f.keyspace keyPrefix after n delimiter)).map (Item.mapValue storedPayload) =
        afterCursor Item.key after items)
    (hsorted : items.Pairwise fun a b => a.key < b.key) {fuel : ℕ} {start : Option Bytes}
    {visible rest out : List DelimitedMetadataScanItem}
    (hvisible : afterCursor Item.key start items = visible ++ rest) (hroom : visible.length ≤ limit)
    (h : Prog.May P (collectCurrentScanAtClock shard f keyPrefix limit delimiter version expectedClock
      context fuel (nextCursor start visible) visible) (some out)) :
    out = (afterCursor Item.key start items).take limit := by
  -- what is visible so far is a first part of the items behind the start
  induction fuel generalizing visible rest with
  | zero => exact absurd h may_fail
  | succ _ ih =>
    unfold collectCurrentScanAtClock at h
    split at h
    next hfull =>
      cases Option.some.inj (may_pure.1 h)
      rw [hvisible, take_left' (by omega)]
    next hroom' =>
      obtain ⟨page, hpage, h⟩ := may_bind.1 h
      cases page with
      | none => cases may_pure.1 h
      | some page =>
        -- the page is read at some state with the same clock, so it has the items of the snapshot
        obtain ⟨s, hs, hfence, rfl⟩ := scanPageAtClock_may (may_liftM_bounded.1 hpage)
        generalize hscan : fencedScan f.keyspace keyPrefix (nextCursor start visible)
          (limit - visible.length) delimiter = scan at h
        obtain ⟨decoded, hdecoded, h⟩ := may_bind.1 h
        have hmap := currentScanPage_eq_ok (mapError_eq_ok.1 (may_liftM.1 hdecoded))
        have hrest : (s.scanItems scan).map (Item.mapValue storedPayload) = rest := by
          rw [← hscan, hitems s hs hfence, afterCursor_nextCursor hsorted hvisible]
        obtain ⟨left, hleft⟩ := Pager.page_isPrefix s scan
        have hsplit : rest = decoded ++ left.map (Item.mapValue storedPayload) := by
          rw [← hrest, ← hleft, map_append, hmap]
        have hlength : decoded.length ≤ limit - visible.length := by
          have hpageLimit := Pager.page_limit s scan
          rw [← hscan] at hpageLimit
          rw [hmap, length_map, ← hscan]
          exact hpageLimit
        have hroom'' : (visible ++ decoded).length ≤ limit := by
          rw [length_append]
          omega
        have hall : afterCursor Item.key start items =
            (visible ++ decoded) ++ left.map (Item.mapValue storedPayload) := by
          rw [hvisible, hsplit, append_assoc]
        split at h
        · -- there is more: go on behind the page
          have hcursor : nextCursor (nextCursor start visible) (Pager.page s scan).items =
              nextCursor start (visible ++ decoded) := by
            rw [nextCursor_append, hmap, nextCursor_mapValue]
          rw [hcursor] at h
          exact ih hall hroom'' h
        next hmore =>
          -- a page that says no more is the rest
          have hcomplete := Pager.page_complete s scan (Bool.not_eq_true _ ▸ hmore)
          have hdone : decoded = rest := by rw [hmap, hcomplete, hrest]
          rw [← Option.some.inj (may_pure.1 h), hvisible, ← hdone, take_of_length_le hroom'']

/-- On a store that stands still the pages of current rows come to an end. -/
lemma collectCurrentScanAtClock_total {s : State} {clock : ℕ} (hbounded : Bounded s)
    (hrows : RowsInv s clock) (hle : clock ≤ version.get)
    (hfence : fenceAt shard context s = .ok expectedClock) (hlimit : limit ≤ 520)
    (hpre : keyPrefix.length ≤ 8205) {fuel : ℕ} {after : Option Bytes}
    {visible : List DelimitedMetadataScanItem}
    (hcursor : checkCursor (fencedScan f.keyspace keyPrefix after limit delimiter) storeLimits = .ok ())
    (hfuel : (s.scanItems (fencedScan f.keyspace keyPrefix after limit delimiter)).length < fuel) :
    ∃ out, (collectCurrentScanAtClock shard f keyPrefix limit delimiter version expectedClock context fuel
      after visible).runAt s = .ok (some out) := by
  -- each page that promises more leaves fewer items behind its cursor
  induction fuel generalizing after visible with
  | zero => exact absurd hfuel (Nat.not_lt_zero _)
  | succ _ ih =>
    unfold collectCurrentScanAtClock
    split
    · exact ⟨visible, rfl⟩
    next hroom =>
      have hok : ScanOk (fencedScan f.keyspace keyPrefix after (limit - visible.length) delimiter) :=
        scanOk_fencedScan (by omega) (by omega) hpre hcursor
      rw [runAt_bind, runAt_liftM_bounded, scanPageAtClock_runAt hok, hfence]
      obtain ⟨_, hcut⟩ := exists_pageCut hbounded hok
      generalize hscan : fencedScan f.keyspace keyPrefix after (limit - visible.length) delimiter = scan
        at hcut
      -- every row of the page decodes, and a page that promises more is not empty
      obtain ⟨decoded, hdecoded⟩ : ∃ decoded, currentScanPage f version (limit - visible.length)
          (Pager.page s scan) = .ok decoded := by
        have hpageLimit : (Pager.page s scan).items.length ≤ limit - visible.length := by
          have := Pager.page_limit s scan
          rwa [← hscan] at this ⊢
        obtain ⟨decoded, hmapM⟩ := mapM_total (f := currentScanItem f version)
          (l := (Pager.page s scan).items) fun item hitem => by
            have hmem : item ∈ s.scanItems scan := by
              rw [hcut.split]
              exact mem_append_left _ hitem
            exact currentScanItem_total hrows hle (hscan ▸ hmem)
        refine ⟨decoded, ?_⟩
        unfold currentScanPage
        rw [refuseIf_of_not (by omega), ok_bind, refuseIf_of_not, ok_bind, hmapM]
        rintro ⟨hnil, hmore⟩
        have hshorter := hcut.shorter hmore
        rw [hcut.split, hnil] at hshorter
        exact lt_irrefl _ hshorter
      simp only [Functor.map, Except.map, Except.mapError, if_true, ok_bind]
      rw [runAt_bind, runAt_liftM, hdecoded]
      show ∃ out, (if (Pager.page s scan).more = true then _ else _ : Loop _).runAt s = _
      split
      next hmore =>
        subst hscan
        have hshorter := hcut.shorter hmore
        rw [← hcut.resume] at hshorter
        exact ih hcut.cursor (hshorter.trans_le (Nat.lt_succ_iff.1 hfuel))
      · exact ⟨_, rfl⟩

/-- The page of current rows of a scan at the clock. -/
def currentPage (f : MetadataFamily) (keyPrefix : Bytes) (delimiter : Option UInt8) (startAfter : Option Bytes)
    (limit : ℕ) (s : State) : List DelimitedMetadataScanItem :=
  ((s.scanItems (fencedScan f.keyspace keyPrefix startAfter limit delimiter)).map
    (Item.mapValue storedPayload)).take limit

/-- On a store that stands still the pages of current rows make up the page of the scan. -/
lemma collectCurrentScanAtClock_runAt {s : State} {n : ℕ} (hbounded : Bounded s) (hrows : RowsInv s n)
    (hle : n ≤ version.get) (hfence : fenceAt shard context s = .ok expectedClock) (hlimit : limit ≤ 520)
    (hpre : keyPrefix.length ≤ 8205) {startAfter : Option Bytes}
    (hcursor : checkCursor (fencedScan f.keyspace keyPrefix startAfter limit delimiter) storeLimits = .ok ())
    {fuel : ℕ} (hfuel : (s.scanItems (fencedScan f.keyspace keyPrefix startAfter limit delimiter)).length < fuel) :
    (collectCurrentScanAtClock shard f keyPrefix limit delimiter version expectedClock context fuel startAfter
      []).runAt s = .ok (some (currentPage f keyPrefix delimiter startAfter limit s)) := by
  have htotal : ∃ out, (collectCurrentScanAtClock shard f keyPrefix limit delimiter version expectedClock context
      fuel startAfter []).runAt s = .ok (some out) :=
    collectCurrentScanAtClock_total hbounded hrows hle hfence hlimit hpre hcursor hfuel
  obtain ⟨out, hout⟩ := htotal
  have hmay : Prog.May (· = s) (collectCurrentScanAtClock shard f keyPrefix limit delimiter version expectedClock
      context fuel (nextCursor startAfter []) []) (some out) := may_of_runAt rfl hout
  have hitems : ∀ after m, (s.scanItems (fencedScan f.keyspace keyPrefix after m delimiter)).map
      (Item.mapValue storedPayload) = afterCursor Item.key after
        ((rollup keyPrefix delimiter (s.prefixRows f.keyspace keyPrefix)).map
          (Item.mapValue storedPayload)) := fun after m =>
    (afterCursor_map (fun i => Item.key_mapValue _ i) _ _).symm
  have hpage := collectCurrentScanAtClock_may (fun s' hs' _ after m => by rw [hs']; exact hitems after m)
    (pairwise_map.2 (by simpa using rollup_sorted (fun _ => prefixRows_isPrefix) (prefixRows_sorted _ _)))
    (nil_append _).symm (Nat.zero_le _) hmay
  rw [hout, hpage, ← hitems startAfter limit]
  rfl

end CurrentPath

/-! ### The scans of one run -/

/-- The states of one run: two with one clock have the same metadata rows, and those at or behind
version `v` still show it as the store `t` had it. -/
structure Snapshots (shard : LogicalShardId) (P : State → Prop) (t : State) (f : MetadataFamily) (v : ℕ) :
    Prop where
  bounded : ∀ s, P s → Bounded s
  sees : ∀ s, P s → ∀ context clock, fenceAt shard context s = .ok clock → v ≤ clock.get →
    Sees s t f clock.get v
  same : ∀ s s', P s → P s' → ∀ context clock, fenceAt shard context s = .ok clock →
    fenceAt shard context s' = .ok clock → ∀ ks, IsPlain ks → ∀ k, s.get ⟨ks, k⟩ = s'.get ⟨ks, k⟩

section Paths

variable {shard : LogicalShardId} {P : State → Prop} {s t : State} {f : MetadataFamily} {keyPrefix : Bytes}
  {delimiter : Option UInt8} {startAfter : Option Bytes} {limit fuel : ℕ} {version clock : ReadVersion}
  {context : ReadFenceContext} {maxItems : ℕ} {operation : String}

/-- The page loop over the rows of the version gives the page of the version. -/
lemma assemblePage_live (hlimit : 0 < limit) :
    assemblePage keyPrefix delimiter startAfter limit [] none
      ((liveRows t f).filter fun r => keyPrefix.isPrefixOf r.1) =
      snapshotPage t f keyPrefix delimiter startAfter limit := by
  rw [assemblePage_eq _ _ _ hlimit, foldGroups_eq_rollup
    (fun r hr => isPrefixOf_iff_prefix.1 (mem_filter.1 hr).2) (liveRows_sorted.filter _)]
  rfl

lemma effectiveLimit_pos (h : 0 < maxItems) : 0 < effectiveLimit limit maxItems := by
  unfold effectiveLimit
  split <;> omega

lemma effectiveLimit_le : effectiveLimit limit maxItems ≤ maxItems := by
  unfold effectiveLimit
  split <;> omega

/-- The fence of a scan on one state. -/
def scanFence (shard : LogicalShardId) (context : ReadFenceContext) (keyPrefix : Bytes) (s : State) :
    Except MetaError ReadVersion := do
  validateRootScopedBytes context.rootId keyPrefix "read key or prefix"
  fenceAt shard context s

lemma scanFence_eq_ok (h : scanFence shard context keyPrefix s = .ok clock) :
    fenceAt shard context s = .ok clock ∧ keyPrefix.length ≤ 8205 := by
  obtain ⟨_, hscoped, h⟩ := bind_eq_ok.1 h
  exact ⟨h, (validateRootScopedBytes_eq_ok.1 hscoped).1.trans (by decide)⟩

/-- A scan of a version is admitted at the clock of the state. -/
def admitScan (shard : LogicalShardId) (context : ReadFenceContext) (keyPrefix : Bytes)
    (version : ReadVersion) (s : State) : Except MetaError ReadVersion := do
  validateRootScopedBytes context.rootId keyPrefix "read key or prefix"
  let clock ← fenceAt shard context s
  refuseIf (clock < version) (MetaError.readVersionInFuture version.get clock.get)
  return clock

/-- A scan is accepted together with the fence reads. -/
def checkFencedScan (context : ReadFenceContext) (scan : Scan) (operation : String) : Except MetaError Unit :=
  (validateBatch (fenceOps context ++ [.scan scan]) storeLimits).mapError (MetaError.store operation)

/-- The rows of a version that a scan rebuilds. -/
def rebuiltRows (f : MetadataFamily) (keyPrefix : Bytes) (version : ReadVersion) (s : State) :
    Except MetaError (OrdMap Bytes Bytes) :=
  visibleRows f keyPrefix version
    (s.scanItems (fencedScan f.keyspace keyPrefix none MAX_HISTORICAL_SCAN_PAGE_ROWS none))
    (s.scanItems (fencedScan HISTORY.id [f.formatTag] none MAX_HISTORICAL_SCAN_PAGE_ROWS none))

/-- The outcome of a scan, on the rows of a state. -/
def scanOutcome (shard : LogicalShardId) (context : ReadFenceContext) (f : MetadataFamily) (keyPrefix : Bytes)
    (delimiter : Option UInt8) (version : ReadVersion) (startAfter : Option Bytes) (limit : ℕ) (s : State) :
    Except MetaError (List DelimitedMetadataScanItem) := do
  let clock ← admitScan shard context keyPrefix version s
  if version = clock then
    (fun _ => currentPage f keyPrefix delimiter startAfter limit s) <$> checkFencedScan context
      (fencedScan f.keyspace keyPrefix startAfter limit delimiter) "scan current metadata"
  else
    (fun visible => assemblePage keyPrefix delimiter startAfter limit [] none visible.rows) <$>
      rebuiltRows f keyPrefix version s

lemma admitScan_eq (hle : ∀ clock, fenceAt shard context s = .ok clock → version ≤ clock) :
    admitScan shard context keyPrefix version s = scanFence shard context keyPrefix s := by
  refine bind_congr fun _ => ?_
  cases hfence : fenceAt shard context s with
  | error => rfl
  | ok clock =>
    have hfuture : ¬ clock < version := Nat.not_lt.2 (hle clock hfence)
    rw [ok_bind, refuseIf_of_not hfuture]
    rfl

lemma admitScan_eq_ok (h : admitScan shard context keyPrefix version s = .ok clock) :
    fenceAt shard context s = .ok clock ∧ version ≤ clock ∧ keyPrefix.length ≤ 8205 ∧
      context.rootId.bytes <+: keyPrefix := by
  obtain ⟨_, hscoped, h⟩ := bind_eq_ok.1 h
  obtain ⟨_, hfence, h⟩ := bind_eq_ok.1 h
  obtain ⟨hfuture, h⟩ := refuseIf_bind h
  cases pure_eq_ok.1 h
  obtain ⟨hle, hroot⟩ := validateRootScopedBytes_eq_ok.1 hscoped
  exact ⟨hfence, Nat.not_lt.1 hfuture, hle.trans (by decide), isPrefixOf_iff_prefix.1 hroot⟩

lemma checkCursor_of_checkFencedScan {scan : Scan} (h : checkFencedScan context scan operation = .ok ()) :
    checkCursor scan storeLimits = .ok () := by
  have hbatch : validateBatch (fenceOps context ++ [.scan scan]) storeLimits = .ok () := mapError_eq_ok.1 h
  have hmin : add storeLimits.maxKeyBytes storeLimits.maxValueBytes .resultBytes = .ok (8205 + 65535) := rfl
  replace hbatch := ok_of_bind hbatch
  rw [hmin, ok_bind, foldlM_fenceOps, foldlM_cons] at hbatch
  obtain ⟨_, hfold, -⟩ := bind_eq_ok.1 hbatch
  obtain ⟨_, hop, -⟩ := bind_eq_ok.1 hfold
  replace hop := ok_of_bind hop
  replace hop := ok_of_bind hop
  replace hop := ok_of_bind hop
  replace hop := ok_of_bind hop
  obtain ⟨_, hcursor, -⟩ := bind_eq_ok.1 hop
  exact hcursor

variable [Pager]

/-- A collected scan was read under the expected clock. -/
lemma collectScanAtClock_observes {keyspace : Keyspace} {pageRows : ℕ} {operation : String}
    {after : Option Bytes} {rows out : List ScanItem}
    (h : Prog.May P (collectScanAtClock shard keyspace keyPrefix pageRows clock context operation fuel
      after rows) (some out)) : ∃ s, P s ∧ fenceAt shard context s = .ok clock := by
  cases fuel with
  | zero => exact absurd h may_fail
  | succ =>
    obtain ⟨page, hpage, h⟩ := may_bind.1 h
    cases page with
    | none => cases may_pure.1 h
    | some =>
      obtain ⟨s, hs, hfence, -⟩ := scanPageAtClock_may (may_liftM_bounded.1 hpage)
      exact ⟨s, hs, hfence⟩

lemma validateReadFence_may (h : Prog.May P (validateReadFence shard context keyPrefix version) clock) :
    version ≤ clock ∧ ∃ s, P s ∧ fenceAt shard context s = .ok clock := by
  obtain ⟨_, -, h⟩ := may_bind.1 h
  obtain ⟨_, hclock, h⟩ := may_bind.1 h
  obtain ⟨_, hversion, h⟩ := may_bind.1 h
  cases may_pure.1 h
  exact ⟨Nat.not_lt.1 (may_refuseIf.1 hversion), validateReadContext_may hclock⟩

lemma validateReadFence_eq (shard : LogicalShardId) (context : ReadFenceContext) (keyPrefix : Bytes)
    (version : ReadVersion) (s : State) :
    (validateReadFence shard context keyPrefix version).runAt s =
      admitScan shard context keyPrefix version s := by
  unfold validateReadFence admitScan
  rw [runAt_bind, runAt_liftM]
  refine bind_congr fun _ => ?_
  rw [runAt_bind, validateReadContext_runAt]
  refine bind_congr fun clock => ?_
  rw [runAt_bind, runAt_refuseIf]
  rfl

/-- A page that is not accepted is refused before the store is asked. -/
lemma scanPageAtClock_refused {keyspace : Keyspace} {after : Option Bytes} {e : MetaError}
    (h : checkFencedScan context (fencedScan keyspace keyPrefix after limit delimiter) operation = .error e)
    (expectedClock : ReadVersion) :
    (scanPageAtClock shard keyspace keyPrefix after limit delimiter expectedClock context operation).runAt s =
      .error e := by
  unfold checkFencedScan at h
  unfold scanPageAtClock readBatchAtFence readBatch
  rw [scanRequest_eq, runAt_bind, runAt_liftM, ok_bind, runAt_bind, runAt_bind,
    runAt_bind, runAt_liftM, h]
  rfl

/-- On a store that stands still the History path settles with the rows it rebuilds. -/
lemma historicalScan_settles (hbounded : Bounded s) (hfence : fenceAt shard context s = .ok clock)
    (hpre : keyPrefix.length ≤ 8205) :
    Settles (fun fuel => (historicalScan shard fuel context f keyPrefix delimiter version startAfter
        limit clock).runAt s)
      ((fun visible => assemblePage keyPrefix delimiter startAfter limit [] none visible.rows) <$>
        rebuiltRows f keyPrefix version s) := by
  refine ⟨(s.scanItems (fencedScan f.keyspace keyPrefix none MAX_HISTORICAL_SCAN_PAGE_ROWS none)).length +
    (s.scanItems (fencedScan HISTORY.id [f.formatTag] none MAX_HISTORICAL_SCAN_PAGE_ROWS none)).length + 1,
    fun fuel hfuel => ?_⟩
  have hpage : 0 < MAX_HISTORICAL_SCAN_PAGE_ROWS ∧ MAX_HISTORICAL_SCAN_PAGE_ROWS ≤ 520 := by decide
  have hrows : (collectVersionRows shard f keyPrefix clock context fuel).runAt s = .ok (some (
      s.scanItems (fencedScan f.keyspace keyPrefix none MAX_HISTORICAL_SCAN_PAGE_ROWS none),
      s.scanItems (fencedScan HISTORY.id [f.formatTag] none MAX_HISTORICAL_SCAN_PAGE_ROWS none))) := by
    unfold collectVersionRows
    rw [runAt_bind, collectScanAtClock_runAt hbounded hfence hpage.1 hpage.2 hpre (by omega), ok_bind]
    rw [runAt_bind, collectScanAtClock_runAt hbounded hfence hpage.1 hpage.2
      (by rw [length_singleton]; omega) (by omega), ok_bind]
    rfl
  dsimp only
  unfold historicalScan
  rw [runAt_bind, show MAX_HISTORICAL_SCAN_ATTEMPTS = 3 + 1 from rfl]
  unfold reconstructHistoricalScan
  rw [runAt_bind, hrows, ok_bind]
  rw [runAt_liftM]
  unfold rebuiltRows
  cases visibleRows f keyPrefix version _ _ <;> rfl

/-- At the clock, the pages of current rows settle with the page of the scan. -/
lemma collectCurrentScanAtClock_settles {n : ℕ} (hbounded : Bounded s) (hrows : RowsInv s n) (hle : n ≤ version.get)
    (hfence : fenceAt shard context s = .ok clock) (hpos : 0 < limit) (hlimit : limit ≤ 520)
    (hpre : keyPrefix.length ≤ 8205) :
    Settles (fun fuel => (collectCurrentScanAtClock shard f keyPrefix limit delimiter version clock context
        fuel startAfter []).runAt s)
      ((fun _ => some (currentPage f keyPrefix delimiter startAfter limit s)) <$> checkFencedScan context
        (fencedScan f.keyspace keyPrefix startAfter limit delimiter) "scan current metadata") := by
  cases hcheck : checkFencedScan context (fencedScan f.keyspace keyPrefix startAfter limit delimiter)
      "scan current metadata" with
  | error e =>
    refine ⟨1, fun fuel hfuel => ?_⟩
    obtain ⟨fuel, rfl⟩ := Nat.exists_eq_succ_of_ne_zero (show fuel ≠ 0 by omega)
    dsimp only
    unfold collectCurrentScanAtClock
    rw [if_neg (by simpa using hpos.ne'), runAt_bind, runAt_liftM_bounded]
    rw [show limit - ([] : List DelimitedMetadataScanItem).length = limit from Nat.sub_zero _,
      scanPageAtClock_refused hcheck]
    rfl
  | ok u =>
    exact ⟨_, fun fuel hfuel => collectCurrentScanAtClock_runAt hbounded hrows hle hfence hlimit hpre
      (checkCursor_of_checkFencedScan hcheck) (Nat.lt_of_succ_le hfuel)⟩

lemma scanPrefixAtImpl_settles (hbounded : Bounded s)
    (hrows : ∀ clock, fenceAt shard context s = .ok clock → RowsInv s clock.get)
    (hmax : 0 < maxItems) (hmax' : maxItems ≤ 520) :
    Settles (fun fuel => (scanPrefixAtImpl shard fuel context f keyPrefix delimiter version startAfter limit
        maxItems).runAt s)
      (scanOutcome shard context f keyPrefix delimiter version startAfter (effectiveLimit limit maxItems)
        s) := by
  have hpos : 0 < effectiveLimit limit maxItems := effectiveLimit_pos hmax
  have hlimit : effectiveLimit limit maxItems ≤ 520 := effectiveLimit_le.trans hmax'
  unfold scanPrefixAtImpl scanOutcome
  simp only [runAt_bind, runAt_liftM_bounded, validateReadFence_eq]
  refine Settles.bind (settles_of_eq fun _ => rfl) fun clock hclock => ?_
  obtain ⟨hfence, -, hpre, -⟩ := admitScan_eq_ok hclock
  by_cases heq : version = clock
  · subst heq
    simp only [if_pos, runAt_bind]
    have hcurrent : Settles (fun fuel => (collectCurrentScanAtClock shard f keyPrefix
        (effectiveLimit limit maxItems) delimiter version version context fuel startAfter []).runAt s) _ :=
      collectCurrentScanAtClock_settles hbounded (hrows _ hfence) (le_refl _) hfence hpos hlimit hpre
    obtain ⟨bound, hbound⟩ := hcurrent
    refine ⟨bound, fun fuel hfuel => ?_⟩
    have hrun := hbound fuel hfuel
    dsimp only at hrun ⊢
    rw [hrun]
    cases checkFencedScan context (fencedScan f.keyspace keyPrefix startAfter (effectiveLimit limit maxItems)
      delimiter) "scan current metadata" <;> rfl
  · simp only [if_neg heq]
    exact historicalScan_settles hbounded hfence hpre

section

variable (hP : Snapshots shard P t f version.get) {page : List DelimitedMetadataScanItem}
include hP

/-- Current rows and History rows that were read under one clock are those of one state. -/
lemma collectVersionRows_may {currentRows historyRows : List ScanItem}
    (h : Prog.May P (collectVersionRows shard f keyPrefix clock context fuel)
      (some (currentRows, historyRows))) : ∃ s, P s ∧ fenceAt shard context s = .ok clock ∧
      currentRows = s.scanItems (fencedScan f.keyspace keyPrefix none MAX_HISTORICAL_SCAN_PAGE_ROWS none) ∧
      historyRows = s.scanItems (fencedScan HISTORY.id [f.formatTag] none MAX_HISTORICAL_SCAN_PAGE_ROWS
        none) := by
  obtain ⟨current, hcurrent, h⟩ := may_bind.1 h
  cases current with
  | none => cases may_pure.1 h
  | some =>
    obtain ⟨history, hhistory, h⟩ := may_bind.1 h
    cases history with
    | none => cases may_pure.1 h
    | some =>
      cases may_pure.1 h
      obtain ⟨s, hs, hfence⟩ := collectScanAtClock_observes hcurrent
      have hall : ∀ (scan : Scan), IsPlain scan.keyspace → ∀ s', P s' →
          fenceAt shard context s' = .ok clock → s'.scanItems scan = s.scanItems scan :=
        fun scan hplain s' hs' hfence' =>
          scanItems_congr (hP.same s' s hs' hs context clock hfence' hfence _ hplain)
      refine ⟨s, hs, hfence, ?_, ?_⟩
      · exact collectScanAtClock_may (hall _ f.isPlain) (nil_append _).symm hcurrent
      · exact collectScanAtClock_may (hall _ isPlain_history) (nil_append _).symm hhistory

lemma reconstructHistoricalScan_may (hle : version ≤ clock) {scanFuel attempt : ℕ}
    {visible : OrdMap Bytes Bytes}
    (h : Prog.May P (reconstructHistoricalScan shard f keyPrefix version context scanFuel fuel attempt
      clock) visible) : visible.rows = (liveRows t f).filter fun r => keyPrefix.isPrefixOf r.1 := by
  induction fuel generalizing attempt clock with
  | zero => exact absurd h may_fail
  | succ _ ih =>
    obtain ⟨rows, hrows, h⟩ := may_bind.1 h
    cases rows with
    | none =>
      -- a commit came between two pages: the attempt starts again at the new clock
      obtain ⟨_, hclock', h⟩ := may_bind.1 h
      have hretry := may_liftM_bounded.1 hclock'
      obtain ⟨_, hfence, hretry⟩ := may_bind.1 hretry
      obtain ⟨_, -, hretry⟩ := may_bind.1 hretry
      cases may_pure.1 hretry
      exact ih (validateReadFence_may hfence).1 h
    | some =>
      obtain ⟨s, hs, hfence, hcurrent, hhistory⟩ := collectVersionRows_may hP hrows
      obtain ⟨_, hvisible', hlive⟩ := visibleRows_eq keyPrefix
        MAX_HISTORICAL_SCAN_PAGE_ROWS (hP.sees s hs context clock hfence hle)
      have hok := mapError_eq_ok.1 (may_liftM.1 h)
      rw [hcurrent, hhistory, hvisible'] at hok
      cases hok
      exact hlive

/-- Whatever states of the run it observes, the History path returns the page of the version. -/
lemma historicalScan_may (hle : version ≤ clock) (hlimit : 0 < limit)
    (h : Prog.May P (historicalScan shard fuel context f keyPrefix delimiter version startAfter limit
      clock) page) : page = snapshotPage t f keyPrefix delimiter startAfter limit := by
  obtain ⟨_, hvisible, h⟩ := may_bind.1 h
  rw [← may_pure.1 h, reconstructHistoricalScan_may hP hle hvisible, assemblePage_live hlimit]

/-- Whatever states of the run it observes, a scan returns the page of its version. -/
lemma scanPrefixAtImpl_may (hmax : 0 < maxItems)
    (h : Prog.May P (scanPrefixAtImpl shard fuel context f keyPrefix delimiter version startAfter limit
      maxItems) page) :
    page = snapshotPage t f keyPrefix delimiter startAfter (effectiveLimit limit maxItems) := by
  obtain ⟨_, hclock, h⟩ := may_bind.1 h
  have hle := (validateReadFence_may (may_liftM_bounded.1 hclock)).1
  split at h
  next heq =>
    subst heq
    obtain ⟨current, hcurrent, h⟩ := may_bind.1 h
    cases current with
    | some =>
      rw [← may_pure.1 h]
      refine collectCurrentScanAtClock_may (fun s hs hfence after n => ?_) snapshotItems_sorted
        (nil_append _).symm (Nat.zero_le _) hcurrent
      exact map_scanItems (hP.sees s hs context version hfence (le_refl _)) after n
    | none =>
      obtain ⟨_, hclock', h⟩ := may_bind.1 h
      have hle' := (validateReadFence_may (may_liftM_bounded.1 hclock')).1
      exact historicalScan_may hP hle' (effectiveLimit_pos hmax) h
  · exact historicalScan_may hP hle (effectiveLimit_pos hmax) h

omit [Pager] in
/-- At the clock the page of current rows is the page of the version. -/
lemma currentPage_eq (hs : P s) (hfence : fenceAt shard context s = .ok version) :
    currentPage f keyPrefix delimiter startAfter limit s =
      snapshotPage t f keyPrefix delimiter startAfter limit := by
  unfold currentPage
  rw [map_scanItems (hP.sees s hs context version hfence (le_refl _))]
  rfl

omit [Pager] in
/-- The rows that a scan rebuilds make up the page of the version. -/
lemma rebuiltPage_eq (hs : P s) (hfence : fenceAt shard context s = .ok clock) (hle : version ≤ clock)
    (hlimit : 0 < limit) :
    (fun visible => assemblePage keyPrefix delimiter startAfter limit [] none visible.rows) <$>
      rebuiltRows f keyPrefix version s = .ok (snapshotPage t f keyPrefix delimiter startAfter limit) := by
  obtain ⟨_, hvisible, hlive⟩ := visibleRows_eq keyPrefix MAX_HISTORICAL_SCAN_PAGE_ROWS
    (hP.sees s hs context clock hfence hle)
  unfold rebuiltRows
  rw [hvisible, ← assemblePage_live hlimit, ← hlive]
  rfl

end

/-- On a store that stands still, a scan returns the page of its version unless its fence fails. -/
lemma scanPrefixAtImpl_runAt (hP : Snapshots shard P t f version.get) (hs : P s)
    (hle : ∀ clock, fenceAt shard context s = .ok clock → version ≤ clock) (hmax : 0 < maxItems)
    (hmax' : maxItems ≤ 520)
    (hcursor : checkCursor (fencedScan f.keyspace keyPrefix startAfter maxItems delimiter) storeLimits =
      .ok ()) :
    ∃ bound, ∀ fuel ≥ bound, (scanPrefixAtImpl shard fuel context f keyPrefix delimiter version startAfter
      limit maxItems).runAt s =
        (fun _ => snapshotPage t f keyPrefix delimiter startAfter (effectiveLimit limit maxItems)) <$>
          (scanFence shard context keyPrefix s).mapError Halt.err := by
  have hpos : 0 < effectiveLimit limit maxItems := effectiveLimit_pos hmax
  have hlimit : effectiveLimit limit maxItems ≤ 520 := effectiveLimit_le.trans hmax'
  have hsettles : Settles (fun fuel => (scanPrefixAtImpl shard fuel context f keyPrefix delimiter version
      startAfter limit maxItems).runAt s) _ := scanPrefixAtImpl_settles (hP.bounded s hs)
    (fun clock hfence => (hP.sees s hs context clock hfence (hle clock hfence)).rows) hmax hmax'
  obtain ⟨bound, hbound⟩ := hsettles
  refine ⟨bound, fun fuel hfuel => (hbound fuel hfuel).trans ?_⟩
  unfold scanOutcome
  rw [admitScan_eq hle]
  cases hscan : scanFence shard context keyPrefix s with
  | error => rfl
  | ok clock =>
    obtain ⟨hfence, hpre⟩ := scanFence_eq_ok hscan
    rw [ok_bind]
    split
    next heq =>
      subst heq
      unfold checkFencedScan
      rw [validateBatch_fence_scan context (scanOk_fencedScan hpos hlimit hpre hcursor)
        (by dsimp only [fencedScan]; omega), currentPage_eq hP hs hfence]
      rfl
    · rw [rebuiltPage_eq hP hs hfence (hle clock hfence) hpos]
      rfl

end Paths

/-! ### Runs -/

section Runs

variable [Pager] [Sha256] {shard : LogicalShardId} {f : MetadataFamily}

omit [Pager] [Sha256] in
lemma payloadOf_congr {s t : State} (h : ∀ k, s.get ⟨f.keyspace, k⟩ = t.get ⟨f.keyspace, k⟩) (k : Bytes) :
    payloadOf s f k = payloadOf t f k := by
  unfold payloadOf currentOf
  rw [h]

variable (shard) in
lemma rowsStep_of_isPrefix {pre pre' : List Request} (h : pre <+: pre') :
    ∃ log log', Inv shard (serveAll shard (initialized shard) pre) log ∧
      Inv shard (serveAll shard (initialized shard) pre') log' ∧
      RowsStep (serveAll shard (initialized shard) pre) (serveAll shard (initialized shard) pre')
        (clockAfter shard log) (clockAfter shard log') := by
  obtain ⟨post, rfl⟩ := h
  obtain ⟨log, hinv⟩ := inv_serveAll shard pre
  obtain ⟨_, hinv', hstep⟩ := hinv.serveAll post
  have hsplit : serveAll shard (initialized shard) (pre ++ post) =
      serveAll shard (serveAll shard (initialized shard) pre) post := foldl_append ..
  rw [hsplit]
  exact ⟨log, _, hinv, hinv', hstep⟩

/-- States of a run with one clock have the same metadata rows. -/
lemma plain_of_clock_eq {pre pre' : List Request} (h : pre <+: pre')
    (hclock : clockOf (serveAll shard (initialized shard) pre') =
      clockOf (serveAll shard (initialized shard) pre)) (ks : Keyspace) (hks : IsPlain ks) (k : Bytes) :
    (serveAll shard (initialized shard) pre').get ⟨ks, k⟩ =
      (serveAll shard (initialized shard) pre).get ⟨ks, k⟩ := by
  obtain ⟨_, _, hinv, hinv', hstep⟩ := rowsStep_of_isPrefix shard h
  rw [hinv.clockOf_eq, hinv'.clockOf_eq] at hclock
  exact hstep.plain hclock ks hks k

/-- The states of a run still show every version that it committed. -/
lemma snapshots_along (hf : f ≠ .artifactInlineBody) {pre requests : List Request}
    (hpre : pre <+: requests) :
    Snapshots shard (Along shard requests) (serveAll shard (initialized shard) pre) f
      (clockOf (serveAll shard (initialized shard) pre)) := by
  have hfenced : ∀ pre' context (clock : ReadVersion),
      fenceAt shard context (serveAll shard (initialized shard) pre') = .ok clock →
      clock.get = clockOf (serveAll shard (initialized shard) pre') := by
    intro pre' context clock hfence
    obtain ⟨log, hinv⟩ := inv_serveAll shard pre'
    rw [hinv.fence_clock hfence, hinv.clockOf_eq]
  refine ⟨?_, ?_, ?_⟩
  · rintro s ⟨pre', -, rfl⟩
    obtain ⟨log, hinv⟩ := inv_serveAll shard pre'
    exact hinv.bounded
  · -- each state with a clock from the snapshot on shows the payloads of the snapshot
    rintro s ⟨pre', hpre', rfl⟩ context clock hfence hle
    obtain ⟨_, hinv⟩ := inv_serveAll shard pre'
    have hclock := hfenced pre' context clock hfence
    have hrows : RowsInv (serveAll shard (initialized shard) pre') clock.get := by
      rw [hclock, hinv.clockOf_eq]
      exact hinv.rows
    refine ⟨hrows, hrows.cell f hf, fun k hk => ?_, fun k x hlive => ?_⟩
    · rcases prefix_or_prefix_of_prefix hpre hpre' with hle' | hle'
      · obtain ⟨post, rfl⟩ := hle'
        exact shows_committed shard pre post hf hk
      · -- the version is the clock of the earlier state, whose rows are those of the snapshot
        obtain ⟨_, _, hinv₁, hinv₂, hstep⟩ := rowsStep_of_isPrefix shard hle'
        have hmono := hstep.mono
        rw [← hinv₁.clockOf_eq, ← hinv₂.clockOf_eq] at hmono
        have heq : clockOf (serveAll shard (initialized shard) pre) =
            clockOf (serveAll shard (initialized shard) pre') := le_antisymm (hclock ▸ hle) hmono
        rw [payloadOf_congr (plain_of_clock_eq hle' heq f.keyspace f.isPlain), heq, ← payloadOf_eq,
          ← hclock]
        exact Cell.shows_now (hrows.cell f hf k hk)
    · obtain ⟨_, hinv'⟩ := inv_serveAll shard pre
      obtain ⟨_, hvalue, -⟩ := Option.map_eq_some_iff.1 hlive
      obtain ⟨raw, hget, -⟩ := Option.bind_eq_some_iff.1 hvalue
      exact (hinv'.rows.current f k raw hget).1
  · -- two states of one clock have the same plain rows
    rintro s _ ⟨pre₁, hpre₁, rfl⟩ ⟨pre₂, hpre₂, rfl⟩ context clock hfence₁ hfence₂ ks hks k
    have heq := (hfenced pre₁ context clock hfence₁).symm.trans (hfenced pre₂ context clock hfence₂)
    rcases prefix_or_prefix_of_prefix hpre₁ hpre₂ with hle | hle
    · exact (plain_of_clock_eq hle heq.symm ks hks k).symm
    · exact plain_of_clock_eq hle heq ks hks k

/-- A program returns `page`: at the end of the run unless its fence fails, and whatever states of the
run its observations meet, nothing else. -/
structure Returns {α : Type} (shard : LogicalShardId) (requests : List Request)
    (fence : State → Except MetaError ReadVersion) (program : ℕ → Loop α) (page : α) : Prop where
  atRest : ∃ bound, ∀ fuel ≥ bound, (program fuel).runAt (serveAll shard (initialized shard) requests) =
    (fun _ => page) <$> (fence (serveAll shard (initialized shard) requests)).mapError Halt.err
  moving : ∀ fuel out, Prog.May (Along shard requests) (program fuel) out → out = page

/-- The live rows under a prefix, as records. -/
def liveRecords (s : State) (family : MetadataFamily) (keyPrefix : Bytes) : List MetadataScanItem :=
  ((liveRows s family).filter fun r => keyPrefix.isPrefixOf r.1).map fun r => ⟨r.1, r.2⟩

/-- The page of records behind a cursor. -/
def snapshotRecords (s : State) (family : MetadataFamily) (keyPrefix : Bytes) (startAfter : Option Bytes)
    (limit : ℕ) : List MetadataScanItem :=
  (afterCursor MetadataScanItem.key startAfter (liveRecords s family keyPrefix)).take limit

/-- What the scans of a family under a prefix return at a version: pages of the store that committed
it. Going through the pages meets every row once, and the two ways of reading a page agree. -/
structure ScansSnapshot (shard : LogicalShardId) (requests : List Request) (context : ReadFenceContext)
    (family : MetadataFamily) (keyPrefix : Bytes) (version : ReadVersion) (snapshot : State) : Prop where
  plain : ∀ startAfter limit,
    checkCursor (fencedScan family.keyspace keyPrefix startAfter MAX_COMMAND_ITEMS none) storeLimits =
      .ok () →
    Returns shard requests (scanFence shard context keyPrefix)
      (fun fuel => scanPrefixAt shard fuel context family keyPrefix version startAfter limit)
      (snapshotRecords snapshot family keyPrefix startAfter (effectiveLimit limit MAX_COMMAND_ITEMS))
  delimited : ∀ delimiter startAfter limit,
    checkCursor (fencedScan family.keyspace keyPrefix startAfter MAX_DELIMITED_SCAN_ITEMS (some delimiter))
      storeLimits = .ok () →
    Returns shard requests (scanFence shard context keyPrefix)
      (fun fuel => scanDelimitedPrefixAt shard fuel context family keyPrefix delimiter version startAfter
        limit)
      (snapshotPage snapshot family keyPrefix (some delimiter) startAfter
        (effectiveLimit limit MAX_DELIMITED_SCAN_ITEMS))
  plainPages : ∀ limit pages,
    Pages MetadataScanItem.key (fun startAfter page => ∃ fuel, Prog.May (Along shard requests)
        (scanPrefixAt shard fuel context family keyPrefix version startAfter limit) page)
      (effectiveLimit limit MAX_COMMAND_ITEMS) none pages →
    ∀ record, pages.flatten.count record =
      if payloadOf snapshot family record.key = some record.value ∧ keyPrefix <+: record.key then 1 else 0
  delimitedPages : ∀ delimiter limit pages,
    Pages Item.key (fun startAfter page => ∃ fuel, Prog.May (Along shard requests)
        (scanDelimitedPrefixAt shard fuel context family keyPrefix delimiter version startAfter limit) page)
      (effectiveLimit limit MAX_DELIMITED_SCAN_ITEMS) none pages →
    pages.flatten = snapshotItems snapshot family keyPrefix (some delimiter) ∧ pages.flatten.Nodup ∧
      ∀ key value, payloadOf snapshot family key = some value → keyPrefix <+: key →
        itemOf keyPrefix (some delimiter) (key, value) ∈ pages.flatten
  paths : ∀ s, Along shard requests s → scanFence shard context keyPrefix s = .ok version →
    ∀ delimiter startAfter limit, 0 < limit → limit ≤ MAX_DELIMITED_SCAN_ITEMS →
    checkCursor (fencedScan family.keyspace keyPrefix startAfter limit delimiter) storeLimits = .ok () →
    ∃ bound, ∀ fuel ≥ bound, ∃ page,
      (collectCurrentScanAtClock shard family keyPrefix limit delimiter version version context fuel
        startAfter []).runAt s = .ok (some page) ∧
      (historicalScan shard fuel context family keyPrefix delimiter version startAfter limit version).runAt
        s = .ok page

omit [Pager] [Sha256] in
lemma mapM_scanRecord (t : State) (keyPrefix : Bytes) (startAfter : Option Bytes) (limit : ℕ) :
    (snapshotPage t f keyPrefix none startAfter limit).mapM scanRecord =
      .ok (snapshotRecords t f keyPrefix startAfter limit) := by
  have hitems : ∀ l : List (Bytes × Bytes), afterCursor Item.key startAfter
      (l.map fun r => Item.row r.1 r.2) = (afterCursor Prod.fst startAfter l).map _ :=
    afterCursor_map (fun _ => rfl) startAfter
  have hrecords : ∀ l : List (Bytes × Bytes), afterCursor MetadataScanItem.key startAfter
      (l.map fun r => (⟨r.1, r.2⟩ : MetadataScanItem)) = (afterCursor Prod.fst startAfter l).map _ :=
    afterCursor_map (fun _ => rfl) startAfter
  unfold snapshotPage snapshotItems snapshotRecords liveRecords
  rw [rollup_none _ (liveRows_sorted.filter _), hitems, hrecords, ← map_take, ← map_take]
  refine mapM_eq_ok.2 (forall₂_map_left_iff.2 (forall₂_map_right_iff.2 ?_))
  exact forall₂_same.2 fun _ _ => rfl

omit [Pager] [Sha256] in
lemma liveRecords_sorted {t : State} {keyPrefix : Bytes} :
    (liveRecords t f keyPrefix).Pairwise fun a b => a.key < b.key :=
  pairwise_map.2 (liveRows_sorted.filter _)

omit [Pager] [Sha256] in
lemma mem_liveRecords {t : State} {keyPrefix : Bytes} {record : MetadataScanItem} :
    record ∈ liveRecords t f keyPrefix ↔
      payloadOf t f record.key = some record.value ∧ keyPrefix <+: record.key := by
  unfold liveRecords
  rw [mem_map]
  constructor
  · rintro ⟨⟨k, x⟩, hmem, rfl⟩
    obtain ⟨hlive, hpre⟩ := mem_filter.1 hmem
    exact ⟨mem_liveRows.1 hlive, isPrefixOf_iff_prefix.1 hpre⟩
  · rintro ⟨hlive, hpre⟩
    exact ⟨(record.key, record.value),
      mem_filter.2 ⟨mem_liveRows.2 hlive, isPrefixOf_iff_prefix.2 hpre⟩, rfl⟩

section Pages

variable {P : State → Prop} {t : State} {version : ReadVersion} {context : ReadFenceContext}
  {keyPrefix : Bytes} {limit : ℕ} {startAfter : Option Bytes}

variable (hP : Snapshots shard P t f version.get)
include hP

omit [Sha256] in
lemma scanPrefixAt_may {fuel : ℕ} {out : List MetadataScanItem}
    (h : Prog.May P (scanPrefixAt shard fuel context f keyPrefix version startAfter limit) out) :
    out = snapshotRecords t f keyPrefix startAfter (effectiveLimit limit MAX_COMMAND_ITEMS) := by
  obtain ⟨_, hitems, h⟩ := may_bind.1 h
  rw [scanPrefixAtImpl_may hP (by decide) hitems, mapM_scanRecord] at h
  exact (Except.ok.inj (may_liftM.1 h)).symm

omit [Sha256] in
/-- Going through the pages of a scan meets every row of the version once. -/
lemma count_pages {pages : List (List MetadataScanItem)}
    (h : Pages MetadataScanItem.key (fun startAfter page => ∃ fuel, Prog.May P
        (scanPrefixAt shard fuel context f keyPrefix version startAfter limit) page)
      (effectiveLimit limit MAX_COMMAND_ITEMS) none pages) (record : MetadataScanItem) :
    pages.flatten.count record =
      if payloadOf t f record.key = some record.value ∧ keyPrefix <+: record.key then 1 else 0 := by
  have hflat : pages.flatten = liveRecords t f keyPrefix := by
    rw [h.flatten_eq liveRecords_sorted (fun cursor page ⟨_, hpage⟩ => scanPrefixAt_may hP hpage),
      afterCursor_none]
  have hnodup : (liveRecords t f keyPrefix).Nodup := by
    refine liveRecords_sorted.imp ?_
    rintro a b hlt rfl
    exact lt_irrefl _ hlt
  rw [hflat]
  split
  next hlive => exact count_eq_one_of_mem hnodup (mem_liveRecords.2 hlive)
  next hlive => exact count_eq_zero_of_not_mem fun hmem => hlive (mem_liveRecords.1 hmem)

omit [Sha256] in
/-- Going through the pages of a delimited scan meets every item of the version once. -/
lemma flatten_delimitedPages {delimiter : UInt8} {pages : List (List DelimitedMetadataScanItem)}
    (h : Pages Item.key (fun startAfter page => ∃ fuel, Prog.May P
        (scanDelimitedPrefixAt shard fuel context f keyPrefix delimiter version startAfter limit) page)
      (effectiveLimit limit MAX_DELIMITED_SCAN_ITEMS) none pages) :
    pages.flatten = snapshotItems t f keyPrefix (some delimiter) ∧ pages.flatten.Nodup ∧
      ∀ key value, payloadOf t f key = some value → keyPrefix <+: key →
        itemOf keyPrefix (some delimiter) (key, value) ∈ pages.flatten := by
  have hflat : pages.flatten = snapshotItems t f keyPrefix (some delimiter) := by
    rw [h.flatten_eq snapshotItems_sorted
      (fun cursor page ⟨_, hpage⟩ => scanPrefixAtImpl_may hP (by decide) hpage), afterCursor_none]
  rw [hflat]
  refine ⟨rfl, ?_, fun key value hlive hpre => ?_⟩
  · refine snapshotItems_sorted.imp ?_
    rintro a b hlt rfl
    exact lt_irrefl _ hlt
  · refine itemOf_mem_rollup (fun r hr => ?_) (liveRows_sorted.filter _) ?_
    · exact isPrefixOf_iff_prefix.1 (mem_filter.1 hr).2
    · exact mem_filter.2 ⟨mem_liveRows.2 hlive, isPrefixOf_iff_prefix.2 hpre⟩

omit [Sha256] in
/-- At the clock, current rows and History give one page. -/
lemma paths_agree {s : State} (hs : P s) (hscan : scanFence shard context keyPrefix s = .ok version)
    {delimiter : Option UInt8} (hpos : 0 < limit) (hlimit : limit ≤ 520)
    (hcursor : checkCursor (fencedScan f.keyspace keyPrefix startAfter limit delimiter) storeLimits =
      .ok ()) : ∃ bound, ∀ fuel ≥ bound, ∃ page,
      (collectCurrentScanAtClock shard f keyPrefix limit delimiter version version context fuel
        startAfter []).runAt s = .ok (some page) ∧
      (historicalScan shard fuel context f keyPrefix delimiter version startAfter limit version).runAt
        s = .ok page := by
  obtain ⟨hfence, hpre⟩ := scanFence_eq_ok hscan
  have hhistorical : Settles (fun fuel => (historicalScan shard fuel context f keyPrefix delimiter version
      startAfter limit version).runAt s) _ := historicalScan_settles (hP.bounded s hs) hfence hpre
  rw [rebuiltPage_eq hP hs hfence (Nat.le_refl version.get) hpos] at hhistorical
  obtain ⟨bound, hbound⟩ := hhistorical
  refine ⟨max bound ((s.scanItems (fencedScan f.keyspace keyPrefix startAfter limit delimiter)).length + 1),
    fun fuel hfuel => ⟨_, ?_, hbound fuel ((le_max_left ..).trans hfuel)⟩⟩
  rw [← currentPage_eq hP hs hfence]
  exact collectCurrentScanAtClock_runAt (hP.bounded s hs) (hP.sees s hs context version hfence (le_refl _)).rows
    (le_refl _) hfence hlimit hpre hcursor ((le_max_right ..).trans hfuel)

omit [Sha256] in
/-- On a store that stands still a scan without delimiter returns records. -/
lemma scanPrefixAt_runAt {s : State} (hs : P s)
    (hle : ∀ clock, fenceAt shard context s = .ok clock → version ≤ clock)
    (hcursor : checkCursor (fencedScan f.keyspace keyPrefix startAfter MAX_COMMAND_ITEMS none) storeLimits =
      .ok ()) : ∃ bound, ∀ fuel ≥ bound,
      (scanPrefixAt shard fuel context f keyPrefix version startAfter limit).runAt s =
        (fun _ => snapshotRecords t f keyPrefix startAfter (effectiveLimit limit MAX_COMMAND_ITEMS)) <$>
          (scanFence shard context keyPrefix s).mapError Halt.err := by
  have himpl : ∃ bound, ∀ fuel ≥ bound, (scanPrefixAtImpl shard fuel context f keyPrefix none version
      startAfter limit MAX_COMMAND_ITEMS).runAt s = _ :=
    scanPrefixAtImpl_runAt hP hs hle (by decide) (by decide) hcursor
  obtain ⟨bound, hbound⟩ := himpl
  refine ⟨bound, fun fuel hfuel => ?_⟩
  unfold scanPrefixAt
  rw [runAt_bind, hbound fuel hfuel]
  cases scanFence shard context keyPrefix s with
  | error => rfl
  | ok =>
    show Prog.runAt _ (liftM (List.mapM scanRecord _)) = _
    rw [mapM_scanRecord, runAt_liftM]
    rfl

end Pages

/-- Every scan at a version up to the clock returns a page of the store that committed the version,
also while later commands commit; a limit of zero stands for the largest page, and no page is larger. -/
theorem scanPrefixAt_snapshot (shard : LogicalShardId) (requests : List Request)
    (family : MetadataFamily) (hfamily : family ≠ .artifactInlineBody) (keyPrefix : Bytes)
    (version : ReadVersion)
    (hversion : version.get ≤ clockOf (serveAll shard (initialized shard) requests))
    (context : ReadFenceContext) :
    ∃ snapshot, committedAt shard (initialized shard) requests version.get = some snapshot ∧
      ScansSnapshot shard requests context family keyPrefix version snapshot := by
  have hinit := inv_initialized shard
  have hpos : clockOf (initialized shard) ≤ version.get := by
    exact version.get_pos
  obtain ⟨pre, post, rfl, hclock, hcommitted⟩ := committedAt_eq_some hinit hpos hversion
  have hP : Snapshots shard (Along shard (pre ++ post)) (serveAll shard (initialized shard) pre) family
      version.get := hclock ▸ snapshots_along hfamily (prefix_append pre post)
  have hend : Along shard (pre ++ post) (serveAll shard (initialized shard) (pre ++ post)) :=
    ⟨_, prefix_refl _, rfl⟩
  have hle : ∀ clock, fenceAt shard context (serveAll shard (initialized shard) (pre ++ post)) =
      .ok clock → version ≤ clock := by
    intro clock hfence
    obtain ⟨_, hinv⟩ := inv_serveAll shard (pre ++ post)
    rw [NonZeroU64.le_iff, hinv.fence_clock hfence, ← hinv.clockOf_eq]
    exact hversion
  exact ⟨_, hcommitted, {
    plain := fun startAfter limit hcursor =>
      ⟨scanPrefixAt_runAt hP hend hle hcursor, fun _ _ h => scanPrefixAt_may hP h⟩
    delimited := fun delimiter startAfter limit hcursor =>
      ⟨scanPrefixAtImpl_runAt hP hend hle (by decide) (by decide) hcursor,
        fun _ _ h => scanPrefixAtImpl_may hP (by decide) h⟩
    plainPages := fun limit pages h => count_pages hP h
    delimitedPages := fun delimiter limit pages h => flatten_delimitedPages hP h
    paths := fun s hs hscan delimiter startAfter limit hpos hlimit hcursor =>
      paths_agree hP hs hscan hpos hlimit hcursor }⟩

end Runs

/-- In the sample run, scans at version 4 return pages of the store from before the overwrite. -/
theorem scanPrefixAt_snapshot_sample :
    ∃ snapshot, @committedAt memoryPager sha256Digest (sampleId 2) (@initialized sha256Digest (sampleId 2))
        (@sampleRequests sha256Digest) 4 = some snapshot ∧
      @ScansSnapshot memoryPager sha256Digest (sampleId 2) (@sampleRequests sha256Digest) sampleContext
        .pathCurrent (sampleId 1).bytes (sampleVersion 3) snapshot :=
  @scanPrefixAt_snapshot memoryPager sha256Digest (sampleId 2) (@sampleRequests sha256Digest)
    .pathCurrent (by decide) (sampleId 1).bytes (sampleVersion 3)
    (by rw [show @serveAll memoryPager sha256Digest (sampleId 2) (@initialized sha256Digest (sampleId 2))
          (@sampleRequests sha256Digest) = @sampleState memoryPager sha256Digest from rfl,
          sampleState_eq.1]; decide) sampleContext

/-- A limit of zero does not ask for an empty page: at the end of the sample run the scan returns the
live row. -/
theorem scanPrefixAt_limit_zero_sample :
    ∃ bound, ∀ fuel ≥ bound, ∃ page,
      (@scanPrefixAt memoryPager (sampleId 2) fuel sampleContext .pathCurrent (sampleId 1).bytes
        (sampleVersion 4) none 0).runAt (@sampleState memoryPager sha256Digest) = .ok page ∧
      ∀ snapshot, page ≠ snapshotRecords snapshot .pathCurrent (sampleId 1).bytes none 0 := by
  let _ := memoryPager
  let _ := sha256Digest
  obtain ⟨hclock, hlive, hfence, -⟩ := sampleState_eq
  have hP : Snapshots (sampleId 2) (Along (sampleId 2) sampleRequests) sampleState .pathCurrent
      (sampleVersion 4).get := by
    have hversion : (sampleVersion 4).get = clockOf sampleState := hclock.symm
    rw [hversion]
    exact snapshots_along (by decide) (prefix_refl sampleRequests)
  have hscoped : validateRootScopedBytes sampleContext.rootId (sampleId 1).bytes "read key or prefix" =
      .ok () := validateRootScopedBytes_eq_ok.2 (by decide)
  have hscan : scanFence (sampleId 2) sampleContext (sampleId 1).bytes sampleState =
      .ok (sampleVersion 4) := by
    unfold scanFence
    rw [hscoped, ok_bind, hfence]
  have hle : ∀ clock, fenceAt (sampleId 2) sampleContext sampleState = .ok clock →
      sampleVersion 4 ≤ clock := by
    intro clock hclock'
    rw [hfence] at hclock'
    cases hclock'
    exact Nat.le_refl _
  have hrun : ∃ bound, ∀ fuel ≥ bound, (scanPrefixAt (sampleId 2) fuel sampleContext .pathCurrent
      (sampleId 1).bytes (sampleVersion 4) none 0).runAt sampleState = _ :=
    scanPrefixAt_runAt hP (s := sampleState) ⟨_, prefix_refl _, rfl⟩ hle rfl
  obtain ⟨bound, hbound⟩ := hrun
  refine ⟨bound, fun fuel hfuel => ⟨snapshotRecords sampleState .pathCurrent (sampleId 1).bytes none
    (effectiveLimit 0 MAX_COMMAND_ITEMS), ?_, fun snapshot => ?_⟩⟩
  · exact (hbound fuel hfuel).trans (by rw [hscan]; rfl)
  · have hmem : (⟨sampleKey, [8]⟩ : MetadataScanItem) ∈ liveRecords sampleState .pathCurrent (sampleId 1).bytes :=
      mem_liveRecords.2 ⟨hlive, by decide⟩
    unfold snapshotRecords
    rw [afterCursor_none, take_zero]
    intro hnil
    rcases take_eq_nil_iff.1 hnil with hzero | hnone
    · cases hzero
    · rw [hnone] at hmem
      cases hmem

end NoKV.Meta
