import NoKV.Meta.Engine.Invariant

/-!
# Point reads at a version

`readAtFence` reads the current row and, when it is too new, looks for the History row of the
requested version. Its loops carry a bound; on a store that stands still the bound is reached by no
run (`collectScanAtClock_total`).
-/

namespace NoKV.Meta

open Lib Store State Mvcc List
open Prog hiding bind pure get

/-- A read program whose loops carry a bound. -/
abbrev Loop := Prog State (Halt MetaError)

section Programs

variable [Pager] (shard : LogicalShardId)

/-- Every row under a prefix, page by page, while the clock stands still. -/
def collectScanAtClock (keyspace : Keyspace) (keyPrefix : Bytes) (pageRows : ℕ)
    (expectedClock : ReadVersion) (context : ReadFenceContext) (operation : String) :
    ℕ → Option Bytes → List ScanItem → Loop (Option (List ScanItem))
  | 0, _, _ => throw .fuel
  | fuel + 1, after, rows => do
    match ← (liftM (scanPageAtClock shard keyspace keyPrefix after pageRows none expectedClock context
      operation) : Loop (Option ScanPage)) with
    | none => return none
    | some page =>
      if page.more then
        collectScanAtClock keyspace keyPrefix pageRows expectedClock context operation fuel
          (nextCursor after page.items) (rows ++ page.items)
      else return some (rows ++ page.items)

/-- The payload of the first History row that covers the version. -/
def coveringPayload (version : ReadVersion) : List ScanItem → Except MetaError (Option Bytes)
  | [] => .ok none
  | .group _ :: _ => .error (corrupt "History" "non-delimited scan returned a common prefix")
  | .row _ value :: rest => do
    let history ← corruptValue "History" (HistoryValue.decode value)
    if history.previousModifiedVersion.get ≤ version.get ∧
        version.get < history.transitionVersion.get then
      return history.previousPayload
    else coveringPayload version rest

/-- The value of a key at a version, from its History rows. -/
def readHistory (family : MetadataFamily) (key : Bytes) (version : ReadVersion)
    (context : ReadFenceContext) (scanFuel : ℕ) : ℕ → ReadVersion → Loop (Option Bytes)
  | 0, _ => throw .fuel
  | fuel + 1, expectedClock => do
    match ← collectScanAtClock shard HISTORY.id (historyPrefix family key) MAX_HISTORICAL_SCAN_PAGE_ROWS
      expectedClock context "read metadata history" scanFuel none [] with
    | none =>
      let expectedClock ← (liftM (validateReadContext shard context) : Loop ReadVersion)
      refuseIf (expectedClock < version)
        (Halt.err (MetaError.readVersionInFuture version.get expectedClock.get))
      readHistory family key version context scanFuel fuel expectedClock
    | some rows => liftM ((coveringPayload version rows).mapError Halt.err)

/-- What the current row alone says about a version: the payload, or that History must be read. -/
def currentPayload (family : MetadataFamily) (version expectedClock : ReadVersion) :
    Option Bytes → Except MetaError (Option (Option Bytes))
  | some record => do
    let current ← corruptValue family.name (CurrentValue.decode record)
    refuseIf (expectedClock.get < current.modifiedVersion.get)
      (corrupt family.name (s!"record version {current.modifiedVersion.get} is newer than the captured " ++
        s!"commit clock {expectedClock.get}"))
    return if current.modifiedVersion.get ≤ version.get then some (some current.payload) else none
  | none => return if version = expectedClock then some none else none

def readAtFence (fuel : ℕ) (family : MetadataFamily) (key : Bytes) (version : ReadVersion)
    (context : ReadFenceContext) : Loop (Option Bytes) := do
  let (expectedClock, record) ← (liftM (readValueAtFence shard family.keyspace key
    "read current metadata" context) : Loop (ReadVersion × Option Bytes))
  refuseIf (expectedClock < version)
    (Halt.err (MetaError.readVersionInFuture version.get expectedClock.get))
  match ← (liftM ((currentPayload family version expectedClock record).mapError Halt.err) :
    Loop (Option (Option Bytes))) with
  | some payload => return payload
  | none => readHistory shard family key version context fuel fuel expectedClock

def readAt (fuel : ℕ) (rootId : RootId) (placementGeneration : PlacementGeneration)
    (ownerEpoch : OwnerEpoch) (family : MetadataFamily) (key : Bytes) (version : ReadVersion) :
    Loop (Option Bytes) := do
  (liftM ((validateRootScopedBytes rootId key "read key").mapError Halt.err) : Loop Unit)
  readAtFence shard fuel family key version ⟨rootId, placementGeneration, ownerEpoch⟩

end Programs

/-! ### Collecting the pages of a scan -/

section Collect

variable {shard : LogicalShardId} {keyspace : Keyspace} {keyPrefix : Bytes} {pageRows : ℕ}
  {expectedClock : ReadVersion} {context : ReadFenceContext} {operation : String} {s : State}
  {after : Option Bytes}

lemma scanOk_fencedScan {delimiter : Option UInt8} (hpos : 0 < pageRows) (hle : pageRows ≤ 520)
    (hpre : keyPrefix.length ≤ 8205)
    (hcursor : checkCursor (fencedScan keyspace keyPrefix after pageRows delimiter) storeLimits = .ok ()) :
    ScanOk (fencedScan keyspace keyPrefix after pageRows delimiter) := by
  refine ⟨hpos, hle, hpre, ?_, ?_, hcursor⟩
  · dsimp only [fencedScan]
    omega
  · dsimp only [fencedScan]
    omega

lemma checkCursor_nextCursor (hbounded : Bounded s) {scan : Scan} {items rest : List ScanItem}
    (hitems : s.scanItems scan = items ++ rest) (hcursor : checkCursor scan storeLimits = .ok ()) :
    checkCursor { scan with after := nextCursor scan.after items } storeLimits = .ok () := by
  unfold nextCursor
  cases hlast : items.getLast? with
  | none => exact hcursor
  | some last =>
    have hmem : last ∈ s.scanItems scan := by
      rw [hitems]
      exact mem_append_left _ (mem_of_getLast? hlast)
    obtain ⟨hcanonical, key, _, hget, hle⟩ := cursor_of_mem hmem
    have hkey : checkLimit .keyBytes last.key.length storeLimits.maxKeyBytes = .ok () :=
      checkLimit_eq_ok.2 (hle.trans (hbounded _ _ hget).1)
    unfold checkCursor checkKey
    dsimp only
    rw [hkey, ok_bind, refuseIf_of_not]
    rw [show isCanonicalOutputKey { scan with after := some last.key } last.key =
      isCanonicalOutputKey scan last.key from rfl, hcanonical]
    decide

lemma itemBytes_le (hbounded : Bounded s) {scan : Scan} {item : ScanItem} (h : item ∈ s.scanItems scan) :
    itemBytes item ≤ 8205 + 65535 := by
  obtain ⟨-, key, _, hget, hle⟩ := cursor_of_mem h
  obtain ⟨key', value', hget', -, rfl⟩ := mem_scanItems h
  have hkey : key.length ≤ 8205 := (hbounded _ _ hget).1
  have hvalue : value'.length ≤ 65535 := (hbounded _ _ hget').2
  revert hle
  unfold itemOf
  cases groupOf scan.keyPrefix scan.delimiter key' with
  | none => exact fun hle => Nat.add_le_add (hle.trans hkey) hvalue
  | some => exact fun hle => (hle.trans hkey).trans (Nat.le_add_right _ _)

variable [Pager]

/-- How a page cuts the items of a scan: `rest` is what the next page starts with. -/
structure PageCut (s : State) (scan : Scan) (rest : List ScanItem) : Prop where
  split : s.scanItems scan = (Pager.page s scan).items ++ rest
  resume : s.scanItems { scan with after := nextCursor scan.after (Pager.page s scan).items } = rest
  cursor : checkCursor { scan with after := nextCursor scan.after (Pager.page s scan).items } storeLimits =
    .ok ()
  shorter : (Pager.page s scan).more = true → rest.length < (s.scanItems scan).length
  last : (Pager.page s scan).more = false → rest = []

lemma exists_pageCut (hbounded : Bounded s) {scan : Scan} (hok : ScanOk scan) :
    ∃ rest, PageCut s scan rest := by
  obtain ⟨rest, hsplit⟩ := Pager.page_isPrefix s scan
  refine ⟨rest, hsplit.symm, scanItems_resume hsplit.symm,
    checkCursor_nextCursor hbounded hsplit.symm hok.cursor_ok, fun hmore => ?_, fun hmore => ?_⟩
  · have hne := Pager.page_progress s scan (fun i hi => (itemBytes_le hbounded hi).trans hok.bytes_ge)
      hok.limit_pos hmore
    rw [← hsplit, length_append]
    exact Nat.lt_add_of_pos_left (length_pos_of_ne_nil hne)
  · exact append_right_eq_self.1 (hsplit.trans (Pager.page_complete s scan hmore).symm)

/-- Pages that were read under one clock make up the whole scan. -/
lemma collectScanAtClock_may {P : State → Prop} {all : List ScanItem}
    (hall : ∀ s, P s → fenceAt shard context s = .ok expectedClock →
      s.scanItems (fencedScan keyspace keyPrefix none pageRows none) = all)
    {fuel : ℕ} {rows rest out : List ScanItem} (hrows : all = rows ++ rest)
    (h : Prog.May P (collectScanAtClock shard keyspace keyPrefix pageRows expectedClock context operation
      fuel (nextCursor none rows) rows) (some out)) : out = all := by
  induction fuel generalizing rows rest with
  | zero => exact absurd h may_fail
  | succ _ ih =>
    obtain ⟨page, hpage, h⟩ := may_bind.1 h
    cases page with
    | none => cases may_pure.1 h
    | some =>
      obtain ⟨s, hs, hfence, rfl⟩ := scanPageAtClock_may (may_liftM_bounded.1 hpage)
      have hrest : s.scanItems (fencedScan keyspace keyPrefix (nextCursor none rows) pageRows none) =
          rest := scanItems_resume ((hall s hs hfence).trans hrows)
      obtain ⟨_, hsplit⟩ := hrest ▸ Pager.page_isPrefix s
        (fencedScan keyspace keyPrefix (nextCursor none rows) pageRows none)
      dsimp only at h
      split at h
      · rw [← nextCursor_append] at h
        exact ih (by rw [hrows, ← hsplit, append_assoc]) h
      next hmore =>
        have hcomplete := Pager.page_complete s _ (Bool.not_eq_true _ ▸ hmore)
        rw [← Option.some.inj (may_pure.1 h), hcomplete, hrest, hrows]

variable (hbounded : Bounded s) (hfence : fenceAt shard context s = .ok expectedClock) (hpos : 0 < pageRows)
  (hle : pageRows ≤ 520) (hpre : keyPrefix.length ≤ 8205) {fuel : ℕ}
include hbounded hfence hpos hle hpre

lemma collectScanAtClock_total {rows : List ScanItem}
    (hcursor : checkCursor (fencedScan keyspace keyPrefix after pageRows none) storeLimits = .ok ())
    (hfuel : (s.scanItems (fencedScan keyspace keyPrefix after pageRows none)).length < fuel) :
    ∃ out, (collectScanAtClock shard keyspace keyPrefix pageRows expectedClock context operation fuel
      after rows).runAt s = .ok (some out) := by
  induction fuel generalizing after rows with
  | zero => exact absurd hfuel (Nat.not_lt_zero _)
  | succ _ ih =>
    have hok := scanOk_fencedScan hpos hle hpre hcursor
    obtain ⟨_, hcut⟩ := exists_pageCut hbounded hok
    unfold collectScanAtClock
    rw [runAt_bind, runAt_liftM_bounded, scanPageAtClock_runAt hok, hfence]
    show ∃ out, (match (if expectedClock = expectedClock then _ else _ : Option ScanPage) with
      | none => _ | some page => _ : Loop _).runAt s = _
    rw [if_pos rfl]
    rw [runAt_ite]
    split
    next hmore =>
      refine ih hcut.cursor ?_
      have hshorter := hcut.shorter hmore
      rw [← hcut.resume] at hshorter
      exact hshorter.trans_le (Nat.lt_succ_iff.1 hfuel)
    · exact ⟨_, rfl⟩

lemma collectScanAtClock_runAt
    (hfuel : (s.scanItems (fencedScan keyspace keyPrefix none pageRows none)).length < fuel) :
    (collectScanAtClock shard keyspace keyPrefix pageRows expectedClock context operation fuel
      none []).runAt s = .ok (some (s.scanItems (fencedScan keyspace keyPrefix none pageRows none))) := by
  have htotal : ∃ out, (collectScanAtClock shard keyspace keyPrefix pageRows expectedClock context
      operation fuel none []).runAt s = .ok (some out) :=
    collectScanAtClock_total hbounded hfence hpos hle hpre rfl hfuel
  obtain ⟨out, hout⟩ := htotal
  have hmay : Prog.May (· = s) (collectScanAtClock shard keyspace keyPrefix pageRows expectedClock context
      operation fuel (nextCursor none []) []) (some out) := may_of_runAt rfl hout
  rw [hout, collectScanAtClock_may (fun t ht _ => by rw [ht]) (nil_append _).symm hmay]

end Collect

/-! ### What a point read returns -/

section Shows

variable {s : State} {clock : ℕ} {f : MetadataFamily} {k : Bytes} {history : HistoryValue}

/-- The items of a History scan of one key are the History rows of that key. -/
lemma mem_historyItems (hrows : RowsInv s clock) (hk : k.length ≤ MAX_COMMAND_KEY_BYTES) {n : ℕ}
    {item : ScanItem}
    (h : item ∈ s.scanItems (fencedScan HISTORY.id (historyPrefix f k) none n none)) :
    ∃ key raw history, item = .row key raw ∧ HistoryValue.decode raw = .ok history ∧
      HistoryOf s f k history ∧ history.previousPayload.isSome := by
  obtain ⟨key, raw, hget, hpre, rfl⟩ := mem_scanItems h
  obtain ⟨g, l, history, hl, rfl, hdecode, hsome⟩ := hrows.history key raw hget
  obtain ⟨_, hpre⟩ := hpre
  obtain ⟨rfl, rfl, -⟩ := historyPrefix_append_inj (length_lt_of_le hk) (length_lt_of_le hl) hpre
  exact ⟨_, raw, history, rfl, hdecode, ⟨raw, hget, hdecode⟩, hsome⟩

lemma historyItem_of_historyOf (h : HistoryOf s f k history) (n : ℕ) :
    ∃ key raw, HistoryValue.decode raw = .ok history ∧
      Item.row key raw ∈ s.scanItems (fencedScan HISTORY.id (historyPrefix f k) none n none) := by
  obtain ⟨raw, hget, hdecode⟩ := h.row
  exact ⟨historyKey f k history.transitionVersion, raw, hdecode,
    row_mem_scanItems hget (prefix_append _ _) rfl rfl⟩

/-- What the past of a cell shows a reader whom the current value does not. -/
def PastShows (c : Cell Bytes) (v : ℕ) : Option Bytes → Prop
  | some x => ∃ sp ∈ c.past, sp.Covers v ∧ sp.value = x
  | none => ∀ sp ∈ c.past, ¬ sp.Covers v

lemma PastShows.shows {c : Cell Bytes} {v : ℕ} {p : Option Bytes} (h : PastShows c v p)
    (hcurrent : ∀ m x, c.current = some (m, x) → v < m) : c.Shows v p := by
  cases p with
  | none => exact ⟨hcurrent, h⟩
  | some => exact .inr h

/-- The first covering row is the value the past shows. -/
lemma coveringPayload_eq (version : ReadVersion) {items : List ScanItem} (hk : ∀ item ∈ items,
    ∃ key raw history, item = .row key raw ∧ HistoryValue.decode raw = .ok history ∧
      HistoryOf s f k history ∧ history.previousPayload.isSome) :
    ∃ p, coveringPayload version items = .ok p ∧
      match p with
      | some x => ∃ sp ∈ (cellOf s f k).past, sp.Covers version.get ∧ sp.value = x
      | none => ∀ key raw history, Item.row key raw ∈ items → HistoryValue.decode raw = .ok history →
        ¬ (history.previousModifiedVersion.get ≤ version.get ∧
          version.get < history.transitionVersion.get) := by
  induction items with
  | nil => exact ⟨none, rfl, fun _ _ _ h => absurd h not_mem_nil⟩
  | cons item _ ih =>
    obtain ⟨_, _, history, rfl, hdecode, hhistory, hsome⟩ := hk item (mem_cons_self ..)
    obtain ⟨payload, hpayload⟩ := Option.isSome_iff_exists.1 hsome
    simp only [coveringPayload, corruptValue, hdecode, Except.mapError, ok_bind]
    -- the first history row whose span has the version decides
    by_cases hcovers : history.previousModifiedVersion.get ≤ version.get ∧
        version.get < history.transitionVersion.get
    · rw [if_pos hcovers, hpayload]
      exact ⟨some payload, rfl, ⟨history.previousModifiedVersion.get, history.transitionVersion.get,
        payload⟩, ⟨history, hhistory, rfl, rfl, hpayload⟩, hcovers, rfl⟩
    · rw [if_neg hcovers]
      obtain ⟨p, hp, hspec⟩ := ih fun item hitem => hk item (mem_cons_of_mem _ hitem)
      refine ⟨p, hp, ?_⟩
      cases p with
      | some => exact hspec
      | none =>
        intro key' raw' history' hmem hdecode'
        rcases mem_cons.1 hmem with heq | hmem
        · cases heq
          rw [hdecode] at hdecode'
          cases hdecode'
          exact hcovers
        · exact hspec key' raw' history' hmem hdecode'

/-- The History rows of a key answer for the past of its cell. -/
lemma coveringPayload_scan (hrows : RowsInv s clock) (hk : k.length ≤ MAX_COMMAND_KEY_BYTES)
    (version : ReadVersion) (n : ℕ) :
    ∃ p, coveringPayload version
        (s.scanItems (fencedScan HISTORY.id (historyPrefix f k) none n none)) = .ok p ∧
      PastShows (cellOf s f k) version.get p := by
  have hitems : ∀ item ∈ s.scanItems (fencedScan HISTORY.id (historyPrefix f k) none n none),
      ∃ key raw history, item = .row key raw ∧ HistoryValue.decode raw = .ok history ∧
        HistoryOf s f k history ∧ history.previousPayload.isSome :=
    fun item hitem => mem_historyItems hrows hk hitem
  obtain ⟨p, hp, hspec⟩ := coveringPayload_eq version hitems
  refine ⟨p, hp, ?_⟩
  cases p with
  | some => exact hspec
  | none =>
    rintro _ ⟨history, hhistory, hstart, hstop, -⟩ ⟨hle, hlt⟩
    obtain ⟨key, raw, hdecode, hmem⟩ := historyItem_of_historyOf hhistory n
    exact hspec key raw history hmem hdecode ⟨hstart ▸ hle, hstop ▸ hlt⟩

end Shows

section ReadAtFence

variable {shard : LogicalShardId} {s : State} {log : List RecoveryOutboxRecord} {f : MetadataFamily} {k : Bytes}
  {context : ReadFenceContext} {clock version : ReadVersion}

variable [Pager]

/-- A History scan of a key ends with the first row that covers the version. -/
lemma readHistory_settles (version : ReadVersion) (hbounded : Bounded s)
    (hk : k.length ≤ MAX_COMMAND_KEY_BYTES) (hfence : fenceAt shard context s = .ok clock) :
    Settles (fun fuel => (readHistory shard f k version context fuel fuel clock).runAt s)
      (coveringPayload version (s.scanItems (fencedScan HISTORY.id (historyPrefix f k) none
        MAX_HISTORICAL_SCAN_PAGE_ROWS none))) := by
  have hpre : (historyPrefix f k).length ≤ 8205 := by
    unfold MAX_COMMAND_KEY_BYTES at hk
    simp only [historyPrefix, length_flatten, map_cons, map_nil, sum_cons,
      sum_nil, length_cons, length_nil, be_length]
    omega
  refine ⟨(s.scanItems (fencedScan HISTORY.id (historyPrefix f k) none
    MAX_HISTORICAL_SCAN_PAGE_ROWS none)).length + 1, fun fuel hfuel => ?_⟩
  obtain ⟨fuel, rfl⟩ := Nat.exists_eq_succ_of_ne_zero (show fuel ≠ 0 by omega)
  have hcollect : (collectScanAtClock shard HISTORY.id (historyPrefix f k) MAX_HISTORICAL_SCAN_PAGE_ROWS clock
      context "read metadata history" (fuel + 1) none []).runAt s = .ok (some (s.scanItems
        (fencedScan HISTORY.id (historyPrefix f k) none MAX_HISTORICAL_SCAN_PAGE_ROWS none))) :=
    collectScanAtClock_runAt hbounded hfence (by decide) (by decide) hpre hfuel
  dsimp only
  unfold readHistory
  rw [runAt_bind, hcollect, ok_bind]
  rw [runAt_liftM]

lemma readHistory_runAt (version : ReadVersion) {n : ℕ} (hrows : RowsInv s n) (hbounded : Bounded s)
    (hk : k.length ≤ MAX_COMMAND_KEY_BYTES) (hfence : fenceAt shard context s = .ok clock) :
    ∃ p, PastShows (cellOf s f k) version.get p ∧ ∃ bound, ∀ fuel ≥ bound,
      (readHistory shard f k version context fuel fuel clock).runAt s = .ok p := by
  obtain ⟨p, hp, hshows⟩ := coveringPayload_scan (f := f) hrows hk version MAX_HISTORICAL_SCAN_PAGE_ROWS
  have hsettles := readHistory_settles (f := f) version hbounded hk hfence
  rw [hp] at hsettles
  exact ⟨p, hshows, hsettles⟩

/-- An admitted point read asks the current row first, and History when that does not decide. -/
lemma readAtFence_runAt (hk : k.length ≤ MAX_COMMAND_KEY_BYTES)
    (hfence : fenceAt shard context s = .ok clock) (hle : version ≤ clock) (fuel : ℕ) :
    (readAtFence shard fuel f k version context).runAt s =
      (currentPayload f version clock (s.get ⟨f.keyspace, k⟩)).mapError Halt.err >>= fun current =>
        match current with
        | some payload => .ok payload
        | none => (readHistory shard f k version context fuel fuel clock).runAt s := by
  have hkey : k.length ≤ 8205 := hk.trans (by decide)
  have hfuture : ¬ clock < version := Nat.not_lt.2 hle
  unfold readAtFence
  rw [runAt_bind, runAt_liftM_bounded, readValueAtFence_runAt hkey, hfence]
  show (do refuseIf _ _; _ : Loop _).runAt s = _
  rw [runAt_bind, runAt_refuseIf, refuseIf_of_not hfuture, ok_bind, runAt_bind,
    runAt_liftM]
  refine bind_congr fun current => ?_
  cases current <;> rfl

variable [Sha256]

omit [Pager] in
/-- A fenced read is admitted at the clock of the shard. -/
lemma Inv.fence_clock (hinv : Inv shard s log) (hfence : fenceAt shard context s = .ok clock) :
    clock.get = clockAfter shard log := by
  obtain ⟨_, -, h⟩ := bind_eq_ok.1 hfence
  obtain ⟨_, -, h⟩ := bind_eq_ok.1 h
  obtain ⟨_, hraw, h⟩ := bind_eq_ok.1 h
  obtain ⟨_, -, h⟩ := bind_eq_ok.1 h
  replace h := ok_of_bind h
  obtain ⟨_, -, h⟩ := bind_eq_ok.1 h
  replace h := ok_of_bind h
  replace h := ok_of_bind h
  obtain ⟨_, hvalue, h⟩ := bind_eq_ok.1 h
  have hget := okOr_eq_ok.1 hraw
  rw [hinv.system.clock] at hget
  rw [← Option.some.inj hget, decodeSystemU64_encode] at hvalue
  cases Except.ok.inj hvalue
  unfold NonZeroU64.get clockAfter
  rw [NonZeroU64.new_eq_some (okOr_eq_ok.1 h)]

/-- A point read returns what the cell of its key shows at the requested version. -/
lemma readAtFence_shows (hinv : Inv shard s log) (hf : f ≠ .artifactInlineBody)
    (hk : k.length ≤ MAX_COMMAND_KEY_BYTES) (hfence : fenceAt shard context s = .ok clock)
    (hle : version ≤ clock) :
    ∃ p, (cellOf s f k).Shows version.get p ∧ ∃ bound, ∀ fuel ≥ bound,
      (readAtFence shard fuel f k version context).runAt s = .ok p := by
  have hwf := hinv.rows.cell f hf k hk
  have hclock : clock.get = clockAfter shard log := hinv.fence_clock hfence
  obtain ⟨p, hpast, bound, hbound⟩ := readHistory_runAt (f := f) version hinv.rows hinv.bounded
    hk hfence
  have hrun := readAtFence_runAt hk hfence hle (f := f)
  -- the value is in the current row, or the current row is too new and History has it
  cases hget : s.get ⟨f.keyspace, k⟩ with
  | none =>
    have hnone : ∀ m x, (cellOf s f k).current = some (m, x) → version.get < m := by
      intro m x hm
      unfold cellOf currentOf at hm
      rw [hget] at hm
      cases hm
    -- without a current row only a version behind the clock needs History
    by_cases hversion : version = clock
    · refine ⟨none, ?_, 0, fun fuel _ => ?_⟩
      · refine ⟨hnone, fun sp hsp hcov => ?_⟩
        have hstop := hwf.stop_le sp hsp
        have hlt := hcov.2
        rw [hversion, hclock] at hlt
        unfold clockAfter at hlt
        omega
      · rw [hrun, hget]
        unfold currentPayload
        rw [if_pos hversion]
        rfl
    · refine ⟨p, hpast.shows hnone, bound, fun fuel hfuel => ?_⟩
      rw [hrun, hget]
      unfold currentPayload
      rw [if_neg hversion]
      exact hbound fuel hfuel
  | some raw =>
    obtain ⟨-, current, hdecode, hmodified⟩ := hinv.rows.current f k raw hget
    have hcell := cellOf_current hget hdecode
    have hcurrent : currentPayload f version clock (some raw) = .ok
        (if current.modifiedVersion.get ≤ version.get then some (some current.payload) else none) :=
      by
        unfold currentPayload corruptValue
        dsimp only
        rw [hdecode]
        show (do refuseIf _ _; _ : Except MetaError _) = _
        rw [refuseIf_of_not (not_lt.2 (by rw [hclock]; exact hmodified))]
        rfl
    -- the current row shows itself, or is too new
    by_cases hversion : current.modifiedVersion.get ≤ version.get
    · refine ⟨some current.payload, .inl ⟨_, hcell, hversion⟩, 0, fun fuel _ => ?_⟩
      rw [hrun, hget, hcurrent, if_pos hversion]
      rfl
    · refine ⟨p, hpast.shows fun m x hm => ?_, bound, fun fuel hfuel => ?_⟩
      · rw [hcell] at hm
        cases hm
        exact not_le.1 hversion
      · rw [hrun, hget, hcurrent, if_neg hversion]
        exact hbound fuel hfuel

end ReadAtFence

end NoKV.Meta
