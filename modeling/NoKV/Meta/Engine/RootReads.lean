import NoKV.Meta.Engine.RecordAt
import NoKV.Meta.Engine.ScanSnapshot

/-!
# The reads addressed to a root

The read entrypoints of the shard that name a root: its fence, point reads and scans of its metadata,
dependent point reads at one version, the replay record of a request, and its change events. On a store
that stands still each of them settles, and its outcome is a function of the rows of the store:

* `readAtFence_settles`, `scanPrefixAt_settles`, `scanChangeEventsAt_settles`: the loops;
* `PointReads.run_settles`: dependent point reads.
-/

namespace NoKV.Meta

open Lib Store State List
open Prog hiding bind pure get

/-! ### The programs -/

section Programs

variable (shard : LogicalShardId)

/-- A stored record that may be absent, decoded. -/
def decodeOptional {α : Type} (record : String) (decode : Bytes → Except RecordCodecError α) :
    Option Bytes → Except MetaError (Option α)
  | some value => some <$> corruptValue record (decode value)
  | none => .ok none

/-- The payload of a change event, when it was written by the version. -/
def changeEventPayload (version : ReadVersion) : Option Bytes → Except MetaError (Option Bytes)
  | none => .ok none
  | some record => do
    let current ← corruptValue "ChangeEvent" (CurrentValue.decode record)
    return if current.modifiedVersion.get ≤ version.get then some current.payload else none

/-- The events of one page, up to the limit: the events so far, and whether the limit was reached. -/
def takeChangeEvents (version : ReadVersion) (limit : ℕ) :
    List ScanItem → List MetadataScanItem → Except MetaError (List MetadataScanItem × Bool)
  | [], events => .ok (events, false)
  | .group _ :: _, _ => .error (corrupt "ChangeEvent" "non-delimited scan returned a common prefix")
  | .row key value :: rest, events => do
    let current ← corruptValue "ChangeEvent" (CurrentValue.decode value)
    let events := if current.modifiedVersion.get ≤ version.get then events ++ [⟨key, current.payload⟩]
      else events
    if events.length = limit then return (events, true) else takeChangeEvents version limit rest events

variable [Pager]

def rootFence (rootId : RootId) : Shard (Option RootFence) := do
  let value ← readValue ROOT_FENCE.id rootId.bytes "read RootFence"
  liftM (decodeOptional "RootFence" RootFence.decode value)

def lookupRequest (context : ReadFenceContext) (requestId : RequestId) :
    Shard (Option CommandDedupeRecord) := do
  let (_, value) ← readValueAtFence shard COMMAND_DEDUPE.id (commandDedupeKey context.rootId requestId)
    "read CommandDedupe" context
  liftM (decodeOptional "CommandDedupe" CommandDedupeRecord.decode value)

def lookupRequestResult [Sha256] (context : ReadFenceContext) (requestId : RequestId) :
    Shard (Option MetadataCommandResult) := do
  match ← lookupRequest shard context requestId with
  | none => return none
  | some dedupe =>
    let recovery ← validateDedupeRecoveryBinding (commandDedupeKey context.rootId requestId) dedupe
    return some ⟨dedupe.commitVersion, dedupe.deterministicResult, dedupe.recoveryLsn,
      recovery.chainDigest, true⟩

def readChangeEventAt (context : ReadFenceContext) (key : Bytes) (version : ReadVersion) :
    Shard (Option Bytes) := do
  (liftM (validateRootScopedBytes context.rootId key "change-event key") : Shard Unit)
  let (currentVersion, record) ← readValueAtFence shard CHANGE_EVENT.id key "read ChangeEvent" context
  refuseIf (currentVersion < version) (MetaError.readVersionInFuture version.get currentVersion.get)
  liftM (changeEventPayload version record)

/-- The pages of a change-event scan; it starts again when the clock moves. -/
def collectChangeEvents (context : ReadFenceContext) (keyPrefix : Bytes) (version : ReadVersion)
    (startAfter : Option Bytes) (limit : ℕ) :
    ℕ → ReadVersion → Option Bytes → List MetadataScanItem → Loop (List MetadataScanItem)
  | 0, _, _, _ => throw .fuel
  | fuel + 1, expectedClock, after, events => do
    match ← (liftM (scanPageAtClock shard CHANGE_EVENT.id keyPrefix after limit none expectedClock context
      "scan ChangeEvent") : Loop (Option ScanPage)) with
    | none =>
      let expectedClock ← (liftM (validateReadFence shard context keyPrefix version) : Loop ReadVersion)
      collectChangeEvents context keyPrefix version startAfter limit fuel expectedClock startAfter []
    | some page =>
      let (events, isFull) ← (liftM ((takeChangeEvents version limit page.items events).mapError Halt.err) :
        Loop (List MetadataScanItem × Bool))
      if isFull ∨ page.more = false then return events
      else
        collectChangeEvents context keyPrefix version startAfter limit fuel expectedClock
          (nextCursor after page.items) events

def scanChangeEventsAt (fuel : ℕ) (context : ReadFenceContext) (keyPrefix : Bytes) (version : ReadVersion)
    (startAfter : Option Bytes) (limit : ℕ) : Loop (List MetadataScanItem) := do
  let expectedClock ← (liftM (validateReadFence shard context keyPrefix version) : Loop ReadVersion)
  collectChangeEvents shard context keyPrefix version startAfter (effectiveLimit limit MAX_COMMAND_ITEMS)
    fuel expectedClock startAfter []

end Programs

/-- A client of a fenced point reader: it reads one key after the other, each chosen by what the reads
before it returned, and ends with a result of its own. -/
inductive PointReads (ρ : Type) where
  | done (result : Except MetaError ρ)
  | get (family : MetadataFamily) (key : Bytes) (next : Except MetaError (Option Bytes) → PointReads ρ)

section PointReads

variable [Pager] (shard : LogicalShardId)

/-- One read of a fenced point reader. -/
def fencedGet (fuel : ℕ) (context : ReadFenceContext) (version : ReadVersion) (family : MetadataFamily)
    (key : Bytes) : Loop (Option Bytes) := do
  (liftM ((validateRootScopedBytes context.rootId key "point-read key").mapError Halt.err) : Loop Unit)
  readAtFence shard fuel family key version context

def PointReads.run {ρ : Type} (fuel : ℕ) (context : ReadFenceContext) (version : ReadVersion) :
    PointReads ρ → Loop ρ
  | done result => liftM (result.mapError Halt.err)
  | get family key next => do
    match ← (fencedGet shard fuel context version family key).attempt with
    | .ok value => (next (.ok value)).run fuel context version
    | .error (.err error) => (next (.error error)).run fuel context version
    | .error halt => throw halt

def withFencedPointReads {ρ : Type} (fuel : ℕ) (context : ReadFenceContext)
    (requestedVersion : Option ReadVersion) (read : ReadVersion → PointReads ρ) : Loop ρ := do
  let currentVersion ← (liftM (validateReadContext shard context) : Loop ReadVersion)
  let version := requestedVersion.getD currentVersion
  refuseIf (currentVersion < version)
    (Halt.err (MetaError.readVersionInFuture version.get currentVersion.get))
  (read version).run shard fuel context version

end PointReads

/-! ### What they return on a store that stands still -/

/-- The History rows of one key, as a point read scans them. -/
def historyItems (f : MetadataFamily) (k : Bytes) (s : State) : List ScanItem :=
  s.scanItems (fencedScan HISTORY.id (historyPrefix f k) none MAX_HISTORICAL_SCAN_PAGE_ROWS none)

/-- The outcome of a point read, on the rows of a state. -/
def readOutcome (shard : LogicalShardId) (f : MetadataFamily) (k : Bytes) (version : ReadVersion)
    (context : ReadFenceContext) (s : State) : Except MetaError (Option Bytes) := do
  let clock ← fenceAt shard context s
  refuseIf (clock < version) (MetaError.readVersionInFuture version.get clock.get)
  let current ← currentPayload f version clock (s.get ⟨f.keyspace, k⟩)
  match current with
  | some payload => .ok payload
  | none => coveringPayload version (historyItems f k s)

/-- The outcome of a change-event scan, on the rows of a state. -/
def eventOutcome (shard : LogicalShardId) (context : ReadFenceContext) (keyPrefix : Bytes)
    (version : ReadVersion) (startAfter : Option Bytes) (limit : ℕ) (s : State) :
    Except MetaError (List MetadataScanItem) := do
  let _ ← admitScan shard context keyPrefix version s
  checkFencedScan context (fencedScan CHANGE_EVENT.id keyPrefix startAfter limit none) "scan ChangeEvent"
  Prod.fst <$> takeChangeEvents version limit
    (s.scanItems (fencedScan CHANGE_EVENT.id keyPrefix startAfter limit none)) []

section Settled

variable {shard : LogicalShardId} {context : ReadFenceContext} {s : State} {f : MetadataFamily}
  {k keyPrefix : Bytes} {version clock : ReadVersion} {delimiter : Option UInt8} {startAfter : Option Bytes}
  {limit : ℕ} {items : List DelimitedMetadataScanItem} {operation : String}

/-- The events of two pages are taken one page after the other. -/
lemma takeChangeEvents_append (version : ReadVersion) (limit : ℕ) (xs ys : List ScanItem)
    (events : List MetadataScanItem) :
    takeChangeEvents version limit (xs ++ ys) events =
      takeChangeEvents version limit xs events >>= fun taken =>
        if taken.2 = true then .ok taken else takeChangeEvents version limit ys taken.1 := by
  induction xs generalizing events with
  | nil => rfl
  | cons item _ ih =>
    cases item with
    | group => rfl
    | row key =>
      rw [cons_append, takeChangeEvents, takeChangeEvents, bind_assoc]
      refine bind_congr fun current => ?_
      generalize (if current.modifiedVersion.get ≤ version.get then events ++ [⟨key, current.payload⟩]
        else events : List MetadataScanItem) = events'
      by_cases hfull : events'.length = limit
      · rw [if_pos hfull, if_pos hfull]
        rfl
      · rw [if_neg hfull, if_neg hfull]
        exact ih events'

/-- The outcome of one read of a fenced point reader. -/
def getOutcome (shard : LogicalShardId) (context : ReadFenceContext) (version : ReadVersion)
    (family : MetadataFamily) (key : Bytes) (s : State) : Except MetaError (Option Bytes) := do
  validateRootScopedBytes context.rootId key "point-read key"
  readOutcome shard family key version context s

/-- The outcome of dependent point reads. -/
def PointReads.outcome {ρ : Type} (shard : LogicalShardId) (context : ReadFenceContext)
    (version : ReadVersion) (s : State) : PointReads ρ → Except MetaError ρ
  | done result => result
  | get family key next =>
    (next (getOutcome shard context version family key s)).outcome shard context version s

/-- The outcome of a client of fenced point reads. -/
def pointOutcome {ρ : Type} (shard : LogicalShardId) (context : ReadFenceContext)
    (requestedVersion : Option ReadVersion) (read : ReadVersion → PointReads ρ) (s : State) :
    Except MetaError ρ := do
  let clock ← fenceAt shard context s
  let version := requestedVersion.getD clock
  refuseIf (clock < version) (MetaError.readVersionInFuture version.get clock.get)
  (read version).outcome shard context version s

/-- The record of a row; a common prefix has none. -/
def rowRecord : DelimitedMetadataScanItem → Option MetadataScanItem
  | .row key value => some ⟨key, value⟩
  | .group _ => none

lemma mapM_scanRecord_rows (h : ∀ item ∈ items, ∃ key value, item = .row key value) :
    items.mapM scanRecord = .ok (items.filterMap rowRecord) := by
  induction items with
  | nil => rfl
  | cons item _ ih =>
    obtain ⟨_, _, rfl⟩ := h item mem_cons_self
    rw [mapM_cons, ih fun item hitem => h item (mem_cons_of_mem _ hitem)]
    rfl

/-- Without a delimiter, the page loop emits rows only. -/
lemma mem_assemblePage {keyPrefix : Bytes} {startAfter : Option Bytes} {limit : ℕ}
    {rows : List (Bytes × Bytes)} {page : List DelimitedMetadataScanItem} {last : Option Bytes}
    (h : ∀ item ∈ page, ∃ key value, item = .row key value) :
    ∀ item ∈ assemblePage keyPrefix none startAfter limit page last rows, ∃ key value, item = .row key value := by
  induction rows generalizing page with
  | nil => exact h
  | cons row _ ih =>
    have hsnoc : ∀ item ∈ page ++ [Item.row row.1 row.2], ∃ key value, item = .row key value := by
      intro item hitem
      rcases mem_append.1 hitem with hitem | hitem
      · exact h item hitem
      · exact ⟨row.1, row.2, mem_singleton.1 hitem⟩
    have hgroup : groupOf keyPrefix none row.1 = none := rfl
    rw [assemblePage, hgroup]
    dsimp only
    split_ifs
    · exact ih h
    · exact hsnoc
    · exact ih hsnoc

/-- Without a delimiter, a scan returns rows only. -/
lemma scanOutcome_rows (h : scanOutcome shard context f keyPrefix none version startAfter limit s = .ok items) :
    ∀ item ∈ items, ∃ key value, item = .row key value := by
  obtain ⟨_, -, h⟩ := bind_eq_ok.1 h
  split at h
  · obtain ⟨_, -, rfl⟩ := map_eq_ok.1 h
    intro item hitem
    obtain ⟨_, hstored, rfl⟩ := mem_map.1 (mem_of_mem_take hitem)
    obtain ⟨key, raw, -, -, rfl⟩ := mem_scanItems hstored
    exact ⟨key, storedPayload raw, rfl⟩
  · obtain ⟨_, -, rfl⟩ := map_eq_ok.1 h
    exact mem_assemblePage fun item hitem => absurd hitem not_mem_nil

variable [Pager]

section

variable (hbounded : Bounded s)
include hbounded

lemma readAtFence_settles (hk : k.length ≤ MAX_COMMAND_KEY_BYTES) (version : ReadVersion) :
    Settles (fun fuel => (readAtFence shard fuel f k version context).runAt s)
      (readOutcome shard f k version context s) := by
  have hkey : k.length ≤ 8205 := hk.trans (by decide)
  cases hfence : fenceAt shard context s with
  | error =>
    refine settles_of_eq fun fuel => ?_
    unfold readAtFence readOutcome
    rw [runAt_bind, runAt_liftM_bounded, readValueAtFence_runAt hkey, hfence]
    rfl
  | ok clock =>
    by_cases hfuture : clock < version
    · refine settles_of_eq fun fuel => ?_
      unfold readAtFence readOutcome
      rw [runAt_bind, runAt_liftM_bounded, readValueAtFence_runAt hkey, hfence, ok_bind,
        refuseIf_of hfuture]
      show (refuseIf _ _ >>= _ : Loop _).runAt s = _
      rw [runAt_bind, runAt_refuseIf, refuseIf_of hfuture]
      rfl
    · have heq : readOutcome shard f k version context s =
          currentPayload f version clock (s.get ⟨f.keyspace, k⟩) >>= fun current => match current with
            | some payload => .ok payload
            | none => coveringPayload version (historyItems f k s) := by
        unfold readOutcome
        rw [hfence, ok_bind, refuseIf_of_not hfuture, ok_bind]
      rw [heq]
      refine settles_congr (Settles.bind (settles_of_eq fun _ => rfl) fun current _ => ?_)
        fun fuel => readAtFence_runAt hk hfence (Nat.not_lt.1 hfuture) fuel
      cases current with
      | some => exact settles_of_eq fun _ => rfl
      | none => exact readHistory_settles version hbounded hk hfence

/-- The pages of change events settle with the events behind the cursor. -/
lemma collectChangeEvents_runAt (hfence : fenceAt shard context s = .ok clock) (hpos : 0 < limit)
    (hlimit : limit ≤ 520) (hpre : keyPrefix.length ≤ 8205) {fuel : ℕ} {after : Option Bytes}
    {events : List MetadataScanItem}
    (hcursor : checkCursor (fencedScan CHANGE_EVENT.id keyPrefix after limit none) storeLimits = .ok ())
    (hfuel : (s.scanItems (fencedScan CHANGE_EVENT.id keyPrefix after limit none)).length < fuel) :
    (collectChangeEvents shard context keyPrefix version startAfter limit fuel clock after events).runAt s =
      (Prod.fst <$> takeChangeEvents version limit
        (s.scanItems (fencedScan CHANGE_EVENT.id keyPrefix after limit none)) events).mapError Halt.err := by
  induction fuel generalizing after events with
  | zero => exact absurd hfuel (Nat.not_lt_zero _)
  | succ fuel ih =>
    have hok : ScanOk (fencedScan CHANGE_EVENT.id keyPrefix after limit none) :=
      scanOk_fencedScan hpos hlimit hpre hcursor
    obtain ⟨rest, hcut⟩ := exists_pageCut hbounded hok
    unfold collectChangeEvents
    rw [runAt_bind, runAt_liftM_bounded, scanPageAtClock_runAt hok, hfence]
    show (match (if clock = clock then _ else _ : Option ScanPage) with
      | none => _ | some page => _ : Loop _).runAt s = _
    -- the page that is read is the first part of the items, cut where the store likes
    rw [if_pos rfl, hcut.split, takeChangeEvents_append]
    rw [runAt_bind, runAt_liftM]
    cases htaken : takeChangeEvents version limit
        (Pager.page s (fencedScan CHANGE_EVENT.id keyPrefix after limit none)).items events with
    | error e => rfl
    | ok taken =>
      obtain ⟨events', isFull⟩ := taken
      cases isFull with
      | true => rfl
      | false =>
        cases hmore : (Pager.page s (fencedScan CHANGE_EVENT.id keyPrefix after limit none)).more with
        | false =>
          rw [hcut.last hmore]
          rfl
        | true =>
          -- the rest is read from the cursor behind the page, with one unit of fuel less
          have hshorter := hcut.shorter hmore
          rw [← hcut.resume] at hshorter ⊢
          exact ih hcut.cursor (hshorter.trans_le (Nat.lt_succ_iff.1 hfuel))

lemma scanChangeEventsAt_settles :
    Settles (fun fuel => (scanChangeEventsAt shard fuel context keyPrefix version startAfter limit).runAt s)
      (eventOutcome shard context keyPrefix version startAfter (effectiveLimit limit MAX_COMMAND_ITEMS)
        s) := by
  have hpos : 0 < effectiveLimit limit MAX_COMMAND_ITEMS := effectiveLimit_pos (by decide)
  have hlimit : effectiveLimit limit MAX_COMMAND_ITEMS ≤ 520 := effectiveLimit_le.trans (by decide)
  unfold scanChangeEventsAt eventOutcome
  simp only [runAt_bind, runAt_liftM_bounded, validateReadFence_eq]
  refine Settles.bind (settles_of_eq fun _ => rfl) fun clock hclock => ?_
  obtain ⟨hfence, -, hpre, -⟩ := admitScan_eq_ok hclock
  cases hcheck : checkFencedScan context (fencedScan CHANGE_EVENT.id keyPrefix startAfter
      (effectiveLimit limit MAX_COMMAND_ITEMS) none) "scan ChangeEvent" with
  | error e =>
    refine ⟨1, fun fuel hfuel => ?_⟩
    obtain ⟨fuel, rfl⟩ := Nat.exists_eq_succ_of_ne_zero (show fuel ≠ 0 by omega)
    dsimp only
    unfold collectChangeEvents
    rw [runAt_bind, runAt_liftM_bounded, scanPageAtClock_refused hcheck]
    rfl
  | ok u =>
    refine ⟨(s.scanItems (fencedScan CHANGE_EVENT.id keyPrefix startAfter
      (effectiveLimit limit MAX_COMMAND_ITEMS) none)).length + 1, fun fuel hfuel => ?_⟩
    exact collectChangeEvents_runAt hbounded hfence hpos hlimit hpre
      (checkCursor_of_checkFencedScan hcheck) (Nat.lt_of_succ_le hfuel)

lemma checkedRead_settles (kind : String) : Settles (fun fuel => (do
        (liftM ((validateRootScopedBytes context.rootId k kind).mapError Halt.err) : Loop Unit)
        readAtFence shard fuel f k version context : Loop (Option Bytes)).runAt s)
      (validateRootScopedBytes context.rootId k kind >>= fun _ => readOutcome shard f k version context s) := by
  simp only [runAt_bind, runAt_liftM]
  refine Settles.bind (settles_of_eq fun _ => rfl) fun u hscoped => ?_
  exact readAtFence_settles hbounded (validateRootScopedBytes_eq_ok.1 hscoped).1 version

end

lemma PointReads.run_settles {ρ : Type} (hbounded : Bounded s) (reads : PointReads ρ) :
    Settles (fun fuel => (reads.run shard fuel context version).runAt s)
      (reads.outcome shard context version s) := by
  induction reads with
  | done => exact settles_of_eq fun fuel => runAt_liftM s _
  | get family key _ ih =>
    have hget : Settles (fun fuel => (fencedGet shard fuel context version family key).runAt s)
        (getOutcome shard context version family key s) := checkedRead_settles hbounded "point-read key"
    obtain ⟨bound, hbound⟩ := hget
    obtain ⟨bound', hbound'⟩ := ih (getOutcome shard context version family key s)
    refine ⟨max bound bound', fun fuel hfuel => ?_⟩
    have hfirst := hbound fuel (le_trans (le_max_left _ _) hfuel)
    have hrest := hbound' fuel (le_trans (le_max_right _ _) hfuel)
    dsimp only at hfirst hrest ⊢
    rw [PointReads.run, runAt_bind, runAt_attempt, hfirst, ok_bind, PointReads.outcome, ← hrest]
    cases getOutcome shard context version family key s <;> rfl

lemma withFencedPointReads_settles {ρ : Type} (hbounded : Bounded s)
    (requestedVersion : Option ReadVersion) (read : ReadVersion → PointReads ρ) :
    Settles (fun fuel => (withFencedPointReads shard fuel context requestedVersion read).runAt s)
      (pointOutcome shard context requestedVersion read s) := by
  unfold withFencedPointReads pointOutcome
  simp only [runAt_bind, runAt_liftM_bounded, validateReadContext_runAt, runAt_refuseIf]
  refine Settles.bind (settles_of_eq fun _ => rfl) fun clock _ => ?_
  refine Settles.bind (settles_of_eq fun _ => ?_) fun _ _ => PointReads.run_settles hbounded _
  unfold refuseIf
  split <;> rfl

lemma scanPrefixAt_settles (hbounded : Bounded s)
    (hrows : ∀ clock, fenceAt shard context s = .ok clock → RowsInv s clock.get) :
    Settles (fun fuel => (scanPrefixAt shard fuel context f keyPrefix version startAfter limit).runAt s)
      (List.filterMap rowRecord <$> scanOutcome shard context f keyPrefix none version startAfter
        (effectiveLimit limit MAX_COMMAND_ITEMS) s) := by
  unfold scanPrefixAt
  simp only [runAt_bind, runAt_liftM, map_eq_pure_bind]
  refine Settles.bind (scanPrefixAtImpl_settles hbounded hrows (by decide) (by decide)) fun items hitems => ?_
  exact settles_of_eq fun _ => mapM_scanRecord_rows (scanOutcome_rows hitems)

end Settled

/-! ### One read of a root -/

/-- A call of a read entrypoint that names a root. -/
inductive ReadCall (ρ : Type) where
  | rootFence (rootId : RootId)
  | readAt (context : ReadFenceContext) (family : MetadataFamily) (key : Bytes) (version : ReadVersion)
  | fencedPointReads (context : ReadFenceContext) (requestedVersion : Option ReadVersion)
      (read : ReadVersion → PointReads ρ)
  | lookupRequest (context : ReadFenceContext) (requestId : RequestId)
  | lookupRequestResult (context : ReadFenceContext) (requestId : RequestId)
  | scanPrefixAt (context : ReadFenceContext) (family : MetadataFamily) (keyPrefix : Bytes)
      (version : ReadVersion) (startAfter : Option Bytes) (limit : ℕ)
  | scanDelimitedPrefixAt (context : ReadFenceContext) (family : MetadataFamily) (keyPrefix : Bytes)
      (delimiter : UInt8) (version : ReadVersion) (startAfter : Option Bytes) (limit : ℕ)
  | readChangeEventAt (context : ReadFenceContext) (key : Bytes) (version : ReadVersion)
  | scanChangeEventsAt (context : ReadFenceContext) (keyPrefix : Bytes) (version : ReadVersion)
      (startAfter : Option Bytes) (limit : ℕ)

inductive ReadReply (ρ : Type) where
  | fence (fence : Option RootFence)
  | value (value : Option Bytes)
  | reads (result : ρ)
  | request (record : Option CommandDedupeRecord)
  | result (result : Option MetadataCommandResult)
  | records (records : List MetadataScanItem)
  | items (items : List DelimitedMetadataScanItem)

def ReadCall.root {ρ : Type} : ReadCall ρ → RootId
  | rootFence rootId => rootId
  | readAt context _ _ _ => context.rootId
  | fencedPointReads context _ _ => context.rootId
  | lookupRequest context _ => context.rootId
  | lookupRequestResult context _ => context.rootId
  | scanPrefixAt context _ _ _ _ _ => context.rootId
  | scanDelimitedPrefixAt context _ _ _ _ _ _ => context.rootId
  | readChangeEventAt context _ _ => context.rootId
  | scanChangeEventsAt context _ _ _ _ => context.rootId

def ReadCall.run [Pager] [Sha256] {ρ : Type} (shard : LogicalShardId) (fuel : ℕ) :
    ReadCall ρ → Loop (ReadReply ρ)
  | rootFence rootId => .fence <$> (liftM (Meta.rootFence rootId) : Loop (Option RootFence))
  | readAt context family key version => .value <$> Meta.readAt shard fuel context.rootId
      context.placementGeneration context.ownerEpoch family key version
  | fencedPointReads context requestedVersion client =>
    .reads <$> withFencedPointReads shard fuel context requestedVersion client
  | lookupRequest context requestId =>
    .request <$> (liftM (Meta.lookupRequest shard context requestId) : Loop (Option CommandDedupeRecord))
  | lookupRequestResult context requestId => .result <$>
      (liftM (Meta.lookupRequestResult shard context requestId) : Loop (Option MetadataCommandResult))
  | scanPrefixAt context family keyPrefix version startAfter limit =>
    .records <$> Meta.scanPrefixAt shard fuel context family keyPrefix version startAfter limit
  | scanDelimitedPrefixAt context family keyPrefix delimiter version startAfter limit =>
    .items <$> Meta.scanDelimitedPrefixAt shard fuel context family keyPrefix delimiter version startAfter
      limit
  | readChangeEventAt context key version =>
    .value <$> (liftM (Meta.readChangeEventAt shard context key version) : Loop (Option Bytes))
  | scanChangeEventsAt context keyPrefix version startAfter limit =>
    .records <$> Meta.scanChangeEventsAt shard fuel context keyPrefix version startAfter limit

end NoKV.Meta
