import NoKV.Meta.Engine.Snapshot

/-!
# Prefix scans at a version

A scan at the clock reads the current rows; a scan at an older version, or one that was overtaken by
a commit, rebuilds the rows of its version from the current rows and History. Here are the programs
and what they compute on the rows of one state.

* `assemblePage_eq`: the page loop is rolling up, dropping up to the cursor, and truncating;
* `visibleRows_eq`: current rows and History rows merge to the rows of the version;
* `map_scanItems`: at the clock the current rows are the rows of the version.
-/

namespace NoKV.Meta

open Lib Store State Mvcc List

structure MetadataScanItem where
  key : Bytes
  value : Bytes
  deriving DecidableEq

/-- One record or common prefix of a delimited scan. -/
abbrev DelimitedMetadataScanItem := Item Bytes

/-! ### The merge of current rows and History -/

/-- The metadata key inside a History key. -/
def historyUserKey (encoded : Bytes) : Except MetaError Bytes := do
  refuseIf (encoded.length < 1 + 4 + 8) (corrupt "History key" "key is truncated")
  let userKeyBytes := ofBe ((encoded.drop 1).take 4)
  let expected := 1 + 4 + userKeyBytes + 8
  refuseIf (2 ^ 64 ≤ expected) (corrupt "History key" "key length overflow")
  refuseIf (encoded.length ≠ expected)
    (corrupt "History key" s!"expected {expected} bytes, found {encoded.length}")
  return (encoded.drop (1 + 4)).take userKeyBytes

/-- One current row, kept when it was written by the version. -/
def insertCurrent (family : MetadataFamily) (version : ReadVersion) (visible : OrdMap Bytes Bytes) :
    ScanItem → Except MetaError (OrdMap Bytes Bytes)
  | .group _ => .error (corrupt family.name "non-delimited scan returned a common prefix")
  | .row key value => do
    let current ← corruptValue family.name (CurrentValue.decode value)
    return if current.modifiedVersion.get ≤ version.get then visible.insert key current.payload
      else visible

/-- One History row, kept when it covers the version and its key is not visible yet. -/
def insertHistory (keyPrefix : Bytes) (version : ReadVersion) (visible : OrdMap Bytes Bytes) :
    ScanItem → Except MetaError (OrdMap Bytes Bytes)
  | .group _ => .error (corrupt "History" "non-delimited scan returned a common prefix")
  | .row key value => do
    let userKey ← historyUserKey key
    if keyPrefix.isPrefixOf userKey = false ∨ (visible.get userKey).isSome then return visible
    else
      let history ← corruptValue "History" (HistoryValue.decode value)
      return if history.previousModifiedVersion.get ≤ version.get ∧
          version.get < history.transitionVersion.get then
        match history.previousPayload with
        | some previous => visible.insert userKey previous
        | none => visible
      else visible

/-- The rows of a version under a prefix. -/
def visibleRows (family : MetadataFamily) (keyPrefix : Bytes) (version : ReadVersion)
    (currentRows historyRows : List ScanItem) : Except MetaError (OrdMap Bytes Bytes) := do
  let visible ← currentRows.foldlM (insertCurrent family version) OrdMap.empty
  historyRows.foldlM (insertHistory keyPrefix version) visible

/-- The page loop over the rows of a version: fold at the delimiter, skip up to the cursor, stop at
the limit. -/
def assemblePage (keyPrefix : Bytes) (delimiter : Option UInt8) (startAfter : Option Bytes) (limit : ℕ) :
    List DelimitedMetadataScanItem → Option Bytes → List (Bytes × Bytes) → List DelimitedMetadataScanItem
  | page, _, [] => page
  | page, lastCommonPrefix, (key, value) :: rest =>
    let emit (lastCommonPrefix : Option Bytes) (item : DelimitedMetadataScanItem) :=
      if startAfter.any (item.key ≤ ·) then
        assemblePage keyPrefix delimiter startAfter limit page lastCommonPrefix rest
      else if (page ++ [item]).length = limit then page ++ [item]
      else assemblePage keyPrefix delimiter startAfter limit (page ++ [item]) lastCommonPrefix rest
    match groupOf keyPrefix delimiter key with
    | some commonPrefix =>
      if lastCommonPrefix = some commonPrefix then
        assemblePage keyPrefix delimiter startAfter limit page lastCommonPrefix rest
      else emit (some commonPrefix) (.group commonPrefix)
    | none => emit lastCommonPrefix (.row key value)

/-! ### The scans -/

/-- One current row or common prefix, for a reader at the clock. -/
def currentScanItem (family : MetadataFamily) (version : ReadVersion) :
    ScanItem → Except MetaError DelimitedMetadataScanItem
  | .row key value => do
    let current ← corruptValue family.name (CurrentValue.decode value)
    refuseIf (version.get < current.modifiedVersion.get)
      (corrupt family.name "current row is newer than the stable scan clock")
    return .row key current.payload
  | .group commonPrefix => return .group commonPrefix

/-- The items of one page of current rows. -/
def currentScanPage (family : MetadataFamily) (version : ReadVersion) (remaining : ℕ) (page : ScanPage) :
    Except MetaError (List DelimitedMetadataScanItem) := do
  refuseIf (remaining < page.items.length)
    (corrupt "transaction-store scan" "scan page exceeds the requested row limit")
  refuseIf (page.items = [] ∧ page.more = true)
    (corrupt "transaction-store scan" "incomplete scan page omitted its continuation cursor")
  page.items.mapM (currentScanItem family version)

section Programs

variable [Pager] (shard : LogicalShardId)

/-- The fence of a scan, and the clock it is admitted at. -/
def validateReadFence (context : ReadFenceContext) (keyOrPrefix : Bytes) (version : ReadVersion) :
    Shard ReadVersion := do
  (liftM (validateRootScopedBytes context.rootId keyOrPrefix "read key or prefix") : Shard Unit)
  let currentVersion ← validateReadContext shard context
  refuseIf (currentVersion < version)
    (MetaError.readVersionInFuture version.get currentVersion.get)
  return currentVersion

/-- Current rows, page by page, while the clock stands still. -/
def collectCurrentScanAtClock (family : MetadataFamily) (keyPrefix : Bytes) (limit : ℕ)
    (delimiter : Option UInt8) (version expectedClock : ReadVersion) (context : ReadFenceContext) :
    ℕ → Option Bytes → List DelimitedMetadataScanItem → Loop (Option (List DelimitedMetadataScanItem))
  | 0, _, _ => throw .fuel
  | fuel + 1, after, visible =>
    if limit - visible.length = 0 then return some visible
    else do
      match ← (liftM (scanPageAtClock shard family.keyspace keyPrefix after (limit - visible.length)
        delimiter expectedClock context "scan current metadata") : Loop (Option ScanPage)) with
      | none => return none
      | some page =>
        let items ← (liftM ((currentScanPage family version (limit - visible.length) page).mapError
          Halt.err) : Loop (List DelimitedMetadataScanItem))
        if page.more then
          collectCurrentScanAtClock family keyPrefix limit delimiter version expectedClock context fuel
            (nextCursor after page.items) (visible ++ items)
        else return some (visible ++ items)

/-- The clock of the next attempt, or the end of the attempts. -/
def prepareHistoricalScanRetry (context : ReadFenceContext) (keyPrefix : Bytes) (version : ReadVersion)
    (attempt : ℕ) : Shard ReadVersion := do
  let clock ← validateReadFence shard context keyPrefix version
  refuseIf (attempt = MAX_HISTORICAL_SCAN_ATTEMPTS)
    (MetaError.readStabilityExhausted MAX_HISTORICAL_SCAN_ATTEMPTS)
  return clock

/-- The current rows under a prefix and the History rows of the family, under one clock. -/
def collectVersionRows (family : MetadataFamily) (keyPrefix : Bytes) (expectedClock : ReadVersion)
    (context : ReadFenceContext) (scanFuel : ℕ) : Loop (Option (List ScanItem × List ScanItem)) := do
  match ← collectScanAtClock shard family.keyspace keyPrefix MAX_HISTORICAL_SCAN_PAGE_ROWS expectedClock
    context "scan current metadata" scanFuel none [] with
  | none => return none
  | some currentRows =>
    match ← collectScanAtClock shard HISTORY.id [family.formatTag] MAX_HISTORICAL_SCAN_PAGE_ROWS
      expectedClock context "scan metadata history" scanFuel none [] with
    | none => return none
    | some historyRows => return some (currentRows, historyRows)

/-- The rows of a version, rebuilt from current rows and History under one clock. -/
def reconstructHistoricalScan (family : MetadataFamily) (keyPrefix : Bytes) (version : ReadVersion)
    (context : ReadFenceContext) (scanFuel : ℕ) : ℕ → ℕ → ReadVersion → Loop (OrdMap Bytes Bytes)
  | 0, _, _ => throw .fuel
  | fuel + 1, attempt, expectedClock => do
    match ← collectVersionRows shard family keyPrefix expectedClock context scanFuel with
    | none =>
      let expectedClock ← (liftM (prepareHistoricalScanRetry shard context keyPrefix version attempt) :
        Loop ReadVersion)
      reconstructHistoricalScan family keyPrefix version context scanFuel fuel (attempt + 1) expectedClock
    | some (currentRows, historyRows) =>
      liftM ((visibleRows family keyPrefix version currentRows historyRows).mapError Halt.err)

/-- The page of a version that is rebuilt from History. -/
def historicalScan (fuel : ℕ) (context : ReadFenceContext) (family : MetadataFamily) (keyPrefix : Bytes)
    (delimiter : Option UInt8) (version : ReadVersion) (startAfter : Option Bytes) (limit : ℕ)
    (currentVersion : ReadVersion) : Loop (List DelimitedMetadataScanItem) := do
  let visible ← reconstructHistoricalScan shard family keyPrefix version context fuel
    MAX_HISTORICAL_SCAN_ATTEMPTS 1 currentVersion
  return assemblePage keyPrefix delimiter startAfter limit [] none visible.rows

/-- The number of items a scan returns at most: zero asks for as many as there may be. -/
def effectiveLimit (limit maxItems : ℕ) : ℕ := if limit = 0 then maxItems else min limit maxItems

def scanPrefixAtImpl (fuel : ℕ) (context : ReadFenceContext) (family : MetadataFamily) (keyPrefix : Bytes)
    (delimiter : Option UInt8) (version : ReadVersion) (startAfter : Option Bytes) (limit maxItems : ℕ) :
    Loop (List DelimitedMetadataScanItem) := do
  let limit := effectiveLimit limit maxItems
  let currentVersion ← (liftM (validateReadFence shard context keyPrefix version) : Loop ReadVersion)
  if version = currentVersion then
    match ← collectCurrentScanAtClock shard family keyPrefix limit delimiter version currentVersion context
      fuel startAfter [] with
    | some visible => return visible
    | none =>
      let currentVersion ← (liftM (validateReadFence shard context keyPrefix version) : Loop ReadVersion)
      historicalScan shard fuel context family keyPrefix delimiter version startAfter limit currentVersion
  else
    historicalScan shard fuel context family keyPrefix delimiter version startAfter limit currentVersion

/-- The record of a scan without delimiter. -/
def scanRecord : DelimitedMetadataScanItem → Except (Halt MetaError) MetadataScanItem
  | .row key value => .ok ⟨key, value⟩
  | .group _ => .error .unreachable

def scanPrefixAt (fuel : ℕ) (context : ReadFenceContext) (family : MetadataFamily) (keyPrefix : Bytes)
    (version : ReadVersion) (startAfter : Option Bytes) (limit : ℕ) : Loop (List MetadataScanItem) := do
  let items ← scanPrefixAtImpl shard fuel context family keyPrefix none version startAfter limit
    MAX_COMMAND_ITEMS
  liftM (items.mapM scanRecord)

def scanDelimitedPrefixAt (fuel : ℕ) (context : ReadFenceContext) (family : MetadataFamily)
    (keyPrefix : Bytes) (delimiter : UInt8) (version : ReadVersion) (startAfter : Option Bytes)
    (limit : ℕ) : Loop (List DelimitedMetadataScanItem) :=
  scanPrefixAtImpl shard fuel context family keyPrefix (some delimiter) version startAfter limit
    MAX_DELIMITED_SCAN_ITEMS

end Programs

/-! ### The page loop -/

/-- The page loop rolls up, drops up to the cursor, and truncates. -/
lemma assemblePage_eq {keyPrefix : Bytes} {delimiter : Option UInt8} {startAfter : Option Bytes}
    {limit : ℕ} (rows : List (Bytes × Bytes)) (page : List DelimitedMetadataScanItem)
    (last : Option Bytes) (hroom : page.length < limit) :
    assemblePage keyPrefix delimiter startAfter limit page last rows =
      page ++ (afterCursor Item.key startAfter (foldGroups keyPrefix delimiter last rows)).take
        (limit - page.length) := by
  induction rows generalizing page last with
  | nil => simp [assemblePage, foldGroups, afterCursor]
  | cons row rest ih =>
    -- an item is skipped, or it fills the page, or the loop goes on with one place less
    have hemit : ∀ (last : Option Bytes) (item : DelimitedMetadataScanItem),
        (if startAfter.any (item.key ≤ ·) then
            assemblePage keyPrefix delimiter startAfter limit page last rest
          else if (page ++ [item]).length = limit then page ++ [item]
          else assemblePage keyPrefix delimiter startAfter limit (page ++ [item]) last rest) =
        page ++ (afterCursor Item.key startAfter
          (item :: foldGroups keyPrefix delimiter last rest)).take (limit - page.length) := by
      intro last item
      rw [afterCursor_cons]
      split
      · exact ih page last hroom
      · obtain ⟨n, hn⟩ : ∃ n, limit - page.length = n + 1 := ⟨limit - page.length - 1, by omega⟩
        rw [hn, take_succ_cons]
        have hlength : (page ++ [item]).length = page.length + 1 := by simp
        split
        next hfull =>
          obtain rfl : n = 0 := by omega
          simp
        next hfull =>
          rw [ih _ _ (by omega), hlength, show limit - (page.length + 1) = n by omega]
          simp
    unfold assemblePage foldGroups
    cases groupOf keyPrefix delimiter row.1 with
    | none => exact hemit last _
    | some g =>
      dsimp only
      split
      · exact ih page last hroom
      · exact hemit (some g) _

/-! ### The rows of a version -/

/-- The live rows of a family: keys with their payloads, in key order. -/
def liveRows (s : State) (family : MetadataFamily) : List (Bytes × Bytes) :=
  (s.rows family.keyspace).rows.filterMap fun r =>
    (CurrentValue.decode r.2).toOption.map fun value => (r.1, value.payload)

/-- The live rows under a prefix, rolled up at the delimiter. -/
def snapshotItems (s : State) (family : MetadataFamily) (keyPrefix : Bytes) (delimiter : Option UInt8) :
    List DelimitedMetadataScanItem :=
  rollup keyPrefix delimiter ((liveRows s family).filter fun r => keyPrefix.isPrefixOf r.1)

/-- The page behind a cursor. -/
def snapshotPage (s : State) (family : MetadataFamily) (keyPrefix : Bytes) (delimiter : Option UInt8)
    (startAfter : Option Bytes) (limit : ℕ) : List DelimitedMetadataScanItem :=
  (afterCursor Item.key startAfter (snapshotItems s family keyPrefix delimiter)).take limit

section Live

variable {s t : State} {f : MetadataFamily} {keyPrefix : Bytes} {delimiter : Option UInt8}

lemma mem_liveRows {k x : Bytes} : (k, x) ∈ liveRows s f ↔ payloadOf s f k = some x := by
  unfold liveRows payloadOf currentOf State.get
  simp only [mem_filterMap, Option.map_eq_some_iff, Option.bind_eq_some_iff, Prod.mk.injEq]
  constructor
  · rintro ⟨⟨_, raw⟩, hmem, value, hvalue, rfl, rfl⟩
    exact ⟨value, ⟨raw, OrdMap.mem_rows.1 hmem, hvalue⟩, rfl⟩
  · rintro ⟨value, ⟨raw, hget, hvalue⟩, rfl⟩
    exact ⟨(k, raw), OrdMap.mem_rows.2 hget, value, hvalue, rfl, rfl⟩

lemma liveRows_sorted : (liveRows s f).Pairwise fun a b => a.1 < b.1 := by
  refine List.Pairwise.filterMap _ ?_ (s.rows f.keyspace).sorted
  intro a b hab a' ha' b' hb'
  obtain ⟨-, -, rfl⟩ := Option.map_eq_some_iff.1 ha'
  obtain ⟨-, -, rfl⟩ := Option.map_eq_some_iff.1 hb'
  exact hab

/-- Ordered rows that are the live rows under a prefix as a set are those rows. -/
lemma eq_liveRows_of_mem {rows : List (Bytes × Bytes)} (hs : rows.Pairwise fun a b => a.1 < b.1)
    (hmem : ∀ k x, (k, x) ∈ rows ↔ payloadOf t f k = some x ∧ keyPrefix <+: k) :
    rows = (liveRows t f).filter fun r => keyPrefix.isPrefixOf r.1 := by
  refine OrdMap.rows_ext hs (liveRows_sorted.filter _) fun k x => ?_
  rw [hmem, mem_filter, mem_liveRows, isPrefixOf_iff_prefix]

lemma snapshotItems_sorted :
    (snapshotItems s f keyPrefix delimiter).Pairwise fun a b => a.key < b.key := by
  refine rollup_sorted (fun r hr => ?_) (liveRows_sorted.filter _)
  exact isPrefixOf_iff_prefix.1 (mem_filter.1 hr).2

end Live

/-! ### The merge rebuilds the rows of the version -/

/-- The store `s`, at its clock, still shows version `v` of a family as the store `t` had it. -/
structure Sees (s t : State) (f : MetadataFamily) (clock v : ℕ) : Prop where
  rows : RowsInv s clock
  cell : ∀ k : Bytes, k.length ≤ MAX_COMMAND_KEY_BYTES → (cellOf s f k).Wf clock
  shows : ∀ k : Bytes, k.length ≤ MAX_COMMAND_KEY_BYTES → (cellOf s f k).Shows v (payloadOf t f k)
  live_le : ∀ k x, payloadOf t f k = some x → k.length ≤ MAX_COMMAND_KEY_BYTES

lemma historyUserKey_historyKey {f : MetadataFamily} {k : Bytes} (hk : k.length < 2 ^ 32)
    (t : CommitVersion) : historyUserKey (historyKey f k t) = .ok k := by
  have hkey : historyKey f k t = f.formatTag :: (be 4 k.length ++ (k ++ be 8 (~~~t.val).toNat)) := by
    simp [historyKey, historyPrefix]
  have hlength : (historyKey f k t).length = 1 + 4 + k.length + 8 := by
    rw [hkey]
    simp only [length_cons, length_append, be_length]
    omega
  have htag : ofBe (((historyKey f k t).drop 1).take 4) = k.length := by
    rw [hkey, drop_one, List.tail_cons, take_left' (be_length 4 _), ofBe_be (by omega)]
  have hdrop : (historyKey f k t).drop (1 + 4) = k ++ be 8 (~~~t.val).toNat := by
    rw [hkey, Nat.add_comm, drop_succ_cons, drop_left' (be_length 4 _)]
  unfold historyUserKey
  rw [refuseIf_of_not (by omega), ok_bind]
  dsimp only
  rw [htag, refuseIf_of_not (by omega), ok_bind, refuseIf_of_not (not_not.2 hlength), ok_bind, hdrop,
    take_left' rfl]
  rfl

section Merge

variable {s t : State} {f : MetadataFamily} {keyPrefix : Bytes} {clock : ℕ} {version : ReadVersion} {n : ℕ}

/-- The rows kept so far are rows of the version. -/
def RowsOf (t : State) (f : MetadataFamily) (keyPrefix : Bytes) (visible : OrdMap Bytes Bytes) : Prop :=
  ∀ k x, visible.get k = some x → payloadOf t f k = some x ∧ keyPrefix <+: k

variable {visible : OrdMap Bytes Bytes}

lemma RowsOf.insert (h : RowsOf t f keyPrefix visible) {key value : Bytes}
    (hvalue : payloadOf t f key = some value) (hpre : keyPrefix <+: key) :
    RowsOf t f keyPrefix (visible.insert key value) := by
  intro k x hget
  rcases OrdMap.get_insert_cases hget with ⟨rfl, rfl⟩ | ⟨-, hget⟩
  · exact ⟨hvalue, hpre⟩
  · exact h k x hget

lemma isSome_get_insert {k : Bytes} (h : (visible.get k).isSome) (key value : Bytes) :
    ((visible.insert key value).get k).isSome := by
  rw [OrdMap.get_insert]
  split
  · rfl
  · exact h

/-- What the cell shows at the version is the row of the version. -/
lemma Sees.payload_eq (h : Sees s t f clock version.get) {k x : Bytes}
    (hk : k.length ≤ MAX_COMMAND_KEY_BYTES) (hshows : (cellOf s f k).Shows version.get (some x)) :
    payloadOf t f k = some x :=
  (h.shows k hk).unique (h.cell k hk) hshows

section

variable (h : Sees s t f clock version.get) (hvisible : RowsOf t f keyPrefix visible) {item : ScanItem}
include h hvisible

/-- The current rows that the version wrote are rows of the version. -/
lemma insertCurrent_total (hitem : item ∈ s.scanItems (fencedScan f.keyspace keyPrefix none n none)) :
    ∃ visible', insertCurrent f version visible item = .ok visible' ∧ RowsOf t f keyPrefix visible' ∧
      (∀ m x, (cellOf s f item.key).current = some (m, x) → m ≤ version.get →
        (visible'.get item.key).isSome) ∧
      ∀ k, (visible.get k).isSome → (visible'.get k).isSome := by
  obtain ⟨key, raw, hget, hpre, rfl⟩ := mem_scanItems hitem
  obtain ⟨hk, current, hdecode, -⟩ := h.rows.current f key raw hget
  have hcell : (cellOf s f key).current = some (current.modifiedVersion.get, current.payload) :=
    cellOf_current hget hdecode
  have hinsert : insertCurrent f version visible (.row key raw) = .ok
      (if current.modifiedVersion.get ≤ version.get then visible.insert key current.payload
        else visible) := by
    unfold insertCurrent corruptValue
    dsimp only
    rw [hdecode]
    rfl
  by_cases hle : current.modifiedVersion.get ≤ version.get
  · rw [if_pos hle] at hinsert
    refine ⟨_, hinsert, hvisible.insert ?_ hpre, fun m x hm hmle => ?_, fun k hsome => ?_⟩
    · exact h.payload_eq hk (.inl ⟨_, hcell, hle⟩)
    · show ((visible.insert key current.payload).get key).isSome
      rw [OrdMap.get_insert_self]
      rfl
    · exact isSome_get_insert hsome _ _
  · rw [if_neg hle] at hinsert
    refine ⟨visible, hinsert, hvisible, fun m x hm hmle => ?_, fun k hsome => hsome⟩
    have hm' : (cellOf s f key).current = some (m, x) := hm
    rw [hcell] at hm'
    cases hm'
    exact absurd hmle hle

/-- The History rows that cover the version are rows of the version. -/
lemma insertHistory_total (hitem : item ∈ s.scanItems (fencedScan HISTORY.id [f.formatTag] none n none)) :
    ∃ visible', insertHistory keyPrefix version visible item = .ok visible' ∧
      RowsOf t f keyPrefix visible' ∧
      (∀ k history, item.key = historyKey f k history.transitionVersion → HistoryOf s f k history →
        k.length ≤ MAX_COMMAND_KEY_BYTES → keyPrefix <+: k →
        history.previousModifiedVersion.get ≤ version.get ∧ version.get < history.transitionVersion.get →
        (visible'.get k).isSome) ∧
      ∀ k, (visible.get k).isSome → (visible'.get k).isSome := by
  obtain ⟨key, raw, hget, htag, rfl⟩ := mem_scanItems hitem
  change s.get ⟨HISTORY.id, key⟩ = some raw at hget
  obtain ⟨g, l, history, hl, rfl, hdecode, hsome⟩ := h.rows.history key raw hget
  have hgf : g = f := by
    obtain ⟨_, htail⟩ := htag
    unfold historyKey historyPrefix at htail
    simp only [fencedScan, flatten_cons, cons_append, List.cons.injEq] at htail
    exact (MetadataFamily.formatTag_injective htail.1).symm
  subst hgf
  obtain ⟨previous, hprevious⟩ := Option.isSome_iff_exists.1 hsome
  -- the row is the only one that its key and version can name
  have hsame : ∀ k (history' : HistoryValue),
      historyKey g l history.transitionVersion = historyKey g k history'.transitionVersion →
      HistoryOf s g k history' → k.length ≤ MAX_COMMAND_KEY_BYTES → k = l ∧ history' = history := by
    intro k history' hkey hof hk
    obtain ⟨-, rfl, hversion⟩ := historyKey_injective (length_lt_of_le hl) (length_lt_of_le hk) hkey
    obtain ⟨_, hraw', hdecode'⟩ := hof.row
    rw [← hversion, hget] at hraw'
    cases hraw'
    rw [hdecode] at hdecode'
    exact ⟨rfl, (Except.ok.inj hdecode').symm⟩
  -- a row of another prefix, or of a key that is visible already, is passed over
  by_cases hskip : keyPrefix.isPrefixOf l = false ∨ (visible.get l).isSome
  · refine ⟨visible, ?_, hvisible, fun k history' hkey hof hk hpre _ => ?_, fun k hs => hs⟩
    · show insertHistory keyPrefix version visible (.row _ raw) = _
      unfold insertHistory
      dsimp only
      rw [historyUserKey_historyKey (length_lt_of_le hl), ok_bind, if_pos hskip]
      rfl
    · obtain ⟨rfl, rfl⟩ := hsame k history' hkey hof hk
      rcases hskip with hno | hyes
      · rw [ isPrefixOf_iff_prefix.2 hpre] at hno
        cases hno
      · exact hyes
  · have hinsert : insertHistory keyPrefix version visible
        (.row (historyKey g l history.transitionVersion) raw) = .ok
        (if history.previousModifiedVersion.get ≤ version.get ∧
          version.get < history.transitionVersion.get then visible.insert l previous else visible) := by
      unfold insertHistory corruptValue
      dsimp only
      rw [historyUserKey_historyKey (length_lt_of_le hl), ok_bind, if_neg hskip, hdecode]
      show Except.ok _ = _
      rw [hprevious]
    have hpre : keyPrefix <+: l := by
      refine isPrefixOf_iff_prefix.1 ?_
      by_contra hno
      exact hskip (.inl (Bool.not_eq_true _ ▸ hno))
    -- the row shows its previous payload exactly if it covers the version
    by_cases hcovers : history.previousModifiedVersion.get ≤ version.get ∧
        version.get < history.transitionVersion.get
    · rw [if_pos hcovers] at hinsert
      refine ⟨_, hinsert, hvisible.insert ?_ hpre, fun k history' hkey hof hk _ _ => ?_,
        fun k hs => isSome_get_insert hs _ _⟩
      · refine h.payload_eq hl (.inr ⟨⟨history.previousModifiedVersion.get,
          history.transitionVersion.get, previous⟩, ?_, hcovers, rfl⟩)
        exact ⟨history, ⟨raw, hget, hdecode⟩, rfl, rfl, hprevious⟩
      · obtain ⟨rfl, -⟩ := hsame k history' hkey hof hk
        rw [OrdMap.get_insert_self]
        rfl
    · rw [if_neg hcovers] at hinsert
      refine ⟨visible, hinsert, hvisible, fun k history' hkey hof hk _ hcov => ?_, fun k hs => hs⟩
      obtain ⟨-, rfl⟩ := hsame k history' hkey hof hk
      exact absurd hcov hcovers

end

variable (keyPrefix n) in
/-- Current rows and History rows merge to the rows of the version. -/
lemma visibleRows_eq (h : Sees s t f clock version.get) :
    ∃ visible, visibleRows f keyPrefix version
        (s.scanItems (fencedScan f.keyspace keyPrefix none n none))
        (s.scanItems (fencedScan HISTORY.id [f.formatTag] none n none)) = .ok visible ∧
      visible.rows = (liveRows t f).filter fun r => keyPrefix.isPrefixOf r.1 := by
  -- the current rows that are old enough
  obtain ⟨kept, hkept, hkeptRows, hcurrent, -⟩ := foldlM_total (f := insertCurrent f version)
    (b := OrdMap.empty) (RowsOf t f keyPrefix) (fun item visible => ∀ m x,
      (cellOf s f item.key).current = some (m, x) → m ≤ version.get → (visible.get item.key).isSome)
    (fun visible item hitem hvisible => by
      obtain ⟨visible', hok, hrows', hdone, hkeep⟩ := insertCurrent_total h hvisible hitem
      exact ⟨visible', hok, hrows', hdone, fun c hc m x hm hle => hkeep _ (hc m x hm hle)⟩)
    (fun k x hget => nomatch hget)
  -- then the History rows that cover the version
  obtain ⟨visible, hvisible, ⟨hrows, hkeeps⟩, hhistory, -⟩ := foldlM_total
    (f := insertHistory keyPrefix version) (b := kept)
    (fun visible => RowsOf t f keyPrefix visible ∧ ∀ k, (kept.get k).isSome → (visible.get k).isSome)
    (fun item visible => ∀ k history, item.key = historyKey f k history.transitionVersion →
      HistoryOf s f k history → k.length ≤ MAX_COMMAND_KEY_BYTES → keyPrefix <+: k →
      history.previousModifiedVersion.get ≤ version.get ∧ version.get < history.transitionVersion.get →
      (visible.get k).isSome)
    (fun visible item hitem hvisible => by
      obtain ⟨visible', hok, hrows', hdone, hkeep⟩ := insertHistory_total h hvisible.1 hitem
      exact ⟨visible', hok, ⟨hrows', fun k hk => hkeep k (hvisible.2 k hk)⟩, hdone,
        fun c hc k history hkey hof hk hpre hcov => hkeep _ (hc k history hkey hof hk hpre hcov)⟩)
    ⟨hkeptRows, fun k hk => hk⟩
  refine ⟨visible, bind_eq_ok.2 ⟨kept, hkept, hvisible⟩, eq_liveRows_of_mem visible.sorted fun k x => ?_⟩
  rw [OrdMap.mem_rows]
  refine ⟨hrows k x, fun ⟨hlive, hpre⟩ => ?_⟩
  -- a live row is shown by the current row or by a History row, and both were merged
  have hk := h.live_le k x hlive
  have hsome : (visible.get k).isSome := by
    rcases hlive ▸ h.shows k hk with ⟨m, hm, hle⟩ | ⟨_, ⟨history, hof, hstart, hstop, -⟩, hcov, -⟩
    · obtain ⟨_, hvalue, -⟩ := Option.map_eq_some_iff.1 hm
      obtain ⟨raw, hget, -⟩ := Option.bind_eq_some_iff.1 hvalue
      have hitem : Item.row k raw ∈ s.scanItems (fencedScan f.keyspace keyPrefix none n none) :=
        row_mem_scanItems hget hpre rfl rfl
      exact hkeeps k (hcurrent _ hitem m x hm hle)
    · obtain ⟨raw, hget, -⟩ := hof.row
      have hitem : Item.row (historyKey f k history.transitionVersion) raw ∈
          s.scanItems (fencedScan HISTORY.id [f.formatTag] none n none) :=
        row_mem_scanItems hget ⟨_, rfl⟩ rfl rfl
      exact hhistory _ hitem k history rfl hof hk hpre ⟨hstart ▸ hcov.1, hstop ▸ hcov.2⟩
  obtain ⟨x', hx'⟩ := Option.isSome_iff_exists.1 hsome
  rw [hx', ← hlive, (hrows k x' hx').1]

end Merge

/-! ### Current rows at the clock -/

/-- The payload inside a stored row. -/
def storedPayload (raw : Bytes) : Bytes :=
  match CurrentValue.decode raw with
  | .ok value => value.payload
  | .error _ => []

section Current

variable {s t : State} {f : MetadataFamily} {keyPrefix : Bytes} {delimiter : Option UInt8} {clock : ℕ}
  {version : ReadVersion}

lemma storedPayload_of_decode {raw : Bytes} {value : CurrentValue}
    (h : CurrentValue.decode raw = .ok value) : storedPayload raw = value.payload := by
  unfold storedPayload
  rw [h]

lemma currentScanItem_eq_ok {item : ScanItem} {item' : DelimitedMetadataScanItem}
    (h : currentScanItem f version item = .ok item') : item' = item.mapValue storedPayload := by
  cases item with
  | row =>
    obtain ⟨_, hvalue, h⟩ := bind_eq_ok.1 h
    replace h := ok_of_bind h
    rw [← pure_eq_ok.1 h, Item.mapValue, storedPayload_of_decode (mapError_eq_ok.1 hvalue)]
  | group => exact (pure_eq_ok.1 h).symm

lemma currentScanPage_eq_ok {remaining : ℕ} {page : ScanPage} {items : List DelimitedMetadataScanItem}
    (h : currentScanPage f version remaining page = .ok items) :
    items = page.items.map (Item.mapValue storedPayload) := by
  replace h := ok_of_bind h
  replace h := ok_of_bind h
  have hforall := (mapM_eq_ok.1 h).imp fun _ _ hitem => (currentScanItem_eq_ok hitem).symm
  rw [← forall₂_map_left_iff, forall₂_eq_eq_eq] at hforall
  exact hforall.symm

lemma currentScanItem_total (hrows : RowsInv s clock) (hle : clock ≤ version.get) {after : Option Bytes}
    {n : ℕ} {item : ScanItem}
    (hitem : item ∈ s.scanItems (fencedScan f.keyspace keyPrefix after n delimiter)) :
    ∃ item', currentScanItem f version item = .ok item' := by
  obtain ⟨key, raw, hget, -, rfl⟩ := mem_scanItems hitem
  obtain ⟨-, value, hdecode, _⟩ := hrows.current f key raw hget
  unfold itemOf
  cases groupOf (fencedScan f.keyspace keyPrefix after n delimiter).keyPrefix
      (fencedScan f.keyspace keyPrefix after n delimiter).delimiter key with
  | some g => exact ⟨.group g, rfl⟩
  | none =>
    refine ⟨.row key value.payload, ?_⟩
    unfold currentScanItem corruptValue
    dsimp only
    rw [hdecode]
    show (do refuseIf _ _; _ : Except MetaError _) = _
    rw [refuseIf_of_not (by omega)]
    rfl

/-- At the clock a store shows its own rows. -/
lemma Sees.payloadOf_eq (h : Sees s t f clock clock) (k : Bytes) : payloadOf s f k = payloadOf t f k := by
  by_cases hk : k.length ≤ MAX_COMMAND_KEY_BYTES
  · rw [← NoKV.Meta.payloadOf_eq]
    exact (Cell.shows_now (h.cell k hk)).unique (h.cell k hk) (h.shows k hk)
  · have ht : payloadOf t f k = none := by
      refine Option.eq_none_iff_forall_ne_some.2 fun x hx => ?_
      exact hk (h.live_le k x hx)
    have hs : s.get ⟨f.keyspace, k⟩ = none := by
      refine Option.eq_none_iff_forall_ne_some.2 fun raw hraw => ?_
      exact hk (h.rows.current f k raw hraw).1
    rw [ht]
    unfold payloadOf currentOf
    rw [hs]
    rfl

/-- At the clock the decoded items of a scan are the items of the version. -/
lemma map_scanItems (h : Sees s t f clock clock) (after : Option Bytes) (n : ℕ) :
    (s.scanItems (fencedScan f.keyspace keyPrefix after n delimiter)).map (Item.mapValue storedPayload) =
      afterCursor Item.key after (snapshotItems t f keyPrefix delimiter) := by
  have hrows : (s.prefixRows f.keyspace keyPrefix).map (fun r => (r.1, storedPayload r.2)) =
      (liveRows t f).filter fun r => keyPrefix.isPrefixOf r.1 := by
    refine eq_liveRows_of_mem ?_ fun k x => ?_
    · rw [pairwise_map]
      exact prefixRows_sorted _ _
    · rw [← h.payloadOf_eq k, mem_map]
      constructor
      · rintro ⟨⟨key, raw⟩, hmem, heq⟩
        obtain ⟨rfl, rfl⟩ := Prod.mk.inj heq
        obtain ⟨hget, hpre⟩ := mem_prefixRows.1 hmem
        obtain ⟨-, value, hdecode, -⟩ := h.rows.current f key raw hget
        rw [← NoKV.Meta.payloadOf_eq, cellOf_current hget hdecode, storedPayload_of_decode hdecode]
        exact ⟨rfl, hpre⟩
      · rintro ⟨hlive, hpre⟩
        obtain ⟨_, hvalue, rfl⟩ := Option.map_eq_some_iff.1 hlive
        obtain ⟨raw, hget, hdecode⟩ := Option.bind_eq_some_iff.1 hvalue
        obtain ⟨-, _, hdecode', -⟩ := h.rows.current f k raw hget
        rw [hdecode'] at hdecode
        cases hdecode
        exact ⟨(k, raw), mem_prefixRows.2 ⟨hget, hpre⟩, by
          rw [storedPayload_of_decode hdecode']⟩
  unfold State.scanItems snapshotItems
  rw [← hrows, rollup_map]
  exact (afterCursor_map (fun i => Item.key_mapValue _ i) _ _).symm

end Current

end NoKV.Meta
