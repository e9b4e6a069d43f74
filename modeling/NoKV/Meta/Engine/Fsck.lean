import NoKV.Meta.Engine.ExactlyOnce
import NoKV.Meta.Engine.Verify

/-!
# The recovery check of a shard

`fsck` verifies the chain, then binds every command record to its dedupe row and every dedupe row to
its command record.

* `Inv.outboxAfter_runAt`: a bounded read of the outbox returns the first records behind a position;
* `Inv.fsckRecovery_runAt`: on every state with a log the check passes, and it counts the log.
-/

namespace NoKV.Meta

open Lib Store State List
open Prog hiding bind pure get

/-! ### The programs -/

section Programs

variable [Pager] [Sha256]

/-- The sum of two machine words, held at the largest one. -/
def saturatingAdd (a b : ℕ) : ℕ := min (a + b) (2 ^ 64 - 1)

/-- The records a bounded read has collected, and their encoded length. -/
structure OutboxPage where
  rows : List RecoveryOutboxRecord
  encodedBytes : ℕ

def collectOutboxRow (layout : RecoveryKeyLayout) (limit maxEncodedBytes : ℕ) (page : OutboxPage)
    (key value : Bytes) : Shard (Walk OutboxPage) := do
  let decoded ← liftM (corruptRecovery "RecoveryOutbox key" (decodeRecoveryOutboxKey key))
  refuseIf (decoded.layout ≠ layout)
    (corrupt "RecoveryOutbox key" "header tag and decoded layout disagree")
  let rowEncodedBytes ← liftM
    (corruptRecovery "RecoveryOutbox storage header" (recoveryStorageLogicalLength value))
  if page.rows ≠ [] ∧ maxEncodedBytes < saturatingAdd page.encodedBytes rowEncodedBytes then
    return .stop page
  else do
    let row ← readRecoveryRecord decoded value
    refuseIf (row.recoveryLsn ≠ decoded.recoveryLsn)
      (MetaError.corruptRecord "RecoveryOutbox" "row LSN does not match ordered key")
    let page : OutboxPage := ⟨page.rows ++ [row], saturatingAdd page.encodedBytes rowEncodedBytes⟩
    if page.rows.length = limit then return .stop page else return .next page

/-- The layouts of the outbox, one after the other. -/
def collectLayouts (startAfterLsn : UInt64) (limit maxEncodedBytes fuel : ℕ) :
    List RecoveryKeyLayout → OutboxPage → Loop (List RecoveryOutboxRecord)
  | [], page => return page.rows
  | layout :: rest, page => do
    match ← walkPages "RecoveryOutbox" (collectOutboxRow layout limit maxEncodedBytes)
        RECOVERY_OUTBOX.id [layout.headerTag]
        (fun page => min (limit - page.rows.length) MAX_HISTORICAL_SCAN_PAGE_ROWS)
        "scan RecoveryOutbox" fuel (some (recoveryOutboxScanStart layout startAfterLsn)) page with
    | .stop page => return page.rows
    | .next page => collectLayouts startAfterLsn limit maxEncodedBytes fuel rest page

def recoveryOutboxAfterUnlocked (startAfterLsn : UInt64) (limit maxEncodedBytes fuel : ℕ) :
    Loop (List RecoveryOutboxRecord) :=
  collectLayouts startAfterLsn limit maxEncodedBytes fuel RecoveryKeyLayout.ordered ⟨[], 0⟩

structure FsckCounts where
  outboxRecords : UInt64
  metadataCommandRecords : UInt64

structure RecoveryFsckReport where
  state : RecoveryState
  outboxRecords : UInt64
  metadataCommandRecords : UInt64
  dedupeRecords : UInt64

/-- The dedupe row of a command record, bound back to the record. -/
def fsckCommandRow (command : MetadataCommand) (row : RecoveryOutboxRecord) : Shard Unit := do
  let key := commandDedupeKey command.rootId command.requestId
  let value ← readValue COMMAND_DEDUPE.id key "fsck CommandDedupe"
  let value ← okOr value (corrupt "CommandDedupe recovery binding"
    s!"missing dedupe result for LSN {row.recoveryLsn}")
  let dedupe ← liftM (corruptValue "CommandDedupe" (CommandDedupeRecord.decode value))
  let bound ← validateDedupeRecoveryBinding key dedupe
  refuseIf (bound ≠ row)
    (corrupt "CommandDedupe recovery binding" s!"dedupe points away from LSN {row.recoveryLsn}")

def fsckOutboxRow (counts : FsckCounts) (row : RecoveryOutboxRecord) : Shard FsckCounts := do
  let outboxRecords ← okOr (checkedAdd counts.outboxRecords 1) MetaError.versionOverflow
  match row.mutation with
  | .metadataCommand command _ =>
    fsckCommandRow command row
    let metadataCommandRecords ← okOr (checkedAdd counts.metadataCommandRecords 1)
      MetaError.versionOverflow
    return ⟨outboxRecords, metadataCommandRecords⟩
  | _ => return ⟨outboxRecords, counts.metadataCommandRecords⟩

/-- The outbox, one bounded read after the other. -/
def fsckOutbox (state : RecoveryState) (pageFuel : ℕ) : ℕ → UInt64 → FsckCounts → Loop FsckCounts
  | 0, _, _ => throw .fuel
  | fuel + 1, afterLsn, counts =>
    if afterLsn < state.appliedRecoveryLsn then do
      let rows ← recoveryOutboxAfterUnlocked afterLsn MAX_HISTORICAL_SCAN_PAGE_ROWS MAX_RECOVERY_BYTES
        pageFuel
      match rows.getLast? with
      | none => throw (.err (corrupt "RecoveryOutbox fsck" s!"chain stopped after LSN {afterLsn}"))
      | some last =>
        let counts ← liftM (rows.foldlM fsckOutboxRow counts)
        fsckOutbox state pageFuel fuel last.recoveryLsn counts
    else return counts

def fsckDedupeRow (dedupeRecords : UInt64) (key value : Bytes) : Shard UInt64 := do
  let dedupe ← liftM (corruptValue "CommandDedupe" (CommandDedupeRecord.decode value))
  let _ ← validateDedupeRecoveryBinding key dedupe
  okOr (checkedAdd dedupeRecords 1) MetaError.versionOverflow

/-- The end of the check: the counts agree. -/
def checkFsckCounts (state : RecoveryState) (counts : FsckCounts) (dedupeRecords : UInt64) :
    Except MetaError RecoveryFsckReport := do
  refuseIf (counts.outboxRecords ≠ state.appliedRecoveryLsn ∨
      counts.metadataCommandRecords ≠ dedupeRecords)
    (corrupt "CommandDedupe recovery binding" (s!"outbox rows {counts.outboxRecords}, metadata " ++
      s!"commands {counts.metadataCommandRecords}, dedupe rows {dedupeRecords}"))
  return ⟨state, counts.outboxRecords, counts.metadataCommandRecords, dedupeRecords⟩

def fsckRecoveryAtStateUnlocked (shard : LogicalShardId) (fuel : ℕ) (state : RecoveryState) :
    Loop RecoveryFsckReport := do
  let _ ← verifyRecoveryChainAtStateUnlocked shard fuel state
  let counts ← fsckOutbox state fuel fuel 0 ⟨0, 0⟩
  let dedupeRecords ← walkPages "CommandDedupe"
    (fun count key value => Walk.next <$> fsckDedupeRow count key value) COMMAND_DEDUPE.id []
    (fun _ => MAX_HISTORICAL_SCAN_PAGE_ROWS) "fsck CommandDedupe" fuel none 0
  liftM ((checkFsckCounts state counts dedupeRecords.acc).mapError Halt.err)

/-- Verify the chain and the binding between command records and dedupe rows. -/
def fsckRecovery (shard : LogicalShardId) (fuel : ℕ) : Loop RecoveryFsckReport :=
  withStableRecoveryScan (fsckRecoveryAtStateUnlocked shard fuel)

end Programs

/-! ### Bounded reads of the outbox -/

section OutboxAfter

variable {shard : LogicalShardId} {s : State} {log : List RecoveryOutboxRecord} {row : RecoveryOutboxRecord}
  {limit maxEncodedBytes : ℕ}

lemma scanItems_after (keyspace : Keyspace) (keyPrefix : Bytes) (after : Option Bytes) (n : ℕ) :
    s.scanItems (plainScan keyspace keyPrefix after n) =
      rowItems (afterCursor Prod.fst after (s.prefixRows keyspace keyPrefix)) := by
  unfold State.scanItems rowItems
  rw [show (plainScan keyspace keyPrefix after n).delimiter = none from rfl,
    rollup_none _ (prefixRows_sorted _ _)]
  exact afterCursor_map (fun _ => rfl) _ _

lemma mem_afterCursor {c key value : Bytes} {rows : List (Bytes × Bytes)} :
    (key, value) ∈ afterCursor Prod.fst (some c) rows ↔ (key, value) ∈ rows ∧ c < key := by
  simp [afterCursor]

lemma checkCursor_scanStart (layout : RecoveryKeyLayout) (start : UInt64) (n : ℕ) :
    checkCursor (plainScan RECOVERY_OUTBOX.id [layout.headerTag]
      (some (recoveryOutboxScanStart layout start)) n) storeLimits = .ok () := by
  have hlength : (recoveryOutboxScanStart layout start).length ≤ storeLimits.maxKeyBytes := by
    cases layout with
    | format8 =>
      show (legacyRecoveryOutboxKey start).length ≤ 8205
      rw [legacyRecoveryOutboxKey_length]
      omega
    | format9 =>
      show (recoveryOutboxKey start).length ≤ 8205
      rw [recoveryOutboxKey_length]
      omega
  have hkey : checkLimit .keyBytes (recoveryOutboxScanStart layout start).length storeLimits.maxKeyBytes =
      .ok () := checkLimit_eq_ok.2 hlength
  have hpre : [layout.headerTag].isPrefixOf (recoveryOutboxScanStart layout start) = true := by
    rw [ isPrefixOf_iff_prefix]
    cases layout <;> exact cons_prefix_cons.2 ⟨rfl, nil_prefix⟩
  have hcanonical : isCanonicalOutputKey (plainScan RECOVERY_OUTBOX.id [layout.headerTag]
      (some (recoveryOutboxScanStart layout start)) n) (recoveryOutboxScanStart layout start) = true :=
    if_pos hpre
  show (checkLimit .keyBytes (recoveryOutboxScanStart layout start).length storeLimits.maxKeyBytes >>=
    fun _ => _) = _
  rw [hkey, ok_bind]
  exact refuseIf_of_not (by rw [hcanonical]; decide)

variable [Sha256] {page : OutboxPage}

def encodedLength (row : RecoveryOutboxRecord) : ℕ := (row.encode.toOption.map List.length).getD 0

lemma encodedLength_eq {logical : Bytes} (h : row.encode = .ok logical) :
    encodedLength row = logical.length := by
  unfold encodedLength
  rw [h]
  rfl

/-- Behind a position, under the tag of the current layout, stand the headers of the later records. -/
lemma LogInv.headers_after (h : LogInv shard s log) (start : UInt64) (n : ℕ) :
    s.scanItems (plainScan RECOVERY_OUTBOX.id [RecoveryKeyLayout.format9.headerTag]
        (some (recoveryOutboxScanStart .format9 start)) n) =
      rowItems (headerRows (log.drop start.toNat)) := by
  rw [scanItems_after]
  congr 1
  refine eq_of_sorted_of_mem ((prefixRows_sorted _ _).filter _)
    (h.headerRows_sorted.sublist ((drop_sublist _ _).map _)) fun key value => ?_
  rw [mem_afterCursor, mem_prefixRows, h.get_outbox, mem_append, mem_headerRows,
    mem_headerRows, mem_allChunkRows]
  constructor
  · rintro ⟨⟨⟨row, hrow, rfl, rfl⟩ | ⟨row, -, i, -, rfl⟩, hpre⟩, hlt⟩
    · refine ⟨row, h.chain.mem_drop.2 ⟨hrow, ?_⟩, rfl, rfl⟩
      rw [Nat.zero_add]
      refine Nat.lt_of_not_le fun hle => ?_
      rcases Nat.eq_or_lt_of_le hle with heq | hlt'
      · rw [UInt64.toNat_inj.1 heq] at hlt
        exact absurd hlt (lt_irrefl _)
      · exact absurd (hlt.trans (recoveryOutboxKey_lt (UInt64.lt_iff_toNat_lt.2 hlt'))) (lt_irrefl _)
    · exact absurd (cons_prefix_cons.1 hpre).1 (by decide)
  · rintro ⟨row, hrow, rfl, rfl⟩
    obtain ⟨hrow, hlt⟩ := h.chain.mem_drop.1 hrow
    rw [Nat.zero_add] at hlt
    exact ⟨⟨.inl ⟨row, hrow, rfl, rfl⟩, cons_prefix_cons.2 ⟨rfl, nil_prefix⟩⟩,
      recoveryOutboxKey_lt (UInt64.lt_iff_toNat_lt.2 hlt)⟩

lemma LogInv.legacy_after (h : LogInv shard s log) (after : Option Bytes) (n : ℕ) :
    s.scanItems (plainScan RECOVERY_OUTBOX.id [RecoveryKeyLayout.format8.headerTag] after n) = [] := by
  have hrows : s.prefixRows RECOVERY_OUTBOX.id [RecoveryKeyLayout.format8.headerTag] = [] := by
    refine eq_nil_iff_forall_not_mem.2 ?_
    rintro ⟨_, _⟩ hr
    obtain ⟨hget, hpre⟩ := mem_prefixRows.1 hr
    rcases h.key_tag hget with ⟨row, -, rfl⟩ | ⟨row, -, i, rfl⟩
    · exact absurd (cons_prefix_cons.1 hpre).1 (by decide)
    · exact absurd (cons_prefix_cons.1 hpre).1 (by decide)
  rw [scanItems_after, hrows]
  rfl

/-- What one record of the log adds to a page. -/
def collectStep (limit maxEncodedBytes : ℕ) (page : OutboxPage) (row : RecoveryOutboxRecord) :
    Walk OutboxPage :=
  if page.rows ≠ [] ∧ maxEncodedBytes < saturatingAdd page.encodedBytes (encodedLength row) then
    .stop page
  else if (page.rows ++ [row]).length = limit then
    .stop ⟨page.rows ++ [row], saturatingAdd page.encodedBytes (encodedLength row)⟩
  else .next ⟨page.rows ++ [row], saturatingAdd page.encodedBytes (encodedLength row)⟩

/-- A page within its limit, whose length is counted and within the budget unless it is one record. -/
structure OutboxPage.Fits (page : OutboxPage) (limit maxEncodedBytes : ℕ) : Prop where
  count : page.rows.length ≤ limit
  bytes : page.encodedBytes = (page.rows.map encodedLength).sum
  budget : page.encodedBytes ≤ maxEncodedBytes ∨ page.rows.length ≤ 1
  small : page.encodedBytes ≤ page.rows.length * storeLimits.maxTransactionBytes

lemma OutboxPage.Fits.push (h : page.Fits limit maxEncodedBytes) (hroom : page.rows.length < limit)
    (hlimit : limit ≤ 1024) (hrow : encodedLength row ≤ storeLimits.maxTransactionBytes)
    (hbudget : ¬ (page.rows ≠ [] ∧
      maxEncodedBytes < saturatingAdd page.encodedBytes (encodedLength row))) :
    OutboxPage.Fits ⟨page.rows ++ [row], saturatingAdd page.encodedBytes (encodedLength row)⟩ limit
      maxEncodedBytes := by
  have hsmall := h.small
  have hstore : storeLimits.maxTransactionBytes = 16000000 := rfl
  rw [hstore] at hsmall hrow
  have hadd : saturatingAdd page.encodedBytes (encodedLength row) =
      page.encodedBytes + encodedLength row := Nat.min_eq_left (by omega)
  rw [hadd] at hbudget ⊢
  refine ⟨?_, ?_, ?_, ?_⟩
  · rw [length_append, length_singleton]
    omega
  · rw [map_append, sum_append, h.bytes]
    simp
  · by_cases hnil : page.rows = []
    · right
      rw [hnil]
      simp
    · left
      exact not_lt.1 fun hlt => hbudget ⟨hnil, hlt⟩
  · dsimp only
    rw [length_append, length_singleton, hstore]
    omega

variable [Pager]

lemma LogInv.collectOutboxRow_runAt (h : LogInv shard s log) (hrow : row ∈ log) (page : OutboxPage) :
    (collectOutboxRow .format9 limit maxEncodedBytes page (recoveryOutboxKey row.recoveryLsn)
      (storageOf row).1).runAt s = .ok (collectStep limit maxEncodedBytes page row) := by
  obtain ⟨_, hencode, -, -, hlength⟩ := h.storage_counts hrow
  have hdecode := decodeRecoveryOutboxKey_recoveryOutboxKey (h.lsn_ne hrow)
  unfold collectOutboxRow corruptRecovery collectStep
  rw [runAt_bind, runAt_liftM, hdecode]
  show (refuseIf _ _ >>= _ : Shard (Walk OutboxPage)).runAt s = _
  rw [runAt_bind, runAt_refuseIf, refuseIf_of_not (not_not.2 rfl), ok_bind, runAt_bind,
    runAt_liftM, hlength, encodedLength_eq hencode]
  show (if _ then _ else _ : Shard (Walk OutboxPage)).runAt s = _
  split
  · rfl
  · rw [runAt_bind, h.readRecoveryRecord_runAt hrow, ok_bind, runAt_bind, runAt_refuseIf,
      refuseIf_of_not (not_not.2 rfl), ok_bind, runAt_ite]
    split <;> rfl

/-- A bounded walk over consecutive records takes a first part of them. -/
lemma LogInv.collect_runAt (h : LogInv shard s log) (hlimit : limit ≤ 1024) {xs : List RecoveryOutboxRecord}
    (hxs : ∀ row ∈ xs, row ∈ log) (hfits : page.Fits limit maxEncodedBytes) (hroom : page.rows.length < limit) :
    ∃ w taken rest, xs = taken ++ rest ∧
      (walkItems "RecoveryOutbox" (collectOutboxRow .format9 limit maxEncodedBytes)
        (rowItems (headerRows xs)) page).runAt s = .ok w ∧
      w.acc.rows = page.rows ++ taken ∧ w.acc.Fits limit maxEncodedBytes ∧
      (page.rows = [] → xs ≠ [] → taken ≠ []) := by
  induction xs generalizing page with
  | nil => exact ⟨.next page, [], [], rfl, rfl, (append_nil _).symm, hfits, fun _ hne => absurd rfl hne⟩
  | cons row xs ih =>
    have hrow := hxs row (mem_cons_self ..)
    obtain ⟨_, hencode, _, -, -⟩ := h.storage_counts hrow
    have hitem : (walkItems "RecoveryOutbox" (collectOutboxRow .format9 limit maxEncodedBytes)
        (rowItems (headerRows (row :: xs))) page).runAt s =
        match collectStep limit maxEncodedBytes page row with
        | .stop acc => .ok (.stop acc)
        | .next acc => (walkItems "RecoveryOutbox" (collectOutboxRow .format9 limit maxEncodedBytes)
            (rowItems (headerRows xs)) acc).runAt s := by
      show (walkItems _ _ (.row _ _ :: rowItems (headerRows xs)) page).runAt s = _
      rw [walkItems, runAt_bind, h.collectOutboxRow_runAt hrow, ok_bind]
      cases collectStep limit maxEncodedBytes page row <;> rfl
    rw [hitem]
    unfold collectStep
    -- over budget, at the limit, or on to the next record
    by_cases hover : page.rows ≠ [] ∧
        maxEncodedBytes < saturatingAdd page.encodedBytes (encodedLength row)
    · rw [if_pos hover]
      exact ⟨.stop page, [], row :: xs, rfl, rfl, (append_nil _).symm, hfits,
        fun hnil => absurd hnil hover.1⟩
    · have hpush := hfits.push hroom hlimit (by rwa [encodedLength_eq hencode]) hover
      rw [if_neg hover]
      by_cases hfull : (page.rows ++ [row]).length = limit
      · rw [if_pos hfull]
        exact ⟨_, [row], xs, rfl, rfl, rfl, hpush, fun _ _ => cons_ne_nil _ _⟩
      · rw [if_neg hfull]
        have hless : (page.rows ++ [row]).length < limit := lt_of_le_of_ne hpush.count hfull
        obtain ⟨w, taken, rest, rfl, hw, hrows, hwfits, -⟩ :=
          ih (fun r hr => hxs r (mem_cons_of_mem _ hr)) hpush hless
        refine ⟨w, row :: taken, rest, rfl, hw, ?_, hwfits, fun _ _ => cons_ne_nil _ _⟩
        rw [hrows, append_assoc]
        rfl

/-- The walk over one layout, whatever its pages. -/
lemma collectWalk_runAt (hbounded : Bounded s) (layout : RecoveryKeyLayout) (start : UInt64)
    (maxEncodedBytes : ℕ) {items : List ScanItem}
    (hitems : ∀ n, s.scanItems (plainScan RECOVERY_OUTBOX.id [layout.headerTag]
      (some (recoveryOutboxScanStart layout start)) n) = items) (page : OutboxPage)
    (hroom : page.rows.length < limit) {fuel : ℕ} (hfuel : items.length < fuel) :
    (walkPages "RecoveryOutbox" (collectOutboxRow layout limit maxEncodedBytes)
        RECOVERY_OUTBOX.id [layout.headerTag]
        (fun page => min (limit - page.rows.length) MAX_HISTORICAL_SCAN_PAGE_ROWS)
        "scan RecoveryOutbox" fuel (some (recoveryOutboxScanStart layout start)) page).runAt s =
      ((walkItems "RecoveryOutbox" (collectOutboxRow layout limit maxEncodedBytes) items page).runAt
        s).mapError .err := by
  have hpage : MAX_HISTORICAL_SCAN_PAGE_ROWS = 260 := rfl
  refine walkPages_runAt hbounded (I := fun page => page.rows.length < limit) ?_ ?_ (by simp)
    hroom hitems (checkCursor_scanStart layout start) hfuel
  · -- a walk that goes on has not reached its limit
    intro page key value page' hlt hstep
    unfold collectOutboxRow at hstep
    simp only [runAt_bind, runAt_liftM, runAt_refuseIf, runAt_ite, runAt_pure]
      at hstep
    obtain ⟨_, -, hstep⟩ := bind_eq_ok.1 hstep
    replace hstep := ok_of_bind hstep
    obtain ⟨_, -, hstep⟩ := bind_eq_ok.1 hstep
    split at hstep
    · cases Except.ok.inj hstep
    · obtain ⟨_, -, hstep⟩ := bind_eq_ok.1 hstep
      replace hstep := ok_of_bind hstep
      split at hstep
      · cases Except.ok.inj hstep
      next hne =>
        cases Except.ok.inj hstep
        rw [length_append, length_singleton] at hne ⊢
        omega
  · intro page hlt
    omega

/-- **A bounded read of the outbox** returns a first part of the records behind a position, within its
limits; it returns nothing only when there is nothing. -/
theorem Inv.outboxAfter_runAt (h : Inv shard s log) (start : UInt64) (hpos : 0 < limit)
    (hlimit : limit ≤ 1024) (maxEncodedBytes : ℕ) :
    ∃ rows rest, log.drop start.toNat = rows ++ rest ∧ (log.drop start.toNat ≠ [] → rows ≠ []) ∧
      rows.length ≤ limit ∧ ((rows.map encodedLength).sum ≤ maxEncodedBytes ∨ rows.length ≤ 1) ∧
      ∀ fuel > log.length,
        (recoveryOutboxAfterUnlocked start limit maxEncodedBytes fuel).runAt s = .ok rows := by
  have hempty : OutboxPage.Fits ⟨[], 0⟩ limit maxEncodedBytes :=
    ⟨Nat.zero_le _, rfl, .inl (Nat.zero_le _), Nat.zero_le _⟩
  obtain ⟨w, taken, rest, hsplit, hw, hrows, hfits, htaken⟩ := h.log.collect_runAt hlimit
    (fun row hr => (drop_sublist start.toNat log).subset hr) hempty hpos
  have hrows : w.acc.rows = taken := hrows
  refine ⟨taken, rest, hsplit, htaken rfl, hrows ▸ hfits.count, ?_, fun fuel hfuel => ?_⟩
  · rw [← hrows, ← hfits.bytes]
    exact hfits.budget
  have hcount : (rowItems (headerRows (log.drop start.toNat))).length < fuel := by
    unfold rowItems headerRows
    rw [length_map, length_map, length_drop]
    omega
  have hlegacy := collectWalk_runAt h.bounded .format8 start maxEncodedBytes
    (fun n => h.log.legacy_after _ n) ⟨[], 0⟩ hpos (Nat.zero_lt_of_lt hfuel)
  have hcurrent := collectWalk_runAt h.bounded .format9 start maxEncodedBytes
    (h.log.headers_after start) ⟨[], 0⟩ hpos hcount
  unfold recoveryOutboxAfterUnlocked RecoveryKeyLayout.ordered
  rw [collectLayouts, runAt_bind, hlegacy]
  show (collectLayouts start limit maxEncodedBytes fuel [.format9] ⟨[], 0⟩).runAt s = _
  rw [collectLayouts, runAt_bind, hcurrent, hw]
  cases w with
  | stop page | next page =>
    rw [← hrows]
    rfl

end OutboxAfter

/-! ### The check -/

section Fsck

variable [Sha256] {shard : LogicalShardId} {s : State} {log : List RecoveryOutboxRecord}
  {row : RecoveryOutboxRecord}

/-- The key of the dedupe row of a command record. -/
def dedupeKeyOf (row : RecoveryOutboxRecord) : Bytes :=
  match row.mutation with
  | .metadataCommand command _ => commandDedupeKey command.rootId command.requestId
  | _ => []

lemma LogInv.dedupeKeyOf_injOn (h : LogInv shard s log) {a b : RecoveryOutboxRecord} (ha : a ∈ log)
    (hb : b ∈ log) (hca : a.isCommand = true) (hcb : b.isCommand = true)
    (heq : dedupeKeyOf a = dedupeKeyOf b) : a = b := by
  unfold RecoveryOutboxRecord.isCommand at hca hcb
  unfold dedupeKeyOf at heq
  cases hma : a.mutation with
  | metadataCommand =>
    cases hmb : b.mutation with
    | metadataCommand =>
      rw [hma, hmb] at heq
      obtain ⟨hroot, hrequest⟩ := commandDedupeKey_injective heq
      exact h.eq_of_request ha hb hma hmb hroot hrequest
    | observeLeaseClock _ _ _ _ | advanceOwnerEpoch _ _ => simp [hmb] at hcb
  | observeLeaseClock _ _ _ _ | advanceOwnerEpoch _ _ => simp [hma] at hca

/-- What the check reports on a log. -/
structure RecoveryFsckReport.Reports (report : RecoveryFsckReport) (shard : LogicalShardId)
    (log : List RecoveryOutboxRecord) : Prop where
  state_eq : report.state = tailAfter shard log
  outboxRecords_eq : report.outboxRecords.toNat = log.length
  commandRecords_eq :
    report.metadataCommandRecords.toNat = log.countP RecoveryOutboxRecord.isCommand
  dedupeRecords_eq : report.dedupeRecords.toNat = log.countP RecoveryOutboxRecord.isCommand

variable [Pager]

/-- A dedupe row is bound to the record of its command. -/
lemma LogInv.dedupe_bound (h : LogInv shard s log) (hrow : row ∈ log) {key value : Bytes}
    (hdedupe : DedupeRow row key value) : ∃ dedupe, CommandDedupeRecord.decode value = .ok dedupe ∧
      (validateDedupeRecoveryBinding key dedupe).runAt s = .ok row := by
  cases hdedupe with
  | intro hmutation hresult hencode =>
    exact ⟨_, CommandDedupeRecord.decode_encode hencode, h.binding_runAt hrow hmutation hresult⟩

lemma LogInv.fsckCommandRow_runAt (h : LogInv shard s log) (hrow : row ∈ log) {command : MetadataCommand}
    {leaseDeadlineMs : Option UInt64} (hmutation : row.mutation = .metadataCommand command leaseDeadlineMs) :
    (fsckCommandRow command row).runAt s = .ok () := by
  obtain ⟨key, value, hdedupe⟩ := h.deduped row hrow (isCommand_of_mutation hmutation)
  obtain ⟨dedupe, hdecode, hbinding⟩ := h.dedupe_bound hrow hdedupe
  have hget := (h.dedupe key value).2 ⟨row, hrow, hdedupe⟩
  cases hdedupe with
  | intro hmutation' _ _ =>
    cases hmutation.symm.trans hmutation'
    unfold fsckCommandRow corruptValue
    rw [runAt_bind, readValue_runAt (commandDedupeKey_length ..), ok_bind, hget, runAt_bind, runAt_okOr,
      okOr_eq_ok.2 rfl, ok_bind, runAt_bind, runAt_liftM, hdecode]
    show (validateDedupeRecoveryBinding _ _ >>= _ : Shard Unit).runAt s = _
    rw [runAt_bind, hbinding, ok_bind, runAt_refuseIf, refuseIf_of_not (not_not.2 rfl)]

/-- What the check has counted. -/
def FsckCounts.Counts (counts : FsckCounts) (rows : List RecoveryOutboxRecord) : Prop :=
  counts.outboxRecords.toNat = rows.length ∧
    counts.metadataCommandRecords.toNat = rows.countP RecoveryOutboxRecord.isCommand

variable {counts : FsckCounts} {done : List RecoveryOutboxRecord} {fuel : ℕ}

omit [Pager] [Sha256] in
lemma DedupeRow.key_eq {key value : Bytes} (h : DedupeRow row key value) :
    row.isCommand = true ∧ key = dedupeKeyOf row := by
  cases h with
  | intro hmutation =>
    unfold dedupeKeyOf
    rw [hmutation]
    exact ⟨isCommand_of_mutation hmutation, rfl⟩

section

variable (h : LogInv shard s log)
include h

lemma LogInv.fsckOutboxRow_runAt (hrow : row ∈ log) (hcounts : counts.Counts done)
    (hlt : done.length + 1 < 2 ^ 64) :
    ∃ counts', (fsckOutboxRow counts row).runAt s = .ok counts' ∧ counts'.Counts (done ++ [row]) := by
  obtain ⟨houtbox, hcommands⟩ := hcounts
  have hle : done.countP RecoveryOutboxRecord.isCommand ≤ done.length := countP_le_length
  obtain ⟨records, hrecords, hrecordsNat⟩ := checkedAdd_one (a := counts.outboxRecords) (by omega)
  obtain ⟨commands, hcommand, hcommandNat⟩ :=
    checkedAdd_one (a := counts.metadataCommandRecords) (by omega)
  have hcount : records.toNat = (done ++ [row]).length := by
    rw [hrecordsNat, houtbox, length_append, length_singleton]
  unfold fsckOutboxRow
  rw [runAt_bind, runAt_okOr, hrecords, okOr_eq_ok.2 rfl, ok_bind]
  cases hmutation : row.mutation with
  | metadataCommand =>
    refine ⟨⟨records, commands⟩, ?_, hcount, ?_⟩
    · rw [runAt_bind, h.fsckCommandRow_runAt hrow hmutation, ok_bind, runAt_bind,
        runAt_okOr, hcommand]
      rfl
    · rw [hcommandNat, hcommands, countP_append, countP_singleton,
        isCommand_of_mutation hmutation]
      rfl
  | observeLeaseClock rootId placementGeneration ownerEpoch observedMs | advanceOwnerEpoch expected next =>
    have his : row.isCommand = false := by
      unfold RecoveryOutboxRecord.isCommand
      rw [hmutation]
    refine ⟨⟨records, counts.metadataCommandRecords⟩, rfl, hcount, ?_⟩
    rw [hcommands, countP_append, countP_singleton, his]
    rfl

lemma LogInv.fsckRows_runAt {rows : List RecoveryOutboxRecord} (hrows : ∀ row ∈ rows, row ∈ log)
    (hcounts : counts.Counts done) (hlt : done.length + rows.length < 2 ^ 64) :
    ∃ counts', (rows.foldlM fsckOutboxRow counts).runAt s = .ok counts' ∧
      counts'.Counts (done ++ rows) := by
  induction rows generalizing counts done with
  | nil => exact ⟨counts, rfl, by rwa [append_nil]⟩
  | cons row _ ih =>
    rw [length_cons] at hlt
    obtain ⟨_, hstep, hcounts₁⟩ :=
      h.fsckOutboxRow_runAt (hrows row (mem_cons_self ..)) hcounts (by omega)
    obtain ⟨counts', hrest, hcounts'⟩ := ih (fun r hr => hrows r (mem_cons_of_mem _ hr)) hcounts₁
      (by rw [length_append, length_singleton]; omega)
    refine ⟨counts', ?_, by rwa [append_assoc] at hcounts'⟩
    rw [foldlM_cons, runAt_bind, hstep, ok_bind, hrest]

omit [Pager] in
/-- There are as many dedupe rows as command records. -/
lemma LogInv.length_dedupeRows :
    (s.prefixRows COMMAND_DEDUPE.id []).length = log.countP RecoveryOutboxRecord.isCommand := by
  have hnodup : log.Nodup := h.lsn_sorted.imp fun hlt heq => absurd (heq ▸ hlt) (UInt64.lt_irrefl _)
  have hkeys : ((log.filter RecoveryOutboxRecord.isCommand).map dedupeKeyOf).Nodup := by
    refine (hnodup.filter _).map_on fun a ha b hb heq => ?_
    rw [mem_filter] at ha hb
    exact h.dedupeKeyOf_injOn ha.1 hb.1 ha.2 hb.2 heq
  have hrows : ((s.prefixRows COMMAND_DEDUPE.id []).map Prod.fst).Nodup :=
    (pairwise_map.2 (prefixRows_sorted _ _)).imp ne_of_lt
  have hperm : ((s.prefixRows COMMAND_DEDUPE.id []).map Prod.fst).Perm
      ((log.filter RecoveryOutboxRecord.isCommand).map dedupeKeyOf) := by
    refine (perm_ext_iff_of_nodup hrows hkeys).2 fun key => ?_
    simp only [mem_map, mem_filter, Prod.exists, exists_and_right, exists_eq_right]
    constructor
    · rintro ⟨value, hr⟩
      obtain ⟨row, hrow, hdedupe⟩ := (h.dedupe key value).1 (mem_prefixRows.1 hr).1
      exact ⟨row, ⟨hrow, hdedupe.key_eq.1⟩, hdedupe.key_eq.2.symm⟩
    · rintro ⟨row, ⟨hrow, hcommand⟩, rfl⟩
      obtain ⟨key, value, hdedupe⟩ := h.deduped row hrow hcommand
      rw [← hdedupe.key_eq.2]
      exact ⟨value, mem_prefixRows.2 ⟨(h.dedupe key value).2 ⟨row, hrow, hdedupe⟩, nil_prefix⟩⟩
  have hlength := hperm.length_eq
  rwa [length_map, length_map, ← countP_eq_length_filter] at hlength

lemma LogInv.fsckDedupeRows_runAt (count : UInt64) {rows : List (Bytes × Bytes)}
    (hrows : ∀ r ∈ rows, s.get ⟨COMMAND_DEDUPE.id, r.1⟩ = some r.2) (hlt : count.toNat + rows.length < 2 ^ 64) :
    ∃ count' : UInt64, count'.toNat = count.toNat + rows.length ∧
      rows.foldlM (fun count r => (fsckDedupeRow count r.1 r.2).runAt s) count = .ok count' := by
  induction rows generalizing count with
  | nil => exact ⟨count, rfl, rfl⟩
  | cons r _ ih =>
    rw [length_cons] at hlt
    obtain ⟨_, hrow, hdedupe⟩ := (h.dedupe r.1 r.2).1 (hrows r (mem_cons_self ..))
    obtain ⟨dedupe, hdecode, hbinding⟩ := h.dedupe_bound hrow hdedupe
    obtain ⟨next, hnext, hnextNat⟩ := checkedAdd_one (show count.toNat + 1 < 2 ^ 64 by omega)
    have hstep : (fsckDedupeRow count r.1 r.2).runAt s = .ok next := by
      unfold fsckDedupeRow corruptValue
      rw [runAt_bind, runAt_liftM, hdecode]
      show (validateDedupeRecoveryBinding r.1 dedupe >>= _ : Shard UInt64).runAt s = _
      rw [runAt_bind, hbinding, ok_bind, runAt_okOr, hnext]
      rfl
    obtain ⟨count', hcount', hrest⟩ := ih next
      (fun r hr => hrows r (mem_cons_of_mem _ hr)) (by omega)
    refine ⟨count', by rw [hcount', hnextNat, length_cons]; omega, ?_⟩
    rw [foldlM_cons, hstep, ok_bind, hrest]

end

/-- The reads of the outbox go through the whole log. -/
lemma Inv.fsckOutbox_runAt (h : Inv shard s log) {pageFuel : ℕ} (hpage : log.length < pageFuel)
    {rest : List RecoveryOutboxRecord} (hsplit : log = done ++ rest) (hfuel : rest.length < fuel)
    {afterLsn : UInt64} (hafter : afterLsn.toNat = done.length) (hcounts : counts.Counts done) :
    ∃ counts', (fsckOutbox (tailAfter shard log) pageFuel fuel afterLsn counts).runAt s = .ok counts' ∧
      counts'.Counts log := by
  have htail : (tailAfter shard log).appliedRecoveryLsn.toNat = log.length := h.lsn_eq
  have hword := (tailAfter shard log).appliedRecoveryLsn.toNat_lt
  -- the counts are those of the part of the log that the cursor has passed
  induction fuel generalizing done rest afterLsn counts with
  | zero => exact absurd hfuel (Nat.not_lt_zero _)
  | succ _ ih =>
    have hlength : log.length = done.length + rest.length := by rw [hsplit, length_append]
    unfold fsckOutbox
    by_cases hlt : afterLsn < (tailAfter shard log).appliedRecoveryLsn
    · -- another page: it is not empty, so that the rest gets shorter
      rw [if_pos hlt]
      rw [UInt64.lt_iff_toNat_lt, hafter, htail] at hlt
      obtain ⟨rows, later, hdrop, hne, -, -, hread⟩ := h.outboxAfter_runAt afterLsn
        (show 0 < MAX_HISTORICAL_SCAN_PAGE_ROWS by decide) (by decide) MAX_RECOVERY_BYTES
      rw [hafter, hsplit, drop_left] at hdrop hne
      have hrest : rest ≠ [] := by
        rintro rfl
        rw [length_nil] at hlength
        omega
      have hrows := hne hrest
      have hlast : rows.getLast? = some (rows.getLast hrows) := getLast?_eq_some_getLast hrows
      have hmem : ∀ row ∈ rows, row ∈ log := by
        intro row hr
        rw [hsplit, hdrop]
        exact mem_append_right _ (mem_append_left _ hr)
      have hcount : rest.length = rows.length + later.length := by rw [hdrop, length_append]
      have hrowsPos := length_pos_of_ne_nil hrows
      obtain ⟨_, hfold, hcounts₁⟩ := h.log.fsckRows_runAt hmem hcounts (by omega)
      have hlog : log = (done ++ rows) ++ later := by rw [hsplit, hdrop, append_assoc]
      have hposition : (rows.getLast hrows).recoveryLsn.toNat = (done ++ rows).length := by
        have hchain := (Link.chainFrom_append.1 (Link.chainFrom_append.1 (hlog ▸ h.log.chain)).1).2
        rw [length_append]
        exact (hchain.pos_getLast hrows).trans (by rw [Nat.zero_add])
      obtain ⟨counts', hrun, hcounts'⟩ := ih hlog (by omega) hposition hcounts₁
      refine ⟨counts', ?_, hcounts'⟩
      rw [runAt_bind, hread pageFuel hpage, ok_bind, hlast]
      rw [runAt_bind, runAt_liftM_bounded, hfold]
      exact hrun
    · -- the cursor has reached the tail
      rw [if_neg hlt]
      rw [UInt64.lt_iff_toNat_lt, hafter, htail] at hlt
      have hnil : rest = [] := length_eq_zero_iff.1 (by omega)
      rw [hnil, append_nil] at hsplit
      exact ⟨counts, rfl, hsplit ▸ hcounts⟩

/-- How far the loops of the check go. -/
def fsckBound (s : State) (log : List RecoveryOutboxRecord) : ℕ :=
  log.length + (s.prefixRows RECOVERY_OUTBOX.id []).length + (s.prefixRows COMMAND_DEDUPE.id []).length

section

variable (h : Inv shard s log) (hlt : log.length + 1 < 2 ^ 64) (hfuel : fsckBound s log < fuel)
include h hlt hfuel

/-- On a state with a log the verification returns the tail. -/
lemma Inv.verifyRecoveryChain_runAt :
    (verifyRecoveryChain shard fuel).runAt s = .ok (tailAfter shard log) := by
  unfold fsckBound at hfuel
  unfold verifyRecoveryChain
  rw [withStableRecoveryScan_runAt h.system.recoveryState_runAt]
  exact h.verifyAtState_runAt hlt (by omega)

/-- On a state with a log the check passes and counts the log. -/
lemma Inv.fsckRecovery_runAt :
    ∃ report, (fsckRecovery shard fuel).runAt s = .ok report ∧ report.Reports shard log := by
  unfold fsckBound at hfuel
  have htail : (tailAfter shard log).appliedRecoveryLsn.toNat = log.length := h.lsn_eq
  have hdedupe := h.log.length_dedupeRows
  have hcommands : log.countP RecoveryOutboxRecord.isCommand ≤ log.length := countP_le_length
  -- the pass over the outbox and the pass over the dedupe rows, each with what it counts
  obtain ⟨counts, houtbox, hoc, hcc⟩ : ∃ counts, (fsckOutbox (tailAfter shard log) fuel fuel 0
      ⟨0, 0⟩).runAt s = .ok counts ∧ counts.Counts log :=
    h.fsckOutbox_runAt (by omega) (nil_append log).symm (by omega) rfl ⟨rfl, rfl⟩
  obtain ⟨count, hcount, hrows⟩ := h.log.fsckDedupeRows_runAt 0
    (fun r hr => (mem_prefixRows.1 hr).1)
    (show 0 + (s.prefixRows COMMAND_DEDUPE.id []).length < _ by omega)
  have hcountNat : count.toNat = log.countP RecoveryOutboxRecord.isCommand := by
    rw [hcount, ← hdedupe]
    exact Nat.zero_add _
  have hwalk : (walkPages "CommandDedupe" (fun count key value => Walk.next <$> fsckDedupeRow count key value)
      COMMAND_DEDUPE.id [] (fun _ => MAX_HISTORICAL_SCAN_PAGE_ROWS) "fsck CommandDedupe" fuel none 0).runAt s =
      (Walk.next <$> (s.prefixRows COMMAND_DEDUPE.id []).foldlM
        (fun count r => (fsckDedupeRow count r.1 r.2).runAt s) 0).mapError .err :=
    walkRows_runAt h.bounded fsckDedupeRow (by decide) (by decide) (Nat.zero_le _) 0 (by omega)
  -- the counts of the passes agree with the log, so the last check finds nothing
  refine ⟨⟨tailAfter shard log, counts.outboxRecords, counts.metadataCommandRecords, count⟩, ?_,
    rfl, hoc, hcc, hcountNat⟩
  unfold fsckRecovery
  rw [withStableRecoveryScan_runAt h.system.recoveryState_runAt]
  show (fsckRecoveryAtStateUnlocked shard fuel (tailAfter shard log)).runAt s = _
  unfold fsckRecoveryAtStateUnlocked
  rw [runAt_bind, h.verifyAtState_runAt hlt (by omega), ok_bind, runAt_bind, houtbox, ok_bind,
    runAt_bind, hwalk, hrows]
  show (liftM _ : Loop RecoveryFsckReport).runAt s = _
  unfold checkFsckCounts
  have hlsn : counts.outboxRecords = (tailAfter shard log).appliedRecoveryLsn :=
    UInt64.toNat_inj.1 (hoc.trans htail.symm)
  have hsame : counts.metadataCommandRecords = count := UInt64.toNat_inj.1 (hcc.trans hcountNat.symm)
  rw [refuseIf_of_not]
  · rfl
  · simp [hlsn, hsame, Walk.acc]

end

/-- Behind the last position of a machine word both stop with an overflow. -/
lemma Inv.recovery_overflow (h : Inv shard s log) (hlast : log.length + 1 = 2 ^ 64)
    (hfuel : fsckBound s log < fuel) :
    (verifyRecoveryChain shard fuel).runAt s = .error (.err .versionOverflow) ∧
      (fsckRecovery shard fuel).runAt s = .error (.err .versionOverflow) := by
  unfold fsckBound at hfuel
  have hverify := h.verifyAtState_overflow hlast (show _ < fuel by omega)
  constructor
  · unfold verifyRecoveryChain
    rw [withStableRecoveryScan_runAt h.system.recoveryState_runAt]
    exact hverify
  · unfold fsckRecovery
    rw [withStableRecoveryScan_runAt h.system.recoveryState_runAt]
    show (fsckRecoveryAtStateUnlocked shard fuel (tailAfter shard log)).runAt s = _
    unfold fsckRecoveryAtStateUnlocked
    rw [runAt_bind, hverify]
    rfl

end Fsck

end NoKV.Meta
