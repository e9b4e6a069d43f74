import Mathlib.Data.Finset.Basic
import Mathlib.Data.Finset.Lattice.Lemmas
import Mathlib.Data.List.Sort
import NoKV.Meta.Engine.Paging
import NoKV.Meta.Engine.RecordAt

/-!
# Verification of the recovery chain

The shard walks its whole outbox: every header must name the next position and continue the digest
of the record before it, every chunk row must be declared by a header, and the last record must be
the durable tail.

* `outboxRows_eq`: the outbox of a log, in key order: the headers by position, then the chunks;
* `verifyRecoveryChain_runAt`: on every state with a log the verification returns the tail, unless
  the log has reached the last position of a machine word.
-/

namespace NoKV.Meta

open Lib Store State List
open Prog hiding bind pure get

/-! ### The programs -/

section Programs

variable [Pager]

/-- A recovery scan counts when the tail is the same before and behind it. -/
def stableRecoveryScan {α : Type} (scan : RecoveryState → Loop α) : ℕ → Loop α
  | 0 => throw (.err (.readStabilityExhausted MAX_RECOVERY_SCAN_ATTEMPTS))
  | attempts + 1 => do
    let before ← liftM recoveryStateUnlocked
    let result ← (scan before).attempt
    let after ← (liftM recoveryStateUnlocked : Loop RecoveryState)
    if before = after then liftM result else stableRecoveryScan scan attempts

def withStableRecoveryScan {α : Type} (scan : RecoveryState → Loop α) : Loop α :=
  stableRecoveryScan scan MAX_RECOVERY_SCAN_ATTEMPTS

/-- What the verification expects next, and the chunk rows that are still due. -/
structure ChainScan where
  expectedLsn : UInt64
  previousChainDigest : Digest
  expectedChunkKeys : Finset Bytes

variable [Sha256]

def verifyHeaderRow (scan : ChainScan) (key value : Bytes) : Shard ChainScan := do
  let decoded ← liftM (corruptRecovery "RecoveryOutbox key" (decodeRecoveryOutboxKey key))
  let chunkCount ← liftM
    (corruptRecovery "RecoveryOutbox storage header" (recoveryStorageChunkCount value))
  let chunkKeys := (List.range chunkCount).map
    (recoveryChunkKeyForLayout decoded.layout decoded.recoveryLsn)
  let row ← readRecoveryRecord decoded value
  refuseIf (decoded.recoveryLsn ≠ scan.expectedLsn ∨ row.recoveryLsn ≠ scan.expectedLsn)
    (MetaError.corruptRecord "RecoveryOutbox" (s!"expected contiguous LSN {scan.expectedLsn}, found " ++
      s!"key {decoded.recoveryLsn} row {row.recoveryLsn}"))
  refuseIf (row.previousChainDigest ≠ scan.previousChainDigest)
    (MetaError.corruptRecord "RecoveryOutbox"
      s!"LSN {scan.expectedLsn} does not link to its predecessor")
  let expectedLsn ← okOr (checkedAdd scan.expectedLsn 1) MetaError.versionOverflow
  return ⟨expectedLsn, row.chainDigest, scan.expectedChunkKeys ∪ chunkKeys.toFinset⟩

def verifyChunkRow (scan : ChainScan) (key : Bytes) : Shard ChainScan := do
  refuseIf (key ∉ scan.expectedChunkKeys)
    (MetaError.corruptRecord "RecoveryOutbox chunk" "orphaned or malformed chunk key")
  return { scan with expectedChunkKeys := scan.expectedChunkKeys.erase key }

def verifyOutboxRow (scan : ChainScan) (key value : Bytes) : Shard ChainScan :=
  match key with
  | [] => throw (.corruptRecord "RecoveryOutbox key" "unknown storage-key tag")
  | tag :: _ =>
    if (RecoveryKeyLayout.fromHeaderTag tag).isSome then verifyHeaderRow scan key value
    else if (RecoveryKeyLayout.fromChunkTag tag).isSome then verifyChunkRow scan key
    else throw (.corruptRecord "RecoveryOutbox key" "unknown storage-key tag")

/-- The end of a verification: no chunk is missing, and the tail is the last record. -/
def checkChainEnd (state : RecoveryState) (scan : ChainScan) : Except MetaError RecoveryState := do
  refuseIf (scan.expectedChunkKeys ≠ ∅)
    (MetaError.corruptRecord "RecoveryOutbox chunk" "one or more declared chunks are missing")
  let observedLsn := scan.expectedLsn - 1
  refuseIf (state.appliedRecoveryLsn ≠ observedLsn ∨ state.chainDigest ≠ scan.previousChainDigest)
    (MetaError.corruptRecord "System(recovery tail)" (s!"tail does not match outbox: System LSN " ++
      s!"{state.appliedRecoveryLsn}, scanned LSN {observedLsn}"))
  return state

def verifyRecoveryChainAtStateUnlocked (shard : LogicalShardId) (fuel : ℕ) (state : RecoveryState) :
    Loop RecoveryState := do
  let scan ← walkPages "RecoveryOutbox" (fun scan key value => Walk.next <$> verifyOutboxRow scan key value)
    RECOVERY_OUTBOX.id [] (fun _ => MAX_HISTORICAL_SCAN_PAGE_ROWS) "verify RecoveryOutbox" fuel none
    ⟨1, recoveryGenesisDigest shard, ∅⟩
  liftM ((checkChainEnd state scan.acc).mapError Halt.err)

/-- Verify every durable recovery row and the `System` tail. -/
def verifyRecoveryChain (shard : LogicalShardId) (fuel : ℕ) : Loop RecoveryState :=
  withStableRecoveryScan (verifyRecoveryChainAtStateUnlocked shard fuel)

end Programs

lemma withStableRecoveryScan_runAt [Pager] {α : Type} {s : State} {tail : RecoveryState}
    (h : recoveryStateUnlocked.runAt s = .ok tail) (scan : RecoveryState → Loop α) :
    (withStableRecoveryScan scan).runAt s = (scan tail).runAt s := by
  unfold withStableRecoveryScan MAX_RECOVERY_SCAN_ATTEMPTS
  rw [stableRecoveryScan]
  rw [runAt_bind, runAt_liftM_bounded, h]
  show ((scan tail).attempt >>= _ : Loop α).runAt s = _
  rw [runAt_bind, runAt_attempt, ok_bind, runAt_bind, runAt_liftM_bounded, h]
  show (if tail = tail then _ else _ : Loop α).runAt s = _
  rw [if_pos rfl, runAt_liftM]

/-! ### The rows of the outbox -/

section Keys

lemma recoveryOutboxKey_lt {a b : UInt64} (h : a < b) : recoveryOutboxKey a < recoveryOutboxKey b :=
  cons_lt_cons_iff.2 (.inr ⟨rfl, encodeRecoveryLsn_lt h⟩)

lemma chunkRows_sorted (lsn : UInt64) {chunks : List Bytes} {index : ℕ}
    (h : index + chunks.length ≤ 2 ^ 32) :
    (chunkRows lsn chunks index).Pairwise fun a b => a.1 < b.1 := by
  induction chunks generalizing index with
  | nil => exact .nil
  | cons _ _ ih =>
    rw [length_cons] at h
    refine List.Pairwise.cons ?_ (ih (by omega))
    rintro ⟨_, _⟩ hr
    obtain ⟨i, hi, rfl⟩ := mem_chunkRows.1 hr
    have hlt := (List.getElem?_eq_some_iff.1 hi).1
    exact cons_lt_cons_iff.2 (.inr ⟨rfl, List.Lex.append_left _ (be_lt_be (by omega) (by omega)) _⟩)

lemma map_fst_chunkRows (lsn : UInt64) (chunks : List Bytes) (index : ℕ) :
    (chunkRows lsn chunks index).map Prod.fst =
      (List.range' index chunks.length).map (recoveryChunkKey lsn) := by
  induction chunks generalizing index with
  | nil => rfl
  | cons _ _ ih =>
    rw [chunkRows, map_cons, ih, length_cons, range'_succ, map_cons]

lemma eq_of_sorted_of_mem {xs ys : List (Bytes × Bytes)} (hx : xs.Pairwise fun a b => a.1 < b.1)
    (hy : ys.Pairwise fun a b => a.1 < b.1) (h : ∀ key value, (key, value) ∈ xs ↔ (key, value) ∈ ys) :
    xs = ys := by
  have hanti : Std.Antisymm fun a b : Bytes × Bytes => a.1 < b.1 :=
    ⟨fun a b hab hba => absurd (hab.trans hba) (lt_irrefl _)⟩
  have hirrefl : Std.Irrefl fun a b : Bytes × Bytes => a.1 < b.1 := ⟨fun a => lt_irrefl _⟩
  exact hx.eq_of_mem_iff hy fun r => h r.1 r.2

end Keys

section Outbox

variable [Sha256] {shard : LogicalShardId} {s : State} {log : List RecoveryOutboxRecord}

/-- The header and the chunks a record is stored as. -/
def storageOf (row : RecoveryOutboxRecord) : Bytes × List Bytes :=
  ((row.encode >>= splitRecoveryStorage).toOption).getD ([], [])

def headerRows (log : List RecoveryOutboxRecord) : List (Bytes × Bytes) :=
  log.map fun row => (recoveryOutboxKey row.recoveryLsn, (storageOf row).1)

def allChunkRows (log : List RecoveryOutboxRecord) : List (Bytes × Bytes) :=
  log.flatMap fun row => chunkRows row.recoveryLsn (storageOf row).2 0

variable {row : RecoveryOutboxRecord} {key value : Bytes}

lemma StoredAs.storageOf_eq {header : Bytes} {chunks : List Bytes} (h : StoredAs row header chunks) :
    storageOf row = (header, chunks) := by
  obtain ⟨_, hencode, hsplit⟩ := h.stored
  unfold storageOf
  rw [hencode, ok_bind, hsplit]
  rfl

lemma LogInv.storedAs (h : LogInv shard s log) (hrow : row ∈ log) :
    StoredAs row (storageOf row).1 (storageOf row).2 ∧
      ((storageOf row).2.map List.length).sum ≤ storeLimits.maxTransactionBytes := by
  obtain ⟨_, _, hstored, hfits⟩ := h.stored row hrow
  rw [hstored.storageOf_eq]
  exact ⟨hstored, hfits⟩

lemma LogInv.lsn_sorted (h : LogInv shard s log) :
    log.Pairwise fun a b => a.recoveryLsn < b.recoveryLsn :=
  h.chain.pairwise.imp fun hab => UInt64.lt_iff_toNat_lt.2 hab

lemma mem_headerRows :
    (key, value) ∈ headerRows log ↔
    ∃ row ∈ log, key = recoveryOutboxKey row.recoveryLsn ∧ value = (storageOf row).1 := by
  unfold headerRows
  simp only [mem_map, Prod.mk.injEq]
  constructor
  · rintro ⟨row, hrow, rfl, rfl⟩
    exact ⟨row, hrow, rfl, rfl⟩
  · rintro ⟨row, hrow, rfl, rfl⟩
    exact ⟨row, hrow, rfl, rfl⟩

lemma mem_allChunkRows :
    (key, value) ∈ allChunkRows log ↔
    ∃ row ∈ log, ∃ i, (storageOf row).2[i]? = some value ∧ key = recoveryChunkKey row.recoveryLsn i := by
  unfold allChunkRows
  simp only [mem_flatMap, mem_chunkRows, Nat.zero_add]

variable (h : LogInv shard s log)
include h

lemma LogInv.headerRows_sorted : (headerRows log).Pairwise fun a b => a.1 < b.1 :=
  pairwise_map.2 (h.lsn_sorted.imp recoveryOutboxKey_lt)

lemma LogInv.chunk_lt (hrow : row ∈ log) : (storageOf row).2.length < 2 ^ 32 := by
  obtain ⟨_, -, hsplit⟩ := (h.storedAs hrow).1.stored
  exact (length_le_of_split hsplit).2

lemma LogInv.allChunkRows_sorted : (allChunkRows log).Pairwise fun a b => a.1 < b.1 := by
  refine pairwise_flatMap.2 ⟨fun row hrow => ?_, h.lsn_sorted.imp fun hlt => ?_⟩
  · exact chunkRows_sorted _ (by have := h.chunk_lt hrow; omega)
  · rintro ⟨_, _⟩ hr ⟨_, _⟩ hr'
    obtain ⟨i, -, rfl⟩ := mem_chunkRows.1 hr
    obtain ⟨j, -, rfl⟩ := mem_chunkRows.1 hr'
    exact cons_lt_cons_iff.2 (.inr ⟨rfl, append_lt_append _ _
      (by rw [encodeRecoveryLsn_length, encodeRecoveryLsn_length]) (encodeRecoveryLsn_lt hlt)⟩)

/-- A row of the outbox is a header or a chunk of the log. -/
lemma LogInv.get_outbox : s.get ⟨RECOVERY_OUTBOX.id, key⟩ = some value ↔
      (key, value) ∈ headerRows log ++ allChunkRows log := by
  rw [h.outbox, mem_append, mem_headerRows, mem_allChunkRows]
  constructor
  · rintro ⟨row, hrow, _, _, hstored, hmem⟩
    have hstorage := hstored.storageOf_eq
    rcases mem_cons.1 hmem with heq | hmem
    · obtain ⟨rfl, rfl⟩ := Prod.mk.inj heq
      exact .inl ⟨row, hrow, rfl, by rw [hstorage]⟩
    · obtain ⟨i, hi, rfl⟩ := mem_chunkRows.1 hmem
      exact .inr ⟨row, hrow, i, by rw [hstorage]; exact hi, by rw [Nat.zero_add]⟩
  · rintro (⟨row, hrow, rfl, rfl⟩ | ⟨row, hrow, i, hi, rfl⟩)
    · exact ⟨row, hrow, _, _, (h.storedAs hrow).1, mem_cons_self ..⟩
    · exact ⟨row, hrow, _, _, (h.storedAs hrow).1,
        mem_cons_of_mem _ (mem_chunkRows.2 ⟨i, hi, by rw [Nat.zero_add]⟩)⟩

/-- The outbox of a log in key order. -/
lemma LogInv.outboxRows_eq : s.prefixRows RECOVERY_OUTBOX.id [] = headerRows log ++ allChunkRows log := by
  refine eq_of_sorted_of_mem (prefixRows_sorted _ _) (pairwise_append.2
    ⟨h.headerRows_sorted, h.allChunkRows_sorted, ?_⟩) fun key value => ?_
  · rintro ⟨_, _⟩ hr ⟨_, _⟩ hr'
    obtain ⟨_, -, rfl, -⟩ := mem_headerRows.1 hr
    obtain ⟨_, -, i, -, rfl⟩ := mem_allChunkRows.1 hr'
    exact cons_lt_cons_iff.2 (.inl (by decide))
  · rw [mem_prefixRows, h.get_outbox]
    exact and_iff_left nil_prefix

end Outbox

/-! ### The verification -/

section Chain

variable [Sha256] {shard : LogicalShardId} {s : State} {log : List RecoveryOutboxRecord}
  {row : RecoveryOutboxRecord}

/-- The chunk keys a log declares. -/
def chunkKeys (log : List RecoveryOutboxRecord) : Finset Bytes :=
  ((allChunkRows log).map Prod.fst).toFinset

lemma chunkKeys_cons (row : RecoveryOutboxRecord) (rest : List RecoveryOutboxRecord) :
    chunkKeys (row :: rest) =
      ((List.range (storageOf row).2.length).map (recoveryChunkKey row.recoveryLsn)).toFinset ∪
        chunkKeys rest := by
  unfold chunkKeys allChunkRows
  rw [flatMap_cons, map_append, toFinset_append, map_fst_chunkRows,
    range_eq_range']

variable [Pager] {fuel : ℕ}

lemma verifyChunks_runAt (scan : ChainScan) {rows : List (Bytes × Bytes)}
    (hrows : ∀ r ∈ rows, ∃ lsn i, r.1 = recoveryChunkKey lsn i) (hnodup : (rows.map Prod.fst).Nodup)
    (hkeys : scan.expectedChunkKeys = (rows.map Prod.fst).toFinset) :
    rows.foldlM (fun scan r => (verifyOutboxRow scan r.1 r.2).runAt s) scan =
      .ok { scan with expectedChunkKeys := ∅ } := by
  induction rows generalizing scan with
  | nil =>
    rw [map_nil, toFinset_nil] at hkeys
    rw [← hkeys]
    rfl
  | cons r _ ih =>
    obtain ⟨lsn, i, hkey⟩ := hrows r (mem_cons_self ..)
    rw [map_cons, nodup_cons] at hnodup
    rw [map_cons, toFinset_cons] at hkeys
    have hstep : (verifyOutboxRow scan r.1 r.2).runAt s =
        .ok { scan with expectedChunkKeys := scan.expectedChunkKeys.erase r.1 } := by
      rw [hkey]
      show (verifyChunkRow scan (recoveryChunkKey lsn i)).runAt s = _
      unfold verifyChunkRow
      rw [runAt_bind, runAt_refuseIf, refuseIf_of_not]
      · rfl
      · rw [← hkey, hkeys]
        simp
    rw [foldlM_cons, hstep, ok_bind]
    refine ih { scan with expectedChunkKeys := scan.expectedChunkKeys.erase r.1 }
      (fun r hr => hrows r (mem_cons_of_mem _ hr)) hnodup.2 ?_
    rw [hkeys, Finset.erase_insert (by simpa using hnodup.1)]

section

variable (h : LogInv shard s log)
include h

lemma LogInv.readRecoveryRecord_runAt (hrow : row ∈ log) :
    (readRecoveryRecord ⟨row.recoveryLsn, .format9⟩ (storageOf row).1).runAt s = .ok row :=
  Meta.readRecoveryRecord_runAt (h.storedAs hrow).1 (h.storedAs hrow).2 fun i chunk hi => by
    rw [Nat.zero_add]
    exact h.get_chunk hrow (h.storedAs hrow).1 hi

omit [Pager] in
lemma LogInv.storage_counts (hrow : row ∈ log) :
    ∃ logical, row.encode = .ok logical ∧ logical.length ≤ storeLimits.maxTransactionBytes ∧
      recoveryStorageChunkCount (storageOf row).1 = .ok (storageOf row).2.length ∧
      recoveryStorageLogicalLength (storageOf row).1 = .ok logical.length := by
  obtain ⟨hstored, hfits⟩ := h.storedAs hrow
  obtain ⟨logical, hencode, hsplit⟩ := hstored.stored
  have hlength := (length_le_of_split hsplit).1.trans hfits
  obtain ⟨-, hcount, hlogical⟩ := assemble_split hsplit (encode_length_pos hencode)
    (hlength.trans (by decide))
  exact ⟨logical, hencode, hlength, hcount, hlogical⟩

/-- A header at the expected position passes, if there is a next position. -/
lemma LogInv.verifyHeaderRow_runAt (scan : ChainScan) (hrow : row ∈ log)
    (hlsn : row.recoveryLsn = scan.expectedLsn) (hprev : row.previousChainDigest = scan.previousChainDigest) :
    (verifyOutboxRow scan (recoveryOutboxKey row.recoveryLsn) (storageOf row).1).runAt s =
      (okOr (checkedAdd row.recoveryLsn 1) MetaError.versionOverflow >>= fun expectedLsn =>
        .ok ⟨expectedLsn, row.chainDigest, scan.expectedChunkKeys ∪
          ((List.range (storageOf row).2.length).map (recoveryChunkKey row.recoveryLsn)).toFinset⟩) := by
  obtain ⟨_, -, -, hcount, -⟩ := h.storage_counts hrow
  have hdecode := decodeRecoveryOutboxKey_recoveryOutboxKey (h.lsn_ne hrow)
  show (verifyHeaderRow scan (recoveryOutboxKey row.recoveryLsn) (storageOf row).1).runAt s = _
  unfold verifyHeaderRow corruptRecovery
  rw [runAt_bind, runAt_liftM, hdecode]
  show (liftM _ >>= _ : Shard ChainScan).runAt s = _
  rw [runAt_bind, runAt_liftM, hcount]
  show (readRecoveryRecord _ _ >>= _ : Shard ChainScan).runAt s = _
  rw [runAt_bind, h.readRecoveryRecord_runAt hrow, ok_bind, runAt_bind, runAt_refuseIf,
    refuseIf_of_not (by simp [hlsn]), ok_bind, runAt_bind, runAt_refuseIf,
    refuseIf_of_not (by simp [hprev]), ok_bind, runAt_bind, runAt_okOr, hlsn]
  rfl

/-- The headers of consecutive records pass in order, while there is a next position. -/
lemma LogInv.verifyHeaders_runAt (scan : ChainScan) {rest : List RecoveryOutboxRecord}
    (hrest : ∀ row ∈ rest, row ∈ log) {n : ℕ} (hchain : recordLink.ChainFrom n scan.previousChainDigest rest)
    (hlsn : scan.expectedLsn.toNat = n + 1) (hlt : n + rest.length + 1 < 2 ^ 64) :
    ∃ lsn : UInt64, lsn.toNat = n + rest.length + 1 ∧
      (headerRows rest).foldlM (fun scan r => (verifyOutboxRow scan r.1 r.2).runAt s) scan =
        .ok ⟨lsn, recordLink.tail scan.previousChainDigest rest, scan.expectedChunkKeys ∪ chunkKeys rest⟩ := by
  induction rest generalizing scan n with
  | nil =>
    refine ⟨scan.expectedLsn, hlsn, ?_⟩
    unfold chunkKeys allChunkRows
    rw [flatMap_nil, map_nil, toFinset_nil, Finset.union_empty]
    rfl
  | cons row rest ih =>
    obtain ⟨hpos, hprev, hchain⟩ := hchain
    rw [length_cons] at hlt
    have hrow := hrest row (mem_cons_self ..)
    have heq : row.recoveryLsn = scan.expectedLsn := UInt64.toNat_inj.1 (hpos.trans hlsn.symm)
    obtain ⟨next, hnext⟩ : ∃ next, checkedAdd row.recoveryLsn 1 = some next := by
      refine ⟨UInt64.ofNat (n + 2), checkedAdd_eq_some.2 ?_⟩
      rw [UInt64.toNat_ofNat', Nat.mod_eq_of_lt (by omega), heq, hlsn]
    have hnextLsn : next.toNat = n + 1 + 1 := by
      rw [checkedAdd_eq_some.1 hnext, heq, hlsn]
    obtain ⟨lsn, hvalue, hfold⟩ := ih ⟨next, row.chainDigest, scan.expectedChunkKeys ∪
      ((List.range (storageOf row).2.length).map (recoveryChunkKey row.recoveryLsn)).toFinset⟩
      (fun r hr => hrest r (mem_cons_of_mem _ hr)) hchain hnextLsn (by omega)
    refine ⟨lsn, by rw [hvalue, length_cons]; omega, ?_⟩
    show (_ :: headerRows rest).foldlM _ scan = _
    rw [foldlM_cons, h.verifyHeaderRow_runAt scan hrow heq hprev, hnext, okOr_eq_ok.2 rfl, ok_bind,
      ok_bind, hfold, chunkKeys_cons, Finset.union_assoc]
    rfl

omit [Pager] in
lemma LogInv.allChunkRows_nodup : ((allChunkRows log).map Prod.fst).Nodup :=
  (pairwise_map.2 h.allChunkRows_sorted).imp ne_of_lt

end

/-- The walk over an outbox whose last position has a successor. -/
lemma Inv.verifyRows (h : Inv shard s log) (hlt : log.length + 1 < 2 ^ 64) :
    ∃ lsn : UInt64, lsn.toNat = log.length + 1 ∧
      (s.prefixRows RECOVERY_OUTBOX.id []).foldlM (fun scan r => (verifyOutboxRow scan r.1 r.2).runAt s)
        ⟨1, recoveryGenesisDigest shard, ∅⟩ =
        .ok ⟨lsn, recordLink.tail (recoveryGenesisDigest shard) log, ∅⟩ := by
  obtain ⟨lsn, _, hheaders⟩ := h.log.verifyHeaders_runAt
    ⟨1, recoveryGenesisDigest shard, ∅⟩ (fun _ hr => hr) h.log.chain rfl (by omega)
  refine ⟨lsn, by omega, ?_⟩
  rw [h.log.outboxRows_eq, foldlM_append, hheaders, ok_bind]
  refine verifyChunks_runAt _ (fun r hr => ?_) h.log.allChunkRows_nodup (Finset.empty_union _)
  obtain ⟨row, -, i, -, hkey⟩ := mem_allChunkRows.1 hr
  exact ⟨row.recoveryLsn, i, hkey⟩

/-- The walk over an outbox whose last position has no successor. -/
lemma Inv.verifyRows_overflow (h : Inv shard s log) (hlast : log.length + 1 = 2 ^ 64) :
    (s.prefixRows RECOVERY_OUTBOX.id []).foldlM (fun scan r => (verifyOutboxRow scan r.1 r.2).runAt s)
        ⟨1, recoveryGenesisDigest shard, ∅⟩ = .error MetaError.versionOverflow := by
  have hne : log ≠ [] := by
    rintro rfl
    rw [length_nil] at hlast
    omega
  obtain ⟨log', row, rfl⟩ := eq_nil_or_concat' log |>.resolve_left hne
  have hchain := Link.chainFrom_concat.1 h.log.chain
  rw [length_append, length_singleton] at hlast
  obtain ⟨lsn, hlsn, hheaders⟩ := h.log.verifyHeaders_runAt
    ⟨1, recoveryGenesisDigest shard, ∅⟩ (fun _ hr => mem_append_left _ hr) hchain.1 rfl
    (by omega)
  have heq : row.recoveryLsn = lsn := UInt64.toNat_inj.1 (hchain.2.1.trans hlsn.symm)
  have hnone : checkedAdd row.recoveryLsn 1 = none := by
    refine Option.eq_none_iff_forall_ne_some.2 fun next hnext => ?_
    have := checkedAdd_eq_some.1 hnext
    have := next.toNat_lt
    rw [heq, hlsn] at *
    omega
  have hrow : headerRows [row] = [(recoveryOutboxKey row.recoveryLsn, (storageOf row).1)] := rfl
  have hsplit : headerRows (log' ++ [row]) = headerRows log' ++ headerRows [row] := map_append
  have hstep : (verifyOutboxRow ⟨lsn, recordLink.tail (recoveryGenesisDigest shard) log',
      ∅ ∪ chunkKeys log'⟩ (recoveryOutboxKey row.recoveryLsn) (storageOf row).1).runAt s =
      .error MetaError.versionOverflow := by
    refine (h.log.verifyHeaderRow_runAt ⟨_, _, _⟩ (mem_append_right _ (mem_singleton_self _)) heq
      hchain.2.2).trans ?_
    rw [hnone]
    rfl
  rw [h.log.outboxRows_eq, foldlM_append, hsplit, foldlM_append, hheaders, ok_bind, hrow,
    foldlM_cons, hstep]
  rfl

lemma verifyRecoveryChainAtStateUnlocked_runAt (hbounded : Bounded s) (state : RecoveryState)
    (hfuel : (s.prefixRows RECOVERY_OUTBOX.id []).length < fuel) :
    (verifyRecoveryChainAtStateUnlocked shard fuel state).runAt s =
      ((s.prefixRows RECOVERY_OUTBOX.id []).foldlM
        (fun scan r => (verifyOutboxRow scan r.1 r.2).runAt s) ⟨1, recoveryGenesisDigest shard, ∅⟩ >>=
        checkChainEnd state).mapError .err := by
  unfold verifyRecoveryChainAtStateUnlocked
  rw [runAt_bind, walkRows_runAt hbounded verifyOutboxRow (by decide) (by decide) (Nat.zero_le _) _ hfuel]
  cases List.foldlM (fun scan r => (verifyOutboxRow scan r.1 r.2).runAt s)
      (⟨1, recoveryGenesisDigest shard, ∅⟩ : ChainScan) (s.prefixRows RECOVERY_OUTBOX.id []) with
  | error e => rfl
  | ok scan =>
    show (liftM _ : Loop RecoveryState).runAt s = _
    rw [runAt_liftM]
    rfl

/-- On a state with a log the verification finds the tail. -/
lemma Inv.verifyAtState_runAt (h : Inv shard s log) (hlt : log.length + 1 < 2 ^ 64)
    (hfuel : (s.prefixRows RECOVERY_OUTBOX.id []).length < fuel) :
    (verifyRecoveryChainAtStateUnlocked shard fuel (tailAfter shard log)).runAt s =
      .ok (tailAfter shard log) := by
  obtain ⟨lsn, hlsn, hrows⟩ := h.verifyRows hlt
  have hdigest : (tailAfter shard log).chainDigest = recordLink.tail (recoveryGenesisDigest shard) log :=
    systemAfter_digest shard log
  have hone : (1 : UInt64) ≤ lsn := by
    rw [UInt64.le_iff_toNat_le, hlsn]
    exact Nat.succ_le_succ (Nat.zero_le _)
  have hobserved : (tailAfter shard log).appliedRecoveryLsn = lsn - 1 := by
    refine UInt64.toNat_inj.1 ?_
    rw [UInt64.toNat_sub_of_le _ _ hone, hlsn]
    exact h.lsn_eq
  rw [verifyRecoveryChainAtStateUnlocked_runAt h.bounded _ hfuel, hrows, ok_bind]
  unfold checkChainEnd
  rw [refuseIf_of_not (by simp), ok_bind]
  dsimp only
  rw [refuseIf_of_not (by simp [hdigest, hobserved])]
  rfl

lemma Inv.verifyAtState_overflow (h : Inv shard s log) (hlast : log.length + 1 = 2 ^ 64)
    (hfuel : (s.prefixRows RECOVERY_OUTBOX.id []).length < fuel) :
    (verifyRecoveryChainAtStateUnlocked shard fuel (tailAfter shard log)).runAt s =
      .error (.err .versionOverflow) := by
  rw [verifyRecoveryChainAtStateUnlocked_runAt h.bounded _ hfuel, h.verifyRows_overflow hlast]
  rfl

end Chain

end NoKV.Meta
