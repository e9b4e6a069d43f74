import NoKV.Meta.Engine.RootReads

/-!
# The rows of one root

Every physical key outside the system records and the outbox names one root (`rootOf`). A session
writes rows of its own root only (`Plans.rootOf_mutation`), so the rows of a root are left alone by the
sessions of every other root (`serve_get_of_foreign`). `SameRoot` relates two stores that hold the same
rows of a root, up to the log positions in its replay records.
-/

namespace NoKV.Meta

open Lib Store State List

/-! ### The root of a key -/

/-- The root id that bytes start with. -/
def leadingRoot (bytes : Bytes) : Option RootId :=
  if h : (bytes.take 16).length = 16 then some ⟨bytes.take 16, h⟩ else none

def rootOf (key : Key) : Option RootId :=
  if key.keyspace = SYSTEM.id ∨ key.keyspace = RECOVERY_OUTBOX.id then none
  else if key.keyspace = HISTORY.id then leadingRoot (key.bytes.drop 5)
  else leadingRoot key.bytes

variable {r : RootId}

lemma leadingRoot_eq_some {bytes : Bytes} : leadingRoot bytes = some r ↔ r.bytes <+: bytes := by
  unfold leadingRoot
  rw [prefix_iff_eq_take, r.length_bytes]
  constructor
  · intro h
    split at h
    · cases h
      rfl
    · cases h
  · intro h
    have hlength : (bytes.take 16).length = 16 := by rw [← h, r.length_bytes]
    rw [dif_pos hlength]
    exact congrArg some (FixedBytes.ext_bytes h.symm)

@[simp] lemma rootOf_system (key : Bytes) : rootOf (systemKey key) = none := if_pos (.inl rfl)

@[simp] lemma rootOf_outbox (key : Bytes) : rootOf ⟨RECOVERY_OUTBOX.id, key⟩ = none := if_pos (.inr rfl)

@[simp] lemma rootOf_history (key : Bytes) : rootOf ⟨HISTORY.id, key⟩ = leadingRoot (key.drop 5) := rfl

@[simp] lemma rootOf_family (f : MetadataFamily) (key : Bytes) :
    rootOf ⟨f.keyspace, key⟩ = leadingRoot key := by
  have hsystem : f.keyspace ≠ SYSTEM.id := f.keyspace_ne SYSTEM (by decide)
  have houtbox : f.keyspace ≠ RECOVERY_OUTBOX.id := f.keyspace_ne RECOVERY_OUTBOX (by decide)
  have hhistory : f.keyspace ≠ HISTORY.id := f.keyspace_ne HISTORY (by decide)
  simp [rootOf, hsystem, houtbox, hhistory]

lemma drop_historyPrefix (f : MetadataFamily) (k rest : Bytes) :
    (historyPrefix f k ++ rest).drop 5 = k ++ rest := by
  have hlength : ([f.formatTag] ++ be 4 k.length).length = 5 := by simp
  unfold historyPrefix
  simp only [flatten_cons, flatten_nil, append_nil]
  rw [← append_assoc, append_assoc, drop_append_of_le_length hlength.ge,
    drop_of_length_le hlength.le, nil_append]

lemma leadingRoot_append {bytes : Bytes} (h : leadingRoot bytes = some r) (rest : Bytes) :
    leadingRoot (bytes ++ rest) = some r :=
  leadingRoot_eq_some.2 ((leadingRoot_eq_some.1 h).trans (prefix_append _ _))

lemma rootOf_historyKey {f : MetadataFamily} {k : Bytes} {version : CommitVersion}
    (h : leadingRoot k = some r) : rootOf ⟨HISTORY.id, historyKey f k version⟩ = some r := by
  rw [rootOf_history, historyKey, drop_historyPrefix]
  exact leadingRoot_append h _

lemma leadingRoot_self (r : RootId) (rest : Bytes) : leadingRoot (r.bytes ++ rest) = some r :=
  leadingRoot_eq_some.2 (prefix_append _ _)

/-! ### The rows that a session writes -/

def Call.root : Call → Option RootId
  | execute command _ => some command.rootId
  | observeLeaseClock rootId _ _ _ => some rootId
  | advanceOwnerEpoch _ _ => none

/-- The row is one of the shard or one of the root. -/
def RootOrShard (r : Option RootId) (key : Key) : Prop := rootOf key = none ∨ rootOf key = r

lemma rootOrShard_enqueueRecovery {r : Option RootId} {base : WriteTxn} {plan : RecoveryPlan}
    (h : ∀ m ∈ base.mutations, RootOrShard r m.key) :
    ∀ m ∈ (enqueueRecovery base plan).mutations, RootOrShard r m.key := by
  intro m hm
  rcases mem_append.1 hm with hm | hm
  · rcases mem_append.1 hm with hm | hm
    · exact h m hm
    · rcases mem_pair.1 hm with rfl | rfl
      · exact .inl (rootOf_system _)
      · exact .inl (rootOf_system _)
  · obtain ⟨_, -, rfl⟩ := mem_map.1 hm
    exact .inl (rootOf_outbox _)

section Foreign

variable {shard : LogicalShardId} {s : State} {txn : WriteTxn}

lemma mem_eventRows {root : RootId} {version : CommitVersion} {projections : List EventProjection}
    {sequence : ℕ} {rows : List (Bytes × Bytes)} (h : eventRows root version projections sequence = .ok rows)
    {row : Bytes × Bytes} (hrow : row ∈ rows) : leadingRoot row.1 = some root := by
  induction projections generalizing sequence rows with
  | nil =>
    cases Except.ok.inj h
    cases hrow
  | cons _ _ ih =>
    obtain ⟨_, -, h⟩ := bind_eq_ok.1 h
    obtain ⟨_, hrest, rfl⟩ := bind_pure_eq_ok h
    rcases mem_cons.1 hrow with rfl | hrow
    · exact leadingRoot_self root _
    · exact ih hrest hrow

variable [Pager] [Sha256]

/-- A command writes rows of its root and of the shard. -/
lemma rootOf_command {command : MetadataCommand} {leaseDeadlineMs : Option UInt64} {state : CommandTxnState}
    (hvalid : command.Valid shard) (hplanned : state.PlannedAt s command leaseDeadlineMs)
    (hbuilt : buildCommandTxn command state = .ok txn) :
    ∀ m ∈ txn.mutations, RootOrShard (some command.rootId) m.key := by
  obtain ⟨_, history, _, mutations, _, hfrom⟩ := buildCommandTxn_eq_ok hbuilt
  have hinRoot : ∀ m ∈ command.mutations, leadingRoot m.key = some command.rootId := fun m hm =>
    leadingRoot_eq_some.2 ( isPrefixOf_iff_prefix.1 (hvalid.inRoot m hm))
  rw [hfrom.txn_eq]
  refine rootOrShard_enqueueRecovery fun m hm => ?_
  simp only [mem_append] at hm
  -- the clock, the fence, the history rows, the current rows, the events and the dedupe row
  rcases hm with ((((hm | hm) | hm) | hm) | hm) | hm
  · cases mem_singleton.1 hm
    exact .inl (rootOf_system _)
  · have hfence : m.key = ⟨ROOT_FENCE.id, command.rootId.bytes⟩ := by
      cases hplan : state.rootPlan with
      | install =>
        rw [hplan] at hm
        cases mem_singleton.1 hm
        rfl
      | assert =>
        rw [hplan] at hm
        cases hm
      | replace =>
        rw [hplan] at hm
        cases mem_singleton.1 hm
        rfl
    rw [hfence]
    exact .inr (leadingRoot_eq_some.2 prefix_rfl)
  · obtain ⟨row, hrow, rfl⟩ := mem_map.1 hm
    obtain ⟨k, planned, _, _, -, -, hproj, -, rfl⟩ := (mem_historyRows hfrom.history_eq).1 hrow
    obtain ⟨mutation, hmem, -, -, -, -, -, heq⟩ :=
      mem_expectedHistory.1 ((mem_historyProjection hplanned.history).1 hproj)
    have hkey : planned.key = mutation.key := congrArg HistoryProjection.key heq
    exact .inr (rootOf_historyKey (hkey ▸ hinRoot mutation hmem))
  · obtain ⟨mutation, hmem, hok⟩ := exists_of_forall₂_right hfrom.mutations_eq hm
    rw [commandMutation_key hok]
    exact .inr ((rootOf_family _ _).trans (hinRoot mutation hmem))
  · obtain ⟨_, hrow, rfl⟩ := mem_map.1 hm
    exact .inr (mem_eventRows hfrom.events_eq hrow)
  · cases mem_singleton.1 hm
    exact .inr (leadingRoot_self _ _)

/-- A planned transaction writes rows of the root of its call and of the shard. -/
lemma Plans.rootOf_mutation {call : Call} {reply : Reply} (h : Plans shard s call txn reply) :
    ∀ m ∈ txn.mutations, RootOrShard call.root m.key := by
  obtain ⟨_, _, hwrote⟩ := h.wrote
  cases call with
  | execute command =>
    cases hwrote with
    | command valid _ _ planned built =>
      exact rootOf_command (validateCommand_eq_ok valid) planned built
  | observeLeaseClock =>
    cases hwrote with
    | observeLeaseClock =>
      refine rootOrShard_enqueueRecovery fun m hm => ?_
      cases mem_singleton.1 hm
      exact .inl (rootOf_system _)
  | advanceOwnerEpoch =>
    cases hwrote with
    | advanceOwnerEpoch =>
      refine rootOrShard_enqueueRecovery fun m hm => ?_
      cases mem_singleton.1 hm
      exact .inl (rootOf_system _)

/-- **A session changes no row of another root.** -/
theorem serve_get_of_foreign {request : Request} {r : RootId} (hroot : request.call.root ≠ some r) {key : Key}
    (hkey : rootOf key = some r) : (serve shard s request).2.get key = s.get key := by
  rcases serve_cases shard s request with heq | ⟨_, _, happlied, heq⟩
  · rw [heq]
  · rw [heq]
    refine get_writeAll_of_notMem fun m hm hmkey => ?_
    rw [← hmkey] at hkey
    rcases happlied.plan.rootOf_mutation m hm with hnone | hsome
    · rw [hkey] at hnone
      cases hnone
    · exact hroot (hsome.symm.trans hkey)

end Foreign

/-! ### Stores with the same rows of a root -/

/-- A replay record without its log position. -/
def CommandDedupeRecord.withoutPosition (record : CommandDedupeRecord) : CommandDedupeRecord :=
  { record with recoveryLsn := 0 }

/-- What a replay row holds, without its log position. -/
def replayContent (value : Bytes) : Except RecordCodecError CommandDedupeRecord :=
  CommandDedupeRecord.withoutPosition <$> CommandDedupeRecord.decode value

/-- The stores hold the same rows of the root, up to the log positions in its replay records. -/
structure SameRoot (r : RootId) (s t : State) : Prop where
  rows : ∀ key, rootOf key = some r → key.keyspace ≠ COMMAND_DEDUPE.id → s.get key = t.get key
  replays : ∀ key, leadingRoot key = some r →
    (s.get ⟨COMMAND_DEDUPE.id, key⟩).map replayContent = (t.get ⟨COMMAND_DEDUPE.id, key⟩).map replayContent

lemma sameRoot_equivalence (r : RootId) : Equivalence (SameRoot r) where
  refl _ := ⟨fun _ _ _ => rfl, fun _ _ => rfl⟩
  symm h := ⟨fun key hkey hne => (h.rows key hkey hne).symm, fun key hkey => (h.replays key hkey).symm⟩
  trans h h' := ⟨fun key hkey hne => (h.rows key hkey hne).trans (h'.rows key hkey hne),
    fun key hkey => (h.replays key hkey).trans (h'.replays key hkey)⟩

section SameRoot

variable {r : RootId} {s t : State}

lemma SameRoot.fence_eq (h : SameRoot r s t) :
    s.get ⟨ROOT_FENCE.id, r.bytes⟩ = t.get ⟨ROOT_FENCE.id, r.bytes⟩ :=
  h.rows ⟨ROOT_FENCE.id, r.bytes⟩ (leadingRoot_eq_some.2 prefix_rfl)
    (show ROOT_FENCE.id ≠ COMMAND_DEDUPE.id by decide)

variable {k keyPrefix : Bytes}

lemma prefixRows_congr {ks : Keyspace} (h : ∀ k, keyPrefix <+: k → s.get ⟨ks, k⟩ = t.get ⟨ks, k⟩) :
    s.prefixRows ks keyPrefix = t.prefixRows ks keyPrefix := by
  refine OrdMap.rows_ext (prefixRows_sorted _ _) (prefixRows_sorted _ _) fun k x => ?_
  rw [mem_prefixRows, mem_prefixRows]
  exact and_congr_left fun hk => by rw [h k hk]

lemma scanItems_congr_prefix {scan : Scan}
    (h : ∀ k, scan.keyPrefix <+: k → s.get ⟨scan.keyspace, k⟩ = t.get ⟨scan.keyspace, k⟩) :
    s.scanItems scan = t.scanItems scan := by
  unfold State.scanItems
  rw [prefixRows_congr h]

section

variable (h : SameRoot r s t)
include h

lemma SameRoot.current_eq (f : MetadataFamily) (hk : r.bytes <+: k) :
    s.get ⟨f.keyspace, k⟩ = t.get ⟨f.keyspace, k⟩ :=
  h.rows _ ((rootOf_family f k).trans (leadingRoot_eq_some.2 hk)) (f.keyspace_ne COMMAND_DEDUPE (by decide))

lemma SameRoot.event_eq (hk : r.bytes <+: k) : s.get ⟨CHANGE_EVENT.id, k⟩ = t.get ⟨CHANGE_EVENT.id, k⟩ :=
  h.rows ⟨CHANGE_EVENT.id, k⟩ (leadingRoot_eq_some.2 hk) (show CHANGE_EVENT.id ≠ COMMAND_DEDUPE.id by decide)

/-- A scan of current rows stays inside the root of its prefix. -/
lemma SameRoot.scanItems_family (f : MetadataFamily) (hp : r.bytes <+: keyPrefix) (after : Option Bytes)
    (n : ℕ) (delimiter : Option UInt8) : s.scanItems (fencedScan f.keyspace keyPrefix after n delimiter) =
      t.scanItems (fencedScan f.keyspace keyPrefix after n delimiter) :=
  scanItems_congr_prefix fun _ hk => h.current_eq f (hp.trans hk)

/-- A History scan of one key stays inside the root of the key. -/
lemma SameRoot.historyItems_eq (f : MetadataFamily) (hk : r.bytes <+: k) :
    historyItems f k s = historyItems f k t := by
  refine scanItems_congr_prefix fun key hkey => h.rows ⟨HISTORY.id, key⟩ ?_
    (show HISTORY.id ≠ COMMAND_DEDUPE.id by decide)
  obtain ⟨rest, rfl⟩ := hkey
  show leadingRoot ((historyPrefix f k ++ rest).drop 5) = some r
  rw [drop_historyPrefix]
  exact leadingRoot_append (leadingRoot_eq_some.2 hk) rest

/-- The root has or lacks a replay record in both stores. -/
lemma SameRoot.replay_none_iff {key : Bytes} (hkey : leadingRoot key = some r) :
    s.get ⟨COMMAND_DEDUPE.id, key⟩ = none ↔ t.get ⟨COMMAND_DEDUPE.id, key⟩ = none := by
  rw [← Option.map_eq_none_iff (f := replayContent), h.replays key hkey, Option.map_eq_none_iff]

end

/-! ### Rebuilding the rows of a version -/

/-- History rows of keys outside the prefix are passed over. -/
lemma insertHistory_outside (version : ReadVersion) (visible : OrdMap Bytes Bytes) (f : MetadataFamily)
    (raw : Bytes) (transition : CommitVersion) (hk : k.length < 2 ^ 32)
    (hout : keyPrefix.isPrefixOf k = false) :
    insertHistory keyPrefix version visible (.row (historyKey f k transition) raw) = .ok visible := by
  unfold insertHistory
  dsimp only
  rw [historyUserKey_historyKey hk, ok_bind, if_pos (.inl hout)]
  rfl

/-- The item is a History row of the root. -/
def ofRoot (r : RootId) (item : ScanItem) : Bool := decide (rootOf ⟨HISTORY.id, item.key⟩ = some r)

lemma scanItems_all (s : State) (ks : Keyspace) (keyPrefix : Bytes) (n : ℕ) :
    s.scanItems (fencedScan ks keyPrefix none n none) =
      (s.prefixRows ks keyPrefix).map fun row => .row row.1 row.2 := by
  unfold State.scanItems fencedScan
  rw [afterCursor_none, rollup_none _ (prefixRows_sorted _ _)]

/-- The History rows of the root, among those of its family. -/
lemma SameRoot.filter_history (h : SameRoot r s t) (f : MetadataFamily) (n : ℕ) :
    (s.scanItems (fencedScan HISTORY.id [f.formatTag] none n none)).filter (ofRoot r) =
      (t.scanItems (fencedScan HISTORY.id [f.formatTag] none n none)).filter (ofRoot r) := by
  rw [scanItems_all, scanItems_all, filter_map, filter_map]
  refine congrArg _ (OrdMap.rows_ext ((prefixRows_sorted _ _).filter _)
    ((prefixRows_sorted _ _).filter _) fun k x => ?_)
  rw [mem_filter, mem_filter, mem_prefixRows, mem_prefixRows]
  refine and_congr_left fun hroot => and_congr_left fun _ => ?_
  have hkey : rootOf ⟨HISTORY.id, k⟩ = some r := of_decide_eq_true hroot
  rw [h.rows ⟨HISTORY.id, k⟩ hkey (show HISTORY.id ≠ COMMAND_DEDUPE.id by decide)]

/-- Rebuilding rows under a prefix of the root looks at the History rows of the root only. -/
lemma foldlM_insertHistory_ofRoot {clock : ℕ} (hrows : RowsInv s clock) (f : MetadataFamily)
    (hp : r.bytes <+: keyPrefix) (version : ReadVersion) (n : ℕ) (visible : OrdMap Bytes Bytes) :
    (s.scanItems (fencedScan HISTORY.id [f.formatTag] none n none)).foldlM
        (insertHistory keyPrefix version) visible =
      ((s.scanItems (fencedScan HISTORY.id [f.formatTag] none n none)).filter (ofRoot r)).foldlM
        (insertHistory keyPrefix version) visible := by
  refine foldlM_filter (ofRoot r) (fun visible item hitem hout => ?_) visible
  obtain ⟨key, raw, hget, -, rfl⟩ := mem_scanItems hitem
  obtain ⟨g, k, history, hk, rfl, -, -⟩ := hrows.history key raw hget
  refine insertHistory_outside version visible g raw _ (length_lt_of_le hk) ?_
  -- a key under the prefix would be a key of the root
  refine Bool.eq_false_iff.2 fun hunder => of_decide_eq_false hout ?_
  exact rootOf_historyKey (leadingRoot_eq_some.2 (hp.trans ( isPrefixOf_iff_prefix.1 hunder)))

lemma SameRoot.rebuiltRows_eq (h : SameRoot r s t) {clock clock' : ℕ} (hs : RowsInv s clock)
    (ht : RowsInv t clock') (f : MetadataFamily) (hp : r.bytes <+: keyPrefix) (version : ReadVersion) :
    rebuiltRows f keyPrefix version s = rebuiltRows f keyPrefix version t := by
  unfold rebuiltRows visibleRows
  rw [h.scanItems_family f hp]
  refine bind_congr fun visible => ?_
  rw [foldlM_insertHistory_ofRoot hs f hp, foldlM_insertHistory_ofRoot ht f hp, h.filter_history]

end SameRoot

end NoKV.Meta
