import NoKV.Meta.Engine.ReplaySource

/-!
# A follower catches up

The outbox of a shard only grows (`outbox_append_only`). A store that holds its first records asks for
the segments behind them and replays them (`catch_up`).
-/

namespace NoKV.Meta

open Lib Store List RecoveryOutboxSegment
open Prog hiding bind pure get

section

variable [Pager] [Sha256] {shard : LogicalShardId} {s t : State} {boundary : RecoveryState} {limits : ℕ → ℕ}
  {fuel n : ℕ} {segments : List RecoveryOutboxSegment} {log : List RecoveryOutboxRecord} {requests : List Request}

/-- An exported segment is the seal of its records. -/
lemma seals_of_segmentAfter {limit : ℕ} {segment : RecoveryOutboxSegment}
    (h : (recoverySegmentAfter shard boundary limit fuel).runAt s = .ok (some segment)) :
    sealRecords shard segment.records = .ok segment := by
  simp only [recoverySegmentAfter, runAt_bind, runAt_ite, runAt_map, runAt_liftM, bind_eq_ok] at h
  obtain ⟨_, -, _, -, h⟩ := h
  split at h
  · cases h
  · obtain ⟨_, -, h⟩ := bind_eq_ok.1 h
    obtain ⟨_, hsealed, hsome⟩ := map_eq_ok.1 h
    cases hsome
    simp only [sealBehind, corruptRecovery, mapError_eq_ok, bind_eq_ok] at hsealed
    obtain ⟨_, -, _, hseal, _, -, hpure⟩ := hsealed
    cases hpure
    rwa [(sealRecords_eq_ok hseal).records_eq]

lemma seals_of_export {calls : ℕ} (h : (exportSegments shard limits fuel calls boundary).runAt s = .ok segments) :
    ∀ segment ∈ segments, sealRecords shard segment.records = .ok segment := by
  induction calls generalizing boundary segments with
  | zero => cases h
  | succ calls ih =>
    unfold exportSegments at h
    rw [runAt_bind] at h
    obtain ⟨found, hfound, h⟩ := bind_eq_ok.1 h
    cases found with
    | none =>
      cases h
      exact forall_mem_nil _
    | some segment =>
      change ((segment :: ·) <$> exportSegments shard limits fuel calls _ : Loop _).runAt s = _ at h
      rw [runAt_map] at h
      obtain ⟨_, hrest, rfl⟩ := map_eq_ok.1 h
      exact forall_mem_cons.2 ⟨seals_of_segmentAfter hfound, ih hrest⟩

omit [Pager] in
lemma delivers_segments (hseals : ∀ segment ∈ segments, sealRecords shard segment.records = .ok segment)
    (hn : n ≤ log.length) (hrecords : (segments.map records).flatten = log.drop n) :
    Delivers shard log n (segments.map .segment) log.length := by
  induction segments generalizing n with
  | nil =>
    obtain rfl := le_antisymm hn (drop_eq_nil_iff.1 hrecords.symm)
    exact .done _
  | cons segment segments ih =>
    obtain ⟨hseal, hseals⟩ := forall_mem_cons.1 hseals
    rw [map_cons, flatten_cons] at hrecords
    have hlen := congrArg length hrecords
    rw [length_append, length_drop] at hlen
    refine .segment le_rfl ⟨_, hrecords⟩ hseal ?_
    rw [Nat.max_eq_right (Nat.le_add_right ..)]
    refine ih hseals (by omega) ?_
    rw [← drop_drop, ← hrecords, drop_left]

/-- **The outbox only grows.** Later requests keep every record of a run at its position. -/
theorem outbox_append_only (shard : LogicalShardId) (requests more : List Request) : ∃ log suffix,
    Outbox (serveAll shard (initialized shard) requests) log ∧
      Outbox (serveAll shard (initialized shard) (requests ++ more)) (log ++ suffix) := by
  obtain ⟨log, htrace⟩ := trace_serveAll shard requests
  obtain ⟨suffix, hmore⟩ := htrace.serveAll more
  refine ⟨log, suffix, htrace.outbox, ?_⟩
  unfold serveAll
  rw [foldl_append]
  exact hmore.outbox

/-- **A follower catches up.** Any store that the shard went through asks for the segments behind its own
recovery state, within the limits. The calls end, and the replay ends in the store of the shard. -/
theorem catch_up (ht : Along shard requests t)
    (hlimits : ∀ n, 0 < limits n ∧ limits n ≤ MAX_RECOVERY_SEGMENT_RECORDS) :
    ∃ own size, recoveryStateUnlocked.runAt t = .ok own ∧ ∀ fuel > size, ∀ calls > size, ∃ segments,
      (exportSegments shard limits fuel calls own).runAt (serveAll shard (initialized shard) requests) =
        .ok segments ∧
      (replayAll shard (segments.map .segment)).exec t =
        (.ok (), serveAll shard (initialized shard) requests) := by
  obtain ⟨log, hsource⟩ := trace_serveAll shard requests
  obtain ⟨n, hn, hfollower⟩ := hsource.along ht
  obtain ⟨_, _, hraces⟩ := races_serveAll shard requests
  obtain ⟨_, hrace⟩ := hraces.inv
  obtain rfl := hsource.inv.log_unique hrace.inv
  refine ⟨_, log.length, hfollower.recoveryState_runAt, fun fuel hfuel calls hcalls => ?_⟩
  rw [← take_append_drop n log] at hrace hfuel
  have hbehind : (log.drop n).length < calls := by rw [length_drop]; omega
  obtain ⟨segments, hexport, -, hrecords, -⟩ := hrace.exportSegments_runAt hlimits hfuel hbehind
  obtain ⟨_, hexec, hdone, -⟩ :=
    replayAll_delivers hsource hfollower hn (delivers_segments (seals_of_export hexport) hn hrecords)
  rw [take_length] at hdone
  obtain rfl := hdone.unique hsource
  exact ⟨segments, hexport, hexec⟩

end

/-- An empty store takes the sample run over, record by record. -/
theorem catch_up_sample : letI := memoryPager; letI := sha256Digest
    ∃ segments : List RecoveryOutboxSegment, (replayAll (sampleId 2) (segments.map .segment)).exec
      (initialized (sampleId 2)) = (.ok (), sampleState) := by
  let := memoryPager
  let := sha256Digest
  have hstart : Along (sampleId 2) sampleRequests (initialized (sampleId 2)) := ⟨[], nil_prefix, rfl⟩
  obtain ⟨_, size, -, h⟩ := @catch_up _ _ _ _ (fun _ => 1) _ hstart fun _ => by decide
  obtain ⟨segments, -, hreplay⟩ := h (size + 1) (Nat.lt_succ_self _) (size + 1) (Nat.lt_succ_self _)
  exact ⟨segments, hreplay⟩

end NoKV.Meta
