import NoKV.Meta.Engine.Fsck

/-!
# The recovery log of a reachable shard

Under every interleaving of calls from an empty shard, the outbox, the tail, the dedupe rows and the
clock are those of one log, which has one record for each applied write (`recovery_log`). Below the
last position of a machine word the recovery checks of the shard pass on every such state.
-/

namespace NoKV.Meta

open Lib Store State

def Call.isExecute : Call → Bool
  | .execute _ _ => true
  | _ => false

lemma Call.isExecute_eq (call : Call) {row : RecoveryOutboxRecord} (h : row.mutation = call.mutation) :
    row.isCommand = call.isExecute := by
  unfold RecoveryOutboxRecord.isCommand
  rw [h]
  cases call <;> rfl

/-- The recovery log of a state, against the calls that were applied. -/
structure RecoveryLog [Pager] [Sha256] (shard : LogicalShardId) (s : State) (done : List (Call × Reply))
    (log : List RecoveryOutboxRecord) : Prop where
  /-- One record for each applied write, in the order they were applied. -/
  records : List.Forall₂ (fun (call : Call × Reply) row =>
    row.mutation = call.1.mutation ∧ row.reply = call.2) done log
  /-- The outbox rows are the rows of these records, and nothing else. -/
  outbox : ∀ key value, s.get ⟨RECOVERY_OUTBOX.id, key⟩ = some value ↔
    (key, value) ∈ headerRows log ++ allChunkRows log
  stored : ∀ row ∈ log, StoredAs row (storageOf row).1 (storageOf row).2
  /-- The positions run from one without a gap. -/
  position : ∀ (i : ℕ) (row : RecoveryOutboxRecord), log[i]? = some row → row.recoveryLsn.toNat = i + 1
  first : ∀ row, log[0]? = some row → row.previousChainDigest = recoveryGenesisDigest shard
  next : ∀ (i : ℕ) (row row' : RecoveryOutboxRecord), log[i]? = some row → log[i + 1]? = some row' →
    row'.previousChainDigest = row.chainDigest
  /-- The high water names the last record. -/
  tail : ∃ state, recoveryStateUnlocked.runAt s = .ok state ∧
    state.appliedRecoveryLsn.toNat = log.length ∧
    state.chainDigest = (log.getLast?.map RecoveryOutboxRecord.chainDigest).getD
      (recoveryGenesisDigest shard)
  /-- Every applied command has one dedupe row, which names its position and digest. -/
  deduped : ∀ row ∈ log, ∀ command leaseDeadlineMs,
    row.mutation = .metadataCommand command leaseDeadlineMs → ∃ value record,
      s.get ⟨COMMAND_DEDUPE.id, commandDedupeKey command.rootId command.requestId⟩ = some value ∧
      CommandDedupeRecord.decode value = .ok record ∧ record.recoveryLsn = row.recoveryLsn ∧
      record.commandDigest = command.commandDigest
  /-- Every dedupe row is the row of one command record. -/
  dedupe : ∀ key value, s.get ⟨COMMAND_DEDUPE.id, key⟩ = some value →
    ∃ row ∈ log, DedupeRow row key value ∧ ∀ row' ∈ log, ∀ value', DedupeRow row' key value' → row' = row
  /-- The clock has moved once for each applied command. -/
  clock : ∃ clock, s.get (systemKey SYSTEM_COMMIT_CLOCK_KEY) = some (encodeSystemU64 clock) ∧
    clock.toNat = INITIAL_COMMIT_VERSION.toNat + done.countP fun call => call.1.isExecute

section Log

variable [Pager] [Sha256] {shard : LogicalShardId} {s : State} {made : List Pending} {done : List (Call × Reply)}
  {log : List RecoveryOutboxRecord}

omit [Pager] [Sha256] in
lemma tail_eq_getLast? (d : Digest) (log : List RecoveryOutboxRecord) :
    recordLink.tail d log = (log.getLast?.map RecoveryOutboxRecord.chainDigest).getD d := by
  induction log using List.reverseRecOn with
  | nil => rfl
  | append_singleton =>
    rw [Link.tail_append, List.getLast?_concat]
    rfl

omit [Pager] in
lemma LogInv.eq_of_dedupeRow (h : LogInv shard s log) {row row' : RecoveryOutboxRecord} (hrow : row ∈ log)
    (hrow' : row' ∈ log) {key value value' : Bytes} (hdedupe : DedupeRow row key value)
    (hdedupe' : DedupeRow row' key value') : row' = row := by
  obtain ⟨hcommand, hkey⟩ := hdedupe.key_eq
  obtain ⟨hcommand', hkey'⟩ := hdedupe'.key_eq
  exact h.dedupeKeyOf_injOn hrow' hrow hcommand' hcommand (hkey'.symm.trans hkey)

lemma RaceInv.countP_eq (h : RaceInv shard s made done log) :
    log.countP RecoveryOutboxRecord.isCommand = done.countP fun call => call.1.isExecute := by
  have hrecords := h.records
  clear h
  induction hrecords with
  | nil => rfl
  | cons hrow _ ih => rw [List.countP_cons, List.countP_cons, ih, Call.isExecute_eq _ hrow.1]

lemma RaceInv.recoveryLog (h : RaceInv shard s made done log) : RecoveryLog shard s done log where
  records := h.records
  outbox _ _ := h.inv.log.get_outbox
  stored row hrow := (h.inv.log.storedAs hrow).1
  position i row hi := by
    obtain ⟨hlt, rfl⟩ := List.getElem?_eq_some_iff.1 hi
    exact (h.inv.log.chain.pos_getElem hlt).trans (by omega)
  first row hrow := by
    have hchain := h.inv.log.chain
    cases log with
    | nil => cases hrow
    | cons =>
      cases Option.some.inj hrow
      exact hchain.2.1
  next i row row' hi hi' := by
    obtain ⟨_, rfl⟩ := List.getElem?_eq_some_iff.1 hi
    obtain ⟨hlt', rfl⟩ := List.getElem?_eq_some_iff.1 hi'
    exact h.inv.log.chain.prev_getElem hlt'
  tail := by
    refine ⟨_, h.inv.system.recoveryState_runAt, h.inv.lsn_eq, ?_⟩
    rw [← tail_eq_getLast?]
    exact systemAfter_digest shard log
  deduped row hrow command leaseDeadlineMs hmutation := by
    obtain ⟨_, _, hresult⟩ := h.inv.log.result_eq hrow hmutation
    obtain ⟨value, hget, hdecode⟩ := h.inv.log.get_dedupe hrow hmutation hresult
    exact ⟨value, _, hget, hdecode, rfl, rfl⟩
  dedupe key value hget := by
    obtain ⟨row, hrow, hdedupe⟩ := (h.inv.log.dedupe key value).1 hget
    exact ⟨row, hrow, hdedupe, fun row' hrow' value' hdedupe' =>
      h.inv.log.eq_of_dedupeRow hrow hrow' hdedupe hdedupe'⟩
  clock := ⟨_, h.inv.system.clock, by rw [h.inv.clock_eq, h.countP_eq]; rfl⟩

/-- **The recovery log of every reachable state.** Under every interleaving of calls the durable rows are
those of one log with a record for each applied write. While there is a next position, the chain verifies
and the recovery check counts the log; at the last position both report the overflow. -/
theorem recovery_log (h : Races shard s made done) :
    ∃ log, RecoveryLog shard s done log ∧ ∃ bound, ∀ fuel > bound,
      (log.length + 1 < 2 ^ 64 →
        (verifyRecoveryChain shard fuel).runAt s = .ok (tailAfter shard log) ∧
        ∃ report, (fsckRecovery shard fuel).runAt s = .ok report ∧ report.Reports shard log) ∧
      (log.length + 1 = 2 ^ 64 →
        (verifyRecoveryChain shard fuel).runAt s = .error (.err .versionOverflow) ∧
        (fsckRecovery shard fuel).runAt s = .error (.err .versionOverflow)) := by
  obtain ⟨log, hinv⟩ := h.inv
  refine ⟨log, hinv.recoveryLog, fsckBound s log, fun fuel hfuel => ⟨fun hlt => ?_, fun hlast => ?_⟩⟩
  · exact ⟨hinv.inv.verifyRecoveryChain_runAt hlt hfuel, hinv.inv.fsckRecovery_runAt hlt hfuel⟩
  · exact hinv.inv.recovery_overflow hlast hfuel

end Log

/-- The sample run has applied five writes. -/
lemma sampleState_length {done : List (Call × Reply)} {log : List RecoveryOutboxRecord} :
    letI := memoryPager
    letI := sha256Digest
    RecoveryLog (sampleId 2) sampleState done log → log.length = 5 := by
  let := memoryPager
  let := sha256Digest
  intro hlog
  obtain ⟨state, hstate, hlength, -⟩ := hlog.tail
  have hlsn := sampleState_eq.2.2.2.symm.trans (recoveryStateUnlocked_eq_ok.1 hstate).1
  rw [← hlength, ← encodeSystemU64_injective (Option.some.inj hlsn)]
  rfl

/-- The sample run has a log of five records, and its recovery checks pass. -/
theorem recovery_log_sample :
    letI := memoryPager
    letI := sha256Digest
    ∃ made done log, Races (sampleId 2) sampleState made done ∧
      RecoveryLog (sampleId 2) sampleState done log ∧ log.length = 5 ∧ ∃ bound, ∀ fuel > bound,
        (verifyRecoveryChain (sampleId 2) fuel).runAt sampleState = .ok (tailAfter (sampleId 2) log) ∧
        ∃ report, (fsckRecovery (sampleId 2) fuel).runAt sampleState = .ok report ∧
          report.Reports (sampleId 2) log := by
  let := memoryPager
  let := sha256Digest
  obtain ⟨made, done, hraces⟩ := races_serveAll (sampleId 2) sampleRequests
  obtain ⟨log, hlog, bound, hchecks⟩ := recovery_log hraces
  have hlength : log.length = 5 := sampleState_length hlog
  refine ⟨made, done, log, hraces, hlog, hlength, bound, fun fuel hfuel => (hchecks fuel hfuel).1 ?_⟩
  rw [hlength]
  decide

end NoKV.Meta
