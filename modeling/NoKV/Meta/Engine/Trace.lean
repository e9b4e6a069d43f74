import NoKV.Meta.Engine.RecordAt

/-!
# Histories of a shard

`Trace shard s log`: the store `s` is what the writes recorded in `log` made of a freshly initialized
shard.

* `trace_serveAll`: every run has a trace, and the trace of a longer run extends it;
* `Trace.take`: every part of the log was the log of an earlier store;
* `Trace.unique`: the log determines the store.
-/

namespace NoKV.Meta

open Lib Store State List

/-- What the entrypoint answered to the write of a record. -/
def RecoveryOutboxRecord.reply (row : RecoveryOutboxRecord) : Reply :=
  match row.result with
  | .metadataCommand commitVersion deterministicResult =>
    .command ⟨commitVersion, deterministicResult, row.recoveryLsn, row.chainDigest, false⟩
  | .leaseClock effectiveHighWaterMs => .leaseClock effectiveHighWaterMs
  | .ownerEpoch _ => .ownerEpoch

lemma Call.mutation_injective : Function.Injective Call.mutation := by
  intro a b h
  cases a with
  | execute =>
    cases b with
    | execute =>
      cases h
      rfl
    | observeLeaseClock | advanceOwnerEpoch => cases h
  | observeLeaseClock =>
    cases b with
    | execute => cases h
    | observeLeaseClock =>
      cases h
      rfl
    | advanceOwnerEpoch => cases h
  | advanceOwnerEpoch =>
    cases b with
    | execute | observeLeaseClock => cases h
    | advanceOwnerEpoch =>
      cases h
      rfl

section Writes

variable [Pager] [Sha256] {shard : LogicalShardId} {s : State} {call : Call} {txn : WriteTxn}
  {reply : Reply} {sys : SystemRecords}

/-- The write of a call: the record it leaves, and its answer. -/
structure Writes (shard : LogicalShardId) (s : State) (call : Call) (txn : WriteTxn)
    (row : RecoveryOutboxRecord) : Prop where
  applied : Applied shard s call txn row.reply
  wrote : ∃ plan, Wrote shard s call.mutation row.result plan txn ∧ plan.row = row

/-- Each entrypoint answers with the result that it records. -/
lemma Plans.answers (hsys : SystemInv shard s sys) (h : Plans shard s call txn reply) :
    ∃ plan, Wrote shard s call.mutation plan.row.result plan txn ∧ plan.row.reply = reply := by
  have key : ∀ {result plan}, Wrote shard s call.mutation result plan txn →
      (∀ row : RecoveryOutboxRecord, row.result = result → row = plan.row → row.reply = reply) →
      ∃ plan, Wrote shard s call.mutation plan.row.result plan txn ∧ plan.row.reply = reply := by
    intro result plan hwrote hreply
    have hresult := (hwrote.continues hsys).result_eq
    refine ⟨plan, ?_, hreply plan.row hresult rfl⟩
    rw [hresult]
    exact hwrote
  cases call with
  | execute =>
    obtain ⟨_, hwrote, rfl⟩ := h.execute_cases
    refine key hwrote fun row hrow heq => ?_
    unfold RecoveryOutboxRecord.reply
    rw [hrow, heq]
  | observeLeaseClock =>
    obtain ⟨_, hwrote, rfl⟩ := h.observeLeaseClock_cases
    refine key hwrote fun row hrow _ => ?_
    unfold RecoveryOutboxRecord.reply
    rw [hrow]
  | advanceOwnerEpoch =>
    obtain ⟨_, hwrote, rfl⟩ := h.advanceOwnerEpoch_cases
    refine key hwrote fun row hrow _ => ?_
    unfold RecoveryOutboxRecord.reply
    rw [hrow]

lemma Applied.writes (hsys : SystemInv shard s sys) (h : Applied shard s call txn reply) :
    ∃ row, Writes shard s call txn row ∧ row.reply = reply := by
  obtain ⟨plan, hwrote, hreply⟩ := h.plan.answers hsys
  exact ⟨plan.row, ⟨hreply ▸ h, plan, hwrote, rfl⟩, hreply⟩

lemma Writes.mutation_eq {row : RecoveryOutboxRecord} (hsys : SystemInv shard s sys)
    (h : Writes shard s call txn row) : row.mutation = call.mutation := by
  obtain ⟨_, hwrote, rfl⟩ := h.wrote
  exact (hwrote.continues hsys).mutation_eq

lemma Applied.unique {txn' : WriteTxn} {reply' : Reply} (h : Applied shard s call txn reply)
    (h' : Applied shard s call txn' reply') : txn = txn' := by
  obtain ⟨_, _, hplan⟩ := h.plan
  obtain ⟨_, _, hplan'⟩ := h'.plan
  cases Except.ok.inj (hplan.symm.trans hplan')
  rfl

end Writes

section Trace

variable [Pager] [Sha256] {shard : LogicalShardId} {s : State} {log : List RecoveryOutboxRecord}

/-- The writes recorded in a log, from a freshly initialized shard to a store. -/
inductive Trace (shard : LogicalShardId) : State → List RecoveryOutboxRecord → Prop
  | initialized : Trace shard (initialized shard) []
  | write {s : State} {log : List RecoveryOutboxRecord} {call : Call} {txn : WriteTxn}
      {row : RecoveryOutboxRecord} (trace : Trace shard s log) (writes : Writes shard s call txn row) :
      Trace shard (s.writeAll txn.mutations) (log ++ [row])

lemma Trace.concat {row : RecoveryOutboxRecord} (h : Trace shard s (log ++ [row])) :
    ∃ s₀ call txn, Trace shard s₀ log ∧ Writes shard s₀ call txn row ∧ s = s₀.writeAll txn.mutations := by
  generalize hlog : log ++ [row] = all at h
  cases h with
  | initialized => exact absurd hlog (by simp)
  | write trace writes =>
    obtain ⟨rfl, hrow⟩ := append_inj' hlog rfl
    cases hrow
    exact ⟨_, _, _, trace, writes, rfl⟩

/-- The record of a command that some shard accepted. -/
def RecoveryOutboxRecord.Accepted (shard : LogicalShardId) (row : RecoveryOutboxRecord) : Prop :=
  ∀ command leaseDeadlineMs, row.mutation = .metadataCommand command leaseDeadlineMs →
    validateCommand shard command = .ok () ∧ command.commandDigest = command.canonicalDigest

/-- The log is read back from the store. -/
lemma Inv.log_unique {log' : List RecoveryOutboxRecord} (h : Inv shard s log) (h' : Inv shard s log') :
    log = log' := by
  have hlength : log.length = log'.length := by
    rw [← h.lsn_eq, ← h'.lsn_eq, ext_system h.system h'.system]
  refine ext_getElem hlength fun i hi hi' => ?_
  have hlsn : log[i].recoveryLsn = log'[i].recoveryLsn := by
    have hpos : log[i].recoveryLsn.toNat = 0 + i + 1 := h.log.chain.pos_getElem hi
    have hpos' : log'[i].recoveryLsn.toNat = 0 + i + 1 := h'.log.chain.pos_getElem hi'
    exact UInt64.toNat_inj.1 (hpos.trans hpos'.symm)
  have hread := h.log.recordAt_runAt (getElem_mem hi)
  rw [hlsn, h'.log.recordAt_runAt (getElem_mem hi')] at hread
  exact (Except.ok.inj hread).symm

section

variable (h : Trace shard s log)
include h

lemma Trace.inv : Inv shard s log := by
  induction h with
  | initialized => exact inv_initialized shard
  | write _ writes ih =>
    obtain ⟨_, hwrote, rfl⟩ := writes.wrote
    exact ih.step hwrote writes.applied.valid writes.applied.checks

/-- Every record of a log stems from an accepted command. -/
lemma Trace.accepted {row : RecoveryOutboxRecord} (hrow : row ∈ log) :
    row.Accepted shard := by
  induction h with
  | initialized => exact absurd hrow not_mem_nil
  | write trace writes ih =>
    rcases mem_append.1 hrow with hrow | hrow
    · exact ih hrow
    · cases mem_singleton.1 hrow
      intro command leaseDeadlineMs hmutation
      rw [writes.mutation_eq trace.inv.system] at hmutation
      obtain ⟨_, hwrote, -⟩ := writes.wrote
      rw [hmutation] at hwrote
      exact ⟨hwrote.accepted.1, hwrote.accepted.2.1⟩

/-- The log determines the store. -/
lemma Trace.unique {s' : State} (h' : Trace shard s' log) : s = s' := by
  induction h generalizing s' with
  | initialized =>
    generalize hnil : ([] : List RecoveryOutboxRecord) = log at h'
    cases h' with
    | initialized => rfl
    | write => exact absurd hnil (by simp)
  | write trace writes ih =>
    obtain ⟨_, _, _, htrace, hwrites, rfl⟩ := h'.concat
    obtain rfl := ih htrace
    -- the record names the call, and the call plans the transaction
    have hcall := (writes.mutation_eq trace.inv.system).symm.trans (hwrites.mutation_eq trace.inv.system)
    obtain rfl := Call.mutation_injective hcall
    rw [writes.applied.unique hwrites.applied]

/-- Every part of the log was the log of an earlier store. -/
lemma Trace.take (n : ℕ) : ∃ s', Trace shard s' (log.take n) := by
  induction h with
  | initialized =>
    rw [take_nil]
    exact ⟨_, .initialized⟩
  | @write _ log _ _ _ trace writes ih =>
    by_cases hn : n ≤ log.length
    · rw [take_append_of_le_length hn]
      exact ih
    · rw [take_of_length_le (by simp; omega)]
      exact ⟨_, .write trace writes⟩

/-- A session writes at most one record. -/
lemma Trace.serve (request : Request) :
    ∃ more, more.length ≤ 1 ∧ Trace shard (Meta.serve shard s request).2 (log ++ more) := by
  rcases serve_cases shard s request with heq | ⟨_, _, happlied, heq⟩
  · refine ⟨[], Nat.zero_le _, ?_⟩
    rw [heq, append_nil]
    exact h
  · obtain ⟨row, hwrites, -⟩ := happlied.writes h.inv.system
    refine ⟨[row], le_refl _, ?_⟩
    rw [heq]
    exact .write h hwrites

lemma Trace.serveAll (requests : List Request) :
    ∃ more, Trace shard (Meta.serveAll shard s requests) (log ++ more) := by
  induction requests generalizing s log with
  | nil =>
    refine ⟨[], ?_⟩
    rw [append_nil]
    exact h
  | cons request _ ih =>
    obtain ⟨one, -, h₁⟩ := h.serve request
    obtain ⟨more, h₂⟩ := ih h₁
    rw [append_assoc] at h₂
    exact ⟨one ++ more, h₂⟩

/-- The next record of a log is the write of one call on the store behind the records before it. -/
lemma Trace.next {s' : State} {n : ℕ} {row : RecoveryOutboxRecord} (hn : log[n]? = some row)
    (h' : Trace shard s' (log.take n)) : ∃ call txn, Writes shard s' call txn row ∧
      Trace shard (s'.writeAll txn.mutations) (log.take (n + 1)) := by
  obtain ⟨_, h₁⟩ := h.take (n + 1)
  have htake : log.take (n + 1) = log.take n ++ [row] := by
    rw [take_add_one, hn]
    rfl
  rw [htake] at h₁ ⊢
  obtain ⟨_, call, txn, htrace, hwrites, rfl⟩ := h₁.concat
  obtain rfl := h'.unique htrace
  exact ⟨call, txn, hwrites, h₁⟩

end

lemma trace_serveAll (shard : LogicalShardId) (requests : List Request) :
    ∃ log, Trace shard (Meta.serveAll shard (Meta.initialized shard) requests) log :=
  (Trace.initialized : Trace shard _ []).serveAll requests

/-- The stores of a run are those behind the parts of its log. -/
lemma trace_along (shard : LogicalShardId) (requests : List Request) :
    ∃ log, Trace shard (Meta.serveAll shard (Meta.initialized shard) requests) log ∧
      ∀ n ≤ log.length, ∃ t, Along shard requests t ∧ Trace shard t (log.take n) := by
  induction requests using reverseRecOn with
  | nil =>
    refine ⟨[], .initialized, fun n _ => ⟨Meta.initialized shard, ⟨[], nil_prefix, rfl⟩, ?_⟩⟩
    rw [take_nil]
    exact .initialized
  | append_singleton requests request ih =>
    obtain ⟨log, htrace, halong⟩ := ih
    obtain ⟨more, _, htrace'⟩ := htrace.serve request
    have hrun : Meta.serveAll shard (Meta.initialized shard) (requests ++ [request]) =
        (Meta.serve shard (Meta.serveAll shard (Meta.initialized shard) requests) request).2 := by
      unfold Meta.serveAll
      rw [foldl_append]
      rfl
    refine ⟨log ++ more, hrun ▸ htrace', fun n hn => ?_⟩
    by_cases hle : n ≤ log.length
    · obtain ⟨t, ⟨pre, hpre, rfl⟩, ht⟩ := halong n hle
      rw [take_append_of_le_length hle]
      exact ⟨_, ⟨pre, hpre.trans (prefix_append ..), rfl⟩, ht⟩
    · -- the session wrote one record, and the run ends behind it
      rw [take_of_length_le (by rw [length_append]; omega)]
      exact ⟨_, ⟨_, prefix_rfl, rfl⟩, hrun ▸ htrace'⟩

/-- A store on the way is behind a part of the log. -/
lemma Trace.along {requests : List Request} {t : State}
    (h : Trace shard (Meta.serveAll shard (Meta.initialized shard) requests) log)
    (ht : Along shard requests t) : ∃ n ≤ log.length, Trace shard t (log.take n) := by
  obtain ⟨pre, ⟨rest, rfl⟩, rfl⟩ := ht
  obtain ⟨early, hearly⟩ := trace_serveAll shard pre
  obtain ⟨_, hall⟩ := hearly.serveAll rest
  have hrun : Meta.serveAll shard (Meta.initialized shard) (pre ++ rest) =
      Meta.serveAll shard (Meta.serveAll shard (Meta.initialized shard) pre) rest := by
    unfold Meta.serveAll
    rw [foldl_append]
  rw [hrun] at h
  obtain rfl := h.inv.log_unique hall.inv
  refine ⟨early.length, by rw [length_append]; omega, ?_⟩
  rw [take_left]
  exact hearly

end Trace

end NoKV.Meta
