import NoKV.Meta.Engine.Paging
import NoKV.Meta.Engine.PlanShape

/-!
# Two stores with the same root

Operations of a shard and their answers, and two stores of running shards that hold the same rows of a
root and are in step (`Peers`): their clocks and owner epochs are equal, and both or neither have room in
the log. A read of the root answers alike in both (`Peers.read_alike`), up to log positions.
-/

namespace NoKV.Meta

open Lib Store State
open Prog hiding bind pure get

/-! ### Operations -/

/-- One operation of a run of the shard. -/
inductive Operation (ρ : Type) where
  | session (request : Request)
  | read (call : ReadCall ρ)

/-- What an operation answers: a session at once, a read for every bound on its loops. -/
inductive Answer (ρ : Type) where
  | session (outcome : Except MetaError Reply)
  | read (outcome : ℕ → Except (Halt MetaError) (ReadReply ρ))

def Operation.root {ρ : Type} : Operation ρ → Option RootId
  | session request => request.call.root
  | read call => some call.root

/-- One operation: a session may write, a read leaves the rows alone. -/
def Operation.step [Pager] [Sha256] {ρ : Type} (shard : LogicalShardId) (s : State) :
    Operation ρ → Answer ρ × State
  | session request => (.session (serve shard s request).1, (serve shard s request).2)
  | read call => (.read fun fuel => (call.run shard fuel).runAt s, s)

/-! ### Answers up to log positions -/

/-- A result without its log position and chain digest. -/
def MetadataCommandResult.withoutPosition (result : MetadataCommandResult) : MetadataCommandResult :=
  { result with recoveryLsn := 0, recoveryChainDigest := .fill 32 0 }

def Reply.withoutPosition : Reply → Reply
  | command result => .command result.withoutPosition
  | leaseClock effectiveHighWaterMs => .leaseClock effectiveHighWaterMs
  | ownerEpoch => .ownerEpoch

def ReadReply.withoutPosition {ρ : Type} : ReadReply ρ → ReadReply ρ
  | request record => .request (record.map CommandDedupeRecord.withoutPosition)
  | result found => .result (found.map MetadataCommandResult.withoutPosition)
  | reply => reply

/-- The answers agree up to log positions; reads come to an end with them. -/
inductive Answer.Alike {ρ : Type} : Answer ρ → Answer ρ → Prop
  | session {x y : Except MetaError Reply} (h : Reply.withoutPosition <$> x = Reply.withoutPosition <$> y) :
      Alike (.session x) (.session y)
  | read {f g : ℕ → Except (Halt MetaError) (ReadReply ρ)} {x y : Except MetaError (ReadReply ρ)}
      (left : Settles f x) (right : Settles g y)
      (h : ReadReply.withoutPosition <$> x = ReadReply.withoutPosition <$> y) : Alike (.read f) (.read g)

/-! ### Stores in step -/

/-- The clocks and the owner epoch of the stores are equal. -/
structure InStep (s t : State) : Prop where
  clock : s.get (systemKey SYSTEM_COMMIT_CLOCK_KEY) = t.get (systemKey SYSTEM_COMMIT_CLOCK_KEY)
  leaseClock : s.get (systemKey SYSTEM_LEASE_CLOCK_HIGH_WATER_KEY) =
    t.get (systemKey SYSTEM_LEASE_CLOCK_HIGH_WATER_KEY)
  owner : s.get (systemKey SYSTEM_OWNER_FENCE_KEY) = t.get (systemKey SYSTEM_OWNER_FENCE_KEY)

/-- The log has used up its positions. -/
def Exhausted (s : State) : Prop :=
  s.get (systemKey SYSTEM_APPLIED_RECOVERY_LSN_KEY) = some (encodeSystemU64 (UInt64.ofNat (2 ^ 64 - 1)))

/-- Two stores of running shards that hold the same rows of a root and are in step. -/
structure Peers [Sha256] (shard : LogicalShardId) (r : RootId) (s t : State) : Prop where
  left : ∃ log, Inv shard s log
  right : ∃ log, Inv shard t log
  same : SameRoot r s t
  step : InStep s t
  room : Exhausted s ↔ Exhausted t

/-! ### Reads of the root -/

section Reads

variable [Sha256] {shard : LogicalShardId} {r : RootId} {s t : State} {context : ReadFenceContext}
  {version : ReadVersion} {f : MetadataFamily} {k keyPrefix : Bytes}

section

variable (h : Peers shard r s t)
include h

lemma Peers.bounded_left : Bounded s := by
  obtain ⟨_, hinv⟩ := h.left
  exact hinv.bounded

lemma Peers.rowsInv_left (context : ReadFenceContext) (clock : ReadVersion)
    (hfence : fenceAt shard context s = .ok clock) : RowsInv s clock.get := by
  obtain ⟨_, hinv⟩ := h.left
  rw [hinv.fence_clock hfence]
  exact hinv.rows

lemma Peers.symm : Peers shard r t s where
  left := h.right
  right := h.left
  same := (sameRoot_equivalence r).symm h.same
  step := ⟨h.step.clock.symm, h.step.leaseClock.symm, h.step.owner.symm⟩
  room := h.room.symm

variable (hroot : context.rootId = r)
include hroot

lemma Peers.fenceAt_eq : fenceAt shard context s = fenceAt shard context t := by
  unfold fenceAt
  rw [hroot, h.step.owner, h.step.clock, h.same.fence_eq]

lemma Peers.checkedRead_eq (kind : String) :
    (validateRootScopedBytes context.rootId k kind >>= fun _ => readOutcome shard f k version context s) =
      validateRootScopedBytes context.rootId k kind >>= fun _ => readOutcome shard f k version context t := by
  refine bind_congr_ok fun _ hscoped => ?_
  have hunder := List.isPrefixOf_iff_prefix.1 (validateRootScopedBytes_eq_ok.1 hscoped).2
  rw [hroot] at hunder
  unfold readOutcome
  rw [h.fenceAt_eq hroot, h.same.current_eq f hunder, h.same.historyItems_eq f hunder]

lemma Peers.admitScan_eq :
    admitScan shard context keyPrefix version s = admitScan shard context keyPrefix version t := by
  unfold admitScan
  rw [h.fenceAt_eq hroot]

lemma Peers.scanOutcome_eq (delimiter : Option UInt8) (startAfter : Option Bytes) (limit : ℕ) :
    scanOutcome shard context f keyPrefix delimiter version startAfter limit s =
      scanOutcome shard context f keyPrefix delimiter version startAfter limit t := by
  unfold scanOutcome
  rw [h.admitScan_eq hroot]
  refine bind_congr_ok fun clock hclock => ?_
  obtain ⟨hfence, -, -, hunder⟩ := admitScan_eq_ok hclock
  rw [hroot] at hunder
  have hrows := h.symm.rowsInv_left context clock hfence
  have hrows' := h.rowsInv_left context clock ((h.fenceAt_eq hroot).trans hfence)
  unfold currentPage
  rw [h.same.scanItems_family f hunder, h.same.rebuiltRows_eq hrows' hrows f hunder]

lemma Peers.eventOutcome_eq (startAfter : Option Bytes) (limit : ℕ) :
    eventOutcome shard context keyPrefix version startAfter limit s =
      eventOutcome shard context keyPrefix version startAfter limit t := by
  unfold eventOutcome
  rw [h.admitScan_eq hroot]
  refine bind_congr_ok fun clock hclock => ?_
  obtain ⟨-, -, -, hunder⟩ := admitScan_eq_ok hclock
  rw [ scanItems_congr_prefix fun _ hk => h.same.event_eq (hroot ▸ hunder.trans hk)]

end

variable {ρ : Type} {key : Bytes}

lemma Peers.outcome_eq (h : Peers shard r s t) (hroot : context.rootId = r) (reads : PointReads ρ) :
    reads.outcome shard context version s = reads.outcome shard context version t := by
  induction reads with
  | done => rfl
  | get family key _ ih =>
    have hget : getOutcome shard context version family key s = getOutcome shard context version family key t :=
      h.checkedRead_eq hroot "point-read key"
    rw [PointReads.outcome, PointReads.outcome, hget]
    exact ih _

lemma Peers.pointOutcome_eq (h : Peers shard r s t) (hroot : context.rootId = r)
    (requestedVersion : Option ReadVersion) (read : ReadVersion → PointReads ρ) :
    pointOutcome shard context requestedVersion read s = pointOutcome shard context requestedVersion read t := by
  unfold pointOutcome
  rw [h.fenceAt_eq hroot]
  exact bind_congr fun clock => bind_congr fun _ => h.outcome_eq hroot _

/-! ### Replay records of the root -/

/-- The root has no replay record of a request, or two that differ in the log position only. -/
lemma Peers.replay_cases [Pager] (h : Peers shard r s t) (requestId : RequestId) :
    let key := commandDedupeKey r requestId
    (s.get ⟨COMMAND_DEDUPE.id, key⟩ = none ∧ t.get ⟨COMMAND_DEDUPE.id, key⟩ = none) ∨
      ∃ value value' record record' row row', s.get ⟨COMMAND_DEDUPE.id, key⟩ = some value ∧
        t.get ⟨COMMAND_DEDUPE.id, key⟩ = some value' ∧ AnsweredFrom s key value record row ∧
        AnsweredFrom t key value' record' row' ∧ record.withoutPosition = record'.withoutPosition := by
  intro key
  have hkey : leadingRoot key = some r := leadingRoot_self r requestId.bytes
  have hcontent := h.same.replays key hkey
  obtain ⟨log, hinv⟩ := h.left
  obtain ⟨_, hinv'⟩ := h.right
  cases hs : s.get ⟨COMMAND_DEDUPE.id, key⟩ with
  | none => exact .inl ⟨rfl, (h.same.replay_none_iff hkey).1 hs⟩
  | some value =>
    cases ht : t.get ⟨COMMAND_DEDUPE.id, key⟩ with
    | none =>
      rw [(h.same.replay_none_iff hkey).2 ht] at hs
      cases hs
    | some value' =>
      obtain ⟨record, row, hreplays⟩ := hinv.log.replays hs
      obtain ⟨record', row', hreplays'⟩ := hinv'.log.replays ht
      refine .inr ⟨value, value', record, record', row, row', rfl, rfl, hreplays, hreplays', ?_⟩
      rw [hs, ht, Option.map_some, Option.map_some] at hcontent
      have heq := Option.some.inj hcontent
      unfold replayContent at heq
      rw [hreplays.decoded, hreplays'.decoded] at heq
      exact Except.ok.inj heq

omit [Sha256] in
/-- What replay records that differ in the log position only have in common. -/
lemma withoutPosition_inj {record record' : CommandDedupeRecord}
    (h : record.withoutPosition = record'.withoutPosition) :
    record.commandDigest = record'.commandDigest ∧ record.commitVersion = record'.commitVersion ∧
      record.deterministicResult = record'.deterministicResult := by
  obtain ⟨hdigest, hversion, -, hresult⟩ := CommandDedupeRecord.mk.inj h
  exact ⟨hdigest, hversion, hresult⟩

/-- Results that agree up to the log position. -/
def SameResult (a b : Option MetadataCommandResult) : Prop :=
  a.map MetadataCommandResult.withoutPosition = b.map MetadataCommandResult.withoutPosition

omit [Sha256] in
lemma sameResult_of_record {record record' : CommandDedupeRecord}
    (h : record.withoutPosition = record'.withoutPosition) (digest digest' : Digest) :
    SameResult (some ⟨record.commitVersion, record.deterministicResult, record.recoveryLsn, digest, true⟩)
      (some ⟨record'.commitVersion, record'.deterministicResult, record'.recoveryLsn, digest', true⟩) := by
  obtain ⟨-, hversion, hresult⟩ := withoutPosition_inj h
  unfold SameResult MetadataCommandResult.withoutPosition
  rw [Option.map_some, Option.map_some, hversion, hresult]

/-- A request of the root is replayed alike. -/
lemma Peers.replayedResult_matches [Pager] (h : Peers shard r s t) (requestId : RequestId)
    (digest : CommandDigest) :
    Matches SameResult ((replayedResult (commandDedupeKey r requestId) digest).runAt s)
      ((replayedResult (commandDedupeKey r requestId) digest).runAt t) := by
  rcases h.replay_cases requestId with ⟨hs, ht⟩ |
    ⟨value, value', record, record', row, row', -, -, hreplays, hreplays', heq⟩
  · have hnone : ∀ {u : State}, u.get ⟨COMMAND_DEDUPE.id, commandDedupeKey r requestId⟩ = none →
        (replayedResult (commandDedupeKey r requestId) digest).runAt u = .ok none := fun hget => by
      unfold replayedResult
      rw [runAt_bind, readValue_runAt (commandDedupeKey_length ..), hget]
      rfl
    rw [hnone hs, hnone ht]
    exact .ok rfl
  · obtain ⟨hdigest, -, -⟩ := withoutPosition_inj heq
    have hs := hreplays.answered digest
    have ht := hreplays'.answered digest
    rw [hs, ht, ← hdigest]
    split
    · exact .ok (sameResult_of_record heq _ _)
    · exact .error _

/-- Replay records that agree up to the log position. -/
def SameReplay (a b : Option CommandDedupeRecord) : Prop :=
  a.map CommandDedupeRecord.withoutPosition = b.map CommandDedupeRecord.withoutPosition

omit [Sha256] in
lemma lookupRequest_runAt [Pager] (requestId : RequestId) :
    (lookupRequest shard context requestId).runAt s = fenceAt shard context s >>= fun _ =>
      decodeOptional "CommandDedupe" CommandDedupeRecord.decode
        (s.get ⟨COMMAND_DEDUPE.id, commandDedupeKey context.rootId requestId⟩) := by
  unfold lookupRequest
  rw [runAt_bind, readValueAtFence_runAt (commandDedupeKey_length ..)]
  cases fenceAt shard context s with
  | error => rfl
  | ok =>
    show (liftM (decodeOptional _ _ _) : Shard (Option CommandDedupeRecord)).runAt s = _
    rw [runAt_liftM]
    rfl

lemma Peers.lookupRequest_matches [Pager] (h : Peers shard r s t) (hroot : context.rootId = r)
    (requestId : RequestId) :
    Matches SameReplay ((lookupRequest shard context requestId).runAt s)
      ((lookupRequest shard context requestId).runAt t) := by
  rw [lookupRequest_runAt, lookupRequest_runAt, h.fenceAt_eq hroot, hroot]
  refine matches_bind rfl fun clock _ => ?_
  rcases h.replay_cases requestId with ⟨hs, ht⟩ |
    ⟨value, value', record, record', row, row', hs, ht, hreplays, hreplays', heq⟩
  · rw [hs, ht]
    exact .ok rfl
  · unfold decodeOptional corruptValue
    rw [hs, ht]
    dsimp only
    rw [hreplays.decoded, hreplays'.decoded]
    exact .ok (congrArg some heq)

lemma Peers.lookupRequestResult_matches [Pager] (h : Peers shard r s t) (hroot : context.rootId = r)
    (requestId : RequestId) :
    Matches SameResult ((lookupRequestResult shard context requestId).runAt s)
      ((lookupRequestResult shard context requestId).runAt t) := by
  unfold lookupRequestResult
  rw [runAt_bind, runAt_bind, lookupRequest_runAt, lookupRequest_runAt, h.fenceAt_eq hroot, hroot,
    bind_assoc, bind_assoc]
  refine matches_bind rfl fun clock _ => ?_
  rcases h.replay_cases requestId with ⟨hs, ht⟩ |
    ⟨value, value', record, record', row, row', hs, ht, hreplays, hreplays', heq⟩
  · rw [hs, ht]
    exact .ok rfl
  · unfold decodeOptional corruptValue
    rw [hs, ht]
    dsimp only
    rw [hreplays.decoded, hreplays'.decoded]
    show Matches SameResult ((validateDedupeRecoveryBinding _ record >>= _ : Shard _).runAt s)
      ((validateDedupeRecoveryBinding _ record' >>= _ : Shard _).runAt t)
    rw [runAt_bind, runAt_bind, hreplays.bound, hreplays'.bound]
    exact .ok (sameResult_of_record heq _ _)

/-! ### One read -/

omit [Sha256] in
lemma readValue_congr [Pager] {ks : Keyspace} (h : s.get ⟨ks, key⟩ = t.get ⟨ks, key⟩) (operation : String) :
    (readValue ks key operation).runAt s = (readValue ks key operation).runAt t := by
  have hread : s.read [.get ⟨ks, key⟩] = t.read [.get ⟨ks, key⟩] := by
    show [ReadResult.get (s.get ⟨ks, key⟩)] = [ReadResult.get (t.get ⟨ks, key⟩)]
    rw [h]
  unfold readValue readBatch
  simp only [runAt_bind, runAt_liftM, runAt_get, runAt_pure, ok_bind, bind_assoc]
  refine bind_congr fun _ => ?_
  rw [hread]
  rfl

omit [Sha256] in
lemma requiredValue_congr [Pager] (h : s.get (systemKey key) = t.get (systemKey key)) (record : String) :
    (requiredValue SYSTEM.id key record).runAt s = (requiredValue SYSTEM.id key record).runAt t := by
  unfold requiredValue
  rw [runAt_bind, runAt_bind, readValue_congr h]
  simp only [runAt_okOr]

omit [Sha256] in
lemma requiredU64_congr [Pager] (h : s.get (systemKey key) = t.get (systemKey key)) (record : String) :
    (requiredU64 key record).runAt s = (requiredU64 key record).runAt t := by
  unfold requiredU64
  simp only [runAt_bind, runAt_liftM, runAt_pure, requiredValue_congr h]

omit [Sha256] in
lemma readChangeEventAt_runAt [Pager] :
    (readChangeEventAt shard context key version).runAt s =
      validateRootScopedBytes context.rootId key "change-event key" >>= fun _ =>
        fenceAt shard context s >>= fun clock =>
          refuseIf (clock < version) (MetaError.readVersionInFuture version.get clock.get) >>= fun _ =>
            changeEventPayload version (s.get ⟨CHANGE_EVENT.id, key⟩) := by
  unfold readChangeEventAt
  rw [runAt_bind, runAt_liftM]
  refine bind_congr_ok fun _ hscoped => ?_
  have hlength : key.length ≤ 8205 := (validateRootScopedBytes_eq_ok.1 hscoped).1.trans (by decide)
  rw [runAt_bind, readValueAtFence_runAt hlength]
  cases fenceAt shard context s with
  | error => rfl
  | ok =>
    show (refuseIf _ _ >>= fun _ => liftM (changeEventPayload _ _) : Shard (Option Bytes)).runAt s = _
    rw [runAt_bind, runAt_refuseIf]
    refine bind_congr fun _ => ?_
    rw [runAt_liftM]

lemma Peers.readChangeEventAt_eq [Pager] (h : Peers shard r s t) (hroot : context.rootId = r) :
    (readChangeEventAt shard context key version).runAt s =
      (readChangeEventAt shard context key version).runAt t := by
  rw [readChangeEventAt_runAt, readChangeEventAt_runAt]
  refine bind_congr_ok fun _ hscoped => ?_
  have hunder := List.isPrefixOf_iff_prefix.1 (validateRootScopedBytes_eq_ok.1 hscoped).2
  rw [h.fenceAt_eq hroot, h.same.event_eq (hroot ▸ hunder)]

section

variable {α : Type} {run run' : ℕ → Except (Halt MetaError) α} {x y : Except MetaError α}
  (wrap : α → ReadReply ρ) (hleft : Settles run x) (hright : Settles run' y)
include wrap hleft hright

omit [Sha256] in
lemma alike_of_settles (h : Matches (fun a b => (wrap a).withoutPosition = (wrap b).withoutPosition) x y) :
    Answer.Alike (.read fun fuel => wrap <$> run fuel) (.read fun fuel => wrap <$> run' fuel) := by
  refine .read (hleft.map wrap) (hright.map wrap) ?_
  cases h with
  | ok heq => exact congrArg Except.ok heq
  | error => rfl

omit [Sha256] in
lemma alike_of_eq (h : x = y) :
    Answer.Alike (.read fun fuel => wrap <$> run fuel) (.read fun fuel => wrap <$> run' fuel) := by
  subst h
  exact alike_of_settles wrap hleft hright ((matches_self x).mono fun _ _ heq => by rw [heq])

end

/-- A read of the root answers alike in both stores. -/
lemma Peers.read_alike [Pager] (h : Peers shard r s t) {call : ReadCall ρ} (hroot : call.root = r) :
    Answer.Alike (.read fun fuel => (call.run shard fuel).runAt s)
      (.read fun fuel => (call.run shard fuel).runAt t) := by
  have hs := h.bounded_left
  have ht := h.symm.bounded_left
  -- each read settles on both sides, and on the same answer
  cases call with
  | rootFence rootId =>
    obtain rfl : rootId = r := hroot
    simp only [ReadCall.run, runAt_map, runAt_liftM_bounded]
    refine alike_of_eq _ (settles_of_eq fun _ => rfl) (settles_of_eq fun _ => rfl) ?_
    unfold rootFence
    simp only [runAt_bind, runAt_liftM, readValue_congr h.same.fence_eq]
  | readAt _ _ key =>
    simp only [ReadCall.run, runAt_map]
    exact alike_of_eq _ (checkedRead_settles hs "read key") (checkedRead_settles ht "read key")
      (h.checkedRead_eq hroot _)
  | fencedPointReads =>
    simp only [ReadCall.run, runAt_map]
    exact alike_of_eq _ (withFencedPointReads_settles hs _ _) (withFencedPointReads_settles ht _ _)
      (h.pointOutcome_eq hroot _ _)
  | lookupRequest _ requestId =>
    simp only [ReadCall.run, runAt_map, runAt_liftM_bounded]
    refine alike_of_settles _ (settles_of_eq fun _ => rfl) (settles_of_eq fun _ => rfl) ?_
    exact (h.lookupRequest_matches hroot requestId).mono fun _ _ heq => congrArg ReadReply.request heq
  | lookupRequestResult _ requestId =>
    simp only [ReadCall.run, runAt_map, runAt_liftM_bounded]
    refine alike_of_settles _ (settles_of_eq fun _ => rfl) (settles_of_eq fun _ => rfl) ?_
    exact (h.lookupRequestResult_matches hroot requestId).mono fun _ _ heq => congrArg ReadReply.result heq
  | scanPrefixAt context =>
    simp only [ReadCall.run, runAt_map]
    refine alike_of_eq _ (scanPrefixAt_settles hs (h.rowsInv_left context))
      (scanPrefixAt_settles ht (h.symm.rowsInv_left context)) ?_
    rw [h.scanOutcome_eq hroot]
  | scanDelimitedPrefixAt context =>
    simp only [ReadCall.run, runAt_map]
    exact alike_of_eq _
      (scanPrefixAtImpl_settles hs (h.rowsInv_left context) (by decide) (by decide))
      (scanPrefixAtImpl_settles ht (h.symm.rowsInv_left context) (by decide) (by decide))
      (h.scanOutcome_eq hroot _ _ _)
  | readChangeEventAt =>
    simp only [ReadCall.run, runAt_map, runAt_liftM_bounded]
    exact alike_of_eq _ (settles_of_eq fun _ => rfl) (settles_of_eq fun _ => rfl)
      (h.readChangeEventAt_eq hroot)
  | scanChangeEventsAt =>
    simp only [ReadCall.run, runAt_map]
    exact alike_of_eq _ (scanChangeEventsAt_settles hs) (scanChangeEventsAt_settles ht)
      (h.eventOutcome_eq hroot _ _)

end Reads

end NoKV.Meta
