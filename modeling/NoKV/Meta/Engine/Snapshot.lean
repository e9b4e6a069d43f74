import NoKV.Meta.Engine.ReadAt

/-!
# Every committed version stays readable

A run passes through one state per committed version (`committedAt`). A point read at a version, made
at the end of the run, returns the payload of that state (`readAtFence_committed`): later commands
overwrite, delete and re-create the key without changing what the version shows.
-/

namespace NoKV.Meta

open Lib Store State Mvcc

def clockOf (s : State) : ℕ :=
  match s.get (systemKey SYSTEM_COMMIT_CLOCK_KEY) with
  | none => 0
  | some raw =>
    match decodeSystemU64 raw "System(commit_clock)" with
    | .ok clock => clock.toNat
    | .error _ => 0

/-- The state in which a run first has version `v` on its clock: the one that the command which
committed `v` left behind. -/
def committedAt [Pager] [Sha256] (shard : LogicalShardId) : State → List Request → ℕ → Option State
  | s, [], v => if clockOf s = v then some s else none
  | s, request :: rest, v =>
    if clockOf s = v then some s else committedAt shard (serve shard s request).2 rest v

section

variable [Pager] [Sha256] {shard : LogicalShardId} {s : State} {log : List RecoveryOutboxRecord}

omit [Pager] in
lemma Inv.clockOf_eq (hinv : Inv shard s log) : clockOf s = clockAfter shard log := by
  unfold clockOf
  rw [hinv.system.clock]
  dsimp only
  rw [decodeSystemU64_encode]
  rfl

/-- A session commits at most one version. -/
lemma clockOf_serve (hinv : Inv shard s log) (request : Request) :
    clockOf (serve shard s request).2 ≤ clockOf s + 1 ∧ clockOf s ≤ clockOf (serve shard s request).2 := by
  obtain ⟨more, _, hinv', -⟩ := hinv.serve request
  have hcount := List.countP_le_length (p := RecoveryOutboxRecord.isCommand) (l := more)
  rw [hinv'.clockOf_eq, hinv.clockOf_eq]
  unfold clockAfter
  rw [hinv'.clock_eq, hinv.clock_eq, List.countP_append]
  omega

/-- A run passes through every version between its ends. -/
lemma committedAt_eq_some (hinv : Inv shard s log) {requests : List Request} {v : ℕ}
    (hle : clockOf s ≤ v) (hge : v ≤ clockOf (serveAll shard s requests)) :
    ∃ pre post, requests = pre ++ post ∧ clockOf (serveAll shard s pre) = v ∧
      committedAt shard s requests v = some (serveAll shard s pre) := by
  induction requests generalizing s log with
  | nil =>
    have heq : clockOf s = v := le_antisymm hle hge
    exact ⟨[], [], rfl, heq, if_pos heq⟩
  | cons request rest ih =>
    by_cases heq : clockOf s = v
    · exact ⟨[], request :: rest, rfl, heq, if_pos heq⟩
    · obtain ⟨_, -, hinv', -⟩ := hinv.serve request
      have hstep := (clockOf_serve hinv request).1
      obtain ⟨pre, post, rfl, hclock, hcommitted⟩ := ih hinv' (by omega) hge
      refine ⟨request :: pre, post, rfl, hclock, ?_⟩
      rw [committedAt, if_neg heq]
      exact hcommitted

/-- What the cell of a key shows at a version, at the end of a run, is the payload that the key had
when the version was committed. -/
lemma shows_committed (shard : LogicalShardId) (pre post : List Request) {f : MetadataFamily}
    (hf : f ≠ .artifactInlineBody) {k : Bytes} (hk : k.length ≤ MAX_COMMAND_KEY_BYTES) :
    (cellOf (serveAll shard (initialized shard) (pre ++ post)) f k).Shows
      (clockOf (serveAll shard (initialized shard) pre))
      (payloadOf (serveAll shard (initialized shard) pre) f k) := by
  obtain ⟨_, hinv⟩ := inv_serveAll shard pre
  obtain ⟨_, -, hstep⟩ := hinv.serveAll post
  have hsplit : serveAll shard (initialized shard) (pre ++ post) =
      serveAll shard (serveAll shard (initialized shard) pre) post := List.foldl_append ..
  rw [hsplit, hinv.clockOf_eq, hstep.keeps f hf k hk _ (le_refl _), ← payloadOf_eq]
  exact Cell.shows_now (hinv.rows.cell f hf k hk)

/-- A point read at a version up to the clock returns the payload that the key had right after the
command which committed that version, whatever was committed since; it fails only where the fence of
the read does. -/
theorem readAtFence_committed (shard : LogicalShardId) (requests : List Request)
    (family : MetadataFamily) (hfamily : family ≠ .artifactInlineBody) (key : Bytes)
    (hkey : key.length ≤ MAX_COMMAND_KEY_BYTES) (version : ReadVersion)
    (hversion : version.get ≤ clockOf (serveAll shard (initialized shard) requests))
    (context : ReadFenceContext) :
    ∃ snapshot, committedAt shard (initialized shard) requests version.get = some snapshot ∧
      ∃ bound, ∀ fuel ≥ bound,
        (readAtFence shard fuel family key version context).runAt
            (serveAll shard (initialized shard) requests) =
          (fun _ => payloadOf snapshot family key) <$>
            (fenceAt shard context (serveAll shard (initialized shard) requests)).mapError Halt.err := by
  have hinit := inv_initialized shard
  have hpos : clockOf (initialized shard) ≤ version.get := by
    exact version.get_pos
  -- the run is cut where its clock is the version
  obtain ⟨pre, post, rfl, hclock, hcommitted⟩ := committedAt_eq_some hinit hpos hversion
  obtain ⟨_, hinv⟩ := inv_serveAll shard (pre ++ post)
  refine ⟨_, hcommitted, ?_⟩
  have hshows := shows_committed shard pre post hfamily hkey
  rw [hclock] at hshows
  cases hfence : fenceAt shard context (serveAll shard (initialized shard) (pre ++ post)) with
  -- a fence that is refused is refused at every amount of fuel
  | error =>
    refine ⟨0, fun fuel _ => ?_⟩
    unfold readAtFence
    rw [Prog.runAt_bind, Prog.runAt_liftM_bounded, readValueAtFence_runAt (hkey.trans (by decide)), hfence]
    rfl
  | ok clock =>
    have hle : version ≤ clock := by
      rw [NonZeroU64.le_iff, hinv.fence_clock hfence, ← hinv.clockOf_eq]
      exact hversion
    -- what the read shows and what the cut shows is one value
    obtain ⟨_, hpayload, bound, hbound⟩ := readAtFence_shows hinv hfamily hkey hfence hle
    refine ⟨bound, fun fuel hfuel => ?_⟩
    rw [hbound fuel hfuel, hpayload.unique (hinv.rows.cell family hfamily key hkey) hshows]
    rfl

end

/-! ### A run -/

/-- One path, written and overwritten under a freshly activated root. -/
def sampleId (n : UInt8) : FixedBytes 16 := ⟨List.replicate 16 n, List.length_replicate ..⟩

/-- The numerals of `sampleVersion`. -/
instance neZeroEight : NeZero 8 := ⟨by decide⟩

def sampleVersion (n : Fin 8) : NonZeroU64 :=
  ⟨UInt64.ofNat (n.val + 1), by revert n; decide⟩

def sampleKey : Bytes := (sampleId 1).bytes ++ utf8 "a"

/-- A command of the sample root without effects. -/
def sampleCommand (request : UInt8) (readVersion : ReadVersion) (action : RootFenceAction) :
    MetadataCommand where
  schemaId := SCHEMA_ID
  rootId := sampleId 1
  logicalShardId := sampleId 2
  objectNamespaceId := some (sampleId 3)
  placementGeneration := sampleVersion 0
  ownerEpoch := sampleVersion 0
  requestId := sampleId request
  initiator := none
  commandDigest := ⟨List.replicate 32 0, List.length_replicate ..⟩
  readVersion := readVersion
  rootFenceAction := action
  predicates := []
  mutations := []
  historyProjection := []
  eventProjection := []
  deterministicResult := []

def samplePut [Sha256] (request : UInt8) (readVersion : ReadVersion) (old : Option Bytes) (new : Bytes) :
    MetadataCommand :=
  MetadataCommand.sealCommand { sampleCommand request readVersion .requireActive with
    predicates := [.value .pathCurrent sampleKey old]
    mutations := [.put .pathCurrent sampleKey new]
    historyProjection := if old.isSome then [⟨.pathCurrent, sampleKey⟩] else [] }

def sampleRequests [Sha256] : List Request := [
  ⟨.advanceOwnerEpoch none (sampleVersion 0), .none⟩,
  ⟨.execute (sampleCommand 10 (sampleVersion 0) .install).sealCommand none, .none⟩,
  ⟨.execute (sampleCommand 11 (sampleVersion 1) (.transition .installing .active)).sealCommand none,
    .none⟩,
  ⟨.execute (samplePut 12 (sampleVersion 2) none [7]) none, .none⟩,
  ⟨.execute (samplePut 13 (sampleVersion 3) (some [7]) [8]) none, .none⟩]

def sampleContext : ReadFenceContext := ⟨sampleId 1, sampleVersion 0, sampleVersion 0⟩

def sampleState [Pager] [Sha256] : State :=
  serveAll (sampleId 2) (initialized (sampleId 2)) sampleRequests

lemma sampleState_eq : clockOf (@sampleState memoryPager sha256Digest) = 5 ∧
    payloadOf (@sampleState memoryPager sha256Digest) .pathCurrent sampleKey = some [8] ∧
    fenceAt (sampleId 2) sampleContext (@sampleState memoryPager sha256Digest) = .ok (sampleVersion 4) ∧
    (@sampleState memoryPager sha256Digest).get (systemKey SYSTEM_APPLIED_RECOVERY_LSN_KEY) =
      some (encodeSystemU64 5) := by
  decide +kernel

/-- In the sample run, a read at version 4 finds the payload from before the overwrite. -/
theorem readAtFence_committed_sample :
    ∃ snapshot, @committedAt memoryPager sha256Digest (sampleId 2) (@initialized sha256Digest (sampleId 2))
        (@sampleRequests sha256Digest) 4 = some snapshot ∧
      ∃ bound, ∀ fuel ≥ bound,
        (@readAtFence memoryPager (sampleId 2) fuel .pathCurrent sampleKey (sampleVersion 3)
            sampleContext).runAt (@sampleState memoryPager sha256Digest) =
          (fun _ => payloadOf snapshot .pathCurrent sampleKey) <$>
            (fenceAt (sampleId 2) sampleContext (@sampleState memoryPager sha256Digest)).mapError Halt.err :=
  @readAtFence_committed memoryPager sha256Digest (sampleId 2) (@sampleRequests sha256Digest)
    .pathCurrent (by decide) sampleKey (by decide) (sampleVersion 3)
    (by rw [show @serveAll memoryPager sha256Digest (sampleId 2) (@initialized sha256Digest (sampleId 2))
          (@sampleRequests sha256Digest) = @sampleState memoryPager sha256Digest from rfl,
          sampleState_eq.1]; decide) sampleContext

end NoKV.Meta
