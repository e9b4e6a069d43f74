import NoKV.Meta.Engine.RootView

/-!
# Plans at different log positions

Two stores whose logs have different lengths plan recovery records of one shape for one mutation
(`buildRecoveryPlan_matches`): the log position and the chain digest have a fixed width, so the record
has the same length, the same chunks, and rows under corresponding keys (`Renames`).
-/

namespace NoKV.Meta

open Lib Store State

/-! ### Splitting records of one length -/

lemma length_pieces {n k : ℕ} {bytes bytes' : Bytes} (h : bytes.length = bytes'.length) :
    List.Forall₂ (fun x y : Bytes => x.length = y.length) (chunksOf n k bytes) (chunksOf n k bytes') := by
  induction k generalizing bytes bytes' with
  | zero => exact .nil
  | succ k ih => exact .cons (by simp [h]) (ih (by simp [h]))

lemma encodeStorageChunk_matches (index total : ℕ) {data data' : Bytes} (h : data.length = data'.length) :
    Matches (fun x y : Bytes => x.length = y.length) (encodeStorageChunk index total data)
      (encodeStorageChunk index total data') := by
  have hnil : data = [] ↔ data' = [] := by
    rw [← List.length_eq_zero_iff, ← List.length_eq_zero_iff, h]
  unfold encodeStorageChunk refuseIf
  simp only [hnil, h]
  refine matches_bind rfl fun _ _ => matches_bind rfl fun length _ => .ok ?_
  simp [h]

lemma encodeChunks_matches (total : ℕ) {pieces pieces' : List Bytes} (index : ℕ)
    (h : List.Forall₂ (fun x y : Bytes => x.length = y.length) pieces pieces') :
    Matches (List.Forall₂ fun x y : Bytes => x.length = y.length) (encodeChunks total pieces index)
      (encodeChunks total pieces' index) := by
  induction h generalizing index with
  | nil => exact .ok .nil
  | cons hhead _ ih =>
    refine (encodeStorageChunk_matches index total hhead).bind fun chunk chunk' _ _ hchunk => ?_
    exact (ih (index + 1)).bind fun rest rest' _ _ hrest => .ok (.cons hchunk hrest)

section Records

variable [Sha256]

lemma splitRecoveryStorage_matches {logical logical' : Bytes} (h : logical.length = logical'.length) :
    Matches (fun a b => a.1.length = b.1.length ∧
        List.Forall₂ (fun x y : Bytes => x.length = y.length) a.2 b.2)
      (splitRecoveryStorage logical) (splitRecoveryStorage logical') := by
  unfold splitRecoveryStorage
  rw [← h]
  refine matches_bind rfl fun chunkCount _ => ?_
  refine (encodeChunks_matches chunkCount 0 (length_pieces h)).bind fun chunks chunks' _ _ hchunks => .ok ?_
  exact ⟨by simp [RecoveryStorageHeader.encode], hchunks⟩

/-! ### Records at different positions -/

/-- Records of one mutation at two positions. -/
structure SameRecord (row row' : RecoveryOutboxRecord) : Prop where
  encodes : ∃ m r, row.Encodes m r ∧ row'.Encodes m r

lemma new_matches {lsn lsn' : UInt64} (hlsn : lsn ≠ 0) (hlsn' : lsn' ≠ 0) (previous previous' : Digest)
    (mutation : RecoveryMutationV1) (result : RecoveryResultV1) :
    Matches SameRecord (RecoveryOutboxRecord.new lsn previous mutation result)
      (RecoveryOutboxRecord.new lsn' previous' mutation result) := by
  unfold RecoveryOutboxRecord.new
  rw [refuseIf_of_not hlsn, refuseIf_of_not hlsn', ok_bind, ok_bind]
  refine matches_bind rfl fun _ hpair => matches_bind rfl fun m hm => matches_bind rfl fun r hr => .ok ?_
  exact ⟨m, r, ⟨hpair, hm, hr, hlsn, rfl⟩, ⟨hpair, hm, hr, hlsn', rfl⟩⟩

lemma SameRecord.encode_matches {row row' : RecoveryOutboxRecord} (h : SameRecord row row') :
    Matches (fun x y : Bytes => x.length = y.length) row.encode row'.encode := by
  obtain ⟨m, r, hrow, hrow'⟩ := h.encodes
  unfold RecoveryOutboxRecord.encode
  rw [hrow.pair, hrow'.pair, ok_bind, ok_bind, hrow.mutation_eq, hrow'.mutation_eq, ok_bind, ok_bind,
    hrow.result_eq, hrow'.result_eq, ok_bind, ok_bind, refuseIf_of_not hrow.lsn_ne,
    refuseIf_of_not hrow'.lsn_ne, ok_bind, ok_bind, refuseIf_of_not (not_not.2 hrow.digest_eq),
    refuseIf_of_not (not_not.2 hrow'.digest_eq), ok_bind, ok_bind]
  refine matches_bind rfl fun _ _ => matches_bind rfl fun _ _ => .ok ?_
  simp

/-- Plans of one shape behind two tails. -/
structure RecoveryPlan.SameShape (plan plan' : RecoveryPlan) : Prop where
  header_eq : plan.header.length = plan'.header.length
  chunks_eq : List.Forall₂ (fun x y : Bytes => x.length = y.length) plan.chunks plan'.chunks
  lsn_ne : plan.row.recoveryLsn ≠ 0
  lsn_ne' : plan'.row.recoveryLsn ≠ 0

omit [Sha256] in
lemma ne_zero_of_checkedAdd {a b : UInt64} (h : checkedAdd a 1 = some b) : b ≠ 0 := by
  rintro rfl
  have := checkedAdd_eq_some.1 h
  rw [UInt64.toNat_zero] at this
  omega

/-- Behind any two tails with room for another record, one mutation is planned in one shape or refused
with one error. -/
lemma buildRecoveryPlan_matches {lsn lsn' : UInt64} (h : checkedAdd lsn 1 = none ↔ checkedAdd lsn' 1 = none)
    (digest digest' : Digest) (mutation : RecoveryMutationV1) (result : RecoveryResultV1) :
    Matches RecoveryPlan.SameShape
      (buildRecoveryPlan (encodeSystemU64 lsn) (encodeSystemDigest digest) mutation result)
      (buildRecoveryPlan (encodeSystemU64 lsn') (encodeSystemDigest digest') mutation result) := by
  unfold buildRecoveryPlan
  rw [decodeSystemU64_encode, decodeSystemU64_encode, ok_bind, ok_bind, decodeSystemDigest_encode,
    decodeSystemDigest_encode]
  cases hnext : checkedAdd lsn 1 with
  | none =>
    rw [h.1 hnext]
    exact .error _
  | some =>
    cases hnext' : checkedAdd lsn' 1 with
    | none =>
      rw [h.2 hnext'] at hnext
      cases hnext
    | some =>
      have hne := ne_zero_of_checkedAdd hnext
      have hne' := ne_zero_of_checkedAdd hnext'
      refine ((new_matches hne hne' digest digest' mutation result).mapError _).bind
        fun row row' _ _ hrow => ?_
      refine (hrow.encode_matches.mapError _).bind fun logical logical' _ _ hlogical => ?_
      refine ((splitRecoveryStorage_matches hlogical).mapError _).bind fun parts parts' _ _ hparts => .ok ?_
      obtain ⟨m, r, hencodes, hencodes'⟩ := hrow.encodes
      exact ⟨hparts.1, hparts.2, hencodes.lsn_ne, hencodes'.lsn_ne⟩

end Records

/-! ### Corresponding keys -/

/-- The keys of two transactions at different log positions correspond. -/
inductive Renames (lsn lsn' : UInt64) : Key → Key → Prop
  | same {key : Key} (outside : key.keyspace ≠ RECOVERY_OUTBOX.id) : Renames lsn lsn' key key
  | header : Renames lsn lsn' ⟨RECOVERY_OUTBOX.id, recoveryOutboxKey lsn⟩
      ⟨RECOVERY_OUTBOX.id, recoveryOutboxKey lsn'⟩
  | chunk (index : ℕ) : Renames lsn lsn' ⟨RECOVERY_OUTBOX.id, recoveryChunkKey lsn index⟩
      ⟨RECOVERY_OUTBOX.id, recoveryChunkKey lsn' index⟩

lemma recoveryChunkKey_eq_iff {lsn : UInt64} {i j : ℕ} :
    recoveryChunkKey lsn i = recoveryChunkKey lsn j ↔ be 4 i = be 4 j := by
  unfold recoveryChunkKey
  rw [List.cons_inj_right, List.append_cancel_left_eq]

lemma renames_keyMatch (lsn lsn' : UInt64) : KeyMatch (Renames lsn lsn') where
  length_eq h := by
    cases h with
    | same => rfl
    | header => exact (recoveryOutboxKey_length lsn).trans (recoveryOutboxKey_length lsn').symm
    | chunk index => exact (recoveryChunkKey_length lsn index).trans (recoveryChunkKey_length lsn' index).symm
  eq_iff h h' := by
    have hne : ∀ (a : UInt64) (i : ℕ), (⟨RECOVERY_OUTBOX.id, recoveryOutboxKey a⟩ : Key) ≠
        ⟨RECOVERY_OUTBOX.id, recoveryChunkKey a i⟩ := fun a i heq =>
      recoveryOutboxKey_ne_recoveryChunkKey _ _ _ (congrArg Key.bytes heq)
    cases h with
    | same hout =>
      cases h' with
      | same => exact Iff.rfl
      | header | chunk index => exact ⟨fun heq => absurd (heq ▸ rfl) hout, fun heq => absurd (heq ▸ rfl) hout⟩
    | header =>
      cases h' with
      | same hout => exact ⟨fun heq => absurd (heq ▸ rfl) hout, fun heq => absurd (heq ▸ rfl) hout⟩
      | header => exact iff_of_true rfl rfl
      | chunk => exact iff_of_false (hne _ _) (hne _ _)
    | chunk =>
      cases h' with
      | same hout => exact ⟨fun heq => absurd (heq ▸ rfl) hout, fun heq => absurd (heq ▸ rfl) hout⟩
      | header => exact iff_of_false (hne _ _).symm (hne _ _).symm
      | chunk =>
        rw [Key.mk.injEq, Key.mk.injEq, recoveryChunkKey_eq_iff, recoveryChunkKey_eq_iff]

end NoKV.Meta
