import NoKV.Lib.Mvcc
import NoKV.Meta.Engine.Effect

/-!
# The version history of a metadata row

The current row of a key and its History rows form one multi-version cell (`cellOf`). A command
writes the cells of the keys it mutates at its commit version and leaves the others alone
(`cellOf_mutated`, `cellOf_unmutated`).
-/

namespace NoKV.Meta

open Lib Store State Mvcc List

/-- The current row of a key, decoded. -/
def currentOf (s : State) (family : MetadataFamily) (key : Bytes) : Option CurrentValue :=
  (s.get ⟨family.keyspace, key⟩).bind fun raw => (CurrentValue.decode raw).toOption

/-- The payload a key has. -/
def payloadOf (s : State) (family : MetadataFamily) (key : Bytes) : Option Bytes :=
  (currentOf s family key).map CurrentValue.payload

/-- A History row of a key. -/
structure HistoryOf (s : State) (family : MetadataFamily) (key : Bytes) (history : HistoryValue) :
    Prop where
  row : ∃ raw, s.get ⟨HISTORY.id, historyKey family key history.transitionVersion⟩ = some raw ∧
    HistoryValue.decode raw = .ok history

/-- The versions of a key: its current row and its History rows. -/
def cellOf (s : State) (family : MetadataFamily) (key : Bytes) : Cell Bytes where
  current := (currentOf s family key).map fun value => (value.modifiedVersion.get, value.payload)
  past := {sp | ∃ history, HistoryOf s family key history ∧
    sp.start = history.previousModifiedVersion.get ∧ sp.stop = history.transitionVersion.get ∧
    history.previousPayload = some sp.value}

lemma payloadOf_eq (s : State) (family : MetadataFamily) (key : Bytes) :
    (cellOf s family key).current.map Prod.snd = payloadOf s family key := by
  unfold payloadOf cellOf
  rw [Option.map_map]
  rfl

variable {s : State} {command : MetadataCommand} {planned : PlannedExactPredicate} {plan : PredicatePlan}
  {projection : HistoryProjection} {rows : List (Bytes × Bytes)} {row : Bytes × Bytes}

lemma cellOf_current {family : MetadataFamily} {key raw : Bytes} {value : CurrentValue}
    (hget : s.get ⟨family.keyspace, key⟩ = some raw) (hdecode : CurrentValue.decode raw = .ok value) :
    (cellOf s family key).current = some (value.modifiedVersion.get, value.payload) := by
  unfold cellOf currentOf
  rw [hget, Option.bind_some, hdecode]
  rfl

lemma length_lt_of_le {k : Bytes} (h : k.length ≤ MAX_COMMAND_KEY_BYTES) : k.length < 2 ^ 32 :=
  h.trans_lt (by decide)

section

variable {f g : MetadataFamily} {k l : Bytes} (hk : k.length < 2 ^ 32) (hl : l.length < 2 ^ 32)
include hk hl

/-- A family and a key can be told from what a History key begins with. -/
lemma historyPrefix_append_inj {a b : Bytes} (h : historyPrefix f k ++ a = historyPrefix g l ++ b) :
    f = g ∧ k = l ∧ a = b := by
  unfold historyPrefix at h
  simp only [flatten_cons, flatten_nil, append_nil, cons_append, nil_append,
    append_assoc, List.cons.injEq] at h
  obtain ⟨htag, h⟩ := h
  obtain ⟨hlen, h⟩ := append_inj h (by simp)
  have hlength : k.length = l.length := be_injective (by omega) (by omega) hlen
  exact ⟨MetadataFamily.formatTag_injective htag, append_inj h hlength⟩

lemma historyKey_injective {t u : CommitVersion} (h : historyKey f k t = historyKey g l u) :
    f = g ∧ k = l ∧ t = u := by
  obtain ⟨hfamily, hkey, hversion⟩ := historyPrefix_append_inj hk hl h
  have hnot : (~~~t.val).toNat = (~~~u.val).toNat :=
    be_injective (UInt64.toNat_lt _) (UInt64.toNat_lt _) hversion
  have hval : t.val = u.val := by
    have := congrArg (~~~ ·) (UInt64.toNat_inj.1 hnot)
    simpa using this
  exact ⟨hfamily, hkey, NonZeroU64.ext_get (congrArg UInt64.toNat hval)⟩

end

/-! ### The rows a command adds to the history -/

lemma mem_historyRow {next : CommitVersion} (h : historyRow command next planned = .ok rows) :
    row ∈ rows ↔ ∃ previous value, planned.current = some previous ∧
      (⟨planned.family, planned.key⟩ : HistoryProjection) ∈ command.historyProjection ∧
      HistoryValue.encode ⟨next, previous.createdVersion, previous.modifiedVersion,
        some previous.payload⟩ = .ok value ∧
      row = (historyKey planned.family planned.key next, value) := by
  unfold historyRow at h
  cases hcurrent : planned.current with
  | none =>
    rw [hcurrent] at h
    cases Except.ok.inj h
    simp
  | some previous =>
    rw [hcurrent] at h
    dsimp only at h
    split at h
    -- the command projects this row into the history
    next hmem =>
      obtain ⟨value, hvalue, rfl⟩ := bind_pure_eq_ok h
      have hencode := mapError_eq_ok.1 hvalue
      constructor
      · intro hrow
        exact ⟨previous, value, rfl, hmem, hencode, mem_singleton.1 hrow⟩
      · rintro ⟨_, _, hprevious, -, hvalue', rfl⟩
        cases hprevious
        rw [hencode] at hvalue'
        cases hvalue'
        exact mem_singleton.2 rfl
    -- it does not
    next hmem =>
      cases Except.ok.inj h
      constructor
      · intro hrow
        cases hrow
      · rintro ⟨-, -, -, hmem', -⟩
        exact absurd hmem' hmem

lemma mem_historyRows {state : CommandTxnState} (h : historyRows command state = .ok rows) :
    row ∈ rows ↔ ∃ k planned previous value, state.predicatePlan.exact.get k = some planned ∧
      planned.current = some previous ∧
      (⟨planned.family, planned.key⟩ : HistoryProjection) ∈ command.historyProjection ∧
      HistoryValue.encode ⟨state.nextVersion, previous.createdVersion, previous.modifiedVersion,
        some previous.payload⟩ = .ok value ∧
      row = (historyKey planned.family planned.key state.nextVersion, value) := by
  obtain ⟨_, hparts, rfl⟩ := bind_pure_eq_ok h
  have hforall := mapM_eq_ok.1 hparts
  rw [mem_flatten]
  constructor
  · rintro ⟨part, hpart, hrow⟩
    obtain ⟨⟨k, planned⟩, hmem, hok⟩ := exists_of_forall₂_right hforall hpart
    obtain ⟨previous, value, hprevious, hproj, hvalue, rfl⟩ := (mem_historyRow hok).1 hrow
    exact ⟨k, planned, previous, value, OrdMap.mem_rows.1 hmem, hprevious, hproj, hvalue, rfl⟩
  · rintro ⟨k, _, previous, value, hget, hprevious, hproj, hvalue, rfl⟩
    obtain ⟨part, hpart, hok⟩ := exists_of_forall₂_left hforall (OrdMap.mem_rows.2 hget)
    exact ⟨part, hpart, (mem_historyRow hok).2 ⟨previous, value, hprevious, hproj, hvalue, rfl⟩⟩

lemma mem_expectedHistory : projection ∈ expectedHistory command plan ↔
      ∃ m ∈ command.mutations, m.family ≠ .artifactInlineBody ∧
        ∃ planned previous, plan.exact.get (planKey m.family m.key) = some planned ∧
          planned.current = some previous ∧ projection = ⟨m.family, m.key⟩ := by
  unfold expectedHistory
  simp only [mem_filterMap, mem_filter, decide_eq_true_eq, Option.bind_eq_bind,
    Option.bind_eq_some_iff, Option.pure_def, Option.some.injEq, and_assoc]
  constructor
  · rintro ⟨m, hm, hf, planned, hplanned, previous, hprevious, rfl⟩
    exact ⟨m, hm, hf, planned, previous, hplanned, hprevious, rfl⟩
  · rintro ⟨m, hm, hf, planned, previous, hplanned, hprevious, rfl⟩
    exact ⟨m, hm, hf, planned, hplanned, previous, hprevious, rfl⟩

/-- The projected rows of an admitted command are the overwritten and deleted ones. -/
lemma mem_historyProjection (h : validateHistoryProjection command plan = .ok ()) :
    projection ∈ command.historyProjection ↔ projection ∈ expectedHistory command plan := by
  replace h := ok_of_bind h
  obtain ⟨hsub, hsup⟩ := of_refuseIf_not h
  exact ⟨fun hp => hsub hp, fun hp => hsup hp⟩

/-! ### Writes of cells -/

lemma PlannedExactPredicate.ReadFrom.current_eq (h : planned.ReadFrom s) :
    currentOf s planned.family planned.key = planned.current := by
  unfold currentOf
  rw [h.raw_eq]
  rcases decodeCurrent_eq_ok h.decoded with ⟨hraw, hcurrent⟩ | ⟨_, _, hraw, hcurrent, hdecode⟩
  · rw [hraw, hcurrent]
    rfl
  · rw [hraw, hcurrent, Option.bind_some, hdecode]
    rfl

/-- A predicate planned for a key holds the current row of that key. -/
lemma PredicatePlan.ReadFrom.get_eq (h : plan.ReadFrom s) {f : MetadataFamily} {k : Bytes}
    (hget : plan.exact.get (planKey f k) = some planned) :
    planned.family = f ∧ planned.key = k ∧ currentOf s f k = planned.current := by
  obtain ⟨hkey, hread⟩ := h _ _ hget
  obtain ⟨rfl, rfl⟩ := planKey_injective hkey
  exact ⟨rfl, rfl, hread.current_eq⟩

section Command

variable {s s' : State} {shard : LogicalShardId} {command : MetadataCommand} {leaseDeadlineMs : Option UInt64}
  {state : CommandTxnState} {m : CommandMutation} {f : MetadataFamily}

lemma currentOf_of_leaves (h : m.Leaves state (s'.get ⟨m.family.keyspace, m.key⟩)) :
    (currentOf s' m.family m.key).map (fun value => (value.modifiedVersion.get, value.payload)) =
      m.payload.map fun payload => (state.nextVersion.get, payload) := by
  unfold currentOf
  cases m with
  | put =>
    obtain ⟨_, _, -, hencode, hget⟩ := h
    rw [hget, Option.bind_some, CurrentValue.decode_encode hencode]
    rfl
  | delete =>
    rw [show s'.get _ = none from h]
    rfl

variable [Pager] [Sha256]

/-- The history of a key after a command: the row of the value that the command replaced joins it. -/
lemma historyOf_step (hvalid : command.Valid shard) (hplanned : state.PlannedAt s command leaseDeadlineMs)
    (heffect : CommandEffect s s' command state) {k : Bytes} (hk : k.length ≤ MAX_COMMAND_KEY_BYTES)
    (hf : f ≠ .artifactInlineBody) (history : HistoryValue) :
    HistoryOf s' f k history ↔ HistoryOf s f k history ∨
      ((∃ m ∈ command.mutations, m.family = f ∧ m.key = k) ∧
        ∃ previous, currentOf s f k = some previous ∧ history = ⟨state.nextVersion,
          previous.createdVersion, previous.modifiedVersion, some previous.payload⟩) := by
  obtain ⟨_, hrows, hadds⟩ := heffect.history
  have hread := hplanned.predicates.readFrom
  -- the projection of a planned row comes from a mutation of the same key
  have hprojection : ∀ planned : PlannedExactPredicate,
      (⟨planned.family, planned.key⟩ : HistoryProjection) ∈ command.historyProjection →
      ∃ m ∈ command.mutations, m.family = planned.family ∧ m.key = planned.key := by
    intro planned hproj
    obtain ⟨m, hm, -, -, -, -, -, heq⟩ :=
      mem_expectedHistory.1 ((mem_historyProjection hplanned.history).1 hproj)
    obtain ⟨hfamily, hkey⟩ := HistoryProjection.mk.inj heq
    exact ⟨m, hm, hfamily.symm, hkey.symm⟩
  constructor
  · -- a row is an old one, or the projection of a planned row
    rintro ⟨raw, hget, hdecode⟩
    rcases (hadds.get_eq_some _ _).1 hget with hold | hnew
    · exact .inl ⟨raw, hold, hdecode⟩
    · obtain ⟨key, planned, previous, value, hplan, hprevious, hproj, hencode, heq⟩ :=
        (mem_historyRows hrows).1 hnew
      obtain ⟨m, hm, hmf, hmk⟩ := hprojection planned hproj
      obtain ⟨hkey, rfl⟩ := Prod.mk.inj heq
      have hplannedLen := length_lt_of_le (hmk ▸ hvalid.key_le m hm)
      obtain ⟨rfl, rfl, -⟩ := historyKey_injective (length_lt_of_le hk) hplannedLen hkey
      refine .inr ⟨⟨m, hm, hmf, hmk⟩, previous, ?_, ?_⟩
      · rw [(hread _ _ hplan).2.current_eq, hprevious]
      · rw [HistoryValue.decode_encode hencode] at hdecode
        exact (Except.ok.inj hdecode).symm
  · -- an old row stays, and each mutation of a row that was there leaves one
    rintro (⟨raw, hget, hdecode⟩ | ⟨⟨m, hm, rfl, rfl⟩, previous, hprevious, rfl⟩)
    · exact ⟨raw, hadds.keep hget, hdecode⟩
    · obtain ⟨planned, hplan, -⟩ := bind_eq_ok.1 (hplanned.predicates.mutations m hm)
      have hplan := okOr_eq_ok.1 hplan
      obtain ⟨hfamily, hkey, hcurrent⟩ := hread.get_eq hplan
      have hplannedCurrent : planned.current = some previous := hcurrent ▸ hprevious
      have hproj : (⟨planned.family, planned.key⟩ : HistoryProjection) ∈ command.historyProjection := by
        rw [mem_historyProjection hplanned.history, hfamily, hkey]
        exact mem_expectedHistory.2 ⟨m, hm, hf, planned, previous, hplan, hplannedCurrent, rfl⟩
      obtain ⟨value, hencode⟩ : ∃ value, HistoryValue.encode ⟨state.nextVersion,
          previous.createdVersion, previous.modifiedVersion, some previous.payload⟩ = .ok value := by
        obtain ⟨_, hparts, -⟩ := bind_eq_ok.1 hrows
        obtain ⟨_, -, hok⟩ := exists_of_forall₂_left (mapM_eq_ok.1 hparts) (OrdMap.mem_rows.2 hplan)
        unfold historyRow at hok
        rw [hplannedCurrent] at hok
        dsimp only at hok
        rw [if_pos hproj] at hok
        obtain ⟨value, hvalue, -⟩ := bind_eq_ok.1 hok
        exact ⟨value, mapError_eq_ok.1 hvalue⟩
      refine ⟨value, (hadds.get_eq_some _ _).2 (.inr ?_), HistoryValue.decode_encode hencode⟩
      refine (mem_historyRows hrows).2 ⟨_, planned, previous, value, hplan, hplannedCurrent, hproj,
        hencode, ?_⟩
      rw [hfamily, hkey]

variable (hvalid : command.Valid shard) (hplanned : state.PlannedAt s command leaseDeadlineMs)
  (heffect : CommandEffect s s' command state)
include hvalid hplanned heffect

/-- A mutation writes its cell at the commit version of the command. -/
lemma cellOf_mutated (hm : m ∈ command.mutations) (hf : m.family ≠ .artifactInlineBody) :
    cellOf s' m.family m.key = (cellOf s m.family m.key).write state.nextVersion.get m.payload := by
  have hpast : (cellOf s' m.family m.key).past =
      ((cellOf s m.family m.key).write state.nextVersion.get m.payload).past := by
    ext sp
    have hstep := historyOf_step hvalid hplanned heffect (hvalid.key_le m hm) hf
    constructor
    · rintro ⟨history, hrow, hstart, hstop, hvalue⟩
      rcases (hstep history).1 hrow with hold | ⟨-, previous, hprevious, rfl⟩
      · exact .inl ⟨history, hold, hstart, hstop, hvalue⟩
      · refine .inr ⟨?_, hstop⟩
        show (currentOf s m.family m.key).map _ = _
        rw [hprevious, Option.map_some, hstart, ← Option.some.inj hvalue]
    · rintro (⟨history, hold, hstart, hstop, hvalue⟩ | ⟨hcurrent, hstop⟩)
      · exact ⟨history, (hstep history).2 (.inl hold), hstart, hstop, hvalue⟩
      · obtain ⟨previous, hprevious, heq⟩ := Option.map_eq_some_iff.1 hcurrent
        obtain ⟨hstart, hvalue⟩ := Prod.mk.inj heq
        exact ⟨_, (hstep _).2 (.inr ⟨⟨m, hm, rfl, rfl⟩, previous, hprevious, rfl⟩), hstart.symm, hstop,
          congrArg some hvalue⟩
  have hcurrent : (cellOf s' m.family m.key).current =
      ((cellOf s m.family m.key).write state.nextVersion.get m.payload).current :=
    currentOf_of_leaves (heffect.mutated m hm)
  cases h : cellOf s' m.family m.key
  rw [h] at hpast hcurrent
  cases hpast
  cases hcurrent
  rfl

/-- A key that the command does not mutate keeps its cell. -/
lemma cellOf_unmutated {k : Bytes} (hk : k.length ≤ MAX_COMMAND_KEY_BYTES) (hf : f ≠ .artifactInlineBody)
    (hm : ∀ m ∈ command.mutations, ¬ (m.family = f ∧ m.key = k)) : cellOf s' f k = cellOf s f k := by
  have hhistory : ∀ history, HistoryOf s' f k history ↔ HistoryOf s f k history := by
    intro history
    rw [historyOf_step hvalid hplanned heffect hk hf]
    refine or_iff_left ?_
    rintro ⟨⟨m, hmem, heq⟩, -⟩
    exact hm m hmem heq
  unfold cellOf currentOf
  rw [heffect.unmutated f k hm]
  simp only [hhistory]

end Command

lemma cellOf_congr {s s' : State} {f : MetadataFamily} {k : Bytes}
    (hfamily : s'.get ⟨f.keyspace, k⟩ = s.get ⟨f.keyspace, k⟩)
    (hhistory : ∀ key, s'.get ⟨HISTORY.id, key⟩ = s.get ⟨HISTORY.id, key⟩) :
    cellOf s' f k = cellOf s f k := by
  have hrow : ∀ history, HistoryOf s' f k history ↔ HistoryOf s f k history := by
    intro history
    constructor
    · rintro ⟨raw, hget, hdecode⟩
      exact ⟨raw, hhistory _ ▸ hget, hdecode⟩
    · rintro ⟨raw, hget, hdecode⟩
      exact ⟨raw, (hhistory _).trans hget, hdecode⟩
  unfold cellOf currentOf
  rw [hfamily]
  simp only [hrow]

end NoKV.Meta
