import NoKV.Meta.Engine.Snapshot

/-!
# What a command digest binds

Each field of a canonical input ends where its own bytes say, so the fields can be read off one after the
other. The object namespace has no tag, but every valid command names one.
-/

namespace NoKV.Meta

open Lib List

/-- A code that can be read off the front of a string. -/
def Splits {α : Type} (P : α → Prop) (code : α → Bytes) : Prop :=
  ∀ ⦃x y⦄, P x → P y → ∀ {a b}, code x ++ a = code y ++ b → x = y ∧ a = b

section Splits

variable {α : Type} {P : α → Prop} {code : α → Bytes}

lemma splits_fixed {n : ℕ} : Splits (fun _ => True) (FixedBytes.bytes (n := n)) := by
  intro x y _ _ a b h
  obtain ⟨hbytes, hrest⟩ := append_inj h (by simp)
  exact ⟨FixedBytes.ext_bytes hbytes, hrest⟩

lemma splits_be {w : ℕ} : Splits (· < 256 ^ w) (be w) := by
  intro x y hx hy a b h
  obtain ⟨hbytes, hrest⟩ := append_inj h (by simp)
  exact ⟨be_injective hx hy hbytes, hrest⟩

lemma splits_nonzero : Splits (fun _ => True) fun value : NonZeroU64 => be 8 value.get := by
  intro x y _ _ a b h
  obtain ⟨hget, hrest⟩ := splits_be x.val.toNat_lt y.val.toNat_lt h
  exact ⟨NonZeroU64.ext_get hget, hrest⟩

lemma splits_hashBytes : Splits (fun value : Bytes => value.length < 256 ^ 8) hashBytes := by
  intro x y hx hy a b h
  rw [hashBytes, hashBytes, append_assoc, append_assoc] at h
  obtain ⟨hlen, h⟩ := splits_be hx hy h
  exact append_inj h hlen

/-- Items behind their count. -/
lemma Splits.items (h : Splits P code) {xs ys : List α} {a b : Bytes} (hxs : ∀ x ∈ xs, P x)
    (hys : ∀ y ∈ ys, P y) (hx : xs.length < 256 ^ 8) (hy : ys.length < 256 ^ 8)
    (heq : hashU64 xs.length ++ (xs.flatMap code ++ a) = hashU64 ys.length ++ (ys.flatMap code ++ b)) :
    xs = ys ∧ a = b := by
  obtain ⟨hlen, hcodes⟩ := splits_be hx hy heq
  clear heq hx hy
  induction xs generalizing ys with
  | nil =>
    obtain rfl := length_eq_zero_iff.1 hlen.symm
    exact ⟨rfl, hcodes⟩
  | cons x xs ih =>
    obtain ⟨y, ys, rfl⟩ := exists_cons_of_length_eq_add_one hlen.symm
    rw [flatMap_cons, flatMap_cons, append_assoc, append_assoc] at hcodes
    obtain ⟨hhead, htail⟩ := h (hxs x mem_cons_self) (hys y mem_cons_self) hcodes
    obtain ⟨hitems, hrest⟩ := ih (fun z hz => hxs z (mem_cons_of_mem _ hz))
      (fun z hz => hys z (mem_cons_of_mem _ hz)) (Nat.succ.inj hlen) htail
    exact ⟨by rw [hhead, hitems], hrest⟩

end Splits

/-! ### Fields of a command -/

/-- The lengths of a predicate's fields fit eight bytes. -/
def CommandPredicate.Short : CommandPredicate → Prop
  | value _ key expected => key.length < 256 ^ 8 ∧ ∀ bytes ∈ expected, bytes.length < 256 ^ 8
  | prefixEmpty _ keyPrefix => keyPrefix.length < 256 ^ 8

def CommandMutation.Short : CommandMutation → Prop
  | put _ key value => key.length < 256 ^ 8 ∧ value.length < 256 ^ 8
  | delete _ key => key.length < 256 ^ 8

/-- A family and a key behind it. -/
lemma splits_family {f g : MetadataFamily} {key key' a b : Bytes} (hkey : key.length < 256 ^ 8)
    (hkey' : key'.length < 256 ^ 8) (h : f.formatTag :: (hashBytes key ++ a) = g.formatTag :: (hashBytes key' ++ b)) :
    f = g ∧ key = key' ∧ a = b := by
  obtain ⟨htag, hrest⟩ := cons.inj h
  exact ⟨MetadataFamily.formatTag_injective htag, splits_hashBytes hkey hkey' hrest⟩

lemma splits_predicate : Splits CommandPredicate.Short CommandPredicate.hashInput := by
  intro x y hx hy a b h
  cases x <;> cases y <;>
    simp only [CommandPredicate.hashInput, cons_append, nil_append, append_assoc, cons.injEq] at h
  case value.value expected _ _ expected' =>
    obtain ⟨rfl, rfl, hrest⟩ := splits_family hx.1 hy.1 (by simpa using h)
    cases expected <;> cases expected' <;> simp only [cons_append, nil_append, cons.injEq] at hrest
    · exact ⟨rfl, hrest.2⟩
    · cases hrest.1
    · cases hrest.1
    · obtain ⟨rfl, hend⟩ := splits_hashBytes (hx.2 _ rfl) (hy.2 _ rfl) hrest.2
      exact ⟨rfl, hend⟩
  case prefixEmpty.prefixEmpty =>
    obtain ⟨rfl, rfl, hrest⟩ := splits_family hx hy (by simpa using h)
    exact ⟨rfl, hrest⟩
  all_goals cases h.1

lemma splits_mutation : Splits CommandMutation.Short CommandMutation.hashInput := by
  intro x y hx hy a b h
  cases x <;> cases y <;>
    simp only [CommandMutation.hashInput, cons_append, nil_append, append_assoc, cons.injEq] at h
  case put.put =>
    obtain ⟨rfl, rfl, hvalue⟩ := splits_family hx.1 hy.1 (by simpa using h)
    obtain ⟨rfl, hrest⟩ := splits_hashBytes hx.2 hy.2 hvalue
    exact ⟨rfl, hrest⟩
  case delete.delete =>
    obtain ⟨rfl, rfl, hrest⟩ := splits_family hx hy (by simpa using h)
    exact ⟨rfl, hrest⟩
  all_goals cases h.1

lemma splits_rootFenceAction : Splits (fun _ => True) RootFenceAction.hashInput := by
  have hstate : ∀ s t : RootActivationState, s.toU8 = t.toU8 → s = t := fun s t h =>
    Option.some.inj ((RootActivationState.ofU8_toU8 s).symm.trans (h ▸ RootActivationState.ofU8_toU8 t))
  intro x y _ _ a b h
  cases x <;> cases y <;> simp_all [RootFenceAction.hashInput] <;> grind

lemma splits_initiator : Splits (fun _ => True) fun initiator : Option PrincipalId =>
    match initiator with
    | none => [0]
    | some initiator => [1] ++ initiator.bytes := by
  intro x y _ _ a b h
  cases x <;> cases y <;> simp only [cons_append, nil_append, cons.injEq] at h
  · exact ⟨rfl, h.2⟩
  · cases h.1
  · cases h.1
  · obtain ⟨rfl, hrest⟩ := splits_fixed trivial trivial h.2
    exact ⟨rfl, hrest⟩

lemma splits_history : Splits (fun p : HistoryProjection => p.key.length < 256 ^ 8) fun p =>
    [p.family.formatTag] ++ hashBytes p.key := by
  rintro ⟨f, key⟩ ⟨g, key'⟩ hx hy a b h
  obtain ⟨rfl, rfl, hrest⟩ := splits_family hx hy h
  exact ⟨rfl, hrest⟩

lemma splits_event : Splits (fun e : EventProjection => e.payload.length < 256 ^ 8) fun e =>
    hashBytes e.payload := by
  rintro ⟨x⟩ ⟨y⟩ hx hy a b h
  obtain ⟨rfl, hrest⟩ := splits_hashBytes hx hy h
  exact ⟨rfl, hrest⟩

/-- What a valid command's canonical input can be read by. -/
structure MetadataCommand.Readable (command : MetadataCommand) : Prop where
  schemaId : command.schemaId = SCHEMA_ID
  objectNamespaceId : command.objectNamespaceId.isSome
  counts : command.predicates.length < 256 ^ 8 ∧ command.mutations.length < 256 ^ 8 ∧
    command.historyProjection.length < 256 ^ 8 ∧ command.eventProjection.length < 256 ^ 8 ∧
    command.deterministicResult.length < 256 ^ 8
  predicates : ∀ p ∈ command.predicates, p.Short
  mutations : ∀ m ∈ command.mutations, m.Short
  history : ∀ p ∈ command.historyProjection, p.key.length < 256 ^ 8
  events : ∀ e ∈ command.eventProjection, e.payload.length < 256 ^ 8

lemma mutation_short {root : RootId} {mutations : List CommandMutation} {keys : List (MetadataFamily × Bytes)}
    (h : validateCommandMutations root mutations keys = .ok ()) : ∀ m ∈ mutations, m.Short := by
  induction mutations generalizing keys with
  | nil => simp
  | cons mutation rest ih =>
    simp only [validateCommandMutations, bind_eq_ok] at h
    obtain ⟨_, hkey, _, -, _, hvalue, h⟩ := h
    refine forall_mem_cons.2 ⟨?_, ih h⟩
    have hkey := (validateRootScopedBytes_eq_ok.1 hkey).1
    cases mutation with
    | put =>
      have hvalue := refuseIf_eq_ok.1 hvalue
      simp only [CommandMutation.Short, CommandMutation.key, MAX_COMMAND_KEY_BYTES, MAX_COMMAND_VALUE_BYTES,
        MAX_RECORD_PAYLOAD_BYTES] at *
      omega
    | delete => exact hkey.trans_lt (by decide)

lemma predicate_short {root : RootId} {predicate : CommandPredicate}
    (h : validatePredicate root predicate = .ok ()) : predicate.Short := by
  cases predicate with
  | value _ _ expected =>
    obtain ⟨_, hkey, hvalue⟩ := bind_eq_ok.1 h
    refine ⟨(validateRootScopedBytes_eq_ok.1 hkey).1.trans_lt (by decide), ?_⟩
    rintro bytes rfl
    exact (not_lt.1 (refuseIf_eq_ok.1 hvalue)).trans_lt (by decide)
  | prefixEmpty => exact (validateRootScopedBytes_eq_ok.1 h).1.trans_lt (by decide)

lemma readable_of_valid {shard : LogicalShardId} {command : MetadataCommand}
    (h : validateCommand shard command = .ok ()) : command.Readable := by
  simp only [validateCommand, validateCount, bind_eq_ok, refuseIf_eq_ok, forM_eq_ok, exists_const, not_not,
    not_lt] at h
  obtain ⟨hschema, -, hnamespace, hpc, hmc, hhc, hec, hresult, -, hp, _, hm, hh, he⟩ := h
  refine ⟨hschema, Option.isSome_iff_ne_none.2 hnamespace, ?_, fun p hmem => predicate_short (hp p hmem),
    mutation_short hm, ?_, ?_⟩
  · simp only [MAX_COMMAND_ITEMS, MAX_DETERMINISTIC_RESULT_BYTES, MAX_RECORD_PAYLOAD_BYTES] at *
    omega
  · exact fun p hmem => (validateRootScopedBytes_eq_ok.1 (hh p hmem)).1.trans_lt (by decide)
  · intro e hmem
    simp only [any_eq_true, decide_eq_true_eq, not_exists, not_and, not_lt] at he
    exact (he e hmem).trans_lt (by decide)

/-- **What a digest binds.** -/
theorem command_digest_binds [Sha256] {shard shard' : LogicalShardId} {command command' : MetadataCommand}
    (h : validateCommand shard command = .ok ()) (h' : validateCommand shard' command' = .ok ()) :
    (command.canonicalInput = command'.canonicalInput →
      { command with commandDigest := command'.commandDigest } = command') ∧
    ((sha256 command.canonicalInput = sha256 command'.canonicalInput →
        command.canonicalInput = command'.canonicalInput) →
      command.commandDigest = command.canonicalDigest → command'.commandDigest = command'.canonicalDigest →
      command.commandDigest = command'.commandDigest → command = command') := by
  have hbinds : command.canonicalInput = command'.canonicalInput →
      { command with commandDigest := command'.commandDigest } = command' := by
    intro heq
    obtain ⟨hschema, hnamespace, ⟨c1, c2, c3, c4, c5⟩, hp, hm, hh, he⟩ := readable_of_valid h
    obtain ⟨hschema', hnamespace', ⟨d1, d2, d3, d4, d5⟩, hp', hm', hh', he'⟩ := readable_of_valid h'
    obtain ⟨_, hnamespace⟩ := Option.isSome_iff_exists.1 hnamespace
    obtain ⟨_, hnamespace'⟩ := Option.isSome_iff_exists.1 hnamespace'
    simp only [MetadataCommand.canonicalInput, hschema, hschema', hnamespace, hnamespace', flatten_cons,
      flatten_nil, append_nil] at heq
    -- the domain text and the schema are the same on both sides; then one field after the other is peeled
    obtain ⟨-, heq⟩ := append_inj heq rfl
    obtain ⟨-, heq⟩ := append_inj heq rfl
    obtain ⟨h1, heq⟩ := splits_fixed trivial trivial heq
    obtain ⟨h2, heq⟩ := splits_fixed trivial trivial heq
    obtain ⟨h3, heq⟩ := splits_fixed trivial trivial heq
    obtain ⟨h4, heq⟩ := splits_nonzero trivial trivial heq
    obtain ⟨h5, heq⟩ := splits_nonzero trivial trivial heq
    obtain ⟨h6, heq⟩ := splits_fixed trivial trivial heq
    obtain ⟨h7, heq⟩ := splits_initiator trivial trivial heq
    obtain ⟨h8, heq⟩ := splits_nonzero trivial trivial heq
    obtain ⟨h9, heq⟩ := splits_rootFenceAction trivial trivial heq
    -- the counted lists
    obtain ⟨h10, heq⟩ := splits_predicate.items hp hp' c1 d1 heq
    obtain ⟨h11, heq⟩ := splits_mutation.items hm hm' c2 d2 heq
    obtain ⟨h12, heq⟩ := splits_history.items hh hh' c3 d3 heq
    obtain ⟨h13, heq⟩ := splits_event.items he he' c4 d4 heq
    obtain ⟨h14, -⟩ := splits_hashBytes (a := []) (b := []) c5 d5 (by simpa using heq)
    cases command
    cases command'
    simp_all
  refine ⟨hbinds, fun hsha hdigest hdigest' hsame => ?_⟩
  rw [← hbinds (hsha (hdigest.symm.trans (hsame.trans hdigest'))), ← hsame]

/-- Two sample writes of different values have different canonical inputs. -/
theorem command_digest_binds_sample :
    (@samplePut sha256Digest 12 (sampleVersion 2) none [7]).canonicalInput ≠
      (@samplePut sha256Digest 12 (sampleVersion 2) none [8]).canonicalInput := by
  intro heq
  have h := (@command_digest_binds sha256Digest (sampleId 2) (sampleId 2) _ _ (by decide +kernel)
    (by decide +kernel)).1 heq
  exact absurd (congrArg MetadataCommand.mutations h) (by decide)

end NoKV.Meta
