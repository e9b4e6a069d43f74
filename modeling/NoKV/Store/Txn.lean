import NoKV.Lib.Bytes
import NoKV.Lib.Except
import NoKV.Lib.OrdMap

/-!
# The transaction store: conditional writes

The raw ordered store of one metadata shard: keyspaces of byte rows, and transactions of exact
checks and mutations that apply together or not at all. `WriteTxn.validate` is the request check
every adapter and the engine run first; a transaction that passes it writes no key twice.
-/

namespace NoKV.Store

open Lib List

/-- Keyspace number assigned by the metadata schema. -/
structure Keyspace where
  id : UInt16
  deriving DecidableEq

/-- One raw key of a keyspace. -/
structure Key where
  keyspace : Keyspace
  bytes : Bytes
  deriving DecidableEq

/-- Reason a request exceeded one configured store limit. -/
inductive LimitKind where
  | reads
  | checks
  | mutations
  | keyBytes
  | valueBytes
  | readBytes
  | transactionBytes
  | resultRows
  | resultBytes
  deriving DecidableEq

/-- The name of a limit, as it is printed. -/
def LimitKind.display : LimitKind → String
  | reads => "reads"
  | checks => "checks"
  | mutations => "mutations"
  | keyBytes => "key bytes"
  | valueBytes => "value bytes"
  | readBytes => "read bytes"
  | transactionBytes => "transaction bytes"
  | resultRows => "result rows"
  | resultBytes => "result bytes"

/-- Physical state after a commit returns an unknown outcome. -/
inductive UnknownCommit where
  | settled
  | mayCommit
  | poisoned
  deriving DecidableEq

inductive StoreError where
  | invalidRequest (reason : String)
  | limitExceeded (kind : LimitKind) (actual maximum : ℕ)
  | unavailable (reason : String)
  | outcomeUnknown (state : UnknownCommit) (reason : String)
  | corrupt (reason : String)
  deriving DecidableEq

/-- Hard request and response limits of one store instance. -/
structure StoreLimits where
  maxReads : ℕ
  maxChecks : ℕ
  maxMutations : ℕ
  maxKeyBytes : ℕ
  maxValueBytes : ℕ
  maxReadBytes : ℕ
  maxTransactionBytes : ℕ
  maxResultRows : ℕ
  maxResultBytes : ℕ

/-- Condition that must hold before any mutation can apply. -/
inductive Check where
  | value (key : Key) (expected : Bytes)
  | absent (key : Key)
  | emptyPrefix (keyspace : Keyspace) (bytes : Bytes)
  deriving DecidableEq

inductive Mutation where
  | put (key : Key) (value : Bytes)
  | delete (key : Key)
  deriving DecidableEq

def Mutation.key : Mutation → Key
  | put key _ => key
  | delete key => key

/-- The value a mutation leaves under its key. -/
def Mutation.result : Mutation → Option Bytes
  | put _ value => some value
  | delete _ => none

/-- Checks and mutations evaluated in one serializable transaction. -/
structure WriteTxn where
  checks : List Check
  mutations : List Mutation

/-- Definite result of a conditional commit. -/
inductive Commit where
  | applied
  | conflict
  deriving DecidableEq

/-! ### Request validation -/

/-- A machine word holds the sum. -/
def add (current amount : ℕ) (kind : LimitKind) : Except StoreError ℕ :=
  if current + amount < 2 ^ 64 then .ok (current + amount)
  else .error (.invalidRequest (kind.display ++ " count overflows usize"))

def checkLimit (kind : LimitKind) (actual maximum : ℕ) : Except StoreError Unit :=
  if actual ≤ maximum then .ok () else .error (.limitExceeded kind actual maximum)

def checkKey (bytes : Bytes) (limits : StoreLimits) : Except StoreError Unit :=
  checkLimit .keyBytes bytes.length limits.maxKeyBytes

def checkExactCheck (keys : List Key) (key : Key) : Except StoreError (List Key) :=
  if key ∈ keys then .error (.invalidRequest "transaction contains duplicate exact checks")
  else .ok (key :: keys)

/-- The checks of a transaction, with the transaction bytes counted so far and the keys that
already carry an exact check. -/
def validateChecks (limits : StoreLimits) : List Check → ℕ → List Key → Except StoreError ℕ
  | [], bytes, _ => .ok bytes
  | .value key expected :: rest, bytes, exactChecks => do
    let exactChecks ← checkExactCheck exactChecks key
    checkKey key.bytes limits
    checkLimit .valueBytes expected.length limits.maxValueBytes
    let bytes ← add bytes key.bytes.length .transactionBytes
    let bytes ← add bytes expected.length .transactionBytes
    validateChecks limits rest bytes exactChecks
  | .absent key :: rest, bytes, exactChecks => do
    let exactChecks ← checkExactCheck exactChecks key
    checkKey key.bytes limits
    let bytes ← add bytes key.bytes.length .transactionBytes
    validateChecks limits rest bytes exactChecks
  | .emptyPrefix _ keyPrefix :: rest, bytes, exactChecks => do
    checkKey keyPrefix limits
    let endBytes ← add keyPrefix.length 1 .transactionBytes
    let bytes ← add bytes keyPrefix.length .transactionBytes
    let bytes ← add bytes endBytes .transactionBytes
    let bytes ← add bytes limits.maxKeyBytes .transactionBytes
    validateChecks limits rest bytes exactChecks

/-- The bytes a mutation's value adds to the transaction. -/
def valueBytes (limits : StoreLimits) (bytes : ℕ) : Mutation → Except StoreError ℕ
  | .put _ value => do
    checkLimit .valueBytes value.length limits.maxValueBytes
    add bytes value.length .transactionBytes
  | .delete _ => .ok bytes

/-- The mutations of a transaction, with the bytes counted so far and the keys already written. -/
def validateMutations (limits : StoreLimits) : List Mutation → ℕ → List Key → Except StoreError ℕ
  | [], bytes, _ => .ok bytes
  | mutation :: rest, bytes, mutationKeys => do
    let bytes ← valueBytes limits bytes mutation
    checkKey mutation.key.bytes limits
    let bytes ← add bytes mutation.key.bytes.length .transactionBytes
    refuseIf (mutation.key ∈ mutationKeys)
      (StoreError.invalidRequest "transaction contains duplicate mutation keys")
    validateMutations limits rest bytes (mutation.key :: mutationKeys)

def WriteTxn.validate (txn : WriteTxn) (limits : StoreLimits) : Except StoreError Unit := do
  checkLimit .checks txn.checks.length limits.maxChecks
  checkLimit .mutations txn.mutations.length limits.maxMutations
  let bytes ← validateChecks limits txn.checks 0 []
  let bytes ← validateMutations limits txn.mutations bytes []
  checkLimit .transactionBytes bytes limits.maxTransactionBytes

/-! ### The rows -/

/-- The rows of every keyspace, each in key order. -/
structure State where
  rows : Keyspace → OrdMap Bytes Bytes

namespace State

def empty : State := ⟨fun _ => OrdMap.empty⟩

def get (s : State) (key : Key) : Option Bytes := (s.rows key.keyspace).get key.bytes

variable {s : State} {ms : List Mutation} {key : Key} {m : Mutation}

/-- The rows of one keyspace replaced. -/
def setRows (s : State) (ks : Keyspace) (m : OrdMap Bytes Bytes) : State :=
  ⟨fun ks' => if ks' = ks then m else s.rows ks'⟩

def write (s : State) : Mutation → State
  | .put key value => s.setRows key.keyspace ((s.rows key.keyspace).insert key.bytes value)
  | .delete key => s.setRows key.keyspace ((s.rows key.keyspace).erase key.bytes)

lemma get_write (s : State) (m : Mutation) (key : Key) :
    (s.write m).get key = if key = m.key then m.result else s.get key := by
  obtain ⟨ks, bs⟩ := key
  have hsplit : ∀ k : Key, (⟨ks, bs⟩ : Key) = k ↔ ks = k.keyspace ∧ bs = k.bytes := by
    rintro ⟨_, _⟩
    simp
  cases m with
  | put k =>
    simp only [write, get, setRows, Mutation.key, Mutation.result, hsplit]
    by_cases hks : ks = k.keyspace
    · subst hks
      by_cases hbs : bs = k.bytes <;> simp [OrdMap.get_insert, hbs]
    · simp [hks]
  | delete k =>
    simp only [write, get, setRows, Mutation.key, Mutation.result, hsplit]
    by_cases hks : ks = k.keyspace
    · subst hks
      by_cases hbs : bs = k.bytes <;> simp [OrdMap.get_erase, hbs]
    · simp [hks]

def writeAll (s : State) (ms : List Mutation) : State := ms.foldl write s

lemma get_writeAll_of_notMem (h : ∀ m ∈ ms, m.key ≠ key) : (s.writeAll ms).get key = s.get key := by
  induction ms generalizing s with
  | nil => rfl
  | cons m ms ih =>
    have hrest : ∀ m' ∈ ms, m'.key ≠ key := fun m' hm' => h m' (mem_cons_of_mem _ hm')
    show ((s.write m).writeAll ms).get key = _
    rw [ih hrest, get_write, if_neg (Ne.symm (h m (mem_cons_self ..)))]

lemma get_writeAll_of_mem (hnd : (ms.map Mutation.key).Nodup) (h : m ∈ ms) :
    (s.writeAll ms).get m.key = m.result := by
  induction ms generalizing s with
  | nil => cases h
  | cons m' ms ih =>
    rw [map_cons, nodup_cons] at hnd
    obtain ⟨hm', hms⟩ := hnd
    show ((s.write m').writeAll ms).get m.key = _
    rcases mem_cons.1 h with rfl | h
    · rw [get_writeAll_of_notMem, get_write, if_pos rfl]
      intro m'' hm'' heq
      exact hm' (heq ▸ mem_map_of_mem hm'')
    · exact ih hms h

/-- The mutations of one keyspace. -/
def writesTo (ks : Keyspace) (ms : List Mutation) : List Mutation :=
  ms.filter fun m => m.key.keyspace = ks

@[simp] lemma writesTo_nil (ks : Keyspace) : writesTo ks [] = [] := rfl

@[simp] lemma writesTo_append (ks : Keyspace) (ms ns : List Mutation) :
    writesTo ks (ms ++ ns) = writesTo ks ms ++ writesTo ks ns := filter_append ..

lemma writesTo_cons (ks : Keyspace) (m : Mutation) (ms : List Mutation) :
    writesTo ks (m :: ms) = if m.key.keyspace = ks then m :: writesTo ks ms else writesTo ks ms := by
  unfold writesTo
  rw [filter_cons]
  simp

lemma mem_writesTo {ks : Keyspace} : m ∈ writesTo ks ms ↔ m ∈ ms ∧ m.key.keyspace = ks := by
  unfold writesTo
  simp

lemma get_writeAll_of_writesTo (hnd : (ms.map Mutation.key).Nodup) (h : m ∈ writesTo m.key.keyspace ms) :
    (s.writeAll ms).get m.key = m.result := get_writeAll_of_mem hnd (mem_writesTo.1 h).1

lemma get_writeAll_of_notMem_writesTo (h : ∀ m ∈ writesTo key.keyspace ms, m.key ≠ key) :
    (s.writeAll ms).get key = s.get key := by
  refine get_writeAll_of_notMem fun m hm heq => ?_
  exact h m (mem_writesTo.2 ⟨hm, heq ▸ rfl⟩) heq

/-- A check holds of the store. -/
def holds (s : State) : Check → Bool
  | .value key expected => s.get key == some expected
  | .absent key => s.get key == none
  | .emptyPrefix keyspace keyPrefix => (s.rows keyspace).rows.all fun r => !keyPrefix.isPrefixOf r.1

/-- Evaluate all checks and mutations in one transaction. -/
def commit (s : State) (txn : WriteTxn) : Commit × State :=
  if txn.checks.all s.holds then (.applied, s.writeAll txn.mutations) else (.conflict, s)

@[simp] lemma holds_value {expected : Bytes} :
    s.holds (.value key expected) = true ↔ s.get key = some expected := by simp [holds]

@[simp] lemma holds_absent : s.holds (.absent key) = true ↔ s.get key = none := by simp [holds]

end State

/-! ### What a validated transaction guarantees -/

variable {kind : LimitKind} {n : ℕ} {limits : StoreLimits}

lemma checkLimit_eq_ok {actual maximum : ℕ} {u : Unit} :
    checkLimit kind actual maximum = .ok u ↔ actual ≤ maximum := by
  unfold checkLimit
  split
  next h => exact ⟨fun _ => h, fun _ => rfl⟩
  next h => exact ⟨(fun h' => nomatch h'), fun h' => absurd h' h⟩

lemma add_eq_ok {current amount : ℕ} (h : add current amount kind = .ok n) : n = current + amount := by
  unfold add at h
  split at h
  · exact (Except.ok.inj h).symm
  · cases h

lemma add_of_lt {current amount : ℕ} (h : current + amount < 2 ^ 64) :
    add current amount kind = .ok (current + amount) := if_pos h

def Mutation.valueLength : Mutation → ℕ
  | put _ value => value.length
  | delete _ => 0

lemma valueBytes_eq_ok {bytes : ℕ} {m : Mutation} (h : valueBytes limits bytes m = .ok n) :
    m.valueLength ≤ limits.maxValueBytes ∧ n = bytes + m.valueLength := by
  cases m with
  | put =>
    obtain ⟨_, hle, h⟩ := bind_eq_ok.1 h
    exact ⟨checkLimit_eq_ok.1 hle, add_eq_ok h⟩
  | delete => exact ⟨Nat.zero_le _, (Except.ok.inj h).symm⟩

lemma validateMutations_eq_ok {ms : List Mutation} {bytes : ℕ} {keys : List Key}
    (h : validateMutations limits ms bytes keys = .ok n) :
    (ms.map Mutation.key).Nodup ∧ (∀ m ∈ ms, m.key ∉ keys) ∧
      (∀ m ∈ ms, m.key.bytes.length ≤ limits.maxKeyBytes ∧ m.valueLength ≤ limits.maxValueBytes) ∧
      bytes + (ms.map Mutation.valueLength).sum ≤ n := by
  induction ms generalizing bytes keys with
  | nil =>
    cases Except.ok.inj h
    simp
  | cons _ _ ih =>
    obtain ⟨_, hvalue, h⟩ := bind_eq_ok.1 h
    obtain ⟨_, hkey, h⟩ := bind_eq_ok.1 h
    obtain ⟨_, hadd, h⟩ := bind_eq_ok.1 h
    obtain ⟨hfresh, h⟩ := refuseIf_bind h
    obtain ⟨hlen, rfl⟩ := valueBytes_eq_ok hvalue
    obtain rfl := add_eq_ok hadd
    obtain ⟨hnd, hnotin, hrows, _⟩ := ih h
    refine ⟨?_, ?_, ?_, ?_⟩
    · rw [map_cons, nodup_cons]
      refine ⟨fun hm => ?_, hnd⟩
      obtain ⟨m', hm', heq⟩ := mem_map.1 hm
      exact hnotin m' hm' (heq ▸ mem_cons_self ..)
    · intro m' hm'
      rcases mem_cons.1 hm' with rfl | hm'
      · exact hfresh
      · exact fun hk => hnotin m' hm' (mem_cons_of_mem _ hk)
    · intro m' hm'
      rcases mem_cons.1 hm' with rfl | hm'
      · exact ⟨checkLimit_eq_ok.1 hkey, hlen⟩
      · exact hrows m' hm'
    · rw [map_cons, sum_cons]
      omega

/-- What the mutations of a validated transaction satisfy: no key is written twice, every row is
within its limits, and so are all values together. -/
structure WriteTxn.Valid (txn : WriteTxn) (limits : StoreLimits) : Prop where
  nodup : (txn.mutations.map Mutation.key).Nodup
  row_le : ∀ m ∈ txn.mutations,
    m.key.bytes.length ≤ limits.maxKeyBytes ∧ m.valueLength ≤ limits.maxValueBytes
  sum_le : (txn.mutations.map Mutation.valueLength).sum ≤ limits.maxTransactionBytes

lemma WriteTxn.valid_of_validate {txn : WriteTxn} (h : txn.validate limits = .ok ()) :
    txn.Valid limits := by
  replace h := ok_of_bind h
  replace h := ok_of_bind h
  obtain ⟨_, -, h⟩ := bind_eq_ok.1 h
  obtain ⟨n, hm, h⟩ := bind_eq_ok.1 h
  obtain ⟨hnd, -, hrows, _⟩ := validateMutations_eq_ok hm
  have hn := checkLimit_eq_ok.1 h
  exact ⟨hnd, hrows, by omega⟩

/-! ### Transactions of one shape -/

/-- A correspondence of keys that keeps their lengths and tells the same keys apart. -/
structure KeyMatch (R : Key → Key → Prop) : Prop where
  length_eq : ∀ {k l}, R k l → k.bytes.length = l.bytes.length
  eq_iff : ∀ {k l k' l'}, R k l → R k' l' → (k = k' ↔ l = l')

/-- Checks of corresponding keys, with expected values of one length. -/
inductive Check.Like (R : Key → Key → Prop) : Check → Check → Prop
  | value {k l : Key} {expected expected' : Bytes} (key : R k l)
      (length_eq : expected.length = expected'.length) : Like R (.value k expected) (.value l expected')
  | absent {k l : Key} (key : R k l) : Like R (.absent k) (.absent l)
  | emptyPrefix (keyspace : Keyspace) (bytes : Bytes) :
      Like R (.emptyPrefix keyspace bytes) (.emptyPrefix keyspace bytes)

/-- Mutations of corresponding keys, with values of one length. -/
inductive Mutation.Like (R : Key → Key → Prop) : Mutation → Mutation → Prop
  | put {k l : Key} {value value' : Bytes} (key : R k l) (length_eq : value.length = value'.length) :
      Like R (.put k value) (.put l value')
  | delete {k l : Key} (key : R k l) : Like R (.delete k) (.delete l)

/-- Transactions of one shape. -/
structure WriteTxn.Like (R : Key → Key → Prop) (txn txn' : WriteTxn) : Prop where
  checks : List.Forall₂ (Check.Like R) txn.checks txn'.checks
  mutations : List.Forall₂ (Mutation.Like R) txn.mutations txn'.mutations

section Like

variable {R : Key → Key → Prop} {limits : StoreLimits}

lemma KeyMatch.mem_iff (hR : KeyMatch R) {k l : Key} (h : R k l) {ks ls : List Key}
    (hkeys : List.Forall₂ R ks ls) : k ∈ ks ↔ l ∈ ls := by
  induction hkeys with
  | nil => simp
  | cons hhead _ ih => rw [mem_cons, mem_cons, hR.eq_iff h hhead, ih]

lemma Mutation.Like.key {m m' : Mutation} (h : Mutation.Like R m m') : R m.key m'.key := by
  cases h with
  | put hkey _ | delete hkey => exact hkey

lemma validateChecks_like (hR : KeyMatch R) {checks checks' : List Check}
    (h : List.Forall₂ (Check.Like R) checks checks') (bytes : ℕ) {seen seen' : List Key}
    (hseen : List.Forall₂ R seen seen') :
    validateChecks limits checks bytes seen = validateChecks limits checks' bytes seen' := by
  induction h generalizing bytes seen seen' with
  | nil => rfl
  | cons hhead _ ih =>
    cases hhead with
    | @value k _ _ _ hkey hlength =>
      have hmem := hR.mem_iff hkey hseen
      unfold validateChecks checkExactCheck checkKey
      rw [hR.length_eq hkey, hlength]
      -- a key that was checked before is refused on both sides
      by_cases hin : k ∈ seen
      · rw [if_pos hin, if_pos (hmem.1 hin)]
        rfl
      · rw [if_neg hin, if_neg (mt hmem.2 hin), ok_bind, ok_bind]
        refine bind_congr fun _ => bind_congr fun _ => bind_congr fun _ => bind_congr fun _ => ?_
        exact ih _ (.cons hkey hseen)
    | @absent k l hkey =>
      have hmem := hR.mem_iff hkey hseen
      unfold validateChecks checkExactCheck checkKey
      rw [hR.length_eq hkey]
      by_cases hin : k ∈ seen
      · rw [if_pos hin, if_pos (hmem.1 hin)]
        rfl
      · rw [if_neg hin, if_neg (mt hmem.2 hin), ok_bind, ok_bind]
        refine bind_congr fun _ => bind_congr fun _ => ?_
        exact ih _ (.cons hkey hseen)
    | emptyPrefix =>
      refine bind_congr fun _ => bind_congr fun _ => bind_congr fun _ => bind_congr fun _ =>
        bind_congr fun _ => ?_
      exact ih _ hseen

lemma valueBytes_like {m m' : Mutation} (h : Mutation.Like R m m') (bytes : ℕ) :
    valueBytes limits bytes m = valueBytes limits bytes m' := by
  cases h with
  | put _ hlength =>
    unfold valueBytes
    dsimp only
    rw [hlength]
  | delete => rfl

lemma validateMutations_like (hR : KeyMatch R) {ms ms' : List Mutation}
    (h : List.Forall₂ (Mutation.Like R) ms ms') (bytes : ℕ) {seen seen' : List Key}
    (hseen : List.Forall₂ R seen seen') :
    validateMutations limits ms bytes seen = validateMutations limits ms' bytes seen' := by
  induction h generalizing bytes seen seen' with
  | nil => rfl
  | @cons _ _ _ _ hhead _ ih =>
    have hkey := hhead.key
    unfold validateMutations checkKey refuseIf
    rw [valueBytes_like hhead, hR.length_eq hkey]
    refine bind_congr fun _ => bind_congr fun _ => bind_congr fun _ => ?_
    rw [ih _ (.cons hkey hseen)]
    simp only [hR.mem_iff hkey hseen]

/-- Transactions of one shape pass or fail the request check alike. -/
lemma WriteTxn.Like.validate_eq (hR : KeyMatch R) {txn txn' : WriteTxn} (h : txn.Like R txn') :
    txn.validate limits = txn'.validate limits := by
  unfold WriteTxn.validate
  rw [h.checks.length_eq, h.mutations.length_eq, validateChecks_like hR h.checks 0 .nil]
  refine bind_congr fun _ => bind_congr fun _ => bind_congr fun bytes => ?_
  rw [validateMutations_like hR h.mutations bytes .nil]

end Like

end NoKV.Store
