import NoKV.Lib.Rollup
import NoKV.Store.Txn

/-!
# The transaction store: batched reads

Point and prefix reads of one consistent snapshot. How far a page of a scan reaches is the choice
of the adapter: `Pager` is the contract every adapter keeps, and `memoryPager` the reference
adapter of the conformance suite.
-/

namespace NoKV.Store

open Lib List

/-- One raw row or delimiter-folded prefix of a scan page. -/
abbrev ScanItem := Item Bytes

structure Scan where
  keyspace : Keyspace
  keyPrefix : Bytes
  after : Option Bytes
  limit : ℕ
  maxBytes : ℕ
  delimiter : Option UInt8
  deriving DecidableEq

/-- One operation in a consistent read batch. -/
inductive ReadOp where
  | get (key : Key)
  | scan (scan : Scan)
  deriving DecidableEq

/-- One bounded scan result and its completeness signal. -/
structure ScanPage where
  items : List ScanItem
  more : Bool
  deriving DecidableEq

/-- Result of one point or prefix read. -/
inductive ReadResult where
  | get (value : Option Bytes)
  | scan (page : ScanPage)
  deriving DecidableEq

/-! ### Request validation -/

/-- A cursor is an output key of the scan: a row key without the delimiter after the prefix, or a
common prefix. -/
def isCanonicalOutputKey (scan : Scan) (key : Bytes) : Bool :=
  if scan.keyPrefix.isPrefixOf key then
    match scan.delimiter with
    | none => true
    | some delimiter =>
      let suffix := key.drop scan.keyPrefix.length
      match suffix.findIdx? (· == delimiter) with
      | none => true
      | some offset => offset + 1 == suffix.length
  else false

def checkCursor (scan : Scan) (limits : StoreLimits) : Except StoreError Unit :=
  match scan.after with
  | none => .ok ()
  | some after => do
    checkKey after limits
    refuseIf (isCanonicalOutputKey scan after = false)
      (StoreError.invalidRequest "scan cursor is not a canonical output key")

/-- What the operations of a batch may return and touch. -/
structure ReadTotals where
  resultRows : ℕ
  resultBytes : ℕ
  readBytes : ℕ

/-- One operation, added to the totals of those before it. -/
def validateOp (limits : StoreLimits) (minimumScanBytes : ℕ) (totals : ReadTotals) :
    ReadOp → Except StoreError ReadTotals
  | .get key => do
    checkKey key.bytes limits
    let resultRows ← add totals.resultRows 1 .resultRows
    let resultBytes ← add totals.resultBytes limits.maxValueBytes .resultBytes
    let readBytes ← add totals.readBytes key.bytes.length .readBytes
    return ⟨resultRows, resultBytes, readBytes⟩
  | .scan scan => do
    refuseIf (scan.limit = 0) (StoreError.invalidRequest "scan limit must be positive")
    refuseIf (scan.maxBytes < minimumScanBytes)
      (StoreError.invalidRequest s!"scan byte limit must be at least {minimumScanBytes}")
    checkLimit .resultBytes scan.maxBytes limits.maxResultBytes
    checkKey scan.keyPrefix limits
    checkCursor scan limits
    let resultRows ← add totals.resultRows scan.limit .resultRows
    let resultBytes ← add totals.resultBytes scan.maxBytes .resultBytes
    let startBytes := (scan.after.map List.length).getD scan.keyPrefix.length
    let endBytes ← add scan.keyPrefix.length 1 .readBytes
    let rowCount ← add scan.limit 1 .readBytes
    refuseIf (2 ^ 64 ≤ rowCount * limits.maxKeyBytes)
      (StoreError.invalidRequest "read byte count overflows usize")
    let readBytes ← add totals.readBytes startBytes .readBytes
    let readBytes ← add readBytes endBytes .readBytes
    let readBytes ← add readBytes (rowCount * limits.maxKeyBytes) .readBytes
    return ⟨resultRows, resultBytes, readBytes⟩

def validateBatch (ops : List ReadOp) (limits : StoreLimits) : Except StoreError Unit := do
  checkLimit .reads ops.length limits.maxReads
  let minimumScanBytes ← add limits.maxKeyBytes limits.maxValueBytes .resultBytes
  let totals ← ops.foldlM (validateOp limits minimumScanBytes) ⟨0, 0, 0⟩
  checkLimit .resultRows totals.resultRows limits.maxResultRows
  checkLimit .resultBytes totals.resultBytes limits.maxResultBytes
  checkLimit .readBytes totals.readBytes limits.maxReadBytes

/-! ### What a scan may return -/

/-- The rows under a prefix, in key order. -/
def State.prefixRows (s : State) (keyspace : Keyspace) (keyPrefix : Bytes) : List (Bytes × Bytes) :=
  (s.rows keyspace).rows.filter fun r => keyPrefix.isPrefixOf r.1

/-- Every item of a scan, without its limits. -/
def State.scanItems (s : State) (scan : Scan) : List ScanItem :=
  afterCursor Item.key scan.after
    (rollup scan.keyPrefix scan.delimiter (s.prefixRows scan.keyspace scan.keyPrefix))

/-- The cursor behind a page: the key of its last item, or the cursor the page started at. -/
def nextCursor (after : Option Bytes) (items : List ScanItem) : Option Bytes :=
  match items.getLast? with
  | some last => some last.key
  | none => after

lemma nextCursor_append (after : Option Bytes) (xs ys : List ScanItem) :
    nextCursor after (xs ++ ys) = nextCursor (nextCursor after xs) ys := by
  unfold nextCursor
  rw [getLast?_append]
  cases ys.getLast? <;> rfl

@[simp] lemma nextCursor_mapValue (after : Option Bytes) (f : Bytes → Bytes) (items : List ScanItem) :
    nextCursor after (items.map (Item.mapValue f)) = nextCursor after items := by
  unfold nextCursor
  rw [getLast?_map]
  cases items.getLast? <;> simp

section Items

variable {s : State} {scan : Scan} {keyspace : Keyspace}

lemma State.prefixRows_isPrefix {keyPrefix : Bytes} {r : Bytes × Bytes}
    (h : r ∈ s.prefixRows keyspace keyPrefix) : keyPrefix <+: r.1 :=
  isPrefixOf_iff_prefix.1 (mem_filter.1 h).2

lemma State.prefixRows_sorted (keyspace : Keyspace) (keyPrefix : Bytes) :
    (s.prefixRows keyspace keyPrefix).Pairwise fun a b => a.1 < b.1 :=
  (s.rows keyspace).sorted.filter _

lemma State.mem_prefixRows {keyPrefix key value : Bytes} : (key, value) ∈ s.prefixRows keyspace keyPrefix ↔
      s.get ⟨keyspace, key⟩ = some value ∧ keyPrefix <+: key := by
  unfold State.prefixRows State.get
  rw [mem_filter, OrdMap.mem_rows, isPrefixOf_iff_prefix]

lemma State.scanItems_sorted : (s.scanItems scan).Pairwise fun a b => a.key < b.key :=
  (rollup_sorted (fun _ => State.prefixRows_isPrefix) (State.prefixRows_sorted _ _)).filter _

/-- A scan looks at the rows of its keyspace only. -/
lemma State.scanItems_congr {t : State} (h : ∀ k, s.get ⟨scan.keyspace, k⟩ = t.get ⟨scan.keyspace, k⟩) :
    s.scanItems scan = t.scanItems scan := by
  have hrows : s.rows scan.keyspace = t.rows scan.keyspace := OrdMap.ext_get h
  unfold State.scanItems State.prefixRows
  rw [hrows]

lemma afterCursor_nextCursor {items page rest : List ScanItem} {after : Option Bytes}
    (hs : items.Pairwise fun a b => a.key < b.key)
    (h : afterCursor Item.key after items = page ++ rest) :
    afterCursor Item.key (nextCursor after page) items = rest := by
  unfold nextCursor
  cases hlast : page.getLast? with
  | none =>
    rw [getLast?_eq_none_iff] at hlast
    subst hlast
    exact h
  | some last =>
    have hmem : last ∈ afterCursor Item.key after items := by
      rw [h]
      exact mem_append_left _ (mem_of_getLast? hlast)
    have hafter : afterCursor Item.key (some last.key) (afterCursor Item.key after items) = rest :=
      after_last (hs.filter _) h hlast
    rwa [afterCursor_afterCursor hmem] at hafter

/-- A scan goes on behind a page with the items the page left out. -/
lemma State.scanItems_resume {items rest : List ScanItem} (h : s.scanItems scan = items ++ rest) :
    s.scanItems { scan with after := nextCursor scan.after items } = rest :=
  afterCursor_nextCursor
    (rollup_sorted (fun _ => State.prefixRows_isPrefix) (State.prefixRows_sorted _ _)) h

/-- A scan without cursor and delimiter meets every row under its prefix. -/
lemma State.row_mem_scanItems {key value : Bytes} (hget : s.get ⟨scan.keyspace, key⟩ = some value)
    (hpre : scan.keyPrefix <+: key) (hafter : scan.after = none) (hdelimiter : scan.delimiter = none) :
    Item.row key value ∈ s.scanItems scan := by
  unfold State.scanItems
  rw [hafter, afterCursor_none, hdelimiter, rollup_none _ (State.prefixRows_sorted _ _)]
  exact mem_map.2 ⟨(key, value), State.mem_prefixRows.2 ⟨hget, hpre⟩, rfl⟩

/-- An item is a row of the scan, or the group of one. -/
lemma State.mem_scanItems {item : ScanItem} (h : item ∈ s.scanItems scan) :
    ∃ key value, s.get ⟨scan.keyspace, key⟩ = some value ∧ scan.keyPrefix <+: key ∧
      item = itemOf scan.keyPrefix scan.delimiter (key, value) := by
  obtain ⟨⟨key, value⟩, hr, rfl⟩ := mem_rollup (mem_filter.1 h).1
  obtain ⟨hget, hpre⟩ := State.mem_prefixRows.1 hr
  exact ⟨key, value, hget, hpre, rfl⟩

/-- The key of an item is a canonical cursor, no longer than the key of a row. -/
lemma State.cursor_of_mem {item : ScanItem} (h : item ∈ s.scanItems scan) :
    isCanonicalOutputKey scan item.key = true ∧
      ∃ key value, s.get ⟨scan.keyspace, key⟩ = some value ∧ item.key.length ≤ key.length := by
  obtain ⟨key, value, hget, hpre, rfl⟩ := State.mem_scanItems h
  rw [itemOf_key_eq]
  unfold isCanonicalOutputKey
  cases hgroup : groupOf scan.keyPrefix scan.delimiter key with
  | none =>
    refine ⟨?_, key, value, hget, le_refl _⟩
    rw [Option.getD_none, if_pos ( isPrefixOf_iff_prefix.2 hpre)]
    unfold groupOf at hgroup
    cases hd : scan.delimiter with
    | none => rfl
    | some =>
      rw [hd, Option.bind_some, Option.map_eq_none_iff] at hgroup
      dsimp only
      rw [hgroup]
  | some =>
    obtain ⟨c, x, hd, rfl, hx, hle⟩ := groupOf_spec hpre hgroup
    refine ⟨?_, key, value, hget, hle.length_le⟩
    rw [Option.getD_some, if_pos ( isPrefixOf_iff_prefix.2 ⟨x ++ [c], by simp⟩), hd]
    have hdrop : (scan.keyPrefix ++ x ++ [c]).drop scan.keyPrefix.length = x ++ [c] := by simp
    have hidx : (x ++ [c]).findIdx? (· == c) = some x.length := by
      refine findIdx?_eq_some_iff_getElem.2 ⟨by simp, by simp, fun j hj => ?_⟩
      rw [getElem_append_left hj]
      have : x[j] ≠ c := fun h => hx (h ▸ getElem_mem hj)
      simpa using this
    dsimp only
    rw [hdrop, hidx]
    simp

end Items

/-- The bytes an item adds to a page. -/
def itemBytes : ScanItem → ℕ
  | .row key value => key.length + value.length
  | .group key => key.length

/-- The page contract of an adapter: a page is a first part of the items, within the row limit; it
is complete unless it says `more`, and then it makes progress whenever each item fits the byte
limit of the request. -/
class Pager where
  page : State → Scan → ScanPage
  page_isPrefix : ∀ s scan, (page s scan).items <+: s.scanItems scan
  page_limit : ∀ s scan, (page s scan).items.length ≤ scan.limit
  page_complete : ∀ s scan, (page s scan).more = false → (page s scan).items = s.scanItems scan
  page_progress : ∀ s scan, (∀ i ∈ s.scanItems scan, itemBytes i ≤ scan.maxBytes) → 0 < scan.limit →
    (page s scan).more = true → (page s scan).items ≠ []

/-- Execute all operations against one snapshot. -/
def State.read [Pager] (s : State) (ops : List ReadOp) : List ReadResult :=
  ops.map fun
    | .get key => .get (s.get key)
    | .scan scan => .scan (Pager.page s scan)

/-! ### The reference adapter -/

/-- The items that fit, given the rows and bytes already returned. -/
def fitting (limit maxBytes : ℕ) : List ScanItem → ℕ → ℕ → List ScanItem
  | [], _, _ => []
  | item :: rest, count, bytes =>
    if count = limit ∨ maxBytes < bytes + itemBytes item then []
    else item :: fitting limit maxBytes rest (count + 1) (bytes + itemBytes item)

lemma fitting_isPrefix (limit maxBytes : ℕ) (items : List ScanItem) (count bytes : ℕ) :
    fitting limit maxBytes items count bytes <+: items := by
  induction items generalizing count bytes with
  | nil => exact nil_prefix
  | cons _ _ ih =>
    unfold fitting
    split
    · exact nil_prefix
    · exact cons_prefix_cons.2 ⟨rfl, ih _ _⟩

lemma fitting_length {limit : ℕ} (maxBytes : ℕ) (items : List ScanItem) {count : ℕ} (bytes : ℕ)
    (h : count ≤ limit) : (fitting limit maxBytes items count bytes).length + count ≤ limit := by
  induction items generalizing count bytes with
  | nil => simpa [fitting] using h
  | cons item _ ih =>
    unfold fitting
    split
    · simpa using h
    next hfit =>
      have := ih (bytes + itemBytes item) (show count + 1 ≤ limit by omega)
      rw [length_cons]
      omega

/-- The page of the in-memory store of the conformance suite. -/
def memoryScan (s : State) (scan : Scan) : ScanPage :=
  let candidates := s.scanItems scan
  let items := fitting scan.limit scan.maxBytes candidates 0 0
  ⟨items, decide (items.length < candidates.length)⟩

/-- The reference adapter keeps the page contract. -/
@[reducible] def memoryPager : Pager where
  page := memoryScan
  page_isPrefix s scan := fitting_isPrefix ..
  page_limit s scan := by
    have := fitting_length scan.maxBytes (s.scanItems scan) 0 (Nat.zero_le scan.limit)
    simpa [memoryScan] using this
  page_complete s scan h := by
    refine (fitting_isPrefix ..).eq_of_length_le ?_
    simpa [memoryScan] using h
  page_progress s scan hfit hlimit hmore := by
    unfold memoryScan at hmore ⊢
    dsimp only at hmore ⊢
    cases hitems : s.scanItems scan with
    | nil => simp [hitems, fitting] at hmore
    | cons item =>
      have := hfit item (hitems ▸ List.mem_cons_self ..)
      unfold fitting
      rw [if_neg (by omega)]
      exact List.cons_ne_nil _ _

end NoKV.Store
