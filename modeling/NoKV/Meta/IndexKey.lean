import Mathlib.Data.Nat.Bitwise
import NoKV.Meta.Keyspace
import NoKV.Meta.PathScheme
import NoKV.Meta.Query
import NoKV.Store.Read

/-!
# Ordered secondary index keys

The key of an index row is its root, its field with the length before it, the scalar in an ordered code, and
the workspace and path. The code of a scalar is a byte for its type and a body of one width, or a body in
which every zero is escaped and that ends in two zeros.

* `compared_encode`: the codes of two scalars compare like the scalars, before either of them ends;
* `ordered_index_keys`: so keys can be read back, and a scan of one field is in the order of the scalars.
-/

namespace NoKV.Meta

open Lib List Store

/-! ### Fields -/

def MAX_QUERY_FIELD_ID_BYTES : ℕ := 128

inductive QueryRecordError where
  | emptyFieldId
  | lengthLimit (field : String) (length max : ℕ)
  | invalidFieldId (index : ℕ) (byte : UInt8)

def isFieldByte (byte : UInt8) : Bool :=
  (0x30 ≤ byte && byte ≤ 0x39) || (0x41 ≤ byte && byte ≤ 0x5a) || (0x61 ≤ byte && byte ≤ 0x7a) ||
    byte = 0x5f || byte = 0x2e || byte = 0x2d

def validateFieldId (field : String) : Except QueryRecordError Unit := do
  refuseIf (utf8 field = []) QueryRecordError.emptyFieldId
  refuseIf (MAX_QUERY_FIELD_ID_BYTES < (utf8 field).length)
    (QueryRecordError.lengthLimit "field_id" (utf8 field).length MAX_QUERY_FIELD_ID_BYTES)
  match (utf8 field).zipIdx.find? fun (byte, _) => !isFieldByte byte with
  | some (byte, index) => throw (.invalidFieldId index byte)
  | none => return ()

structure QueryFieldId where
  value : String
  valid : validateFieldId value = .ok ()

def QueryFieldId.asBytes (field : QueryFieldId) : Bytes := utf8 field.value

/-! ### Keys -/

def putOrderedBytes (value : Bytes) : Bytes :=
  value.flatMap (fun byte => if byte = 0 then [0, 0xff] else [byte]) ++ [0, 0]

/-- The highest bit of a word. -/
def highBit : UInt64 := (1 : UInt64) <<< 63

/-- A float's bits in the order of the floats. -/
def FiniteFloat.ordered (value : FiniteFloat) : UInt64 :=
  if value.bits &&& highBit = 0 then value.bits ^^^ highBit else ~~~value.bits

/-- What follows the type of a scalar. -/
def orderedBody : QueryScalar → Bytes
  | .null => []
  | .boolean value => [if value then 1 else 0]
  | .signed value | .timestamp value => be 8 (value.toUInt64 ^^^ highBit).toNat
  | .unsigned value => be 8 value.toNat
  | .float value => be 8 value.ordered.toNat
  | .bytes value => putOrderedBytes value
  | .string value => putOrderedBytes (utf8 value)

def encodeOrderedIndexScalar (value : QueryScalar) : Bytes := value.discriminant :: orderedBody value

def secondaryIndexFieldPrefix (root : RootId) (field : QueryFieldId) : Bytes :=
  root.bytes ++ be 2 field.asBytes.length ++ field.asBytes

def secondaryIndexKey (root : RootId) (field : QueryFieldId) (value : QueryScalar)
    (workspace : WorkspaceIncarnationId) (path : NormalizedRelativePath) : Bytes :=
  secondaryIndexFieldPrefix root field ++ encodeOrderedIndexScalar value ++ workspace.bytes ++
    pushOrderedPathComponents path ++ [PATH_EXACT_TERMINATOR]

/-! ### The order of the scalars -/

section Order

variable {a b : QueryScalar}

lemma utf8_injective : Function.Injective utf8 := fun s t h =>
  Option.some.inj ((fromUtf8_utf8 s).symm.trans (h ▸ fromUtf8_utf8 t))

/-- Flipping the highest bit. -/
lemma toNat_xor_highBit (n : UInt64) :
    (n ^^^ highBit).toNat = if n.toNat < 2 ^ 63 then n.toNat + 2 ^ 63 else n.toNat - 2 ^ 63 := by
  have hlt := n.toNat_lt
  have hhigh : (n.toNat ^^^ 2 ^ 63) / 2 ^ 63 = n.toNat / 2 ^ 63 ^^^ 1 := Nat.xor_div_two_pow
  have hlow : (n.toNat ^^^ 2 ^ 63) % 2 ^ 63 = n.toNat % 2 ^ 63 := by
    rw [Nat.xor_mod_two_pow, Nat.mod_self, Nat.xor_zero]
  rw [UInt64.toNat_xor]
  show n.toNat ^^^ 2 ^ 63 = _
  split_ifs with hn
  · rw [Nat.div_eq_of_lt hn, Nat.zero_xor] at hhigh
    omega
  · rw [show n.toNat / 2 ^ 63 = 1 by omega, Nat.xor_self] at hhigh
    omega

lemma toNat_signed (value : Int64) : ((value.toUInt64 ^^^ highBit).toNat : ℤ) = value.toInt + 2 ^ 63 := by
  have hlt := value.toUInt64.toNat_lt
  have hint : value.toInt = value.toUInt64.toBitVec.toInt := rfl
  rw [toNat_xor_highBit, hint, BitVec.toInt_eq_toNat_cond, UInt64.toNat_toBitVec]
  split_ifs <;> omega

lemma FiniteFloat.toNat_ordered (value : FiniteFloat) : (value.ordered.toNat : ℤ) = value.bits.order + 2 ^ 63 := by
  have hlt := value.bits.toNat_lt
  have hsign : value.bits &&& highBit = 0 ↔ value.bits.toNat < 2 ^ 63 := by
    rw [← UInt64.toNat_inj, UInt64.toNat_and]
    show value.bits.toNat &&& 2 ^ 63 = 0 ↔ _
    rw [Nat.and_two_pow, Nat.testBit_eq_decide_div_mod_eq]
    by_cases h : value.bits.toNat < 2 ^ 63
    · rw [decide_eq_false (by omega)]
      exact iff_of_true rfl h
    · rw [decide_eq_true (by omega)]
      exact iff_of_false (by decide) h
  unfold ordered F64.order
  rw [if_congr hsign rfl rfl]
  split_ifs with h
  · rw [toNat_xor_highBit, if_pos h]
    omega
  · rw [UInt64.toNat_not, UInt64.size]
    omega

lemma be_ahead {m n : UInt64} (h : (m.toNat : ℤ) < n.toNat) : Ahead (be 8 m.toNat) (be 8 n.toNat) :=
  .of_length (by simp) (be_lt_be n.toNat_lt (Int.ofNat_lt.1 h))

lemma putOrderedBytes_cons (byte : UInt8) (value : Bytes) :
    putOrderedBytes (byte :: value) = byte :: ((if byte = 0 then [0xff] else []) ++ putOrderedBytes value) := by
  unfold putOrderedBytes
  split_ifs with h <;> simp [h]

/-- An escaped string is ahead of a larger one: what ends it is below an escaped zero. -/
lemma putOrderedBytes_ahead {a b : Bytes} (h : a < b) : Ahead (putOrderedBytes a) (putOrderedBytes b) := by
  induction a generalizing b with
  | nil =>
    cases b with
    | nil => exact absurd h (lt_irrefl _)
    | cons t b =>
      -- two zeros end the first string, and an escaped zero is larger than they are
      rw [putOrderedBytes_cons]
      split_ifs with ht
      · subst ht
        exact .cons 0 (.cons_of_lt (by decide) _ _)
      · exact .cons_of_lt (UInt8.pos_iff_ne_zero.2 ht) _ _
  | cons s a ih =>
    cases b with
    | nil => exact absurd h (not_lt_nil _)
    | cons t b =>
      rw [putOrderedBytes_cons, putOrderedBytes_cons]
      rcases cons_lt_cons_iff.1 h with hlt | ⟨rfl, hlt⟩
      · exact .cons_of_lt hlt _ _
      · split_ifs
        · exact .cons s (.cons 0xff (ih hlt))
        · exact .cons s (ih hlt)

lemma FiniteFloat.eq_of_order {a b : FiniteFloat} (h : a.bits.order = b.bits.order) : a = b := by
  cases a
  cases b
  cases F64.order_injective h
  rfl

/-- Scalars of one type compare like their bodies. -/
lemma compared_scalar {α : Type} (make : α → QueryScalar) {x y : α} {o : Ordering}
    (hmake : (make x).discriminant = (make y).discriminant)
    (h : Compared (fun x => orderedBody (make x)) x y o) :
    Compared encodeOrderedIndexScalar (make x) (make y) o := by
  have hcons : ∀ z, encodeOrderedIndexScalar z = z.discriminant :: orderedBody z := fun _ => rfl
  cases h with
  | lt h =>
    refine .lt ?_
    rw [hcons, hcons, hmake]
    exact h.cons _
  | eq h => exact .eq (congrArg make h)
  | gt h =>
    refine .gt ?_
    rw [hcons, hcons, hmake]
    exact h.cons _

lemma compared_same (hd : a.discriminant = b.discriminant) :
    Compared encodeOrderedIndexScalar a b (a.cmpSame b) := by
  have hsigned : ∀ x y : Int64, x.toInt < y.toInt →
      Ahead (be 8 (x.toUInt64 ^^^ highBit).toNat) (be 8 (y.toUInt64 ^^^ highBit).toNat) := by
    intro x y h
    refine be_ahead ?_
    rw [toNat_signed, toNat_signed]
    exact Int.add_lt_add_right h _
  fun_cases QueryScalar.cmpSame a b with
  | case1 =>
    refine compared_scalar .boolean rfl (.of_key (fun x => x) id fun x y h => ?_)
    cases x <;> cases y <;> cases h
    exact .cons_of_lt (by decide) _ _
  | case2 => exact compared_scalar .signed rfl (.of_key _ Int64.toInt_inj.1 hsigned)
  | case3 =>
    exact compared_scalar .unsigned rfl (.of_key _ UInt64.toNat_inj.1 fun _ _ h => be_ahead (Int.ofNat_lt.2 h))
  | case4 =>
    refine compared_scalar .float rfl (.of_key (F64.order ∘ FiniteFloat.bits) FiniteFloat.eq_of_order ?_)
    refine fun _ _ h => be_ahead ?_
    rw [FiniteFloat.toNat_ordered, FiniteFloat.toNat_ordered]
    exact Int.add_lt_add_right h _
  | case5 => exact compared_scalar .timestamp rfl (.of_key _ Int64.toInt_inj.1 hsigned)
  | case6 => exact compared_scalar .bytes rfl (.of_key (fun x => x) id fun _ _ => putOrderedBytes_ahead)
  | case7 => exact compared_scalar .string rfl (.of_key _ (fun h => utf8_injective h) fun _ _ => putOrderedBytes_ahead)
  | case8 =>
    -- only two scalars without a value are left that have one type
    cases a <;> cases b <;> simp_all [QueryScalar.discriminant]
    exact .eq rfl

/-- The codes of two scalars compare like the scalars, before either of them ends. -/
lemma compared_encode (a b : QueryScalar) : Compared encodeOrderedIndexScalar a b (a.cmp b) := by
  rw [QueryScalar.cmp]
  rcases lt_trichotomy a.discriminant b.discriminant with hlt | heq | hgt
  · rw [compare_lt_iff_lt.2 (UInt8.lt_iff_toNat_lt.1 hlt)]
    exact .lt (.cons_of_lt hlt _ _)
  · rw [compare_eq_iff_eq.2 (congrArg _ heq)]
    exact compared_same heq
  · rw [compare_gt_iff_gt.2 (UInt8.lt_iff_toNat_lt.1 hgt)]
    exact .gt (.cons_of_lt hgt _ _)

end Order

/-! ### Reading keys back -/

section Keys

variable {root root' : RootId} {field field' : QueryFieldId} {value value' : QueryScalar}
  {workspace workspace' : WorkspaceIncarnationId} {path path' : NormalizedRelativePath}

lemma QueryFieldId.length_le (field : QueryFieldId) : field.asBytes.length ≤ MAX_QUERY_FIELD_ID_BYTES := by
  have hvalid := field.valid
  simp only [validateFieldId, bind_eq_ok, refuseIf_eq_ok, exists_and_left, exists_const] at hvalid
  exact not_lt.1 hvalid.2.1

/-- The field of a key is read by its length. -/
lemma fieldPrefix_inj {x y : Bytes}
    (h : secondaryIndexFieldPrefix root field ++ x = secondaryIndexFieldPrefix root' field' ++ y) :
    root = root' ∧ field = field' ∧ x = y := by
  simp only [secondaryIndexFieldPrefix, append_assoc] at h
  obtain ⟨hroot, h⟩ := append_inj h (by simp)
  obtain ⟨hbe, h⟩ := append_inj h (by simp)
  have hfits : ∀ f : QueryFieldId, f.asBytes.length < 256 ^ 2 := fun f => f.length_le.trans_lt (by decide)
  obtain ⟨hfield, h⟩ := append_inj h (be_injective (hfits field) (hfits field') hbe)
  refine ⟨FixedBytes.ext_bytes hroot, ?_, h⟩
  cases field
  cases field'
  cases utf8_injective hfield
  rfl

lemma secondaryIndexKey_inj
    (h : secondaryIndexKey root field value workspace path = secondaryIndexKey root' field' value' workspace' path') :
    root = root' ∧ field = field' ∧ value = value' ∧ workspace = workspace' ∧ path = path' := by
  simp only [secondaryIndexKey, append_assoc] at h
  obtain ⟨rfl, rfl, hrest⟩ := fieldPrefix_inj h
  obtain rfl := (compared_encode value value').eq_of_append hrest
  -- what is left is the key of the path without its root
  have hpath : pathCurrentKey root workspace path <+: pathCurrentKey root workspace' path' := by
    simp only [pathCurrentKey, append_assoc]
    rw [append_cancel_left hrest]
  obtain ⟨-, rfl, rfl⟩ := eq_of_pathCurrentKey_prefix hpath
  exact ⟨rfl, rfl, rfl, rfl, rfl⟩

lemma fieldPrefix_prefix_iff :
    secondaryIndexFieldPrefix root field <+: secondaryIndexKey root' field' value workspace path ↔
      root = root' ∧ field = field' := by
  simp only [secondaryIndexKey, append_assoc]
  constructor
  · rintro ⟨rest, h⟩
    obtain ⟨hroot, hfield, -⟩ := fieldPrefix_inj h
    exact ⟨hroot, hfield⟩
  · rintro ⟨rfl, rfl⟩
    exact prefix_append _ _

end Keys

/-! ### Scans of a field -/

/-- Every row of the index is under the key of a field's value at a path. -/
def IndexRows (s : State) : Prop :=
  ∀ key bytes, s.get ⟨MetadataFamily.secondaryIndex.keyspace, key⟩ = some bytes →
    ∃ root field value workspace path, key = secondaryIndexKey root field value workspace path

/-- The scan of one field, from its start. -/
def fieldScan (root : RootId) (field : QueryFieldId) (limit maxBytes : ℕ) : Scan :=
  ⟨MetadataFamily.secondaryIndex.keyspace, secondaryIndexFieldPrefix root field, none, limit, maxBytes, none⟩

/-- What the scan of a field goes through: its rows and no others, in the order of the scalars. -/
structure FieldScanned (s : State) (root : RootId) (field : QueryFieldId) (items : List ScanItem) : Prop where
  rows : ∀ item, item ∈ items ↔ ∃ value workspace path bytes,
    item = .row (secondaryIndexKey root field value workspace path) bytes ∧
      s.get ⟨MetadataFamily.secondaryIndex.keyspace, secondaryIndexKey root field value workspace path⟩ = some bytes
  sorted : items.Pairwise fun item item' => ∀ value workspace path value' workspace' path',
    item.key = secondaryIndexKey root field value workspace path →
    item'.key = secondaryIndexKey root field value' workspace' path' → value.cmp value' = .lt ∨ value = value'

lemma mem_scanItems_fieldScan {s : State} {root : RootId} {field : QueryFieldId} {limit maxBytes : ℕ}
    {item : ScanItem} : item ∈ s.scanItems (fieldScan root field limit maxBytes) ↔ ∃ key bytes,
      item = .row key bytes ∧ s.get ⟨MetadataFamily.secondaryIndex.keyspace, key⟩ = some bytes ∧
        secondaryIndexFieldPrefix root field <+: key := by
  rw [State.scanItems, fieldScan, afterCursor_none]
  constructor
  · intro h
    obtain ⟨⟨key, bytes⟩, hrow, rfl⟩ := mem_rollup h
    exact ⟨key, bytes, rfl, State.mem_prefixRows.1 hrow⟩
  · rintro ⟨key, bytes, rfl, hrow⟩
    exact itemOf_mem_rollup (fun _ => State.prefixRows_isPrefix) (State.prefixRows_sorted _ _)
      (State.mem_prefixRows.2 hrow)

/-- A key behind another of its field has no smaller scalar. -/
lemma cmp_of_key_lt {root : RootId} {field : QueryFieldId} {value value' : QueryScalar}
    {workspace workspace' : WorkspaceIncarnationId} {path path' : NormalizedRelativePath}
    (h : secondaryIndexKey root field value workspace path < secondaryIndexKey root field value' workspace' path') :
    value.cmp value' = .lt ∨ value = value' := by
  simp only [secondaryIndexKey, append_assoc, append_lt_append_iff] at h
  have hcompared := compared_encode value value'
  generalize value.cmp value' = o at hcompared
  cases hcompared with
  | lt => exact .inl rfl
  | eq heq => exact .inr heq
  | gt hahead => exact absurd h (hahead _ _).asymm

lemma fieldScanned {s : State} (hindex : IndexRows s) (root : RootId) (field : QueryFieldId) (limit maxBytes : ℕ) :
    FieldScanned s root field (s.scanItems (fieldScan root field limit maxBytes)) := by
  refine ⟨fun item => ?_, ?_⟩
  · rw [mem_scanItems_fieldScan]
    constructor
    · rintro ⟨key, bytes, rfl, hrow, hprefix⟩
      obtain ⟨root', field', value, workspace, path, rfl⟩ := hindex key bytes hrow
      obtain ⟨rfl, rfl⟩ := fieldPrefix_prefix_iff.1 hprefix
      exact ⟨value, workspace, path, bytes, rfl, hrow⟩
    · rintro ⟨value, workspace, path, bytes, rfl, hrow⟩
      exact ⟨_, bytes, rfl, hrow, fieldPrefix_prefix_iff.2 ⟨rfl, rfl⟩⟩
  · refine State.scanItems_sorted.imp fun hlt value workspace path value' workspace' path' hkey hkey' => ?_
    rw [hkey, hkey'] at hlt
    exact cmp_of_key_lt hlt

/-- **Ordered index keys.** The codes of the scalars have their order, and no code is or starts another; keys
can be read back; and a scan of a field goes through its rows by their scalars. -/
theorem ordered_index_keys (root : RootId) :
    (∀ a b : QueryScalar, a.cmp b = .lt ↔ encodeOrderedIndexScalar a < encodeOrderedIndexScalar b) ∧
    Function.Injective encodeOrderedIndexScalar ∧
    (∀ a b, encodeOrderedIndexScalar a <+: encodeOrderedIndexScalar b → a = b) ∧
    (∀ field value workspace path field' value' workspace' path',
      secondaryIndexKey root field value workspace path = secondaryIndexKey root field' value' workspace' path' →
      field = field' ∧ value = value' ∧ workspace = workspace' ∧ path = path') ∧
    ∀ s, IndexRows s → ∀ field limit maxBytes,
      FieldScanned s root field (s.scanItems (fieldScan root field limit maxBytes)) := by
  have hstarts : ∀ a b, encodeOrderedIndexScalar a <+: encodeOrderedIndexScalar b → a = b := by
    rintro a b ⟨rest, h⟩
    exact (compared_encode a b).eq_of_append (h.trans (append_nil _).symm)
  refine ⟨fun a b => (compared_encode a b).eq_lt_iff, fun a b h => hstarts a b (h ▸ prefix_rfl), hstarts, ?_,
    fun s hindex field => fieldScanned hindex root field⟩
  intro field value workspace path field' value' workspace' path' h
  exact (secondaryIndexKey_inj h).2

/-- The key of a number in the field `size`, at the path `a`. -/
def sampleIndexKey (value : Int64) : Key :=
  ⟨MetadataFamily.secondaryIndex.keyspace,
    secondaryIndexKey (.fill 16 1) ⟨"size", rfl⟩ (.signed value) (.fill 16 2) ⟨"a", rfl⟩⟩

/-- An index with two rows, the larger number written first. -/
def sampleIndex : State := State.empty.writeAll [.put (sampleIndexKey 9) [], .put (sampleIndexKey (-5)) []]

lemma sampleIndex_rows : IndexRows sampleIndex := by
  intro key bytes h
  by_cases hlast : (⟨MetadataFamily.secondaryIndex.keyspace, key⟩ : Key) = sampleIndexKey (-5)
  · exact ⟨_, _, _, _, _, congrArg Key.bytes hlast⟩
  by_cases hfirst : (⟨MetadataFamily.secondaryIndex.keyspace, key⟩ : Key) = sampleIndexKey 9
  · exact ⟨_, _, _, _, _, congrArg Key.bytes hfirst⟩
  rw [sampleIndex, State.get_writeAll_of_notMem (by simp [Mutation.key, Ne.symm hlast, Ne.symm hfirst])] at h
  cases h

/-- The scan of the two rows finds the smaller number first. -/
theorem ordered_index_keys_sample :
    sampleIndex.scanItems (fieldScan (.fill 16 1) ⟨"size", rfl⟩ 2 0) =
      [.row (sampleIndexKey (-5)).bytes [], .row (sampleIndexKey 9).bytes []] ∧
    FieldScanned sampleIndex (.fill 16 1) ⟨"size", rfl⟩
      (sampleIndex.scanItems (fieldScan (.fill 16 1) ⟨"size", rfl⟩ 2 0)) :=
  ⟨by decide +kernel, (ordered_index_keys (.fill 16 1)).2.2.2.2 _ sampleIndex_rows _ 2 0⟩

end NoKV.Meta
