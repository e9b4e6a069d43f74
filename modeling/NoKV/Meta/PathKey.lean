import NoKV.Types

/-!
# Keys of paths

A path is stored under its components: each byte is shifted up by one, a delimiter below all of them
stands between two components, and a terminator between the delimiter and the bytes ends the key. The type
`NormalizedRelativePath` compares paths component by component.

* `tail_lt_iff`: the keys compare component by component as well, but the end of a path comes last;
* `path_order_agrees_iff`: so the two orders agree on two paths unless one is an ancestor of the other.
-/

namespace NoKV.Meta

open Lib List

abbrev WorkspaceIncarnationId := FixedBytes 16
abbrev CommitId := FixedBytes 32

def PATH_COMPONENT_DELIMITER : UInt8 := 0
def PATH_EXACT_TERMINATOR : UInt8 := 1

/-! ### Paths -/

inductive NormalizedRelativePathError where
  | empty
  | absolute
  | emptyComponent (index : ℕ)
  | dotComponent (index : ℕ)
  | parentComponent (index : ℕ)
  | containsBackslash (component : ℕ)
  | containsNul (component : ℕ)
  | tooLong (bytes max : ℕ)
  | tooManyComponents (components max : ℕ)

namespace NormalizedRelativePath

open NormalizedRelativePathError

def MAX_BYTES : ℕ := 4096
def MAX_COMPONENTS : ℕ := 64

/-- The text between the slashes. A slash is one byte, and part of no other character. -/
def split (value : String) : List Bytes := (utf8 value).splitOn 0x2f

def checkComponent (component : Bytes) (index : ℕ) : Except NormalizedRelativePathError Unit := do
  refuseIf (MAX_COMPONENTS < index + 1) (tooManyComponents (index + 1) MAX_COMPONENTS)
  refuseIf (component = []) (emptyComponent index)
  refuseIf (component = utf8 ".") (dotComponent index)
  refuseIf (component = utf8 "..") (parentComponent index)
  refuseIf (0x5c ∈ component) (containsBackslash index)
  refuseIf (0 ∈ component) (containsNul index)

def validate (value : String) : Except NormalizedRelativePathError Unit := do
  refuseIf (utf8 value = []) empty
  refuseIf ((utf8 value).head? = some 0x2f) absolute
  refuseIf (MAX_BYTES < (utf8 value).length) (tooLong (utf8 value).length MAX_BYTES)
  (split value).zipIdx.forM fun (component, index) => checkComponent component index

end NormalizedRelativePath

structure NormalizedRelativePath where
  value : String
  valid : NormalizedRelativePath.validate value = .ok ()

def NormalizedRelativePath.components (path : NormalizedRelativePath) : List Bytes := split path.value

/-- Paths are compared component by component. -/
instance : LT NormalizedRelativePath := ⟨fun p q => p.components < q.components⟩

/-- A path proper above another. -/
def NormalizedRelativePath.Ancestor (p q : NormalizedRelativePath) : Prop :=
  p.components <+: q.components ∧ p.components ≠ q.components

/-! ### Keys -/

/-- The stored bytes of a component. -/
def shift (component : Bytes) : Bytes := component.map (· + 1)

def pushOrderedPathComponents (path : NormalizedRelativePath) : Bytes :=
  [PATH_COMPONENT_DELIMITER].intercalate (path.components.map shift)

def pathCurrentKey (root : RootId) (workspace : WorkspaceIncarnationId) (path : NormalizedRelativePath) :
    Bytes :=
  root.bytes ++ workspace.bytes ++ (pushOrderedPathComponents path ++ [PATH_EXACT_TERMINATOR])

def commitMemberKey (root : RootId) (commit : CommitId) (path : NormalizedRelativePath) : Bytes :=
  root.bytes ++ commit.bytes ++ (pushOrderedPathComponents path ++ [PATH_EXACT_TERMINATOR])

/-- What follows the first component in a key. -/
def tail : List Bytes → Bytes
  | [] => [PATH_EXACT_TERMINATOR]
  | c :: cs => PATH_COMPONENT_DELIMITER :: (shift c ++ tail cs)

lemma intercalate_append_terminator (c : Bytes) (cs : List Bytes) :
    [PATH_COMPONENT_DELIMITER].intercalate ((c :: cs).map shift) ++ [PATH_EXACT_TERMINATOR] =
      shift c ++ tail cs := by
  induction cs generalizing c with
  | nil => simp [tail]
  | cons _ _ ih =>
    rw [map_cons, map_cons, intercalate_cons_cons, ← map_cons, append_assoc,
      append_assoc, ih]
    rfl

/-- The bytes a component can have: no NUL, and none that UTF-8 does not use. -/
def Plain (component : Bytes) : Prop := ∀ b ∈ component, b ≠ 0 ∧ b ≠ 255

lemma mem_utf8EncodeChar {c : Char} {b : UInt8} (h : b ∈ String.utf8EncodeChar c) :
    b ≠ 255 ∧ (b < 128 → String.utf8EncodeChar c = [b]) := by
  have hne : ∀ n < 255, UInt8.ofNat n ≠ 255 := by
    intro n hn heq
    have := congrArg UInt8.toNat heq
    rw [toNat_ofNat_lt (by omega)] at this
    exact absurd this hn.ne
  -- the bytes of a longer character are not below 128
  have hlong : ∀ n < 255, 128 ≤ n → UInt8.ofNat n ≠ 255 ∧
      (UInt8.ofNat n < 128 → String.utf8EncodeChar c = [UInt8.ofNat n]) := by
    refine fun n hn hlow => ⟨hne n hn, fun hlt => absurd hlt ?_⟩
    rw [UInt8.lt_iff_toNat_lt, toNat_ofNat_lt (by omega)]
    exact hlow.not_gt
  unfold String.utf8EncodeChar at h hlong ⊢
  dsimp only at h hlong ⊢
  split at h
  · rename_i hle
    obtain rfl := mem_singleton.1 h
    exact ⟨hne _ (by omega), fun _ => if_pos hle⟩
  · split at h
    · rcases mem_pair.1 h with rfl | rfl <;> exact hlong _ (by omega) (by omega)
    · split at h <;> simp only [mem_cons, not_mem_nil, or_false] at h
      · rcases h with rfl | rfl | rfl <;> exact hlong _ (by omega) (by omega)
      · rcases h with rfl | rfl | rfl | rfl <;> exact hlong _ (by omega) (by omega)

lemma utf8_eq_flatMap (value : String) : utf8 value = value.toList.flatMap String.utf8EncodeChar := by
  unfold utf8 String.toUTF8
  rw [← String.utf8Encode_toList, List.utf8Encode, data_toByteArray]

lemma mem_of_mem_splitOn {x b : UInt8} {xs c : Bytes} (hc : c ∈ xs.splitOn x) (hb : b ∈ c) : b ∈ xs := by
  obtain ⟨i, hi⟩ := mem_iff_getElem?.1 hc
  have hmem : c ∈ (xs.splitOn x).intersperse [x] :=
    mem_of_getElem? (getElem?_intersperse_two_mul.trans hi)
  have hflat : b ∈ [x].intercalate (xs.splitOn x) := mem_flatten.2 ⟨c, hmem, hb⟩
  rwa [intercalate_splitOn] at hflat

lemma NormalizedRelativePath.validate_eq_ok {value : String} : validate value = .ok () ↔
    utf8 value ≠ [] ∧ (utf8 value).head? ≠ some 0x2f ∧ (utf8 value).length ≤ MAX_BYTES ∧
      ∀ c i, (split value)[i]? = some c → checkComponent c i = .ok () := by
  simp only [validate, bind_eq_ok, refuseIf_eq_ok, forM_eq_ok, Prod.forall, mk_mem_zipIdx_iff_getElem?,
    exists_const, not_lt, ne_eq]

lemma NormalizedRelativePath.plain (path : NormalizedRelativePath) : ∀ c ∈ path.components, Plain c := by
  intro c hc b hb
  constructor
  · rintro rfl
    obtain ⟨i, hi⟩ := mem_iff_getElem?.1 hc
    have hcheck := (validate_eq_ok.1 path.valid).2.2.2 c i hi
    simp only [checkComponent, bind_eq_ok, refuseIf_eq_ok, exists_and_right, exists_const] at hcheck
    exact hcheck.2.2.2.2.2 hb
  · have hmem := mem_of_mem_splitOn hc hb
    rw [utf8_eq_flatMap] at hmem
    obtain ⟨c, -, hb⟩ := mem_flatMap.1 hmem
    exact (mem_utf8EncodeChar hb).1

/-! ### The order of the keys -/

lemma Plain.lt_succ {b s : UInt8} (hb : b ≠ 0 ∧ b ≠ 255) (hs : s ≤ 1) : s < b + 1 := by
  obtain ⟨_, _⟩ := hb
  have := b.toNat_lt
  simp only [ne_eq, ← UInt8.toNat_inj, UInt8.le_iff_toNat_le, UInt8.lt_iff_toNat_lt, UInt8.toNat_add,
    UInt8.toNat_ofNat] at *
  omega

lemma Plain.succ_lt_succ {b c : UInt8} (hb : b ≠ 0 ∧ b ≠ 255) (hc : c ≠ 0 ∧ c ≠ 255) :
    b + 1 < c + 1 ↔ b < c := by
  obtain ⟨-, hb⟩ := hb
  obtain ⟨-, hc⟩ := hc
  have := b.toNat_lt
  have := c.toNat_lt
  simp only [ne_eq, ← UInt8.toNat_inj, UInt8.lt_iff_toNat_lt, UInt8.toNat_add, UInt8.toNat_ofNat] at *
  omega

/-- Stored components that differ decide the order, whatever ends them. -/
lemma shift_append_lt {a b : Bytes} (ha : Plain a) (hb : Plain b) (hne : a ≠ b) {s t : UInt8} (hs : s ≤ 1)
    (ht : t ≤ 1) (x y : Bytes) : shift a ++ s :: x < shift b ++ t :: y ↔ a < b := by
  induction a generalizing b with
  | nil =>
    cases b with
    | nil => exact absurd rfl hne
    | cons d =>
      have hlt := Plain.lt_succ (hb d mem_cons_self) hs
      simp [shift, cons_lt_cons_iff, hlt]
  | cons c a ih =>
    obtain ⟨hc, ha⟩ := forall_mem_cons.1 ha
    cases b with
    | nil =>
      have hlt := Plain.lt_succ hc ht
      simp [shift, cons_lt_cons_iff, hlt.not_gt, hlt.ne']
    | cons d b =>
      obtain ⟨hd, hb'⟩ := forall_mem_cons.1 hb
      have hrest : c = d → (shift a ++ s :: x < shift b ++ t :: y ↔ a < b) := by
        rintro rfl
        exact ih ha hb' fun h => hne (h ▸ rfl)
      have heq : c + 1 = d + 1 ↔ c = d := by simp
      show (c + 1) :: (shift a ++ s :: x) < (d + 1) :: (shift b ++ t :: y) ↔ _
      rw [cons_lt_cons_iff, cons_lt_cons_iff, Plain.succ_lt_succ hc hd, heq]
      exact or_congr Iff.rfl (and_congr_right hrest)

lemma tail_cons (cs : List Bytes) : ∃ s x, tail cs = s :: x ∧ s ≤ 1 := by
  cases cs with
  | nil => exact ⟨_, _, rfl, by decide⟩
  | cons => exact ⟨_, _, rfl, by decide⟩

lemma append_lt_append_iff {α : Type} [LinearOrder α] (a : List α) {x y : List α} : a ++ x < a ++ y ↔ x < y :=
  StrictMono.lt_iff_lt (f := (a ++ ·)) fun _ _ h => List.Lex.append_left _ h a

/-- **The order of the keys.** Component by component, with the end of a path behind everything below it. -/
theorem tail_lt_iff {cs ds : List Bytes} (hcs : ∀ c ∈ cs, Plain c) (hds : ∀ d ∈ ds, Plain d) :
    tail cs < tail ds ↔ (ds <+: cs ∧ ds ≠ cs) ∨ (cs < ds ∧ ¬ cs <+: ds) := by
  induction cs generalizing ds with
  | nil =>
    cases ds with
    | nil => simp [tail]
    | cons =>
      have hlt : ¬ PATH_EXACT_TERMINATOR < PATH_COMPONENT_DELIMITER := by decide
      have hne : PATH_EXACT_TERMINATOR ≠ PATH_COMPONENT_DELIMITER := by decide
      simp [tail, cons_lt_cons_iff, hlt, hne]
  | cons c cs ih =>
    cases ds with
    | nil =>
      have hlt : PATH_COMPONENT_DELIMITER < PATH_EXACT_TERMINATOR := by decide
      simp [tail, cons_lt_cons_iff, hlt]
    | cons d ds =>
      obtain ⟨hc, hcs⟩ := forall_mem_cons.1 hcs
      obtain ⟨hd, hds'⟩ := forall_mem_cons.1 hds
      rw [tail, tail, cons_lt_cons_iff, cons_lt_cons_iff, cons_prefix_cons,
        cons_prefix_cons]
      by_cases heq : c = d
      · subst heq
        simp [append_lt_append_iff, ih hcs hds']
      · obtain ⟨s, x, hs, hs'⟩ := tail_cons cs
        obtain ⟨t, y, ht, ht'⟩ := tail_cons ds
        rw [hs, ht, shift_append_lt hc hd heq hs' ht']
        simp [heq, Ne.symm heq]

section

variable (p q : NormalizedRelativePath)

lemma key_lt_iff (k : Bytes) : k ++ (pushOrderedPathComponents p ++ [PATH_EXACT_TERMINATOR]) <
      k ++ (pushOrderedPathComponents q ++ [PATH_EXACT_TERMINATOR]) ↔
    q.Ancestor p ∨ (p < q ∧ ¬ p.Ancestor q) := by
  have hlead : p < q → (p.components <+: q.components ↔ p.Ancestor q) := by
    intro hlt
    have hne : p.components ≠ q.components := LT.lt.ne hlt
    exact (and_iff_left hne).symm
  have htail : tail p.components < tail q.components ↔ q.Ancestor p ∨ (p < q ∧ ¬ p.Ancestor q) := by
    rw [tail_lt_iff p.plain q.plain]
    exact or_congr Iff.rfl (and_congr_right fun hlt => not_congr (hlead hlt))
  have hnonempty : ∀ path : NormalizedRelativePath, path.components ≠ [] := fun _ => splitOn_ne_nil _ _
  rw [append_lt_append_iff, ← htail]
  unfold pushOrderedPathComponents
  obtain ⟨c, _, hp⟩ := exists_cons_of_ne_nil (hnonempty p)
  obtain ⟨d, _, hq⟩ := exists_cons_of_ne_nil (hnonempty q)
  rw [hp, hq, intercalate_append_terminator, intercalate_append_terminator]
  simp [tail]

lemma NormalizedRelativePath.Ancestor.lt {p q : NormalizedRelativePath} (h : p.Ancestor q) : p < q := by
  obtain ⟨⟨_, hrest⟩, hne⟩ := h
  have hle : ¬ q.components < p.components := hrest ▸ le_append_left
  exact lt_of_le_of_ne (not_lt.1 hle) hne

/-- **Where the two orders agree.** -/
theorem path_order_agrees_iff (root : RootId) (workspace : WorkspaceIncarnationId) (commit : CommitId) :
    ((p < q ↔ pathCurrentKey root workspace p < pathCurrentKey root workspace q) ↔
      ¬ (p.Ancestor q ∨ q.Ancestor p)) ∧
    ((p < q ↔ commitMemberKey root commit p < commitMemberKey root commit q) ↔
      ¬ (p.Ancestor q ∨ q.Ancestor p)) := by
  have hpq : p.Ancestor q → p < q := fun h => h.lt
  have hqp : q.Ancestor p → ¬ p < q := fun h => lt_asymm (α := List Bytes) h.lt
  constructor
  · rw [pathCurrentKey, pathCurrentKey, key_lt_iff]
    tauto
  · rw [commitMemberKey, commitMemberKey, key_lt_iff]
    tauto

end

/-- A path and a path below it. -/
theorem path_order_disagrees : ∃ (root : RootId) (workspace : WorkspaceIncarnationId)
    (p q : NormalizedRelativePath), p < q ∧ pathCurrentKey root workspace q < pathCurrentKey root workspace p :=
  ⟨.fill 16 0, .fill 16 0, ⟨"a", rfl⟩, ⟨"a/b", rfl⟩, by decide, by decide⟩

end NoKV.Meta
