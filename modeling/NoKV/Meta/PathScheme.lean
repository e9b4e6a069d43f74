import NoKV.Lib.Rollup
import NoKV.Meta.PathKey
import NoKV.Meta.Recovery

/-!
# The key scheme of paths

Behind the identities of its root and workspace a key is a path's stem without the first delimiter, and
the terminator. Each component of a stem ends at the next byte below two, so the stem can be read back.

* `stem_prefix_iff`: what starts a key, with the terminator a path itself and with the delimiter what is above;
* `path_key_scheme`: keys decode to their paths, and the prefix of a directory captures what is below it.
-/

namespace NoKV.Meta

open Lib List NormalizedRelativePath RecoveryDecoder

def pathChildPrefix (root : RootId) (workspace : WorkspaceIncarnationId)
    (parent : Option NormalizedRelativePath) : Bytes :=
  root.bytes ++ workspace.bytes ++
    parent.elim [] fun parent => pushOrderedPathComponents parent ++ [PATH_COMPONENT_DELIMITER]

def NormalizedRelativePath.new (value : String) : Option NormalizedRelativePath :=
  match valid : validate value with
  | .ok () => some ⟨value, valid⟩
  | .error _ => none

def decodePathComponents (encoded : Bytes) : Option NormalizedRelativePath :=
  if encoded.contains PATH_EXACT_TERMINATOR then none
  else do
    let decoded := encoded.map fun byte => if byte = PATH_COMPONENT_DELIMITER then 0x2f else byte - 1
    let path ← new (← fromUtf8 decoded)
    if pushOrderedPathComponents path = encoded then some path else none

/-- The path of a key with the given last byte. -/
def decodePathKey (last : UInt8) (root : RootId) (workspace : WorkspaceIncarnationId) (key : Bytes) :
    Option NormalizedRelativePath :=
  if key.length < 34 ∨ key.take 16 ≠ root.bytes ∨ (key.drop 16).take 16 ≠ workspace.bytes ∨
      key.getLast? ≠ some last then none
  else decodePathComponents (key.drop 32).dropLast

def decodePathCurrentKey := decodePathKey PATH_EXACT_TERMINATOR
def decodePathCommonPrefix := decodePathKey PATH_COMPONENT_DELIMITER

/-! ### Stems -/

/-- Every component behind a delimiter. -/
def stem (cs : List Bytes) : Bytes := cs.flatMap fun c => PATH_COMPONENT_DELIMITER :: shift c

lemma cons_intercalate (x : UInt8) {cs : List Bytes} (hcs : cs ≠ []) :
    x :: [x].intercalate cs = cs.flatMap (x :: ·) := by
  induction cs with
  | nil => exact absurd rfl hcs
  | cons c cs ih =>
    cases cs with
    | nil => simp
    | cons => simpa [intercalate_cons_cons] using ih (cons_ne_nil _ _)

lemma NormalizedRelativePath.components_ne_nil (p : NormalizedRelativePath) : p.components ≠ [] :=
  splitOn_ne_nil _ _

lemma cons_pushOrderedPathComponents (p : NormalizedRelativePath) :
    PATH_COMPONENT_DELIMITER :: pushOrderedPathComponents p = stem p.components := by
  unfold pushOrderedPathComponents
  rw [cons_intercalate _ (by simpa using p.components_ne_nil), flatMap_map, stem]

/-- A stored component ends where a byte below two follows. -/
lemma shift_append_prefix_iff {a b x y : Bytes} {s t : UInt8} (ha : Plain a) (hb : Plain b) (hs : s ≤ 1)
    (ht : t ≤ 1) : shift a ++ s :: x <+: shift b ++ t :: y ↔ a = b ∧ s :: x <+: t :: y := by
  induction a generalizing b with
  | nil =>
    cases b with
    | nil => simp [shift]
    | cons d =>
      have hlt := Plain.lt_succ (hb d mem_cons_self) hs
      simp [shift, cons_prefix_cons, hlt.ne]
  | cons c a ih =>
    obtain ⟨hc, ha⟩ := forall_mem_cons.1 ha
    cases b with
    | nil =>
      have hlt := Plain.lt_succ hc ht
      simp [shift, cons_prefix_cons, hlt.ne']
    | cons =>
      have hrest := ih ha (forall_mem_cons.1 hb).2
      simp only [shift, map_cons, cons_append, cons_prefix_cons] at hrest ⊢
      simp [hrest, and_assoc]

/-- What follows a component starts with a byte below two. -/
lemma stem_append_cons (cs : List Bytes) {e : UInt8} (he : e ≤ 1) :
    ∃ s x, stem cs ++ [e] = s :: x ∧ s ≤ 1 := by
  cases cs with
  | nil => exact ⟨e, [], rfl, he⟩
  | cons => exact ⟨_, _, rfl, by decide⟩

lemma stem_prefix_iff {cs ds : List Bytes} {e : UInt8} (hcs : ∀ c ∈ cs, Plain c) (hds : ∀ d ∈ ds, Plain d)
    (he : e = PATH_COMPONENT_DELIMITER ∨ e = PATH_EXACT_TERMINATOR) :
    stem cs ++ [e] <+: stem ds ++ [PATH_EXACT_TERMINATOR] ↔
      cs <+: ds ∧ (e = PATH_EXACT_TERMINATOR ↔ cs = ds) := by
  have hle : e ≤ 1 := by rcases he with rfl | rfl <;> decide
  have hne : PATH_COMPONENT_DELIMITER ≠ PATH_EXACT_TERMINATOR := by decide
  induction cs generalizing ds with
  | nil =>
    cases ds with
    | nil => simp [stem, cons_prefix_cons]
    | cons => rcases he with rfl | rfl <;> simp [stem, cons_prefix_cons, hne, hne.symm]
  | cons c cs ih =>
    cases ds with
    | nil => simp [stem, cons_prefix_cons, hne]
    | cons d ds =>
      obtain ⟨hc, hcs⟩ := forall_mem_cons.1 hcs
      obtain ⟨hd, hds⟩ := forall_mem_cons.1 hds
      obtain ⟨s, x, hs, hs'⟩ := stem_append_cons cs hle
      obtain ⟨t, y, ht, ht'⟩ := stem_append_cons ds (e := PATH_EXACT_TERMINATOR) (by decide)
      have hrest : shift c ++ (stem cs ++ [e]) <+: shift d ++ (stem ds ++ [PATH_EXACT_TERMINATOR]) ↔
          c = d ∧ cs <+: ds ∧ (e = PATH_EXACT_TERMINATOR ↔ cs = ds) := by
        rw [hs, ht, shift_append_prefix_iff hc hd hs' ht', ← hs, ← ht]
        exact and_congr_right fun _ => ih hcs hds
      rw [stem, stem, flatMap_cons, flatMap_cons, append_assoc, append_assoc, cons_append, cons_append,
        cons_prefix_cons]
      show _ ∧ shift c ++ (stem cs ++ [e]) <+: shift d ++ (stem ds ++ [PATH_EXACT_TERMINATOR]) ↔ _
      rw [hrest, cons_prefix_cons]
      by_cases heq : c = d <;> simp [heq]

/-! ### Decoding -/

lemma fromUtf8_utf8 (s : String) : fromUtf8 (utf8 s) = some s :=
  dif_pos s.isValidUTF8

lemma NormalizedRelativePath.new_value (p : NormalizedRelativePath) : new p.value = some p := by
  unfold new
  split
  · rfl
  · rename_i heq
    rw [p.valid] at heq
    cases heq

lemma mem_stem {cs : List Bytes} {b : UInt8} (hcs : ∀ c ∈ cs, Plain c) (hb : b ∈ stem cs) :
    b ≠ PATH_EXACT_TERMINATOR := by
  simp only [stem, shift, mem_flatMap, mem_cons, mem_map] at hb
  obtain ⟨c, hc, rfl | ⟨a, ha, rfl⟩⟩ := hb
  · decide
  · exact (Plain.lt_succ (hcs c hc a ha) le_rfl).ne'

lemma map_stem {cs : List Bytes} (hcs : ∀ c ∈ cs, Plain c) :
    (stem cs).map (fun byte => if byte = PATH_COMPONENT_DELIMITER then 0x2f else byte - 1) =
      cs.flatMap (0x2f :: ·) := by
  induction cs with
  | nil => rfl
  | cons c _ ih =>
    obtain ⟨hc, hcs⟩ := forall_mem_cons.1 hcs
    have hmap : (shift c).map (fun byte => if byte = PATH_COMPONENT_DELIMITER then 0x2f else byte - 1) = c := by
      rw [shift, map_map]
      refine (map_congr_left fun b hb => ?_).trans (map_id c)
      have hne := Plain.lt_succ (s := PATH_COMPONENT_DELIMITER) (hc b hb) (by decide)
      simp [hne.ne']
    rw [stem, flatMap_cons, map_append, flatMap_cons, map_cons, hmap, ← ih hcs]
    rfl

/-- The bytes of a path from its stored form. -/
lemma map_pushOrderedPathComponents (p : NormalizedRelativePath) : (pushOrderedPathComponents p).map
    (fun byte => if byte = PATH_COMPONENT_DELIMITER then 0x2f else byte - 1) = utf8 p.value := by
  have hdecoded := map_stem p.plain
  rw [← cons_pushOrderedPathComponents, ← cons_intercalate _ p.components_ne_nil, components, split,
    intercalate_splitOn] at hdecoded
  exact (cons.inj hdecoded).2

lemma decodePathComponents_eq_some {encoded : Bytes} {p : NormalizedRelativePath} :
    decodePathComponents encoded = some p ↔ pushOrderedPathComponents p = encoded := by
  constructor
  · intro h
    unfold decodePathComponents at h
    split at h
    · cases h
    · simp only [Option.bind_eq_bind, Option.bind_eq_some_iff] at h
      obtain ⟨_, _, _, _, h⟩ := h
      split at h
      · cases h
        assumption
      · cases h
  · rintro rfl
    have hend : PATH_EXACT_TERMINATOR ∉ pushOrderedPathComponents p :=
      fun h => mem_stem p.plain (cons_pushOrderedPathComponents p ▸ mem_cons_of_mem _ h) rfl
    unfold decodePathComponents
    rw [if_neg (by simpa using hend), map_pushOrderedPathComponents]
    simp [fromUtf8_utf8, p.new_value]

lemma decodePathKey_eq_some {last : UInt8} {root : RootId} {workspace : WorkspaceIncarnationId} {key : Bytes}
    {p : NormalizedRelativePath} : decodePathKey last root workspace key = some p ↔
      key = root.bytes ++ workspace.bytes ++ (pushOrderedPathComponents p ++ [last]) := by
  unfold decodePathKey
  constructor
  · intro h
    split at h
    · cases h
    · rename_i hkey
      simp only [not_or, not_lt, not_not] at hkey
      obtain ⟨hlen, hroot, hworkspace, hlast⟩ := hkey
      have hdrop : (key.drop 32).getLast? = some last := by
        rw [getLast?_drop, if_neg (by omega), hlast]
      rw [decodePathComponents_eq_some.1 h, dropLast_append_getLast? _ hdrop, ← hroot, ← hworkspace,
        append_assoc, show key.drop 32 = (key.drop 16).drop 16 by rw [drop_drop], take_append_drop,
        take_append_drop]
  · rintro rfl
    have hpos : pushOrderedPathComponents p ≠ [] := by
      intro h
      have hvalue := map_pushOrderedPathComponents p
      rw [h, map_nil] at hvalue
      exact (validate_eq_ok.1 p.valid).1 hvalue.symm
    have hlen := length_pos_iff.2 hpos
    rw [if_neg]
    · rw [drop_left' (by simp), dropLast_concat]
      exact decodePathComponents_eq_some.2 rfl
    · rw [append_assoc, take_left' (by simp), drop_left' (by simp), take_left' (by simp)]
      simp [getLast?_append]
      omega

/-! ### What a path is below -/

/-- Up to a slash the bytes of a text are a text. -/
lemma exists_utf8_of_slash {chars : List Char} {x y : Bytes}
    (h : chars.flatMap String.utf8EncodeChar = x ++ 0x2f :: y) :
    ∃ front : List Char, front.flatMap String.utf8EncodeChar = x := by
  induction chars generalizing x with
  | nil => simp at h
  | cons c _ ih =>
    rw [flatMap_cons] at h
    rcases append_eq_append_iff.1 h with ⟨rest, rfl, hrest⟩ | ⟨rest, hc, hrest⟩
    · obtain ⟨front, rfl⟩ := ih hrest
      exact ⟨c :: front, flatMap_cons⟩
    · cases rest with
      | nil => exact ⟨[c], by simpa using hc⟩
      | cons =>
        obtain ⟨rfl, -⟩ := cons.inj hrest
        -- a slash is no part of another character
        have hslash := (mem_utf8EncodeChar (hc ▸ mem_append_right _ mem_cons_self)).2 (by decide)
        rw [hc] at hslash
        cases x with
        | nil => exact ⟨[], rfl⟩
        | cons => simp at hslash

lemma exists_front {q : NormalizedRelativePath} {x y : Bytes} (h : utf8 q.value = x ++ 0x2f :: y) :
    ∃ p : NormalizedRelativePath, utf8 p.value = x := by
  rw [utf8_eq_flatMap] at h
  obtain ⟨front, rfl⟩ := exists_utf8_of_slash h
  have hutf8 : utf8 (String.ofList front) = front.flatMap String.utf8EncodeChar := by
    rw [utf8_eq_flatMap, String.toList_ofList]
  rw [← hutf8, ← utf8_eq_flatMap] at h
  obtain ⟨_, hhead, hlen, hcheck⟩ := validate_eq_ok.1 q.valid
  refine ⟨⟨String.ofList front, validate_eq_ok.2 ⟨?_, ?_, ?_, ?_⟩⟩, hutf8⟩
  · intro hnil
    rw [h, hnil] at hhead
    exact hhead rfl
  · intro hslash
    rw [h, head?_append, hslash] at hhead
    exact hhead rfl
  · rw [h, length_append] at hlen
    omega
  · intro c i hi
    refine hcheck c i ?_
    unfold split
    rw [h, splitOn_append_cons_self]
    exact (getElem?_append_left (List.getElem?_eq_some_iff.1 hi).1).trans hi

lemma notMem_of_mem_splitOn {x : UInt8} {xs c : Bytes} (hc : c ∈ xs.splitOn x) : x ∉ c := by
  induction xs generalizing c with
  | nil => simp_all [splitOn_nil]
  | cons y xs ih =>
    obtain ⟨d, _, hd⟩ := exists_cons_of_ne_nil (splitOn_ne_nil x xs)
    rw [splitOn_cons_eq_if_modifyHead, hd, modifyHead_cons] at hc
    rw [hd] at ih
    split at hc <;> grind

/-- The path of the first components of another. -/
lemma exists_components_eq {q : NormalizedRelativePath} (cs ds : List Bytes) (hcs : cs ≠ []) (hds : ds ≠ [])
    (h : q.components = cs ++ ds) : ∃ p : NormalizedRelativePath, p.components = cs := by
  have hvalue : 0x2f :: utf8 q.value = 0x2f :: ([0x2f].intercalate cs ++ 0x2f :: [0x2f].intercalate ds) := by
    rw [cons_intercalate _ hds, ← cons_append, cons_intercalate _ hcs, ← flatMap_append, ← h,
      ← cons_intercalate _ q.components_ne_nil, components, split, intercalate_splitOn]
  obtain ⟨p, hp⟩ := exists_front (cons.inj hvalue).2
  refine ⟨p, ?_⟩
  rw [components, split, hp]
  exact splitOn_intercalate _
    (fun c hc => notMem_of_mem_splitOn (h ▸ mem_append_left ds hc : c ∈ q.components)) hcs

/-! ### The scheme -/

def parentComponents (parent : Option NormalizedRelativePath) : List Bytes := parent.elim [] components

/-- A path below a directory, or in the workspace. -/
def Below (parent : Option NormalizedRelativePath) (q : NormalizedRelativePath) : Prop :=
  parent.elim True fun parent => parent.Ancestor q

lemma below_iff {parent : Option NormalizedRelativePath} {q : NormalizedRelativePath} :
    Below parent q ↔ parentComponents parent <+: q.components ∧ parentComponents parent ≠ q.components := by
  cases parent with
  | none => simpa [Below, parentComponents] using q.components_ne_nil.symm
  | some => exact Iff.rfl

section

variable {root root' : RootId} {workspace workspace' : WorkspaceIncarnationId}

/-- The keys under a prefix are those of its root and workspace that continue it. -/
lemma ids_append_prefix_iff {x y : Bytes} : root.bytes ++ workspace.bytes ++ x <+:
    root'.bytes ++ workspace'.bytes ++ y ↔
      root = root' ∧ workspace = workspace' ∧
        PATH_COMPONENT_DELIMITER :: x <+: PATH_COMPONENT_DELIMITER :: y := by
  constructor
  · rintro ⟨rest, h⟩
    rw [append_assoc, append_assoc, append_assoc] at h
    obtain ⟨hroot, h⟩ := append_inj h (by simp)
    obtain ⟨hworkspace, h⟩ := append_inj h (by simp)
    exact ⟨FixedBytes.ext_bytes hroot, FixedBytes.ext_bytes hworkspace, rest, congrArg _ h⟩
  · rintro ⟨rfl, rfl, h⟩
    exact (prefix_append_right_inj _).2 (cons_prefix_cons.1 h).2

lemma cons_pushOrderedPathComponents_append (p : NormalizedRelativePath) (e : UInt8) :
    PATH_COMPONENT_DELIMITER :: (pushOrderedPathComponents p ++ [e]) = stem p.components ++ [e] :=
  congrArg (· ++ _) (cons_pushOrderedPathComponents p)

lemma cons_parent (parent : Option NormalizedRelativePath) : PATH_COMPONENT_DELIMITER ::
    parent.elim [] (fun parent => pushOrderedPathComponents parent ++ [PATH_COMPONENT_DELIMITER]) =
      stem (parentComponents parent) ++ [PATH_COMPONENT_DELIMITER] := by
  cases parent with
  | none => rfl
  | some parent => exact cons_pushOrderedPathComponents_append parent _

variable {parent : Option NormalizedRelativePath} {p q : NormalizedRelativePath}

lemma pathCurrentKey_prefix_iff : pathCurrentKey root workspace p <+: pathCurrentKey root' workspace' q ↔
    root = root' ∧ workspace = workspace' ∧ p.components = q.components := by
  unfold pathCurrentKey
  rw [ids_append_prefix_iff, cons_pushOrderedPathComponents_append, cons_pushOrderedPathComponents_append,
    stem_prefix_iff p.plain q.plain (.inr rfl)]
  simp +contextual

lemma eq_of_pathCurrentKey_prefix (h : pathCurrentKey root workspace p <+: pathCurrentKey root' workspace' q) :
    root = root' ∧ workspace = workspace' ∧ p = q := by
  obtain ⟨rfl, rfl, hcomponents⟩ := pathCurrentKey_prefix_iff.1 h
  have hpush : pathCurrentKey root workspace p = pathCurrentKey root workspace q := by
    rw [pathCurrentKey, pathCurrentKey, pushOrderedPathComponents, hcomponents, ← pushOrderedPathComponents]
  exact ⟨rfl, rfl, Option.some.inj ((decodePathKey_eq_some.2 rfl).symm.trans (decodePathKey_eq_some.2 hpush))⟩

lemma pathChildPrefix_prefix_iff : pathChildPrefix root workspace parent <+: pathCurrentKey root' workspace' q ↔
    root = root' ∧ workspace = workspace' ∧ Below parent q := by
  have hplain : ∀ c ∈ parentComponents parent, Plain c := by
    cases parent with
    | none => exact fun _ hc => absurd hc not_mem_nil
    | some parent => exact parent.plain
  have hne : PATH_COMPONENT_DELIMITER ≠ PATH_EXACT_TERMINATOR := by decide
  unfold pathCurrentKey pathChildPrefix
  rw [ids_append_prefix_iff, cons_parent, cons_pushOrderedPathComponents_append,
    stem_prefix_iff hplain q.plain (.inl rfl), below_iff]
  simp [hne]

/-- A key below a directory rolls up to the delimiter behind the first component below it. -/
lemma groupOf_pathCurrentKey {group : Bytes} (hbelow : Below parent q)
    (h : groupOf (pathChildPrefix root workspace parent) (some PATH_COMPONENT_DELIMITER)
      (pathCurrentKey root workspace q) = some group) :
    ∃ p : NormalizedRelativePath, p.components = q.components.take ((parentComponents parent).length + 1) ∧
      group = root.bytes ++ workspace.bytes ++ (pushOrderedPathComponents p ++ [PATH_COMPONENT_DELIMITER]) := by
  obtain ⟨⟨rest, hrest⟩, hne⟩ := below_iff.1 hbelow
  obtain ⟨e, rest, rfl⟩ := exists_cons_of_ne_nil (l := rest) fun hnil => hne (by simpa [hnil] using hrest)
  -- a stem that starts with the parent's components continues its prefix
  have hkey : ∀ {p : NormalizedRelativePath} {ds : List Bytes} {last : UInt8},
      p.components = parentComponents parent ++ e :: ds →
      root.bytes ++ workspace.bytes ++ (pushOrderedPathComponents p ++ [last]) =
        pathChildPrefix root workspace parent ++ (shift e ++ (stem ds ++ [last])) := by
    intro p ds last hp
    have hcons := cons_pushOrderedPathComponents_append p last
    rw [hp, stem, flatMap_append, flatMap_cons, ← stem, ← stem] at hcons
    have hparent := cons_parent parent
    rw [pathChildPrefix, append_assoc (root.bytes ++ workspace.bytes)]
    refine congrArg _ (cons_injective (a := PATH_COMPONENT_DELIMITER) ?_)
    rw [hcons, ← cons_append, hparent]
    simp
  have hno : (shift e).findIdx? (· == PATH_COMPONENT_DELIMITER) = none := by
    have he : Plain e := q.plain e (hrest ▸ mem_append_right _ mem_cons_self)
    rw [findIdx?_eq_none_iff]
    intro b hb
    obtain ⟨a, ha, rfl⟩ := mem_map.1 hb
    exact beq_eq_false_iff_ne.2 (Plain.lt_succ (he a ha) (by decide)).ne'
  rw [pathCurrentKey, hkey hrest.symm, groupOf, drop_left, Option.bind_some, findIdx?_append, hno,
    Option.none_or] at h
  cases rest with
  | nil => cases h
  | cons f rest =>
    obtain ⟨p, hp⟩ := exists_components_eq (q := q) (parentComponents parent ++ [e]) (f :: rest) (by simp)
      (by simp) (by simp [← hrest])
    refine ⟨p, ?_, ?_⟩
    · rw [hp, ← hrest, append_cons _ e (f :: rest), take_left' (by simp)]
    · obtain rfl : take _ _ = group := Option.some.inj h
      rw [hkey hp, stem, flatMap_cons, cons_append, cons_append, append_cons (shift e),
        ← append_assoc _ (shift e ++ _)]
      exact take_left' (by simp [Nat.add_assoc])

variable (root workspace)

/-- **The key scheme.** Keys decode to their paths and only keys do, no key starts another, the prefix of a
directory starts exactly the keys below it, and their roll-ups decode to the first component below it. -/
theorem path_key_scheme :
    (∀ key p, decodePathCurrentKey root workspace key = some p ↔ key = pathCurrentKey root workspace p) ∧
    (∀ root' workspace' p q, pathCurrentKey root workspace p <+: pathCurrentKey root' workspace' q →
      root = root' ∧ workspace = workspace' ∧ p = q) ∧
    (∀ parent root' workspace' q,
      pathChildPrefix root workspace parent <+: pathCurrentKey root' workspace' q ↔
        root = root' ∧ workspace = workspace' ∧ Below parent q) ∧
    ∀ parent q group, Below parent q → groupOf (pathChildPrefix root workspace parent)
        (some PATH_COMPONENT_DELIMITER) (pathCurrentKey root workspace q) = some group →
      ∃ p, decodePathCommonPrefix root workspace group = some p ∧
        p.components = q.components.take ((parentComponents parent).length + 1) := by
  refine ⟨fun key p => decodePathKey_eq_some, fun _ _ _ _ => eq_of_pathCurrentKey_prefix,
    fun _ _ _ _ => pathChildPrefix_prefix_iff, ?_⟩
  intro parent q group hbelow h
  obtain ⟨p, hp, hgroup⟩ := groupOf_pathCurrentKey hbelow h
  exact ⟨p, decodePathKey_eq_some.2 hgroup, hp⟩

end

end NoKV.Meta
