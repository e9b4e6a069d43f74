import NoKV.Lib.Bytes

/-!
# Paging and rolling up ordered rows

Rows in key order are folded at a delimiter: every key whose suffix after the scanned prefix holds
the delimiter is represented by one group, the key up to and including the delimiter. The folded
items are again in strict key order (`rollup_sorted`), so an item key is a cursor: the items after
the last item of a page are the items that page did not return (`after_last`).
-/

namespace NoKV.Lib

open List

/-! ### Prefixes in the byte order -/

/-- What lies between a string and an extension of it extends it too. -/
lemma prefix_of_between {g k z : Bytes} (h1 : ¬ k < g) (h2 : k < g ++ z) : g <+: k := by
  induction g generalizing k with
  | nil => exact nil_prefix
  | cons a g ih =>
    cases k with
    | nil => exact absurd (nil_lt_cons a g) h1
    | cons =>
      rw [cons_append, cons_lt_cons_iff] at h2
      rw [cons_lt_cons_iff, not_or, not_and] at h1
      rcases h2 with h2 | ⟨rfl, h2⟩
      · exact absurd h2 h1.1
      · exact cons_prefix_cons.2 ⟨rfl, ih (h1.2 rfl) h2⟩

lemma not_lt_of_isPrefix {g k : Bytes} (h : g <+: k) : ¬ k < g := by
  induction g generalizing k with
  | nil => exact not_lt_nil k
  | cons a g ih =>
    cases k with
    | nil => simp at h
    | cons =>
      obtain ⟨rfl, hgk⟩ := cons_prefix_cons.1 h
      rw [cons_lt_cons_iff, not_or, not_and]
      exact ⟨lt_irrefl _, fun _ => ih hgk⟩

/-! ### Items -/

/-- One row, or one group of rows folded at the delimiter. -/
inductive Item (ν : Type) where
  | row (key : Bytes) (value : ν)
  | group (key : Bytes)
  deriving DecidableEq

namespace Item

variable {ν μ : Type}

def key : Item ν → Bytes
  | row k _ => k
  | group k => k

/-- Change the value of a row. -/
def mapValue (f : ν → μ) : Item ν → Item μ
  | row k v => row k (f v)
  | group k => group k

@[simp] lemma key_mapValue (f : ν → μ) (i : Item ν) : (i.mapValue f).key = i.key := by
  cases i <;> rfl

end Item

section Rollup

variable {ν μ : Type} (p : Bytes) (d : Option UInt8)

/-- The group of a key: the key up to the first delimiter after the prefix `p`. -/
def groupOf (k : Bytes) : Option Bytes :=
  d.bind fun d => ((k.drop p.length).findIdx? (· == d)).map fun offset => k.take (p.length + offset + 1)

/-- The item that represents a row. -/
def itemOf (r : Bytes × ν) : Item ν :=
  match groupOf p d r.1 with
  | some g => .group g
  | none => .row r.1 r.2

/-- The items of ordered rows, given the key of the item before them. -/
def rollupFrom : Option Bytes → List (Bytes × ν) → List (Item ν)
  | _, [] => []
  | last, r :: rs =>
    let item := itemOf p d r
    if last = some item.key then rollupFrom last rs else item :: rollupFrom (some item.key) rs

/-- The items of ordered rows. -/
def rollup (rs : List (Bytes × ν)) : List (Item ν) := rollupFrom p d none rs

/-! ### What a group is -/

variable {p d}

/-- A group is the key up to a delimiter, with no delimiter between the prefix and it. -/
lemma groupOf_spec {k g : Bytes} (hk : p <+: k) (h : groupOf p d k = some g) :
    ∃ c x, d = some c ∧ g = p ++ x ++ [c] ∧ c ∉ x ∧ g <+: k := by
  obtain ⟨s, rfl⟩ := hk
  unfold groupOf at h
  cases d with
  | none => cases h
  | some c =>
    simp only [Option.bind_some, drop_left, Option.map_eq_some_iff] at h
    obtain ⟨i, hi, rfl⟩ := h
    obtain ⟨hlt, hc, hbefore⟩ := findIdx?_eq_some_iff_getElem.1 hi
    have hc : s[i] = c := by simpa using hc
    refine ⟨c, s.take i, rfl, ?_, ?_, take_prefix _ _⟩
    · rw [Nat.add_assoc, take_length_add_append, take_succ_eq_append_getElem hlt, hc,
        append_assoc]
    · intro hmem
      obtain ⟨j, hj, hjc⟩ := mem_iff_getElem.1 hmem
      rw [length_take] at hj
      have hji : j < i := by omega
      have := hbefore j hji
      rw [getElem_take] at hjc
      simp [hjc] at this

/-- A key that extends a group belongs to it. -/
lemma groupOf_of_isPrefix {c : UInt8} {x k : Bytes} (hx : c ∉ x) (h : p ++ x ++ [c] <+: k) :
    groupOf p (some c) k = some (p ++ x ++ [c]) := by
  obtain ⟨s, rfl⟩ := h
  have e : (p ++ x ++ [c] ++ s).drop p.length = x ++ c :: s := by simp
  have hi : (x ++ c :: s).findIdx? (· == c) = some x.length := by
    refine findIdx?_eq_some_iff_getElem.2 ⟨by simp, by simp, ?_⟩
    intro j hj
    rw [getElem_append_left hj]
    have : x[j] ≠ c := fun h => hx (h ▸ getElem_mem hj)
    simpa using this
  unfold groupOf
  rw [Option.bind_some, e, hi, Option.map_some]
  congr 1
  refine take_left' ?_
  simp [Nat.add_assoc]

/-! ### The items are in strict key order -/

lemma itemOf_key_eq (r : Bytes × ν) : (itemOf p d r).key = (groupOf p d r.1).getD r.1 := by
  unfold itemOf
  cases groupOf p d r.1 <;> rfl

lemma itemOf_mono {a b : Bytes × ν} (ha : p <+: a.1) (hb : p <+: b.1) (h : a.1 < b.1) :
    (itemOf p d a).key = (itemOf p d b).key ∨ (itemOf p d a).key < (itemOf p d b).key := by
  rw [itemOf_key_eq, itemOf_key_eq]
  cases hgb : groupOf p d b.1 with
  | none =>
    right
    cases hga : groupOf p d a.1 with
    | none => exact h
    | some =>
      obtain ⟨c, x, -, -, -, hpre⟩ := groupOf_spec ha hga
      exact lt_of_le_of_lt (not_lt.1 (not_lt_of_isPrefix hpre)) h
  | some =>
    obtain ⟨c', y, hd', rfl, hy, hpre'⟩ := groupOf_spec hb hgb
    obtain ⟨z, hz⟩ := hpre'
    by_cases hlt : a.1 < p ++ y ++ [c']
    · right
      cases hga : groupOf p d a.1 with
      | none => exact hlt
      | some =>
        obtain ⟨c, x, -, -, -, hpre⟩ := groupOf_spec ha hga
        exact lt_of_le_of_lt (not_lt.1 (not_lt_of_isPrefix hpre)) hlt
    · -- the smaller row is not below the group of the larger one, so it lies in that group
      left
      have hin : p ++ y ++ [c'] <+: a.1 := prefix_of_between hlt (hz ▸ h)
      rw [hd', groupOf_of_isPrefix hy hin]
      rfl

/-- Rows with one item key share the item: they lie in one group. -/
lemma itemOf_eq_of_key {a b : Bytes × ν} (ha : p <+: a.1) (hb : p <+: b.1) (h : a.1 < b.1)
    (hkey : (itemOf p d a).key = (itemOf p d b).key) : itemOf p d a = itemOf p d b := by
  rw [itemOf_key_eq, itemOf_key_eq] at hkey
  unfold itemOf
  cases hga : groupOf p d a.1 with
  | none =>
    cases hgb : groupOf p d b.1 with
    | none =>
      rw [hga, hgb, Option.getD_none, Option.getD_none] at hkey
      exact absurd hkey h.ne
    | some =>
      -- a row key that equals a group would belong to that group
      obtain ⟨c, x, hd, rfl, hx, -⟩ := groupOf_spec hb hgb
      rw [hga, hgb, Option.getD_none, Option.getD_some] at hkey
      rw [hd, groupOf_of_isPrefix hx (hkey ▸ prefix_refl _)] at hga
      cases hga
  | some =>
    obtain ⟨-, -, -, -, -, hpre⟩ := groupOf_spec ha hga
    have hle := not_lt.1 (not_lt_of_isPrefix hpre)
    cases hgb : groupOf p d b.1 with
    | none =>
      rw [hga, hgb, Option.getD_none, Option.getD_some] at hkey
      exact absurd (hkey ▸ hle) (not_le.2 h)
    | some =>
      rw [hga, hgb, Option.getD_some, Option.getD_some] at hkey
      rw [hkey]

variable {rs : List (Bytes × ν)} {r : Bytes × ν} {lastGroup last : Option Bytes}

lemma mem_rollup {i : Item ν} (h : i ∈ rollup p d rs) : ∃ r ∈ rs, i = itemOf p d r := by
  have key : ∀ last, i ∈ rollupFrom p d last rs → ∃ r ∈ rs, i = itemOf p d r := by
    clear h
    induction rs with
    | nil =>
      intro last h
      cases h
    | cons r _ ih =>
      intro last h
      simp only [rollupFrom] at h
      split at h
      · obtain ⟨r', hr', rfl⟩ := ih _ h
        exact ⟨r', mem_cons_of_mem _ hr', rfl⟩
      · rcases mem_cons.1 h with rfl | h
        · exact ⟨r, mem_cons_self .., rfl⟩
        · obtain ⟨r', hr', rfl⟩ := ih _ h
          exact ⟨r', mem_cons_of_mem _ hr', rfl⟩
  exact key none h

section

variable (hp : ∀ r ∈ rs, p <+: r.1) (hs : rs.Pairwise fun a b => a.1 < b.1)
include hp hs

lemma rollupFrom_sorted (last : Option Bytes)
    (hlast : ∀ k, last = some k → ∀ r ∈ rs, k = (itemOf p d r).key ∨ k < (itemOf p d r).key) :
    (rollupFrom p d last rs).Pairwise (fun a b => a.key < b.key) ∧
      ∀ i ∈ rollupFrom p d last rs, ∀ k, last = some k → k < i.key := by
  induction rs generalizing last with
  | nil => simp [rollupFrom]
  | cons r rs ih =>
    obtain ⟨hr, hrs⟩ := pairwise_cons.1 hs
    have hp' : ∀ r' ∈ rs, p <+: r'.1 := fun r' h => hp r' (mem_cons_of_mem _ h)
    simp only [rollupFrom]
    split
    next heq =>
      exact ih hp' hrs last fun k hk r' hr' => hlast k hk r' (mem_cons_of_mem _ hr')
    next hne =>
      obtain ⟨h1, h2⟩ := ih hp' hrs (some (itemOf p d r).key) fun k hk r' hr' =>
        Option.some.inj hk ▸ itemOf_mono (hp r (mem_cons_self ..)) (hp' r' hr') (hr r' hr')
      refine ⟨pairwise_cons.2 ⟨fun i hi => h2 i hi _ rfl, h1⟩, fun i hi k hk => ?_⟩
      have hkr : k < (itemOf p d r).key := by
        rcases hlast k hk r (mem_cons_self ..) with h | h
        · exact absurd (hk.trans (congrArg some h)) hne
        · exact h
      rcases mem_cons.1 hi with rfl | hi
      · exact hkr
      · exact hkr.trans (h2 i hi _ rfl)

/-- The items of ordered rows are in strict key order. -/
lemma rollup_sorted : (rollup p d rs).Pairwise fun a b => a.key < b.key :=
  (rollupFrom_sorted hp hs none (fun _ h => nomatch h)).1

lemma itemOf_mem_rollup (hr : r ∈ rs) : itemOf p d r ∈ rollup p d rs := by
  have key : ∀ last, itemOf p d r ∈ rollupFrom p d last rs ∨ last = some (itemOf p d r).key := by
    induction rs with
    | nil => cases hr
    | cons r₀ rs ih =>
      intro last
      obtain ⟨hr₀, hrs⟩ := pairwise_cons.1 hs
      have hp' : ∀ r' ∈ rs, p <+: r'.1 := fun r' h => hp r' (mem_cons_of_mem _ h)
      simp only [rollupFrom]
      rcases mem_cons.1 hr with rfl | hmem
      · split
        next heq => exact .inr heq
        · exact .inl (mem_cons_self ..)
      · split
        · exact ih hp' hrs hmem last
        · rcases ih hp' hrs hmem (some (itemOf p d r₀).key) with hin | hlast
          · exact .inl (mem_cons_of_mem _ hin)
          · have heq : itemOf p d r₀ = itemOf p d r :=
              itemOf_eq_of_key (hp r₀ (mem_cons_self ..)) (hp' r hmem) (hr₀ r hmem)
                (Option.some.inj hlast)
            exact .inl (heq ▸ mem_cons_self ..)
  rcases key none with h | h
  · exact h
  · cases h

end

/-! ### Rolling up with the last group only -/

/-- The items of ordered rows, given the group that was met last. -/
def foldGroups (p : Bytes) (d : Option UInt8) : Option Bytes → List (Bytes × ν) → List (Item ν)
  | _, [] => []
  | last, r :: rs =>
    match groupOf p d r.1 with
    | some g => if last = some g then foldGroups p d last rs else .group g :: foldGroups p d (some g) rs
    | none => .row r.1 r.2 :: foldGroups p d last rs

/-- The last group and the last item say the same about the rows to come. -/
structure LastAgree (p : Bytes) (d : Option UInt8) (lastGroup last : Option Bytes)
    (rs : List (Bytes × ν)) : Prop where
  group : ∀ r ∈ rs, ∀ g, groupOf p d r.1 = some g → (lastGroup = some g ↔ last = some g)
  row : ∀ r ∈ rs, groupOf p d r.1 = none → last ≠ some r.1
  below : ∀ g, lastGroup = some g → ∀ r ∈ rs, ¬ r.1 < g

lemma LastAgree.tail (h : LastAgree p d lastGroup last (r :: rs)) : LastAgree p d lastGroup last rs :=
  ⟨fun r' hr' => h.group r' (mem_cons_of_mem _ hr'),
    fun r' hr' => h.row r' (mem_cons_of_mem _ hr'),
    fun g hg r' hr' => h.below g hg r' (mem_cons_of_mem _ hr')⟩

lemma LastAgree.after_group {g : Bytes} (hpre : g <+: r.1) (hr : ∀ r' ∈ rs, r.1 < r'.1) :
    LastAgree p d (some g) (some g) rs := by
  have hle : g ≤ r.1 := not_lt.1 (not_lt_of_isPrefix hpre)
  refine ⟨fun _ _ _ _ => Iff.rfl, fun r' hr' _ heq => ?_, fun g' hg' r' hr' => ?_⟩
  · have hlt := lt_of_le_of_lt hle (hr r' hr')
    exact hlt.ne (Option.some.inj heq)
  · rw [← Option.some.inj hg']
    exact not_lt.2 (hle.trans (hr r' hr').le)

/-- A row between two rows of one group would lie in the group. -/
lemma LastAgree.after_row (h : LastAgree p d lastGroup last (r :: rs)) (hp : ∀ r' ∈ rs, p <+: r'.1)
    (hr : ∀ r' ∈ rs, r.1 < r'.1) (hrow : groupOf p d r.1 = none) : LastAgree p d lastGroup (some r.1) rs := by
  refine ⟨fun r' hr' g hg => ?_, fun r' hr' _ heq => ?_, h.tail.below⟩
  · obtain ⟨c, x, hd, rfl, hx, z, hz⟩ := groupOf_spec (hp r' hr') hg
    have hout : ¬ p ++ x ++ [c] <+: r.1 := by
      intro hin
      rw [hd, groupOf_of_isPrefix hx hin] at hrow
      cases hrow
    constructor
    · intro hlast
      exact absurd (prefix_of_between (h.below _ hlast r (mem_cons_self ..)) (hz ▸ hr r' hr')) hout
    · intro heq
      exact absurd (Option.some.inj heq ▸ prefix_refl _) hout
  · exact (hr r' hr').ne (Option.some.inj heq)

lemma foldGroups_eq_rollupFrom (hp : ∀ r ∈ rs, p <+: r.1) (hs : rs.Pairwise fun a b => a.1 < b.1)
    (h : LastAgree p d lastGroup last rs) : foldGroups p d lastGroup rs = rollupFrom p d last rs := by
  induction rs generalizing lastGroup last with
  | nil => rfl
  | cons r rs ih =>
    obtain ⟨hr, hrs⟩ := pairwise_cons.1 hs
    have hp' : ∀ r' ∈ rs, p <+: r'.1 := fun r' hr' => hp r' (mem_cons_of_mem _ hr')
    cases hg : groupOf p d r.1 with
    | none =>
      have hitem : itemOf p d r = .row r.1 r.2 := by simp only [itemOf, hg]
      have hne := h.row r (mem_cons_self ..) hg
      simp only [foldGroups, rollupFrom, hg, hitem, Item.key, if_neg hne]
      rw [ih hp' hrs (h.after_row hp' hr hg)]
    | some g =>
      have hitem : itemOf p d r = .group g := by simp only [itemOf, hg]
      have hagree := h.group r (mem_cons_self ..) g hg
      obtain ⟨-, -, -, -, -, hpre⟩ := groupOf_spec (hp r (mem_cons_self ..)) hg
      by_cases hlast : lastGroup = some g
      · simp only [foldGroups, rollupFrom, hg, hitem, Item.key, if_pos hlast, if_pos (hagree.1 hlast)]
        exact ih hp' hrs h.tail
      · simp only [foldGroups, rollupFrom, hg, hitem, Item.key, if_neg hlast,
          if_neg (mt hagree.2 hlast)]
        rw [ih hp' hrs (LastAgree.after_group hpre hr)]

/-- It is enough to remember the last group. -/
lemma foldGroups_eq_rollup (hp : ∀ r ∈ rs, p <+: r.1) (hs : rs.Pairwise fun a b => a.1 < b.1) :
    foldGroups p d none rs = rollup p d rs :=
  foldGroups_eq_rollupFrom hp hs
    ⟨fun _ _ _ _ => Iff.rfl, (fun _ _ _ h => nomatch h), (fun _ h => nomatch h)⟩

/-- Rolling up looks at the keys only. -/
lemma rollup_map (f : ν → μ) (rs : List (Bytes × ν)) :
    rollup p d (rs.map fun r => (r.1, f r.2)) = (rollup p d rs).map (Item.mapValue f) := by
  have hitem : ∀ r : Bytes × ν, itemOf p d (r.1, f r.2) = (itemOf p d r).mapValue f := by
    intro r
    unfold itemOf
    cases groupOf p d r.1 <;> rfl
  have key : ∀ last, rollupFrom p d last (rs.map fun r => (r.1, f r.2)) =
      (rollupFrom p d last rs).map (Item.mapValue f) := by
    induction rs with
    | nil => intro last; rfl
    | cons _ _ ih =>
      intro last
      simp only [map_cons, rollupFrom, hitem, Item.key_mapValue]
      split
      · exact ih last
      · rw [ih, map_cons]
  exact key none

lemma rollup_none (rs : List (Bytes × ν)) (hs : rs.Pairwise fun a b => a.1 < b.1) :
    rollup p none rs = rs.map fun r => Item.row r.1 r.2 := by
  have key : ∀ last, (∀ k, last = some k → ∀ r ∈ rs, k ≠ r.1) →
      rollupFrom p none last rs = rs.map fun r => Item.row r.1 r.2 := by
    induction rs with
    | nil => intro last _; rfl
    | cons r _ ih =>
      intro last hlast
      obtain ⟨hr, hrs⟩ := pairwise_cons.1 hs
      simp only [rollupFrom, map_cons]
      rw [if_neg fun h => hlast _ h r (mem_cons_self ..) (itemOf_key_eq r)]
      congr 1
      exact ih hrs _ fun k hk r' hr' => Option.some.inj hk ▸ (hr r' hr').ne
  exact key none (fun _ h => nomatch h)

end Rollup

/-! ### Cursors -/

section Cursor

variable {α : Type} (key : α → Bytes)

/-- The entries after a cursor. -/
def afterCursor (cursor : Option Bytes) (l : List α) : List α :=
  l.filter fun a => match cursor with
    | none => true
    | some c => decide (c < key a)

variable {key}

lemma afterCursor_none (l : List α) : afterCursor key none l = l := by
  simp [afterCursor]

lemma afterCursor_cons (cursor : Option Bytes) (a : α) (l : List α) :
    afterCursor key cursor (a :: l) =
      if cursor.any (key a ≤ ·) then afterCursor key cursor l else a :: afterCursor key cursor l := by
  cases cursor with
  | none => simp [afterCursor]
  | some c =>
    by_cases h : key a ≤ c
    · simp [afterCursor, h, not_lt.2 h]
    · simp [afterCursor, h, not_le.1 h]

lemma afterCursor_map {β : Type} {key' : β → Bytes} {f : α → β} (hf : ∀ a, key' (f a) = key a)
    (cursor : Option Bytes) (l : List α) :
    afterCursor key' cursor (l.map f) = (afterCursor key cursor l).map f := by
  unfold afterCursor
  rw [filter_map]
  congr 2
  funext a
  cases cursor <;> simp [hf]

/-- After the last entry of a page come the entries the page left out. -/
lemma after_last {l page rest : List α} {a : α} (hs : l.Pairwise fun a b => key a < key b)
    (hl : l = page ++ rest) (hlast : page.getLast? = some a) :
    afterCursor key (some (key a)) l = rest := by
  subst hl
  obtain ⟨init, rfl⟩ := getLast?_eq_some_iff.1 hlast
  unfold afterCursor
  rw [append_assoc, pairwise_append] at hs
  obtain ⟨-, hs2, hs3⟩ := hs
  rw [append_assoc, filter_append, filter_append]
  have h1 : init.filter (fun b => decide (key a < key b)) = [] := by
    refine filter_eq_nil_iff.2 fun b hb => ?_
    have := hs3 b hb a (by simp)
    simpa using this.le
  have h2 : ([a]).filter (fun b => decide (key a < key b)) = [] := by simp
  have h3 : rest.filter (fun b => decide (key a < key b)) = rest := by
    refine filter_eq_self.2 fun b hb => ?_
    have := (pairwise_cons.1 hs2).1 b hb
    simpa using this
  rw [h1, h2, h3]
  rfl

/-- Two cursors in turn are the later one. -/
lemma afterCursor_afterCursor {l : List α} {c : Option Bytes} {a : α}
    (ha : a ∈ afterCursor key c l) :
    afterCursor key (some (key a)) (afterCursor key c l) = afterCursor key (some (key a)) l := by
  cases c with
  | none => rw [afterCursor_none]
  | some c =>
    have hca : c < key a := by simpa [afterCursor] using (mem_filter.1 ha).2
    unfold afterCursor
    rw [filter_filter]
    refine filter_congr fun b _ => ?_
    simp only [Bool.and_eq_left_iff_imp, decide_eq_true_eq]
    exact fun h => hca.trans h

/-- A reader goes through the pages of `scan`, each behind the last entry of the one before it, until
a page is shorter than the limit. -/
inductive Pages (key : α → Bytes) (scan : Option Bytes → List α → Prop) (limit : ℕ) :
    Option Bytes → List (List α) → Prop
  | last {cursor : Option Bytes} {page : List α} : scan cursor page → page.length < limit →
      Pages key scan limit cursor [page]
  | next {cursor : Option Bytes} {page : List α} {a : α} {rest : List (List α)} : scan cursor page →
      page.getLast? = some a → Pages key scan limit (some (key a)) rest →
      Pages key scan limit cursor (page :: rest)

/-- The pages of ordered entries are those entries, each once. -/
lemma Pages.flatten_eq {scan : Option Bytes → List α → Prop} {limit : ℕ} {l : List α}
    (hs : l.Pairwise fun a b => key a < key b)
    (hscan : ∀ cursor page, scan cursor page → page = (afterCursor key cursor l).take limit)
    {cursor : Option Bytes} {pages : List (List α)} (h : Pages key scan limit cursor pages) :
    pages.flatten = afterCursor key cursor l := by
  induction h with
  | @last cursor page hpage hshort =>
    have hpage := hscan cursor page hpage
    have hlength : (afterCursor key cursor l).length ≤ limit := by
      rw [hpage, length_take] at hshort
      omega
    rw [flatten_singleton, hpage, take_of_length_le hlength]
  | @next cursor page a _ hpage hlast _ ih =>
    have hpage := hscan cursor page hpage
    have hsplit : afterCursor key cursor l = page ++ (afterCursor key cursor l).drop limit := by
      conv_lhs => rw [← take_append_drop limit (afterCursor key cursor l), ← hpage]
    have hmem : a ∈ afterCursor key cursor l := by
      rw [hsplit]
      exact mem_append_left _ (mem_of_getLast? hlast)
    have hrest : afterCursor key (some (key a)) (afterCursor key cursor l) = _ :=
      after_last (hs.filter _) hsplit hlast
    rw [afterCursor_afterCursor hmem] at hrest
    rw [flatten_cons, ih, hrest, ← hsplit]

end Cursor

end NoKV.Lib
