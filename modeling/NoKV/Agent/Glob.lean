import Mathlib.Data.List.Forall2
import Mathlib.Data.List.Induction
import Mathlib.Tactic.Common

/-!
# Glob patterns

Matching keeps one row of answers, an entry for every front of the text, and takes a token of the
pattern at a time.
-/

namespace NoKV.Agent

open List

/-- The entries of a row from the one on the left on, over the row before. -/
def fillRow (token : Char) : List Char → List Bool → Bool → List Bool
  | character :: text, diagonal :: above :: previous, left =>
    let entry :=
      if token = '*' then above || left
      else if token = '?' then diagonal
      else diagonal && token == character
    left :: fillRow token text (above :: previous) entry
  | _, _, left => [left]

def globRow (text : List Char) (previous : List Bool) (token : Char) : List Bool :=
  fillRow token text previous (token == '*' && previous.headD false)

def globMatches (pattern text : String) : Bool :=
  let text := text.toList
  (pattern.toList.foldl (globRow text) (true :: List.replicate text.length false)).getD text.length false

/-- What a token stands for. -/
def Stands (token : Char) (part : List Char) : Prop :=
  if token = '*' then True else if token = '?' then part.length = 1 else part = [token]

/-- The text comes from the pattern by putting for each token something it stands for. -/
def Obtained (pattern text : List Char) : Prop :=
  ∃ parts, List.Forall₂ Stands pattern parts ∧ parts.flatten = text

/-- A row answers a question about every front of the text that holds at least `front`. -/
inductive Answers (P : List Char → Prop) : List Char → List Char → List Bool → Prop
  | last {front b} : (b = true ↔ P front) → Answers P front [] [b]
  | next {front c text b row} : (b = true ↔ P front) → Answers P (front ++ [c]) text row →
      Answers P front (c :: text) (b :: row)

section Tokens

variable {pattern front : List Char} {token c : Char}

lemma obtained_concat : Obtained (pattern ++ [token]) front ↔
    ∃ first part, Obtained pattern first ∧ Stands token part ∧ first ++ part = front := by
  constructor
  · rintro ⟨parts, hparts, rfl⟩
    have hfirst := forall₂_take pattern.length hparts
    have hlast := forall₂_drop pattern.length hparts
    rw [take_left] at hfirst
    rw [drop_left] at hlast
    obtain ⟨part, _, hpart, hnil, hlast⟩ := forall₂_cons_left_iff.mp hlast
    obtain rfl := forall₂_nil_left_iff.mp hnil
    refine ⟨_, part, ⟨_, hfirst, rfl⟩, hpart, ?_⟩
    simpa [hlast] using congrArg flatten (take_append_drop pattern.length parts)
  · rintro ⟨_, part, ⟨parts, hparts, rfl⟩, hpart, rfl⟩
    exact ⟨parts ++ [part], rel_append hparts (.cons hpart .nil), by simp⟩

/-- Only a star stands for nothing. -/
lemma obtained_concat_nil :
    Obtained (pattern ++ [token]) [] ↔ token = '*' ∧ Obtained pattern [] := by
  by_cases hstar : token = '*' <;> by_cases hany : token = '?' <;>
    simp [obtained_concat, Stands, hstar, hany]

/-- The entry of the row from the entries above it, left of it and between the two. -/
lemma obtained_concat_snoc : Obtained (pattern ++ [token]) (front ++ [c]) ↔
    if token = '*' then Obtained pattern (front ++ [c]) ∨ Obtained (pattern ++ [token]) front
    else if token = '?' then Obtained pattern front
    else Obtained pattern front ∧ token = c := by
  simp only [obtained_concat, Stands]
  split_ifs with hstar hany
  · constructor
    · rintro ⟨first, part, hfirst, -, hfront⟩
      -- the star's part is empty or ends in the last character
      obtain rfl | ⟨part, d, rfl⟩ := part.eq_nil_or_concat'
      · rw [append_nil] at hfront
        exact .inl (hfront ▸ hfirst)
      · rw [← append_assoc] at hfront
        exact .inr ⟨first, part, hfirst, trivial, (append_inj' hfront rfl).1⟩
    · rintro (hfront | ⟨first, part, hfirst, -, rfl⟩)
      · exact ⟨_, [], hfront, trivial, append_nil _⟩
      · exact ⟨first, part ++ [c], hfirst, trivial, by simp⟩
  · simp only [length_eq_one_iff]
    aesop
  · simp [eq_comm]

end Tokens

section Rows

variable {P Q : List Char → Prop} {token : Char}

lemma Answers.getD_last {front text row} (h : Answers P front text row) :
    row.getD text.length false = true ↔ P (front ++ text) := by
  induction h with
  | last hb => simpa using hb
  | next _ _ ih => simpa using ih

/-- Nothing is obtained from the empty pattern but the empty text. -/
lemma answers_replicate {front : List Char} (hfront : front ≠ []) (text : List Char) :
    Answers (Obtained []) front text (replicate (text.length + 1) false) := by
  have hno : (false = true ↔ Obtained [] front) := by simp [Obtained, hfront.symm]
  induction text generalizing front with
  | nil => exact .last hno
  | cons _ _ ih => exact .next hno (ih (by simp) (by simp [Obtained]))

/-- Along the text, each entry of the new row answers for the longer pattern. -/
lemma fillRow_answers {pattern front text : List Char} {previous : List Bool} {left : Bool}
    (h : Answers (Obtained pattern) front text previous)
    (hleft : left = true ↔ Obtained (pattern ++ [token]) front) :
    Answers (Obtained (pattern ++ [token])) front text (fillRow token text previous left) := by
  induction h generalizing left with
  | last => exact .last hleft
  | @next front c _ _ row hdiagonal hrow ih =>
    obtain ⟨above, row, rfl, habove⟩ : ∃ above rest, row = above :: rest ∧
        (above = true ↔ Obtained pattern (front ++ [c])) := by
      cases hrow with
      | last hb => exact ⟨_, _, rfl, hb⟩
      | next hb _ => exact ⟨_, _, rfl, hb⟩
    refine .next hleft (ih ?_)
    rw [obtained_concat_snoc]
    split_ifs <;> simp [hdiagonal, habove, hleft]

lemma globRow_answers {pattern text : List Char} {previous : List Bool}
    (h : Answers (Obtained pattern) [] text previous) :
    Answers (Obtained (pattern ++ [token])) [] text (globRow text previous token) := by
  refine fillRow_answers h ?_
  rw [obtained_concat_nil]
  cases h with
  | last hb => simp [hb]
  | next hb => simp [hb]

/-- After any front of the pattern the row answers for that front. -/
lemma foldl_globRow_answers (pattern text : List Char) :
    Answers (Obtained pattern) [] text
      (pattern.foldl (globRow text) (true :: replicate text.length false)) := by
  induction pattern using reverseRecOn with
  | nil =>
    have hempty : (true = true ↔ Obtained [] []) := by simp [Obtained]
    cases text with
    | nil => exact .last hempty
    | cons c text => exact .next hempty (answers_replicate (by simp) text)
  | append_singleton _ _ ih =>
    rw [foldl_append]
    exact globRow_answers ih

theorem globMatches_iff (pattern text : String) :
    globMatches pattern text = true ↔ Obtained pattern.toList text.toList :=
  (foldl_globRow_answers _ _).getD_last

example : globMatches "a*?c" "abbc" = true ∧ globMatches "a*?c" "ac" = false := by decide

end Rows

end NoKV.Agent
