import NoKV.Lib.Bytes
import Mathlib.Algebra.Order.BigOperators.Group.List

/-!
# JSON texts

The compact JSON encoder of the serializer, over bytes: a value is the text it prints. Only the
length of a text matters to its users (`text_length_le`).
-/

namespace NoKV.Lib.Json

open List

def hexDigit (n : ℕ) : UInt8 := if n < 10 then UInt8.ofNat (48 + n) else UInt8.ofNat (87 + n)

/-- Lower-case hexadecimal. -/
def hex (bytes : Bytes) : Bytes :=
  bytes.flatMap fun b => [hexDigit (b.toNat / 16), hexDigit (b.toNat % 16)]

/-- The printed form of one byte inside a text. -/
def escape (b : UInt8) : Bytes :=
  if b = 0x22 then utf8 "\\\""
  else if b = 0x5c then utf8 "\\\\"
  else if b = 0x08 then utf8 "\\b"
  else if b = 0x09 then utf8 "\\t"
  else if b = 0x0a then utf8 "\\n"
  else if b = 0x0c then utf8 "\\f"
  else if b = 0x0d then utf8 "\\r"
  else if b < 0x20 then utf8 "\\u00" ++ hex [b]
  else [b]

def null : Bytes := utf8 "null"

def num (n : ℕ) : Bytes := utf8 (toString n)

/-- A text, given as its UTF-8 bytes. -/
def text (s : Bytes) : Bytes := [0x22] ++ s.flatMap escape ++ [0x22]

def opt {α : Type} (f : α → Bytes) : Option α → Bytes
  | none => null
  | some a => f a

def arr (items : List Bytes) : Bytes := [0x5b] ++ [0x2c].intercalate items ++ [0x5d]

/-- A record, its fields in the order they are declared in. -/
def obj (fields : List (String × Bytes)) : Bytes :=
  [0x7b] ++ [0x2c].intercalate (fields.map fun field => text (utf8 field.1) ++ [0x3a] ++ field.2) ++ [0x7d]

lemma escape_length_le (b : UInt8) : (escape b).length ≤ 6 := by
  unfold escape
  repeat' split
  all_goals simp [hex, length_append, show (utf8 "\\\"").length = 2 from rfl,
    show (utf8 "\\\\").length = 2 from rfl, show (utf8 "\\b").length = 2 from rfl,
    show (utf8 "\\t").length = 2 from rfl, show (utf8 "\\n").length = 2 from rfl,
    show (utf8 "\\f").length = 2 from rfl, show (utf8 "\\r").length = 2 from rfl,
    show (utf8 "\\u00").length = 4 from rfl]

lemma text_length_le (s : Bytes) : (text s).length ≤ 6 * s.length + 2 := by
  have h : (s.flatMap escape).length ≤ 6 * s.length := by
    induction s with
    | nil => simp
    | cons b =>
      have := escape_length_le b
      simp only [flatMap_cons, length_append, length_cons]
      omega
  simp only [text, length_append, length_cons, length_nil]
  omega

@[simp] lemma hex_length (bytes : Bytes) : (hex bytes).length = 2 * bytes.length := by
  induction bytes with
  | nil => rfl
  | cons _ _ ih =>
    simp only [hex, flatMap_cons, length_append, length_cons] at ih ⊢
    simp only [ih, length_nil]
    omega

lemma intercalate_length_le (sep : UInt8) (items : List Bytes) :
    ([sep].intercalate items).length ≤ (items.map fun item => item.length + 1).sum := by
  induction items with
  | nil => simp
  | cons _ items ih =>
    cases items with
    | nil => simp
    | cons =>
      rw [intercalate_cons_cons]
      simp only [length_append, length_cons, length_nil, map_cons,
        sum_cons] at ih ⊢
      omega

/-- A record is as long as its fields: the name of a field, its value and the marks around them. -/
lemma obj_length_le (fields : List (String × Bytes)) :
    (obj fields).length ≤
      2 + (fields.map fun field => 6 * (utf8 field.1).length + field.2.length + 4).sum := by
  have h := intercalate_length_le 0x2c
    (fields.map fun field => text (utf8 field.1) ++ [0x3a] ++ field.2)
  have hsum : ((fields.map fun field => text (utf8 field.1) ++ [0x3a] ++ field.2).map
      fun item => item.length + 1).sum ≤
      (fields.map fun field => 6 * (utf8 field.1).length + field.2.length + 4).sum := by
    rw [map_map]
    refine sum_le_sum fun field _ => ?_
    have := text_length_le (utf8 field.1)
    simp only [Function.comp_apply, length_append, length_cons, length_nil]
    omega
  simp only [obj, length_append, length_cons, length_nil]
  omega

end NoKV.Lib.Json
