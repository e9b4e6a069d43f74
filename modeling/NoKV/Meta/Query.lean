import Mathlib.Data.List.Infix
import Mathlib.Order.Compare
import Mathlib.Tactic.Common
import NoKV.Types

/-!
# Query scalars and predicates

With numeric coercion a predicate compares numbers as 64-bit floats, so integers are first rounded to 53
bits.

* `toF64_le`: rounding keeps the order;
* `integer_predicates_agree_iff`: the predicates on two integers are exact unless both round to one float.
-/

namespace NoKV.Meta

open Lib List

/-- A float, by its bits. -/
abbrev F64 := UInt64

def F64.isFinite (value : F64) : Bool := value.toNat % 2 ^ 63 < 2047 * 2 ^ 52

/-- Where a float stands in `total_cmp`. -/
def F64.order (value : F64) : ℤ :=
  if value.toNat < 2 ^ 63 then value.toNat else 2 ^ 63 - 1 - value.toNat

/-- A finite float with canonical positive zero. -/
structure FiniteFloat where
  bits : F64
  finite : bits.isFinite = true
  canonical : bits ≠ 0x8000000000000000

inductive QueryScalar where
  | null
  | boolean (value : Bool)
  | signed (value : Int64)
  | unsigned (value : UInt64)
  | float (value : FiniteFloat)
  | timestamp (value : Int64)
  | bytes (value : Bytes)
  | string (value : String)

namespace QueryScalar

/-- The number of the scalar's type. -/
def discriminant : QueryScalar → UInt8
  | null => 1
  | boolean _ => 2
  | signed _ => 3
  | unsigned _ => 4
  | float _ => 5
  | timestamp _ => 6
  | bytes _ => 7
  | string _ => 8

/-- The order of two scalars of one type. -/
def cmpSame : QueryScalar → QueryScalar → Ordering
  | boolean left, boolean right => cmp left right
  | signed left, signed right => cmp left.toInt right.toInt
  | unsigned left, unsigned right => cmp left.toNat right.toNat
  | float left, float right => cmp left.bits.order right.bits.order
  | timestamp left, timestamp right => cmp left.toInt right.toInt
  | bytes left, bytes right => cmp left right
  | string left, string right => cmp (utf8 left) (utf8 right)
  | _, _ => .eq

def cmp (left right : QueryScalar) : Ordering :=
  (compare left.discriminant.toNat right.discriminant.toNat).then (cmpSame left right)

end QueryScalar

/-! ### Integers as floats -/

/-- A number over a power of two, to the nearest integer and from the middle to the even one. -/
def roundShift (n s : ℕ) : ℕ :=
  if 2 * (n % 2 ^ s) < 2 ^ s ∨ (2 * (n % 2 ^ s) = 2 ^ s ∧ n / 2 ^ s % 2 = 0) then n / 2 ^ s else n / 2 ^ s + 1

/-- The bits of a number cast to a float: the exponent, and the significand with its leading one, which
carries into the exponent when it rounds up to the next power of two. -/
def natF64 (n : ℕ) : ℕ := if n = 0 then 0 else (n.log2 + 1022) * 2 ^ 52 + roundShift (n * 2 ^ 52) n.log2

def toF64 (value : ℤ) : F64 := .ofNat (natF64 value.natAbs + if value < 0 then 2 ^ 63 else 0)

lemma roundShift_mono (s : ℕ) {n m : ℕ} (h : n ≤ m) : roundShift n s ≤ roundShift m s := by
  have hdiv : n / 2 ^ s ≤ m / 2 ^ s := Nat.div_le_div_right h
  rcases hdiv.lt_or_eq with hlt | heq
  · unfold roundShift
    split_ifs <;> omega
  · have hmod : n % 2 ^ s ≤ m % 2 ^ s := by
      have hn := Nat.div_add_mod n (2 ^ s)
      have hm := Nat.div_add_mod m (2 ^ s)
      rw [heq] at hn
      omega
    unfold roundShift
    rw [heq]
    split_ifs <;> omega

/-- The significand has 53 bits, or is the power of two after them. -/
lemma significand_bounds {n : ℕ} (h : n ≠ 0) :
    2 ^ 52 ≤ roundShift (n * 2 ^ 52) n.log2 ∧ roundShift (n * 2 ^ 52) n.log2 ≤ 2 ^ 53 := by
  have hlow : 2 ^ 52 ≤ n * 2 ^ 52 / 2 ^ n.log2 := by
    rw [Nat.le_div_iff_mul_le (by positivity), mul_comm]
    exact Nat.mul_le_mul_right _ (Nat.log2_self_le h)
  have hhigh : n * 2 ^ 52 / 2 ^ n.log2 < 2 ^ 53 := by
    rw [Nat.div_lt_iff_lt_mul (by positivity)]
    have hlt : n < 2 ^ (n.log2 + 1) := Nat.lt_log2_self
    rw [pow_succ] at hlt
    omega
  unfold roundShift
  split_ifs <;> omega

lemma natF64_mono {n m : ℕ} (h : n ≤ m) : natF64 n ≤ natF64 m := by
  unfold natF64
  split_ifs with hn hm hm
  · exact le_rfl
  · exact Nat.zero_le _
  · omega
  · have hlog : n.log2 ≤ m.log2 := Nat.lt_succ_iff.1 ((Nat.log2_lt hn).2 (h.trans_lt Nat.lt_log2_self))
    rcases hlog.lt_or_eq with hlt | heq
    · -- the significand of the smaller exponent is at most twice the other
      have hn' := (significand_bounds hn).2
      have hm' := (significand_bounds hm).1
      omega
    · rw [heq]
      exact Nat.add_le_add_left (roundShift_mono _ (Nat.mul_le_mul_right _ h)) _

lemma natF64_lt {n : ℕ} (h : n < 2 ^ 64) : natF64 n < 2 ^ 63 := by
  unfold natF64
  split_ifs with hn
  · decide
  · have hlog := (Nat.log2_lt hn).2 h
    have hhigh := (significand_bounds hn).2
    omega

lemma order_toF64 {value : ℤ} (h : value.natAbs < 2 ^ 64) :
    (toF64 value).order = if value < 0 then -1 - (natF64 value.natAbs : ℤ) else natF64 value.natAbs := by
  have hlt := natF64_lt h
  have hnat : (toF64 value).toNat = natF64 value.natAbs + if value < 0 then 2 ^ 63 else 0 := by
    rw [toF64, UInt64.toNat_ofNat', Nat.mod_eq_of_lt]
    split_ifs <;> omega
  rw [F64.order, hnat]
  split_ifs <;> omega

/-- Rounding keeps the order. -/
lemma toF64_le {a b : ℤ} (ha : a.natAbs < 2 ^ 64) (hb : b.natAbs < 2 ^ 64) (h : a ≤ b) :
    (toF64 a).order ≤ (toF64 b).order := by
  rw [order_toF64 ha, order_toF64 hb]
  split_ifs with hneg hneg'
  · have := natF64_mono (show b.natAbs ≤ a.natAbs by omega)
    omega
  · omega
  · omega
  · have := natF64_mono (show a.natAbs ≤ b.natAbs by omega)
    omega

/-! ### Predicates -/

inductive QueryOperator where
  | equal
  | notEqual
  | isIn
  | less
  | lessOrEqual
  | greater
  | greaterOrEqual
  | prefixed
  | suffixed
  | contains
  | present
  | notPresent

inductive QueryOperand where
  | none
  | scalar (value : QueryScalar)
  | set (values : List QueryScalar)

structure QueryPredicate (Field : Type) where
  fieldId : Field
  operator : QueryOperator
  operand : QueryOperand

def numericScalar : QueryScalar → Option F64
  | .signed value => some (toF64 value.toInt)
  | .unsigned value => some (toF64 value.toNat)
  | .float value => some value.bits
  | _ => none

/-- Both scalars are strings or both are bytes, and the test holds of them. -/
def stringOrBytes (test : Bytes → Bytes → Bool) : QueryScalar → QueryScalar → Bool
  | .string actual, .string expected => test (utf8 actual) (utf8 expected)
  | .bytes actual, .bytes expected => test actual expected
  | _, _ => false

variable (parse : String → Option F64)

def finiteNumericStringScalar : QueryScalar → Option F64
  | .string value => (parse value).filter F64.isFinite
  | _ => none

def compareQueryValues (left right : QueryScalar) (numericCoercion : Bool) : Option Ordering :=
  let exact := if left.discriminant = right.discriminant then some (left.cmp right) else none
  let totalCmp : F64 → F64 → Option Ordering := fun l r => some (cmp l.order r.order)
  if numericCoercion then
    match numericScalar left, numericScalar right, finiteNumericStringScalar parse left,
      finiteNumericStringScalar parse right with
    | some l, some r, _, _ => totalCmp l r
    | some l, none, _, some r => totalCmp l r
    | none, some r, some l, _ => totalCmp l r
    | _, _, _, _ => exact
  else exact

def predicateMatches {Field : Type} (row : Field → List QueryScalar) (numericCoercion : Bool)
    (predicate : QueryPredicate Field) : Bool :=
  let actual := row predicate.fieldId
  let compared := fun expected actual => compareQueryValues parse actual expected numericCoercion
  match predicate.operator, predicate.operand with
  | .present, .none => !actual.isEmpty
  | .notPresent, .none => actual.isEmpty
  | .isIn, .set expected => actual.any fun actual => expected.any fun expected => compared expected actual = some .eq
  | .equal, .scalar expected => actual.any fun actual => compared expected actual = some .eq
  | .notEqual, .scalar expected => !actual.isEmpty && actual.all fun actual => compared expected actual ≠ some .eq
  | .less, .scalar expected => actual.any fun actual => compared expected actual = some .lt
  | .lessOrEqual, .scalar expected =>
    actual.any fun actual => compared expected actual = some .lt || compared expected actual = some .eq
  | .greater, .scalar expected => actual.any fun actual => compared expected actual = some .gt
  | .greaterOrEqual, .scalar expected =>
    actual.any fun actual => compared expected actual = some .gt || compared expected actual = some .eq
  | .prefixed, .scalar expected => actual.any (stringOrBytes (fun a e => e.isPrefixOf a) · expected)
  | .suffixed, .scalar expected => actual.any (stringOrBytes (fun a e => e.isSuffixOf a) · expected)
  | .contains, .scalar expected => actual.any (stringOrBytes (fun a e => decide (e <:+: a)) · expected)
  | _, _ => false

def predicatesMatch {Field : Type} (row : Field → List QueryScalar) (predicates : List (QueryPredicate Field))
    (numericCoercion : Bool) : Bool :=
  predicates.all (predicateMatches parse row numericCoercion)

def QueryScalar.integer : QueryScalar → Option ℤ
  | signed value => some value.toInt
  | unsigned value => some value.toNat
  | _ => none

/-- The exact comparison an operator stands for. -/
def exactly : QueryOperator → ℤ → ℤ → Option Bool
  | .equal, a, b => some (a = b)
  | .notEqual, a, b => some (a ≠ b)
  | .isIn, a, b => some (a = b)
  | .less, a, b => some (a < b)
  | .lessOrEqual, a, b => some (a ≤ b)
  | .greater, a, b => some (b < a)
  | .greaterOrEqual, a, b => some (b ≤ a)
  | _, _, _ => none

/-- The operand with one value. -/
def QueryOperator.operand (value : QueryScalar) : QueryOperator → QueryOperand
  | isIn => .set [value]
  | _ => .scalar value

lemma F64.order_injective {a b : F64} (h : a.order = b.order) : a = b := by
  have := a.toNat_lt
  have := b.toNat_lt
  unfold order at h
  rw [← UInt64.toNat_inj]
  split_ifs at h <;> omega

lemma QueryScalar.natAbs_lt {a : QueryScalar} {x : ℤ} (h : a.integer = some x) : x.natAbs < 2 ^ 64 := by
  cases a <;> cases h
  · rename_i value
    have := value.le_toInt
    have := value.toInt_lt
    omega
  · exact UInt64.toNat_lt _

/-- Two integers that do not round to one float compare as their floats do. -/
lemma cmp_toF64 {x y : ℤ} (hx : x.natAbs < 2 ^ 64) (hy : y.natAbs < 2 ^ 64) (h : toF64 x = toF64 y → x = y) :
    cmp (toF64 x).order (toF64 y).order = cmp x y := by
  have hne : x ≠ y → (toF64 x).order ≠ (toF64 y).order := fun hxy heq => hxy (h (F64.order_injective heq))
  rcases lt_trichotomy x y with hlt | rfl | hlt
  · rw [(cmp_eq_lt_iff _ _).2 hlt, cmp_eq_lt_iff]
    exact (toF64_le hx hy hlt.le).lt_of_ne (hne hlt.ne)
  · rw [cmp_self_eq_eq, cmp_self_eq_eq]
  · rw [(cmp_eq_gt_iff _ _).2 hlt, cmp_eq_gt_iff]
    exact (toF64_le hy hx hlt.le).lt_of_ne (hne hlt.ne').symm

lemma compareQueryValues_integers {a b : QueryScalar} {x y : ℤ} (ha : a.integer = some x)
    (hb : b.integer = some y) :
    compareQueryValues parse a b true = some (cmp (toF64 x).order (toF64 y).order) := by
  cases a <;> cases ha <;> cases b <;> cases hb <;> rfl

/-- **Integer predicates.** On two integers the seven comparisons are exact unless the integers differ and
round to one float. -/
theorem integer_predicates_agree_iff {Field : Type} (field : Field) {a b : QueryScalar} {x y : ℤ}
    (ha : a.integer = some x) (hb : b.integer = some y) :
    (∀ operator answer, exactly operator x y = some answer →
      predicatesMatch parse (fun _ => [a]) [⟨field, operator, operator.operand b⟩] true = answer) ↔
      (toF64 x = toF64 y → x = y) := by
  have hcompared := compareQueryValues_integers parse ha hb
  constructor
  · intro h heq
    have hequal := h .equal _ rfl
    rw [heq, cmp_self_eq_eq] at hcompared
    simpa [predicatesMatch, predicateMatches, QueryOperator.operand, hcompared] using hequal
  · intro h operator answer hanswer
    rw [cmp_toF64 (QueryScalar.natAbs_lt ha) (QueryScalar.natAbs_lt hb) h, cmp_eq_compare] at hcompared
    cases operator <;> cases hanswer <;>
      simp [predicatesMatch, predicateMatches, QueryOperator.operand, hcompared, compare_lt_iff_lt, compare_gt_iff_gt,
        le_iff_lt_or_eq, (eq_comm : y = x ↔ x = y)]

/-- The comparisons of 7 and -1 are exact. -/
theorem integer_predicates_agree_sample :
    predicatesMatch (fun _ => none) (fun _ : Unit => [.unsigned 7]) [⟨(), .greater, .scalar (.signed (-1))⟩] true =
      true :=
  (integer_predicates_agree_iff (fun _ => none) () (a := .unsigned 7) (b := .signed (-1)) rfl rfl).2
    (by decide +kernel) .greater _ rfl

/-- Two neighbours above 2 ^ 53 pass for equal. -/
theorem integer_predicates_disagree : ∃ a b : QueryScalar, a.integer = some 9007199254740992 ∧
    b.integer = some 9007199254740993 ∧ predicatesMatch (fun _ => none) (fun _ : Unit => [a])
      [⟨(), .equal, .scalar b⟩] true = true :=
  ⟨.unsigned 9007199254740992, .unsigned 9007199254740993, rfl, rfl, by decide +kernel⟩

end NoKV.Meta
