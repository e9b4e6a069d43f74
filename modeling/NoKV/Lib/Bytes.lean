import Mathlib.Order.Lex
import Mathlib.Data.List.Lex
import Mathlib.Tactic.Linarith
import Mathlib.Tactic.Ring

/-!
# Byte strings

Big-endian numbers of a fixed width, decimal numbers of a fixed width, and the byte-wise
lexicographic order, with the facts a store ordered by raw keys rests on:

* `ofBe_be`, `be_ofBe`: the fixed-width big-endian code is a bijection;
* `be_lt_be`, `dec_lt_dec`: on a fixed width the byte order of the codes is the order of the numbers;
* `Compared`: the order of codes that differ before either ends, whatever follows them.
-/

namespace NoKV.Lib

open List

abbrev Bytes := List UInt8

instance linearOrderUInt8 : LinearOrder UInt8 where
  le_refl := UInt8.le_refl
  le_trans _ _ _ := UInt8.le_trans
  le_antisymm _ _ := UInt8.le_antisymm
  le_total := UInt8.le_total
  lt_iff_le_not_ge a b := by
    simp only [UInt8.lt_iff_toNat_lt, UInt8.le_iff_toNat_le]
    omega
  toDecidableLE := inferInstance
  toDecidableEq := inferInstance
  toDecidableLT := inferInstance

def utf8 (s : String) : Bytes := s.toUTF8.data.toList

variable {n w m : ℕ}

lemma toNat_ofNat_lt (h : n < 256) : (UInt8.ofNat n).toNat = n := by
  exact Nat.mod_eq_of_lt h

lemma append_lt_append {a b : Bytes} (x y : Bytes) (hlen : a.length = b.length) (h : a < b) :
    a ++ x < b ++ y := by
  induction a generalizing b with
  | nil =>
    rw [length_nil, eq_comm, length_eq_zero_iff] at hlen
    rw [hlen] at h
    exact absurd h (lt_irrefl _)
  | cons p a ih =>
    cases b with
    | nil => cases hlen
    | cons =>
      rcases cons_lt_cons_iff.1 h with hlt | ⟨rfl, hlt⟩
      · exact cons_lt_cons_iff.2 (.inl hlt)
      · exact cons_lt_cons_iff.2 (.inr ⟨rfl, ih (Nat.succ.inj hlen) hlt⟩)

/-! ### Strings that differ before either ends -/

/-- Smaller whatever follows. -/
def Ahead (a b : Bytes) : Prop := ∀ x y, a ++ x < b ++ y

namespace Ahead

variable {a b : Bytes}

lemma of_length (hlen : a.length = b.length) (h : a < b) : Ahead a b := fun x y => append_lt_append x y hlen h

lemma cons_of_lt {s t : UInt8} (h : s < t) (a b : Bytes) : Ahead (s :: a) (t :: b) := fun _ _ =>
  cons_lt_cons_iff.2 (.inl h)

lemma cons (s : UInt8) (h : Ahead a b) : Ahead (s :: a) (s :: b) := fun x y =>
  cons_lt_cons_iff.2 (.inr ⟨rfl, h x y⟩)

lemma lt (h : Ahead a b) : a < b := by
  simpa using h [] []

end Ahead

/-- What a code that keeps the order knows of two values from how they compare. -/
inductive Compared {α : Type} (code : α → Bytes) (a b : α) : Ordering → Prop
  | lt (h : Ahead (code a) (code b)) : Compared code a b .lt
  | eq (h : a = b) : Compared code a b .eq
  | gt (h : Ahead (code b) (code a)) : Compared code a b .gt

namespace Compared

variable {α β : Type} {code : α → Bytes} {a b : α} {o : Ordering}

/-- Values that compare by a key, under a code that keeps the order of the keys. -/
lemma of_key [LinearOrder β] [DecidableLT β] (key : α → β) (hkey : key a = key b → a = b)
    (hcode : ∀ x y, key x < key y → Ahead (code x) (code y)) : Compared code a b (cmp (key a) (key b)) := by
  unfold cmp cmpUsing
  split_ifs with hlt hgt
  · exact .lt (hcode _ _ hlt)
  · exact .gt (hcode _ _ hgt)
  · exact .eq (hkey (le_antisymm (not_lt.1 hgt) (not_lt.1 hlt)))

lemma eq_lt_iff (h : Compared code a b o) : o = .lt ↔ code a < code b := by
  cases h with
  | lt h => exact iff_of_true rfl h.lt
  | eq h => exact iff_of_false nofun (h ▸ lt_irrefl _)
  | gt h => exact iff_of_false nofun (lt_asymm h.lt)

/-- No code starts the code of another value. -/
lemma eq_of_append (h : Compared code a b o) {x y : Bytes} (heq : code a ++ x = code b ++ y) : a = b := by
  cases h with
  | lt h => exact absurd heq (h x y).ne
  | eq h => exact h
  | gt h => exact absurd heq (h y x).ne'

end Compared

/-! ### Numbers in base `b` on a fixed number of digits, most significant first -/

/-- The `w` lowest digits of `n` in base `b`, most significant first, each written by `d`. -/
def digits (b : ℕ) (d : ℕ → UInt8) : ℕ → ℕ → Bytes
  | 0, _ => []
  | w + 1, n => d (n / b ^ w % b) :: digits b d w n

@[simp] lemma digits_length (b : ℕ) (d : ℕ → UInt8) (w n : ℕ) : (digits b d w n).length = w := by
  induction w with
  | zero => rfl
  | succ w ih => simp [digits, ih]

lemma digits_mod (b : ℕ) (d : ℕ → UInt8) (w n k : ℕ) :
    digits b d w (n + k * b ^ w) = digits b d w n := by
  induction w generalizing k with
  | zero => rfl
  | succ w ih =>
    rcases Nat.eq_zero_or_pos b with rfl | hb
    · simp [digits]
    have h := ih (k * b)
    rw [mul_assoc, ← pow_succ'] at h
    simp only [digits, h]
    have e : k * b ^ (w + 1) = b ^ w * (b * k) := by rw [pow_succ]; ring
    rw [e, Nat.add_mul_div_left _ _ (Nat.pow_pos hb), Nat.add_mul_mod_self_left]

section

variable {b : ℕ} {d : ℕ → UInt8} (hb : 0 < b) (hd : ∀ i j, i < j → j < b → d i < d j)
include hb hd

/-- Digits that are written in order are compared like the numbers. -/
lemma digits_lt_digits (hn : n < b ^ w) (h : m < n) : digits b d w m < digits b d w n := by
  induction w generalizing m n with
  | zero => simp at hn; omega
  | succ w ih =>
    have hp : 0 < b ^ w := Nat.pow_pos hb
    have hlead : ∀ x, x < b ^ (w + 1) → x / b ^ w % b = x / b ^ w := by
      intro x hx
      refine Nat.mod_eq_of_lt (Nat.div_lt_of_lt_mul ?_)
      rwa [pow_succ] at hx
    have hm : m < b ^ (w + 1) := by omega
    simp only [digits, hlead m hm, hlead n hn]
    have hle : m / b ^ w ≤ n / b ^ w := Nat.div_le_div_right h.le
    have hnb : n / b ^ w < b := by
      have := hlead n hn
      rw [← this]; exact Nat.mod_lt _ hb
    rcases Nat.lt_or_eq_of_le hle with hlt | heq
    · exact cons_lt_cons_iff.2 (Or.inl (hd _ _ hlt hnb))
    · refine cons_lt_cons_iff.2 (Or.inr ⟨by rw [heq], ?_⟩)
      -- equal leading digits: the remainders are ordered, and carry the remaining digits
      have em := Nat.div_add_mod m (b ^ w)
      have en := Nat.div_add_mod n (b ^ w)
      have hr : m % b ^ w < n % b ^ w := by
        rw [heq] at em; omega
      have hrec := ih (Nat.mod_lt n hp) hr
      have dm : digits b d w m = digits b d w (m % b ^ w) := by
        conv_lhs => rw [← em, Nat.mul_comm, Nat.add_comm]
        exact digits_mod b d w _ _
      have dn : digits b d w n = digits b d w (n % b ^ w) := by
        conv_lhs => rw [← en, Nat.mul_comm, Nat.add_comm]
        exact digits_mod b d w _ _
      rw [dm, dn]
      exact hrec

lemma digits_injective (hm : m < b ^ w) (hn : n < b ^ w) (h : digits b d w m = digits b d w n) : m = n := by
  rcases lt_trichotomy m n with hlt | heq | hgt
  · exact absurd h (digits_lt_digits hb hd hn hlt).ne
  · exact heq
  · exact absurd h (digits_lt_digits hb hd hm hgt).ne'

end

/-! ### Big-endian numbers -/

/-- `n` as `w` bytes, most significant first. -/
def be (w n : ℕ) : Bytes := digits 256 UInt8.ofNat w n

/-- The number a byte string denotes, most significant byte first. -/
def ofBe (bs : Bytes) : ℕ := bs.foldl (fun acc b => acc * 256 + b.toNat) 0

@[simp] lemma be_length (w n : ℕ) : (be w n).length = w := digits_length _ _ _ _

private lemma ofNat_mono_byte (i j : ℕ) (h : i < j) (hj : j < 256) :
    UInt8.ofNat i < UInt8.ofNat j := by
  rw [UInt8.lt_iff_toNat_lt, toNat_ofNat_lt (by omega), toNat_ofNat_lt (by omega)]
  exact h

lemma be_lt_be (hn : n < 256 ^ w) (h : m < n) : be w m < be w n :=
  digits_lt_digits (by omega) ofNat_mono_byte hn h

lemma be_injective (hm : m < 256 ^ w) (hn : n < 256 ^ w) (h : be w m = be w n) : m = n :=
  digits_injective (by omega) ofNat_mono_byte hm hn h

lemma ofBe_append (xs ys : Bytes) : ofBe (xs ++ ys) = ofBe xs * 256 ^ ys.length + ofBe ys := by
  have key : ∀ (ys : Bytes) (acc : ℕ), ys.foldl (fun acc b => acc * 256 + b.toNat) acc =
      acc * 256 ^ ys.length + ofBe ys := by
    intro ys
    induction ys with
    | nil => intro acc; simp [ofBe]
    | cons y ys ih =>
      intro acc
      have e : ofBe (y :: ys) = y.toNat * 256 ^ ys.length + ofBe ys := by
        simp only [ofBe, foldl_cons, Nat.zero_mul, Nat.zero_add]
        exact ih _
      rw [foldl_cons, ih, e, length_cons, pow_succ]
      ring
  unfold ofBe
  rw [foldl_append, key]
  rfl

lemma ofBe_cons (x : UInt8) (xs : Bytes) :
    ofBe (x :: xs) = x.toNat * 256 ^ xs.length + ofBe xs := by
  have := ofBe_append [x] xs
  simpa [ofBe] using this

lemma ofBe_lt (bs : Bytes) : ofBe bs < 256 ^ bs.length := by
  induction bs with
  | nil => simp [ofBe]
  | cons b =>
    rw [ofBe_cons, length_cons, pow_succ]
    have := b.toNat_lt
    nlinarith

lemma ofBe_be_mod (w n : ℕ) : ofBe (be w n) = n % 256 ^ w := by
  induction w with
  | zero => simp [be, digits, ofBe, Nat.mod_one]
  | succ w ih =>
    have e : be (w + 1) n = UInt8.ofNat (n / 256 ^ w % 256) :: be w n := rfl
    rw [e, ofBe_cons, ih, be_length, toNat_ofNat_lt (Nat.mod_lt _ (by omega)),
      pow_succ, Nat.mod_mul]
    ring

lemma ofBe_be (h : n < 256 ^ w) : ofBe (be w n) = n := by
  rw [ofBe_be_mod, Nat.mod_eq_of_lt h]

lemma be_ofBe {bs : Bytes} (h : bs.length = w) : be w (ofBe bs) = bs := by
  subst h
  induction bs with
  | nil => rfl
  | cons b bs ih =>
    have hlt := ofBe_lt bs
    have hpos : 0 < 256 ^ bs.length := Nat.pow_pos (by omega)
    have hdiv : ofBe (b :: bs) / 256 ^ bs.length % 256 = b.toNat := by
      rw [ofBe_cons, Nat.add_comm, Nat.add_mul_div_right _ _ hpos, Nat.div_eq_of_lt hlt,
        Nat.zero_add]
      exact Nat.mod_eq_of_lt b.toNat_lt
    have htail : be bs.length (ofBe (b :: bs)) = bs := by
      rw [ofBe_cons, Nat.add_comm]
      exact (digits_mod 256 UInt8.ofNat bs.length (ofBe bs) b.toNat).trans ih
    show UInt8.ofNat (ofBe (b :: bs) / 256 ^ bs.length % 256) :: be bs.length (ofBe (b :: bs)) = _
    rw [hdiv, htail, UInt8.ofNat_toNat]

/-! ### Decimal numbers of a fixed width -/

/-- `n` as `w` ASCII decimal digits, most significant first. -/
def dec (w n : ℕ) : Bytes := digits 10 (fun i => UInt8.ofNat (48 + i)) w n

@[simp] lemma dec_length (w n : ℕ) : (dec w n).length = w := digits_length _ _ _ _

private lemma ofNat_mono_digit (i j : ℕ) (h : i < j) (hj : j < 10) :
    UInt8.ofNat (48 + i) < UInt8.ofNat (48 + j) := by
  rw [UInt8.lt_iff_toNat_lt, toNat_ofNat_lt (by omega), toNat_ofNat_lt (by omega)]
  omega

lemma dec_lt_dec (hn : n < 10 ^ w) (h : m < n) : dec w m < dec w n :=
  digits_lt_digits (by omega) ofNat_mono_digit hn h

lemma dec_injective (hm : m < 10 ^ w) (hn : n < 10 ^ w) (h : dec w m = dec w n) : m = n :=
  digits_injective (by omega) ofNat_mono_digit hm hn h

end NoKV.Lib
