import NoKV.Lib.Bytes
import NoKV.Lib.Except

/-!
# Strict decoders

A decoder consumes a byte string from the left and fails with the error its caller names for a
truncated field. The lemmas run a decoder on the output of the matching encoder: each one removes
one encoded field from the front of the input, so a round trip is a chain of rewrites in field
order.
-/

namespace NoKV.Lib

/-- A byte string of exactly `n` bytes. -/
structure FixedBytes (n : ℕ) where
  bytes : Bytes
  length_eq : bytes.length = n
  deriving DecidableEq

namespace FixedBytes

variable {n : ℕ}

lemma ext_bytes {a b : FixedBytes n} (h : a.bytes = b.bytes) : a = b := by
  cases a; cases b; cases h; rfl

def fill (n : ℕ) (b : UInt8) : FixedBytes n := ⟨List.replicate n b, by simp⟩

@[simp] lemma length_bytes (a : FixedBytes n) : a.bytes.length = n := a.length_eq

end FixedBytes

/-- A decoder over the bytes that remain to be read. -/
abbrev Cursor (ε : Type) := StateT Bytes (Except ε)

namespace Cursor

variable {ε α : Type}

/-- Read `n` bytes of the field `field`. -/
def take (truncated : String → ℕ → ℕ → ε) (field : String) (n : ℕ) : Cursor ε Bytes := fun rest =>
  if n ≤ rest.length then .ok (rest.take n, rest.drop n)
  else .error (truncated field n rest.length)

def u8 (truncated : String → ℕ → ℕ → ε) (field : String) : Cursor ε UInt8 := fun rest =>
  match rest with
  | [] => .error (truncated field 1 0)
  | b :: rest => .ok (b, rest)

def u32 (truncated : String → ℕ → ℕ → ε) (field : String) : Cursor ε ℕ :=
  ofBe <$> take truncated field 4

def u64 (truncated : String → ℕ → ℕ → ε) (field : String) : Cursor ε UInt64 :=
  (UInt64.ofNat ∘ ofBe) <$> take truncated field 8

/-- Read a byte string of a fixed width. -/
def fixed (truncated : String → ℕ → ℕ → ε) (field : String) (n : ℕ) : Cursor ε (FixedBytes n) :=
  fun rest =>
    if h : n ≤ rest.length then .ok (⟨rest.take n, by simp [h]⟩, rest.drop n)
    else .error (truncated field n rest.length)

/-- Fail when bytes remain. -/
def finish (trailing : ℕ → ε) : Cursor ε Unit := fun rest =>
  if rest.length = 0 then .ok ((), rest) else .error (trailing rest.length)

/-- Decode a whole byte string. -/
def decode (c : Cursor ε α) (encoded : Bytes) : Except ε α := Prod.fst <$> c.run encoded

/-- Read `n` values with the same decoder. -/
def repeatN (c : Cursor ε α) : ℕ → Cursor ε (List α)
  | 0 => pure []
  | n + 1 => do
    let a ← c
    let as ← repeatN c n
    return a :: as

/-! ### Running a decoder on encoded fields -/

/-- The decoder reads exactly `e` off the front of any input that starts with it, as the value `a`. -/
def Decodes (c : Cursor ε α) (e : Bytes) (a : α) : Prop := ∀ r, c.run (e ++ r) = .ok (a, r)

namespace Decodes

variable {β : Type} {c : Cursor ε α} {e e' : Bytes} {a : α} {b : β}

lemma pure (a : α) : Decodes (Pure.pure a : Cursor ε α) [] a := fun _ => rfl

variable {f : α → Cursor ε β}

lemma bind (h : Decodes c e a) (h' : Decodes (f a) e' b) : Decodes (c >>= f) (e ++ e') b := by
  intro r
  rw [List.append_assoc, StateT.run_bind, h]
  exact h' r

lemma bind_nil (h : Decodes c e a) (h' : Decodes (f a) [] b) : Decodes (c >>= f) e b := by
  have := h.bind h'
  rwa [List.append_nil] at this

lemma nil_bind (h : Decodes c [] a) (h' : Decodes (f a) e' b) : Decodes (c >>= f) e' b := h.bind h'

lemma cons {es : List Bytes} (h : Decodes c e a) (h' : Decodes (f a) es.flatten b) :
    Decodes (c >>= f) (e :: es).flatten b := by
  exact h.bind h'

lemma refuseIf {p : Prop} [Decidable p] {e : ε} (h : ¬ p) :
    Decodes (Lib.refuseIf p e : Cursor ε Unit) [] () := by
  intro r
  unfold Lib.refuseIf
  rw [if_neg h]
  rfl

lemma okOr {x : Option α} {e : ε} (h : x = some a) :
    Decodes (Lib.okOr x e : Cursor ε α) [] a := by
  subst h
  exact pure a

lemma map (g : α → β) (h : Decodes c e a) : Decodes (g <$> c) e (g a) := by
  intro r
  rw [StateT.run_map, h]
  rfl

lemma lift {x : Except ε α} (h : x = .ok a) : Decodes (liftM x : Cursor ε α) [] a := by
  subst h
  exact fun _ => rfl

lemma repeatN {es : List Bytes} {as : List α} (h : List.Forall₂ (Decodes c) es as) :
    Decodes (Cursor.repeatN c as.length) es.flatten as := by
  induction h with
  | nil => exact pure []
  | cons h _ ih => exact h.bind (ih.bind_nil (pure _))

lemma decode {t : ℕ → ε} (h : Decodes c e a) :
    Cursor.decode (do let a ← c; finish t; return a) e = .ok a := by
  have h0 := h []
  rw [List.append_nil] at h0
  unfold Cursor.decode
  rw [StateT.run_bind, h0]
  rfl

end Decodes

section Fields

variable {t : String → ℕ → ℕ → ε} {f : String}

lemma decodes_take {xs : Bytes} {n : ℕ} (h : xs.length = n) : Decodes (take t f n) xs xs := by
  intro r
  subst h
  simp [take, StateT.run]

lemma decodes_u8 (b : UInt8) : Decodes (u8 t f) [b] b := fun _ => rfl

lemma decodes_u32 {n : ℕ} (h : n < 2 ^ 32) : Decodes (u32 t f) (be 4 n) n := by
  have := (decodes_take (t := t) (f := f) (be_length 4 n)).map ofBe
  rwa [ofBe_be (w := 4) (n := n) (by omega)] at this

lemma decodes_u64 (x : UInt64) : Decodes (u64 t f) (be 8 x.toNat) x := by
  have := (decodes_take (t := t) (f := f) (be_length 8 x.toNat)).map (UInt64.ofNat ∘ ofBe)
  have hx : x.toNat < 256 ^ 8 := x.toNat_lt
  rwa [Function.comp_apply, ofBe_be hx, UInt64.ofNat_toNat] at this

lemma decodes_fixed {n : ℕ} (x : FixedBytes n) : Decodes (fixed t f n) x.bytes x := by
  intro r
  obtain ⟨_, rfl⟩ := x
  simp [fixed, StateT.run]

end Fields

end Cursor

end NoKV.Lib
