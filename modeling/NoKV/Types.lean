import NoKV.Lib.Sha256

/-!
# Identifiers and durable scalars

The fixed-width identities and the non-zero counters of the workspace schema. A counter is a
64-bit number that carries the proof that it is not zero.
-/

namespace NoKV

open Lib

/-- Routing identity of one root. -/
abbrev RootId := FixedBytes 16
/-- Identity of one persisted logical metadata shard. -/
abbrev LogicalShardId := FixedBytes 16
/-- Identity of one durable artifact-object namespace. -/
abbrev ObjectNamespaceId := FixedBytes 16
/-- Identity of a principal of one tenant. -/
abbrev PrincipalId := FixedBytes 16
/-- Request identity used for exact command replay. -/
abbrev RequestId := FixedBytes 16
abbrev Digest := FixedBytes 32
/-- SHA-256 digest of the canonical metadata command input. -/
abbrev CommandDigest := Digest

/-- The SHA-256 function of the digest crate. -/
class Sha256 where
  sha256 : Bytes → Digest

export Sha256 (sha256)

/-- SHA-256 itself. -/
@[reducible] def sha256Digest : Sha256 := ⟨Lib.Sha256.digest⟩

/-- A 64-bit number that is not zero. -/
structure NonZeroU64 where
  val : UInt64
  ne_zero : val ≠ 0
  deriving DecidableEq

lemma NonZeroU64.one_ne_zero : (1 : UInt64) ≠ 0 := by decide

/-- Epoch of the physical shard owner. -/
abbrev OwnerEpoch := NonZeroU64
abbrev PlacementGeneration := NonZeroU64
abbrev ReadVersion := NonZeroU64
/-- Version assigned to one committed metadata command. -/
abbrev CommitVersion := NonZeroU64

namespace NonZeroU64

def get (v : NonZeroU64) : ℕ := v.val.toNat

def new (v : UInt64) : Option NonZeroU64 :=
  if h : v = 0 then none else some ⟨v, h⟩

lemma get_pos (v : NonZeroU64) : 0 < v.get := by
  have h : v.val.toNat ≠ 0 := fun h => v.ne_zero (UInt64.toNat_inj.1 h)
  exact Nat.pos_of_ne_zero h

lemma ext_get {a b : NonZeroU64} (h : a.get = b.get) : a = b := by
  cases a
  cases b
  cases UInt64.toNat_inj.1 h
  rfl

@[simp] lemma new_val (v : NonZeroU64) : new v.val = some v := by
  unfold new
  rw [dif_neg v.ne_zero]

lemma new_eq_some {v : UInt64} {w : NonZeroU64} (h : new v = some w) : w.val = v := by
  unfold new at h
  split at h
  · cases h
  · cases h; rfl

instance : LE NonZeroU64 := ⟨fun a b => a.get ≤ b.get⟩
instance : LT NonZeroU64 := ⟨fun a b => a.get < b.get⟩
instance (a b : NonZeroU64) : Decidable (a ≤ b) := inferInstanceAs (Decidable (a.get ≤ b.get))
instance (a b : NonZeroU64) : Decidable (a < b) := inferInstanceAs (Decidable (a.get < b.get))

lemma le_iff {a b : NonZeroU64} : a ≤ b ↔ a.get ≤ b.get := Iff.rfl

end NonZeroU64

/-- `u64::checked_add`. -/
def checkedAdd (a : UInt64) (n : ℕ) : Option UInt64 :=
  if a.toNat + n < 2 ^ 64 then some (UInt64.ofNat (a.toNat + n)) else none

lemma checkedAdd_eq_some {a b : UInt64} {n : ℕ} :
    checkedAdd a n = some b ↔ b.toNat = a.toNat + n := by
  unfold checkedAdd
  split
  next h =>
    rw [Option.some.injEq, ← UInt64.toNat_inj, UInt64.toNat_ofNat', Nat.mod_eq_of_lt h, eq_comm]
  next h =>
    have := b.toNat_lt
    constructor
    · intro h'
      cases h'
    · intro h'
      omega

lemma checkedAdd_one {a : UInt64} (h : a.toNat + 1 < 2 ^ 64) :
    ∃ b, checkedAdd a 1 = some b ∧ b.toNat = a.toNat + 1 := by
  have hb : (UInt64.ofNat (a.toNat + 1)).toNat = a.toNat + 1 := by
    rw [UInt64.toNat_ofNat', Nat.mod_eq_of_lt h]
  exact ⟨_, checkedAdd_eq_some.2 hb, hb⟩

/-- Shard-local activation state of one installed root fence. -/
inductive RootActivationState where
  | installing
  | active
  | draining
  | fenced
  deriving DecidableEq, Repr

namespace RootActivationState

/-- The durable discriminant. -/
def toU8 : RootActivationState → UInt8
  | installing => 1
  | active => 2
  | draining => 3
  | fenced => 4

/-- The state of a durable discriminant. -/
def ofU8 (value : UInt8) : Option RootActivationState :=
  if value = 1 then some installing
  else if value = 2 then some active
  else if value = 3 then some draining
  else if value = 4 then some fenced
  else none

@[simp] lemma ofU8_toU8 (state : RootActivationState) : ofU8 state.toU8 = some state := by
  cases state <;> rfl

end RootActivationState

end NoKV
