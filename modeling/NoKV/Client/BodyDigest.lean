import NoKV.Lib.Sha256

/-!
# The resumable body digest

The client hashes a body in updates of any size and asks for the digest of what it has hashed so far
at any point. The partial block stands in a buffer that is never cleared.
-/

namespace NoKV.Client

open List Lib Lib.Sha256

/-- `length` wraps at `2 ^ 64`, as without overflow checks. -/
structure BodyDigestState where
  state : Words
  pending : FixedBytes 64
  pendingLen : ℕ
  length : ℕ

/-- `copy_from_slice` into `buffer` from `offset` on. The bytes always fit. -/
def copyFrom {n : ℕ} (buffer : FixedBytes n) (offset : ℕ) (bytes : Bytes) : FixedBytes n :=
  ⟨(buffer.bytes.take offset ++ bytes ++ buffer.bytes.drop (offset + bytes.length)).take n, by
    simp
    omega⟩

namespace BodyDigestState

def new : BodyDigestState := ⟨initialWords, FixedBytes.fill 64 0, 0, 0⟩

/-- The end of `update`: the whole blocks of `bytes`, and what is left behind them. -/
def absorb (s : BodyDigestState) (bytes : Bytes) : BodyDigestState :=
  let rest := bytes.drop (64 * (bytes.length / 64))
  { s with
    state := (blocks (bytes.length / 64) bytes).foldl compress s.state
    pending := copyFrom s.pending 0 rest
    pendingLen := rest.length }

def update (s : BodyDigestState) (bytes : Bytes) : BodyDigestState :=
  let s := { s with length := (s.length + bytes.length) % 2 ^ 64 }
  if 0 < s.pendingLen then
    let taken := min (64 - s.pendingLen) bytes.length
    let pending := copyFrom s.pending s.pendingLen (bytes.take taken)
    let pendingLen := s.pendingLen + taken
    if pendingLen < 64 then { s with pending, pendingLen }
    else absorb { s with state := compress s.state pending.bytes, pending, pendingLen := 0 } (bytes.drop taken)
  else absorb s bytes

def wordBytes (w : Words) : FixedBytes 32 :=
  ⟨be 4 w.a ++ be 4 w.b ++ be 4 w.c ++ be 4 w.d ++ be 4 w.e ++ be 4 w.f ++ be 4 w.g ++ be 4 w.h, by simp⟩

def digest (s : BodyDigestState) : FixedBytes 32 :=
  let tail := copyFrom (FixedBytes.fill 128 0) 0 (s.pending.bytes.take s.pendingLen)
  let tail := copyFrom tail s.pendingLen [0x80]
  let tailLen := if s.pendingLen < 56 then 64 else 128
  let tail := copyFrom tail (tailLen - 8) (be 8 (s.length * 8 % 2 ^ 64))
  wordBytes ((blocks (tailLen / 64) (tail.bytes.take tailLen)).foldl compress s.state)

end BodyDigestState

/-! ### Blocks -/

/-- The words after the whole blocks of `input`. -/
def chained (input : Bytes) : Words := (blocks (input.length / 64) input).foldl compress initialWords

lemma blocks_append {x : Bytes} {n : ℕ} (hx : x.length = 64 * n) (m : ℕ) (y : Bytes) :
    blocks (n + m) (x ++ y) = blocks n x ++ blocks m y := by
  induction n generalizing x with
  | zero => simp [blocks, length_eq_zero_iff.1 hx]
  | succ n ih =>
    have htake : (x ++ y).take 64 = x.take 64 := take_append_of_le_length (by omega)
    have hdrop : (x ++ y).drop 64 = x.drop 64 ++ y := drop_append_of_le_length (by omega)
    rw [Nat.add_right_comm, blocks, blocks, htake, hdrop, ih (by simp; omega), cons_append]

lemma chained_append {x : Bytes} (hx : 64 ∣ x.length) (y : Bytes) :
    chained (x ++ y) = (blocks (y.length / 64) y).foldl compress (chained x) := by
  obtain ⟨n, hn⟩ := hx
  have hlen : (x ++ y).length / 64 = n + y.length / 64 := by
    rw [length_append]
    omega
  rw [chained, hlen, blocks_append hn, foldl_append, chained, hn, Nat.mul_div_cancel_left n (by decide)]

lemma chained_append_short {x y : Bytes} (hx : 64 ∣ x.length) (hy : y.length < 64) :
    chained (x ++ y) = chained x := by
  rw [chained_append hx, Nat.div_eq_of_lt hy]
  rfl

/-! ### The invariant of the updates -/

/-- `s` has compressed `whole` and holds `rest`. Nothing is said of `pending` behind `pendingLen`. -/
structure Hashed (s : BodyDigestState) (whole rest : Bytes) : Prop where
  aligned : 64 ∣ whole.length
  short : rest.length < 64
  state : s.state = chained whole
  pending : s.pending.bytes.take s.pendingLen = rest
  pendingLen : s.pendingLen = rest.length
  length : s.length = (whole ++ rest).length % 2 ^ 64

variable {s : BodyDigestState} {whole rest : Bytes}

lemma bytes_copyFrom {n offset : ℕ} {buffer : FixedBytes n} {bytes : Bytes} (h : offset + bytes.length ≤ n) :
    (copyFrom buffer offset bytes).bytes =
      buffer.bytes.take offset ++ bytes ++ buffer.bytes.drop (offset + bytes.length) := by
  refine take_of_length_le ?_
  simp
  omega

lemma take_copyFrom {n : ℕ} (buffer : FixedBytes n) (offset : ℕ) (bytes : Bytes)
    (h : offset + bytes.length ≤ n) : (copyFrom buffer offset bytes).bytes.take (offset + bytes.length) =
      buffer.bytes.take offset ++ bytes := by
  rw [bytes_copyFrom h]
  exact take_left' (by simp; omega)

lemma hashed_absorb {bytes : Bytes} (hwhole : 64 ∣ whole.length)
    (hstate : s.state = chained whole) (hlength : s.length = (whole ++ bytes).length % 2 ^ 64) :
    ∃ whole' rest', whole' ++ rest' = whole ++ bytes ∧ Hashed (s.absorb bytes) whole' rest' := by
  have hdvd : 64 ∣ (whole ++ bytes.take (64 * (bytes.length / 64))).length := by
    rw [length_append, length_take_of_le (Nat.mul_div_le _ _)]
    exact Nat.dvd_add hwhole ⟨_, rfl⟩
  have hrest : (bytes.drop (64 * (bytes.length / 64))).length < 64 := by
    rw [length_drop]
    omega
  have hparts : whole ++ bytes.take (64 * (bytes.length / 64)) ++ bytes.drop (64 * (bytes.length / 64)) =
      whole ++ bytes := by simp
  have hpending := take_copyFrom s.pending 0 (bytes.drop (64 * (bytes.length / 64))) (by omega)
  rw [Nat.zero_add, take_zero, nil_append] at hpending
  refine ⟨_, _, hparts, hdvd, hrest, ?_, hpending, rfl, hparts ▸ hlength⟩
  rw [← chained_append_short hdvd hrest, hparts, chained_append hwhole, ← hstate]
  rfl

lemma Hashed.update (h : Hashed s whole rest) (bytes : Bytes) :
    ∃ whole' rest', whole' ++ rest' = whole ++ rest ++ bytes ∧ Hashed (s.update bytes) whole' rest' := by
  obtain ⟨state, pending, pendingLen, length⟩ := s
  obtain ⟨haligned, hshort, rfl, hpending, rfl, rfl⟩ := h
  have hlength : ((whole ++ rest).length % 2 ^ 64 + bytes.length) % 2 ^ 64 =
      (whole ++ rest ++ bytes).length % 2 ^ 64 := by
    rw [Nat.mod_add_mod, ← length_append]
  have hfilled := take_copyFrom pending rest.length (bytes.take (min (64 - rest.length) bytes.length))
    (by simp; omega)
  rw [length_take_of_le (by omega), hpending] at hfilled
  simp only [BodyDigestState.update, hlength, append_assoc]
  split
  · -- the buffer holds a partial block, which the update may fill
    split
    · have htaken : min (64 - rest.length) bytes.length = bytes.length := by omega
      rw [htaken, take_length] at hfilled ⊢
      exact ⟨whole, rest ++ bytes, rfl, haligned, by simp; omega, rfl, hfilled, by simp, rfl⟩
    · have hblock : rest.length + min (64 - rest.length) bytes.length = 64 := by omega
      rw [hblock, take_of_length_le (FixedBytes.length_eq _).le] at hfilled
      have hparts : whole ++ (rest ++ bytes) =
          whole ++ (rest ++ bytes.take (min (64 - rest.length) bytes.length)) ++
            bytes.drop (min (64 - rest.length) bytes.length) := by simp
      have hlen : (rest ++ bytes.take (min (64 - rest.length) bytes.length)).length = 64 := by simpa using hblock
      rw [hparts]
      refine hashed_absorb ?_ ?_ rfl
      · rw [length_append, hlen]
        exact Nat.dvd_add haligned (Nat.dvd_refl 64)
      · rw [chained_append haligned, hlen, hfilled]
        simp [blocks, take_of_length_le hlen.le]
  · obtain rfl : rest = [] := length_eq_zero_iff.1 (by omega)
    exact hashed_absorb haligned rfl rfl

/-! ### The digest -/

/-- The tail is the padding of what is held. -/
lemma tail_eq {n : ℕ} (h : rest.length + 9 ≤ n) (hn : n ≤ 128) (length : ℕ) :
    (copyFrom (copyFrom (copyFrom (FixedBytes.fill 128 0) 0 rest) rest.length [0x80]) (n - 8)
        (be 8 length)).bytes.take n =
      rest ++ 0x80 :: (replicate (n - 9 - rest.length) 0 ++ be 8 length) := by
  have hheld : (copyFrom (copyFrom (FixedBytes.fill 128 0) 0 rest) rest.length [0x80]).bytes =
      rest ++ 0x80 :: replicate (128 - rest.length - 1) 0 := by
    rw [bytes_copyFrom (by simp only [length_singleton]; omega), bytes_copyFrom (by omega)]
    simp only [take_zero, nil_append, take_left, Nat.zero_add, length_singleton, drop_length_add_append,
      FixedBytes.fill, drop_replicate, append_assoc, singleton_append]
  have hlast := take_copyFrom (copyFrom (copyFrom (FixedBytes.fill 128 0) 0 rest) rest.length [0x80])
    (n - 8) (be 8 length) (by simp; omega)
  rw [be_length, Nat.sub_add_cancel (by omega), hheld] at hlast
  obtain ⟨k, rfl⟩ : ∃ k, n = rest.length + (k + 9) := ⟨n - (rest.length + 9), by omega⟩
  have hk : rest.length + (k + 9) - 8 = rest.length + (k + 1) := by omega
  have hr : rest.length + (k + 9) - 9 - rest.length = k := by omega
  rw [hlast, hk, hr, take_append, Nat.add_sub_cancel_left, take_of_length_le (by omega), take_succ_cons,
    take_replicate, Nat.min_eq_left (by omega)]
  simp

lemma Hashed.digest (h : Hashed s whole rest) :
    s.digest = Lib.Sha256.digest (whole ++ rest) := by
  have hshort := h.short
  have hlength : be 8 (s.length * 8 % 2 ^ 64) = be 8 (8 * (whole ++ rest).length) := by
    rw [h.length, Nat.mod_mul_mod, Nat.mul_comm]
    exact (congrArg (be 8) (ofBe_be_mod 8 _).symm).trans (be_ofBe (be_length ..))
  have hrest : (whole ++ rest).length % 64 = rest.length := by
    have := h.aligned
    rw [length_append]
    omega
  obtain ⟨n, hn, hlt, hle, hzeros⟩ : ∃ n, (if rest.length < 56 then 64 else 128) = n ∧
      rest.length + 9 ≤ n ∧ n ≤ 128 ∧ n - 9 - rest.length = (119 - rest.length) % 64 := by
    refine ⟨_, rfl, ?_, ?_, ?_⟩ <;> split <;> omega
  have hpad : pad (whole ++ rest) = whole ++ (rest ++ 0x80 :: (replicate (n - 9 - rest.length) 0 ++
      be 8 (8 * (whole ++ rest).length))) := by
    rw [pad, hrest, hzeros, append_assoc]
  show _ = BodyDigestState.wordBytes (chained (pad (whole ++ rest)))
  rw [hpad, chained_append h.aligned, ← hlength, ← tail_eq hlt hle, ← h.state]
  have hpending := h.pending
  rw [h.pendingLen] at hpending
  simp only [BodyDigestState.digest, h.pendingLen, hpending, hn]
  congr 3
  simp
  omega

/-! ### Runs -/

/-- The calls of a client on one state. -/
inductive DigestCall where
  | update (bytes : Bytes)
  | digest

/-- The digests a run of calls returns. -/
def BodyDigestState.serve : BodyDigestState → List DigestCall → List (FixedBytes 32)
  | _, [] => []
  | s, .update bytes :: calls => (s.update bytes).serve calls
  | s, .digest :: calls => s.digest :: s.serve calls

/-- The digests of the bytes given so far, the first of them `input`. -/
def digestsAlong : Bytes → List DigestCall → List (FixedBytes 32)
  | _, [] => []
  | input, .update bytes :: calls => digestsAlong (input ++ bytes) calls
  | input, .digest :: calls => Lib.Sha256.digest input :: digestsAlong input calls

lemma Hashed.serve (h : Hashed s whole rest) (calls : List DigestCall) :
    s.serve calls = digestsAlong (whole ++ rest) calls := by
  induction calls generalizing s whole rest with
  | nil => rfl
  | cons call calls ih =>
    cases call with
    | update bytes =>
      obtain ⟨whole', rest', hparts, hupdate⟩ := h.update bytes
      rw [BodyDigestState.serve, digestsAlong, ih hupdate, hparts]
    | digest => rw [BodyDigestState.serve, digestsAlong, ih h, h.digest]

lemma hashed_foldl (h : Hashed s whole rest) (cuts : List Bytes) :
    ∃ whole' rest', whole' ++ rest' = whole ++ rest ++ cuts.flatten ∧
      Hashed (cuts.foldl BodyDigestState.update s) whole' rest' := by
  induction cuts generalizing s whole rest with
  | nil => exact ⟨whole, rest, by simp, h⟩
  | cons bytes cuts ih =>
    obtain ⟨whole', rest', hparts, hupdate⟩ := h.update bytes
    obtain ⟨whole'', rest'', hparts', hcuts⟩ := ih hupdate
    exact ⟨whole'', rest'', by simp [hparts', hparts], hcuts⟩

lemma Hashed.stale (h : Hashed s whole rest) (stale : FixedBytes 64) :
    Hashed { s with pending := copyFrom stale 0 rest } whole rest := by
  refine ⟨h.aligned, h.short, h.state, ?_, h.pendingLen, h.length⟩
  have hstale := take_copyFrom stale 0 rest (by have := h.short; omega)
  rwa [Nat.zero_add, take_zero, nil_append, ← h.pendingLen] at hstale

/-- **The resumable digest.** However the hashed bytes were cut, and whatever stands in the buffer behind
the partial block, every further digest is the SHA-256 of all bytes given before it. -/
theorem body_digest (cuts : List Bytes) (stale : FixedBytes 64) (calls : List DigestCall) :
    let s := cuts.foldl BodyDigestState.update .new
    ({ s with pending := copyFrom stale 0 (s.pending.bytes.take s.pendingLen) }).serve calls =
      digestsAlong cuts.flatten calls := by
  have hnew : Hashed .new [] [] := ⟨by simp, by simp, rfl, rfl, rfl, rfl⟩
  obtain ⟨whole, rest, hparts, h⟩ := hashed_foldl hnew cuts
  dsimp only
  rw [h.pending, (h.stale stale).serve calls, hparts]
  rfl

end NoKV.Client
