import NoKV.Lib.Cursor

/-!
# SHA-256

The digest function on byte strings, computed on natural numbers below `2 ^ 32` so that concrete
digests evaluate.
-/

namespace NoKV.Lib.Sha256

def roundConstants : List ℕ := [
  0x428a2f98, 0x71374491, 0xb5c0fbcf, 0xe9b5dba5, 0x3956c25b, 0x59f111f1, 0x923f82a4, 0xab1c5ed5,
  0xd807aa98, 0x12835b01, 0x243185be, 0x550c7dc3, 0x72be5d74, 0x80deb1fe, 0x9bdc06a7, 0xc19bf174,
  0xe49b69c1, 0xefbe4786, 0x0fc19dc6, 0x240ca1cc, 0x2de92c6f, 0x4a7484aa, 0x5cb0a9dc, 0x76f988da,
  0x983e5152, 0xa831c66d, 0xb00327c8, 0xbf597fc7, 0xc6e00bf3, 0xd5a79147, 0x06ca6351, 0x14292967,
  0x27b70a85, 0x2e1b2138, 0x4d2c6dfc, 0x53380d13, 0x650a7354, 0x766a0abb, 0x81c2c92e, 0x92722c85,
  0xa2bfe8a1, 0xa81a664b, 0xc24b8b70, 0xc76c51a3, 0xd192e819, 0xd6990624, 0xf40e3585, 0x106aa070,
  0x19a4c116, 0x1e376c08, 0x2748774c, 0x34b0bcb5, 0x391c0cb3, 0x4ed8aa4a, 0x5b9cca4f, 0x682e6ff3,
  0x748f82ee, 0x78a5636f, 0x84c87814, 0x8cc70208, 0x90befffa, 0xa4506ceb, 0xbef9a3f7, 0xc67178f2]

/-- The working variables of the compression. -/
structure Words where
  a : ℕ
  b : ℕ
  c : ℕ
  d : ℕ
  e : ℕ
  f : ℕ
  g : ℕ
  h : ℕ

def initialWords : Words :=
  ⟨0x6a09e667, 0xbb67ae85, 0x3c6ef372, 0xa54ff53a, 0x510e527f, 0x9b05688c, 0x1f83d9ab, 0x5be0cd19⟩

def rotr (n x : ℕ) : ℕ := (x >>> n ||| x <<< (32 - n)) % 2 ^ 32

/-- One round with its constant and its message word. -/
def round (w : Words) (kw : ℕ × ℕ) : Words :=
  let s1 := rotr 6 w.e ^^^ rotr 11 w.e ^^^ rotr 25 w.e
  let ch := (w.e &&& w.f) ^^^ ((w.e ^^^ 0xffffffff) &&& w.g)
  let t1 := w.h + s1 + ch + kw.1 + kw.2
  let s0 := rotr 2 w.a ^^^ rotr 13 w.a ^^^ rotr 22 w.a
  let maj := (w.a &&& w.b) ^^^ (w.a &&& w.c) ^^^ (w.b &&& w.c)
  ⟨(t1 + (s0 + maj)) % 2 ^ 32, w.a, w.b, w.c, (w.d + t1) % 2 ^ 32, w.e, w.f, w.g⟩

/-- The message schedule from the last sixteen words on. -/
def schedule : ℕ → List ℕ → List ℕ
  | 0, _ => []
  | n + 1, window =>
    let x := window.getD 1 0
    let y := window.getD 14 0
    let s0 := rotr 7 x ^^^ rotr 18 x ^^^ (x >>> 3)
    let s1 := rotr 17 y ^^^ rotr 19 y ^^^ (y >>> 10)
    let next := (window.getD 0 0 + s0 + window.getD 9 0 + s1) % 2 ^ 32
    next :: schedule n (window.drop 1 ++ [next])

/-- The big-endian words of a byte string. -/
def wordsOf : Bytes → List ℕ
  | a :: b :: c :: d :: rest => ofBe [a, b, c, d] :: wordsOf rest
  | _ => []

def compress (w : Words) (block : Bytes) : Words :=
  let message := wordsOf block
  let out := (roundConstants.zip (message ++ schedule 48 message)).foldl round w
  ⟨(w.a + out.a) % 2 ^ 32, (w.b + out.b) % 2 ^ 32, (w.c + out.c) % 2 ^ 32, (w.d + out.d) % 2 ^ 32,
    (w.e + out.e) % 2 ^ 32, (w.f + out.f) % 2 ^ 32, (w.g + out.g) % 2 ^ 32, (w.h + out.h) % 2 ^ 32⟩

/-- The message with its end bit and its length in bits. -/
def pad (input : Bytes) : Bytes :=
  input ++ 0x80 :: (List.replicate ((119 - input.length % 64) % 64) 0 ++ be 8 (8 * input.length))

/-- The blocks of a padded message. -/
def blocks : ℕ → Bytes → List Bytes
  | 0, _ => []
  | n + 1, input => input.take 64 :: blocks n (input.drop 64)

def digest (input : Bytes) : FixedBytes 32 :=
  let padded := pad input
  let w := (blocks (padded.length / 64) padded).foldl compress initialWords
  ⟨be 4 w.a ++ be 4 w.b ++ be 4 w.c ++ be 4 w.d ++ be 4 w.e ++ be 4 w.f ++ be 4 w.g ++ be 4 w.h, by simp⟩

/-- The digest of "abc". -/
example : ofBe (digest (utf8 "abc")).bytes =
    0xba7816bf8f01cfea414140de5dae2223b00361a396177a9cb410ff61f20015ad := by decide +kernel

end NoKV.Lib.Sha256
