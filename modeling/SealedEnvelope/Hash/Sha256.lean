/-
# SHA-256

The hash function of FIPS 180-4 over byte strings. A message is cut into
blocks of 64 bytes; `compress` folds one block into the eight-word chaining
state, and the last block is completed by a one bit, zeros and the length of
the message in bits.

Key definitions: `Sha256.State`, `Sha256.schedule`, `Sha256.compress`,
`Sha256.padding`, `sha256`.
Key lemma: `length_sha256`.
-/
import SealedEnvelope.Bytes

namespace SealedEnvelope
namespace Sha256

/-- The eight words that one block of the message turns into the next eight. -/
structure State where
  a : UInt32
  b : UInt32
  c : UInt32
  d : UInt32
  e : UInt32
  f : UInt32
  g : UInt32
  h : UInt32

/-- The state before the first block. -/
def initial : State :=
  ⟨0x6a09e667, 0xbb67ae85, 0x3c6ef372, 0xa54ff53a,
   0x510e527f, 0x9b05688c, 0x1f83d9ab, 0x5be0cd19⟩

/-- One constant for each of the 64 rounds. -/
def roundConstants : List UInt32 :=
  [0x428a2f98, 0x71374491, 0xb5c0fbcf, 0xe9b5dba5, 0x3956c25b, 0x59f111f1, 0x923f82a4, 0xab1c5ed5,
   0xd807aa98, 0x12835b01, 0x243185be, 0x550c7dc3, 0x72be5d74, 0x80deb1fe, 0x9bdc06a7, 0xc19bf174,
   0xe49b69c1, 0xefbe4786, 0x0fc19dc6, 0x240ca1cc, 0x2de92c6f, 0x4a7484aa, 0x5cb0a9dc, 0x76f988da,
   0x983e5152, 0xa831c66d, 0xb00327c8, 0xbf597fc7, 0xc6e00bf3, 0xd5a79147, 0x06ca6351, 0x14292967,
   0x27b70a85, 0x2e1b2138, 0x4d2c6dfc, 0x53380d13, 0x650a7354, 0x766a0abb, 0x81c2c92e, 0x92722c85,
   0xa2bfe8a1, 0xa81a664b, 0xc24b8b70, 0xc76c51a3, 0xd192e819, 0xd6990624, 0xf40e3585, 0x106aa070,
   0x19a4c116, 0x1e376c08, 0x2748774c, 0x34b0bcb5, 0x391c0cb3, 0x4ed8aa4a, 0x5b9cca4f, 0x682e6ff3,
   0x748f82ee, 0x78a5636f, 0x84c87814, 0x8cc70208, 0x90befffa, 0xa4506ceb, 0xbef9a3f7, 0xc67178f2]

/-- The word turned right by `n` places. -/
def rotateRight (x n : UInt32) : UInt32 := (x >>> n) ||| (x <<< (32 - n))

/-- The big-endian words of a byte string; an incomplete word at the end is left out. -/
def words : Bytes → List UInt32
  | p :: q :: r :: s :: rest =>
    ((p.toUInt32 <<< 24) ||| (q.toUInt32 <<< 16) ||| (r.toUInt32 <<< 8) ||| s.toUInt32) ::
      words rest
  | _ => []

/-- The word that follows the sixteen words `w`, latest first. -/
def nextWord : List UInt32 → UInt32
  | _ :: w2 :: _ :: _ :: _ :: _ :: w7 :: _ :: _ :: _ :: _ :: _ :: _ :: _ :: w15 :: w16 :: _ =>
    (rotateRight w2 17 ^^^ rotateRight w2 19 ^^^ (w2 >>> 10)) + w7 +
      (rotateRight w15 7 ^^^ rotateRight w15 18 ^^^ (w15 >>> 3)) + w16
  | _ => 0

/-- The words `w`, latest first, followed by `n` more. -/
def extend : Nat → List UInt32 → List UInt32
  | 0, w => w
  | n + 1, w => extend n (nextWord w :: w)

/-- The 64 round words of a block of 64 bytes. -/
def schedule (block : Bytes) : List UInt32 := (extend 48 (words block).reverse).reverse

/-- One round, with round constant `k` and round word `w`. -/
def round (s : State) (k w : UInt32) : State :=
  let s1 := rotateRight s.e 6 ^^^ rotateRight s.e 11 ^^^ rotateRight s.e 25
  let choice := (s.e &&& s.f) ^^^ ((~~~ s.e) &&& s.g)
  let t1 := s.h + s1 + choice + k + w
  let s0 := rotateRight s.a 2 ^^^ rotateRight s.a 13 ^^^ rotateRight s.a 22
  let majority := (s.a &&& s.b) ^^^ (s.a &&& s.c) ^^^ (s.b &&& s.c)
  ⟨t1 + (s0 + majority), s.a, s.b, s.c, s.d + t1, s.e, s.f, s.g⟩

/-- The rounds with the constants `ks` and the words `ws`, in order. -/
def rounds : List UInt32 → List UInt32 → State → State
  | k :: ks, w :: ws, s => rounds ks ws (round s k w)
  | _, _, s => s

/-- The state after one more block. -/
def compress (s : State) (block : Bytes) : State :=
  let t := rounds roundConstants (schedule block) s
  ⟨s.a + t.a, s.b + t.b, s.c + t.c, s.d + t.d, s.e + t.e, s.f + t.f, s.g + t.g, s.h + t.h⟩

/-- The state after `n` blocks from the front of `b`, and what is left of `b`. -/
def absorb : Nat → State → Bytes → State × Bytes
  | 0, s, b => (s, b)
  | n + 1, s, b => absorb n (compress s (b.take 64)) (b.drop 64)

/-- What follows a message of `length` bytes: a one bit, zeros up to eight bytes
before the end of a block, and the length in bits. -/
def padding (length : Nat) : Bytes :=
  0x80 :: (List.replicate ((119 - length % 64) % 64) 0 ++ Bytes.ofNatWidth 8 (length * 8))

/-- The bytes of a state, word by word. -/
def State.toBytes (s : State) : Bytes :=
  [s.a, s.b, s.c, s.d, s.e, s.f, s.g, s.h].flatMap fun w => Bytes.ofNatWidth 4 w.toNat

end Sha256

open Sha256 in
/-- The SHA-256 hash of a byte string. -/
def sha256 (b : Bytes) : Bytes :=
  let length := b.length
  let (s, tail) := absorb (length / 64) initial b
  let last := tail ++ padding length
  (absorb (last.length / 64) s last).1.toBytes

@[simp] theorem length_sha256 (b : Bytes) : (sha256 b).length = 32 := by
  simp [sha256, Sha256.State.toBytes]

end SealedEnvelope
