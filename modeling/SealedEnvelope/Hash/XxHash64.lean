/-
# xxHash64

The checksum of compressed frames: four lanes of 64-bit words take 32 bytes at
a time, the rest is folded in by eight, four and one, and the result is
scrambled.

Key definitions: `XxHash64.round`, `XxHash64.stripes`, `xxHash64`.
-/
import SealedEnvelope.Bytes

namespace SealedEnvelope
namespace XxHash64

def prime1 : UInt64 := 0x9E3779B185EBCA87
def prime2 : UInt64 := 0xC2B2AE3D27D4EB4F
def prime3 : UInt64 := 0x165667B19E3779F9
def prime4 : UInt64 := 0x85EBCA77C2B2AE63
def prime5 : UInt64 := 0x27D4EB2F165667C5

/-- The word turned left by `n` places. -/
def rotateLeft (x n : UInt64) : UInt64 := (x <<< n) ||| (x >>> (64 - n))

/-- The little-endian word at the front of a byte string of at most eight bytes. -/
def word (b : Bytes) : UInt64 := UInt64.ofNat (Bytes.toNat b.reverse)

/-- One lane after one more word. -/
def round (acc input : UInt64) : UInt64 := rotateLeft (acc + input * prime2) 31 * prime1

/-- The four lanes. -/
structure Lanes where
  v1 : UInt64
  v2 : UInt64
  v3 : UInt64
  v4 : UInt64

/-- The lanes before the first word. -/
def Lanes.initial : Lanes := ⟨prime1 + prime2, prime2, 0, 0 - prime1⟩

/-- The lanes after `n` stripes of 32 bytes from the front of `b`, and the rest of `b`. -/
def stripes : (n : Nat) → Lanes → Bytes → Lanes × Bytes
  | 0, v, b => (v, b)
  | n + 1, v, b =>
    stripes n
      ⟨round v.v1 (word (b.take 8)), round v.v2 (word ((b.drop 8).take 8)),
       round v.v3 (word ((b.drop 16).take 8)), round v.v4 (word ((b.drop 24).take 8))⟩
      (b.drop 32)

/-- The lanes joined into one word. -/
def Lanes.converge (v : Lanes) : UInt64 :=
  let merge (h lane : UInt64) : UInt64 := (h ^^^ round 0 lane) * prime1 + prime4
  let h := rotateLeft v.v1 1 + rotateLeft v.v2 7 + rotateLeft v.v3 12 + rotateLeft v.v4 18
  merge (merge (merge (merge h v.v1) v.v2) v.v3) v.v4

/-- The hash after `n` more words of eight bytes, and the rest. -/
def eights : (n : Nat) → UInt64 → Bytes → UInt64 × Bytes
  | 0, h, b => (h, b)
  | n + 1, h, b =>
    eights n (rotateLeft (h ^^^ round 0 (word (b.take 8))) 27 * prime1 + prime4) (b.drop 8)

/-- The hash after one more byte. -/
def byteStep (h : UInt64) (x : UInt8) : UInt64 :=
  rotateLeft (h ^^^ (x.toUInt64 * prime5)) 11 * prime1

/-- The last scrambling. -/
def avalanche (h : UInt64) : UInt64 :=
  let h := (h ^^^ (h >>> 33)) * prime2
  let h := (h ^^^ (h >>> 29)) * prime3
  h ^^^ (h >>> 32)

end XxHash64

open XxHash64 in
/-- The xxHash64 of a byte string under the seed zero. -/
def xxHash64 (b : Bytes) : UInt64 :=
  let length := b.length
  let (lanes, rest) := stripes (length / 32) Lanes.initial b
  let h := (if length < 32 then prime5 else lanes.converge) + UInt64.ofNat length
  let (h, rest) := eights (length % 32 / 8) h rest
  let (h, rest) :=
    if length % 8 < 4 then (h, rest)
    else (rotateLeft (h ^^^ (word (rest.take 4) * prime1)) 23 * prime2 + prime3, rest.drop 4)
  avalanche (rest.foldl byteStep h)

end SealedEnvelope
