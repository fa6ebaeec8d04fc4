/-
# The ChaCha20 generator

A generator of random bytes: the blocks of ChaCha20 under a key, numbered by a
64-bit counter. The key is spread from a seed of 64 bits by a linear
congruential generator with a permuted output. A request consumes whole words
of four bytes.

Key definitions: `ChaChaStream.seedWords`, `ChaChaStream.ofKey`,
`ChaChaStream.ofSeed`, `ChaChaStream.draw`.
-/
import SealedEnvelope.Random.ByteStream
import SealedEnvelope.Cipher.ChaCha

namespace SealedEnvelope
namespace ChaChaStream

/-- `n` words of four bytes spread from a state of 64 bits: the state steps, and its high bits
choose how far the others are turned. -/
def seedWords : (n : Nat) → (state : UInt64) → Bytes
  | 0, _ => []
  | n + 1, state =>
    let state := state * 6364136223846793005 + 11634580027462260723
    let x := (((state >>> 18) ^^^ state) >>> 27).toUInt32
    let turn := (state >>> 59).toUInt32
    let word := (x >>> turn) ||| (x <<< ((32 - turn) % 32))
    (Bytes.ofNatWidth 4 word.toNat).reverse ++ seedWords n state

/-- Byte `i` of the blocks under `key`. -/
def byteAt (key : Bytes) (i : Nat) : UInt8 :=
  let counter := i / 64
  let last : ChaCha.Row := ⟨UInt32.ofNat counter, UInt32.ofNat (counter / 2 ^ 32), 0, 0⟩
  (ChaCha.block key last).getD (i % 64) 0

/-- The stream under a key of 32 bytes. -/
def ofKey (key : Bytes) : ByteStream := ByteStream.ofFunction (byteAt key)

/-- The stream of a seed. -/
def ofSeed (seed : UInt64) : ByteStream := ofKey (seedWords 8 seed)

/-- The next `n` bytes; the rest of the last word is lost. -/
def draw (s : ByteStream) (n : Nat) : Bytes × ByteStream :=
  let (b, s) := s.draw n
  (b, s.align 4)

end ChaChaStream
end SealedEnvelope
