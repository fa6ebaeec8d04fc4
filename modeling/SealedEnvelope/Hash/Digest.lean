/-
# Digests

A digest is a byte string of 32 bytes, the result of hashing. Digests are
compared, combined by exclusive or and read as big-endian numbers.

Key definitions: `Digest`, `Digest.of`, `Digest.ofBytes?`, `Digest.xor`,
`Digest.toNat`.
-/
import SealedEnvelope.Hash.Sha256
import SealedEnvelope.CryptoError

namespace SealedEnvelope

/-- A SHA-256 digest. -/
structure Digest where
  bytes : Bytes
  length_eq : bytes.length = 32
deriving DecidableEq

namespace Digest

/-- The number of bytes of a digest. -/
def size : Nat := 32

/-- The number of bits of a digest. -/
def bits : Nat := 256

/-- The digest of a byte string. -/
def of (b : Bytes) : Digest := ⟨sha256 b, length_sha256 b⟩

/-- Reads a byte string of exactly 32 bytes. -/
def ofBytes (b : Bytes) : Except CryptoError Digest :=
  if h : b.length = 32 then .ok ⟨b, h⟩ else .error (.invalidLength .digest size b.length)

/-- The bytewise exclusive or. -/
def xor (a b : Digest) : Digest :=
  ⟨Bytes.xor a.bytes b.bytes, by simp [a.length_eq, b.length_eq]⟩

/-- The digest read as a big-endian number. -/
def toNat (d : Digest) : Nat := d.bytes.toNat

/-- The short form shown in diagnostics: the first eight bytes. -/
def brief (d : Digest) : String := "Digest(" ++ Bytes.toHex (d.bytes.take 8) ++ "..)"

end Digest
end SealedEnvelope
