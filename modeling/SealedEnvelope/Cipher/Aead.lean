/-
# Authenticated encryption of content

XChaCha20-Poly1305: a key of 32 bytes and an initialisation vector of 24 bytes
give a key stream that is added to the content, and a tag of sixteen bytes
over the ciphertext and the associated data.

Key definitions: `SymmetricKey`, `Iv`, `Cipher.keystream`, `Cipher.encrypt`,
`Cipher.decrypt`.
Key theorem: `Cipher.decrypt_encrypt`.
-/
import SealedEnvelope.Hash.Digest
import SealedEnvelope.Cipher.ChaCha
import SealedEnvelope.Cipher.Poly1305

namespace SealedEnvelope

/-- A content key of 32 bytes. -/
@[ext] structure SymmetricKey where
  bytes : Bytes
  length_eq : bytes.length = 32

instance : DecidableEq SymmetricKey := fun _ _ => decidable_of_iff _ SymmetricKey.ext_iff.symm

/-- Reads a key of exactly 32 bytes. -/
def SymmetricKey.ofBytes (b : Bytes) : Except CryptoError SymmetricKey :=
  if h : b.length = 32 then .ok ⟨b, h⟩ else .error (.invalidLength .symmetricKey 32 b.length)

/-- The form shown in diagnostics, which tells nothing about the key. -/
def SymmetricKey.brief (_ : SymmetricKey) : String := "SymmetricKey(<redacted>)"

/-- An initialisation vector of 24 bytes. -/
structure Iv where
  bytes : Bytes
  length_eq : bytes.length = 24
deriving DecidableEq

/-- The number of bytes of an initialisation vector. -/
def Iv.size : Nat := 24

/-- Reads an initialisation vector of exactly 24 bytes. -/
def Iv.ofBytes (b : Bytes) : Except CryptoError Iv :=
  if h : b.length = 24 then .ok ⟨b, h⟩
  else .error (.invalidLength .initialisationVector 24 b.length)

namespace Cipher

/-- The block of key stream number `counter` under a derived key and a nonce of eight bytes. -/
def streamBlock (key nonce : Bytes) (counter : Nat) : Bytes :=
  let tail := ChaCha.Row.ofBytes nonce
  ChaCha.block key ⟨UInt32.ofNat counter, 0, tail.x, tail.y⟩

/-- The key stream for `length` bytes of content; block zero is kept for the authenticator. -/
def keystream (key nonce : Bytes) (length : Nat) : Bytes :=
  ((List.range ((length + 63) / 64)).flatMap fun i => streamBlock key nonce (i + 1)).take length

@[simp] theorem length_keystream (key nonce : Bytes) (length : Nat) :
    (keystream key nonce length).length = length := by
  have h : ∀ xs : List Nat,
      (xs.flatMap fun i => streamBlock key nonce (i + 1)).length = 64 * xs.length := by
    intro xs
    induction xs with
    | nil => rfl
    | cons x xs ih =>
      rw [List.flatMap_cons, List.length_append, ih, streamBlock, ChaCha.length_block,
        List.length_cons]
      omega
  rw [keystream, List.length_take, h, List.length_range]
  omega

/-- `b` followed by zeros up to a multiple of sixteen bytes. -/
def padded (b : Bytes) : Bytes := b ++ List.replicate ((16 - b.length % 16) % 16) 0

/-- The number of bytes of `b` as eight little-endian bytes. -/
def lengthBytes (b : Bytes) : Bytes := (Bytes.ofNatWidth 8 b.length).reverse

/-- The tag over the associated data and the ciphertext. -/
def tag (key nonce aad ciphertext : Bytes) : Bytes :=
  poly1305 ((streamBlock key nonce 0).take 32)
    (padded aad ++ padded ciphertext ++ lengthBytes aad ++ lengthBytes ciphertext)

/-- The ciphertext of `content` under `key` and `iv`, with the tag over it and `aad` at the end. -/
def encrypt (content aad : Bytes) (key : SymmetricKey) (iv : Iv) : Bytes :=
  let derived := ChaCha.derivedKey key.bytes (iv.bytes.take 16)
  let nonce := iv.bytes.drop 16
  let ciphertext := Bytes.xor content (keystream derived nonce content.length)
  ciphertext ++ tag derived nonce aad ciphertext

/-- The content of a ciphertext whose tag is the one over it and `aad`. -/
def decrypt (sealed aad : Bytes) (key : SymmetricKey) (iv : Iv) : Except CryptoError Bytes :=
  if sealed.length < 16 then .error (.decryptionFailed (.shorterThanTag sealed.length))
  else
    let derived := ChaCha.derivedKey key.bytes (iv.bytes.take 16)
    let nonce := iv.bytes.drop 16
    let ciphertext := sealed.take (sealed.length - 16)
    if sealed.drop (sealed.length - 16) = tag derived nonce aad ciphertext then
      .ok (Bytes.xor ciphertext (keystream derived nonce ciphertext.length))
    else .error (.decryptionFailed .authentication)

/-- Decryption under the same key, vector and associated data gives the content back. -/
theorem decrypt_encrypt (content aad : Bytes) (key : SymmetricKey) (iv : Iv) :
    decrypt (encrypt content aad key iv) aad key iv = .ok content := by
  simp [decrypt, encrypt, tag]

end Cipher
end SealedEnvelope
