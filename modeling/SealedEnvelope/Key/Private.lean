/-
# Private keys

A private key adds the exponent `d` that undoes `e`. The check made when a key
is put together tries `d` on the generator only.

Key definitions: `PrivateKey`, `PrivateKey.ofComponents`,
`PrivateKey.decryptRaw`, `PrivateKey.signDigest`.
-/
import SealedEnvelope.Key.Public

namespace SealedEnvelope

/-- A host key with both halves. -/
structure PrivateKey where
  publicKey : PublicKey
  exponent : Nat
  exponent_pos : 0 < exponent
  exponent_lt : exponent < publicKey.modulus
  inverts_generator :
    powMod (powMod publicKey.generator publicKey.exponent publicKey.modulus) exponent
      publicKey.modulus = publicKey.generator
deriving DecidableEq

namespace PrivateKey

/-- Checks the components of a key: the public half, the range of the private exponent, and
that it inverts the public exponent on the generator. -/
def ofComponents (modulus publicExponent privateExponent generator : Nat) :
    Except CryptoError PrivateKey := do
  let publicKey ← PublicKey.ofComponents modulus publicExponent generator
  if hd : 0 < privateExponent ∧ privateExponent < publicKey.modulus then
    if hp : powMod (powMod publicKey.generator publicKey.exponent publicKey.modulus)
        privateExponent publicKey.modulus = publicKey.generator then
      .ok ⟨publicKey, privateExponent, hd.1, hd.2, hp⟩
    else .error (.invalidKey .privateExponentMismatch)
  else .error (.invalidKey .privateExponentRange)

/-- The private power of a residue. -/
def decryptRaw (k : PrivateKey) (ciphertext : Nat) : Except CryptoError Nat :=
  if ciphertext < k.publicKey.modulus then
    .ok (powMod ciphertext k.exponent k.publicKey.modulus)
  else .error .invalidGroupElement

/-- The private power of a digest, for a modulus that has more bits than a digest. -/
def signDigest (k : PrivateKey) (digest : Digest) : Except CryptoError Bytes :=
  if Digest.bits < k.publicKey.modulusBits then
    .ok (k.publicKey.encodeElement (powMod digest.toNat k.exponent k.publicKey.modulus))
  else .error (.modulusTooSmall k.publicKey.modulusBits Digest.bits)

/-- The form shown in diagnostics, which tells nothing about the private exponent. -/
def brief (k : PrivateKey) : String :=
  let shown := k.publicKey.brief
  s!"PrivateKey \x7b public: {shown}, .. \x7d"

end PrivateKey
end SealedEnvelope
