/-
# Public keys

A host key is a modulus `n` with a public exponent `e` and a generator `g`.
The residues modulo `n` carry three things: wrapped symmetric keys `k ^ e`,
host signatures, which are checked by raising them to `e`, and commitments
`g ^ x`. A residue is written with as many bytes as the modulus takes.

Key definitions: `PublicKey`, `PublicKey.ofComponents`,
`PublicKey.fingerprintInput`, `PublicKey.encodeElement`,
`PublicKey.decodeElement`, `PublicKey.encryptRaw`, `PublicKey.verifyDigest`.
-/
import SealedEnvelope.Hash.Digest
import SealedEnvelope.Number.Modular

namespace SealedEnvelope

/-- The public half of a host key. -/
structure PublicKey where
  modulus : Nat
  exponent : Nat
  generator : Nat
  three_lt_modulus : 3 < modulus
  modulus_odd : modulus % 2 = 1
  three_le_exponent : 3 ≤ exponent
  two_le_generator : 2 ≤ generator
  generator_lt : generator < modulus - 1
deriving DecidableEq

namespace PublicKey

/-- Checks the components of a key: the modulus first, then the exponent, then the generator. -/
def ofComponents (modulus exponent generator : Nat) : Except CryptoError PublicKey :=
  if hn : 3 < modulus ∧ modulus % 2 = 1 then
    if he : 3 ≤ exponent then
      if hg : 2 ≤ generator ∧ generator < modulus - 1 then
        .ok ⟨modulus, exponent, generator, hn.1, hn.2, he, hg.1, hg.2⟩
      else .error (.invalidKey .generator)
    else .error (.invalidKey .publicExponent)
  else .error (.invalidKey .modulus)

/-- The number of binary digits of the modulus. -/
def modulusBits (k : PublicKey) : Nat := bitLength k.modulus

/-- The number of bytes that a residue is written with. -/
def elementLength (k : PublicKey) : Nat := byteLength k.modulus

/-- A non-zero residue. -/
def Contains (k : PublicKey) (value : Nat) : Prop := 0 < value ∧ value < k.modulus

instance (k : PublicKey) (value : Nat) : Decidable (k.Contains value) :=
  inferInstanceAs (Decidable (_ ∧ _))

/-! ### Identity -/

/-- The text in front of the components when a key is identified. -/
def fingerprintLabel : Bytes := Bytes.ofText "cachet-key-fingerprint-v1"

/-- A number behind the number of its bytes. -/
def lengthPrefixed (n : Nat) : Bytes :=
  let digits := Bytes.ofNatDigits n
  Bytes.ofNatWidth 4 digits.length ++ digits

/-- What is hashed to identify a key: the label and the three components. -/
def fingerprintInput (k : PublicKey) : Bytes :=
  fingerprintLabel ++ lengthPrefixed k.modulus ++ lengthPrefixed k.exponent ++
    lengthPrefixed k.generator

/-- The identity of a key. -/
def fingerprint (k : PublicKey) : Digest := Digest.of k.fingerprintInput

/-- The form shown in diagnostics. -/
def brief (k : PublicKey) : String :=
  let bits := k.modulusBits
  let fingerprint := k.fingerprint.brief
  s!"PublicKey \x7b bits: {bits}, fingerprint: {fingerprint}, .. \x7d"

/-! ### Residues -/

/-- A residue, big-endian, with as many bytes as the modulus takes. -/
def encodeElement (k : PublicKey) (value : Nat) : Bytes :=
  Bytes.ofNatWidth k.elementLength value

/-- Reads a non-zero residue of exactly the right width. -/
def decodeElement (k : PublicKey) (b : Bytes) : Except CryptoError Nat :=
  if b.length = k.elementLength then
    let value := b.toNat
    if k.Contains value then .ok value else .error .invalidGroupElement
  else .error (.invalidLength .groupElement k.elementLength b.length)

/-- The public power of a message below the modulus. -/
def encryptRaw (k : PublicKey) (message : Nat) : Except CryptoError Nat :=
  if message < k.modulus then .ok (powMod message k.exponent k.modulus)
  else .error (.modulusTooSmall k.modulusBits (bitLength message))

/-- Accepts a signature of element width whose public power is the digest. -/
def verifyDigest (k : PublicKey) (digest : Digest) (signature : Bytes) : Except CryptoError Unit :=
  if signature.length = k.elementLength then
    let value := signature.toNat
    if value < k.modulus ∧ powMod value k.exponent k.modulus = digest.toNat then .ok ()
    else .error .invalidSignature
  else .error (.invalidLength .hostSignature k.elementLength signature.length)

end PublicKey
end SealedEnvelope
