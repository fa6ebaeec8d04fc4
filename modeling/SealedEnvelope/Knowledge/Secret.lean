/-
# Secrets and their commitments

A client keeps a positive secret exponent `x` and publishes `g ^ x` in the
group of a host key.

Key definitions: `Secret`, `Secret.ofNat`, `Secret.ofRandom`,
`PublicKey.commit`.
-/
import SealedEnvelope.Key.Public

namespace SealedEnvelope

/-- A secret exponent. -/
@[ext] structure Secret where
  value : Nat
  pos : 0 < value

instance : DecidableEq Secret := fun _ _ => decidable_of_iff _ Secret.ext_iff.symm

namespace Secret

/-- Any number but zero is a secret. -/
def ofNat (value : Nat) : Except CryptoError Secret :=
  if h : 0 < value then .ok ⟨value, h⟩ else .error .invalidGroupElement

/-- The secret drawn from as many random bytes as a residue has, reduced modulo `n`. -/
def ofRandom (key : PublicKey) (random : Bytes) : Except CryptoError Secret :=
  if random.length = key.elementLength then ofNat (random.toNat % key.modulus)
  else .error (.invalidLength .secretRandomness key.elementLength random.length)

/-- The number of binary digits of a secret. -/
def bits (x : Secret) : Nat := bitLength x.value

/-- The form shown in diagnostics, which tells nothing about the secret. -/
def brief (_ : Secret) : String := "Secret(<redacted>)"

end Secret

/-- The public value `g ^ x` of a secret. -/
def PublicKey.commit (key : PublicKey) (x : Secret) : Nat :=
  powMod key.generator x.value key.modulus

end SealedEnvelope
