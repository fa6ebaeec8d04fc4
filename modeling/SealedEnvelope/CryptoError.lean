/-
# Errors of the cryptographic operations

`CryptoError` names the causes for which a key, a proof, a signature or a
ciphertext is refused; `CryptoError.message` is the wording.
-/
import SealedEnvelope.Bytes

namespace SealedEnvelope

/-- A value whose width in bytes is fixed. -/
inductive FixedWidthValue where
  | digest
  | symmetricKey
  | initialisationVector
  | groupElement
  | hostSignature
  | secretRandomness
  | proofNonce
  | wrappedKey
deriving DecidableEq, Repr

/-- The name of the value in error messages. -/
def FixedWidthValue.label : FixedWidthValue → String
  | .digest => "digest"
  | .symmetricKey => "symmetric key"
  | .initialisationVector => "initialisation vector"
  | .groupElement => "group element"
  | .hostSignature => "host signature"
  | .secretRandomness => "secret randomness"
  | .proofNonce => "proof nonce"
  | .wrappedKey => "encrypted symmetric key"

/-- The condition that a set of key components violates. -/
inductive KeyFault where
  | modulus
  | publicExponent
  | generator
  | privateExponentRange
  | privateExponentMismatch
deriving DecidableEq, Repr

/-- The wording of a violated key condition. -/
def KeyFault.reason : KeyFault → String
  | .modulus => "modulus must be odd and > 3"
  | .publicExponent => "public exponent must be >= 3"
  | .generator => "generator must lie in [2, n - 1)"
  | .privateExponentRange => "private exponent out of range"
  | .privateExponentMismatch => "private exponent does not match public exponent"

/-- Why a ciphertext or a wrapped key yields nothing. -/
inductive DecryptionFault where
  | shorterThanTag (length : Nat)
  | authentication
  | notBelowModulus
  | notSymmetricKey
deriving DecidableEq, Repr

/-- The wording of a decryption fault. -/
def DecryptionFault.reason : DecryptionFault → String
  | .shorterThanTag length => s!"ciphertext shorter than tag: {length} bytes"
  | .authentication => "authentication failed"
  | .notBelowModulus => "encrypted key is not below the modulus"
  | .notSymmetricKey => "encrypted key does not unwrap to a symmetric key"

/-- The causes for which a cryptographic operation fails. -/
inductive CryptoError where
  | invalidKey (fault : KeyFault)
  | modulusTooSmall (bits required : Nat)
  | invalidGroupElement
  | invalidLength (what : FixedWidthValue) (expected actual : Nat)
  | nonCanonical
  | proofBoundTooSmall (bound required : Nat)
  | responseTooLarge (bits bound : Nat)
  | challengeMismatch
  | invalidSignature
  | decryptionFailed (fault : DecryptionFault)
deriving DecidableEq, Repr

/-- The wording of an error. -/
def CryptoError.message : CryptoError → String
  | .invalidKey fault => "invalid key: " ++ fault.reason
  | .modulusTooSmall bits required =>
    s!"modulus too small: {bits} bits, need more than {required}"
  | .invalidGroupElement => "value is not an element of the group"
  | .invalidLength what expected actual =>
    s!"invalid length for {what.label}: expected {expected}, got {actual}"
  | .nonCanonical => "non-canonical encoding of proof response"
  | .proofBoundTooSmall bound required =>
    s!"proof bound of {bound} bits is too small, need at least {required}"
  | .responseTooLarge bits bound => s!"proof response has {bits} bits, bound is {bound}"
  | .challengeMismatch => "proof challenge mismatch"
  | .invalidSignature => "signature verification failed"
  | .decryptionFailed fault => "decryption failed: " ++ fault.reason

end SealedEnvelope
