/-
# Proofs of knowing a committed secret

For a message `m` the prover draws a nonce `r` of `B` bits, takes the challenge
`t`, the hash of `g ^ r`, and answers with `s = r - x * h`, where `h` is `t`
exclusive-or `m`. The verifier recomputes the hashed residue as
`g ^ s * y ^ h` from the public value `y`. The response is an integer that is
never reduced, because nobody but the host knows the order of the group; the
bound `B` leaves 128 bits more than `x * h` needs, so that `r` hides it.

Key definitions: `ProofParams`, `KnowledgeProof`, `KnowledgeProof.ofParts`,
`KnowledgeProof.prove`, `KnowledgeProof.verify`.
-/
import SealedEnvelope.Knowledge.Secret

namespace SealedEnvelope

/-- The bits of a nonce beyond those of the product that it hides. -/
def statisticalMargin : Nat := 128

/-- The bound on nonces and responses, in bits: whole bytes, and no fewer than a digest and
the margin need. -/
structure ProofParams where
  bound : Nat
  min_le_bound : Digest.bits + statisticalMargin ≤ bound
  whole_bytes : bound % 8 = 0
deriving DecidableEq

namespace ProofParams

/-- The least bound. -/
def minBound : Nat := Digest.bits + statisticalMargin

/-- Checks a bound. -/
def ofBound (bound : Nat) : Except CryptoError ProofParams :=
  if h : minBound ≤ bound ∧ bound % 8 = 0 then .ok ⟨bound, h.1, h.2⟩
  else .error (.proofBoundTooSmall bound minBound)

/-- The usual bound, enough for secrets of 2048 bits. -/
def standard : ProofParams := ⟨2432, by decide, by decide⟩

/-- The number of random bytes of a nonce. -/
def nonceLength (p : ProofParams) : Nat := p.bound / 8

end ProofParams

/-- A challenge and the response to it. -/
structure KnowledgeProof where
  challenge : Digest
  response : Int
deriving DecidableEq

namespace KnowledgeProof

/-- The bytes of a magnitude in its one written form: no leading zero, zero as one zero byte
without a sign. -/
def isCanonical (negative : Bool) : Bytes → Bool
  | [] => false
  | [0] => !negative
  | 0 :: _ => false
  | _ => true

/-- Puts a proof together from a challenge, a sign and a magnitude in its one written form. -/
def ofParts (challenge : Digest) (negative : Bool) (magnitude : Bytes) :
    Except CryptoError KnowledgeProof :=
  if isCanonical negative magnitude then
    .ok ⟨challenge, if negative then -(magnitude.toNat : Int) else magnitude.toNat⟩
  else .error .nonCanonical

/-- Whether the response is below zero. -/
def isNegative (p : KnowledgeProof) : Bool := p.response < 0

/-- The magnitude of the response in its one written form. -/
def magnitudeBytes (p : KnowledgeProof) : Bytes := Bytes.ofNatDigits p.response.natAbs

/-- The challenge that belongs to a residue. -/
def challengeOf (key : PublicKey) (witness : Nat) : Digest :=
  Digest.of (key.encodeElement witness)

/-- The bound that a secret needs: its bits, those of a digest, and the margin. -/
def requiredBound (x : Secret) : Nat := x.bits + Digest.bits + statisticalMargin

/-- Proves the knowledge of `x`, bound to `message`, with the random bytes `nonce`. -/
def prove (key : PublicKey) (x : Secret) (message : Digest) (params : ProofParams)
    (nonce : Bytes) : Except CryptoError KnowledgeProof :=
  if params.bound < requiredBound x then
    .error (.proofBoundTooSmall params.bound (requiredBound x))
  else if nonce.length ≠ params.nonceLength then
    .error (.invalidLength .proofNonce params.nonceLength nonce.length)
  else
    let r := nonce.toNat
    let challenge := challengeOf key (powMod key.generator r key.modulus)
    let h := (challenge.xor message).toNat
    .ok ⟨challenge, r - x.value * h⟩

/-- The residue that a signed power is taken of: the generator, or its inverse. -/
def baseFor (key : PublicKey) (response : Int) : Option Nat :=
  if response < 0 then invMod? key.generator key.modulus else some key.generator

/-- The residue `g ^ s * y ^ h`, if `g ^ s` exists. -/
def witness? (key : PublicKey) (value : Nat) (response : Int) (h : Nat) : Option Nat :=
  (baseFor key response).map fun base =>
    powMod base response.natAbs key.modulus * powMod value h key.modulus % key.modulus

/-- Accepts a proof for the public value `value`: the value is a residue, the response is
within the bound, and the recomputed residue is not zero and hashes to the challenge. -/
def verify (key : PublicKey) (value : Nat) (message : Digest) (proof : KnowledgeProof)
    (params : ProofParams) : Except CryptoError Unit :=
  let bits := bitLength proof.response.natAbs
  if ¬ key.Contains value then .error .invalidGroupElement
  else if params.bound < bits then .error (.responseTooLarge bits params.bound)
  else
    match witness? key value proof.response (proof.challenge.xor message).toNat with
    | none => .error .invalidGroupElement
    | some witness =>
      if witness ≠ 0 ∧ challengeOf key witness = proof.challenge then .ok ()
      else .error .challengeMismatch

end KnowledgeProof
end SealedEnvelope
