/-
# Signing

A sender signs with what it has: the key of a host, a commitment with its
secret, or credentials. Only a client needs randomness, for the nonce of its
proof.

Key definitions: `AuthMethod`, `AuthContext`, `AuthContext.statement`,
`Signature.sign`.
-/
import SealedEnvelope.Signature.Basic
import SealedEnvelope.Credential.Basic

namespace SealedEnvelope

/-- What a sender authenticates with. -/
inductive AuthMethod where
  | host (name : HostId) (key : PrivateKey)
  | client (subject : SubjectId) (commitment : SecretCommitment)
  | credentials (subject : SubjectId) (holders : List CredentialHolder)

namespace AuthMethod

/-- The subject that signatures speak for; a host speaks for itself. -/
def subject : AuthMethod → SubjectId
  | .host name _ => name.toSubject
  | .client subject _ => subject
  | .credentials subject _ => subject

/-- The variant of the signatures. -/
def variant : AuthMethod → Variant
  | .host .. => .host
  | .client .. => .client
  | .credentials .. => .credentials

/-- The binding of the statements that are signed. -/
def binding : AuthMethod → Bytes
  | .client _ commitment => commitment.commitment.encode
  | _ => []

/-- The proof over a digest, or why there is none. -/
def prove (m : AuthMethod) (digest : Digest) (params : ProofParams) (s : ByteStream) :
    Except EnvelopeError SignatureProof × ByteStream :=
  match m with
  | .host _ key =>
    (((key.signDigest digest).map .host).mapError fun e => .signature e.message, s)
  | .client _ commitment =>
    let (proof, s) := commitment.prove digest params s
    ((proof.map (.client commitment.commitment)).mapError fun e => .signature e.message, s)
  | .credentials _ holders =>
    let presentations := holders.mapM fun (present : CredentialHolder) => present digest
    ((presentations.map .credentials).mapError fun e => .signature e.message, s)

end AuthMethod

/-- What a sender authenticates with, and what it says about the occasion. -/
structure AuthContext where
  method : AuthMethod
  audit : Option Bytes

namespace AuthContext

/-- The subject that signatures speak for. -/
def subject (a : AuthContext) : SubjectId := a.method.subject

/-- The variant of the signatures. -/
def variant (a : AuthContext) : Variant := a.method.variant

/-- What is signed when `content` is signed at `time`. -/
def statement (a : AuthContext) (content : Bytes) (time : Timestamp) : SignedStatement where
  variant := a.variant
  subject := a.subject
  time := time
  audit := a.audit
  binding := a.method.binding
  content := content

end AuthContext

namespace Signature

/-- Signs `content` at `time`. -/
def sign (content : Bytes) (auth : AuthContext) (time : Timestamp) (params : ProofParams)
    (s : ByteStream) : Except EnvelopeError Signature × ByteStream :=
  let (proof, s) := auth.method.prove (auth.statement content time).digest params s
  (proof.map fun proof => ⟨auth.subject, time, auth.audit, proof, content⟩, s)

end Signature
end SealedEnvelope
