/-
# Verification

A signature is accepted if it is fresh and its proof is bound to its own
statement: by the key that the host has at the time of signing, by the secret
of a commitment whose key the host still has at that time, or by some
credential that authorizes the subject. Verification yields what was
established about the signer.

Key definitions: `VerifyContext`, `VerifyContext.checkFreshness`, `Authority`,
`VerifiedSignature`, `Agent`, `Signature.verify`.
-/
import SealedEnvelope.Signature.Basic
import SealedEnvelope.Credential.Basic

namespace SealedEnvelope

/-- What the receiving side verifies with: its clock, how many seconds old or ahead of the
clock a signature may be, the bound on proofs, and where keys and credentials are looked up. -/
structure VerifyContext where
  now : Timestamp
  stalenessWindow : UInt64
  maxClockSkew : UInt64
  proofParams : ProofParams
  keys : KeyChain
  credentials : CredentialVerifier

/-- Refuses a signing time that is too old or too far ahead. -/
def VerifyContext.checkFreshness (ctx : VerifyContext) (time : Timestamp) :
    Except EnvelopeError Unit :=
  let signed := time.text
  match time.elapsedUntil ctx.now with
  | some age =>
    if ctx.stalenessWindow < age then
      let seconds := age.toNat
      let window := ctx.stalenessWindow.toNat
      .error (.signature
        s!"signature is stale: signed at {signed}, {seconds}s old (window {window}s)")
    else .ok ()
  | none =>
    let ahead := time.seconds - ctx.now.seconds
    if ctx.maxClockSkew < ahead then
      let seconds := ahead.toNat
      .error (.signature s!"signature time {signed} is {seconds}s ahead of local clock")
    else .ok ()

/-! ### Results -/

/-- What verification established: the host that signed, the commitment whose secret is known,
or the credentials that authorize the subject. -/
inductive Authority where
  | host (host : HostId)
  | client (commitment : Commitment)
  | credentials (accepted : List VerifiedCredential)
deriving DecidableEq

/-- The variant that was verified. -/
def Authority.variant : Authority → Variant
  | .host _ => .host
  | .client _ => .client
  | .credentials _ => .credentials

/-- A signature that has been verified. -/
structure VerifiedSignature where
  subject : SubjectId
  time : Timestamp
  audit : Option Bytes
  authority : Authority
  content : Bytes
deriving DecidableEq

/-- Who acts: a host for itself, a subject through a commitment at a host, or a subject with
credentials. -/
inductive Agent where
  | host (host : HostId)
  | client (subject : SubjectId) (host : HostId)
  | credentials (subject : SubjectId)
deriving DecidableEq, Repr

namespace VerifiedSignature

/-- The variant that was verified. -/
def variant (v : VerifiedSignature) : Variant := v.authority.variant

/-- Who acts. -/
def agent (v : VerifiedSignature) : Agent :=
  match v.authority with
  | .host host => .host host
  | .client commitment => .client v.subject commitment.host
  | .credentials _ => .credentials v.subject

end VerifiedSignature

/-! ### Proofs -/

namespace SignatureProof

/-- What the signature of a host establishes. -/
def verifyHost (signature : Bytes) (subject : SubjectId) (time : Timestamp) (digest : Digest)
    (ctx : VerifyContext) : Except EnvelopeError Authority := do
  let host := subject.toHost
  let key ← (ctx.keys.publicKey host time).mapError fun e =>
    .signature ("cannot resolve signing key: " ++ e.message)
  (key.verifyDigest digest signature).mapError fun e => .signature e.message
  return .host host

/-- What the proof of a client establishes. -/
def verifyClient (commitment : Commitment) (proof : KnowledgeProof) (time : Timestamp)
    (digest : Digest) (ctx : VerifyContext) : Except EnvelopeError Authority := do
  let committed ← commitment.publicKey ctx.keys
  let active ← (ctx.keys.publicKey commitment.host time).mapError fun e =>
    .signature ("cannot resolve active host key: " ++ e.message)
  if active.fingerprint ≠ committed.fingerprint then
    .error (.keyRotation commitment.host commitment.time)
  else do
    (proof.verify committed commitment.value digest ctx.proofParams).mapError fun e =>
      .signature e.message
    return .client commitment

/-- What the presentations over a digest say that is of use for `subject` at this time. -/
def accepted (presentations : List Bytes) (subject : SubjectId) (digest : Digest)
    (ctx : VerifyContext) : List VerifiedCredential :=
  let verified := presentations.filterMap fun p => (ctx.credentials p digest ctx.now).toOption
  verified.filter fun c => c.Authorizes subject ctx.now

/-- What presentations of credentials establish. -/
def verifyCredentials (presentations : List Bytes) (subject : SubjectId) (digest : Digest)
    (ctx : VerifyContext) : Except EnvelopeError Authority :=
  match accepted presentations subject digest ctx with
  | [] =>
    let count := presentations.length
    let name := subject.name
    .error (.signature s!"none of {count} credentials is valid for {name}")
  | c :: cs => .ok (.credentials (c :: cs))

end SignatureProof

namespace Signature

/-- What the proof of a signature establishes, whatever its time. -/
def authority (s : Signature) (ctx : VerifyContext) : Except EnvelopeError Authority :=
  match s.proof with
  | .host signature => SignatureProof.verifyHost signature s.subject s.time s.digest ctx
  | .client commitment proof =>
    SignatureProof.verifyClient commitment proof s.time s.digest ctx
  | .credentials presentations =>
    SignatureProof.verifyCredentials presentations s.subject s.digest ctx

/-- Verifies a signature: its time first, then its proof. -/
def verify (s : Signature) (ctx : VerifyContext) : Except EnvelopeError VerifiedSignature := do
  ctx.checkFreshness s.time
  let authority ← s.authority ctx
  return ⟨s.subject, s.time, s.audit, authority, s.content⟩

end Signature
end SealedEnvelope
