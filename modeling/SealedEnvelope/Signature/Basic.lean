/-
# Signatures

A signature says that content comes from a subject. There are three variants:
a host signs with its key, a client proves that it knows the secret of a
commitment, and anybody else presents credentials. What is proved is bound to
a statement of everything that the signature covers.

Key definitions: `Variant`, `SignedStatement`, `SignedStatement.digestInput`,
`SignedStatement.digest`, `SignatureProof`, `Signature`,
`Signature.statement`.
-/
import SealedEnvelope.Commitment

namespace SealedEnvelope

open Cbor (Value)

/-- How a signer authenticates. -/
inductive Variant where
  | host
  | client
  | credentials
deriving DecidableEq, Repr

namespace Variant

/-- The name of a variant. -/
def name : Variant → String
  | .host => "host"
  | .client => "client"
  | .credentials => "credentials"

/-- The layer that signatures of a variant make. -/
def tag : Variant → LayerTag
  | .host => .hostSignature
  | .client => .clientSignature
  | .credentials => .credentialsSignature

end Variant

/-! ### What is signed -/

/-- Everything that a signature covers. The binding is the commitment that a client proves
with, and is empty for the other variants. -/
structure SignedStatement where
  variant : Variant
  subject : SubjectId
  time : Timestamp
  audit : Option Bytes
  binding : Bytes
  content : Bytes
deriving DecidableEq

namespace SignedStatement

/-- The text in front of a statement when it is hashed. -/
def label : Bytes := Bytes.ofText "cachet-signature-v1"

/-- The tuple of a statement, which holds the digest of the content in place of the content. -/
def encode (s : SignedStatement) : Bytes :=
  Tagged.encode s.variant.tag
    [.text s.subject.name, .int s.time.seconds.toNat, Value.optional .bytes s.audit,
     .bytes s.binding, .bytes (Digest.of s.content).bytes]

/-- What is hashed for a statement. -/
def digestInput (s : SignedStatement) : Bytes := label ++ s.encode

/-- The digest that every proof in a signature is bound to. -/
def digest (s : SignedStatement) : Digest := Digest.of s.digestInput

end SignedStatement

/-! ### What a signature consists of -/

/-- What a signature shows: the host's power of the digest, the proof of a client together
with its commitment, or presentations of credentials in order. -/
inductive SignatureProof where
  | host (signature : Bytes)
  | client (commitment : Commitment) (proof : KnowledgeProof)
  | credentials (presentations : List Bytes)
deriving DecidableEq

namespace SignatureProof

/-- The variant that a proof belongs to. -/
def variant : SignatureProof → Variant
  | .host _ => .host
  | .client .. => .client
  | .credentials _ => .credentials

/-- The binding of the statement that a proof is for. -/
def binding : SignatureProof → Bytes
  | .client commitment _ => commitment.encode
  | _ => []

end SignatureProof

/-- A signature that nobody has verified yet. -/
structure Signature where
  subject : SubjectId
  time : Timestamp
  audit : Option Bytes
  proof : SignatureProof
  content : Bytes
deriving DecidableEq

namespace Signature

/-- The variant of a signature. -/
def variant (s : Signature) : Variant := s.proof.variant

/-- What the signature has to be valid for. -/
def statement (s : Signature) : SignedStatement where
  variant := s.variant
  subject := s.subject
  time := s.time
  audit := s.audit
  binding := s.proof.binding
  content := s.content

/-- The digest that the proof of a signature has to be bound to. -/
def digest (s : Signature) : Digest := s.statement.digest

/-- The signature with another proof. -/
def withProof (s : Signature) (proof : SignatureProof) : Signature := { s with proof }

end Signature
end SealedEnvelope
