/-
# The wire form of signatures

Each variant is a tuple of its own: subject, time and audit trail first, the
content last, and the proof between them.

Key definitions: `Signature.encode`, `Signature.decode`.
-/
import SealedEnvelope.Signature.Basic

namespace SealedEnvelope

open Cbor (Value)

namespace SignatureProof

/-- The fields that show the proof. -/
def toFields : SignatureProof → List Value
  | .host signature => [.bytes signature]
  | .client commitment proof =>
    [.array commitment.toFields, .bytes proof.challenge.bytes,
     .array [.bool proof.isNegative, .bytes proof.magnitudeBytes]]
  | .credentials presentations => [.array (presentations.map .bytes)]

end SignatureProof

namespace Signature

/-- The tuple of a signature. -/
def encode (s : Signature) : Bytes :=
  Tagged.encode s.variant.tag
    ([.text s.subject.name, .int s.time.seconds.toNat, Value.optional .bytes s.audit] ++
      s.proof.toFields ++ [.bytes s.content])

/-! ### Reading -/

/-- A signature whose proof is still in the form of its fields. -/
structure Raw (π : Type) where
  subject : SubjectId
  time : Timestamp
  audit : Option Bytes
  proof : π
  content : Bytes

/-- The signature with its proof. -/
def Raw.withProof {π : Type} (r : Raw π) (proof : SignatureProof) : Signature :=
  ⟨r.subject, r.time, r.audit, proof, r.content⟩

/-- Takes the five fields of a host signature or a credentials signature, of which `proof`
reads the fourth. -/
def rawFive? {π : Type} (proof : Value → Option π) (fields : Value) : Option (Raw π) :=
  match fields.items? with
  | some (subject :: time :: audit :: shown :: content :: _) => do
    return ⟨⟨← subject.text?⟩, ⟨← time.word?⟩, ← audit.optional? (·.bytes?), ← proof shown,
      ← content.bytes?⟩
  | _ => none

/-- The proof of a client before it is checked. -/
structure RawClientProof where
  commitment : HostId × Timestamp × Bytes
  challenge : Bytes
  negative : Bool
  magnitude : Bytes

/-- Takes sign and magnitude from the fields. -/
def rawResponse? (fields : Value) : Option (Bool × Bytes) :=
  match fields.items? with
  | some (negative :: magnitude :: _) => do return (← negative.bool?, ← magnitude.bytes?)
  | _ => none

/-- Takes the seven fields of a client signature. -/
def rawClient? (fields : Value) : Option (Raw RawClientProof) :=
  match fields.items? with
  | some (subject :: time :: audit :: commitment :: challenge :: response :: content :: _) => do
    let (negative, magnitude) ← rawResponse? response
    return ⟨⟨← subject.text?⟩, ⟨← time.word?⟩, ← audit.optional? (·.bytes?),
      ⟨← Commitment.rawFields? commitment, ← challenge.bytes?, negative, magnitude⟩,
      ← content.bytes?⟩
  | _ => none

/-- A layer that is not a signature, or not one in its proper form. -/
def malformed (reason : String) : EnvelopeError := .encoding .signature reason

/-- Takes the fields apart with `parse`. -/
def readFields {α : Type} (parse : Value → Option α) (fields : Value) : Except EnvelopeError α :=
  (Tagged.parseFields parse fields).mapError (.ofWire .signature)

/-- The proof of a client, if commitment, challenge and response have their one written form. -/
def RawClientProof.check (p : RawClientProof) : Except EnvelopeError SignatureProof := do
  let commitment ← Commitment.ofFields p.commitment
  let challenge ← (Digest.ofBytes p.challenge).mapError fun e => malformed e.message
  let proof ← (KnowledgeProof.ofParts challenge p.negative p.magnitude).mapError fun e =>
    malformed e.message
  return .client commitment proof

/-- The signature in a layer. -/
def ofLayer : LayerTag → Value → Except EnvelopeError Signature
  | .hostSignature, fields => do
    let raw ← readFields (rawFive? (·.bytes?)) fields
    return raw.withProof (.host raw.proof)
  | .clientSignature, fields => do
    let raw ← readFields rawClient? fields
    return raw.withProof (← raw.proof.check)
  | .credentialsSignature, fields => do
    let presentations (v : Value) : Option (List Bytes) := do (← v.items?).mapM (·.bytes?)
    let raw ← readFields (rawFive? presentations) fields
    return raw.withProof (.credentials raw.proof)
  | other, _ => .error (malformed ("tag " ++ hexNumber 2 other.code ++ " is not a signature"))

/-- Reads a signature of any variant. -/
def decode (b : Bytes) : Except EnvelopeError Signature := do
  let (tag, fields) ← (Tagged.decodeAny b).mapError (.ofWire .signature)
  ofLayer tag fields

end Signature
end SealedEnvelope
