/-
# Inspection

An operator can see what an envelope claims without any key: the outermost
layer and, if the content is in the clear, the signature. The description has
one line for each field; nothing in it has been verified.

Key definitions: `Inspection.fields`, `Inspection.describe`.
-/
import SealedEnvelope.Codec
import SealedEnvelope.LabelledLine

namespace SealedEnvelope

namespace Inspection

/-- The columns that labels are set in. -/
def labelWidth : Nat := 22

/-- A truth value in words. -/
def truth (b : Bool) : String := if b then "true" else "false"

/-- The fields of the outermost layer, in an envelope of `size` bytes. -/
def outerFields (size : Nat) (e : Encryption) : List LabelledLine :=
  let recipient := (e.recipient?.map (·.name)).getD "(reply)"
  [⟨"size", toString size⟩, ⟨"time", e.time.text⟩, ⟨"recipient", recipient⟩,
   ⟨"encrypted", truth e.isEncrypted⟩, ⟨"wrapped key", truth e.wrappedKey?.isSome⟩]

/-- The fields of a proof. -/
def proofFields : SignatureProof → List LabelledLine
  | .host signature => [⟨"signature bytes", toString signature.length⟩]
  | .client commitment _ =>
    [⟨"commitment host", commitment.host.name⟩, ⟨"committed at", commitment.time.text⟩]
  | .credentials presentations => [⟨"credentials", toString presentations.length⟩]

/-- The fields of a signature. -/
def signatureFields (s : Signature) : List LabelledLine :=
  let auditLength := (s.audit.getD []).length
  [⟨"variant", s.variant.name⟩, ⟨"subject (unverified)", s.subject.name⟩,
   ⟨"signed at", s.time.text⟩, ⟨"audit", toString auditLength⟩] ++ proofFields s.proof

/-- The fields of the signature in an outermost layer, if it can be read. -/
def innerFields (e : Encryption) : Except EnvelopeError (List LabelledLine) :=
  if e.isEncrypted then .ok []
  else (Signature.decode (e.content.bytes?.getD [])).map signatureFields

/-- The fields of an envelope. -/
def fields (b : Bytes) : Except EnvelopeError (List LabelledLine) := do
  let encryption ← Codec.unframe b
  let inner ← innerFields encryption
  return outerFields b.length encryption ++ inner

/-- The description of an envelope. -/
def describe (b : Bytes) : Except EnvelopeError String :=
  (fields b).map (LabelledLine.render labelWidth)

end Inspection
end SealedEnvelope
