/-
# Errors of envelopes

Whatever fails while an envelope is sealed or opened is one of four kinds: a
layer that cannot be decoded, a signature that is refused, a key or ciphertext
that does not work, or a commitment whose host key has been rotated. An error
can be answered once the outer layer has been opened.

Key definitions: `Layer`, `EnvelopeError`, `EnvelopeError.message`,
`EnvelopeError.reply?`.
-/
import SealedEnvelope.Wire.Payload
import SealedEnvelope.Identifier
import SealedEnvelope.Timestamp

namespace SealedEnvelope

/-- The layers of an envelope, from the outside in. -/
inductive Layer where
  | encryption
  | signature
  | compression
  | payload
deriving DecidableEq, Repr

/-- The name of a layer in error messages. -/
def Layer.name : Layer → String
  | .encryption => "encryption"
  | .signature => "signature"
  | .compression => "compression"
  | .payload => "payload"

/-- Why an envelope is not sealed or not accepted. -/
inductive EnvelopeError where
  | encoding (layer : Layer) (reason : String)
  | signature (reason : String)
  | encryption (reason : String)
  | keyRotation (host : HostId) (committedAt : Timestamp)
deriving DecidableEq, Repr

namespace EnvelopeError

/-- The kind of an error. -/
def kind : EnvelopeError → ErrorReply.Kind
  | .encoding .. => .encoding
  | .signature _ => .signature
  | .encryption _ => .encryption
  | .keyRotation .. => .keyRotation

/-- The wording of an error. -/
def message : EnvelopeError → String
  | .encoding layer reason => "encoding error in " ++ layer.name ++ " layer: " ++ reason
  | .signature reason => "signature error: " ++ reason
  | .encryption reason => "encryption error: " ++ reason
  | .keyRotation host committedAt =>
    "key rotation: commitment to " ++ host.name ++ " at " ++ committedAt.text ++
      " no longer matches its active key"

/-- Whether the outer layer had been opened when the error arose. -/
def isAnswerable : EnvelopeError → Bool
  | .encoding .encryption _ => false
  | .encryption _ => false
  | _ => true

/-- The reply to an error, if it can be answered. -/
def reply? (e : EnvelopeError) : Option ErrorReply :=
  if e.isAnswerable then some (ErrorReply.ofKind e.kind e.message) else none

/-- A refusal of the wire format, in a layer. -/
def ofWire (layer : Layer) (e : WireError) : EnvelopeError := .encoding layer e.message

end EnvelopeError
end SealedEnvelope
