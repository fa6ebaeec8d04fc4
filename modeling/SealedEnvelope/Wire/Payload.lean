/-
# Payloads and error replies

A payload is a body with the type that the application gave it. The last type
is kept for error replies, which carry a code and a message.

Key definitions: `Payload`, `Payload.encode`, `Payload.decode`, `ErrorReply`,
`ErrorReply.toPayload`, `ErrorReply.ofPayload?`.
-/
import SealedEnvelope.Wire.Tagged

namespace SealedEnvelope

open Cbor (Value)

/-- A body and the number of its type. -/
structure Payload where
  tag : UInt16
  body : Bytes
deriving DecidableEq

namespace Payload

/-- The type of error replies. -/
def errorReplyTag : UInt16 := 0xffff

/-- The tuple of type and body. -/
def encode (p : Payload) : Bytes :=
  Tagged.encode .payload [.int p.tag.toNat, .bytes p.body]

/-- Takes the type and the body from the fields. -/
def ofFields? (fields : Value) : Option Payload :=
  match fields.items? with
  | some (tag :: body :: _) => do
    let tag ← tag.unsigned? (2 ^ 16)
    let body ← body.bytes?
    return ⟨UInt16.ofNat tag, body⟩
  | _ => none

/-- Reads the tuple of type and body. -/
def decode (b : Bytes) : Except WireError Payload := Tagged.decode .payload ofFields? b

end Payload

/-- What a host answers instead of a payload: the kind of an error and its wording. -/
structure ErrorReply where
  code : UInt16
  message : String
deriving DecidableEq, Repr

namespace ErrorReply

/-- The kinds of errors that are answered. -/
inductive Kind where
  | encoding
  | signature
  | encryption
  | keyRotation
deriving DecidableEq, Repr

/-- The code of a kind. -/
def Kind.code : Kind → UInt16
  | .encoding => 1
  | .signature => 2
  | .encryption => 3
  | .keyRotation => 4

/-- The reply for an error of the kind `kind`. -/
def ofKind (kind : Kind) (message : String) : ErrorReply := ⟨kind.code, message⟩

/-- The tuple of code and message. -/
def encode (r : ErrorReply) : Bytes :=
  Tagged.encode .errorReply [.int r.code.toNat, .text r.message]

/-- Takes the code and the message from the fields. -/
def ofFields? (fields : Value) : Option ErrorReply :=
  match fields.items? with
  | some (code :: message :: _) => do
    let code ← code.unsigned? (2 ^ 16)
    let message ← message.text?
    return ⟨UInt16.ofNat code, message⟩
  | _ => none

/-- Reads the tuple of code and message. -/
def decode (b : Bytes) : Except WireError ErrorReply := Tagged.decode .errorReply ofFields? b

/-- The reply as a payload. -/
def toPayload (r : ErrorReply) : Payload := ⟨Payload.errorReplyTag, r.encode⟩

/-- The reply in a payload whose type is that of error replies. -/
def ofPayload? (p : Payload) : Option (Except WireError ErrorReply) :=
  if p.tag = Payload.errorReplyTag then some (decode p.body) else none

end ErrorReply
end SealedEnvelope
