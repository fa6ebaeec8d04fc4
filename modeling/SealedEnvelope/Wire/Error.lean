/-
# Errors of the wire format

`WireError` names the causes for which bytes are refused before anything in
them is interpreted; `WireError.message` is the wording.
-/
import SealedEnvelope.Bytes

namespace SealedEnvelope

/-- The most bytes of an encoded layer or an unpacked payload: 16 MiB. -/
def maxPayloadSize : Nat := 16 * 1024 * 1024

/-- The causes for which a frame or a tagged tuple is refused. -/
inductive WireError where
  | frameTooShort (expected actual : Nat)
  | invalidMagic (magic : Nat)
  | unsupportedVersion (version : Nat)
  | payloadTooLarge (size max : Nat)
  | unexpectedTag (expected actual : Nat)
  | unknownTag (tag : Nat)
  | trailingBytes (count : Nat)
  | cborDecode
deriving DecidableEq, Repr

/-- The wording of an error. -/
def WireError.message : WireError → String
  | .frameTooShort expected actual =>
    s!"frame too short: expected at least {expected} bytes, got {actual}"
  | .invalidMagic magic => "invalid magic: " ++ hexNumber 4 magic
  | .unsupportedVersion version => s!"unsupported version: {version}"
  | .payloadTooLarge size max => s!"payload too large: {size} bytes (max {max})"
  | .unexpectedTag expected actual =>
    "unexpected tag: expected " ++ hexNumber 2 expected ++ ", got " ++ hexNumber 2 actual
  | .unknownTag tag => "unknown tag: " ++ hexNumber 2 tag
  | .trailingBytes count => s!"{count} trailing bytes after encoded value"
  | .cborDecode => "CBOR decode error: malformed value"

end SealedEnvelope
