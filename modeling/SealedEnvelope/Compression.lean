/-
# The compression layer

A payload is compressed before it is signed. The layer is a tuple of the length
of the encoded payload and the compressed bytes; the length is checked against
a limit before anything is decompressed, and against the result afterwards.
Which of the many frames for a content is written depends on the compressor and
its level, and which of the many streams that are no proper frame are still read
depends on the decompressor.

Key definitions: `Compressor`, `Decompressor`, `Compression.wrap`, `Compression.unwrap`.
-/
import SealedEnvelope.EnvelopeError
import SealedEnvelope.Zstd.Encoder

namespace SealedEnvelope

/-- What makes compressed bytes of a content at a level, unless it fails. -/
abbrev Compressor := (level : Int) → Bytes → Option Bytes

/-- The compressor that stores blocks at every level. -/
def Compressor.storing : Compressor := fun _ content => some (Zstd.compress content)

/-- What reads compressed bytes into a buffer with room for `capacity` bytes, unless it fails. -/
abbrev Decompressor := (capacity : Nat) → Bytes → Option Bytes

/-- The decompressor that reads the frames of the current format and no older one, and wants
every stream of bits in them used up. -/
def Decompressor.strict : Decompressor := Zstd.decompress?

namespace Compression

open Cbor (Value)

/-- The tuple around a payload whose encoding has at most `max` bytes. -/
def wrap (p : Payload) (max : Nat) (level : Int := 3) (compressor : Compressor := .storing) :
    Except EnvelopeError Bytes :=
  let encoded := p.encode
  let length := encoded.length
  if max < length then
    .error (.encoding .compression (WireError.payloadTooLarge length max).message)
  else
    match compressor level encoded with
    | none => .error (.encoding .compression "zstd error")
    | some compressed => .ok (Tagged.encode .compression [.int length, .bytes compressed])

/-- Takes the declared length and the compressed bytes from the fields. -/
def ofFields? (fields : Value) : Option (Nat × Bytes) :=
  match fields.items? with
  | some (declared :: compressed :: _) => do
    return (← declared.unsigned? (2 ^ 64), ← compressed.bytes?)
  | _ => none

/-- The declared length and the compressed bytes of a tuple. -/
def decode (b : Bytes) : Except EnvelopeError (Nat × Bytes) :=
  (Tagged.decode .compression ofFields? b).mapError (.ofWire .compression)

/-- The bytes of exactly the declared length that compressed bytes stand for. -/
def inflate (declared max : Nat) (compressed : Bytes) (decompressor : Decompressor := .strict) :
    Except EnvelopeError Bytes :=
  if max < declared then
    .error (.encoding .compression s!"declared length {declared} exceeds limit {max}")
  else
    match decompressor declared compressed with
    | none => .error (.encoding .compression "zstd error")
    | some content =>
      let length := content.length
      if length = declared then .ok content
      else .error (.encoding .compression s!"length mismatch: declared {declared}, got {length}")

/-- The payload in a tuple, whose encoding has at most `max` bytes. -/
def unwrap (b : Bytes) (max : Nat) (decompressor : Decompressor := .strict) :
    Except EnvelopeError Payload := do
  let (declared, compressed) ← decode b
  let content ← inflate declared max compressed decompressor
  (Payload.decode content).mapError (.ofWire .payload)

end Compression
end SealedEnvelope
