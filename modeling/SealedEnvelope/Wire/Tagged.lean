/-
# Tagged tuples

Every layer of an envelope is a pair of a tag, which names the layer, and an
array of the layer's fields. Reading consumes the whole input: bytes after the
pair are an error, and so is an input above the size limit, whatever it holds.

Key definitions: `LayerTag`, `LayerTag.code`, `LayerTag.ofCode?`,
`Tagged.encode`, `Tagged.decodeAny`, `Tagged.decode`.
Key theorems: `LayerTag.ofCode?_eq_some_iff`.
-/
import SealedEnvelope.Wire.Error
import SealedEnvelope.Cbor.Reader
import SealedEnvelope.Cbor.Writer
import SealedEnvelope.Cbor.Field

namespace SealedEnvelope

/-- The layers that have a tag. -/
inductive LayerTag where
  | payload
  | compression
  | hostSignature
  | clientSignature
  | credentialsSignature
  | commitment
  | encryption
  | errorReply
deriving DecidableEq, Repr

namespace LayerTag

/-- All layers, by code. -/
def all : List LayerTag :=
  [.payload, .compression, .hostSignature, .clientSignature, .credentialsSignature, .commitment,
   .encryption, .errorReply]

/-- The number that stands for a layer. -/
def code : LayerTag → Nat
  | .payload => 0x01
  | .compression => 0x02
  | .hostSignature => 0x10
  | .clientSignature => 0x11
  | .credentialsSignature => 0x12
  | .commitment => 0x20
  | .encryption => 0x30
  | .errorReply => 0x40

/-- The layer that a number stands for. -/
def ofCode? (n : Nat) : Option LayerTag := all.find? fun t => t.code = n

/-- A number stands for the layer whose code it is. -/
theorem ofCode?_eq_some_iff {n : Nat} {t : LayerTag} : ofCode? n = some t ↔ t.code = n := by
  constructor
  · intro h
    simpa using List.find?_some h
  · rintro rfl
    cases t <;> rfl

end LayerTag

namespace Tagged

open Cbor (Value)

/-- The pair of a tag and its fields. -/
def encode (tag : LayerTag) (fields : List Value) : Bytes :=
  (Value.array [.int tag.code, .array fields]).encode

/-- The number and the fields of the one pair that the input consists of. -/
def decodeRaw (b : Bytes) : Except WireError (Nat × Value) :=
  let length := b.length
  if maxPayloadSize < length then .error (.payloadTooLarge length maxPayloadSize)
  else
    match Cbor.readPair length b with
    | none => .error .cborDecode
    | some (pair, rest) =>
      if rest.isEmpty then .ok pair else .error (.trailingBytes rest.length)

/-- The layer and the fields of a tagged tuple. -/
def decodeAny (b : Bytes) : Except WireError (LayerTag × Value) := do
  let (n, fields) ← decodeRaw b
  match LayerTag.ofCode? n with
  | some tag => .ok (tag, fields)
  | none => .error (.unknownTag n)

/-- The fields of a tuple, taken apart by `parse`. -/
def parseFields {α : Type} (parse : Value → Option α) (fields : Value) : Except WireError α :=
  match parse fields with
  | some a => .ok a
  | none => .error .cborDecode

/-- The fields of a tuple that carries the tag `expected`, taken apart by `parse`. -/
def decode {α : Type} (expected : LayerTag) (parse : Value → Option α) (b : Bytes) :
    Except WireError α := do
  let (n, fields) ← decodeRaw b
  if n = expected.code then parseFields parse fields
  else .error (.unexpectedTag expected.code n)

end Tagged
end SealedEnvelope
