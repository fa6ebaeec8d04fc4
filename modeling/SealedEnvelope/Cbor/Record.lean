/-
# Keyed records

A record is a map from field names to scalars: the form of configurations and
key files. The reader knows the names and kinds of the fields; it skips the
values of other names, refuses a field that occurs twice, and leaves the bytes
after the map alone.

Key definitions: `Cbor.FieldKind`, `Cbor.Scalar`, `Cbor.Record`,
`Cbor.Record.read`, `Cbor.Record.encode`.
-/
import SealedEnvelope.Cbor.Reader
import SealedEnvelope.Cbor.Writer

namespace SealedEnvelope
namespace Cbor

/-- What a field of a record holds: an integer in a range, a text or a byte string. -/
inductive FieldKind where
  | integer (low high : Int)
  | text
  | bytes
deriving DecidableEq, Repr

/-- The value of a field. -/
inductive Scalar where
  | integer (i : Int)
  | text (s : String)
  | bytes (b : Bytes)
deriving DecidableEq, Repr

/-- The item that holds the value of a field. -/
def Scalar.toValue : Scalar → Value
  | .integer i => .int i
  | .text s => .text s
  | .bytes b => .bytes b

/-- Field names with their values, in the order of the map. -/
abbrev Record := List (String × Scalar)

namespace Record

/-- The longest name of a field, in bytes. -/
def maxNameLength : Nat := 4096

/-- A field name: a text or a byte string of announced length behind any tags. -/
def readName (limit : Nat) (b : Bytes) : Option (Bytes × Bytes) := do
  let (head, rest) ← Head.readUntagged limit b
  match head with
  | .bytes (some n) => if n ≤ maxNameLength then Bytes.splitExact? n rest else none
  | .text (some n) =>
    if n ≤ maxNameLength then
      let (name, rest) ← Bytes.splitExact? n rest
      let _ ← Bytes.toText? name
      return (name, rest)
    else none
  | _ => none

/-- A text behind any tags. -/
def readTextField (limit : Nat) (b : Bytes) : Option (String × Bytes) := do
  let (head, rest) ← Head.readUntagged limit b
  match head with
  | .text length => readText limit length rest
  | _ => none

/-- A byte string behind any tags, or the array of its bytes. -/
def readBytesField (limit : Nat) (b : Bytes) : Option (Bytes × Bytes) := do
  let (head, rest) ← Head.readUntagged limit b
  match head with
  | .bytes length => readBytes limit length rest
  | .array length =>
    let byte (b : Bytes) : Option (UInt8 × Bytes) :=
      (readIntegerIn 0 256 limit b).map fun (i, rest) => (UInt8.ofNat i.toNat, rest)
    readItems byte limit length rest
  | _ => none

/-- A value of the kind that a field has. -/
def readScalar (kind : FieldKind) (limit : Nat) (b : Bytes) : Option (Scalar × Bytes) :=
  match kind with
  | .integer low high => (readIntegerIn low high limit b).map fun (i, rest) => (.integer i, rest)
  | .text => (readTextField limit b).map fun (s, rest) => (.text s, rest)
  | .bytes => (readBytesField limit b).map fun (s, rest) => (.bytes s, rest)

/-- The name and kind of the field that a name in UTF-8 stands for. -/
def field? (schema : List (String × FieldKind)) (name : Bytes) : Option (String × FieldKind) :=
  schema.find? fun f => Bytes.ofText f.1 = name

/-- One entry: a known field with its value, or `none` for a name that is skipped. -/
def readField (schema : List (String × FieldKind)) (limit : Nat) (b : Bytes) :
    Option (Option (String × Scalar) × Bytes) := do
  let (name, rest) ← readName limit b
  match field? schema name with
  | some (known, kind) =>
    let (v, rest) ← readScalar kind limit rest
    return (some (known, v), rest)
  | none =>
    let (_, rest) ← Value.read limit (maxLevels - 1) rest
    return (none, rest)

/-- The record at the front of a byte string, whose fields are among those of `schema` and
occur at most once each. -/
def read (schema : List (String × FieldKind)) (b : Bytes) : Option Record := do
  let limit := b.length
  let (head, rest) ← Head.readUntagged limit b
  match head with
  | .map length =>
    let (entries, _) ← readItems (readField schema limit) limit length rest
    let fields := entries.filterMap id
    if (fields.map (·.1)).Nodup then some fields else none
  | _ => none

/-- The value of a field, if it is present. -/
def get? (r : Record) (name : String) : Option Scalar := r.lookup name

/-- The integer in a field. -/
def integer? (r : Record) (name : String) : Option Int :=
  match r.get? name with
  | some (.integer i) => some i
  | _ => none

/-- The text in a field. -/
def text? (r : Record) (name : String) : Option String :=
  match r.get? name with
  | some (.text s) => some s
  | _ => none

/-- The byte string in a field. -/
def bytes? (r : Record) (name : String) : Option Bytes :=
  match r.get? name with
  | some (.bytes b) => some b
  | _ => none

/-- The map of the fields, in order. -/
def encode (r : Record) : Bytes :=
  (Value.map (r.map fun (name, v) => (.text name, v.toValue))).encode

end Record
end Cbor
end SealedEnvelope
