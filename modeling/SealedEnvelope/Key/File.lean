/-
# Key files

A key file is a record of a host, the time from which its key is active, and
the four numbers of the key as byte strings.

Key definitions: `KeyFile`, `KeyFile.encode`, `KeyFile.decode`,
`KeyFile.describe`.
-/
import SealedEnvelope.LabelledLine
import SealedEnvelope.Identifier
import SealedEnvelope.Timestamp
import SealedEnvelope.Key.Private
import SealedEnvelope.Cbor.Record

namespace SealedEnvelope

/-- Why a key file is not read. -/
inductive KeyFileError where
  | malformed
  | key (cause : CryptoError)
deriving DecidableEq, Repr

/-- The wording of an error. -/
def KeyFileError.message : KeyFileError → String
  | .malformed => "malformed key file: not a record of the fields of a key"
  | .key cause => "invalid key: " ++ cause.message

/-- The key of a host and the time from which it is active. -/
structure KeyFile where
  host : HostId
  activation : Timestamp
  key : PrivateKey
deriving DecidableEq

namespace KeyFile

/-- The names and kinds of the fields, in order. -/
def schema : List (String × Cbor.FieldKind) :=
  [("host", .text), ("activation", .integer 0 (2 ^ 64)), ("modulus", .bytes),
   ("public_exponent", .bytes), ("private_exponent", .bytes), ("generator", .bytes)]

/-- The record of a key. -/
def toRecord (f : KeyFile) : Cbor.Record :=
  [("host", .text f.host.name), ("activation", .integer f.activation.seconds.toNat),
   ("modulus", .bytes (Bytes.ofNat f.key.publicKey.modulus)),
   ("public_exponent", .bytes (Bytes.ofNat f.key.publicKey.exponent)),
   ("private_exponent", .bytes (Bytes.ofNat f.key.exponent)),
   ("generator", .bytes (Bytes.ofNat f.key.publicKey.generator))]

/-- The numbers of a key before they are checked. -/
structure Components where
  host : HostId
  activation : Timestamp
  modulus : Nat
  publicExponent : Nat
  privateExponent : Nat
  generator : Nat

/-- The components in a record that has all fields. -/
def Components.ofRecord? (r : Cbor.Record) : Option Components := do
  let number (name : String) : Option Nat := (r.bytes? name).map Bytes.toNat
  return ⟨⟨← r.text? "host"⟩, ⟨UInt64.ofNat (← r.integer? "activation").toNat⟩,
    ← number "modulus", ← number "public_exponent", ← number "private_exponent",
    ← number "generator"⟩

/-- The contents of the file. -/
def encode (f : KeyFile) : Bytes := f.toRecord.encode

/-- Reads the contents of a file and checks the key. -/
def decode (b : Bytes) : Except KeyFileError KeyFile :=
  match (Cbor.Record.read schema b).bind Components.ofRecord? with
  | none => .error .malformed
  | some c => do
    let key ← (PrivateKey.ofComponents c.modulus c.publicExponent c.privateExponent
      c.generator).mapError .key
    return ⟨c.host, c.activation, key⟩

/-- The columns that labels are set in. -/
def labelWidth : Nat := 12

/-- What the file says about the public half of the key. -/
def fields (f : KeyFile) : List LabelledLine :=
  let bits := f.key.publicKey.modulusBits
  [⟨"host", f.host.name⟩, ⟨"active from", f.activation.text⟩, ⟨"modulus", s!"{bits} bits"⟩,
   ⟨"fingerprint", f.key.publicKey.fingerprint.bytes.toHex⟩]

/-- The description of a key file. -/
def describe (f : KeyFile) : String := LabelledLine.render labelWidth f.fields

end KeyFile
end SealedEnvelope
