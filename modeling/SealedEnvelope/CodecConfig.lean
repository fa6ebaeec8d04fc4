/-
# Configuration of a codec

The windows in which signatures are fresh, the bound on proofs, the size limits
and the capacity of the key cache. A configuration is stored as a record; a
field that is left out has its usual value.

Key definitions: `CodecConfig`, `CodecConfig.validate`,
`CodecConfig.proofParams`, `CodecConfig.checkModulusBits`,
`CodecConfig.encode`, `CodecConfig.decode?`.
-/
import SealedEnvelope.Cbor.Record
import SealedEnvelope.Knowledge.Proof
import SealedEnvelope.Wire.Error

namespace SealedEnvelope

/-- The causes for which a configuration is refused. -/
inductive ConfigError where
  | zeroStalenessWindow
  | zeroCacheCapacity
  | zeroPayloadSize
  | proofBound (bits required : Nat)
  | modulusTooLarge (bits max : Nat)
deriving DecidableEq, Repr

/-- The wording of an error. -/
def ConfigError.message : ConfigError → String
  | .zeroStalenessWindow => "staleness window must be non-zero"
  | .zeroCacheCapacity => "key cache capacity must be non-zero"
  | .zeroPayloadSize => "max payload size must be non-zero"
  | .proofBound bits required =>
    s!"proof exponent bits {bits} invalid: need a multiple of 8, at least {required}"
  | .modulusTooLarge bits max =>
    s!"{bits}-bit modulus exceeds the {max} bits the proof bound covers"

/-- How a codec checks and packs. Times are in seconds, sizes in bytes. -/
structure CodecConfig where
  stalenessWindow : UInt64 := 31556925
  maxClockSkew : UInt64 := 300
  proofExponentBits : UInt64 := 2432
  compressionLevel : Int32 := 3
  maxPayloadSize : UInt64 := UInt64.ofNat SealedEnvelope.maxPayloadSize
  keyCacheCapacity : UInt64 := 1024
deriving DecidableEq, Inhabited

namespace CodecConfig

/-- The bound on proofs. -/
def proofParams (c : CodecConfig) : Except ConfigError ProofParams :=
  (ProofParams.ofBound c.proofExponentBits.toNat).mapError fun _ =>
    .proofBound c.proofExponentBits.toNat ProofParams.minBound

/-- The capacity of the key cache, if there is any. -/
def cacheCapacity (c : CodecConfig) : Except ConfigError Nat :=
  if c.keyCacheCapacity = 0 then .error .zeroCacheCapacity else .ok c.keyCacheCapacity.toNat

/-- Checks that a codec can run: the window, the capacity, the size limit and the bound. -/
def validate (c : CodecConfig) : Except ConfigError Unit :=
  if c.stalenessWindow = 0 then .error .zeroStalenessWindow
  else if c.keyCacheCapacity = 0 then .error .zeroCacheCapacity
  else if c.maxPayloadSize = 0 then .error .zeroPayloadSize
  else c.proofParams.map fun _ => ()

/-- The bits of the greatest modulus all of whose secrets the bound covers. -/
def maxModulusBits (c : CodecConfig) : Nat := c.proofExponentBits.toNat - ProofParams.minBound

/-- Checks that keys of so many bits can back commitments. -/
def checkModulusBits (c : CodecConfig) (bits : Nat) : Except ConfigError Unit :=
  if c.maxModulusBits < bits then .error (.modulusTooLarge bits c.maxModulusBits) else .ok ()

/-- The level brought into the range of compressors. -/
def clampedLevel (c : CodecConfig) : Int := max 1 (min 22 c.compressionLevel.toInt)

/-! ### The stored form -/

/-- The names and kinds of the fields, in order. -/
def schema : List (String × Cbor.FieldKind) :=
  [("staleness_window", .integer 0 (2 ^ 64)), ("max_clock_skew", .integer 0 (2 ^ 64)),
   ("proof_exponent_bits", .integer 0 (2 ^ 64)),
   ("compression_level", .integer (-2 ^ 31) (2 ^ 31)),
   ("max_payload_size", .integer 0 (2 ^ 64)), ("key_cache_capacity", .integer 0 (2 ^ 64))]

/-- The fields of a configuration as a record. -/
def toRecord (c : CodecConfig) : Cbor.Record :=
  [("staleness_window", .integer c.stalenessWindow.toNat),
   ("max_clock_skew", .integer c.maxClockSkew.toNat),
   ("proof_exponent_bits", .integer c.proofExponentBits.toNat),
   ("compression_level", .integer c.compressionLevel.toInt),
   ("max_payload_size", .integer c.maxPayloadSize.toNat),
   ("key_cache_capacity", .integer c.keyCacheCapacity.toNat)]

/-- The configuration of a record; fields that are absent have their usual values. -/
def ofRecord (r : Cbor.Record) : CodecConfig :=
  let usual : CodecConfig := {}
  let word (name : String) (other : UInt64) : UInt64 :=
    ((r.integer? name).map fun i => UInt64.ofNat i.toNat).getD other
  { stalenessWindow := word "staleness_window" usual.stalenessWindow
    maxClockSkew := word "max_clock_skew" usual.maxClockSkew
    proofExponentBits := word "proof_exponent_bits" usual.proofExponentBits
    compressionLevel :=
      ((r.integer? "compression_level").map Int32.ofInt).getD usual.compressionLevel
    maxPayloadSize := word "max_payload_size" usual.maxPayloadSize
    keyCacheCapacity := word "key_cache_capacity" usual.keyCacheCapacity }

/-- The stored form. -/
def encode (c : CodecConfig) : Bytes := c.toRecord.encode

/-- Reads the stored form. -/
def decode? (b : Bytes) : Option CodecConfig := (Cbor.Record.read schema b).map ofRecord

end CodecConfig
end SealedEnvelope
