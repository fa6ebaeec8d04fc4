/-
# The envelope codec

Encoding compresses a payload, signs the result, encrypts the signature and
frames it. Decoding goes the other way in two phases: opening removes the frame
and the encryption, which is enough to see where the envelope goes; then the
signature is verified and the payload unpacked. The clock is an argument, and
the key cache and the random stream go through every operation that uses them,
also when it fails.

Key definitions: `Codec`, `Codec.new`, `Codec.pack`, `Codec.encode`, `Codec.openEnvelope`,
`Codec.verify`, `Codec.unpack`, `Codec.decode`, `Codec.replyWithError`.
-/
import SealedEnvelope.CodecConfig
import SealedEnvelope.Compression
import SealedEnvelope.Encryption.Wrapping
import SealedEnvelope.Signature.Encoding
import SealedEnvelope.Signature.Signing
import SealedEnvelope.Signature.Verification
import SealedEnvelope.Wire.Frame

namespace SealedEnvelope

/-- A configuration with its proof bound, where keys and credentials are looked up, and what
compresses payloads and decompresses them. -/
structure Codec where
  config : CodecConfig
  proofParams : ProofParams
  keys : KeyChain
  credentials : CredentialVerifier
  compressor : Compressor
  decompressor : Decompressor

/-- What the operations of a codec change: the key cache and the random stream. -/
structure CodecState where
  cache : KeyCache
  stream : ByteStream

/-- An envelope without its outermost layer. -/
structure OpenedEnvelope where
  time : Timestamp
  recipient : Option HostId
  sessionKey : Option SymmetricKey
  signature : Signature
deriving DecidableEq

/-- An envelope that has been decoded: its payload, its verified signature and the key to
reply under. -/
structure DecodedEnvelope where
  payload : Payload
  signature : VerifiedSignature
  sessionKey : Option SymmetricKey
deriving DecidableEq

namespace Codec

/-- A codec with an empty key cache, for a configuration that is valid. -/
def new (config : CodecConfig) (keys : KeyChain)
    (credentials : CredentialVerifier := CredentialVerifier.rejectAll)
    (compressor : Compressor := .storing) (decompressor : Decompressor := .strict) :
    Except ConfigError (Codec × KeyCache) := do
  config.validate
  let params ← config.proofParams
  let capacity ← config.cacheCapacity
  return (⟨config, params, keys, credentials, compressor, decompressor⟩,
    KeyCache.ofCapacity capacity)

/-- The most bytes that an encoded payload may have. -/
def maxPayload (c : Codec) : Nat := c.config.maxPayloadSize.toNat

/-- Draws a key for a request. -/
def generateKey (s : ByteStream) : SymmetricKey × ByteStream :=
  (⟨(s.draw 32).1, s.length_draw 32⟩, (s.draw 32).2)

/-! ### Encoding -/

/-- A payload compressed at the level of the configuration. -/
def pack (c : Codec) (payload : Payload) : Except EnvelopeError Bytes :=
  Compression.wrap payload c.maxPayload c.config.clampedLevel c.compressor

/-- The signature over a compressed payload. -/
def signPayload (c : Codec) (payload : Payload) (auth : AuthContext) (now : Timestamp)
    (s : ByteStream) : Except EnvelopeError Signature × ByteStream :=
  match c.pack payload with
  | .error e => (.error e, s)
  | .ok content => Signature.sign content auth now c.proofParams s

/-- The frame around the outermost layer. -/
def frame (e : Encryption) : Except EnvelopeError Bytes :=
  (Frame.encode e.encode).mapError (.ofWire .encryption)

/-- Seals a payload into an envelope. -/
def encode (c : Codec) (payload : Payload) (auth : AuthContext) (crypto : CryptoContext)
    (now : Timestamp) (st : CodecState) : Except EnvelopeError Bytes × CodecState :=
  match c.signPayload payload auth now st.stream with
  | (.error e, stream) => (.error e, { st with stream })
  | (.ok signature, stream) =>
    let (encryption, cache, stream) :=
      Encryption.wrap signature.encode crypto now c.keys st.cache stream
    (encryption.bind frame, ⟨cache, stream⟩)

/-- Seals the reply to an error, under the key of the request if there is one; absent if the
error cannot be answered. -/
def replyWithError (c : Codec) (error : EnvelopeError) (auth : AuthContext)
    (sessionKey : Option SymmetricKey) (now : Timestamp) (st : CodecState) :
    Option (Except EnvelopeError Bytes × CodecState) :=
  error.reply?.map fun reply =>
    let crypto : CryptoContext :=
      match sessionKey with
      | some key => .reply key
      | none => .plaintext
    c.encode reply.toPayload auth crypto now st

/-! ### Opening and decoding -/

/-- The outermost layer of an envelope. -/
def unframe (b : Bytes) : Except EnvelopeError Encryption := do
  let body ← (Frame.decode b).mapError (.ofWire .encryption)
  Encryption.decode body

/-- The outermost layer, the content and the session key of an envelope. -/
def openContent (c : Codec) (b : Bytes) (ctx : DecryptionContext) (cache : KeyCache) :
    Except EnvelopeError (Encryption × Bytes × Option SymmetricKey) × KeyCache :=
  match unframe b with
  | .error e => (.error e, cache)
  | .ok encryption =>
    let (opened, cache) := encryption.unwrap ctx c.keys cache
    (opened.map fun o => (encryption, o), cache)

/-- Removes the frame and the encryption. -/
def openEnvelope (c : Codec) (b : Bytes) (ctx : DecryptionContext) (cache : KeyCache) :
    Except EnvelopeError OpenedEnvelope × KeyCache :=
  let (opened, cache) := c.openContent b ctx cache
  (opened.bind fun (encryption, content, key) =>
    (Signature.decode content).map fun signature =>
      ⟨encryption.time, encryption.recipient?, key, signature⟩, cache)

/-- What signatures are verified with at a time. -/
def verifyContext (c : Codec) (now : Timestamp) : VerifyContext where
  now := now
  stalenessWindow := c.config.stalenessWindow
  maxClockSkew := c.config.maxClockSkew
  proofParams := c.proofParams
  keys := c.keys
  credentials := c.credentials

/-- Verifies a signature. -/
def verify (c : Codec) (signature : Signature) (now : Timestamp) :
    Except EnvelopeError VerifiedSignature :=
  signature.verify (c.verifyContext now)

/-- The payload in verified content. -/
def unpack (c : Codec) (signature : VerifiedSignature) : Except EnvelopeError Payload :=
  Compression.unwrap signature.content c.maxPayload c.decompressor

/-- Verifies and unpacks an envelope that has been opened. -/
def decodeOpened (c : Codec) (opened : OpenedEnvelope) (now : Timestamp) :
    Except EnvelopeError DecodedEnvelope := do
  let signature ← c.verify opened.signature now
  let payload ← c.unpack signature
  return ⟨payload, signature, opened.sessionKey⟩

/-- Opens, verifies and unpacks an envelope. -/
def decode (c : Codec) (b : Bytes) (ctx : DecryptionContext) (now : Timestamp)
    (cache : KeyCache) : Except EnvelopeError DecodedEnvelope × KeyCache :=
  let (opened, cache) := c.openEnvelope b ctx cache
  (opened.bind fun o => c.decodeOpened o now, cache)

end Codec
end SealedEnvelope
