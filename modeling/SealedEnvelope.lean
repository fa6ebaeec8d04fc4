import SealedEnvelope.Bytes
import SealedEnvelope.Cbor.Field
import SealedEnvelope.Cbor.Head
import SealedEnvelope.Cbor.Reader
import SealedEnvelope.Cbor.Record
import SealedEnvelope.Cbor.Value
import SealedEnvelope.Cbor.Writer
import SealedEnvelope.Cipher.Aead
import SealedEnvelope.Cipher.ChaCha
import SealedEnvelope.Cipher.Poly1305
import SealedEnvelope.Codec
import SealedEnvelope.CodecConfig
import SealedEnvelope.CommandLine.Arguments
import SealedEnvelope.CommandLine.Command
import SealedEnvelope.Commitment
import SealedEnvelope.Compression
import SealedEnvelope.Credential.Basic
import SealedEnvelope.Credential.TokenTable
import SealedEnvelope.CryptoError
import SealedEnvelope.Encryption.Basic
import SealedEnvelope.Encryption.Wrapping
import SealedEnvelope.EnvelopeError
import SealedEnvelope.Hash.Digest
import SealedEnvelope.Hash.Sha256
import SealedEnvelope.Hash.XxHash64
import SealedEnvelope.Identifier
import SealedEnvelope.Inspection
import SealedEnvelope.Key.Cache
import SealedEnvelope.Key.Chain
import SealedEnvelope.Key.File
import SealedEnvelope.Key.Generation
import SealedEnvelope.Key.Private
import SealedEnvelope.Key.Public
import SealedEnvelope.Key.RecencyMap
import SealedEnvelope.Knowledge.Proof
import SealedEnvelope.Knowledge.Secret
import SealedEnvelope.LabelledLine
import SealedEnvelope.Main
import SealedEnvelope.Number.Modular
import SealedEnvelope.Number.Prime
import SealedEnvelope.Proofs.BigEndian
import SealedEnvelope.Proofs.Cbor.Compact
import SealedEnvelope.Proofs.Cbor.Conformance
import SealedEnvelope.Proofs.Cbor.Extension
import SealedEnvelope.Proofs.Cbor.Extent
import SealedEnvelope.Proofs.Cbor.Fields
import SealedEnvelope.Proofs.Cbor.Grammar
import SealedEnvelope.Proofs.Cbor.ReadBack
import SealedEnvelope.Proofs.Cbor.Reading
import SealedEnvelope.Proofs.Cbor.Record
import SealedEnvelope.Proofs.Compression
import SealedEnvelope.Proofs.Compression.Bounds
import SealedEnvelope.Proofs.Compression.Limits
import SealedEnvelope.Proofs.Encryption.Compact
import SealedEnvelope.Proofs.Encryption.Metadata
import SealedEnvelope.Proofs.Encryption.Protection
import SealedEnvelope.Proofs.Encryption.ReadBack
import SealedEnvelope.Proofs.Encryption.RoundTrip
import SealedEnvelope.Proofs.Encryption.Unsealing
import SealedEnvelope.Proofs.Envelope.Failure
import SealedEnvelope.Proofs.Envelope.LaterKeys
import SealedEnvelope.Proofs.Envelope.Replies
import SealedEnvelope.Proofs.Envelope.RoundTrip
import SealedEnvelope.Proofs.Hash.Collision
import SealedEnvelope.Proofs.Hash.Digest
import SealedEnvelope.Proofs.Inspection.Agreement
import SealedEnvelope.Proofs.Inspection.Ambiguity
import SealedEnvelope.Proofs.Key.CacheCalls
import SealedEnvelope.Proofs.Key.Components
import SealedEnvelope.Proofs.Key.Element
import SealedEnvelope.Proofs.Key.File
import SealedEnvelope.Proofs.Key.Fingerprint
import SealedEnvelope.Proofs.Key.Generation
import SealedEnvelope.Proofs.Key.History
import SealedEnvelope.Proofs.Key.Lookup
import SealedEnvelope.Proofs.Key.Recency
import SealedEnvelope.Proofs.Key.Rsa
import SealedEnvelope.Proofs.Key.Transparency
import SealedEnvelope.Proofs.Key.Wrapping
import SealedEnvelope.Proofs.Knowledge.Completeness
import SealedEnvelope.Proofs.Knowledge.Coverage
import SealedEnvelope.Proofs.Knowledge.Masking
import SealedEnvelope.Proofs.Knowledge.Soundness
import SealedEnvelope.Proofs.Knowledge.Transcripts
import SealedEnvelope.Proofs.LabelledLine
import SealedEnvelope.Proofs.LayerCodec
import SealedEnvelope.Proofs.LayerStructure
import SealedEnvelope.Proofs.Number.Inverse
import SealedEnvelope.Proofs.Number.Power
import SealedEnvelope.Proofs.Outcome
import SealedEnvelope.Proofs.Signature.Acceptance
import SealedEnvelope.Proofs.Signature.Binding
import SealedEnvelope.Proofs.Signature.Compact
import SealedEnvelope.Proofs.Signature.Credentials
import SealedEnvelope.Proofs.Signature.Freshness
import SealedEnvelope.Proofs.Signature.Honest
import SealedEnvelope.Proofs.Signature.Lifetime
import SealedEnvelope.Proofs.Signature.Lifting
import SealedEnvelope.Proofs.Signature.ReadBack
import SealedEnvelope.Proofs.Signature.Rotation
import SealedEnvelope.Proofs.Signature.Unique
import SealedEnvelope.Proofs.Signature.WrittenForm
import SealedEnvelope.Proofs.Timestamp
import SealedEnvelope.Proofs.Wire.Compact
import SealedEnvelope.Proofs.Wire.Exactness
import SealedEnvelope.Proofs.Wire.ReadBack
import SealedEnvelope.Proofs.Zstd.Capacity
import SealedEnvelope.Proofs.Zstd.Limits
import SealedEnvelope.Proofs.Zstd.Stored
import SealedEnvelope.Random.ByteStream
import SealedEnvelope.Random.ChaChaStream
import SealedEnvelope.Signature.Basic
import SealedEnvelope.Signature.Encoding
import SealedEnvelope.Signature.Signing
import SealedEnvelope.Signature.Verification
import SealedEnvelope.Timestamp
import SealedEnvelope.Wire.Error
import SealedEnvelope.Wire.Frame
import SealedEnvelope.Wire.Payload
import SealedEnvelope.Wire.Tagged
import SealedEnvelope.Zstd.Bits
import SealedEnvelope.Zstd.Decoder
import SealedEnvelope.Zstd.Encoder
import SealedEnvelope.Zstd.Fse
import SealedEnvelope.Zstd.Huffman
import SealedEnvelope.Zstd.Literals
import SealedEnvelope.Zstd.Sequences
