/-
# Commitments of clients

A client registers the public value of a secret with a host. The commitment
names the host and the time, which together select the key in whose group the
value lies; so it can be read without knowing any key. The client keeps the
secret beside the commitment and proves that it knows it.

Key definitions: `Commitment`, `Commitment.new`, `Commitment.toFields`,
`Commitment.ofFields`, `Commitment.publicKey`, `SecretCommitment`,
`SecretCommitment.create`, `SecretCommitment.prove`.
-/
import SealedEnvelope.EnvelopeError
import SealedEnvelope.Key.Chain
import SealedEnvelope.Knowledge.Proof
import SealedEnvelope.Random.ByteStream

namespace SealedEnvelope

open Cbor (Value)

/-- A public value registered with `host` under the key active at `time`. -/
@[ext] structure Commitment where
  host : HostId
  time : Timestamp
  value : Nat
  pos : 0 < value

instance : DecidableEq Commitment := fun _ _ => decidable_of_iff _ Commitment.ext_iff.symm

namespace Commitment

/-- A commitment to any value but zero. -/
def new (host : HostId) (time : Timestamp) (value : Nat) : Except CryptoError Commitment :=
  if h : 0 < value then .ok ⟨host, time, value, h⟩ else .error .invalidGroupElement

/-- The key that the commitment was made under. -/
def publicKey (c : Commitment) (keys : KeyChain) : Except EnvelopeError PublicKey :=
  (keys.publicKey c.host c.time).mapError fun e =>
    .signature ("cannot resolve commitment key: " ++ e.message)

/-! ### Wire form -/

/-- Host, time and the least bytes of the value. -/
def toFields (c : Commitment) : List Value :=
  [.text c.host.name, .int c.time.seconds.toNat, .bytes (Bytes.ofNat c.value)]

/-- The tuple of a commitment on its own. -/
def encode (c : Commitment) : Bytes := Tagged.encode .commitment c.toFields

/-- Takes host, time and the bytes of the value from the fields. -/
def rawFields? (fields : Value) : Option (HostId × Timestamp × Bytes) :=
  match fields.items? with
  | some (host :: time :: value :: _) => do
    return (⟨← host.text?⟩, ⟨← time.word?⟩, ← value.bytes?)
  | _ => none

/-- A commitment whose value is written without leading zeros and is not empty. -/
def ofFields : HostId × Timestamp × Bytes → Except EnvelopeError Commitment
  | (host, time, value) =>
    match value with
    | [] | 0 :: _ => .error (.encoding .signature "commitment value is not minimally encoded")
    | _ => (new host time value.toNat).mapError fun e => .encoding .signature e.message

/-- Reads the tuple of a commitment on its own. -/
def decode (b : Bytes) : Except EnvelopeError Commitment := do
  let fields ← (Tagged.decode .commitment rawFields? b).mapError (.ofWire .signature)
  ofFields fields

end Commitment

/-- A commitment together with its key and its secret, as its client keeps it. -/
structure SecretCommitment where
  commitment : Commitment
  publicKey : PublicKey
  secret : Secret

namespace SecretCommitment

/-- The commitment to a secret under the key that `host` has active at `time`. -/
def ofSecret (host : HostId) (time : Timestamp) (key : PublicKey) (secret : Secret) :
    Except CryptoError SecretCommitment :=
  (Commitment.new host time (key.commit secret)).map fun c => ⟨c, key, secret⟩

/-- Draws a secret and commits to it. -/
def create (host : HostId) (time : Timestamp) (key : PublicKey) (s : ByteStream) :
    Except CryptoError SecretCommitment × ByteStream :=
  let (random, s) := s.draw key.elementLength
  ((Secret.ofRandom key random).bind (ofSecret host time key), s)

/-- Proves the knowledge of the secret, bound to `message`, with a nonce from the stream. -/
def prove (c : SecretCommitment) (message : Digest) (params : ProofParams) (s : ByteStream) :
    Except CryptoError KnowledgeProof × ByteStream :=
  let (nonce, s) := s.draw params.nonceLength
  (KnowledgeProof.prove c.publicKey c.secret message params nonce, s)

/-- The form shown in diagnostics, which tells the commitment and nothing about the secret. -/
def brief (c : SecretCommitment) : String :=
  let host := c.commitment.host.name
  let time := c.commitment.time.text
  s!"SecretCommitment \x7b host: {host}, time: {time}, .. \x7d"

/-- Secret commitments are compared by what is public of them. -/
instance : BEq SecretCommitment := ⟨fun a b => a.commitment = b.commitment⟩

end SecretCommitment
end SealedEnvelope
