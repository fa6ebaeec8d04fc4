/-
# Sealing and opening the outermost layer

A request is encrypted under a fresh key, which is wrapped under the key that
the recipient has active at the time of the envelope. A reply is encrypted
under the key of its request. Empty content is never encrypted.

Key definitions: `CryptoContext`, `DecryptionContext`, `Encryption.wrap`,
`Encryption.sessionKey`, `Encryption.openContent`, `Encryption.unwrap`.
-/
import SealedEnvelope.Encryption.Basic
import SealedEnvelope.Key.Cache
import SealedEnvelope.Key.Chain
import SealedEnvelope.Random.ByteStream

namespace SealedEnvelope

/-- How a sender protects content: as a request to a host under a new key, as a reply under
the key of the request, or not at all. -/
inductive CryptoContext where
  | request (recipient : HostId) (key : SymmetricKey)
  | reply (key : SymmetricKey)
  | plaintext
deriving DecidableEq

namespace CryptoContext

/-- The host that the envelope is addressed to. -/
def recipient? : CryptoContext → Option HostId
  | .request recipient _ => some recipient
  | _ => none

/-- The key that the content is encrypted under. -/
def key? : CryptoContext → Option SymmetricKey
  | .request _ key => some key
  | .reply key => some key
  | .plaintext => none

end CryptoContext

/-- What a receiver brings along: the key of the request that it expects the reply to, if it
does. -/
structure DecryptionContext where
  replyKey : Option SymmetricKey
deriving DecidableEq

namespace DecryptionContext

/-- The context of a host, which takes keys from the envelopes themselves. -/
def host : DecryptionContext := ⟨none⟩

/-- The context of whoever waits for a reply under `key`. -/
def reply (key : SymmetricKey) : DecryptionContext := ⟨some key⟩

end DecryptionContext

namespace Encryption

/-! ### Sealing -/

/-- The address of an envelope, with the wrapped key of a request. -/
def addressFor (ctx : CryptoContext) (time : Timestamp) (keys : KeyChain) (cache : KeyCache) :
    Except EnvelopeError Address × KeyCache :=
  match ctx with
  | .request recipient key =>
    match keys.publicKey recipient time with
    | .error e => (.error (.encryption ("cannot resolve recipient key: " ++ e.message)), cache)
    | .ok publicKey =>
      let (wrapped, cache) := cache.encryptKey publicKey key
      ((wrapped.map fun w => .host recipient (some w)).mapError fun e => .encryption e.message,
        cache)
  | .reply _ => (.ok .reply, cache)
  | .plaintext => (.ok .reply, cache)

/-- The content as it is carried; only content that is not empty is encrypted. -/
def carry (content : Bytes) (ctx : CryptoContext) (time : Timestamp) (s : ByteStream) :
    CarriedContent × ByteStream :=
  if content.isEmpty then (.absent, s)
  else
    match ctx.key? with
    | none => (.plain content, s)
    | some key =>
      let iv : Iv := ⟨(s.draw Iv.size).1, s.length_draw Iv.size⟩
      let ciphertext := Cipher.encrypt content (associatedData time ctx.recipient?) key iv
      (.encrypted iv ciphertext, (s.draw Iv.size).2)

/-- The layer around `content`, sealed at `time`. -/
def wrap (content : Bytes) (ctx : CryptoContext) (time : Timestamp) (keys : KeyChain)
    (cache : KeyCache) (s : ByteStream) :
    Except EnvelopeError Encryption × KeyCache × ByteStream :=
  match addressFor ctx time keys cache with
  | (.error e, cache) => (.error e, cache, s)
  | (.ok address, cache) =>
    let (carried, s) := carry content ctx time s
    (.ok ⟨time, address, carried⟩, cache, s)

/-! ### Opening -/

/-- The key in an envelope to a local host, or the one that the receiver of a reply has. -/
def sessionKey (e : Encryption) (ctx : DecryptionContext) (keys : KeyChain) (cache : KeyCache) :
    Except EnvelopeError (Option SymmetricKey) × KeyCache :=
  match e.address with
  | .reply => (.ok ctx.replyKey, cache)
  | .host host wrappedKey =>
    if ¬ keys.isLocal host then
      let name := host.name
      (.error (.encoding .encryption s!"envelope addressed to {name}, which is not hosted here"),
        cache)
    else
      match wrappedKey with
      | none => (.ok none, cache)
      | some wrapped =>
        match keys.privateKey host e.time with
        | .error e => (.error (.encryption ("cannot resolve private key: " ++ e.message)), cache)
        | .ok privateKey =>
          let (key, cache) := cache.decryptKey privateKey wrapped
          ((key.map some).mapError fun e => .encryption e.message, cache)

/-- The content, decrypted if it is a ciphertext. -/
def openContent (e : Encryption) (key : Option SymmetricKey) : Except EnvelopeError Bytes :=
  match e.content, key with
  | .absent, _ => .ok []
  | .plain content, _ => .ok content
  | .encrypted _ _, none =>
    .error (.encryption "a symmetric key is needed to decrypt the response")
  | .encrypted iv ciphertext, some key =>
    (Cipher.decrypt ciphertext (associatedData e.time e.recipient?) key iv).mapError fun e =>
      .encryption e.message

/-- The content, and the key that goes with it. -/
def unwrap (e : Encryption) (ctx : DecryptionContext) (keys : KeyChain) (cache : KeyCache) :
    Except EnvelopeError (Bytes × Option SymmetricKey) × KeyCache :=
  match e.sessionKey ctx keys cache with
  | (.error error, cache) => (.error error, cache)
  | (.ok key, cache) => ((e.openContent key).map fun content => (content, key), cache)

end Encryption
end SealedEnvelope
