/-
# Wrapping symmetric keys

A symmetric key is wrapped as its public power and unwrapped as the private
power. Both are deterministic, so a cache remembers the results for the keys
and wrapped keys used last, one recency map for each direction. Entries are
filed under digests, never under a symmetric key itself.

Key definitions: `wrapKey`, `unwrapKey`, `KeyCache`, `KeyCache.encryptKey`,
`KeyCache.decryptKey`, `KeyCache.stats`.
-/
import SealedEnvelope.Key.Private
import SealedEnvelope.Key.RecencyMap
import SealedEnvelope.Cipher.Aead

namespace SealedEnvelope

/-- A symmetric key wrapped under a public key. -/
def wrapKey (key : PublicKey) (sym : SymmetricKey) : Except CryptoError Bytes :=
  (key.encryptRaw sym.bytes.toNat).map key.encodeElement

/-- The symmetric key in a wrapped key of element width. -/
def unwrapKey (key : PrivateKey) (wrapped : Bytes) : Except CryptoError SymmetricKey :=
  match key.decryptRaw wrapped.toNat with
  | .error _ => .error (.decryptionFailed .notBelowModulus)
  | .ok raw =>
    if raw < 2 ^ 256 then .ok ⟨Bytes.ofNatWidth 32 raw, by simp⟩
    else .error (.decryptionFailed .notSymmetricKey)

/-- Results of wrapping and unwrapping, and how often one was found or had to be computed. -/
structure KeyCache where
  wrapped : RecencyMap Bytes
  unwrapped : RecencyMap SymmetricKey
  hits : UInt64
  misses : UInt64

namespace KeyCache

/-- The cache that holds up to `capacity` entries in each direction. -/
def ofCapacity (capacity : Nat) : KeyCache :=
  ⟨RecencyMap.empty capacity, RecencyMap.empty capacity, 0, 0⟩

/-- What is hashed to file the wrapping of a key. -/
def encryptInput (key : PublicKey) (sym : SymmetricKey) : Bytes :=
  Bytes.ofText "cachet-key-cache-encrypt" ++ key.fingerprint.bytes ++ sym.bytes

/-- What is hashed to file the unwrapping of a wrapped key. -/
def decryptInput (key : PublicKey) (wrapped : Bytes) : Bytes :=
  Bytes.ofText "cachet-key-cache-decrypt" ++ key.fingerprint.bytes ++ wrapped

/-- Where the wrapping of a key is filed. -/
def encryptId (key : PublicKey) (sym : SymmetricKey) : Digest := Digest.of (encryptInput key sym)

/-- Where the unwrapping of a wrapped key is filed. -/
def decryptId (key : PublicKey) (wrapped : Bytes) : Digest := Digest.of (decryptInput key wrapped)

/-- Wraps a symmetric key. A failure counts as a miss and stores nothing. -/
def encryptKey (c : KeyCache) (key : PublicKey) (sym : SymmetricKey) :
    Except CryptoError Bytes × KeyCache :=
  let id := encryptId key sym
  match c.wrapped.find? id with
  | some found => (.ok found, { c with wrapped := c.wrapped.insert id found, hits := c.hits + 1 })
  | none =>
    let c := { c with misses := c.misses + 1 }
    match wrapKey key sym with
    | .ok result => (.ok result, { c with wrapped := c.wrapped.insert id result })
    | .error e => (.error e, c)

/-- Unwraps a wrapped key. A wrong width is refused before it counts. -/
def decryptKey (c : KeyCache) (key : PrivateKey) (wrapped : Bytes) :
    Except CryptoError SymmetricKey × KeyCache :=
  if wrapped.length ≠ key.publicKey.elementLength then
    (.error (.invalidLength .wrappedKey key.publicKey.elementLength wrapped.length), c)
  else
    let id := decryptId key.publicKey wrapped
    match c.unwrapped.find? id with
    | some found =>
      (.ok found, { c with unwrapped := c.unwrapped.insert id found, hits := c.hits + 1 })
    | none =>
      let c := { c with misses := c.misses + 1 }
      match unwrapKey key wrapped with
      | .ok result => (.ok result, { c with unwrapped := c.unwrapped.insert id result })
      | .error e => (.error e, c)

/-- The cache without its entries; the counters stay. -/
def clear (c : KeyCache) : KeyCache :=
  { c with wrapped := c.wrapped.clear, unwrapped := c.unwrapped.clear }

/-- The counters of a cache and the numbers of its entries. -/
structure Stats where
  hits : UInt64
  misses : UInt64
  wrappedEntries : Nat
  unwrappedEntries : Nat
deriving DecidableEq

/-- The counters and the numbers of entries as they are now. -/
def stats (c : KeyCache) : Stats := ⟨c.hits, c.misses, c.wrapped.size, c.unwrapped.size⟩

/-- The form shown in diagnostics. -/
def brief (c : KeyCache) : String :=
  let hits := c.hits.toNat
  let misses := c.misses.toNat
  s!"KeyCache \x7b hits: {hits}, misses: {misses}, .. \x7d"

end KeyCache
end SealedEnvelope
