/-
# What is sealed is opened

The receiver of a layer needs the key that its content is encrypted under. It
has it already for a reply; for a request it unwraps it with the private half
of the key that the sender found. Whatever key caches hold on either side, the
key that arrives is the one that the sender used, if digests tell the calls to
the caches apart and the private keys are inverse to their public halves.

Key definitions: `CryptoContext.cacheCalls`, `Encryption.cacheCalls`,
`CryptoContext.Reaches`.
Key theorems: `Encryption.wrap_eq_ok`, `Encryption.sessionKey_wrap`,
`Encryption.unwrap_wrap`.
-/
import Mathlib
import SealedEnvelope.Encryption.Wrapping
import SealedEnvelope.Proofs.Encryption.ReadBack
import SealedEnvelope.Proofs.Key.CacheCalls
import SealedEnvelope.Proofs.Key.Rsa

namespace SealedEnvelope

/-! ### What layers ask of key caches -/

/-- The calls that sealing makes to the key cache. -/
def CryptoContext.cacheCalls (ctx : CryptoContext) (keys : KeyChain) (time : Timestamp) :
    List KeyCache.Call :=
  match ctx with
  | .request recipient sym =>
    match keys.publicKey recipient time with
    | .ok key => [.wrap key sym]
    | .error _ => []
  | _ => []

/-- The calls that opening makes to the key cache. -/
def Encryption.cacheCalls (e : Encryption) (keys : KeyChain) : List KeyCache.Call :=
  match e.address with
  | .host host (some wrapped) =>
    if keys.isLocal host then
      match keys.privateKey host e.time with
      | .ok key => [.unwrap key wrapped]
      | .error _ => []
    else []
  | _ => []

theorem Encryption.length_cacheCalls_le (e : Encryption) (keys : KeyChain) :
    (e.cacheCalls keys).length ≤ 1 := by
  unfold cacheCalls
  split
  · split
    · split
      · exact Nat.le_refl 1
      · exact Nat.zero_le 1
    · exact Nat.zero_le 1
  · exact Nat.zero_le 1

/-- What is sealed with `crypto` at `time` reaches a receiver that opens it with `ctx`: a request
goes to a host that the receiver runs, with an inverse private half of the key that the sender
finds, and a reply to whoever has its key. -/
def CryptoContext.Reaches (crypto : CryptoContext) (time : Timestamp) (sender receiver : KeyChain)
    (ctx : DecryptionContext) : Prop :=
  match crypto with
  | .request recipient _ => ctx = .host ∧ receiver.isLocal recipient = true ∧
      ∃ key : PrivateKey, key.IsRsa ∧ sender.publicKey recipient time = .ok key.publicKey ∧
        receiver.privateKey recipient time = .ok key
  | .reply sym => ctx = .reply sym
  | .plaintext => True

/-- The key that a receiver ends up with: the one of the envelope, or else its own. -/
def CryptoContext.sessionKey (crypto : CryptoContext) (ctx : DecryptionContext) :
    Option SymmetricKey :=
  crypto.key?.or ctx.replyKey

namespace Encryption

/-! ### Sealing -/

theorem addressFor_request {recipient : HostId} {sym : SymmetricKey} {time : Timestamp}
    {keys : KeyChain} {cache : KeyCache} {key : PublicKey}
    (hkey : keys.publicKey recipient time = .ok key) :
    addressFor (.request recipient sym) time keys cache =
      ((((cache.encryptKey key sym).1.map fun w => Address.host recipient (some w)).mapError
        fun e => EnvelopeError.encryption e.message), (cache.encryptKey key sym).2) := by
  simp only [addressFor, hkey]

/-- Sealing consults the cache exactly by its calls. -/
theorem addressFor_cache (crypto : CryptoContext) (time : Timestamp) (keys : KeyChain)
    (cache : KeyCache) :
    (addressFor crypto time keys cache).2 =
      (crypto.cacheCalls keys time).foldl KeyCache.Call.apply cache := by
  cases crypto with
  | request recipient sym =>
    cases hkey : keys.publicKey recipient time with
    | error e => simp only [addressFor, CryptoContext.cacheCalls, hkey, List.foldl_nil]
    | ok key =>
      simp only [addressFor_request hkey, CryptoContext.cacheCalls, hkey]
      rfl
  | reply sym => rfl
  | plaintext => rfl

theorem wrap_eq_ok {content : Bytes} {crypto : CryptoContext} {time : Timestamp}
    {keys : KeyChain} {cache cache' : KeyCache} {s s' : ByteStream} {e : Encryption}
    (h : wrap content crypto time keys cache s = (.ok e, cache', s')) :
    (addressFor crypto time keys cache).1 = .ok e.address ∧ e.time = time ∧
      e.content = (carry content crypto time s).1 := by
  unfold wrap at h
  split at h
  · simp at h
  · rename_i address rest haddress
    simp only [Prod.mk.injEq, Except.ok.injEq] at h
    obtain ⟨rfl, -, -⟩ := h
    rw [haddress]
    exact ⟨rfl, rfl, rfl⟩

theorem exists_wrapped_of_addressFor {recipient : HostId} {sym : SymmetricKey} {time : Timestamp}
    {keys : KeyChain} {cache : KeyCache} {address : Address}
    (h : (addressFor (.request recipient sym) time keys cache).1 = .ok address) :
    ∃ key wrapped, keys.publicKey recipient time = .ok key ∧
      (cache.encryptKey key sym).1 = .ok wrapped ∧ address = .host recipient (some wrapped) := by
  cases hkey : keys.publicKey recipient time with
  | error e => simp [addressFor, hkey] at h
  | ok key =>
    rw [addressFor_request hkey] at h
    obtain ⟨wrapped, hwrapped, rfl⟩ := Except.map_eq_ok_iff.mp (Except.mapError_eq_ok_iff.mp h)
    exact ⟨key, wrapped, rfl, hwrapped, rfl⟩

theorem recipient?_of_addressFor {crypto : CryptoContext} {time : Timestamp} {keys : KeyChain}
    {cache : KeyCache} {address : Address}
    (h : (addressFor crypto time keys cache).1 = .ok address) :
    address.recipient? = crypto.recipient? := by
  cases crypto with
  | request recipient sym =>
    obtain ⟨key, wrapped, -, -, rfl⟩ := exists_wrapped_of_addressFor h
    rfl
  | reply sym =>
    obtain rfl := Except.ok.inj h
    rfl
  | plaintext =>
    obtain rfl := Except.ok.inj h
    rfl

theorem length_encrypt (content aad : Bytes) (key : SymmetricKey) (iv : Iv) :
    content.length ≤ (Cipher.encrypt content aad key iv).length := by
  simp [Cipher.encrypt]

theorem length_le_of_wrap {content : Bytes} {crypto : CryptoContext} {time : Timestamp}
    {keys : KeyChain} {cache cache' : KeyCache} {s s' : ByteStream} {e : Encryption}
    (h : wrap content crypto time keys cache s = (.ok e, cache', s')) :
    content.length ≤ e.encode.length := by
  obtain ⟨-, -, hcarried⟩ := wrap_eq_ok h
  unfold carry at hcarried
  cases content with
  | nil => exact Nat.zero_le _
  | cons x rest =>
    cases hsym : crypto.key? with
    | none =>
      rw [hsym] at hcarried
      exact length_content_le (congrArg CarriedContent.bytes? hcarried)
    | some sym =>
      rw [hsym] at hcarried
      exact le_trans (length_encrypt _ _ _ _)
        (length_content_le (congrArg CarriedContent.bytes? hcarried))

/-! ### Opening -/

/-- The content comes out under the key that it was sealed with, or under any key if it was not
encrypted. -/
theorem openContent_carry {content : Bytes} {crypto : CryptoContext} {time : Timestamp}
    {s : ByteStream} {e : Encryption} {key : Option SymmetricKey} (htime : e.time = time)
    (hrecipient : e.recipient? = crypto.recipient?)
    (hcontent : e.content = (carry content crypto time s).1)
    (hkey : ∀ sym, crypto.key? = some sym → key = some sym) :
    e.openContent key = .ok content := by
  unfold openContent
  unfold carry at hcontent
  cases content with
  | nil =>
    rw [hcontent]
    rfl
  | cons x rest =>
    cases hsym : crypto.key? with
    | none =>
      rw [hsym] at hcontent
      rw [hcontent]
      rfl
    | some sym =>
      rw [hsym] at hcontent
      obtain rfl := hkey sym hsym
      rw [hcontent, htime, hrecipient]
      simp only [List.isEmpty_cons, Bool.false_eq_true, if_false, Cipher.decrypt_encrypt,
        Except.ok_mapError]

/-- Opening consults the cache exactly by its calls. -/
theorem sessionKey_cache (e : Encryption) (ctx : DecryptionContext) (keys : KeyChain)
    (cache : KeyCache) :
    (e.sessionKey ctx keys cache).2 = (e.cacheCalls keys).foldl KeyCache.Call.apply cache := by
  unfold sessionKey cacheCalls
  cases haddress : e.address with
  | reply => rfl
  | host host wrapped =>
    by_cases hlocal : keys.isLocal host
    · cases wrapped with
      | none => simp [hlocal]
      | some wrapped =>
        cases hkey : keys.privateKey host e.time with
        | error error => simp [hlocal, hkey]
        | ok key => simp [hlocal, hkey, KeyCache.Call.apply]
    · cases wrapped <;> simp [hlocal]

theorem sessionKey_host {e : Encryption} {ctx : DecryptionContext} {keys : KeyChain}
    {cache : KeyCache} {host : HostId} {wrapped : Bytes} {key : PrivateKey}
    (haddress : e.address = .host host (some wrapped)) (hlocal : keys.isLocal host = true)
    (hkey : keys.privateKey host e.time = .ok key) :
    (e.sessionKey ctx keys cache).1 =
      ((cache.decryptKey key wrapped).1.map some).mapError fun e => .encryption e.message := by
  simp [sessionKey, haddress, hlocal, hkey]

/-- The key of a layer arrives, whatever the caches on both sides hold. -/
theorem sessionKey_wrap {crypto : CryptoContext} {time : Timestamp} {sender receiver : KeyChain}
    {ctx : DecryptionContext} {n m : Nat} {sent received : List KeyCache.Call} {e : Encryption}
    (hreach : crypto.Reaches time sender receiver ctx) (htime : e.time = time)
    (haddress : (addressFor crypto time sender (KeyCache.ofCalls n sent)).1 = .ok e.address)
    (hsent : KeyCache.Distinct (sent ++ crypto.cacheCalls sender time))
    (hreceived : KeyCache.Distinct (received ++ e.cacheCalls receiver))
    (hrsa : ∀ key w, .unwrap key w ∈ received → key.IsRsa) :
    (e.sessionKey ctx receiver (KeyCache.ofCalls m received)).1 = .ok (crypto.sessionKey ctx) := by
  cases crypto with
  | request recipient sym =>
    obtain ⟨-, hlocal, key, hkey, hpublic, hprivate⟩ := hreach
    obtain ⟨key', wrapped, hfound, hwrapped, hto⟩ := exists_wrapped_of_addressFor haddress
    obtain rfl : key.publicKey = key' := Except.ok.inj (hpublic.symm.trans hfound)
    rw [← htime] at hprivate
    have hcalls : (CryptoContext.request recipient sym).cacheCalls sender time =
        [.wrap key.publicKey sym] := by
      simp only [CryptoContext.cacheCalls, hpublic]
    have hcalls' : e.cacheCalls receiver = [.unwrap key wrapped] := by
      simp only [cacheCalls, hto, hlocal, if_true, hprivate]
    rw [hcalls] at hsent
    rw [hcalls'] at hreceived
    rw [KeyCache.encryptKey_ofCalls hsent] at hwrapped
    obtain ⟨private_, hwhich, hsame, hunwrap⟩ :=
      @KeyCache.decryptKey_ofCalls m _ _ _ hreceived (length_of_wrapKey hwrapped)
    have hinverse : private_.IsRsa := by
      rcases hwhich with rfl | hcall
      · exact hkey
      · exact hrsa _ _ hcall
    rw [sessionKey_host hto hlocal hprivate, hunwrap, hinverse.unwrapKey_wrapKey (hsame ▸ hwrapped)]
    rfl
  | reply sym =>
    obtain rfl : ctx = .reply sym := hreach
    have hto : e.address = .reply := (Except.ok.inj haddress).symm
    simp only [sessionKey, hto]
    rfl
  | plaintext =>
    have hto : e.address = .reply := (Except.ok.inj haddress).symm
    simp only [sessionKey, hto]
    rfl

/-- What is sealed is opened to the content, and to the key that it was sealed with or else the
receiver's own. -/
theorem unwrap_wrap {content : Bytes} {crypto : CryptoContext} {time : Timestamp}
    {sender receiver : KeyChain} {ctx : DecryptionContext} {n m : Nat}
    {sent received : List KeyCache.Call} {cache' : KeyCache} {s s' : ByteStream} {e : Encryption}
    (hreach : crypto.Reaches time sender receiver ctx)
    (hwrap : wrap content crypto time sender (KeyCache.ofCalls n sent) s = (.ok e, cache', s'))
    (hsent : KeyCache.Distinct (sent ++ crypto.cacheCalls sender time))
    (hreceived : KeyCache.Distinct (received ++ e.cacheCalls receiver))
    (hrsa : ∀ key w, .unwrap key w ∈ received → key.IsRsa) :
    (e.unwrap ctx receiver (KeyCache.ofCalls m received)).1 =
      .ok (content, crypto.sessionKey ctx) := by
  obtain ⟨haddress, htime, hcarried⟩ := wrap_eq_ok hwrap
  have hkey := sessionKey_wrap (m := m) hreach htime haddress hsent hreceived hrsa
  have hopen : e.openContent (crypto.sessionKey ctx) = .ok content := by
    refine openContent_carry htime (recipient?_of_addressFor haddress) hcarried fun sym hsym => ?_
    rw [CryptoContext.sessionKey, hsym, Option.some_or]
  cases hsession : e.sessionKey ctx receiver (KeyCache.ofCalls m received) with
  | mk outcome cache =>
    rw [hsession] at hkey
    obtain rfl : outcome = .ok (crypto.sessionKey ctx) := hkey
    simp only [unwrap, hsession, hopen, Except.ok_map]

end Encryption
end SealedEnvelope
