/-
# Sealed, written, read and opened

A layer takes one of six forms: content that is empty is absent in every
context, and other content is a ciphertext where there is a key and in the
clear where there is none; a wrapped key travels with a request, also beside
content that is absent. Each form is written and read back, and opening it
finds the key where the form has it: wrapped in the layer itself for a request,
whatever the receiver brings along, and with the receiver for everything else.

Key theorems: `Encryption.exists_ciphertext_of_wrap`,
`Encryption.isEncrypted_of_wrap`, `Encryption.unwrap_wrap_reply`,
`Encryption.unwrap_wrap_request`, `Encryption.decode_unwrap_wrap`.
-/
import Mathlib
import SealedEnvelope.Proofs.Encryption.Unsealing
import SealedEnvelope.Proofs.Key.Transparency

namespace SealedEnvelope
namespace Encryption

variable {content : Bytes} {crypto : CryptoContext} {time : Timestamp} {sender : KeyChain}
  {cache cache' : KeyCache} {s s' : ByteStream} {e : Encryption}

/-! ### Which form a layer takes -/

theorem carry_nil : (carry [] crypto time s).1 = .absent := rfl

theorem carry_of_no_key (hcontent : content ≠ []) (hkey : crypto.key? = none) :
    (carry content crypto time s).1 = .plain content := by
  unfold carry
  rw [if_neg (by simpa using hcontent), hkey]

/-- With a key, content that is not empty is encrypted, bound to time and recipient. -/
theorem carry_of_key {sym : SymmetricKey} (hcontent : content ≠ [])
    (hkey : crypto.key? = some sym) :
    ∃ iv, (carry content crypto time s).1 =
      .encrypted iv (Cipher.encrypt content (associatedData time crypto.recipient?) sym iv) := by
  unfold carry
  rw [if_neg (by simpa using hcontent), hkey]
  exact ⟨_, rfl⟩

theorem exists_ciphertext_of_wrap {sym : SymmetricKey} (hcontent : content ≠ [])
    (hkey : crypto.key? = some sym)
    (hwrap : wrap content crypto time sender cache s = (.ok e, cache', s')) :
    ∃ iv, e.content =
      .encrypted iv (Cipher.encrypt content (associatedData e.time e.recipient?) sym iv) := by
  obtain ⟨haddress, htime, hcarried⟩ := wrap_eq_ok hwrap
  have hto : e.recipient? = crypto.recipient? := recipient?_of_addressFor haddress
  rw [htime, hto, hcarried]
  exact carry_of_key hcontent hkey

/-- Content is a ciphertext exactly if it is not empty and there is a key. -/
theorem isEncrypted_of_wrap
    (hwrap : wrap content crypto time sender cache s = (.ok e, cache', s')) :
    e.isEncrypted = true ↔ content ≠ [] ∧ crypto.key?.isSome = true := by
  obtain ⟨-, -, hcarried⟩ := wrap_eq_ok hwrap
  rw [isEncrypted, hcarried]
  by_cases hcontent : content = []
  · subst hcontent
    rw [carry_nil]
    simp [CarriedContent.iv?]
  · cases hkey : crypto.key? with
    | none =>
      rw [carry_of_no_key hcontent hkey]
      simp [CarriedContent.iv?]
    | some sym =>
      have hcipher : ∃ iv, (carry content crypto time s).1 = .encrypted iv _ :=
        carry_of_key hcontent hkey
      obtain ⟨iv, hiv⟩ := hcipher
      rw [hiv]
      simp [CarriedContent.iv?, hcontent]

/-! ### Layers for nobody in particular -/

section

variable {ctx : DecryptionContext} {receiver : KeyChain} {opened : KeyCache}

/-- A layer without a recipient is opened with the key of the receiver, if it has one; neither key
chain nor cache is asked. -/
theorem unwrap_of_reply (haddress : e.address = .reply) :
    e.unwrap ctx receiver opened =
      ((e.openContent ctx.replyKey).map fun content => (content, ctx.replyKey), opened) := by
  simp only [unwrap, sessionKey, haddress]

theorem address_of_wrap (hto : crypto.recipient? = none)
    (hwrap : wrap content crypto time sender cache s = (.ok e, cache', s')) :
    e.address = .reply := by
  obtain ⟨haddress, -, -⟩ := wrap_eq_ok hwrap
  cases crypto with
  | request recipient sym => cases hto
  | reply sym => exact (Except.ok.inj haddress).symm
  | plaintext => exact (Except.ok.inj haddress).symm

/-- What is sealed for nobody in particular is opened by whoever has the key that it was sealed
with, or by anybody if there was none. -/
theorem unwrap_wrap_reply (hto : crypto.recipient? = none)
    (hkey : ∀ sym, crypto.key? = some sym → ctx.replyKey = some sym)
    (hwrap : wrap content crypto time sender cache s = (.ok e, cache', s')) :
    e.unwrap ctx receiver opened = (.ok (content, ctx.replyKey), opened) := by
  obtain ⟨haddress, htime, hcarried⟩ := wrap_eq_ok hwrap
  have hopen : e.openContent ctx.replyKey = .ok content :=
    openContent_carry htime (recipient?_of_addressFor haddress) hcarried hkey
  rw [unwrap_of_reply (address_of_wrap hto hwrap), hopen]
  rfl

theorem unwrap_wrap_without_key {sym : SymmetricKey}
    (hwrap : wrap content (.reply sym) time sender cache s = (.ok e, cache', s')) :
    (e.unwrap .host receiver opened).1 =
      if content = [] then .ok ([], none)
      else .error (.encryption "a symmetric key is needed to decrypt the response") := by
  rw [unwrap_of_reply (address_of_wrap rfl hwrap)]
  by_cases hcontent : content = []
  · obtain ⟨-, -, hcarried⟩ := wrap_eq_ok hwrap
    subst hcontent
    have hopen : e.openContent none = .ok [] := by
      unfold openContent
      rw [hcarried, carry_nil]
    rw [if_pos rfl, DecryptionContext.host, hopen]
    rfl
  · obtain ⟨iv, hiv⟩ := exists_ciphertext_of_wrap hcontent rfl hwrap
    have hopen : e.openContent none =
        .error (.encryption "a symmetric key is needed to decrypt the response") := by
      unfold openContent
      rw [hiv]
    rw [if_neg hcontent, DecryptionContext.host, hopen]
    rfl

end

/-! ### Requests -/

/-- The key of a request comes out of the cache of a receiver that has the private half of the
public key that it was wrapped under. -/
theorem sessionKey_wrap_request {recipient : HostId} {sym : SymmetricKey} {receiver : KeyChain}
    {key : PrivateKey} {n m : Nat} {sent received : List KeyCache.Call} (ctx : DecryptionContext)
    (haddress : (addressFor (.request recipient sym) e.time sender (KeyCache.ofCalls n sent)).1 =
      .ok e.address)
    (hlocal : receiver.isLocal recipient = true) (hkey : key.IsRsa)
    (hprivate : receiver.privateKey recipient e.time = .ok key)
    (hpublic : sender.publicKey recipient e.time = .ok key.publicKey)
    (hsent : KeyCache.Distinct (sent ++ [.wrap key.publicKey sym]))
    (hreceived : KeyCache.Distinct (received ++ e.cacheCalls receiver))
    (hone : KeyCache.OnePrivateHalf (received ++ e.cacheCalls receiver)) :
    (e.sessionKey ctx receiver (KeyCache.ofCalls m received)).1 = .ok (some sym) := by
  obtain ⟨found, wrapped, hfound, hwrapped, hto⟩ := exists_wrapped_of_addressFor haddress
  obtain rfl : key.publicKey = found := Except.ok.inj (hpublic.symm.trans hfound)
  rw [KeyCache.encryptKey_ofCalls hsent] at hwrapped
  have hcalls : e.cacheCalls receiver = [.unwrap key wrapped] := by
    simp only [cacheCalls, hto, hlocal, if_true, hprivate]
  rw [hcalls] at hreceived hone
  have hanswer : ((KeyCache.ofCalls m received).decryptKey key wrapped).1 =
      ((KeyCache.ofCapacity 0).decryptKey key wrapped).1 :=
    KeyCache.Answer.unwrapped.inj (KeyCache.answer_ofCalls hreceived hone 0)
  have hunwrap : ((KeyCache.ofCalls m received).decryptKey key wrapped).1 = .ok sym := by
    rw [hanswer, KeyCache.decryptKey_ofCapacity 0 (length_of_wrapKey hwrapped)]
    exact hkey.unwrapKey_wrapKey hwrapped
  rw [sessionKey_host hto hlocal hprivate, hunwrap]
  rfl

/-- What is sealed as a request is opened by the host that it is addressed to. -/
theorem unwrap_wrap_request {recipient : HostId} {sym : SymmetricKey} {receiver : KeyChain}
    {key : PrivateKey} {n m : Nat} {sent received : List KeyCache.Call} (ctx : DecryptionContext)
    (hwrap : wrap content (.request recipient sym) time sender (KeyCache.ofCalls n sent) s =
      (.ok e, cache', s'))
    (hlocal : receiver.isLocal recipient = true) (hkey : key.IsRsa)
    (hprivate : receiver.privateKey recipient time = .ok key)
    (hpublic : sender.publicKey recipient time = .ok key.publicKey)
    (hsent : KeyCache.Distinct (sent ++ [.wrap key.publicKey sym]))
    (hreceived : KeyCache.Distinct (received ++ e.cacheCalls receiver))
    (hone : KeyCache.OnePrivateHalf (received ++ e.cacheCalls receiver)) :
    (e.unwrap ctx receiver (KeyCache.ofCalls m received)).1 = .ok (content, some sym) := by
  obtain ⟨haddress, rfl, hcarried⟩ := wrap_eq_ok hwrap
  have hsession := sessionKey_wrap_request (m := m) ctx haddress hlocal hkey hprivate hpublic hsent
    hreceived hone
  have hopen : e.openContent (some sym) = .ok content :=
    openContent_carry rfl (recipient?_of_addressFor haddress) hcarried fun _ hsym => hsym
  cases houtcome : e.sessionKey ctx receiver (KeyCache.ofCalls m received) with
  | mk outcome rest =>
    rw [houtcome] at hsession
    obtain rfl : outcome = .ok (some sym) := hsession
    simp only [unwrap, houtcome, hopen, Except.ok_map]

/-! ### Every context -/

/-- **What is sealed, written, read and opened comes out as it went in**, empty content as well as
any other. A layer within the size limit is read back; it is encrypted exactly if there are content
and a key for it. A request gives the content and its key to the host that it is addressed to, with
anything that the host brings along and whatever both caches hold, as long as digests tell the calls
to each cache apart and the receiver has one private half for a public key. A reply gives them to
whoever has the key, and asks for the key unless it is empty. What was sealed without a key comes
with the key of the receiver, if any. -/
theorem decode_unwrap_wrap
    (hwrap : wrap content crypto time sender cache s = (.ok e, cache', s'))
    (hsize : e.encode.length ≤ maxPayloadSize) :
    decode e.encode = .ok e ∧
    (e.isEncrypted = true ↔ content ≠ [] ∧ crypto.key?.isSome = true) ∧
    match crypto with
    | .request recipient sym =>
      ∀ (ctx : DecryptionContext) (receiver : KeyChain) (key : PrivateKey) (n m : Nat)
        (sent received : List KeyCache.Call),
        receiver.isLocal recipient = true → receiver.privateKey recipient time = .ok key →
        key.IsRsa → sender.publicKey recipient time = .ok key.publicKey →
        cache = KeyCache.ofCalls n sent →
        KeyCache.Distinct (sent ++ [.wrap key.publicKey sym]) →
        KeyCache.Distinct (received ++ e.cacheCalls receiver) →
        KeyCache.OnePrivateHalf (received ++ e.cacheCalls receiver) →
        (e.unwrap ctx receiver (KeyCache.ofCalls m received)).1 = .ok (content, some sym)
    | .reply sym =>
      ∀ (receiver : KeyChain) (opened : KeyCache),
        (e.unwrap (.reply sym) receiver opened).1 = .ok (content, some sym) ∧
        (e.unwrap .host receiver opened).1 =
          if content = [] then .ok ([], none)
          else .error (.encryption "a symmetric key is needed to decrypt the response")
    | .plaintext =>
      ∀ (ctx : DecryptionContext) (receiver : KeyChain) (opened : KeyCache),
        (e.unwrap ctx receiver opened).1 = .ok (content, ctx.replyKey) := by
  refine ⟨decode_encode hsize, isEncrypted_of_wrap hwrap, ?_⟩
  cases crypto with
  | request recipient sym =>
    intro ctx receiver key n m sent received hlocal hprivate hkey hpublic hcache hsent hreceived
      hone
    subst hcache
    exact unwrap_wrap_request ctx hwrap hlocal hkey hprivate hpublic hsent hreceived hone
  | reply sym =>
    intro receiver opened
    have hsame : ∀ sym', (CryptoContext.reply sym).key? = some sym' →
        (DecryptionContext.reply sym).replyKey = some sym' := fun _ hsym => hsym
    have hwith : e.unwrap (.reply sym) receiver opened = (.ok (content, some sym), opened) :=
      unwrap_wrap_reply rfl hsame hwrap
    exact ⟨congrArg Prod.fst hwith, unwrap_wrap_without_key hwrap⟩
  | plaintext =>
    intro ctx receiver opened
    have hnone : ∀ sym, CryptoContext.plaintext.key? = some sym → ctx.replyKey = some sym := by
      intro sym hsym
      cases hsym
    have hclear : e.unwrap ctx receiver opened = (.ok (content, ctx.replyKey), opened) :=
      unwrap_wrap_reply rfl hnone hwrap
    exact congrArg Prod.fst hclear

/-- The key chain of a host whose key has a modulus of twelve bits. -/
def twelveBitChain : KeyChain :=
  (KeyRegistry.empty.hostLocally ⟨"h"⟩ ⟨0⟩ KeyCache.twelveBitKey).chain

/-- A request with three bytes, sealed with the wrapping of its key in the cache. -/
def twelveBitRequest : Except EnvelopeError Encryption × KeyCache × ByteStream :=
  wrap [1, 2, 3] (.request ⟨"h"⟩ KeyCache.eightKey) ⟨5⟩ twelveBitChain
    (KeyCache.ofCalls 1 [.wrap KeyCache.twelveBitKey.publicKey KeyCache.eightKey])
    (.ofFunction fun _ => 9)

/-- The request is encrypted, read back, and opened with the unwrapping of its key in the cache. -/
theorem unwrap_twelveBitRequest :
    ∃ e cache' s', twelveBitRequest = (.ok e, cache', s') ∧
      e.encode.length ≤ maxPayloadSize ∧ decode e.encode = .ok e ∧ e.isEncrypted = true ∧
      (e.unwrap .host twelveBitChain
        (KeyCache.ofCalls 1 [.unwrap KeyCache.twelveBitKey [0x00, 0x9c]])).1 =
          .ok ([1, 2, 3], some KeyCache.eightKey) := by
  have hsealed : ∃ e rest, twelveBitRequest = (.ok e, rest) :=
    Except.exists_eq_of_isOk (by decide +kernel)
  have hform : twelveBitRequest.1.map (fun e => (e.address, e.encode.length)) =
      .ok (.host ⟨"h"⟩ (some [0x00, 0x9c]), 56) := by decide +kernel
  obtain ⟨e, rest, hwrap⟩ := hsealed
  rw [hwrap] at hform
  obtain ⟨haddress, hlength⟩ := Prod.mk.inj (Except.ok.inj hform)
  have hsize : e.encode.length ≤ maxPayloadSize := by
    rw [hlength]
    decide
  have hcalls : e.cacheCalls twelveBitChain = [.unwrap KeyCache.twelveBitKey [0x00, 0x9c]] := by
    obtain ⟨-, htime, -⟩ := wrap_eq_ok hwrap
    unfold cacheCalls
    rw [haddress, htime]
    rfl
  obtain ⟨hdecode, hencrypted, hopen⟩ := decode_unwrap_wrap hwrap hsize
  refine ⟨e, rest.1, rest.2, hwrap, hsize, hdecode, hencrypted.mpr ⟨by decide, rfl⟩, ?_⟩
  refine hopen .host twelveBitChain KeyCache.twelveBitKey 1 1 _ _ rfl rfl
    KeyCache.isRsa_twelveBitKey rfl rfl ?_ ?_ ?_
  · exact .of_forall_eq (.wrap KeyCache.twelveBitKey.publicKey KeyCache.eightKey) (by simp)
  · rw [hcalls]
    exact .of_forall_eq (.unwrap KeyCache.twelveBitKey [0x00, 0x9c]) (by simp)
  · rw [hcalls]
    decide

end Encryption
end SealedEnvelope
