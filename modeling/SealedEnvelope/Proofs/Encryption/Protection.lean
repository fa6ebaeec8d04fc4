/-
# Which content a session key protects

Opening a layer yields content and perhaps a key, and the two are found
separately: the key from the address and the receiver's own key, the content
from what is carried. Content that was encrypted is what its ciphertext
decrypts to under that very key. Content in the clear is handed on as it is,
together with whatever key there is, also where a wrapped key came with it or
the receiver expected an encrypted reply; the key has protected nothing then.

Key definition: `Encryption.Protects`.
Key theorems: `Encryption.sessionKey_eq_ok_some_iff`,
`Encryption.unwrap_eq_ok_some_iff`, `Encryption.protects_iff_isEncrypted`.
-/
import Mathlib
import SealedEnvelope.Encryption.Wrapping
import SealedEnvelope.Proofs.Knowledge.Completeness
import SealedEnvelope.Proofs.Outcome

namespace SealedEnvelope
namespace Encryption

/-- The layer carries a ciphertext that `key` decrypts to `content`, bound to time and recipient. -/
def Protects (e : Encryption) (key : SymmetricKey) (content : Bytes) : Prop :=
  ∃ iv ciphertext, e.content = .encrypted iv ciphertext ∧
    Cipher.decrypt ciphertext (associatedData e.time e.recipient?) key iv = .ok content

variable {e : Encryption} {ctx : DecryptionContext} {keys : KeyChain} {cache : KeyCache}

/-! ### Where the key comes from -/

theorem sessionKey_eq_ok_some_iff {key : SymmetricKey} :
    (e.sessionKey ctx keys cache).1 = .ok (some key) ↔
      (e.address = .reply ∧ ctx.replyKey = some key) ∨
      ∃ host wrapped privateKey, e.address = .host host (some wrapped) ∧
        keys.isLocal host = true ∧ keys.privateKey host e.time = .ok privateKey ∧
        (cache.decryptKey privateKey wrapped).1 = .ok key := by
  unfold sessionKey
  cases haddress : e.address with
  | reply => simp
  | host host wrapped =>
    by_cases hlocal : keys.isLocal host = true
    · cases wrapped with
      | none => simp [hlocal]
      | some wrapped =>
        cases hkey : keys.privateKey host e.time with
        | error error => simp [hlocal, hkey]
        | ok privateKey =>
          cases hunwrap : (cache.decryptKey privateKey wrapped).1 with
          | error error => simp [hlocal, hkey, hunwrap]
          | ok found => simp [hlocal, hkey, hunwrap]
    · constructor
      · intro h
        simp [hlocal] at h
      · rintro (⟨h, -⟩ | ⟨host', wrapped', privateKey, h, hlocal', -⟩)
        · cases h
        · obtain ⟨rfl, -⟩ := Address.host.inj h
          exact absurd hlocal' hlocal

/-! ### Where the content comes from -/

/-- Opening succeeds if the key is found and the content opens with it. -/
theorem unwrap_eq_ok_iff {content : Bytes} {key : Option SymmetricKey} :
    (e.unwrap ctx keys cache).1 = .ok (content, key) ↔
      (e.sessionKey ctx keys cache).1 = .ok key ∧ e.openContent key = .ok content := by
  unfold unwrap
  obtain ⟨outcome, cache'⟩ := e.sessionKey ctx keys cache
  cases outcome with
  | error error => simp
  | ok found =>
    simp only [Except.map_eq_ok_iff, Prod.mk.injEq, Except.ok.injEq]
    constructor
    · rintro ⟨content', hopen, rfl, rfl⟩
      exact ⟨rfl, hopen⟩
    · rintro ⟨rfl, hopen⟩
      exact ⟨content, hopen, rfl, rfl⟩

theorem openContent_some_eq_ok_iff {content : Bytes} {key : SymmetricKey} :
    e.openContent (some key) = .ok content ↔
      e.Protects key content ∨ (e.isEncrypted = false ∧ content = e.content.bytes?.getD []) := by
  unfold openContent Protects isEncrypted
  cases hcontent : e.content with
  | absent => simp [CarriedContent.iv?, CarriedContent.bytes?, eq_comm]
  | plain carried => simp [CarriedContent.iv?, CarriedContent.bytes?, eq_comm]
  | encrypted iv ciphertext =>
    simp only [CarriedContent.iv?, Option.isSome_some, Bool.true_eq_false, false_and, or_false,
      Except.mapError_eq_ok_iff, CarriedContent.encrypted.injEq]
    constructor
    · intro hopen
      exact ⟨iv, ciphertext, ⟨rfl, rfl⟩, hopen⟩
    · rintro ⟨_, _, ⟨rfl, rfl⟩, hopen⟩
      exact hopen

/-! ### Both together -/

/-- **What opening yields together with a key.** The key is the session key of the layer; the
content is protected by it, or the layer is not encrypted and the content is whatever it carries
in the clear. -/
theorem unwrap_eq_ok_some_iff {content : Bytes} {key : SymmetricKey} :
    (e.unwrap ctx keys cache).1 = .ok (content, some key) ↔
      (e.sessionKey ctx keys cache).1 = .ok (some key) ∧
        (e.Protects key content ∨
          (e.isEncrypted = false ∧ content = e.content.bytes?.getD [])) := by
  rw [unwrap_eq_ok_iff, openContent_some_eq_ok_iff]

/-- The key that opening reports has protected the content exactly if the layer is encrypted. -/
theorem protects_iff_isEncrypted {content : Bytes} {key : SymmetricKey}
    (h : (e.unwrap ctx keys cache).1 = .ok (content, some key)) :
    e.Protects key content ↔ e.isEncrypted = true := by
  constructor
  · rintro ⟨iv, ciphertext, hcontent, -⟩
    rw [isEncrypted, hcontent]
    rfl
  · intro hencrypted
    rcases openContent_some_eq_ok_iff.mp (unwrap_eq_ok_iff.mp h).2 with hprotects | ⟨hclear, -⟩
    · exact hprotects
    · rw [hclear] at hencrypted
      cases hencrypted

/-! ### Content in the clear -/

/-- The key of a request whose reply is awaited. -/
def awaitedKey : SymmetricKey := ⟨List.replicate 31 0 ++ [7], rfl⟩

/-- A reply that carries two bytes in the clear. -/
def clearReply : Encryption := ⟨⟨5⟩, .reply, .plain [0x6f, 0x6b]⟩

/-- The key of the host that a request in the clear is addressed to. -/
def smallHostKey : PrivateKey :=
  ⟨KnowledgeProof.smallKey, 157, by decide, by decide, by decide +kernel⟩

/-- A request that carries the same two bytes in the clear beside a wrapped key. -/
def clearRequest : Encryption :=
  ⟨⟨5⟩, .host ⟨"h"⟩ (some [0x06, 0xa2]), .plain [0x6f, 0x6b]⟩

/-- A reply and a request that are read from bytes yield content that nobody encrypted, each
together with a key. -/
theorem clear_content_with_key :
    decode [0x82, 0x18, 0x30, 0x85, 0x05, 0xf6, 0xf6, 0xf6, 0x42, 0x6f, 0x6b] = .ok clearReply ∧
    (clearReply.unwrap (.reply awaitedKey) KeyRegistry.empty.chain (.ofCapacity 1)).1 =
      .ok ([0x6f, 0x6b], some awaitedKey) ∧
    ¬ clearReply.Protects awaitedKey [0x6f, 0x6b] ∧
    decode [0x82, 0x18, 0x30, 0x85, 0x05, 0x61, 0x68, 0x42, 0x06, 0xa2, 0xf6, 0x42, 0x6f, 0x6b] =
      .ok clearRequest ∧
    (clearRequest.unwrap .host (KeyRegistry.empty.hostLocally ⟨"h"⟩ ⟨0⟩ smallHostKey).chain
      (.ofCapacity 1)).1 = .ok ([0x6f, 0x6b], some awaitedKey) ∧
    ¬ clearRequest.Protects awaitedKey [0x6f, 0x6b] := by
  refine ⟨by decide +kernel, by decide +kernel, ?_, by decide +kernel, by decide +kernel, ?_⟩
  · rintro ⟨iv, ciphertext, hcontent, -⟩
    cases hcontent
  · rintro ⟨iv, ciphertext, hcontent, -⟩
    cases hcontent

end Encryption
end SealedEnvelope
