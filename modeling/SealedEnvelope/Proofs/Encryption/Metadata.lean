/-
# Time and recipient are authenticated

Time and recipient travel in the clear beside a ciphertext. They are its
associated data, as a tuple that tells where each of them ends, whatever the
recipient is called and however long that is, and that knows an absent
recipient from any name. So whoever changes them changes the associated data,
and a receiver of the changed layer decrypts with the changed data or not at
all. What is left is the case that the cipher itself takes the ciphertext with
associated data that it was not made with: a forgery.

Key definition: `Encryption.Forged`.
Key theorems: `Encryption.associatedData_injective`,
`Encryption.isError_or_forged_of_ne`, `Encryption.unwrap_of_other_metadata`.
-/
import Mathlib
import SealedEnvelope.Proofs.Cbor.Extent
import SealedEnvelope.Proofs.Encryption.Protection
import SealedEnvelope.Proofs.Encryption.RoundTrip
import SealedEnvelope.Proofs.Timestamp

namespace SealedEnvelope

/-! ### Names at the end of a string -/

namespace Cbor

theorem headLength_add_lt {m n : Nat} (h : m < n) : headLength m + m < headLength n + n :=
  Nat.add_lt_add_of_le_of_lt (headLength_mono h.le) h

theorem exists_headBytes_eq_cons (major n : Nat) :
    ∃ info < 28, ∃ rest, headBytes major n = UInt8.ofNat (major * 32 + info) :: rest := by
  unfold headBytes
  split_ifs with h
  · exact ⟨n, by omega, _, rfl⟩
  · exact ⟨24, by norm_num, _, rfl⟩
  · exact ⟨25, by norm_num, _, rfl⟩
  · exact ⟨26, by norm_num, _, rfl⟩
  · exact ⟨27, by norm_num, _, rfl⟩

namespace Value

/-- A text that nothing follows is determined by its bytes, of whatever length it is. -/
theorem encode_text_injective : Function.Injective fun s => (text s).encode := by
  intro s t h
  simp only [encode] at h
  have hsum := congrArg List.length h
  rw [List.length_append, List.length_append, length_headBytes, length_headBytes] at hsum
  have hlength : (Bytes.ofText s).length = (Bytes.ofText t).length := by
    rcases Nat.lt_trichotomy (Bytes.ofText s).length (Bytes.ofText t).length with hlt | heq | hgt
    · have := headLength_add_lt hlt
      omega
    · exact heq
    · have := headLength_add_lt hgt
      omega
  rw [hlength] at h
  exact Bytes.ofText_injective (List.append_cancel_left h)

theorem encode_text_ne_null (s : String) : (text s).encode ≠ null.encode := by
  obtain ⟨info, hinfo, rest, hhead⟩ := exists_headBytes_eq_cons 3 (Bytes.ofText s).length
  intro h
  rw [encode, encode, hhead, List.cons_append, List.cons.injEq] at h
  have hfirst := congrArg UInt8.toNat h.1
  rw [UInt8.toNat_ofNat', show (0xf6 : UInt8).toNat = 246 from rfl] at hfirst
  omega

theorem encode_optional_text_injective {α : Type} {name : α → String}
    (hname : Function.Injective name) :
    Function.Injective fun o => (optional (fun a => text (name a)) o).encode := by
  intro o o' h
  cases o with
  | none =>
    cases o' with
    | none => rfl
    | some a => exact absurd h.symm (encode_text_ne_null (name a))
  | some a =>
    cases o' with
    | none => exact absurd h (encode_text_ne_null (name a))
    | some a' => exact congrArg some (hname (encode_text_injective h))

end Value
end Cbor

open Cbor (Value)

namespace Encryption

/-! ### Associated data -/

theorem associatedData_eq (time : Timestamp) (recipient : Option HostId) :
    associatedData time recipient =
      (Cbor.headBytes 4 2 ++ Cbor.headBytes 0 LayerTag.encryption.code ++ Cbor.headBytes 4 2) ++
        ((Value.int time.seconds.toNat).encode ++
          (Value.optional (fun h : HostId => .text h.name) recipient).encode) := by
  have harray (v w : Value) :
      (Value.array [v, w]).encode = Cbor.headBytes 4 2 ++ (v.encode ++ w.encode) := by
    simp only [Value.encode, Value.encodeList, List.append_nil, List.length_cons, List.length_nil]
  rw [associatedData, Tagged.encode_eq, harray]
  simp only [List.append_assoc]

/-- Time and recipient are determined by the associated data. -/
theorem associatedData_injective : Function.Injective2 associatedData := by
  intro t t' r r' h
  rw [associatedData_eq, associatedData_eq] at h
  have hfields := List.append_cancel_left h
  have hword (t : Timestamp) : (Value.int t.seconds.toNat).longest < 2 ^ 64 := Nat.two_pow_pos 64
  obtain ⟨htime, hrecipient⟩ := Value.encode_append_inj (Value.plain_word _) (Value.plain_word _)
    (hword t) (hword t') hfields
  have hnames : Function.Injective HostId.name := by
    rintro ⟨name⟩ ⟨name'⟩ rfl
    rfl
  refine ⟨?_, Value.encode_optional_text_injective hnames hrecipient⟩
  have hseconds : t.seconds.toNat = t'.seconds.toNat := Int.ofNat.inj (Value.int.inj htime)
  exact Timestamp.toNat_inj.mp hseconds

/-! ### Changed layers -/

/-- The cipher takes a ciphertext that was made with the associated data `aad` under some key with
other associated data. -/
structure Forged (iv : Iv) (ciphertext aad : Bytes) (key : SymmetricKey) (other : Bytes) :
    Prop where
  ne : other ≠ aad
  accepted : ∃ content, Cipher.decrypt ciphertext other key iv = .ok content

/-- A layer with a ciphertext is refused, or the session key decrypts the ciphertext with the time
and the recipient of that very layer. -/
theorem isError_or_decrypts {e : Encryption} {iv : Iv} {ciphertext : Bytes}
    (hcontent : e.content = .encrypted iv ciphertext) (ctx : DecryptionContext) (keys : KeyChain)
    (cache : KeyCache) :
    (∃ error, (e.unwrap ctx keys cache).1 = .error error) ∨
      ∃ key content, (e.sessionKey ctx keys cache).1 = .ok (some key) ∧
        Cipher.decrypt ciphertext (associatedData e.time e.recipient?) key iv = .ok content := by
  cases hunwrap : (e.unwrap ctx keys cache).1 with
  | error error => exact Or.inl ⟨error, rfl⟩
  | ok opened =>
    right
    obtain ⟨content, key⟩ := opened
    obtain ⟨hkey, hopen⟩ := unwrap_eq_ok_iff.mp hunwrap
    cases key with
    | none =>
      unfold openContent at hopen
      rw [hcontent] at hopen
      cases hopen
    | some key =>
      rcases openContent_some_eq_ok_iff.mp hopen with
        ⟨iv', ciphertext', hsame, hdecrypt⟩ | ⟨hclear, -⟩
      · rw [hcontent] at hsame
        obtain ⟨rfl, rfl⟩ := CarriedContent.encrypted.inj hsame
        exact ⟨key, content, hkey, hdecrypt⟩
      · rw [isEncrypted, hcontent] at hclear
        cases hclear

/-- A ciphertext under another time or recipient than it was made with is refused or a forgery. -/
theorem isError_or_forged_of_ne {e : Encryption} {iv : Iv} {ciphertext : Bytes} {time : Timestamp}
    {recipient : Option HostId} (hcontent : e.content = .encrypted iv ciphertext)
    (hne : (e.time, e.recipient?) ≠ (time, recipient)) (ctx : DecryptionContext) (keys : KeyChain)
    (cache : KeyCache) :
    (∃ error, (e.unwrap ctx keys cache).1 = .error error) ∨
      ∃ key, (e.sessionKey ctx keys cache).1 = .ok (some key) ∧
        Forged iv ciphertext (associatedData time recipient) key
          (associatedData e.time e.recipient?) := by
  have hother : associatedData e.time e.recipient? ≠ associatedData time recipient := by
    intro h
    obtain ⟨htime, hrecipient⟩ := associatedData_injective h
    exact hne (Prod.ext htime hrecipient)
  rcases isError_or_decrypts hcontent ctx keys cache with hrefused | ⟨key, content, hkey, hdecrypt⟩
  · exact Or.inl hrefused
  · exact Or.inr ⟨key, hkey, hother, content, hdecrypt⟩

/-- **Time and recipient are authenticated.** A layer that was sealed with a key around content
carries what the key makes of the content and of its time and recipient as associated data, and no
two pairs of time and recipient have the same. A layer with that vector and ciphertext under any
other time or recipient, or under none, and with any wrapped key, is refused in every context, with
every key chain and cache; unless the very session key that is found there makes the cipher take
the ciphertext with associated data that it was not made with. -/
theorem unwrap_of_other_metadata {content : Bytes} {crypto : CryptoContext} {sym : SymmetricKey}
    {time : Timestamp} {sender : KeyChain} {cache cache' : KeyCache} {s s' : ByteStream}
    {e : Encryption} (hcontent : content ≠ []) (hkey : crypto.key? = some sym)
    (hwrap : wrap content crypto time sender cache s = (.ok e, cache', s')) :
    Function.Injective2 associatedData ∧
    ∃ iv ciphertext, e.content = .encrypted iv ciphertext ∧
      ciphertext = Cipher.encrypt content (associatedData e.time e.recipient?) sym iv ∧
      ∀ e' : Encryption, e'.content = .encrypted iv ciphertext →
        (e'.time, e'.recipient?) ≠ (e.time, e.recipient?) →
        ∀ (ctx : DecryptionContext) (receiver : KeyChain) (opened : KeyCache),
          (∃ error, (e'.unwrap ctx receiver opened).1 = .error error) ∨
          ∃ key, (e'.sessionKey ctx receiver opened).1 = .ok (some key) ∧
            Forged iv ciphertext (associatedData e.time e.recipient?) key
              (associatedData e'.time e'.recipient?) := by
  obtain ⟨iv, hiv⟩ := exists_ciphertext_of_wrap hcontent hkey hwrap
  refine ⟨associatedData_injective, iv, _, hiv, rfl, ?_⟩
  intro e' hsame hne ctx receiver opened
  exact isError_or_forged_of_ne hsame hne ctx receiver opened

/-- A reply with three bytes under the key eight. -/
def eightReply : Except EnvelopeError Encryption × KeyCache × ByteStream :=
  wrap [1, 2, 3] (.reply KeyCache.eightKey) ⟨5⟩ twelveBitChain (.ofCapacity 1)
    (.ofFunction fun _ => 9)

/-- The layer, redirected to the host of the chain with the key eight wrapped for it. -/
def redirected (e : Encryption) : Encryption :=
  ⟨e.time, .host ⟨"h"⟩ (some [0x00, 0x9c]), e.content⟩

/-- Whoever has the key of the reply opens it. The host that it is redirected to finds that very
key, and refuses the reply. -/
theorem unwrap_redirected_reply :
    ∃ e cache' s', eightReply = (.ok e, cache', s') ∧
      (e.unwrap (.reply KeyCache.eightKey) twelveBitChain (.ofCapacity 1)).1 =
        .ok ([1, 2, 3], some KeyCache.eightKey) ∧
      ((redirected e).sessionKey .host twelveBitChain (.ofCapacity 1)).1 =
        .ok (some KeyCache.eightKey) ∧
      ∃ error, ((redirected e).unwrap .host twelveBitChain (.ofCapacity 1)).1 = .error error := by
  have hsealed : ∃ e rest, eightReply = (.ok e, rest) :=
    Except.exists_eq_of_isOk (by decide +kernel)
  have hopened : eightReply.1.map (fun e =>
      (e.unwrap (.reply KeyCache.eightKey) twelveBitChain (.ofCapacity 1)).1) =
        .ok (.ok ([1, 2, 3], some KeyCache.eightKey)) := by decide +kernel
  have hrefused : eightReply.1.map (fun e =>
      ((redirected e).openContent (some KeyCache.eightKey)).isOk) = .ok false := by decide +kernel
  obtain ⟨e, rest, hwrap⟩ := hsealed
  rw [hwrap] at hopened hrefused
  have hsession : ((redirected e).sessionKey .host twelveBitChain (.ofCapacity 1)).1 =
      .ok (some KeyCache.eightKey) := by
    have hunwrap : ((KeyCache.ofCapacity 1).decryptKey KeyCache.twelveBitKey [0x00, 0x9c]).1 =
        .ok KeyCache.eightKey := by decide +kernel
    obtain ⟨-, htime, -⟩ := wrap_eq_ok hwrap
    have hprivate : twelveBitChain.privateKey ⟨"h"⟩ (redirected e).time =
        .ok KeyCache.twelveBitKey := by
      rw [redirected, htime]
      rfl
    rw [sessionKey_host rfl rfl hprivate, hunwrap]
    rfl
  refine ⟨e, rest.1, rest.2, hwrap, Except.ok.inj hopened, hsession, ?_⟩
  obtain ⟨-, iv, ciphertext, hcontent, -, hchanged⟩ :=
    unwrap_of_other_metadata (by decide) rfl hwrap
  have hne : ((redirected e).time, (redirected e).recipient?) ≠ (e.time, e.recipient?) := by
    obtain ⟨haddress, -, -⟩ := wrap_eq_ok hwrap
    rw [recipient?, recipient?, ← Except.ok.inj haddress]
    intro h
    cases (Prod.mk.inj h).2
  rcases hchanged (redirected e) hcontent hne .host twelveBitChain (.ofCapacity 1) with
    herror | ⟨key, hkey, -, content, haccepted⟩
  · exact herror
  · rw [hsession] at hkey
    obtain rfl := Option.some.inj (Except.ok.inj hkey)
    have hopen : (redirected e).openContent (some KeyCache.eightKey) = .ok content := by
      have hsame : (redirected e).content = .encrypted iv ciphertext := hcontent
      unfold openContent
      rw [hsame]
      exact Except.mapError_eq_ok_iff.mpr haccepted
    rw [Except.ok_map, hopen] at hrefused
    cases hrefused

end Encryption
end SealedEnvelope
