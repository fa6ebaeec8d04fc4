/-
# Envelopes arrive

An envelope that a sender seals is decoded by the receiver that it is meant
for, to the payload that was sealed and to who signed it. Each layer is read
back on its own; what is left is that the limits fit into each other: the frame
bounds the outermost layer, that bounds the signature, the signature bounds the
compressed payload, and the sender's own limit bounds the payload.

Key definition: `Codec.openCalls`.
Key theorems: `Codec.encode_eq_ok`, `Codec.openEnvelope_encode`,
`Codec.decode_of_encode`.
-/
import Mathlib
import SealedEnvelope.Codec
import SealedEnvelope.Proofs.Compression
import SealedEnvelope.Proofs.Encryption.Unsealing
import SealedEnvelope.Proofs.Signature.Acceptance
import SealedEnvelope.Proofs.Signature.ReadBack

namespace SealedEnvelope
namespace Codec

/-! ### What a codec asks of its key cache -/

/-- The calls that opening makes to the key cache. -/
def openCalls (c : Codec) (b : Bytes) : List KeyCache.Call :=
  match unframe b with
  | .ok e => e.cacheCalls c.keys
  | .error _ => []

theorem length_openCalls_le (c : Codec) (b : Bytes) : (c.openCalls b).length ≤ 1 := by
  unfold openCalls
  split
  · exact Encryption.length_cacheCalls_le _ _
  · exact Nat.zero_le 1

/-- Decoding consults the cache exactly by these calls, whatever comes of it. -/
theorem decode_cache (c : Codec) (b : Bytes) (ctx : DecryptionContext) (now : Timestamp)
    (cache : KeyCache) :
    (c.decode b ctx now cache).2 = (c.openCalls b).foldl KeyCache.Call.apply cache := by
  have hopen : (c.decode b ctx now cache).2 = (c.openContent b ctx cache).2 := rfl
  rw [hopen, openContent, openCalls]
  cases unframe b with
  | error error => rfl
  | ok e =>
    rw [← e.sessionKey_cache ctx]
    simp only [Encryption.unwrap]
    cases hsession : e.sessionKey ctx c.keys cache with
    | mk outcome cache' => cases outcome <;> rfl

/-- Encoding consults the cache once the payload is signed, exactly by the calls of its crypto
context. -/
theorem encode_cache (c : Codec) (payload : Payload) (auth : AuthContext) (crypto : CryptoContext)
    (now : Timestamp) (st : CodecState) :
    (c.encode payload auth crypto now st).2.cache =
      match (c.signPayload payload auth now st.stream).1 with
      | .ok _ => (crypto.cacheCalls c.keys now).foldl KeyCache.Call.apply st.cache
      | .error _ => st.cache := by
  unfold encode
  cases c.signPayload payload auth now st.stream with
  | mk outcome stream =>
    cases outcome with
    | error e => rfl
    | ok sig =>
      rw [← Encryption.addressFor_cache]
      simp only [Encryption.wrap]
      cases haddress : Encryption.addressFor crypto now c.keys st.cache with
      | mk outcome cache => cases outcome <;> rfl

/-! ### Encoding -/

theorem signPayload_eq_ok {c : Codec} {payload : Payload} {auth : AuthContext} {now : Timestamp}
    {s s' : ByteStream} {sig : Signature}
    (h : c.signPayload payload auth now s = (.ok sig, s')) :
    ∃ content, c.pack payload = .ok content ∧
      Signature.sign content auth now c.proofParams s = (.ok sig, s') := by
  unfold signPayload at h
  cases hpack : c.pack payload with
  | error e => simp [hpack] at h
  | ok content => exact ⟨content, rfl, by simpa only [hpack] using h⟩

/-- What happens when an envelope is sealed: the payload is packed, the packed payload signed,
the signature sealed and the layer framed. -/
theorem encode_eq_ok {c : Codec} {payload : Payload} {auth : AuthContext} {crypto : CryptoContext}
    {now : Timestamp} {st st' : CodecState} {b : Bytes}
    (h : c.encode payload auth crypto now st = (.ok b, st')) :
    ∃ content sig stream e,
      c.pack payload = .ok content ∧
      Signature.sign content auth now c.proofParams st.stream = (.ok sig, stream) ∧
      Encryption.wrap sig.encode crypto now c.keys st.cache stream =
        (.ok e, st'.cache, st'.stream) ∧
      Frame.encode e.encode = .ok b := by
  unfold encode at h
  cases hsigned : c.signPayload payload auth now st.stream with
  | mk outcome stream =>
    cases outcome with
    | error e => simp [hsigned] at h
    | ok sig =>
      obtain ⟨content, hcontent, hsign⟩ := signPayload_eq_ok hsigned
      rw [hsigned] at h
      simp only [Prod.mk.injEq] at h
      obtain ⟨hframe, rfl⟩ := h
      obtain ⟨e, he, hframe⟩ := Except.bind_eq_ok_iff.mp hframe
      exact ⟨content, sig, stream, e, hcontent, hsign, Prod.ext he rfl,
        Except.mapError_eq_ok_iff.mp hframe⟩

/-! ### Decoding -/

theorem unframe_encode {e : Encryption} {b : Bytes} (h : Frame.encode e.encode = .ok b) :
    e.encode.length ≤ maxPayloadSize ∧ unframe b = .ok e := by
  have hsize : e.encode.length ≤ maxPayloadSize := by
    by_contra hbig
    simp [Frame.encode, not_le.mp hbig] at h
  refine ⟨hsize, ?_⟩
  rw [unframe, Frame.decode_eq_ok_iff.mpr h, Except.ok_mapError, Except.ok_bind,
    Encryption.decode_encode hsize]

/-- An envelope whose outermost layer is opened to a signature within the size limit is opened. -/
theorem openEnvelope_of_unwrap {receiver : Codec} {b : Bytes} {ctx : DecryptionContext}
    {cache : KeyCache} {e : Encryption} {sig : Signature} {key : Option SymmetricKey}
    (hunframe : unframe b = .ok e)
    (hunwrap : (e.unwrap ctx receiver.keys cache).1 = .ok (sig.encode, key))
    (hshort : sig.encode.length ≤ maxPayloadSize) :
    receiver.openEnvelope b ctx cache =
      (.ok ⟨e.time, e.recipient?, key, sig⟩, (e.unwrap ctx receiver.keys cache).2) := by
  have hopened : receiver.openContent b ctx cache =
      (.ok (e, sig.encode, key), (e.unwrap ctx receiver.keys cache).2) := by
    unfold openContent
    rw [hunframe]
    simp only [hunwrap, Except.ok_map]
  unfold openEnvelope
  rw [hopened]
  simp only [Except.bind, Signature.decode_encode hshort, Except.ok_map]

/-- What an envelope carries is opened to the signature in it, and to the key of the envelope or
else the receiver's own. -/
theorem openEnvelope_encode {receiver : Codec} {sig : Signature} {crypto : CryptoContext}
    {ctx : DecryptionContext} {sender : KeyChain} {time : Timestamp} {n m : Nat}
    {sent received : List KeyCache.Call} {cache' : KeyCache} {s s' : ByteStream} {e : Encryption}
    {b : Bytes} (hreach : crypto.Reaches time sender receiver.keys ctx)
    (hwrap : Encryption.wrap sig.encode crypto time sender (KeyCache.ofCalls n sent) s =
      (.ok e, cache', s'))
    (hframe : Frame.encode e.encode = .ok b)
    (hsent : KeyCache.Distinct (sent ++ crypto.cacheCalls sender time))
    (hreceived : KeyCache.Distinct (received ++ receiver.openCalls b))
    (hrsa : ∀ key w, .unwrap key w ∈ received → key.IsRsa) :
    (receiver.openEnvelope b ctx (KeyCache.ofCalls m received)).1 =
      .ok ⟨e.time, e.recipient?, crypto.sessionKey ctx, sig⟩ := by
  obtain ⟨hsize, hunframe⟩ := unframe_encode hframe
  have hcalls : receiver.openCalls b = e.cacheCalls receiver.keys := by rw [openCalls, hunframe]
  rw [hcalls] at hreceived
  have hunwrap := Encryption.unwrap_wrap (m := m) hreach hwrap hsent hreceived hrsa
  have hshort : sig.encode.length ≤ maxPayloadSize :=
    le_trans (Encryption.length_le_of_wrap hwrap) hsize
  exact congrArg Prod.fst (openEnvelope_of_unwrap hunframe hunwrap hshort)

/-- **Envelopes arrive.** What a sender seals at `time` is decoded by a receiver that it reaches
and that knows the signer, at any time at which the signature is fresh, whatever both key caches
hold and however payloads are compressed without loss: to the payload that was sealed, to
everything that was signed and who signed it, and to the key to reply under. -/
theorem decode_of_encode {sender receiver : Codec} {payload : Payload} {auth : AuthContext}
    {crypto : CryptoContext} {ctx : DecryptionContext} {time now : Timestamp} {n m : Nat}
    {sent received : List KeyCache.Call} {stream : ByteStream} {st' : CodecState} {b : Bytes}
    (hzip : sender.compressor.Lossless receiver.decompressor)
    (hlimit : sender.maxPayload ≤ maxPayloadSize)
    (hlimits : sender.maxPayload ≤ receiver.maxPayload)
    (hbounds : sender.proofParams.bound ≤ receiver.proofParams.bound)
    (hfresh : (receiver.verifyContext now).Fresh time)
    (hreach : crypto.Reaches time sender.keys receiver.keys ctx)
    (hknown : ∀ content, sender.pack payload = .ok content →
      auth.method.KnownTo (receiver.verifyContext now) time (auth.statement content time).digest)
    (hsent : KeyCache.Distinct (sent ++ crypto.cacheCalls sender.keys time))
    (hreceived : KeyCache.Distinct (received ++ receiver.openCalls b))
    (hrsa : ∀ key w, .unwrap key w ∈ received → key.IsRsa)
    (hencode : sender.encode payload auth crypto time ⟨KeyCache.ofCalls n sent, stream⟩ =
      (.ok b, st')) :
    ∃ v : VerifiedSignature,
      (receiver.decode b ctx now (KeyCache.ofCalls m received)).1 =
        .ok ⟨payload, v, crypto.sessionKey ctx⟩ ∧
      v.subject = auth.subject ∧ v.variant = auth.variant ∧ v.audit = auth.audit ∧
      sender.pack payload = .ok v.content ∧
      v.agent = auth.method.agent ∧ v.time = time := by
  obtain ⟨content, sig, stream', e, hcontent, hsign, hwrap, hframe⟩ := encode_eq_ok hencode
  have hopen := openEnvelope_encode (m := m) hreach hwrap hframe hsent hreceived hrsa
  obtain ⟨v, hverify, hsubject, hvariant, haudit, hsame, hagent, htime⟩ :=
    Signature.verify_sign hsign hfresh hbounds (hknown content hcontent)
  have hshort : content.length ≤ maxPayloadSize := by
    obtain ⟨_, -, hsig, -⟩ := Signature.sign_eq_ok hsign
    have hlength := sig.length_content_le
    rw [congrArg Signature.content hsig] at hlength
    exact le_trans hlength
      (le_trans (Encryption.length_le_of_wrap hwrap) (unframe_encode hframe).1)
  have hunpack : receiver.unpack v = .ok payload := by
    rw [unpack, hsame]
    exact Compression.unwrap_wrap hzip hcontent hlimit hlimits hshort
  refine ⟨v, ?_, hsubject, hvariant, haudit, hsame ▸ hcontent, hagent, htime⟩
  show ((receiver.openEnvelope b ctx (KeyCache.ofCalls m received)).1.bind fun o =>
    receiver.decodeOpened o now) = _
  rw [hopen]
  show receiver.decodeOpened _ now = _
  rw [decodeOpened, verify, hverify, Except.ok_bind, hunpack, Except.ok_bind]
  rfl

/-! ### A host that writes to itself -/

/-- A key whose modulus is the product of two Mersenne primes. -/
def mersenneKey : PrivateKey where
  publicKey :=
    ⟨mersenne 127 * mersenne 521, 65537, 4, by decide +kernel, by decide +kernel, by decide,
      by decide, by decide +kernel⟩
  exponent := (10880 * ((mersenne 127 - 1) * (mersenne 521 - 1)) + 1) / 65537
  exponent_pos := by decide +kernel
  exponent_lt := by decide +kernel
  inverts_generator := by decide +kernel

theorem isRsa_mersenneKey : mersenneKey.IsRsa := by
  refine ⟨mersenne 127, mersenne 521, ?_, ?_, by decide +kernel, rfl, by decide +kernel⟩
  · exact lucas_lehmer_sufficiency 127 (by norm_num) (by norm_num)
  · exact lucas_lehmer_sufficiency 521 (by norm_num) (by norm_num)

/-- The host of the key. -/
def soleHost : HostId := ⟨"h"⟩

/-- The codec of the host, with the usual configuration. -/
def soleCodec : Codec where
  config := {}
  proofParams := .standard
  keys := (KeyRegistry.empty.hostLocally soleHost ⟨0⟩ mersenneKey).chain
  credentials := .rejectAll
  compressor := .storing
  decompressor := .strict

/-- The key of a request. -/
def soleRequest : SymmetricKey := ⟨List.replicate 32 7, rfl⟩

/-- The host decodes a request to itself that it signed and whose wrapped key was in its cache. -/
theorem decode_own_request :
    ∃ b st' v,
      soleCodec.encode ⟨1, [1, 2, 3]⟩ ⟨.host soleHost mersenneKey, none⟩
          (.request soleHost soleRequest) ⟨100⟩
          ⟨KeyCache.ofCalls 8 [.wrap mersenneKey.publicKey soleRequest], .ofFunction fun _ => 9⟩ =
        (.ok b, st') ∧
      (soleCodec.decode b .host ⟨160⟩ (KeyCache.ofCalls 8 [])).1 =
        .ok ⟨⟨1, [1, 2, 3]⟩, v, some soleRequest⟩ ∧ v.agent = .host soleHost := by
  obtain ⟨b, st', hencode⟩ : ∃ b st', soleCodec.encode ⟨1, [1, 2, 3]⟩
      ⟨.host soleHost mersenneKey, none⟩ (.request soleHost soleRequest) ⟨100⟩
      ⟨KeyCache.ofCalls 8 [.wrap mersenneKey.publicKey soleRequest], .ofFunction fun _ => 9⟩ =
        (.ok b, st') := Except.exists_eq_of_isOk (by decide +kernel)
  have hreach : (CryptoContext.request soleHost soleRequest).Reaches ⟨100⟩ soleCodec.keys
      soleCodec.keys .host := ⟨rfl, rfl, mersenneKey, isRsa_mersenneKey, rfl, rfl⟩
  have hsent : KeyCache.Distinct ([.wrap mersenneKey.publicKey soleRequest] ++
      (CryptoContext.request soleHost soleRequest).cacheCalls soleCodec.keys ⟨100⟩) := by
    refine KeyCache.Distinct.of_forall_eq (.wrap mersenneKey.publicKey soleRequest) fun c hc => ?_
    have htwo : c ∈ [KeyCache.Call.wrap mersenneKey.publicKey soleRequest,
        .wrap mersenneKey.publicKey soleRequest] := hc
    simpa using htwo
  have hreceived : KeyCache.Distinct ([] ++ soleCodec.openCalls b) :=
    KeyCache.Distinct.of_length_le_one (length_openCalls_le soleCodec b)
  have hfresh : (soleCodec.verifyContext ⟨160⟩).Fresh ⟨100⟩ := by decide
  have hknown : ∀ digest, (AuthMethod.host soleHost mersenneKey).KnownTo
      (soleCodec.verifyContext ⟨160⟩) ⟨100⟩ digest := fun _ => ⟨isRsa_mersenneKey, rfl⟩
  obtain ⟨v, hdecode, -, -, -, -, hagent, -⟩ := decode_of_encode (m := 8)
    Compressor.lossless_storing (by decide) (by decide) (by decide) hfresh hreach
    (fun _ _ => hknown _) hsent hreceived (fun _ _ hc => absurd hc (List.not_mem_nil)) hencode
  exact ⟨b, st', v, hencode, hdecode, hagent⟩

end Codec
end SealedEnvelope
