/-
# Error replies arrive

An error that arose behind the outermost layer is answered, and the answer is
an envelope like any other: the code and the wording of the error are a tuple in
the body of a payload, which is packed, signed and sealed for nobody in
particular, under the key of the request if there was one. Opening it asks
neither a key chain nor a cache for the session key. So whoever has that key and
knows the host reads the error as it was raised.

Key definitions: `Codec.IsValid`, `Codec.IsPeer`.
Key theorems: `EnvelopeError.reply?_eq_none_iff`,
`ErrorReply.ofPayload?_toPayload`, `Codec.decode_encode_reply`,
`Codec.decode_replyWithError`.
-/
import Mathlib
import SealedEnvelope.Proofs.Compression.Bounds
import SealedEnvelope.Proofs.Encryption.RoundTrip
import SealedEnvelope.Proofs.Envelope.Failure
import SealedEnvelope.Proofs.Envelope.RoundTrip

namespace SealedEnvelope

/-! ### Errors as payloads -/

namespace EnvelopeError

theorem reply?_eq_none_iff {e : EnvelopeError} : e.reply? = none ↔ e.IsOuter := by
  constructor
  · intro h
    cases e with
    | encoding layer reason =>
      cases layer with
      | encryption => exact .inl ⟨reason, rfl⟩
      | signature => cases h
      | compression => cases h
      | payload => cases h
    | signature reason => cases h
    | encryption reason => exact .inr ⟨reason, rfl⟩
    | keyRotation host committedAt => cases h
  · exact IsOuter.reply?_eq_none

theorem reply_eq_of_reply? {e : EnvelopeError} {r : ErrorReply} (h : e.reply? = some r) :
    r = ErrorReply.ofKind e.kind e.message := by
  unfold reply? at h
  by_cases hanswer : e.isAnswerable = true
  · rw [if_pos hanswer] at h
    exact (Option.some.inj h).symm
  · rw [if_neg hanswer] at h
    cases h

end EnvelopeError

theorem ErrorReply.ofPayload?_toPayload {r : ErrorReply}
    (h : r.toPayload.encode.length ≤ maxPayloadSize) : ofPayload? r.toPayload = some (.ok r) := by
  have hbody : r.encode.length < r.toPayload.encode.length := r.toPayload.length_body_lt
  have hdecode : decode r.toPayload.body = .ok r := decode_encode (by omega)
  have htag : r.toPayload.tag = Payload.errorReplyTag := rfl
  unfold ofPayload?
  rw [if_pos htag, hdecode]

/-! ### Envelopes for nobody in particular -/

namespace Codec

/-- A codec as it is made for a configuration. -/
def IsValid (c : Codec) : Prop :=
  ∃ cache, new c.config c.keys c.credentials c.compressor c.decompressor = .ok (c, cache)

/-- The receiver shares the sender's configuration, under which no payload is above the size limit
of tuples, and finds the public half of the host's key at the time `now`. -/
structure IsPeer (sender receiver : Codec) (host : HostId) (key : PrivateKey) (now : Timestamp) :
    Prop where
  sender_isValid : sender.IsValid
  receiver_isValid : receiver.IsValid
  config_eq : receiver.config = sender.config
  maxPayload_le : sender.maxPayload ≤ maxPayloadSize
  isRsa : key.IsRsa
  publicKey_eq : receiver.keys.publicKey host now = .ok key.publicKey

theorem IsValid.proofParams_eq {c : Codec} (h : c.IsValid) :
    c.config.proofParams = .ok c.proofParams := by
  obtain ⟨cache, h⟩ := h
  obtain ⟨-, -, h⟩ := Except.bind_eq_ok_iff.mp h
  obtain ⟨params, hparams, h⟩ := Except.bind_eq_ok_iff.mp h
  obtain ⟨capacity, -, h⟩ := Except.bind_eq_ok_iff.mp h
  obtain ⟨hcodec, -⟩ := Prod.mk.inj (Except.ok.inj h)
  rw [hparams, ← hcodec]

theorem IsPeer.proofParams_eq {sender receiver : Codec} {host : HostId} {key : PrivateKey}
    {now : Timestamp} (h : sender.IsPeer receiver host key now) :
    sender.proofParams = receiver.proofParams := by
  have hsender := h.sender_isValid.proofParams_eq
  have hreceiver := h.receiver_isValid.proofParams_eq
  rw [h.config_eq, hsender] at hreceiver
  exact Except.ok.inj hreceiver

theorem fresh_verifyContext (c : Codec) (now : Timestamp) : (c.verifyContext now).Fresh now :=
  ⟨Nat.le_add_right _ _, Nat.le_add_right _ _⟩

variable {sender receiver : Codec} {payload : Payload} {auth : AuthContext}
  {crypto : CryptoContext} {ctx : DecryptionContext} {now : Timestamp} {st st' : CodecState}
  {b : Bytes} {cache : KeyCache}

/-- What is sealed for nobody in particular is opened with the key it was sealed with, whatever
the receiver's key chain and cache are. -/
theorem openEnvelope_encode_reply {sig : Signature} {keys : KeyChain} {cache' : KeyCache}
    {s s' : ByteStream} {sent : KeyCache} {e : Encryption} (hto : crypto.recipient? = none)
    (hkey : ∀ sym, crypto.key? = some sym → ctx.replyKey = some sym)
    (hwrap : Encryption.wrap sig.encode crypto now keys sent s = (.ok e, cache', s'))
    (hframe : Frame.encode e.encode = .ok b) :
    receiver.openEnvelope b ctx cache =
      (.ok ⟨e.time, e.recipient?, ctx.replyKey, sig⟩, cache) := by
  obtain ⟨hsize, hunframe⟩ := unframe_encode hframe
  have hunwrap : e.unwrap ctx receiver.keys cache = (.ok (sig.encode, ctx.replyKey), cache) :=
    Encryption.unwrap_wrap_reply hto hkey hwrap
  have hshort : sig.encode.length ≤ maxPayloadSize :=
    le_trans (Encryption.length_le_of_wrap hwrap) hsize
  rw [openEnvelope_of_unwrap hunframe (congrArg Prod.fst hunwrap) hshort, hunwrap]

/-- What was packed and signed within the limits is verified and unpacked at the time of signing. -/
theorem decodeOpened_sign {content : Bytes} {sig : Signature} {s s' : ByteStream}
    {time : Timestamp} {recipient : Option HostId} {sessionKey : Option SymmetricKey}
    (hzip : sender.compressor.Lossless receiver.decompressor)
    (hlimit : sender.maxPayload ≤ maxPayloadSize)
    (hlimits : sender.maxPayload ≤ receiver.maxPayload)
    (hbounds : sender.proofParams.bound ≤ receiver.proofParams.bound)
    (hknown : auth.method.KnownTo (receiver.verifyContext now) now
      (auth.statement content now).digest)
    (hpack : sender.pack payload = .ok content)
    (hsign : Signature.sign content auth now sender.proofParams s = (.ok sig, s'))
    (hshort : sig.encode.length ≤ maxPayloadSize) :
    ∃ v : VerifiedSignature, v.agent = auth.method.agent ∧
      receiver.decodeOpened ⟨time, recipient, sessionKey, sig⟩ now =
        .ok ⟨payload, v, sessionKey⟩ := by
  obtain ⟨v, hverify, -, -, -, hcontent, hagent, -⟩ :=
    Signature.verify_sign hsign (receiver.fresh_verifyContext now) hbounds hknown
  have hlength : content.length ≤ maxPayloadSize := by
    obtain ⟨_, -, hsig, -⟩ := Signature.sign_eq_ok hsign
    have hsame : sig.content = content := congrArg Signature.content hsig
    rw [← hsame]
    exact le_trans sig.length_content_le hshort
  have hunpack : receiver.unpack v = .ok payload := by
    rw [unpack, hcontent]
    exact Compression.unwrap_wrap hzip hpack hlimit hlimits hlength
  refine ⟨v, hagent, ?_⟩
  rw [decodeOpened, verify, hverify, Except.ok_bind, hunpack, Except.ok_bind]
  rfl

/-- What a host seals for nobody in particular reaches every peer that has the key, if there is
one. -/
theorem decode_encode_reply {host : HostId} {key : PrivateKey} {audit : Option Bytes}
    (hpeer : sender.IsPeer receiver host key now)
    (hzip : sender.compressor.Lossless receiver.decompressor)
    (hto : crypto.recipient? = none)
    (hkey : ∀ sym, crypto.key? = some sym → ctx.replyKey = some sym)
    (hencode : sender.encode payload ⟨.host host key, audit⟩ crypto now st = (.ok b, st')) :
    ∃ v : VerifiedSignature, v.agent = .host host ∧
      receiver.decode b ctx now cache = (.ok ⟨payload, v, ctx.replyKey⟩, cache) := by
  obtain ⟨content, sig, stream, e, hpack, hsign, hwrap, hframe⟩ := encode_eq_ok hencode
  have hopen : receiver.openEnvelope b ctx cache =
      (.ok ⟨e.time, e.recipient?, ctx.replyKey, sig⟩, cache) :=
    openEnvelope_encode_reply hto hkey hwrap hframe
  have hshort : sig.encode.length ≤ maxPayloadSize :=
    le_trans (Encryption.length_le_of_wrap hwrap) (unframe_encode hframe).1
  have hlimits : sender.maxPayload ≤ receiver.maxPayload := by
    rw [maxPayload, maxPayload, hpeer.config_eq]
  have hbounds : sender.proofParams.bound ≤ receiver.proofParams.bound := by
    rw [hpeer.proofParams_eq]
  have hknown : (AuthMethod.host host key).KnownTo (receiver.verifyContext now) now
      (AuthContext.statement ⟨.host host key, audit⟩ content now).digest :=
    ⟨hpeer.isRsa, hpeer.publicKey_eq⟩
  have hopened : ∃ v : VerifiedSignature, v.agent = .host host ∧
      receiver.decodeOpened ⟨e.time, e.recipient?, ctx.replyKey, sig⟩ now =
        .ok ⟨payload, v, ctx.replyKey⟩ :=
    decodeOpened_sign hzip hpeer.maxPayload_le hlimits hbounds hknown hpack hsign hshort
  obtain ⟨v, hagent, hdecode⟩ := hopened
  refine ⟨v, hagent, ?_⟩
  unfold decode
  rw [hopen]
  exact Prod.ext hdecode rfl

/-! ### Replies -/

/-- The crypto context of a reply names no recipient, and has the key that it was asked to have. -/
theorem replyWithError_eq_some {error : EnvelopeError} {sessionKey : Option SymmetricKey}
    {outcome : Except EnvelopeError Bytes × CodecState}
    (h : sender.replyWithError error auth sessionKey now st = some outcome) :
    ∃ crypto : CryptoContext, crypto.recipient? = none ∧ crypto.key? = sessionKey ∧
      sender.encode (ErrorReply.ofKind error.kind error.message).toPayload auth crypto now st =
        outcome := by
  obtain ⟨reply, hreply, hencode⟩ := Option.map_eq_some_iff.mp h
  obtain rfl := EnvelopeError.reply_eq_of_reply? hreply
  cases sessionKey with
  | none => exact ⟨.plaintext, rfl, rfl, hencode⟩
  | some sym => exact ⟨.reply sym, rfl, rfl, hencode⟩

theorem length_payload_le_of_encode
    (hencode : sender.encode payload auth crypto now st = (.ok b, st')) :
    payload.encode.length ≤ sender.maxPayload := by
  obtain ⟨content, -, -, -, hpack, -⟩ := encode_eq_ok hencode
  exact (Compression.wrap_eq_ok_iff.mp hpack).1

/-- **Replies carry errors faithfully.** There is no reply exactly to an error of the outermost
layer. To any other error, what is replied reaches each peer that shares the clock and has the key
of the request, if there was one, whatever its cache holds: signed by the host, and with the code of
the error's kind and its exact wording. -/
theorem decode_replyWithError (sender : Codec) (error : EnvelopeError) (host : HostId)
    (key : PrivateKey) (audit : Option Bytes) (sessionKey : Option SymmetricKey)
    (now : Timestamp) (st : CodecState) :
    (sender.replyWithError error ⟨.host host key, audit⟩ sessionKey now st = none ↔
      error.IsOuter) ∧
    ∀ (b : Bytes) (st' : CodecState) (receiver : Codec) (ctx : DecryptionContext)
      (cache : KeyCache),
      sender.replyWithError error ⟨.host host key, audit⟩ sessionKey now st = some (.ok b, st') →
      sender.IsPeer receiver host key now →
      sender.compressor.Lossless receiver.decompressor →
      (∀ sym, sessionKey = some sym → ctx = .reply sym) →
      ∃ d, receiver.decode b ctx now cache = (.ok d, cache) ∧
        d.signature.agent = .host host ∧
        ErrorReply.ofPayload? d.payload = some (.ok ⟨error.kind.code, error.message⟩) := by
  constructor
  · unfold replyWithError
    rw [Option.map_eq_none_iff]
    exact EnvelopeError.reply?_eq_none_iff
  · intro b st' receiver ctx cache hreply hpeer hzip hctx
    obtain ⟨crypto, hto, hkey, hencode⟩ := replyWithError_eq_some hreply
    have hsame : ∀ sym, crypto.key? = some sym → ctx.replyKey = some sym := by
      intro sym hsym
      rw [hctx sym (hkey ▸ hsym)]
      rfl
    obtain ⟨v, hagent, hdecode⟩ := decode_encode_reply hpeer hzip hto hsame hencode
    have hshort := le_trans (length_payload_le_of_encode hencode) hpeer.maxPayload_le
    exact ⟨_, hdecode, hagent, ErrorReply.ofPayload?_toPayload hshort⟩

/-- The error of a commitment to the host under an earlier key. -/
def rotatedKey : EnvelopeError := .keyRotation soleHost ⟨5⟩

/-- The host answers a request of its own with the error, under the key of the request. -/
def soleReply : Option (Except EnvelopeError Bytes × CodecState) :=
  soleCodec.replyWithError rotatedKey ⟨.host soleHost mersenneKey, none⟩ (some soleRequest) ⟨100⟩
    ⟨KeyCache.ofCapacity 8, .ofFunction fun _ => 9⟩

theorem isPeer_soleCodec : soleCodec.IsPeer soleCodec soleHost mersenneKey ⟨100⟩ where
  sender_isValid := ⟨_, rfl⟩
  receiver_isValid := ⟨_, rfl⟩
  config_eq := rfl
  maxPayload_le := by decide
  isRsa := isRsa_mersenneKey
  publicKey_eq := rfl

/-- The reply reads as the code of rotations and the wording of the error. -/
theorem decode_soleReply :
    ∃ b st' d, soleReply = some (.ok b, st') ∧
      soleCodec.decode b (.reply soleRequest) ⟨100⟩ (KeyCache.ofCapacity 8) =
        (.ok d, KeyCache.ofCapacity 8) ∧
      ErrorReply.ofPayload? d.payload = some (.ok ⟨4, rotatedKey.message⟩) := by
  have hmade : (soleReply.map fun outcome => outcome.1.isOk) = some true := by decide +kernel
  obtain ⟨outcome, hreply, hok⟩ := Option.map_eq_some_iff.mp hmade
  obtain ⟨b, st', rfl⟩ := Except.exists_eq_of_isOk hok
  obtain ⟨d, hdecode, -, hread⟩ := (decode_replyWithError soleCodec rotatedKey soleHost mersenneKey
    none (some soleRequest) ⟨100⟩ ⟨KeyCache.ofCapacity 8, .ofFunction fun _ => 9⟩).2 b st' soleCodec
      (.reply soleRequest) (KeyCache.ofCapacity 8) hreply isPeer_soleCodec
      Compressor.lossless_storing (fun sym hsym => congrArg _ (Option.some.inj hsym))
  exact ⟨b, st', d, hreply, hdecode, hread⟩

end Codec
end SealedEnvelope
