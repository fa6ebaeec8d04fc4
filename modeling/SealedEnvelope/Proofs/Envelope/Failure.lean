/-
# Which failures can be answered

Every step from the bytes of an envelope to its payload chooses the kind of its
errors and the layer that they name. Until the outermost layer has been opened
these are encoding errors of that layer and encryption errors; behind it they
are encoding errors of the other layers, signature errors and rotations, also
where a key or a credential is looked up elsewhere. A receiver can therefore
tell from the error alone whether the outermost layer was opened
(`Codec.OpeningFails`), and there is a reply exactly if it was.

Key definitions: `EnvelopeError.IsOuter`, `EnvelopeError.IsInner`,
`Codec.OpeningFails`.
Key theorems: `Encryption.failsOnly_decode`, `Encryption.failsOnly_unwrap`,
`Signature.failsOnly_decode`, `Signature.failsOnly_verify`,
`Compression.failsOnly_unwrap`, `Codec.openContent_eq_error_iff`,
`Codec.reply?_of_decode_eq_error`.
-/
import Mathlib
import SealedEnvelope.Codec
import SealedEnvelope.Proofs.Outcome

namespace SealedEnvelope

open EnvelopeError

/-! ### Kinds of errors -/

namespace EnvelopeError

variable {e : EnvelopeError}

/-- The layer cannot be decoded. -/
def IsEncodingOf (layer : Layer) (e : EnvelopeError) : Prop := ∃ reason, e = .encoding layer reason

/-- The signature is refused. -/
def IsSignature (e : EnvelopeError) : Prop := ∃ reason, e = .signature reason

/-- A key or a ciphertext does not work. -/
def IsEncryption (e : EnvelopeError) : Prop := ∃ reason, e = .encryption reason

/-- The key of a commitment has been rotated. -/
def IsKeyRotation (e : EnvelopeError) : Prop :=
  ∃ host committedAt, e = .keyRotation host committedAt

/-- What can go wrong with the outermost layer. -/
def IsOuter (e : EnvelopeError) : Prop := e.IsEncodingOf .encryption ∨ e.IsEncryption

/-- What can go wrong behind the outermost layer. -/
def IsInner (e : EnvelopeError) : Prop :=
  (∃ layer ∈ [Layer.signature, .compression, .payload], e.IsEncodingOf layer) ∨ e.IsSignature ∨
    e.IsKeyRotation

theorem IsOuter.reply?_eq_none (h : e.IsOuter) : e.reply? = none := by
  rcases h with ⟨reason, rfl⟩ | ⟨reason, rfl⟩ <;> rfl

theorem IsInner.reply?_eq_some (h : e.IsInner) :
    e.reply? = some (ErrorReply.ofKind e.kind e.message) := by
  rcases h with ⟨layer, hlayer, reason, rfl⟩ | ⟨reason, rfl⟩ | ⟨host, committedAt, rfl⟩
  · simp only [List.mem_cons, List.not_mem_nil, or_false] at hlayer
    rcases hlayer with rfl | rfl | rfl <;> rfl
  · rfl
  · rfl

end EnvelopeError

/-! ### The outermost layer -/

namespace Encryption

variable {e : Encryption} {ctx : DecryptionContext} {keys : KeyChain} {cache : KeyCache}

theorem Fields.failsOnly_check (f : Fields) : f.check.FailsOnly (IsEncodingOf .encryption) := by
  have haddress : f.checkAddress.FailsOnly (IsEncodingOf .encryption) := by
    unfold checkAddress
    split
    · exact Except.failsOnly_ok _
    · exact Except.failsOnly_ok _
    · exact Except.failsOnly_error ⟨_, rfl⟩
  have hcontent : f.checkContent.FailsOnly (IsEncodingOf .encryption) := by
    unfold checkContent
    split
    · exact Except.failsOnly_ok _
    · exact Except.failsOnly_ok _
    · exact Except.failsOnly_error ⟨_, rfl⟩
    · split
      · exact Except.failsOnly_ok _
      · exact Except.failsOnly_error ⟨_, rfl⟩
  exact haddress.bind fun _ => hcontent.bind fun _ => Except.failsOnly_ok _

theorem failsOnly_decode (b : Bytes) : (decode b).FailsOnly (IsEncodingOf .encryption) :=
  Except.FailsOnly.bind (Except.failsOnly_mapError _ fun _ => ⟨_, rfl⟩) fun f => f.failsOnly_check

/-- A host that is not local is an encoding error, a key that is not found or does not unwrap an
encryption error. -/
theorem failsOnly_sessionKey : (e.sessionKey ctx keys cache).1.FailsOnly IsOuter := by
  unfold sessionKey
  split
  · exact Except.failsOnly_ok _
  · split
    · exact Except.failsOnly_error (Or.inl ⟨_, rfl⟩)
    · split
      · exact Except.failsOnly_ok _
      · split
        · exact Except.failsOnly_error (Or.inr ⟨_, rfl⟩)
        · exact Except.failsOnly_mapError _ fun _ => Or.inr ⟨_, rfl⟩

theorem failsOnly_openContent (key : Option SymmetricKey) :
    (e.openContent key).FailsOnly IsEncryption := by
  unfold openContent
  split
  · exact Except.failsOnly_ok _
  · exact Except.failsOnly_ok _
  · exact Except.failsOnly_error ⟨_, rfl⟩
  · exact Except.failsOnly_mapError _ fun _ => ⟨_, rfl⟩

theorem failsOnly_unwrap : (e.unwrap ctx keys cache).1.FailsOnly IsOuter := by
  have hkey : (e.sessionKey ctx keys cache).1.FailsOnly IsOuter := failsOnly_sessionKey
  unfold unwrap
  split
  · rename_i error cache' hsession
    rw [hsession] at hkey
    exact Except.failsOnly_error (hkey _ rfl)
  · rename_i key cache' hsession
    exact ((failsOnly_openContent key).mono fun _ => Or.inr).map _

/-- No layer is unwrapped for a host that is not local. -/
theorem exists_error_of_not_isLocal {host : HostId} (hto : e.recipient? = some host)
    (hlocal : keys.isLocal host = false) : ∃ error, (e.unwrap ctx keys cache).1 = .error error := by
  unfold unwrap sessionKey
  cases haddress : e.address with
  | reply => simp [recipient?, haddress, Address.recipient?] at hto
  | host name wrapped =>
    obtain rfl : name = host := by
      simpa [recipient?, haddress, Address.recipient?] using hto
    simp [hlocal]

theorem Fields.recipient?_of_check {f : Fields} (h : f.check = .ok e) :
    e.recipient? = f.recipient := by
  obtain ⟨address, haddress, h⟩ := Except.bind_eq_ok_iff.mp h
  obtain ⟨content, -, h⟩ := Except.bind_eq_ok_iff.mp h
  obtain rfl := Except.ok.inj h
  unfold checkAddress at haddress
  split at haddress
  · rename_i host hto
    obtain rfl := Except.ok.inj haddress
    exact hto.symm
  · rename_i hto _
    obtain rfl := Except.ok.inj haddress
    exact hto.symm
  · cases haddress

end Encryption

/-! ### The layers inside -/

theorem Commitment.failsOnly_ofFields (fields : HostId × Timestamp × Bytes) :
    (ofFields fields).FailsOnly (IsEncodingOf .signature) := by
  obtain ⟨host, time, value⟩ := fields
  simp only [ofFields]
  split
  · exact Except.failsOnly_error ⟨_, rfl⟩
  · exact Except.failsOnly_error ⟨_, rfl⟩
  · exact Except.failsOnly_mapError _ fun _ => ⟨_, rfl⟩

namespace Signature

theorem failsOnly_readFields {α : Type} (parse : Cbor.Value → Option α) (fields : Cbor.Value) :
    (readFields parse fields).FailsOnly (IsEncodingOf .signature) :=
  Except.failsOnly_mapError _ fun _ => ⟨_, rfl⟩

theorem RawClientProof.failsOnly_check (p : RawClientProof) :
    p.check.FailsOnly (IsEncodingOf .signature) :=
  (Commitment.failsOnly_ofFields _).bind fun _ =>
    (Except.failsOnly_mapError _ fun _ => ⟨_, rfl⟩).bind fun _ =>
      (Except.failsOnly_mapError _ fun _ => ⟨_, rfl⟩).bind fun _ => Except.failsOnly_ok _

theorem failsOnly_ofLayer (tag : LayerTag) (fields : Cbor.Value) :
    (ofLayer tag fields).FailsOnly (IsEncodingOf .signature) := by
  unfold ofLayer
  split
  · exact (failsOnly_readFields _ _).bind fun _ => Except.failsOnly_ok _
  · exact (failsOnly_readFields _ _).bind fun raw =>
      (RawClientProof.failsOnly_check _).bind fun _ => Except.failsOnly_ok _
  · exact (failsOnly_readFields _ _).bind fun _ => Except.failsOnly_ok _
  · exact Except.failsOnly_error ⟨_, rfl⟩

theorem failsOnly_decode (b : Bytes) : (decode b).FailsOnly (IsEncodingOf .signature) :=
  Except.FailsOnly.bind (Except.failsOnly_mapError _ fun _ => ⟨_, rfl⟩) fun layer =>
    failsOnly_ofLayer layer.1 layer.2

end Signature

/-! ### Verification -/

theorem VerifyContext.failsOnly_checkFreshness (ctx : VerifyContext) (time : Timestamp) :
    (ctx.checkFreshness time).FailsOnly IsSignature := by
  unfold checkFreshness
  split
  · split
    · exact Except.failsOnly_error ⟨_, rfl⟩
    · exact Except.failsOnly_ok _
  · dsimp only
    split
    · exact Except.failsOnly_error ⟨_, rfl⟩
    · exact Except.failsOnly_ok _

namespace SignatureProof

theorem failsOnly_verifyHost (signature : Bytes) (subject : SubjectId) (time : Timestamp)
    (digest : Digest) (ctx : VerifyContext) :
    (verifyHost signature subject time digest ctx).FailsOnly IsSignature :=
  (Except.failsOnly_mapError _ fun _ => ⟨_, rfl⟩).bind fun _ =>
    (Except.failsOnly_mapError _ fun _ => ⟨_, rfl⟩).bind fun _ => Except.failsOnly_ok _

theorem failsOnly_verifyClient (commitment : Commitment) (proof : KnowledgeProof)
    (time : Timestamp) (digest : Digest) (ctx : VerifyContext) :
    (verifyClient commitment proof time digest ctx).FailsOnly fun e =>
      e.IsSignature ∨ e.IsKeyRotation := by
  have hproof (committed : PublicKey) :
      ((proof.verify committed commitment.value digest ctx.proofParams).mapError fun e =>
        EnvelopeError.signature e.message).FailsOnly fun e => e.IsSignature ∨ e.IsKeyRotation :=
    Except.failsOnly_mapError _ fun _ => Or.inl ⟨_, rfl⟩
  refine Except.FailsOnly.bind (Except.failsOnly_mapError _ fun _ => Or.inl ⟨_, rfl⟩)
    fun committed => ?_
  refine Except.FailsOnly.bind (Except.failsOnly_mapError _ fun _ => Or.inl ⟨_, rfl⟩)
    fun active => ?_
  split
  · exact Except.failsOnly_error (Or.inr ⟨_, _, rfl⟩)
  · exact (hproof committed).bind fun _ => Except.failsOnly_ok _

theorem failsOnly_verifyCredentials (presentations : List Bytes) (subject : SubjectId)
    (digest : Digest) (ctx : VerifyContext) :
    (verifyCredentials presentations subject digest ctx).FailsOnly IsSignature := by
  unfold verifyCredentials
  split
  · exact Except.failsOnly_error ⟨_, rfl⟩
  · exact Except.failsOnly_ok _

end SignatureProof

/-- A signature is refused as a signature, or because the key of its commitment was rotated. -/
theorem Signature.failsOnly_verify (s : Signature) (ctx : VerifyContext) :
    (s.verify ctx).FailsOnly fun e => e.IsSignature ∨ e.IsKeyRotation := by
  have hauthority : (s.authority ctx).FailsOnly fun e => e.IsSignature ∨ e.IsKeyRotation := by
    unfold authority
    split
    · exact (SignatureProof.failsOnly_verifyHost _ _ _ _ _).mono fun _ => Or.inl
    · exact SignatureProof.failsOnly_verifyClient _ _ _ _ _
    · exact (SignatureProof.failsOnly_verifyCredentials _ _ _ _).mono fun _ => Or.inl
  refine ((ctx.failsOnly_checkFreshness s.time).mono fun _ => Or.inl).bind fun _ => ?_
  exact hauthority.bind fun _ => Except.failsOnly_ok _

/-- Content that is no compressed payload is an encoding error of the compression layer or of the
payload in it. -/
theorem Compression.failsOnly_unwrap (b : Bytes) (max : Nat) (d : Decompressor) :
    (unwrap b max d).FailsOnly fun e => e.IsEncodingOf .compression ∨ e.IsEncodingOf .payload := by
  have hinflate (declared : Nat) (compressed : Bytes) :
      (inflate declared max compressed d).FailsOnly (IsEncodingOf .compression) := by
    unfold inflate
    split
    · exact Except.failsOnly_error ⟨_, rfl⟩
    · split
      · exact Except.failsOnly_error ⟨_, rfl⟩
      · dsimp only
        split
        · exact Except.failsOnly_ok _
        · exact Except.failsOnly_error ⟨_, rfl⟩
  refine Except.FailsOnly.bind (Except.failsOnly_mapError _ fun _ => Or.inl ⟨_, rfl⟩) fun raw => ?_
  refine ((hinflate raw.1 raw.2).mono fun _ => Or.inl).bind fun content => ?_
  exact Except.failsOnly_mapError _ fun _ => Or.inr ⟨_, rfl⟩

/-! ### Whole envelopes -/

namespace Codec

variable {c : Codec} {b : Bytes} {ctx : DecryptionContext} {now : Timestamp} {cache : KeyCache}

/-- The outermost layer of an envelope is not opened: there is no frame, the frame does not hold
a layer, or the layer is not unwrapped. -/
inductive OpeningFails (c : Codec) (b : Bytes) (ctx : DecryptionContext) (cache : KeyCache) : Prop
  | frame (error : WireError) (hframe : Frame.decode b = .error error)
  | layer (body : Bytes) (error : EnvelopeError) (hframe : Frame.decode b = .ok body)
      (hlayer : Encryption.decode body = .error error)
  | content (body : Bytes) (e : Encryption) (error : EnvelopeError)
      (hframe : Frame.decode b = .ok body) (hlayer : Encryption.decode body = .ok e)
      (hcontent : (e.unwrap ctx c.keys cache).1 = .error error)

theorem openContent_eq_ok {body : Bytes} {e : Encryption} (hframe : Frame.decode b = .ok body)
    (hlayer : Encryption.decode body = .ok e) :
    (c.openContent b ctx cache).1 = (e.unwrap ctx c.keys cache).1.map fun o => (e, o) := by
  simp only [openContent, unframe, hframe, Except.ok_mapError, Except.ok_bind, hlayer]

/-- The content of an envelope is not reached exactly if the outermost layer is not opened. -/
theorem openContent_eq_error_iff :
    (∃ error, (c.openContent b ctx cache).1 = .error error) ↔ c.OpeningFails b ctx cache := by
  constructor
  · rintro ⟨error, h⟩
    cases hframe : Frame.decode b with
    | error wire => exact .frame wire hframe
    | ok body =>
      cases hlayer : Encryption.decode body with
      | error error => exact .layer body error hframe hlayer
      | ok e =>
        rw [openContent_eq_ok hframe hlayer] at h
        cases hcontent : (e.unwrap ctx c.keys cache).1 with
        | error error => exact .content body e error hframe hlayer hcontent
        | ok o => simp [hcontent] at h
  · rintro (⟨wire, hframe⟩ | ⟨body, error, hframe, hlayer⟩ |
      ⟨body, e, error, hframe, hlayer, hcontent⟩)
    · exact ⟨.ofWire .encryption wire, by simp [openContent, unframe, hframe]⟩
    · exact ⟨error, by simp [openContent, unframe, hframe, hlayer]⟩
    · exact ⟨error, by rw [openContent_eq_ok hframe hlayer, hcontent, Except.error_map]⟩

theorem failsOnly_openContent : (c.openContent b ctx cache).1.FailsOnly IsOuter := by
  have hunframe : (unframe b).FailsOnly IsOuter :=
    Except.FailsOnly.bind (Except.failsOnly_mapError _ fun _ => Or.inl ⟨_, rfl⟩) fun body =>
      (Encryption.failsOnly_decode body).mono fun _ => Or.inl
  unfold openContent
  split
  · rename_i error herror
    exact Except.failsOnly_error (hunframe error herror)
  · exact Encryption.failsOnly_unwrap.map _

theorem decode_eq_bind :
    (c.decode b ctx now cache).1 = (c.openContent b ctx cache).1.bind fun o =>
      ((Signature.decode o.2.1).map fun signature =>
        (⟨o.1.time, o.1.recipient?, o.2.2, signature⟩ : OpenedEnvelope)).bind fun opened =>
          c.decodeOpened opened now := by
  have h : (c.decode b ctx now cache).1 = ((c.openContent b ctx cache).1.bind fun o =>
      (Signature.decode o.2.1).map fun signature =>
        (⟨o.1.time, o.1.recipient?, o.2.2, signature⟩ : OpenedEnvelope)).bind fun opened =>
          c.decodeOpened opened now := rfl
  rw [h]
  cases (c.openContent b ctx cache).1 <;> rfl

theorem failsOnly_decodeOpened (opened : OpenedEnvelope) :
    (c.decodeOpened opened now).FailsOnly IsInner := by
  have hverify : (c.verify opened.signature now).FailsOnly IsInner :=
    (Signature.failsOnly_verify _ _).mono fun _ => Or.inr
  have hunpack (v : VerifiedSignature) : (c.unpack v).FailsOnly IsInner := by
    refine (Compression.failsOnly_unwrap _ _ _).mono fun e he => Or.inl ?_
    rcases he with he | he
    · exact ⟨.compression, by simp, he⟩
    · exact ⟨.payload, by simp, he⟩
  exact hverify.bind fun v => (hunpack v).bind fun _ => Except.failsOnly_ok _

/-- Decoding fails with an error of the outermost layer if that is not opened, and otherwise with
an error of the layers inside. -/
theorem isOuter_or_isInner_of_decode {e : EnvelopeError}
    (h : (c.decode b ctx now cache).1 = .error e) :
    (c.OpeningFails b ctx cache ∧ e.IsOuter) ∨ (¬ c.OpeningFails b ctx cache ∧ e.IsInner) := by
  rw [decode_eq_bind] at h
  cases hopen : (c.openContent b ctx cache).1 with
  | error error =>
    rw [hopen] at h
    obtain rfl := Except.error.inj h
    exact Or.inl ⟨openContent_eq_error_iff.mp ⟨_, hopen⟩, failsOnly_openContent _ hopen⟩
  | ok o =>
    rw [hopen] at h
    have hsignature : ((Signature.decode o.2.1).map fun signature =>
        (⟨o.1.time, o.1.recipient?, o.2.2, signature⟩ : OpenedEnvelope)).FailsOnly IsInner :=
      ((Signature.failsOnly_decode _).mono fun _ he => Or.inl ⟨.signature, by simp, he⟩).map _
    refine Or.inr ⟨fun hfails => ?_, hsignature.bind failsOnly_decodeOpened e h⟩
    obtain ⟨error, herror⟩ := openContent_eq_error_iff.mpr hfails
    cases hopen.symm.trans herror

/-- An envelope to a host that is not local is not opened, whatever else its fields hold. -/
theorem openingFails_of_not_isLocal {body : Bytes} {f : Encryption.Fields} {host : HostId}
    (hframe : Frame.decode b = .ok body) (hfields : Encryption.Fields.decode body = .ok f)
    (hto : f.recipient = some host) (hlocal : c.keys.isLocal host = false) :
    c.OpeningFails b ctx cache := by
  have hdecode : Encryption.decode body = f.check := by
    rw [Encryption.decode, hfields, Except.ok_bind]
  cases hcheck : f.check with
  | error error => exact .layer body error hframe (hdecode.trans hcheck)
  | ok e =>
    have hrecipient : e.recipient? = some host :=
      (Encryption.Fields.recipient?_of_check hcheck).trans hto
    obtain ⟨error, herror⟩ : ∃ error, (e.unwrap ctx c.keys cache).1 = .error error :=
      Encryption.exists_error_of_not_isLocal hrecipient hlocal
    exact .content body e error hframe (hdecode.trans hcheck) herror

/-- **A reply is possible exactly if the outermost layer was opened.** Of the errors that decoding
ends with, those that leave nothing to answer are the ones of the frame, of the layer in it and of
unwrapping that layer, for every envelope to a host that is not local among others. All other
errors are answered with their message, under the code of their kind. -/
theorem reply?_of_decode_eq_error {e : EnvelopeError}
    (h : (c.decode b ctx now cache).1 = .error e) :
    (e.reply? = none ↔ c.OpeningFails b ctx cache) ∧
    (∀ body f host, Frame.decode b = .ok body → Encryption.Fields.decode body = .ok f →
      f.recipient = some host → c.keys.isLocal host = false → c.OpeningFails b ctx cache) ∧
    (¬ c.OpeningFails b ctx cache →
      (∃ layer ∈ [Layer.signature, .compression, .payload], ∃ reason, e = .encoding layer reason ∧
        e.reply? = some ⟨ErrorReply.Kind.encoding.code, e.message⟩) ∨
      (∃ reason, e = .signature reason ∧
        e.reply? = some ⟨ErrorReply.Kind.signature.code, e.message⟩) ∨
      (∃ host committedAt, e = .keyRotation host committedAt ∧
        e.reply? = some ⟨ErrorReply.Kind.keyRotation.code, e.message⟩)) := by
  refine ⟨?_, fun body f host => openingFails_of_not_isLocal, ?_⟩
  · rcases isOuter_or_isInner_of_decode h with ⟨hfails, houter⟩ | ⟨hopens, hinner⟩
    · exact iff_of_true houter.reply?_eq_none hfails
    · refine iff_of_false ?_ hopens
      simp [hinner.reply?_eq_some]
  · intro hopens
    rcases isOuter_or_isInner_of_decode h with ⟨hfails, -⟩ | ⟨-, hinner⟩
    · exact absurd hfails hopens
    · have hreply := hinner.reply?_eq_some
      rcases hinner with ⟨layer, hlayer, reason, rfl⟩ | ⟨reason, rfl⟩ | ⟨host, committedAt, rfl⟩
      · exact Or.inl ⟨layer, hlayer, reason, rfl, hreply⟩
      · exact Or.inr (Or.inl ⟨reason, rfl, hreply⟩)
      · exact Or.inr (Or.inr ⟨host, committedAt, rfl, hreply⟩)

/-! ### Three envelopes -/

/-- A codec that runs no host. -/
def hostlessCodec : Codec where
  config := {}
  proofParams := .standard
  keys := KeyRegistry.empty.chain
  credentials := .rejectAll
  compressor := .storing
  decompressor := .strict

/-- The frame around a layer that carries `content` in the clear. -/
def clearEnvelope (address : Address) (content : Bytes) : Bytes :=
  Frame.magic ++ Frame.version :: Encryption.encode ⟨⟨5⟩, address, .plain content⟩

/-- A host signature that shows nothing, made at the beginning of time. -/
def emptySignature : Signature := ⟨⟨"s"⟩, .epoch, none, .host [], []⟩

/-- An envelope to somebody else is not answered. One for the receiver is answered if its content
is not a signature, and if the signature in it is stale. -/
theorem reply?_foreign_garbled_stale :
    (∃ e, (hostlessCodec.decode (clearEnvelope (.host ⟨"h"⟩ none) []) .host ⟨5⟩
        (.ofCapacity 1)).1 = .error e ∧ e.reply? = none) ∧
    (∃ e, (hostlessCodec.decode (clearEnvelope .reply [0x6f, 0x6b]) .host ⟨5⟩
        (.ofCapacity 1)).1 = .error e ∧ e.reply?.map (·.code) = some 1) ∧
    (∃ e, (hostlessCodec.decode (clearEnvelope .reply emptySignature.encode) .host ⟨31556926⟩
        (.ofCapacity 1)).1 = .error e ∧ e.reply?.map (·.code) = some 2) := by
  have hopens {content : Bytes} (h : ((hostlessCodec.openContent (clearEnvelope .reply content)
      .host (.ofCapacity 1)).1.isOk = true)) :
      ¬ hostlessCodec.OpeningFails (clearEnvelope .reply content) .host (.ofCapacity 1) := by
    intro hfails
    obtain ⟨error, herror⟩ := openContent_eq_error_iff.mpr hfails
    rw [herror] at h
    cases h
  refine ⟨?_, ?_, ?_⟩
  · have h : (hostlessCodec.decode (clearEnvelope (.host ⟨"h"⟩ none) []) .host ⟨5⟩
        (.ofCapacity 1)).1 =
          .error (.encoding .encryption "envelope addressed to h, which is not hosted here") := by
      decide +kernel
    have hfields : Encryption.Fields.decode (Encryption.encode ⟨⟨5⟩, .host ⟨"h"⟩ none, .plain []⟩) =
        .ok ⟨⟨5⟩, some ⟨"h"⟩, none, none, some []⟩ := by decide +kernel
    obtain ⟨hreply, hforeign, -⟩ := reply?_of_decode_eq_error h
    exact ⟨_, h, hreply.mpr (hforeign _ _ _ (by decide +kernel) hfields rfl rfl)⟩
  · have h : (hostlessCodec.decode (clearEnvelope .reply [0x6f, 0x6b]) .host ⟨5⟩
        (.ofCapacity 1)).1 = .error (.encoding .signature WireError.cborDecode.message) := by
      decide +kernel
    refine ⟨_, h, ?_⟩
    rcases (reply?_of_decode_eq_error h).2.2 (hopens (by decide +kernel)) with
      ⟨layer, -, reason, -, hreply⟩ | ⟨reason, he, -⟩ | ⟨host, committedAt, he, -⟩
    · rw [hreply]
      rfl
    · cases he
    · cases he
  · have h : (hostlessCodec.decode (clearEnvelope .reply emptySignature.encode) .host ⟨31556926⟩
        (.ofCapacity 1)).1 =
          .error (.signature
            "signature is stale: signed at 0s, 31556926s old (window 31556925s)") := by
      decide +kernel
    refine ⟨_, h, ?_⟩
    rcases (reply?_of_decode_eq_error h).2.2 (hopens (by decide +kernel)) with
      ⟨layer, -, reason, he, -⟩ | ⟨reason, -, hreply⟩ | ⟨host, committedAt, he, -⟩
    · cases he
    · rw [hreply]
      rfl
    · cases he

end Codec
end SealedEnvelope
