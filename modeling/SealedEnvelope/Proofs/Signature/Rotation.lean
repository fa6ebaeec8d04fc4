/-
# Commitments under rotation

A commitment selects its key by the time it was made, a signature by the time
of signing. Whether a client's signature verifies depends on the two look-ups
alone: it does if both find the same key, whatever the host activated in
between or later, and otherwise the verifier reports the rotation, whatever
the proof says.

Key theorem: `Signature.verify_sign_client`.
-/
import Mathlib
import SealedEnvelope.Proofs.Key.History
import SealedEnvelope.Proofs.Signature.Freshness
import SealedEnvelope.Proofs.Signature.Honest

namespace SealedEnvelope

/-- The public keys that calls activate. -/
def KeyRegistry.keysOf (calls : List Call) : List PublicKey := calls.map (·.activation.key)

theorem IsActive.mem_keysOf {calls : List KeyRegistry.Call} {host : HostId} {time : Timestamp}
    {key : PublicKey} (h : IsActive (calls.map KeyRegistry.Call.activation) host time key) :
    key ∈ KeyRegistry.keysOf calls := by
  obtain ⟨i, a, hi, -, -, rfl, -⟩ := h
  obtain ⟨call, hcall, rfl⟩ := List.mem_map.mp (List.mem_of_getElem? hi)
  exact List.mem_map_of_mem hcall

namespace Signature

theorem authority_client {sig : Signature} {ctx : VerifyContext} {commitment : Commitment}
    {proof : KnowledgeProof} (h : sig.proof = .client commitment proof) :
    sig.authority ctx = SignatureProof.verifyClient commitment proof sig.time sig.digest ctx := by
  rw [authority, h]

/-- **Commitments under rotation.** A client's signature verifies if the key of the host active
at the time of signing is the one active when the commitment was made. If it is not, the verifier
reports the rotation, for this and for any other proof of the same commitment. -/
theorem verify_sign_client {calls : List KeyRegistry.Call} {host : HostId}
    {committedAt signedAt : Timestamp} {committed active : PublicKey} {sc : SecretCommitment}
    {subject : SubjectId} {audit : Option Bytes} {content : Bytes} {params : ProofParams}
    {stream stream' : ByteStream} {sig : Signature} {ctx : VerifyContext}
    (hidentity : Set.InjOn PublicKey.fingerprint {key | key ∈ KeyRegistry.keysOf calls})
    (hgen : ∀ key ∈ KeyRegistry.keysOf calls, key.generator.Coprime key.modulus)
    (hcommitted : IsActive (calls.map KeyRegistry.Call.activation) host committedAt committed)
    (hmade : sc.IsMadeFor host committedAt committed)
    (hactive : IsActive (calls.map KeyRegistry.Call.activation) host signedAt active)
    (hsign : sign content ⟨.client subject sc, audit⟩ signedAt params stream = (.ok sig, stream'))
    (hkeys : ctx.keys = (KeyRegistry.ofCalls calls).chain) (hparams : ctx.proofParams = params)
    (hfresh : ctx.Fresh signedAt) :
    (active = committed →
      sig.verify ctx = .ok ⟨subject, signedAt, audit, .client sc.commitment, content⟩) ∧
    (active ≠ committed →
      sig.verify ctx = .error (.keyRotation host committedAt) ∧
      ∀ proof, (sig.withProof (.client sc.commitment proof)).verify ctx =
        .error (.keyRotation host committedAt)) := by
  obtain ⟨shown, hproof, hsig, -⟩ := sign_eq_ok hsign
  obtain ⟨nonce, hbound, hlength, rfl⟩ := AuthMethod.prove_client_eq_ok hproof
  obtain ⟨rfl, rfl, hvalue, rfl⟩ := hmade.spec
  have hfoundCommitted : ctx.keys.publicKey sc.commitment.host sc.commitment.time =
      .ok sc.publicKey := by
    rw [hkeys]
    exact KeyRegistry.publicKey_eq_ok_iff.mpr hcommitted
  have hfoundActive : ctx.keys.publicKey sc.commitment.host signedAt = .ok active := by
    rw [hkeys]
    exact KeyRegistry.publicKey_eq_ok_iff.mpr hactive
  have htime : sig.time = signedAt := congrArg Signature.time hsig
  have hshown : sig.proof = .client sc.commitment
      (KnowledgeProof.answer sc.publicKey sc.secret sig.digest nonce.toNat) :=
    congrArg Signature.proof hsig
  constructor
  · rintro rfl
    have hauthority : sig.authority ctx = .ok (.client sc.commitment) := by
      rw [authority_client hshown, htime]
      exact SignatureProof.verifyClient_answer hvalue hbound hlength (hparams ▸ le_refl _)
        (hgen _ hcommitted.mem_keysOf) hfoundCommitted hfoundActive
    rw [verify_of_fresh (htime ▸ hfresh), hauthority, Except.ok_map, htime,
      congrArg Signature.subject hsig, congrArg Signature.audit hsig,
      congrArg Signature.content hsig]
    rfl
  · intro hne
    have hdiffer : active.fingerprint ≠ sc.publicKey.fingerprint := fun heq =>
      hne (hidentity hactive.mem_keysOf hcommitted.mem_keysOf heq)
    have hrotation : ∀ other : Signature, other.time = signedAt →
        (∃ proof, other.proof = .client sc.commitment proof) →
          other.verify ctx = .error (.keyRotation sc.commitment.host sc.commitment.time) := by
      rintro other hother ⟨proof, hp⟩
      have hauthority : other.authority ctx =
          .error (.keyRotation sc.commitment.host sc.commitment.time) := by
        rw [authority_client hp, hother, SignatureProof.verifyClient_eq hfoundCommitted
          hfoundActive, if_pos hdiffer]
      rw [verify_of_fresh (hother ▸ hfresh), hauthority, Except.error_map]
    exact ⟨hrotation sig htime ⟨_, hshown⟩, fun proof => hrotation _ htime ⟨proof, rfl⟩⟩

/-! ### Away and back

A host activates a key, another one, and the first one again. -/

/-- The key in between. -/
def otherKey : PublicKey := ⟨3233, 7, 5, by decide, by decide, by decide, by decide, by decide⟩

/-- The host that activates them. -/
def rotatingHost : HostId := ⟨"h"⟩

/-- Its three activations, ten seconds apart. -/
def rotatingCalls : List KeyRegistry.Call :=
  [.publish rotatingHost ⟨0⟩ KnowledgeProof.smallKey, .publish rotatingHost ⟨10⟩ otherKey,
    .publish rotatingHost ⟨20⟩ KnowledgeProof.smallKey]

/-- A commitment under the first key, made before the host rotates. -/
def earlyCommitment : SecretCommitment :=
  ⟨⟨rotatingHost, ⟨5⟩, KnowledgeProof.smallKey.commit ⟨42, by decide⟩, by decide +kernel⟩,
    KnowledgeProof.smallKey, ⟨42, by decide⟩⟩

/-- A receiver that knows the calls. -/
def rotatingContext : VerifyContext where
  now := ⟨30⟩
  stalenessWindow := 60
  maxClockSkew := 5
  proofParams := KnowledgeProof.smallParams
  keys := (KeyRegistry.ofCalls rotatingCalls).chain
  credentials := .rejectAll

/-- After the host has rotated back, signatures with the early commitment verify; those made in
between do not. -/
theorem verify_sign_away_and_back :
    (∃ sig stream', sign [] ⟨.client ⟨"s"⟩ earlyCommitment, none⟩ ⟨25⟩ KnowledgeProof.smallParams
        (.ofFunction fun _ => 7) = (.ok sig, stream') ∧
      sig.verify rotatingContext =
        .ok ⟨⟨"s"⟩, ⟨25⟩, none, .client earlyCommitment.commitment, []⟩) ∧
    ∃ sig stream', sign [] ⟨.client ⟨"s"⟩ earlyCommitment, none⟩ ⟨15⟩ KnowledgeProof.smallParams
        (.ofFunction fun _ => 7) = (.ok sig, stream') ∧
      sig.verify rotatingContext = .error (.keyRotation rotatingHost ⟨5⟩) := by
  have hidentity : Set.InjOn PublicKey.fingerprint
      {key | key ∈ KeyRegistry.keysOf rotatingCalls} := by
    have h : ∀ a ∈ KeyRegistry.keysOf rotatingCalls, ∀ b ∈ KeyRegistry.keysOf rotatingCalls,
        a.fingerprint = b.fingerprint → a = b := by decide +kernel
    exact fun a ha b hb => h a ha b hb
  have hgen : ∀ key ∈ KeyRegistry.keysOf rotatingCalls,
      key.generator.Coprime key.modulus := by decide
  have hearly : IsActive (rotatingCalls.map KeyRegistry.Call.activation) rotatingHost ⟨5⟩
      KnowledgeProof.smallKey := KeyRegistry.publicKey_eq_ok_iff.mp rfl
  have hbetween : IsActive (rotatingCalls.map KeyRegistry.Call.activation) rotatingHost ⟨15⟩
      otherKey := KeyRegistry.publicKey_eq_ok_iff.mp rfl
  have hback : IsActive (rotatingCalls.map KeyRegistry.Call.activation) rotatingHost ⟨25⟩
      KnowledgeProof.smallKey := KeyRegistry.publicKey_eq_ok_iff.mp rfl
  have hmade : earlyCommitment.IsMadeFor rotatingHost ⟨5⟩ KnowledgeProof.smallKey :=
    Or.inl ⟨earlyCommitment.secret,
      congrArg (Except.map _) (dif_pos earlyCommitment.commitment.pos)⟩
  have hbound : KnowledgeProof.requiredBound earlyCommitment.secret ≤
      KnowledgeProof.smallParams.bound := by decide
  constructor
  · obtain ⟨sig, stream', hsign⟩ := exists_sign_client [] ⟨"s"⟩ none _ _ hbound
    refine ⟨sig, stream', hsign, ?_⟩
    exact (verify_sign_client hidentity hgen hearly hmade hback hsign rfl rfl (by decide)).1 rfl
  · obtain ⟨sig, stream', hsign⟩ := exists_sign_client [] ⟨"s"⟩ none _ _ hbound
    refine ⟨sig, stream', hsign, ?_⟩
    exact ((verify_sign_client hidentity hgen hearly hmade hbetween hsign rfl rfl
      (by decide)).2 (by decide)).1

end Signature
end SealedEnvelope
