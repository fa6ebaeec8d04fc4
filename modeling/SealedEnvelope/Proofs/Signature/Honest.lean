/-
# What signing yields

A signature that signing makes speaks for what was signed: its own statement
is the one that the proof was made over. The proof of a client is the answer
to a nonce, and a verifier that finds one key for the commitment and for the
signing time accepts it.

Key definition: `SecretCommitment.IsMadeFor`.
Key theorems: `Signature.sign_eq_ok`, `AuthMethod.prove_client_eq_ok`,
`SignatureProof.verifyClient_eq`, `SignatureProof.verifyClient_answer`.
-/
import Mathlib
import SealedEnvelope.Signature.Signing
import SealedEnvelope.Signature.Verification
import SealedEnvelope.Proofs.Outcome
import SealedEnvelope.Proofs.Knowledge.Completeness

namespace SealedEnvelope

/-! ### Secret commitments -/

namespace SecretCommitment

/-- The client made the commitment for `host` at `time` under `key`, to a secret of its own or
to a random one. -/
def IsMadeFor (sc : SecretCommitment) (host : HostId) (time : Timestamp) (key : PublicKey) :
    Prop :=
  (∃ secret, ofSecret host time key secret = .ok sc) ∨
    ∃ random, (create host time key random).1 = .ok sc

theorem ofSecret_eq_ok {host : HostId} {time : Timestamp} {key : PublicKey} {secret : Secret}
    {sc : SecretCommitment} (h : ofSecret host time key secret = .ok sc) :
    sc.commitment.host = host ∧ sc.commitment.time = time ∧
      sc.commitment.value = sc.publicKey.commit sc.secret ∧ sc.publicKey = key := by
  obtain ⟨c, hc, rfl⟩ := Except.map_eq_ok_iff.mp h
  unfold Commitment.new at hc
  split at hc
  · obtain rfl := Except.ok.inj hc
    exact ⟨rfl, rfl, rfl, rfl⟩
  · cases hc

/-- Either way the commitment holds the public value of its secret under the key. -/
theorem IsMadeFor.spec {host : HostId} {time : Timestamp} {key : PublicKey}
    {sc : SecretCommitment} (h : sc.IsMadeFor host time key) :
    sc.commitment.host = host ∧ sc.commitment.time = time ∧
      sc.commitment.value = sc.publicKey.commit sc.secret ∧ sc.publicKey = key := by
  rcases h with ⟨secret, h⟩ | ⟨random, h⟩
  · exact ofSecret_eq_ok h
  · obtain ⟨secret, -, h⟩ := Except.bind_eq_ok_iff.mp h
    exact ofSecret_eq_ok h

end SecretCommitment

/-! ### Signing -/

namespace AuthMethod

theorem prove_host_eq_ok {name : HostId} {key : PrivateKey} {digest : Digest}
    {params : ProofParams} {s s' : ByteStream} {proof : SignatureProof}
    (h : (host name key).prove digest params s = (.ok proof, s')) :
    ∃ signature, key.signDigest digest = .ok signature ∧ proof = .host signature := by
  have hproof := Except.mapError_eq_ok_iff.mp (congrArg Prod.fst h)
  obtain ⟨signature, hsign, rfl⟩ := Except.map_eq_ok_iff.mp hproof
  exact ⟨signature, hsign, rfl⟩

theorem prove_client_eq_ok {subject : SubjectId} {sc : SecretCommitment} {digest : Digest}
    {params : ProofParams} {s s' : ByteStream} {proof : SignatureProof}
    (h : (client subject sc).prove digest params s = (.ok proof, s')) :
    ∃ nonce : Bytes, KnowledgeProof.requiredBound sc.secret ≤ params.bound ∧
      nonce.length = params.nonceLength ∧
      proof = .client sc.commitment
        (KnowledgeProof.answer sc.publicKey sc.secret digest nonce.toNat) := by
  have hproof := Except.mapError_eq_ok_iff.mp (congrArg Prod.fst h)
  obtain ⟨knowledge, hprove, rfl⟩ := Except.map_eq_ok_iff.mp hproof
  obtain ⟨hbound, hlength, rfl⟩ := KnowledgeProof.prove_eq_ok_iff.mp hprove
  exact ⟨_, hbound, hlength, rfl⟩

theorem prove_credentials_eq_ok {subject : SubjectId} {holders : List CredentialHolder}
    {digest : Digest} {params : ProofParams} {s s' : ByteStream} {proof : SignatureProof}
    (h : (credentials subject holders).prove digest params s = (.ok proof, s')) :
    ∃ presentations, (holders.mapM fun (present : CredentialHolder) => present digest) =
      .ok presentations ∧ proof = .credentials presentations := by
  have hproof := Except.mapError_eq_ok_iff.mp (congrArg Prod.fst h)
  obtain ⟨presentations, hpresent, rfl⟩ := Except.map_eq_ok_iff.mp hproof
  exact ⟨presentations, hpresent, rfl⟩

theorem variant_binding_of_prove {m : AuthMethod} {digest : Digest} {params : ProofParams}
    {s s' : ByteStream} {proof : SignatureProof} (h : m.prove digest params s = (.ok proof, s')) :
    proof.variant = m.variant ∧ proof.binding = m.binding := by
  cases m with
  | host name key =>
    obtain ⟨signature, -, rfl⟩ := prove_host_eq_ok h
    exact ⟨rfl, rfl⟩
  | client subject sc =>
    obtain ⟨nonce, -, -, rfl⟩ := prove_client_eq_ok h
    exact ⟨rfl, rfl⟩
  | credentials subject holders =>
    obtain ⟨presentations, -, rfl⟩ := prove_credentials_eq_ok h
    exact ⟨rfl, rfl⟩

end AuthMethod

namespace Signature

/-- A signature speaks for what was signed, and its proof was made over its own digest. -/
theorem sign_eq_ok {content : Bytes} {auth : AuthContext} {time : Timestamp}
    {params : ProofParams} {s s' : ByteStream} {sig : Signature}
    (h : sign content auth time params s = (.ok sig, s')) :
    ∃ proof, auth.method.prove sig.digest params s = (.ok proof, s') ∧
      sig = ⟨auth.subject, time, auth.audit, proof, content⟩ ∧
      sig.digest = (auth.statement content time).digest := by
  cases hp : auth.method.prove (auth.statement content time).digest params s with
  | mk outcome rest =>
    have hmap : outcome.map (fun proof => (⟨auth.subject, time, auth.audit, proof, content⟩ :
        Signature)) = .ok sig ∧ rest = s' := by
      rw [sign, hp] at h
      exact Prod.mk.inj h
    obtain ⟨proof, rfl, rfl⟩ := Except.map_eq_ok_iff.mp hmap.1
    obtain rfl := hmap.2
    obtain ⟨hvariant, hbinding⟩ := AuthMethod.variant_binding_of_prove hp
    have hstatement : statement ⟨auth.subject, time, auth.audit, proof, content⟩ =
        auth.statement content time := by
      simp only [statement, variant, AuthContext.statement, AuthContext.variant, hvariant,
        hbinding]
    have hdigest : digest ⟨auth.subject, time, auth.audit, proof, content⟩ =
        (auth.statement content time).digest := congrArg SignedStatement.digest hstatement
    exact ⟨proof, hdigest ▸ hp, rfl, hdigest⟩

/-- A client can sign if the bound leaves room for its secret. -/
theorem exists_sign_client (content : Bytes) (subject : SubjectId) {sc : SecretCommitment}
    (audit : Option Bytes) (time : Timestamp) {params : ProofParams} (s : ByteStream)
    (h : KnowledgeProof.requiredBound sc.secret ≤ params.bound) :
    ∃ sig s', sign content ⟨.client subject sc, audit⟩ time params s = (.ok sig, s') := by
  let auth : AuthContext := ⟨.client subject sc, audit⟩
  have hprove : (sc.prove (auth.statement content time).digest params s).1 = .ok _ :=
    KnowledgeProof.prove_eq_ok_iff.mpr ⟨h, ByteStream.length_draw s _, rfl⟩
  have hsign : (sign content auth time params s).1 =
      (((sc.prove (auth.statement content time).digest params s).1.map
        (SignatureProof.client sc.commitment)).mapError fun e =>
          EnvelopeError.signature e.message).map
            fun proof => ⟨subject, time, audit, proof, content⟩ := rfl
  rw [hprove] at hsign
  exact ⟨_, _, Prod.ext hsign rfl⟩

end Signature

/-! ### Verifying a client -/

namespace SignatureProof

/-- Where both keys are found, their identities are compared before the proof is looked at. -/
theorem verifyClient_eq {commitment : Commitment} {proof : KnowledgeProof} {time : Timestamp}
    {digest : Digest} {ctx : VerifyContext} {committed active : PublicKey}
    (hcommitted : ctx.keys.publicKey commitment.host commitment.time = .ok committed)
    (hactive : ctx.keys.publicKey commitment.host time = .ok active) :
    verifyClient commitment proof time digest ctx =
      if active.fingerprint ≠ committed.fingerprint then
        .error (.keyRotation commitment.host commitment.time)
      else
        ((proof.verify committed commitment.value digest ctx.proofParams).mapError fun e =>
          EnvelopeError.signature e.message).map fun _ => .client commitment := by
  have hkey : commitment.publicKey ctx.keys = .ok committed := by
    rw [Commitment.publicKey, hcommitted]
    rfl
  unfold verifyClient
  rw [hkey, hactive]
  simp only [Except.ok_mapError, Except.ok_bind]
  split
  · rfl
  · cases proof.verify committed commitment.value digest ctx.proofParams <;> rfl

/-- The answer of a client is accepted where the key it committed under is still active. -/
theorem verifyClient_answer {sc : SecretCommitment} {nonce : Bytes} {time : Timestamp}
    {digest : Digest} {params : ProofParams} {ctx : VerifyContext}
    (hvalue : sc.commitment.value = sc.publicKey.commit sc.secret)
    (hbound : KnowledgeProof.requiredBound sc.secret ≤ params.bound)
    (hlength : nonce.length = params.nonceLength) (hle : params.bound ≤ ctx.proofParams.bound)
    (hgen : sc.publicKey.generator.Coprime sc.publicKey.modulus)
    (hcommitted : ctx.keys.publicKey sc.commitment.host sc.commitment.time = .ok sc.publicKey)
    (hactive : ctx.keys.publicKey sc.commitment.host time = .ok sc.publicKey) :
    verifyClient sc.commitment
        (KnowledgeProof.answer sc.publicKey sc.secret digest nonce.toNat) time digest ctx =
      .ok (.client sc.commitment) := by
  have hverify : KnowledgeProof.verify sc.publicKey sc.commitment.value digest
      (KnowledgeProof.answer sc.publicKey sc.secret digest nonce.toNat) ctx.proofParams =
        .ok () := by
    rw [hvalue]
    exact KnowledgeProof.verify_answer hbound hlength hle hgen
  rw [verifyClient_eq hcommitted hactive, if_neg (not_not.mpr rfl), hverify]
  rfl

end SignatureProof
end SealedEnvelope
