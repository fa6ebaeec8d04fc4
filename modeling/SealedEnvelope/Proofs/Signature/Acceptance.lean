/-
# Honest signatures are accepted

What a receiver has to know about a signer: the public half of a host's key at
the time of signing; for a client the key of its commitment, still active at
that time; some credential that it accepts from anybody else. Then a signature
made at a fresh time under a proof bound no greater than the receiver's is
accepted, and what is established is who signed.

Key definitions: `AuthMethod.agent`, `AuthMethod.KnownTo`.
Key theorems: `SignatureProof.exists_verifyCredentials_iff`,
`Signature.verify_sign`.
-/
import Mathlib
import SealedEnvelope.Proofs.Key.Rsa
import SealedEnvelope.Proofs.Signature.Freshness
import SealedEnvelope.Proofs.Signature.Honest

namespace SealedEnvelope

namespace AuthMethod

/-- Who acts in what the method signs. -/
def agent : AuthMethod → Agent
  | host name _ => .host name
  | client subject sc => .client subject sc.commitment.host
  | credentials subject _ => .credentials subject

/-- The receiver can tell that what the method proves over `digest` at `time` is genuine: it
finds the public half of the host's key, the key of the commitment at both times, or accepts what
some holder presents for the subject. -/
def KnownTo (m : AuthMethod) (ctx : VerifyContext) (time : Timestamp) (digest : Digest) : Prop :=
  match m with
  | host name key => key.IsRsa ∧ ctx.keys.publicKey name time = .ok key.publicKey
  | client _ sc => ∃ host committedAt key, sc.IsMadeFor host committedAt key ∧
      key.generator.Coprime key.modulus ∧ ctx.keys.publicKey host committedAt = .ok key ∧
      ctx.keys.publicKey host time = .ok key
  | credentials subject holders => ∃ present ∈ holders, ∀ shown, present digest = .ok shown →
      ∃ c, ctx.credentials shown digest ctx.now = .ok c ∧ c.Authorizes subject ctx.now

end AuthMethod

/-! ### Each variant -/

namespace SignatureProof

theorem verifyHost_sign {name : HostId} {key : PrivateKey} {time : Timestamp} {digest : Digest}
    {ctx : VerifyContext} {signature : Bytes} (hkey : key.IsRsa)
    (hpublic : ctx.keys.publicKey name time = .ok key.publicKey)
    (hsign : key.signDigest digest = .ok signature) :
    verifyHost signature name.toSubject time digest ctx = .ok (.host name) := by
  have hname : name.toSubject.toHost = name := rfl
  simp only [verifyHost, hname, hpublic, Except.ok_mapError, Except.ok_bind,
    hkey.verifyDigest_signDigest hsign]
  rfl

section Credentials

variable {presentations : List Bytes} {subject : SubjectId} {digest : Digest} {ctx : VerifyContext}

/-- What is accepted is what some presentation says, if it authorizes the subject. -/
theorem mem_accepted_iff {c : VerifiedCredential} :
    c ∈ accepted presentations subject digest ctx ↔
      ∃ shown ∈ presentations, ctx.credentials shown digest ctx.now = .ok c ∧
        c.Authorizes subject ctx.now := by
  simp only [accepted, List.mem_filter, List.mem_filterMap, Except.toOption_eq_some_iff,
    decide_eq_true_eq]
  constructor
  · rintro ⟨⟨shown, hshown, hc⟩, hauth⟩
    exact ⟨shown, hshown, hc, hauth⟩
  · rintro ⟨shown, hshown, hc, hauth⟩
    exact ⟨⟨shown, hshown, hc⟩, hauth⟩

/-- Credentials establish what is accepted, unless nothing is. -/
theorem verifyCredentials_eq_ok_iff {authority : Authority} :
    verifyCredentials presentations subject digest ctx = .ok authority ↔
      accepted presentations subject digest ctx ≠ [] ∧
        .credentials (accepted presentations subject digest ctx) = authority := by
  unfold verifyCredentials
  cases accepted presentations subject digest ctx with
  | nil => simp
  | cons first rest => simp

theorem accepted_ne_nil_iff :
    accepted presentations subject digest ctx ≠ [] ↔
      ∃ shown ∈ presentations, ∃ c, ctx.credentials shown digest ctx.now = .ok c ∧
        c.Authorizes subject ctx.now := by
  constructor
  · intro h
    obtain ⟨c, hc⟩ := List.exists_mem_of_ne_nil _ h
    obtain ⟨shown, hshown, hverified, hauth⟩ := mem_accepted_iff.mp hc
    exact ⟨shown, hshown, c, hverified, hauth⟩
  · rintro ⟨shown, hshown, c, hc, hauth⟩
    exact List.ne_nil_of_mem (mem_accepted_iff.mpr ⟨shown, hshown, hc, hauth⟩)

theorem verifyCredentials_of_mem {shown : Bytes} {c : VerifiedCredential}
    (hshown : shown ∈ presentations) (hc : ctx.credentials shown digest ctx.now = .ok c)
    (hauth : c.Authorizes subject ctx.now) :
    verifyCredentials presentations subject digest ctx =
      .ok (.credentials (accepted presentations subject digest ctx)) :=
  verifyCredentials_eq_ok_iff.mpr ⟨accepted_ne_nil_iff.mpr ⟨shown, hshown, c, hc, hauth⟩, rfl⟩

theorem exists_verifyCredentials_iff :
    (∃ authority, verifyCredentials presentations subject digest ctx = .ok authority) ↔
      ∃ shown ∈ presentations, ∃ c, ctx.credentials shown digest ctx.now = .ok c ∧
        c.Authorizes subject ctx.now := by
  simp only [verifyCredentials_eq_ok_iff, exists_and_left, exists_eq', and_true,
    accepted_ne_nil_iff]

end Credentials

end SignatureProof

/-! ### All variants -/

namespace Signature

/-- The proof of an honest signature establishes who signed. -/
theorem authority_sign {m : AuthMethod} {params : ProofParams} {s s' : ByteStream}
    {sig : Signature} {ctx : VerifyContext} (hsubject : sig.subject = m.subject)
    (hprove : m.prove sig.digest params s = (.ok sig.proof, s'))
    (hknown : m.KnownTo ctx sig.time sig.digest) (hbound : params.bound ≤ ctx.proofParams.bound) :
    ∃ authority, sig.authority ctx = .ok authority ∧
      VerifiedSignature.agent ⟨sig.subject, sig.time, sig.audit, authority, sig.content⟩ =
        m.agent ∧ authority.variant = m.variant := by
  unfold authority
  cases m with
  | host name key =>
    obtain ⟨signature, hsign, hproof⟩ := AuthMethod.prove_host_eq_ok hprove
    rw [hproof, hsubject]
    exact ⟨_, SignatureProof.verifyHost_sign hknown.1 hknown.2 hsign, rfl, rfl⟩
  | client subject sc =>
    obtain ⟨nonce, hroom, hlength, hproof⟩ := AuthMethod.prove_client_eq_ok hprove
    obtain ⟨host, committedAt, key, hmade, hgen, hcommitted, hactive⟩ := hknown
    obtain ⟨rfl, rfl, hvalue, rfl⟩ := hmade.spec
    rw [hproof, hsubject]
    exact ⟨_, SignatureProof.verifyClient_answer hvalue hroom hlength hbound hgen hcommitted
      hactive, rfl, rfl⟩
  | credentials subject holders =>
    obtain ⟨presentations, hpresent, hproof⟩ := AuthMethod.prove_credentials_eq_ok hprove
    obtain ⟨present, hholder, haccept⟩ := hknown
    obtain ⟨shown, hshown, hone⟩ := Except.exists_mem_of_mapM_eq_ok hpresent hholder
    obtain ⟨c, hc, hauth⟩ := haccept shown hone
    rw [hproof, hsubject]
    exact ⟨_, SignatureProof.verifyCredentials_of_mem hshown hc hauth, rfl, rfl⟩

/-- An honest signature made at a fresh time is accepted, with everything that was signed. -/
theorem verify_sign {content : Bytes} {auth : AuthContext} {time : Timestamp}
    {params : ProofParams} {s s' : ByteStream} {sig : Signature} {ctx : VerifyContext}
    (hsign : sign content auth time params s = (.ok sig, s')) (hfresh : ctx.Fresh time)
    (hbound : params.bound ≤ ctx.proofParams.bound)
    (hknown : auth.method.KnownTo ctx time (auth.statement content time).digest) :
    ∃ v, sig.verify ctx = .ok v ∧ v.subject = auth.subject ∧ v.variant = auth.variant ∧
      v.audit = auth.audit ∧ v.content = content ∧ v.agent = auth.method.agent ∧ v.time = time := by
  obtain ⟨proof, hprove, hsig, hdigest⟩ := sign_eq_ok hsign
  have hproof : sig.proof = proof := congrArg Signature.proof hsig
  have hsubject : sig.subject = auth.subject := congrArg Signature.subject hsig
  have htime : sig.time = time := congrArg Signature.time hsig
  rw [← hdigest, ← htime] at hknown
  rw [← hproof] at hprove
  obtain ⟨authority, hauthority, hagent, hvariant⟩ :=
    authority_sign hsubject hprove hknown hbound
  refine ⟨⟨sig.subject, sig.time, sig.audit, authority, sig.content⟩, ?_, hsubject, hvariant,
    congrArg Signature.audit hsig, congrArg Signature.content hsig, hagent, htime⟩
  rw [verify_of_fresh (htime ▸ hfresh), hauthority, Except.ok_map]

end Signature
end SealedEnvelope
