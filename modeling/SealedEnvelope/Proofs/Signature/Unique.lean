/-
# A host has one signature for a statement

The residues that a signature may spell are permuted by the public power, and
each is written with one width. So among all byte strings, of any length, the
one that the host itself would have put into a signature is the only one that
a receiver accepts for the same subject, time, audit trail and content; every
other one is refused as a signature.

Key theorems: `Signature.sign_host`, `Signature.verify_host_iff`.
-/
import Mathlib
import SealedEnvelope.Proofs.Key.Rsa
import SealedEnvelope.Proofs.Signature.Freshness
import SealedEnvelope.Proofs.Signature.Honest

namespace SealedEnvelope

namespace PrivateKey

theorem exists_signDigest {key : PrivateKey} (h : Digest.bits < key.publicKey.modulusBits)
    (digest : Digest) : ∃ signature, key.signDigest digest = .ok signature :=
  ⟨_, if_pos h⟩

end PrivateKey

namespace SignatureProof

/-- Where the host's key is found, only the digest has to verify. -/
theorem verifyHost_eq {signature : Bytes} {subject : SubjectId} {time : Timestamp}
    {digest : Digest} {ctx : VerifyContext} {key : PublicKey}
    (hkey : ctx.keys.publicKey subject.toHost time = .ok key) :
    verifyHost signature subject time digest ctx =
      ((key.verifyDigest digest signature).mapError fun e => .signature e.message).map
        fun _ => .host subject.toHost := by
  simp only [verifyHost, hkey, Except.ok_mapError, Except.ok_bind]
  cases key.verifyDigest digest signature <;> rfl

end SignatureProof

namespace Signature

/-- What a host signs for the fields of a signature is the signature with another proof. -/
theorem sign_host {sig : Signature} {shown honest : Bytes} {key : PrivateKey}
    (hproof : sig.proof = .host shown) (hsign : key.signDigest sig.digest = .ok honest)
    (params : ProofParams) (s : ByteStream) :
    sign sig.content ⟨.host sig.subject.toHost key, sig.audit⟩ sig.time params s =
      (.ok (sig.withProof (.host honest)), s) := by
  obtain ⟨subject, time, audit, proof, content⟩ := sig
  obtain rfl : proof = .host shown := hproof
  have hstatement : (AuthContext.statement ⟨.host subject.toHost key, audit⟩ content time).digest =
      digest ⟨subject, time, audit, .host shown, content⟩ := rfl
  simp only [sign, AuthMethod.prove, hstatement, hsign]
  rfl

/-- **Host signatures are unique.** If a fresh signature of a host names a subject whose key the
receiver finds, then there is one byte string that the host with the private half of this key
signs the same fields with; the signature is accepted if it shows this byte string, and refused
as a signature if it shows any other. -/
theorem verify_host_iff {sig : Signature} {shown : Bytes} {key : PrivateKey} {ctx : VerifyContext}
    (hproof : sig.proof = .host shown) (hfresh : ctx.Fresh sig.time)
    (hkey : ctx.keys.publicKey sig.subject.toHost sig.time = .ok key.publicKey)
    (hrsa : key.IsRsa) (hbits : Digest.bits < key.publicKey.modulusBits) :
    ∃ honest : Bytes,
      (∀ params s, sign sig.content ⟨.host sig.subject.toHost key, sig.audit⟩ sig.time params s =
        (.ok (sig.withProof (.host honest)), s)) ∧
      ((∃ v, sig.verify ctx = .ok v) ↔ shown = honest) ∧
      (shown ≠ honest → ∃ reason, sig.verify ctx = .error (.signature reason)) := by
  obtain ⟨honest, hsign⟩ := PrivateKey.exists_signDigest hbits sig.digest
  have hverify : sig.verify ctx =
      (((key.publicKey.verifyDigest sig.digest shown).mapError fun e =>
        EnvelopeError.signature e.message).map fun _ => Authority.host sig.subject.toHost).map
          fun authority => ⟨sig.subject, sig.time, sig.audit, authority, sig.content⟩ := by
    rw [verify_of_fresh hfresh, authority, hproof]
    simp only [SignatureProof.verifyHost_eq hkey]
  have hone : key.publicKey.verifyDigest sig.digest shown = .ok () ↔ shown = honest := by
    rw [hrsa.verifyDigest_eq_ok_iff hbits, hsign, Except.ok.injEq]
    exact eq_comm
  refine ⟨honest, sign_host hproof hsign, ?_, ?_⟩
  · rw [← hone, hverify]
    cases key.publicKey.verifyDigest sig.digest shown with
    | error e => simp
    | ok u => simp
  · intro hother
    rw [hverify]
    cases hdigest : key.publicKey.verifyDigest sig.digest shown with
    | error e => exact ⟨e.message, rfl⟩
    | ok u => exact absurd (hone.mp hdigest) hother

/-! ### A host and its one signature -/

/-- A key whose modulus is three times a Mersenne prime. -/
def tripledKey : PrivateKey where
  publicKey :=
    ⟨3 * mersenne 521, 19, 6, by decide +kernel, by decide +kernel, by decide, by decide,
      by decide +kernel⟩
  exponent := (13 * (2 * (mersenne 521 - 1)) + 1) / 19
  exponent_pos := by decide +kernel
  exponent_lt := by decide +kernel
  inverts_generator := by decide +kernel

theorem isRsa_tripledKey : tripledKey.IsRsa := by
  refine ⟨3, mersenne 521, Nat.prime_three, ?_, by decide +kernel, rfl, by decide +kernel⟩
  exact lucas_lehmer_sufficiency 521 (by norm_num) (by norm_num)

/-- A receiver that knows the key of one host. -/
def tripledContext : VerifyContext where
  now := ⟨130⟩
  stalenessWindow := 60
  maxClockSkew := 5
  proofParams := .standard
  keys := (KeyRegistry.empty.hostLocally ⟨"h"⟩ ⟨0⟩ tripledKey).chain
  credentials := .rejectAll

/-- The host's signature on three bytes, when it shows the byte string `shown`. -/
def tripledSignature (shown : Bytes) : Signature := ⟨⟨"h"⟩, ⟨100⟩, none, .host shown, [1, 2, 3]⟩

/-- The receiver accepts the host's own signature, and refuses the one that shows nothing. -/
theorem verify_host_own_and_empty :
    ∃ honest : Bytes,
      (∀ params s, sign [1, 2, 3] ⟨.host ⟨"h"⟩ tripledKey, none⟩ ⟨100⟩ params s =
        (.ok (tripledSignature honest), s)) ∧
      (∃ v, (tripledSignature honest).verify tripledContext = .ok v) ∧
      ∃ reason, (tripledSignature []).verify tripledContext = .error (.signature reason) := by
  have hfresh : tripledContext.Fresh ⟨100⟩ := by decide
  have hbits : Digest.bits < tripledKey.publicKey.modulusBits := by decide +kernel
  obtain ⟨honest, hsign, hempty, hrefused⟩ :=
    @verify_host_iff (tripledSignature []) [] tripledKey tripledContext rfl hfresh rfl
      isRsa_tripledKey hbits
  obtain ⟨honest', hsign', haccepted, -⟩ :=
    @verify_host_iff (tripledSignature honest) honest tripledKey tripledContext rfl hfresh rfl
      isRsa_tripledKey hbits
  have hsame : honest = honest' := by
    have h := (hsign .standard (.ofFunction fun _ => 0)).symm.trans
      (hsign' .standard (.ofFunction fun _ => 0))
    simpa [withProof, tripledSignature] using h
  have hne : [] ≠ honest := by
    intro h
    obtain ⟨v, hv⟩ := hempty.mpr h
    have herror : ((tripledSignature []).verify tripledContext).isOk = false := by decide +kernel
    rw [hv] at herror
    cases herror
  exact ⟨honest, hsign, haccepted.mpr hsame, hrefused hne⟩

end Signature
end SealedEnvelope
