/-
# For how long a signature is accepted

The receiver's clock enters verification in the check of freshness and, for
credentials, in what the verifier answers and in their expiry. Nothing else
depends on it. So a signature of a host or a client is either refused at all
times or accepted, always with the same result, exactly at the times of one
interval, whose ends are sums and differences of numbers that may lie outside
the range of the clock. Credentials whose verification does not depend on the
time cut that interval off at their last expiry.

Key definitions: `VerifyContext.atTime`, `VerifyContext.span`,
`CredentialVerifier.Timeless`, `SignatureProof.expiries`.
Key theorems: `VerifyContext.fresh_atTime_iff`, `Signature.authority_atTime`,
`SignatureProof.exists_authorizes_iff`, `Signature.verify_atTime`.
-/
import Mathlib
import SealedEnvelope.Proofs.Signature.Acceptance
import SealedEnvelope.Proofs.Signature.Unique

namespace SealedEnvelope

/-! ### The clock -/

namespace VerifyContext

variable {ctx : VerifyContext} {now time : Timestamp}

/-- The same receiver at another time. -/
def atTime (ctx : VerifyContext) (now : Timestamp) : VerifyContext := { ctx with now }

/-- From the allowed skew before `time` to the end of the window behind it. -/
def span (ctx : VerifyContext) (time : Timestamp) : Set ℤ :=
  Set.Icc (time.seconds.toNat - ctx.maxClockSkew.toNat)
    (time.seconds.toNat + ctx.stalenessWindow.toNat)

theorem fresh_atTime_iff :
    (ctx.atTime now).Fresh time ↔ (now.seconds.toNat : ℤ) ∈ ctx.span time := by
  simp only [Fresh, span, Set.mem_Icc, atTime]
  omega

end VerifyContext

/-! ### Credentials -/

/-- The verifier answers the same at all times. -/
def CredentialVerifier.Timeless (verify : CredentialVerifier) : Prop :=
  ∀ shown digest t t', verify shown digest t = verify shown digest t'

namespace SignatureProof

variable {presentations : List Bytes} {subject : SubjectId} {digest : Digest} {ctx : VerifyContext}

/-- When the credentials expire that the verifier accepts for the subject. -/
def expiries (presentations : List Bytes) (subject : SubjectId) (digest : Digest)
    (ctx : VerifyContext) : Set ℤ :=
  {t | ∃ shown ∈ presentations, ∃ c, ctx.credentials shown digest ctx.now = .ok c ∧
    c.subject = subject ∧ (c.expires.seconds.toNat : ℤ) = t}

/-- Some credential has not expired yet if the one that expires last has not. -/
theorem exists_authorizes_iff {now : Timestamp} (h : ctx.credentials.Timeless) :
    (∃ shown ∈ presentations, ∃ c, ctx.credentials shown digest now = .ok c ∧
      c.Authorizes subject now) ↔
    ∃ last, IsGreatest (expiries presentations subject digest ctx) last ∧
      (now.seconds.toNat : ℤ) < last := by
  constructor
  · rintro ⟨shown, hshown, c, hc, hsubject, hexpires⟩
    have hmem : (c.expires.seconds.toNat : ℤ) ∈ expiries presentations subject digest ctx :=
      ⟨shown, hshown, c, h shown digest now ctx.now ▸ hc, hsubject, rfl⟩
    -- expiries are words, so there is a greatest one
    have hbound : ∀ t ∈ expiries presentations subject digest ctx, t ≤ (2 ^ 64 : ℤ) := by
      rintro t ⟨-, -, c, -, -, rfl⟩
      have hlt := c.expires.seconds.toNat_lt
      exact_mod_cast hlt.le
    obtain ⟨last, hlast, hgreatest⟩ := Int.exists_greatest_of_bdd ⟨_, hbound⟩ ⟨_, hmem⟩
    refine ⟨last, ⟨hlast, hgreatest⟩, lt_of_lt_of_le ?_ (hgreatest _ hmem)⟩
    exact_mod_cast Timestamp.lt_iff.mp hexpires
  · rintro ⟨last, ⟨⟨shown, hshown, c, hc, hsubject, rfl⟩, -⟩, hlt⟩
    refine ⟨shown, hshown, c, h shown digest now ctx.now ▸ hc, hsubject, ?_⟩
    exact Timestamp.lt_iff.mpr (by exact_mod_cast hlt)

end SignatureProof

/-! ### All variants -/

namespace Signature

variable {sig : Signature} {ctx : VerifyContext} {now : Timestamp}

/-- What a host or a client proves does not depend on the clock. -/
theorem authority_atTime (h : sig.variant ≠ .credentials) :
    sig.authority (ctx.atTime now) = sig.authority ctx := by
  unfold authority
  cases hproof : sig.proof with
  | host signature => rfl
  | client commitment proof => rfl
  | credentials presentations =>
    rw [variant, hproof] at h
    exact absurd rfl h

theorem exists_authority_credentials_iff {presentations : List Bytes}
    (hproof : sig.proof = .credentials presentations) (h : ctx.credentials.Timeless) :
    (∃ authority, sig.authority (ctx.atTime now) = .ok authority) ↔
      ∃ last, IsGreatest (SignatureProof.expiries presentations sig.subject sig.digest ctx) last ∧
        (now.seconds.toNat : ℤ) < last := by
  rw [← SignatureProof.exists_authorizes_iff h, authority, hproof]
  exact SignatureProof.exists_verifyCredentials_iff

/-- **Acceptance is an interval in time.** A signature of a host or a client that is accepted at
some time is accepted from the allowed skew before its own time to the end of the window behind
it, each time with the same result, and at no other time. With a verifier that answers the same at
all times, credentials are accepted in that interval before the last of their expiries. -/
theorem verify_atTime (sig : Signature) (ctx : VerifyContext) :
    (sig.variant ≠ .credentials →
      (∀ now, ∃ e, sig.verify (ctx.atTime now) = .error e) ∨
      ∃ v, ∀ now,
        ((now.seconds.toNat : ℤ) ∈ ctx.span sig.time → sig.verify (ctx.atTime now) = .ok v) ∧
        ((now.seconds.toNat : ℤ) ∉ ctx.span sig.time →
          ∃ e, sig.verify (ctx.atTime now) = .error e)) ∧
    (∀ presentations, sig.proof = .credentials presentations → ctx.credentials.Timeless →
      ∀ now, (∃ v, sig.verify (ctx.atTime now) = .ok v) ↔
        (now.seconds.toNat : ℤ) ∈ ctx.span sig.time ∧
        ∃ last, IsGreatest (SignatureProof.expiries presentations sig.subject sig.digest ctx) last ∧
          (now.seconds.toNat : ℤ) < last) := by
  constructor
  · intro hvariant
    cases hauthority : sig.authority ctx with
    | error e =>
      refine Or.inl fun now => Except.exists_eq_error_iff.mpr fun v hv => ?_
      obtain ⟨-, authority, hok, -⟩ := verify_eq_ok_iff.mp hv
      rw [authority_atTime hvariant, hauthority] at hok
      cases hok
    | ok authority =>
      refine Or.inr ⟨⟨sig.subject, sig.time, sig.audit, authority, sig.content⟩, fun now =>
        ⟨fun hin => ?_, fun hout => ?_⟩⟩
      · exact verify_eq_ok_iff.mpr ⟨VerifyContext.fresh_atTime_iff.mpr hin, authority,
          (authority_atTime hvariant).trans hauthority, rfl⟩
      · refine Except.exists_eq_error_iff.mpr fun v hv => hout ?_
        exact VerifyContext.fresh_atTime_iff.mp (verify_eq_ok_iff.mp hv).1
  · intro presentations hproof htimeless now
    rw [← exists_authority_credentials_iff hproof htimeless, ← VerifyContext.fresh_atTime_iff]
    constructor
    · rintro ⟨v, hv⟩
      obtain ⟨hfresh, authority, hauthority, -⟩ := verify_eq_ok_iff.mp hv
      exact ⟨hfresh, authority, hauthority⟩
    · rintro ⟨hfresh, authority, hauthority⟩
      exact ⟨_, verify_eq_ok_iff.mpr ⟨hfresh, authority, hauthority, rfl⟩⟩

/-! ### Two lifetimes -/

/-- A receiver that knows a host, and whose verifier reads the expiry off the presentation. -/
def readingContext : VerifyContext :=
  { tripledContext with
    credentials := fun shown _ _ => .ok ⟨⟨"s"⟩, ⟨UInt64.ofNat shown.toNat⟩⟩ }

/-- A signature that presents a credential until 120 and one until 150. -/
def twoCredentials : Signature := ⟨⟨"s"⟩, ⟨100⟩, none, .credentials [[120], [150]], []⟩

/-- A host's signature of ten seconds before the end of time is accepted until that end, and not
six seconds before it was made. Credentials until 150 are accepted at 149 and no longer at 150,
although their signature is still fresh. -/
theorem verify_atTime_end_and_expiry :
    (∃ (sig : Signature) (v : VerifiedSignature),
      sig.variant = .host ∧ sig.time = ⟨18446744073709551606⟩ ∧
      sig.verify (readingContext.atTime ⟨18446744073709551615⟩) = .ok v ∧
      ∃ e, sig.verify (readingContext.atTime ⟨18446744073709551600⟩) = .error e) ∧
    (∃ v, twoCredentials.verify (readingContext.atTime ⟨149⟩) = .ok v) ∧
    ¬ ∃ v, twoCredentials.verify (readingContext.atTime ⟨150⟩) = .ok v := by
  constructor
  · obtain ⟨sig, stream, hsign⟩ : ∃ sig s, sign [1, 2, 3] ⟨.host ⟨"h"⟩ tripledKey, none⟩
        ⟨18446744073709551606⟩ .standard (.ofFunction fun _ => 0) = (.ok sig, s) :=
      Except.exists_eq_of_isOk (by decide +kernel)
    obtain ⟨proof, hprove, hsig, -⟩ := sign_eq_ok hsign
    obtain ⟨shown, -, rfl⟩ := AuthMethod.prove_host_eq_ok hprove
    have hvariant : sig.variant = .host := by rw [hsig]; rfl
    have htime : sig.time = ⟨18446744073709551606⟩ := by rw [hsig]
    have haccepted : ∃ v, sig.verify (readingContext.atTime ⟨18446744073709551606⟩) = .ok v := by
      have hfresh : (readingContext.atTime ⟨18446744073709551606⟩).Fresh
          ⟨18446744073709551606⟩ := by decide
      obtain ⟨v, hv, -⟩ := verify_sign hsign hfresh (by decide) ⟨isRsa_tripledKey, rfl⟩
      exact ⟨v, hv⟩
    rcases (verify_atTime sig readingContext).1 (by rw [hvariant]; decide) with hnever | ⟨v, hspan⟩
    · obtain ⟨v, hv⟩ := haccepted
      obtain ⟨e, he⟩ := hnever ⟨18446744073709551606⟩
      cases hv.symm.trans he
    · rw [htime] at hspan
      exact ⟨sig, v, hvariant, htime,
        (hspan _).1 (VerifyContext.fresh_atTime_iff.mp (by decide)),
        (hspan _).2 (mt VerifyContext.fresh_atTime_iff.mpr (by decide))⟩
  · have hlast (digest : Digest) :
        IsGreatest (SignatureProof.expiries [[120], [150]] ⟨"s"⟩ digest readingContext) 150 := by
      refine ⟨⟨[150], by simp, _, rfl, rfl, rfl⟩, ?_⟩
      rintro t ⟨shown, hshown, c, hc, -, rfl⟩
      obtain rfl := Except.ok.inj hc
      simp only [List.mem_cons, List.not_mem_nil, or_false] at hshown
      rcases hshown with rfl | rfl <;> decide
    have htimeless : readingContext.credentials.Timeless := fun _ _ _ _ => rfl
    have hiff := (verify_atTime twoCredentials readingContext).2 _ rfl htimeless
    have hin : ((149 : UInt64).toNat : ℤ) ∈ readingContext.span ⟨100⟩ :=
      VerifyContext.fresh_atTime_iff.mp (by decide)
    refine ⟨(hiff ⟨149⟩).mpr ⟨hin, 150, hlast _, by decide⟩, fun haccepted => ?_⟩
    obtain ⟨-, last, hgreatest, hlt⟩ := (hiff ⟨150⟩).mp haccepted
    rw [hgreatest.unique (hlast _)] at hlt
    exact absurd hlt (by decide)

end Signature
end SealedEnvelope
