/-
# Which credentials count

Credentials are verified one by one, each for itself. A presentation that the
verifier rejects, or that speaks of somebody else or of a time that is over,
neither counts nor stands in the way of the others. So the authority lists what
the presentations that count say, in their order and as often as they are
shown, and showing more presentations, in whatever order, takes nothing away.

Key definitions: `SignatureProof.Grants`, `SignatureProof.Counts`.
Key theorems: `SignatureProof.forall₂_accepted`,
`SignatureProof.accepted_subperm`, `Signature.verify_credentials_iff`.
-/
import Mathlib
import SealedEnvelope.Proofs.Signature.Acceptance

namespace SealedEnvelope
namespace SignatureProof

/-! ### One presentation -/

variable {ctx : VerifyContext} {subject : SubjectId} {digest : Digest} {shown : Bytes}
  {c : VerifiedCredential} {presentations presentations' : List Bytes}

/-- The verifier reads `c` off what is shown over `digest`, and `c` is the subject's own and has
not expired. -/
def Grants (ctx : VerifyContext) (subject : SubjectId) (digest : Digest) (shown : Bytes)
    (c : VerifiedCredential) : Prop :=
  ctx.credentials shown digest ctx.now = .ok c ∧ c.subject = subject ∧ ctx.now < c.expires

/-- What is shown grants something. -/
def Counts (ctx : VerifyContext) (subject : SubjectId) (digest : Digest) (shown : Bytes) : Prop :=
  ∃ c, Grants ctx subject digest shown c

theorem counts_iff_of_ok (h : ctx.credentials shown digest ctx.now = .ok c) :
    Counts ctx subject digest shown ↔ c.Authorizes subject ctx.now := by
  constructor
  · rintro ⟨c', hc', hauth⟩
    obtain rfl : c = c' := Except.ok.inj (h.symm.trans hc')
    exact hauth
  · exact fun hauth => ⟨c, h, hauth⟩

theorem not_counts_of_error {e : CredentialError}
    (h : ctx.credentials shown digest ctx.now = .error e) : ¬ Counts ctx subject digest shown := by
  rintro ⟨c, hc, -⟩
  cases h.symm.trans hc

instance : Decidable (Counts ctx subject digest shown) :=
  match h : ctx.credentials shown digest ctx.now with
  | .error _ => isFalse (not_counts_of_error h)
  | .ok c => decidable_of_iff (c.Authorizes subject ctx.now) (counts_iff_of_ok h).symm

/-! ### All presentations -/

theorem accepted_cons_of_grants (h : Grants ctx subject digest shown c) :
    accepted (shown :: presentations) subject digest ctx =
      c :: accepted presentations subject digest ctx := by
  have hauth : c.Authorizes subject ctx.now := h.2
  simp [accepted, h.1, Except.toOption, hauth]

theorem accepted_cons_of_not_counts (h : ¬ Counts ctx subject digest shown) :
    accepted (shown :: presentations) subject digest ctx =
      accepted presentations subject digest ctx := by
  cases hc : ctx.credentials shown digest ctx.now with
  | error e => simp [accepted, hc, Except.toOption]
  | ok c =>
    rw [counts_iff_of_ok hc] at h
    simp [accepted, hc, Except.toOption, h]

/-- What is accepted is granted one by one by the presentations that count. -/
theorem forall₂_accepted (ctx : VerifyContext) (subject : SubjectId) (digest : Digest)
    (presentations : List Bytes) :
    List.Forall₂ (Grants ctx subject digest)
      (presentations.filter fun shown => Counts ctx subject digest shown)
      (accepted presentations subject digest ctx) := by
  induction presentations with
  | nil => exact .nil
  | cons shown rest ih =>
    by_cases hcounts : Counts ctx subject digest shown
    · obtain ⟨c, hc⟩ := hcounts
      have hcounts : Counts ctx subject digest shown := ⟨c, hc⟩
      rw [List.filter_cons_of_pos (by simpa using hcounts), accepted_cons_of_grants hc]
      exact .cons hc ih
    · rw [List.filter_cons_of_neg (by simpa using hcounts), accepted_cons_of_not_counts hcounts]
      exact ih

theorem accepted_subperm (h : presentations.Subperm presentations') :
    (accepted presentations subject digest ctx).Subperm
      (accepted presentations' subject digest ctx) := by
  obtain ⟨middle, hperm, hsub⟩ := h
  refine List.Subperm.filter _ ⟨middle.filterMap _, hperm.filterMap _, hsub.filterMap _⟩

end SignatureProof

/-! ### The signature -/

namespace Signature

open SignatureProof (Grants Counts accepted accepted_ne_nil_iff accepted_subperm forall₂_accepted)

variable {sig : Signature} {ctx : VerifyContext} {presentations : List Bytes}
  {v : VerifiedSignature}

/-- Presentations are not part of what they are shown for. -/
theorem digest_withProof_credentials (hproof : sig.proof = .credentials presentations)
    (presentations' : List Bytes) :
    (sig.withProof (.credentials presentations')).digest = sig.digest := by
  simp only [digest, statement, variant, withProof, hproof]
  rfl

/-- Credentials are accepted with what they grant, unless they grant nothing. -/
theorem verify_eq_ok_iff_credentials (hproof : sig.proof = .credentials presentations) :
    sig.verify ctx = .ok v ↔
      ctx.Fresh sig.time ∧ accepted presentations sig.subject sig.digest ctx ≠ [] ∧
        ⟨sig.subject, sig.time, sig.audit,
          .credentials (accepted presentations sig.subject sig.digest ctx), sig.content⟩ = v := by
  simp only [verify_eq_ok_iff, authority, hproof, SignatureProof.verifyCredentials_eq_ok_iff,
    and_assoc, exists_and_left, exists_eq_left']

/-- **Which credentials a signature is accepted for.** A fresh signature that shows presentations
is accepted if one of them is verified over its digest, with its subject and an expiry after the
receiver's time. The authority then lists what all of these presentations say, one by one in their
order. With further presentations, and in any order, the signature is accepted as well, with
nothing missing from the list. -/
theorem verify_credentials_iff (hproof : sig.proof = .credentials presentations)
    (hfresh : ctx.Fresh sig.time) :
    ((∃ v, sig.verify ctx = .ok v) ↔ ∃ shown ∈ presentations, ∃ c,
      ctx.credentials shown sig.digest ctx.now = .ok c ∧ c.subject = sig.subject ∧
        ctx.now < c.expires) ∧
    (∀ v, sig.verify ctx = .ok v → ∃ results, v.authority = .credentials results ∧
      List.Forall₂ (Grants ctx sig.subject sig.digest)
        (presentations.filter fun shown => Counts ctx sig.subject sig.digest shown) results) ∧
    (∀ presentations', presentations.Subperm presentations' → ∀ v, sig.verify ctx = .ok v →
      ∃ v' results results', (sig.withProof (.credentials presentations')).verify ctx = .ok v' ∧
        v.authority = .credentials results ∧ v'.authority = .credentials results' ∧
        results.Subperm results') := by
  refine ⟨?_, fun v hv => ?_, fun presentations' hmore v hv => ?_⟩
  · constructor
    · rintro ⟨v, hv⟩
      exact accepted_ne_nil_iff.mp ((verify_eq_ok_iff_credentials hproof).mp hv).2.1
    · intro h
      exact ⟨_, (verify_eq_ok_iff_credentials hproof).mpr
        ⟨hfresh, accepted_ne_nil_iff.mpr h, rfl⟩⟩
  · obtain ⟨-, -, rfl⟩ := (verify_eq_ok_iff_credentials hproof).mp hv
    exact ⟨_, rfl, forall₂_accepted ..⟩
  · obtain ⟨-, hne, rfl⟩ := (verify_eq_ok_iff_credentials hproof).mp hv
    have hsub : (accepted presentations sig.subject sig.digest ctx).Subperm
        (accepted presentations' sig.subject sig.digest ctx) := accepted_subperm hmore
    have hne' : accepted presentations' sig.subject sig.digest ctx ≠ [] :=
      fun hnil => hne (List.subperm_nil.mp (hnil ▸ hsub))
    have hverify : (sig.withProof (.credentials presentations')).verify ctx = .ok
        ⟨sig.subject, sig.time, sig.audit,
          .credentials (accepted presentations' sig.subject sig.digest ctx), sig.content⟩ := by
      rw [← digest_withProof_credentials hproof presentations'] at hne' ⊢
      exact (verify_eq_ok_iff_credentials rfl).mpr ⟨hfresh, hne', rfl⟩
    exact ⟨_, _, _, hverify, rfl, rfl, hsub⟩

/-! ### A list of all kinds -/

/-- A receiver at 130 whose verifier rejects the empty string, takes one byte for the expiry of a
credential of the subject, and anything longer for a credential of somebody else. -/
def bytewiseContext : VerifyContext where
  now := ⟨130⟩
  stalenessWindow := 60
  maxClockSkew := 5
  proofParams := .standard
  keys := KeyRegistry.empty.chain
  credentials := fun shown _ _ =>
    match shown with
    | [] => .error (.rejected "empty")
    | [expires] => .ok ⟨⟨"s"⟩, ⟨expires.toUInt64⟩⟩
    | _ => .ok ⟨⟨"t"⟩, ⟨200⟩⟩

/-- A signature without content that shows presentations. -/
def showing (presentations : List Bytes) : Signature :=
  ⟨⟨"s"⟩, ⟨100⟩, none, .credentials presentations, []⟩

/-- A credential until 200 counts each time that it is shown. One that is rejected, one that
expires just then and one of somebody else do not, and do not keep the others from counting, in
whatever order. -/
theorem verify_credentials_among_others :
    (∃ v v', (showing [[], [200], [200]]).verify bytewiseContext = .ok v ∧
      v.authority = .credentials [⟨⟨"s"⟩, ⟨200⟩⟩, ⟨⟨"s"⟩, ⟨200⟩⟩] ∧
      (showing [[200], [1, 2], [130], [200], []]).verify bytewiseContext = .ok v') ∧
    ¬ ∃ v, (showing [[], [130], [1, 2]]).verify bytewiseContext = .ok v := by
  have hfresh : bytewiseContext.Fresh ⟨100⟩ := by decide
  constructor
  · obtain ⟨hiff, hlist, hmore⟩ :=
      @verify_credentials_iff (showing [[], [200], [200]]) bytewiseContext _ rfl hfresh
    obtain ⟨v, hv⟩ := hiff.mpr ⟨[200], by decide, ⟨⟨"s"⟩, ⟨200⟩⟩, rfl, rfl, by decide⟩
    obtain ⟨results, hauthority, hresults⟩ := hlist v hv
    obtain ⟨v', -, -, hv', -⟩ := hmore [[200], [1, 2], [130], [200], []]
      ⟨[[200], [200], []], by decide, by decide⟩ v hv
    refine ⟨v, v', hv, ?_, hv'⟩
    -- two of the three presentations count
    change List.Forall₂ _ [[200], [200]] results at hresults
    obtain _ | ⟨hfirst, _ | ⟨hsecond, ⟨⟩⟩⟩ := hresults
    rw [hauthority, ← Except.ok.inj hfirst.1, ← Except.ok.inj hsecond.1]
    rfl
  · rw [(@verify_credentials_iff (showing [[], [130], [1, 2]]) bytewiseContext _ rfl hfresh).1]
    rintro ⟨shown, hshown, c, hc, hsubject, hexpires⟩
    simp only [List.mem_cons, List.not_mem_nil, or_false] at hshown
    rcases hshown with rfl | rfl | rfl
    · cases hc
    · obtain rfl := Except.ok.inj hc
      exact absurd hexpires (by decide)
    · obtain rfl := Except.ok.inj hc
      exact absurd hsubject (by decide)

end Signature
end SealedEnvelope
