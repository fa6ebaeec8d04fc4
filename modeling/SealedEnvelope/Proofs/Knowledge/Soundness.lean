/-
# Two proofs with one challenge

A challenge is the hash of the residue that the verifier recomputes. If two
proofs with the same challenge are accepted for one value, the two residues
`g ^ s * y ^ h` are the same, or their encodings are a collision. That is what
makes an accepted proof a proof of knowledge. It is also the price of using a
nonce twice: the challenge depends on the nonce alone, so two proofs from one
nonce are such a pair, and the difference of their responses is a multiple of
the secret by a number that everybody knows.

Key theorems: `KnowledgeProof.residue_eq_or_collision`,
`KnowledgeProof.response_sub_response`, `KnowledgeProof.secret_of_reused_nonce`,
`KnowledgeProof.special_soundness`.
-/
import Mathlib
import SealedEnvelope.Proofs.Key.Rsa
import SealedEnvelope.Proofs.Knowledge.Transcripts

namespace SealedEnvelope

namespace KnowledgeProof

variable {key : PublicKey} {value : Nat} {params : ProofParams} {x : Secret} {m₁ m₂ : Digest}
  {p₁ p₂ : KnowledgeProof} {nonce : Bytes}

/-- The digest that a proof answers for a message: the challenge exclusive-or the message. -/
def digestFor (proof : KnowledgeProof) (message : Digest) : Nat :=
  (proof.challenge.xor message).toNat

/-! ### Accepted proofs -/

/-- Residues with one challenge are equal or encoded as a collision. -/
theorem eq_or_collision_of_challengeOf {v w : ZMod key.modulus}
    (h : challengeOf key v.val = challengeOf key w.val) :
    v = w ∨ Collision (key.encodeElement v.val) (key.encodeElement w.val) := by
  have : NeZero key.modulus := ⟨key.modulus_pos.ne'⟩
  refine (Digest.of_inj_or_collision h).imp_left fun henc => ?_
  exact ZMod.val_injective _ (PublicKey.encodeElement_inj (ZMod.val_lt v) (ZMod.val_lt w) henc)

/-- Two accepted proofs with one challenge have one residue, or a collision is found. -/
theorem residue_eq_or_collision (ht : p₁.challenge = p₂.challenge)
    (h₁ : verify key value m₁ p₁ params = .ok ()) (h₂ : verify key value m₂ p₂ params = .ok ()) :
    residue key value p₁.response (p₁.digestFor m₁) =
        residue key value p₂.response (p₂.digestFor m₂) ∨
      Collision (key.encodeElement (residue key value p₁.response (p₁.digestFor m₁)).val)
        (key.encodeElement (residue key value p₂.response (p₂.digestFor m₂)).val) := by
  obtain ⟨-, -, -, -, hc₁⟩ := verify_eq_ok_iff_residue.mp h₁
  obtain ⟨-, -, -, -, hc₂⟩ := verify_eq_ok_iff_residue.mp h₂
  exact eq_or_collision_of_challengeOf (hc₁.trans (ht.trans hc₂.symm))

/-! ### One nonce for two messages -/

theorem digestFor_ne (ht : p₁.challenge = p₂.challenge) (hm : m₁ ≠ m₂) :
    p₁.digestFor m₁ ≠ p₂.digestFor m₂ := by
  intro h
  have hxor : p₁.challenge.xor m₁ = p₁.challenge.xor m₂ := by
    rw [digestFor, digestFor, ← ht] at h
    exact Digest.toNat_injective h
  have hback : m₁ = p₁.challenge.xor (p₁.challenge.xor m₂) := Digest.xor_eq_iff.mp hxor
  exact hm (hback.trans (Digest.xor_eq_iff.mp rfl).symm)

theorem challenge_eq_of_prove (h₁ : prove key x m₁ params nonce = .ok p₁)
    (h₂ : prove key x m₂ params nonce = .ok p₂) : p₁.challenge = p₂.challenge := by
  obtain ⟨-, -, rfl⟩ := prove_eq_ok_iff.mp h₁
  obtain ⟨-, -, rfl⟩ := prove_eq_ok_iff.mp h₂
  rfl

theorem response_of_prove (h : prove key x m₁ params nonce = .ok p₁) :
    p₁.response = nonce.toNat - x.value * p₁.digestFor m₁ := by
  obtain ⟨-, -, rfl⟩ := prove_eq_ok_iff.mp h
  rfl

/-- The residue that is recomputed from an honest response is the power of the nonce. -/
theorem val_residue_of_prove (h : prove key x m₁ params nonce = .ok p₁)
    (hexists : PowerExists key p₁.response) :
    (residue key (key.commit x) p₁.response (p₁.digestFor m₁)).val =
      key.generator ^ nonce.toNat % key.modulus := by
  have hw := witness?_eq_some_iff.mpr ⟨hexists, Eq.refl
    (residue key (key.commit x) p₁.response (p₁.digestFor m₁)).val⟩
  obtain ⟨base, hb, -⟩ := Option.map_eq_some_iff.mp hw
  exact Option.some.inj (hw.symm.trans (witness?_commit hb (response_of_prove h)))

/-- The responses of proofs from one nonce differ by the secret times the difference of their
digests, the other way round. -/
theorem response_sub_response (h₁ : prove key x m₁ params nonce = .ok p₁)
    (h₂ : prove key x m₂ params nonce = .ok p₂) :
    p₁.response - p₂.response = x.value * ((p₂.digestFor m₂ : Int) - p₁.digestFor m₁) := by
  rw [response_of_prove h₁, response_of_prove h₂]
  ring

/-- Whoever sees proofs for two messages from one nonce can compute the secret. -/
theorem secret_of_reused_nonce (hm : m₁ ≠ m₂) (h₁ : prove key x m₁ params nonce = .ok p₁)
    (h₂ : prove key x m₂ params nonce = .ok p₂) :
    (p₁.response - p₂.response) / ((p₂.digestFor m₂ : Int) - p₁.digestFor m₁) = x.value := by
  have hne : (p₂.digestFor m₂ : Int) - p₁.digestFor m₁ ≠ 0 := by
    have := digestFor_ne (challenge_eq_of_prove h₁ h₂) hm
    omega
  rw [response_sub_response h₁ h₂, Int.mul_ediv_cancel _ hne]

/-! ### Both -/

/-- **Special soundness and the cost of using a nonce twice.** Two accepted proofs with one
challenge have one residue `g ^ s * y ^ h`, where the powers exist, or the encodings of the two
residues are a collision. Two proofs that are made with one secret from one nonce for different
messages have one challenge and different digests, and the difference of the responses is the
secret times the difference of the digests. -/
theorem special_soundness (key : PublicKey) (params : ProofParams) :
    (∀ (value : Nat) (m₁ m₂ : Digest) (p₁ p₂ : KnowledgeProof), p₁.challenge = p₂.challenge →
      verify key value m₁ p₁ params = .ok () → verify key value m₂ p₂ params = .ok () →
        PowerExists key p₁.response ∧ PowerExists key p₂.response ∧
          (residue key value p₁.response (p₁.digestFor m₁) =
              residue key value p₂.response (p₂.digestFor m₂) ∨
            Collision (key.encodeElement (residue key value p₁.response (p₁.digestFor m₁)).val)
              (key.encodeElement (residue key value p₂.response (p₂.digestFor m₂)).val))) ∧
    ∀ (x : Secret) (nonce : Bytes) (m₁ m₂ : Digest) (p₁ p₂ : KnowledgeProof), m₁ ≠ m₂ →
      prove key x m₁ params nonce = .ok p₁ → prove key x m₂ params nonce = .ok p₂ →
        p₁.challenge = p₂.challenge ∧ p₁.digestFor m₁ ≠ p₂.digestFor m₂ ∧
          p₁.response - p₂.response =
            x.value * ((p₂.digestFor m₂ : Int) - p₁.digestFor m₁) := by
  constructor
  · intro value m₁ m₂ p₁ p₂ ht h₁ h₂
    have hexists {m : Digest} {p : KnowledgeProof} (h : verify key value m p params = .ok ()) :
        PowerExists key p.response := (verify_eq_ok_iff_residue.mp h).2.2.1
    exact ⟨hexists h₁, hexists h₂, residue_eq_or_collision ht h₁ h₂⟩
  · intro x nonce m₁ m₂ p₁ p₂ hm h₁ h₂
    have ht := challenge_eq_of_prove h₁ h₂
    exact ⟨ht, digestFor_ne ht hm, response_sub_response h₁ h₂⟩

/-! ### The nonce zero

The challenge is the hash of `g ^ 0`, and the responses are negative. -/

/-- A secret of five bits. -/
def smallSecret : Secret := ⟨23, by decide⟩

/-- The proof of knowing the small secret that the nonce zero gives for a message. -/
def zeroNonceProof (message : Digest) : KnowledgeProof := answer smallKey smallSecret message 0

theorem prove_zeroNonce (message : Digest) :
    prove smallKey smallSecret message smallParams (List.replicate 49 0) =
      .ok (zeroNonceProof message) :=
  prove_eq_ok_iff.mpr ⟨by decide, by decide,
    congrArg (answer _ _ message) (show 0 = Bytes.toNat (List.replicate 49 0) by decide)⟩

/-- Two messages proved for with the nonce zero: both proofs are accepted, the residues are the
same, and the responses give the secret away. -/
theorem special_soundness_zeroNonce :
    verify smallKey (smallKey.commit smallSecret) (Digest.of [])
      (zeroNonceProof (Digest.of [])) smallParams = .ok () ∧
    verify smallKey (smallKey.commit smallSecret) (Digest.of [1])
      (zeroNonceProof (Digest.of [1])) smallParams = .ok () ∧
    residue smallKey (smallKey.commit smallSecret) (zeroNonceProof (Digest.of [])).response
        ((zeroNonceProof (Digest.of [])).digestFor (Digest.of [])) =
      residue smallKey (smallKey.commit smallSecret) (zeroNonceProof (Digest.of [1])).response
        ((zeroNonceProof (Digest.of [1])).digestFor (Digest.of [1])) ∧
    (zeroNonceProof (Digest.of [])).response - (zeroNonceProof (Digest.of [1])).response =
      smallSecret.value * (((zeroNonceProof (Digest.of [1])).digestFor (Digest.of [1]) : Int) -
        (zeroNonceProof (Digest.of [])).digestFor (Digest.of [])) := by
  have hv (message : Digest) : verify smallKey (smallKey.commit smallSecret) message
      (zeroNonceProof message) smallParams = .ok () :=
    @verify_answer smallKey smallSecret message smallParams smallParams (List.replicate 49 0)
      (by decide) (by decide) (le_refl _) (by decide)
  have hchallenge := challenge_eq_of_prove (prove_zeroNonce (Digest.of []))
    (prove_zeroNonce (Digest.of [1]))
  obtain ⟨-, -, hresidue⟩ := (special_soundness smallKey smallParams).1 _ _ _ _ _ hchallenge
    (hv (Digest.of [])) (hv (Digest.of [1]))
  obtain ⟨-, -, hresponse⟩ := (special_soundness smallKey smallParams).2 _ _ _ _ _ _
    (by decide +kernel) (prove_zeroNonce (Digest.of [])) (prove_zeroNonce (Digest.of [1]))
  have hone (message : Digest) := val_residue_of_prove (prove_zeroNonce message) fun _ => by decide
  refine ⟨hv _, hv _, hresidue.resolve_right ?_, hresponse⟩
  rw [hone, hone]
  exact fun hcollision => hcollision.1 rfl

end KnowledgeProof
end SealedEnvelope
