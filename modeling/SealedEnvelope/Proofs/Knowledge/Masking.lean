/-
# The nonce masks the secret

A response is the nonce less the product of the secret and a digest. The bound
on nonces leaves a margin of 128 bits above every such product, also above
those with digests that depend on the nonce. So the response lies within one
part in `2 ^ 128` of the range of nonces below its nonce, whatever the secret
is, and of all nonces no more than one in `2 ^ 128` is so small that the
response turns negative.

Key definitions: `ProofParams.nonces`, `KnowledgeProof.negativeNonces`.
Key theorems: `Bytes.image_toNat_length_eq`, `ProofParams.encard_nonces`,
`KnowledgeProof.toNat_lt_of_negative`, `KnowledgeProof.response_masked`.
-/
import Mathlib
import SealedEnvelope.Proofs.Knowledge.Soundness

namespace SealedEnvelope

/-! ### Counting byte strings -/

theorem encard_Iio (n : Nat) : (Set.Iio n).encard = n := by
  rw [← (Set.finite_Iio n).cast_ncard_eq, Set.ncard_Iio_nat]

namespace Bytes

theorem injOn_toNat_length_eq (n : Nat) : Set.InjOn toNat {b : Bytes | b.length = n} :=
  fun _ ha _ hb => toNat_inj (Eq.trans ha (Eq.symm hb))

theorem image_toNat_length_eq (n : Nat) :
    toNat '' {b : Bytes | b.length = n} = Set.Iio (256 ^ n) := by
  ext m
  constructor
  · rintro ⟨b, rfl, rfl⟩
    exact b.toNat_lt
  · exact fun hm => ⟨ofNatWidth n m, length_ofNatWidth n m, toNat_ofNatWidth_of_lt hm⟩

theorem encard_le_of_toNat_lt {s : Set Bytes} {n m : Nat} (hlength : ∀ b ∈ s, b.length = n)
    (hlt : ∀ b ∈ s, b.toNat < m) : s.encard ≤ m := by
  have hinj : Set.InjOn toNat s := (injOn_toNat_length_eq n).mono hlength
  calc s.encard = (toNat '' s).encard := hinj.encard_image.symm
    _ ≤ (Set.Iio m).encard := Set.encard_le_encard (Set.image_subset_iff.mpr hlt)
    _ = m := encard_Iio m

end Bytes

/-! ### Nonces -/

/-- The byte strings that can be nonces. -/
def ProofParams.nonces (params : ProofParams) : Set Bytes :=
  {nonce | nonce.length = params.nonceLength}

theorem ProofParams.encard_nonces (params : ProofParams) :
    params.nonces.encard = (2 ^ params.bound : Nat) := by
  rw [nonces, ← (Bytes.injOn_toNat_length_eq _).encard_image, Bytes.image_toNat_length_eq,
    params.pow_nonceLength, encard_Iio]

namespace KnowledgeProof

variable {key : PublicKey} {x : Secret} {message : Digest} {params : ProofParams} {nonce : Bytes}
  {proof : KnowledgeProof}

/-- The nonces from which a proof with a negative response is made. -/
def negativeNonces (key : PublicKey) (x : Secret) (message : Digest) (params : ProofParams) :
    Set Bytes :=
  {nonce | ∃ proof, prove key x message params nonce = .ok proof ∧ proof.isNegative = true}

theorem negativeNonces_subset : negativeNonces key x message params ⊆ params.nonces := by
  rintro nonce ⟨proof, hprove, -⟩
  exact (prove_eq_ok_iff.mp hprove).2.1

/-- What is subtracted from the nonce falls short of the bound by the margin. -/
theorem mul_digestFor_lt (h : prove key x message params nonce = .ok proof) :
    x.value * proof.digestFor message < 2 ^ (params.bound - 128) :=
  mul_toNat_lt (prove_eq_ok_iff.mp h).1 _

theorem response_le (h : prove key x message params nonce = .ok proof) :
    proof.response ≤ nonce.toNat := by
  have hresponse := response_of_prove h
  have hproduct : (0 : Int) ≤ x.value * proof.digestFor message := by positivity
  omega

theorem sub_lt_response (h : prove key x message params nonce = .ok proof) :
    (nonce.toNat : Int) - (2 ^ (params.bound - 128) : Nat) < proof.response := by
  have hresponse := response_of_prove h
  have hproduct : ((x.value * proof.digestFor message : Nat) : Int) <
      (2 ^ (params.bound - 128) : Nat) := by
    exact_mod_cast mul_digestFor_lt h
  rw [Nat.cast_mul] at hproduct
  omega

/-- A nonce that gives a negative response has no bit above the margin. -/
theorem toNat_lt_of_negative (h : nonce ∈ negativeNonces key x message params) :
    nonce.toNat < 2 ^ (params.bound - 128) := by
  obtain ⟨proof, hprove, hnegative⟩ := h
  have hlt := sub_lt_response hprove
  have hneg : proof.response < 0 := by simpa [isNegative] using hnegative
  omega

/-- **The response stays masked.** The product of the secret and the digest that is answered is
below `2 ^ (B - 128)`, where the nonces are all numbers below `2 ^ B`; the response is at most its
nonce, and above it less `2 ^ (B - 128)`; and no more than `2 ^ (B - 128)` nonces give a negative
response. -/
theorem response_masked (key : PublicKey) (x : Secret) (message : Digest) (params : ProofParams) :
    (∀ nonce proof, prove key x message params nonce = .ok proof →
      x.value * proof.digestFor message < 2 ^ (params.bound - 128) ∧
        (nonce.toNat : Int) - (2 ^ (params.bound - 128) : Nat) < proof.response ∧
        proof.response ≤ nonce.toNat) ∧
    params.nonces.encard = (2 ^ params.bound : Nat) ∧
    (negativeNonces key x message params).encard ≤ (2 ^ (params.bound - 128) : Nat) := by
  refine ⟨fun nonce proof h => ⟨mul_digestFor_lt h, sub_lt_response h, response_le h⟩,
    params.encard_nonces, ?_⟩
  exact Bytes.encard_le_of_toNat_lt negativeNonces_subset fun _ => toNat_lt_of_negative

/-! ### A nonce below the margin and one above it -/

theorem prove_oneNonce (message : Digest) :
    ∃ proof,
      prove smallKey smallSecret message smallParams (1 :: List.replicate 48 0) = .ok proof :=
  ⟨_, prove_eq_ok_iff.mpr ⟨by decide, by decide, rfl⟩⟩

/-- Under a bound of 392 bits the nonce zero is among at most `2 ^ 264` that give a negative
response, which is above `-2 ^ 264`. The nonce `2 ^ 384` gives a positive one. -/
theorem response_masked_zero_and_one :
    List.replicate 49 0 ∈ negativeNonces smallKey smallSecret (Digest.of []) smallParams ∧
    (negativeNonces smallKey smallSecret (Digest.of []) smallParams).encard ≤
      (2 ^ (smallParams.bound - 128) : Nat) ∧
    -(2 ^ (smallParams.bound - 128) : Int) < (zeroNonceProof (Digest.of [])).response ∧
    ∃ proof, prove smallKey smallSecret (Digest.of []) smallParams (1 :: List.replicate 48 0) =
        .ok proof ∧ 0 < proof.response := by
  obtain ⟨hbounds, -, hcount⟩ := response_masked smallKey smallSecret (Digest.of []) smallParams
  have hnegative : (zeroNonceProof (Digest.of [])).isNegative = true := by decide +kernel
  obtain ⟨proof, hproof⟩ := prove_oneNonce (Digest.of [])
  obtain ⟨-, hzero, -⟩ := hbounds _ _ (prove_zeroNonce (Digest.of []))
  obtain ⟨-, hone, -⟩ := hbounds _ _ hproof
  refine ⟨⟨_, prove_zeroNonce _, hnegative⟩, hcount, ?_, proof, hproof, ?_⟩
  · have hnonce : Bytes.toNat (List.replicate 49 0) = 0 := by decide
    rw [hnonce] at hzero
    simpa using hzero
  · have hnonce : Bytes.toNat (1 :: List.replicate 48 0) = 256 ^ 48 := by decide
    have hmargin : smallParams.bound - 128 = 264 := rfl
    rw [hnonce, hmargin] at hone
    norm_num at hone
    omega

end KnowledgeProof
end SealedEnvelope
