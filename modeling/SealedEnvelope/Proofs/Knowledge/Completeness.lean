/-
# Honest proofs of knowledge

When a proof that was made with the secret is accepted. The response of an
honest proof is `s = r - x * h` over the integers, and `g ^ s * y ^ h` is
`g ^ r` again wherever `g ^ s` exists: always for a response that is not
negative, and for a negative one if the generator has an inverse. Its magnitude
stays within the bound, because a nonce has no more bits than the bound and
the product of secret and digest has fewer. So nothing but a power that is
zero, or a negative response without an inverse, stops an honest proof.

Key definition: `KnowledgeProof.answer`.
Key theorems: `KnowledgeProof.prove_eq_ok_iff`,
`KnowledgeProof.verify_eq_ok_iff`, `KnowledgeProof.verify_answer_iff`,
`KnowledgeProof.verify_prove_iff`.
-/
import Mathlib
import SealedEnvelope.Knowledge.Proof
import SealedEnvelope.Proofs.Hash.Digest
import SealedEnvelope.Proofs.Number.Inverse

namespace SealedEnvelope

theorem PublicKey.modulus_pos (key : PublicKey) : 0 < key.modulus :=
  lt_trans (by norm_num) key.three_lt_modulus

theorem PublicKey.commit_eq (key : PublicKey) (x : Secret) :
    key.commit x = key.generator ^ x.value % key.modulus :=
  powMod_eq _ _ _

/-- The bytes of a nonce have together the bits of the bound. -/
theorem ProofParams.pow_nonceLength (params : ProofParams) :
    256 ^ params.nonceLength = 2 ^ params.bound := by
  have hwhole := params.whole_bytes
  rw [nonceLength, show 256 = 2 ^ 8 by norm_num, ← pow_mul]
  congr 1
  omega

namespace KnowledgeProof

variable {key : PublicKey} {x : Secret} {message : Digest} {params : ProofParams}

/-! ### Making and checking a proof -/

/-- The proof that the nonce `r` gives: the challenge of `g ^ r` and the response to it. -/
def answer (key : PublicKey) (x : Secret) (message : Digest) (r : Nat) : KnowledgeProof :=
  let challenge := challengeOf key (powMod key.generator r key.modulus)
  ⟨challenge, r - x.value * (challenge.xor message).toNat⟩

theorem prove_eq_ok_iff {nonce : Bytes} {proof : KnowledgeProof} :
    prove key x message params nonce = .ok proof ↔
      requiredBound x ≤ params.bound ∧ nonce.length = params.nonceLength ∧
        proof = answer key x message nonce.toNat := by
  rw [prove]
  split
  · rename_i h
    simp only [reduceCtorEq, false_iff, not_and]
    omega
  · split
    · rename_i h
      simp only [reduceCtorEq, false_iff, not_and]
      exact fun _ hlen => absurd hlen h
    · rename_i hbound hlen
      simp only [Except.ok.injEq]
      constructor
      · rintro rfl
        exact ⟨by omega, Classical.not_not.mp hlen, rfl⟩
      · rintro ⟨-, -, rfl⟩
        rfl

theorem verify_eq_ok_iff {value : Nat} {proof : KnowledgeProof} :
    verify key value message proof params = .ok () ↔
      key.Contains value ∧ bitLength proof.response.natAbs ≤ params.bound ∧
        ∃ w, witness? key value proof.response (proof.challenge.xor message).toNat = some w ∧
          w ≠ 0 ∧ challengeOf key w = proof.challenge := by
  rw [verify]
  by_cases hvalue : key.Contains value
  · by_cases hbits : params.bound < bitLength proof.response.natAbs
    · simp [hvalue, hbits]
    · cases hw : witness? key value proof.response (proof.challenge.xor message).toNat with
      | none => simp [hvalue, hbits]
      | some w =>
        have hle : bitLength proof.response.natAbs ≤ params.bound := not_lt.mp hbits
        by_cases hc : w ≠ 0 ∧ challengeOf key w = proof.challenge
        · simp [hvalue, hbits, hle, hc]
        · simp [hvalue, hbits, hle, hc]
  · simp [hvalue]

/-! ### Powers of the generator -/

theorem baseFor_isSome_iff {s : Int} :
    (baseFor key s).isSome ↔ 0 ≤ s ∨ key.generator.Coprime key.modulus := by
  rw [baseFor]
  split
  · rename_i h
    rw [invMod?_isSome_iff, or_iff_right (not_le.mpr h)]
  · rename_i h
    simp [not_lt.mp h]

/-- The signed power of `r - k` takes `g ^ k` to `g ^ r`. -/
theorem pow_response_modEq {s : Int} {base r k : Nat} (hb : baseFor key s = some base)
    (hs : s = r - k) :
    base ^ s.natAbs * key.generator ^ k ≡ key.generator ^ r [MOD key.modulus] := by
  rw [baseFor] at hb
  split at hb
  · rename_i hneg
    have hk : k = s.natAbs + r := by omega
    have hinv : base * key.generator ≡ 1 [MOD key.modulus] :=
      invMod?_mul_modEq key.modulus_pos hb
    have hpow : (base * key.generator) ^ s.natAbs ≡ 1 [MOD key.modulus] := by
      have h := hinv.pow s.natAbs
      rwa [one_pow] at h
    calc base ^ s.natAbs * key.generator ^ k
        = (base * key.generator) ^ s.natAbs * key.generator ^ r := by
          rw [hk, pow_add, mul_pow, mul_assoc]
      _ ≡ 1 * key.generator ^ r [MOD key.modulus] := hpow.mul_right _
      _ = key.generator ^ r := one_mul _
  · rename_i hpos
    have hr : r = s.natAbs + k := by omega
    obtain rfl : key.generator = base := Option.some.inj hb
    rw [hr, pow_add]

/-- The residue that the verifier recomputes from an honest response is that of the nonce. -/
theorem witness?_commit {s : Int} {base r h : Nat} (hb : baseFor key s = some base)
    (hs : s = r - x.value * h) :
    witness? key (key.commit x) s h = some (key.generator ^ r % key.modulus) := by
  have hpow : base ^ s.natAbs * key.generator ^ (x.value * h) ≡ key.generator ^ r
      [MOD key.modulus] := pow_response_modEq hb (by rw [hs]; push_cast; rfl)
  have hcommit : key.commit x ^ h ≡ key.generator ^ (x.value * h) [MOD key.modulus] := by
    rw [key.commit_eq, pow_mul]
    exact (Nat.mod_modEq _ _).pow h
  have hleft : base ^ s.natAbs % key.modulus * (key.commit x ^ h % key.modulus) ≡
      base ^ s.natAbs * key.generator ^ (x.value * h) [MOD key.modulus] :=
    (Nat.mod_modEq _ _).mul ((Nat.mod_modEq _ _).trans hcommit)
  rw [witness?, hb, Option.map_some, powMod_eq, powMod_eq]
  exact congrArg some (hleft.trans hpow)

/-! ### Completeness -/

theorem toNat_nonce_lt {nonce : Bytes} (hn : nonce.length = params.nonceLength) :
    nonce.toNat < 2 ^ params.bound := by
  rw [← params.pow_nonceLength, ← hn]
  exact nonce.toNat_lt

/-- The product of a secret that the bound has room for and a digest falls short of the nonces
by the margin. -/
theorem mul_toNat_lt (hx : requiredBound x ≤ params.bound) (h : Digest) :
    x.value * h.toNat < 2 ^ (params.bound - statisticalMargin) := by
  rw [requiredBound, Digest.bits] at hx
  calc x.value * h.toNat < 2 ^ x.bits * 2 ^ 256 :=
        Nat.mul_lt_mul'' (lt_two_pow_bitLength _) (Digest.toNat_lt _)
    _ = 2 ^ (x.bits + 256) := (pow_add _ _ _).symm
    _ ≤ 2 ^ (params.bound - statisticalMargin) :=
        Nat.pow_le_pow_right (by norm_num) (by omega)

/-- The response of an honest proof has no more bits than the bound. -/
theorem bitLength_response_le {nonce : Bytes} (hx : requiredBound x ≤ params.bound)
    (hn : nonce.length = params.nonceLength) :
    bitLength (answer key x message nonce.toNat).response.natAbs ≤ params.bound := by
  set h := (challengeOf key (powMod key.generator nonce.toNat key.modulus)).xor message with hdef
  have hr : nonce.toNat < 2 ^ params.bound := toNat_nonce_lt hn
  have hxh : x.value * h.toNat < 2 ^ params.bound :=
    lt_of_lt_of_le (mul_toNat_lt hx h) (Nat.pow_le_pow_right (by norm_num) (Nat.sub_le _ _))
  rw [bitLength_le_iff]
  show ((nonce.toNat : Int) - x.value * h.toNat).natAbs < 2 ^ params.bound
  have hcast : ((nonce.toNat : Int) - x.value * h.toNat) =
      (nonce.toNat : Int) - (x.value * h.toNat : Nat) := by
    push_cast
    rfl
  rw [hcast]
  omega

/-- An honest proof is accepted, under its own bound or a greater one, unless one of the powers
is zero or the response is negative and the generator has no inverse. -/
theorem verify_answer_iff {params' : ProofParams} {nonce : Bytes}
    (hx : requiredBound x ≤ params.bound) (hn : nonce.length = params.nonceLength)
    (hle : params.bound ≤ params'.bound) :
    verify key (key.commit x) message (answer key x message nonce.toNat) params' = .ok () ↔
      key.generator ^ x.value % key.modulus ≠ 0 ∧
        key.generator ^ nonce.toNat % key.modulus ≠ 0 ∧
          (0 ≤ (answer key x message nonce.toNat).response ∨
            key.generator.Coprime key.modulus) := by
  have hbits : bitLength (answer key x message nonce.toNat).response.natAbs ≤ params'.bound :=
    le_trans (bitLength_response_le hx hn) hle
  have hcontains : key.Contains (key.commit x) ↔ key.generator ^ x.value % key.modulus ≠ 0 := by
    rw [PublicKey.Contains, key.commit_eq, Nat.pos_iff_ne_zero]
    exact and_iff_left (Nat.mod_lt _ key.modulus_pos)
  have hchallenge : (answer key x message nonce.toNat).challenge =
      challengeOf key (key.generator ^ nonce.toNat % key.modulus) := by
    rw [← powMod_eq]
    rfl
  rw [verify_eq_ok_iff, hcontains, ← baseFor_isSome_iff]
  refine and_congr_right fun _ => ?_
  rw [and_iff_right hbits]
  cases hb : baseFor key (answer key x message nonce.toNat).response with
  | none => simp [witness?, hb]
  | some base =>
    have hw : witness? key (key.commit x) (answer key x message nonce.toNat).response
        ((answer key x message nonce.toNat).challenge.xor message).toNat =
          some (key.generator ^ nonce.toNat % key.modulus) := witness?_commit hb rfl
    simp only [hw, Option.some.injEq, exists_eq_left', Option.isSome_some, and_true]
    rw [and_iff_left hchallenge.symm]

theorem pow_mod_ne_zero (hg : key.generator.Coprime key.modulus) (k : Nat) :
    key.generator ^ k % key.modulus ≠ 0 := by
  intro h
  have hdvd : key.modulus ∣ key.generator ^ k := Nat.dvd_of_mod_eq_zero h
  have hone : key.modulus ∣ 1 :=
    (Nat.Coprime.pow_left k hg).symm.dvd_of_dvd_mul_left (by rwa [mul_one])
  have := Nat.le_of_dvd Nat.one_pos hone
  have := key.three_lt_modulus
  omega

/-- An honest proof over an invertible generator is accepted, whatever the sign of the
response. -/
theorem verify_answer {params' : ProofParams} {nonce : Bytes}
    (hx : requiredBound x ≤ params.bound) (hn : nonce.length = params.nonceLength)
    (hle : params.bound ≤ params'.bound) (hg : key.generator.Coprime key.modulus) :
    verify key (key.commit x) message (answer key x message nonce.toNat) params' = .ok () :=
  (verify_answer_iff hx hn hle).mpr ⟨pow_mod_ne_zero hg _, pow_mod_ne_zero hg _, Or.inr hg⟩

/-- **Exact completeness.** A proof made with the secret is accepted for the public value of that
secret exactly if the public value and the power of the nonce are not zero and the response is
not negative or the generator has an inverse; so always over an invertible generator. -/
theorem verify_prove_iff {nonce : Bytes} {proof : KnowledgeProof}
    (h : prove key x message params nonce = .ok proof) :
    key.commit x = key.generator ^ x.value % key.modulus ∧
      (verify key (key.commit x) message proof params = .ok () ↔
        key.generator ^ x.value % key.modulus ≠ 0 ∧
          key.generator ^ nonce.toNat % key.modulus ≠ 0 ∧
            (0 ≤ proof.response ∨ key.generator.Coprime key.modulus)) ∧
      (key.generator.Coprime key.modulus →
        verify key (key.commit x) message proof params = .ok ()) := by
  obtain ⟨hx, hn, rfl⟩ := prove_eq_ok_iff.mp h
  exact ⟨key.commit_eq x, verify_answer_iff hx hn (le_refl _), verify_answer hx hn (le_refl _)⟩

/-- A key with an invertible generator. -/
def smallKey : PublicKey := ⟨2773, 17, 2, by decide, by decide, by decide, by decide, by decide⟩

/-- A key whose generator shares a factor with the modulus. -/
def degenerateKey : PublicKey := ⟨15, 3, 3, by decide, by decide, by decide, by decide, by decide⟩

/-- The least bound of whole bytes that leaves room for a secret of eight bits. -/
def smallParams : ProofParams := ⟨392, by decide, by decide⟩

/-- The nonce zero gives negative responses: accepted with an inverse, refused without. -/
theorem verify_prove_zero_nonce :
    (∃ proof, prove smallKey ⟨42, by decide⟩ (Digest.of []) smallParams (List.replicate 49 0) =
        .ok proof ∧ proof.response < 0 ∧
      verify smallKey (smallKey.commit ⟨42, by decide⟩) (Digest.of []) proof smallParams = .ok ()) ∧
    ∃ proof, prove degenerateKey ⟨1, by decide⟩ (Digest.of []) smallParams (List.replicate 49 0) =
        .ok proof ∧ proof.response < 0 ∧
      verify degenerateKey (degenerateKey.commit ⟨1, by decide⟩) (Digest.of []) proof smallParams ≠
        .ok () := by
  constructor
  · have h : prove smallKey ⟨42, by decide⟩ (Digest.of []) smallParams (List.replicate 49 0) =
        .ok (answer smallKey ⟨42, by decide⟩ (Digest.of []) (Bytes.toNat (List.replicate 49 0))) :=
      prove_eq_ok_iff.mpr ⟨by decide, by decide, rfl⟩
    exact ⟨_, h, by decide +kernel, (verify_prove_iff h).2.2 (by decide)⟩
  · have h : prove degenerateKey ⟨1, by decide⟩ (Digest.of []) smallParams (List.replicate 49 0) =
        .ok (answer degenerateKey ⟨1, by decide⟩ (Digest.of [])
          (Bytes.toNat (List.replicate 49 0))) :=
      prove_eq_ok_iff.mpr ⟨by decide, by decide, rfl⟩
    have hneg : (answer degenerateKey ⟨1, by decide⟩ (Digest.of [])
        (Bytes.toNat (List.replicate 49 0))).response < 0 := by decide +kernel
    refine ⟨_, h, hneg, fun hv => ?_⟩
    rcases ((verify_prove_iff h).2.1.mp hv).2.2 with hpos | hcoprime
    · exact absurd hpos (not_le.mpr hneg)
    · exact absurd hcoprime (by decide)

end KnowledgeProof
end SealedEnvelope
