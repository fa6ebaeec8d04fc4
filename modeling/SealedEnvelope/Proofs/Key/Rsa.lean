/-
# Keys whose exponents are inverse

For a modulus that is a product of two distinct primes and exponents that are
inverse to each other modulo the product of the primes' predecessors, the
private power undoes the public power and the public power the private one, on
every residue, also on those that share a factor with the modulus. So a digest
that is signed verifies, under no other signature, a symmetric key that is
wrapped is unwrapped, and nothing else is unwrapped to it.

Key definition: `PrivateKey.IsRsa`.
Key theorems: `PrivateKey.IsRsa.pow_mul_modEq`,
`PrivateKey.IsRsa.verifyDigest_signDigest`,
`PrivateKey.IsRsa.verifyDigest_eq_ok_iff`,
`PrivateKey.IsRsa.unwrapKey_wrapKey`,
`PrivateKey.IsRsa.wrapKey_of_unwrapKey`.
-/
import Mathlib
import SealedEnvelope.Key.Cache
import SealedEnvelope.Proofs.Outcome
import SealedEnvelope.Proofs.Key.Element
import SealedEnvelope.Proofs.Knowledge.Completeness

namespace SealedEnvelope

/-! ### Powers -/

/-- Powers with the exponent one more than a multiple of `p - 1` change nothing modulo `p`. -/
theorem pow_succ_mul_modEq {p : Nat} (hp : p.Prime) (x k : Nat) :
    x ^ (1 + (p - 1) * k) ≡ x [MOD p] := by
  by_cases hx : x.Coprime p
  · have hfermat : x ^ (p - 1) ≡ 1 [MOD p] := by
      have h := Nat.ModEq.pow_totient hx
      rwa [Nat.totient_prime hp] at h
    have hpow : x * (x ^ (p - 1)) ^ k ≡ x * 1 ^ k [MOD p] := (hfermat.pow k).mul_left x
    rw [pow_add, pow_one, pow_mul]
    rwa [one_pow, mul_one] at hpow
  · -- then `p` divides `x`, and both sides are zero
    have hdvd : p ∣ x := by
      rw [Nat.coprime_comm, hp.coprime_iff_not_dvd, not_not] at hx
      exact hx
    have hleft : x ^ (1 + (p - 1) * k) ≡ 0 [MOD p] :=
      Nat.modEq_zero_iff_dvd.mpr (dvd_pow hdvd (by omega))
    exact hleft.trans (Nat.modEq_zero_iff_dvd.mpr hdvd).symm

theorem pow_mul_modEq_of_primes {p q e d : Nat} (hp : p.Prime) (hq : q.Prime) (hne : p ≠ q)
    (hpos : 0 < e * d) (hed : e * d ≡ 1 [MOD (p - 1) * (q - 1)]) (x : Nat) :
    x ^ (e * d) ≡ x [MOD p * q] := by
  obtain ⟨m, hm⟩ := (Nat.modEq_iff_dvd' hpos).mp hed.symm
  have hexp : e * d = 1 + (p - 1) * (q - 1) * m := by omega
  have hmodp : x ^ (e * d) ≡ x [MOD p] := by
    rw [hexp, mul_assoc]
    exact pow_succ_mul_modEq hp x _
  have hmodq : x ^ (e * d) ≡ x [MOD q] := by
    rw [hexp, mul_comm (p - 1), mul_assoc]
    exact pow_succ_mul_modEq hq x _
  exact (Nat.modEq_and_modEq_iff_modEq_mul ((Nat.coprime_primes hp hq).mpr hne)).mp ⟨hmodp, hmodq⟩

namespace PrivateKey

/-- The modulus is a product of two distinct primes, modulo the product of whose predecessors
the exponents are inverse. -/
def IsRsa (k : PrivateKey) : Prop :=
  ∃ p q : Nat, p.Prime ∧ q.Prime ∧ p ≠ q ∧ k.publicKey.modulus = p * q ∧
    k.publicKey.exponent * k.exponent ≡ 1 [MOD (p - 1) * (q - 1)]

variable {k : PrivateKey}

theorem IsRsa.pow_mul_modEq (h : k.IsRsa) (x : Nat) :
    x ^ (k.publicKey.exponent * k.exponent) ≡ x [MOD k.publicKey.modulus] := by
  obtain ⟨p, q, hp, hq, hne, hn, hed⟩ := h
  have hpos : 0 < k.publicKey.exponent * k.exponent :=
    Nat.mul_pos (lt_of_lt_of_le (by norm_num) k.publicKey.three_le_exponent) k.exponent_pos
  rw [hn]
  exact pow_mul_modEq_of_primes hp hq hne hpos hed x

theorem IsRsa.public_private (h : k.IsRsa) {x : Nat} (hx : x < k.publicKey.modulus) :
    powMod (powMod x k.publicKey.exponent k.publicKey.modulus) k.exponent k.publicKey.modulus =
      x := by
  rw [powMod_powMod]
  exact Nat.mod_eq_of_modEq (h.pow_mul_modEq x) hx

theorem IsRsa.private_public (h : k.IsRsa) {x : Nat} (hx : x < k.publicKey.modulus) :
    powMod (powMod x k.exponent k.publicKey.modulus) k.publicKey.exponent k.publicKey.modulus =
      x := by
  rw [powMod_powMod, mul_comm]
  exact Nat.mod_eq_of_modEq (h.pow_mul_modEq x) hx

/-! ### Signatures of digests -/

/-- A digest that a host signs verifies under its public key. -/
theorem IsRsa.verifyDigest_signDigest (h : k.IsRsa) {digest : Digest} {signature : Bytes}
    (hs : k.signDigest digest = .ok signature) :
    k.publicKey.verifyDigest digest signature = .ok () := by
  unfold signDigest at hs
  split at hs
  · rename_i hbits
    obtain rfl := Except.ok.inj hs
    have hdigest : digest.toNat < k.publicKey.modulus := by
      have hle : ¬ k.publicKey.modulus < 2 ^ 256 := fun hlt =>
        absurd (bitLength_le_iff.mpr hlt) (not_le.mpr hbits)
      exact lt_of_lt_of_le (Digest.toNat_lt digest) (not_lt.mp hle)
    have hlt : powMod digest.toNat k.exponent k.publicKey.modulus < k.publicKey.modulus :=
      powMod_lt _ _ k.publicKey.modulus_pos
    rw [PublicKey.verifyDigest, if_pos (k.publicKey.length_encodeElement _)]
    simp only [PublicKey.toNat_encodeElement hlt]
    exact if_pos ⟨hlt, h.private_public hdigest⟩
  · cases hs

/-- The signature of a digest is the only byte string that verifies. -/
theorem IsRsa.verifyDigest_eq_ok_iff (h : k.IsRsa) (hbits : Digest.bits < k.publicKey.modulusBits)
    {digest : Digest} {signature : Bytes} :
    k.publicKey.verifyDigest digest signature = .ok () ↔ k.signDigest digest = .ok signature := by
  refine ⟨fun hverify => ?_, h.verifyDigest_signDigest⟩
  unfold PublicKey.verifyDigest at hverify
  split at hverify
  · rename_i hlength
    simp only at hverify
    split at hverify
    · rename_i hvalue
      obtain ⟨hlt, hpow⟩ := hvalue
      -- the private power takes the digest back to the number that the signature spells
      have hback : powMod digest.toNat k.exponent k.publicKey.modulus = signature.toNat := by
        rw [← hpow]
        exact h.public_private hlt
      have hbytes : k.publicKey.encodeElement signature.toNat = signature :=
        PublicKey.encodeElement_toNat hlength
      rw [signDigest, if_pos hbits, hback, hbytes]
    · cases hverify
  · cases hverify

end PrivateKey

/-! ### Wrapped keys -/

theorem wrapKey_eq_ok_iff {key : PublicKey} {sym : SymmetricKey} {wrapped : Bytes} :
    wrapKey key sym = .ok wrapped ↔ sym.bytes.toNat < key.modulus ∧
      wrapped = key.encodeElement (powMod sym.bytes.toNat key.exponent key.modulus) := by
  rw [wrapKey, PublicKey.encryptRaw]
  split
  · rename_i hlt
    simp only [Except.ok_map, Except.ok.injEq, hlt, true_and]
    exact eq_comm
  · rename_i hlt
    simp [hlt]

theorem length_of_wrapKey {key : PublicKey} {sym : SymmetricKey} {wrapped : Bytes}
    (h : wrapKey key sym = .ok wrapped) : wrapped.length = key.elementLength := by
  rw [(wrapKey_eq_ok_iff.mp h).2, key.length_encodeElement]

/-- A symmetric key that is wrapped under the public key is unwrapped under the private key. -/
theorem PrivateKey.IsRsa.unwrapKey_wrapKey {k : PrivateKey} (h : k.IsRsa) {sym : SymmetricKey}
    {wrapped : Bytes} (hw : wrapKey k.publicKey sym = .ok wrapped) :
    unwrapKey k wrapped = .ok sym := by
  obtain ⟨hlt, rfl⟩ := wrapKey_eq_ok_iff.mp hw
  have hpow : powMod sym.bytes.toNat k.publicKey.exponent k.publicKey.modulus <
      k.publicKey.modulus := powMod_lt _ _ k.publicKey.modulus_pos
  have hsmall : sym.bytes.toNat < 2 ^ 256 := Bytes.toNat_lt_of_length sym.length_eq
  have hback : Bytes.ofNatWidth 32 sym.bytes.toNat = sym.bytes := by
    rw [← sym.length_eq, Bytes.ofNatWidth_toNat]
  rw [unwrapKey, PublicKey.toNat_encodeElement hpow, decryptRaw, if_pos hpow,
    h.public_private hlt]
  simp only [if_pos hsmall, hback]

theorem toNat_of_unwrapKey {k : PrivateKey} {sym : SymmetricKey} {wrapped : Bytes}
    (h : unwrapKey k wrapped = .ok sym) :
    wrapped.toNat < k.publicKey.modulus ∧
      sym.bytes.toNat = powMod wrapped.toNat k.exponent k.publicKey.modulus := by
  unfold unwrapKey PrivateKey.decryptRaw at h
  split_ifs at h with hlt
  simp only at h
  split_ifs at h with hsmall
  obtain rfl := Except.ok.inj h
  exact ⟨hlt, Bytes.toNat_ofNatWidth_of_lt (lt_of_lt_of_eq hsmall (by norm_num))⟩

/-- A byte string of element width that is unwrapped is the wrapping of what comes out. -/
theorem PrivateKey.IsRsa.wrapKey_of_unwrapKey {k : PrivateKey} (h : k.IsRsa) {sym : SymmetricKey}
    {wrapped : Bytes} (hlength : wrapped.length = k.publicKey.elementLength)
    (hu : unwrapKey k wrapped = .ok sym) : wrapKey k.publicKey sym = .ok wrapped := by
  obtain ⟨hlt, hsym⟩ := toNat_of_unwrapKey hu
  have hbytes : k.publicKey.encodeElement wrapped.toNat = wrapped :=
    PublicKey.encodeElement_toNat hlength
  refine wrapKey_eq_ok_iff.mpr ⟨?_, ?_⟩
  · rw [hsym]
    exact powMod_lt _ _ k.publicKey.modulus_pos
  · rw [hsym, h.private_public hlt, hbytes]

end SealedEnvelope
