/-
# The moduli that a bound covers

A configuration refuses a modulus with more bits than the proof bound leaves
beside a digest and the margin. Proving makes another check, of the bits of
the secret in hand. The two agree on every key: the greatest secret of a key is
one less than the modulus, and an odd modulus loses no bit by that. So under a
modulus that passes every secret that can be drawn proves whatever it is
asked to, and under a modulus that does not pass the greatest one, which can be
drawn as well, proves nothing at all.

Key definitions: `KnowledgeProof.Proves`, `PublicKey.greatestSecret`.
Key theorems: `bitLength_pred_of_odd`, `Secret.exists_ofRandom_iff`,
`KnowledgeProof.proves_iff`, `CodecConfig.checkModulusBits_iff`.
-/
import Mathlib
import SealedEnvelope.CodecConfig
import SealedEnvelope.Proofs.Key.Rsa
import SealedEnvelope.Proofs.Knowledge.Completeness

namespace SealedEnvelope

/-! ### Digits -/

theorem bitLength_mono {m n : Nat} (h : m ≤ n) : bitLength m ≤ bitLength n :=
  bitLength_le_iff.mpr (lt_of_le_of_lt h (lt_two_pow_bitLength n))

/-- An odd number above one has no digit more than its predecessor, since it is no power of two. -/
theorem bitLength_pred_of_odd {n : Nat} (hodd : n % 2 = 1) (hn : 1 < n) :
    bitLength (n - 1) = bitLength n := by
  refine le_antisymm (bitLength_mono (Nat.sub_le n 1)) (bitLength_le_iff.mpr ?_)
  have hle : n ≤ 2 ^ bitLength (n - 1) := by
    have := lt_two_pow_bitLength (n - 1)
    omega
  refine lt_of_le_of_ne hle fun heq => ?_
  cases hk : bitLength (n - 1) with
  | zero =>
    rw [hk, pow_zero] at heq
    omega
  | succ k =>
    rw [hk, pow_succ] at heq
    omega

/-! ### Secrets of a key -/

/-- The greatest secret of a key. -/
def PublicKey.greatestSecret (key : PublicKey) : Secret :=
  ⟨key.modulus - 1, by have := key.three_lt_modulus; omega⟩

theorem PublicKey.bits_greatestSecret (key : PublicKey) :
    key.greatestSecret.bits = key.modulusBits :=
  bitLength_pred_of_odd key.modulus_odd (lt_trans (by norm_num) key.three_lt_modulus)

namespace Secret

variable {key : PublicKey} {x : Secret}

theorem bits_le_modulusBits (h : x.value < key.modulus) : x.bits ≤ key.modulusBits :=
  bitLength_mono (le_of_lt h)

/-- The secrets that can be drawn are those below the modulus. -/
theorem exists_ofRandom_iff : (∃ random, ofRandom key random = .ok x) ↔ x.value < key.modulus := by
  constructor
  · rintro ⟨random, h⟩
    unfold ofRandom ofNat at h
    split_ifs at h with hlength hpos
    obtain rfl := Except.ok.inj h
    exact Nat.mod_lt _ key.modulus_pos
  · intro h
    -- the bytes of the secret itself are reduced to the secret
    refine ⟨key.encodeElement x.value, ?_⟩
    rw [ofRandom, if_pos (key.length_encodeElement _), PublicKey.toNat_encodeElement h,
      Nat.mod_eq_of_lt h, ofNat, dif_pos x.pos]

end Secret

/-! ### Secrets that a bound has room for -/

namespace KnowledgeProof

variable {key : PublicKey} {params : ProofParams} {x : Secret}

theorem exists_prove_iff {message : Digest} {nonce : Bytes} :
    (∃ proof, prove key x message params nonce = .ok proof) ↔
      requiredBound x ≤ params.bound ∧ nonce.length = params.nonceLength := by
  simp only [prove_eq_ok_iff, exists_and_left, exists_eq, and_true]

/-- The secret gives a proof for every message with every nonce of the right length. -/
def Proves (key : PublicKey) (params : ProofParams) (x : Secret) : Prop :=
  ∀ (message : Digest) (nonce : Bytes), nonce.length = params.nonceLength →
    ∃ proof, prove key x message params nonce = .ok proof

/-- A secret proves everything if the bound has room for it. -/
theorem proves_iff : Proves key params x ↔ requiredBound x ≤ params.bound := by
  constructor
  · intro h
    obtain ⟨hroom, -⟩ := exists_prove_iff.mp
      (h (Digest.of []) (List.replicate params.nonceLength 0) (List.length_replicate ..))
    exact hroom
  · exact fun hroom message nonce hlength => exists_prove_iff.mpr ⟨hroom, hlength⟩

end KnowledgeProof

/-! ### The two checks -/

namespace CodecConfig

open KnowledgeProof

variable {c : CodecConfig} {key : PublicKey} {params : ProofParams}

theorem exists_proofParams_of_validate (h : c.validate = .ok ()) :
    ∃ params, c.proofParams = .ok params ∧ params.bound = c.proofExponentBits.toNat := by
  unfold validate at h
  split_ifs at h
  obtain ⟨params, hparams, -⟩ := Except.map_eq_ok_iff.mp h
  refine ⟨params, hparams, ?_⟩
  have hbound := Except.mapError_eq_ok_iff.mp hparams
  unfold ProofParams.ofBound at hbound
  split_ifs at hbound
  obtain rfl := Except.ok.inj hbound
  rfl

theorem checkModulusBits_eq_ok_iff {bits : Nat} :
    c.checkModulusBits bits = .ok () ↔ bits ≤ c.maxModulusBits := by
  rw [checkModulusBits]
  split
  · rename_i h
    simp [not_le.mpr h]
  · rename_i h
    simp [not_lt.mp h]

theorem checkModulusBits_iff_greatestSecret (h : params.bound = c.proofExponentBits.toNat)
    (key : PublicKey) :
    c.checkModulusBits key.modulusBits = .ok () ↔
      requiredBound key.greatestSecret ≤ params.bound := by
  have hmin := params.min_le_bound
  rw [checkModulusBits_eq_ok_iff, requiredBound, key.bits_greatestSecret, maxModulusBits, ← h,
    ProofParams.minBound]
  omega

/-- **The check of a modulus is exact.** Under a valid configuration the modulus of a key passes
if every secret below it gives a proof for every message and nonce. If it passes, so does every
secret that is drawn; if it does not, some secret that can be drawn gives no proof at all. -/
theorem checkModulusBits_iff (hc : c.validate = .ok ()) (key : PublicKey) :
    ∃ params, c.proofParams = .ok params ∧
      (c.checkModulusBits key.modulusBits = .ok () ↔
        ∀ x : Secret, x.value < key.modulus → Proves key params x) ∧
      (c.checkModulusBits key.modulusBits = .ok () →
        ∀ random x, Secret.ofRandom key random = .ok x → Proves key params x) ∧
      (c.checkModulusBits key.modulusBits ≠ .ok () →
        ∃ random x, Secret.ofRandom key random = .ok x ∧
          ∀ message nonce proof, prove key x message params nonce ≠ .ok proof) := by
  obtain ⟨params, hparams, hbound⟩ := exists_proofParams_of_validate hc
  have hgreatest := checkModulusBits_iff_greatestSecret hbound key
  have hbelow : key.greatestSecret.value < key.modulus := Nat.sub_lt key.modulus_pos Nat.one_pos
  have hall (hpass : c.checkModulusBits key.modulusBits = .ok ()) (x : Secret)
      (hx : x.value < key.modulus) : Proves key params x := by
    rw [hgreatest, requiredBound, key.bits_greatestSecret] at hpass
    have hbits := Secret.bits_le_modulusBits hx
    rw [proves_iff, requiredBound]
    omega
  refine ⟨params, hparams, ⟨hall, fun h => ?_⟩, fun hpass random x hx => ?_, fun hfail => ?_⟩
  · exact hgreatest.mpr (proves_iff.mp (h key.greatestSecret hbelow))
  · exact hall hpass x (Secret.exists_ofRandom_iff.mp ⟨random, hx⟩)
  · obtain ⟨random, hrandom⟩ := Secret.exists_ofRandom_iff.mpr hbelow
    refine ⟨random, key.greatestSecret, hrandom, fun message nonce proof hproof => ?_⟩
    exact hfail (hgreatest.mpr (prove_eq_ok_iff.mp hproof).1)

/-! ### Two moduli on either side of a power of two -/

/-- A configuration whose bound leaves eight bits for a modulus. -/
def eightBitConfig : CodecConfig := { proofExponentBits := 392 }

/-- A key with the greatest modulus of eight bits. -/
def eightBitKey : PublicKey := ⟨255, 11, 9, by decide, by decide, by decide, by decide, by decide⟩

/-- A key with the next odd modulus, which has nine bits. -/
def nineBitKey : PublicKey := ⟨257, 11, 9, by decide, by decide, by decide, by decide, by decide⟩

/-- All secrets below 255 prove under a bound that leaves eight bits. Of those below 257 one does
not: it is 256, which has nine bits like the modulus. -/
theorem checkModulusBits_eight_and_nine :
    eightBitConfig.validate = .ok () ∧
      ∃ params, eightBitConfig.proofParams = .ok params ∧
        (∀ x : Secret, x.value < 255 → Proves eightBitKey params x) ∧
        ¬ (∀ x : Secret, x.value < 257 → Proves nineBitKey params x) ∧
        ∃ random x, Secret.ofRandom nineBitKey random = .ok x ∧
          ∀ message nonce proof, prove nineBitKey x message params nonce ≠ .ok proof := by
  have hvalid : eightBitConfig.validate = .ok () := by decide
  have hnine : eightBitConfig.checkModulusBits nineBitKey.modulusBits ≠ .ok () := by decide
  obtain ⟨params, hparams, hiff, -⟩ := checkModulusBits_iff hvalid eightBitKey
  obtain ⟨params', hparams', hiff', -, hfail⟩ := checkModulusBits_iff hvalid nineBitKey
  obtain rfl : params = params' := Except.ok.inj (hparams.symm.trans hparams')
  exact ⟨hvalid, params, hparams, hiff.mp (by decide), mt hiff'.mpr hnine, hfail hnine⟩

end CodecConfig
end SealedEnvelope
