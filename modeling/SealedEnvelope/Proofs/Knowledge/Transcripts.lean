/-
# Accepting transcripts

A verifier recomputes the residue `g ^ s * y ^ h` from the response `s` of a
proof and the digest `h`, the challenge exclusive-or the message, and compares
the challenge with the hash of that residue. So a transcript can be built
backwards, without a secret: choose `s` and `h`, hash the residue to get the
challenge, and take the message that belongs to it. These simulated transcripts
are accepted, and nothing else is: an accepted proof tells no more than its
response and its digest, and the message it is for cannot be chosen but by way
of the hash.

Key definitions: `KnowledgeProof.residue`, `KnowledgeProof.Simulable`,
`KnowledgeProof.simulate`.
Key theorems: `KnowledgeProof.witness?_eq_some_iff`,
`KnowledgeProof.verify_eq_ok_iff_residue`, `KnowledgeProof.accepted_iff_simulated`.
-/
import Mathlib
import SealedEnvelope.Proofs.Hash.Digest
import SealedEnvelope.Proofs.Knowledge.Completeness

namespace SealedEnvelope
namespace KnowledgeProof

variable {key : PublicKey} {value : Nat} {s : Int} {h : Nat}

/-! ### The recomputed residue -/

/-- The power `g ^ s` of the generator modulo `n`, through the inverse of `g` where `s` is
negative. -/
def power (key : PublicKey) (s : Int) : ZMod key.modulus :=
  if s < 0 then (key.generator : ZMod key.modulus)⁻¹ ^ s.natAbs
  else (key.generator : ZMod key.modulus) ^ s.natAbs

/-- The residue `g ^ s * y ^ h` modulo `n`. -/
def residue (key : PublicKey) (value : Nat) (s : Int) (h : Nat) : ZMod key.modulus :=
  power key s * (value : ZMod key.modulus) ^ h

/-- A negative power needs an inverse of the generator. -/
def PowerExists (key : PublicKey) (s : Int) : Prop := s < 0 → key.generator.Coprime key.modulus

/-- The base that the verifier raises to the magnitude of the response is the generator or its
inverse. -/
theorem baseFor_eq_some {base : Nat} (hb : baseFor key s = some base) :
    (base : ZMod key.modulus) ^ s.natAbs = power key s := by
  rw [baseFor] at hb
  rw [power]
  split at hb
  · rename_i hneg
    have hcoprime : key.generator.Coprime key.modulus := invMod?_isSome_iff.mp (hb ▸ rfl)
    have hone : (base : ZMod key.modulus) * key.generator = 1 := by
      have hmod := invMod?_mul_modEq key.modulus_pos hb
      exact_mod_cast (ZMod.natCast_eq_natCast_iff _ _ _).mpr hmod
    have hinv : (key.generator : ZMod key.modulus) * (key.generator : ZMod key.modulus)⁻¹ = 1 :=
      ZMod.coe_mul_inv_eq_one _ hcoprime
    have hbase : (base : ZMod key.modulus) = (key.generator : ZMod key.modulus)⁻¹ :=
      left_inv_eq_right_inv hone hinv
    rw [if_pos hneg, hbase]
  · rename_i hpos
    obtain rfl : key.generator = base := Option.some.inj hb
    rw [if_neg hpos]

theorem witness?_eq_some_iff {w : Nat} :
    witness? key value s h = some w ↔ PowerExists key s ∧ w = (residue key value s h).val := by
  have hexists : PowerExists key s ↔ (baseFor key s).isSome := by
    rw [baseFor_isSome_iff, PowerExists, or_iff_not_imp_left, not_le]
  rw [witness?, hexists]
  cases hb : baseFor key s with
  | none => simp
  | some base =>
    have hval : base ^ s.natAbs * value ^ h % key.modulus = (residue key value s h).val := by
      rw [residue, ← baseFor_eq_some hb, ← ZMod.val_natCast]
      push_cast
      rfl
    rw [Option.map_some, Option.some.injEq, powMod_eq, powMod_eq, ← Nat.mul_mod, hval,
      Option.isSome_some, and_iff_right rfl, eq_comm]

/-- A proof is accepted if its value is a residue, its response is within the bound, and the
recomputed residue exists, is not zero and hashes to the challenge. -/
theorem verify_eq_ok_iff_residue {message : Digest} {proof : KnowledgeProof}
    {params : ProofParams} :
    verify key value message proof params = .ok () ↔
      key.Contains value ∧ proof.response.natAbs < 2 ^ params.bound ∧
        PowerExists key proof.response ∧
          residue key value proof.response (proof.challenge.xor message).toNat ≠ 0 ∧
            challengeOf key
              (residue key value proof.response (proof.challenge.xor message).toNat).val =
                proof.challenge := by
  simp only [verify_eq_ok_iff, bitLength_le_iff, witness?_eq_some_iff, and_assoc,
    exists_and_left, exists_eq_left, ne_eq, ZMod.val_eq_zero]

/-! ### Simulated transcripts -/

/-- There is a transcript with the response `s` and the digest `h`: the response is within the
bound, and the residue exists and is not zero. -/
structure Simulable (key : PublicKey) (params : ProofParams) (value : Nat) (s : Int)
    (h : Digest) : Prop where
  natAbs_lt : s.natAbs < 2 ^ params.bound
  powerExists : PowerExists key s
  residue_ne_zero : residue key value s h.toNat ≠ 0

/-- The message and the proof that the response `s` and the digest `h` lead to: the challenge is
the hash of the residue, and the message its exclusive or with `h`. -/
def simulate (key : PublicKey) (value : Nat) (s : Int) (h : Digest) : Digest × KnowledgeProof :=
  let challenge := Digest.of (key.encodeElement (residue key value s h.toNat).val)
  (challenge.xor h, ⟨challenge, s⟩)

variable {params : ProofParams} {message : Digest} {proof : KnowledgeProof}

/-- An accepted transcript is the simulation from its own response and digest. -/
theorem eq_simulate_of_verify (hv : verify key value message proof params = .ok ()) :
    Simulable key params value proof.response (proof.challenge.xor message) ∧
      (message, proof) =
        simulate key value proof.response (proof.challenge.xor message) := by
  obtain ⟨-, hbound, hexists, hzero, hchallenge⟩ := verify_eq_ok_iff_residue.mp hv
  refine ⟨⟨hbound, hexists, hzero⟩, ?_⟩
  have hof : Digest.of (key.encodeElement
      (residue key value proof.response (proof.challenge.xor message).toNat).val) =
        proof.challenge := hchallenge
  have hmessage : proof.challenge.xor (proof.challenge.xor message) = message :=
    (Digest.xor_eq_iff.mp rfl).symm
  rw [simulate, hof, hmessage]

/-- A simulated transcript is accepted. -/
theorem verify_simulate {h : Digest} (hvalue : key.Contains value)
    (hs : Simulable key params value s h) :
    verify key value (simulate key value s h).1 (simulate key value s h).2 params = .ok () := by
  have hdigest : (simulate key value s h).2.challenge.xor (simulate key value s h).1 = h :=
    Digest.xor_eq_iff.mpr rfl
  rw [verify_eq_ok_iff_residue, hdigest]
  exact ⟨hvalue, hs.natAbs_lt, hs.powerExists, hs.residue_ne_zero, rfl⟩

/-- **Accepting transcripts are exactly the simulated ones.** For a residue `y`, a response `s`
within the bound and a digest `h` with `g ^ s * y ^ h` defined and not zero, one message and one
proof with the response `s` and the digest `h` are accepted: the simulated ones. Every accepted
message and proof are the simulation from their own response and digest. -/
theorem accepted_iff_simulated (key : PublicKey) (params : ProofParams) (value : Nat) :
    (key.Contains value → ∀ (s : Int) (h : Digest), Simulable key params value s h →
      ∀ (message : Digest) (proof : KnowledgeProof),
        (verify key value message proof params = .ok () ∧ proof.response = s ∧
          proof.challenge.xor message = h) ↔ (message, proof) = simulate key value s h) ∧
    ∀ (message : Digest) (proof : KnowledgeProof),
      verify key value message proof params = .ok () →
        key.Contains value ∧
          Simulable key params value proof.response (proof.challenge.xor message) ∧
          (message, proof) =
            simulate key value proof.response (proof.challenge.xor message) := by
  constructor
  · intro hvalue s h hs message proof
    constructor
    · rintro ⟨hv, rfl, rfl⟩
      exact (eq_simulate_of_verify hv).2
    · intro heq
      obtain ⟨rfl, rfl⟩ := Prod.mk.inj heq
      exact ⟨verify_simulate hvalue hs, rfl, Digest.xor_eq_iff.mpr rfl⟩
  · intro message proof hv
    exact ⟨(verify_eq_ok_iff_residue.mp hv).1, eq_simulate_of_verify hv⟩

/-- A transcript with a negative response for a value that divides the modulus, so that no secret
belongs to it: accepted, and the simulation from its own response and digest. -/
theorem accepted_without_secret :
    smallKey.Contains 47 ∧ Simulable smallKey smallParams 47 (-5) (Digest.of []) ∧
      ∃ message proof, (message, proof) = simulate smallKey 47 (-5) (Digest.of []) ∧
        verify smallKey 47 message proof smallParams = .ok () ∧
        (message, proof) =
          simulate smallKey 47 proof.response (proof.challenge.xor message) := by
  have hvalue : smallKey.Contains 47 := by decide
  have hw : witness? smallKey 47 (-5) (Digest.of []).toNat = some 2632 := by decide +kernel
  have hs : Simulable smallKey smallParams 47 (-5) (Digest.of []) := by
    obtain ⟨hexists, hval⟩ := witness?_eq_some_iff.mp hw
    refine ⟨bitLength_le_iff.mp (by decide), hexists, fun hzero => ?_⟩
    rw [hzero, ZMod.val_zero] at hval
    exact absurd hval (by decide)
  have hv := ((accepted_iff_simulated smallKey smallParams 47).1 hvalue (-5) (Digest.of []) hs
    _ _).mpr rfl
  have hown := (accepted_iff_simulated smallKey smallParams 47).2 _ _ hv.1
  exact ⟨hvalue, hs, _, _, rfl, hv.1, hown.2.2⟩

end KnowledgeProof
end SealedEnvelope
