/-
# Responses and commitment values have one written form

A number is written in the shortest string of at least one byte that spells it.
A response is written as its sign and the shortest string of its magnitude, a
commitment value as its shortest string. Nothing else is accepted for either,
and every response that a prover makes is written as it has to be, also one
that is zero or negative.

Key definitions: `Bytes.IsMinimalForm`, `KnowledgeProof.signedValue`.
Key theorems: `Bytes.isMinimalForm_iff`, `KnowledgeProof.ofParts_eq_ok_iff`,
`KnowledgeProof.exists_ofParts_iff`, `KnowledgeProof.parts_of_prove`,
`Commitment.ofFields_eq_ok_iff`, `SignatureProof.client_parts_written_once`.
-/
import Mathlib
import SealedEnvelope.Proofs.Knowledge.Soundness
import SealedEnvelope.Proofs.Signature.ReadBack

namespace SealedEnvelope

open Cbor (Value)

/-! ### Shortest strings -/

namespace Bytes

/-- A shortest string of at least one byte that spells a number. -/
structure IsMinimalForm (b : Bytes) (n : Nat) : Prop where
  ne_nil : b ≠ []
  toNat_eq : b.toNat = n
  length_le : ∀ c : Bytes, c ≠ [] → c.toNat = n → b.length ≤ c.length

variable {b : Bytes} {n : Nat}

theorem length_ofNatDigits_le (h : b ≠ []) : (ofNatDigits b.toNat).length ≤ b.length := by
  rw [length_ofNatDigits]
  exact max_le (List.length_pos_iff.mpr h) (byteLength_toNat_le b)

theorem ofNatDigits_ne_nil (n : Nat) : ofNatDigits n ≠ [] := by
  rw [← List.length_pos_iff, length_ofNatDigits]
  exact lt_max_of_lt_left Nat.one_pos

/-- The shortest string that spells a number are its digits. -/
theorem isMinimalForm_iff : b.IsMinimalForm n ↔ b = ofNatDigits n := by
  constructor
  · rintro ⟨hne, rfl, hle⟩
    have hshorter := hle _ (ofNatDigits_ne_nil b.toNat) (toNat_ofNatDigits _)
    exact toNat_inj (le_antisymm hshorter (length_ofNatDigits_le hne)) (toNat_ofNatDigits _).symm
  · rintro rfl
    refine ⟨ofNatDigits_ne_nil n, toNat_ofNatDigits n, fun c hne hc => ?_⟩
    rw [← hc]
    exact length_ofNatDigits_le hne

/-- A string is shortest if it does not begin with a zero or is a single byte. -/
theorem isMinimalForm_cons_iff {x : UInt8} :
    IsMinimalForm (x :: b) (toNat (x :: b)) ↔ x ≠ 0 ∨ b = [] := by
  constructor
  · intro h
    by_contra hzero
    push Not at hzero
    obtain ⟨rfl, hne⟩ := hzero
    -- without the zero the string is shorter and spells the same number
    have hlength := h.length_le b hne (toNat_zero_cons b).symm
    simp at hlength
  · intro h
    by_cases hx : x = 0
    · obtain rfl := h.resolve_left (not_not.mpr hx)
      rw [hx]
      exact isMinimalForm_iff.mpr rfl
    · exact isMinimalForm_iff.mpr (ofNatDigits_toNat_cons hx).symm

theorem isMinimalForm_iff_ofNat (h : 0 < n) : b.IsMinimalForm n ↔ ofNat n = b := by
  rw [isMinimalForm_iff, ofNatDigits, if_neg h.ne', eq_comm]

end Bytes

/-! ### Responses -/

namespace KnowledgeProof

/-- The integer that a sign and a magnitude stand for. -/
def signedValue (negative : Bool) (magnitude : Bytes) : Int :=
  if negative then -(magnitude.toNat : Int) else magnitude.toNat

variable {challenge challenge' : Digest} {negative negative' : Bool} {magnitude magnitude' : Bytes}
  {proof proof' : KnowledgeProof}

theorem natAbs_signedValue : (signedValue negative magnitude).natAbs = magnitude.toNat := by
  cases negative <;> simp [signedValue]

/-- What is accepted is a shortest magnitude, with a sign only if it is not zero. -/
theorem isCanonical_iff :
    isCanonical negative magnitude = true ↔
      magnitude.IsMinimalForm magnitude.toNat ∧ (negative = true → 0 < magnitude.toNat) := by
  cases magnitude with
  | nil =>
    have hnil : ¬ Bytes.IsMinimalForm [] (Bytes.toNat []) := fun h => h.ne_nil rfl
    simp only [isCanonical, hnil, false_and, reduceCtorEq]
  | cons x b =>
    rw [Bytes.isMinimalForm_cons_iff]
    by_cases hx : x = 0
    · subst hx
      cases b with
      | nil => cases negative <;> simp [isCanonical, Bytes.toNat_cons]
      | cons y b => simp [isCanonical]
    · have hpos : 0 < Bytes.toNat (x :: b) :=
        lt_of_lt_of_le (Nat.pow_pos (by norm_num)) (Bytes.pow_length_le_toNat_cons hx)
      simp [isCanonical_cons hx, hx, hpos]

theorem ofParts_eq_ok_iff_signedValue :
    ofParts challenge negative magnitude = .ok proof ↔
      isCanonical negative magnitude = true ∧
        proof = ⟨challenge, signedValue negative magnitude⟩ := by
  rw [ofParts]
  split
  · rename_i h
    simp only [Except.ok.injEq, h, true_and]
    exact eq_comm
  · rename_i h
    simp [h]

/-- Sign and magnitude are accepted exactly if they are those of the response that they make up. -/
theorem ofParts_eq_ok_iff :
    ofParts challenge negative magnitude = .ok proof ↔
      proof.challenge = challenge ∧ proof.isNegative = negative ∧
        proof.magnitudeBytes = magnitude := by
  constructor
  · intro h
    obtain ⟨hcanonical, rfl⟩ := ofParts_eq_ok_iff_signedValue.mp h
    obtain ⟨hminimal, hsign⟩ := isCanonical_iff.mp hcanonical
    refine ⟨rfl, ?_, ?_⟩
    · cases negative with
      | false => simp [isNegative, signedValue]
      | true => simpa [isNegative, signedValue] using hsign rfl
    · rw [magnitudeBytes, natAbs_signedValue]
      exact (Bytes.isMinimalForm_iff.mp hminimal).symm
  · rintro ⟨rfl, rfl, rfl⟩
    exact proof.ofParts_parts

theorem response_of_ofParts (h : ofParts challenge negative magnitude = .ok proof) :
    proof.response = signedValue negative magnitude := by
  obtain ⟨-, rfl⟩ := ofParts_eq_ok_iff_signedValue.mp h
  rfl

theorem exists_ofParts_iff (challenge : Digest) :
    (∃ proof, ofParts challenge negative magnitude = .ok proof) ↔
      magnitude.IsMinimalForm magnitude.toNat ∧ (negative = true → 0 < magnitude.toNat) := by
  rw [← isCanonical_iff]
  constructor
  · rintro ⟨proof, h⟩
    exact (ofParts_eq_ok_iff_signedValue.mp h).1
  · exact fun h => ⟨_, ofParts_eq_ok_iff_signedValue.mpr ⟨h, rfl⟩⟩

/-- Parts that are accepted for one integer are the same. -/
theorem parts_eq_of_signedValue_eq (h : ofParts challenge negative magnitude = .ok proof)
    (h' : ofParts challenge' negative' magnitude' = .ok proof')
    (heq : signedValue negative magnitude = signedValue negative' magnitude') :
    negative = negative' ∧ magnitude = magnitude' := by
  have hresponse : proof.response = proof'.response := by
    rw [response_of_ofParts h, heq, response_of_ofParts h']
  obtain ⟨-, rfl, rfl⟩ := ofParts_eq_ok_iff.mp h
  obtain ⟨-, rfl, rfl⟩ := ofParts_eq_ok_iff.mp h'
  simp only [isNegative, magnitudeBytes, hresponse, and_self]

theorem exists_parts (challenge : Digest) (s : Int) :
    ∃ negative magnitude, ofParts challenge negative magnitude = .ok ⟨challenge, s⟩ ∧
      signedValue negative magnitude = s := by
  have hparts := ofParts_parts ⟨challenge, s⟩
  exact ⟨_, _, hparts, (response_of_ofParts hparts).symm⟩

/-- The parts of a response that a prover makes: the sign says whether the nonce is less than the
product that is subtracted, and the magnitude is what lies between them. -/
theorem parts_of_prove {key : PublicKey} {x : Secret} {message : Digest} {params : ProofParams}
    {nonce : Bytes} (h : prove key x message params nonce = .ok proof) :
    proof.isNegative = decide (nonce.toNat < x.value * proof.digestFor message) ∧
      proof.magnitudeBytes =
        Bytes.ofNatDigits (Nat.dist nonce.toNat (x.value * proof.digestFor message)) := by
  have hresponse : proof.response =
      (nonce.toNat : Int) - (x.value * proof.digestFor message : Nat) := by
    rw [response_of_prove h, Nat.cast_mul]
  constructor
  · rw [isNegative, hresponse, decide_eq_decide]
    omega
  · rw [magnitudeBytes, hresponse, Nat.dist]
    congr 1
    omega

end KnowledgeProof

/-! ### Commitments -/

namespace Commitment

variable {host : HostId} {time : Timestamp} {value : Bytes} {c : Commitment}

/-- A value is accepted exactly if it is the shortest string of the value of the commitment. -/
theorem ofFields_eq_ok_iff :
    ofFields (host, time, value) = .ok c ↔
      c.host = host ∧ c.time = time ∧ value.IsMinimalForm c.value := by
  rw [Bytes.isMinimalForm_iff_ofNat c.pos]
  constructor
  · intro h
    cases value with
    | nil => cases h
    | cons x b =>
      by_cases hx : x = 0
      · subst hx
        cases h
      · have hnew : new host time (Bytes.toNat (x :: b)) = .ok c := by
          simpa [ofFields, hx, Except.mapError_eq_ok_iff] using h
        unfold new at hnew
        split_ifs at hnew with hpos
        obtain rfl := Except.ok.inj hnew
        refine ⟨rfl, rfl, ?_⟩
        exact (Bytes.isMinimalForm_iff_ofNat hpos).mp
          (Bytes.isMinimalForm_cons_iff.mpr (Or.inl hx))
  · rintro ⟨rfl, rfl, rfl⟩
    exact c.ofFields_toFields

theorem toFields_of_ofFields (h : ofFields (host, time, value) = .ok c) :
    c.toFields = [.text host.name, .int time.seconds.toNat, .bytes value] := by
  obtain ⟨rfl, rfl, hvalue⟩ := ofFields_eq_ok_iff.mp h
  rw [toFields, (Bytes.isMinimalForm_iff_ofNat c.pos).mp hvalue]

theorem exists_ofFields_iff :
    (∃ c, ofFields (host, time, value) = .ok c) ↔ ∃ n, 0 < n ∧ value.IsMinimalForm n := by
  constructor
  · rintro ⟨c, h⟩
    exact ⟨c.value, c.pos, (ofFields_eq_ok_iff.mp h).2.2⟩
  · rintro ⟨n, hpos, h⟩
    exact ⟨⟨host, time, n, hpos⟩, ofFields_eq_ok_iff.mpr ⟨rfl, rfl, h⟩⟩

end Commitment

namespace SignatureProof

open KnowledgeProof (ofParts signedValue prove)

/-- **The parts of a client's proof have one written form.** Of a response, what is accepted is a
shortest magnitude with a sign that zero does not have, and the proof shows exactly these; no two
pairs of sign and magnitude are accepted for one integer, and there is a pair for every integer; and
the parts of a proof that was made are put together to it again. Of a commitment, what is accepted
is the shortest string of a positive number, and that is what is written. -/
theorem client_parts_written_once :
    (∀ challenge negative magnitude,
      ((∃ proof, ofParts challenge negative magnitude = .ok proof) ↔
        magnitude.IsMinimalForm magnitude.toNat ∧ (negative = true → 0 < magnitude.toNat)) ∧
      ∀ proof, ofParts challenge negative magnitude = .ok proof →
        proof.challenge = challenge ∧ proof.response = signedValue negative magnitude ∧
          proof.isNegative = negative ∧ proof.magnitudeBytes = magnitude) ∧
    (∀ challenge challenge' negative negative' magnitude magnitude' proof proof',
      ofParts challenge negative magnitude = .ok proof →
      ofParts challenge' negative' magnitude' = .ok proof' →
      signedValue negative magnitude = signedValue negative' magnitude' →
        negative = negative' ∧ magnitude = magnitude') ∧
    (∀ challenge s, ∃ negative magnitude,
      ofParts challenge negative magnitude = .ok ⟨challenge, s⟩ ∧
        signedValue negative magnitude = s) ∧
    (∀ key x message params nonce proof, prove key x message params nonce = .ok proof →
      proof.isNegative = decide (nonce.toNat < x.value * proof.digestFor message) ∧
        proof.magnitudeBytes =
          Bytes.ofNatDigits (Nat.dist nonce.toNat (x.value * proof.digestFor message)) ∧
        ofParts proof.challenge proof.isNegative proof.magnitudeBytes = .ok proof) ∧
    ∀ host time value,
      ((∃ c, Commitment.ofFields (host, time, value) = .ok c) ↔
        ∃ n, 0 < n ∧ value.IsMinimalForm n) ∧
      ∀ c, Commitment.ofFields (host, time, value) = .ok c →
        c.value = value.toNat ∧
          c.toFields = [.text host.name, .int time.seconds.toNat, .bytes value] := by
  refine ⟨fun challenge _ _ => ⟨KnowledgeProof.exists_ofParts_iff challenge, fun proof h => ?_⟩,
    fun _ _ _ _ _ _ _ _ => KnowledgeProof.parts_eq_of_signedValue_eq,
    KnowledgeProof.exists_parts, fun _ _ _ _ _ proof h => ?_,
    fun _ _ _ => ⟨Commitment.exists_ofFields_iff, fun c h => ?_⟩⟩
  · obtain ⟨hchallenge, hsign, hmagnitude⟩ := KnowledgeProof.ofParts_eq_ok_iff.mp h
    exact ⟨hchallenge, KnowledgeProof.response_of_ofParts h, hsign, hmagnitude⟩
  · obtain ⟨hsign, hmagnitude⟩ := KnowledgeProof.parts_of_prove h
    exact ⟨hsign, hmagnitude, proof.ofParts_parts⟩
  · obtain ⟨-, -, hvalue⟩ := Commitment.ofFields_eq_ok_iff.mp h
    exact ⟨hvalue.toNat_eq.symm, Commitment.toFields_of_ofFields h⟩

/-- A negative response is put together again from its parts. A zero in front of five is refused,
in a response as in a commitment, and so is a sign on zero. A commitment to 256 is written in the
two bytes that it is read from. -/
theorem client_parts_negative_and_padded :
    (KnowledgeProof.zeroNonceProof (Digest.of [])).isNegative = true ∧
    ofParts (KnowledgeProof.zeroNonceProof (Digest.of [])).challenge true
        (KnowledgeProof.zeroNonceProof (Digest.of [])).magnitudeBytes =
      .ok (KnowledgeProof.zeroNonceProof (Digest.of [])) ∧
    (∀ proof, ofParts (Digest.of []) false [0, 5] ≠ .ok proof) ∧
    (∀ proof, ofParts (Digest.of []) true [0] ≠ .ok proof) ∧
    (∃ c, Commitment.ofFields (⟨"h"⟩, ⟨0⟩, [1, 0]) = .ok c ∧ c.value = 256 ∧
      c.toFields = [.text "h", .int 0, .bytes [1, 0]]) ∧
    ∀ c, Commitment.ofFields (⟨"h"⟩, ⟨0⟩, [0, 5]) ≠ .ok c := by
  obtain ⟨hresponses, hunique, -, hmade, hvalues⟩ := client_parts_written_once
  have hnegative : (KnowledgeProof.zeroNonceProof (Digest.of [])).isNegative = true := by
    decide +kernel
  obtain ⟨-, -, hback⟩ := hmade _ _ _ _ _ _ (KnowledgeProof.prove_zeroNonce (Digest.of []))
  rw [hnegative] at hback
  refine ⟨hnegative, hback, fun proof h => ?_, fun proof h => ?_, ?_, fun c h => ?_⟩
  · have hfive : ofParts (Digest.of []) false [5] = .ok ⟨Digest.of [], 5⟩ := rfl
    obtain ⟨-, hbytes⟩ := hunique _ _ _ _ _ _ _ _ h hfive (by decide)
    exact absurd hbytes (by decide)
  · obtain ⟨-, hsign⟩ := (hresponses _ _ _).1.mp ⟨proof, h⟩
    exact absurd (hsign rfl) (by decide)
  · have hminimal : Bytes.IsMinimalForm [1, 0] 256 := Bytes.isMinimalForm_iff.mpr (by decide)
    obtain ⟨c, hc⟩ := (hvalues ⟨"h"⟩ ⟨0⟩ [1, 0]).1.mpr ⟨256, by decide, hminimal⟩
    obtain ⟨hvalue, hfields⟩ := (hvalues _ _ _).2 c hc
    exact ⟨c, hc, hvalue.trans hminimal.toNat_eq, hfields⟩
  · obtain ⟨n, -, hminimal⟩ := (hvalues _ _ _).1.mp ⟨c, h⟩
    have hshorter := hminimal.length_le [5] (by decide) hminimal.toNat_eq
    exact absurd hshorter (by decide)

end SignatureProof
end SealedEnvelope
