/-
# Signatures are read back

Commitments and responses have one written form each, and that form is read
back to the commitment and to the signed response. So a signature of any
variant is read back from its bytes if they are within the size limit, and it
is at least as long as its content.

Key theorems: `Commitment.ofFields_toFields`, `Commitment.decode_encode`,
`KnowledgeProof.ofParts_parts`, `Signature.decode_encode`,
`Signature.length_content_le`.
-/
import Mathlib
import SealedEnvelope.Signature.Encoding
import SealedEnvelope.Proofs.Cbor.Fields
import SealedEnvelope.Proofs.Wire.ReadBack

namespace SealedEnvelope

open Cbor (Value)

/-! ### Commitments -/

namespace Commitment

@[simp] theorem rawFields?_toFields (c : Commitment) :
    rawFields? (.array c.toFields) = some (c.host, c.time, Bytes.ofNat c.value) := by
  simp [rawFields?, toFields]

theorem ofFields_toFields (c : Commitment) :
    ofFields (c.host, c.time, Bytes.ofNat c.value) = .ok c := by
  obtain ⟨x, b, hb, hx⟩ := Bytes.ofNat_eq_cons c.pos
  have hvalue : Bytes.toNat (x :: b) = c.value := by rw [← hb, Bytes.toNat_ofNat]
  have hnew : new c.host c.time c.value = .ok c := dif_pos c.pos
  rw [hb]
  simp only [ofFields]
  split
  · rename_i heq
    cases heq
  · rename_i heq
    exact absurd (List.cons.inj heq).1 hx
  · rw [hvalue, hnew]
    rfl

theorem plain_toFields (c : Commitment) : Value.PlainList c.toFields :=
  ⟨trivial, Value.plain_word _, trivial, trivial⟩

/-- A commitment within the size limit is read back. -/
theorem decode_encode {c : Commitment} (h : c.encode.length ≤ maxPayloadSize) :
    decode c.encode = .ok c := by
  have hdepth : Value.depthOfList c.toFields < 255 := by
    simp [toFields, Value.depthOfList, Value.depth]
  have hraw : Tagged.decode .commitment rawFields? c.encode = _ :=
    Tagged.decode_encode c.plain_toFields hdepth h c.rawFields?_toFields
  rw [decode, hraw, Except.ok_mapError, Except.ok_bind, c.ofFields_toFields]

end Commitment

/-! ### Responses -/

namespace KnowledgeProof

theorem isCanonical_cons {negative : Bool} {x : UInt8} {b : Bytes} (h : x ≠ 0) :
    isCanonical negative (x :: b) = true := by
  unfold isCanonical
  split
  · rename_i heq
    cases heq
  · rename_i heq
    exact absurd (List.cons.inj heq).1 h
  · rename_i heq
    exact absurd (List.cons.inj heq).1 h
  · rfl

theorem isCanonical_magnitudeBytes (p : KnowledgeProof) :
    isCanonical p.isNegative p.magnitudeBytes = true := by
  unfold magnitudeBytes Bytes.ofNatDigits
  by_cases hzero : p.response.natAbs = 0
  · have hsign : p.isNegative = false := by
      simp only [isNegative, decide_eq_false_iff_not]
      omega
    rw [if_pos hzero, hsign]
    rfl
  · obtain ⟨x, b, hb, hx⟩ := Bytes.ofNat_eq_cons (Nat.pos_of_ne_zero hzero)
    rw [if_neg hzero, hb]
    exact isCanonical_cons hx

theorem ofParts_parts (p : KnowledgeProof) :
    ofParts p.challenge p.isNegative p.magnitudeBytes = .ok p := by
  have hresponse : (if p.isNegative then -(p.magnitudeBytes.toNat : Int)
      else p.magnitudeBytes.toNat) = p.response := by
    rw [magnitudeBytes, Bytes.toNat_ofNatDigits]
    simp only [isNegative, decide_eq_true_eq]
    split
    · omega
    · omega
  rw [ofParts, if_pos p.isCanonical_magnitudeBytes, hresponse]

end KnowledgeProof

/-! ### Signatures -/

theorem SignatureProof.plain_toFields (p : SignatureProof) : Value.PlainList p.toFields := by
  cases p with
  | host signature => exact ⟨trivial, trivial⟩
  | client commitment proof =>
    exact ⟨commitment.plain_toFields, trivial, ⟨trivial, trivial, trivial⟩, trivial⟩
  | credentials presentations => exact ⟨Value.plain_bytes _, trivial⟩

theorem SignatureProof.depth_toFields (p : SignatureProof) : Value.depthOfList p.toFields ≤ 1 := by
  cases p with
  | host signature => simp [toFields, Value.depthOfList, Value.depth]
  | client commitment proof =>
    simp [toFields, Value.depthOfList, Value.depth, Commitment.toFields]
  | credentials presentations =>
    simp [toFields, Value.depthOfList, Value.depth, Value.depthOfList_bytes]

namespace Signature

/-- The fields of a signature. -/
def fields (s : Signature) : List Value :=
  .text s.subject.name :: .int s.time.seconds.toNat :: Value.optional .bytes s.audit ::
    (s.proof.toFields ++ [.bytes s.content])

theorem encode_eq (s : Signature) : s.encode = Tagged.encode s.variant.tag s.fields := rfl

theorem readFields_eq_ok {α : Type} {parse : Value → Option α} {v : Value} {a : α}
    (h : parse v = some a) : readFields parse v = .ok a := by
  rw [readFields, Tagged.parseFields, h]
  rfl

theorem rawFive?_fields {π : Type} (take : Value → Option π) {shown : Value} {p : π}
    (h : take shown = some p) (subject : SubjectId) (time : Timestamp) (audit : Option Bytes)
    (content : Bytes) :
    rawFive? take (.array [.text subject.name, .int time.seconds.toNat,
      Value.optional .bytes audit, shown, .bytes content]) =
        some ⟨subject, time, audit, p, content⟩ := by
  simp [rawFive?, h]

theorem rawClient?_fields (s : Signature) {commitment : Commitment} {proof : KnowledgeProof}
    (h : s.proof = .client commitment proof) :
    rawClient? (.array s.fields) =
      some ⟨s.subject, s.time, s.audit,
        ⟨(commitment.host, commitment.time, Bytes.ofNat commitment.value), proof.challenge.bytes,
          proof.isNegative, proof.magnitudeBytes⟩, s.content⟩ := by
  simp [rawClient?, fields, h, SignatureProof.toFields, rawResponse?]

theorem check_parts (commitment : Commitment) (proof : KnowledgeProof) :
    (⟨(commitment.host, commitment.time, Bytes.ofNat commitment.value), proof.challenge.bytes,
      proof.isNegative, proof.magnitudeBytes⟩ : RawClientProof).check =
        .ok (.client commitment proof) := by
  have hchallenge : Digest.ofBytes proof.challenge.bytes = .ok proof.challenge :=
    dif_pos proof.challenge.length_eq
  simp only [RawClientProof.check, commitment.ofFields_toFields, hchallenge, proof.ofParts_parts,
    Except.ok_bind, Except.ok_mapError]
  rfl

/-- Each variant is recognised by its tag and put together as it was. -/
theorem ofLayer_fields (s : Signature) : ofLayer s.variant.tag (.array s.fields) = .ok s := by
  obtain ⟨subject, time, audit, proof, content⟩ := s
  cases proof with
  | host signature =>
    have hraw := readFields_eq_ok
      (rawFive?_fields (·.bytes?) (Value.bytes?_bytes signature) subject time audit content)
    show ofLayer .hostSignature _ = _
    rw [ofLayer, fields, SignatureProof.toFields, List.singleton_append, hraw]
    rfl
  | client commitment proof =>
    have hraw := readFields_eq_ok
      (rawClient?_fields ⟨subject, time, audit, .client commitment proof, content⟩ rfl)
    show ofLayer .clientSignature _ = _
    rw [ofLayer, hraw, Except.ok_bind, check_parts, Except.ok_bind]
    rfl
  | credentials presentations =>
    have hshown : (do (← (Value.array (presentations.map .bytes)).items?).mapM Value.bytes?) =
        some presentations := Value.mapM_bytes? presentations
    have hraw := readFields_eq_ok
      (rawFive?_fields (fun v : Value => do (← v.items?).mapM Value.bytes?) hshown subject time
        audit content)
    show ofLayer .credentialsSignature _ = _
    rw [ofLayer, fields, SignatureProof.toFields, List.singleton_append]
    simp only [Option.bind_eq_bind] at hraw ⊢
    rw [hraw]
    rfl

theorem plain_fields (s : Signature) : Value.PlainList s.fields :=
  ⟨trivial, Value.plain_word _, Value.plain_optional_bytes _,
    Value.plainList_append s.proof.plain_toFields ⟨trivial, trivial⟩⟩

theorem depth_fields (s : Signature) : Value.depthOfList s.fields ≤ 1 := by
  have h := s.proof.depth_toFields
  simp [fields, Value.depthOfList, Value.depth, Value.depthOfList_append, h]

/-- A signature within the size limit is read back. -/
theorem decode_encode {s : Signature} (h : s.encode.length ≤ maxPayloadSize) :
    decode s.encode = .ok s := by
  have hdepth : Value.depthOfList s.fields < 255 := lt_of_le_of_lt s.depth_fields (by norm_num)
  rw [encode_eq] at h ⊢
  rw [decode, Tagged.decodeAny_encode s.plain_fields hdepth h, Except.ok_mapError, Except.ok_bind]
  exact s.ofLayer_fields

theorem length_content_le (s : Signature) : s.content.length ≤ s.encode.length := by
  have hlongest : s.content.length ≤ (Value.array s.fields).longest := by
    simp [Value.longest, fields, Value.longestOfList, Value.longestOfList_append]
  exact le_trans hlongest (Tagged.longest_array_le s.variant.tag s.fields)

end Signature
end SealedEnvelope
