/-
# Layers have one written form

Five layers are written and read on their own. What is written is read back,
and what was read, in whatever form, is written in the one form that the writer
has. That form is hardly longer than what was read: only numbers and the head
of a list can take more room than before, and how much is told by
`LayerKind.growth`. No byte string is read as two layers.

Key definitions: `LayerKind`, `LayerCodec`, `LayerKind.codec`, `LayerKind.growth`.
Key theorems: `LayerKind.normalises`.
-/
import SealedEnvelope.Proofs.Compression
import SealedEnvelope.Proofs.Encryption.Compact
import SealedEnvelope.Proofs.Signature.Compact

namespace SealedEnvelope

open Cbor (Value)

/-- The layers that are written and read on their own. -/
inductive LayerKind where
  | payload
  | errorReply
  | commitment
  | signature
  | encryption
deriving DecidableEq, Repr

/-- How the content of a layer is written and read. -/
structure LayerCodec where
  Content : Type
  Error : Type
  encode : Content → Bytes
  decode : Bytes → Except Error Content

/-- The layer that a tag names, if it is one of those. -/
def LayerTag.kind? : LayerTag → Option LayerKind
  | .payload => some .payload
  | .compression => none
  | .hostSignature => some .signature
  | .clientSignature => some .signature
  | .credentialsSignature => some .signature
  | .commitment => some .commitment
  | .encryption => some .encryption
  | .errorReply => some .errorReply

theorem Variant.kind?_tag (v : Variant) : v.tag.kind? = some .signature := by
  cases v <;> rfl

namespace LayerKind

/-- How a layer is written and read. -/
def codec : LayerKind → LayerCodec
  | .payload => ⟨Payload, WireError, Payload.encode, Payload.decode⟩
  | .errorReply => ⟨ErrorReply, WireError, ErrorReply.encode, ErrorReply.decode⟩
  | .commitment => ⟨Commitment, EnvelopeError, Commitment.encode, Commitment.decode⟩
  | .signature => ⟨Signature, EnvelopeError, Signature.encode, Signature.decode⟩
  | .encryption => ⟨Encryption, EnvelopeError, Encryption.encode, Encryption.decode⟩

/-- How much longer the written form of a layer can be than what it was read from. -/
def growth : (k : LayerKind) → k.codec.Content → Nat
  | .payload, _ => 0
  | .errorReply, _ => 0
  | .commitment, c => Commitment.growth c
  | .signature, s => Signature.growth s
  | .encryption, e => Encryption.growth e

theorem decode_encode (k : LayerKind) (a : k.codec.Content)
    (h : (k.codec.encode a).length ≤ maxPayloadSize) :
    k.codec.decode (k.codec.encode a) = .ok a := by
  cases k with
  | payload => exact Payload.decode_encode h
  | errorReply => exact ErrorReply.decode_encode h
  | commitment => exact Commitment.decode_encode h
  | signature => exact Signature.decode_encode h
  | encryption => exact Encryption.decode_encode h

theorem length_encode_le {k : LayerKind} {b : Bytes} {a : k.codec.Content}
    (h : k.codec.decode b = .ok a) : (k.codec.encode a).length ≤ b.length + k.growth a := by
  cases k with
  | payload => exact Payload.length_encode_le h
  | errorReply => exact ErrorReply.length_encode_le h
  | commitment => exact Commitment.length_encode_le h
  | signature => exact (Signature.of_decode_eq_ok h).2
  | encryption => exact Encryption.length_encode_le h

theorem exists_tag_of_decode {k : LayerKind} {b : Bytes} {a : k.codec.Content}
    (h : k.codec.decode b = .ok a) :
    ∃ (tag : LayerTag) (v : Value),
      Tagged.decodeRaw b = .ok (tag.code, v) ∧ tag.kind? = some k := by
  cases k with
  | payload =>
    obtain ⟨v, hraw, _⟩ := Tagged.decode_eq_ok_iff.mp h
    exact ⟨_, v, hraw, rfl⟩
  | errorReply =>
    obtain ⟨v, hraw, _⟩ := Tagged.decode_eq_ok_iff.mp h
    exact ⟨_, v, hraw, rfl⟩
  | commitment =>
    obtain ⟨raw, hraw, _⟩ := Except.bind_eq_ok_iff.mp h
    obtain ⟨v, hv, _⟩ := Tagged.decode_eq_ok_iff.mp (Except.mapError_eq_ok_iff.mp hraw)
    exact ⟨_, v, hv, rfl⟩
  | signature =>
    obtain ⟨v, hraw⟩ := (Signature.of_decode_eq_ok h).1
    exact ⟨_, v, hraw, Variant.kind?_tag _⟩
  | encryption =>
    obtain ⟨f, hf, _⟩ := Except.bind_eq_ok_iff.mp h
    obtain ⟨v, hv, _⟩ := Tagged.decode_eq_ok_iff.mp (Except.mapError_eq_ok_iff.mp hf)
    exact ⟨_, v, hv, rfl⟩

theorem length_le_of_decode {k : LayerKind} {b : Bytes} {a : k.codec.Content}
    (h : k.codec.decode b = .ok a) : b.length ≤ maxPayloadSize := by
  obtain ⟨_, _, hraw, _⟩ := exists_tag_of_decode h
  exact (Tagged.decodeRaw_eq_ok_iff.mp hraw).1

theorem decode_eq_error_of_ne {k other : LayerKind} {b : Bytes} {a : k.codec.Content}
    (h : k.codec.decode b = .ok a) (hne : other ≠ k) : ∃ e, other.codec.decode b = .error e := by
  cases hother : other.codec.decode b with
  | error e => exact ⟨e, rfl⟩
  | ok a' =>
    obtain ⟨tag, v, hraw, hkind⟩ := exists_tag_of_decode h
    obtain ⟨tag', v', hraw', hkind'⟩ := exists_tag_of_decode hother
    rw [hraw] at hraw'
    obtain rfl := LayerTag.code_injective (Prod.mk.inj (Except.ok.inj hraw')).1
    exact absurd (Option.some.inj (hkind'.symm.trans hkind)) hne

theorem compressionDecode_eq_error {k : LayerKind} {b : Bytes} {a : k.codec.Content}
    (h : k.codec.decode b = .ok a) : ∃ e, Compression.decode b = .error e := by
  cases hother : Compression.decode b with
  | error e => exact ⟨e, rfl⟩
  | ok a' =>
    obtain ⟨tag, v, hraw, hkind⟩ := exists_tag_of_decode h
    obtain ⟨v', hraw', _⟩ := Tagged.decode_eq_ok_iff.mp (Except.mapError_eq_ok_iff.mp hother)
    rw [hraw] at hraw'
    obtain rfl := LayerTag.code_injective (Prod.mk.inj (Except.ok.inj hraw')).1
    cases hkind

/-- **Layers are read back and have one written form**, which exceeds what was read by no more
than its growth; what is read as one layer is read as no other. -/
theorem normalises (k : LayerKind) :
    (∀ a : k.codec.Content, (k.codec.encode a).length ≤ maxPayloadSize →
      k.codec.decode (k.codec.encode a) = .ok a) ∧
    ∀ (b : Bytes) (a : k.codec.Content), k.codec.decode b = .ok a →
      (k.codec.encode a).length ≤ b.length + k.growth a ∧
      (b.length + k.growth a ≤ maxPayloadSize → k.codec.decode (k.codec.encode a) = .ok a) ∧
      (∀ other : LayerKind, other ≠ k → ∃ e, other.codec.decode b = .error e) ∧
      ∃ e, Compression.decode b = .error e := by
  refine ⟨k.decode_encode, fun b a h => ?_⟩
  have hlength := length_encode_le h
  exact ⟨hlength, fun hsize => k.decode_encode a (le_trans hlength hsize),
    fun other hne => decode_eq_error_of_ne h hne, compressionDecode_eq_error h⟩

/-- A payload in a lax form, with a long head, unbounded arrays, a body in chunks, a big integer
and a surplus item, is written again in fewer bytes. -/
theorem normalises_lax_payload :
    Payload.decode [0x9f, 0x18, 0x01, 0x9f, 0xc2, 0x41, 0x07, 0x5f, 0x41, 0x01, 0xff, 0xf6, 0xff] =
        .ok ⟨7, [1]⟩ ∧
      (Payload.encode ⟨7, [1]⟩).length ≤ 13 ∧
      Payload.decode (Payload.encode ⟨7, [1]⟩) = .ok ⟨7, [1]⟩ := by
  have h : payload.codec.decode
      [0x9f, 0x18, 0x01, 0x9f, 0xc2, 0x41, 0x07, 0x5f, 0x41, 0x01, 0xff, 0xf6, 0xff] =
        .ok (⟨7, [1]⟩ : Payload) := by rfl
  obtain ⟨hlength, hback, _⟩ := (normalises .payload).2 _ _ h
  exact ⟨h, hlength, hback (by decide)⟩

end LayerKind

/-- At the size limit the written form of a layer with a late time is beyond the limit and is not
read back, and a list of 256 presentations without a length is shorter than the written one. -/
theorem LayerKind.written_form_longer :
    (Encryption.decode (Encryption.lateForm (List.replicate 16777197 0)) =
        .ok ⟨⟨4294967296⟩, .reply, .plain (List.replicate 16777197 0)⟩ ∧
      (Encryption.lateForm (List.replicate 16777197 0)).length <
        (Encryption.encode ⟨⟨4294967296⟩, .reply, .plain (List.replicate 16777197 0)⟩).length ∧
      Encryption.decode
          (Encryption.encode ⟨⟨4294967296⟩, .reply, .plain (List.replicate 16777197 0)⟩) ≠
        .ok ⟨⟨4294967296⟩, .reply, .plain (List.replicate 16777197 0)⟩) ∧
    Signature.decode ([0x82, 0x12, 0x85, 0x60, 0x00, 0xf6, 0x9f] ++ List.replicate 256 0x40 ++
        [0xff, 0x40]) = .ok ⟨⟨""⟩, ⟨0⟩, none, .credentials (List.replicate 256 []), []⟩ ∧
      ([0x82, 0x12, 0x85, 0x60, 0x00, 0xf6, 0x9f] ++ List.replicate 256 0x40 ++
        [0xff, 0x40] : Bytes).length <
      (Signature.encode ⟨⟨""⟩, ⟨0⟩, none, .credentials (List.replicate 256 []), []⟩).length := by
  refine ⟨?_, by decide +kernel, by decide +kernel⟩
  -- Only the length of the content matters, and nothing may evaluate the content itself.
  have hcontent : (List.replicate 16777197 (0 : UInt8)).length = 16777197 := List.length_replicate
  generalize List.replicate 16777197 (0 : UInt8) = content at hcontent ⊢
  have hlimit : (Encryption.lateForm content).length = maxPayloadSize := by
    rw [Encryption.length_lateForm, hcontent]
    rfl
  have hlength := Encryption.length_encode_late content
  refine ⟨Encryption.decode_lateForm (Nat.le_of_eq hlimit), by omega, fun h => ?_⟩
  have hsize := LayerKind.length_le_of_decode (k := .encryption) h
  omega

end SealedEnvelope
