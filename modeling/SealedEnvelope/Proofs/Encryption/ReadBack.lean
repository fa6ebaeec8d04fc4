/-
# The outermost layer is read back

A layer within the size limit is read back from its bytes, and a layer is at
least as long as the content that it carries, so that whatever is in a layer
within the limit is within the limit as well.

Key theorems: `Encryption.decode_encode`, `Encryption.length_content_le`.
-/
import Mathlib
import SealedEnvelope.Encryption.Basic
import SealedEnvelope.Proofs.Cbor.Fields
import SealedEnvelope.Proofs.Wire.ReadBack

namespace SealedEnvelope
namespace Encryption

open Cbor (Value)

namespace Fields

/-- The fields as items. -/
def items (f : Fields) : List Value :=
  [.int f.time.seconds.toNat, Value.optional (fun h : HostId => .text h.name) f.recipient,
   Value.optional .bytes f.wrappedKey, Value.optional .bytes f.iv, Value.optional .bytes f.content]

theorem encode_eq (f : Fields) : f.encode = Tagged.encode .encryption f.items := rfl

theorem plain_items (f : Fields) : Value.PlainList f.items :=
  ⟨Value.plain_word _, Value.plain_optional_text _ _, Value.plain_optional_bytes _,
    Value.plain_optional_bytes _, Value.plain_optional_bytes _, trivial⟩

theorem depth_items (f : Fields) : Value.depthOfList f.items = 0 := by
  simp [items, Value.depthOfList, Value.depth]

theorem ofValue?_items (f : Fields) : ofValue? (.array f.items) = some f := by
  simp only [ofValue?, items, Value.items?_array, Value.word?_int, Value.optional?_text,
    Value.optional?_bytes, Option.bind_eq_bind, Option.bind_some, Option.map_map]
  cases f with
  | mk time recipient wrappedKey iv content => cases recipient <;> rfl

theorem decode_encode {f : Fields} (h : f.encode.length ≤ maxPayloadSize) :
    decode f.encode = .ok f := by
  rw [encode_eq] at h ⊢
  rw [decode, Tagged.decode_encode f.plain_items (by rw [f.depth_items]; norm_num) h
    f.ofValue?_items]
  rfl

end Fields

theorem decode_encode {e : Encryption} (h : e.encode.length ≤ maxPayloadSize) :
    decode e.encode = .ok e := by
  have hfields : Fields.decode e.encode = .ok e.toFields := Fields.decode_encode h
  rw [decode, hfields, Except.ok_bind, check_toFields]

theorem length_content_le {e : Encryption} {b : Bytes} (h : e.content.bytes? = some b) :
    b.length ≤ e.encode.length := by
  have hlongest : b.length ≤ (Value.array e.toFields.items).longest := by
    simp [Value.longest, Fields.items, Value.longestOfList, toFields, h, Value.optional]
  exact le_trans hlongest (Tagged.longest_array_le .encryption e.toFields.items)

end Encryption
end SealedEnvelope
