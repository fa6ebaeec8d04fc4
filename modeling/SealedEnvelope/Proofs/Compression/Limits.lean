/-
# Which packed payloads are unpacked

A payload is packed under the limit of a configuration and unpacked under the
same limit, but two more limits wait on the way in: no tuple may be above
`maxPayloadSize`, and both the layer and the payload inside it are tuples. So
what one side packs the other unpacks exactly if both stay within it, and a
configuration whose limit is above it packs payloads that nobody reads. A limit
is safe for every payload if it leaves room for what a compressor can add to a
content.

Key definition: `Compressor.AddsAtMost`.
Key theorems: `Compression.unwrap_packed_iff`, `Compression.unwrap_of_addsAtMost`,
`Compression.unwrap_of_storing`.
-/
import SealedEnvelope.CodecConfig
import SealedEnvelope.Proofs.Compression
import SealedEnvelope.Proofs.Wire.Compact

namespace SealedEnvelope

open Cbor (Value)

/-! ### Sizes -/

theorem Tagged.decode_of_length_lt {α : Type} {tag : LayerTag} {parse : Value → Option α}
    {b : Bytes} (h : maxPayloadSize < b.length) :
    decode tag parse b = .error (.payloadTooLarge b.length maxPayloadSize) := by
  simp only [decode, decodeRaw, if_pos h, Except.error_bind]

theorem Tagged.length_le_of_decode {α : Type} {tag : LayerTag} {parse : Value → Option α}
    {b : Bytes} {a : α} (h : decode tag parse b = .ok a) : b.length ≤ maxPayloadSize := by
  obtain ⟨v, hraw, -⟩ := decode_eq_ok_iff.mp h
  exact (decodeRaw_eq_ok_iff.mp hraw).1

/-- The tuple of a number and a byte string is five heads and the string. -/
theorem Tagged.length_encode_pair (tag : LayerTag) (n : Nat) (s : Bytes) :
    (encode tag [.int n, .bytes s]).length =
      2 + Cbor.headLength tag.code + Cbor.headLength n + Cbor.headLength s.length + s.length := by
  have hone : Cbor.headLength 2 = 1 := rfl
  simp only [encode, Value.encode, Value.encodeList, List.length_append, Cbor.length_headBytes,
    List.length_cons, List.length_nil, Int.toNat_natCast, Int.natCast_nonneg, if_true, hone]
  omega

/-! ### What a compressor adds -/

/-- At every level, a compressor makes contents of up to `size` bytes at most `extra` bytes
longer. -/
def Compressor.AddsAtMost (z : Compressor) (size extra : Nat) : Prop :=
  ∀ (level : Int) (content compressed : Bytes), content.length ≤ size →
    z level content = some compressed → compressed.length ≤ content.length + extra

namespace Zstd

theorem length_block_le (last : Bool) (content : Bytes) :
    (block last content).length ≤ content.length + 3 := by
  unfold block
  cases content with
  | nil => simp [length_littleEndian]
  | cons x rest =>
    dsimp only
    split <;> simp [length_littleEndian]
    omega

theorem length_blocks_le : ∀ (more : Nat) (content : Bytes),
    (blocks more content).length ≤ content.length + 3 * (more + 1)
  | 0, content => length_block_le true content
  | more + 1, content => by
    have hfirst := length_block_le false (content.take maxBlock)
    have hrest := length_blocks_le more (content.drop maxBlock)
    have hsplit : (content.take maxBlock).length + (content.drop maxBlock).length =
        content.length := by
      rw [← List.length_append, List.take_append_drop]
    rw [blocks, List.length_append]
    omega

/-- Thirteen bytes head a frame, and three a block. -/
theorem length_compress_le (content : Bytes) :
    (compress content).length ≤
      content.length + 3 * ((content.length - 1) / maxBlock + 1) + 13 := by
  have hblocks := length_blocks_le ((content.length - 1) / maxBlock) content
  simp only [compress, List.length_append, List.length_cons, length_littleEndian]
  omega

end Zstd

theorem Compressor.addsAtMost_storing (size : Nat) :
    storing.AddsAtMost size (3 * (size / Zstd.maxBlock + 1) + 13) := by
  intro level content compressed hsize h
  obtain rfl := Option.some.inj h
  have hblocks : (content.length - 1) / Zstd.maxBlock ≤ size / Zstd.maxBlock :=
    Nat.div_le_div_right (by omega)
  have hlength := Zstd.length_compress_le content
  omega

namespace Compression

/-- The tuple takes at most 13 bytes beside the compressed ones. -/
theorem length_layer_le {n : Nat} {compressed : Bytes} (hn : n < 2 ^ 32)
    (hcompressed : compressed.length < 2 ^ 32) :
    (Tagged.encode .compression [.int n, .bytes compressed]).length ≤ compressed.length + 13 := by
  have hfive : Cbor.headLength (2 ^ 32 - 1) = 5 := rfl
  have hcode : Cbor.headLength LayerTag.compression.code = 1 := rfl
  have hdeclared := Cbor.headLength_mono (Nat.le_sub_one_of_lt hn)
  have hlength := Cbor.headLength_mono (Nat.le_sub_one_of_lt hcompressed)
  rw [Tagged.length_encode_pair]
  omega

/-! ### One limit on both sides -/

variable {p : Payload} {max : Nat} {level : Int} {z : Compressor} {d : Decompressor} {b : Bytes}

/-- A layer that gives a payload is within the size limit, and so is the written form of the
payload. -/
theorem length_le_of_unwrap (h : unwrap b max d = .ok p) :
    b.length ≤ maxPayloadSize ∧ p.encode.length ≤ maxPayloadSize := by
  obtain ⟨declared, compressed, content, hdecode, -, -, -, hpayload⟩ := unwrap_eq_ok_iff.mp h
  exact ⟨Tagged.length_le_of_decode (Except.mapError_eq_ok_iff.mp hdecode),
    le_trans (Payload.length_encode_le hpayload) (Tagged.length_le_of_decode hpayload)⟩

theorem unwrap_of_length_lt (h : maxPayloadSize < b.length) :
    unwrap b max d =
      .error (.ofWire .compression (.payloadTooLarge b.length maxPayloadSize)) := by
  rw [unwrap, decode, Tagged.decode_of_length_lt h]
  rfl

/-- A payload above the size limit is decompressed and then refused as a tuple. -/
theorem unwrap_packed_of_length_lt (hz : z.Lossless d) (h : wrap p max level z = .ok b)
    (hb : b.length ≤ maxPayloadSize) (hp : maxPayloadSize < p.encode.length)
    (hmemory : p.encode.length < 2 ^ 63) :
    unwrap b max d =
      .error (.ofWire .payload (.payloadTooLarge p.encode.length maxPayloadSize)) := by
  obtain ⟨hmax, compressed, hcompressed, rfl⟩ := wrap_eq_ok_iff.mp h
  have hinflate : inflate p.encode.length max compressed d = .ok p.encode :=
    inflate_eq_ok_iff.mpr ⟨hmax, hz level _ _ hmemory hcompressed, rfl⟩
  rw [unwrap, decode_encode (lt_trans hmemory (by norm_num)) hb, Except.ok_bind]
  simp only [hinflate, Except.ok_bind, Payload.decode, Tagged.decode_of_length_lt hp,
    Except.error_mapError]

/-- **What one side packs, the other unpacks under the same limit exactly if neither the layer
nor the payload in it is above the size limit of tuples**; otherwise the layer or the payload is
refused as too large. No limit of a configuration has a part in it. -/
theorem unwrap_packed_iff (hz : z.Lossless d) (h : wrap p max level z = .ok b) :
    (unwrap b max d = .ok p ↔ b.length ≤ maxPayloadSize ∧ p.encode.length ≤ maxPayloadSize) ∧
    (maxPayloadSize < b.length →
      unwrap b max d =
        .error (.ofWire .compression (.payloadTooLarge b.length maxPayloadSize))) ∧
    (b.length ≤ maxPayloadSize → maxPayloadSize < p.encode.length → p.encode.length < 2 ^ 63 →
      unwrap b max d =
        .error (.ofWire .payload (.payloadTooLarge p.encode.length maxPayloadSize))) := by
  refine ⟨⟨length_le_of_unwrap, ?_⟩, unwrap_of_length_lt, unwrap_packed_of_length_lt hz h⟩
  rintro ⟨hb, hp⟩
  obtain ⟨hmax, compressed, hcompressed, rfl⟩ := wrap_eq_ok_iff.mp h
  have hmemory : p.encode.length < 2 ^ 63 := lt_of_le_of_lt hp (by norm_num [maxPayloadSize])
  exact unwrap_encode (hz level p.encode compressed hmemory hcompressed) hp hmax hb

/-- A short payload is packed and unpacked. -/
theorem unwrap_packed_short :
    ∃ b, wrap ⟨7, [0x61]⟩ 100 = .ok b ∧ unwrap b 100 = .ok ⟨7, [0x61]⟩ := by
  have hpack : ∃ b, wrap ⟨7, [0x61]⟩ 100 = .ok b ∧ b.length ≤ maxPayloadSize := ⟨_, rfl, by decide⟩
  obtain ⟨b, hwrap, hb⟩ := hpack
  exact ⟨b, hwrap, (unwrap_packed_iff Compressor.lossless_storing hwrap).1.mpr ⟨hb, by decide⟩⟩

/-- A configuration may allow 32 MiB. A payload of 16 MiB is packed under it, and not unpacked. -/
theorem unwrap_roomy_limit :
    CodecConfig.validate { maxPayloadSize := 33554432 } = .ok () ∧
    ∃ b, wrap ⟨7, List.replicate 16777216 0x61⟩ 33554432 = .ok b ∧
      unwrap b 33554432 ≠ .ok ⟨7, List.replicate 16777216 0x61⟩ := by
  refine ⟨by decide, ?_⟩
  -- Only the length of the body matters, and nothing may evaluate the body itself.
  have hbody : (List.replicate 16777216 (0x61 : UInt8)).length = 16777216 := List.length_replicate
  generalize List.replicate 16777216 (0x61 : UInt8) = body at hbody ⊢
  have hencoded : (Payload.encode ⟨7, body⟩).length = 16777225 := by
    have hcode : Cbor.headLength LayerTag.payload.code = 1 := rfl
    have htag : Cbor.headLength (UInt16.toNat 7) = 1 := rfl
    have hlength : Cbor.headLength 16777216 = 5 := by norm_num [Cbor.headLength]
    simp only [Payload.encode, Tagged.length_encode_pair, hbody, hcode, htag, hlength]
  refine ⟨_, wrap_eq_ok_iff.mpr ⟨by omega, _, rfl, rfl⟩, fun h => ?_⟩
  have hsize := (length_le_of_unwrap h).2
  norm_num [hencoded, maxPayloadSize] at hsize

/-- A limit that leaves room for what the compressor adds is safe for every payload. -/
theorem unwrap_of_addsAtMost {extra : Nat} (hz : z.Lossless d) (hextra : z.AddsAtMost max extra)
    (hmax : max + extra + 13 ≤ maxPayloadSize) (h : wrap p max level z = .ok b) :
    unwrap b max d = .ok p := by
  obtain ⟨hp, compressed, hcompressed, hb⟩ := wrap_eq_ok_iff.mp h
  have hsmall : maxPayloadSize < 2 ^ 32 := by norm_num [maxPayloadSize]
  have hgrown := hextra level p.encode compressed hp hcompressed
  have hlayer : b.length ≤ compressed.length + 13 := by
    rw [hb]
    exact length_layer_le (by omega) (by omega)
  exact unwrap_wrap hz h (by omega) le_rfl (by omega)

/-- With stored blocks, limits are safe up to half a KiB below the size limit of tuples. -/
theorem unwrap_of_storing (hmax : max + 512 ≤ maxPayloadSize) (h : wrap p max level = .ok b) :
    unwrap b max = .ok p := by
  have hblocks : max / Zstd.maxBlock ≤ 127 := by
    norm_num [maxPayloadSize, Zstd.maxBlock] at hmax ⊢
    omega
  exact unwrap_of_addsAtMost Compressor.lossless_storing (Compressor.addsAtMost_storing max)
    (by omega) h

end Compression
end SealedEnvelope
