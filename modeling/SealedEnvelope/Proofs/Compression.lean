/-
# What is packed is unpacked

Payloads and error replies within the size limit are read back from their
bytes. A payload comes out of a compression layer exactly if the decompressor
fills the declared length with its bytes. So the layer around a payload gives it
back to a receiver whose limit is no smaller than the sender's, for every
compressor that loses nothing to the receiver's decompressor, as long as the
layer is within the size limit of tuples.

Key definition: `Compressor.Lossless`.
Key theorems: `Compressor.lossless_storing`, `Payload.decode_encode`,
`Compression.unwrap_eq_ok_iff`, `Compression.unwrap_wrap`.
-/
import Mathlib
import SealedEnvelope.Compression
import SealedEnvelope.Proofs.Cbor.Fields
import SealedEnvelope.Proofs.Wire.ReadBack
import SealedEnvelope.Proofs.Zstd.Stored

namespace SealedEnvelope

open Cbor (Value)

/-! ### Compressors -/

/-- At every level, what a compressor makes of a content is decompressed to it in a buffer of its
length. A content is a string in the memory of a machine. -/
def Compressor.Lossless (z : Compressor) (d : Decompressor) : Prop :=
  ∀ (level : Int) (content compressed : Bytes), content.length < 2 ^ 63 →
    z level content = some compressed → d content.length compressed = some content

theorem Compressor.lossless_storing : storing.Lossless .strict := by
  intro level content compressed hlength h
  obtain rfl := Option.some.inj h
  exact Zstd.decompress?_compress (lt_trans hlength (by norm_num))

/-! ### Payloads and error replies -/

/-- Payloads and compressed payloads are tuples of a number and a byte string. -/
theorem Tagged.decode_pair {α : Type} {tag : LayerTag} {n : Nat} {b : Bytes}
    {parse : Value → Option α} {a : α} (hn : n < 2 ^ 64)
    (h : (Tagged.encode tag [.int n, .bytes b]).length ≤ maxPayloadSize)
    (ha : parse (.array [.int n, .bytes b]) = some a) :
    Tagged.decode tag parse (Tagged.encode tag [.int n, .bytes b]) = .ok a := by
  have hplain : Value.PlainList [.int n, .bytes b] := ⟨⟨by omega, by omega⟩, trivial, trivial⟩
  have hdepth : Value.depthOfList [.int n, .bytes b] < 255 := by
    simp [Value.depthOfList, Value.depth]
  exact Tagged.decode_encode hplain hdepth h ha

theorem Payload.decode_encode {p : Payload} (h : p.encode.length ≤ maxPayloadSize) :
    decode p.encode = .ok p := by
  have htag : p.tag.toNat < 2 ^ 64 := lt_trans p.tag.toNat_lt (by norm_num)
  have hfields : ofFields? (.array [.int p.tag.toNat, .bytes p.body]) = some p := by
    simp only [ofFields?, Value.items?_array, Value.unsigned?_int p.tag.toNat_lt,
      Value.bytes?_bytes, Option.bind_eq_bind, Option.bind_some, UInt16.ofNat_toNat]
    rfl
  exact Tagged.decode_pair htag h hfields

theorem ErrorReply.decode_encode {r : ErrorReply} (h : r.encode.length ≤ maxPayloadSize) :
    decode r.encode = .ok r := by
  have hcode := r.code.toNat_lt
  have hplain : Value.PlainList [.int r.code.toNat, .text r.message] :=
    ⟨⟨by omega, by omega⟩, trivial, trivial⟩
  have hdepth : Value.depthOfList [.int r.code.toNat, .text r.message] < 255 := by
    simp [Value.depthOfList, Value.depth]
  have hfields : ofFields? (.array [.int r.code.toNat, .text r.message]) = some r := by
    simp only [ofFields?, Value.items?_array, Value.unsigned?_int r.code.toNat_lt,
      Value.text?_text, Option.bind_eq_bind, Option.bind_some, UInt16.ofNat_toNat]
    rfl
  exact Tagged.decode_encode hplain hdepth h hfields

/-! ### Layers -/

namespace Compression

theorem decode_encode {n : Nat} {compressed : Bytes} (hn : n < 2 ^ 64)
    (h : (Tagged.encode .compression [.int n, .bytes compressed]).length ≤ maxPayloadSize) :
    decode (Tagged.encode .compression [.int n, .bytes compressed]) = .ok (n, compressed) := by
  have hfields : ofFields? (.array [.int n, .bytes compressed]) = some (n, compressed) := by
    simp only [ofFields?, Value.items?_array, Value.unsigned?_int hn, Value.bytes?_bytes,
      Option.bind_eq_bind, Option.bind_some]
    rfl
  rw [decode, Tagged.decode_pair hn h hfields]
  rfl

theorem inflate_eq_ok_iff {declared max : Nat} {compressed content : Bytes} {d : Decompressor} :
    inflate declared max compressed d = .ok content ↔
      declared ≤ max ∧ d declared compressed = some content ∧ content.length = declared := by
  constructor
  · intro h
    unfold inflate at h
    by_cases hmax : max < declared
    · rw [if_pos hmax] at h
      cases h
    rw [if_neg hmax] at h
    cases hread : d declared compressed with
    | none =>
      rw [hread] at h
      cases h
    | some result =>
      rw [hread] at h
      dsimp only at h
      by_cases hlength : result.length = declared
      · rw [if_pos hlength] at h
        obtain rfl := Except.ok.inj h
        exact ⟨not_lt.mp hmax, rfl, hlength⟩
      · rw [if_neg hlength] at h
        cases h
  · rintro ⟨hmax, hread, hlength⟩
    simp only [inflate, if_neg (not_lt.mpr hmax), hread, hlength, if_true]

/-- A payload comes out of exactly the tuples whose compressed data fills a buffer of the declared
length with the payload's bytes, if so many are within the limit. -/
theorem unwrap_eq_ok_iff {b : Bytes} {max : Nat} {d : Decompressor} {p : Payload} :
    unwrap b max d = .ok p ↔ ∃ declared compressed content,
      decode b = .ok (declared, compressed) ∧ declared ≤ max ∧
        d declared compressed = some content ∧ content.length = declared ∧
          Payload.decode content = .ok p := by
  constructor
  · intro h
    obtain ⟨⟨declared, compressed⟩, hdecode, h⟩ := Except.bind_eq_ok_iff.mp h
    obtain ⟨content, hinflate, h⟩ := Except.bind_eq_ok_iff.mp h
    obtain ⟨hmax, hread, hlength⟩ := inflate_eq_ok_iff.mp hinflate
    exact ⟨declared, compressed, content, hdecode, hmax, hread, hlength,
      Except.mapError_eq_ok_iff.mp h⟩
  · rintro ⟨declared, compressed, content, hdecode, hmax, hread, hlength, hpayload⟩
    have hinflate := inflate_eq_ok_iff.mpr ⟨hmax, hread, hlength⟩
    rw [unwrap, hdecode, Except.ok_bind]
    simp only [hinflate, Except.ok_bind, hpayload, Except.ok_mapError]

/-- A payload comes out of a layer around bytes that decompress to it. -/
theorem unwrap_encode {p : Payload} {compressed : Bytes} {max : Nat} {d : Decompressor}
    (hz : d p.encode.length compressed = some p.encode)
    (hp : p.encode.length ≤ maxPayloadSize) (hmax : p.encode.length ≤ max)
    (h : (Tagged.encode .compression [.int p.encode.length, .bytes compressed]).length ≤
      maxPayloadSize) :
    unwrap (Tagged.encode .compression [.int p.encode.length, .bytes compressed]) max d =
      .ok p := by
  have hdecode := decode_encode (lt_of_le_of_lt hp (by norm_num [maxPayloadSize])) h
  exact unwrap_eq_ok_iff.mpr
    ⟨_, compressed, p.encode, hdecode, hmax, hz, rfl, Payload.decode_encode hp⟩

theorem wrap_eq_ok_iff {p : Payload} {max : Nat} {level : Int} {z : Compressor} {b : Bytes} :
    wrap p max level z = .ok b ↔ p.encode.length ≤ max ∧ ∃ compressed,
      z level p.encode = some compressed ∧
        b = Tagged.encode .compression [.int p.encode.length, .bytes compressed] := by
  rw [wrap]
  split
  · rename_i h
    simp only [reduceCtorEq, false_iff, not_and]
    exact fun hle => absurd h (not_lt.mpr hle)
  · rename_i h
    rw [and_iff_right (not_lt.mp h)]
    cases hz : z level p.encode with
    | none => simp
    | some compressed =>
      simp only [Except.ok.injEq, Option.some.injEq, exists_eq_left']
      exact eq_comm

/-- A payload that one side packs is unpacked by a side with no smaller limit. -/
theorem unwrap_wrap {p : Payload} {max max' : Nat} {level : Int} {z : Compressor}
    {d : Decompressor} {b : Bytes} (hz : z.Lossless d) (h : wrap p max level z = .ok b)
    (hmax : max ≤ maxPayloadSize) (hle : max ≤ max') (hb : b.length ≤ maxPayloadSize) :
    unwrap b max' d = .ok p := by
  obtain ⟨hp, compressed, hcompressed, rfl⟩ := wrap_eq_ok_iff.mp h
  have hsmall : p.encode.length ≤ maxPayloadSize := le_trans hp hmax
  have hfits : p.encode.length < 2 ^ 63 := lt_of_le_of_lt hsmall (by norm_num [maxPayloadSize])
  exact unwrap_encode (hz level p.encode compressed hfits hcompressed) hsmall (le_trans hp hle) hb

end Compression
end SealedEnvelope
