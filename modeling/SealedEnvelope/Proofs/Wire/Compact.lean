/-
# Tuples are written again in no more room

A tuple that was read, in whatever form, is written again in hardly more bytes
than it was read from: the two heads of the written form are the shortest, and
the fields are bounded one by one. Payloads and error replies, which hold a
number of 16 bits and a string, do not grow at all.

Key theorems: `Tagged.length_encode_le`, `Payload.length_encode_le`,
`ErrorReply.length_encode_le`.
-/
import SealedEnvelope.Proofs.Cbor.Compact
import SealedEnvelope.Proofs.Wire.Exactness

namespace SealedEnvelope

open Cbor (Value Compact integerGrowth)

/-- A tuple is written again in hardly more bytes than it was read from. -/
theorem Tagged.length_encode_le {α : Type} {tag : LayerTag} {parse : Value → Option α}
    {fields : α → List Value} {growth : α → Nat} {b : Bytes} {v : Value} {a : α}
    (hparse : Compact parse (fun a => .array (fields a)) growth)
    (hint : ∀ i : Int, parse (.int i) = none) (hraw : Tagged.decodeRaw b = .ok (tag.code, v))
    (ha : parse v = some a) : (Tagged.encode tag (fields a)).length ≤ b.length + growth a := by
  obtain ⟨hsize, hpair⟩ := Tagged.decodeRaw_eq_ok_iff.mp hraw
  have hv : ∀ i : Int, v ≠ .int i := by
    rintro i rfl
    rw [hint i] at ha
    cases ha
  have hextent := Cbor.extent_le_of_readPair hpair hv
  -- No tag is so large that a big integer would be shorter.
  have hcode := Cbor.headLength_le_integerExtent tag.code
  have hsmall : integerGrowth tag.code = 0 := by cases tag <;> rfl
  have hroom : v.extent < 2 ^ 32 := by
    norm_num [maxPayloadSize] at hsize
    omega
  have hfields : (Value.array (fields a)).encode.length ≤ v.extent + growth a := hparse hroom ha
  have hhead : Cbor.headLength 2 = 1 := rfl
  rw [Cbor.Value.extent_natCast] at hextent
  rw [Tagged.encode_eq, List.length_append, List.length_append, Cbor.length_headBytes,
    Cbor.length_headBytes, hhead]
  omega

/-! ### Payloads and error replies -/

theorem length_encode_numbered_le {α : Type} {take : Value → Option α} {put : α → Value}
    {v number content : Value} {more : List Value} {n : Nat} {a : α}
    (htake : Compact take put fun _ => 0) (hitems : v.items? = some (number :: content :: more))
    (hn : number.unsigned? (2 ^ 16) = some n) (ha : take content = some a)
    (hsize : v.extent < 2 ^ 32) :
    (Value.array [.int (UInt16.ofNat n).toNat, put a]).encode.length ≤ v.extent := by
  have hlt := Value.lt_of_unsigned? hn
  have hback : (UInt16.ofNat n).toNat = n := UInt16.toNat_ofNat_of_lt' hlt
  have hgrowth : integerGrowth n = 0 := if_pos (lt_trans hlt (by norm_num))
  have hfits := Cbor.Fits.cons (Cbor.compact_unsigned _) hn (.cons htake ha (.nil more))
  rw [hgrowth] at hfits
  rw [hback]
  exact hfits.length_encode_le hitems (show 2 < 24 by norm_num) hsize

namespace Payload

theorem compact_ofFields? :
    Compact ofFields? (fun p => .array [.int p.tag.toNat, .bytes p.body]) fun _ => 0 := by
  intro v p hsize h
  unfold ofFields? at h
  split at h
  · rename_i tag body more hitems
    obtain ⟨n, hn, h⟩ := Option.bind_eq_some_iff.mp h
    obtain ⟨s, hs, heq⟩ := Option.bind_eq_some_iff.mp h
    obtain rfl := Option.some.inj heq
    exact length_encode_numbered_le Cbor.compact_bytes hitems hn hs hsize
  · cases h

theorem length_encode_le {b : Bytes} {p : Payload} (h : decode b = .ok p) :
    p.encode.length ≤ b.length := by
  obtain ⟨v, hraw, hp⟩ := Tagged.decode_eq_ok_iff.mp h
  exact Tagged.length_encode_le compact_ofFields? (fun _ => rfl) hraw hp

end Payload

namespace ErrorReply

theorem compact_ofFields? :
    Compact ofFields? (fun r => .array [.int r.code.toNat, .text r.message]) fun _ => 0 := by
  intro v r hsize h
  unfold ofFields? at h
  split at h
  · rename_i code message more hitems
    obtain ⟨n, hn, h⟩ := Option.bind_eq_some_iff.mp h
    obtain ⟨s, hs, heq⟩ := Option.bind_eq_some_iff.mp h
    obtain rfl := Option.some.inj heq
    exact length_encode_numbered_le Cbor.compact_text hitems hn hs hsize
  · cases h

theorem length_encode_le {b : Bytes} {r : ErrorReply} (h : decode b = .ok r) :
    r.encode.length ≤ b.length := by
  obtain ⟨v, hraw, hr⟩ := Tagged.decode_eq_ok_iff.mp h
  exact Tagged.length_encode_le compact_ofFields? (fun _ => rfl) hraw hr

end ErrorReply

end SealedEnvelope
