/-
# Written tuples are read back

A tagged tuple within the size limit is read back to its tag and its fields,
and a tuple of any size is determined by its bytes: neither the tag nor the
boundaries between the fields can be mistaken.

Key theorems: `Tagged.decodeAny_encode`, `Tagged.decode_encode`,
`Tagged.encode_inj`.
-/
import Mathlib
import SealedEnvelope.Wire.Payload
import SealedEnvelope.Proofs.Cbor.ReadBack
import SealedEnvelope.Proofs.Outcome

namespace SealedEnvelope

open Cbor (Value)

theorem LayerTag.code_injective : Function.Injective LayerTag.code := by
  intro s t h
  have hs := LayerTag.ofCode?_eq_some_iff.mpr h
  rw [LayerTag.ofCode?_eq_some_iff.mpr rfl] at hs
  exact (Option.some.inj hs).symm

theorem LayerTag.code_lt (t : LayerTag) : t.code < 2 ^ 16 := by
  cases t <;> decide

namespace Tagged

theorem encode_eq (tag : LayerTag) (fields : List Value) :
    encode tag fields =
      Cbor.headBytes 4 2 ++ (Cbor.headBytes 0 tag.code ++ (Value.array fields).encode) := by
  have htag : (Value.int tag.code).encode = Cbor.headBytes 0 tag.code := by
    simp [Value.encode]
  rw [encode, Value.encode, Value.encodeList, Value.encodeList, Value.encodeList, htag,
    List.append_nil]
  rfl

theorem longest_array_le (tag : LayerTag) (fields : List Value) :
    (Value.array fields).longest ≤ (encode tag fields).length := by
  have h := Value.longest_le_length_encode (.array fields)
  rw [encode_eq, List.length_append, List.length_append]
  omega

/-! ### Reading -/

theorem readIntegerIn_headBytes {n limit : Nat} {low high : Int} (hn : n < 2 ^ 64)
    (hlow : low ≤ n) (hhigh : (n : Int) < high) (rest : Bytes) :
    Cbor.readIntegerIn low high (limit + 1) (Cbor.headBytes 0 n ++ rest) =
      some ((n : Int), rest) := by
  have hhead : Cbor.Head.read (Cbor.headBytes 0 n ++ rest) = some (.unsigned n, rest) :=
    Cbor.Head.read_headBytes (by norm_num) hn rest
  simp only [Cbor.readIntegerIn, Cbor.readInteger, hhead, Option.bind_eq_bind, Option.bind_some,
    if_pos (And.intro hlow hhigh)]

/-- The pair reader takes a tag and fields of any form off the front. -/
theorem readPair_of_read {tag : LayerTag} {v : Value} {limit : Nat} {content rest : Bytes}
    (h : Value.read (limit + 1) (Cbor.maxLevels - 1) content = some (v, rest)) :
    Cbor.readPair (limit + 1) (Cbor.headBytes 4 2 ++ (Cbor.headBytes 0 tag.code ++ content)) =
      some ((tag.code, v), rest) := by
  have hcode := tag.code_lt
  have hhead : Cbor.Head.read (Cbor.headBytes 4 2 ++ (Cbor.headBytes 0 tag.code ++ content)) =
      some (.array (some 2), _) :=
    Cbor.Head.read_headBytes (by norm_num) (by norm_num) _
  rw [Cbor.readPair, Cbor.Head.readUntagged, hhead]
  simp only [Option.bind_eq_bind, Option.bind_some, Option.any_some,
    Nat.lt_irrefl, decide_false, Bool.false_eq_true, if_false]
  rw [readIntegerIn_headBytes (by omega) (by omega) (by omega)]
  simp only [Option.bind_some, h, Int.toNat_natCast]
  rfl

theorem readPair_encode {tag : LayerTag} {fields : List Value} (hp : Value.PlainList fields)
    (hd : Value.depthOfList fields < 255) (hl : (Value.array fields).longest < 2 ^ 64)
    (limit : Nat) (rest : Bytes) :
    Cbor.readPair (limit + 1) (encode tag fields ++ rest) =
      some ((tag.code, .array fields), rest) := by
  rw [encode_eq, List.append_assoc, List.append_assoc]
  exact readPair_of_read (Value.read_encode (limit + 1) (.array fields) (Cbor.maxLevels - 1) rest hp
    (show Value.depthOfList fields + 1 ≤ 255 by omega) hl)

/-- A written tuple within the size limit is the whole of an input. -/
theorem decodeRaw_encode {tag : LayerTag} {fields : List Value} (hp : Value.PlainList fields)
    (hd : Value.depthOfList fields < 255) (hs : (encode tag fields).length ≤ maxPayloadSize) :
    decodeRaw (encode tag fields) = .ok (tag.code, .array fields) := by
  have hl : (Value.array fields).longest < 2 ^ 64 :=
    lt_of_le_of_lt (longest_array_le tag fields) (lt_of_le_of_lt hs (by norm_num [maxPayloadSize]))
  obtain ⟨limit, hlimit⟩ : ∃ limit, (encode tag fields).length = limit + 1 :=
    ⟨_, (Nat.sub_add_cancel (Value.length_encode_pos _)).symm⟩
  have hpair : Cbor.readPair (limit + 1) (encode tag fields) =
      some ((tag.code, .array fields), []) := by
    rw [← readPair_encode hp hd hl limit [], List.append_nil]
  rw [hlimit] at hs
  simp only [decodeRaw, hlimit, if_neg (Nat.not_lt.mpr hs), hpair, List.isEmpty_nil, if_true]

theorem decodeAny_encode {tag : LayerTag} {fields : List Value} (hp : Value.PlainList fields)
    (hd : Value.depthOfList fields < 255) (hs : (encode tag fields).length ≤ maxPayloadSize) :
    decodeAny (encode tag fields) = .ok (tag, .array fields) := by
  rw [decodeAny, decodeRaw_encode hp hd hs, Except.ok_bind]
  simp only [LayerTag.ofCode?_eq_some_iff.mpr rfl]

theorem decode_encode {α : Type} {tag : LayerTag} {fields : List Value} {parse : Value → Option α}
    {a : α} (hp : Value.PlainList fields) (hd : Value.depthOfList fields < 255)
    (hs : (encode tag fields).length ≤ maxPayloadSize) (ha : parse (.array fields) = some a) :
    decode tag parse (encode tag fields) = .ok a := by
  rw [decode, decodeRaw_encode hp hd hs, Except.ok_bind]
  simp only [if_true, parseFields, ha]

/-! ### Tuples of any size -/

/-- A tuple is determined by its bytes. -/
theorem encode_inj {tag tag' : LayerTag} {fields fields' : List Value}
    (hp : Value.PlainList fields) (hp' : Value.PlainList fields')
    (hl : (Value.array fields).longest < 2 ^ 64) (hl' : (Value.array fields').longest < 2 ^ 64)
    (h : encode tag fields = encode tag' fields') : tag = tag' ∧ fields = fields' := by
  have hcode : ∀ t : LayerTag, (Value.int t.code).Plain := by
    intro t
    have := t.code_lt
    exact ⟨by omega, by omega⟩
  have hlong : ∀ fs : List Value, (Value.array fs).longest < 2 ^ 64 → ∀ t : LayerTag,
      (Value.array [.int t.code, .array fs]).longest < 2 ^ 64 := by
    intro fs hfs t
    simp only [Value.longest, Value.longestOfList, List.length_cons, List.length_nil] at hfs ⊢
    omega
  have hpair := Value.encode_append_inj (r := []) (s := [])
    (show (Value.array [.int tag.code, .array fields]).Plain from ⟨hcode tag, hp, trivial⟩)
    (show (Value.array [.int tag'.code, .array fields']).Plain from ⟨hcode tag', hp', trivial⟩)
    (hlong fields hl tag) (hlong fields' hl' tag') (congrArg (· ++ []) h)
  simp only [Value.array.injEq, List.cons.injEq, Value.int.injEq, and_true, Nat.cast_inj] at hpair
  exact ⟨LayerTag.code_injective hpair.1, hpair.2⟩

end Tagged
end SealedEnvelope
