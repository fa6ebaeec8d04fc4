/-
# Records are read back

A record whose fields are fields of a schema, each at most once and with a
value of its kind, is read back from what is written for it, whatever follows.
The reader accepts many other forms of a record, with heads of any width,
chunks, tags and unknown names; but every byte of a text or a byte string that
it finds was among those that it read, so that nothing in a record is longer
than the input.

Key definitions: `Cbor.FieldKind.Admits`, `Cbor.Record.Conforms`, `Cbor.Scalar.size`.
Key theorems: `Cbor.Record.read_encode`, `Cbor.Record.size_le_of_read`.
-/
import Mathlib
import SealedEnvelope.Cbor.Record
import SealedEnvelope.Proofs.Cbor.Extent
import SealedEnvelope.Proofs.Cbor.ReadBack

namespace SealedEnvelope
namespace Cbor

/-! ### What is written -/

/-- The values that a field of a kind is written with: integers in its range that have 64 bits and
a sign, and strings whose length is a word of 64 bits. -/
inductive FieldKind.Admits : FieldKind → Scalar → Prop where
  | integer {low high i : Int} (range : low ≤ i ∧ i < high) (word : -2 ^ 64 ≤ i ∧ i < 2 ^ 64) :
      Admits (.integer low high) (.integer i)
  | text {s : String} (word : (Bytes.ofText s).length < 2 ^ 64) : Admits .text (.text s)
  | bytes {b : Bytes} (word : b.length < 2 ^ 64) : Admits .bytes (.bytes b)

/-- The names and kinds of fields that can be told apart and are not too long to be read. -/
structure Record.IsSchema (schema : List (String × FieldKind)) : Prop where
  nodup : (schema.map (·.1)).Nodup
  short : ∀ f ∈ schema, (Bytes.ofText f.1).length ≤ maxNameLength

/-- All fields are fields of the schema and have values of their kinds, and no field occurs
twice. -/
structure Record.Conforms (schema : List (String × FieldKind)) (r : Record) : Prop where
  nodup : (r.map (·.1)).Nodup
  admits : ∀ f ∈ r, ∃ kind, (f.1, kind) ∈ schema ∧ kind.Admits f.2

/-- A head that is written is read back where tags are skipped, unless it is itself a tag. -/
theorem Head.readUntagged_headBytes {major n limit : Nat} (hmajor : major < 6) (hn : n < 2 ^ 64)
    (rest : Bytes) :
    readUntagged (limit + 1) (headBytes major n ++ rest) = some (ofArgument major 0 n, rest) := by
  rw [readUntagged, read_headBytes (by omega) hn]
  interval_cases major <;> rfl

theorem readInteger_encode {i : Int} (h1 : -2 ^ 64 ≤ i) (h2 : i < 2 ^ 64) (limit heads : Nat)
    (rest : Bytes) :
    readInteger limit (heads + 1) ((Value.int i).encode ++ rest) = some (i, rest) := by
  by_cases hi : 0 ≤ i
  · have hhead : Head.read (headBytes 0 i.toNat ++ rest) = some (.unsigned i.toNat, rest) :=
      Head.read_headBytes (by norm_num) (by omega) rest
    rw [Value.encode, if_pos hi, readInteger, hhead]
    simp only [Int.toNat_of_nonneg hi]
  · have hhead : Head.read (headBytes 1 (-1 - i).toNat ++ rest) =
        some (.negative (-1 - i).toNat, rest) :=
      Head.read_headBytes (by norm_num) (by omega) rest
    have hback : -1 - (((-1 - i).toNat : Nat) : Int) = i := by omega
    rw [Value.encode, if_neg hi, readInteger, hhead]
    simp only [hback]

namespace Record

variable {schema : List (String × FieldKind)} {limit : Nat} {rest : Bytes}

theorem readName_encode {name : String} (h : (Bytes.ofText name).length ≤ maxNameLength) :
    readName (limit + 1) ((Value.text name).encode ++ rest) = some (Bytes.ofText name, rest) := by
  have hword : (Bytes.ofText name).length < 2 ^ 64 := lt_of_le_of_lt h (by norm_num [maxNameLength])
  rw [Value.encode, List.append_assoc, readName, Head.readUntagged_headBytes (by norm_num) hword]
  simp [Head.ofArgument, h, Bytes.toText?_ofText]

/-- A value is read back as one of its kind. -/
theorem readScalar_encode {kind : FieldKind} {v : Scalar} (h : kind.Admits v) :
    readScalar kind (limit + 1) (v.toValue.encode ++ rest) = some (v, rest) := by
  cases h with
  | integer range word =>
    rw [readScalar, Scalar.toValue, readIntegerIn, readInteger_encode word.1 word.2]
    simp [range]
  | @text s word =>
    rw [readScalar, Scalar.toValue, Value.encode, List.append_assoc, readTextField,
      Head.readUntagged_headBytes (by norm_num) word]
    simp [Head.ofArgument, readText, readString, Value.textOfChunks_ofText]
  | @bytes b word =>
    rw [readScalar, Scalar.toValue, Value.encode, List.append_assoc, readBytesField,
      Head.readUntagged_headBytes (by norm_num) word]
    simp [Head.ofArgument, readBytes, readString]

theorem field?_ofText {name : String} {kind : FieldKind} (hnodup : (schema.map (·.1)).Nodup)
    (h : (name, kind) ∈ schema) : field? schema (Bytes.ofText name) = some (name, kind) := by
  induction schema with
  | nil => cases h
  | cons f schema ih =>
    rw [List.map_cons, List.nodup_cons] at hnodup
    rcases List.mem_cons.mp h with rfl | h
    · exact List.find?_cons_of_pos (by simp)
    · have hne : f.1 ≠ name := by
        rintro rfl
        exact hnodup.1 (List.mem_map.mpr ⟨_, h, rfl⟩)
      rw [field?, List.find?_cons_of_neg]
      · exact ih hnodup.2 h
      · simpa using fun heq => hne (Bytes.ofText_injective heq)

theorem readField_encode {name : String} {kind : FieldKind} {v : Scalar} (hs : IsSchema schema)
    (hmem : (name, kind) ∈ schema) (hv : kind.Admits v) :
    readField schema (limit + 1) ((Value.text name).encode ++ (v.toValue.encode ++ rest)) =
      some (some (name, v), rest) := by
  rw [readField, readName_encode (hs.short _ hmem)]
  simp only [Option.bind_eq_bind, Option.bind_some, field?_ofText hs.nodup hmem,
    readScalar_encode hv]
  rfl

theorem readCount_encodePairs (hs : IsSchema schema) : ∀ (r : Record)
    (acc : List (Option (String × Scalar))) (rest : Bytes),
    (∀ f ∈ r, ∃ kind, (f.1, kind) ∈ schema ∧ kind.Admits f.2) →
    readCount (readField schema (limit + 1)) r.length acc
      (Value.encodePairs (r.map fun (name, v) => (.text name, v.toValue)) ++ rest) =
        some (acc.reverse ++ r.map some, rest)
  | [], acc, rest, _ => by
    simp only [List.map_nil, List.append_nil]
    rfl
  | (name, v) :: r, acc, rest, h => by
    obtain ⟨kind, hmem, hv⟩ := h _ List.mem_cons_self
    have htail := readCount_encodePairs hs r (some (name, v) :: acc) rest
      fun f hf => h f (List.mem_cons_of_mem _ hf)
    rw [List.map_cons, Value.encodePairs, List.append_assoc, List.append_assoc, List.length_cons,
      readCount, readField_encode hs hmem hv]
    simp only [htail, List.reverse_cons, List.append_assoc, List.singleton_append, List.map_cons]

/-- **A record is read back.** -/
theorem read_encode {r : Record} (hs : IsSchema schema) (hr : r.Conforms schema)
    (hcount : r.length < 2 ^ 64) (rest : Bytes) : read schema (r.encode ++ rest) = some r := by
  obtain ⟨limit, hlimit⟩ : ∃ limit, (r.encode ++ rest).length = limit + 1 := by
    have hpos := Value.length_encode_pos (.map (r.map fun (name, v) => (.text name, v.toValue)))
    exact ⟨r.encode.length + rest.length - 1, by
      rw [List.length_append]
      have : 0 < r.encode.length := hpos
      omega⟩
  have hwritten : r.encode ++ rest = headBytes 5 r.length ++
      (Value.encodePairs (r.map fun (name, v) => (.text name, v.toValue)) ++ rest) := by
    rw [encode, Value.encode, List.length_map, List.append_assoc]
  rw [read]
  simp only [hlimit]
  rw [hwritten, Head.readUntagged_headBytes (by norm_num) hcount]
  simp only [Head.ofArgument, Option.bind_eq_bind, Option.bind_some, readItems,
    readCount_encodePairs hs r [] rest hr.admits, List.reverse_nil, List.nil_append,
    List.filterMap_map, Function.comp_def, id_eq, List.filterMap_some, if_pos hr.nodup]

end Record

/-! ### What is found in a record -/

namespace Record

theorem mem_of_get? {r : Record} {name : String} {v : Scalar} (h : r.get? name = some v) :
    (name, v) ∈ r := by
  obtain ⟨before, after, rfl, -⟩ := List.lookup_eq_some_iff.mp h
  exact List.mem_append_right _ List.mem_cons_self

theorem mem_of_text? {r : Record} {name s : String} (h : r.text? name = some s) :
    (name, .text s) ∈ r := by
  unfold text? at h
  split at h
  · rename_i found hget
    obtain rfl := Option.some.inj h
    exact mem_of_get? hget
  · cases h

theorem mem_of_bytes? {r : Record} {name : String} {b : Bytes} (h : r.bytes? name = some b) :
    (name, .bytes b) ∈ r := by
  unfold bytes? at h
  split at h
  · rename_i found hget
    obtain rfl := Option.some.inj h
    exact mem_of_get? hget
  · cases h

end Record

/-! ### What is read -/

/-- The bytes of a text or a byte string. -/
def Scalar.size : Scalar → Nat
  | .integer _ => 0
  | .text s => (Bytes.ofText s).length
  | .bytes b => b.length

/-- Behind its tags an item is read as if it stood alone. -/
theorem Head.exists_read_of_readUntagged {limit : Nat} {b rest : Bytes} {head : Head}
    (h : readUntagged limit b = some (head, rest)) :
    ∃ inner, inner.length ≤ b.length ∧ read inner = some (head, rest) := by
  induction limit generalizing b with
  | zero => cases h
  | succ limit ih =>
    rw [readUntagged] at h
    split at h
    · rename_i number content hread
      obtain ⟨inner, hlength, hinner⟩ := ih h
      have htag := consumes_read hread
      exact ⟨inner, by omega, hinner⟩
    · exact ⟨b, Nat.le_refl _, h⟩

theorem consumes_readIntegerIn (low high : Int) (limit : Nat) :
    Consumes (fun i => (Value.int i).extent) (readIntegerIn low high limit) := by
  intro b rest i h
  obtain ⟨⟨j, after⟩, hinteger, hrange⟩ := Option.bind_eq_some_iff.mp h
  simp only at hrange
  split_ifs at hrange
  obtain ⟨rfl, rfl⟩ := Prod.mk.inj (Option.some.inj hrange)
  exact extent_le_of_readInteger hinteger

namespace Record

theorem consumes_readName (limit : Nat) : Consumes (fun _ => 0) (readName limit) := by
  intro b rest name h
  obtain ⟨⟨head, content⟩, hhead, h⟩ := Option.bind_eq_some_iff.mp h
  have hstart := Head.consumes_readUntagged limit hhead
  cases head with
  | bytes length =>
    cases length with
    | none => cases h
    | some n =>
      simp only at h
      split_ifs at h
      have hsplit := Bytes.length_of_splitExact? h
      show 0 + rest.length ≤ b.length
      omega
  | text length =>
    cases length with
    | none => cases h
    | some n =>
      simp only at h
      split_ifs at h
      obtain ⟨⟨front, after⟩, hfront, h⟩ := Option.bind_eq_some_iff.mp h
      obtain ⟨s, -, heq⟩ := Option.bind_eq_some_iff.mp h
      obtain ⟨rfl, rfl⟩ := Prod.mk.inj (Option.some.inj heq)
      have hsplit := Bytes.length_of_splitExact? hfront
      show 0 + after.length ≤ b.length
      omega
  | _ => cases h

theorem consumes_readTextField (limit : Nat) :
    Consumes (fun s => (Bytes.ofText s).length) (readTextField limit) := by
  intro b rest s h
  obtain ⟨⟨head, content⟩, hhead, h⟩ := Option.bind_eq_some_iff.mp h
  obtain ⟨inner, hinner, hread⟩ := Head.exists_read_of_readUntagged hhead
  cases head with
  | text length =>
    have hlength := length_le_of_readText hread h
    show (Bytes.ofText s).length + rest.length ≤ b.length
    omega
  | _ => cases h

/-- The bytes of a field take a byte each, also where they are integers in an array. -/
theorem consumes_readBytesField (limit : Nat) :
    Consumes List.length (readBytesField limit) := by
  intro b rest s h
  obtain ⟨⟨head, content⟩, hhead, h⟩ := Option.bind_eq_some_iff.mp h
  obtain ⟨inner, hinner, hread⟩ := Head.exists_read_of_readUntagged hhead
  cases head with
  | bytes length =>
    have hlength := length_le_of_readBytes hread h
    omega
  | array length =>
    have hbyte : Consumes (fun _ => 1) fun b : Bytes =>
        (readIntegerIn 0 256 limit b).map fun r => (UInt8.ofNat r.1.toNat, r.2) := by
      intro b rest x hx
      obtain ⟨⟨i, after⟩, hi, heq⟩ := Option.map_eq_some_iff.mp hx
      obtain ⟨rfl, rfl⟩ := Prod.mk.inj heq
      have hextent : (Value.int i).extent + after.length ≤ b.length :=
        consumes_readIntegerIn 0 256 limit hi
      have hpos := (Value.int i).extent_pos
      show 1 + after.length ≤ b.length
      omega
    have hitems := hbyte.readItems h
    have hstart := Head.consumes_read hread
    have hextent : (Head.array length).extent = (length.map headLength).getD 1 := by
      cases length <;> rfl
    rw [List.map_const', List.sum_replicate, smul_eq_mul, Nat.mul_one] at hitems
    omega
  | _ => cases h

theorem consumes_readScalar (kind : FieldKind) (limit : Nat) :
    Consumes Scalar.size (readScalar kind limit) := by
  intro b rest v h
  cases kind with
  | integer low high =>
    obtain ⟨⟨i, after⟩, hi, heq⟩ := Option.map_eq_some_iff.mp h
    obtain ⟨rfl, rfl⟩ := Prod.mk.inj heq
    exact le_trans (Nat.add_le_add_right (Nat.zero_le _) _) (consumes_readIntegerIn _ _ _ hi)
  | text =>
    obtain ⟨⟨s, after⟩, hs, heq⟩ := Option.map_eq_some_iff.mp h
    obtain ⟨rfl, rfl⟩ := Prod.mk.inj heq
    exact consumes_readTextField limit hs
  | bytes =>
    obtain ⟨⟨s, after⟩, hs, heq⟩ := Option.map_eq_some_iff.mp h
    obtain ⟨rfl, rfl⟩ := Prod.mk.inj heq
    exact consumes_readBytesField limit hs

theorem consumes_readField (schema : List (String × FieldKind)) (limit : Nat) :
    Consumes (fun entry => (entry.map fun f => f.2.size).getD 0) (readField schema limit) := by
  intro b rest entry h
  obtain ⟨⟨name, content⟩, hname, h⟩ := Option.bind_eq_some_iff.mp h
  have hstart := consumes_readName limit hname
  simp only at h hstart
  split at h
  · rename_i known kind _
    obtain ⟨⟨v, after⟩, hv, heq⟩ := Option.bind_eq_some_iff.mp h
    obtain ⟨rfl, rfl⟩ := Prod.mk.inj (Option.some.inj heq)
    have hvalue := consumes_readScalar kind limit hv
    simp only [Option.map_some, Option.getD_some]
    omega
  · obtain ⟨⟨v, after⟩, hv, heq⟩ := Option.bind_eq_some_iff.mp h
    obtain ⟨rfl, rfl⟩ := Prod.mk.inj (Option.some.inj heq)
    have hvalue := Value.consumes_read limit (maxLevels - 1) hv
    simp only [Option.map_none, Option.getD_none]
    omega

/-- Nothing in a record is longer than the bytes that it was read from. -/
theorem size_le_of_read {schema : List (String × FieldKind)} {b : Bytes} {r : Record}
    (h : read schema b = some r) {f : String × Scalar} (hf : f ∈ r) : f.2.size ≤ b.length := by
  obtain ⟨⟨head, content⟩, hhead, h⟩ := Option.bind_eq_some_iff.mp h
  have hstart := Head.consumes_readUntagged b.length hhead
  cases head with
  | map length =>
    obtain ⟨⟨entries, after⟩, hentries, h⟩ := Option.bind_eq_some_iff.mp h
    simp only at h
    split_ifs at h
    obtain rfl := Option.some.inj h
    obtain ⟨entry, hentry, hsome⟩ := List.mem_filterMap.mp hf
    obtain rfl : entry = some f := hsome
    have hitems := (consumes_readField schema b.length).readItems hentries
    have hextent : (Head.map length).extent = (length.map headLength).getD 1 := by
      cases length <;> rfl
    have hmember : f.2.size ≤
        (entries.map fun entry => (entry.map fun f => f.2.size).getD 0).sum :=
      List.le_sum_of_mem (List.mem_map.mpr ⟨_, hentry, rfl⟩)
    omega
  | _ => cases h

end Record
end Cbor
end SealedEnvelope
