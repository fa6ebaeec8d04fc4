/-
# Written items are read back

The writer has one form for every item, and the reader takes that form back to
the item and leaves what follows it alone. So no written item is the beginning
of another, and a sequence of items is determined by its bytes.

The items are those that layers are made of: integers of 64 bits and a sign,
strings, arrays, truth values and `null` (`Value.Plain`), nested no deeper than
the reader goes, with lengths that a head can announce (`Value.longest`).

Key definitions: `Cbor.Value.Plain`, `Cbor.Value.longest`.
Key theorems: `Cbor.Head.read_headBytes`, `Cbor.Value.read_encode`,
`Cbor.Value.encode_append_inj`, `Cbor.Value.longest_le_length_encode`.
-/
import Mathlib
import SealedEnvelope.Cbor.Reader
import SealedEnvelope.Cbor.Writer
import SealedEnvelope.Proofs.BigEndian

namespace SealedEnvelope
namespace Cbor

/-! ### Heads -/

namespace Head

/-- A first byte is taken apart into the major type and the low bits. -/
theorem read_cons {major info : Nat} (hm : major < 8) (hi : info < 31) (b : Bytes) :
    read (UInt8.ofNat (major * 32 + info) :: b) =
      (readArgument info b).map fun (n, rest) => (ofArgument major info n, rest) := by
  have hx : (UInt8.ofNat (major * 32 + info)).toNat = major * 32 + info := by
    rw [UInt8.toNat_ofNat']
    omega
  have hmajor : (major * 32 + info) / 32 = major := by omega
  have hinfo : (major * 32 + info) % 32 = info := by omega
  have hne : info ≠ 31 := by omega
  simp only [read, hx, hmajor, hinfo, if_neg hne]

theorem readArgument_ofNatWidth {k n : Nat} (hk : k < 4) (hn : n < 256 ^ 2 ^ k) (rest : Bytes) :
    readArgument (24 + k) (Bytes.ofNatWidth (2 ^ k) n ++ rest) = some (n, rest) := by
  have hsplit : Bytes.splitExact? (2 ^ k) (Bytes.ofNatWidth (2 ^ k) n ++ rest) =
      some (Bytes.ofNatWidth (2 ^ k) n, rest) :=
    Bytes.splitExact?_eq_some_iff.mpr ⟨rfl, Bytes.length_ofNatWidth _ _⟩
  rw [readArgument, if_neg (by omega), if_pos (by omega), Nat.add_sub_cancel_left,
    Nat.one_shiftLeft, hsplit]
  simp only [Option.map_some, Bytes.toNat_ofNatWidth_of_lt hn]

/-- Only simple items and floats depend on how their argument was written. -/
theorem ofArgument_eq {major : Nat} (hm : major < 7) (info n : Nat) :
    ofArgument major info n = ofArgument major 0 n := by
  interval_cases major <;> rfl

/-- The shortest head of an argument of 64 bits is read back. -/
theorem read_headBytes {major n : Nat} (hm : major < 7) (hn : n < 2 ^ 64) (rest : Bytes) :
    read (headBytes major n ++ rest) = some (ofArgument major 0 n, rest) := by
  have hwide : ∀ k < 4, n < 256 ^ 2 ^ k →
      read (UInt8.ofNat (major * 32 + (24 + k)) :: (Bytes.ofNatWidth (2 ^ k) n ++ rest)) =
        some (ofArgument major 0 n, rest) := by
    intro k hk hlt
    rw [read_cons (by omega) (by omega), readArgument_ofNatWidth hk hlt]
    simp only [Option.map_some, ofArgument_eq hm (24 + k)]
  rw [headBytes]
  split
  · rename_i h
    rw [List.singleton_append, read_cons (by omega) (by omega), readArgument, if_pos h]
    simp only [Option.map_some, ofArgument_eq hm n]
  · split
    · rename_i h
      exact hwide 0 (by norm_num) (by simpa using h)
    · split
      · rename_i h
        exact hwide 1 (by norm_num) (by simpa using h)
      · split
        · rename_i h
          exact hwide 2 (by norm_num) (by simpa using h)
        · exact hwide 3 (by norm_num) (by simpa using hn)

end Head

theorem length_headBytes_pos (major n : Nat) : 0 < (headBytes major n).length := by
  unfold headBytes
  split_ifs <;> simp

namespace Value

/-! ### The items of layers -/

mutual

/-- An integer of 64 bits and a sign, a string, a truth value, `null`, or an array of such
items. -/
def Plain : Value → Prop
  | .int i => -2 ^ 64 ≤ i ∧ i < 2 ^ 64
  | .bytes _ => True
  | .text _ => True
  | .array items => PlainList items
  | .bool _ => True
  | .null => True
  | _ => False

/-- All items of a list are plain. -/
def PlainList : List Value → Prop
  | [] => True
  | v :: vs => v.Plain ∧ PlainList vs

end

mutual

/-- The greatest length that is announced for a string or an array inside an item. -/
def longest : Value → Nat
  | .bytes b => b.length
  | .text s => (Bytes.ofText s).length
  | .array items => max items.length (longestOfList items)
  | _ => 0

/-- The greatest length announced in a list of items. -/
def longestOfList : List Value → Nat
  | [] => 0
  | v :: vs => max v.longest (longestOfList vs)

end

theorem plain_word (w : UInt64) : (Value.int w.toNat).Plain := by
  have := w.toNat_lt
  exact ⟨by omega, by omega⟩

theorem plain_optional {α : Type} {f : α → Value} (hf : ∀ a, (f a).Plain) (o : Option α) :
    (optional f o).Plain := by
  cases o with
  | none => trivial
  | some a => exact hf a

theorem optional_injective {α : Type} {f : α → Value} (hf : Function.Injective f)
    (hn : ∀ a, f a ≠ .null) : Function.Injective (optional f) := by
  intro o o' h
  cases o with
  | none =>
    cases o' with
    | none => rfl
    | some b => exact absurd h.symm (hn b)
  | some a =>
    cases o' with
    | none => exact absurd h (hn a)
    | some b => exact congrArg some (hf h)

theorem length_encode_pos (v : Value) : 0 < v.encode.length := by
  have hhead : ∀ (major n : Nat) (b : Bytes), 0 < (headBytes major n ++ b).length := by
    intro major n b
    rw [List.length_append]
    exact Nat.add_pos_left (length_headBytes_pos major n) _
  cases v with
  | int i =>
    unfold encode
    split <;> exact length_headBytes_pos _ _
  | bytes b => exact hhead _ _ _
  | text s => exact hhead _ _ _
  | array items => exact hhead _ _ _
  | map entries => exact hhead _ _ _
  | bool b => cases b <;> exact Nat.zero_lt_one
  | null => exact Nat.zero_lt_one
  | float bits => exact Nat.succ_pos _
  | tag number content => exact hhead _ _ _

theorem length_le_length_encodeList : ∀ vs : List Value, vs.length ≤ (encodeList vs).length
  | [] => Nat.le_refl 0
  | v :: vs => by
    have h1 := length_encode_pos v
    have h2 := length_le_length_encodeList vs
    rw [encodeList, List.length_cons, List.length_append]
    omega

mutual

/-- What an item announces takes at least as many bytes. -/
theorem longest_le_length_encode : ∀ v : Value, v.longest ≤ v.encode.length
  | .bytes b => by
    rw [longest, encode, List.length_append]
    omega
  | .text s => by
    rw [longest, encode, List.length_append]
    omega
  | .array items => by
    have h1 := length_le_length_encodeList items
    have h2 := longestOfList_le_length_encodeList items
    rw [longest, encode, List.length_append]
    omega
  | .int _ => Nat.zero_le _
  | .map _ => Nat.zero_le _
  | .bool _ => Nat.zero_le _
  | .null => Nat.zero_le _
  | .float _ => Nat.zero_le _
  | .tag _ _ => Nat.zero_le _

theorem longestOfList_le_length_encodeList :
    ∀ vs : List Value, longestOfList vs ≤ (encodeList vs).length
  | [] => Nat.le_refl 0
  | v :: vs => by
    have h1 := longest_le_length_encode v
    have h2 := longestOfList_le_length_encodeList vs
    rw [longestOfList, encodeList, List.length_append]
    omega

end

/-! ### Reading back -/

theorem textOfChunks_ofText (s : String) : textOfChunks [Bytes.ofText s] = some s := by
  simp [textOfChunks, Bytes.toText?_ofText]

theorem readWith_int {i : Int} (h1 : -2 ^ 64 ≤ i) (h2 : i < 2 ^ 64) (limit : Nat)
    (nested : Option (Bytes → Option (Value × Bytes))) (rest : Bytes) :
    readWith limit nested ((Value.int i).encode ++ rest) = some (.int i, rest) := by
  by_cases hi : 0 ≤ i
  · have hn : i.toNat < 2 ^ 64 := by omega
    have hback : ((i.toNat : Nat) : Int) = i := Int.toNat_of_nonneg hi
    rw [encode, if_pos hi, readWith, Head.read_headBytes (by norm_num) hn]
    simp only [Head.ofArgument, Option.bind_eq_bind, Option.bind_some, hback]
  · have hn : (-1 - i).toNat < 2 ^ 64 := by omega
    have hback : -1 - (((-1 - i).toNat : Nat) : Int) = i := by omega
    rw [encode, if_neg hi, readWith, Head.read_headBytes (by norm_num) hn]
    simp only [Head.ofArgument, Option.bind_eq_bind, Option.bind_some, hback]

theorem readWith_bytes {b : Bytes} (h : b.length < 2 ^ 64) (limit : Nat)
    (nested : Option (Bytes → Option (Value × Bytes))) (rest : Bytes) :
    readWith limit nested ((Value.bytes b).encode ++ rest) = some (.bytes b, rest) := by
  rw [encode, List.append_assoc, readWith, Head.read_headBytes (by norm_num) h]
  simp [Head.ofArgument, readBytes, readString]

theorem readWith_text {s : String} (h : (Bytes.ofText s).length < 2 ^ 64) (limit : Nat)
    (nested : Option (Bytes → Option (Value × Bytes))) (rest : Bytes) :
    readWith limit nested ((Value.text s).encode ++ rest) = some (.text s, rest) := by
  rw [encode, List.append_assoc, readWith, Head.read_headBytes (by norm_num) h]
  simp [Head.ofArgument, readText, readString, textOfChunks_ofText]

theorem read_eq_readWith (limit levels : Nat) (b : Bytes) :
    ∃ nested, read limit levels b = readWith limit nested b := by
  cases levels with
  | zero => exact ⟨_, rfl⟩
  | succ levels => exact ⟨_, rfl⟩

mutual

/-- The reader takes a written item off the front, if it may enter as many levels as the item
has. -/
theorem read_encode (limit : Nat) : ∀ (v : Value) (levels : Nat) (rest : Bytes), v.Plain →
    v.depth ≤ levels → v.longest < 2 ^ 64 → read limit levels (v.encode ++ rest) = some (v, rest)
  | .int i, levels, rest, hv, _, _ => by
    obtain ⟨nested, hread⟩ := read_eq_readWith limit levels ((Value.int i).encode ++ rest)
    rw [hread, readWith_int hv.1 hv.2]
  | .bytes b, levels, rest, _, _, hl => by
    obtain ⟨nested, hread⟩ := read_eq_readWith limit levels ((Value.bytes b).encode ++ rest)
    rw [hread, readWith_bytes hl]
  | .text s, levels, rest, _, _, hl => by
    obtain ⟨nested, hread⟩ := read_eq_readWith limit levels ((Value.text s).encode ++ rest)
    rw [hread, readWith_text hl]
  | .bool b, levels, rest, _, _, _ => by
    cases levels <;> cases b <;> rfl
  | .null, levels, rest, _, _, _ => by
    cases levels <;> rfl
  | .array items, levels, rest, hv, hd, hl => by
    cases levels with
    | zero => exact absurd hd (Nat.not_succ_le_zero _)
    | succ levels =>
      have hlen : items.length < 2 ^ 64 := lt_of_le_of_lt (le_max_left _ _) hl
      have hitems := readCount_encodeList limit items levels [] rest hv
        (Nat.le_of_succ_le_succ hd) (lt_of_le_of_lt (le_max_right _ _) hl)
      rw [encode, List.append_assoc, read, readWith, Head.read_headBytes (by norm_num) hlen]
      simp only [Head.ofArgument, Option.bind_eq_bind, Option.bind_some, readItems, hitems,
        Option.map_some, List.reverse_nil, List.nil_append]

theorem readCount_encodeList (limit : Nat) : ∀ (vs : List Value) (levels : Nat)
    (acc : List Value) (rest : Bytes), PlainList vs → depthOfList vs ≤ levels →
    longestOfList vs < 2 ^ 64 →
    readCount (read limit levels) vs.length acc (encodeList vs ++ rest) =
      some (acc.reverse ++ vs, rest)
  | [], _, acc, rest, _, _, _ => by
    rw [List.append_nil]
    rfl
  | v :: vs, levels, acc, rest, hv, hd, hl => by
    have hhead := read_encode limit v levels (encodeList vs ++ rest) hv.1
      (le_trans (le_max_left _ _) hd) (lt_of_le_of_lt (le_max_left _ _) hl)
    have htail := readCount_encodeList limit vs levels (v :: acc) rest hv.2
      (le_trans (le_max_right _ _) hd) (lt_of_le_of_lt (le_max_right _ _) hl)
    rw [encodeList, List.append_assoc, List.length_cons, readCount, hhead]
    simp only [htail, List.reverse_cons, List.append_assoc, List.singleton_append]

end

/-- No written item is the beginning of another. -/
theorem encode_append_inj {v w : Value} {r s : Bytes} (hv : v.Plain) (hw : w.Plain)
    (hlv : v.longest < 2 ^ 64) (hlw : w.longest < 2 ^ 64)
    (h : v.encode ++ r = w.encode ++ s) : v = w ∧ r = s := by
  have h1 := read_encode 0 v (max v.depth w.depth) r hv (le_max_left _ _) hlv
  have h2 := read_encode 0 w (max v.depth w.depth) s hw (le_max_right _ _) hlw
  rw [h, h2] at h1
  simpa [eq_comm] using h1

end Value
end Cbor
end SealedEnvelope
