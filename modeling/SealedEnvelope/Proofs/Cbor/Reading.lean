/-
# How an item is read

The reader of an item does one of ten things, by the head that it finds, and
`Value.Reading` names them with everything that they depend on. `Chunks` does
the same for the loop over the chunks of an unbounded string, which closes the
string, leaves or enters one inside, or takes a chunk. So a property of
whatever is read is shown case by case, without opening the reader again.

Key definitions: `Cbor.Chunks`, `Cbor.Value.Reading`.
Key theorems: `Cbor.Chunks.of_readChunks`, `Cbor.Chunks.readChunks_eq`,
`Cbor.Value.Reading.of_readWith`, `Cbor.Value.Reading.readWith_eq`.
-/
import Mathlib
import SealedEnvelope.Cbor.Reader

namespace SealedEnvelope
namespace Cbor

/-! ### Loops -/

/-- How the chunks of an unbounded string are read: the string is closed, or an unbounded
string inside is left or entered, or a chunk is taken. -/
inductive Chunks (kind : StringKind) : (limit inner : Nat) → (acc : List Bytes) → Bytes →
    List Bytes → Bytes → Prop where
  | close {limit : Nat} {acc : List Bytes} {b rest : Bytes}
      (head : Head.read b = some (.stop, rest)) :
      Chunks kind (limit + 1) 0 acc b acc.reverse rest
  | leave {limit inner : Nat} {acc chunks : List Bytes} {b content rest : Bytes}
      (head : Head.read b = some (.stop, content))
      (more : Chunks kind limit inner acc content chunks rest) :
      Chunks kind (limit + 1) (inner + 1) acc b chunks rest
  | enter {limit inner : Nat} {acc chunks : List Bytes} {b content rest : Bytes} {start : Head}
      (head : Head.read b = some (start, content)) (unbounded : kind.length? start = some none)
      (more : Chunks kind limit (inner + 1) acc content chunks rest) :
      Chunks kind (limit + 1) inner acc b chunks rest
  | chunk {limit inner n : Nat} {acc chunks : List Bytes} {b content chunk after rest : Bytes}
      {start : Head} (head : Head.read b = some (start, content))
      (bounded : kind.length? start = some (some n))
      (split : Bytes.splitExact? n content = some (chunk, after))
      (more : Chunks kind limit inner (chunk :: acc) after chunks rest) :
      Chunks kind (limit + 1) inner acc b chunks rest

theorem Chunks.of_readChunks {kind : StringKind} {limit inner : Nat} {acc chunks : List Bytes}
    {b rest : Bytes} (h : readChunks kind limit inner acc b = some (chunks, rest)) :
    Chunks kind limit inner acc b chunks rest := by
  induction limit generalizing inner acc b with
  | zero => cases h
  | succ limit ih =>
    rw [readChunks] at h
    split at h
    · cases h
    · rename_i content hhead
      cases inner with
      | zero =>
        obtain ⟨rfl, rfl⟩ := Prod.mk.inj (Option.some.inj h)
        exact .close hhead
      | succ inner => exact .leave hhead (ih h)
    · rename_i start content _ hhead
      split at h
      · cases h
      · rename_i hunbounded
        exact .enter hhead hunbounded (ih h)
      · rename_i n hbounded
        split at h
        · cases h
        · rename_i chunk after hsplit
          exact .chunk hhead hbounded hsplit (ih h)

theorem StringKind.length?_stop (kind : StringKind) : kind.length? .stop = none := by
  cases kind <;> rfl

theorem Chunks.readChunks_eq {kind : StringKind} {limit inner : Nat} {acc chunks : List Bytes}
    {b rest : Bytes} (h : Chunks kind limit inner acc b chunks rest) :
    readChunks kind limit inner acc b = some (chunks, rest) := by
  induction h with
  | close head => rw [readChunks, head]
  | leave head _ ih => rw [readChunks, head]; exact ih
  | @enter _ _ _ _ _ _ _ start head unbounded _ ih =>
    rw [readChunks, head]
    cases start with
    | stop => rw [kind.length?_stop] at unbounded; cases unbounded
    | _ => simp only [unbounded, ih]
  | @chunk _ _ _ _ _ _ _ _ _ _ start head bounded split _ ih =>
    rw [readChunks, head]
    cases start with
    | stop => rw [kind.length?_stop] at bounded; cases bounded
    | _ => simp only [bounded, split, ih]

theorem readUntilStop_stop {α : Type} {item : Bytes → Option (α × Bytes)} {limit : Nat}
    {acc : List α} {rest : Bytes} :
    readUntilStop item (limit + 1) acc (0xff :: rest) = some (acc.reverse, rest) := rfl

theorem readUntilStop_of_ne {α : Type} {item : Bytes → Option (α × Bytes)} {limit : Nat}
    {acc : List α} {b : Bytes} (h : ∀ rest, b ≠ 0xff :: rest) :
    readUntilStop item (limit + 1) acc b =
      (item b).bind fun (v, rest) => readUntilStop item limit (v :: acc) rest := by
  rw [readUntilStop]
  · cases item b <;> rfl
  · exact h

/-! ### Items -/

namespace Value

/-- What the reader makes of a byte string: the item that it takes off the front, and the bytes
that it leaves. Parts are read by `nested`, and loops are bounded by `limit`. -/
inductive Reading (limit : Nat) (nested : Option (Bytes → Option (Value × Bytes))) (b : Bytes) :
    Value → Bytes → Prop where
  | unsigned {n : Nat} {rest : Bytes} (head : Head.read b = some (.unsigned n, rest)) :
      Reading limit nested b (.int n) rest
  | negative {n : Nat} {rest : Bytes} (head : Head.read b = some (.negative n, rest)) :
      Reading limit nested b (.int (-1 - n)) rest
  | bytes {length : Option Nat} {content rest s : Bytes}
      (head : Head.read b = some (.bytes length, content))
      (string : readBytes limit length content = some (s, rest)) :
      Reading limit nested b (.bytes s) rest
  | text {length : Option Nat} {content rest : Bytes} {s : String}
      (head : Head.read b = some (.text length, content))
      (string : readText limit length content = some (s, rest)) :
      Reading limit nested b (.text s) rest
  | array {length : Option Nat} {content rest : Bytes} {items : List Value}
      {item : Bytes → Option (Value × Bytes)} (head : Head.read b = some (.array length, content))
      (enter : nested = some item)
      (parts : readItems item limit length content = some (items, rest)) :
      Reading limit nested b (.array items) rest
  | map {length : Option Nat} {content rest : Bytes} {entries : List (Value × Value)}
      {item : Bytes → Option (Value × Bytes)} (head : Head.read b = some (.map length, content))
      (enter : nested = some item)
      (parts : readItems (readEntry item item) limit length content = some (entries, rest)) :
      Reading limit nested b (.map entries) rest
  | bigInteger {number n : Nat} {content inner rest digits : Bytes} {v : Value}
      (head : Head.read b = some (.tag number, content))
      (size : bigDigitsLength? number content = some (n, inner))
      (split : Bytes.splitExact? n inner = some (digits, rest))
      (value : Cbor.bigInteger number digits = some v) : Reading limit nested b v rest
  | tag {number : Nat} {content rest : Bytes} {v : Value} {item : Bytes → Option (Value × Bytes)}
      (head : Head.read b = some (.tag number, content))
      (size : bigDigitsLength? number content = none) (enter : nested = some item)
      (part : item content = some (v, rest)) : Reading limit nested b (.tag number v) rest
  | simple {n : Nat} {rest : Bytes} {v : Value} (head : Head.read b = some (.simple n, rest))
      (value : simpleValue n = some v) : Reading limit nested b v rest
  | float {bits : UInt64} {rest : Bytes} (head : Head.read b = some (.float bits, rest)) :
      Reading limit nested b (.float bits) rest

variable {limit : Nat} {nested : Option (Bytes → Option (Value × Bytes))} {b rest : Bytes}
  {v : Value}

/-- What the reader yields comes about in one of the ten ways. -/
theorem Reading.of_readWith (h : readWith limit nested b = some (v, rest)) :
    Reading limit nested b v rest := by
  rw [readWith, Option.bind_eq_bind, Option.bind_eq_some_iff] at h
  obtain ⟨⟨head, content⟩, hhead, h⟩ := h
  cases head with
  | unsigned n =>
    obtain ⟨rfl, rfl⟩ := Prod.mk.inj (Option.some.inj h)
    exact .unsigned hhead
  | negative n =>
    obtain ⟨rfl, rfl⟩ := Prod.mk.inj (Option.some.inj h)
    exact .negative hhead
  | bytes length =>
    obtain ⟨⟨s, after⟩, hstring, heq⟩ := Option.map_eq_some_iff.mp h
    obtain ⟨rfl, rfl⟩ := Prod.mk.inj heq
    exact .bytes hhead hstring
  | text length =>
    obtain ⟨⟨s, after⟩, hstring, heq⟩ := Option.map_eq_some_iff.mp h
    obtain ⟨rfl, rfl⟩ := Prod.mk.inj heq
    exact .text hhead hstring
  | array length =>
    obtain ⟨item, henter, h⟩ := Option.bind_eq_some_iff.mp h
    obtain ⟨⟨items, after⟩, hparts, heq⟩ := Option.map_eq_some_iff.mp h
    obtain ⟨rfl, rfl⟩ := Prod.mk.inj heq
    exact .array hhead henter hparts
  | map length =>
    obtain ⟨item, henter, h⟩ := Option.bind_eq_some_iff.mp h
    obtain ⟨⟨entries, after⟩, hparts, heq⟩ := Option.map_eq_some_iff.mp h
    obtain ⟨rfl, rfl⟩ := Prod.mk.inj heq
    exact .map hhead henter hparts
  | tag number =>
    simp only at h
    split at h
    · rename_i n inner hsize
      obtain ⟨⟨digits, after⟩, hsplit, h⟩ := Option.bind_eq_some_iff.mp h
      obtain ⟨w, hvalue, h⟩ := Option.bind_eq_some_iff.mp h
      obtain ⟨rfl, rfl⟩ := Prod.mk.inj (Option.some.inj h)
      exact .bigInteger hhead hsize hsplit hvalue
    · rename_i hsize
      obtain ⟨item, henter, h⟩ := Option.bind_eq_some_iff.mp h
      obtain ⟨⟨w, after⟩, hpart, h⟩ := Option.bind_eq_some_iff.mp h
      obtain ⟨rfl, rfl⟩ := Prod.mk.inj (Option.some.inj h)
      exact .tag hhead hsize henter hpart
  | simple n =>
    obtain ⟨w, hvalue, heq⟩ := Option.map_eq_some_iff.mp h
    obtain ⟨rfl, rfl⟩ := Prod.mk.inj heq
    exact .simple hhead hvalue
  | float bits =>
    obtain ⟨rfl, rfl⟩ := Prod.mk.inj (Option.some.inj h)
    exact .float hhead
  | stop => cases h

/-- Each of the ten ways is one in which the reader goes. -/
theorem Reading.readWith_eq (h : Reading limit nested b v rest) :
    readWith limit nested b = some (v, rest) := by
  rw [readWith, Option.bind_eq_bind]
  cases h with
  | unsigned head => simp only [head, Option.bind_some]
  | negative head => simp only [head, Option.bind_some]
  | bytes head string => simp only [head, string, Option.bind_some, Option.map_some]
  | text head string => simp only [head, string, Option.bind_some, Option.map_some]
  | array head enter parts =>
    simp only [head, enter, parts, Option.bind_eq_bind, Option.bind_some, Option.map_some]
  | map head enter parts =>
    simp only [head, enter, parts, Option.bind_eq_bind, Option.bind_some, Option.map_some]
  | bigInteger head size split value =>
    simp only [head, size, split, value, Option.bind_eq_bind, Option.bind_some]
    rfl
  | tag head size enter part =>
    simp only [head, size, enter, part, Option.bind_eq_bind, Option.bind_some]
    rfl
  | simple head value => simp only [head, value, Option.bind_some, Option.map_some]
  | float head => simp only [head, Option.bind_some]

end Value
end Cbor
end SealedEnvelope
