/-
# Reading data items

The reader takes one data item off the front of a byte string. It accepts more
than the writer produces: heads need not be shortest, strings, arrays and maps
may be unbounded, and an unbounded string may contain unbounded strings. It
refuses what nests deeper than the levels it is given.

A loop over heads is bounded by `limit`, which is never less than the number of
bytes: every head takes at least one of them.

Key definitions: `Cbor.Value.read`, `Cbor.readChunks`, `Cbor.readItems`,
`Cbor.readIntegerIn`, `Cbor.readPair`.
-/
import SealedEnvelope.Cbor.Head

namespace SealedEnvelope
namespace Cbor

/-! ### Strings -/

/-- The two kinds of string. -/
inductive StringKind where
  | bytes
  | text
deriving DecidableEq, Repr

/-- The length of a string of this kind, if the head announces one. -/
def StringKind.length? : StringKind → Head → Option (Option Nat)
  | .bytes, .bytes length => some length
  | .text, .text length => some length
  | _, _ => none

/-- The chunks of an unbounded string up to its stop, after the chunks `acc`, latest first.
`inner` counts the unbounded strings that are open inside. -/
def readChunks (kind : StringKind) : (limit inner : Nat) → (acc : List Bytes) → Bytes →
    Option (List Bytes × Bytes)
  | 0, _, _, _ => none
  | limit + 1, inner, acc, b =>
    match Head.read b with
    | none => none
    | some (.stop, rest) =>
      match inner with
      | 0 => some (acc.reverse, rest)
      | inner + 1 => readChunks kind limit inner acc rest
    | some (head, rest) =>
      match kind.length? head with
      | none => none
      | some none => readChunks kind limit (inner + 1) acc rest
      | some (some n) =>
        match Bytes.splitExact? n rest with
        | none => none
        | some (chunk, rest) => readChunks kind limit inner (chunk :: acc) rest

/-- The chunks of a string whose head announces the length `length`. -/
def readString (kind : StringKind) (limit : Nat) (length : Option Nat) (b : Bytes) :
    Option (List Bytes × Bytes) :=
  match length with
  | some n => (Bytes.splitExact? n b).map fun (chunk, rest) => ([chunk], rest)
  | none => readChunks kind limit 0 [] b

/-- The content of a byte string after its head. -/
def readBytes (limit : Nat) (length : Option Nat) (b : Bytes) : Option (Bytes × Bytes) :=
  (readString .bytes limit length b).map fun (chunks, rest) => (chunks.flatten, rest)

/-- The text that the chunks spell, each of which is well formed by itself. -/
def textOfChunks (chunks : List Bytes) : Option String :=
  (chunks.mapM Bytes.toText?).map fun texts => texts.foldl (· ++ ·) ""

/-- The content of a text after its head. -/
def readText (limit : Nat) (length : Option Nat) (b : Bytes) : Option (String × Bytes) := do
  let (chunks, rest) ← readString .text limit length b
  let s ← textOfChunks chunks
  return (s, rest)

/-! ### Sequences of items -/

/-- `n` items, after the items `acc`, latest first. -/
def readCount {α : Type} (item : Bytes → Option (α × Bytes)) : Nat → List α → Bytes →
    Option (List α × Bytes)
  | 0, acc, b => some (acc.reverse, b)
  | n + 1, acc, b =>
    match item b with
    | none => none
    | some (v, rest) => readCount item n (v :: acc) rest

/-- The items up to a stop, after the items `acc`, latest first. -/
def readUntilStop {α : Type} (item : Bytes → Option (α × Bytes)) : (limit : Nat) → List α →
    Bytes → Option (List α × Bytes)
  | 0, _, _ => none
  | limit + 1, acc, b =>
    match b with
    | 0xff :: rest => some (acc.reverse, rest)
    | _ =>
      match item b with
      | none => none
      | some (v, rest) => readUntilStop item limit (v :: acc) rest

/-- The items of an array or map whose head announces the length `length`. -/
def readItems {α : Type} (item : Bytes → Option (α × Bytes)) (limit : Nat)
    (length : Option Nat) (b : Bytes) : Option (List α × Bytes) :=
  match length with
  | some n => readCount item n [] b
  | none => readUntilStop item limit [] b

/-- A key and its value. -/
def readEntry {α β : Type} (key : Bytes → Option (α × Bytes)) (value : Bytes → Option (β × Bytes))
    (b : Bytes) : Option ((α × β) × Bytes) := do
  let (k, rest) ← key b
  let (v, rest) ← value rest
  return ((k, v), rest)

/-! ### Items -/

/-- The item that tag 2 or 3 makes of a byte string: an integer if it fits in 64 bits, and
otherwise the tag around the digits; numbers from `-1 - 2^127` downwards are refused. -/
def bigInteger (number : Nat) (digits : Bytes) : Option Value :=
  let m := digits.toNat
  let wide := Value.tag number (.bytes digits.trimLeadingZeros)
  if number = 2 then
    some (if m < 2 ^ 64 then .int m else wide)
  else if 2 ^ 127 ≤ m then none
  else some (if m < 2 ^ 64 then .int (-1 - m) else wide)

/-- The digits of a big integer behind the tag `number`: a byte string of announced length,
at most 16 bytes. -/
def bigDigitsLength? (number : Nat) (b : Bytes) : Option (Nat × Bytes) :=
  if number = 2 ∨ number = 3 then
    match Head.read b with
    | some (.bytes (some n), rest) => if n ≤ 16 then some (n, rest) else none
    | _ => none
  else none

/-- The value of a simple item: `undefined` (23) is read as `null` (22). -/
def simpleValue : Nat → Option Value
  | 20 => some (.bool false)
  | 21 => some (.bool true)
  | 22 => some .null
  | 23 => some .null
  | _ => none

namespace Value

/-- One item, whose parts are read by `nested`; without it no further level may be entered. -/
def readWith (limit : Nat) (nested : Option (Bytes → Option (Value × Bytes))) (b : Bytes) :
    Option (Value × Bytes) := do
  let (head, rest) ← Head.read b
  match head with
  | .unsigned n => some (.int n, rest)
  | .negative n => some (.int (-1 - n), rest)
  | .bytes length => (readBytes limit length rest).map fun (s, rest) => (.bytes s, rest)
  | .text length => (readText limit length rest).map fun (s, rest) => (.text s, rest)
  | .array length =>
    let item ← nested
    (readItems item limit length rest).map fun (items, rest) => (.array items, rest)
  | .map length =>
    let item ← nested
    (readItems (readEntry item item) limit length rest).map fun (entries, rest) =>
      (.map entries, rest)
  | .tag number =>
    match bigDigitsLength? number rest with
    | some (n, rest) =>
      let (digits, rest) ← Bytes.splitExact? n rest
      let v ← bigInteger number digits
      return (v, rest)
    | none =>
      let item ← nested
      let (v, rest) ← item rest
      return (.tag number v, rest)
  | .simple n => (simpleValue n).map fun v => (v, rest)
  | .float bits => some (.float bits, rest)
  | .stop => none

/-- One item, in which arrays, maps and tags nest at most `levels` deep. -/
def read (limit : Nat) : (levels : Nat) → Bytes → Option (Value × Bytes)
  | 0 => readWith limit none
  | levels + 1 => readWith limit (some (read limit levels))

end Value

/-! ### Typed items -/

/-- The digits of a big integer in a stream: a byte string of any form, at most 16 bytes
without its leading zeros. -/
def readBigDigits (limit : Nat) (b : Bytes) : Option (Nat × Bytes) := do
  let (head, rest) ← Head.read b
  match head with
  | .bytes length =>
    let (digits, rest) ← readBytes limit length rest
    if digits.trimLeadingZeros.length ≤ 16 then some (digits.toNat, rest) else none
  | _ => none

/-- An integer behind any tags: unsigned, negative, or a big integer of either sign. -/
def readInteger (limit : Nat) : (heads : Nat) → Bytes → Option (Int × Bytes)
  | 0, _ => none
  | heads + 1, b =>
    match Head.read b with
    | some (.unsigned n, rest) => some (n, rest)
    | some (.negative n, rest) => some (-1 - n, rest)
    | some (.tag 2, rest) => (readBigDigits limit rest).map fun (m, rest) => (m, rest)
    | some (.tag 3, rest) => (readBigDigits limit rest).map fun (m, rest) => (-1 - m, rest)
    | some (.tag _, rest) => readInteger limit heads rest
    | _ => none

/-- An integer in the range from `low` up to but excluding `high`. -/
def readIntegerIn (low high : Int) (limit : Nat) (b : Bytes) : Option (Int × Bytes) := do
  let (i, rest) ← readInteger limit limit b
  if low ≤ i ∧ i < high then some (i, rest) else none

/-- The levels that items may nest, the outermost included. -/
def maxLevels : Nat := 256

/-- A pair of a number below `2^16` and an item, and the bytes after what was read. An
announced third item is not read, nor is the stop of an unbounded array. A byte string
stands for the array of its bytes. -/
def readPair (limit : Nat) (b : Bytes) : Option ((Nat × Value) × Bytes) := do
  let (head, rest) ← Head.readUntagged limit b
  match head with
  | .array length =>
    if length.any (· < 2) then none
    else
      let (first, rest) ← readIntegerIn 0 (2 ^ 16) limit rest
      let (second, rest) ← Value.read limit (maxLevels - 1) rest
      return ((first.toNat, second), rest)
  | .bytes length =>
    let (content, rest) ← readBytes limit length rest
    match content with
    | first :: second :: _ => some ((first.toNat, .int second.toNat), rest)
    | _ => none
  | _ => none

end Cbor
end SealedEnvelope
