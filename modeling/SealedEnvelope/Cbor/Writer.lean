/-
# Writing data items

The writer has one form for every item: shortest heads and announced lengths.

Key definitions: `Cbor.Value.encode`, `Cbor.Value.optional`.
-/
import SealedEnvelope.Cbor.Head

namespace SealedEnvelope
namespace Cbor
namespace Value

mutual

/-- The bytes of an item. -/
def encode : Value → Bytes
  | .int i => if 0 ≤ i then headBytes 0 i.toNat else headBytes 1 (-1 - i).toNat
  | .bytes b => headBytes 2 b.length ++ b
  | .text s => headBytes 3 (Bytes.ofText s).length ++ Bytes.ofText s
  | .array items => headBytes 4 items.length ++ encodeList items
  | .map entries => headBytes 5 entries.length ++ encodePairs entries
  | .tag number content => headBytes 6 number ++ content.encode
  | .bool false => [0xf4]
  | .bool true => [0xf5]
  | .null => [0xf6]
  | .float bits => 0xfb :: Bytes.ofUInt64 bits

/-- The bytes of items one after the other. -/
def encodeList : List Value → Bytes
  | [] => []
  | v :: vs => v.encode ++ encodeList vs

/-- The bytes of entries, each the key and then the value. -/
def encodePairs : List (Value × Value) → Bytes
  | [] => []
  | (k, v) :: es => k.encode ++ (v.encode ++ encodePairs es)

end

/-- The item of an optional value: `null` where it is absent. -/
def optional {α : Type} (f : α → Value) : Option α → Value
  | none => .null
  | some a => f a

end Value
end Cbor
end SealedEnvelope
