/-
# Fields of a decoded item

Once an item is in memory its parts are taken out by kind. Text, byte strings,
booleans and arrays may stand behind tags; a number may be a big integer. Items
beyond those that a tuple needs are ignored.

Key definitions: `Cbor.Value.unsigned?`, `Cbor.Value.bytes?`,
`Cbor.Value.text?`, `Cbor.Value.bool?`, `Cbor.Value.optional?`,
`Cbor.Value.items?`.
-/
import SealedEnvelope.Cbor.Value

namespace SealedEnvelope
namespace Cbor
namespace Value

/-- `b` without its leading zeros, of which at most `n` are removed. -/
def dropZeros : (n : Nat) → Bytes → Bytes
  | n + 1, 0 :: b => dropZeros n b
  | _, b => b

/-- `b` without as many leading zeros as it takes to come down to 16 bytes. -/
def shortenTo16 (b : Bytes) : Bytes := dropZeros (b.length - 16) b

/-- The number below `bound` that an item holds: an integer, or a big integer of at most
16 bytes. -/
def unsigned? (bound : Nat) : Value → Option Nat
  | .int i => if 0 ≤ i ∧ i < bound then some i.toNat else none
  | .tag 2 (.bytes digits) =>
    let digits := shortenTo16 digits
    if digits.length ≤ 16 ∧ digits.toNat < bound then some digits.toNat else none
  | _ => none

/-- The number of 64 bits that an item holds. -/
def word? (v : Value) : Option UInt64 := (v.unsigned? (2 ^ 64)).map UInt64.ofNat

/-- The byte string behind any tags. -/
def bytes? (v : Value) : Option Bytes :=
  match v.untagged with
  | .bytes b => some b
  | _ => none

/-- The text behind any tags. -/
def text? (v : Value) : Option String :=
  match v.untagged with
  | .text s => some s
  | _ => none

/-- The truth value behind any tags. -/
def bool? (v : Value) : Option Bool :=
  match v.untagged with
  | .bool b => some b
  | _ => none

/-- An item that may be `null`; a tag around `null` is not absence. -/
def optional? {α : Type} (f : Value → Option α) : Value → Option (Option α)
  | .null => some none
  | v => (f v).map some

/-- The items of the array behind any tags. -/
def items? (v : Value) : Option (List Value) :=
  match v.untagged with
  | .array items => some items
  | _ => none

end Value
end Cbor
end SealedEnvelope
