/-
# CBOR values

The data items of RFC 8949 as far as envelopes and files hold them. A map
keeps its entries in order, with repetitions; `undefined` is read as `null`,
and a float keeps the bits of its 64-bit form.

Key definitions: `Cbor.Value`, `Cbor.Value.untagged`, `Cbor.Value.depth`,
`Cbor.widenFloat`.
-/
import SealedEnvelope.Bytes

namespace SealedEnvelope
namespace Cbor

/-- A data item. -/
inductive Value where
  | int (i : Int)
  | bytes (b : Bytes)
  | text (s : String)
  | array (items : List Value)
  | map (entries : List (Value × Value))
  | bool (b : Bool)
  | null
  | float (bits : UInt64)
  | tag (number : Nat) (content : Value)
deriving Inhabited

namespace Value

/-- The item inside any number of tags. -/
def untagged : Value → Value
  | .tag _ content => untagged content
  | v => v

mutual

/-- How deep arrays, maps and tags are nested; a scalar has depth zero. -/
def depth : Value → Nat
  | .array items => depthOfList items + 1
  | .map entries => depthOfPairs entries + 1
  | .tag _ content => content.depth + 1
  | _ => 0

/-- The greatest depth in a list. -/
def depthOfList : List Value → Nat
  | [] => 0
  | v :: vs => max v.depth (depthOfList vs)

/-- The greatest depth among keys and values. -/
def depthOfPairs : List (Value × Value) → Nat
  | [] => 0
  | (k, v) :: es => max (max k.depth v.depth) (depthOfPairs es)

end

end Value

/-- The bits of the 64-bit float equal to the float with bits `n`, whose exponent has
`exponentWidth` bits and whose fraction has `fractionWidth`. -/
def widenFloat (exponentWidth fractionWidth n : Nat) : UInt64 :=
  let sign := n >>> (exponentWidth + fractionWidth)
  let exponent := (n >>> fractionWidth) % (1 <<< exponentWidth)
  let fraction := n % (1 <<< fractionWidth)
  let bias := 1 <<< (exponentWidth - 1) - 1
  let magnitude :=
    if exponent = 1 <<< exponentWidth - 1 then
      2047 <<< 52 + fraction <<< (52 - fractionWidth)
    else if exponent ≠ 0 then
      (exponent + 1023 - bias) <<< 52 + fraction <<< (52 - fractionWidth)
    else if fraction = 0 then 0
    else
      (fraction.log2 + 1024 - bias - fractionWidth) <<< 52 +
        (fraction - 1 <<< fraction.log2) <<< (52 - fraction.log2)
  UInt64.ofNat (sign * 2 ^ 63 + magnitude)

end Cbor
end SealedEnvelope
