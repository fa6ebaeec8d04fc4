/-
# Huffman coding of literals

Symbols have weights; a symbol of weight `w` fills `2 ^ (w - 1)` places of the
decoding table, the lightest symbols first. The weights are given in the block,
half a byte each or packed by finite state entropy; the last one is left out
and follows from the others, because the table is full.

Key definitions: `HuffmanTable`, `Huffman.readTable?`, `Huffman.decodeStream?`,
`Huffman.decodeFourStreams?`.
-/
import SealedEnvelope.Zstd.Fse

namespace SealedEnvelope
namespace Zstd

/-- The symbol and the width of its code, for each value of the next `log` bits. -/
structure HuffmanTable where
  log : Nat
  places : Array (UInt8 × Nat)

namespace Huffman

/-- The widest code, and the greatest weight. -/
def maxLog : Nat := 12

/-! ### Weights -/

/-- The two weights in each byte, the high half first. -/
def halves (b : Bytes) : List Nat := b.flatMap fun x => [x.toNat / 16, x.toNat % 16]

/-- The state that follows in a table, and the bits after it; a short stream is filled up with
zeros and then reported as exhausted. -/
def nextState (t : FseTable) (state : Nat) (s : BackwardBits) : Nat × Option BackwardBits :=
  let cell := t.cell state
  (cell.base + s.peek cell.width, s.skip? cell.width)

/-- The weights of two states that take turns, until the bits are exhausted: the other state
then gives the last weight. -/
def decodeWeights (t : FseTable) : (room current other : Nat) → BackwardBits → Option (List Nat)
  | 0, _, _, _ => none
  | room + 1, current, other, s =>
    let weight := (t.cell current).symbol
    match nextState t current s with
    | (_, none) => some [weight, (t.cell other).symbol]
    | (next, some s) => (decodeWeights t room other next s).map (weight :: ·)

/-- The weights packed in a byte string: a table description and a stream. -/
def packedWeights? (b : Bytes) : Option (List Nat) := do
  let (d, rest) ← Fse.readDistribution? 255 6 b
  let t := FseTable.ofDistribution d
  let s ← BackwardBits.ofBytes? rest
  let (first, s) ← s.read? t.log
  let (second, s) ← s.read? t.log
  decodeWeights t 254 first second s

/-- The explicit weights, and the bytes after them. -/
def readWeights? : Bytes → Option (List Nat × Bytes)
  | [] => none
  | x :: b =>
    if 128 ≤ x.toNat then
      let count := x.toNat - 127
      (Bytes.splitExact? ((count + 1) / 2) b).map fun (packed, rest) =>
        ((halves packed).take count, rest)
    else do
      let (packed, rest) ← Bytes.splitExact? x.toNat b
      let weights ← packedWeights? packed
      return (weights, rest)

/-! ### Tables -/

/-- The places that a weight fills. -/
def span (weight : Nat) : Nat := if weight = 0 then 0 else 1 <<< (weight - 1)

/-- The places of the table for the symbols of one weight. -/
def placesOf (log : Nat) (weights : List Nat) (weight : Nat) : List (UInt8 × Nat) :=
  (weights.zipIdx.filter fun p => p.1 = weight).flatMap fun p =>
    List.replicate (span weight) (UInt8.ofNat p.2, log + 1 - weight)

/-- The table of explicit weights, whose missing last weight fills it up. At least two symbols
have the weight one, and their number is even. -/
def tableOfWeights? (explicit : List Nat) : Option HuffmanTable :=
  let total := explicit.foldl (· + span ·) 0
  if total = 0 ∨ explicit.any (maxLog < ·) then none
  else
    let log := total.log2 + 1
    let rest := 1 <<< log - total
    let weights := explicit ++ [rest.log2 + 1]
    let ones := (weights.filter (· = 1)).length
    if maxLog < log ∨ 1 <<< rest.log2 ≠ rest ∨ ones < 2 ∨ ones % 2 = 1 then none
    else
      let places := ((List.range log).flatMap fun i => placesOf log weights (i + 1)).toArray
      some ⟨log, places⟩

/-- A table, and the bytes after its description. -/
def readTable? (b : Bytes) : Option (HuffmanTable × Bytes) := do
  let (weights, rest) ← readWeights? b
  let t ← tableOfWeights? weights
  return (t, rest)

/-! ### Streams -/

/-- The literals `out` followed by `count` more; the bits must be used up exactly. -/
def decodeBits (t : HuffmanTable) : (count : Nat) → BackwardBits → Array UInt8 →
    Option (Array UInt8)
  | 0, s, out => if s.left = 0 then some out else none
  | count + 1, s, out =>
    let (symbol, width) := t.places.getD (s.peek t.log) (0, 0)
    match s.skip? width with
    | none => none
    | some s => decodeBits t count s (out.push symbol)

/-- The literals `out` followed by the `count` of one stream. -/
def decodeStream? (t : HuffmanTable) (count : Nat) (b : Bytes) (out : Array UInt8) :
    Option (Array UInt8) := do
  decodeBits t count (← BackwardBits.ofBytes? b) out

/-- The little-endian number of two bytes. -/
def size16 (b : Bytes) (i : Nat) : Nat := (b.getD i 0).toNat + 256 * (b.getD (i + 1) 0).toNat

/-- `count` literals in four streams behind the sizes of the first three; the last stream takes
what the others leave. -/
def decodeFourStreams? (t : HuffmanTable) (count : Nat) (b : Bytes) : Option (Array UInt8) := do
  let (sizes, b) ← Bytes.splitExact? 6 b
  if b.length < 4 ∨ count < 6 then none
  let each := (count + 3) / 4
  let (s1, b) ← Bytes.splitExact? (size16 sizes 0) b
  let (s2, b) ← Bytes.splitExact? (size16 sizes 2) b
  let (s3, s4) ← Bytes.splitExact? (size16 sizes 4) b
  if count < 3 * each then none
  let out ← decodeStream? t each s1 #[]
  let out ← decodeStream? t each s2 out
  let out ← decodeStream? t each s3 out
  decodeStream? t (count - 3 * each) s4 out

end Huffman
end Zstd
end SealedEnvelope
