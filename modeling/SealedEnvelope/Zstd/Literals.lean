/-
# The literals of a block

A block begins with the bytes that its sequences copy from: stored as they are,
one byte repeated, or Huffman coded with a table of the block or with the table
used before.

Key definitions: `Literals`, `Literals.read?`.
-/
import SealedEnvelope.Zstd.Huffman

namespace SealedEnvelope
namespace Zstd

/-- The literals of a block. `direct` tells that they are used where they stand in the input;
`table` is the Huffman table to be used again. -/
structure Literals where
  bytes : Array UInt8
  direct : Bool
  table : Option HuffmanTable

namespace Literals

/-- The little-endian number at the front of a byte string, `n` bytes wide. -/
def number? (n : Nat) (b : Bytes) : Option Nat :=
  (Bytes.splitExact? n b).map fun (front, _) => Bytes.toNat front.reverse

/-- The width of the header and the number of literals, for stored and repeated literals. -/
def plainHeader? (b : Bytes) : Option (Nat × Nat) := do
  let first ← number? 1 b
  match first / 4 % 4 with
  | 1 => return (2, (← number? 2 b) / 16)
  | 3 => return (3, (← number? 3 b) / 16)
  | _ => return (1, first / 8)

/-- The header of coded literals. -/
structure CodedHeader where
  width : Nat
  count : Nat
  size : Nat
  single : Bool

/-- The header of coded literals, which takes up to five bytes. -/
def codedHeader? (b : Bytes) : Option CodedHeader := do
  let n ← number? 5 b
  match n / 4 % 4 with
  | 2 => return ⟨4, n / 2 ^ 4 % 2 ^ 14, n / 2 ^ 18 % 2 ^ 14, false⟩
  | 3 => return ⟨5, n / 2 ^ 4 % 2 ^ 18, n / 2 ^ 22 % 2 ^ 18, false⟩
  | form => return ⟨3, n / 2 ^ 4 % 2 ^ 10, n / 2 ^ 14 % 2 ^ 10, form = 0⟩

/-- The bytes of slack that copies may need behind a buffer. -/
def slack : Nat := 32

/-- The literals at the front of a block of at most `most` literals, and the rest of the block.
`previous` is the table used before. -/
def read? (most : Nat) (previous : Option HuffmanTable) (b : Bytes) :
    Option (Literals × Bytes) := do
  let length := b.length
  if length < 2 then none
  let first ← b.head?
  match first.toNat % 4 with
  | 0 =>
    let (width, count) ← plainHeader? b
    if most < count then none
    let (bytes, rest) ← Bytes.splitExact? count (b.drop width)
    return (⟨bytes.toArray, width + count + slack ≤ length, previous⟩, rest)
  | 1 =>
    let (width, count) ← plainHeader? b
    if most < count then none
    match b.drop width with
    | [] => none
    | x :: rest => return (⟨Array.replicate count x, false, previous⟩, rest)
  | kind =>
    let h ← codedHeader? b
    if most < h.count then none
    let (coded, rest) ← Bytes.splitExact? h.size (b.drop h.width)
    let (table, streams) ← if kind = 2 then Huffman.readTable? coded
      else previous.map fun table => (table, coded)
    let bytes ← if h.single then Huffman.decodeStream? table h.count streams #[]
      else Huffman.decodeFourStreams? table h.count streams
    return (⟨bytes, false, some table⟩, rest)

end Literals
end Zstd
end SealedEnvelope
