/-
# The sequences of a block

A sequence says how many literals to take, and then how many bytes to copy from
how far back. Its three numbers are codes of three finite state tables, each
with extra bits. An offset of up to three stands for one of the last offsets.

Key definitions: `SequenceTables`, `Sequences.readHeader?`,
`Sequences.Recent`, `Sequences.resolveOffset`, `Sequences.copyMatch`,
`Sequences.run?`.
-/
import SealedEnvelope.Zstd.Fse

namespace SealedEnvelope
namespace Zstd

/-- The tables of literal lengths, offsets and match lengths. -/
structure SequenceTables where
  literals : FseTable
  offsets : FseTable
  lengths : FseTable

namespace Sequences

/-! ### Codes -/

/-- The extra bits of the codes of literal lengths. -/
def literalBits : List Nat :=
  List.replicate 16 0 ++ [1, 1, 1, 1, 2, 2, 3, 3, 4, 6, 7, 8, 9, 10, 11, 12, 13, 14, 15, 16]

/-- The extra bits of the codes of match lengths. -/
def lengthBits : List Nat :=
  List.replicate 32 0 ++ [1, 1, 1, 1, 2, 2, 3, 3, 4, 4, 5, 7, 8, 9, 10, 11, 12, 13, 14, 15, 16]

/-- The least value of each code and its extra bits: each code begins where the one before it
ends. -/
def codeTable : (base : Nat) → List Nat → List (Nat × Nat)
  | _, [] => []
  | base, bits :: rest => (base, bits) :: codeTable (base + 1 <<< bits) rest

/-- Literal lengths begin at zero. -/
def literalCodes : Array (Nat × Nat) := (codeTable 0 literalBits).toArray

/-- Match lengths begin at three. -/
def lengthCodes : Array (Nat × Nat) := (codeTable 3 lengthBits).toArray

/-! ### Tables -/

/-- The distribution of literal lengths that needs no description. -/
def standardLiterals : Fse.Distribution :=
  ⟨6, [4, 3, 2, 2, 2, 2, 2, 2, 2, 2, 2, 2, 2, 1, 1, 1, 2, 2, 2, 2, 2, 2, 2, 2, 2, 3, 2, 1, 1, 1,
    1, 1, -1, -1, -1, -1]⟩

/-- The distribution of match lengths that needs no description. -/
def standardLengths : Fse.Distribution :=
  ⟨6, [1, 4, 3, 2, 2, 2, 2, 2, 2, 1, 1, 1, 1, 1, 1, 1, 1, 1, 1, 1, 1, 1, 1, 1, 1, 1, 1, 1, 1, 1,
    1, 1, 1, 1, 1, 1, 1, 1, 1, 1, 1, 1, 1, 1, 1, 1, -1, -1, -1, -1, -1, -1, -1]⟩

/-- The distribution of offsets that needs no description. -/
def standardOffsets : Fse.Distribution :=
  ⟨5, [1, 1, 1, 1, 1, 1, 2, 2, 2, 1, 1, 1, 1, 1, 1, 1, 1, 1, 1, 1, 1, 1, 1, 1, -1, -1, -1, -1,
    -1]⟩

/-- A table of the form `form`: standard, one symbol, described, or the one used before. -/
def readTable? (form maxSymbol maxLog : Nat) (standard : Fse.Distribution)
    (previous : Option FseTable) (b : Bytes) : Option (FseTable × Bytes) :=
  match form with
  | 0 => some (FseTable.ofDistribution standard, b)
  | 1 =>
    match b with
    | [] => none
    | x :: rest => if x.toNat ≤ maxSymbol then some (FseTable.ofSymbol x.toNat, rest) else none
  | 2 => (Fse.readDistribution? maxSymbol maxLog b).map fun (d, rest) =>
    (FseTable.ofDistribution d, rest)
  | _ => previous.map fun t => (t, b)

/-- The number of sequences, and the bytes after it. -/
def readCount? : Bytes → Option (Nat × Bytes)
  | [] => none
  | x :: b =>
    let n := x.toNat
    if n < 128 then some (n, b)
    else
      match n, b with
      | 255, y :: z :: b => some (y.toNat + 256 * z.toNat + 0x7f00, b)
      | 255, _ => none
      | _, y :: b => some ((n - 128) * 256 + y.toNat, b)
      | _, [] => none

/-- The number of sequences, their tables, and the bytes after the header. Without sequences
nothing may follow. -/
def readHeader? (previous : Option SequenceTables) (b : Bytes) :
    Option (Nat × Option SequenceTables × Bytes) := do
  let (count, b) ← readCount? b
  if count = 0 then
    if b.isEmpty then return (0, previous, b) else none
  else
    match b with
    | [] => none
    | forms :: b =>
      let forms := forms.toNat
      if forms % 4 ≠ 0 then none
      let (ll, b) ← readTable? (forms / 64) 35 9 standardLiterals (previous.map (·.literals)) b
      let (off, b) ← readTable? (forms / 16 % 4) 31 8 standardOffsets (previous.map (·.offsets)) b
      let (ml, b) ← readTable? (forms / 4 % 4) 52 9 standardLengths (previous.map (·.lengths)) b
      return (count, some ⟨ll, off, ml⟩, b)

/-! ### Offsets -/

/-- The last three offsets, the latest first. -/
structure Recent where
  first : Nat
  second : Nat
  third : Nat

/-- The offsets that count as recent at the beginning of a frame. -/
def Recent.initial : Recent := ⟨1, 4, 8⟩

/-- The offset that a value stands for, and the recent offsets after it. Values up to three name
recent offsets, one further on where no literals are taken; the fourth of these is one less than
the first. -/
def resolveOffset (value : Nat) (noLiterals : Bool) (r : Recent) : Nat × Recent :=
  if 3 < value then (value - 3, ⟨value - 3, r.first, r.second⟩)
  else
    match value + (if noLiterals then 1 else 0) with
    | 1 => (r.first, r)
    | 2 => (r.second, ⟨r.second, r.first, r.third⟩)
    | 3 => (r.third, ⟨r.third, r.first, r.second⟩)
    | _ => (r.first - 1, ⟨r.first - 1, r.first, r.second⟩)

/-! ### Execution -/

/-- `out` followed by `count` bytes, each the one that stands `offset` bytes before it. -/
def copyMatch (offset : Nat) : (count : Nat) → Array UInt8 → Array UInt8
  | 0, out => out
  | count + 1, out => copyMatch offset count (out.push (out.getD (out.size - offset) 0))

/-- `out` followed by `count` literals from index `i` on. -/
def copyLiterals (literals : Array UInt8) : (count i : Nat) → Array UInt8 → Array UInt8
  | 0, _, out => out
  | count + 1, i, out => copyLiterals literals count (i + 1) (out.push (literals.getD i 0))

/-- Where the decoding of sequences stands: the bits, the states of the three tables, the recent
offsets and the next literal. -/
structure Progress where
  bits : BackwardBits
  literalState : Nat
  offsetState : Nat
  lengthState : Nat
  recent : Recent
  nextLiteral : Nat

/-- The progress and the output after `count` sequences. The output may reach the size `limit`,
and offsets go back as far as the index `start`. -/
def run? (tables : SequenceTables) (literals : Array UInt8) (start limit : Nat) :
    (count : Nat) → Progress → Array UInt8 → Option (Progress × Array UInt8)
  | 0, p, out => some (p, out)
  | count + 1, p, out =>
    let ll := tables.literals.cell p.literalState
    let off := tables.offsets.cell p.offsetState
    let ml := tables.lengths.cell p.lengthState
    let (literalBase, literalWidth) := literalCodes.getD ll.symbol (0, 0)
    let (lengthBase, lengthWidth) := lengthCodes.getD ml.symbol (0, 0)
    match p.bits.read? off.symbol with
    | none => none
    | some (offsetExtra, bits) =>
    match bits.read? lengthWidth with
    | none => none
    | some (lengthExtra, bits) =>
    match bits.read? literalWidth with
    | none => none
    | some (literalExtra, bits) =>
      let taken := literalBase + literalExtra
      let copied := lengthBase + lengthExtra
      let (offset, recent) :=
        resolveOffset (1 <<< off.symbol + offsetExtra) (taken = 0) p.recent
      let size := out.size + taken
      if literals.size < p.nextLiteral + taken ∨ limit < size + copied ∨ offset = 0 ∨
          size - start < offset then none
      else
        let out := copyLiterals literals taken p.nextLiteral out
        let out := copyMatch offset copied out
        let nextLiteral := p.nextLiteral + taken
        if count = 0 then
          some ({ p with bits, recent, nextLiteral }, out)
        else
          match bits.read? ll.width with
          | none => none
          | some (n1, bits) =>
          match bits.read? ml.width with
          | none => none
          | some (n2, bits) =>
          match bits.read? off.width with
          | none => none
          | some (n3, bits) =>
            run? tables literals start limit count
              ⟨bits, ll.base + n1, off.base + n3, ml.base + n2, recent, nextLiteral⟩ out

end Sequences
end Zstd
end SealedEnvelope
