/-
# Reading compressed data

Compressed data is a series of frames as RFC 8878 describes them: a header,
blocks, and perhaps a checksum. A block is stored, one byte repeated, or
compressed. The output may not grow beyond a given capacity, and nothing may be
left over at the end.

Key definitions: `Zstd.FrameHeader`, `Zstd.readFrameHeader?`,
`Zstd.readBlocks?`, `Zstd.decompress?`.
-/
import SealedEnvelope.Zstd.Literals
import SealedEnvelope.Zstd.Sequences
import SealedEnvelope.Hash.XxHash64

namespace SealedEnvelope
namespace Zstd

/-- A little-endian number of `n` bytes, and the bytes after it. -/
def readNumber? (n : Nat) (b : Bytes) : Option (Nat × Bytes) :=
  (Bytes.splitExact? n b).map fun (front, rest) => (Bytes.toNat front.reverse, rest)

/-! ### Blocks -/

/-- What a frame announces: the size of its window, the size of its content if it is known, and
whether a checksum follows. -/
structure FrameHeader where
  window : Nat
  contentSize : Option Nat
  checksum : Bool
deriving DecidableEq, Repr

/-- The most bytes of a compressed block, in a frame of any window. -/
def maxBlock : Nat := 128 * 1024

/-- The most bytes of a compressed block. -/
def FrameHeader.blockLimit (h : FrameHeader) : Nat := min h.window maxBlock

/-- What later blocks of a frame take over from earlier ones. -/
structure Memory where
  huffman : Option HuffmanTable
  tables : Option SequenceTables
  recent : Sequences.Recent

/-- Nothing to take over. -/
def Memory.initial : Memory := ⟨none, none, .initial⟩

/-- The size that the output may reach in a block. Literals that are not used where they stand
are kept behind the room of the block if there is space for that, and the block must then fit in
front of them. -/
def blockEnd (blockLimit capacity size : Nat) (literals : Literals) : Nat :=
  let behind := blockLimit + Literals.slack
  if ¬ literals.direct ∧ behind + literals.bytes.size + Literals.slack < capacity - size then
    size + behind
  else capacity

/-- The output after the sequences of a block, and the recent offsets. -/
def runSequences? (count : Nat) (tables : Option SequenceTables) (b : Bytes)
    (literals : Literals) (start limit : Nat) (recent : Sequences.Recent) (out : Array UInt8) :
    Option (Array UInt8 × Sequences.Recent) := do
  if count = 0 then
    if limit < out.size + literals.bytes.size then none
    else some (out ++ literals.bytes, recent)
  else
    let tables ← tables
    let bits ← BackwardBits.ofBytes? b
    let (s1, bits) ← bits.read? tables.literals.log
    let (s2, bits) ← bits.read? tables.offsets.log
    let (s3, bits) ← bits.read? tables.lengths.log
    let (p, out) ← Sequences.run? tables literals.bytes start limit count
      ⟨bits, s1, s2, s3, recent, 0⟩ out
    let left := literals.bytes.size - p.nextLiteral
    if p.bits.left ≠ 0 ∨ limit < out.size + left then none
    else some (Sequences.copyLiterals literals.bytes left p.nextLiteral out, p.recent)

/-- The output after a compressed block, and what the next block takes over. -/
def decodeBlock? (blockLimit capacity start : Nat) (m : Memory) (b : Bytes) (out : Array UInt8) :
    Option (Array UInt8 × Memory) := do
  let (literals, rest) ← Literals.read? (min blockLimit (capacity - out.size)) m.huffman b
  let (count, tables, rest) ← Sequences.readHeader? m.tables rest
  let limit := blockEnd blockLimit capacity out.size literals
  let (out, recent) ← runSequences? count tables rest literals start limit m.recent out
  return (out, ⟨literals.table, tables, recent⟩)

/-- The output after the blocks of a frame, and the bytes after the last block. -/
def readBlocks? (blockLimit capacity start : Nat) : (limit : Nat) → Memory → Array UInt8 → Bytes →
    Option (Array UInt8 × Bytes)
  | 0, _, _, _ => none
  | limit + 1, m, out, b =>
    match readNumber? 3 b with
    | none => none
    | some (header, b) =>
      let size := header / 8
      let last := header % 2 = 1
      match header / 2 % 4 with
      | 0 =>
        match Bytes.splitExact? size b with
        | none => none
        | some (content, b) =>
          if capacity < out.size + size then none
          else
            let out := content.foldl Array.push out
            if last then some (out, b) else readBlocks? blockLimit capacity start limit m out b
      | 1 =>
        match b with
        | [] => none
        | x :: b =>
          if capacity < out.size + size then none
          else
            let out := out ++ Array.replicate size x
            if last then some (out, b) else readBlocks? blockLimit capacity start limit m out b
      | 2 =>
        match Bytes.splitExact? size b with
        | none => none
        | some (content, b) =>
          if blockLimit < size then none
          else
            match decodeBlock? blockLimit capacity start m content out with
            | none => none
            | some (out, m) =>
              if last then some (out, b) else readBlocks? blockLimit capacity start limit m out b
      | _ => none

/-! ### Frames -/

/-- The number that begins a frame. -/
def frameMagic : Nat := 0xFD2FB528

/-- The sixteen numbers from here on begin a frame that is skipped. -/
def skippableMagic : Nat := 0x184D2A50

/-- The window that a descriptor stands for: a power of two and up to seven eighths more. -/
def windowOf (descriptor : Nat) : Nat :=
  let base := 1 <<< (descriptor / 8 + 10)
  base + base / 8 * (descriptor % 8)

/-- The greatest exponent of a window. -/
def maxWindowLog : Nat := 31

/-- The header of a frame after its magic number, and the bytes after it. No dictionary is known
but number zero, which is none; the greatest content size means that it is not known. -/
def readFrameHeader? (b : Bytes) : Option (FrameHeader × Bytes) := do
  let (flags, b) ← readNumber? 1 b
  let single := flags / 32 % 2 = 1
  if flags / 8 % 2 = 1 then none
  let (window, b) ←
    if single then some (0, b)
    else do
      let (descriptor, b) ← readNumber? 1 b
      if maxWindowLog < descriptor / 8 + 10 then none
      some (windowOf descriptor, b)
  let (dictionary, b) ← readNumber? ([0, 1, 2, 4].getD (flags % 4) 0) b
  if dictionary ≠ 0 then none
  let (size, b) ← match flags / 64 with
    | 0 => if single then (readNumber? 1 b).map fun (n, b) => (some n, b) else some (none, b)
    | 1 => (readNumber? 2 b).map fun (n, b) => (some (n + 256), b)
    | 2 => (readNumber? 4 b).map fun (n, b) => (some n, b)
    | _ => (readNumber? 8 b).map fun (n, b) => (some n, b)
  let window := if single then size.getD 0 else window
  let contentSize := size.filter (· < 2 ^ 64 - 1)
  return (⟨window, contentSize, flags / 4 % 2 = 1⟩, b)

/-- The output after a frame, and the bytes after it. -/
def readFrame? (capacity limit : Nat) (out : Array UInt8) (b : Bytes) :
    Option (Array UInt8 × Bytes) := do
  let (h, b) ← readFrameHeader? b
  let start := out.size
  let (out, b) ← readBlocks? h.blockLimit capacity start limit .initial out b
  if h.contentSize.any (· ≠ out.size - start) then none
  else if h.checksum then
    let (expected, b) ← readNumber? 4 b
    if (xxHash64 (out.extract start out.size).toList).toNat % 2 ^ 32 = expected then some (out, b)
    else none
  else some (out, b)

/-- The output after all frames. -/
def readFrames? (capacity length : Nat) : (limit : Nat) → Array UInt8 → Bytes →
    Option (Array UInt8)
  | 0, _, _ => none
  | limit + 1, out, b =>
    if b.isEmpty then some out
    else
      match readNumber? 4 b with
      | none => none
      | some (magic, b) =>
        if magic / 16 * 16 = skippableMagic then
          match readNumber? 4 b with
          | none => none
          | some (size, b) =>
            match Bytes.splitExact? size b with
            | none => none
            | some (_, b) => readFrames? capacity length limit out b
        else if magic = frameMagic then
          match readFrame? capacity length out b with
          | none => none
          | some (out, b) => readFrames? capacity length limit out b
        else none

/-- The content of compressed data, if that is well formed and the content has at most
`capacity` bytes. -/
def decompress? (capacity : Nat) (b : Bytes) : Option Bytes :=
  let length := b.length
  (readFrames? capacity length (length + 1) #[] b).map Array.toList

end Zstd
end SealedEnvelope
