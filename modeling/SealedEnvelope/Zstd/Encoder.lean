/-
# Writing compressed data

The writer makes one frame that announces the size of its content. It cuts the
content into blocks and stores each of them, or writes its byte once where all
its bytes are equal.

Key definitions: `Zstd.blocks`, `Zstd.compress`.
-/
import SealedEnvelope.Zstd.Decoder

namespace SealedEnvelope
namespace Zstd

/-- The number `n` as `width` little-endian bytes. -/
def littleEndian (width n : Nat) : Bytes := (Bytes.ofNatWidth width n).reverse

/-- A block: one byte with its number where the bytes are all equal, and the bytes otherwise. -/
def block (last : Bool) (content : Bytes) : Bytes :=
  let header (kind : Nat) : Bytes :=
    littleEndian 3 (content.length * 8 + kind * 2 + (if last then 1 else 0))
  match content with
  | x :: rest => if rest.all (· = x) then header 1 ++ [x] else header 0 ++ content
  | [] => header 0

/-- The blocks of a content that `more` full blocks precede the last block of. -/
def blocks : (more : Nat) → Bytes → Bytes
  | 0, content => block true content
  | more + 1, content =>
    block false (content.take maxBlock) ++ blocks more (content.drop maxBlock)

/-- One frame with the content. -/
def compress (content : Bytes) : Bytes :=
  let length := content.length
  littleEndian 4 frameMagic ++ 0xe0 :: littleEndian 8 length ++
    blocks ((length - 1) / maxBlock) content

end Zstd
end SealedEnvelope
