/-
# Compressed data is decompressed

The writer stores blocks or writes a repeated byte once, and the reader appends
exactly the content of each block to its output. A frame announces the size of
its content, which the blocks add up to. So what the writer makes of a content
is read back to it with no more room than the content takes.

Key theorems: `Zstd.readBlocks?_block`, `Zstd.readBlocks?_blocks`,
`Zstd.decompress?_compress`.
-/
import Mathlib
import SealedEnvelope.Zstd.Encoder
import SealedEnvelope.Proofs.BigEndian

namespace SealedEnvelope
namespace Zstd

/-! ### Numbers -/

theorem length_littleEndian (width n : Nat) : (littleEndian width n).length = width := by
  rw [littleEndian, List.length_reverse, Bytes.length_ofNatWidth]

theorem readNumber?_littleEndian {width n : Nat} (h : n < 256 ^ width) (b : Bytes) :
    readNumber? width (littleEndian width n ++ b) = some (n, b) := by
  have hsplit : Bytes.splitExact? width (littleEndian width n ++ b) =
      some (littleEndian width n, b) :=
    Bytes.splitExact?_eq_some_iff.mpr ⟨rfl, length_littleEndian width n⟩
  have hback : Bytes.toNat (littleEndian width n).reverse = n := by
    rw [littleEndian, List.reverse_reverse, Bytes.toNat_ofNatWidth_of_lt h]
  rw [readNumber?, hsplit, Option.map_some]
  simp only [hback]

/-- The number in front of a block holds its size, its kind and whether it is the last. -/
theorem blockHeader_parts {n : Nat} (kind : Nat) (last : Bool) (hn : n ≤ maxBlock) (hk : kind < 4) :
    n * 8 + kind * 2 + (if last then 1 else 0) < 256 ^ 3 ∧
      (n * 8 + kind * 2 + (if last then 1 else 0)) / 8 = n ∧
      (n * 8 + kind * 2 + (if last then 1 else 0)) / 2 % 4 = kind ∧
      ((n * 8 + kind * 2 + (if last then 1 else 0)) % 2 = 1 ↔ last = true) := by
  rw [maxBlock] at hn
  cases last <;> simp <;> omega

/-! ### Blocks -/

section

variable {blockLimit capacity start limit : Nat} {m : Memory} {out : Array UInt8} {last : Bool}
  {rest : Bytes}

theorem readBlocks?_stored {content : Bytes} (hlen : content.length ≤ maxBlock)
    (hroom : out.size + content.length ≤ capacity) :
    readBlocks? blockLimit capacity start (limit + 1) m out
        (littleEndian 3 (content.length * 8 + 0 * 2 + (if last then 1 else 0)) ++
          (content ++ rest)) =
      if last then some (out ++ content.toArray, rest)
      else readBlocks? blockLimit capacity start limit m (out ++ content.toArray) rest := by
  obtain ⟨hnumber, hsize, hkind, hlast⟩ := blockHeader_parts 0 last hlen (by norm_num)
  rw [readBlocks?, readNumber?_littleEndian hnumber]
  simp only [hsize, hkind, hlast, Bytes.splitExact?_append, if_neg (not_lt.mpr hroom),
    List.foldl_push_eq_append']

theorem readBlocks?_repeated {n : Nat} {x : UInt8} (hlen : n ≤ maxBlock)
    (hroom : out.size + n ≤ capacity) :
    readBlocks? blockLimit capacity start (limit + 1) m out
        (littleEndian 3 (n * 8 + 1 * 2 + (if last then 1 else 0)) ++ ([x] ++ rest)) =
      if last then some (out ++ Array.replicate n x, rest)
      else readBlocks? blockLimit capacity start limit m (out ++ Array.replicate n x) rest := by
  obtain ⟨hnumber, hsize, hkind, hlast⟩ := blockHeader_parts 1 last hlen (by norm_num)
  rw [readBlocks?, readNumber?_littleEndian hnumber]
  simp only [hsize, hkind, hlast, List.singleton_append, if_neg (not_lt.mpr hroom)]

theorem readBlocks?_block {content : Bytes} (hlen : content.length ≤ maxBlock)
    (hroom : out.size + content.length ≤ capacity) :
    readBlocks? blockLimit capacity start (limit + 1) m out (block last content ++ rest) =
      if last then some (out ++ content.toArray, rest)
      else readBlocks? blockLimit capacity start limit m (out ++ content.toArray) rest := by
  unfold block
  cases content with
  | nil => exact readBlocks?_stored hlen hroom
  | cons x tail =>
    by_cases hall : tail.all (· = x)
    · have htail : x :: tail = List.replicate (tail.length + 1) x := by
        rw [List.replicate_succ, List.cons.injEq]
        exact ⟨rfl, List.eq_replicate_iff.mpr ⟨rfl, by simpa using hall⟩⟩
      have harray : (x :: tail).toArray = Array.replicate (x :: tail).length x := by
        rw [List.length_cons, ← List.toArray_replicate, ← htail]
      simp only [hall, if_true, List.append_assoc]
      rw [harray]
      exact readBlocks?_repeated hlen hroom
    · simp only [hall, Bool.false_eq_true, if_false, List.append_assoc]
      exact readBlocks?_stored hlen hroom

/-- Reading all blocks appends the whole content. The induction is on the number of blocks before
the last one; each takes one step of the reader. -/
theorem readBlocks?_blocks : ∀ (more : Nat) {content : Bytes} {limit : Nat} {out : Array UInt8},
    content.length ≤ (more + 1) * maxBlock → out.size + content.length ≤ capacity → more < limit →
    readBlocks? blockLimit capacity start limit m out (blocks more content ++ rest) =
      some (out ++ content.toArray, rest)
  | 0, content, limit + 1, out, hlen, hroom, _ => by
    rw [blocks, readBlocks?_block (by omega) hroom, if_pos rfl]
  | more + 1, content, limit + 1, out, hlen, hroom, hlimit => by
    have hfront : (content.take maxBlock).length ≤ maxBlock := by
      rw [List.length_take]
      exact min_le_left _ _
    have hsplit : (content.take maxBlock).length + (content.drop maxBlock).length =
        content.length := by
      rw [← List.length_append, List.take_append_drop]
    have hback : (content.drop maxBlock).length ≤ (more + 1) * maxBlock := by
      rw [List.length_drop]
      have : (more + 1 + 1) * maxBlock = (more + 1) * maxBlock + maxBlock := Nat.succ_mul _ _
      omega
    have hsize : (out ++ (content.take maxBlock).toArray).size + (content.drop maxBlock).length ≤
        capacity := by
      have harray : (out ++ (content.take maxBlock).toArray).size =
          out.size + (content.take maxBlock).length := Array.size_append
      omega
    have hwhole : (content.take maxBlock).toArray ++ (content.drop maxBlock).toArray =
        content.toArray := by
      rw [List.append_toArray, List.take_append_drop]
    rw [blocks, List.append_assoc, readBlocks?_block hfront (by omega), if_neg (by simp),
      readBlocks?_blocks more hback hsize (by omega), Array.append_assoc, hwhole]

end

theorem length_block_pos (last : Bool) (content : Bytes) : 0 < (block last content).length := by
  have hheader : ∀ (n : Nat) (b : Bytes), 0 < (littleEndian 3 n ++ b).length := by
    intro n b
    rw [List.length_append, length_littleEndian]
    omega
  unfold block
  cases content with
  | nil =>
    show 0 < (littleEndian 3 _).length
    rw [length_littleEndian]
    norm_num
  | cons x tail =>
    simp only
    split
    · exact hheader _ _
    · exact hheader _ _

theorem lt_length_blocks : ∀ (more : Nat) (content : Bytes), more < (blocks more content).length
  | 0, content => length_block_pos true content
  | more + 1, content => by
    have hfirst := length_block_pos false (content.take maxBlock)
    have hrest := lt_length_blocks more (content.drop maxBlock)
    rw [blocks, List.length_append]
    omega

theorem length_le_blocks (n : Nat) : n ≤ ((n - 1) / maxBlock + 1) * maxBlock := by
  have hpos : 0 < maxBlock := by norm_num [maxBlock]
  have hdiv : n - 1 < maxBlock * ((n - 1) / maxBlock + 1) := Nat.lt_mul_div_succ (n - 1) hpos
  rw [Nat.mul_comm] at hdiv
  omega

/-! ### The frame -/

/-- The header announces the size of the content and no checksum. -/
theorem readFrameHeader?_size {n : Nat} (h : n < 2 ^ 64 - 1) (b : Bytes) :
    readFrameHeader? (0xe0 :: (littleEndian 8 n ++ b)) = some (⟨n, some n, false⟩, b) := by
  have hflags : ∀ b : Bytes, readNumber? 1 (0xe0 :: b) = some (0xe0, b) := fun b =>
    @readNumber?_littleEndian 1 0xe0 (by norm_num) b
  have hnone : ∀ b : Bytes, readNumber? 0 b = some (0, b) := fun b =>
    @readNumber?_littleEndian 0 0 (by norm_num) b
  have hsize : readNumber? 8 (littleEndian 8 n ++ b) = some (n, b) :=
    readNumber?_littleEndian (by omega) b
  have hknown : n < 18446744073709551615 := h
  simp [readFrameHeader?, hflags, hnone, hsize, Option.filter, hknown]

/-- Reading a frame appends its whole content. -/
theorem readFrame?_blocks {capacity limit : Nat} {out : Array UInt8} {content rest : Bytes}
    (hsize : content.length < 2 ^ 64 - 1) (hroom : out.size + content.length ≤ capacity)
    (hlimit : (content.length - 1) / maxBlock < limit) :
    readFrame? capacity limit out (0xe0 :: (littleEndian 8 content.length ++
        (blocks ((content.length - 1) / maxBlock) content ++ rest))) =
      some (out ++ content.toArray, rest) := by
  have hgrown : (out ++ content.toArray).size - out.size = content.length := by simp
  simp only [readFrame?, readFrameHeader?_size hsize, Option.bind_eq_bind, Option.bind_some,
    readBlocks?_blocks _ (length_le_blocks _) hroom hlimit, hgrown]
  simp

/-- What is compressed is decompressed, with no more room than the content takes. -/
theorem decompress?_compress {content : Bytes} (h : content.length < 2 ^ 64 - 1) :
    decompress? content.length (compress content) = some content := by
  set more := (content.length - 1) / maxBlock with hmore
  set body := littleEndian 8 content.length ++ (blocks more content ++ []) with hbody
  have hcompress : compress content = littleEndian 4 frameMagic ++ (0xe0 :: body) := by
    simp [compress, hbody, hmore]
  have hlimit : more < (compress content).length := by
    have hblocks := lt_length_blocks more content
    rw [hcompress, hbody]
    simp only [List.length_append, List.length_cons]
    omega
  have hmagic : readNumber? 4 (littleEndian 4 frameMagic ++ (0xe0 :: body)) =
      some (frameMagic, 0xe0 :: body) :=
    readNumber?_littleEndian (by norm_num [frameMagic]) _
  have hframe : readFrame? content.length (compress content).length #[] (0xe0 :: body) =
      some (#[] ++ content.toArray, []) := readFrame?_blocks h (by simp) hlimit
  have hnonempty : (littleEndian 4 frameMagic ++ (0xe0 :: body)).isEmpty = false := by simp
  obtain ⟨limit, hsucc⟩ : ∃ limit, (compress content).length = limit + 1 :=
    ⟨_, (Nat.sub_add_cancel (lt_of_le_of_lt (Nat.zero_le _) hlimit)).symm⟩
  have hkind : ¬ frameMagic / 16 * 16 = skippableMagic := by norm_num [frameMagic, skippableMagic]
  simp only [decompress?]
  rw [hsucc] at hframe ⊢
  rw [hcompress, readFrames?, hnonempty]
  simp only [Bool.false_eq_true, if_false, hmagic, if_neg hkind, if_true, hframe]
  simp [readFrames?]

end Zstd
end SealedEnvelope
