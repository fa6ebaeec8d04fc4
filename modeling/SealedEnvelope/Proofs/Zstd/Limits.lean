/-
# What a limit decides

The literals of a block and the output of its sequences have limits. Whatever
the limit, it is compared with the size of the result alone: a limit that leaves
room for the result allows it, and no other limit changes it.

Key definitions: `Zstd.Capped`, `Zstd.Sequences.reach`.
Key theorems: `Zstd.Literals.capped_read?`, `Zstd.Sequences.run?_spec`,
`Zstd.capped_runSequences?`.
-/
import Mathlib
import SealedEnvelope.Zstd.Decoder

namespace SealedEnvelope
namespace Zstd

/-! ### Limits -/

/-- Of the attempts under all limits, those succeed whose limit is no less than the size of the
result, and all of these have the same result. -/
def Capped {α : Type} (size : α → Nat) (a : Nat → Option α) : Prop :=
  ∀ limit x, a limit = some x → size x ≤ limit ∧ ∀ limit', size x ≤ limit' → a limit' = some x

section

variable {α β : Type} {size : α → Nat}

theorem Capped.unique {a : Nat → Option α} (h : Capped size a) {limit limit' : Nat} {x y : α}
    (hx : a limit = some x) (hy : a limit' = some y) : x = y := by
  obtain ⟨hle, hsame⟩ := h limit x hx
  obtain ⟨hle', hsame'⟩ := h limit' y hy
  have hmax := hsame (max limit limit') (le_trans hle (le_max_left _ _))
  have hmax' := hsame' (max limit limit') (le_trans hle' (le_max_right _ _))
  exact Option.some.inj (hmax.symm.trans hmax')

theorem capped_none : Capped size fun _ => none := by
  intro limit x h
  cases h

theorem Capped.bind (x : Option β) {f : β → Nat → Option α} (h : ∀ y, Capped size (f y)) :
    Capped size fun limit => x >>= fun y => f y limit := by
  cases x with
  | none => exact capped_none
  | some y => exact h y

theorem unless_eq_some_iff {a : Option α} {n limit : Nat} {x : α} :
    (if limit < n then none else a) = some x ↔ n ≤ limit ∧ a = some x := by
  by_cases hlimit : limit < n
  · rw [if_pos hlimit]
    constructor
    · intro h
      cases h
    · rintro ⟨hle, -⟩
      exact absurd hle (not_le.mpr hlimit)
  · rw [if_neg hlimit, and_iff_right (not_lt.mp hlimit)]

theorem capped_unless {a : Option α} {n : Nat} (h : ∀ x, a = some x → size x = n) :
    Capped size fun limit => if limit < n then none else a := by
  intro limit x hx
  obtain ⟨hlimit, hx⟩ := unless_eq_some_iff.mp hx
  have hsize := h x hx
  exact ⟨by omega, fun limit' hle => unless_eq_some_iff.mpr ⟨by omega, hx⟩⟩

end

/-! ### Literals -/

namespace Huffman

theorem size_decodeBits {t : HuffmanTable} :
    ∀ {count : Nat} {s : BackwardBits} {out out' : Array UInt8},
      decodeBits t count s out = some out' → out'.size = out.size + count
  | 0, s, out, out', h => by
    unfold decodeBits at h
    by_cases hend : s.left = 0
    · rw [if_pos hend] at h
      rw [← Option.some.inj h]
      rfl
    · rw [if_neg hend] at h
      cases h
  | count + 1, s, out, out', h => by
    rw [decodeBits] at h
    dsimp only at h
    split at h
    · cases h
    · have hrest := size_decodeBits h
      rw [Array.size_push] at hrest
      omega

theorem size_decodeStream? {t : HuffmanTable} {count : Nat} {b : Bytes} {out out' : Array UInt8}
    (h : decodeStream? t count b out = some out') : out'.size = out.size + count := by
  obtain ⟨bits, -, h⟩ := Option.bind_eq_some_iff.mp h
  exact size_decodeBits h

theorem size_decodeFourStreams? {t : HuffmanTable} {count : Nat} {b : Bytes} {out : Array UInt8}
    (h : decodeFourStreams? t count b = some out) : out.size = count := by
  unfold decodeFourStreams? at h
  obtain ⟨⟨sizes, b⟩, -, h⟩ := Option.bind_eq_some_iff.mp h
  dsimp only at h
  split at h
  · cases h
  obtain ⟨⟨s1, b⟩, -, h⟩ := Option.bind_eq_some_iff.mp h
  obtain ⟨⟨s2, b⟩, -, h⟩ := Option.bind_eq_some_iff.mp h
  obtain ⟨⟨s3, s4⟩, -, h⟩ := Option.bind_eq_some_iff.mp h
  dsimp only at h
  split at h
  · cases h
  obtain ⟨out1, h1, h⟩ := Option.bind_eq_some_iff.mp h
  obtain ⟨out2, h2, h⟩ := Option.bind_eq_some_iff.mp h
  obtain ⟨out3, h3, h⟩ := Option.bind_eq_some_iff.mp h
  have hsize1 := size_decodeStream? h1
  have hsize2 := size_decodeStream? h2
  have hsize3 := size_decodeStream? h3
  have hsize4 := size_decodeStream? h
  have hempty : (#[] : Array UInt8).size = 0 := rfl
  omega

end Huffman

theorem Literals.capped_read? (previous : Option HuffmanTable) (b : Bytes) :
    Capped (fun r : Literals × Bytes => r.1.bytes.size) fun most => read? most previous b := by
  unfold read?
  dsimp only
  by_cases hlength : b.length < 2
  · simp only [if_pos hlength]
    exact capped_none
  simp only [if_neg hlength]
  refine Capped.bind b.head? fun first => ?_
  split
  · -- Stored literals.
    refine Capped.bind (plainHeader? b) fun ⟨width, count⟩ => ?_
    refine capped_unless fun r hr => ?_
    obtain ⟨⟨bytes, rest⟩, hsplit, hr⟩ := Option.bind_eq_some_iff.mp hr
    obtain rfl := Option.some.inj hr
    exact (Bytes.splitExact?_eq_some_iff.mp hsplit).2
  · -- A repeated byte.
    refine Capped.bind (plainHeader? b) fun ⟨width, count⟩ => ?_
    refine capped_unless fun r hr => ?_
    dsimp only at hr
    split at hr
    · cases hr
    · obtain rfl := Option.some.inj hr
      exact Array.size_replicate
  · -- Coded literals.
    refine Capped.bind (codedHeader? b) fun h => ?_
    refine capped_unless fun r hr => ?_
    have hcoded : ∀ (table : HuffmanTable) (streams rest : Bytes),
        (if h.single = true then do
            let bytes ← Huffman.decodeStream? table h.count streams #[]
            pure ((⟨bytes, false, some table⟩ : Literals), rest)
          else do
            let bytes ← Huffman.decodeFourStreams? table h.count streams
            pure ((⟨bytes, false, some table⟩ : Literals), rest)) = some r →
        r.1.bytes.size = h.count := by
      intro table streams rest hr
      by_cases hsingle : h.single = true
      · rw [if_pos hsingle] at hr
        obtain ⟨bytes, hbytes, hr⟩ := Option.bind_eq_some_iff.mp hr
        obtain rfl := Option.some.inj hr
        have hempty : (#[] : Array UInt8).size = 0 := rfl
        have hsize := Huffman.size_decodeStream? hbytes
        rwa [hempty, Nat.zero_add] at hsize
      · rw [if_neg hsingle] at hr
        obtain ⟨bytes, hbytes, hr⟩ := Option.bind_eq_some_iff.mp hr
        obtain rfl := Option.some.inj hr
        exact Huffman.size_decodeFourStreams? hbytes
    obtain ⟨⟨coded, rest⟩, -, hr⟩ := Option.bind_eq_some_iff.mp hr
    dsimp only at hr
    split at hr
    · obtain ⟨⟨table, streams⟩, -, hr⟩ := Option.bind_eq_some_iff.mp hr
      exact hcoded table streams rest hr
    · obtain ⟨⟨table, streams⟩, -, hr⟩ := Option.bind_eq_some_iff.mp hr
      exact hcoded table streams rest hr

/-! ### Sequences -/

namespace Sequences

theorem size_copyLiterals (literals : Array UInt8) :
    ∀ (count i : Nat) (out : Array UInt8),
      (copyLiterals literals count i out).size = out.size + count
  | 0, _, out => rfl
  | count + 1, i, out => by
    rw [copyLiterals, size_copyLiterals literals count, Array.size_push]
    omega

theorem size_copyMatch (offset : Nat) :
    ∀ (count : Nat) (out : Array UInt8), (copyMatch offset count out).size = out.size + count
  | 0, out => rfl
  | count + 1, out => by
    rw [copyMatch, size_copyMatch offset count, Array.size_push]
    omega

variable {tables : SequenceTables} {literals : Array UInt8} {start limit count : Nat}
  {p p' : Progress} {out out' : Array UInt8}

/-- What has been written, and the literals that are still to be written. -/
def reach (literals : Array UInt8) (p : Progress) (out : Array UInt8) : Nat :=
  out.size + (literals.size - p.nextLiteral)

/-- The literals that are taken get into the output, and sequences that are executed under some
limit are executed in the same way under any other that leaves room for what is written and for the
literals that are left. -/
theorem run?_spec (h : run? tables literals start limit count p out = some (p', out')) :
    reach literals p out ≤ reach literals p' out' ∧
    ∀ limit', reach literals p' out' ≤ limit' →
      run? tables literals start limit' count p out = some (p', out') := by
  fun_induction run? tables literals start limit count p out with
  | case1 p out =>
    obtain ⟨rfl, rfl⟩ := Prod.mk.inj (Option.some.inj h)
    exact ⟨le_rfl, fun limit' _ => by rw [run?]⟩
  | case6 p out ll off ml literalBase literalWidth hliteral lengthBase lengthWidth hlength
      offsetExtra bits hread1 lengthExtra bits hread2 literalExtra bits hread3 taken copied
      offset recent hoffset size hguard out1 out2 nextLiteral =>
    -- The last sequence.
    obtain ⟨rfl, rfl⟩ := Prod.mk.inj (Option.some.inj h)
    have hsize : out2.size = out.size + taken + copied := by
      simp only [out2, out1, size_copyMatch, size_copyLiterals]
    refine ⟨?_, fun limit' hle => ?_⟩
    · simp only [reach, hsize, nextLiteral]
      omega
    · have hroom : ¬(literals.size < p.nextLiteral + taken ∨ limit' < size + copied ∨ offset = 0 ∨
          size - start < offset) := by
        simp only [reach, hsize, nextLiteral] at hle
        omega
      rw [run?]
      simp +zetaDelta only [hliteral, hlength, hread1, hread2, hread3, hoffset]
      exact (if_neg hroom).trans (if_pos trivial)
  | case10 count p out ll off ml literalBase literalWidth hliteral lengthBase lengthWidth hlength
      offsetExtra bits hread1 lengthExtra bits hread2 literalExtra bits hread3 taken copied
      offset recent hoffset size hguard out1 out2 nextLiteral hlast n1 bits hread4 n2 bits hread5
      n3 bits hread6 ih =>
    -- A sequence before others, which reach as far or further.
    obtain ⟨hgrow, hsame⟩ := ih h
    have hsize : out2.size = out.size + taken + copied := by
      simp only [out2, out1, size_copyMatch, size_copyLiterals]
    have hstep : reach literals p out ≤ out2.size + (literals.size - nextLiteral) := by
      simp only [reach, hsize, nextLiteral]
      omega
    refine ⟨le_trans hstep hgrow, fun limit' hle => ?_⟩
    have hroom : ¬(literals.size < p.nextLiteral + taken ∨ limit' < size + copied ∨ offset = 0 ∨
        size - start < offset) := by
      have hreach := le_trans hgrow hle
      simp only [reach, hsize, nextLiteral] at hreach
      omega
    rw [run?]
    simp +zetaDelta only [hliteral, hlength, hread1, hread2, hread3, hoffset]
    refine (if_neg hroom).trans ?_
    simp +zetaDelta only [if_neg hlast, hread4, hread5, hread6]
    exact hsame limit' hle
  | _ => cases h

end Sequences

variable {count : Nat} {tables : Option SequenceTables} {b : Bytes} {literals : Literals}
  {start : Nat} {recent : Sequences.Recent} {out : Array UInt8}

/-- All literals of a block get into the output, and nothing but its size is limited. -/
theorem runSequences?_spec {limit : Nat} {r : Array UInt8 × Sequences.Recent}
    (h : runSequences? count tables b literals start limit recent out = some r) :
    out.size + literals.bytes.size ≤ r.1.size ∧ r.1.size ≤ limit ∧
    ∀ limit', r.1.size ≤ limit' →
      runSequences? count tables b literals start limit' recent out = some r := by
  unfold runSequences? at h ⊢
  by_cases hnone : count = 0
  · rw [if_pos hnone] at h
    obtain ⟨hlimit, hresult⟩ := unless_eq_some_iff.mp h
    obtain rfl := Option.some.inj hresult
    rw [Array.size_append]
    refine ⟨le_rfl, hlimit, fun limit' hle => ?_⟩
    rw [if_pos hnone]
    exact unless_eq_some_iff.mpr ⟨hle, rfl⟩
  · simp only [if_neg hnone] at h ⊢
    obtain ⟨known, hknown, h⟩ := Option.bind_eq_some_iff.mp h
    obtain ⟨bits, hbits, h⟩ := Option.bind_eq_some_iff.mp h
    obtain ⟨⟨s1, bits1⟩, hread1, h⟩ := Option.bind_eq_some_iff.mp h
    obtain ⟨⟨s2, bits2⟩, hread2, h⟩ := Option.bind_eq_some_iff.mp h
    obtain ⟨⟨s3, bits3⟩, hread3, h⟩ := Option.bind_eq_some_iff.mp h
    obtain ⟨⟨p, out'⟩, hrun, h⟩ := Option.bind_eq_some_iff.mp h
    obtain ⟨hgrow, hsame⟩ := Sequences.run?_spec hrun
    dsimp only at h
    split at h
    · cases h
    · rename_i hend
      obtain rfl := Option.some.inj h
      have hsize : (Sequences.copyLiterals literals.bytes (literals.bytes.size - p.nextLiteral)
          p.nextLiteral out').size = Sequences.reach literals.bytes p out' := by
        rw [Sequences.size_copyLiterals, Sequences.reach]
      refine ⟨?_, ?_, fun limit' hle => ?_⟩
      · rw [hsize]
        exact hgrow
      · rw [hsize, Sequences.reach]
        omega
      · rw [hsize] at hle
        have hroom : ¬(p.bits.left ≠ 0 ∨
            limit' < out'.size + (literals.bytes.size - p.nextLiteral)) := by
          rw [Sequences.reach] at hle
          omega
        simp only [Option.bind_eq_bind, Option.bind_some, hknown, hbits, hread1, hread2, hread3,
          hsame limit' hle]
        exact if_neg hroom

theorem capped_runSequences? : Capped (fun r : Array UInt8 × Sequences.Recent => r.1.size)
    fun limit => runSequences? count tables b literals start limit recent out := by
  intro limit r h
  exact (runSequences?_spec h).2

end Zstd
end SealedEnvelope
