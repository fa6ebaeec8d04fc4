/-
# The content does not depend on the room for it

Compressed data is read into a buffer, and whether that succeeds depends on the
room in it. More room is not always better: where unused literals are kept
behind a block, the block has to end in front of them, though there is more room
than it would have without. What is read is another matter. Every reader adds to
its output, stays within the capacity, has one result at most whatever the
capacity, and has it also with less room as long as it fits (`Zstd.Fills`).

Key definition: `Zstd.Fills`.
Key theorems: `Zstd.fills_decodeBlock?`, `Zstd.fills_readBlocks?`,
`Zstd.fills_decompress?`.
-/
import SealedEnvelope.Proofs.Zstd.Limits

namespace SealedEnvelope
namespace Zstd

/-! ### Capacities -/

/-- Attempts under all capacities to add to an output of `n` bytes: nothing is taken away, nothing
goes beyond the capacity, no two attempts differ in what they have read, and what an attempt has
read is also read with less room, as long as it fits. -/
structure Fills {α : Type} (n : Nat) (size : α → Nat) (a : Nat → Option α) : Prop where
  grows : ∀ {capacity x}, a capacity = some x → n ≤ size x
  fits : ∀ {capacity x}, n ≤ capacity → a capacity = some x → size x ≤ capacity
  unique : ∀ {capacity capacity' x y}, a capacity = some x → a capacity' = some y → x = y
  shrinks : ∀ {capacity room x}, a capacity = some x → size x ≤ room → room ≤ capacity →
    a room = some x

section

variable {α β : Type} {n : Nat} {size : α → Nat} {a a' : Nat → Option α}

theorem fills_none : Fills n size fun _ => none where
  grows h := nomatch h
  fits _ h := nomatch h
  unique h := nomatch h
  shrinks h := nomatch h

theorem fills_some (x : α) (hx : size x = n) : Fills n size fun _ => some x where
  grows h := by rw [← Option.some.inj h, hx]
  fits hn h := by rwa [← Option.some.inj h, hx]
  unique h h' := Option.some.inj (h.symm.trans h')
  shrinks h _ _ := h

/-- What was added first and what is added to it. -/
theorem Fills.bind {size' : β → Nat} {f : α → Nat → Option β} (ha : Fills n size a)
    (hf : ∀ x, Fills (size x) size' (f x)) :
    Fills n size' fun capacity => a capacity >>= fun x => f x capacity where
  grows h := by
    obtain ⟨x, hx, h⟩ := Option.bind_eq_some_iff.mp h
    exact le_trans (ha.grows hx) ((hf x).grows h)
  fits hn h := by
    obtain ⟨x, hx, h⟩ := Option.bind_eq_some_iff.mp h
    exact (hf x).fits (ha.fits hn hx) h
  unique h h' := by
    obtain ⟨x, hx, h⟩ := Option.bind_eq_some_iff.mp h
    obtain ⟨x', hx', h'⟩ := Option.bind_eq_some_iff.mp h'
    obtain rfl := ha.unique hx hx'
    exact (hf x).unique h h'
  shrinks h hroom hle := by
    obtain ⟨x, hx, h⟩ := Option.bind_eq_some_iff.mp h
    have hfirst := ha.shrinks hx (le_trans ((hf x).grows h) hroom) hle
    exact Option.bind_eq_some_iff.mpr ⟨x, hfirst, (hf x).shrinks h hroom hle⟩

/-- Steps that read nothing but the input come in between. -/
theorem Fills.after (x : Option β) {f : β → Nat → Option α} (h : ∀ y, Fills n size (f y)) :
    Fills n size fun capacity => x >>= fun y => f y capacity := by
  cases x with
  | none => exact fills_none
  | some y => exact h y

theorem Fills.ite {p : Prop} [Decidable p] (h : Fills n size a) (h' : Fills n size a') :
    Fills n size fun capacity => if p then a capacity else a' capacity := by
  by_cases hp : p
  · simp only [if_pos hp]
    exact h
  · simp only [if_neg hp]
    exact h'

theorem Fills.congr (h : Fills n size a) (ha : ∀ capacity, a capacity = a' capacity) :
    Fills n size a' := by
  rwa [← funext ha]

/-- A step that adds `k` bytes is taken where there is room for them. -/
theorem Fills.room {k : Nat} (h : Fills (n + k) size a) :
    Fills n size fun capacity => if capacity < n + k then none else a capacity where
  grows ha := by
    obtain ⟨-, ha⟩ := unless_eq_some_iff.mp ha
    exact le_trans (Nat.le_add_right n k) (h.grows ha)
  fits _ ha := by
    obtain ⟨hroom, ha⟩ := unless_eq_some_iff.mp ha
    exact h.fits hroom ha
  unique ha ha' := by
    obtain ⟨-, ha⟩ := unless_eq_some_iff.mp ha
    obtain ⟨-, ha'⟩ := unless_eq_some_iff.mp ha'
    exact h.unique ha ha'
  shrinks ha hroom hle := by
    obtain ⟨-, ha⟩ := unless_eq_some_iff.mp ha
    exact unless_eq_some_iff.mpr ⟨le_trans (h.grows ha) hroom, h.shrinks ha hroom hle⟩

end

/-! ### Blocks -/

theorem blockEnd_le {blockLimit capacity size : Nat} (literals : Literals) :
    blockEnd blockLimit capacity size literals ≤ capacity := by
  unfold blockEnd
  dsimp only
  split
  · omega
  · exact le_rfl

/-- Less room ends a block earlier only where it is used up. -/
theorem le_blockEnd {blockLimit capacity room size n : Nat} {literals : Literals}
    (h : n ≤ blockEnd blockLimit capacity size literals) (hn : n ≤ room) (hle : room ≤ capacity) :
    n ≤ blockEnd blockLimit room size literals := by
  unfold blockEnd at h ⊢
  dsimp only at h ⊢
  by_cases hbehind : ¬literals.direct ∧
      blockLimit + Literals.slack + literals.bytes.size + Literals.slack < room - size
  · have hmore : ¬literals.direct ∧
        blockLimit + Literals.slack + literals.bytes.size + Literals.slack < capacity - size :=
      ⟨hbehind.1, lt_of_lt_of_le hbehind.2 (Nat.sub_le_sub_right hle size)⟩
    rw [if_pos hmore] at h
    rw [if_pos hbehind]
    exact h
  · rw [if_neg hbehind]
    exact hn

variable {blockLimit capacity start : Nat}

theorem decodeBlock?_eq_some_iff {m m' : Memory} {b : Bytes} {out out' : Array UInt8} :
    decodeBlock? blockLimit capacity start m b out = some (out', m') ↔
      ∃ literals rest count tables rest' recent,
        Literals.read? (min blockLimit (capacity - out.size)) m.huffman b =
          some (literals, rest) ∧
        Sequences.readHeader? m.tables rest = some (count, tables, rest') ∧
        runSequences? count tables rest' literals start
          (blockEnd blockLimit capacity out.size literals) m.recent out = some (out', recent) ∧
        m' = ⟨literals.table, tables, recent⟩ := by
  unfold decodeBlock?
  constructor
  · intro h
    obtain ⟨⟨literals, rest⟩, hliterals, h⟩ := Option.bind_eq_some_iff.mp h
    obtain ⟨⟨count, tables, rest'⟩, hheader, h⟩ := Option.bind_eq_some_iff.mp h
    obtain ⟨⟨result, recent⟩, hrun, h⟩ := Option.bind_eq_some_iff.mp h
    obtain ⟨rfl, rfl⟩ := Prod.mk.inj (Option.some.inj h)
    exact ⟨literals, rest, count, tables, rest', recent, hliterals, hheader, hrun, rfl⟩
  · rintro ⟨literals, rest, count, tables, rest', recent, hliterals, hheader, hrun, rfl⟩
    simp only [Option.bind_eq_bind, hliterals, hheader, hrun, Option.bind_some]
    rfl

theorem fills_decodeBlock? (blockLimit start : Nat) (m : Memory) (b : Bytes)
    (out : Array UInt8) :
    Fills out.size (fun r : Array UInt8 × Memory => r.1.size)
      fun capacity => decodeBlock? blockLimit capacity start m b out where
  grows {capacity r} h := by
    obtain ⟨literals, rest, count, tables, rest', recent, -, -, hrun, -⟩ :=
      decodeBlock?_eq_some_iff.mp h
    exact le_trans (Nat.le_add_right _ _) (runSequences?_spec hrun).1
  fits {capacity r} _ h := by
    obtain ⟨literals, rest, count, tables, rest', recent, -, -, hrun, -⟩ :=
      decodeBlock?_eq_some_iff.mp h
    exact le_trans (runSequences?_spec hrun).2.1 (blockEnd_le literals)
  unique {capacity capacity' r r'} h h' := by
    obtain ⟨literals, rest, count, tables, rest', recent, hliterals, hheader, hrun, hm⟩ :=
      decodeBlock?_eq_some_iff.mp h
    obtain ⟨_, _, _, _, _, _, hliterals', hheader', hrun', hm'⟩ := decodeBlock?_eq_some_iff.mp h'
    obtain ⟨rfl, rfl⟩ :=
      Prod.mk.inj ((Literals.capped_read? m.huffman b).unique hliterals hliterals')
    rw [hheader] at hheader'
    cases hheader'
    obtain ⟨hout, rfl⟩ := Prod.mk.inj (capped_runSequences?.unique hrun hrun')
    exact Prod.ext hout (hm.trans hm'.symm)
  shrinks {capacity room r} h hroom hle := by
    obtain ⟨literals, rest, count, tables, rest', recent, hliterals, hheader, hrun, hm⟩ :=
      decodeBlock?_eq_some_iff.mp h
    obtain ⟨hfit, hless⟩ := Literals.capped_read? m.huffman b _ _ hliterals
    obtain ⟨hgrow, hend, hshort⟩ := runSequences?_spec hrun
    dsimp only at hfit hless hgrow hend hshort hroom
    -- The literals all get into the output, so they fit where the output does.
    have hread := hless (min blockLimit (room - out.size)) (by omega)
    have hlimit := le_blockEnd hend hroom hle
    exact decodeBlock?_eq_some_iff.mpr
      ⟨literals, rest, count, tables, rest', recent, hread, hheader, hshort _ hlimit, hm⟩

theorem fills_readBlocks? (blockLimit start : Nat) :
    ∀ (limit : Nat) (m : Memory) (out : Array UInt8) (b : Bytes),
      Fills out.size (fun r : Array UInt8 × Bytes => r.1.size)
        fun capacity => readBlocks? blockLimit capacity start limit m out b
  | 0, m, out, b => fills_none
  | limit + 1, m, out, b => by
    -- After the last block there is nothing to do, and after any other the rest follows.
    have hnext : ∀ (last : Prop) [Decidable last] (m : Memory) (out : Array UInt8) (b : Bytes),
        Fills out.size (fun r : Array UInt8 × Bytes => r.1.size) fun capacity =>
          if last then some (out, b)
          else readBlocks? blockLimit capacity start limit m out b := by
      intro last _ m out b
      have hrest := fills_readBlocks? blockLimit start limit m out b
      exact Fills.ite (fills_some _ rfl) hrest
    simp only [readBlocks?]
    rcases readNumber? 3 b with _ | ⟨header, b⟩
    · exact fills_none
    dsimp only
    generalize header / 2 % 4 = kind
    match kind with
    | 0 =>
      rcases hsplit : Bytes.splitExact? (header / 8) b with _ | ⟨content, b⟩
      · exact fills_none
      have hsize : (content.foldl Array.push out).size = out.size + header / 8 := by
        rw [← (Bytes.splitExact?_eq_some_iff.mp hsplit).2]
        simp only [List.foldl_push_eq_append', Array.size_append, List.size_toArray]
      refine Fills.room ?_
      rw [← hsize]
      exact hnext _ _ _ _
    | 1 =>
      rcases b with _ | ⟨x, b⟩
      · exact fills_none
      have hsize : (out ++ Array.replicate (header / 8) x).size = out.size + header / 8 := by
        rw [Array.size_append, Array.size_replicate]
      refine Fills.room ?_
      rw [← hsize]
      exact hnext _ _ _ _
    | 2 =>
      rcases Bytes.splitExact? (header / 8) b with _ | ⟨content, b⟩
      · exact fills_none
      refine Fills.ite fills_none ?_
      have hblock := fills_decodeBlock? blockLimit start m content out
      refine (hblock.bind fun r => hnext (header % 2 = 1) r.2 r.1 b).congr fun capacity => ?_
      cases decodeBlock? blockLimit capacity start m content out with
      | none => rfl
      | some r => rfl
    | _ + 3 => exact fills_none

/-! ### Frames -/

theorem fills_readFrame? (limit : Nat) (out : Array UInt8) (b : Bytes) :
    Fills out.size (fun r : Array UInt8 × Bytes => r.1.size)
      fun capacity => readFrame? capacity limit out b := by
  unfold readFrame?
  refine Fills.after (readFrameHeader? b) fun ⟨h, b⟩ => ?_
  refine (fills_readBlocks? h.blockLimit out.size limit .initial out b).bind fun ⟨result, b⟩ => ?_
  -- The blocks are all that is read; what follows checks them.
  refine Fills.ite fills_none (Fills.ite ?_ (fills_some _ rfl))
  refine Fills.after (readNumber? 4 b) fun ⟨expected, b⟩ => ?_
  exact Fills.ite (fills_some _ rfl) fills_none

theorem fills_readFrames? (length : Nat) :
    ∀ (limit : Nat) (out : Array UInt8) (b : Bytes),
      Fills out.size Array.size fun capacity => readFrames? capacity length limit out b
  | 0, out, b => fills_none
  | limit + 1, out, b => by
    simp only [readFrames?]
    refine Fills.ite (fills_some _ rfl) ?_
    rcases readNumber? 4 b with _ | ⟨magic, b⟩
    · exact fills_none
    refine Fills.ite ?_ (Fills.ite ?_ fills_none)
    · -- A frame that is skipped.
      rcases readNumber? 4 b with _ | ⟨size, b⟩
      · exact fills_none
      dsimp only
      rcases Bytes.splitExact? size b with _ | ⟨skipped, b⟩
      · exact fills_none
      · exact fills_readFrames? length limit out b
    · -- A frame that is read.
      have hframe := fills_readFrame? length out b
      refine (hframe.bind fun r => fills_readFrames? length limit r.1 r.2).congr fun capacity => ?_
      cases readFrame? capacity length out b with
      | none => rfl
      | some r => rfl

theorem fills_decompress? (b : Bytes) :
    Fills 0 List.length fun capacity => decompress? capacity b := by
  have hframes := fills_readFrames? b.length (b.length + 1) #[] b
  refine (hframes.bind fun out => fills_some out.toList rfl).congr fun capacity => ?_
  simp only [decompress?]
  cases readFrames? capacity b.length (b.length + 1) #[] b with
  | none => rfl
  | some out => rfl

end Zstd
end SealedEnvelope
