/-
# Items that are taken out and written again

What an accessor takes out of an item can be written again in the one form that
the writer has. `Compact take put growth` bounds that form by the room that the
item took, in whatever form it was read: it is no longer than that by more than
`growth`. Strings, truth values and optional values do not grow at all. A
number grows if a big integer was shorter than its word, and an array does if
its head is longer than the two marks of an unbounded one.

Key definitions: `Cbor.Compact`, `Cbor.integerGrowth`, `Cbor.countGrowth`.
Key theorems: `Cbor.compact_word`, `Cbor.compact_bytes`, `Cbor.compact_bytesList`,
`Cbor.Compact.optional`.
-/
import SealedEnvelope.Proofs.Cbor.Extent
import SealedEnvelope.Proofs.Cbor.Fields

namespace SealedEnvelope
namespace Cbor

/-- What `take` finds in an item is written by `put` in at most `growth` bytes more than the item
took. -/
def Compact {α : Type} (take : Value → Option α) (put : α → Value) (growth : α → Nat) : Prop :=
  ∀ ⦃v : Value⦄ ⦃a : α⦄, v.extent < 2 ^ 32 → take v = some a →
    (put a).encode.length ≤ v.extent + growth a

/-! ### Numbers -/

/-- How much longer a number is as a word than as a big integer. -/
def integerGrowth (n : Nat) : Nat :=
  if n < 2 ^ 32 then 0 else if n < 2 ^ 40 then 2 else if n < 2 ^ 48 then 1 else 0

theorem headLength_le_integerExtent (n : Nat) :
    headLength n ≤ integerExtent n + integerGrowth n := by
  -- A head grows at 24 and at whole powers of 256; between them the digits decide.
  have h1 : 1 ≤ n → 0 < byteLength n := fun h => lt_byteLength_of_pow_le (by simpa using h)
  have h2 : 2 ^ 8 ≤ n → 1 < byteLength n := fun h => lt_byteLength_of_pow_le (by simpa using h)
  have h3 : 2 ^ 16 ≤ n → 2 < byteLength n := fun h => lt_byteLength_of_pow_le (by simpa using h)
  have h5 : 2 ^ 32 ≤ n → 4 < byteLength n := fun h => lt_byteLength_of_pow_le (by simpa using h)
  have h6 : 2 ^ 40 ≤ n → 5 < byteLength n := fun h => lt_byteLength_of_pow_le (by simpa using h)
  have h7 : 2 ^ 48 ≤ n → 6 < byteLength n := fun h => lt_byteLength_of_pow_le (by simpa using h)
  unfold integerExtent integerGrowth headLength
  split_ifs <;> omega

theorem length_encode_natCast (n : Nat) : (Value.int n).encode.length = headLength n := by
  rw [Value.encode, if_pos (Int.natCast_nonneg n), Int.toNat_natCast, length_headBytes]

namespace Value

theorem dropZeros_suffix (n : Nat) (b : Bytes) : dropZeros n b <:+ b := by
  fun_induction dropZeros n b with
  | case1 n b ih => exact ih.trans (List.suffix_cons _ _)
  | case2 n b _ => exact List.suffix_refl _

theorem lt_of_unsigned? {bound n : Nat} {v : Value} (h : v.unsigned? bound = some n) :
    n < bound := by
  unfold unsigned? at h
  split at h
  · split_ifs at h with hi
    obtain rfl := Option.some.inj h
    omega
  · dsimp only at h
    split_ifs at h with hdigits
    obtain rfl := Option.some.inj h
    exact hdigits.2
  · cases h

/-- A number in an item is either that item or the digits of a big integer. -/
theorem integerExtent_le_of_unsigned? {bound n : Nat} {v : Value} (h : v.unsigned? bound = some n) :
    integerExtent n ≤ v.extent := by
  unfold unsigned? at h
  split at h
  · rename_i i
    split_ifs at h with hi
    obtain rfl := Option.some.inj h
    rw [← extent_natCast, Int.toNat_of_nonneg hi.1]
  · rename_i digits
    dsimp only at h
    split_ifs at h with hdigits
    obtain rfl := Option.some.inj h
    have hshort : (shortenTo16 digits).length ≤ digits.length := (dropZeros_suffix _ _).length_le
    have hnumber := byteLength_toNat_le (shortenTo16 digits)
    have hle : integerExtent (shortenTo16 digits).toNat ≤
        byteLength (shortenTo16 digits).toNat + 2 := min_le_right _ _
    have hframing := framing_pos digits.length
    rw [extent, extent]
    omega
  · cases h

end Value

theorem compact_unsigned (bound : Nat) :
    Compact (Value.unsigned? bound) (fun n => .int n) integerGrowth := by
  intro v n _ h
  have hnumber := Value.integerExtent_le_of_unsigned? h
  have hhead := headLength_le_integerExtent n
  rw [length_encode_natCast]
  omega

theorem compact_word :
    Compact Value.word? (fun w => .int w.toNat) fun w => integerGrowth w.toNat := by
  intro v w hsize h
  obtain ⟨n, hn, rfl⟩ := Option.map_eq_some_iff.mp h
  have hlt : n < 2 ^ 64 := Value.lt_of_unsigned? hn
  have hback : (UInt64.ofNat n).toNat = n := UInt64.toNat_ofNat_of_lt' hlt
  dsimp only
  rw [hback]
  exact compact_unsigned _ hsize hn

/-! ### Strings -/

theorem length_encode_le_of_framing {major : Nat} {content : Bytes} {v : Value}
    (hsize : v.extent < 2 ^ 32) (h : framing content.length + content.length ≤ v.extent) :
    (headBytes major content.length ++ content).length ≤ v.extent := by
  have hlength : content.length < 2 ^ 32 := by omega
  rw [List.length_append, length_headBytes, ← framing_eq hlength]
  exact h

theorem compact_bytes : Compact Value.bytes? .bytes fun _ => 0 := by
  intro v s hsize h
  have hextent := v.extent_untagged_le
  unfold Value.bytes? at h
  split at h
  · rename_i content heq
    obtain rfl := Option.some.inj h
    rw [heq, Value.extent] at hextent
    exact length_encode_le_of_framing hsize hextent
  · cases h

theorem compact_text : Compact Value.text? .text fun _ => 0 := by
  intro v s hsize h
  have hextent := v.extent_untagged_le
  unfold Value.text? at h
  split at h
  · rename_i content heq
    obtain rfl := Option.some.inj h
    rw [heq, Value.extent] at hextent
    exact length_encode_le_of_framing hsize hextent
  · cases h

/-! ### Truth values and optional values -/

theorem compact_bool : Compact Value.bool? .bool fun _ => 0 := by
  intro v x _ _
  cases x <;> exact v.extent_pos

theorem Compact.optional {α : Type} {take : Value → Option α} {put : α → Value}
    (h : Compact take put fun _ => 0) :
    Compact (Value.optional? take) (Value.optional put) fun _ => 0 := by
  intro v o hsize ho
  unfold Value.optional? at ho
  split at ho
  · obtain rfl := Option.some.inj ho
    exact Value.extent_pos _
  · obtain ⟨a, ha, rfl⟩ := Option.map_eq_some_iff.mp ho
    exact h hsize ha

/-! ### Arrays -/

theorem Value.extent_le_of_items? {v : Value} {items : List Value} (h : v.items? = some items) :
    min (headLength items.length) 2 + extentOfList items ≤ v.extent := by
  have hextent := v.extent_untagged_le
  unfold items? at h
  split at h
  · rename_i found heq
    obtain rfl := Option.some.inj h
    rwa [heq, extent] at hextent
  · cases h

theorem Value.length_encode_array (items : List Value) :
    (array items).encode.length = headLength items.length + (encodeList items).length := by
  rw [encode, List.length_append, length_headBytes]

/-- The items of a tuple are written again as `fields` in at most `growth` bytes more than they
took. -/
def Fits (items fields : List Value) (growth : Nat) : Prop :=
  Value.extentOfList items < 2 ^ 32 →
    (Value.encodeList fields).length ≤ Value.extentOfList items + growth

theorem Fits.nil (items : List Value) : Fits items [] 0 := fun _ => Nat.zero_le _

theorem Fits.cons {α : Type} {take : Value → Option α} {put : α → Value} {growth : α → Nat}
    {v : Value} {a : α} {items fields : List Value} {more : Nat} (htake : Compact take put growth)
    (ha : take v = some a) (h : Fits items fields more) :
    Fits (v :: items) (put a :: fields) (growth a + more) := by
  intro hsize
  rw [Value.extentOfList] at hsize ⊢
  have hfirst := htake (by omega) ha
  have hmore := h (by omega)
  rw [Value.encodeList, List.length_append]
  omega

/-- The head of a short array takes one byte. -/
theorem Fits.length_encode_le {v : Value} {items fields : List Value} {growth : Nat}
    (h : Fits items fields growth) (hitems : v.items? = some items) (hcount : fields.length < 24)
    (hsize : v.extent < 2 ^ 32) : (Value.array fields).encode.length ≤ v.extent + growth := by
  have hextent := Value.extent_le_of_items? hitems
  have hpos := headLength_pos items.length
  have hlength := h (by omega)
  rw [Value.length_encode_array, headLength, if_pos hcount]
  omega

/-- How much longer the head of an array is than the marks of an unbounded one. -/
def countGrowth (n : Nat) : Nat := if n < 2 ^ 8 then 0 else if n < 2 ^ 16 then 1 else 3

theorem headLength_le_min {n : Nat} (h : n < 2 ^ 32) :
    headLength n ≤ min (headLength n) 2 + countGrowth n := by
  unfold countGrowth headLength
  split_ifs <;> omega

theorem length_encodeList_bytes_le {items : List Value} {bs : List Bytes}
    (hsize : Value.extentOfList items < 2 ^ 32) (h : items.mapM (·.bytes?) = some bs) :
    bs.length = items.length ∧
      (Value.encodeList (bs.map .bytes)).length ≤ Value.extentOfList items := by
  induction items generalizing bs with
  | nil =>
    cases h
    exact ⟨rfl, Nat.le_refl 0⟩
  | cons v items ih =>
    rw [List.mapM_cons] at h
    obtain ⟨b, hb, h⟩ := Option.bind_eq_some_iff.mp h
    obtain ⟨more, hmore, heq⟩ := Option.bind_eq_some_iff.mp h
    obtain rfl := Option.some.inj heq
    rw [Value.extentOfList] at hsize ⊢
    obtain ⟨hcount, hlength⟩ := ih (by omega) hmore
    have hfirst : (Value.bytes b).encode.length ≤ v.extent := compact_bytes (by omega) hb
    refine ⟨by rw [List.length_cons, List.length_cons, hcount], ?_⟩
    rw [List.map_cons, Value.encodeList, List.length_append]
    omega

theorem compact_bytesList :
    Compact (fun v => do (← v.items?).mapM (·.bytes?)) (fun bs => .array (bs.map .bytes))
      fun bs => countGrowth bs.length := by
  intro v bs hsize h
  obtain ⟨items, hitems, hbytes⟩ := Option.bind_eq_some_iff.mp h
  have hextent := Value.extent_le_of_items? hitems
  have hnumber := Value.length_le_extentOfList items
  obtain ⟨hcount, hlength⟩ := length_encodeList_bytes_le (by omega) hbytes
  have hhead := headLength_le_min (show items.length < 2 ^ 32 by omega)
  dsimp only
  rw [Value.length_encode_array, List.length_map, hcount]
  omega

end Cbor
end SealedEnvelope
