/-
# Byte strings as numbers

Reading a byte string as a big-endian number and writing a number with a fixed
width undo each other, and the least bytes of a number have no leading zero.
Cutting a string after its first part gives the two parts back.

Key theorems: `byteLength_le_iff`, `Bytes.toNat_ofNatWidth`, `Bytes.ofNatWidth_toNat`,
`Bytes.toNat_ofNat`, `Bytes.ofNat_eq_cons`.
-/
import Mathlib
import SealedEnvelope.Proofs.Number.Power

namespace SealedEnvelope

/-! ### Digits -/

theorem two_pow_le_of_bitLength {n : Nat} (h : 0 < n) : 2 ^ (bitLength n - 1) ≤ n := by
  rw [bitLength, if_neg (Nat.pos_iff_ne_zero.mp h), Nat.add_sub_cancel]
  exact Nat.log2_self_le (Nat.pos_iff_ne_zero.mp h)

theorem bitLength_le_iff {n k : Nat} : bitLength n ≤ k ↔ n < 2 ^ k := by
  constructor
  · intro h
    exact lt_of_lt_of_le (lt_two_pow_bitLength n) (Nat.pow_le_pow_right (by norm_num) h)
  · intro h
    rcases Nat.eq_zero_or_pos n with rfl | hn
    · simp [bitLength]
    · have h1 : 2 ^ (bitLength n - 1) < 2 ^ k := lt_of_le_of_lt (two_pow_le_of_bitLength hn) h
      have h2 := (Nat.pow_lt_pow_iff_right (by norm_num)).mp h1
      omega

theorem byteLength_le_iff {n k : Nat} : byteLength n ≤ k ↔ n < 256 ^ k := by
  have hpow : 256 ^ k = 2 ^ (8 * k) := by
    rw [pow_mul]
    norm_num
  rw [hpow, ← bitLength_le_iff, byteLength]
  omega

theorem lt_pow_byteLength (n : Nat) : n < 256 ^ byteLength n := byteLength_le_iff.mp (le_refl _)

theorem pow_byteLength_le {n : Nat} (h : 0 < n) : 256 ^ (byteLength n - 1) ≤ n := by
  by_contra hlt
  have hle := byteLength_le_iff.mpr (not_le.mp hlt)
  have hzero : byteLength n ≤ 0 := by omega
  have hn := byteLength_le_iff.mp hzero
  omega

theorem lt_byteLength_of_pow_le {k n : Nat} (h : 256 ^ k ≤ n) : k < byteLength n :=
  not_le.mp fun hle => absurd (byteLength_le_iff.mp hle) (not_lt.mpr h)

theorem byteLength_pos {n : Nat} (h : 0 < n) : 0 < byteLength n :=
  lt_byteLength_of_pow_le (by rwa [pow_zero])

namespace Bytes

/-! ### Reading a number -/

@[simp] theorem toNat_nil : toNat [] = 0 := rfl

theorem foldl_toNat (b : Bytes) : ∀ n : Nat,
    b.foldl (fun n x => n * 256 + x.toNat) n = n * 256 ^ b.length + b.toNat := by
  induction b with
  | nil => intro n; simp
  | cons x b ih =>
    intro n
    have hread : toNat (x :: b) = x.toNat * 256 ^ b.length + toNat b := by
      rw [toNat, List.foldl_cons, ih, Nat.zero_mul, Nat.zero_add]
    rw [List.foldl_cons, ih, hread, List.length_cons, pow_succ]
    ring

theorem toNat_cons (x : UInt8) (b : Bytes) :
    toNat (x :: b) = x.toNat * 256 ^ b.length + toNat b := by
  rw [toNat, List.foldl_cons, foldl_toNat, Nat.zero_mul, Nat.zero_add]

theorem toNat_zero_cons (b : Bytes) : toNat (0 :: b) = b.toNat := by
  rw [toNat_cons, UInt8.toNat_zero, Nat.zero_mul, Nat.zero_add]

theorem toNat_concat (b : Bytes) (x : UInt8) : toNat (b ++ [x]) = b.toNat * 256 + x.toNat := by
  rw [toNat, List.foldl_append]
  rfl

theorem toNat_lt (b : Bytes) : b.toNat < 256 ^ b.length := by
  induction b with
  | nil => simp
  | cons x b ih =>
    have hx : x.toNat + 1 ≤ 256 := x.toNat_lt
    calc toNat (x :: b) < x.toNat * 256 ^ b.length + 256 ^ b.length := by
          rw [toNat_cons]
          omega
      _ = (x.toNat + 1) * 256 ^ b.length := by ring
      _ ≤ 256 * 256 ^ b.length := Nat.mul_le_mul_right _ hx
      _ = 256 ^ (x :: b).length := by rw [List.length_cons, pow_succ']

theorem toNat_lt_of_length {b : Bytes} (h : b.length = 32) : b.toNat < 2 ^ 256 := by
  have hlt := toNat_lt b
  rw [h] at hlt
  exact lt_of_lt_of_eq hlt (by norm_num)

theorem toNat_inj {a b : Bytes} (hl : a.length = b.length) (h : a.toNat = b.toNat) : a = b := by
  induction a generalizing b with
  | nil => exact (List.length_eq_zero_iff.mp hl.symm).symm
  | cons x a ih =>
    cases b with
    | nil => simp at hl
    | cons y b =>
      have hl : a.length = b.length := by simpa using hl
      rw [toNat_cons, toNat_cons, hl] at h
      have ha : toNat a < 256 ^ b.length := hl ▸ toNat_lt a
      have hb : toNat b < 256 ^ b.length := toNat_lt b
      have hx : x.toNat = y.toNat := by
        have hquot := congrArg (· / 256 ^ b.length) h
        simpa only [Nat.add_comm (_ * _), Nat.add_mul_div_right _ _ (Nat.pow_pos (n := b.length)
          (Nat.zero_lt_succ 255)), Nat.div_eq_of_lt ha, Nat.div_eq_of_lt hb, Nat.zero_add]
          using hquot
      have htail : toNat a = toNat b := by
        rw [hx] at h
        omega
      rw [UInt8.toNat_inj.mp hx, ih hl htail]

/-! ### Writing a number -/

theorem toNat_prependNat (width n : Nat) (tail : Bytes) :
    toNat (prependNat width n tail) = n % 256 ^ width * 256 ^ tail.length + toNat tail := by
  induction width generalizing n tail with
  | zero => simp [prependNat, Nat.mod_one]
  | succ width ih =>
    have hdigit : (UInt8.ofNat n).toNat = n % 256 := by simp
    have hmod : n % 256 ^ (width + 1) = n / 256 % 256 ^ width * 256 + n % 256 := by
      rw [pow_succ', Nat.mod_mul]
      ring
    rw [prependNat, ih, toNat_cons, hdigit, hmod, List.length_cons, pow_succ]
    ring

theorem toNat_ofNatWidth (width n : Nat) : (ofNatWidth width n).toNat = n % 256 ^ width := by
  rw [ofNatWidth, toNat_prependNat]
  simp

/-- A number that fits into the width is read back. -/
theorem toNat_ofNatWidth_of_lt {width n : Nat} (h : n < 256 ^ width) :
    (ofNatWidth width n).toNat = n := by
  rw [toNat_ofNatWidth, Nat.mod_eq_of_lt h]

/-- The bytes of what was read, with the width of the string, are the string. -/
theorem ofNatWidth_toNat (b : Bytes) : ofNatWidth b.length b.toNat = b :=
  toNat_inj (length_ofNatWidth _ _) (toNat_ofNatWidth_of_lt (toNat_lt b))

@[simp] theorem toNat_ofNat (n : Nat) : (ofNat n).toNat = n :=
  toNat_ofNatWidth_of_lt (lt_pow_byteLength n)

@[simp] theorem toNat_ofNatDigits (n : Nat) : (ofNatDigits n).toNat = n := by
  rw [ofNatDigits]
  split
  · rename_i h
    rw [h]
    rfl
  · exact toNat_ofNat n

/-- The least bytes of a number do not begin with a zero. -/
theorem ofNat_eq_cons {n : Nat} (h : 0 < n) : ∃ x b, ofNat n = x :: b ∧ x ≠ 0 := by
  have hlen : (ofNat n).length = byteLength n := length_ofNatWidth _ _
  cases hb : ofNat n with
  | nil =>
    have := byteLength_pos h
    rw [hb, List.length_nil] at hlen
    omega
  | cons x b =>
    refine ⟨x, b, rfl, ?_⟩
    rintro rfl
    have hread : toNat (0 :: b) = n := by rw [← hb, toNat_ofNat]
    have hlow : 256 ^ (byteLength n - 1) ≤ n := pow_byteLength_le h
    rw [hb, List.length_cons] at hlen
    rw [toNat_zero_cons] at hread
    have hlt := toNat_lt b
    rw [← hlen, Nat.add_sub_cancel] at hlow
    omega

/-! ### Parts -/

@[simp] theorem splitExact?_append (a b : Bytes) :
    splitExact? a.length (a ++ b) = some (a, b) :=
  splitExact?_eq_some_iff.mpr ⟨rfl, rfl⟩

end Bytes

/-! ### The least bytes of what was read -/

theorem byteLength_toNat_le (b : Bytes) : byteLength b.toNat ≤ b.length :=
  byteLength_le_iff.mpr b.toNat_lt

/-- A number has at least one digit, even zero. -/
theorem Bytes.length_ofNatDigits (n : Nat) : (ofNatDigits n).length = max 1 (byteLength n) := by
  rcases Nat.eq_zero_or_pos n with rfl | hn
  · rfl
  · rw [ofNatDigits, if_neg (Nat.pos_iff_ne_zero.mp hn), ofNat, length_ofNatWidth]
    exact (max_eq_right (byteLength_pos hn)).symm

theorem Bytes.pow_length_le_toNat_cons {x : UInt8} {b : Bytes} (h : x ≠ 0) :
    256 ^ b.length ≤ toNat (x :: b) := by
  have hx : 0 < x.toNat := Nat.pos_of_ne_zero fun hzero => h (UInt8.toNat_inj.mp hzero)
  rw [toNat_cons]
  exact le_trans (Nat.le_mul_of_pos_left _ hx) (Nat.le_add_right _ _)

/-- A string that does not begin with a zero is the least bytes of its number. -/
theorem Bytes.ofNatDigits_toNat_cons {x : UInt8} {b : Bytes} (h : x ≠ 0) :
    ofNatDigits (toNat (x :: b)) = x :: b := by
  have hlength : (ofNatDigits (toNat (x :: b))).length = (x :: b).length := by
    have hle := byteLength_toNat_le (x :: b)
    have hlt := lt_byteLength_of_pow_le (pow_length_le_toNat_cons h (b := b))
    rw [List.length_cons] at hle ⊢
    rw [length_ofNatDigits]
    omega
  exact toNat_inj hlength (toNat_ofNatDigits _)
end SealedEnvelope
