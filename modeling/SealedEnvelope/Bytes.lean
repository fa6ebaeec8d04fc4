/-
# Byte strings

A byte string is a list of bytes. This module holds the views of a byte string
that the rest of the library reads and writes: a big-endian number (of any
width, of a fixed width, of the least width), UTF-8 text and lower-case
hexadecimal digits.

Key definitions: `Bytes`, `Bytes.toNat`, `Bytes.ofNatWidth`, `Bytes.ofNat`,
`Bytes.ofText`, `Bytes.toText?`, `Bytes.toHex`, `Bytes.ofHex?`,
`Bytes.splitExact?`.
Key lemmas: `Bytes.length_ofNatWidth`, `Bytes.splitExact?_eq_some_iff`.
-/

-- Powers with literal exponents are those of core, also where other structures have powers.
attribute [default_instance 20000] instPowNat

namespace SealedEnvelope

/-- A byte string. -/
abbrev Bytes := List UInt8

/-- The number of binary digits of `n`; zero has none. -/
def bitLength (n : Nat) : Nat := if n = 0 then 0 else n.log2 + 1

/-- The least number of bytes that hold `n`; zero needs none. -/
def byteLength (n : Nat) : Nat := (bitLength n + 7) / 8

namespace Bytes

/-! ### Numbers -/

/-- A byte string read as a big-endian number; the empty string is zero. -/
def toNat (b : Bytes) : Nat := b.foldl (fun n x => n * 256 + x.toNat) 0

/-- The `width` low-order bytes of `n`, most significant first, before `tail`. -/
def prependNat : Nat → Nat → Bytes → Bytes
  | 0, _, tail => tail
  | width + 1, n, tail => prependNat width (n / 256) (UInt8.ofNat n :: tail)

/-- The `width` low-order bytes of `n`, most significant first. -/
def ofNatWidth (width n : Nat) : Bytes := prependNat width n []

/-- The big-endian bytes of `n` without leading zeros; zero is the empty string. -/
def ofNat (n : Nat) : Bytes := ofNatWidth (byteLength n) n

/-- The big-endian bytes of `n` without leading zeros, except that zero is one zero byte. -/
def ofNatDigits (n : Nat) : Bytes := if n = 0 then [0] else ofNat n

theorem length_prependNat (width n : Nat) (tail : Bytes) :
    (prependNat width n tail).length = width + tail.length := by
  induction width generalizing n tail with
  | zero => simp [prependNat]
  | succ width ih => rw [prependNat, ih, List.length_cons]; omega

@[simp] theorem length_ofNatWidth (width n : Nat) : (ofNatWidth width n).length = width := by
  simp [ofNatWidth, length_prependNat]

/-- The number `n` as eight big-endian bytes of a 64-bit word. -/
def ofUInt64 (n : UInt64) : Bytes := ofNatWidth 8 n.toNat

/-- A byte string without its leading zero bytes. -/
def trimLeadingZeros (b : Bytes) : Bytes := b.dropWhile (· == 0)

/-- `b` with zero bytes in front up to the length `width`. -/
def padLeft (width : Nat) (b : Bytes) : Bytes := List.replicate (width - b.length) 0 ++ b

/-- The bytewise exclusive or, as long as the shorter argument. -/
def xor (a b : Bytes) : Bytes := List.zipWith (· ^^^ ·) a b

@[simp] theorem length_xor (a b : Bytes) : (xor a b).length = min a.length b.length := by
  simp [xor]

/-- Adding a string of the same length twice changes nothing. -/
@[simp] theorem xor_xor_self {a b : Bytes} (h : a.length = b.length) : xor (xor a b) b = a := by
  induction a generalizing b with
  | nil => rfl
  | cons x a ih =>
    cases b with
    | nil => simp at h
    | cons y b =>
      have hb : xor (xor a b) b = a := ih (by simpa using h)
      simp only [xor, List.zipWith_cons_cons] at hb ⊢
      rw [hb, UInt8.xor_assoc, UInt8.xor_self, UInt8.xor_zero]

/-! ### Taking a string apart -/

/-- The first `n` bytes and the rest, if there are that many. -/
def splitExact? (n : Nat) (b : Bytes) : Option (Bytes × Bytes) :=
  let front := b.take n
  if front.length = n then some (front, b.drop n) else none

theorem splitExact?_eq_some_iff {n : Nat} {b front rest : Bytes} :
    splitExact? n b = some (front, rest) ↔ b = front ++ rest ∧ front.length = n := by
  simp only [splitExact?, Option.ite_none_right_eq_some, Option.some.injEq, Prod.mk.injEq]
  constructor
  · rintro ⟨h, rfl, rfl⟩
    exact ⟨(List.take_append_drop n b).symm, h⟩
  · rintro ⟨rfl, rfl⟩
    simp

/-! ### Text -/

/-- The UTF-8 bytes of a text. -/
def ofText (s : String) : Bytes := s.toByteArray.data.toList

/-- The text that a byte string spells in UTF-8, if it is well formed. -/
def toText? (b : Bytes) : Option String := String.fromUTF8? ⟨b.toArray⟩

theorem toText?_ofText (s : String) : toText? (ofText s) = some s := by
  have h : (⟨(ofText s).toArray⟩ : ByteArray) = s.toByteArray := by simp [ofText]
  rw [toText?, h, String.fromUTF8?, dif_pos s.isValidUTF8]
  rfl

/-- The digit that writes `n` in base sixteen. -/
def hexDigit (n : Nat) : Char :=
  Char.ofNat (if n < 10 then 48 + n else 87 + n)

/-- Two lower-case hexadecimal digits for every byte. -/
def toHex (b : Bytes) : String :=
  String.ofList (b.flatMap fun x => [hexDigit (x.toNat / 16), hexDigit (x.toNat % 16)])

/-- The number that a hexadecimal digit of either case stands for. -/
def hexValue? (c : Char) : Option Nat :=
  if '0' ≤ c ∧ c ≤ '9' then some (c.toNat - 48)
  else if 'a' ≤ c ∧ c ≤ 'f' then some (c.toNat - 87)
  else if 'A' ≤ c ∧ c ≤ 'F' then some (c.toNat - 55)
  else none

/-- The bytes that pairs of hexadecimal digits stand for, behind those of `front` reversed. -/
def ofHexDigits? : List Char → (front : Bytes) → Option Bytes
  | [], front => some front.reverse
  | [_], _ => none
  | c :: d :: rest, front =>
    match hexValue? c, hexValue? d with
    | some high, some low => ofHexDigits? rest (UInt8.ofNat (high * 16 + low) :: front)
    | _, _ => none

/-- The bytes that a text of hexadecimal digits stands for. -/
def ofHex? (s : String) : Option Bytes := ofHexDigits? s.toList []

end Bytes

/-- `n` as a hexadecimal number of at least `2 * width` digits behind `0x`. -/
def hexNumber (width n : Nat) : String := "0x" ++ (Bytes.ofNatWidth width n).toHex

end SealedEnvelope
