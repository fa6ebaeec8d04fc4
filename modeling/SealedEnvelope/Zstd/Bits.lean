/-
# Bit streams

Inside a compressed block numbers are packed without regard to bytes. A table
description is read forwards, lowest bit first. The coded streams are read
backwards: the highest bit set in the last byte marks the end, and every read
takes the bits just below those taken before.

Key definitions: `ForwardBits`, `ForwardBits.read`, `BackwardBits`,
`BackwardBits.ofBytes?`, `BackwardBits.peek`, `BackwardBits.read?`.
-/
import SealedEnvelope.Bytes

namespace SealedEnvelope
namespace Zstd

/-- Bits to be read forwards, as a number, and how many have been read. Beyond the end there
are zeros. -/
structure ForwardBits where
  value : Nat
  used : Nat

namespace ForwardBits

/-- The bits of a byte string. -/
def ofBytes (b : Bytes) : ForwardBits := ⟨Bytes.toNat b.reverse, 0⟩

/-- The next `n` bits without taking them. -/
def peek (s : ForwardBits) (n : Nat) : Nat := s.value % 1 <<< n

/-- The stream after `n` bits. -/
def skip (s : ForwardBits) (n : Nat) : ForwardBits := ⟨s.value >>> n, s.used + n⟩

/-- The next `n` bits, and the stream after them. -/
def read (s : ForwardBits) (n : Nat) : Nat × ForwardBits := (s.peek n, s.skip n)

/-- The number of bytes of which at least one bit has been read. -/
def bytesUsed (s : ForwardBits) : Nat := (s.used + 7) / 8

end ForwardBits

/-- Bits to be read backwards: those of `bytes`, lowest first, below position `left`. -/
structure BackwardBits where
  bytes : Array UInt8
  left : Nat

namespace BackwardBits

/-- The bits below the end mark, which is the highest bit set in the last byte. -/
def ofBytes? (b : Bytes) : Option BackwardBits :=
  let bytes := b.toArray
  match bytes.back? with
  | none => none
  | some 0 => none
  | some last => some ⟨bytes, 8 * (bytes.size - 1) + last.toNat.log2⟩

/-- The little-endian number of `n` bytes from index `i` on. -/
def gather (bytes : Array UInt8) : (n i : Nat) → Nat
  | 0, _ => 0
  | n + 1, i => (bytes.getD i 0).toNat + 256 * gather bytes n (i + 1)

/-- The `n` bits from position `low` on. -/
def bitsAt (bytes : Array UInt8) (low n : Nat) : Nat :=
  (gather bytes ((low + n + 7) / 8 - low / 8) (low / 8)) >>> (low % 8) % 1 <<< n

/-- The next `n` bits without taking them, with zeros where there are no more. -/
def peek (s : BackwardBits) (n : Nat) : Nat :=
  if n ≤ s.left then bitsAt s.bytes (s.left - n) n
  else bitsAt s.bytes 0 s.left <<< (n - s.left)

/-- The stream after `n` bits, if there are that many. -/
def skip? (s : BackwardBits) (n : Nat) : Option BackwardBits :=
  if n ≤ s.left then some { s with left := s.left - n } else none

/-- The next `n` bits, if there are that many, and the stream after them. -/
def read? (s : BackwardBits) (n : Nat) : Option (Nat × BackwardBits) :=
  (s.skip? n).map fun rest => (s.peek n, rest)

end BackwardBits
end Zstd
end SealedEnvelope
