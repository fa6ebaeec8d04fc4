/-
# Streams of random bytes

All randomness comes from an endless stream of bytes. A request takes the next
bytes, so a program that draws is a function of the stream, and its result
comes with the stream from where it was left.

Key definitions: `ByteStream`, `ByteStream.draw`.
-/
import SealedEnvelope.Bytes

namespace SealedEnvelope

/-- An endless stream of bytes and the number of bytes already taken from it. -/
structure ByteStream where
  byteAt : Nat → UInt8
  position : Nat

namespace ByteStream

/-- The stream of a function, from its beginning. -/
def ofFunction (f : Nat → UInt8) : ByteStream := ⟨f, 0⟩

/-- The next `n` bytes, and the stream after them. -/
def draw (s : ByteStream) (n : Nat) : Bytes × ByteStream :=
  ((List.range n).map fun i => s.byteAt (s.position + i), { s with position := s.position + n })

@[simp] theorem length_draw (s : ByteStream) (n : Nat) : (s.draw n).1.length = n := by
  simp [draw]

/-- The stream from the next multiple of `n` bytes on. -/
def align (s : ByteStream) (n : Nat) : ByteStream :=
  { s with position := (s.position + n - 1) / n * n }

end ByteStream
end SealedEnvelope
