/-
# Poly1305

The one-time authenticator of RFC 8439: the chunks of a message are the
coefficients of a polynomial, evaluated at the secret point `r` modulo the
prime `2^130 - 5`, and the secret `s` is added modulo `2^128`.

Key definitions: `Poly1305.evaluate`, `poly1305`.
-/
import SealedEnvelope.Bytes

namespace SealedEnvelope
namespace Poly1305

/-- The prime `2^130 - 5`. -/
def prime : Nat := 2 ^ 130 - 5

/-- A byte string read as a little-endian number. -/
def littleEndian (b : Bytes) : Nat := Bytes.toNat b.reverse

/-- The secret point, with the bits cleared that the authenticator does not use. -/
def clamp (r : Nat) : Nat := r &&& 0x0ffffffc0ffffffc0ffffffc0fffffff

/-- The value of the polynomial after `chunks` more chunks of sixteen bytes, the last of
which may be shorter. -/
def evaluate (r : Nat) : Nat → Nat → Bytes → Nat
  | 0, acc, _ => acc
  | chunks + 1, acc, b =>
    evaluate r chunks ((acc + littleEndian (b.take 16 ++ [1])) * r % prime) (b.drop 16)

end Poly1305

open Poly1305 in
/-- The tag of sixteen bytes of a message under a one-time key of 32 bytes. -/
def poly1305 (key message : Bytes) : Bytes :=
  let r := clamp (littleEndian (key.take 16))
  let s := littleEndian ((key.drop 16).take 16)
  let value := evaluate r ((message.length + 15) / 16) 0 message
  (Bytes.ofNatWidth 16 (value + s)).reverse

@[simp] theorem length_poly1305 (key message : Bytes) : (poly1305 key message).length = 16 := by
  simp [poly1305]

end SealedEnvelope
