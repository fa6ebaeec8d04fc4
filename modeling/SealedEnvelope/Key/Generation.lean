/-
# Making keys

A new key is the product of two primes of about half its size, with the usual
public exponent and a random square as generator. An attempt that gives equal
primes, a product of the wrong size or an exponent without inverse is followed
by another one.

Key definitions: `PrivateKey.generate`, `PrivateKey.drawGenerator`.
-/
import SealedEnvelope.Key.Private
import SealedEnvelope.Number.Prime

namespace SealedEnvelope

/-- How a prime of so many binary digits is drawn; a source may fail to find one. -/
abbrev PrimeSource := (bits : Nat) → ByteStream → Option (Nat × ByteStream)

namespace PrivateKey

/-- The public exponent of new keys. -/
def usualExponent : Nat := 65537

/-- The least number of bits of a new modulus. -/
def minGeneratedBits : Nat := 512

/-- A random square modulo `n` in the range of generators, among at most `attempts`. -/
def drawGenerator (n : Nat) : (attempts : Nat) → ByteStream → Option (Nat × ByteStream)
  | 0, _ => none
  | attempts + 1, s =>
    let (random, s) := s.draw (byteLength n + 8)
    let square := powMod (random.toNat % n) 2 n
    if 2 ≤ square ∧ square < n - 1 then some (square, s) else drawGenerator n attempts s

/-- The modulus and the private exponent that two primes give, if they are distinct, their
product has `bits` bits and the usual exponent has an inverse. -/
def exponentPair? (bits p q : Nat) : Option (Nat × Nat) :=
  if p = q ∨ bitLength (p * q) ≠ bits then none
  else (invMod? usualExponent ((p - 1) * (q - 1))).map fun d => (p * q, d)

/-- The first modulus and private exponent that fit, among at most `attempts` pairs of primes. -/
def drawExponentPair (primes : PrimeSource) (bits : Nat) : (attempts : Nat) → ByteStream →
    Option ((Nat × Nat) × ByteStream)
  | 0, _ => none
  | attempts + 1, s => do
    let (p, s) ← primes (bits / 2) s
    let (q, s) ← primes (bits - bits / 2) s
    match exponentPair? bits p q with
    | some pair => some (pair, s)
    | none => drawExponentPair primes bits attempts s

/-- A new key with a modulus of `bits` bits, and the stream after it; absent if `attempts` are
not enough. -/
def generate (primes : PrimeSource) (attempts bits : Nat) (s : ByteStream) :
    Option (Except CryptoError PrivateKey × ByteStream) :=
  if bits < minGeneratedBits then
    some (.error (.modulusTooSmall bits (minGeneratedBits - 1)), s)
  else do
    let ((n, d), s) ← drawExponentPair primes bits attempts s
    let (g, s) ← drawGenerator n attempts s
    return (ofComponents n usualExponent d g, s)

end PrivateKey
end SealedEnvelope
